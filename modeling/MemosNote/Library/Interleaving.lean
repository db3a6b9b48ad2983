import Mathlib.Logic.Function.Basic
import Mathlib.Logic.Relation

/-!
# Interleaved processes

Any number of processes act on a shared state, one atomic action at a time and in any order.  The
answer to an action and the state after it are those that a relation admits; an action that it
admits nowhere waits.

A process is checked alone: its assertions hold whatever the others do, as long as each of them
keeps the invariant and its guarantee.

Main results:

- Theorem {lit}`Process.Obeys.bind`, Theorem {lit}`Process.Obeys.bindExcept`: a sequence obeys a
  discipline when its parts do.
- Theorem {lit}`Pool.obeys_of_reaches`: in every reachable pool the invariant holds and every
  thread still obeys the discipline.
- Theorem {lit}`Pool.of_finished`: what a finished thread has established holds from then on.
- Theorem {lit}`Pool.reaches_play`: what a schedule leads to under a deterministic system is
  reachable.
-/

namespace MemosNote
namespace Library

/-- A process performs actions {lit}`A` and goes on according to their answers. -/
inductive Process (A : Type) (ρ : A → Type) (α : Type) : Type where
  | done (a : α)
  | act (action : A) (next : ρ action → Process A ρ α)

namespace Process

variable {A : Type} {ρ : A → Type} {α β ε ι S : Type}

/-- Continue after a process is done. -/
protected def bind : Process A ρ α → (α → Process A ρ β) → Process A ρ β
  | done a, f => f a
  | act a next, f => act a fun r => (next r).bind f

instance : Monad (Process A ρ) where
  pure := done
  bind := Process.bind

/-- A single action. -/
def perform (a : A) : Process A ρ (ρ a) :=
  act a done

/-- A process as a part of one that may fail, its error rewritten. -/
def call {ε' : Type} (fail : ε' → ε) (x : Process A ρ (Except ε' α)) : ExceptT ε (Process A ρ) α :=
  ExceptT.mk (x >>= fun result => pure (result.mapError fail))

end Process

/-- What the threads agree on: an invariant, and what each of them may do to the state, which
includes nothing. -/
structure Discipline (ι S : Type) where
  Invariant : S → Prop
  Guarantee : ι → S → S → Prop
  guarantee_refl : ∀ p s, Guarantee p s s

/-- An assertion of one thread that no other thread falsifies. -/
def Discipline.Stable {ι S : Type} (D : Discipline ι S) (p : ι) (P : S → Prop) : Prop :=
  ∀ q s s', q ≠ p → D.Invariant s → D.Guarantee q s s' → P s → P s'

namespace Discipline

variable {ι S : Type} {D : Discipline ι S} {p : ι} {P Q : S → Prop}

theorem stable_true : D.Stable p fun _ => True :=
  fun _ _ _ _ _ _ _ => trivial

theorem stable_const {c : Prop} : D.Stable p fun _ => c :=
  fun _ _ _ _ _ _ hs => hs

theorem Stable.and (hP : D.Stable p P) (hQ : D.Stable p Q) : D.Stable p fun s => P s ∧ Q s := by
  intro q s s' hq hinv hguarantee hs
  exact ⟨hP q s s' hq hinv hguarantee hs.1, hQ q s s' hq hinv hguarantee hs.2⟩

theorem stable_forall {α : Type} {P : α → S → Prop} (h : ∀ a, D.Stable p (P a)) :
    D.Stable p fun s => ∀ a, P a s :=
  fun q s s' hq hinv hguarantee hs a => h a q s s' hq hinv hguarantee (hs a)

/-- An assertion under a condition on something else than the state. -/
theorem Stable.imp {c : Prop} (hP : D.Stable p P) : D.Stable p fun s => c → P s :=
  fun q s s' hq hinv hguarantee hs hc => hP q s s' hq hinv hguarantee (hs hc)

end Discipline

namespace Process

variable {A : Type} {ρ : A → Type} {α β ε ι S : Type}
variable (acts : ι → S → (a : A) → ρ a → S → Prop) (D : Discipline ι S) (p : ι)

/-- From a state with the assertion, each action of thread {lit}`p` keeps the invariant and the
guarantee and leads to a stable assertion, and the end to the postcondition. -/
def Obeys (post : α → S → Prop) : Process A ρ α → (S → Prop) → Prop
  | done a, pre => ∀ s, D.Invariant s → pre s → post a s
  | act a next, pre => ∀ r, ∃ mid, D.Stable p mid ∧
      (∀ s s', D.Invariant s → pre s → acts p s a r s' →
        D.Invariant s' ∧ D.Guarantee p s s' ∧ mid s') ∧
      Obeys post (next r) mid

variable {acts D p}

namespace Obeys

theorem weaken {post : α → S → Prop} {x : Process A ρ α} {pre pre' : S → Prop}
    (h : x.Obeys acts D p post pre') (hpre : ∀ s, D.Invariant s → pre s → pre' s) :
    x.Obeys acts D p post pre := by
  cases x with
  | done a =>
      intro s hinv hs
      exact h s hinv (hpre s hinv hs)
  | act a next =>
      intro r
      rcases h r with ⟨mid, hstable, hstep, hnext⟩
      exact ⟨mid, hstable, fun s s' hinv hs => hstep s s' hinv (hpre s hinv hs), hnext⟩

theorem imp {post post' : α → S → Prop} {x : Process A ρ α} {pre : S → Prop}
    (h : x.Obeys acts D p post pre) (himp : ∀ a s, post a s → post' a s) :
    x.Obeys acts D p post' pre := by
  induction x generalizing pre with
  | done a => exact fun s hinv hs => himp a s (h s hinv hs)
  | act a next ih =>
      intro r
      rcases h r with ⟨mid, hstable, hstep, hnext⟩
      exact ⟨mid, hstable, hstep, ih r hnext⟩

/-- Nothing happens from states that do not occur. -/
theorem vacuous {post : α → S → Prop} (x : Process A ρ α) {pre : S → Prop}
    (h : ∀ s, D.Invariant s → ¬pre s) : x.Obeys acts D p post pre := by
  induction x generalizing pre with
  | done a => exact fun s hinv hs => absurd hs (h s hinv)
  | act a next ih =>
      intro r
      refine ⟨fun _ => False, Discipline.stable_const, fun s s' hinv hs => ?_, ih r fun _ _ => id⟩
      exact absurd hs (h s hinv)

/-- What the assertion implies regardless of the state may be assumed. -/
theorem assuming {c : Prop} {post : α → S → Prop} {x : Process A ρ α} {pre : S → Prop}
    (hc : ∀ s, D.Invariant s → pre s → c) (h : c → x.Obeys acts D p post pre) :
    x.Obeys acts D p post pre := by
  by_cases hholds : c
  · exact h hholds
  · exact vacuous x fun s hinv hs => hholds (hc s hinv hs)

/-- A sequence obeys when its parts do. -/
theorem bind {post : β → S → Prop} {mid : α → S → Prop} {x : Process A ρ α}
    {f : α → Process A ρ β} {pre : S → Prop} (hx : x.Obeys acts D p mid pre)
    (hf : ∀ a, (f a).Obeys acts D p post (mid a)) : (x >>= f).Obeys acts D p post pre := by
  induction x generalizing pre with
  | done a => exact (hf a).weaken hx
  | act a next ih =>
      intro r
      rcases hx r with ⟨mid', hstable, hstep, hnext⟩
      exact ⟨mid', hstable, hstep, ih r hnext⟩

theorem pure {post : α → S → Prop} {pre : S → Prop} {a : α}
    (h : ∀ s, D.Invariant s → pre s → post a s) :
    (Pure.pure a : Process A ρ α).Obeys acts D p post pre :=
  h

/-- An action leads to stable assertions. -/
theorem perform {a : A} {post : ρ a → S → Prop} {pre : S → Prop}
    (hstable : ∀ r, D.Stable p (post r))
    (hstep : ∀ r s s', D.Invariant s → pre s → acts p s a r s' →
      D.Invariant s' ∧ D.Guarantee p s s' ∧ post r s') :
    (Process.perform a : Process A ρ (ρ a)).Obeys acts D p post pre :=
  fun r => ⟨post r, hstable r, hstep r, fun _ _ hs => hs⟩

/-- An action that leaves the state as it is. -/
theorem observe {a : A} {post : ρ a → S → Prop} {pre : S → Prop}
    (hread : ∀ s r s', acts p s a r s' → s' = s) (hstable : ∀ r, D.Stable p (post r))
    (h : ∀ r s, D.Invariant s → pre s → acts p s a r s → post r s) :
    (Process.perform a : Process A ρ (ρ a)).Obeys acts D p post pre := by
  refine perform hstable fun r s s' hinv hs hact => ?_
  have hsame := hread s r s' hact
  subst hsame
  exact ⟨hinv, D.guarantee_refl p s', h r s' hinv hs hact⟩

/-! ## Processes that may fail -/

/-- A sequence that stops at the first failure obeys when its parts do. -/
theorem bindExcept {post : Except ε β → S → Prop} {mid : α → S → Prop}
    {x : ExceptT ε (Process A ρ) α} {f : α → ExceptT ε (Process A ρ) β} {pre : S → Prop}
    (hx : Obeys acts D p
      (fun result s => match result with
        | .ok a => mid a s
        | .error e => post (.error e) s) x.run pre)
    (hf : ∀ a, Obeys acts D p post (f a).run (mid a)) :
    Obeys acts D p post (x >>= f).run pre := by
  refine Obeys.bind hx fun result => ?_
  cases result with
  | ok a => exact hf a
  | error e => exact fun s _ hs => hs

theorem pureExcept {post : Except ε α → S → Prop} {pre : S → Prop} {a : α}
    (h : ∀ s, D.Invariant s → pre s → post (.ok a) s) :
    Obeys acts D p post (Pure.pure a : ExceptT ε (Process A ρ) α).run pre :=
  h

theorem throw {post : Except ε α → S → Prop} {pre : S → Prop} {e : ε}
    (h : ∀ s, D.Invariant s → pre s → post (.error e) s) :
    Obeys acts D p post (throw e : ExceptT ε (Process A ρ) α).run pre :=
  h

/-- A part that does not fail, followed by the rest of the process. -/
theorem lift {x : Process A ρ α} {f : α → ExceptT ε (Process A ρ) β} {post : Except ε β → S → Prop}
    {mid : α → S → Prop} {pre : S → Prop} (hx : x.Obeys acts D p mid pre)
    (hf : ∀ a, Obeys acts D p post (f a).run (mid a)) :
    Obeys acts D p post (ExceptT.lift x >>= f).run pre := by
  have hlift : Obeys acts D p
      (fun result s => match result with
        | .ok a => mid a s
        | .error e => post (.error e) s) (ExceptT.lift x : ExceptT ε (Process A ρ) α).run pre :=
    Obeys.bind hx fun _ _ _ hs => hs
  exact bindExcept hlift hf

/-- A part whose error is rewritten, followed by the rest of the process. -/
theorem call {ε' : Type} {fail : ε' → ε} {x : Process A ρ (Except ε' α)}
    {f : α → ExceptT ε (Process A ρ) β} {post : Except ε β → S → Prop} {mid : α → S → Prop}
    {pre : S → Prop}
    (hx : x.Obeys acts D p
      (fun result s => match result with
        | .ok a => mid a s
        | .error e => post (.error (fail e)) s) pre)
    (hf : ∀ a, Obeys acts D p post (f a).run (mid a)) :
    Obeys acts D p post (Process.call fail x >>= f).run pre := by
  have hcall : Obeys acts D p
      (fun result s => match result with
        | .ok a => mid a s
        | .error e => post (.error e) s) (Process.call fail x).run pre := by
    refine Obeys.bind hx fun result => ?_
    cases result with
    | ok a => exact fun s _ hs => hs
    | error e => exact fun s _ hs => hs
  exact bindExcept hcall hf

end Obeys

end Process

/-! ## Pools -/

/-- Threads and the state they share. -/
structure Pool (ι A : Type) (ρ : A → Type) (α S : Type) where
  threads : ι → Process A ρ α
  state : S

namespace Pool

variable {ι A : Type} {ρ : A → Type} {α S : Type} [DecidableEq ι]
variable (acts : ι → S → (a : A) → ρ a → S → Prop)

/-- Some thread performs its next action. -/
inductive Step : Pool ι A ρ α S → Pool ι A ρ α S → Prop where
  | act {pool : Pool ι A ρ α S} {p : ι} {a : A} {next : ρ a → Process A ρ α} {r : ρ a} {s' : S}
      (hthread : pool.threads p = .act a next) (hact : acts p pool.state a r s') :
      Step pool ⟨Function.update pool.threads p (next r), s'⟩

/-- The pools that any interleaving leads to. -/
abbrev Reaches : Pool ι A ρ α S → Pool ι A ρ α S → Prop :=
  Relation.ReflTransGen (Step acts)

/-- One step of a thread, if the thread is not done and a deterministic system does not let it
wait. -/
def playStep (respond : ι → S → (a : A) → Option (ρ a × S)) (pool : Pool ι A ρ α S) (p : ι) :
    Pool ι A ρ α S :=
  match pool.threads p with
  | .done _ => pool
  | .act a next =>
      match respond p pool.state a with
      | none => pool
      | some (r, s') => ⟨Function.update pool.threads p (next r), s'⟩

/-- The threads of a schedule take their steps one after the other. -/
def play (respond : ι → S → (a : A) → Option (ρ a × S)) (schedule : List ι)
    (pool : Pool ι A ρ α S) : Pool ι A ρ α S :=
  schedule.foldl (playStep respond) pool

variable {acts}

/-- What a schedule leads to is reachable. -/
theorem reaches_play {respond : ι → S → (a : A) → Option (ρ a × S)}
    (hrespond : ∀ p s a r s', respond p s a = some (r, s') → acts p s a r s')
    (schedule : List ι) (pool : Pool ι A ρ α S) : Reaches acts pool (play respond schedule pool) := by
  induction schedule generalizing pool with
  | nil => exact .refl
  | cons p schedule ih =>
      have hstep : Reaches acts pool (playStep respond pool p) := by
        rw [playStep]
        split
        · exact .refl
        · rename_i a next hthread
          split
          · exact .refl
          · rename_i r s' hanswer
            exact .single (.act hthread (hrespond p _ a r s' hanswer))
      exact hstep.trans (ih _)

variable {D : Discipline ι S} {post : ι → α → S → Prop}

/-- The invariant holds, and every thread obeys the discipline from a stable assertion that
holds. -/
structure Sound (acts : ι → S → (a : A) → ρ a → S → Prop) (D : Discipline ι S)
    (post : ι → α → S → Prop) (pool : Pool ι A ρ α S) : Prop where
  invariant : D.Invariant pool.state
  threads : ∀ p, ∃ pre, D.Stable p pre ∧ pre pool.state ∧
    (pool.threads p).Obeys acts D p (post p) pre

theorem Sound.step {pool pool' : Pool ι A ρ α S} (h : Sound acts D post pool)
    (hstep : Step acts pool pool') : Sound acts D post pool' := by
  cases hstep with
  | @act p a next r s' hthread hact =>
      rcases h.threads p with ⟨pre, -, hpre, hobeys⟩
      rw [hthread] at hobeys
      rcases hobeys r with ⟨mid, hmid, haction, hnext⟩
      rcases haction _ _ h.invariant hpre hact with ⟨hinv, hguarantee, hs'⟩
      refine ⟨hinv, fun q => ?_⟩
      by_cases hq : q = p
      · subst hq
        refine ⟨mid, hmid, hs', ?_⟩
        simpa only [Function.update_self] using hnext
      · rcases h.threads q with ⟨pre', hstable, hpre', hobeys'⟩
        refine ⟨pre', hstable, hstable p _ _ (Ne.symm hq) h.invariant hguarantee hpre', ?_⟩
        simpa only [Function.update_of_ne hq] using hobeys'

/-- Every reachable pool is sound. -/
theorem obeys_of_reaches {pool pool' : Pool ι A ρ α S} (h : Sound acts D post pool)
    (hreach : Reaches acts pool pool') : Sound acts D post pool' := by
  induction hreach with
  | refl => exact h
  | tail _ hstep ih => exact ih.step hstep

omit [DecidableEq ι] in
/-- What a finished thread has established holds from then on. -/
theorem of_finished {pool : Pool ι A ρ α S} (h : Sound acts D post pool) {p : ι} {a : α}
    (hdone : pool.threads p = .done a) : post p a pool.state := by
  rcases h.threads p with ⟨pre, -, hpre, hobeys⟩
  rw [hdone] at hobeys
  exact hobeys _ h.invariant hpre

end Pool

end Library
end MemosNote
