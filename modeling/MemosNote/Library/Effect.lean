import Mathlib.Data.List.Basic

/-!
# Operations that may fail half-way

An operation changes a state and may fail; what it changed before it failed stays.

Main results:

- Theorem {lit}`Effect.ok_of_bind`: a sequence that completes has completed its parts.
- Theorem {lit}`Effect.Keeps.bind`, Theorem {lit}`Effect.Keeps.forEach`: what every part keeps,
  the whole keeps, also when it fails.
- Theorem {lit}`Effect.Triple.bind`: what holds when a sequence completes and when it fails.
- Theorem {lit}`Effect.failsWith_bind`: where a sequence fails with an error of a kind.
-/

namespace MemosNote
namespace Library

/-- An operation on a state that answers with a value or an error. -/
def Effect (ε S α : Type) : Type :=
  S → Except ε α × S

namespace Effect

variable {ε S α β : Type}

instance : Monad (Effect ε S) where
  pure a := fun s => (.ok a, s)
  bind x f := fun s =>
    match x s with
    | (.ok a, s') => f a s'
    | (.error e, s') => (.error e, s')

/-- Fail and leave the state. -/
def fail (e : ε) : Effect ε S α :=
  fun s => (.error e, s)

/-- A value computed from the state. -/
def read (f : S → α) : Effect ε S α :=
  fun s => (.ok (f s), s)

/-- Change the state. -/
def update (f : S → S) : Effect ε S Unit :=
  fun s => (.ok (), f s)

/-- A computation without a state. -/
def ofExcept : Except ε α → Effect ε S α
  | .ok a => pure a
  | .error e => fail e

/-- Perform an operation for every element, in order. -/
def forEach (f : β → Effect ε S Unit) : List β → Effect ε S Unit
  | [] => pure ()
  | b :: rest => f b >>= fun _ => forEach f rest

/-- Rewrite the error of an operation. -/
def mapError {ε' : Type} (f : ε → ε') (x : Effect ε S α) : Effect ε' S α :=
  fun s => ((x s).1.mapError f, (x s).2)

/-- An operation whose error is an answer. -/
def attempt {ε' : Type} (x : Effect ε S α) : Effect ε' S (Except ε α) :=
  fun s => (.ok (x s).1, (x s).2)

@[simp]
theorem pure_apply (a : α) (s : S) : (pure a : Effect ε S α) s = (.ok a, s) :=
  rfl

@[simp]
theorem fail_apply (e : ε) (s : S) : (fail e : Effect ε S α) s = (.error e, s) :=
  rfl

@[simp]
theorem read_apply (f : S → α) (s : S) : (read f : Effect ε S α) s = (.ok (f s), s) :=
  rfl

@[simp]
theorem update_apply (f : S → S) (s : S) : (update f : Effect ε S Unit) s = (.ok (), f s) :=
  rfl

@[simp]
theorem attempt_bind {ε' : Type} (x : Effect ε S α) (f : Except ε α → Effect ε' S β) (s : S) :
    (attempt x >>= f) s = f (x s).1 (x s).2 :=
  rfl

/-- A sequence goes on where its first part succeeds. -/
theorem bind_of_ok {x : Effect ε S α} {f : α → Effect ε S β} {s s' : S} {a : α}
    (h : x s = (.ok a, s')) : (x >>= f) s = f a s' := by
  change (match x s with
    | (.ok a, s') => f a s'
    | (.error e, s') => (.error e, s')) = _
  rw [h]

/-- A sequence ends where its first part fails. -/
theorem bind_of_error {x : Effect ε S α} {f : α → Effect ε S β} {s s' : S} {e : ε}
    (h : x s = (.error e, s')) : (x >>= f) s = (.error e, s') := by
  change (match x s with
    | (.ok a, s') => f a s'
    | (.error e, s') => (.error e, s')) = _
  rw [h]

@[simp]
theorem pure_bind (a : α) (f : α → Effect ε S β) : (pure a >>= f) = f a :=
  rfl

@[simp]
theorem read_bind (g : S → α) (f : α → Effect ε S β) (s : S) :
    (read g >>= f) s = f (g s) s :=
  rfl

@[simp]
theorem update_bind (g : S → S) (f : Unit → Effect ε S β) (s : S) :
    (update g >>= f) s = f () (g s) :=
  rfl

@[simp]
theorem fail_bind (e : ε) (f : α → Effect ε S β) : ((fail e : Effect ε S α) >>= f) = fail e :=
  rfl

/-- Sequences are associative. -/
theorem bind_assoc {γ : Type} (x : Effect ε S α) (f : α → Effect ε S β) (g : β → Effect ε S γ) :
    (x >>= f) >>= g = x >>= fun a => f a >>= g := by
  funext s
  rcases hx : x s with ⟨result, s'⟩
  cases result with
  | ok a =>
      rw [bind_of_ok hx]
      rcases hf : f a s' with ⟨result, s''⟩
      cases result with
      | ok b => rw [bind_of_ok ((bind_of_ok hx).trans hf), bind_of_ok hf]
      | error e => rw [bind_of_error ((bind_of_ok hx).trans hf), bind_of_error hf]
  | error e => rw [bind_of_error hx, bind_of_error (bind_of_error hx)]

/-- A sequence of parts that complete and leave the state completes and leaves it too. -/
theorem exists_ok_bind {x : Effect ε S α} {f : α → Effect ε S β} {s : S}
    (hx : ∃ a, x s = (.ok a, s)) (hf : ∀ a, ∃ b, f a s = (.ok b, s)) :
    ∃ b, (x >>= f) s = (.ok b, s) := by
  rcases hx with ⟨a, ha⟩
  rw [bind_of_ok ha]
  exact hf a

/-- A sequence that completes has completed its parts. -/
theorem ok_of_bind {x : Effect ε S α} {f : α → Effect ε S β} {s t : S} {b : β}
    (h : (x >>= f) s = (.ok b, t)) : ∃ a s', x s = (.ok a, s') ∧ f a s' = (.ok b, t) := by
  rcases hx : x s with ⟨result, s'⟩
  cases result with
  | ok a =>
      rw [bind_of_ok hx] at h
      exact ⟨a, s', rfl, h⟩
  | error e =>
      rw [bind_of_error hx] at h
      cases h

/-- A sequence that fails has failed in one of its parts. -/
theorem error_of_bind {x : Effect ε S α} {f : α → Effect ε S β} {s t : S} {e : ε}
    (h : (x >>= f) s = (.error e, t)) :
    x s = (.error e, t) ∨ ∃ a s', x s = (.ok a, s') ∧ f a s' = (.error e, t) := by
  rcases hx : x s with ⟨result, s'⟩
  cases result with
  | ok a =>
      rw [bind_of_ok hx] at h
      exact .inr ⟨a, s', rfl, h⟩
  | error e' =>
      rw [bind_of_error hx] at h
      cases h
      exact .inl rfl

/-- A wrapped error does not concern a success. -/
theorem ok_of_mapError {ε' : Type} {f : ε → ε'} {x : Effect ε S α} {s t : S} {a : α}
    (h : x.mapError f s = (.ok a, t)) : x s = (.ok a, t) := by
  rw [mapError] at h
  rcases hx : x s with ⟨result, s'⟩
  rw [hx] at h
  cases result with
  | ok b =>
      cases h
      rfl
  | error e => cases h

/-- A wrapped error comes from one. -/
theorem error_of_mapError {ε' : Type} {f : ε → ε'} {x : Effect ε S α} {s t : S} {e' : ε'}
    (h : x.mapError f s = (.error e', t)) : ∃ e, x s = (.error e, t) ∧ e' = f e := by
  rw [mapError] at h
  rcases hx : x s with ⟨result, s'⟩
  rw [hx] at h
  cases result with
  | ok a => cases h
  | error e =>
      cases h
      exact ⟨e, rfl, rfl⟩

/-- A pure step changes nothing. -/
theorem ok_of_ofExcept {r : Except ε α} {s t : S} {a : α}
    (h : (ofExcept r : Effect ε S α) s = (.ok a, t)) : r = .ok a ∧ t = s := by
  cases r with
  | ok b =>
      cases h
      exact ⟨rfl, rfl⟩
  | error e => cases h

/-- An error is not an answer. -/
theorem elim_error_ok {P : Prop} {e : ε} {a : α} (h : (Except.error e : Except ε α) = .ok a) :
    P := by
  cases h

/-- An operation with its answer. -/
theorem eq_of_fst {x : Effect ε S α} {s : S} {result : Except ε α} (h : (x s).1 = result) :
    x s = (result, (x s).2) := by
  rw [← h]

/-- An operation without an answer has completed. -/
theorem eq_ok_of_isOk {x : Effect ε S Unit} {s : S} (h : (x s).1.isOk = true) :
    x s = (.ok (), (x s).2) := by
  rcases hx : x s with ⟨result, s'⟩
  rw [hx] at h
  cases result with
  | ok a => rfl
  | error e => cases h

/-- The state after an operation whose answer is only converted. -/
theorem snd_bind_pure (x : Effect ε S α) (g : α → β) (s : S) :
    ((x >>= fun a => (pure (g a) : Effect ε S β)) s).2 = (x s).2 := by
  cases hresult : (x s).1 with
  | error e => rw [bind_of_error (eq_of_fst hresult)]
  | ok a =>
      rw [bind_of_ok (eq_of_fst hresult)]
      rfl

/-- The answer of a sequence, from two states in which its parts answer the same. -/
theorem fst_bind_congr {x : Effect ε S α} {f : α → Effect ε S β} {s s' : S}
    (hx : (x s').1 = (x s).1)
    (hf : ∀ a, (x s).1 = .ok a → (f a (x s').2).1 = (f a (x s).2).1) :
    ((x >>= f) s').1 = ((x >>= f) s).1 := by
  cases hresult : (x s).1 with
  | error e =>
      rw [bind_of_error (eq_of_fst hresult), bind_of_error (eq_of_fst (hx.trans hresult))]
  | ok a =>
      rw [bind_of_ok (eq_of_fst hresult), bind_of_ok (eq_of_fst (hx.trans hresult))]
      exact hf a hresult

/-! ## Invariants -/

/-- An operation keeps a property of the state, whether or not it fails. -/
def Keeps (P : S → Prop) (x : Effect ε S α) : Prop :=
  ∀ s, P s → P (x s).2

variable {P : S → Prop}

theorem Keeps.pure (a : α) : Keeps P (pure a : Effect ε S α) :=
  fun _ h => h

theorem Keeps.fail (e : ε) : Keeps P (fail e : Effect ε S α) :=
  fun _ h => h

theorem Keeps.read (f : S → α) : Keeps P (read f : Effect ε S α) :=
  fun _ h => h

theorem Keeps.ofExcept (r : Except ε α) : Keeps P (ofExcept r : Effect ε S α) := by
  cases r with
  | ok a => exact Keeps.pure a
  | error e => exact Keeps.fail e

/-- An update keeps what it keeps of every state. -/
theorem Keeps.update {f : S → S} (h : ∀ s, P s → P (f s)) :
    Keeps P (update f : Effect ε S Unit) :=
  h

theorem Keeps.mapError {ε' : Type} {x : Effect ε S α} (h : Keeps P x) (f : ε → ε') :
    Keeps P (x.mapError f) :=
  h

theorem Keeps.attempt {ε' : Type} {x : Effect ε S α} (h : Keeps P x) :
    Keeps P (x.attempt : Effect ε' S (Except ε α)) :=
  h

/-- Two steps keep what each of them keeps. -/
theorem Keeps.bind {x : Effect ε S α} {f : α → Effect ε S β} (hx : Keeps P x)
    (hf : ∀ a, Keeps P (f a)) : Keeps P (x >>= f) := by
  intro s hs
  have hkept := hx s hs
  rcases hrun : x s with ⟨result, s'⟩
  rw [hrun] at hkept
  cases result with
  | ok a =>
      rw [bind_of_ok hrun]
      exact hf a s' hkept
  | error e =>
      rw [bind_of_error hrun]
      exact hkept

/-- The continuation of a read may use what was read. -/
theorem Keeps.read_bind {g : S → α} {f : α → Effect ε S β}
    (hf : ∀ s, P s → P (f (g s) s).2) : Keeps P (Effect.read g >>= f) :=
  hf

/-- The continuation of a computation may use that it succeeded. -/
theorem Keeps.ofExcept_bind {r : Except ε α} {f : α → Effect ε S β}
    (hf : ∀ a, r = .ok a → Keeps P (f a)) : Keeps P (Effect.ofExcept r >>= f) := by
  cases r with
  | ok a => exact hf a rfl
  | error e => exact Keeps.fail e

/-- A loop keeps what its rounds keep. -/
theorem Keeps.forEach {f : β → Effect ε S Unit} {list : List β} (hf : ∀ b ∈ list, Keeps P (f b)) :
    Keeps P (forEach f list) := by
  induction list with
  | nil => exact Keeps.pure ()
  | cons b rest ih =>
      refine Keeps.bind (hf b (by simp)) fun _ => ih fun b' hb' => hf b' (by simp [hb'])

/-- An operation that keeps every state leaves the state. -/
theorem eq_of_keeps {x : Effect ε S α} (h : ∀ s, Keeps (· = s) x) (s : S) : x s = ((x s).1, s) :=
  Prod.ext rfl (h s s rfl)

/-- What keeps every state changes nothing. -/
theorem eq_of_ok_of_keeps {x : Effect ε S α} (hx : ∀ s, Keeps (· = s) x) {s t : S} {a : α}
    (h : x s = (.ok a, t)) : t = s := by
  have hread := eq_of_keeps hx s
  rw [h] at hread
  exact (Prod.mk.inj hread).2

/-- A sequence whose first part only reads goes on from the state it began in. -/
theorem ok_of_read_bind {x : Effect ε S α} {f : α → Effect ε S β} (hx : ∀ s, Keeps (· = s) x)
    {s t : S} {b : β} (h : (x >>= f) s = (.ok b, t)) :
    ∃ a, x s = (.ok a, s) ∧ f a s = (.ok b, t) := by
  rcases ok_of_bind h with ⟨a, s', hfirst, hrest⟩
  rcases eq_of_ok_of_keeps hx hfirst with rfl
  exact ⟨a, hfirst, hrest⟩

/-- Updates for every element come one after the other. -/
theorem forEach_update {f : β → Effect ε S Unit} {g : S → β → S}
    (h : ∀ s b, f b s = (.ok (), g s b)) (list : List β) (s : S) :
    forEach f list s = (.ok (), list.foldl g s) := by
  induction list generalizing s with
  | nil => rfl
  | cons b rest ih =>
      rw [forEach, bind_of_ok (h s b), ih]
      rfl

/-! ## Triples -/

/-- From a state with {lit}`P`, the operation completes with {lit}`Q` of its answer and of the
state it leaves, or fails with {lit}`E` of its error and of the state it leaves. -/
def Triple (P : S → Prop) (x : Effect ε S α) (Q : α → S → Prop) (E : ε → S → Prop) : Prop :=
  ∀ s, P s →
    match x s with
    | (.ok a, s') => Q a s'
    | (.error e, s') => E e s'

variable {Q : α → S → Prop} {E : ε → S → Prop}

/-- What holds after a success. -/
theorem Triple.ok {x : Effect ε S α} (h : Triple P x Q E) {s s' : S} {a : α} (hs : P s)
    (hx : x s = (.ok a, s')) : Q a s' := by
  have hpost := h s hs
  rw [hx] at hpost
  exact hpost

/-- What holds after a failure. -/
theorem Triple.error {x : Effect ε S α} (h : Triple P x Q E) {s s' : S} {e : ε} (hs : P s)
    (hx : x s = (.error e, s')) : E e s' := by
  have hpost := h s hs
  rw [hx] at hpost
  exact hpost

theorem Triple.pure {a : α} (h : ∀ s, P s → Q a s) : Triple P (pure a : Effect ε S α) Q E :=
  h

theorem Triple.fail {e : ε} (h : ∀ s, P s → E e s) : Triple P (fail e : Effect ε S α) Q E :=
  h

theorem Triple.read {f : S → α} (h : ∀ s, P s → Q (f s) s) :
    Triple P (read f : Effect ε S α) Q E :=
  h

theorem Triple.update {f : S → S} {Q : Unit → S → Prop} (h : ∀ s, P s → Q () (f s)) :
    Triple P (update f : Effect ε S Unit) Q E :=
  h

theorem Triple.ofExcept {r : Except ε α} (hok : ∀ a, r = .ok a → ∀ s, P s → Q a s)
    (herror : ∀ e, r = .error e → ∀ s, P s → E e s) :
    Triple P (ofExcept r : Effect ε S α) Q E := by
  cases r with
  | ok a => exact Triple.pure (hok a rfl)
  | error e => exact Triple.fail (herror e rfl)

/-- The rule of wrapped errors. -/
theorem Triple.mapError {ε' : Type} {x : Effect ε S α} {f : ε → ε'} {E : ε' → S → Prop}
    (h : Triple P x Q fun e => E (f e)) : Triple P (x.mapError f) Q E := by
  intro s hs
  have hpost := h s hs
  rw [Effect.mapError]
  rcases hx : x s with ⟨result, s'⟩
  rw [hx] at hpost
  cases result with
  | ok a => exact hpost
  | error e => exact hpost

/-- The rule of sequences. -/
theorem Triple.bind {x : Effect ε S α} {f : α → Effect ε S β} {R : β → S → Prop}
    (hx : Triple P x Q E) (hf : ∀ a, Triple (Q a) (f a) R E) : Triple P (x >>= f) R E := by
  intro s hs
  have hpost := hx s hs
  rcases hrun : x s with ⟨result, s'⟩
  rw [hrun] at hpost
  cases result with
  | ok a =>
      rw [bind_of_ok hrun]
      exact hf a s' hpost
  | error e =>
      rw [bind_of_error hrun]
      exact hpost

/-- The rule of consequence. -/
theorem Triple.conseq {P' : S → Prop} {Q' : α → S → Prop} {E' : ε → S → Prop}
    {x : Effect ε S α} (h : Triple P x Q E) (hP : ∀ s, P' s → P s)
    (hQ : ∀ a s, Q a s → Q' a s) (hE : ∀ e s, E e s → E' e s) : Triple P' x Q' E' := by
  intro s hs
  have hpost := h s (hP s hs)
  rcases hrun : x s with ⟨result, s'⟩
  rw [hrun] at hpost
  cases result with
  | ok a => exact hQ a s' hpost
  | error e => exact hE e s' hpost

/-- A kept condition as a triple. -/
theorem Keeps.triple {x : Effect ε S α} (h : Keeps P x) :
    Triple P x (fun _ => P) fun _ => P := by
  intro s hs
  have hkept := h s hs
  rcases hrun : x s with ⟨result, s'⟩
  rw [hrun] at hkept
  cases result with
  | ok a => exact hkept
  | error e => exact hkept

/-- What holds when an operation completes, and what it keeps when it fails. -/
theorem Keeps.triple_of_ok {x : Effect ε S α} (h : Keeps P x)
    (hok : ∀ s a s', P s → x s = (.ok a, s') → Q a s') : Triple P x Q fun _ => P := by
  intro s hs
  have hkept := h s hs
  rcases hrun : x s with ⟨result, s'⟩
  rw [hrun] at hkept
  cases result with
  | ok a => exact hok s a s' hs hrun
  | error e => exact hkept

/-- What holds of the state in either case. -/
theorem Triple.state {R : S → Prop} {x : Effect ε S α}
    (h : Triple P x (fun _ => R) fun _ => R) {s : S} (hs : P s) : R (x s).2 := by
  have hpost := h s hs
  rcases hrun : x s with ⟨result, s'⟩
  rw [hrun] at hpost
  cases result with
  | ok a => exact hpost
  | error e => exact hpost

/-- What an operation keeps holds along with what it does. -/
theorem Triple.and_keeps {R : S → Prop} {x : Effect ε S α}
    (h : Triple P x Q E) (hkeeps : Keeps R x) (hstart : ∀ s, P s → R s) :
    Triple P x (fun a s => Q a s ∧ R s) fun e s => E e s ∧ R s := by
  intro s hs
  have hpost := h s hs
  have hkept := hkeeps s (hstart s hs)
  rcases hrun : x s with ⟨result, s'⟩
  rw [hrun] at hpost hkept
  cases result with
  | ok a => exact ⟨hpost, hkept⟩
  | error e => exact ⟨hpost, hkept⟩

/-- What holds of the state that an operation leaves holds in either case. -/
theorem Triple.of_state {R : S → Prop} {x : Effect ε S α}
    (h : ∀ s, P s → R (x s).2) : Triple P x (fun _ => R) fun _ => R := by
  intro s hs
  have hleft := h s hs
  rcases hrun : x s with ⟨result, s'⟩
  rw [hrun] at hleft
  cases result with
  | ok a => exact hleft
  | error e => exact hleft

/-- A triple of one condition keeps it. -/
theorem Triple.keeps {x : Effect ε S α} (h : Triple P x (fun _ => P) fun _ => P) : Keeps P x :=
  fun _ hs => h.state hs

/-! ## Failing with an error of a kind -/

/-- The operation fails with an error of a kind. -/
def FailsWith (K : ε → Prop) (x : Effect ε S α) (s : S) : Prop :=
  ∃ e t, x s = (.error e, t) ∧ K e

variable {K : ε → Prop}

/-- A sequence fails in its first part, or in the rest after the first part has completed. -/
theorem failsWith_bind {x : Effect ε S α} {f : α → Effect ε S β} {s : S} :
    FailsWith K (x >>= f) s ↔
      FailsWith K x s ∨ ∃ a t, x s = (.ok a, t) ∧ FailsWith K (f a) t := by
  constructor
  · intro h
    rcases h with ⟨e, t, hrun, he⟩
    rcases error_of_bind hrun with hx | ⟨a, s', hx, hf⟩
    · exact .inl ⟨e, t, hx, he⟩
    · exact .inr ⟨a, s', hx, e, t, hf, he⟩
  · intro h
    rcases h with ⟨e, t, hx, he⟩ | ⟨a, s', hx, e, t, hf, he⟩
    · exact ⟨e, t, bind_of_error hx, he⟩
    · exact ⟨e, t, (bind_of_ok hx).trans hf, he⟩

@[simp]
theorem failsWith_pure {a : α} {s : S} : ¬ FailsWith K (pure a : Effect ε S α) s := by
  intro h
  rcases h with ⟨e, t, hrun, -⟩
  cases hrun

@[simp]
theorem failsWith_fail {e : ε} {s : S} : FailsWith K (fail e : Effect ε S α) s ↔ K e := by
  constructor
  · intro h
    rcases h with ⟨e', t, hrun, he⟩
    cases hrun
    exact he
  · intro he
    exact ⟨e, s, rfl, he⟩

/-- A pure step fails with its error. -/
theorem failsWith_ofExcept {r : Except ε α} {s : S} :
    FailsWith K (ofExcept r : Effect ε S α) s ↔ ∃ e, r = .error e ∧ K e := by
  cases r with
  | ok a =>
      constructor
      · intro h
        exact absurd h failsWith_pure
      · intro h
        rcases h with ⟨e, he, -⟩
        cases he
  | error e =>
      rw [ofExcept, failsWith_fail]
      constructor
      · intro he
        exact ⟨e, rfl, he⟩
      · intro h
        rcases h with ⟨e', he', hK⟩
        cases he'
        exact hK

/-- A wrapped error fails as its error does. -/
theorem failsWith_mapError {ε' : Type} {K : ε' → Prop} {f : ε → ε'} {x : Effect ε S α} {s : S} :
    FailsWith K (x.mapError f) s ↔ FailsWith (fun e => K (f e)) x s := by
  constructor
  · intro h
    rcases h with ⟨e', t, hrun, he⟩
    rcases error_of_mapError hrun with ⟨e, hx, rfl⟩
    exact ⟨e, t, hx, he⟩
  · intro h
    rcases h with ⟨e, t, hx, he⟩
    refine ⟨f e, t, ?_, he⟩
    rw [mapError, hx]
    rfl

end Effect

end Library
end MemosNote
