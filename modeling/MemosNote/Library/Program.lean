import Mathlib.Data.Nat.Notation
import Mathlib.Data.List.Basic

/-!
# Programs of actions that may stop

A program performs actions one after the other, each answered by a system that
carries a state.  It may stop before any of its actions: the process dies, or the
action fails.  The actions performed by then, and the state they left, are a
stop of the program.

Main results:

- Theorem {lit}`Program.run_bind`: an uninterrupted run of a sequence is the run of its
  parts.
- Theorem {lit}`Program.mem_stops_bind`: a sequence stops in its first part, or in its second
  part after the first completed.
-/

namespace MemosNote
namespace Library

/-- A program of actions {lit}`A`, where the answer to an action {lit}`a` is an error or has
type {lit}`ρ a`. -/
inductive Program (A : Type) (ρ : A → Type) (α : Type) : Type where
  | done (a : α)
  | fail (message : String)
  | act (action : A) (next : Except String (ρ action) → Program A ρ α)

namespace Program

variable {A : Type} {ρ : A → Type} {α β S : Type}

/-- Continue after a program has completed. -/
protected def bind : Program A ρ α → (α → Program A ρ β) → Program A ρ β
  | done a, f => f a
  | fail message, _ => fail message
  | act a next, f => act a fun r => (next r).bind f

instance : Monad (Program A ρ) where
  pure := done
  bind := Program.bind

/-- A computation without actions. -/
def lift : Except String α → Program A ρ α
  | .ok a => done a
  | .error message => fail message

/-- A single action, whose error ends the program. -/
def perform (a : A) : Program A ρ (ρ a) :=
  act a lift

/-- Rewrite the error of a program. -/
def mapError (f : String → String) : Program A ρ α → Program A ρ α
  | done a => done a
  | fail message => fail (f message)
  | act a next => act a fun r => (next r).mapError f

/-- Put a context in front of the error of a program. -/
def wrap (context : String) : Program A ρ α → Program A ρ α :=
  mapError fun message => context ++ ": " ++ message

@[simp]
theorem done_bind (a : α) (f : α → Program A ρ β) : (done a >>= f) = f a :=
  rfl

@[simp]
theorem pure_bind (a : α) (f : α → Program A ρ β) : ((pure a : Program A ρ α) >>= f) = f a :=
  rfl

@[simp]
theorem fail_bind (message : String) (f : α → Program A ρ β) :
    ((fail message : Program A ρ α) >>= f) = fail message :=
  rfl

@[simp]
theorem act_bind (a : A) (next : Except String (ρ a) → Program A ρ α) (f : α → Program A ρ β) :
    (act a next >>= f) = act a fun r => next r >>= f :=
  rfl

section

variable (step : (a : A) → S → Except String (ρ a) × S)

/-- The uninterrupted run. -/
def run : Program A ρ α → S → Except String α × S
  | done a, s => (.ok a, s)
  | fail message, s => (.error message, s)
  | act a next, s => run (next (step a s).1) (step a s).2

/-- The actions performed by the uninterrupted run. -/
def trace : Program A ρ α → S → List A
  | done _, _ => []
  | fail _, _ => []
  | act a next, s => a :: trace (next (step a s).1) (step a s).2

/-- All points at which the program may stop: the actions performed and the state left. -/
def stops : Program A ρ α → S → List (List A × S)
  | done _, s => [([], s)]
  | fail _, s => [([], s)]
  | act a next, s =>
      ([], s) :: (stops (next (step a s).1) (step a s).2).map fun x => (a :: x.1, x.2)

variable {step}

@[simp]
theorem run_done (a : α) (s : S) : run step (done a : Program A ρ α) s = (.ok a, s) :=
  rfl

@[simp]
theorem run_pure (a : α) (s : S) : run step (pure a : Program A ρ α) s = (.ok a, s) :=
  rfl

@[simp]
theorem run_fail (message : String) (s : S) :
    run step (fail message : Program A ρ α) s = (.error message, s) :=
  rfl

@[simp]
theorem run_lift (e : Except String α) (s : S) :
    run step (lift e : Program A ρ α) s = (e, s) := by
  cases e <;> rfl

@[simp]
theorem run_perform (a : A) (s : S) : run step (perform a : Program A ρ _) s = step a s := by
  have hrun : run step (perform a : Program A ρ _) s = run step (lift (step a s).1) (step a s).2 :=
    rfl
  rw [hrun, run_lift]

/-- A program may stop before its first action. -/
theorem start_mem_stops (p : Program A ρ α) (s : S) : ([], s) ∈ stops step p s := by
  cases p <;> simp [stops]

/-- A run of a sequence is the run of its first part, followed by the run of the second if
the first completed. -/
theorem run_bind (p : Program A ρ α) (f : α → Program A ρ β) (s : S) :
    run step (p >>= f) s =
      match run step p s with
      | (.ok a, s') => run step (f a) s'
      | (.error message, s') => (.error message, s') := by
  induction p generalizing s with
  | done a => rfl
  | fail message => rfl
  | act a next ih =>
      rw [act_bind, run, run]
      exact ih (step a s).1 (step a s).2

/-- The run of a sequence after a completed first part. -/
theorem run_bind_ok {p : Program A ρ α} {f : α → Program A ρ β} {s s' : S} {a : α}
    (h : run step p s = (.ok a, s')) : run step (p >>= f) s = run step (f a) s' := by
  rw [run_bind, h]

/-- A sequence that completes has completed its first part. -/
theorem ok_of_run_bind {p : Program A ρ α} {f : α → Program A ρ β} {s t : S} {b : β}
    (h : run step (p >>= f) s = (.ok b, t)) :
    ∃ a s', run step p s = (.ok a, s') ∧ run step (f a) s' = (.ok b, t) := by
  rw [run_bind] at h
  rcases hp : run step p s with ⟨result, s'⟩
  rw [hp] at h
  cases result with
  | error message => simp at h
  | ok a => exact ⟨a, s', rfl, h⟩

/-- Only the error of a run is rewritten. -/
theorem run_mapError (f : String → String) (p : Program A ρ α) (s : S) :
    run step (p.mapError f) s = ((run step p s).1.mapError f, (run step p s).2) := by
  induction p generalizing s with
  | done a => rfl
  | fail message => rfl
  | act a next ih => exact ih (step a s).1 (step a s).2

/-- A program completes exactly when it does with its error rewritten. -/
theorem run_mapError_ok_iff (f : String → String) (p : Program A ρ α) (s s' : S) (a : α) :
    run step (p.mapError f) s = (.ok a, s') ↔ run step p s = (.ok a, s') := by
  rw [run_mapError]
  rcases run step p s with ⟨result, t⟩
  cases result <;> simp [Except.mapError]

theorem run_wrap_ok_iff (context : String) (p : Program A ρ α) (s s' : S) (a : α) :
    run step (p.wrap context) s = (.ok a, s') ↔ run step p s = (.ok a, s') :=
  run_mapError_ok_iff _ p s s' a

@[simp]
theorem trace_mapError (f : String → String) (p : Program A ρ α) (s : S) :
    trace step (p.mapError f) s = trace step p s := by
  induction p generalizing s with
  | done a => rfl
  | fail message => rfl
  | act a next ih => exact congrArg (a :: ·) (ih (step a s).1 (step a s).2)

@[simp]
theorem stops_mapError (f : String → String) (p : Program A ρ α) (s : S) :
    stops step (p.mapError f) s = stops step p s := by
  induction p generalizing s with
  | done a => rfl
  | fail message => rfl
  | act a next ih =>
      have hnext := ih (step a s).1 (step a s).2
      simp only [mapError, stops, hnext]

@[simp]
theorem trace_wrap (context : String) (p : Program A ρ α) (s : S) :
    trace step (p.wrap context) s = trace step p s :=
  trace_mapError _ p s

@[simp]
theorem stops_wrap (context : String) (p : Program A ρ α) (s : S) :
    stops step (p.wrap context) s = stops step p s :=
  stops_mapError _ p s

theorem mapError_bind (f : String → String) (p : Program A ρ α) (next : α → Program A ρ β) :
    (p >>= next).mapError f = p.mapError f >>= fun a => (next a).mapError f := by
  induction p with
  | done a => rfl
  | fail message => rfl
  | act a rest ih => exact congrArg (act a) (funext ih)

theorem bind_assoc {γ : Type} (p : Program A ρ α) (f : α → Program A ρ β)
    (g : β → Program A ρ γ) : p >>= f >>= g = p >>= fun a => f a >>= g := by
  induction p with
  | done a => rfl
  | fail message => rfl
  | act a next ih => exact congrArg (act a) (funext ih)

/-- The actions of a sequence. -/
theorem trace_bind_ok {p : Program A ρ α} {f : α → Program A ρ β} {s s' : S} {a : α}
    (h : run step p s = (.ok a, s')) :
    trace step (p >>= f) s = trace step p s ++ trace step (f a) s' := by
  induction p generalizing s with
  | done b =>
      simp only [run_done, Prod.mk.injEq, Except.ok.injEq] at h
      obtain ⟨rfl, rfl⟩ := h
      rfl
  | fail message => simp at h
  | act b next ih =>
      have hnext := ih (step b s).1 h
      rw [act_bind, trace, trace, hnext, List.cons_append]

/-- The actions of a sequence whose first part fails. -/
theorem trace_bind_error {p : Program A ρ α} {f : α → Program A ρ β} {s s' : S} {message : String}
    (h : run step p s = (.error message, s')) : trace step (p >>= f) s = trace step p s := by
  induction p generalizing s with
  | done b => simp at h
  | fail message => rfl
  | act b next ih => exact congrArg (b :: ·) (ih (step b s).1 h)

/-- A sequence stops in its first part, or in its second part after the first completed. -/
theorem mem_stops_bind (p : Program A ρ α) (f : α → Program A ρ β) (s : S) (x : List A × S) :
    x ∈ stops step (p >>= f) s ↔ x ∈ stops step p s ∨
      ∃ a s', run step p s = (.ok a, s') ∧
        ∃ y ∈ stops step (f a) s', x = (trace step p s ++ y.1, y.2) := by
  induction p generalizing s x with
  | done a =>
      have hstart := @start_mem_stops _ _ _ _ step (f a) s
      simp only [done_bind, stops, run, trace, List.mem_singleton, Prod.mk.injEq,
        Except.ok.injEq, List.nil_append]
      constructor
      · intro hx
        exact .inr ⟨a, s, ⟨rfl, rfl⟩, x, hx, rfl⟩
      · rintro (rfl | ⟨_, _, ⟨rfl, rfl⟩, y, hy, rfl⟩)
        · exact hstart
        · exact hy
  | fail message => simp [stops, run]
  | act a next ih =>
      rw [act_bind, stops, stops, run, trace]
      simp only [List.mem_cons, List.mem_map, ih]
      constructor
      · rintro (hx | ⟨y, hy | ⟨b, t, hrun, z, hz, rfl⟩, rfl⟩)
        · exact .inl (.inl hx)
        · exact .inl (.inr ⟨y, hy, rfl⟩)
        · exact .inr ⟨b, t, hrun, z, hz, rfl⟩
      · rintro ((hx | ⟨y, hy, rfl⟩) | ⟨b, t, hrun, z, hz, rfl⟩)
        · exact .inl hx
        · exact .inr ⟨y, .inl hy, rfl⟩
        · exact .inr ⟨_, .inr ⟨b, t, hrun, z, hz, rfl⟩, rfl⟩

/-- A single action stops before it or after it. -/
@[simp]
theorem stops_perform (a : A) (s : S) :
    stops step (perform a : Program A ρ _) s = [([], s), ([a], (step a s).2)] := by
  have hstops : stops step (perform a : Program A ρ _) s =
      ([], s) :: (stops step (lift (step a s).1 : Program A ρ _) (step a s).2).map
        fun x => (a :: x.1, x.2) := rfl
  have hlift : ∀ e : Except String (ρ a), stops step (lift e : Program A ρ _) (step a s).2 =
      [([], (step a s).2)] := fun e => by cases e <;> rfl
  rw [hstops, hlift]
  rfl

@[simp]
theorem trace_perform (a : A) (s : S) : trace step (perform a : Program A ρ _) s = [a] := by
  have htrace : trace step (perform a : Program A ρ _) s =
      a :: trace step (lift (step a s).1 : Program A ρ _) (step a s).2 := rfl
  have hlift : ∀ e : Except String (ρ a),
      trace step (lift e : Program A ρ _) (step a s).2 = [] := fun e => by cases e <;> rfl
  rw [htrace, hlift]

@[simp]
theorem stops_lift (e : Except String α) (s : S) :
    stops step (lift e : Program A ρ α) s = [([], s)] := by
  cases e <;> rfl

@[simp]
theorem trace_lift (e : Except String α) (s : S) :
    trace step (lift e : Program A ρ α) s = [] := by
  cases e <;> rfl

end

end Program

end Library
end MemosNote
