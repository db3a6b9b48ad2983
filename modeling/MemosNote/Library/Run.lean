import Mathlib.Data.List.Basic

/-!
# Guarded runs

A system takes labelled steps that may be disabled.  A guarded run takes only steps
whose guard holds in the state before the step.

Main results:

- Theorem {lit}`Run.invariant`: what every guarded step preserves holds after a run.
- Theorem {lit}`Run.append`, Theorem {lit}`Run.of_append`: runs compose, and come apart.
- Theorem {lit}`Run.mono`: a weaker guard admits more runs.
- Theorem {lit}`Run.of_exec`: a run that is computed.
- Theorem {lit}`Run.forall_trace`: what every guarded step does.
- Theorem {lit}`Run.measure_le_countP`: what only some steps increase, and these by one at most, is
  bounded by their number.
-/

namespace MemosNote
namespace Library

variable {σ ε : Type}

/-- The run of a label list from one state to another, each step taken under its guard. -/
inductive Run (step : σ → ε → Option σ) (guard : σ → ε → Prop) : σ → List ε → σ → Prop where
  | nil (s : σ) : Run step guard s [] s
  | cons {s s' s'' : σ} {e : ε} {es : List ε} (hguard : guard s e) (hstep : step s e = some s')
      (hrest : Run step guard s' es s'') : Run step guard s (e :: es) s''

/-- The steps of a run: the state before, the label and the state after. -/
def trace (step : σ → ε → Option σ) : σ → List ε → List (σ × ε × σ)
  | _, [] => []
  | s, e :: es =>
      match step s e with
      | none => []
      | some s' => (s, e, s') :: trace step s' es

/-- A run without guard. -/
abbrev FreeRun (step : σ → ε → Option σ) : σ → List ε → σ → Prop :=
  Run step fun _ _ => True

namespace Run

variable {step : σ → ε → Option σ} {guard : σ → ε → Prop}

/-- What every guarded step preserves holds after a guarded run. -/
theorem invariant {inv : σ → Prop}
    (hpreserved : ∀ s e s', inv s → guard s e → step s e = some s' → inv s')
    {s s' : σ} {es : List ε} (h : Run step guard s es s') (hs : inv s) : inv s' := by
  induction h with
  | nil s => exact hs
  | cons hguard hstep _ ih => exact ih (hpreserved _ _ _ hs hguard hstep)

/-- Runs compose. -/
theorem append {s s' s'' : σ} {es fs : List ε} (h : Run step guard s es s')
    (h' : Run step guard s' fs s'') : Run step guard s (es ++ fs) s'' := by
  induction h with
  | nil s => exact h'
  | cons hguard hstep _ ih => exact .cons hguard hstep (ih h')

/-- A run over two lists goes through the end of the first. -/
theorem of_append {s s'' : σ} {es fs : List ε} (h : Run step guard s (es ++ fs) s'') :
    ∃ s', Run step guard s es s' ∧ Run step guard s' fs s'' := by
  induction es generalizing s with
  | nil => exact ⟨s, .nil s, h⟩
  | cons e es ih =>
      cases h with
      | cons hguard hstep hrest =>
          rcases ih hrest with ⟨s', hfirst, hsecond⟩
          exact ⟨s', .cons hguard hstep hfirst, hsecond⟩

/-- A weaker guard admits more runs. -/
theorem mono {guard' : σ → ε → Prop} (hweaker : ∀ s e, guard s e → guard' s e)
    {s s' : σ} {es : List ε} (h : Run step guard s es s') : Run step guard' s es s' := by
  induction h with
  | nil s => exact .nil s
  | cons hguard hstep _ ih => exact .cons (hweaker _ _ hguard) hstep ih

theorem trace_cons {s s' : σ} {e : ε} (hstep : step s e = some s') (es : List ε) :
    trace step s (e :: es) = (s, e, s') :: trace step s' es := by
  rw [trace, hstep]

/-- What every guarded step from a state with the invariant does, the steps of a run do. -/
theorem forall_trace {inv : σ → Prop} {R : σ → ε → σ → Prop}
    (hpreserved : ∀ s e s', inv s → guard s e → step s e = some s' → inv s' ∧ R s e s')
    {s s' : σ} {es : List ε} (h : Run step guard s es s') (hs : inv s) :
    ∀ t ∈ trace step s es, R t.1 t.2.1 t.2.2 := by
  induction h with
  | nil s => exact fun t ht => absurd ht List.not_mem_nil
  | cons hguard hstep _ ih =>
      rw [trace_cons hstep]
      intro t ht
      have hfirst := hpreserved _ _ _ hs hguard hstep
      rcases List.mem_cons.mp ht with rfl | ht
      · exact hfirst.2
      · exact ih hfirst.1 t ht

/-- What only some steps increase, and these by one at most, is bounded by their number. -/
theorem measure_le_countP {m : σ → ℕ} {p : σ × ε × σ → Bool} {s s' : σ} {es : List ε}
    (h : Run step guard s es s')
    (hsteps : ∀ t ∈ trace step s es, m t.2.2 ≤ m t.1 + if p t then 1 else 0) :
    m s' ≤ m s + (trace step s es).countP p := by
  induction h with
  | nil s => exact Nat.le_add_right _ _
  | @cons s t s' e es hguard hstep hrest ih =>
      rw [trace_cons hstep] at hsteps ⊢
      have hfirst := hsteps (s, e, t) List.mem_cons_self
      have hlater := ih fun u hu => hsteps u (List.mem_cons_of_mem _ hu)
      rw [List.countP_cons]
      dsimp only at hfirst
      omega

/-- The end of the guarded run of a label list. -/
def exec (step : σ → ε → Option σ) (guard : σ → ε → Prop) [∀ s e, Decidable (guard s e)] :
    σ → List ε → Option σ
  | s, [] => some s
  | s, e :: es => if guard s e then (step s e).bind fun s' => exec step guard s' es else none

theorem of_exec [∀ s e, Decidable (guard s e)] {s s' : σ} {es : List ε}
    (h : exec step guard s es = some s') : Run step guard s es s' := by
  induction es generalizing s with
  | nil =>
      rcases Option.some.inj h with rfl
      exact .nil s
  | cons e es ih =>
      rw [exec] at h
      by_cases hguard : guard s e
      · rw [if_pos hguard] at h
        rcases Option.bind_eq_some_iff.mp h with ⟨s₁, hstep, hrest⟩
        exact .cons hguard hstep (ih hrest)
      · rw [if_neg hguard] at h
        cases h

end Run

end Library
end MemosNote
