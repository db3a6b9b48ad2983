import Mathlib.Algebra.BigOperators.Group.List.Basic
import Mathlib.Algebra.Order.BigOperators.Group.List
import Mathlib.Tactic.Ring

/-!
# What operations in flight owe

Operations in flight are a list of phases, of which one moves in a step.  Where an operation changes
two things one after the other, its phase owes the second change in between; what all operations
owe is the total.

Main results:

- Theorem {lit}`total_set`: how the total changes when one operation moves.
-/

namespace MemosNote
namespace Library

variable {φ : Type}

/-- What all operations owe. -/
def total (owes : φ → ℕ) (ops : List φ) : ℕ :=
  (ops.map owes).sum

theorem total_append (owes : φ → ℕ) (ops ops' : List φ) :
    total owes (ops ++ ops') = total owes ops + total owes ops' := by
  simp [total]

theorem total_singleton (owes : φ → ℕ) (phase : φ) : total owes [phase] = owes phase := by
  simp [total]

/-- One operation moves to another phase. -/
theorem total_set (owes : φ → ℕ) {ops : List φ} {i : ℕ} {phase : φ} (h : ops[i]? = some phase)
    (phase' : φ) : total owes (ops.set i phase') + owes phase = total owes ops + owes phase' := by
  induction ops generalizing i with
  | nil => cases h
  | cons first ops ih =>
      cases i with
      | zero =>
          rcases Option.some.inj h with rfl
          simp only [total, List.set_cons_zero, List.map_cons, List.sum_cons]
          omega
      | succ i =>
          have hrest := ih h
          simp only [total, List.set_cons_succ, List.map_cons, List.sum_cons] at hrest ⊢
          omega

/-- The operations but the one that moves stay. -/
theorem mem_set_of_mem {ops : List φ} {i : ℕ} {phase other : φ} (phase' : φ)
    (h : ops[i]? = some phase) (hother : other ∈ ops) : other = phase ∨ other ∈ ops.set i phase' := by
  rcases List.mem_iff_getElem?.mp hother with ⟨j, hj⟩
  by_cases hij : i = j
  · left
    rw [← hij, h] at hj
    exact (Option.some.inj hj).symm
  · right
    rw [List.mem_iff_getElem?]
    exact ⟨j, (List.getElem?_set_ne hij).trans hj⟩

theorem total_le {owes owes' : φ → ℕ} (h : ∀ phase, owes phase ≤ owes' phase) (ops : List φ) :
    total owes ops ≤ total owes' ops :=
  List.sum_le_sum fun phase _ => h phase

theorem total_eq_zero {owes : φ → ℕ} {ops : List φ} (h : ∀ phase ∈ ops, owes phase = 0) :
    total owes ops = 0 := by
  rw [total, List.sum_eq_zero]
  simpa using h

end Library
end MemosNote
