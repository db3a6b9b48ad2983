import Mathlib.Logic.Basic
import Mathlib.Data.Nat.Notation

/-!
# Three-valued truth

A search condition over nullable data takes one of three truth values.  This
module gives the strong Kleene connectives together with the few algebraic facts
the query layers rely on.
-/

namespace MemosNote
namespace Library

/-- The truth value of a condition over nullable data. -/
inductive Truth where
  | holds
  | fails
  | unknown
deriving DecidableEq, Repr

namespace Truth

/-- The truth value of a condition that reads no missing data. -/
def ofBool : Bool → Truth
  | true => holds
  | false => fails

/-- Strong Kleene negation. -/
def neg : Truth → Truth
  | holds => fails
  | fails => holds
  | unknown => unknown

/-- Strong Kleene conjunction. -/
def conj : Truth → Truth → Truth
  | fails, _ => fails
  | _, fails => fails
  | holds, holds => holds
  | _, _ => unknown

/-- Strong Kleene disjunction. -/
def disj : Truth → Truth → Truth
  | holds, _ => holds
  | _, holds => holds
  | fails, fails => fails
  | _, _ => unknown

@[simp]
theorem ofBool_true : ofBool true = holds :=
  rfl

@[simp]
theorem ofBool_false : ofBool false = fails :=
  rfl

@[simp]
theorem ofBool_eq_holds_iff (b : Bool) : ofBool b = holds ↔ b = true := by
  cases b <;> simp

@[simp]
theorem ofBool_ne_unknown (b : Bool) : ofBool b ≠ unknown := by
  cases b <;> simp

@[simp]
theorem neg_holds : neg holds = fails :=
  rfl

@[simp]
theorem neg_fails : neg fails = holds :=
  rfl

@[simp]
theorem neg_unknown : neg unknown = unknown :=
  rfl

@[simp]
theorem holds_conj (t : Truth) : conj holds t = t := by
  cases t <;> rfl

@[simp]
theorem conj_holds (t : Truth) : conj t holds = t := by
  cases t <;> rfl

@[simp]
theorem fails_conj (t : Truth) : conj fails t = fails := by
  cases t <;> rfl

@[simp]
theorem conj_fails (t : Truth) : conj t fails = fails := by
  cases t <;> rfl

@[simp]
theorem holds_disj (t : Truth) : disj holds t = holds := by
  cases t <;> rfl

@[simp]
theorem disj_holds (t : Truth) : disj t holds = holds := by
  cases t <;> rfl

@[simp]
theorem fails_disj (t : Truth) : disj fails t = t := by
  cases t <;> rfl

@[simp]
theorem disj_fails (t : Truth) : disj t fails = t := by
  cases t <;> rfl

/-- A disjunction holds exactly when one disjunct holds. -/
theorem disj_eq_holds_iff (s t : Truth) : disj s t = holds ↔ s = holds ∨ t = holds := by
  cases s <;> cases t <;> simp [disj]

end Truth

end Library
end MemosNote
