import Mathlib.Data.List.Induction
import Mathlib.Data.Nat.Notation
import Mathlib.Logic.Function.Basic
import MemosNote.Library.Run

/-!
# Read-modify-write on a shared register

Processes update a shared value in two atomic steps: one reads the whole value, the
other writes back the modification of what was read.  Between the two steps any
other process may take its own steps, so an update can be lost.

The register keeps a ghost log of the operations that have completed, in the order
of their writes.

Main results:

- Theorem {lit}`Register.step_serial`: a write over an unchanged value extends the
  serial execution of the log by one operation.
- Theorem {lit}`mem_foldl_iff`: what a serial execution leaves in a set-like value is
  decided by the last operation that concerns an element.
-/

namespace MemosNote
namespace Library

/-- An atomic step of a process. -/
inductive RegisterEvent (Op : Type) where
  | read (p : ℕ) (op : Op)
  | write (p : ℕ)

/-- A shared value, the operations under way with what they read, and the log of the
completed ones. -/
structure Register (S Op : Type) where
  value : S
  pending : ℕ → Option (Op × S) := fun _ => none
  log : List Op := []

namespace Register

variable {S Op : Type} (apply : Op → S → S)

/-- One atomic step.  A process reads when it is idle and writes when it has read. -/
def step (r : Register S Op) : RegisterEvent Op → Option (Register S Op)
  | .read p op =>
      match r.pending p with
      | none => some { r with pending := Function.update r.pending p (some (op, r.value)) }
      | some _ => none
  | .write p =>
      match r.pending p with
      | none => none
      | some (op, seen) =>
          some {
            value := apply op seen
            pending := Function.update r.pending p none
            log := r.log ++ [op] }

/-- The value a process writes over is the one it read. -/
def Unchanged (r : Register S Op) : RegisterEvent Op → Prop
  | .read _ _ => True
  | .write p => ∀ op seen, r.pending p = some (op, seen) → seen = r.value

/-- The register holds the serial execution of its log. -/
def Serial (init : S) (r : Register S Op) : Prop :=
  r.value = r.log.foldl (fun s op => apply op s) init

/-- A write over an unchanged value extends the serial execution. -/
theorem step_serial {init : S} {r r' : Register S Op} {e : RegisterEvent Op}
    (hserial : r.Serial apply init) (hunchanged : r.Unchanged e)
    (hstep : r.step apply e = some r') : r'.Serial apply init := by
  cases e with
  | read p op =>
      unfold step at hstep
      cases hp : r.pending p with
      | none =>
          simp only [hp, Option.some.injEq] at hstep
          rw [← hstep]
          exact hserial
      | some pair => simp [hp] at hstep
  | write p =>
      unfold step at hstep
      cases hp : r.pending p with
      | none => simp [hp] at hstep
      | some pair =>
          obtain ⟨op, seen⟩ := pair
          simp only [hp, Option.some.injEq] at hstep
          have hseen : seen = r.value := hunchanged op seen hp
          rw [← hstep]
          simp only [Serial, List.foldl_append, List.foldl_cons, List.foldl_nil]
          rw [hseen, show r.value = r.log.foldl (fun s op => apply op s) init from hserial]

end Register

/-! ## Set-like values -/

section

variable {S Op κ : Type}

/-- What the last operation that concerns an element did to it: put it in or took it out. -/
def lastEffect (effect : Op → κ → Option Bool) (log : List Op) (k : κ) : Option Bool :=
  log.foldl (fun last op => (effect op k).or last) none

theorem lastEffect_append (effect : Op → κ → Option Bool) (log : List Op) (op : Op) (k : κ) :
    lastEffect effect (log ++ [op]) k = (effect op k).or (lastEffect effect log k) := by
  simp [lastEffect]

/-- What a serial execution leaves in is decided by the last effect on the element. -/
theorem mem_foldl_iff (apply : Op → S → S) (effect : Op → κ → Option Bool)
    (mem : κ → S → Prop)
    (happly : ∀ op s k, mem k (apply op s) ↔
      match effect op k with
      | some present => present = true
      | none => mem k s)
    (init : S) (log : List Op) (k : κ) :
    mem k (log.foldl (fun s op => apply op s) init) ↔
      match lastEffect effect log k with
      | some present => present = true
      | none => mem k init := by
  induction log using List.reverseRecOn with
  | nil => rfl
  | append_singleton log op ih =>
      rw [List.foldl_append, lastEffect_append]
      simp only [List.foldl_cons, List.foldl_nil]
      rw [happly]
      cases effect op k with
      | none => simpa using ih
      | some present => simp

end

end Library
end MemosNote
