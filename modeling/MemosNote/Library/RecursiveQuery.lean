import Mathlib.Data.List.Dedup
import Mathlib.Data.List.Perm.Subperm
import Mathlib.Data.List.Nodup
import Mathlib.Logic.Relation

/-!
# Recursive queries

A recursive query starts from some rows and adds, row by row, the rows that a step relates to
it, as long as they are new.  The rows come from a finite table, so the query ends, and its
result consists of the rows that can be reached from the first ones.

Main results:

- Theorem {lit}`mem_recursiveUnion_iff`: the rows of a recursive query.
-/

namespace MemosNote
namespace Library

section

variable {α : Type} [DecidableEq α] (step : α → List α)

/-- The rows that a row adds to those already known. -/
def newRows (known : List α) (row : α) : List α :=
  (step row).dedup.filter fun r => r ∉ known

/-- Extract the rows of the queue, and queue the rows that each adds. -/
def recursiveRows : ℕ → List α → List α → List α
  | 0, done, queue => done ++ queue
  | _ + 1, done, [] => done
  | fuel + 1, done, row :: queue =>
      recursiveRows fuel (done ++ [row]) (queue ++ newRows step (done ++ row :: queue) row)

/-- The result of a recursive query over a table. -/
def recursiveUnion (table base : List α) : List α :=
  recursiveRows step table.length [] base.dedup

variable {step}

theorem mem_newRows {known : List α} {row r : α} :
    r ∈ newRows step known row ↔ r ∈ step row ∧ r ∉ known := by
  simp [newRows]

/-- The state of a query: distinct rows of the table, closed under the step but for the
queue. -/
structure Exploring (step : α → List α) (table done queue : List α) : Prop where
  nodup : (done ++ queue).Nodup
  subset : ∀ r ∈ done ++ queue, r ∈ table
  closed : ∀ r ∈ done, ∀ r' ∈ step r, r' ∈ done ++ queue

/-- Extracting a row keeps the state. -/
theorem Exploring.extract {table done queue : List α} {row : α}
    (hstep : ∀ r, ∀ r' ∈ step r, r' ∈ table) (h : Exploring step table done (row :: queue)) :
    Exploring step table (done ++ [row])
      (queue ++ newRows step (done ++ row :: queue) row) := by
  have hsplit : done ++ [row] ++ (queue ++ newRows step (done ++ row :: queue) row) =
      (done ++ row :: queue) ++ newRows step (done ++ row :: queue) row := by simp
  constructor
  · rw [hsplit]
    refine List.nodup_append.mpr ⟨h.nodup, (List.nodup_dedup _).filter _, ?_⟩
    rintro r hr r' hr' rfl
    exact (mem_newRows.mp hr').2 hr
  · rw [hsplit]
    intro r hr
    rcases List.mem_append.mp hr with hr | hr
    · exact h.subset r hr
    · exact hstep row r (mem_newRows.mp hr).1
  · rw [hsplit]
    intro r hr r' hr'
    rcases List.mem_append.mp hr with hr | hr
    · exact List.mem_append_left _ (h.closed r hr r' hr')
    · rw [List.mem_singleton.mp hr] at hr'
      by_cases hknown : r' ∈ done ++ row :: queue
      · exact List.mem_append_left _ hknown
      · exact List.mem_append_right _ (mem_newRows.mpr ⟨hr', hknown⟩)

/-- With fuel for every row of the table, the query ends when the queue is empty. -/
theorem exploring_recursiveRows {table : List α} (hstep : ∀ r, ∀ r' ∈ step r, r' ∈ table)
    {fuel : ℕ} {done queue : List α} (h : Exploring step table done queue)
    (hfuel : table.length ≤ fuel + done.length) :
    Exploring step table (recursiveRows step fuel done queue) [] := by
  induction fuel generalizing done queue with
  | zero =>
      have hlength : (done ++ queue).length ≤ table.length :=
        (List.subperm_of_subset h.nodup h.subset).length_le
      have hqueue : queue = [] := by
        rw [List.length_append] at hlength
        exact List.length_eq_zero_iff.mp (by omega)
      subst hqueue
      rw [recursiveRows, List.append_nil]
      exact h
  | succ fuel ih =>
      cases queue with
      | nil => exact h
      | cons row queue =>
          rw [recursiveRows]
          refine ih (h.extract hstep) ?_
          rw [List.length_append, List.length_singleton]
          omega

/-- The rows known are kept. -/
theorem subset_recursiveRows (fuel : ℕ) (done queue : List α) {r : α} (hr : r ∈ done ++ queue) :
    r ∈ recursiveRows step fuel done queue := by
  induction fuel generalizing done queue with
  | zero => exact hr
  | succ fuel ih =>
      cases queue with
      | nil => rwa [List.append_nil] at hr
      | cons row queue =>
          refine ih _ _ ?_
          simp only [List.mem_append, List.mem_cons] at hr ⊢
          tauto

/-- Every row of the result is reached from a known one. -/
theorem reached_of_mem_recursiveRows (fuel : ℕ) (done queue : List α) {r : α}
    (hr : r ∈ recursiveRows step fuel done queue) :
    ∃ r₀ ∈ done ++ queue, Relation.ReflTransGen (fun a b => b ∈ step a) r₀ r := by
  induction fuel generalizing done queue with
  | zero => exact ⟨r, hr, .refl⟩
  | succ fuel ih =>
      cases queue with
      | nil => exact ⟨r, by rwa [List.append_nil], .refl⟩
      | cons row queue =>
          obtain ⟨r₀, hr₀, hreach⟩ := ih _ _ hr
          have hsplit : r₀ ∈ done ++ row :: queue ∨
              r₀ ∈ newRows step (done ++ row :: queue) row := by
            simp only [List.mem_append, List.mem_cons] at hr₀ ⊢
            tauto
          rcases hsplit with hknown | hnew
          · exact ⟨r₀, hknown, hreach⟩
          · exact ⟨row, by simp, .head (mem_newRows.mp hnew).1 hreach⟩

/-- The state of a query before its first step. -/
theorem exploring_base {table base : List α} (hbase : ∀ r ∈ base, r ∈ table) :
    Exploring step table [] base.dedup where
  nodup := List.nodup_dedup base
  subset r hr := hbase r (List.mem_dedup.mp hr)
  closed := by simp

/-- A recursive query returns exactly the rows that can be reached from its base. -/
theorem mem_recursiveUnion_iff {table base : List α} (hbase : ∀ r ∈ base, r ∈ table)
    (hstep : ∀ r, ∀ r' ∈ step r, r' ∈ table) {r : α} :
    r ∈ recursiveUnion step table base ↔
      ∃ r₀ ∈ base, Relation.ReflTransGen (fun a b => b ∈ step a) r₀ r := by
  constructor
  · intro hr
    obtain ⟨r₀, hr₀, hreach⟩ := reached_of_mem_recursiveRows _ _ _ hr
    exact ⟨r₀, List.mem_dedup.mp hr₀, hreach⟩
  · rintro ⟨r₀, hr₀, hreach⟩
    have hend : Exploring step table (recursiveRows step table.length [] base.dedup) [] :=
      exploring_recursiveRows hstep (exploring_base hbase) (by simp)
    induction hreach with
    | refl =>
        refine subset_recursiveRows _ _ _ ?_
        simpa using hr₀
    | tail _ hlast ih =>
        have hclosed := hend.closed _ ih _ hlast
        rwa [List.append_nil] at hclosed

end

end Library
end MemosNote
