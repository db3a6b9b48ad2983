import Mathlib.Data.List.Basic

/-!
# Header blocks

A text whose lines end in a carriage return, a line feed, or both in this order, is split at its
first empty line.

Main results:

- Definition {lit}`splitHeader`: the lines before the first empty line, and what comes after it.
- Theorem {lit}`splitHeader_join`: lines that were joined are found again.
-/

namespace MemosNote
namespace Library

variable {α : Type} [DecidableEq α]

/-- The lines of a text up to its first empty line, behind the start of a line, and the rest of the
text. -/
def splitHeader (cr lf : α) : List α → List α → Option (List (List α) × List α)
  | _, [] => none
  | line, [a] =>
      if (a = cr ∨ a = lf) ∧ line = [] then some ([], []) else none
  | line, a :: b :: rest =>
      if a = cr ∧ b = lf then
        if line = [] then some ([], rest)
        else (splitHeader cr lf [] rest).map fun r => (line :: r.1, r.2)
      else if a = cr ∨ a = lf then
        if line = [] then some ([], b :: rest)
        else (splitHeader cr lf [] (b :: rest)).map fun r => (line :: r.1, r.2)
      else splitHeader cr lf (line ++ [a]) (b :: rest)

variable {cr lf : α}

/-- An empty line ends the header. -/
theorem splitHeader_empty (rest : List α) :
    splitHeader cr lf [] (cr :: lf :: rest) = some ([], rest) := by
  simp [splitHeader]

/-- A line that has ended is a line of the header. -/
theorem splitHeader_line {start line : List α} (hline : ∀ a ∈ line, a ≠ cr ∧ a ≠ lf)
    (hne : start ++ line ≠ []) (rest : List α) :
    splitHeader cr lf start (line ++ cr :: lf :: rest) =
      (splitHeader cr lf [] rest).map fun r => ((start ++ line) :: r.1, r.2) := by
  induction line generalizing start with
  | nil =>
      rw [List.append_nil] at hne ⊢
      rw [List.nil_append, splitHeader, if_pos ⟨rfl, rfl⟩, if_neg hne]
  | cons a line ih =>
      rcases hline a (by simp) with ⟨hcr, hlf⟩
      -- The line goes on, whatever comes next.
      have hstep : splitHeader cr lf start (a :: (line ++ cr :: lf :: rest)) =
          splitHeader cr lf (start ++ [a]) (line ++ cr :: lf :: rest) := by
        cases hnext : line ++ cr :: lf :: rest with
        | nil => simp at hnext
        | cons b more =>
            rw [splitHeader, if_neg fun h => hcr h.1, if_neg fun h => h.elim hcr hlf]
      have hrest := @ih (start ++ [a]) (fun b hb => hline b (by simp [hb])) (by simp)
      rw [List.cons_append, hstep, hrest, List.append_assoc, List.singleton_append]

/-- Lines that are not empty and hold no line end are found again, and so is what follows an empty
line. -/
theorem splitHeader_join {lines : List (List α)}
    (hlines : ∀ line ∈ lines, line ≠ [] ∧ ∀ a ∈ line, a ≠ cr ∧ a ≠ lf) (rest : List α) :
    splitHeader cr lf [] (lines.flatMap (· ++ [cr, lf]) ++ cr :: lf :: rest) =
      some (lines, rest) := by
  induction lines with
  | nil => exact splitHeader_empty rest
  | cons line lines ih =>
      rcases hlines line (by simp) with ⟨hne, hline⟩
      have hrest := ih fun l hl => hlines l (by simp [hl])
      have hsplit : (line :: lines).flatMap (· ++ [cr, lf]) ++ cr :: lf :: rest =
          line ++ cr :: lf :: (lines.flatMap (· ++ [cr, lf]) ++ cr :: lf :: rest) := by
        simp
      rw [hsplit, splitHeader_line hline (by simpa using hne), hrest]
      rfl

end Library
end MemosNote
