import Mathlib.Data.List.Basic
import Mathlib.Data.Nat.Notation

/-!
# Marks in a text

A mark is a symbol of a text at a position.  Marks are replaced by their positions in the text, or
by replacing a line of the text.

Main results:

- Theorem {lit}`getElem?_setAll`: replacing marks changes nothing else.
- Theorem {lit}`join_set_line`: replacing a mark in a line replaces it in the text.
- Theorem {lit}`eq_of_filterMap_eq_map`: when the results of a map that can fail are those of one
  that cannot.
-/

namespace MemosNote
namespace Library
namespace TextMarks

variable {α : Type}

/-! ## Positions -/

/-- The text with the symbol at the positions. -/
def setAll (text : List α) (positions : List ℕ) (symbol : α) : List α :=
  positions.foldr (fun p text => text.set p symbol) text

@[simp]
theorem length_setAll (text : List α) (positions : List ℕ) (symbol : α) :
    (setAll text positions symbol).length = text.length := by
  induction positions with
  | nil => rfl
  | cons p positions ih => exact List.length_set.trans ih

theorem getElem?_setAll (text : List α) (positions : List ℕ) (symbol : α) (p : ℕ) :
    (setAll text positions symbol)[p]? =
      if p ∈ positions then text[p]?.map fun _ => symbol else text[p]? := by
  induction positions with
  | nil => rfl
  | cons q positions ih =>
      have hcons : setAll text (q :: positions) symbol =
          (setAll text positions symbol).set q symbol := rfl
      rw [hcons, List.getElem?_set', ih]
      by_cases hq : q = p
      · subst hq
        rw [if_pos rfl, if_pos List.mem_cons_self]
        cases text[q]? <;> split <;> rfl
      · rw [if_neg hq]
        have hmem : p ∈ q :: positions ↔ p ∈ positions := by
          rw [List.mem_cons]
          exact or_iff_right fun h => hq h.symm
        simp only [hmem]

theorem setAll_congr {positions others : List ℕ} (h : ∀ p, p ∈ positions ↔ p ∈ others)
    (text : List α) (symbol : α) : setAll text positions symbol = setAll text others symbol := by
  apply List.ext_getElem?
  intro p
  simp only [getElem?_setAll, h]

/-- Two texts are the same outside the positions. -/
def ChangesOnly (text result : List α) (positions : List ℕ) : Prop :=
  result.length = text.length ∧ ∀ p, p ∉ positions → result[p]? = text[p]?

theorem changesOnly_refl (text : List α) (positions : List ℕ) : ChangesOnly text text positions :=
  ⟨rfl, fun _ _ => rfl⟩

theorem changesOnly_setAll (text : List α) (positions : List ℕ) (symbol : α) :
    ChangesOnly text (setAll text positions symbol) positions :=
  ⟨length_setAll text positions symbol, fun p hp => by rw [getElem?_setAll, if_neg hp]⟩

/-- Replacing a symbol by itself changes nothing. -/
theorem set_eq_self {text : List α} {p : ℕ} {symbol : α} (h : text[p]? = some symbol) :
    text.set p symbol = text := by
  apply List.ext_getElem?
  intro q
  rw [List.getElem?_set']
  by_cases hq : p = q
  · subst hq
    rw [if_pos rfl, h]
    rfl
  · rw [if_neg hq]

/-! ## Lines -/

section Lines

variable (q : α)

/-- Where a line starts in the text. -/
def lineOffset : List (List α) → ℕ → ℕ
  | line :: lines, k + 1 => line.length + 1 + lineOffset lines k
  | _, _ => 0

@[simp]
theorem lineOffset_zero (lines : List (List α)) : lineOffset lines 0 = 0 := by
  cases lines <;> rfl

theorem lineOffset_cons_succ (line : List α) (lines : List (List α)) (k : ℕ) :
    lineOffset (line :: lines) (k + 1) = line.length + 1 + lineOffset lines k :=
  rfl

/-- A line stands in the text from its offset on. -/
theorem getElem?_join_line {lines : List (List α)} {k : ℕ} {row : List α}
    (h : lines[k]? = some row) {i : ℕ} (hi : i < row.length) :
    ([q].intercalate lines)[lineOffset lines k + i]? = row[i]? := by
  induction lines generalizing k with
  | nil => cases h
  | cons first lines ih =>
      cases lines with
      | nil =>
          cases k with
          | zero =>
              cases h
              simp
          | succ k => cases h
      | cons second lines =>
          rw [List.intercalate_cons_cons]
          cases k with
          | zero =>
              cases h
              simp [List.getElem?_append, hi]
          | succ k =>
              have hskip : lineOffset (first :: second :: lines) (k + 1) + i =
                  (first ++ [q]).length + (lineOffset (second :: lines) k + i) := by
                rw [lineOffset_cons_succ, List.length_append, List.length_singleton, Nat.add_assoc]
              rw [hskip, List.getElem?_append_right (Nat.le_add_right _ _), Nat.add_sub_cancel_left]
              exact ih h

/-- Replacing a symbol of a line replaces it in the text. -/
theorem join_set_line {lines : List (List α)} {k : ℕ} {line : List α} (h : lines[k]? = some line)
    {i : ℕ} (hi : i < line.length) (symbol : α) :
    [q].intercalate (lines.set k (line.set i symbol)) =
      ([q].intercalate lines).set (lineOffset lines k + i) symbol := by
  induction lines generalizing k with
  | nil => cases h
  | cons first lines ih =>
      cases lines with
      | nil =>
          cases k with
          | zero =>
              cases h
              simp
          | succ k => cases h
      | cons second lines =>
          cases k with
          | zero =>
              cases h
              rw [List.set_cons_zero, List.intercalate_cons_cons, List.intercalate_cons_cons,
                lineOffset_zero, Nat.zero_add, List.append_assoc, List.append_assoc,
                List.set_append_left _ _ hi]
          | succ k =>
              have hne : (second :: lines).set k (line.set i symbol) ≠ [] := by simp
              rw [List.set_cons_succ, List.intercalate_cons_of_ne_nil hne,
                List.intercalate_cons_cons, ih h, lineOffset_cons_succ]
              have hskip : first.length + 1 + lineOffset (second :: lines) k + i =
                  (first ++ [q]).length + (lineOffset (second :: lines) k + i) := by
                rw [List.length_append, List.length_singleton, Nat.add_assoc]
              rw [hskip, List.set_append_right _ _ (Nat.le_add_right _ _), Nat.add_sub_cancel_left]

end Lines

/-! ## Results in order -/

/-- A map that can fail gives the results of one that cannot only if it gives them one by one. -/
theorem eq_of_filterMap_eq_map {β : Type} {f : α → Option β} {g : α → β} {l : List α}
    (h : l.filterMap f = l.map g) : ∀ a ∈ l, f a = some (g a) := by
  induction l with
  | nil =>
      intro a ha
      cases ha
  | cons b l ih =>
      intro a ha
      cases hb : f b with
      | none =>
          rw [List.filterMap_cons_none hb, List.map_cons] at h
          have hle := List.length_filterMap_le f l
          rw [h, List.length_cons, List.length_map] at hle
          omega
      | some c =>
          rw [List.filterMap_cons_some hb, List.map_cons] at h
          rcases List.cons.inj h with ⟨rfl, hrest⟩
          rcases List.mem_cons.mp ha with rfl | ha
          · exact hb
          · exact ih hrest a ha

end TextMarks
end Library
end MemosNote
