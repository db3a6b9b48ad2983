import Mathlib.Data.List.Basic

/-!
# Finding things in a text

A finder says what starts at a symbol, given the symbol before it and the rest of the text.  It is
tried at every symbol, or behind what was found last.

Main results:

- Theorem {lit}`scan_append`: a text in which nothing starts is passed over.
- Theorem {lit}`scan_eq_iff`: two finders find the same if they do so at every symbol.
- Theorem {lit}`skim_eq_scan`: skipping what was found misses nothing if nothing starts within it.
-/

namespace MemosNote
namespace Library
namespace Scan

variable {α β : Type}

/-- What is found in a text, with its place. -/
def scan (find : Option α → α → List α → Option β) (position : ℕ) (prev : Option α) :
    List α → List (ℕ × β)
  | [] => []
  | a :: rest =>
      ((find prev a rest).map fun value => (position, value)).toList ++
        scan find (position + 1) (some a) rest

theorem getLast?_cons_or (a : α) (before : List α) (prev : Option α) :
    (a :: before).getLast?.or prev = before.getLast?.or (some a) := by
  rw [List.getLast?_cons]
  cases before.getLast? <;> rfl

/-- Symbols at which nothing starts are passed over. -/
theorem scan_append {find : Option α → α → List α → Option β} {passed : List α}
    (h : ∀ a ∈ passed, ∀ prev rest, find prev a rest = none) (position : ℕ) (prev : Option α)
    (rest : List α) :
    scan find position prev (passed ++ rest) =
      scan find (position + passed.length) (passed.getLast?.or prev) rest := by
  induction passed generalizing position prev with
  | nil => rfl
  | cons a passed ih =>
      have hpassed := ih (fun b hb => h b (List.mem_cons_of_mem a hb)) (position + 1) (some a)
      rw [List.cons_append, scan, h a List.mem_cons_self, hpassed, List.length_cons,
        getLast?_cons_or, Nat.add_assoc, Nat.add_comm 1]
      rfl

/-- A finder of symbols that come from others. -/
theorem scan_map {γ : Type} (find : Option γ → γ → List γ → Option β) (e : α → γ) (position : ℕ)
    (prev : Option α) (l : List α) :
    scan find position (prev.map e) (l.map e) =
      scan (fun p a rest => find (p.map e) (e a) (rest.map e)) position prev l := by
  induction l generalizing position prev with
  | nil => rfl
  | cons a rest ih =>
      rw [List.map_cons, scan, scan]
      exact congrArg _ (ih (position + 1) (some a))

/-- What is found, in another form. -/
theorem map_scan {γ : Type} (find : Option α → α → List α → Option β) (g : β → γ) (position : ℕ)
    (prev : Option α) (l : List α) :
    (scan find position prev l).map (Prod.map id g) =
      scan (fun p a rest => (find p a rest).map g) position prev l := by
  induction l generalizing position prev with
  | nil => rfl
  | cons a rest ih =>
      rw [scan, scan, List.map_append, ih]
      cases find prev a rest <;> rfl

/-! ## Two finders -/

section Two

variable {f g : Option α → α → List α → Option β}

theorem position_le_of_mem_scan {position : ℕ} {prev : Option α} {l : List α} {found : ℕ × β}
    (h : found ∈ scan f position prev l) : position ≤ found.1 := by
  induction l generalizing position prev with
  | nil => cases h
  | cons a rest ih =>
      rw [scan, List.mem_append] at h
      rcases h with hhere | hlater
      · rcases Option.map_eq_some_iff.mp (Option.mem_toList.mp hhere) with ⟨value, -, rfl⟩
        exact Nat.le_refl position
      · exact Nat.le_of_succ_le (ih hlater)

/-- What is found at a symbol is not found behind it. -/
private theorem found_append_inj {position : ℕ} {here here' : Option β} {prev prev' : Option α}
    {l l' : List α}
    (h : (here.map fun value => (position, value)).toList ++ scan f (position + 1) prev l =
      (here'.map fun value => (position, value)).toList ++ scan g (position + 1) prev' l') :
    here = here' ∧ scan f (position + 1) prev l = scan g (position + 1) prev' l' := by
  have hlater {k : Option α → α → List α → Option β} {p : Option α} {m : List α} (value : β) :
      (position, value) ∉ scan k (position + 1) p m :=
    fun hmem => absurd (position_le_of_mem_scan hmem) (Nat.not_succ_le_self position)
  cases here with
  | none =>
      cases here' with
      | none => exact ⟨rfl, h⟩
      | some value =>
          have hmem : (position, value) ∈ scan f (position + 1) prev l := by
            rw [show scan f (position + 1) prev l = _ from h]
            exact List.mem_cons_self
          exact absurd hmem (hlater value)
  | some value =>
      cases here' with
      | none =>
          have hmem : (position, value) ∈ scan g (position + 1) prev' l' := by
            rw [show scan g (position + 1) prev' l' = _ from h.symm]
            exact List.mem_cons_self
          exact absurd hmem (hlater value)
      | some value' =>
          rcases List.cons.inj h with ⟨hhead, htail⟩
          exact ⟨congrArg some (Prod.mk.inj hhead).2, htail⟩

/-- Two finders find the same if and only if they do so at every symbol. -/
theorem scan_eq_iff {position : ℕ} {prev : Option α} {l : List α} :
    scan f position prev l = scan g position prev l ↔
      ∀ before a after, l = before ++ a :: after →
        f (before.getLast?.or prev) a after = g (before.getLast?.or prev) a after := by
  induction l generalizing position prev with
  | nil =>
      constructor
      · intro _ before a after h
        exact absurd (List.append_eq_nil_iff.mp h.symm).2 (List.cons_ne_nil _ _)
      · exact fun _ => rfl
  | cons b rest ih =>
      constructor
      · intro h before a after hl
        rcases found_append_inj h with ⟨hhere, hrest⟩
        cases before with
        | nil =>
            rcases List.cons.inj hl with ⟨rfl, rfl⟩
            exact hhere
        | cons c before =>
            rcases List.cons.inj hl with ⟨rfl, hbehind⟩
            rw [getLast?_cons_or]
            exact ih.mp hrest before a after hbehind
      · intro h
        have hhere : f prev b rest = g prev b rest := h [] b rest rfl
        have hrest : scan f (position + 1) (some b) rest = scan g (position + 1) (some b) rest := by
          apply ih.mpr
          intro before a after hl
          rw [← getLast?_cons_or]
          exact h (b :: before) a after (hl ▸ rfl)
        rw [scan, scan, hhere, hrest]

end Two

/-! ## Skipping -/

/-- What is found in a text when the symbols that belong to it are skipped. -/
def skim (find : Option α → α → List α → Option β) (size : β → ℕ) :
    ℕ → ℕ → Option α → List α → List (ℕ × β)
  | 0, _, _, _ => []
  | _, _, _, [] => []
  | fuel + 1, position, prev, a :: rest =>
      (find prev a rest).elim (skim find size fuel (position + 1) (some a) rest) fun value =>
        (position, value) ::
          skim find size fuel (position + 1 + size value)
            ((rest.take (size value)).getLast?.or (some a)) (rest.drop (size value))

/-- Skipping what was found misses nothing if nothing starts within it. -/
theorem skim_eq_scan {find : Option α → α → List α → Option β} {size : β → ℕ}
    (hsize : ∀ prev a rest value, find prev a rest = some value → size value ≤ rest.length)
    (hwithin : ∀ prev a rest value, find prev a rest = some value →
      ∀ b ∈ rest.take (size value), ∀ prev' rest', find prev' b rest' = none)
    (fuel position : ℕ) (prev : Option α) (l : List α) (h : l.length ≤ fuel) :
    skim find size fuel position prev l = scan find position prev l := by
  induction fuel generalizing position prev l with
  | zero =>
      rw [List.length_eq_zero_iff.mp (Nat.le_zero.mp h)]
      rfl
  | succ fuel ih =>
      cases l with
      | nil => rfl
      | cons a rest =>
          have hrest : rest.length ≤ fuel := Nat.le_of_succ_le_succ h
          rw [skim, scan]
          cases hfind : find prev a rest with
          | none => exact ih _ _ _ hrest
          | some value =>
              have hdrop : (rest.drop (size value)).length ≤ fuel := by
                rw [List.length_drop]
                omega
              have hpassed := scan_append (hwithin prev a rest value hfind) (position + 1) (some a)
                (rest.drop (size value))
              rw [List.take_append_drop, List.length_take,
                Nat.min_eq_left (hsize prev a rest value hfind)] at hpassed
              rw [Option.elim, ih _ _ _ hdrop, hpassed]
              rfl

end Scan
end Library
end MemosNote
