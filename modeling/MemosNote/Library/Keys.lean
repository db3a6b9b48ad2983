import Mathlib.Data.List.Induction
import Mathlib.Data.List.Nodup

/-!
# Lists with keys

A list loses the elements whose key an earlier element has, or is cut where the key of its elements
changes.  A list of entries holds values under keys; a value is found under its key, replaced or
taken out.

Main results:

- Theorem {lit}`nodup_firsts`, Theorem {lit}`exists_mem_firsts`: the first element of each key.
- Theorem {lit}`flatten_runs`, Theorem {lit}`mem_runs`: the runs of one key.
- Theorem {lit}`mem_of_lookup`, Theorem {lit}`of_mem_takeOut`, Theorem {lit}`of_mem_replaceAt`: what
  is found under a key and what is left.
-/

namespace MemosNote
namespace Library

/-! ## The first element of each key -/

section

variable {α κ : Type} [DecidableEq κ]

/-- The elements that are the first with their key, which was not seen before either. -/
def firsts (key : α → κ) : List κ → List α → List α
  | _, [] => []
  | seen, a :: rest =>
      if key a ∈ seen then firsts key seen rest else a :: firsts key (key a :: seen) rest

variable {key : α → κ}

theorem mem_of_mem_firsts {seen : List κ} {list : List α} {a : α} (h : a ∈ firsts key seen list) :
    a ∈ list ∧ key a ∉ seen := by
  induction list generalizing seen with
  | nil => cases h
  | cons b rest ih =>
      rw [firsts] at h
      by_cases hseen : key b ∈ seen
      · rw [if_pos hseen] at h
        exact ⟨List.mem_cons_of_mem _ (ih h).1, (ih h).2⟩
      · rw [if_neg hseen] at h
        rcases List.mem_cons.mp h with rfl | h
        · exact ⟨List.mem_cons_self, hseen⟩
        · exact ⟨List.mem_cons_of_mem _ (ih h).1, fun hmem => (ih h).2 (List.mem_cons_of_mem _ hmem)⟩

/-- No key is left twice. -/
theorem nodup_firsts (seen : List κ) (list : List α) : ((firsts key seen list).map key).Nodup := by
  induction list generalizing seen with
  | nil => exact List.nodup_nil
  | cons b rest ih =>
      rw [firsts]
      split
      · exact ih seen
      · rw [List.map_cons, List.nodup_cons]
        refine ⟨fun hmem => ?_, ih _⟩
        rcases List.mem_map.mp hmem with ⟨a, ha, hkey⟩
        exact (mem_of_mem_firsts ha).2 (hkey ▸ List.mem_cons_self)

/-- Every key that was not seen before is left. -/
theorem exists_mem_firsts {seen : List κ} {list : List α} {a : α} (ha : a ∈ list)
    (hseen : key a ∉ seen) : ∃ b ∈ firsts key seen list, key b = key a := by
  induction list generalizing seen with
  | nil => cases ha
  | cons b rest ih =>
      rw [firsts]
      by_cases hb : key b ∈ seen
      · rw [if_pos hb]
        rcases List.mem_cons.mp ha with rfl | ha
        · exact absurd hb hseen
        · exact ih ha hseen
      · rw [if_neg hb]
        by_cases hkey : key b = key a
        · exact ⟨b, List.mem_cons_self, hkey⟩
        · rcases List.mem_cons.mp ha with rfl | ha
          · exact absurd rfl hkey
          · have hnot : key a ∉ key b :: seen := by
              simp [Ne.symm hkey, hseen]
            rcases ih ha hnot with ⟨c, hc, hck⟩
            exact ⟨c, List.mem_cons_of_mem _ hc, hck⟩

end

/-! ## Runs of one key -/

section

variable {α κ : Type} [DecidableEq κ]

/-- Add an element to the last run if that has its key, and else as a run of its own. -/
def addToRuns (key : α → κ) (done : List (κ × List α)) (a : α) : List (κ × List α) :=
  match done.getLast? with
  | some (k, run) =>
      if k = key a then done.dropLast ++ [(k, run ++ [a])] else done ++ [(key a, [a])]
  | none => [(key a, [a])]

/-- The runs of a list with their keys. -/
def runs (key : α → κ) (list : List α) : List (κ × List α) :=
  list.foldl (addToRuns key) []

variable {key : α → κ}

/-- An element goes to the end of the last run of its key or into a new run. -/
theorem addToRuns_cases (done : List (κ × List α)) (a : α) :
    (∃ before run, done = before ++ [(key a, run)] ∧
        addToRuns key done a = before ++ [(key a, run ++ [a])]) ∨
      addToRuns key done a = done ++ [(key a, [a])] := by
  rcases List.eq_nil_or_concat done with rfl | ⟨before, ⟨k, run⟩, rfl⟩
  · exact Or.inr rfl
  · by_cases hk : k = key a
    · left
      exact ⟨before, run, by rw [hk, List.concat_eq_append], by simp [addToRuns, hk]⟩
    · right
      simp [addToRuns, hk]

theorem runs_concat (list : List α) (a : α) :
    runs key (list ++ [a]) = addToRuns key (runs key list) a := by
  rw [runs, List.foldl_append]
  rfl

/-- The runs are the list. -/
theorem flatten_runs (list : List α) : (runs key list).flatMap Prod.snd = list := by
  induction list using List.reverseRecOn with
  | nil => rfl
  | append_singleton list a ih =>
      rw [runs_concat]
      rcases @addToRuns_cases _ _ _ key (runs key list) a with ⟨before, run, hdone, hadd⟩ | hadd
      · rw [hadd]
        rw [hdone] at ih
        rw [← ih]
        simp
      · rw [hadd]
        simp [ih]

/-- A run is not empty, and its elements have its key. -/
theorem mem_runs {list : List α} {k : κ} {run : List α} (h : (k, run) ∈ runs key list) :
    run ≠ [] ∧ ∀ a ∈ run, key a = k := by
  induction list using List.reverseRecOn generalizing k run with
  | nil => cases h
  | append_singleton list a ih =>
      rw [runs_concat] at h
      rcases @addToRuns_cases _ _ _ key (runs key list) a with ⟨before, last, hdone, hadd⟩ | hadd
      · rw [hadd, List.mem_append, List.mem_singleton] at h
        rcases h with h | h
        · exact ih (hdone ▸ List.mem_append_left _ h)
        · cases h
          have hlast := (ih (hdone ▸ List.mem_append_right _ List.mem_cons_self)).2
          refine ⟨by simp, fun b hb => ?_⟩
          rw [List.mem_append, List.mem_singleton] at hb
          rcases hb with hb | rfl
          · exact hlast b hb
          · rfl
      · rw [hadd, List.mem_append, List.mem_singleton] at h
        rcases h with h | h
        · exact ih h
        · cases h
          exact ⟨by simp, by simp⟩

theorem mem_of_mem_runs {list : List α} {group : κ × List α} (h : group ∈ runs key list) {a : α}
    (ha : a ∈ group.2) : a ∈ list := by
  rw [← @flatten_runs _ _ _ key list]
  exact List.mem_flatMap.mpr ⟨group, h, ha⟩

/-- A list with at most one run has one key. -/
theorem key_eq_of_length_runs {list : List α} (h : (runs key list).length ≤ 1) {a b : α}
    (ha : a ∈ list) (hb : b ∈ list) : key a = key b := by
  rw [← @flatten_runs _ _ _ key list, List.mem_flatMap] at ha hb
  rcases ha with ⟨⟨k, run⟩, hrun, ha⟩
  rcases hb with ⟨⟨k', run'⟩, hrun', hb⟩
  rcases List.append_of_mem hrun with ⟨before, after, hsplit⟩
  rw [hsplit, List.length_append, List.length_cons] at h
  have hbefore : before = [] := List.eq_nil_of_length_eq_zero (by omega)
  have hafter : after = [] := List.eq_nil_of_length_eq_zero (by omega)
  rw [hsplit, hbefore, hafter] at hrun'
  cases List.mem_singleton.mp hrun'
  rw [(mem_runs hrun).2 a ha, (mem_runs hrun).2 b hb]

end

/-! ## Entries -/

section

variable {κ α : Type}

theorem mem_of_lookup [BEq κ] [LawfulBEq κ] {list : List (κ × α)} {key : κ} {a : α}
    (h : list.lookup key = some a) : (key, a) ∈ list := by
  rcases List.lookup_eq_some_iff.mp h with ⟨front, back, rfl, -⟩
  exact List.mem_append_right _ List.mem_cons_self

variable [DecidableEq κ]

/-- The entries under the other keys. -/
def takeOut (key : κ) (list : List (κ × α)) : List (κ × α) :=
  list.filter fun entry => entry.1 ≠ key

/-- The entries, with another value under a key. -/
def replaceAt (key : κ) (a : α) (list : List (κ × α)) : List (κ × α) :=
  list.map fun entry => if entry.1 = key then (key, a) else entry

variable {key : κ} {a : α} {entry : κ × α} {list : List (κ × α)}

theorem of_mem_takeOut (h : entry ∈ takeOut key list) : entry ∈ list :=
  (List.mem_filter.mp h).1

theorem of_mem_replaceAt (h : entry ∈ replaceAt key a list) : entry = (key, a) ∨ entry ∈ list := by
  rcases List.mem_map.mp h with ⟨old, hold, rfl⟩
  split_ifs
  · exact Or.inl rfl
  · exact Or.inr hold

end

end Library
end MemosNote
