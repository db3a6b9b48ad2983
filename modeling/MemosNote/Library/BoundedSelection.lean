import Mathlib.Data.List.Perm.Basic
import Mathlib.Order.Lattice

/-!
# Selecting the smallest elements in one pass

A pass over a list keeps at most so many elements.  While there is room an element is kept; after
that it replaces an element with a greatest key if its own key is smaller.

Main results:

- Structure {lit}`Selected`: the kept elements are as many as fit, and none of the others has a
  smaller key.
- Theorem {lit}`Selected.keep`, Theorem {lit}`Selected.replace`, Theorem {lit}`Selected.skip`: the
  ways in which the pass goes on.
-/

namespace MemosNote
namespace Library

variable {α β : Type} [LinearOrder β] {key : α → β} {k : ℕ} {seen kept : List α} {a : α}

/-- Of the elements seen, at most so many are kept, and those have the smallest keys. -/
structure Selected (key : α → β) (k : ℕ) (seen kept : List α) : Prop where
  length : kept.length = min k seen.length
  smallest : ∃ left, (kept ++ left).Perm seen ∧ ∀ a ∈ kept, ∀ b ∈ left, key a ≤ key b

namespace Selected

theorem nil (key : α → β) (k : ℕ) : Selected key k [] [] where
  length := (Nat.min_zero k).symm
  smallest := ⟨[], List.Perm.refl _, fun _ ha => absurd ha List.not_mem_nil⟩

/-- While there is room, nothing is left. -/
theorem left_eq_nil {left : List α} (h : Selected key k seen kept)
    (hperm : (kept ++ left).Perm seen) (hroom : kept.length < k) : left = [] := by
  have hlength := hperm.length_eq
  rw [List.length_append] at hlength
  have hkept := h.length
  apply List.eq_nil_of_length_eq_zero
  omega

/-- While there is room, an element is kept. -/
theorem keep (h : Selected key k seen kept) (hroom : kept.length < k) (a : α) :
    Selected key k (seen ++ [a]) (kept ++ [a]) := by
  rcases h.smallest with ⟨left, hperm, -⟩
  have hnone := h.left_eq_nil hperm hroom
  have hlength := h.length
  constructor
  · rw [List.length_append, List.length_append, List.length_singleton]
    omega
  · rw [hnone, List.append_nil] at hperm
    refine ⟨[], ?_, fun _ _ b hb => absurd hb List.not_mem_nil⟩
    rw [List.append_nil]
    exact hperm.append_right [a]

/-- An element whose key is not smaller than any is left. -/
theorem skip (h : Selected key k seen kept) (hfull : k ≤ kept.length)
    (hgreatest : ∀ b ∈ kept, key b ≤ key a) : Selected key k (seen ++ [a]) kept := by
  rcases h.smallest with ⟨left, hperm, hsmallest⟩
  have hlength := h.length
  constructor
  · rw [List.length_append, List.length_singleton]
    omega
  · refine ⟨left ++ [a], ?_, fun x hx b hb => ?_⟩
    · rw [← List.append_assoc]
      exact hperm.append_right [a]
    · rcases List.mem_append.mp hb with hb | hb
      · exact hsmallest x hx b hb
      · rw [List.mem_singleton.mp hb]
        exact hgreatest x hx

/-- An element with a smaller key replaces one with a greatest key. -/
theorem replace (h : Selected key k seen kept) (hfull : k ≤ kept.length) {i : ℕ}
    (hi : i < kept.length) (hgreatest : ∀ b ∈ kept, key b ≤ key kept[i])
    (hsmaller : key a < key kept[i]) : Selected key k (seen ++ [a]) (kept.set i a) := by
  rcases h.smallest with ⟨left, hperm, hsmallest⟩
  have hlength := h.length
  have hset : (kept.set i a ++ kept[i] :: left).Perm (seen ++ [a]) := by
    have hsplit : kept = kept.take i ++ kept[i] :: kept.drop (i + 1) := by
      rw [List.getElem_cons_drop, List.take_append_drop]
    have hsetSplit : kept.set i a = kept.take i ++ a :: kept.drop (i + 1) :=
      List.set_eq_take_append_cons_drop.trans (if_pos hi)
    -- Both are the new element, the replaced one and the rest.
    have hnew : (kept.set i a ++ kept[i] :: left).Perm
        (a :: (kept.take i ++ kept[i] :: kept.drop (i + 1) ++ left)) := by
      rw [hsetSplit, List.append_assoc, List.append_assoc, List.cons_append, List.cons_append]
      refine List.perm_middle.trans (List.Perm.cons a ?_)
      refine (List.append_assoc _ _ _ ▸ List.perm_middle).trans ?_
      refine List.Perm.trans ?_ List.perm_middle.symm
      rw [List.append_assoc]
    rw [← hsplit] at hnew
    refine hnew.trans ((hperm.cons a).trans ?_)
    exact (List.perm_append_singleton a seen).symm
  constructor
  · rw [List.length_set, List.length_append, List.length_singleton]
    omega
  · refine ⟨kept[i] :: left, hset, fun x hx b hb => ?_⟩
    have hx' : key x ≤ key kept[i] := by
      rcases List.mem_or_eq_of_mem_set hx with hx | rfl
      · exact hgreatest x hx
      · exact hsmaller.le
    rcases List.mem_cons.mp hb with rfl | hb
    · exact hx'
    · exact hx'.trans (hsmallest _ (List.getElem_mem hi) b hb)

end Selected

end Library
end MemosNote
