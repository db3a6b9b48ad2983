import Mathlib.Data.List.Sort
import Mathlib.Order.Basic

/-!
# Pages of a sorted list

A page is cut out of a list by an offset and a limit.  In a sorted list the place of an element is
the number of the smaller ones.  Leaving elements out of the list moves all that follow them, so a
page shows it unless it ends before the first of them or starts behind the list.

Main results:

- Theorem {lit}`mem_take_iff_rank`: the first elements of a sorted list are those of small rank.
- Theorem {lit}`page_filter_eq_iff`: when a page does not show that elements are left out.
- Theorem {lit}`filter_insertionSort`: elements may be left out before or after sorting.
- Theorem {lit}`foldPages_eq`: page by page, the whole list is read.
-/

namespace MemosNote
namespace Library
namespace Page

/-- A page of a list. -/
def page {α : Type} (offset limit : ℕ) (l : List α) : List α :=
  (l.drop offset).take limit

/-- In a sorted list an element is among the first ones if few are smaller. -/
theorem mem_take_iff_rank {κ : Type} [LinearOrder κ] {l : List κ} (h : l.Pairwise (· ≤ ·)) (x : κ)
    (n : ℕ) : x ∈ l.take n ↔ x ∈ l ∧ l.countP (· < x) < n := by
  induction l generalizing n with
  | nil => simp
  | cons a l ih =>
      rcases List.pairwise_cons.mp h with ⟨hle, hl⟩
      cases n with
      | zero => simp
      | succ n =>
          have hcount : (a :: l).countP (· < x) = l.countP (· < x) + if a < x then 1 else 0 := by
            simp [List.countP_cons]
          rw [List.take_succ_cons, List.mem_cons, List.mem_cons, ih hl, hcount]
          by_cases hxa : x = a
          · subst hxa
            have hzero : l.countP (· < x) = 0 := by
              rw [List.countP_eq_zero]
              intro b hb
              simpa using hle b hb
            simp [hzero]
          · by_cases hx : x ∈ l
            · have hlt : a < x := lt_of_le_of_ne (hle x hx) (Ne.symm hxa)
              simp [hxa, hx, hlt]
            · simp [hxa, hx]

section Filter

variable {α : Type} {p : α → Bool}

/-- The place of a kept element is the number of the kept ones before it. -/
private theorem getElem?_filter {l : List α} {i : ℕ} {y : α} (hy : l[i]? = some y)
    (hp : p y = true) : (l.filter p)[((l.take i).filter p).length]? = some y := by
  rcases List.getElem?_eq_some_iff.mp hy with ⟨hi, hget⟩
  have hsplit : l = l.take i ++ y :: l.drop (i + 1) := by
    rw [← hget, List.getElem_cons_drop, List.take_append_drop]
  have hfilter : l.filter p = (l.take i).filter p ++ y :: (l.drop (i + 1)).filter p := by
    conv_lhs => rw [hsplit, List.filter_append, List.filter_cons_of_pos hp]
  rw [hfilter, List.getElem?_append_right (Nat.le_refl _), Nat.sub_self]
  rfl

/-- Nothing is left out before the end of the page. -/
private theorem page_filter_of_forall {offset limit : ℕ} {l : List α}
    (h : ∀ x ∈ l.take (offset + limit), p x = true) :
    page offset limit l = page offset limit (l.filter p) := by
  have hpage : ∀ l : List α, page offset limit l = (l.take (offset + limit)).drop offset := by
    intro l
    rw [page, List.drop_take, Nat.add_sub_cancel_left]
  have htake : (l.filter p).take (offset + limit) = l.take (offset + limit) := by
    conv_lhs =>
      rw [← List.take_append_drop (offset + limit) l, List.filter_append,
        List.filter_eq_self.mpr h]
    by_cases hlength : offset + limit ≤ l.length
    · rw [List.take_append_of_le_length (by simp [hlength]), List.take_take, Nat.min_self]
    · rw [List.drop_eq_nil_of_le (by omega), List.filter_nil, List.append_nil, List.take_take,
        Nat.min_self]
  rw [hpage, hpage, htake]

/-- A page shows nothing of what is left out if it is empty, starts behind the list or ends before
the first element left out. -/
theorem page_filter_eq {offset limit : ℕ} {l : List α}
    (h : limit = 0 ∨ l.length ≤ offset ∨ ∀ x ∈ l.take (offset + limit), p x = true) :
    page offset limit l = page offset limit (l.filter p) := by
  rcases h with rfl | hbehind | hall
  · simp [page]
  · have hfilter := (List.length_filter_le p l).trans hbehind
    simp [page, List.drop_eq_nil_of_le hbehind, List.drop_eq_nil_of_le hfilter]
  · exact page_filter_of_forall hall

/-- Elements are left out without a trace on the page if and only if the page is empty, starts
behind the list or ends before the first of them; the kept elements must differ where the page
does not start at the front. -/
theorem page_filter_eq_iff {offset limit : ℕ} {l : List α}
    (hnodup : offset = 0 ∨ (l.filter p).Nodup) :
    page offset limit l = page offset limit (l.filter p) ↔
      limit = 0 ∨ l.length ≤ offset ∨ ∀ x ∈ l.take (offset + limit), p x = true := by
  constructor
  · intro heq
    by_contra hnot
    rw [not_or, not_or, Nat.not_le] at hnot
    rcases hnot with ⟨hlimit, hoffset, hall⟩
    apply hall
    intro x hx
    rw [List.take_add, List.mem_append] at hx
    rcases hx with hbefore | hon
    · -- the page starts with an element that moved to the front
      by_contra hx
      have hhead : (l.filter p)[offset]? = some l[offset] := by
        have hfirst : ∀ l : List α, (page offset limit l)[0]? = l[offset]? := by
          intro l
          rw [page, List.getElem?_take_of_lt (Nat.pos_iff_ne_zero.mpr hlimit), List.getElem?_drop,
            Nat.add_zero]
        rw [← hfirst, ← heq, hfirst]
        exact List.getElem?_eq_getElem hoffset
      have hkept : p l[offset] = true := (List.mem_filter.mp (List.mem_of_getElem? hhead)).2
      have hplace := getElem?_filter (List.getElem?_eq_getElem hoffset) hkept
      have hfewer : ((l.take offset).filter p).length < offset := by
        have hlt : ((l.take offset).filter p).length < (l.take offset).length := by
          rw [List.length_filter_lt_length_iff_exists]
          exact ⟨x, hbefore, hx⟩
        exact hlt.trans_le (List.length_take_le offset l)
      rcases hnodup with rfl | hnodup
      · exact absurd hfewer (Nat.not_lt_zero _)
      · have hlt : offset < (l.filter p).length := (List.getElem?_eq_some_iff.mp hhead).1
        have hsame := (List.getElem?_inj hlt hnodup).mp (hhead.trans hplace.symm)
        omega
    · -- what stands on the page is kept
      have hmem : x ∈ page offset limit (l.filter p) := heq ▸ hon
      exact (List.mem_filter.mp (List.mem_of_mem_drop (List.mem_of_mem_take hmem))).2
  · exact page_filter_eq

end Filter

/-! ## All pages -/

/-- Read a list page by page, until a page is empty. -/
def foldPages {α σ : Type} (limit : ℕ) (step : σ → List α → σ) (l : List α) : ℕ → ℕ → σ → σ
  | 0, _, acc => acc
  | fuel + 1, offset, acc =>
      if (page offset limit l).isEmpty then acc
      else foldPages limit step l fuel (offset + limit) (step acc (page offset limit l))

/-- Page by page, the rest of the list is read. -/
theorem foldPages_eq {α σ : Type} {limit : ℕ} {step : σ → List α → σ} (hlimit : 0 < limit)
    (hnil : ∀ acc, step acc [] = acc)
    (happend : ∀ acc l m, step (step acc l) m = step acc (l ++ m)) (l : List α)
    (fuel offset : ℕ) (acc : σ) (h : l.length < offset + fuel) :
    foldPages limit step l fuel offset acc = step acc (l.drop offset) := by
  induction fuel generalizing offset acc with
  | zero =>
      rw [foldPages, List.drop_eq_nil_of_le (by omega), hnil]
  | succ fuel ih =>
      rw [foldPages]
      split_ifs with hempty
      · have hrest : l.drop offset = [] := by
          rcases List.take_eq_nil_iff.mp (List.isEmpty_iff.mp hempty) with hzero | hrest
          · omega
          · exact hrest
        rw [hrest, hnil]
      · rw [ih _ _ (by omega), happend, page, ← List.drop_drop, List.take_append_drop]

/-! ## Sorting -/

section Sorting

variable {α : Type} {r : α → α → Prop} [DecidableRel r]

private theorem orderedInsert_of_forall {a : α} {l : List α} (h : ∀ b ∈ l, r a b) :
    l.orderedInsert r a = a :: l := by
  cases l with
  | nil => rfl
  | cons b l => exact List.orderedInsert_cons_of_le r l (h b List.mem_cons_self)

theorem filter_orderedInsert [IsTrans α r] (p : α → Bool) (a : α) {l : List α} (h : l.Pairwise r) :
    (l.orderedInsert r a).filter p =
      if p a then (l.filter p).orderedInsert r a else l.filter p := by
  induction l with
  | nil => by_cases hp : p a <;> simp [hp]
  | cons b l ih =>
      rcases List.pairwise_cons.mp h with ⟨hb, hl⟩
      by_cases hab : r a b
      · -- what is left of the list stands behind the new element
        have hall : ∀ c ∈ (b :: l).filter p, r a c := by
          intro c hc
          rcases List.mem_cons.mp (List.mem_of_mem_filter hc) with rfl | hc
          · exact hab
          · exact IsTrans.trans a b c hab (hb c hc)
        rw [List.orderedInsert_cons_of_le r l hab, List.filter_cons, orderedInsert_of_forall hall]
      · rw [List.orderedInsert_cons, if_neg hab, List.filter_cons, ih hl]
        by_cases hpb : p b
        · rw [if_pos hpb, List.filter_cons_of_pos hpb, List.orderedInsert_cons, if_neg hab]
          split_ifs <;> rfl
        · rw [if_neg hpb, List.filter_cons_of_neg hpb]

/-- Elements may be left out before or after sorting. -/
theorem filter_insertionSort [Std.Total r] [IsTrans α r] (p : α → Bool) (l : List α) :
    (l.insertionSort r).filter p = (l.filter p).insertionSort r := by
  induction l with
  | nil => rfl
  | cons a l ih =>
      rw [List.insertionSort_cons, filter_orderedInsert p a (List.pairwise_insertionSort r l), ih]
      split_ifs with hp
      · rw [List.filter_cons_of_pos hp, List.insertionSort_cons]
      · rw [List.filter_cons_of_neg hp]

end Sorting

end Page
end Library
end MemosNote
