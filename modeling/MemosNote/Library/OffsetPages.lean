import Mathlib.Data.List.Nodup
import Mathlib.Data.List.Sort
import MemosNote.Library.Page

/-!
# Pages of a list that is sorted for each of them

Every page is cut out of a list by an offset and a size, and the rows are sorted anew for each page.
Rows of one key may come in another order each time.  The pages show all rows if and only if the rows
of no key lie on both sides of a boundary.

Main results:

- Theorem {lit}`pages_perm`: the pages show every row once if no key is cut.
- Theorem {lit}`exists_pages_repeat`: a row may be shown twice if a key is cut.
- Theorem {lit}`nodup_pages`: where every row is shown, none is shown twice.
-/

namespace MemosNote
namespace Library
namespace Page

variable {α κ : Type} [LinearOrder κ] {key : α → κ} {rows list : List α} {size n : ℕ} {t : κ}

/-- A list of the rows, those with the greatest keys first. -/
structure Sorting (key : α → κ) (rows list : List α) : Prop where
  perm : list.Perm rows
  sorted : list.Pairwise fun a b => key b ≤ key a

/-- The rows of a key lie on both sides of a boundary between pages. -/
def Cut (key : α → κ) (size : ℕ) (rows : List α) : Prop :=
  ∃ t j, rows.countP (fun a => t < key a) < j * size ∧ j * size < rows.countP (fun a => t ≤ key a)

/-- A cut of mapped rows is one of the rows. -/
theorem cut_map {β : Type} {f : β → α} {list : List β} :
    Cut key size (list.map f) ↔ Cut (fun b => key (f b)) size list := by
  simp only [Cut, List.countP_map]
  rfl

/-- The rows up to a key are those before it and those of it. -/
theorem countP_le_eq (key : α → κ) (rows : List α) (t : κ) :
    rows.countP (fun a => t ≤ key a) = rows.countP (fun a => t < key a) + (rows.map key).count t := by
  induction rows with
  | nil => rfl
  | cons a rows ih =>
      rw [List.countP_cons, List.countP_cons, List.map_cons, List.count_cons, ih]
      rcases lt_trichotomy t (key a) with h | h | h
      · simp [h.le, h, h.ne']
        omega
      · simp [h]
        omega
      · simp [h.not_ge, h.not_gt, h.ne]

/-- Where the keys differ, none is cut. -/
theorem not_cut_of_nodup (h : (rows.map key).Nodup) : ¬Cut key size rows := by
  rintro ⟨t, j, hlt, hle⟩
  have hone := List.nodup_iff_count_le_one.mp h t
  rw [countP_le_eq] at hle
  omega

/-- The first pages, each cut out of its own list. -/
def pages (size : ℕ) (lists : ℕ → List α) (n : ℕ) : List (List α) :=
  (List.range n).map fun i => page (i * size) size (lists i)

theorem flatten_pages_succ (size : ℕ) (lists : ℕ → List α) (n : ℕ) :
    (pages size lists (n + 1)).flatten =
      (pages size lists n).flatten ++ page (n * size) size (lists n) := by
  simp [pages, List.range_succ]

/-- The pages of one list show its front. -/
theorem flatten_pages_const (size : ℕ) (l : List α) (n : ℕ) :
    (pages size (fun _ => l) n).flatten = l.take (n * size) := by
  induction n with
  | zero => simp [pages]
  | succ n ih =>
      rw [flatten_pages_succ, ih, Nat.succ_mul, List.take_add]
      rfl

/-- How long a page is. -/
theorem length_page (offset limit : ℕ) (l : List α) :
    (page offset limit l).length = min limit (l.length - offset) := by
  rw [page, List.length_take, List.length_drop]

/-- One row more than a page holds tells whether there are rows behind the page. -/
theorem length_page_succ_iff {offset limit : ℕ} {l : List α} :
    (page offset (limit + 1) l).length = limit + 1 ↔ offset + limit < l.length := by
  rw [length_page]
  omega

/-- One row more than the page, without that row, is the page. -/
theorem take_page_succ (offset limit : ℕ) (l : List α) :
    (page offset (limit + 1) l).take limit = page offset limit l := by
  rw [page, page, List.take_take, Nat.min_eq_left (Nat.le_succ limit)]

/-- On the last page there is no row more. -/
theorem page_succ_of_le {offset limit : ℕ} {l : List α} (h : l.length ≤ offset + limit) :
    page offset (limit + 1) l = page offset limit l := by
  have hlength : (l.drop offset).length ≤ limit := by
    rw [List.length_drop]
    omega
  rw [page, page, List.take_of_length_le hlength,
    List.take_of_length_le (Nat.le_succ_of_le hlength)]

/-- What is on a page. -/
theorem mem_page {l : List α} {i offset limit : ℕ} {a : α} (h : l[i]? = some a)
    (hle : offset ≤ i) (hlt : i < offset + limit) : a ∈ page offset limit l := by
  refine List.mem_of_getElem? (i := i - offset) ?_
  rw [page, List.getElem?_take_of_lt (by omega), List.getElem?_drop, Nat.add_sub_cancel' hle]
  exact h

/-! ## Sorted lists -/

/-- Where whatever precedes a kept element is kept, the kept elements come first. -/
theorem exists_split {p : α → Bool} {l : List α} (h : l.Pairwise fun a b => p b → p a) :
    ∃ front back, l = front ++ back ∧ (∀ a ∈ front, p a = true) ∧ ∀ a ∈ back, p a = false := by
  induction l with
  | nil => exact ⟨[], [], rfl, fun a h => absurd h List.not_mem_nil,
      fun a h => absurd h List.not_mem_nil⟩
  | cons a l ih =>
      rcases List.pairwise_cons.mp h with ⟨ha, hl⟩
      cases hp : p a with
      | true =>
          rcases ih hl with ⟨front, back, rfl, hfront, hback⟩
          exact ⟨a :: front, back, rfl, List.forall_mem_cons.mpr ⟨hp, hfront⟩, hback⟩
      | false =>
          refine ⟨[], a :: l, rfl, fun a h => absurd h List.not_mem_nil,
            List.forall_mem_cons.mpr ⟨hp, fun b hb => ?_⟩⟩
          cases hkept : p b with
          | false => rfl
          | true => exact (hp.symm.trans (ha b hb hkept)).symm

/-- The kept rows come first in every sorting, and they are as many as there are. -/
theorem exists_split_rows {p : α → Bool} (hperm : list.Perm rows)
    (h : list.Pairwise fun a b => p b → p a) :
    ∃ front back, list = front ++ back ∧ front.length = rows.countP p ∧
      front.Perm (rows.filter p) ∧ (∀ a ∈ front, p a = true) ∧ ∀ a ∈ back, p a = false := by
  rcases exists_split h with ⟨front, back, rfl, hfront, hback⟩
  have hfilter : (front ++ back).filter p = front := by
    rw [List.filter_append, List.filter_eq_self.mpr hfront, List.filter_eq_nil_iff.mpr,
      List.append_nil]
    intro a ha
    rw [hback a ha]
    exact nofun
  have hkept : front.Perm (rows.filter p) := by
    have hrows := hperm.filter p
    rw [hfilter] at hrows
    exact hrows
  refine ⟨front, back, rfl, ?_, hkept, hfront, hback⟩
  rw [hkept.length_eq, List.countP_eq_length_filter]

/-- A sorted list starts with the rows of greater keys. -/
theorem Sorting.split_lt (h : Sorting key rows list) (t : κ) :
    ∃ front back, list = front ++ back ∧ front.length = rows.countP (fun a => t < key a) ∧
      front.Perm (rows.filter fun a => t < key a) ∧ (∀ a ∈ front, decide (t < key a) = true) ∧
      ∀ a ∈ back, decide (t < key a) = false :=
  exists_split_rows h.perm (h.sorted.imp fun hle hlt =>
    decide_eq_true (lt_of_lt_of_le (of_decide_eq_true hlt) hle))

/-- A sorted list starts with the rows of keys that are not smaller. -/
theorem Sorting.split_le (h : Sorting key rows list) (t : κ) :
    ∃ front back, list = front ++ back ∧ front.length = rows.countP (fun a => t ≤ key a) ∧
      front.Perm (rows.filter fun a => t ≤ key a) ∧ (∀ a ∈ front, decide (t ≤ key a) = true) ∧
      ∀ a ∈ back, decide (t ≤ key a) = false :=
  exists_split_rows h.perm (h.sorted.imp fun hle hle' =>
    decide_eq_true (le_trans (of_decide_eq_true hle') hle))

/-- In a sorting, the place of a row tells how its key compares. -/
theorem Sorting.lt_key_iff {i : ℕ} {a : α} (h : Sorting key rows list) (ha : list[i]? = some a) :
    t < key a ↔ i < rows.countP fun a => t < key a := by
  rcases h.split_lt t with ⟨front, back, rfl, hlength, -, hfront, hback⟩
  rw [← hlength]
  by_cases hi : i < front.length
  · rw [List.getElem?_append_left hi] at ha
    exact ⟨fun _ => hi, fun _ => of_decide_eq_true (hfront a (List.mem_of_getElem? ha))⟩
  · rw [List.getElem?_append_right (Nat.not_lt.mp hi)] at ha
    have hnot := of_decide_eq_false (hback a (List.mem_of_getElem? ha))
    exact ⟨fun hlt => absurd hlt hnot, fun hlt => absurd hlt hi⟩

/-- In a sorted list the keys tell the places. -/
theorem Sorting.le_key_iff {i : ℕ} {a : α} (h : Sorting key rows list) (ha : list[i]? = some a) :
    t ≤ key a ↔ i < rows.countP fun a => t ≤ key a := by
  rcases h.split_le t with ⟨front, back, rfl, hlength, -, hfront, hback⟩
  rw [← hlength]
  by_cases hi : i < front.length
  · rw [List.getElem?_append_left hi] at ha
    exact ⟨fun _ => hi, fun _ => of_decide_eq_true (hfront a (List.mem_of_getElem? ha))⟩
  · rw [List.getElem?_append_right (Nat.not_lt.mp hi)] at ha
    have hnot := of_decide_eq_false (hback a (List.mem_of_getElem? ha))
    exact ⟨fun hlt => absurd hlt hnot, fun hlt => absurd hlt hi⟩

/-- The order that leaves the rows of one key as they are. -/
theorem sorting_insertionSort (key : α → κ) (rows : List α) :
    Sorting key rows (rows.insertionSort fun a b => key b ≤ key a) := by
  have htotal : Std.Total fun a b : α => key b ≤ key a := ⟨fun a b => le_total (key b) (key a)⟩
  have htrans : IsTrans α fun a b => key b ≤ key a := ⟨fun _ _ _ hab hbc => hbc.trans hab⟩
  exact ⟨List.perm_insertionSort _ _, List.pairwise_insertionSort _ rows⟩

/-! ## Every row once -/

/-- In front of a boundary that cuts no key there are the same rows in every sorting. -/
theorem exists_front (hcut : ¬Cut key size rows) (j : ℕ) :
    ∃ p : α → Bool, ∀ list, Sorting key rows list →
      (list.take (j * size)).Perm (rows.filter p) := by
  have hsorted := sorting_insertionSort key rows
  by_cases hbehind : rows.length ≤ j * size
  · refine ⟨fun _ => true, fun list hlist => ?_⟩
    rw [List.filter_true, List.take_of_length_le (hlist.perm.length_eq ▸ hbehind)]
    exact hlist.perm
  -- The key of the first row behind the boundary.
  have hlt : j * size < (rows.insertionSort fun a b => key b ≤ key a).length := by
    rw [hsorted.perm.length_eq]
    exact Nat.lt_of_not_le hbehind
  have hget := List.getElem?_eq_getElem hlt
  generalize (rows.insertionSort fun a b => key b ≤ key a)[j * size] = first at hget
  have hnot : rows.countP (fun a => key first < key a) ≤ j * size :=
    Nat.not_lt.mp fun h => lt_irrefl _ ((hsorted.lt_key_iff hget).mpr h)
  have hat := (hsorted.le_key_iff hget).mp (le_refl (key first))
  have hcount : rows.countP (fun a => key first < key a) = j * size := by
    by_contra hne
    exact hcut ⟨key first, j, lt_of_le_of_ne hnot hne, hat⟩
  refine ⟨fun a => key first < key a, fun list hlist => ?_⟩
  rcases hlist.split_lt (key first) with ⟨front, back, rfl, hlength, hperm, -, -⟩
  rw [← hcount, ← hlength, List.take_left]
  exact hperm

/-- Without a cut the pages of several sortings are those of one. -/
theorem flatten_pages_perm {lists : ℕ → List α} (hcut : ¬Cut key size rows)
    (hlists : ∀ i, Sorting key rows (lists i)) (n : ℕ) (hlist : Sorting key rows list) :
    (pages size lists n).flatten.Perm (list.take (n * size)) := by
  induction n generalizing list with
  | zero =>
      rw [Nat.zero_mul, List.take_zero]
      exact List.Perm.refl []
  | succ n ih =>
      rcases exists_front hcut (n + 1) with ⟨p, hfront⟩
      rw [flatten_pages_succ]
      have hnext : (lists n).take (n * size) ++ page (n * size) size (lists n) =
          (lists n).take ((n + 1) * size) := by
        rw [Nat.succ_mul, List.take_add]
        rfl
      have hpages := (ih (hlists n)).append_right (page (n * size) size (lists n))
      rw [hnext] at hpages
      exact hpages.trans ((hfront _ (hlists n)).trans (hfront _ hlist).symm)

/-- All pages show every row once, if the rows of no key are cut. -/
theorem pages_perm {lists : ℕ → List α} (hcut : ¬Cut key size rows)
    (hlists : ∀ i, Sorting key rows (lists i)) (hn : rows.length ≤ n * size) :
    (pages size lists n).flatten.Perm rows := by
  have hsorted := sorting_insertionSort key rows
  have hperm := flatten_pages_perm hcut hlists n hsorted
  rw [List.take_of_length_le (hsorted.perm.length_eq ▸ hn)] at hperm
  exact hperm.trans hsorted.perm

/-! ## A row that is shown twice -/

/-- A sorting in which two neighbours of one key have changed places. -/
theorem Sorting.swap {front back : List α} {a b : α}
    (h : Sorting key rows (front ++ a :: b :: back)) (hab : key a = key b) :
    Sorting key rows (front ++ b :: a :: back) := by
  have hperm := (List.Perm.swap a b back).append_left front
  refine ⟨hperm.trans h.perm, ?_⟩
  have hsorted := h.sorted
  rcases List.pairwise_append.mp hsorted with ⟨hfront, hrest, hacross⟩
  rcases List.pairwise_cons.mp hrest with ⟨ha, hrest⟩
  rcases List.pairwise_cons.mp hrest with ⟨hb, hback⟩
  refine List.pairwise_append.mpr ⟨hfront, ?_, fun c hc d hd => hacross c hc d ?_⟩
  · refine List.pairwise_cons.mpr ⟨?_, List.pairwise_cons.mpr ⟨?_, hback⟩⟩
    · exact List.forall_mem_cons.mpr ⟨hab.le, hb⟩
    · exact fun c hc => ha c (List.mem_cons_of_mem b hc)
  · exact (List.Perm.swap a b back).mem_iff.mp hd

theorem exists_neighbours {i : ℕ} {l : List α} (h : i + 1 < l.length) :
    ∃ front a b back, l = front ++ a :: b :: back ∧ front.length = i := by
  refine ⟨l.take i, l[i], l[i + 1], l.drop (i + 2), ?_, ?_⟩
  · rw [← List.drop_eq_getElem_cons h, ← List.drop_eq_getElem_cons (by omega),
      List.take_append_drop]
  · rw [List.length_take, Nat.min_eq_left (by omega)]

/-- Where the rows of a key are cut, some sortings show a row on two pages. -/
theorem exists_pages_repeat (hcut : Cut key size rows) :
    ∃ lists : ℕ → List α, (∀ i, Sorting key rows (lists i)) ∧
      ∀ n, rows.length ≤ n * size → ¬(pages size lists n).flatten.Nodup := by
  rcases hcut with ⟨t, j, hlt, hle⟩
  have hsorted := sorting_insertionSort key rows
  generalize (rows.insertionSort fun a b => key b ≤ key a) = list at hsorted
  have hinside : j * size < rows.length := hle.trans_le List.countP_le_length
  have hlength := hsorted.perm.length_eq
  cases j with
  | zero => omega
  | succ j =>
      have hsize : 0 < size := by
        by_contra hzero
        rw [Nat.eq_zero_of_not_pos hzero, Nat.mul_zero] at hlt
        exact absurd hlt (Nat.not_lt_zero _)
      have hboundary : (j + 1) * size = j * size + size := Nat.succ_mul j size
      rcases exists_neighbours (l := list) (i := (j + 1) * size - 1) (by omega) with
        ⟨front, a, b, back, rfl, hfront⟩
      have ha : (front ++ a :: b :: back)[(j + 1) * size - 1]? = some a := by
        rw [← hfront, List.getElem?_append_right (Nat.le_refl _), Nat.sub_self]
        rfl
      have hb : (front ++ a :: b :: back)[(j + 1) * size]? = some b := by
        rw [List.getElem?_append_right (by omega), hfront,
          show (j + 1) * size - ((j + 1) * size - 1) = 1 by omega]
        rfl
      have hswapped : (front ++ b :: a :: back)[(j + 1) * size]? = some a := by
        rw [List.getElem?_append_right (by omega), hfront,
          show (j + 1) * size - ((j + 1) * size - 1) = 1 by omega]
        rfl
      -- Both neighbours have the key that is cut.
      have hkey {c : α} {i : ℕ} (hc : (front ++ a :: b :: back)[i]? = some c)
          (hbehind : rows.countP (fun a => t < key a) ≤ i)
          (hbefore : i < rows.countP fun a => t ≤ key a) : key c = t := by
        refine le_antisymm ?_ ((hsorted.le_key_iff hc).mpr hbefore)
        exact not_lt.mp fun h => absurd ((hsorted.lt_key_iff hc).mp h) (Nat.not_lt.mpr hbehind)
      have hsame : key a = key b :=
        (hkey ha (by omega) (by omega)).trans (hkey hb (by omega) hle).symm
      refine ⟨fun i => if i < j + 1 then front ++ a :: b :: back else front ++ b :: a :: back,
        fun i => ?_, fun n hn hnodup => ?_⟩
      · dsimp only
        split_ifs
        · exact hsorted
        · exact hsorted.swap hsame
      · have hj : j + 1 < n := by
          by_contra hnot
          have hmul := Nat.mul_le_mul_right size (Nat.not_lt.mp hnot)
          omega
        have hdisjoint := (List.nodup_flatten.mp hnodup).2
        rw [pages, List.pairwise_map] at hdisjoint
        have hpair := List.pairwise_iff_getElem.mp hdisjoint j (j + 1)
          (by rw [List.length_range]; omega) (by rw [List.length_range]; exact hj) (Nat.lt_succ_self j)
        rw [List.getElem_range, List.getElem_range, if_pos (Nat.lt_succ_self j),
          if_neg (Nat.lt_irrefl _)] at hpair
        exact hpair (mem_page ha (by omega) (by omega)) (mem_page hswapped (by omega) (by omega))

/-! ## Missing rows -/

/-- How many rows the pages hold. -/
theorem length_flatten_pages {lists : ℕ → List α} {m : ℕ} (h : ∀ i, (lists i).length = m) :
    (pages size lists n).flatten.length = min (n * size) m := by
  induction n with
  | zero => simp [pages]
  | succ n ih =>
      rw [flatten_pages_succ, List.length_append, ih, length_page, h, Nat.succ_mul]
      omega

/-- Pages that show every row show none of them twice. -/
theorem nodup_pages {lists : ℕ → List α} (hnodup : rows.Nodup)
    (hlists : ∀ i, Sorting key rows (lists i)) (hall : ∀ a ∈ rows, a ∈ (pages size lists n).flatten) :
    (pages size lists n).flatten.Nodup := by
  have hlength : (pages size lists n).flatten.length ≤ rows.length := by
    rw [length_flatten_pages fun i => (hlists i).perm.length_eq]
    exact Nat.min_le_right _ _
  have hperm := (List.subperm_of_subset hnodup hall).perm_of_length_le hlength
  exact hperm.nodup_iff.mp hnodup

end Page
end Library
end MemosNote
