import Mathlib.Data.List.DropRight
import Mathlib.Data.List.Infix

/-!
# The pieces of a text

A text is cut into pieces at every occurrence of a symbol.  A word without the symbol lies within
one piece; with the symbol in front of it, behind it or on both sides it starts a piece, ends one
or is one.

Main results:

- Theorem {lit}`infix_iff`, Theorem {lit}`cons_infix_iff`, Theorem {lit}`concat_infix_iff` and
  Theorem {lit}`enclosed_infix_iff`: where a word occurs in terms of the pieces.
- Theorem {lit}`notMem_of_length_splitOn_intercalate`: when joined words come apart as they were.
- Theorem {lit}`exists_trim`: what is cut off both ends of a text.
-/

namespace MemosNote
namespace Library
namespace Pieces

variable {α : Type}

/-- An element stands first in a list or behind the first one. -/
theorem forall_split_cons {P : List α → List α → Prop} {a b : α} {l : List α} :
    (∀ before after, a :: l = before ++ b :: after → P before after) ↔
      (a = b → P [] l) ∧ ∀ before after, l = before ++ b :: after → P (a :: before) after := by
  constructor
  · intro h
    exact ⟨fun hab => h [] l (hab ▸ rfl), fun before after hl => h (a :: before) after (hl ▸ rfl)⟩
  · rintro ⟨hfirst, hbehind⟩ before after h
    cases before with
    | nil =>
        rcases List.cons.inj h with ⟨hab, rfl⟩
        exact hfirst hab
    | cons c before =>
        rcases List.cons.inj h with ⟨rfl, hl⟩
        exact hbehind before after hl

/-- Joining with a symbol puts it in front of and behind every piece in the middle. -/
private theorem intercalate_around (q : α) (before after : List (List α)) (s : List α) :
    [q].intercalate (before ++ s :: after) =
      before.flatMap (· ++ [q]) ++ s ++ after.flatMap (q :: ·) := by
  induction before with
  | nil =>
      induction after generalizing s with
      | nil => simp
      | cons t after ih =>
          have htail := ih t
          rw [List.nil_append] at htail
          rw [List.nil_append, List.intercalate_cons_of_ne_nil (by simp), htail]
          simp
  | cons t before ih =>
      rw [List.cons_append, List.intercalate_cons_of_ne_nil (by simp), ih]
      simp

variable [DecidableEq α] {q : α} {word l : List α}

/-- What stands around a piece of a text. -/
private theorem split_around {before after : List (List α)} {s : List α}
    (h : l.splitOn q = before ++ s :: after) :
    l = before.flatMap (· ++ [q]) ++ s ++ after.flatMap (q :: ·) := by
  have hjoin : [q].intercalate (l.splitOn q) = l := List.intercalate_splitOn q
  rw [← hjoin, h, intercalate_around]

/-- A word without the symbol in front of a text belongs to the first piece. -/
private theorem splitOn_append_left (h : q ∉ word) (l : List α) :
    (word ++ l).splitOn q = (l.splitOn q).modifyHead (word ++ ·) := by
  induction word with
  | nil => cases hl : l.splitOn q <;> simp [hl]
  | cons a word ih =>
      have ha : (a == q) = false := by
        simpa using fun haq : a = q => h (haq ▸ List.mem_cons_self)
      have hword := ih fun hmem => h (List.mem_cons_of_mem a hmem)
      rw [List.cons_append, List.splitOn_cons_eq_if_modifyHead, ha, hword]
      cases l.splitOn q <;> simp

/-- More text in front only adds pieces, and lengthens the first. -/
private theorem exists_piece_cons {P : List α → Prop} (a : α)
    (hcons : ∀ s, P s → P (a :: s)) (h : ∃ s ∈ l.splitOn q, P s) :
    ∃ s ∈ (a :: l).splitOn q, P s := by
  rcases h with ⟨s, hs, hP⟩
  rw [List.splitOn_cons_eq_if_modifyHead]
  by_cases ha : (a == q) = true
  · rw [if_pos ha]
    exact ⟨s, List.mem_cons_of_mem _ hs, hP⟩
  · rw [if_neg ha]
    cases hl : l.splitOn q with
    | nil => exact absurd hl (List.splitOn_ne_nil q l)
    | cons first rest =>
        rw [hl] at hs
        rcases List.mem_cons.mp hs with rfl | hs
        · exact ⟨a :: s, by simp, hcons s hP⟩
        · exact ⟨s, by simp [hs], hP⟩

/-- A word within the text lies within a piece. -/
theorem infix_iff (h : q ∉ word) : word <:+: l ↔ ∃ s ∈ l.splitOn q, word <:+: s := by
  constructor
  · rintro ⟨before, after, rfl⟩
    induction before with
    | nil =>
        rw [List.nil_append, splitOn_append_left h]
        cases hafter : after.splitOn q with
        | nil => exact absurd hafter (List.splitOn_ne_nil q after)
        | cons first rest =>
            exact ⟨word ++ first, by simp, (List.prefix_append word first).isInfix⟩
    | cons a before ih =>
        exact exists_piece_cons a (fun s hs => hs.trans (List.suffix_cons a s).isInfix) ih
  · rintro ⟨s, hs, hword⟩
    rcases List.append_of_mem hs with ⟨before, after, hsplit⟩
    rw [split_around hsplit]
    exact hword.trans ⟨_, _, rfl⟩

/-- A word behind the symbol starts a piece that is not the first. -/
theorem cons_infix_iff (h : q ∉ word) :
    q :: word <:+: l ↔ ∃ s ∈ (l.splitOn q).tail, word <+: s := by
  constructor
  · rintro ⟨before, after, rfl⟩
    have htext : before ++ q :: word ++ after = before ++ q :: (word ++ after) := by simp
    rw [htext, List.splitOn_append_cons_self, splitOn_append_left h,
      List.tail_append_of_ne_nil (List.splitOn_ne_nil q before)]
    cases hafter : after.splitOn q with
    | nil => exact absurd hafter (List.splitOn_ne_nil q after)
    | cons first rest => exact ⟨word ++ first, by simp, List.prefix_append word first⟩
  · rintro ⟨s, hs, rest, rfl⟩
    cases hl : l.splitOn q with
    | nil => exact absurd hl (List.splitOn_ne_nil q l)
    | cons first pieces =>
        rw [hl] at hs
        rcases List.append_of_mem hs with ⟨before, after, hpieces⟩
        rw [List.tail_cons] at hpieces
        rw [hpieces, ← List.cons_append] at hl
        rw [split_around hl]
        rcases List.eq_nil_or_concat (first :: before) with hnil | ⟨init, last, hlast⟩
        · cases hnil
        · rw [hlast]
          exact ⟨init.flatMap (· ++ [q]) ++ last, rest ++ after.flatMap (q :: ·), by simp⟩

/-- A word in front of the symbol ends a piece that is not the last. -/
theorem concat_infix_iff (h : q ∉ word) :
    word ++ [q] <:+: l ↔ ∃ s ∈ (l.splitOn q).dropLast, word <:+ s := by
  constructor
  · rintro ⟨before, after, rfl⟩
    have htext : before ++ (word ++ [q]) ++ after = before ++ word ++ q :: after := by simp
    have hlast : ∃ s ∈ (before ++ word).splitOn q, word <:+ s := by
      induction before with
      | nil => exact ⟨word, by simp [List.splitOn_eq_singleton h], List.suffix_rfl⟩
      | cons a before ih =>
          exact exists_piece_cons a (fun s hs => hs.trans (List.suffix_cons a s)) (ih (by simp))
    rcases hlast with ⟨s, hs, hword⟩
    refine ⟨s, ?_, hword⟩
    rw [htext, List.splitOn_append_cons_self,
      List.dropLast_append_of_ne_nil (List.splitOn_ne_nil q after)]
    exact List.mem_append_left _ hs
  · rintro ⟨s, hs, start, rfl⟩
    rcases List.eq_nil_or_concat (l.splitOn q) with hnil | ⟨pieces, last, hl⟩
    · exact absurd hnil (List.splitOn_ne_nil q l)
    · rw [hl, List.concat_eq_append, List.dropLast_concat] at hs
      rcases List.append_of_mem hs with ⟨before, after, rfl⟩
      have hsplit : l.splitOn q = before ++ (start ++ word) :: (after ++ [last]) := by
        simp [hl]
      rw [split_around hsplit]
      cases after with
      | nil => exact ⟨before.flatMap (· ++ [q]) ++ start, last, by simp⟩
      | cons t after =>
          exact ⟨before.flatMap (· ++ [q]) ++ start,
            t ++ (after ++ [last]).flatMap (q :: ·), by simp⟩

/-- A word between two symbols is a piece that is neither the first nor the last. -/
theorem enclosed_infix_iff (h : q ∉ word) :
    q :: (word ++ [q]) <:+: l ↔ word ∈ (l.splitOn q).tail.dropLast := by
  constructor
  · rintro ⟨before, after, rfl⟩
    have htext : before ++ q :: (word ++ [q]) ++ after = before ++ q :: (word ++ q :: after) := by
      simp
    rw [htext, List.splitOn_append_cons_self, List.splitOn_append_cons_self_of_not_mem h,
      List.tail_append_of_ne_nil (List.splitOn_ne_nil q before)]
    have hpieces : (before.splitOn q).tail ++ word :: after.splitOn q =
        ((before.splitOn q).tail ++ [word]) ++ after.splitOn q := by simp
    rw [hpieces, List.dropLast_append_of_ne_nil (List.splitOn_ne_nil q after)]
    simp
  · intro hs
    cases hl : l.splitOn q with
    | nil => exact absurd hl (List.splitOn_ne_nil q l)
    | cons first pieces =>
        rw [hl, List.tail_cons] at hs
        rcases List.eq_nil_or_concat pieces with hnil | ⟨inner, last, hpieces⟩
        · rw [hnil] at hs
          cases hs
        · rw [hpieces, List.concat_eq_append, List.dropLast_concat] at hs
          rcases List.append_of_mem hs with ⟨before, after, rfl⟩
          have hsplit : l.splitOn q = (first :: before) ++ word :: (after ++ [last]) := by
            simp [hl, hpieces]
          rw [split_around hsplit]
          rcases List.eq_nil_or_concat (first :: before) with hnil | ⟨init, previous, hinit⟩
          · cases hnil
          · rw [hinit]
            cases after with
            | nil => exact ⟨init.flatMap (· ++ [q]) ++ previous, last, by simp⟩
            | cons t after =>
                exact ⟨init.flatMap (· ++ [q]) ++ previous,
                  t ++ (after ++ [last]).flatMap (q :: ·), by simp⟩

/-! ## Joined words -/

/-- The pieces of joined words are the pieces of the words. -/
theorem splitOn_intercalate_flatMap {words : List (List α)} (h : words ≠ []) :
    ([q].intercalate words).splitOn q = words.flatMap (·.splitOn q) := by
  induction words with
  | nil => exact absurd rfl h
  | cons w words ih =>
      cases words with
      | nil => simp
      | cons v words =>
          rw [List.intercalate_cons_cons, List.append_assoc, List.singleton_append,
            List.splitOn_append_cons_self, ih (by simp)]
          rfl

/-- A text in one piece does not contain the symbol. -/
theorem notMem_of_length_splitOn (h : (l.splitOn q).length ≤ 1) : q ∉ l := by
  intro hmem
  rcases List.append_of_mem hmem with ⟨before, after, rfl⟩
  rw [List.splitOn_append_cons_self, List.length_append] at h
  have hbefore := List.length_pos_iff.mpr (List.splitOn_ne_nil q before)
  have hafter := List.length_pos_iff.mpr (List.splitOn_ne_nil q after)
  omega

private theorem length_le_flatMap_splitOn (words : List (List α)) :
    words.length ≤ (words.flatMap (·.splitOn q)).length := by
  induction words with
  | nil => exact Nat.le_refl 0
  | cons w words ih =>
      have hw := List.length_pos_iff.mpr (List.splitOn_ne_nil q w)
      rw [List.flatMap_cons, List.length_append, List.length_cons]
      omega

/-- Joined words that come apart into as many pieces do not contain the symbol. -/
theorem notMem_of_length_splitOn_intercalate {words : List (List α)} (hne : words ≠ [])
    (h : (([q].intercalate words).splitOn q).length = words.length) : ∀ w ∈ words, q ∉ w := by
  rw [splitOn_intercalate_flatMap hne] at h
  clear hne
  induction words with
  | nil =>
      intro w hw
      cases hw
  | cons v words ih =>
      have hv := List.length_pos_iff.mpr (List.splitOn_ne_nil q v)
      have hwords := @length_le_flatMap_splitOn α _ q words
      rw [List.flatMap_cons, List.length_append, List.length_cons] at h
      intro w hw
      rcases List.mem_cons.mp hw with rfl | hw
      · exact notMem_of_length_splitOn (by omega)
      · exact ih (by omega) w hw

/-- The first piece is as long as the text only if it is the text. -/
theorem head_splitOn_of_length {s : List α} {pieces : List (List α)} (h : l.splitOn q = s :: pieces)
    (hlength : l.length ≤ s.length) : s = l ∧ q ∉ l := by
  have hjoin : [q].intercalate (l.splitOn q) = l := List.intercalate_splitOn q
  cases pieces with
  | nil =>
      rw [h, List.intercalate_singleton] at hjoin
      have hone : (l.splitOn q).length ≤ 1 := by
        rw [h]
        exact Nat.le_refl 1
      exact ⟨hjoin, notMem_of_length_splitOn hone⟩
  | cons t pieces =>
      rw [h, List.intercalate_cons_cons] at hjoin
      have hlong := congrArg List.length hjoin
      simp only [List.length_append, List.length_singleton] at hlong
      omega

end Pieces
section

variable {α : Type}

def trim (p : α → Bool) (xs : List α) : List α :=
  (xs.dropWhile p).rdropWhile p

/-- What is cut off. -/
theorem exists_trim (p : α → Bool) (xs : List α) : ∃ front back,
    xs = front ++ trim p xs ++ back ∧ (∀ a ∈ front, p a = true) ∧ ∀ a ∈ back, p a = true := by
  refine ⟨xs.takeWhile p, (xs.dropWhile p).rtakeWhile p, ?_, fun a ha => List.mem_takeWhile_imp ha,
    fun a ha => List.mem_rtakeWhile_imp ha⟩
  rw [List.append_assoc, trim, List.rdropWhile_append_rtakeWhile, List.takeWhile_append_dropWhile]

end

end Library
end MemosNote
