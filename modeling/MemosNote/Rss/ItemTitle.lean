import MemosNote.Filter.Engine
import MemosNote.Library.Pieces
import MemosNote.Library.Utf8Boundaries

/-!
# Titles of feed items

The title of an item is the first line of a memo without heading marks.  A title of more than 100
bytes is cut at its last space below the limit, or else at the limit, which may lie within a
character.

Main results:

- Theorem {lit}`headline_spec`: what the first line is without heading marks.
- Theorem {lit}`generateItemTitle_wellFormed`: when a title is well formed.
- Theorem {lit}`title_within_character`: a title that is cut within a character.
-/

namespace MemosNote
namespace Rss

open Library
open Library.Utf8
open MemosNote.Filter (isSpace)

/-! ## The title of an item -/

def maxTitleLength : ℕ :=
  100

/-- White space in regular expressions. -/
def isRegexSpace (c : Char) : Bool :=
  c = '\t' || c = '\n' || c = Char.ofNat 0x0c || c = '\r' || c = ' '

/-- At most so many number signs are dropped. -/
def dropHashes : ℕ → List Char → List Char
  | n + 1, '#' :: rest => dropHashes n rest
  | _, line => line

/-- A line without the marks of a heading, which are one to six number signs and white space. -/
def removeHeading : List Char → List Char
  | '#' :: rest => (dropHashes 5 rest).dropWhile isRegexSpace
  | line => line

def firstLine (content : List Char) : List Char :=
  content.takeWhile fun c => c != '\n'

def headline (content : List Char) : List Char :=
  trim isSpace (removeHeading (trim isSpace (firstLine content)))

/-- The last space up to an index; the first byte is none. -/
def lastSpace (title : List UInt8) : ℕ → Option ℕ
  | 0 => none
  | i + 1 => if title[i + 1]? = some 0x20 then some (i + 1) else lastSpace title i

def dots : List UInt8 :=
  encode ['.', '.', '.']

def limitTitle (title : List UInt8) : List UInt8 :=
  if maxTitleLength < title.length then
    let cutoff := (lastSpace title (min (maxTitleLength - 1) (title.length - 1))).getD
      maxTitleLength
    if cutoff < maxTitleLength then title.take cutoff ++ dots
    else title.take maxTitleLength ++ dots
  else title

def generateItemTitle (content : List Char) : List UInt8 :=
  let title := limitTitle (encode (headline content))
  if title = [] then encode "Memo".toList else title

/-! ## The headline -/

private theorem dropHashes_eq (n : ℕ) (line : List Char) :
    ∃ m ≤ n, line = List.replicate m '#' ++ dropHashes n line := by
  induction n generalizing line with
  | zero => exact ⟨0, le_rfl, by cases line <;> rfl⟩
  | succ n ih =>
      by_cases hhash : ∃ rest, line = '#' :: rest
      · rcases hhash with ⟨rest, rfl⟩
        rcases ih rest with ⟨m, hm, hrest⟩
        refine ⟨m + 1, Nat.succ_le_succ hm, ?_⟩
        rw [List.replicate_succ, List.cons_append, dropHashes, ← hrest]
      · refine ⟨0, Nat.zero_le _, ?_⟩
        rw [dropHashes.eq_def]
        split
        · rename_i rest _
          exact absurd ⟨rest, rfl⟩ hhash
        · rfl

private theorem removeHeading_eq (line : List Char) : ∃ m ≤ 6, ∃ gap,
    line = List.replicate m '#' ++ gap ++ removeHeading line ∧ ∀ c ∈ gap, isRegexSpace c = true := by
  by_cases hhash : ∃ rest, line = '#' :: rest
  · rcases hhash with ⟨rest, rfl⟩
    rcases dropHashes_eq 5 rest with ⟨m, hm, hrest⟩
    refine ⟨m + 1, Nat.succ_le_succ hm, (dropHashes 5 rest).takeWhile isRegexSpace, ?_,
      fun c hc => List.mem_takeWhile_imp hc⟩
    rw [removeHeading, List.append_assoc, List.takeWhile_append_dropWhile, List.replicate_succ,
      List.cons_append, ← hrest]
  · refine ⟨0, Nat.zero_le _, [], ?_, fun c hc => absurd hc List.not_mem_nil⟩
    rw [removeHeading.eq_def]
    split
    · rename_i rest
      exact absurd ⟨rest, rfl⟩ hhash
    · rfl

private theorem isSpace_of_isRegexSpace {c : Char} (h : isRegexSpace c = true) :
    isSpace c = true := by
  simp only [isRegexSpace, Bool.or_eq_true, decide_eq_true_eq] at h
  rcases h with (((rfl | rfl) | rfl) | rfl) | rfl <;> decide

/-- The first line is the headline behind white space and the marks of a heading, and more white
space. -/
theorem headline_spec (content : List Char) : ∃ m ≤ 6, ∃ front gap back,
    firstLine content = front ++ List.replicate m '#' ++ gap ++ headline content ++ back ∧
      ∀ c ∈ front ++ gap ++ back, isSpace c = true := by
  rcases exists_trim isSpace (firstLine content) with ⟨front, back, hline, hfront, hback⟩
  rcases removeHeading_eq (trim isSpace (firstLine content)) with ⟨m, hm, gap, hmarks, hgap⟩
  rcases exists_trim isSpace (removeHeading (trim isSpace (firstLine content))) with
    ⟨front', back', hrest, hfront', hback'⟩
  refine ⟨m, hm, front, gap ++ front', back' ++ back, ?_, fun c hc => ?_⟩
  · have hparts := hline
    rw [hmarks, hrest] at hparts
    rw [hparts, headline]
    simp only [List.append_assoc]
  · simp only [List.mem_append] at hc
    rcases hc with (hc | hc | hc) | hc | hc
    · exact hfront c hc
    · exact isSpace_of_isRegexSpace (hgap c hc)
    · exact hfront' c hc
    · exact hback' c hc
    · exact hback c hc

/-! ## Well-formed titles -/

/-- A title is the default one of an empty headline, or a beginning of the headline, with dots
behind it if it is not all of it. -/
structure WellFormedTitle (headline : List Char) (title : List UInt8) : Prop where
  nonempty : title ≠ []
  valid : Valid title
  short : title.length ≤ 103
  content : headline = [] ∧ title = encode "Memo".toList ∨
    headline ≠ [] ∧ ∃ front, front <+: encode headline ∧
      title = if front = encode headline then front else front ++ dots

/-- A title is not cut, or cut at a space, or between characters. -/
def CutBetweenCharacters (title : List UInt8) : Prop :=
  title.length ≤ 100 ∨ (∃ i, 0 < i ∧ i < 100 ∧ title[i]? = some 0x20) ∨ Starts (title.drop 100)

theorem lastSpace_of_some {title : List UInt8} {n i : ℕ} (h : lastSpace title n = some i) :
    0 < i ∧ i ≤ n ∧ title[i]? = some 0x20 := by
  induction n with
  | zero => cases h
  | succ n ih =>
      rw [lastSpace] at h
      split at h
      · rename_i hspace
        rcases Option.some.inj h with rfl
        exact ⟨Nat.succ_pos n, le_rfl, hspace⟩
      · rcases ih h with ⟨hpos, hle, hspace⟩
        exact ⟨hpos, Nat.le_succ_of_le hle, hspace⟩

theorem lastSpace_of_none {title : List UInt8} {n : ℕ} (h : lastSpace title n = none) {i : ℕ}
    (hpos : 0 < i) (hle : i ≤ n) : title[i]? ≠ some 0x20 := by
  induction n with
  | zero => omega
  | succ n ih =>
      rw [lastSpace] at h
      split at h
      · cases h
      · rename_i hspace
        rcases Nat.le_succ_iff.mp hle with hle | rfl
        · exact ih h hle
        · exact hspace

private theorem starts_dots : Starts dots :=
  starts_encode _

private theorem valid_append_dots {front : List UInt8} : Valid (front ++ dots) ↔ Valid front := by
  constructor
  · intro h
    rcases h with ⟨text, htext⟩
    rcases encode_cut htext.symm starts_dots with ⟨s, -, -, hs, -⟩
    exact ⟨s, hs⟩
  · intro h
    exact h.append ⟨_, rfl⟩

private theorem starts_drop_of_space {title : List UInt8} {i : ℕ} (h : title[i]? = some 0x20) :
    Starts (title.drop i) := by
  intro byte hbyte
  rw [List.head?_drop, h] at hbyte
  rcases Option.some.inj hbyte with rfl
  decide

/-- A beginning that is shorter than the headline, with dots behind it. -/
theorem wellFormedTitle_take {headline : List Char} {n : ℕ} (hn : n ≤ 100)
    (hshorter : n < (encode headline).length) :
    WellFormedTitle headline ((encode headline).take n ++ dots) ↔
      Starts ((encode headline).drop n) := by
  rw [← valid_take_iff ⟨headline, rfl⟩, ← valid_append_dots]
  constructor
  · exact WellFormedTitle.valid
  · intro hvalid
    have hlength : ((encode headline).take n).length = n := List.length_take_of_le hshorter.le
    constructor
    · simp [dots, encode]
    · exact hvalid
    · have hdots : dots.length = 3 := rfl
      rw [List.length_append, hlength, hdots]
      omega
    · refine Or.inr ⟨?_, (encode headline).take n, List.take_prefix n _, ?_⟩
      · rintro rfl
        exact absurd hshorter (Nat.not_lt_zero n)
      · rw [if_neg]
        intro hsame
        rw [hsame] at hlength
        omega

/-- A title that is within the limit is not cut. -/
theorem wellFormedTitle_of_short {content : List Char}
    (hshort : (encode (headline content)).length ≤ 100) :
    WellFormedTitle (headline content) (generateItemTitle content) := by
  have hlimit : limitTitle (encode (headline content)) = encode (headline content) :=
    if_neg (not_lt.mpr hshort)
  rw [generateItemTitle, hlimit]
  by_cases hempty : headline content = []
  · rw [hempty]
    exact ⟨by decide, ⟨_, rfl⟩, by decide, Or.inl ⟨rfl, rfl⟩⟩
  · have htitle : encode (headline content) ≠ [] := fun h => hempty (encode_injective h)
    rw [if_neg htitle]
    exact ⟨htitle, ⟨_, rfl⟩, hshort.trans (by omega),
      Or.inr ⟨hempty, _, List.prefix_refl _, (if_pos rfl).symm⟩⟩

/-- A title that is over the limit is cut at its last space, or at the limit. -/
theorem generateItemTitle_of_long {content : List Char}
    (hlong : 100 < (encode (headline content)).length) :
    generateItemTitle content = (encode (headline content)).take
      ((lastSpace (encode (headline content)) 99).getD 100) ++ dots := by
  have hlong' : maxTitleLength < (encode (headline content)).length := hlong
  have hfrom : min (maxTitleLength - 1) ((encode (headline content)).length - 1) = 99 :=
    min_eq_left (by omega)
  have hlimit : limitTitle (encode (headline content)) = (encode (headline content)).take
      ((lastSpace (encode (headline content)) 99).getD 100) ++ dots := by
    rw [limitTitle, if_pos hlong', hfrom]
    cases hspace : lastSpace (encode (headline content)) 99 with
    | none => rfl
    | some i =>
        rcases lastSpace_of_some hspace with ⟨-, hle, -⟩
        exact if_pos (Nat.lt_succ_of_le hle)
  rw [generateItemTitle, hlimit]
  exact if_neg (by simp [dots, encode])

/-- The title of an item is well formed if and only if it is not cut within a character. -/
theorem wellFormedTitle_iff (content : List Char) :
    WellFormedTitle (headline content) (generateItemTitle content) ↔
      CutBetweenCharacters (encode (headline content)) := by
  by_cases hshort : (encode (headline content)).length ≤ 100
  · exact iff_of_true (wellFormedTitle_of_short hshort) (Or.inl hshort)
  have hlong := not_le.mp hshort
  rw [generateItemTitle_of_long hlong]
  cases hspace : lastSpace (encode (headline content)) 99 with
  | some i =>
      rcases lastSpace_of_some hspace with ⟨hpos, hle, hbyte⟩
      rw [Option.getD_some, wellFormedTitle_take (by omega) (by omega)]
      exact iff_of_true (starts_drop_of_space hbyte) (Or.inr (Or.inl ⟨i, hpos, by omega, hbyte⟩))
  | none =>
      rw [Option.getD_none, wellFormedTitle_take le_rfl hlong]
      constructor
      · exact fun hstarts => Or.inr (Or.inr hstarts)
      · intro hcut
        rcases hcut with hle | ⟨i, hpos, hlt, hbyte⟩ | hstarts
        · exact absurd hle hshort
        · exact absurd hbyte (lastSpace_of_none hspace hpos (by omega))
        · exact hstarts

/-- For every memo, the title of its item is well formed if and only if it is not cut within a
character. -/
theorem generateItemTitle_wellFormed (content : List Char) :
    WellFormedTitle (headline content) (generateItemTitle content) ↔
      (encode (headline content)).length ≤ 100 ∨
        (∃ i, 0 < i ∧ i < 100 ∧ (encode (headline content))[i]? = some 0x20) ∨
        ∀ byte, (encode (headline content))[100]? = some byte → ¬Continues byte := by
  rw [wellFormedTitle_iff, CutBetweenCharacters, Starts, List.head?_drop]

/-- A title without spaces that is cut within a character. -/
theorem title_within_character :
    ¬∀ content, WellFormedTitle (headline content) (generateItemTitle content) := by
  intro h
  have hheadline : headline (List.replicate 34 '中') = List.replicate 34 '中' := by decide +kernel
  have hcut := (wellFormedTitle_iff (List.replicate 34 '中')).mp (h _)
  rw [hheadline] at hcut
  rcases hcut with hshort | ⟨i, hpos, hlt, hbyte⟩ | hstarts
  · exact absurd hshort (by decide +kernel)
  · have hnone : lastSpace (encode (List.replicate 34 '中')) 99 = none := by decide +kernel
    exact lastSpace_of_none hnone hpos (Nat.le_of_lt_succ hlt) hbyte
  · exact hstarts 0xb8 (by decide +kernel) (by decide)

end Rss
end MemosNote
