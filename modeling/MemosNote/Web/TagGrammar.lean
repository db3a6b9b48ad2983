import Mathlib.Data.List.TakeWhile
import MemosNote.Library.Scan

/-!
# Tags in plain text

A tag is a hash and a run of tag characters, at most a hundred of them.  The renderer walks over
the text with its backslash escapes taken out; the editor's tokenizer reads the text as it stands.

Main results:

- Theorem {lit}`tagsFrom_parseSegments`: the tags the renderer marks, hash by hash.
- Theorem {lit}`spelled_parseSegments` and Theorem {lit}`spelled_lexInline`: both spell the
  unescaped text.
-/

namespace MemosNote
namespace Web

open Library

/-! ## The grammar -/

/-- The Unicode letters, marks, numbers and symbols. -/
structure UnicodeClass where
  has : Char → Bool
  ascii : ∀ c : Char, c.toNat < 128 → has c = (c.isAlphanum || "$+<=>^`|~".toList.contains c)

/-- The letters, numbers and symbols of ASCII. -/
def UnicodeClass.asciiOnly : UnicodeClass where
  has c := c.isAlphanum || "$+<=>^`|~".toList.contains c
  ascii _ _ := rfl

variable (u : UnicodeClass)

def isTagChar (c : Char) : Bool :=
  u.has c || ['_', '-', '/', '&'].contains c

theorem isTagChar_hash : isTagChar u '#' = false := by
  rw [isTagChar, u.ascii '#' (by decide)]
  rfl

private theorem isTagChar_space : isTagChar u ' ' = false := by
  rw [isTagChar, u.ascii ' ' (by decide)]
  rfl

theorem isTagChar_backslash : isTagChar u '\\' = false := by
  rw [isTagChar, u.ascii '\\' (by decide)]
  rfl

def maxTagLength : ℕ := 100

def tagRun (rest : List Char) : List Char :=
  rest.takeWhile (isTagChar u)

/-- What matches as a capped run. -/
def TagRun (rest : List Char) : Prop :=
  1 ≤ (tagRun u rest).length ∧ (tagRun u rest).length ≤ maxTagLength

instance (rest : List Char) : Decidable (TagRun u rest) :=
  inferInstanceAs (Decidable (_ ∧ _))

/-- A run consists of tag characters. -/
theorem isTagChar_of_mem_tagRun {rest : List Char} {c : Char} (h : c ∈ tagRun u rest) :
    isTagChar u c :=
  List.mem_takeWhile_imp h

/-- A run has no hash. -/
theorem hash_notMem_tagRun (rest : List Char) : '#' ∉ tagRun u rest := by
  intro h
  have htag := isTagChar_of_mem_tagRun u h
  rw [isTagChar_hash] at htag
  contradiction

private theorem backslash_notMem_tagRun (rest : List Char) : '\\' ∉ tagRun u rest := by
  intro h
  have htag := isTagChar_of_mem_tagRun u h
  rw [isTagChar_backslash] at htag
  contradiction

private theorem not_tagRun_nil : ¬TagRun u [] := by
  rintro ⟨h, -⟩
  exact Nat.not_succ_le_zero 0 h

/-- A run starts with a tag character. -/
theorem TagRun.head {rest : List Char} (h : TagRun u rest) : rest.head?.any (isTagChar u) := by
  cases rest with
  | nil => exact absurd h (not_tagRun_nil u)
  | cons c rest =>
      by_contra hc
      have hnil : tagRun u (c :: rest) = [] := List.takeWhile_cons_of_neg hc
      rw [TagRun, hnil] at h
      exact Nat.not_succ_le_zero 0 h.1

/-! ## Segments -/

inductive Segment where
  | text (value : List Char)
  | tag (value : List Char)
deriving DecidableEq, Repr

namespace Segment

def spelled : Segment → List Char
  | text value => value
  | tag value => '#' :: value

/-- The tags and where they start. -/
def tagsFrom (position : ℕ) : List Segment → List (ℕ × List Char)
  | [] => []
  | text value :: segments => tagsFrom (position + value.length) segments
  | tag value :: segments =>
      (position, value) :: tagsFrom (position + (value.length + 1)) segments

end Segment

/-! ## The renderer -/

def isAsciiPunctuation (c : Char) : Bool :=
  (0x21 ≤ c.toNat && c.toNat ≤ 0x2f) || (0x3a ≤ c.toNat && c.toNat ≤ 0x40) ||
    (0x5b ≤ c.toNat && c.toNat ≤ 0x60) || (0x7b ≤ c.toNat && c.toNat ≤ 0x7e)

/-- The text with its escapes taken out, and which characters were escaped. -/
def unescapeBackslashes : List Char → List (Char × Bool)
  | [] => []
  | [c] => [(c, false)]
  | c :: d :: rest =>
      if c = '\\' ∧ isAsciiPunctuation d then (d, true) :: unescapeBackslashes rest
      else (c, false) :: unescapeBackslashes (d :: rest)

/-- What a text spells. -/
def unescaped (source : List Char) : List Char :=
  (unescapeBackslashes source).map Prod.fst

@[simp]
theorem unescapeBackslashes_nil : unescapeBackslashes [] = [] :=
  rfl

/-- An escape is one character. -/
theorem unescapeBackslashes_escape {c : Char} (h : isAsciiPunctuation c) (rest : List Char) :
    unescapeBackslashes ('\\' :: c :: rest) = (c, true) :: unescapeBackslashes rest := by
  rw [unescapeBackslashes, if_pos ⟨rfl, h⟩]

/-- A backslash before anything else stands for itself. -/
theorem unescapeBackslashes_backslash {rest : List Char}
    (h : ¬rest.head?.any isAsciiPunctuation) :
    unescapeBackslashes ('\\' :: rest) = ('\\', false) :: unescapeBackslashes rest := by
  cases rest with
  | nil => rfl
  | cons c rest => rw [unescapeBackslashes, if_neg fun hc => h hc.2]

/-- Any other character stands for itself. -/
theorem unescapeBackslashes_cons {c : Char} (h : c ≠ '\\') (rest : List Char) :
    unescapeBackslashes (c :: rest) = (c, false) :: unescapeBackslashes rest := by
  cases rest with
  | nil => rfl
  | cons d rest => rw [unescapeBackslashes, if_neg fun hc => h hc.1]

/-- Text without backslashes is read as it stands. -/
theorem unescaped_append {passed : List Char} (h : '\\' ∉ passed) (rest : List Char) :
    unescaped (passed ++ rest) = passed ++ unescaped rest := by
  induction passed with
  | nil => rfl
  | cons c passed ih =>
      have hc : c ≠ '\\' := fun hc => h (hc ▸ List.mem_cons_self)
      have hpassed := ih fun hmem => h (List.mem_cons_of_mem c hmem)
      rw [List.cons_append, List.cons_append, ← hpassed, unescaped, unescapeBackslashes_cons hc]
      rfl

/-- The segments of the characters left; {lit}`prev` is the character before them. -/
def parseSegmentsFrom : ℕ → Option (Char × Bool) → List (Char × Bool) → List Segment
  | 0, _, _ => []
  | _, _, [] => []
  | fuel + 1, prev, x :: rest =>
      let next := rest.head?.map Prod.fst
      let tagContent := rest.takeWhile fun y => isTagChar u y.1
      let plain := rest.takeWhile (· ≠ ('#', false))
      if (x = ('#', false) ∧ next.any (isTagChar u)) ∧
          (prev.map Prod.fst = some '#' ∨ next = some '#' ∨ next = some ' ') then
        .text [x.1] :: parseSegmentsFrom fuel (some x) rest
      else if (x = ('#', false) ∧ next.any (isTagChar u)) ∧
          (0 < tagContent.length ∧ tagContent.length ≤ maxTagLength) then
        .tag (tagContent.map Prod.fst) ::
          parseSegmentsFrom fuel tagContent.getLast? (rest.dropWhile fun y => isTagChar u y.1)
      else
        .text ((x :: plain).map Prod.fst) ::
          parseSegmentsFrom fuel (x :: plain).getLast? (rest.dropWhile (· ≠ ('#', false)))

def parseSegments (source : List Char) : List Segment :=
  parseSegmentsFrom u (unescapeBackslashes source).length none (unescapeBackslashes source)

/-- The tag the renderer marks at a character. -/
def renderedAt (prev : Option (Char × Bool)) (x : Char × Bool) (rest : List (Char × Bool)) :
    Option (List Char) :=
  if x = ('#', false) ∧ prev.map Prod.fst ≠ some '#' ∧ TagRun u (rest.map Prod.fst) then
    some (tagRun u (rest.map Prod.fst))
  else none

/-- A tag starts with a hash that is not escaped. -/
theorem renderedAt_of_ne {x : Char × Bool} (h : x ≠ ('#', false)) (prev : Option (Char × Bool))
    (rest : List (Char × Bool)) : renderedAt u prev x rest = none :=
  if_neg fun hat => h hat.1

/-- A run of marked characters. -/
theorem tagRun_map_fst (rest : List (Char × Bool)) :
    tagRun u (rest.map Prod.fst) = (rest.takeWhile fun y => isTagChar u y.1).map Prod.fst := by
  rw [tagRun, List.takeWhile_map]
  rfl

/-- The segments spell the characters. -/
theorem spelled_parseSegmentsFrom (fuel : ℕ) (prev : Option (Char × Bool))
    (chars : List (Char × Bool)) (h : chars.length ≤ fuel) :
    (parseSegmentsFrom u fuel prev chars).flatMap Segment.spelled = chars.map Prod.fst := by
  induction fuel generalizing prev chars with
  | zero =>
      rw [List.length_eq_zero_iff.mp (Nat.le_zero.mp h)]
      rfl
  | succ fuel ih =>
      cases chars with
      | nil => rfl
      | cons x rest =>
          have hrest : rest.length ≤ fuel := Nat.le_of_succ_le_succ h
          have hdrop (p : Char × Bool → Bool) : (rest.dropWhile p).length ≤ fuel :=
            (List.length_dropWhile_le p rest).trans hrest
          have hparts (p : Char × Bool → Bool) :
              (rest.takeWhile p).map Prod.fst ++ (rest.dropWhile p).map Prod.fst =
                rest.map Prod.fst := by
            rw [← List.map_append, List.takeWhile_append_dropWhile]
          rw [parseSegmentsFrom]
          split_ifs with htext htag
          · rw [List.flatMap_cons, ih _ _ hrest]
            rfl
          · rw [List.flatMap_cons, ih _ _ (hdrop _), Segment.spelled, List.cons_append, hparts,
              htag.1.1]
            rfl
          · rw [List.flatMap_cons, ih _ _ (hdrop _), Segment.spelled, List.map_cons,
              List.cons_append, hparts]
            rfl

/-- The tags of the segments, hash by hash. -/
theorem tagsFrom_parseSegmentsFrom (fuel position : ℕ) (prev : Option (Char × Bool))
    (chars : List (Char × Bool)) (h : chars.length ≤ fuel) :
    Segment.tagsFrom position (parseSegmentsFrom u fuel prev chars) =
      Scan.scan (renderedAt u) position prev chars := by
  induction fuel generalizing position prev chars with
  | zero =>
      rw [List.length_eq_zero_iff.mp (Nat.le_zero.mp h)]
      rfl
  | succ fuel ih =>
      cases chars with
      | nil => rfl
      | cons x rest =>
          have hrest : rest.length ≤ fuel := Nat.le_of_succ_le_succ h
          have hdrop (p : Char × Bool → Bool) : (rest.dropWhile p).length ≤ fuel :=
            (List.length_dropWhile_le p rest).trans hrest
          have hpassed (p : Char × Bool → Bool) (hp : ∀ y, p y → y ≠ ('#', false)) :
              Scan.scan (renderedAt u) (position + 1) (some x) rest =
                Scan.scan (renderedAt u) (position + 1 + (rest.takeWhile p).length)
                  ((rest.takeWhile p).getLast?.or (some x)) (rest.dropWhile p) := by
            conv_lhs => rw [← List.takeWhile_append_dropWhile (p := p) (l := rest)]
            apply Scan.scan_append
            intro y hy
            exact renderedAt_of_ne u (hp y (List.mem_takeWhile_imp hy))
          rw [parseSegmentsFrom, Scan.scan]
          split_ifs with htext htag
          · rcases htext with ⟨⟨rfl, hnext⟩, hbeside⟩
            have hprev : prev.map Prod.fst = some '#' := by
              rcases hbeside with hprev | hhash | hspace
              · exact hprev
              · rw [hhash, Option.any_some, isTagChar_hash] at hnext
                contradiction
              · rw [hspace, Option.any_some, isTagChar_space] at hnext
                contradiction
            rw [renderedAt, if_neg fun hat => hat.2.1 hprev, Segment.tagsFrom, ih _ _ _ hrest]
            rfl
          · rcases htag with ⟨⟨rfl, hnext⟩, hlength⟩
            have hrun : TagRun u (rest.map Prod.fst) := by
              rw [TagRun, tagRun_map_fst, List.length_map]
              exact hlength
            have hprev : prev.map Prod.fst ≠ some '#' :=
              fun hprev => htext ⟨⟨rfl, hnext⟩, Or.inl hprev⟩
            have hhash (y : Char × Bool) (htag : isTagChar u y.1) : y ≠ ('#', false) := by
              rintro rfl
              rw [isTagChar_hash] at htag
              contradiction
            have hlast : (rest.takeWhile fun y => isTagChar u y.1).getLast?.isSome :=
              List.getLast?_isSome.mpr (List.length_pos_iff.mp hlength.1)
            rw [renderedAt, if_pos ⟨rfl, hprev, hrun⟩, Segment.tagsFrom, ih _ _ _ (hdrop _),
              tagRun_map_fst, hpassed _ hhash, Option.or_of_isSome hlast, List.length_map,
              Nat.add_comm _ 1, ← Nat.add_assoc]
            rfl
          · have hat : renderedAt u prev x rest = none := by
              apply if_neg
              rintro ⟨hx, -, hrun⟩
              apply htag
              rw [← List.length_map, ← tagRun_map_fst, ← List.head?_map]
              exact ⟨⟨hx, hrun.head⟩, hrun⟩
            rw [hat, Segment.tagsFrom, ih _ _ _ (hdrop _), hpassed (· ≠ ('#', false)) fun y hy =>
              of_decide_eq_true hy, List.length_map, List.length_cons, List.getLast?_cons,
              Nat.add_comm _ 1, ← Nat.add_assoc]
            cases (rest.takeWhile (· ≠ ('#', false))).getLast? <;> rfl

/-- The tags of the segments are those that a scan finds. -/
theorem tagsFrom_parseSegments (source : List Char) :
    Segment.tagsFrom 0 (parseSegments u source) =
      Scan.scan (renderedAt u) 0 none (unescapeBackslashes source) :=
  tagsFrom_parseSegmentsFrom u _ 0 none _ le_rfl

/-- The segments spell the text. -/
theorem spelled_parseSegments (source : List Char) :
    (parseSegments u source).flatMap Segment.spelled = unescaped source :=
  spelled_parseSegmentsFrom u _ none _ le_rfl

/-! ## The editor -/

/-- The tokens of what is left of a text. -/
def lexInlineFrom : ℕ → List Char → List Segment
  | 0, _ => []
  | _, [] => []
  | fuel + 1, c :: rest =>
      if c = '#' ∧ TagRun u rest ∧ (rest.dropWhile (isTagChar u)).head? ≠ some '#' then
        .tag (tagRun u rest) :: lexInlineFrom fuel (rest.dropWhile (isTagChar u))
      else if c = '\\' ∧ rest.head?.any isAsciiPunctuation then
        .text (rest.take 1) :: lexInlineFrom fuel (rest.drop 1)
      else .text [c] :: lexInlineFrom fuel rest

def lexInline (source : List Char) : List Segment :=
  lexInlineFrom u source.length source

private theorem spelled_lexInlineFrom (fuel : ℕ) (source : List Char) (h : source.length ≤ fuel) :
    (lexInlineFrom u fuel source).flatMap Segment.spelled = unescaped source := by
  induction fuel generalizing source with
  | zero =>
      rw [List.length_eq_zero_iff.mp (Nat.le_zero.mp h)]
      rfl
  | succ fuel ih =>
      cases source with
      | nil => rfl
      | cons c rest =>
          have hrest : rest.length ≤ fuel := Nat.le_of_succ_le_succ h
          rw [lexInlineFrom]
          split_ifs with htag hescape
          · rcases htag with ⟨rfl, -, -⟩
            have hdrop : (rest.dropWhile (isTagChar u)).length ≤ fuel :=
              (List.length_dropWhile_le _ rest).trans hrest
            have hsource : '#' :: rest =
                ('#' :: tagRun u rest) ++ rest.dropWhile (isTagChar u) := by
              rw [tagRun, List.cons_append, List.takeWhile_append_dropWhile]
            rw [List.flatMap_cons, ih _ hdrop, Segment.spelled, hsource, unescaped_append]
            rw [List.mem_cons, not_or]
            exact ⟨by decide, backslash_notMem_tagRun u rest⟩
          · rcases hescape with ⟨rfl, hnext⟩
            cases rest with
            | nil => contradiction
            | cons d rest =>
                rw [List.flatMap_cons, List.drop_one, List.tail_cons,
                  ih _ ((Nat.le_succ _).trans hrest), unescaped, unescaped,
                  unescapeBackslashes_escape hnext]
                rfl
          · have hplain : unescapeBackslashes (c :: rest) =
                (c, false) :: unescapeBackslashes rest := by
              by_cases hc : c = '\\'
              · rw [hc, unescapeBackslashes_backslash fun hnext => hescape ⟨hc, hnext⟩]
              · exact unescapeBackslashes_cons hc rest
            rw [List.flatMap_cons, ih _ hrest, unescaped, unescaped, hplain]
            rfl

/-- The tokens spell the text. -/
theorem spelled_lexInline (source : List Char) :
    (lexInline u source).flatMap Segment.spelled = unescaped source :=
  spelled_lexInlineFrom u _ source le_rfl

end Web
end MemosNote
