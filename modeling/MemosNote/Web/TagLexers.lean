import MemosNote.Web.TagGrammar

/-!
# The lexers of tags

The server's parser extracts the tags of a memo when it is stored; the renderer and the editor's
tokenizer show them.  They differ in what may stand around a tag, in how a long run is taken and in
the characters of a run.

Main results:

- Theorem {lit}`lexers_hash_iff`: what the lexers do at one hash.
- Theorem {lit}`tagLexers_agree_iff`: for which plain texts the three lexers agree.
-/

namespace MemosNote
namespace Web

open Library

/-! ## The server -/

variable (u : UnicodeClass)

/-- The zero width joiner is the server's alone. -/
def isValidTagRune (r : Char) : Bool :=
  u.has r || r == '\u200d' || ['_', '-', '/', '&'].contains r

/-- The runes of a tag behind those that were counted. -/
def tagRunes (runeCount : ℕ) : List Char → List Char
  | [] => []
  | r :: line =>
      if !isValidTagRune u r then []
      else if maxTagLength < runeCount + 1 then []
      else r :: tagRunes (runeCount + 1) line

/-- The tag at the start of a line. -/
def TagParser.Parse (line : List Char) : Option (List Char) :=
  if line.head? ≠ some '#' then none
  else if line.tail.head? = some '#' ∨ line.tail.head? = some ' ' ∨ line.tail = [] then none
  else if tagRunes u 0 line.tail = [] then none
  else some (tagRunes u 0 line.tail)

/-- The tags of a text without escapes: what was parsed is skipped. -/
def serverTags (text : List Char) : List (ℕ × List Char) :=
  Scan.skim (fun _ c rest => TagParser.Parse u (c :: rest)) List.length text.length 0 none text

variable {u}

theorem tagRunes_start (runeCount : ℕ) (line : List Char) :
    tagRunes u runeCount line <+: line := by
  induction line generalizing runeCount with
  | nil => exact List.prefix_rfl
  | cons r line ih =>
      rw [tagRunes]
      split_ifs
      · exact List.nil_prefix
      · exact List.nil_prefix
      · exact List.cons_prefix_cons.mpr ⟨rfl, ih _⟩

theorem isValidTagRune_hash : isValidTagRune u '#' = false := by
  rw [isValidTagRune, u.ascii '#' (by decide)]
  rfl

private theorem hash_notMem_tagRunes (runeCount : ℕ) (line : List Char) :
    '#' ∉ tagRunes u runeCount line := by
  induction line generalizing runeCount with
  | nil => exact List.not_mem_nil
  | cons r line ih =>
      rw [tagRunes]
      split_ifs with hr
      · exact List.not_mem_nil
      · exact List.not_mem_nil
      · rw [List.mem_cons, not_or]
        refine ⟨?_, ih _⟩
        rintro rfl
        rw [isValidTagRune_hash] at hr
        exact hr rfl

theorem parse_eq_none {c : Char} (h : c ≠ '#') (rest : List Char) :
    TagParser.Parse u (c :: rest) = none := by
  apply if_pos
  intro hc
  exact h (Option.some.inj hc)

private theorem parse_eq_some {line tag : List Char} (h : TagParser.Parse u line = some tag) :
    tag = tagRunes u 0 line.tail ∧ tag ≠ [] := by
  rw [TagParser.Parse] at h
  split_ifs at h with hhash hbeside hnil
  rcases Option.some.inj h with rfl
  exact ⟨rfl, hnil⟩

/-- The tags the server extracts, hash by hash. -/
theorem serverTags_eq_scan (text : List Char) :
    serverTags u text = Scan.scan (fun _ c rest => TagParser.Parse u (c :: rest)) 0 none text := by
  have hrunes {c : Char} {rest tag : List Char} (h : TagParser.Parse u (c :: rest) = some tag) :
      tag = tagRunes u 0 rest := (parse_eq_some h).1
  apply Scan.skim_eq_scan
  · intro _ c rest tag h
    rw [hrunes h]
    exact (tagRunes_start 0 rest).length_le
  · intro _ c rest tag h r hr _ rest'
    apply parse_eq_none
    rintro rfl
    rw [hrunes h, ← List.prefix_iff_eq_take.mp (tagRunes_start 0 rest)] at hr
    exact hash_notMem_tagRunes 0 rest hr
  · exact Nat.le_refl _

/-! ## The renderer and the editor -/

/-- A backslash stands before ASCII punctuation, which it escapes. -/
def hasEscape : List Char → Bool
  | [] => false
  | c :: rest => (c == '\\' && rest.head?.any isAsciiPunctuation) || hasEscape rest

theorem hasEscape_cons {c : Char} {rest : List Char} : hasEscape (c :: rest) = false ↔
    ¬(c = '\\' ∧ rest.head?.any isAsciiPunctuation) ∧ hasEscape rest = false := by
  rw [hasEscape, Bool.or_eq_false_iff, ← Bool.not_eq_true, Bool.and_eq_true, beq_iff_eq]

/-- A part of the text at its end has no escapes that the text has not. -/
theorem hasEscape_of_suffix {part text : List Char} (hpart : part <:+ text)
    (h : hasEscape text = false) : hasEscape part = false := by
  rcases hpart with ⟨before, rfl⟩
  induction before with
  | nil => exact h
  | cons c before ih => exact ih (hasEscape_cons.mp h).2

private theorem unescapeBackslashes_of_plain {text : List Char} (h : hasEscape text = false) :
    unescapeBackslashes text = text.map fun c => (c, false) := by
  induction text with
  | nil => rfl
  | cons c rest ih =>
      rcases hasEscape_cons.mp h with ⟨hhead, hrest⟩
      have hplain : unescapeBackslashes (c :: rest) = (c, false) :: unescapeBackslashes rest := by
        by_cases hc : c = '\\'
        · rw [hc, unescapeBackslashes_backslash fun hnext => hhead ⟨hc, hnext⟩]
        · exact unescapeBackslashes_cons hc rest
      rw [hplain, ih hrest]
      rfl

variable (u)

/-- The tag the renderer marks at a character of a text without escapes. -/
def markedAt (prev : Option Char) (c : Char) (rest : List Char) : Option (List Char) :=
  if c = '#' ∧ prev ≠ some '#' ∧ TagRun u rest then some (tagRun u rest) else none

/-- The tag the editor marks at a character. -/
def tokenizedAt (_prev : Option Char) (c : Char) (rest : List Char) : Option (List Char) :=
  if c = '#' ∧ TagRun u rest ∧ (rest.dropWhile (isTagChar u)).head? ≠ some '#' then
    some (tagRun u rest)
  else none

variable {u}

private theorem tagsFrom_parseSegments_plain {text : List Char} (h : hasEscape text = false) :
    Segment.tagsFrom 0 (parseSegments u text) = Scan.scan (markedAt u) 0 none text := by
  have hat : (fun (p : Option Char) (c : Char) (rest : List Char) =>
      renderedAt u (p.map fun c => (c, false)) (c, false) (rest.map fun c => (c, false))) =
        markedAt u := by
    funext p c rest
    have hfst : (Prod.fst ∘ fun c : Char => (c, false)) = id := rfl
    rw [renderedAt, markedAt, Option.map_map, List.map_map, hfst, Option.map_id, List.map_id]
    simp
  have hmap := Scan.scan_map (renderedAt u) (fun c : Char => (c, false)) 0 none text
  rw [tagsFrom_parseSegments, unescapeBackslashes_of_plain h, ← hat, ← hmap]
  rfl

private theorem tagsFrom_lexInlineFrom (fuel position : ℕ) (prev : Option Char) (text : List Char)
    (h : text.length ≤ fuel) (hplain : hasEscape text = false) :
    Segment.tagsFrom position (lexInlineFrom u fuel text) =
      Scan.scan (tokenizedAt u) position prev text := by
  induction fuel generalizing position prev text with
  | zero =>
      rw [List.length_eq_zero_iff.mp (Nat.le_zero.mp h)]
      rfl
  | succ fuel ih =>
      cases text with
      | nil => rfl
      | cons c rest =>
          have hrest : rest.length ≤ fuel := Nat.le_of_succ_le_succ h
          rcases hasEscape_cons.mp hplain with ⟨hhead, hplainRest⟩
          rw [lexInlineFrom, Scan.scan, tokenizedAt]
          split_ifs with htag
          · have hpassed : ∀ d ∈ tagRun u rest, ∀ prev rest, tokenizedAt u prev d rest = none := by
              intro d hd _ rest'
              apply if_neg
              rintro ⟨rfl, -⟩
              exact hash_notMem_tagRun u rest hd
            have hbehind : (rest.dropWhile (isTagChar u)).length ≤ fuel :=
              (List.length_dropWhile_le _ rest).trans hrest
            have hplainBehind : hasEscape (rest.dropWhile (isTagChar u)) = false :=
              hasEscape_of_suffix (List.dropWhile_suffix _) hplainRest
            have hsplit : rest = tagRun u rest ++ rest.dropWhile (isTagChar u) :=
              List.takeWhile_append_dropWhile.symm
            conv_rhs => rw [hsplit]
            rw [Segment.tagsFrom, ih _ ((tagRun u rest).getLast?.or (some c)) _ hbehind
              hplainBehind, Scan.scan_append hpassed, Nat.add_comm (tagRun u rest).length 1,
              ← Nat.add_assoc, ← hsplit]
            rfl
          · exact ih _ _ _ hrest hplainRest

/-! ## When the lexers agree -/

/-- What the server takes for a tag, as far as the renderer's run goes and behind it. -/
theorem tagRunes_eq (runeCount : ℕ) (line : List Char) :
    tagRunes u runeCount line =
      (line.takeWhile (isValidTagRune u)).take (maxTagLength - runeCount) := by
  induction line generalizing runeCount with
  | nil => simp [tagRunes]
  | cons r line ih =>
      rw [tagRunes]
      by_cases hr : isValidTagRune u r
      · rw [if_neg (by simp [hr]), List.takeWhile_cons_of_pos hr]
        split_ifs with hlong
        · rw [show maxTagLength - runeCount = 0 by omega, List.take_zero]
        · rw [show maxTagLength - runeCount = maxTagLength - (runeCount + 1) + 1 by omega,
            List.take_succ_cons, ih]
      · rw [if_pos (by simp [hr]), List.takeWhile_cons_of_neg hr, List.take_nil]

theorem isValidTagRune_iff {c : Char} :
    isValidTagRune u c ↔ isTagChar u c ∨ c = '\u200d' := by
  simp only [isValidTagRune, isTagChar, Bool.or_eq_true, beq_iff_eq]
  tauto

theorem takeWhile_isValidTagRune (line : List Char) :
    line.takeWhile (isValidTagRune u) =
      tagRun u line ++ (line.dropWhile (isTagChar u)).takeWhile (isValidTagRune u) := by
  have hrun : ∀ c ∈ tagRun u line, isValidTagRune u c :=
    fun c hc => isValidTagRune_iff.mpr (Or.inl (isTagChar_of_mem_tagRun u hc))
  conv_lhs => rw [← List.takeWhile_append_dropWhile (p := isTagChar u) (l := line)]
  exact List.takeWhile_append_of_pos hrun

/-- Behind a run, the server's tag goes on with a joiner only. -/
theorem takeWhile_behind_eq_nil_iff (line : List Char) :
    (line.dropWhile (isTagChar u)).takeWhile (isValidTagRune u) = [] ↔
      (line.dropWhile (isTagChar u)).head? ≠ some '\u200d' := by
  cases hbehind : line.dropWhile (isTagChar u) with
  | nil => exact ⟨fun _ => (Option.some_ne_none _).symm, fun _ => rfl⟩
  | cons c behind =>
      have hc : ¬isTagChar u c := by
        have hne : line.dropWhile (isTagChar u) ≠ [] := hbehind ▸ List.cons_ne_nil c behind
        have hhead := List.head_dropWhile_not (isTagChar u) hne
        simp only [hbehind, List.head_cons] at hhead
        simp [hhead]
      rw [List.head?_cons, ne_eq, Option.some.injEq]
      by_cases hvalid : isValidTagRune u c
      · rw [List.takeWhile_cons_of_pos hvalid]
        have hjoiner := (isValidTagRune_iff.mp hvalid).resolve_left hc
        exact ⟨fun h => absurd h (List.cons_ne_nil _ _), fun h => absurd hjoiner h⟩
      · rw [List.takeWhile_cons_of_neg hvalid]
        exact ⟨fun _ hjoiner => hvalid (isValidTagRune_iff.mpr (Or.inr hjoiner)), fun _ => rfl⟩

theorem tagRunes_eq_nil_iff (line : List Char) :
    tagRunes u 0 line = [] ↔
      tagRun u line = [] ∧ (line.dropWhile (isTagChar u)).head? ≠ some '\u200d' := by
  rw [tagRunes_eq, Nat.sub_zero, List.take_eq_nil_iff, takeWhile_isValidTagRune,
    List.append_eq_nil_iff, takeWhile_behind_eq_nil_iff]
  exact or_iff_right (by decide)

private theorem take_append_eq_left_iff {α : Type} (n : ℕ) (l m : List α) :
    (l ++ m).take n = l ↔ l.length ≤ n ∧ (l.length = n ∨ m = []) := by
  constructor
  · intro h
    have hlength := congrArg List.length h
    rw [List.length_take, List.length_append] at hlength
    refine ⟨by omega, ?_⟩
    rw [← List.length_eq_zero_iff]
    omega
  · rintro ⟨hle, rfl | rfl⟩
    · exact List.take_left
    · rw [List.append_nil, List.take_of_length_le hle]

theorem tagRunes_eq_tagRun_iff (line : List Char) :
    tagRunes u 0 line = tagRun u line ↔
      (tagRun u line).length ≤ maxTagLength ∧
        ((tagRun u line).length = maxTagLength ∨
          (line.dropWhile (isTagChar u)).head? ≠ some '\u200d') := by
  rw [← takeWhile_behind_eq_nil_iff, tagRunes_eq, takeWhile_isValidTagRune, Nat.sub_zero,
    take_append_eq_left_iff]

private theorem isValidTagRune_space : isValidTagRune u ' ' = false := by
  rw [isValidTagRune, u.ascii ' ' (by decide)]
  rfl

private theorem parse_hash (after : List Char) :
    TagParser.Parse u ('#' :: after) =
      if tagRunes u 0 after = [] then none else some (tagRunes u 0 after) := by
  rw [TagParser.Parse, if_neg (by simp), List.tail_cons]
  by_cases hbeside : after.head? = some '#' ∨ after.head? = some ' ' ∨ after = []
  · have hnil : tagRunes u 0 after = [] := by
      cases after with
      | nil => rfl
      | cons r line =>
          rw [List.head?_cons, Option.some.injEq, Option.some.injEq] at hbeside
          rw [tagRunes, if_pos]
          rcases hbeside with rfl | rfl | h
          · rw [isValidTagRune_hash]
            rfl
          · rw [isValidTagRune_space]
            rfl
          · cases h
    rw [if_pos hbeside, if_pos hnil]
  · rw [if_neg hbeside]

/-- The three lexers at a hash. -/
theorem lexers_hash_iff (prev : Option Char) (after : List Char) :
    (TagParser.Parse u ('#' :: after) = markedAt u prev '#' after ∧
        tokenizedAt u prev '#' after = markedAt u prev '#' after) ↔
      (tagRun u after = [] ∧ (after.dropWhile (isTagChar u)).head? ≠ some '\u200d') ∨
        (TagRun u after ∧
          ((tagRun u after).length = maxTagLength ∨
            (after.dropWhile (isTagChar u)).head? ≠ some '\u200d') ∧
          prev ≠ some '#' ∧ (after.dropWhile (isTagChar u)).head? ≠ some '#') := by
  rw [parse_hash]
  by_cases hnil : tagRun u after = []
  · have hrun : ¬TagRun u after := by
      rw [TagRun, hnil]
      exact fun h => Nat.not_succ_le_zero 0 h.1
    have hmarked : markedAt u prev '#' after = none := if_neg fun h => hrun h.2.2
    have htokenized : tokenizedAt u prev '#' after = none := if_neg fun h => hrun h.2.1
    rw [hmarked, htokenized]
    constructor
    · rintro ⟨hnone, -⟩
      have hrunes : tagRunes u 0 after = [] := by
        by_contra hrunes
        rw [if_neg hrunes] at hnone
        cases hnone
      exact Or.inl ((tagRunes_eq_nil_iff after).mp hrunes)
    · rintro (hnext | ⟨h, -⟩)
      · rw [if_pos ((tagRunes_eq_nil_iff after).mpr hnext)]
        exact ⟨rfl, rfl⟩
      · exact absurd h hrun
  · have hrunes : tagRunes u 0 after ≠ [] := fun h => hnil ((tagRunes_eq_nil_iff after).mp h).1
    have hlength : 1 ≤ (tagRun u after).length := List.length_pos_iff.mpr hnil
    rw [if_neg hrunes]
    constructor
    · rintro ⟨hparse, htokenized⟩
      right
      rw [tokenizedAt] at htokenized
      rw [markedAt] at hparse htokenized
      by_cases hmarked : '#' = '#' ∧ prev ≠ some '#' ∧ TagRun u after
      · rw [if_pos hmarked] at hparse htokenized
        have hsame := (tagRunes_eq_tagRun_iff after).mp (Option.some.inj hparse)
        have hnext : (after.dropWhile (isTagChar u)).head? ≠ some '#' := by
          intro hnext
          rw [if_neg fun h => h.2.2 hnext] at htokenized
          cases htokenized
        exact ⟨hmarked.2.2, hsame.2, hmarked.2.1, hnext⟩
      · rw [if_neg hmarked] at hparse
        cases hparse
    · rintro (⟨h, -⟩ | ⟨hrun, hjoiner, hprev, hnext⟩)
      · exact absurd h hnil
      · rw [markedAt, if_pos ⟨rfl, hprev, hrun⟩, tokenizedAt, if_pos ⟨rfl, hrun, hnext⟩,
          (tagRunes_eq_tagRun_iff after).mpr ⟨hrun.2, hjoiner⟩]
        exact ⟨rfl, rfl⟩

variable (u)

/-- The tags the lexers find are the same at the same places. -/
def TagLexersAgree (text : List Char) : Prop :=
  serverTags u text = Segment.tagsFrom 0 (parseSegments u text) ∧
    Segment.tagsFrom 0 (lexInline u text) = Segment.tagsFrom 0 (parseSegments u text)

/-- Every hash has neither a run nor a joiner behind it, or a run that is not too long with no
joiner, no hash before it and none behind the run. -/
def HashesApart (text : List Char) : Prop :=
  ∀ before after, text = before ++ '#' :: after →
    let next := (after.dropWhile (isTagChar u)).head?
    (tagRun u after = [] ∧ next ≠ some '\u200d') ∨
      (TagRun u after ∧ ((tagRun u after).length = maxTagLength ∨ next ≠ some '\u200d') ∧
        before.getLast? ≠ some '#' ∧ next ≠ some '#')

/-- The lexers agree on a plain text if and only if its hashes are apart. -/
theorem tagLexers_agree_iff (text : List Char) (h : hasEscape text = false) :
    TagLexersAgree u text ↔ HashesApart u text := by
  have heditor : Segment.tagsFrom 0 (lexInline u text) = Scan.scan (tokenizedAt u) 0 none text :=
    tagsFrom_lexInlineFrom _ 0 none text le_rfl h
  rw [TagLexersAgree, serverTags_eq_scan, heditor, tagsFrom_parseSegments_plain h,
    Scan.scan_eq_iff, Scan.scan_eq_iff]
  constructor
  · rintro ⟨hparse, htokenized⟩ before after htext
    have hat := (lexers_hash_iff (before.getLast?.or none) after).mp
      ⟨hparse before '#' after htext, htokenized before '#' after htext⟩
    rwa [Option.or_none] at hat
  · intro happart
    have hboth : ∀ before c after, text = before ++ c :: after →
        TagParser.Parse u (c :: after) = markedAt u (before.getLast?.or none) c after ∧
          tokenizedAt u (before.getLast?.or none) c after =
            markedAt u (before.getLast?.or none) c after := by
      intro before c after htext
      by_cases hc : c = '#'
      · rw [hc] at htext ⊢
        apply (lexers_hash_iff _ after).mpr
        rw [Option.or_none]
        exact happart before after htext
      · rw [parse_eq_none hc, markedAt, tokenizedAt, if_neg fun hat => hc hat.1,
          if_neg fun hat => hc hat.1]
        exact ⟨rfl, rfl⟩
    exact ⟨fun before c after htext => (hboth before c after htext).1,
      fun before c after htext => (hboth before c after htext).2⟩

/-- A backslash before a letter is text. -/
theorem tagLexers_agree_plain :
    TagLexersAgree UnicodeClass.asciiOnly ['\\', 'b', ' ', '#', 'a'] ↔
      HashesApart UnicodeClass.asciiOnly ['\\', 'b', ' ', '#', 'a'] :=
  tagLexers_agree_iff _ _ (by decide)

/-- Two hashes are a hash and a tag to the server and the editor, and no tag to the renderer. -/
theorem tagLexers_disagree : ¬TagLexersAgree UnicodeClass.asciiOnly ['#', '#', 'x'] :=
  fun h => absurd h.1 (by decide)

end Web
end MemosNote
