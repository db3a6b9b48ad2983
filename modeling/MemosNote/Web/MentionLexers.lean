import Mathlib.Data.List.TakeWhile
import MemosNote.Library.Scan

/-!
# The lexers of mentions

The server's parser extracts the mentioned user names, whom it notifies; the renderer links them
and the editor's tokenizer marks them.  The server takes letters and numbers of every script for a
name and looks for a boundary before it; the other two know ASCII only.

Main results:

- Theorem {lit}`parseMentionsFrom_eq_scan`: the renderer and the editor read the same runs.
- Theorem {lit}`mentionLexers_agree_iff`: for which plain texts all three lexers agree, with the
  names as they are and up to case.
-/

namespace MemosNote
namespace Web

open Library

/-! ## The server -/

/-- The classes of runes and the lower case of names. -/
structure RuneClasses where
  isLetter : Char → Bool
  isNumber : Char → Bool
  isSpace : Char → Bool
  isPunct : Char → Bool
  isSymbol : Char → Bool
  toLower : Char → Char
  ascii_letter : ∀ c : Char, c.toNat < 128 → isLetter c = c.isAlpha
  ascii_number : ∀ c : Char, c.toNat < 128 → isNumber c = c.isDigit
  ascii_lower : ∀ c : Char, c.toNat < 128 → toLower c = c.toLower

variable (r : RuneClasses)

def maxMentionLength : ℕ := 32

def isValidMentionRune (c : Char) : Bool :=
  r.isLetter c || r.isNumber c || c == '-'

/-- Whether a name may start behind a character; at the start of a block there is none. -/
def mentionMayFollow (prev : Option Char) : Bool :=
  prev.all fun c => c == '\n' || r.isSpace c || r.isPunct c || r.isSymbol c

/-- The runes of a name behind those that were counted, and whether a letter or a number was
seen; the first rune behind a name that is too long is seen as well. -/
def mentionRunes (runeCount : ℕ) : List Char → List Char × Bool
  | [] => ([], false)
  | c :: line =>
      if !isValidMentionRune r c then ([], false)
      else if maxMentionLength < runeCount + 1 then ([], r.isLetter c || r.isNumber c)
      else
        (c :: (mentionRunes (runeCount + 1) line).1,
          (r.isLetter c || r.isNumber c) || (mentionRunes (runeCount + 1) line).2)

/-- The user name at the start of a line. -/
def MentionParser.Parse (prev : Option Char) (line : List Char) : Option (List Char) :=
  if line.head? ≠ some '@' then none
  else if !mentionMayFollow r prev then none
  else if (mentionRunes r 0 line.tail).1 = [] ∨ !(mentionRunes r 0 line.tail).2 then none
  else some (mentionRunes r 0 line.tail).1

/-- The mentions of a text without escapes: what was parsed is skipped. -/
def serverMentions (text : List Char) : List (ℕ × List Char) :=
  (Scan.skim (fun prev c rest => MentionParser.Parse r prev (c :: rest)) List.length text.length 0
    none text).map (Prod.map id (List.map r.toLower))

/-! ## The renderer and the editor -/

def isMentionChar (c : Char) : Bool :=
  c.isAlphanum || c == '-'

def isMentionBoundary (prev : Option Char) : Bool :=
  prev.all fun c => !isMentionChar c

/-- The characters of a name. -/
def mentionRun (rest : List Char) : List Char :=
  (rest.takeWhile isMentionChar).take maxMentionLength

/-- The mentions the renderer finds in the characters left; {lit}`prev` is the character before
them. -/
def parseMentionsFrom : ℕ → ℕ → Option Char → List Char → List (ℕ × List Char)
  | 0, _, _, _ => []
  | _, _, _, [] => []
  | fuel + 1, position, prev, c :: rest =>
      let username := mentionRun rest
      let plain := rest.takeWhile (· ≠ '@')
      if (c = '@' ∧ isMentionBoundary prev ∧ rest.head?.any isMentionChar) ∧
          (username ≠ [] ∧ username.any Char.isAlphanum) then
        (position, username) ::
          parseMentionsFrom fuel (position + 1 + username.length) username.getLast?
            (rest.drop username.length)
      else
        parseMentionsFrom fuel (position + 1 + plain.length) (c :: plain).getLast?
          (rest.dropWhile (· ≠ '@'))

def rendererMentions (text : List Char) : List (ℕ × List Char) :=
  (parseMentionsFrom text.length 0 none text).map (Prod.map id (List.map r.toLower))

/-- The name the editor's rule matches at a character. -/
def mentionTokenAt (prev : Option Char) (c : Char) (rest : List Char) : Option (List Char) :=
  if c = '@' ∧ (mentionRun rest).any Char.isAlphanum ∧ isMentionBoundary prev then
    some (mentionRun rest)
  else none

/-- The mentions the editor marks; it keeps the user names as they are written. -/
def editorMentions (text : List Char) : List (ℕ × List Char) :=
  Scan.skim mentionTokenAt List.length text.length 0 none text

/-- The mentions the lexers find are the same at the same places. -/
def MentionLexersAgree (text : List Char) : Prop :=
  serverMentions r text = rendererMentions r text ∧
    editorMentions text = rendererMentions r text

/-- The same, where the editor's names are taken in lower case. -/
def MentionLexersAgreeUpToCase (text : List Char) : Prop :=
  serverMentions r text = rendererMentions r text ∧
    (editorMentions text).map (Prod.map id (List.map r.toLower)) = rendererMentions r text

/-! ## What the lexers find -/

variable {r}

private theorem isValidMentionRune_at : isValidMentionRune r '@' = false := by
  rw [isValidMentionRune, r.ascii_letter '@' (by decide), r.ascii_number '@' (by decide)]
  rfl

theorem toNat_lt_of_isAlphanum {c : Char} (h : c.isAlphanum) : c.toNat < 128 := by
  have hclasses : ((decide (c.val ≥ 65 ∧ c.val ≤ 90) ||
      decide (c.val ≥ 97) && decide (c.val ≤ 122)) ||
        decide (c.val ≥ 48) && decide (c.val ≤ 57)) = true := h
  simp only [Bool.or_eq_true, Bool.and_eq_true, decide_eq_true_eq, ge_iff_le,
    UInt32.le_iff_toNat_le] at hclasses
  have hbound : c.val.toNat ≤ 122 := by
    rcases hclasses with (⟨-, h⟩ | ⟨-, h⟩) | ⟨-, h⟩
    · exact Nat.le_trans h (by decide)
    · exact h
    · exact Nat.le_trans h (by decide)
  exact Nat.lt_of_le_of_lt hbound (by decide)

private theorem isValidMentionRune_of_isMentionChar {c : Char} (h : isMentionChar c) :
    isValidMentionRune r c := by
  rw [isMentionChar, Bool.or_eq_true] at h
  rw [isValidMentionRune, Bool.or_eq_true]
  apply h.imp_left
  intro halphanum
  have hascii := toNat_lt_of_isAlphanum halphanum
  rw [r.ascii_letter c hascii, r.ascii_number c hascii]
  exact halphanum

private theorem isMentionChar_at : isMentionChar '@' = false :=
  rfl

private theorem mentionRunes_fst (runeCount : ℕ) (line : List Char) :
    (mentionRunes r runeCount line).1 =
      (line.takeWhile (isValidMentionRune r)).take (maxMentionLength - runeCount) := by
  induction line generalizing runeCount with
  | nil => simp [mentionRunes]
  | cons c line ih =>
      rw [mentionRunes]
      by_cases hc : isValidMentionRune r c
      · rw [if_neg (by simp [hc]), List.takeWhile_cons_of_pos hc]
        split_ifs with hlong
        · rw [show maxMentionLength - runeCount = 0 by omega, List.take_zero]
        · rw [show maxMentionLength - runeCount = maxMentionLength - (runeCount + 1) + 1 by omega,
            List.take_succ_cons, ih]
      · rw [if_pos (by simp [hc]), List.takeWhile_cons_of_neg hc, List.take_nil]

private theorem mentionRunes_snd (runeCount : ℕ) (line : List Char)
    (h : runeCount ≤ maxMentionLength) :
    (mentionRunes r runeCount line).2 =
      ((line.takeWhile (isValidMentionRune r)).take (maxMentionLength - runeCount + 1)).any
        fun c => r.isLetter c || r.isNumber c := by
  induction line generalizing runeCount with
  | nil => simp [mentionRunes]
  | cons c line ih =>
      rw [mentionRunes]
      by_cases hc : isValidMentionRune r c
      · rw [if_neg (by simp [hc]), List.takeWhile_cons_of_pos hc]
        split_ifs with hlong
        · rw [show maxMentionLength - runeCount = 0 by omega, List.take_succ_cons, List.take_zero,
            List.any_cons, List.any_nil, Bool.or_false]
        · rw [show maxMentionLength - runeCount = maxMentionLength - (runeCount + 1) + 1 by omega,
            List.take_succ_cons, List.any_cons, ih _ (by omega)]
      · rw [if_pos (by simp [hc]), List.takeWhile_cons_of_neg hc, List.take_nil, List.any_nil]

/-- The finder of the server. -/
theorem mentionParse_at (prev : Option Char) (after : List Char) :
    MentionParser.Parse r prev ('@' :: after) =
      if mentionMayFollow r prev ∧
          ((after.takeWhile (isValidMentionRune r)).take (maxMentionLength + 1)).any
            (fun c => r.isLetter c || r.isNumber c) then
        some ((after.takeWhile (isValidMentionRune r)).take maxMentionLength)
      else none := by
  have hfst := mentionRunes_fst (r := r) 0 after
  have hsnd := mentionRunes_snd (r := r) 0 after (Nat.zero_le _)
  rw [Nat.sub_zero] at hfst hsnd
  rw [MentionParser.Parse, if_neg (by simp), List.tail_cons, hfst, hsnd]
  by_cases hprev : mentionMayFollow r prev
  · by_cases hnamed : ((after.takeWhile (isValidMentionRune r)).take (maxMentionLength + 1)).any
        (fun c => r.isLetter c || r.isNumber c)
    · have hne : (after.takeWhile (isValidMentionRune r)).take maxMentionLength ≠ [] := by
        rw [ne_eq, List.take_eq_nil_iff, not_or]
        refine ⟨by decide, ?_⟩
        intro hnil
        rw [hnil] at hnamed
        cases hnamed
      simp [hprev, hnamed, hne]
    · simp [hnamed]
  · simp [hprev]

theorem mentionParse_eq_none {c : Char} (h : c ≠ '@') (prev : Option Char) (rest : List Char) :
    MentionParser.Parse r prev (c :: rest) = none := by
  apply if_pos
  intro hc
  exact h (Option.some.inj hc)

theorem mentionTokenAt_eq_none {c : Char} (h : c ≠ '@') (prev : Option Char) (rest : List Char) :
    mentionTokenAt prev c rest = none :=
  if_neg fun hat => h hat.1

theorem at_notMem_mentionRun (rest : List Char) : '@' ∉ mentionRun rest := by
  intro h
  have hat := List.mem_takeWhile_imp ((List.take_sublist _ _).subset h)
  rw [isMentionChar_at] at hat
  contradiction

theorem mentionRun_start (rest : List Char) : mentionRun rest <+: rest :=
  (List.take_prefix _ _).trans (List.takeWhile_prefix _)

/-- The mentions the server extracts, at sign by at sign. -/
theorem serverMentions_eq_scan (text : List Char) :
    serverMentions r text =
      Scan.scan (fun prev c rest =>
        (MentionParser.Parse r prev (c :: rest)).map (List.map r.toLower)) 0 none text := by
  have hname {prev : Option Char} {c : Char} {rest name : List Char}
      (h : MentionParser.Parse r prev (c :: rest) = some name) :
      name = (rest.takeWhile (isValidMentionRune r)).take maxMentionLength := by
    by_cases hc : c = '@'
    · rw [hc, mentionParse_at] at h
      split_ifs at h
      exact (Option.some.inj h).symm
    · rw [mentionParse_eq_none hc] at h
      cases h
  have hstarts (rest : List Char) :
      (rest.takeWhile (isValidMentionRune r)).take maxMentionLength <+: rest :=
    (List.take_prefix _ _).trans (List.takeWhile_prefix _)
  rw [serverMentions, Scan.skim_eq_scan, Scan.map_scan]
  · intro _ c rest name h
    rw [hname h]
    exact (hstarts rest).length_le
  · intro _ c rest name h d hd _ rest'
    apply mentionParse_eq_none
    rintro rfl
    rw [hname h, ← List.prefix_iff_eq_take.mp (hstarts rest)] at hd
    have hat := List.mem_takeWhile_imp ((List.take_sublist _ _).subset hd)
    rw [isValidMentionRune_at] at hat
    contradiction
  · exact Nat.le_refl _

/-- The mentions the editor marks, at sign by at sign. -/
theorem editorMentions_eq_scan (text : List Char) :
    editorMentions text = Scan.scan mentionTokenAt 0 none text := by
  have hname {prev : Option Char} {c : Char} {rest name : List Char}
      (h : mentionTokenAt prev c rest = some name) : name = mentionRun rest := by
    rw [mentionTokenAt] at h
    split_ifs at h
    exact (Option.some.inj h).symm
  rw [editorMentions, Scan.skim_eq_scan]
  · intro _ c rest name h
    rw [hname h]
    exact (mentionRun_start rest).length_le
  · intro _ c rest name h d hd _ rest'
    apply mentionTokenAt_eq_none
    rintro rfl
    rw [hname h, ← List.prefix_iff_eq_take.mp (mentionRun_start rest)] at hd
    exact at_notMem_mentionRun rest hd
  · exact Nat.le_refl _

private theorem head_of_mentionRun_ne_nil {rest : List Char} (h : mentionRun rest ≠ []) :
    rest.head?.any isMentionChar := by
  cases rest with
  | nil => exact absurd rfl h
  | cons c rest =>
      by_contra hhead
      have hc : ¬isMentionChar c := hhead
      apply h
      rw [mentionRun, List.takeWhile_cons_of_neg hc, List.take_nil]

/-- The mentions the renderer finds, at sign by at sign. -/
theorem parseMentionsFrom_eq_scan (fuel position : ℕ) (prev : Option Char) (text : List Char)
    (h : text.length ≤ fuel) :
    parseMentionsFrom fuel position prev text = Scan.scan mentionTokenAt position prev text := by
  induction fuel generalizing position prev text with
  | zero =>
      rw [List.length_eq_zero_iff.mp (Nat.le_zero.mp h)]
      rfl
  | succ fuel ih =>
      cases text with
      | nil => rfl
      | cons c rest =>
          have hrest : rest.length ≤ fuel := Nat.le_of_succ_le_succ h
          rw [parseMentionsFrom, Scan.scan]
          split_ifs with hmention
          · rcases hmention with ⟨⟨hc, hboundary, -⟩, hne, hnamed⟩
            have hat : mentionTokenAt prev c rest = some (mentionRun rest) :=
              if_pos ⟨hc, hnamed, hboundary⟩
            have hpassed : ∀ d ∈ mentionRun rest, ∀ prev rest,
                mentionTokenAt prev d rest = none := by
              intro d hd _ rest'
              apply mentionTokenAt_eq_none
              rintro rfl
              exact at_notMem_mentionRun rest hd
            have hdrop : (rest.drop (mentionRun rest).length).length ≤ fuel := by
              rw [List.length_drop]
              omega
            have hsplit : rest = mentionRun rest ++ rest.drop (mentionRun rest).length :=
              List.prefix_iff_eq_append.mp (mentionRun_start rest) |>.symm
            have hlast : (mentionRun rest).getLast?.isSome := List.getLast?_isSome.mpr hne
            have hskipped := Scan.scan_append hpassed (position + 1) (some c)
              (rest.drop (mentionRun rest).length)
            rw [← hsplit, Option.or_of_isSome hlast] at hskipped
            rw [hat, hskipped, ih _ _ _ hdrop]
            rfl
          · have hat : mentionTokenAt prev c rest = none := by
              apply if_neg
              rintro ⟨hc, hnamed, hboundary⟩
              have hne : mentionRun rest ≠ [] := by
                intro hnil
                rw [hnil] at hnamed
                cases hnamed
              exact hmention ⟨⟨hc, hboundary, head_of_mentionRun_ne_nil hne⟩, hne, hnamed⟩
            have hpassed : ∀ d ∈ rest.takeWhile (· ≠ '@'), ∀ prev rest,
                mentionTokenAt prev d rest = none := by
              intro d hd
              have hne : d ≠ '@' := by simpa using List.mem_takeWhile_imp hd
              exact mentionTokenAt_eq_none hne
            have hdrop : (rest.dropWhile (· ≠ '@')).length ≤ fuel :=
              (List.length_dropWhile_le _ rest).trans hrest
            have hskipped := Scan.scan_append hpassed (position + 1) (some c)
              (rest.dropWhile (· ≠ '@'))
            rw [List.takeWhile_append_dropWhile] at hskipped
            rw [hat, hskipped, ih _ _ _ hdrop, List.getLast?_cons]
            cases (rest.takeWhile (· ≠ '@')).getLast? <;> rfl

/-! ## When the lexers agree -/

/-- Whether the server finds a name at a sign. -/
def ServerNames (r : RuneClasses) (prev : Option Char) (after : List Char) : Prop :=
  mentionMayFollow r prev ∧
    ((after.takeWhile (isValidMentionRune r)).take (maxMentionLength + 1)).any
      fun c => r.isLetter c || r.isNumber c

/-- Whether the renderer and the editor find a name at a sign. -/
def ClientNames (prev : Option Char) (after : List Char) : Prop :=
  isMentionBoundary prev ∧ (mentionRun after).any Char.isAlphanum

/-- At every sign, the server finds a name where the others do, and their name is as long as names
get or not followed by a letter or a number. -/
def NamesPlain (r : RuneClasses) (text : List Char) : Prop :=
  ∀ before after, text = before ++ '@' :: after →
    (ServerNames r before.getLast? after ↔ ClientNames before.getLast? after) ∧
      (ClientNames before.getLast? after → (mentionRun after).length = maxMentionLength ∨
        ¬(after.dropWhile isMentionChar).head?.any (isValidMentionRune r))

/-- At every sign where the renderer and the editor find a name, it is written in lower case. -/
def NamesLower (text : List Char) : Prop :=
  ∀ before after, text = before ++ '@' :: after → ClientNames before.getLast? after →
    ∀ c ∈ mentionRun after, ¬c.isUpper

private theorem toLower_eq_self_iff (c : Char) : c.toLower = c ↔ ¬c.isUpper := by
  have hupper : c.isUpper ↔ c.val ≥ 'A'.val ∧ c.val ≤ 'Z'.val := decide_eq_true_iff
  rw [hupper]
  by_cases h : c.val ≥ 'A'.val ∧ c.val ≤ 'Z'.val
  · refine iff_of_false (fun heq => ?_) (not_not_intro h)
    have hval := congrArg Char.val heq
    rw [show c.toLower = dite _ _ _ from rfl, dif_pos h] at hval
    simp at hval
  · exact iff_of_true (dif_neg h) h

/-- Two beginnings of a text with the same lower case are one. -/
theorem map_inj_of_prefix {f : Char → Char} {l m text : List Char} (hl : l <+: text)
    (hm : m <+: text) : l.map f = m.map f ↔ l = m := by
  constructor
  · intro h
    have hlength := congrArg List.length h
    rw [List.length_map, List.length_map] at hlength
    rw [List.prefix_iff_eq_take.mp hl, List.prefix_iff_eq_take.mp hm, hlength]
  · exact congrArg _

private theorem take_append_eq_take_iff {α : Type} (n : ℕ) (l m : List α) :
    (l ++ m).take n = l.take n ↔ (l.take n).length = n ∨ m = [] := by
  constructor
  · intro h
    have hlength := congrArg List.length h
    rw [List.length_take, List.length_append, List.length_take] at hlength
    rw [← List.length_eq_zero_iff, List.length_take]
    omega
  · rintro (h | rfl)
    · rw [List.length_take] at h
      rw [List.take_append_of_le_length (by omega)]
    · rw [List.append_nil]

private theorem takeWhile_eq_nil_iff {p : Char → Bool} (l : List Char) :
    l.takeWhile p = [] ↔ ¬l.head?.any p := by
  cases l with
  | nil => exact ⟨fun _ => Bool.false_ne_true, fun _ => rfl⟩
  | cons c l =>
      rw [List.head?_cons, Option.any_some]
      by_cases hc : p c
      · rw [List.takeWhile_cons_of_pos hc]
        exact ⟨fun h => absurd h (List.cons_ne_nil _ _), fun h => absurd hc h⟩
      · rw [List.takeWhile_cons_of_neg hc]
        exact ⟨fun _ => hc, fun _ => rfl⟩

/-- The server's name is the others'. -/
theorem serverRun_eq_iff (after : List Char) :
    (after.takeWhile (isValidMentionRune r)).take maxMentionLength = mentionRun after ↔
      (mentionRun after).length = maxMentionLength ∨
        ¬(after.dropWhile isMentionChar).head?.any (isValidMentionRune r) := by
  have hsplit : after.takeWhile (isValidMentionRune r) =
      after.takeWhile isMentionChar ++
        (after.dropWhile isMentionChar).takeWhile (isValidMentionRune r) := by
    conv_lhs => rw [← List.takeWhile_append_dropWhile (p := isMentionChar) (l := after)]
    apply List.takeWhile_append_of_pos
    intro c hc
    exact isValidMentionRune_of_isMentionChar (List.mem_takeWhile_imp hc)
  rw [hsplit, mentionRun, take_append_eq_take_iff, takeWhile_eq_nil_iff]

/-- The lexers at a sign. -/
theorem lexers_at_iff (prev : Option Char) (after : List Char) :
    (MentionParser.Parse r prev ('@' :: after)).map (List.map r.toLower) =
        (mentionTokenAt prev '@' after).map (List.map r.toLower) ↔
      (ServerNames r prev after ↔ ClientNames prev after) ∧
        (ClientNames prev after → (mentionRun after).length = maxMentionLength ∨
          ¬(after.dropWhile isMentionChar).head?.any (isValidMentionRune r)) := by
  have hstarts : (after.takeWhile (isValidMentionRune r)).take maxMentionLength <+: after :=
    (List.take_prefix _ _).trans (List.takeWhile_prefix _)
  have hparse (h : ServerNames r prev after) : MentionParser.Parse r prev ('@' :: after) =
      some ((after.takeWhile (isValidMentionRune r)).take maxMentionLength) :=
    (mentionParse_at prev after).trans (if_pos h)
  have hparseNone (h : ¬ServerNames r prev after) :
      MentionParser.Parse r prev ('@' :: after) = none :=
    (mentionParse_at prev after).trans (if_neg h)
  have htoken (h : ClientNames prev after) :
      mentionTokenAt prev '@' after = some (mentionRun after) := if_pos ⟨rfl, h.2, h.1⟩
  have htokenNone (h : ¬ClientNames prev after) : mentionTokenAt prev '@' after = none :=
    if_neg fun hat => h ⟨hat.2.2, hat.2.1⟩
  rw [← serverRun_eq_iff]
  by_cases hserver : ServerNames r prev after
  · rw [hparse hserver]
    by_cases hclient : ClientNames prev after
    · rw [htoken hclient, Option.map_some, Option.map_some, Option.some.injEq,
        map_inj_of_prefix hstarts (mentionRun_start after)]
      exact ⟨fun h => ⟨iff_of_true hserver hclient, fun _ => h⟩, fun h => h.2 hclient⟩
    · rw [htokenNone hclient]
      exact ⟨fun h => absurd h (Option.some_ne_none _), fun h => absurd (h.1.mp hserver) hclient⟩
  · rw [hparseNone hserver]
    by_cases hclient : ClientNames prev after
    · rw [htoken hclient]
      exact ⟨fun h => absurd h.symm (Option.some_ne_none _),
        fun h => absurd (h.1.mpr hclient) hserver⟩
    · rw [htokenNone hclient]
      exact ⟨fun _ => ⟨iff_of_false hserver hclient, fun h => absurd h hclient⟩, fun _ => rfl⟩

private theorem isAscii_of_isMentionChar {c : Char} (h : isMentionChar c) : c.toNat < 128 := by
  rw [isMentionChar, Bool.or_eq_true, beq_iff_eq] at h
  rcases h with halphanum | rfl
  · exact toNat_lt_of_isAlphanum halphanum
  · decide

/-- A run is its own lower case if and only if it has no capital letter. -/
theorem lower_mentionRun_iff (after : List Char) :
    (mentionRun after).map r.toLower = mentionRun after ↔
      ∀ c ∈ mentionRun after, ¬c.isUpper := by
  have hself := List.map_inj_left (l := mentionRun after) (f := r.toLower) (g := id)
  rw [List.map_id] at hself
  rw [hself]
  refine forall₂_congr fun c hc => ?_
  have hmention := List.mem_takeWhile_imp ((List.take_sublist _ _).subset hc)
  rw [r.ascii_lower c (isAscii_of_isMentionChar hmention)]
  exact toLower_eq_self_iff c

/-- The editor's names are the renderer's if and only if they are written in lower case. -/
theorem editor_eq_renderer_iff (text : List Char) :
    editorMentions text = rendererMentions r text ↔ NamesLower text := by
  rw [editorMentions_eq_scan, rendererMentions, parseMentionsFrom_eq_scan _ _ _ _ le_rfl,
    Scan.map_scan, Scan.scan_eq_iff]
  have htoken {prev : Option Char} {after : List Char} (h : ClientNames prev after) :
      mentionTokenAt prev '@' after = some (mentionRun after) := if_pos ⟨rfl, h.2, h.1⟩
  constructor
  · intro h before after htext hclient
    have hat := h before '@' after htext
    rw [Option.or_none, htoken hclient, Option.map_some, Option.some.injEq] at hat
    exact (lower_mentionRun_iff after).mp hat.symm
  · intro hlower before c after htext
    rw [Option.or_none]
    by_cases hfound : c = '@' ∧ ClientNames before.getLast? after
    · obtain ⟨rfl, hclient⟩ := hfound
      rw [htoken hclient, Option.map_some,
        (lower_mentionRun_iff after).mpr (hlower before after htext hclient)]
    · have hnone : mentionTokenAt before.getLast? c after = none :=
        if_neg fun hat => hfound ⟨hat.1, hat.2.2, hat.2.1⟩
      rw [hnone, Option.map_none]

/-- The server's names are the renderer's if and only if the names of the text are plain. -/
theorem server_eq_renderer_iff (text : List Char) :
    serverMentions r text = rendererMentions r text ↔ NamesPlain r text := by
  rw [serverMentions_eq_scan, rendererMentions, parseMentionsFrom_eq_scan _ _ _ _ le_rfl,
    Scan.map_scan, Scan.scan_eq_iff]
  constructor
  · intro h before after htext
    have hat := (lexers_at_iff _ after).mp (h before '@' after htext)
    rwa [Option.or_none] at hat
  · intro hplain before c after htext
    by_cases hc : c = '@'
    · rw [hc] at htext ⊢
      apply (lexers_at_iff _ after).mpr
      rw [Option.or_none]
      exact hplain before after htext
    · rw [mentionParse_eq_none hc, mentionTokenAt_eq_none hc]

/-- The lexers agree on a text if and only if its names are plain and in lower case; up to case,
they agree if and only if its names are plain. -/
theorem mentionLexers_agree_iff (r : RuneClasses) (text : List Char) :
    (MentionLexersAgree r text ↔ NamesPlain r text ∧ NamesLower text) ∧
      (MentionLexersAgreeUpToCase r text ↔ NamesPlain r text) := by
  have hcase : (editorMentions text).map (Prod.map id (List.map r.toLower)) =
      rendererMentions r text := by
    rw [rendererMentions, parseMentionsFrom_eq_scan _ _ _ _ le_rfl, editorMentions_eq_scan]
  constructor
  · rw [MentionLexersAgree, server_eq_renderer_iff, editor_eq_renderer_iff]
  · rw [MentionLexersAgreeUpToCase, and_iff_left hcase, server_eq_renderer_iff]

/-- The runes of ASCII; no character belongs to a script. -/
def RuneClasses.asciiOnly : RuneClasses where
  isLetter := Char.isAlpha
  isNumber := Char.isDigit
  isSpace c := [' ', '\t', '\n', '\x0b', '\x0c', '\r'].contains c
  isPunct c := "!\"#%&'()*,-./:;?@[\\]_\x7b\x7d".toList.contains c
  isSymbol c := "$+<=>^`|~".toList.contains c
  toLower := Char.toLower
  ascii_letter _ _ := rfl
  ascii_number _ _ := rfl
  ascii_lower _ _ := rfl

/-- The server finds a name behind a hyphen, the others do not. -/
theorem mentionLexers_disagree : ¬MentionLexersAgree RuneClasses.asciiOnly ['-', '@', 'a'] :=
  fun h => absurd h.1 (by decide)

end Web
end MemosNote
