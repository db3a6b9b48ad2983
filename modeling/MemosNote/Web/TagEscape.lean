import MemosNote.Library.Pieces
import MemosNote.Web.TagGrammar

/-!
# Escaping tags

On serializing, the editor puts a backslash before every hash a capped run follows.  Both the
renderer and the editor's tokenizer read the text again.

Main results:

- Theorem {lit}`unescaped_escapeTagHashes_iff`: when the escaped text spells what the text does.
- Theorem {lit}`escapeTagHashes_sound_iff`: when, besides, no tag is read in it.
-/

namespace MemosNote
namespace Web

open Library

variable (u : UnicodeClass)

def escapeTagHashes : List Char → List Char
  | [] => []
  | c :: rest =>
      if c = '#' ∧ TagRun u rest then '\\' :: '#' :: escapeTagHashes rest
      else c :: escapeTagHashes rest

/-- The readers of a text. -/
inductive TagReader where
  | renderer
  | editor
deriving DecidableEq, Repr

def TagReader.read : TagReader → List Char → List Segment
  | renderer, source => parseSegments u source
  | editor, source => lexInline u source

/-- Each reader reads no tag in the escaped text, which spells what the text does. -/
def EscapeSound (text : List Char) : Prop :=
  ∀ reader : TagReader,
    Segment.tagsFrom 0 (reader.read u (escapeTagHashes u text)) = [] ∧
      (reader.read u (escapeTagHashes u text)).flatMap Segment.spelled =
        (reader.read u text).flatMap Segment.spelled

/-! ## When escaping is sound -/

/-- Whether a character after a text is escaped by it: a backslash that is not itself escaped
ends the text. -/
def escapedAfter (escaped : Bool) (before : List Char) : Bool :=
  before.foldl (fun escaped c => c == '\\' && !escaped) escaped

/-- No hash that would be a tag's is escaped already. -/
def HashesPlain (escaped : Bool) (text : List Char) : Prop :=
  ∀ before after, text = before ++ '#' :: after →
    TagRun u after → escapedAfter escaped before = false

/-- No tag starts with an escaped character: behind a hash at which the renderer looks for a tag,
an escaped tag character has too long a run. -/
def NoEscapedTag (escaped : Bool) (prev : Option Char) (text : List Char) : Prop :=
  ∀ before after, text = before ++ '#' :: after →
    escapedAfter escaped before = false → before.getLast?.or prev ≠ some '#' →
      ∀ c rest, after = '\\' :: c :: rest → isAsciiPunctuation c → isTagChar u c →
        maxTagLength ≤ (tagRun u (unescaped rest)).length

section Steps

variable {u}

theorem hashesPlain_cons {escaped : Bool} {c : Char} {rest : List Char} :
    HashesPlain u escaped (c :: rest) ↔
      (c = '#' → TagRun u rest → escaped = false) ∧
        HashesPlain u (c == '\\' && !escaped) rest :=
  Pieces.forall_split_cons

theorem noEscapedTag_cons {escaped : Bool} {prev : Option Char} {c : Char} {rest : List Char} :
    NoEscapedTag u escaped prev (c :: rest) ↔
      (c = '#' → escaped = false → prev ≠ some '#' →
        ∀ d after, rest = '\\' :: d :: after → isAsciiPunctuation d → isTagChar u d →
          maxTagLength ≤ (tagRun u (unescaped after)).length) ∧
        NoEscapedTag u (c == '\\' && !escaped) (some c) rest := by
  rw [NoEscapedTag, Pieces.forall_split_cons]
  simp only [Scan.getLast?_cons_or]
  rfl

/-- What stands before an escaped character does not matter. -/
theorem noEscapedTag_escaped (prev other : Option Char) (text : List Char) :
    NoEscapedTag u true prev text ↔ NoEscapedTag u true other text := by
  cases text with
  | nil =>
      have hnone (before after : List Char) : [] ≠ before ++ '#' :: after := by
        intro h
        exact absurd (List.append_eq_nil_iff.mp h.symm).2 (List.cons_ne_nil _ _)
      exact ⟨fun _ before after h => absurd h (hnone _ _),
        fun _ before after h => absurd h (hnone _ _)⟩
  | cons c rest =>
      rw [noEscapedTag_cons, noEscapedTag_cons]
      simp

end Steps

/-! ## One character at a time -/

/-- A text behind a backslash, if the text before ends with one. -/
def pending (escaped : Bool) (text : List Char) : List Char :=
  if escaped then '\\' :: text else text

/-- What a character adds to the unescaped text. -/
def emitted (escaped : Bool) (c : Char) : List (Char × Bool) :=
  if escaped then
    if isAsciiPunctuation c then [(c, true)] else [('\\', false), (c, false)]
  else if c = '\\' then [] else [(c, false)]

theorem unescapeBackslashes_pending (escaped : Bool) (c : Char) (rest : List Char) :
    unescapeBackslashes (pending escaped (c :: rest)) =
      emitted escaped c ++ unescapeBackslashes (pending (c == '\\' && !escaped) rest) := by
  cases escaped with
  | false =>
      by_cases hc : c = '\\'
      · rw [hc]
        rfl
      · have hnext : (c == '\\' && !false) = false := by simpa using hc
        rw [hnext, emitted, if_neg (by decide), if_neg hc]
        exact unescapeBackslashes_cons hc rest
  | true =>
      have hnext : (c == '\\' && !true) = false := Bool.and_false _
      rw [hnext]
      by_cases hc : isAsciiPunctuation c
      · rw [emitted, if_pos rfl, if_pos hc]
        exact unescapeBackslashes_escape hc rest
      · have hbackslash : c ≠ '\\' := by
          rintro rfl
          exact hc rfl
        rw [emitted, if_pos rfl, if_neg hc]
        have hnone : ¬(c :: rest).head?.any isAsciiPunctuation := hc
        exact (unescapeBackslashes_backslash hnone).trans
          (congrArg _ (unescapeBackslashes_cons hbackslash rest))

theorem unescaped_pending (escaped : Bool) (c : Char) (rest : List Char) :
    unescaped (pending escaped (c :: rest)) =
      (emitted escaped c).map Prod.fst ++ unescaped (pending (c == '\\' && !escaped) rest) := by
  rw [unescaped, unescapeBackslashes_pending, List.map_append]
  rfl

variable {u}

theorem escapeTagHashes_hash {rest : List Char} (h : TagRun u rest) :
    escapeTagHashes u ('#' :: rest) = '\\' :: '#' :: escapeTagHashes u rest := by
  rw [escapeTagHashes, if_pos ⟨rfl, h⟩]

theorem escapeTagHashes_cons {c : Char} {rest : List Char} (h : ¬(c = '#' ∧ TagRun u rest)) :
    escapeTagHashes u (c :: rest) = c :: escapeTagHashes u rest := by
  rw [escapeTagHashes, if_neg h]

/-! ## What is spelled -/

private theorem hashesPlain_nil (escaped : Bool) : HashesPlain u escaped [] := by
  intro before after h
  exact absurd (List.append_eq_nil_iff.mp h.symm).2 (List.cons_ne_nil _ _)

theorem unescaped_escape {c : Char} (h : isAsciiPunctuation c) (rest : List Char) :
    unescaped ('\\' :: c :: rest) = c :: unescaped rest := by
  rw [unescaped, unescapeBackslashes_escape h]
  rfl

/-- The escaped text spells the same if and only if every backslash that is added escapes. -/
theorem unescaped_pending_escapeTagHashes (escaped : Bool) (text : List Char) :
    unescaped (pending escaped (escapeTagHashes u text)) = unescaped (pending escaped text) ↔
      HashesPlain u escaped text := by
  induction text generalizing escaped with
  | nil => exact ⟨fun _ => hashesPlain_nil escaped, fun _ => rfl⟩
  | cons c rest ih =>
      rw [hashesPlain_cons]
      by_cases hhash : c = '#' ∧ TagRun u rest
      · rcases hhash with ⟨rfl, hrun⟩
        rw [escapeTagHashes_hash hrun]
        cases escaped with
        | false =>
            have hno : '\\' ∉ ['#'] := by decide
            have hplain : unescaped ('#' :: rest) = '#' :: unescaped rest :=
              unescaped_append hno rest
            have hrest := ih false
            simp only [pending, Bool.false_eq_true, if_false] at hrest ⊢
            rw [unescaped_escape rfl, hplain, List.cons_inj_right, hrest]
            exact ⟨fun h => ⟨fun _ _ => trivial, h⟩, And.right⟩
        | true =>
            simp only [pending, if_true]
            rw [unescaped_escape rfl, unescaped_escape rfl]
            constructor
            · intro h
              exact absurd (List.cons.inj h).1 (by decide)
            · rintro ⟨hplain, -⟩
              exact absurd (hplain trivial hrun) (by decide)
      · rw [escapeTagHashes_cons hhash, unescaped_pending, unescaped_pending,
          List.append_cancel_left_eq, ih]
        exact ⟨fun h => ⟨fun hc hrun => absurd ⟨hc, hrun⟩ hhash, h⟩, And.right⟩

/-! ## What is a tag -/

/-- An unescaped text has runs at least as long. -/
theorem length_tagRun_le_unescaped (text : List Char) :
    (tagRun u text).length ≤ (tagRun u (unescaped text)).length := by
  induction text with
  | nil => exact Nat.le_refl 0
  | cons c rest ih =>
      by_cases hc : isTagChar u c
      · have hbackslash : '\\' ∉ [c] := by
          intro hmem
          rw [← List.mem_singleton.mp hmem, isTagChar_backslash] at hc
          contradiction
        have hplain : unescaped (c :: rest) = c :: unescaped rest :=
          unescaped_append hbackslash rest
        rw [hplain, tagRun, tagRun, List.takeWhile_cons_of_pos hc, List.takeWhile_cons_of_pos hc]
        exact Nat.succ_le_succ ih
      · rw [tagRun, List.takeWhile_cons_of_neg hc]
        exact Nat.zero_le _

theorem tagRun_cons {c : Char} {rest : List Char} :
    TagRun u (c :: rest) ↔ isTagChar u c ∧ (tagRun u rest).length < maxTagLength := by
  by_cases hc : isTagChar u c
  · have hrun : tagRun u (c :: rest) = c :: tagRun u rest := List.takeWhile_cons_of_pos hc
    rw [TagRun, hrun, List.length_cons]
    exact ⟨fun h => ⟨hc, h.2⟩, fun h => ⟨Nat.succ_pos _, h.2⟩⟩
  · exact ⟨fun h => absurd h.head hc, fun h => absurd h.1 hc⟩

/-- Where no run follows, taking the escapes out leaves one only behind an escape. -/
theorem tagRun_unescaped_iff {rest : List Char} (h : ¬TagRun u rest) :
    ¬TagRun u (unescaped rest) ↔
      ∀ d after, rest = '\\' :: d :: after → isAsciiPunctuation d → isTagChar u d →
        maxTagLength ≤ (tagRun u (unescaped after)).length := by
  cases rest with
  | nil => exact ⟨fun _ d after hrest => absurd hrest (List.cons_ne_nil _ _).symm, fun _ => h⟩
  | cons c rest =>
      by_cases hc : c = '\\'
      · rw [hc]
        cases rest with
        | nil =>
            have hnone : ¬TagRun u (unescaped ['\\']) := hc ▸ h
            constructor
            · intro _ d after hrest
              exact absurd (List.cons.inj hrest).2 (List.cons_ne_nil _ _).symm
            · exact fun _ => hnone
        | cons d after =>
            by_cases hd : isAsciiPunctuation d
            · rw [unescaped_escape hd, tagRun_cons, not_and, Nat.not_lt]
              constructor
              · intro hlong e behind hrest _ he
                rcases hrest with ⟨⟩
                exact hlong he
              · exact fun hall => hall d after rfl hd
            · have hhead : ¬(d :: after).head?.any isAsciiPunctuation := hd
              have hnone : ¬TagRun u (unescaped ('\\' :: d :: after)) := by
                rw [unescaped, unescapeBackslashes_backslash hhead, List.map_cons, tagRun_cons,
                  isTagChar_backslash]
                exact fun hrun => absurd hrun.1 (by decide)
              constructor
              · intro _ e behind hrest he
                rcases hrest with ⟨⟩
                exact absurd he hd
              · exact fun _ => hnone
      · have hplain : unescaped (c :: rest) = c :: unescaped rest := by
          rw [unescaped, unescapeBackslashes_cons hc]
          rfl
        rw [hplain, tagRun_cons]
        rw [tagRun_cons] at h
        constructor
        · intro _ d after hrest
          exact absurd (List.cons.inj hrest).1 hc
        · rintro - ⟨htag, hshort⟩
          exact h ⟨htag, (length_tagRun_le_unescaped rest).trans_lt hshort⟩

/-! ## What the renderer marks -/

private theorem noEscapedTag_nil (escaped : Bool) (prev : Option Char) :
    NoEscapedTag u escaped prev [] := by
  intro before after h
  exact absurd (List.append_eq_nil_iff.mp h.symm).2 (List.cons_ne_nil _ _)

/-- Characters that are no bare hashes are passed over. -/
theorem scan_renderedAt_append {passed : List (Char × Bool)} (h : ('#', false) ∉ passed)
    (position : ℕ) (prev : Option (Char × Bool)) (rest : List (Char × Bool)) :
    Scan.scan (renderedAt u) position prev (passed ++ rest) =
      Scan.scan (renderedAt u) (position + passed.length) (passed.getLast?.or prev) rest :=
  Scan.scan_append (fun _ hx => renderedAt_of_ne u fun heq => h (heq ▸ hx)) position prev rest

private theorem renderedAt_eq_none_iff {prev : Option (Char × Bool)} {rest : List (Char × Bool)} :
    renderedAt u prev ('#', false) rest = none ↔
      (prev.map Prod.fst ≠ some '#' → ¬TagRun u (rest.map Prod.fst)) := by
  rw [renderedAt]
  split_ifs with hat
  · exact ⟨fun h => h.elim, fun h => absurd hat.2.2 (h hat.2.1)⟩
  · exact ⟨fun _ hprev hrun => hat ⟨rfl, hprev, hrun⟩, fun _ => rfl⟩

private theorem hash_notMem_emitted {escaped : Bool} {c : Char} (h : c = '#' → escaped = true) :
    ('#', false) ∉ emitted escaped c := by
  cases escaped with
  | false =>
      have hc : '#' ≠ c := fun hc => absurd (h hc.symm) (by decide)
      by_cases hbackslash : c = '\\' <;> simp [emitted, hc, hbackslash]
  | true =>
      by_cases hc : isAsciiPunctuation c
      · simp [emitted, hc]
      · have hhash : '#' ≠ c := by
          rintro rfl
          exact hc rfl
        simp [emitted, hc, hhash]

/-- What a character adds ends with it, or is still to come. -/
theorem getLast?_emitted (escaped : Bool) (c : Char) (h : (c == '\\' && !escaped) = false) :
    (emitted escaped c).getLast?.map Prod.fst = some c := by
  cases escaped with
  | false =>
      have hc : c ≠ '\\' := by simpa using h
      simp [emitted, hc]
  | true =>
      by_cases hc : isAsciiPunctuation c <;> simp [emitted, hc]

/-- In the escaped text, the renderer marks what an escaped character starts. -/
theorem scan_pending_escapeTagHashes (escaped : Bool) (text : List Char) (position : ℕ)
    (prev : Option (Char × Bool)) (hplain : HashesPlain u escaped text) :
    Scan.scan (renderedAt u) position prev
        (unescapeBackslashes (pending escaped (escapeTagHashes u text))) = [] ↔
      NoEscapedTag u escaped (prev.map Prod.fst) text := by
  induction text generalizing escaped position prev with
  | nil =>
      have hnone : Scan.scan (renderedAt u) position prev
          (unescapeBackslashes (pending escaped [])) = [] := by
        cases escaped <;> rfl
      exact ⟨fun _ => noEscapedTag_nil escaped _, fun _ => hnone⟩
  | cons c rest ih =>
      rcases hashesPlain_cons.mp hplain with ⟨hhead, hrest⟩
      rw [noEscapedTag_cons]
      by_cases hbare : c = '#' ∧ escaped = false
      · rcases hbare with ⟨rfl, rfl⟩
        have hrest : HashesPlain u false rest := hrest
        have hsame := (unescaped_pending_escapeTagHashes false rest).mpr hrest
        by_cases hrun : TagRun u rest
        · have hread : unescapeBackslashes (pending false (escapeTagHashes u ('#' :: rest))) =
              [('#', true)] ++ unescapeBackslashes (pending false (escapeTagHashes u rest)) := by
            rw [escapeTagHashes_hash hrun]
            exact unescapeBackslashes_escape rfl _
          have hnone (d : Char) (after : List Char) : rest ≠ '\\' :: d :: after := by
            rintro rfl
            have hhead := hrun.head
            rw [List.head?_cons, Option.any_some, isTagChar_backslash] at hhead
            contradiction
          rw [hread, scan_renderedAt_append (by decide), ih _ _ _ hrest]
          exact ⟨fun h => ⟨fun _ _ _ d after hd => absurd hd (hnone d after), h⟩, And.right⟩
        · have hread : unescapeBackslashes (pending false (escapeTagHashes u ('#' :: rest))) =
              ('#', false) :: unescapeBackslashes (pending false (escapeTagHashes u rest)) := by
            rw [escapeTagHashes_cons fun h => hrun h.2]
            exact unescapeBackslashes_cons (by decide) _
          have hmarked : renderedAt u prev ('#', false)
                (unescapeBackslashes (pending false (escapeTagHashes u rest))) = none ↔
              (prev.map Prod.fst ≠ some '#' → ¬TagRun u (unescaped rest)) := by
            rw [renderedAt_eq_none_iff, ← unescaped, hsame]
            rfl
          rw [hread, Scan.scan, List.append_eq_nil_iff, ih _ _ _ hrest, Option.toList_eq_nil_iff,
            Option.map_eq_none_iff, hmarked, tagRun_unescaped_iff hrun]
          exact and_congr_left' ⟨fun h _ _ => h, fun h => h rfl rfl⟩
      · have hhash : ¬(c = '#' ∧ TagRun u rest) :=
          fun h => hbare ⟨h.1, hhead h.1 h.2⟩
        have hemitted : ('#', false) ∉ emitted escaped c := by
          apply hash_notMem_emitted
          intro hc
          exact eq_true_of_ne_false fun hfalse => hbare ⟨hc, hfalse⟩
        have hprev : NoEscapedTag u (c == '\\' && !escaped)
              (((emitted escaped c).getLast?.or prev).map Prod.fst) rest ↔
            NoEscapedTag u (c == '\\' && !escaped) (some c) rest := by
          cases hnext : c == '\\' && !escaped with
          | true => exact noEscapedTag_escaped _ _ rest
          | false =>
              have hlast := getLast?_emitted escaped c hnext
              rcases Option.map_eq_some_iff.mp hlast with ⟨x, hx, rfl⟩
              rw [hx]
              rfl
        rw [escapeTagHashes_cons hhash, unescapeBackslashes_pending,
          scan_renderedAt_append hemitted, ih _ _ _ hrest, hprev]
        exact ⟨fun h => ⟨fun hc hfalse => absurd ⟨hc, hfalse⟩ hbare, h⟩, And.right⟩

/-! ## What the editor marks -/

/-- Escaping keeps the runs. -/
theorem tagRun_escapeTagHashes (text : List Char) :
    tagRun u (escapeTagHashes u text) = tagRun u text := by
  induction text with
  | nil => rfl
  | cons c rest ih =>
      by_cases hhash : c = '#' ∧ TagRun u rest
      · rcases hhash with ⟨rfl, hrun⟩
        have hhash : ¬isTagChar u '#' := fun h => absurd (isTagChar_hash u ▸ h) (by decide)
        have hbackslash : ¬isTagChar u '\\' :=
          fun h => absurd (isTagChar_backslash u ▸ h) (by decide)
        rw [escapeTagHashes_hash hrun, tagRun, tagRun, List.takeWhile_cons_of_neg hbackslash,
          List.takeWhile_cons_of_neg hhash]
      · rw [escapeTagHashes_cons hhash, tagRun, tagRun, List.takeWhile_cons, List.takeWhile_cons]
        rw [tagRun, tagRun] at ih
        rw [ih]

theorem lexInlineFrom_escape (fuel : ℕ) {c : Char} (h : isAsciiPunctuation c)
    (rest : List Char) :
    lexInlineFrom u (fuel + 1) ('\\' :: c :: rest) = .text [c] :: lexInlineFrom u fuel rest := by
  rw [lexInlineFrom, if_neg fun hat => absurd hat.1 (by decide), if_pos ⟨rfl, h⟩]
  rfl

theorem lexInlineFrom_plain (fuel : ℕ) {c : Char} {rest : List Char}
    (hhash : ¬(c = '#' ∧ TagRun u rest))
    (hbackslash : ¬(c = '\\' ∧ rest.head?.any isAsciiPunctuation)) :
    lexInlineFrom u (fuel + 1) (c :: rest) = .text [c] :: lexInlineFrom u fuel rest := by
  rw [lexInlineFrom, if_neg fun hat => hhash ⟨hat.1, hat.2.1⟩, if_neg hbackslash]

/-- The editor marks nothing in the escaped text if every backslash that is added escapes. -/
theorem tagsFrom_pending_escapeTagHashes (escaped : Bool) (text : List Char)
    (h : HashesPlain u escaped text) (fuel position : ℕ) :
    Segment.tagsFrom position (lexInlineFrom u fuel (pending escaped (escapeTagHashes u text))) =
      [] := by
  induction text generalizing escaped fuel position with
  | nil =>
      cases escaped with
      | false => cases fuel <;> rfl
      | true =>
          have hhash : ¬('\\' = '#' ∧ TagRun u []) := fun hat => absurd hat.1 (by decide)
          have hnone : ¬('\\' = '\\' ∧ ([] : List Char).head?.any isAsciiPunctuation) :=
            fun hat => absurd hat.2 (by decide)
          cases fuel with
          | zero => rfl
          | succ fuel =>
              rw [escapeTagHashes, pending, if_pos rfl, lexInlineFrom_plain fuel hhash hnone]
              cases fuel <;> rfl
  | cons c rest ih =>
      rcases hashesPlain_cons.mp h with ⟨hhead, hrest⟩
      cases fuel with
      | zero => rfl
      | succ fuel =>
          by_cases hhash : c = '#' ∧ TagRun u rest
          · rcases hhash with ⟨rfl, hrun⟩
            rcases hhead rfl hrun with rfl
            rw [escapeTagHashes_hash hrun, pending, if_neg (by decide),
              lexInlineFrom_escape fuel rfl]
            exact ih false hrest fuel _
          · have hcons := escapeTagHashes_cons hhash
            have hrun : ¬(c = '#' ∧ TagRun u (escapeTagHashes u rest)) := by
              rw [TagRun, tagRun_escapeTagHashes]
              exact hhash
            rw [hcons]
            cases escaped with
            | false =>
                by_cases hc : c = '\\'
                · rw [hc] at hrest ⊢
                  exact ih true hrest (fuel + 1) position
                · have hnext : (c == '\\' && !false) = false := by simpa using hc
                  rw [pending, if_neg (by decide), lexInlineFrom_plain fuel hrun fun h => hc h.1]
                  exact ih false (hnext ▸ hrest) fuel _
            | true =>
                rw [Bool.not_true, Bool.and_false] at hrest
                rw [pending, if_pos rfl]
                by_cases hc : isAsciiPunctuation c
                · rw [lexInlineFrom_escape fuel hc]
                  exact ih false hrest fuel _
                · -- a backslash before any other character is one
                  have hbackslash : ¬(c = '\\' ∧
                      (escapeTagHashes u rest).head?.any isAsciiPunctuation) := by
                    rintro ⟨rfl, -⟩
                    exact hc rfl
                  have hhash : ¬('\\' = '#' ∧ TagRun u (c :: escapeTagHashes u rest)) :=
                    fun h => absurd h.1 (by decide)
                  have hnone : ¬('\\' = '\\' ∧
                      (c :: escapeTagHashes u rest).head?.any isAsciiPunctuation) :=
                    fun h => hc h.2
                  rw [lexInlineFrom_plain fuel hhash hnone]
                  cases fuel with
                  | zero => rfl
                  | succ fuel =>
                      rw [lexInlineFrom_plain fuel hrun hbackslash]
                      exact ih false hrest fuel _

/-! ## Soundness -/

/-- Escaping is sound if and only if no hash that would be a tag's is escaped already and no
escaped character starts a tag. -/
theorem escapeTagHashes_sound_iff (u : UnicodeClass) (text : List Char) :
    EscapeSound u text ↔ HashesPlain u false text ∧ NoEscapedTag u false none text := by
  have hspelled := unescaped_pending_escapeTagHashes (u := u) false text
  have hrenderer (h : HashesPlain u false text) :
      Segment.tagsFrom 0 (TagReader.renderer.read u (escapeTagHashes u text)) = [] ↔
        NoEscapedTag u false none text := by
    rw [TagReader.read, tagsFrom_parseSegments]
    exact scan_pending_escapeTagHashes false text 0 none h
  constructor
  · intro h
    have hplain : HashesPlain u false text := by
      have hrendered := (h .renderer).2
      rw [TagReader.read, TagReader.read, spelled_parseSegments, spelled_parseSegments]
        at hrendered
      exact hspelled.mp hrendered
    exact ⟨hplain, (hrenderer hplain).mp (h .renderer).1⟩
  · rintro ⟨hplain, htags⟩ reader
    cases reader with
    | renderer =>
        constructor
        · exact (hrenderer hplain).mpr htags
        · rw [TagReader.read, TagReader.read, spelled_parseSegments, spelled_parseSegments]
          exact hspelled.mpr hplain
    | editor =>
        constructor
        · exact tagsFrom_pending_escapeTagHashes false text hplain _ 0
        · rw [TagReader.read, TagReader.read, spelled_lexInline, spelled_lexInline]
          exact hspelled.mpr hplain

/-- A hash that the text escapes itself ends up behind an escaped backslash. -/
theorem escapeTagHashes_unsound : ¬EscapeSound UnicodeClass.asciiOnly ['\\', '#', 'a'] :=
  fun h => absurd (h .editor).1 (by decide)

end Web
end MemosNote
