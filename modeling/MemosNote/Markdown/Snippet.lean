import MemosNote.Filter.Engine
import MemosNote.Library.TreeWalk
import MemosNote.Library.Pieces
import MemosNote.Library.Utf8Boundaries

/-!
# Snippets of memos

A walk over the parsed content collects its plain text, and stops when it has collected more than
twice as many bytes as the snippet may have characters.  What was collected is cut at a word.

Main results:

- Theorem {lit}`collect_spec`: what a walk collects that stops.
- Theorem {lit}`truncateAtWord_encode`: where a text is cut.
- Theorem {lit}`GenerateSnippet_spec`: what a snippet is.
- Theorem {lit}`long_word_is_cut`: a word that is longer than the snippet.
-/

namespace MemosNote
namespace Markdown

open Library
open Library.Utf8
open Library.TreeWalk
open MemosNote.Filter (isSpace)

/-! ## The plain text of a content -/

/-- The nodes of parsed content.  Paragraphs, headings, list items and the parts of tables are
blocks. -/
inductive Node where
  | codeBlock
  | block
  | text (segment : List Char) (softLineBreak : Bool)
  | autoLink (url : List Char)
  | tag (tag : List Char)
  | other
deriving DecidableEq, Repr

/-- The text so far, and whether it ended with a block. -/
structure Collected where
  buf : List Char := []
  lastNodeWasBlock : Bool := false
deriving DecidableEq, Repr

/-- What follows the text of a node. -/
def goOn (tooLong : List Char → Bool) (buf : List Char) : Collected × Status :=
  (⟨buf, false⟩, if tooLong buf then .stop else .goOn)

/-- What is collected when a node is entered. -/
def enterNode (tooLong : List Char → Bool) (s : Collected) : Node → Collected × Status
  | .codeBlock => (s, .skipChildren)
  | .block =>
      goOn tooLong (if s.buf ≠ [] ∧ s.lastNodeWasBlock then s.buf ++ [' '] else s.buf)
  | .text segment softLineBreak =>
      goOn tooLong (s.buf ++ segment ++ if softLineBreak then [' '] else [])
  | .autoLink url => (⟨s.buf ++ url, false⟩, .skipChildren)
  | .tag tag => goOn tooLong (s.buf ++ '#' :: tag)
  | .other => goOn tooLong s.buf

/-- A block was left. -/
def leaveNode (s : Collected) : Node → Collected
  | .block => { s with lastNodeWasBlock := true }
  | _ => s

/-- The visitor of the walk. -/
def collector (tooLong : List Char → Bool) : Visitor Node Collected where
  enter := enterNode tooLong
  leave := leaveNode

/-- What the walk collects before it stops.  The code doubles the length in an int, which wraps for
none of the lengths it is called with (the server asks for 64 characters). -/
def collect (root : NodeTree Node) (maxLength : ℕ) : List Char :=
  (walk (collector fun buf => decide (maxLength * 2 < (encode buf).length)) root {}).1.buf

/-- What the whole walk collects. -/
def plainText (root : NodeTree Node) : List Char :=
  (walk (collector fun _ => false) root {}).1.buf

/-! ## The snippet -/

/-- What stands in the place of the rest. -/
def dots : List Char :=
  [' ', '.', '.', '.']

/-- A space, a tab or a line break. -/
def isBreak (b : UInt8) : Bool :=
  b == 0x20 || b == 0x09 || b == 0x0a || b == 0x0d

/-- The last space. -/
def lastBreak : List UInt8 → Option ℕ
  | [] => none
  | b :: rest =>
      match lastBreak rest with
      | some i => some (i + 1)
      | none => if isBreak b then some 0 else none

/-- A text cut at a word, with dots behind it. -/
def truncateAtWord (s : List UInt8) (maxLength : ℕ) : List UInt8 :=
  let runes := decode s
  if runes.length ≤ maxLength then s
  else
    let truncated := encode (runes.take maxLength)
    (match lastBreak truncated with
      | some lastSpace => if 0 < lastSpace then truncated.take lastSpace else truncated
      | none => truncated) ++ encode dots

/-- A valid text without outer white space. -/
def TrimSpace (s : List UInt8) : List UInt8 :=
  encode (trim isSpace (decode s))

/-- The snippet of a document. -/
def GenerateSnippet (root : NodeTree Node) (maxLength : ℕ) : List UInt8 :=
  let snippet := encode (collect root maxLength)
  TrimSpace (if maxLength < snippet.length then truncateAtWord snippet maxLength else snippet)

/-! ## What is collected -/

instance : Preorder Collected where
  le s t := s.buf <+: t.buf
  le_refl s := List.prefix_refl s.buf
  le_trans _ _ _ h h' := h.trans h'

private theorem grows_collector (tooLong : List Char → Bool) : Grows (collector tooLong) where
  enter s node := by
    change s.buf <+: (enterNode tooLong s node).1.buf
    cases node with
    | codeBlock => exact List.prefix_refl _
    | block =>
        rw [enterNode, goOn]
        dsimp only
        split
        · exact List.prefix_append _ _
        · exact List.prefix_refl _
    | text segment softLineBreak =>
        rw [enterNode, goOn, List.append_assoc]
        exact List.prefix_append _ _
    | autoLink url => exact List.prefix_append _ _
    | tag tag => exact List.prefix_append _ _
    | other => exact List.prefix_refl _
  leave s node := by
    change s.buf <+: (leaveNode s node).buf
    cases node <;> exact List.prefix_refl _

theorem goOn_or_stop (tooLong : List Char → Bool) (buf : List Char) :
    goOn tooLong buf = goOn (fun _ => false) buf ∨
      goOn tooLong buf = ((goOn (fun _ => false) buf).1, .stop) ∧ tooLong buf = true := by
  rw [goOn]
  by_cases h : tooLong buf = true
  · rw [if_pos h]
    exact Or.inr ⟨rfl, h⟩
  · rw [if_neg h]
    exact Or.inl rfl

private theorem stopping_collector (tooLong : List Char → Bool) :
    Stopping (collector fun _ => false) (collector tooLong) fun s => tooLong s.buf = true where
  enter s node := by
    cases node with
    | codeBlock => exact Or.inl rfl
    | autoLink url => exact Or.inl rfl
    | block => exact goOn_or_stop tooLong _
    | text segment softLineBreak => exact goOn_or_stop tooLong _
    | tag tag => exact goOn_or_stop tooLong _
    | other => exact goOn_or_stop tooLong _
  leave s node := rfl
  goesOn s node := by
    cases node <;> exact fun h => Status.noConfusion h

/-- The walk collects the plain text, or a beginning of it that is too long. -/
theorem collect_spec (root : NodeTree Node) (maxLength : ℕ) :
    collect root maxLength = plainText root ∨
      collect root maxLength <+: plainText root ∧
        maxLength * 2 < (encode (collect root maxLength)).length := by
  have hcompares := walk_stopping
    (stopping_collector fun buf => decide (maxLength * 2 < (encode buf).length))
    (grows_collector _) root {}
  cases hstopped : (walk (collector fun buf => decide (maxLength * 2 < (encode buf).length)) root
      {}).2 with
  | false => exact Or.inl (congrArg Collected.buf (hcompares.same hstopped))
  | true =>
      rcases hcompares.stopped hstopped with ⟨hlong, hbegins⟩
      exact Or.inr ⟨hbegins, of_decide_eq_true hlong⟩

/-! ## Where a text is cut -/

/-- The character is a space, a tab or a line break. -/
def IsBreakChar (c : Char) : Prop :=
  c = ' ' ∨ c = '\t' ∨ c = '\n' ∨ c = '\r'

instance : DecidablePred IsBreakChar :=
  fun c => inferInstanceAs (Decidable (c = ' ' ∨ c = '\t' ∨ c = '\n' ∨ c = '\r'))

/-- A text is cut in front of its last break, unless that is its first character, or not at all. -/
def CutAtWord (text front : List Char) : Prop :=
  (∃ c rest, text = front ++ c :: rest ∧ front ≠ [] ∧ IsBreakChar c ∧
      ∀ d ∈ rest, ¬IsBreakChar d) ∨
    front = text ∧ ∀ d ∈ text.tail, ¬IsBreakChar d

theorem isBreak_iff {c : Char} {b : UInt8} (h : c.toNat = b.toNat) :
    isBreak b = true ↔ IsBreakChar c := by
  have hchar (d : Char) : c = d ↔ b.toNat = d.toNat := by
    rw [← h]
    exact ⟨congrArg Char.toNat, fun hsame => Char.toNat_inj.mp hsame⟩
  have hbyte (n : UInt8) : (b == n) = true ↔ b.toNat = n.toNat := by
    rw [beq_iff_eq]
    exact UInt8.toNat_inj.symm
  simp only [isBreak, IsBreakChar, Bool.or_eq_true, hchar, hbyte]
  exact Iff.intro (fun h => by tauto) (fun h => by tauto)

private theorem lt_of_isBreak {b : UInt8} (h : isBreak b = true) : b.toNat < 0x80 := by
  simp only [isBreak, Bool.or_eq_true, beq_iff_eq] at h
  rcases h with ((rfl | rfl) | rfl) | rfl <;> decide

/-- A break in a text is one of its bytes. -/
theorem exists_isBreak {text : List Char} {c : Char} (hc : c ∈ text) (hbreak : IsBreakChar c) :
    ∃ b ∈ encode text, isBreak b = true := by
  have hsmall : c.toNat < 0x80 := by
    rcases hbreak with rfl | rfl | rfl | rfl <;> decide
  refine ⟨UInt8.ofNat c.toNat, ?_, ?_⟩
  · rw [encode, List.mem_flatMap]
    refine ⟨c, hc, ?_⟩
    rw [encodeChar_of_lt hsmall]
    exact List.mem_singleton_self _
  · rw [isBreak_iff (Decoder.toNat_ofNat (by omega)).symm]
    exact hbreak

private theorem lastBreak_spec (bytes : List UInt8) :
    match lastBreak bytes with
    | none => ∀ b ∈ bytes, ¬isBreak b = true
    | some i => ∃ front b back, bytes = front ++ b :: back ∧ front.length = i ∧ isBreak b = true ∧
        ∀ x ∈ back, ¬isBreak x = true := by
  induction bytes with
  | nil => exact fun b hb => absurd hb List.not_mem_nil
  | cons b rest ih =>
      rw [lastBreak]
      cases hlast : lastBreak rest with
      | some i =>
          rw [hlast] at ih
          rcases ih with ⟨front, c, back, rfl, rfl, hc, hback⟩
          exact ⟨b :: front, c, back, rfl, rfl, hc, hback⟩
      | none =>
          rw [hlast] at ih
          dsimp only
          split_ifs with hb
          · exact ⟨[], b, rest, rfl, rfl, hb, ih⟩
          · intro x hx
            rcases List.mem_cons.mp hx with rfl | hx
            · exact hb
            · exact ih x hx

/-- The last break of an encoded text is the last break of the text. -/
theorem encode_at_break {text : List Char} {front back : List UInt8} {b : UInt8}
    (h : encode text = front ++ b :: back) (hb : isBreak b = true)
    (hback : ∀ x ∈ back, ¬isBreak x = true) :
    ∃ s c rest, text = s ++ c :: rest ∧ front = encode s ∧ IsBreakChar c ∧
      ∀ d ∈ rest, ¬IsBreakChar d := by
  have hsmall := lt_of_isBreak hb
  have hstarts : Starts (b :: back) := by
    intro byte hbyte
    rcases Option.some.inj hbyte with rfl
    exact fun hcontinues => absurd hcontinues.1 (by omega)
  rcases encode_cut h hstarts with ⟨s, t, rfl, hs, ht⟩
  cases t with
  | nil => cases ht
  | cons c rest =>
      rcases encodeChar_eq c with ⟨byte, tail, hchar, -, -⟩
      rw [encode_cons, hchar, List.cons_append, List.cons.injEq] at ht
      rcases ht with ⟨rfl, htail⟩
      rcases toNat_of_encodeChar hchar hsmall with ⟨hvalue, rfl⟩
      refine ⟨s, c, rest, rfl, hs, (isBreak_iff hvalue).mp hb, fun d hd hbreak => ?_⟩
      rcases exists_isBreak hd hbreak with ⟨x, hx, hxbreak⟩
      rw [← List.nil_append (encode rest), ← htail] at hx
      exact hback x hx hxbreak

/-- A text that is too long is cut at a word. -/
theorem truncateAtWord_encode {text : List Char} {maxLength : ℕ} (h : maxLength < text.length) :
    ∃ front, truncateAtWord (encode text) maxLength = encode (front ++ dots) ∧
      front <+: text.take maxLength ∧ CutAtWord (text.take maxLength) front := by
  rw [truncateAtWord, decode_encode, if_neg (not_le.mpr h)]
  generalize text.take maxLength = truncated
  dsimp only
  have hspec := lastBreak_spec (encode truncated)
  cases hlast : lastBreak (encode truncated) with
  | none =>
      rw [hlast] at hspec
      refine ⟨truncated, (encode_append _ _).symm, List.prefix_refl _, Or.inr ⟨rfl, ?_⟩⟩
      intro d hd hbreak
      rcases exists_isBreak (List.mem_of_mem_tail hd) hbreak with ⟨b, hb, hbbreak⟩
      exact hspec b hb hbbreak
  | some i =>
      rw [hlast] at hspec
      rcases hspec with ⟨bytes, b, back, hbytes, hlength, hb, hback⟩
      rcases encode_at_break hbytes hb hback with ⟨s, c, rest, rfl, rfl, hc, hrest⟩
      dsimp only
      by_cases hpos : 0 < i
      · refine ⟨s, ?_, List.prefix_append _ _, Or.inl ⟨c, rest, rfl, ?_, hc, hrest⟩⟩
        · rw [if_pos hpos, hbytes, ← hlength, List.take_left, encode_append]
        · rintro rfl
          rw [← hlength] at hpos
          exact absurd hpos (Nat.not_lt_zero 0)
      · have hempty : s = [] := by
          have hs := length_le_encode s
          apply List.eq_nil_of_length_eq_zero
          omega
        rw [if_neg hpos, ← encode_append]
        refine ⟨s ++ c :: rest, rfl, List.prefix_refl _, Or.inr ⟨rfl, ?_⟩⟩
        rw [hempty]
        exact hrest

/-! ## What a snippet is -/

theorem trimSpace_encode (text : List Char) :
    TrimSpace (encode text) = encode (trim isSpace text) := by
  rw [TrimSpace, decode_encode]

/-- The dots stay behind a text that is not blank. -/
theorem trim_append_dots {front : List Char} (h : ∃ c ∈ front, isSpace c = false) :
    trim isSpace (front ++ dots) = front.dropWhile isSpace ++ dots := by
  rcases h with ⟨c, hc, hvisible⟩
  have hdrop : (front ++ dots).dropWhile isSpace = front.dropWhile isSpace ++ dots := by
    rw [List.dropWhile_append, if_neg]
    intro hempty
    have hall := List.dropWhile_eq_nil_iff.mp (List.isEmpty_iff.mp hempty) c hc
    rw [hvisible] at hall
    cases hall
  have hlast : front.dropWhile isSpace ++ dots =
      (front.dropWhile isSpace ++ [' ', '.', '.']) ++ ['.'] := by
    rw [List.append_assoc]
    rfl
  rw [trim, hdrop, hlast, List.rdropWhile_concat_neg _ _ _ (by decide)]

private theorem length_le_of_truncated {text front : List Char} {maxLength : ℕ}
    (h : front <+: text.take maxLength) : front.length ≤ maxLength :=
  h.length_le.trans (List.length_take_le maxLength text)

/-- What was collected is left as it is, or cut at a word if it has too many characters. -/
theorem GenerateSnippet_eq (root : NodeTree Node) (maxLength : ℕ) :
    (collect root maxLength).length ≤ maxLength ∧
        GenerateSnippet root maxLength = encode (trim isSpace (collect root maxLength)) ∨
      maxLength < (collect root maxLength).length ∧ ∃ front,
        GenerateSnippet root maxLength = encode (trim isSpace (front ++ dots)) ∧
        front <+: (collect root maxLength).take maxLength ∧
        CutAtWord ((collect root maxLength).take maxLength) front := by
  by_cases hlong : maxLength < (collect root maxLength).length
  · rcases truncateAtWord_encode hlong with ⟨front, htruncated, hbegins, hcut⟩
    refine Or.inr ⟨hlong, front, ?_, hbegins, hcut⟩
    have hbytes := hlong.trans_le (length_le_encode (collect root maxLength))
    rw [GenerateSnippet, if_pos hbytes, htruncated, trimSpace_encode]
  · refine Or.inl ⟨not_lt.mp hlong, ?_⟩
    rw [GenerateSnippet]
    split
    · rw [truncateAtWord, decode_encode, if_pos (not_lt.mp hlong), trimSpace_encode]
    · rw [trimSpace_encode]

private theorem collect_prefix (root : NodeTree Node) (maxLength : ℕ) :
    collect root maxLength <+: plainText root := by
  rcases collect_spec root maxLength with hall | ⟨hbegins, -⟩
  · exact hall ▸ List.prefix_refl _
  · exact hbegins

/-- For every content, a snippet is a beginning of the plain text, perhaps with dots behind it,
without outer white space.  It is all of the plain text if that is collected and not too long, and
it is cut at a word, with dots behind it, if too many characters are collected. -/
theorem GenerateSnippet_spec (root : NodeTree Node) (maxLength : ℕ) :
    ∃ front ending, front <+: plainText root ∧ front.length ≤ maxLength ∧
      (ending = [] ∨ ending = dots) ∧
      GenerateSnippet root maxLength = encode (trim isSpace (front ++ ending)) ∧
      (collect root maxLength = plainText root → (plainText root).length ≤ maxLength →
        front = plainText root ∧ ending = []) ∧
      (maxLength < (collect root maxLength).length →
        ending = dots ∧ CutAtWord ((plainText root).take maxLength) front ∧
          ((∃ c ∈ front, isSpace c = false) →
            encode dots <:+ GenerateSnippet root maxLength)) := by
  have hcollected := collect_prefix root maxLength
  rcases GenerateSnippet_eq root maxLength with
    ⟨hshort, hsnippet⟩ | ⟨hlong, front, hsnippet, hbegins, hcut⟩
  · refine ⟨collect root maxLength, [], hcollected, hshort, Or.inl rfl, ?_, ?_, ?_⟩
    · rw [List.append_nil, hsnippet]
    · exact fun hall _ => ⟨hall, rfl⟩
    · exact fun hlong => absurd hshort (not_le.mpr hlong)
  · have htake : (collect root maxLength).take maxLength = (plainText root).take maxLength := by
      rcases hcollected with ⟨more, hmore⟩
      rw [← hmore, List.take_append_of_le_length hlong.le]
    rw [htake] at hbegins hcut
    refine ⟨front, dots, hbegins.trans (List.take_prefix _ _), length_le_of_truncated hbegins,
      Or.inr rfl, hsnippet, ?_, fun _ => ⟨rfl, hcut, fun hvisible => ?_⟩⟩
    · intro hall hshort
      rw [hall] at hlong
      exact absurd hshort (not_le.mpr hlong)
    · rw [hsnippet, trim_append_dots hvisible, encode_append]
      exact List.suffix_append _ _

/-! ## A word that is longer than the snippet -/

/-- The beginning of a text ends at a word. -/
def AtWordBoundary (text front : List Char) : Prop :=
  front = [] ∨ front = text ∨ ∃ c rest, text = front ++ c :: rest ∧ isSpace c = true

/-- A document of one long word. -/
def longWord : NodeTree Node :=
  .node .block [.node (.text "supercalifragilisticexpialidocious".toList false) []]

/-- A word that is longer than the snippet is cut within the word. -/
theorem long_word_is_cut :
    ¬∀ (root : NodeTree Node) (maxLength : ℕ), 0 < maxLength →
      ∃ front ending, front <+: plainText root ∧ AtWordBoundary (plainText root) front ∧
        front.length ≤ maxLength ∧ (ending = [] ∨ ending = dots) ∧
        GenerateSnippet root maxLength = encode (trim isSpace (front ++ ending)) ∧
        (trim isSpace front ≠ trim isSpace (plainText root) →
          encode dots <:+ GenerateSnippet root maxLength) := by
  intro h
  have hsnippet : GenerateSnippet longWord 10 = encode "supercalif ...".toList := by
    decide +kernel
  rcases h longWord 10 (by decide) with ⟨front, ending, -, hboundary, hlength, hending, hsame, -⟩
  rcases hboundary with rfl | rfl | ⟨c, rest, hsplit, hspace⟩
  · rw [hsnippet] at hsame
    rcases hending with rfl | rfl
    · exact absurd hsame (by decide +kernel)
    · exact absurd hsame (by decide +kernel)
  · exact absurd hlength (by decide +kernel)
  · have hnone : ((plainText longWord).all fun c => !isSpace c) = true := by decide +kernel
    rw [hsplit, List.all_append, List.all_cons, hspace] at hnone
    simp at hnone

end Markdown
end MemosNote
