import Mathlib.Data.List.Basic
import Mathlib.Data.Nat.Notation

/-!
# Bind placeholders in statement text

A database driver finds the bind placeholders of a statement by scanning its
text outside string literals.  Two styles occur: the anonymous {lit}`?` and the
numbered {lit}`$n`.  This module gives the scanner and a calculus of pieces: a
text assembled from neutral pieces and placeholders scans to exactly the
placeholders it was assembled from.

Main results:

- Theorem {lit}`scan_pieces`: a clean piece list scans to its slots, in order.
- Theorems {lit}`Safe.text`, {lit}`Safe.slot` and {lit}`Safe.append_text`: how piece
  lists that stay clean in every context are put together.
- Theorem {lit}`Safe.fill`: a safe template stays safe when its holes are filled.
- Theorem {lit}`Neutral.append`: neutral texts compose.
-/

namespace MemosNote
namespace Library

/-- The two placeholder styles. -/
inductive Style where
  | question
  | dollar
deriving DecidableEq, Repr

/-- A placeholder found by the scanner: anonymous, or with its number. -/
abbrev Mark := Option ℕ

/-- Where the scanner stands: in code, inside a string literal, or inside the
number of a placeholder. -/
inductive ScanState where
  | code
  | literal
  | number (n : ℕ)
deriving DecidableEq, Repr

/-- One character read in code. -/
def scanCode (style : Style) (c : Char) : ScanState × List Mark :=
  if c = '\'' then (.literal, [])
  else match style with
    | .question => if c = '?' then (.code, [none]) else (.code, [])
    | .dollar => if c = '$' then (.number 0, []) else (.code, [])

/-- One character. -/
def scanChar (style : Style) : ScanState → Char → ScanState × List Mark
  | .code, c => scanCode style c
  | .literal, c => if c = '\'' then (.code, []) else (.literal, [])
  | .number n, c =>
      if c.isDigit then (.number (10 * n + (c.toNat - '0'.toNat)), [])
      else ((scanCode style c).1, some n :: (scanCode style c).2)

/-- The scanner over a whole text, with the marks found on the way. -/
def scanRun (style : Style) : ScanState → List Char → ScanState × List Mark
  | s, [] => (s, [])
  | s, c :: cs =>
      let step := scanChar style s c
      let rest := scanRun style step.1 cs
      (rest.1, step.2 ++ rest.2)

/-- A number still open at the end of the text is a placeholder too. -/
def ScanState.flush : ScanState → List Mark
  | .number n => [some n]
  | _ => []

/-- The placeholders of a statement text, from left to right. -/
def scan (style : Style) (text : String) : List Mark :=
  (scanRun style .code text.toList).2 ++ (scanRun style .code text.toList).1.flush

/-- A scan of two texts is one after the other. -/
theorem scanRun_append (style : Style) (s : ScanState) (cs ds : List Char) :
    scanRun style s (cs ++ ds) =
      ((scanRun style (scanRun style s cs).1 ds).1,
        (scanRun style s cs).2 ++ (scanRun style (scanRun style s cs).1 ds).2) := by
  induction cs generalizing s with
  | nil => simp [scanRun]
  | cons c cs ih => simp [scanRun, ih, List.append_assoc]

/-! ## Neutral text -/

/-- Text that leaves the scanner in code and contains no placeholder. -/
def Neutral (style : Style) (text : String) : Prop :=
  scanRun style .code text.toList = (.code, [])

instance (style : Style) (text : String) : Decidable (Neutral style text) :=
  inferInstanceAs (Decidable (_ = _))

/-- Two neutral texts are neutral together. -/
theorem Neutral.append {style : Style} {s t : String} (hs : Neutral style s)
    (ht : Neutral style t) : Neutral style (s ++ t) := by
  unfold Neutral at *
  rw [String.toList_append, scanRun_append, hs, ht]
  rfl

/-- Neutral text put around neutral text. -/
theorem Neutral.wrap {style : Style} {s : String} (hs : Neutral style s) {before after : String}
    (hbefore : Neutral style before) (hafter : Neutral style after) :
    Neutral style (before ++ s ++ after) :=
  (hbefore.append hs).append hafter

/-- Text without quotes and without the characters that start a placeholder. -/
def Plain (text : String) : Prop :=
  ∀ c ∈ text.toList, c ≠ '\'' ∧ c ≠ '?' ∧ c ≠ '$'

instance (text : String) : Decidable (Plain text) :=
  List.decidableBAll _ text.toList

private theorem scanRun_plain (style : Style) {cs : List Char}
    (h : ∀ c ∈ cs, c ≠ '\'' ∧ c ≠ '?' ∧ c ≠ '$') : scanRun style .code cs = (.code, []) := by
  induction cs with
  | nil => rfl
  | cons c cs ih =>
      obtain ⟨hquote, hquestion, hdollar⟩ := h c (by simp)
      have hrest := ih fun d hd => h d (by simp [hd])
      cases style <;> simp [scanRun, scanChar, scanCode, hquote, hquestion, hdollar, hrest]

/-- Plain text is neutral in both styles. -/
theorem Plain.neutral {text : String} (h : Plain text) (style : Style) : Neutral style text :=
  scanRun_plain style h

/-- Text without quotes. -/
def Quoteless (text : String) : Prop :=
  ∀ c ∈ text.toList, c ≠ '\''

instance (text : String) : Decidable (Quoteless text) :=
  List.decidableBAll _ text.toList

/-- A plain text has no quote. -/
theorem Plain.quoteless {text : String} (h : Plain text) : Quoteless text := fun c hc =>
  (h c hc).1

/-- Two texts without quotes have none together. -/
theorem Quoteless.append {s t : String} (hs : Quoteless s) (ht : Quoteless t) :
    Quoteless (s ++ t) := by
  intro c hc
  rw [String.toList_append, List.mem_append] at hc
  exact hc.elim (hs c) (ht c)

/-- Quoteless parts joined by a quoteless separator are quoteless. -/
theorem Quoteless.intercalate {separator : String} (hsep : Quoteless separator)
    {parts : List String} (h : ∀ part ∈ parts, Quoteless part) :
    Quoteless (separator.intercalate parts) := by
  induction parts with
  | nil => simp [Quoteless]
  | cons part rest ih =>
      have hpart := h part (by simp)
      have hrest := ih fun q hq => h q (by simp [hq])
      cases rest with
      | nil => simpa using hpart
      | cons next rest =>
          rw [String.intercalate_cons_cons]
          exact (hpart.append hsep).append hrest

private theorem scanRun_literal (style : Style) {cs : List Char} (h : ∀ c ∈ cs, c ≠ '\'') :
    scanRun style .literal cs = (.literal, []) := by
  induction cs with
  | nil => rfl
  | cons c cs ih =>
      have hc : c ≠ '\'' := h c (by simp)
      have hrest := ih fun d hd => h d (by simp [hd])
      simp [scanRun, scanChar, hc, hrest]

/-- A quoted text is neutral when no quote occurs inside. -/
theorem Quoteless.neutral_quoted {text : String} (h : Quoteless text) (style : Style) :
    Neutral style ("'" ++ text ++ "'") := by
  unfold Neutral
  rw [String.toList_append, String.toList_append, scanRun_append, scanRun_append]
  have hopen : scanRun style .code "'".toList = (.literal, []) := by
    cases style <;> decide
  simp only [hopen, scanRun_literal style h]
  rfl

/-! ## Pieces -/

/-- A piece of a statement: fixed text or a placeholder for slot {lit}`n`. -/
inductive Piece (σ : Type) where
  | text (s : String)
  | slot (n : σ)
deriving DecidableEq, Repr

/-- The text of a piece when slots are shown by {lit}`shown`. -/
def Piece.render {σ : Type} (shown : σ → String) : Piece σ → String
  | .text s => s
  | .slot n => shown n

/-- The text of a piece list. -/
def renderPieces {σ : Type} (shown : σ → String) (pieces : List (Piece σ)) : String :=
  String.join (pieces.map (Piece.render shown))

/-- The slots of a piece list, from left to right. -/
def pieceSlots {σ : Type} (pieces : List (Piece σ)) : List σ :=
  pieces.filterMap fun
    | .text _ => none
    | .slot n => some n

/-- How slot {lit}`n` (counted from zero) is written. -/
def Style.placeholder : Style → ℕ → String
  | .question, _ => "?"
  | .dollar, n => "$" ++ toString (n + 1)

/-- What the scanner reports for slot {lit}`n`. -/
def Style.mark : Style → ℕ → Mark
  | .question, _ => none
  | .dollar, n => some (n + 1)

/-- The next piece, if any, is text that does not continue a number. -/
def Follows {σ : Type} : List (Piece σ) → Prop
  | [] => True
  | .text s :: _ => ∃ c cs, s.toList = c :: cs ∧ c.isDigit = false
  | .slot _ :: _ => False

/-- A piece list the scanner reads as intended. -/
def Clean {σ : Type} (style : Style) : List (Piece σ) → Prop
  | [] => True
  | .text s :: rest => Neutral style s ∧ Clean style rest
  | .slot _ :: rest => Follows rest ∧ Clean style rest

/-- A piece list that stays clean in front of every continuation. -/
def Safe {σ : Type} (style : Style) (pieces : List (Piece σ)) : Prop :=
  ∀ rest, Clean style rest → Follows rest → Clean style (pieces ++ rest)

private theorem scanRun_digits (style : Style) (n : ℕ) {cs : List Char}
    (h : ∀ c ∈ cs, c.isDigit = true) :
    scanRun style (.number n) cs = (.number (Nat.ofDigitChars 10 cs n), []) := by
  induction cs generalizing n with
  | nil => rfl
  | cons c cs ih =>
      have hc : c.isDigit = true := h c (by simp)
      have hrest := ih (10 * n + (c.toNat - '0'.toNat)) fun d hd => h d (by simp [hd])
      simp only [scanRun, scanChar, hc, if_true]
      rw [hrest, Nat.ofDigitChars_cons]
      rfl

private theorem toList_dollar (n : ℕ) :
    (Style.dollar.placeholder n).toList = '$' :: Nat.toDigits 10 (n + 1) := by
  simp [Style.placeholder, String.toList_append]

/-- A placeholder leaves the scanner with its mark found or its number open. -/
private theorem scanRun_placeholder (style : Style) (n : ℕ) :
    scanRun style .code (style.placeholder n).toList = (.code, [style.mark n]) ∨
      scanRun style .code (style.placeholder n).toList = (.number (n + 1), []) ∧
        style.mark n = some (n + 1) := by
  cases style with
  | question =>
      left
      simp [Style.placeholder, Style.mark, scanRun, scanChar, scanCode]
  | dollar =>
      right
      refine ⟨?_, rfl⟩
      have hdigits : ∀ c ∈ Nat.toDigits 10 (n + 1), c.isDigit = true := fun c hc =>
        Nat.isDigit_of_mem_toDigits (by decide) (by decide) hc
      have hnumber := scanRun_digits .dollar 0 hdigits
      rw [Nat.ofDigitChars_ten_toDigits] at hnumber
      rw [toList_dollar]
      simp [scanRun, scanChar, scanCode, hnumber]

/-- A number that is still open closes at the first character of what follows. -/
private theorem scanRun_number_follows (style : Style) (n : ℕ) {c : Char} {cs : List Char}
    (hc : c.isDigit = false) :
    scanRun style (.number n) (c :: cs) =
      ((scanRun style .code (c :: cs)).1, some n :: (scanRun style .code (c :: cs)).2) := by
  simp [scanRun, scanChar, hc]

@[simp]
theorem renderPieces_nil {σ : Type} (shown : σ → String) : renderPieces shown [] = "" :=
  rfl

theorem toList_renderPieces_cons {σ : Type} (shown : σ → String) (p : Piece σ)
    (ps : List (Piece σ)) :
    (renderPieces shown (p :: ps)).toList =
      (p.render shown).toList ++ (renderPieces shown ps).toList := by
  simp [renderPieces, String.join_cons, String.toList_append]

private theorem renderPieces_follows {σ : Type} (shown : σ → String) {ps : List (Piece σ)}
    (h : Follows ps) :
    (renderPieces shown ps).toList = [] ∨
      ∃ c cs, (renderPieces shown ps).toList = c :: cs ∧ c.isDigit = false := by
  cases ps with
  | nil => exact .inl rfl
  | cons p ps =>
      cases p with
      | slot n => exact h.elim
      | text s =>
          obtain ⟨c, cs, hs, hc⟩ := h
          right
          refine ⟨c, cs ++ (renderPieces shown ps).toList, ?_, hc⟩
          rw [toList_renderPieces_cons, Piece.render, hs, List.cons_append]

/-- A clean piece list scans to exactly its slots, in order. -/
theorem scan_pieces (style : Style) {ps : List (Piece ℕ)} (h : Clean style ps) :
    scan style (renderPieces style.placeholder ps) = (pieceSlots ps).map style.mark := by
  induction ps with
  | nil => rfl
  | cons p ps ih =>
      unfold scan
      rw [toList_renderPieces_cons, scanRun_append]
      cases p with
      | text s =>
          have hs : scanRun style .code (Piece.render style.placeholder (.text s)).toList =
              (.code, []) := h.1
          rw [hs]
          exact ih h.2
      | slot n =>
          have hrest := ih h.2
          unfold scan at hrest
          have hslots : pieceSlots (.slot n :: ps) = n :: pieceSlots ps := rfl
          rw [hslots, List.map_cons, ← hrest, Piece.render]
          rcases scanRun_placeholder style n with hmark | ⟨hopen, hmark⟩
          · rw [hmark]
            rfl
          · rw [hopen, hmark]
            rcases renderPieces_follows style.placeholder h.1 with hnil | ⟨c, cs, hcons, hc⟩
            · rw [hnil]
              rfl
            · rw [hcons, scanRun_number_follows style (n + 1) hc]
              rfl

/-! ## Building safe piece lists -/

/-- Safe pieces are clean. -/
theorem Safe.clean {σ : Type} {style : Style} {ps : List (Piece σ)} (h : Safe style ps) :
    Clean style ps := by
  have hclean := h [] trivial trivial
  rwa [List.append_nil] at hclean

theorem Safe.nil {σ : Type} {style : Style} : Safe style ([] : List (Piece σ)) := by
  intro rest hrest _
  exact hrest

/-- Neutral text in front of a safe piece list. -/
theorem Safe.text {σ : Type} {style : Style} {s : String} {ps : List (Piece σ)}
    (h : Neutral style s) (hps : Safe style ps) : Safe style (.text s :: ps) := by
  intro rest hrest hfollows
  exact ⟨h, hps rest hrest hfollows⟩

/-- A slot is safe: what follows it never continues its number. -/
theorem Safe.slot {σ : Type} {style : Style} (n : σ) : Safe style [.slot n] := by
  intro rest hrest hfollows
  exact ⟨hfollows, hrest⟩

/-- Text that does not start with a digit ends every number before it. -/
theorem Safe.append_text {σ : Type} {style : Style} {ps qs : List (Piece σ)} {s : String}
    (hps : Safe style ps) (hqs : Safe style (.text s :: qs))
    (hs : s.toList.head?.any fun c => !c.isDigit) : Safe style (ps ++ .text s :: qs) := by
  intro rest hrest hfollows
  rw [List.append_assoc]
  refine hps _ (hqs rest hrest hfollows) ?_
  cases hchars : s.toList with
  | nil => simp [hchars] at hs
  | cons c cs => exact ⟨c, cs, hchars, by simpa [hchars] using hs⟩

@[simp]
theorem pieceSlots_append {σ : Type} (ps qs : List (Piece σ)) :
    pieceSlots (ps ++ qs) = pieceSlots ps ++ pieceSlots qs := by
  simp [pieceSlots]

/-! ## Templates -/

/-- Text with holes. -/
abbrev Template := List (Piece Unit)

/-- The number of holes. -/
def Template.holes (t : Template) : ℕ :=
  (pieceSlots t).length

/-- Put the given slots into the holes, from left to right. -/
def Template.fill {σ : Type} : Template → List σ → List (Piece σ)
  | [], _ => []
  | .text s :: t, slots => .text s :: fill t slots
  | .slot _ :: t, n :: slots => .slot n :: fill t slots
  | .slot _ :: _, [] => []

@[simp]
theorem Template.holes_nil : holes [] = 0 :=
  rfl

@[simp]
theorem Template.holes_text (s : String) (t : Template) : holes (.text s :: t) = holes t :=
  rfl

@[simp]
theorem Template.holes_slot (t : Template) : holes (.slot () :: t) = holes t + 1 :=
  rfl

@[simp]
theorem Template.holes_append (t u : Template) : holes (t ++ u) = holes t + holes u := by
  simp [holes]

/-- A filled template holds exactly the slots put in. -/
theorem Template.pieceSlots_fill {σ : Type} {t : Template} {slots : List σ}
    (h : slots.length = holes t) : pieceSlots (fill t slots) = slots := by
  induction t generalizing slots with
  | nil => exact (List.eq_nil_of_length_eq_zero h).symm
  | cons p t ih =>
      cases p with
      | text s => exact ih h
      | slot u =>
          cases slots with
          | nil => simp [holes, pieceSlots] at h
          | cons n slots =>
              have hrest : slots.length = holes t := by
                simpa [holes, pieceSlots] using h
              have hfilled := ih hrest
              simp only [fill, pieceSlots, List.filterMap_cons] at hfilled ⊢
              rw [hfilled]

private theorem follows_fill {σ : Type} {t : Template} {slots : List σ}
    (h : slots.length = t.holes) {rest : List (Piece σ)} {rest' : Template}
    (hrest : Follows rest' → Follows rest) (hf : Follows (t ++ rest')) :
    Follows (t.fill slots ++ rest) := by
  cases t with
  | nil => exact hrest hf
  | cons p t =>
      cases p with
      | text s => exact hf
      | slot u => exact hf.elim

private theorem clean_fill {σ : Type} {style : Style} {t : Template} {slots : List σ}
    (h : slots.length = t.holes) (ht : Clean style (t ++ [.text " "])) {rest : List (Piece σ)}
    (hrest : Clean style rest) (hfollows : Follows rest) :
    Clean style (t.fill slots ++ rest) := by
  induction t generalizing slots with
  | nil => simpa [Template.fill] using hrest
  | cons p t ih =>
      cases p with
      | text s => exact ⟨ht.1, ih h ht.2⟩
      | slot u =>
          cases slots with
          | nil => simp [Template.holes, pieceSlots] at h
          | cons n slots =>
              have hlen : slots.length = Template.holes t := by
                simpa [Template.holes, pieceSlots] using h
              exact ⟨follows_fill hlen (fun _ => hfollows) ht.1, ih hlen ht.2⟩

/-- A template that is safe stays safe when it is filled. -/
theorem Safe.fill {σ : Type} {style : Style} {t : Template} {slots : List σ}
    (ht : Safe style t) (h : slots.length = t.holes) : Safe style (t.fill slots) := by
  intro rest hrest hfollows
  have hspace : Neutral style " " := by cases style <;> decide
  have hclean := ht [.text " "] ⟨hspace, trivial⟩ ⟨' ', [], rfl, by decide⟩
  exact clean_fill h hclean hrest hfollows

end Library
end MemosNote
