import Mathlib.Data.List.Basic
import MemosNote.Filter.Engine
import MemosNote.Library.HeaderBlock

/-!
# Email messages

A message is formatted as header lines, an empty line and its body.  What comes from users is made a
single line first.

Main results:

- Theorem {lit}`sanitizeEmailHeaderValue_eq`: a value loses its line ends, and its runs of white
  space become single spaces.
- Theorem {lit}`format_header`: a formatted message is read back as its header lines and its body.
-/

namespace MemosNote
namespace Email

open Library

/-! ## Texts -/

/-- What a string is read as: characters, and bytes that belong to no character. -/
inductive Rune where
  | char (c : Char)
  | invalid (byte : UInt8)
deriving DecidableEq, Repr

/-- A string of any bytes. -/
abbrev Text :=
  List Rune

/-- The text of characters. -/
def textOf (s : List Char) : Text :=
  s.map .char

/-- The text of a literal. -/
def text (s : String) : Text :=
  textOf s.toList

/-- The space of Unicode. -/
def Rune.isSpace : Rune → Bool
  | char c => Filter.isSpace c
  | invalid _ => false

/-- The space between two words. -/
def space : Rune :=
  .char ' '

/-- The carriage return. -/
def cr : Rune :=
  .char '\r'

/-- The line feed. -/
def lf : Rune :=
  .char '\n'

/-! ## Messages -/

/-- A message to be sent. -/
structure Message where
  To : List Text := []
  Cc : List Text := []
  Bcc : List Text := []
  Subject : Text := []
  Body : Text := []
  IsHTML : Bool := false
  ReplyTo : Text := []
deriving DecidableEq, Repr

/-- A time on the clock of the server, with the seconds that the clock is ahead. -/
structure Time where
  Weekday : Fin 7
  Day : ℕ
  Month : Fin 12
  Year : ℕ
  Hour : ℕ
  Minute : ℕ
  Second : ℕ
  Offset : ℤ
deriving DecidableEq, Repr

/-- A number with at least as many digits. -/
def appendInt (x width : ℕ) : List Char :=
  (Nat.toDigits 10 x).leftpad width '0'

/-- The days as a date writes them. -/
def shortDayNames : List String :=
  ["Sun", "Mon", "Tue", "Wed", "Thu", "Fri", "Sat"]

/-- The months as a date writes them. -/
def shortMonthNames : List String :=
  ["Jan", "Feb", "Mar", "Apr", "May", "Jun", "Jul", "Aug", "Sep", "Oct", "Nov", "Dec"]

/-- The time in the format {lit}`Mon, 02 Jan 2006 15:04:05 -0700`. -/
def Time.formatRFC1123Z (t : Time) : List Char :=
  let zone := t.Offset.tdiv 60
  [(shortDayNames.get t.Weekday).toList, ", ".toList, appendInt t.Day 2, " ".toList,
    (shortMonthNames.get t.Month).toList, " ".toList, appendInt t.Year 4, " ".toList,
    appendInt t.Hour 2, ":".toList, appendInt t.Minute 2, ":".toList, appendInt t.Second 2,
    (if zone < 0 then " -" else " +").toList, appendInt (zone.natAbs / 60) 2,
    appendInt (zone.natAbs % 60) 2].flatten

/-- The words between white space. -/
def fields (value : Text) : List Text :=
  (value.splitOnP Rune.isSpace).filter (· ≠ [])

/-- A header value in one line, its words one space apart. -/
def sanitizeEmailHeaderValue (value : Text) : Text :=
  [space].intercalate (fields (value.map fun r => if r = cr ∨ r = lf then space else r))

/-- Every value in one line. -/
def sanitizeEmailHeaderValues (values : List Text) : List Text :=
  values.map sanitizeEmailHeaderValue

namespace Message

variable (m : Message)

/-- A message has a recipient, a subject and a body. -/
def Validate : Except String Unit :=
  if m.To = [] then .error "at least one recipient is required"
  else if m.Subject = [] then .error "subject is required"
  else if m.Body = [] then .error "body is required"
  else .ok ()

/-- The text of the message, header and body. -/
def Format (fromEmail fromName : Text) (now : Time) : Text :=
  let fromEmail := sanitizeEmailHeaderValue fromEmail
  let fromName := sanitizeEmailHeaderValue fromName
  let recipients := sanitizeEmailHeaderValues m.To
  let cc := sanitizeEmailHeaderValues m.Cc
  let replyTo := sanitizeEmailHeaderValue m.ReplyTo
  let subject := sanitizeEmailHeaderValue m.Subject
  (if fromName ≠ [] then text "From: " ++ fromName ++ text " <" ++ fromEmail ++ text ">\r\n"
    else text "From: " ++ fromEmail ++ text "\r\n") ++
  (text "To: " ++ (text ", ").intercalate recipients ++ text "\r\n") ++
  (if 0 < cc.length then text "Cc: " ++ (text ", ").intercalate cc ++ text "\r\n" else []) ++
  (if replyTo ≠ [] then text "Reply-To: " ++ replyTo ++ text "\r\n" else []) ++
  (text "Subject: " ++ subject ++ text "\r\n") ++
  (text "Date: " ++ textOf now.formatRFC1123Z ++ text "\r\n") ++
  text "MIME-Version: 1.0\r\n" ++
  (if m.IsHTML then text "Content-Type: text/html; charset=utf-8\r\n"
    else text "Content-Type: text/plain; charset=utf-8\r\n") ++
  text "\r\n" ++ m.Body

end Message

/-! ## The intended header -/

/-- A text without white space at its ends, and with one space for each run of it inside. -/
def collapse : Text → Text
  | [] => []
  | r :: rest =>
      if r.isSpace then collapse rest
      else if rest.head?.any Rune.isSpace ∧ collapse rest ≠ [] then r :: space :: collapse rest
      else r :: collapse rest

/-- A name and a value. -/
structure Header where
  name : String
  value : Text

/-- A header line. -/
def Header.line (h : Header) : Text :=
  text h.name ++ text ": " ++ h.value

namespace Message

variable (m : Message)

/-- The address, behind the name if there is one. -/
def sender (fromEmail fromName : Text) : Text :=
  if collapse fromName = [] then collapse fromEmail
  else collapse fromName ++ text " <" ++ collapse fromEmail ++ text ">"

/-- Addresses in one line, a comma between them. -/
def addresses (list : List Text) : Text :=
  (text ", ").intercalate (list.map collapse)

/-- The headers that a message is to have. -/
def headers (fromEmail fromName : Text) (now : Time) : List Header :=
  [⟨"From", sender fromEmail fromName⟩, ⟨"To", addresses m.To⟩] ++
  (if m.Cc = [] then [] else [⟨"Cc", addresses m.Cc⟩]) ++
  (if m.ReplyTo.all Rune.isSpace then [] else [⟨"Reply-To", collapse m.ReplyTo⟩]) ++
  [⟨"Subject", collapse m.Subject⟩, ⟨"Date", textOf now.formatRFC1123Z⟩,
    ⟨"MIME-Version", text "1.0"⟩,
    ⟨"Content-Type", text (if m.IsHTML then "text/html; charset=utf-8"
      else "text/plain; charset=utf-8")⟩]

end Message

theorem Message.validate_ok_iff (m : Message) :
    m.Validate = .ok () ↔ m.To ≠ [] ∧ m.Subject ≠ [] ∧ m.Body ≠ [] := by
  rw [Message.Validate]
  split_ifs with hto hsubject hbody
  · simp [hto]
  · simp [hsubject]
  · simp [hbody]
  · simp [hto, hsubject, hbody]

/-! ## Values -/

private theorem fields_nil : fields [] = [] := by
  simp [fields]

private theorem fields_cons_space {r : Rune} (h : r.isSpace = true) (rest : Text) :
    fields (r :: rest) = fields rest := by
  rw [fields, List.splitOnP_cons_eq_if_modifyHead, if_pos h, List.filter_cons_of_neg (by simp), fields]

/-- A word that ends with its first character. -/
theorem fields_cons_last {r : Rune} (h : r.isSpace = false) {rest : Text}
    (hrest : rest.head?.all Rune.isSpace = true) : fields (r :: rest) = [r] :: fields rest := by
  have hsplit : (r :: rest).splitOnP Rune.isSpace =
      (rest.splitOnP Rune.isSpace).modifyHead (List.cons r) := by
    rw [List.splitOnP_cons_eq_if_modifyHead, if_neg (by simp [h])]
  rw [fields, hsplit, fields]
  cases rest with
  | nil => simp
  | cons s rest =>
      have hs : s.isSpace = true := by simpa using hrest
      rw [List.splitOnP_cons_eq_if_modifyHead, if_pos hs]
      simp

/-- A word that goes on. -/
theorem fields_cons_more {r s : Rune} (h : r.isSpace = false) (hs : s.isSpace = false)
    (rest : Text) : ∃ word words, fields (s :: rest) = word :: words ∧
      fields (r :: s :: rest) = (r :: word) :: words := by
  cases hpieces : rest.splitOnP Rune.isSpace with
  | nil => exact absurd hpieces (List.splitOnP_ne_nil _ _)
  | cons piece pieces =>
      refine ⟨s :: piece, pieces.filter (· ≠ []), ?_, ?_⟩
      · simp [fields, List.splitOnP_cons_eq_if_modifyHead, hs, hpieces]
      · simp [fields, List.splitOnP_cons_eq_if_modifyHead, h, hs, hpieces]

/-- Words are not empty. -/
theorem intercalate_fields_eq_nil {value : Text} :
    [space].intercalate (fields value) = [] ↔ fields value = [] := by
  constructor
  · intro h
    cases hwords : fields value with
    | nil => rfl
    | cons word words =>
        have hne : word ≠ [] := by
          have hmem : word ∈ fields value := by simp [hwords]
          rw [fields, List.mem_filter] at hmem
          simpa using hmem.2
        rw [hwords] at h
        cases words with
        | nil => exact absurd (by simpa using h) hne
        | cons _ _ => simp [List.intercalate_cons_cons] at h
  · intro h
    rw [h, List.intercalate_nil]

/-- The words of a text with a space in between are the text with its white space collapsed. -/
theorem intercalate_fields (value : Text) : [space].intercalate (fields value) = collapse value := by
  induction value with
  | nil => simp [fields, collapse]
  | cons r rest ih =>
      by_cases hr : r.isSpace = true
      · rw [fields_cons_space hr, ih, collapse, if_pos hr]
      rw [Bool.not_eq_true] at hr
      rw [collapse, if_neg (by simp [hr])]
      cases rest with
      | nil =>
          rw [fields_cons_last hr rfl, fields_nil, List.intercalate_singleton]
          simp [collapse]
      | cons s rest =>
          by_cases hs : s.isSpace = true
          · rw [fields_cons_last hr (by simpa using hs)]
            by_cases hempty : collapse (s :: rest) = []
            · rw [if_neg fun h => h.2 hempty, hempty]
              rw [← ih, intercalate_fields_eq_nil] at hempty
              rw [hempty, List.intercalate_singleton]
            · rw [if_pos ⟨by simpa using hs, hempty⟩]
              rw [← ih, intercalate_fields_eq_nil] at hempty
              rw [List.intercalate_cons_of_ne_nil hempty, ih]
              rfl
          · rw [Bool.not_eq_true] at hs
            rcases fields_cons_more hr hs rest with ⟨word, words, hrest, hwords⟩
            rw [hwords, List.intercalate_cons_cons_left, ← hrest, ih, if_neg (by simp [hs])]

/-- A line end is white space. -/
theorem collapse_map (value : Text) :
    collapse (value.map fun r => if r = cr ∨ r = lf then space else r) = collapse value := by
  have hspace : ∀ r : Rune,
      (if r = cr ∨ r = lf then space else r).isSpace = r.isSpace := by
    intro r
    by_cases hr : r = cr ∨ r = lf
    · rw [if_pos hr]
      rcases hr with rfl | rfl <;> rfl
    · rw [if_neg hr]
  induction value with
  | nil => rfl
  | cons r rest ih =>
      have hhead : (rest.map fun r => if r = cr ∨ r = lf then space else r).head?.any Rune.isSpace =
          rest.head?.any Rune.isSpace := by
        cases rest with
        | nil => rfl
        | cons s rest => simp [hspace]
      rw [List.map_cons, collapse, collapse, hspace, ih, hhead]
      by_cases hr : r.isSpace = true
      · rw [if_pos hr, if_pos hr]
      · have hne : ¬(r = cr ∨ r = lf) := by
          rintro (rfl | rfl) <;> exact hr rfl
        rw [if_neg hne]

theorem sanitizeEmailHeaderValue_eq (value : Text) :
    sanitizeEmailHeaderValue value = collapse value := by
  rw [sanitizeEmailHeaderValue, intercalate_fields, collapse_map]

theorem collapse_eq_nil {value : Text} : collapse value = [] ↔ value.all Rune.isSpace = true := by
  induction value with
  | nil => simp [collapse]
  | cons r rest ih =>
      by_cases hr : r.isSpace = true
      · rw [collapse, if_pos hr, ih, List.all_cons, hr, Bool.true_and]
      · rw [collapse, if_neg hr, List.all_cons]
        constructor
        · intro h
          split at h <;> cases h
        · intro h
          exact absurd (Bool.and_eq_true_iff.mp h).1 hr

/-! ## Lines -/

/-- A text without line ends. -/
def OneLine (value : Text) : Prop :=
  ∀ r ∈ value, r ≠ cr ∧ r ≠ lf

instance (value : Text) : Decidable (OneLine value) :=
  inferInstanceAs (Decidable (∀ r ∈ value, r ≠ cr ∧ r ≠ lf))

theorem OneLine.append {value value' : Text} (h : OneLine value) (h' : OneLine value') :
    OneLine (value ++ value') := by
  intro r hr
  rcases List.mem_append.mp hr with hr | hr
  · exact h r hr
  · exact h' r hr

theorem OneLine.intercalate {separator : Text} (h : OneLine separator) {values : List Text}
    (hvalues : ∀ value ∈ values, OneLine value) : OneLine (separator.intercalate values) := by
  induction values with
  | nil => exact fun r hr => absurd hr (by simp)
  | cons value values ih =>
      have hvalue := hvalues value (by simp)
      have hrest := ih fun v hv => hvalues v (by simp [hv])
      by_cases hempty : values = []
      · rwa [hempty, List.intercalate_singleton]
      · rw [List.intercalate_cons_of_ne_nil hempty]
        exact (hvalue.append h).append hrest

theorem oneLine_collapse (value : Text) : OneLine (collapse value) := by
  induction value with
  | nil => exact fun r hr => absurd hr (by simp [collapse])
  | cons s rest ih =>
      rw [collapse]
      by_cases hs : s.isSpace = true
      · rw [if_pos hs]
        exact ih
      · have hsingle : OneLine [s] := by
          intro r hr
          rcases List.mem_singleton.mp hr with rfl
          constructor <;> rintro rfl <;> exact hs rfl
        rw [if_neg hs]
        split
        · exact (hsingle.append (show OneLine [space] by decide)).append ih
        · exact hsingle.append ih

theorem oneLine_appendInt (x width : ℕ) : OneLine (textOf (appendInt x width)) := by
  intro r hr
  rcases List.mem_map.mp hr with ⟨c, hc, rfl⟩
  have hdigit : c.isDigit = true := by
    rw [appendInt, List.leftpad, List.mem_append] at hc
    rcases hc with hc | hc
    · rw [List.eq_of_mem_replicate hc]
      rfl
    · exact Nat.isDigit_of_mem_toDigits (by omega) (by omega) hc
  constructor <;> intro h <;> cases h <;> exact absurd hdigit (by decide)

private theorem oneLine_flatten {parts : List (List Char)}
    (h : ∀ part ∈ parts, OneLine (textOf part)) :
    OneLine (textOf parts.flatten) := by
  intro r hr
  rcases List.mem_map.mp hr with ⟨c, hc, rfl⟩
  rcases List.mem_flatten.mp hc with ⟨part, hpart, hmem⟩
  exact h part hpart _ (List.mem_map_of_mem hmem)

private theorem oneLine_formatRFC1123Z (t : Time) : OneLine (textOf t.formatRFC1123Z) := by
  have hday : ∀ i : Fin 7, OneLine (textOf (shortDayNames.get i).toList) := by decide
  have hmonth : ∀ i : Fin 12, OneLine (textOf (shortMonthNames.get i).toList) := by decide
  have hsign : ∀ zone : ℤ, OneLine (textOf (if zone < 0 then " -" else " +").toList) := by
    intro zone
    split <;> decide
  have hcomma : OneLine (textOf ", ".toList) := by decide
  have hspace : OneLine (textOf " ".toList) := by decide
  have hcolon : OneLine (textOf ":".toList) := by decide
  apply oneLine_flatten
  simp only [List.forall_mem_cons, List.not_mem_nil, false_imp_iff, implies_true, and_true]
  exact ⟨hday _, hcomma, oneLine_appendInt _ _, hspace, hmonth _, hspace, oneLine_appendInt _ _,
    hspace, oneLine_appendInt _ _, hcolon, oneLine_appendInt _ _, hcolon, oneLine_appendInt _ _,
    hsign _, oneLine_appendInt _ _, oneLine_appendInt _ _⟩

namespace Message

variable (m : Message)

private theorem oneLine_sender (fromEmail fromName : Text) :
    OneLine (sender fromEmail fromName) := by
  rw [sender]
  split
  · exact oneLine_collapse _
  · exact ((oneLine_collapse _).append (by decide)).append (oneLine_collapse _) |>.append (by decide)

theorem oneLine_addresses (list : List Text) : OneLine (addresses list) := by
  apply OneLine.intercalate (by decide)
  intro value hvalue
  rcases List.mem_map.mp hvalue with ⟨address, -, rfl⟩
  exact oneLine_collapse address

/-- The headers are lines. -/
theorem oneLine_headers (fromEmail fromName : Text) (now : Time) :
    ∀ h ∈ m.headers fromEmail fromName now, h.line ≠ [] ∧ OneLine h.line := by
  have hline : ∀ {name : String} {value : Text}, OneLine (text name) → OneLine value →
      (Header.line ⟨name, value⟩) ≠ [] ∧ OneLine (Header.line ⟨name, value⟩) := by
    intro name value hname hvalue
    constructor
    · simp [Header.line, text, textOf]
    · exact (hname.append (show OneLine (text ": ") by decide)).append hvalue
  intro h hh
  simp only [headers, List.mem_append, List.mem_cons, List.not_mem_nil, or_false] at hh
  rcases hh with (((rfl | rfl) | hh) | hh) | rfl | rfl | rfl | rfl
  · exact hline (by decide) (oneLine_sender _ _)
  · exact hline (by decide) (oneLine_addresses _)
  · by_cases hcc : m.Cc = []
    · rw [if_pos hcc] at hh
      cases hh
    · rw [if_neg hcc, List.mem_singleton] at hh
      rw [hh]
      exact hline (by decide) (oneLine_addresses _)
  · by_cases hreply : m.ReplyTo.all Rune.isSpace = true
    · rw [if_pos hreply] at hh
      cases hh
    · rw [if_neg hreply, List.mem_singleton] at hh
      rw [hh]
      exact hline (by decide) (oneLine_collapse _)
  · exact hline (by decide) (oneLine_collapse _)
  · exact hline (by decide) (oneLine_formatRFC1123Z now)
  · exact hline (by decide) (by decide +kernel)
  · refine hline (by decide) ?_
    split <;> decide +kernel

/-- A message is formatted as its header lines, an empty line and its body. -/
theorem format_eq (fromEmail fromName : Text) (now : Time) :
    m.Format fromEmail fromName now =
      ((m.headers fromEmail fromName now).map Header.line).flatMap (· ++ [cr, lf]) ++
        cr :: lf :: m.Body := by
  have hvalues : ∀ values, sanitizeEmailHeaderValues values = values.map collapse := fun values =>
    List.map_congr_left fun value _ => sanitizeEmailHeaderValue_eq value
  have hend : text "\r\n" = [cr, lf] := by decide
  have hfrom : (if collapse fromName ≠ [] then
        text "From: " ++ collapse fromName ++ text " <" ++ collapse fromEmail ++ text ">\r\n"
      else text "From: " ++ collapse fromEmail ++ text "\r\n") =
      Header.line ⟨"From", sender fromEmail fromName⟩ ++ [cr, lf] := by
    have hname : text "From: " = text "From" ++ text ": " := by decide
    have hbracket : text ">\r\n" = text ">" ++ [cr, lf] := by decide
    by_cases hblank : collapse fromName = []
    · rw [if_neg (not_not_intro hblank), sender, if_pos hblank, hend, hname]
      rfl
    · rw [if_pos hblank, sender, if_neg hblank, hname, hbracket]
      simp only [Header.line, List.append_assoc]
  have hto : text "To: " ++ (text ", ").intercalate (m.To.map collapse) ++ text "\r\n" =
      Header.line ⟨"To", addresses m.To⟩ ++ [cr, lf] := by
    have hname : text "To: " = text "To" ++ text ": " := by decide
    rw [hend, hname]
    rfl
  have hcc : (if 0 < (m.Cc.map collapse).length then
        text "Cc: " ++ (text ", ").intercalate (m.Cc.map collapse) ++ text "\r\n" else []) =
      ((if m.Cc = [] then [] else [⟨"Cc", addresses m.Cc⟩] : List Header).map Header.line).flatMap
        (· ++ [cr, lf]) := by
    have hname : text "Cc: " = text "Cc" ++ text ": " := by decide
    by_cases hempty : m.Cc = []
    · simp [hempty]
    · rw [if_pos (by simpa [List.length_pos_iff] using hempty), if_neg hempty, hend, hname]
      simp [Header.line, addresses]
  have hreply : (if collapse m.ReplyTo ≠ [] then
        text "Reply-To: " ++ collapse m.ReplyTo ++ text "\r\n" else []) =
      ((if m.ReplyTo.all Rune.isSpace then [] else [⟨"Reply-To", collapse m.ReplyTo⟩] :
        List Header).map Header.line).flatMap (· ++ [cr, lf]) := by
    have hname : text "Reply-To: " = text "Reply-To" ++ text ": " := by decide
    by_cases hblank : m.ReplyTo.all Rune.isSpace = true
    · rw [if_neg (not_not_intro (collapse_eq_nil.mpr hblank)), if_pos hblank]
      rfl
    · rw [if_pos (mt collapse_eq_nil.mp hblank), if_neg hblank, hend, hname]
      simp [Header.line]
  have hsubject : text "Subject: " ++ collapse m.Subject ++ text "\r\n" =
      Header.line ⟨"Subject", collapse m.Subject⟩ ++ [cr, lf] := by
    have hname : text "Subject: " = text "Subject" ++ text ": " := by decide
    rw [hend, hname]
    rfl
  have hdate : text "Date: " ++ textOf now.formatRFC1123Z ++ text "\r\n" =
      Header.line ⟨"Date", textOf now.formatRFC1123Z⟩ ++ [cr, lf] := by
    have hname : text "Date: " = text "Date" ++ text ": " := by decide
    rw [hend, hname]
    rfl
  have hversion : text "MIME-Version: 1.0\r\n" =
      Header.line ⟨"MIME-Version", text "1.0"⟩ ++ [cr, lf] := by decide
  have htype : (if m.IsHTML then text "Content-Type: text/html; charset=utf-8\r\n"
      else text "Content-Type: text/plain; charset=utf-8\r\n") =
      Header.line ⟨"Content-Type", text (if m.IsHTML then "text/html; charset=utf-8"
        else "text/plain; charset=utf-8")⟩ ++ [cr, lf] := by
    cases m.IsHTML <;> decide
  simp only [Format, hvalues, sanitizeEmailHeaderValue_eq]
  rw [hfrom, hto, hcc, hreply, hsubject, hdate, hversion, htype, hend]
  simp only [headers, List.map_append, List.flatMap_append, List.map_cons, List.map_nil,
    List.flatMap_cons, List.flatMap_nil, List.append_assoc, List.nil_append, List.cons_append]

end Message

open Message

/-- A message is read back as its headers, each once and in order, and its body. -/
theorem format_header (m : Message) (fromEmail fromName : Text) (now : Time) :
    splitHeader cr lf [] (m.Format fromEmail fromName now) =
      some ((m.headers fromEmail fromName now).map Header.line, m.Body) := by
  rw [format_eq]
  apply splitHeader_join
  intro line hline
  rcases List.mem_map.mp hline with ⟨h, hh, rfl⟩
  exact m.oneLine_headers fromEmail fromName now h hh

end Email
end MemosNote
