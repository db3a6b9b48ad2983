import Mathlib.Data.List.Basic
import Mathlib.Data.Nat.Notation
import Mathlib.Data.String.Basic

/-!
# JSON values and the texts of their strings

A JSON value is looked up by a path of keys.  A list of strings is written between brackets with a
separator; each string is quoted, and inside it quotes, backslashes and control characters are
escaped.  A quoted string is read back by undoing the escapes.

Main results:

- Theorem {lit}`escapeString_plain`, Theorem {lit}`readString_plain`: a string without special
  characters is written as it is, and reads as itself.
-/

namespace MemosNote
namespace Library

/-- A JSON value; a number is kept as an uninterpreted code. -/
inductive Json where
  | bool (b : Bool)
  | number (code : ℕ)
  | text (s : String)
  | array (elements : List Json)
  | object (members : List (String × Json))

namespace Json

/-- The value under a path of keys. -/
def lookup : Json → List String → Option Json
  | j, [] => some j
  | .object members, key :: path => (members.lookup key).bind fun j => lookup j path
  | _, _ :: _ => none

/-- A string, if the value is one. -/
def asText : Json → Option String
  | .text s => some s
  | _ => none

end Json

/-! ## Writing strings -/

/-- A character inside a quoted string. -/
def escapeChar (c : Char) : List Char :=
  if c = '"' ∨ c = '\\' then ['\\', c]
  else if c.toNat < 0x20 then
    match c.toNat with
    | 8 => ['\\', 'b']
    | 9 => ['\\', 't']
    | 10 => ['\\', 'n']
    | 12 => ['\\', 'f']
    | 13 => ['\\', 'r']
    | n => ['\\', 'u', '0', '0', Nat.digitChar (n / 16), Nat.digitChar (n % 16)]
  else [c]

def escapeString (s : List Char) : List Char :=
  s.flatMap escapeChar

def quoteString (s : List Char) : List Char :=
  '"' :: (escapeString s ++ ['"'])

/-- The text of a list of strings. -/
def stringsText (separator : List Char) (strings : List (List Char)) : List Char :=
  '[' :: (separator.intercalate (strings.map quoteString) ++ [']'])

/-! ## Reading strings -/

/-- A part of a quoted string: a character, or a code unit of UTF-16. -/
inductive StringUnit where
  | char (c : Char)
  | code (n : ℕ)

/-- The value of a hexadecimal digit. -/
def hexValue (c : Char) : Option ℕ :=
  if c.isDigit then some (c.toNat - '0'.toNat)
  else if 'a' ≤ c ∧ c ≤ 'f' then some (c.toNat - 'a'.toNat + 10)
  else if 'A' ≤ c ∧ c ≤ 'F' then some (c.toNat - 'A'.toNat + 10)
  else none

/-- What a letter behind a backslash stands for. -/
def simpleEscape (c : Char) : Option Char :=
  match c with
  | '"' => some '"'
  | '\\' => some '\\'
  | '/' => some '/'
  | 'b' => some (Char.ofNat 8)
  | 'f' => some (Char.ofNat 12)
  | 'n' => some '\n'
  | 'r' => some '\r'
  | 't' => some '\t'
  | _ => none

/-- The parts of a string behind its opening quote; the closing quote must end the text. -/
def stringUnits : List Char → Option (List StringUnit)
  | [] => none
  | c :: rest =>
      if c = '"' then if rest = [] then some [] else none
      else if c = '\\' then
        match rest with
        | 'u' :: h₃ :: h₂ :: h₁ :: h₀ :: rest => do
            let n := (((← hexValue h₃) * 16 + (← hexValue h₂)) * 16 + (← hexValue h₁)) * 16 +
              (← hexValue h₀)
            return .code n :: (← stringUnits rest)
        | e :: rest => do return .char (← simpleEscape e) :: (← stringUnits rest)
        | [] => none
      else if c.toNat < 0x20 then none
      else do return .char c :: (← stringUnits rest)

/-- Join the code units; surrogates must come in pairs. -/
def joinUnits : List StringUnit → Option (List Char)
  | [] => some []
  | .char c :: rest => (joinUnits rest).map (c :: ·)
  | .code n :: rest =>
      if 0xd800 ≤ n ∧ n < 0xdc00 then
        match rest with
        | .code m :: rest =>
            if 0xdc00 ≤ m ∧ m < 0xe000 then
              (joinUnits rest).map
                (Char.ofNat (0x10000 + (n - 0xd800) * 0x400 + (m - 0xdc00)) :: ·)
            else none
        | _ => none
      else if 0xdc00 ≤ n ∧ n < 0xe000 then none
      else (joinUnits rest).map (Char.ofNat n :: ·)

/-- Read a quoted string. -/
def readString : List Char → Option (List Char)
  | '"' :: rest => (stringUnits rest).bind joinUnits
  | _ => none

/-! ## Round trip -/

/-- A character that is written as it is. -/
def PlainChar (c : Char) : Prop :=
  c ≠ '"' ∧ c ≠ '\\' ∧ 0x20 ≤ c.toNat

instance : DecidablePred PlainChar :=
  fun c => inferInstanceAs (Decidable (c ≠ '"' ∧ c ≠ '\\' ∧ 0x20 ≤ c.toNat))

theorem escapeChar_plain {c : Char} (h : PlainChar c) : escapeChar c = [c] := by
  rcases h with ⟨hquote, hbackslash, hcontrol⟩
  have hspecial : ¬(c = '"' ∨ c = '\\') := by simp [hquote, hbackslash]
  rw [escapeChar, if_neg hspecial, if_neg (by omega)]

/-- A string without special characters is written as it is. -/
theorem escapeString_plain {s : List Char} (h : ∀ c ∈ s, PlainChar c) : escapeString s = s := by
  induction s with
  | nil => rfl
  | cons c s ih =>
      have hs := ih fun d hd => h d (List.mem_cons_of_mem c hd)
      rw [escapeString, List.flatMap_cons, escapeChar_plain (h c List.mem_cons_self)]
      exact congrArg (c :: ·) hs

/-- A plain string between quotes reads as itself. -/
theorem readString_plain {s : List Char} (h : ∀ c ∈ s, PlainChar c) :
    readString ('"' :: (s ++ ['"'])) = some s := by
  have hunits : stringUnits (s ++ ['"']) = some (s.map .char) := by
    induction s with
    | nil => rfl
    | cons c s ih =>
        have hs := ih fun d hd => h d (List.mem_cons_of_mem c hd)
        rcases h c List.mem_cons_self with ⟨hquote, hbackslash, hcontrol⟩
        rw [List.cons_append, stringUnits.eq_def]
        simp only [if_neg hquote, if_neg hbackslash, if_neg (by omega : ¬c.toNat < 0x20), hs]
        rfl
  have hjoin : ∀ s : List Char, joinUnits (s.map .char) = some s := by
    intro s
    induction s with
    | nil => rfl
    | cons c s ih => rw [List.map_cons, joinUnits, ih, Option.map_some]
  rw [readString, hunits, Option.bind_some, hjoin]

end Library
end MemosNote
