import MemosNote.Library.JsonText

/-!
# Reading JSON objects of strings

An object whose members are strings is read from its text; white space may stand between the
tokens.  Of several members with one key the last one counts.

Main results:

- Theorem {lit}`takeString_escaped`: a string is read back whichever way its characters are
  escaped.
- Theorem {lit}`parseObject_objectText`: an object written without white space is read back.
-/

namespace MemosNote
namespace Library
namespace JsonObject

/-! ## Strings -/

/-- The units of a string behind its opening quote, and what follows its closing quote. -/
def takeUnits : List Char → Option (List StringUnit × List Char)
  | [] => none
  | c :: rest =>
      if c = '"' then some ([], rest)
      else if c = '\\' then
        match rest with
        | 'u' :: h₃ :: h₂ :: h₁ :: h₀ :: rest => do
            let n := (((← hexValue h₃) * 16 + (← hexValue h₂)) * 16 + (← hexValue h₁)) * 16 +
              (← hexValue h₀)
            let more ← takeUnits rest
            return (.code n :: more.1, more.2)
        | e :: rest => do
            let escaped ← simpleEscape e
            let more ← takeUnits rest
            return (.char escaped :: more.1, more.2)
        | [] => none
      else if c.toNat < 0x20 then none
      else do
        let more ← takeUnits rest
        return (.char c :: more.1, more.2)

/-- A quoted string at the start of a text. -/
def takeString : List Char → Option (List Char × List Char)
  | '"' :: rest => do
      let units ← takeUnits rest
      let chars ← joinUnits units.1
      return (chars, units.2)
  | _ => none

section Escaping

variable {escape : Char → List Char} {unit : Char → StringUnit}

/-- Every escape is read as one unit. -/
def ReadsAs (escape : Char → List Char) (unit : Char → StringUnit) : Prop :=
  ∀ c rest, takeUnits (escape c ++ rest) =
    (takeUnits rest).map fun more => (unit c :: more.1, more.2)

/-- A unit that stands for its character. -/
def StandsFor (u : StringUnit) (c : Char) : Prop :=
  u = .char c ∨ u = .code c.toNat ∧ c.toNat < 0xd800

theorem takeUnits_escaped (h : ReadsAs escape unit) (s rest : List Char) :
    takeUnits (s.flatMap escape ++ '"' :: rest) = some (s.map unit, rest) := by
  induction s with
  | nil =>
      rw [List.flatMap_nil, List.nil_append, takeUnits.eq_def]
      exact if_pos rfl
  | cons c s ih =>
      rw [List.flatMap_cons, List.append_assoc, h, ih]
      rfl

theorem joinUnits_map (h : ∀ c, StandsFor (unit c) c) (s : List Char) :
    joinUnits (s.map unit) = some s := by
  induction s with
  | nil => rfl
  | cons c s ih =>
      rw [List.map_cons]
      rcases h c with hunit | ⟨hunit, hsmall⟩
      · rw [hunit, joinUnits, ih, Option.map_some]
      · rw [hunit, joinUnits.eq_def]
        simp only [ih]
        rw [if_neg (by omega), if_neg (by omega), Option.map_some, Char.ofNat_toNat]

/-- A string is read back whichever way its characters are escaped. -/
theorem takeString_escaped (hreads : ReadsAs escape unit) (hunits : ∀ c, StandsFor (unit c) c)
    (s rest : List Char) :
    takeString ('"' :: (s.flatMap escape ++ '"' :: rest)) = some (s, rest) := by
  rw [takeString, takeUnits_escaped hreads]
  change (joinUnits (s.map unit)).bind _ = _
  rw [joinUnits_map hunits]
  rfl

end Escaping

/-! ## Objects -/

def IsBlank (c : Char) : Prop :=
  c = ' ' ∨ c = '\t' ∨ c = '\n' ∨ c = '\r'

instance : DecidablePred IsBlank :=
  fun c => inferInstanceAs (Decidable (c = ' ' ∨ c = '\t' ∨ c = '\n' ∨ c = '\r'))

/-- White space before a token. -/
def skipBlanks : List Char → List Char
  | [] => []
  | c :: rest => if IsBlank c then skipBlanks rest else c :: rest

/-- What follows a symbol. -/
def takeSymbol (symbol : Char) (text : List Char) : Option (List Char) :=
  match skipBlanks text with
  | [] => none
  | c :: rest => if c = symbol then some rest else none

/-- A member: a key and its value. -/
def takeMember (text : List Char) : Option ((String × String) × List Char) :=
  (takeString (skipBlanks text)).bind fun key =>
    (takeSymbol ':' key.2).bind fun text =>
      (takeString (skipBlanks text)).map fun value =>
        ((String.ofList key.1, String.ofList value.1), value.2)

/-- The members up to the closing brace, in front of those read before.  There are fewer than the
text has characters. -/
def takeMembers : ℕ → List (String × String) → List Char →
    Option (List (String × String) × List Char)
  | 0, _, _ => none
  | fuel + 1, before, text =>
      (takeMember text).bind fun member =>
        (takeSymbol ',' member.2).elim
          ((takeSymbol '}' member.2).map fun text => (member.1 :: before, text))
          (takeMembers fuel (member.1 :: before))

/-- The members of an object, the last one in front; nothing may follow it. -/
def parseObject (text : List Char) : Option (List (String × String)) :=
  (takeSymbol '{' text).bind fun inner =>
    ((takeSymbol '}' inner).elim (takeMembers text.length [] inner) fun rest =>
      some ([], rest)).bind fun object =>
        if skipBlanks object.2 = [] then some object.1 else none

theorem takeSymbol_cons {symbol c : Char} (h : ¬IsBlank c) (rest : List Char) :
    takeSymbol symbol (c :: rest) = if c = symbol then some rest else none := by
  rw [takeSymbol, skipBlanks, if_neg h]

/-! ## Written objects -/

section Written

variable {escape : Char → List Char} {unit : Char → StringUnit}

/-- A string between quotes. -/
def quote (escape : Char → List Char) (s : String) : List Char :=
  '"' :: (s.toList.flatMap escape ++ ['"'])

/-- A member without white space. -/
def memberText (escape : Char → List Char) (member : String × String) : List Char :=
  quote escape member.1 ++ ':' :: quote escape member.2

/-- Further members, each behind a comma. -/
def moreText (escape : Char → List Char) (members : List (String × String)) : List Char :=
  members.flatMap fun member => ',' :: memberText escape member

/-- An object of at least one member. -/
def objectText (escape : Char → List Char) (member : String × String)
    (members : List (String × String)) : List Char :=
  '{' :: (memberText escape member ++ moreText escape members ++ ['}'])

theorem takeString_quote (hreads : ReadsAs escape unit) (hunits : ∀ c, StandsFor (unit c) c)
    (s : String) (rest : List Char) :
    takeString (skipBlanks (quote escape s ++ rest)) = some (s.toList, rest) := by
  have htext : skipBlanks (quote escape s ++ rest) =
      '"' :: (s.toList.flatMap escape ++ '"' :: rest) := by
    rw [quote, List.cons_append, skipBlanks, if_neg (by decide), List.append_assoc]
    rfl
  rw [htext, takeString_escaped hreads hunits]

theorem takeMember_memberText (hreads : ReadsAs escape unit)
    (hunits : ∀ c, StandsFor (unit c) c) (member : String × String) (rest : List Char) :
    takeMember (memberText escape member ++ rest) = some (member, rest) := by
  have hcolon : takeSymbol ':' (':' :: quote escape member.2 ++ rest) =
      some (quote escape member.2 ++ rest) := by
    rw [List.cons_append, takeSymbol_cons (by decide), if_pos rfl]
  rw [memberText, List.append_assoc, takeMember, takeString_quote hreads hunits, Option.bind_some,
    hcolon, Option.bind_some, takeString_quote hreads hunits, Option.map_some,
    String.ofList_toList, String.ofList_toList]

theorem takeMembers_written (hreads : ReadsAs escape unit) (hunits : ∀ c, StandsFor (unit c) c)
    (member : String × String) (members before : List (String × String)) (fuel : ℕ)
    (hfuel : members.length < fuel) (rest : List Char) :
    takeMembers fuel before (memberText escape member ++ moreText escape members ++ '}' :: rest) =
      some (members.reverse ++ member :: before, rest) := by
  induction members generalizing member before fuel with
  | nil =>
      rcases fuel with _ | fuel
      · omega
      rw [takeMembers, moreText, List.flatMap_nil, List.append_nil,
        takeMember_memberText hreads hunits, Option.bind_some, takeSymbol_cons (by decide),
        if_neg (by decide), takeSymbol_cons (by decide), if_pos rfl]
      rfl
  | cons next members ih =>
      rcases fuel with _ | fuel
      · omega
      have hmore : moreText escape (next :: members) ++ '}' :: rest =
          ',' :: (memberText escape next ++ moreText escape members ++ '}' :: rest) := by
        simp [moreText]
      have hshort : members.length < fuel := Nat.lt_of_succ_lt_succ hfuel
      rw [takeMembers, List.append_assoc, hmore, takeMember_memberText hreads hunits,
        Option.bind_some, takeSymbol_cons (by decide), if_pos rfl, Option.elim_some,
        ih next (member :: before) fuel hshort]
      simp

theorem length_le_moreText (members : List (String × String)) :
    members.length ≤ (moreText escape members).length := by
  induction members with
  | nil => exact Nat.zero_le _
  | cons member members ih =>
      have hmore : moreText escape (member :: members) =
          ',' :: (memberText escape member ++ moreText escape members) := rfl
      rw [hmore, List.length_cons, List.length_cons, List.length_append]
      omega

/-- An object written without white space is read back, the last member in front. -/
theorem parseObject_objectText (hreads : ReadsAs escape unit)
    (hunits : ∀ c, StandsFor (unit c) c) (member : String × String)
    (members : List (String × String)) :
    parseObject (objectText escape member members) = some (members.reverse ++ [member]) := by
  have hnotEmpty : takeSymbol '}' (memberText escape member ++ moreText escape members ++ ['}']) =
      none := by
    rw [memberText, quote]
    exact takeSymbol_cons (by decide) _
  have hfuel : members.length < (objectText escape member members).length := by
    have hmore := @length_le_moreText escape members
    rw [objectText, List.length_cons, List.length_append, List.length_append]
    omega
  rw [parseObject]
  change (takeSymbol '{' ('{' :: (memberText escape member ++ moreText escape members ++
    ['}']))).bind _ = _
  rw [takeSymbol_cons (by decide), if_pos rfl, Option.bind_some, hnotEmpty, Option.elim_none,
    takeMembers_written hreads hunits member members [] _ hfuel [], Option.bind_some]
  exact if_pos rfl

end Written

end JsonObject
end Library
end MemosNote
