import Mathlib.Algebra.Group.Int.Defs
import MemosNote.Library.JsonObject

/-!
# Reading JSON texts

A JSON text is a value between white space.  Objects keep all of their members in order, also those
whose key is repeated.  A string that is pasted between quotes into an object reads as itself only
if it is plain: a quote in it ends the string early, an escape makes the string shorter, and a
backslash in front of the closing quote swallows the quote.

Main results:

- Definition {lit}`Denotes`: the value of a text.
- Theorem {lit}`takeString_pasted`: how a pasted string can read as itself.
- Theorem {lit}`denotes_pasted`, Theorem {lit}`plain_of_denotes_pasted`: when an object whose first
  member is pasted has that member.
-/

namespace MemosNote
namespace Library
namespace JsonGrammar

open JsonObject

inductive JsonValue where
  | null
  | bool (b : Bool)
  | number (q : Rat)
  | text (s : List Char)
  | array (elements : List JsonValue)
  | object (members : List (List Char × JsonValue))

/-! ## Numbers and words -/

def digitsValue (digits : List Char) : ℕ :=
  digits.foldl (fun n c => 10 * n + (c.toNat - '0'.toNat)) 0

/-- The number with some digits, times a power of ten. -/
def decimal (negative : Bool) (digits : List Char) (exponent : ℤ) : Rat :=
  let n : ℤ := digitsValue digits * 10 ^ exponent.toNat
  mkRat (if negative then -n else n) (10 ^ (-exponent).toNat)

/-- At least one digit. -/
def takeDigits (text : List Char) : Option (List Char × List Char) :=
  let digits := text.takeWhile Char.isDigit
  if digits = [] then none else some (digits, text.dropWhile Char.isDigit)

/-- The digits in front of the point; none may follow a zero in front. -/
def takeInteger : List Char → Option (List Char × List Char)
  | '0' :: rest => some (['0'], rest)
  | text => takeDigits text

/-- The digits behind the point. -/
def takeFraction : List Char → Option (List Char × List Char)
  | '.' :: rest => takeDigits rest
  | text => some ([], text)

/-- The sign of an exponent. -/
def takeSign : List Char → Bool × List Char
  | '-' :: rest => (true, rest)
  | '+' :: rest => (false, rest)
  | text => (false, text)

def takeExponent : List Char → Option (ℤ × List Char)
  | [] => some (0, [])
  | c :: rest =>
      if c = 'e' ∨ c = 'E' then
        let sign := takeSign rest
        (takeDigits sign.2).map fun digits =>
          (if sign.1 then -(digitsValue digits.1 : ℤ) else digitsValue digits.1, digits.2)
      else some (0, c :: rest)

def takeUnsigned (negative : Bool) (text : List Char) : Option (Rat × List Char) :=
  (takeInteger text).bind fun integer =>
    (takeFraction integer.2).bind fun fraction =>
      (takeExponent fraction.2).map fun exponent =>
        (decimal negative (integer.1 ++ fraction.1) (exponent.1 - fraction.1.length), exponent.2)

def takeNumber : List Char → Option (Rat × List Char)
  | '-' :: rest => takeUnsigned true rest
  | text => takeUnsigned false text

/-- A value that is neither a string nor made of values. -/
def takeScalar : List Char → Option (JsonValue × List Char)
  | 'n' :: 'u' :: 'l' :: 'l' :: rest => some (.null, rest)
  | 't' :: 'r' :: 'u' :: 'e' :: rest => some (.bool true, rest)
  | 'f' :: 'a' :: 'l' :: 's' :: 'e' :: rest => some (.bool false, rest)
  | text => (takeNumber text).map fun number => (.number number.1, number.2)

/-! ## Values -/

mutual

/-- A value at the start of a text, and what follows it. -/
def takeValue : ℕ → List Char → Option (JsonValue × List Char)
  | 0, _ => none
  | fuel + 1, text =>
      match skipBlanks text with
      | [] => none
      | c :: rest =>
          if c = '{' then
            (takeSymbol '}' rest).elim
              ((takeMembers fuel rest).map fun members => (.object members.1, members.2))
              fun rest => some (.object [], rest)
          else if c = '[' then
            (takeSymbol ']' rest).elim
              ((takeElements fuel rest).map fun elements => (.array elements.1, elements.2))
              fun rest => some (.array [], rest)
          else if c = '"' then (takeString (c :: rest)).map fun s => (.text s.1, s.2)
          else takeScalar (c :: rest)

/-- The members up to the closing brace. -/
def takeMembers : ℕ → List Char → Option (List (List Char × JsonValue) × List Char)
  | 0, _ => none
  | fuel + 1, text =>
      (takeString (skipBlanks text)).bind fun key =>
        (takeSymbol ':' key.2).bind fun text =>
          (takeValue fuel text).bind fun value =>
            (takeSymbol ',' value.2).elim
              ((takeSymbol '}' value.2).map fun text => ([(key.1, value.1)], text))
              fun text => (takeMembers fuel text).map fun more =>
                ((key.1, value.1) :: more.1, more.2)

/-- The elements up to the closing bracket. -/
def takeElements : ℕ → List Char → Option (List JsonValue × List Char)
  | 0, _ => none
  | fuel + 1, text =>
      (takeValue fuel text).bind fun value =>
        (takeSymbol ',' value.2).elim
          ((takeSymbol ']' value.2).map fun text => ([value.1], text))
          fun text => (takeElements fuel text).map fun more => (value.1 :: more.1, more.2)

end

/-- The text is a valid one of the value; enough fuel reads it. -/
def Denotes (text : List Char) (value : JsonValue) : Prop :=
  ∃ fuel rest, takeValue fuel text = some (value, rest) ∧ skipBlanks rest = []

/-! ## Pasted strings -/

theorem takeUnits_plain {s : List Char} (h : ∀ c ∈ s, PlainChar c) (rest : List Char) :
    takeUnits (s ++ '"' :: rest) = some (s.map .char, rest) := by
  induction s with
  | nil =>
      rw [List.nil_append, takeUnits.eq_def]
      exact if_pos rfl
  | cons c s ih =>
      rcases h c List.mem_cons_self with ⟨hquote, hbackslash, hcontrol⟩
      rw [List.cons_append, takeUnits.eq_def]
      simp only [if_neg hquote, if_neg hbackslash, if_neg (by omega : ¬c.toNat < 0x20),
        ih fun d hd => h d (List.mem_cons_of_mem c hd)]
      rfl

/-- A plain string reads as itself. -/
theorem takeString_plain {s : List Char} (h : ∀ c ∈ s, PlainChar c) (rest : List Char) :
    takeString ('"' :: (s ++ '"' :: rest)) = some (s, rest) := by
  have hjoin : joinUnits (s.map .char) = some s :=
    joinUnits_map (fun c => Or.inl rfl) s
  rw [takeString, takeUnits_plain h]
  change (joinUnits (s.map .char)).bind _ = _
  rw [hjoin]
  rfl

theorem length_joinUnits {units : List StringUnit} {s : List Char}
    (h : joinUnits units = some s) : s.length ≤ units.length := by
  induction units using joinUnits.induct generalizing s with
  | case1 =>
      rcases Option.some.inj h with rfl
      exact le_rfl
  | case2 c rest ih =>
      rw [joinUnits] at h
      rcases Option.map_eq_some_iff.mp h with ⟨more, hmore, rfl⟩
      exact Nat.succ_le_succ (ih hmore)
  | case3 n hhigh m rest hlow ih =>
      rw [joinUnits.eq_def] at h
      simp only [if_pos hhigh, if_pos hlow] at h
      rcases Option.map_eq_some_iff.mp h with ⟨more, hmore, rfl⟩
      exact Nat.succ_le_succ (Nat.le_succ_of_le (ih hmore))
  | case4 n hhigh m rest hlow =>
      rw [joinUnits.eq_def] at h
      simp [hhigh, hlow] at h
  | case5 n rest hhigh hrest =>
      rw [joinUnits.eq_def] at h
      simp [hhigh] at h
  | case6 n rest hhigh hlow =>
      rw [joinUnits.eq_def] at h
      simp [hhigh, hlow] at h
  | case7 n rest hhigh hlow ih =>
      rw [joinUnits.eq_def] at h
      simp only [if_neg hhigh, if_neg hlow] at h
      rcases Option.map_eq_some_iff.mp h with ⟨more, hmore, rfl⟩
      exact Nat.succ_le_succ (ih hmore)

/-- A character in front of the quote is one of the pasted string. -/
theorem pasted_cons {w rest inner : List Char} {c : Char} (h : w ++ '"' :: rest = c :: inner)
    (hc : c ≠ '"') : ∃ w', w = c :: w' ∧ w' ++ '"' :: rest = inner := by
  cases w with
  | nil => exact absurd (List.cons.inj h).1.symm hc
  | cons d w =>
      rcases List.cons.inj h with ⟨rfl, hrest⟩
      exact ⟨w, rfl, hrest⟩

/-- A backslash in front of a letter that is no hexadecimal escape. -/
theorem takeUnits_backslash {e : Char} {inner : List Char}
    (hshape : ∀ h₃ h₂ h₁ h₀ rest, e = 'u' → inner = h₃ :: h₂ :: h₁ :: h₀ :: rest → False) :
    takeUnits ('\\' :: e :: inner) = (simpleEscape e).bind fun escaped =>
      (takeUnits inner).bind fun more => some (.char escaped :: more.1, more.2) := by
  rw [takeUnits.eq_def]
  dsimp only
  rw [if_neg (by decide), if_pos rfl]
  split
  · rename_i heq
    rcases List.cons.inj heq with ⟨rfl, rfl⟩
    exact (hshape _ _ _ _ _ rfl rfl).elim
  · rename_i heq
    rcases List.cons.inj heq with ⟨rfl, rfl⟩
    rfl
  · rename_i heq
    cases heq

theorem ne_quote_of_hexValue {c : Char} {n : ℕ} (h : hexValue c = some n) : c ≠ '"' := by
  rintro rfl
  cases h

/-- A string that is pasted in front of a quote is read as it is, or something shorter is read, or
the quote is part of what is read. -/
theorem takeUnits_pasted {w rest after : List Char} {units : List StringUnit}
    (h : takeUnits (w ++ '"' :: rest) = some (units, after)) :
    ((∀ c ∈ w, PlainChar c) ∧ after = rest ∧ units.length = w.length) ∨
      units.length < w.length ∨ ∃ more, takeUnits rest = some (more, after) := by
  generalize htext : w ++ '"' :: rest = text at h
  induction text using takeUnits.induct generalizing w units with
  | case1 => cases h
  | case2 inner =>
      rw [takeUnits.eq_def] at h
      rcases Option.some.inj ((if_pos rfl).symm.trans h) with ⟨rfl, rfl⟩
      cases w with
      | nil =>
          have hafter := (List.cons.inj htext).2
          exact Or.inl ⟨fun c hc => absurd hc List.not_mem_nil, hafter.symm, rfl⟩
      | cons c w => exact Or.inr (Or.inl (Nat.succ_pos _))
  | case3 h₃ h₂ h₁ h₀ inner hquote ih =>
      rw [takeUnits.eq_def] at h
      simp only [if_neg hquote, if_true] at h
      -- The quote is none of the hexadecimal digits.
      rcases Option.bind_eq_some_iff.mp h with ⟨n₃, hn₃, h⟩
      rcases Option.bind_eq_some_iff.mp h with ⟨n₂, hn₂, h⟩
      rcases Option.bind_eq_some_iff.mp h with ⟨n₁, hn₁, h⟩
      rcases Option.bind_eq_some_iff.mp h with ⟨n₀, hn₀, h⟩
      rcases Option.bind_eq_some_iff.mp h with ⟨more, hmore, hunits⟩
      rcases Option.some.inj hunits with ⟨rfl, rfl⟩
      rcases pasted_cons htext hquote with ⟨w₅, rfl, hw₅⟩
      rcases pasted_cons hw₅ (by decide) with ⟨w₄, rfl, hw₄⟩
      rcases pasted_cons hw₄ (ne_quote_of_hexValue hn₃) with ⟨w₃, rfl, hw₃⟩
      rcases pasted_cons hw₃ (ne_quote_of_hexValue hn₂) with ⟨w₂, rfl, hw₂⟩
      rcases pasted_cons hw₂ (ne_quote_of_hexValue hn₁) with ⟨w₁, rfl, hw₁⟩
      rcases pasted_cons hw₁ (ne_quote_of_hexValue hn₀) with ⟨w₀, rfl, hw₀⟩
      rcases ih hw₀ hmore with ⟨-, -, hsame⟩ | hshort | hswallowed
      · refine Or.inr (Or.inl ?_)
        simp only [List.length_cons]
        omega
      · refine Or.inr (Or.inl ?_)
        simp only [List.length_cons]
        omega
      · exact Or.inr (Or.inr hswallowed)
  | case4 e inner hshape hquote ih =>
      rw [takeUnits_backslash hshape] at h
      rcases Option.bind_eq_some_iff.mp h with ⟨escaped, hescaped, h⟩
      rcases Option.bind_eq_some_iff.mp h with ⟨more, hmore, hunits⟩
      rcases Option.some.inj hunits with ⟨rfl, rfl⟩
      rcases pasted_cons htext hquote with ⟨w₁, rfl, hw₁⟩
      cases w₁ with
      | nil =>
          rcases List.cons.inj hw₁ with ⟨rfl, rfl⟩
          exact Or.inr (Or.inr ⟨more.1, hmore⟩)
      | cons d w =>
          rcases List.cons.inj hw₁ with ⟨rfl, hrest⟩
          rcases ih hrest hmore with ⟨-, -, hsame⟩ | hshort | hswallowed
          · refine Or.inr (Or.inl ?_)
            simp only [List.length_cons]
            omega
          · refine Or.inr (Or.inl ?_)
            simp only [List.length_cons]
            omega
          · exact Or.inr (Or.inr hswallowed)
  | case5 hquote =>
      cases w with
      | nil => cases htext
      | cons c w => simp at htext
  | case6 c inner hquote hbackslash hcontrol =>
      rw [takeUnits.eq_def] at h
      simp [hquote, hbackslash, hcontrol] at h
  | case7 c inner hquote hbackslash hcontrol ih =>
      rw [takeUnits.eq_def] at h
      simp only [if_neg hquote, if_neg hbackslash, if_neg hcontrol] at h
      rcases Option.bind_eq_some_iff.mp h with ⟨more, hmore, hunits⟩
      rcases Option.some.inj hunits with ⟨rfl, rfl⟩
      cases w with
      | nil => exact absurd (List.cons.inj htext).1.symm hquote
      | cons d w =>
          rcases List.cons.inj htext with ⟨rfl, hrest⟩
          rcases ih hrest hmore with ⟨hplain, hafter, hsame⟩ | hshort | hswallowed
          · refine Or.inl ⟨fun c hc => ?_, hafter, congrArg Nat.succ hsame⟩
            rcases List.mem_cons.mp hc with rfl | hc
            · exact ⟨hquote, hbackslash, not_lt.mp hcontrol⟩
            · exact hplain c hc
          · exact Or.inr (Or.inl (Nat.succ_lt_succ hshort))
          · exact Or.inr (Or.inr hswallowed)

/-- A pasted string that reads as itself is plain, or the quote behind it is part of it. -/
theorem takeString_pasted {w rest after : List Char}
    (h : takeString ('"' :: (w ++ '"' :: rest)) = some (w, after)) :
    (∀ c ∈ w, PlainChar c) ∨ ∃ more, takeUnits rest = some (more, after) := by
  rw [takeString] at h
  rcases Option.bind_eq_some_iff.mp h with ⟨⟨units, remaining⟩, hunits, hjoined⟩
  rcases Option.bind_eq_some_iff.mp hjoined with ⟨chars, hchars, hpair⟩
  rcases Option.some.inj hpair with ⟨rfl, rfl⟩
  rcases takeUnits_pasted hunits with ⟨hplain, -, -⟩ | hshort | hswallowed
  · exact Or.inl hplain
  · have hlength : w.length ≤ units.length := length_joinUnits hchars
    omega
  · exact Or.inr hswallowed

/-! ## Objects with a pasted string -/

/-- An object whose first member is a pasted string, up to the quote behind the string, and more. -/
def pastedText (key value more : List Char) : List Char :=
  '{' :: '"' :: (key ++ '"' :: ':' :: '"' :: (value ++ '"' :: more))

/-- A member needs fuel for its value. -/
theorem takeMembers_one (text : List Char) : takeMembers 1 text = none := by
  rw [takeMembers]
  cases takeString (skipBlanks text) with
  | none => rfl
  | some key =>
      rw [Option.bind_some]
      cases takeSymbol ':' key.2 <;> rfl

theorem takeValue_quote (fuel : ℕ) (inner : List Char) :
    takeValue (fuel + 1) ('"' :: inner) =
      (takeString ('"' :: inner)).map fun s => (.text s.1, s.2) :=
  rfl

variable {key value more : List Char}

theorem takeValue_pastedText (hkey : ∀ c ∈ key, PlainChar c) (fuel : ℕ) :
    takeValue (fuel + 3) (pastedText key value more) =
      (((takeString ('"' :: (value ++ '"' :: more))).bind fun s =>
        (takeSymbol ',' s.2).elim
          ((takeSymbol '}' s.2).map fun text => ([(key, JsonValue.text s.1)], text))
          fun text => (takeMembers (fuel + 1) text).map fun members =>
            ((key, .text s.1) :: members.1, members.2)).map
        fun members => (.object members.1, members.2)) := by
  have hmembers : takeMembers (fuel + 2)
        ('"' :: (key ++ '"' :: ':' :: '"' :: (value ++ '"' :: more))) =
      (takeString ('"' :: (value ++ '"' :: more))).bind fun s =>
        (takeSymbol ',' s.2).elim
          ((takeSymbol '}' s.2).map fun text => ([(key, JsonValue.text s.1)], text))
          fun text => (takeMembers (fuel + 1) text).map fun members =>
            ((key, .text s.1) :: members.1, members.2) := by
    rw [takeMembers]
    change (takeString ('"' :: (key ++ '"' :: ':' :: '"' :: (value ++ '"' :: more)))).bind _ = _
    rw [takeString_plain hkey, Option.bind_some]
    change (takeValue (fuel + 1) ('"' :: (value ++ '"' :: more))).bind _ = _
    rw [takeValue_quote]
    cases takeString ('"' :: (value ++ '"' :: more)) <;> rfl
  rw [← hmembers]
  rfl

/-- A plain string is a member of the object that it is pasted into. -/
theorem denotes_pasted (hkey : ∀ c ∈ key, PlainChar c) (hvalue : ∀ c ∈ value, PlainChar c)
    {fuel : ℕ} {text : List Char} {members : List (List Char × JsonValue)}
    (hmore : takeSymbol ',' more = some text)
    (hmembers : takeMembers (fuel + 1) text = some (members, [])) :
    Denotes (pastedText key value more) (.object ((key, .text value) :: members)) := by
  refine ⟨fuel + 3, [], ?_, rfl⟩
  rw [takeValue_pastedText hkey, takeString_plain hvalue, Option.bind_some, hmore, Option.elim_some,
    hmembers]
  rfl

/-- An object that a string is pasted into has the string as a member only if it is plain, where
what follows is no object if the quote in front of it is part of the string. -/
theorem plain_of_denotes_pasted (hkey : ∀ c ∈ key, PlainChar c)
    (hends : ∀ units after, takeUnits more = some (units, after) →
      takeSymbol ',' after = none ∧ takeSymbol '}' after = none)
    {members : List (List Char × JsonValue)}
    (h : Denotes (pastedText key value more) (.object members)) :
    ∃ v rest, members = (key, v) :: rest ∧ (v = .text value → ∀ c ∈ value, PlainChar c) := by
  rcases h with ⟨fuel, rest, hvalue, -⟩
  rcases fuel with _ | _ | _ | fuel
  · cases hvalue
  · cases hvalue
  · change ((takeMembers 1 _).map _) = _ at hvalue
    rw [takeMembers_one] at hvalue
    cases hvalue
  rw [takeValue_pastedText hkey] at hvalue
  rcases Option.map_eq_some_iff.mp hvalue with ⟨object, hobject, hpair⟩
  rcases Option.bind_eq_some_iff.mp hobject with ⟨⟨s, after⟩, hs, hrest⟩
  have hmembers : object.1 = members := by
    injection hpair with hobject _
    injection hobject
  have hfirst : ∃ rest, members = (key, .text s) :: rest := by
    cases hcomma : takeSymbol ',' after with
    | none =>
        rw [hcomma] at hrest
        rcases Option.map_eq_some_iff.mp hrest with ⟨text, -, rfl⟩
        exact ⟨[], hmembers.symm⟩
    | some text =>
        rw [hcomma] at hrest
        rcases Option.map_eq_some_iff.mp hrest with ⟨others, -, rfl⟩
        exact ⟨others.1, hmembers.symm⟩
  rcases hfirst with ⟨others, hothers⟩
  refine ⟨.text s, others, hothers, fun hsame => ?_⟩
  rcases JsonValue.text.inj hsame with rfl
  rcases takeString_pasted hs with hplain | ⟨units, hswallowed⟩
  · exact hplain
  · rcases hends units after hswallowed with ⟨hcomma, hbrace⟩
    rw [hcomma, Option.elim_none, hbrace] at hrest
    cases hrest

end JsonGrammar
end Library
end MemosNote
