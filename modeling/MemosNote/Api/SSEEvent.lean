import MemosNote.Library.JsonObject
import MemosNote.Store.Database

/-!
# Change events

A change event is sent to the clients as a JSON object; an empty parent is left out.  Which client
may receive it is decided by fields that are not sent.

Main results:

- Theorem {lit}`parseObject_JSON`: the object is read back.
- Theorem {lit}`newline_notMem_JSON`: it is written on one line.
-/

namespace MemosNote
namespace Api

open Library Library.JsonObject Store

inductive SSEEventType where
  | SSEEventMemoCreated
  | SSEEventMemoUpdated
  | SSEEventMemoDeleted
  | SSEEventMemoCommentCreated
  | SSEEventReactionUpserted
  | SSEEventReactionDeleted
deriving DecidableEq, Repr

def SSEEventType.text : SSEEventType → String
  | SSEEventMemoCreated => "memo.created"
  | SSEEventMemoUpdated => "memo.updated"
  | SSEEventMemoDeleted => "memo.deleted"
  | SSEEventMemoCommentCreated => "memo.comment.created"
  | SSEEventReactionUpserted => "reaction.upserted"
  | SSEEventReactionDeleted => "reaction.deleted"

structure SSEEvent where
  EventType : SSEEventType
  Name : String
  Parent : String := ""
  Visibility : String := ""
  CreatorID : ℤ := 0
deriving DecidableEq, Repr

/-! ## Writing -/

/-- A character in a string of {lit}`json.Marshal`, which also escapes what has a meaning in HTML
and the line separators of JavaScript. -/
def appendChar (c : Char) : List Char :=
  if c = '<' ∨ c = '>' ∨ c = '&' then
    ['\\', 'u', '0', '0', Nat.digitChar (c.toNat / 16), Nat.digitChar (c.toNat % 16)]
  else if c.toNat = 0x2028 ∨ c.toNat = 0x2029 then
    ['\\', 'u', '2', '0', '2', Nat.digitChar (c.toNat % 16)]
  else escapeChar c

namespace SSEEvent

/-- The members behind the first. -/
def members (e : SSEEvent) : List (String × String) :=
  ("name", e.Name) :: if e.Parent = "" then [] else [("parent", e.Parent)]

/-- The object that is sent. -/
def JSON (e : SSEEvent) : List Char :=
  objectText appendChar ("type", e.EventType.text) e.members

end SSEEvent

/-! ## Reading back -/

/-- How an escape is read. -/
def readAs (c : Char) : StringUnit :=
  if c = '<' ∨ c = '>' ∨ c = '&' ∨ c.toNat = 0x2028 ∨ c.toNat = 0x2029 ∨
      c.toNat < 0x20 ∧ c.toNat ∉ [8, 9, 10, 12, 13] then .code c.toNat
  else .char c

private theorem readAs_standsFor (c : Char) : StandsFor (readAs c) c := by
  unfold readAs
  split
  · rename_i hcode
    right
    refine ⟨rfl, ?_⟩
    rcases hcode with rfl | rfl | rfl | h | h | ⟨h, -⟩
    · decide
    · decide
    · decide
    · omega
    · omega
    · omega
  · exact .inl rfl

theorem hexValue_digitChar : ∀ n < 16, hexValue (Nat.digitChar n) = some n := by
  decide

/-- An escape of four digits is read as its number. -/
theorem takeUnits_code {h₃ h₂ h₁ h₀ : Char} {n₃ n₂ n₁ n₀ : ℕ} (hh₃ : hexValue h₃ = some n₃)
    (hh₂ : hexValue h₂ = some n₂) (hh₁ : hexValue h₁ = some n₁) (hh₀ : hexValue h₀ = some n₀)
    (rest : List Char) :
    takeUnits ('\\' :: 'u' :: h₃ :: h₂ :: h₁ :: h₀ :: rest) =
      (takeUnits rest).map fun more =>
        (.code (((n₃ * 16 + n₂) * 16 + n₁) * 16 + n₀) :: more.1, more.2) := by
  rw [takeUnits.eq_def]
  simp only [hh₃, hh₂, hh₁, hh₀]
  cases takeUnits rest <;> rfl

private theorem takeUnits_char {c : Char} (h : PlainChar c) (rest : List Char) :
    takeUnits (c :: rest) = (takeUnits rest).map fun more => (.char c :: more.1, more.2) := by
  rcases h with ⟨hquote, hbackslash, hcontrol⟩
  rw [takeUnits.eq_def]
  simp only [if_neg hquote, if_neg hbackslash, if_neg (by omega : ¬c.toNat < 0x20)]
  cases takeUnits rest <;> rfl

/-- An escape of one letter is read as what it stands for. -/
theorem takeUnits_escape {e d : Char} (he : simpleEscape e = some d) (hu : e ≠ 'u')
    (rest : List Char) :
    takeUnits ('\\' :: e :: rest) =
      (takeUnits rest).map fun more => (.char d :: more.1, more.2) := by
  rw [takeUnits.eq_def]
  simp only
  rw [if_neg (by decide), if_pos trivial]
  split
  · rename_i heq
    exact absurd (List.cons.inj heq).1 hu
  · rename_i heq
    rcases List.cons.inj heq with ⟨rfl, rfl⟩
    rw [he]
    cases takeUnits rest <;> rfl
  · contradiction

/-- A control character. -/
theorem takeUnits_control {c : Char} (h : c.toNat < 0x20) (rest : List Char) :
    takeUnits (escapeChar c ++ rest) =
      (takeUnits rest).map fun more => (readAs c :: more.1, more.2) := by
  have hspecial : ¬(c = '"' ∨ c = '\\') := by
    rintro (rfl | rfl)
    · exact absurd h (by decide)
    · exact absurd h (by decide)
  have hself : Char.ofNat c.toNat = c := Char.ofNat_toNat c
  rw [escapeChar, if_neg hspecial, if_pos h]
  split
  case h_6 n h8 h9 h10 h12 h13 =>
    have hread : readAs c = .code c.toNat := by
      have hmem : c.toNat ∉ [8, 9, 10, 12, 13] := by
        simp only [List.mem_cons, List.not_mem_nil, or_false]
        rintro (h' | h' | h' | h' | h')
        · exact h8 h'
        · exact h9 h'
        · exact h10 h'
        · exact h12 h'
        · exact h13 h'
      exact if_pos (.inr (.inr (.inr (.inr (.inr ⟨h, hmem⟩)))))
    have hzero : hexValue '0' = some 0 := by decide
    have hhigh := hexValue_digitChar (c.toNat / 16) (by omega)
    have hlow := hexValue_digitChar (c.toNat % 16) (by omega)
    have hvalue : ((0 * 16 + 0) * 16 + c.toNat / 16) * 16 + c.toNat % 16 = c.toNat := by omega
    have htake := takeUnits_code hzero hzero hhigh hlow rest
    rw [hvalue, ← hread] at htake
    exact htake
  all_goals
    rename_i hn
    rw [hn] at hself
    rw [← hself]
    exact takeUnits_escape (by decide) (by decide) rest

/-- Every escape of {lit}`json.Marshal` is read as its character. -/
theorem appendChar_readsAs : ReadsAs appendChar readAs := by
  intro c rest
  have hzero : hexValue '0' = some 0 := by decide
  have htwo : hexValue '2' = some 2 := by decide
  by_cases hhtml : c = '<' ∨ c = '>' ∨ c = '&'
  · have hsmall : c.toNat < 256 := by
      rcases hhtml with rfl | rfl | rfl <;> decide
    have hread : readAs c = .code c.toNat := by
      rcases hhtml with rfl | rfl | rfl <;> rfl
    have hhigh := hexValue_digitChar (c.toNat / 16) (by omega)
    have hlow := hexValue_digitChar (c.toNat % 16) (by omega)
    have hvalue : ((0 * 16 + 0) * 16 + c.toNat / 16) * 16 + c.toNat % 16 = c.toNat := by omega
    have htake := takeUnits_code hzero hzero hhigh hlow rest
    rw [hvalue, ← hread] at htake
    rw [appendChar, if_pos hhtml]
    exact htake
  by_cases hline : c.toNat = 0x2028 ∨ c.toNat = 0x2029
  · have hread : readAs c = .code c.toNat := if_pos (by tauto)
    have hlow := hexValue_digitChar (c.toNat % 16) (by omega)
    have hvalue : ((2 * 16 + 0) * 16 + 2) * 16 + c.toNat % 16 = c.toNat := by omega
    have htake := takeUnits_code htwo hzero htwo hlow rest
    rw [hvalue, ← hread] at htake
    rw [appendChar, if_neg hhtml, if_pos hline]
    exact htake
  rw [appendChar, if_neg hhtml, if_neg hline]
  by_cases hcontrol : c.toNat < 0x20
  · exact takeUnits_control hcontrol rest
  have hread : readAs c = .char c := if_neg (by tauto)
  rw [hread]
  by_cases hspecial : c = '"' ∨ c = '\\'
  · rw [escapeChar, if_pos hspecial]
    rcases hspecial with rfl | rfl
    · exact takeUnits_escape (by decide) (by decide) rest
    · exact takeUnits_escape (by decide) (by decide) rest
  · have hplain : PlainChar c := ⟨fun h => hspecial (.inl h), fun h => hspecial (.inr h), by omega⟩
    rw [escapeChar_plain hplain]
    exact takeUnits_char hplain rest

/-- The object is read back, its last member in front. -/
theorem parseObject_JSON (e : SSEEvent) :
    parseObject e.JSON = some (e.members.reverse ++ [("type", e.EventType.text)]) :=
  parseObject_objectText appendChar_readsAs readAs_standsFor _ _

/-! ## One line -/

theorem digitChar_ne_newline : ∀ n < 16, Nat.digitChar n ≠ '\n' := by
  decide

private theorem newline_notMem_appendChar (c : Char) : '\n' ∉ appendChar c := by
  by_cases hhtml : c = '<' ∨ c = '>' ∨ c = '&'
  · rw [appendChar, if_pos hhtml]
    rcases hhtml with rfl | rfl | rfl <;> decide
  by_cases hline : c.toNat = 0x2028 ∨ c.toNat = 0x2029
  · have hlow := digitChar_ne_newline (c.toNat % 16) (by omega)
    rw [appendChar, if_neg hhtml, if_pos hline]
    simp [hlow.symm]
  rw [appendChar, if_neg hhtml, if_neg hline, escapeChar]
  by_cases hspecial : c = '"' ∨ c = '\\'
  · rw [if_pos hspecial]
    rcases hspecial with rfl | rfl <;> decide
  by_cases hcontrol : c.toNat < 0x20
  · rw [if_neg hspecial, if_pos hcontrol]
    have hhigh := digitChar_ne_newline (c.toNat / 16) (by omega)
    have hlow := digitChar_ne_newline (c.toNat % 16) (by omega)
    split
    case h_6 => simp [hhigh.symm, hlow.symm]
    all_goals decide
  · rw [if_neg hspecial, if_neg hcontrol, List.mem_singleton]
    rintro rfl
    exact hcontrol (by decide)

theorem newline_notMem_memberText (member : String × String) :
    '\n' ∉ memberText appendChar member := by
  have hquote : ∀ s : String, '\n' ∉ quote appendChar s := by
    intro s h
    simp only [quote, List.mem_cons, List.mem_append, List.mem_flatMap, List.not_mem_nil,
      or_false] at h
    rcases h with h | ⟨c, -, h⟩ | h
    · exact absurd h (by decide)
    · exact newline_notMem_appendChar c h
    · exact absurd h (by decide)
  intro h
  rcases List.mem_append.mp h with h | h
  · exact hquote _ h
  · rcases List.mem_cons.mp h with h | h
    · exact absurd h (by decide)
    · exact hquote _ h

/-- The object is written on one line. -/
theorem newline_notMem_JSON (e : SSEEvent) : '\n' ∉ e.JSON := by
  intro h
  simp only [SSEEvent.JSON, objectText, moreText, List.mem_cons, List.mem_append,
    List.mem_flatMap, List.not_mem_nil, or_false] at h
  rcases h with h | (h | ⟨member, -, h | h⟩) | h
  · exact absurd h (by decide)
  · exact newline_notMem_memberText _ h
  · exact absurd h (by decide)
  · exact newline_notMem_memberText _ h
  · exact absurd h (by decide)

end Api
end MemosNote
