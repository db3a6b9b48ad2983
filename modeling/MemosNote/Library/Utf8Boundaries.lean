import MemosNote.Library.Utf8

/-!
# Cutting UTF-8 between characters

The first byte of a character continues none, and every further byte of it does.  Encoded texts may
therefore be cut in front of every byte that continues no character, and only there.

Main results:

- Theorem {lit}`encode_cut`: the parts of an encoded text that is cut in front of a first byte.
- Theorem {lit}`encode_cancel`: what follows an encoded text in an encoded text.
- Theorem {lit}`valid_take_iff`: which beginnings of a valid text are valid.
-/

namespace MemosNote
namespace Library
namespace Utf8

/-- The bytes are those of a text. -/
def Valid (bytes : List UInt8) : Prop :=
  ∃ text, bytes = encode text

/-- The byte continues a character. -/
def Continues (byte : UInt8) : Prop :=
  0x80 ≤ byte.toNat ∧ byte.toNat ≤ 0xbf

instance : DecidablePred Continues :=
  fun byte => inferInstanceAs (Decidable (0x80 ≤ byte.toNat ∧ byte.toNat ≤ 0xbf))

/-- The bytes do not begin within a character. -/
def Starts (bytes : List UInt8) : Prop :=
  ∀ byte, bytes.head? = some byte → ¬Continues byte

theorem encode_cons (c : Char) (text : List Char) :
    encode (c :: text) = String.utf8EncodeChar c ++ encode text :=
  List.flatMap_cons

theorem continues_tail (v : ℕ) : Continues (UInt8.ofNat (v % 0x40 + 0x80)) := by
  rw [Continues, Decoder.toNat_tail]
  omega

/-- The first byte of a character of several bytes. -/
theorem not_continues_first {v : ℕ} (h : 0xc0 ≤ v) (hbyte : v < 256) :
    ¬Continues (UInt8.ofNat v) := by
  rw [Continues, Decoder.toNat_ofNat hbyte]
  omega

/-- A character is a first byte and bytes that continue it. -/
theorem encodeChar_eq (c : Char) : ∃ byte tail, String.utf8EncodeChar c = byte :: tail ∧
    ¬Continues byte ∧ ∀ b ∈ tail, Continues b := by
  have hvalid : c.toNat < 0xd800 ∨ 0xdfff < c.toNat ∧ c.toNat < 0x110000 := c.valid
  have hval : c.val.toNat = c.toNat := rfl
  unfold String.utf8EncodeChar
  rw [hval]
  generalize c.toNat = v at hvalid
  dsimp only
  by_cases hone : v ≤ 0x7f
  · rw [if_pos hone]
    refine ⟨_, _, rfl, ?_, fun b hb => absurd hb List.not_mem_nil⟩
    rw [Continues, Decoder.toNat_ofNat (by omega)]
    omega
  by_cases htwo : v ≤ 0x7ff
  · rw [if_neg hone, if_pos htwo]
    refine ⟨_, _, rfl, not_continues_first (by omega) (by omega), fun b hb => ?_⟩
    rw [List.mem_singleton.mp hb]
    exact continues_tail v
  by_cases hthree : v ≤ 0xffff
  · rw [if_neg hone, if_neg htwo, if_pos hthree]
    refine ⟨_, _, rfl, not_continues_first (by omega) (by omega), fun b hb => ?_⟩
    simp only [List.mem_cons, List.not_mem_nil, or_false] at hb
    rcases hb with rfl | rfl
    · exact continues_tail (v / 64)
    · exact continues_tail v
  · rw [if_neg hone, if_neg htwo, if_neg hthree]
    refine ⟨_, _, rfl, not_continues_first (by omega) (by omega), fun b hb => ?_⟩
    simp only [List.mem_cons, List.not_mem_nil, or_false] at hb
    rcases hb with rfl | rfl | rfl
    · exact continues_tail (v / 4096)
    · exact continues_tail (v / 64)
    · exact continues_tail v

/-- A character of one byte. -/
theorem encodeChar_of_lt {c : Char} (h : c.toNat < 0x80) :
    String.utf8EncodeChar c = [UInt8.ofNat c.toNat] := by
  unfold String.utf8EncodeChar
  rw [show c.val.toNat = c.toNat from rfl]
  dsimp only
  rw [if_pos (by omega)]

/-- A first byte below 128 is the character. -/
theorem toNat_of_encodeChar {c : Char} {byte : UInt8} {tail : List UInt8}
    (h : String.utf8EncodeChar c = byte :: tail) (hbyte : byte.toNat < 0x80) :
    c.toNat = byte.toNat ∧ tail = [] := by
  have hvalid : c.toNat < 0xd800 ∨ 0xdfff < c.toNat ∧ c.toNat < 0x110000 := c.valid
  by_cases hsmall : c.toNat < 0x80
  · rw [encodeChar_of_lt hsmall, List.cons.injEq] at h
    rw [← h.1, Decoder.toNat_ofNat (by omega)]
    exact ⟨rfl, h.2.symm⟩
  · have hfirst : ∃ v, 0xc0 ≤ v ∧ v < 256 ∧ byte = UInt8.ofNat v := by
      have hval : c.val.toNat = c.toNat := rfl
      unfold String.utf8EncodeChar at h
      rw [hval] at h
      dsimp only at h
      split_ifs at h
      · omega
      · exact ⟨_, by omega, by omega, (List.cons.inj h).1.symm⟩
      · exact ⟨_, by omega, by omega, (List.cons.inj h).1.symm⟩
      · exact ⟨_, by omega, by omega, (List.cons.inj h).1.symm⟩
    rcases hfirst with ⟨v, hlow, hhigh, rfl⟩
    rw [Decoder.toNat_ofNat hhigh] at hbyte
    omega

theorem length_le_encode (text : List Char) : text.length ≤ (encode text).length := by
  induction text with
  | nil => exact Nat.le_refl 0
  | cons c text ih =>
      rcases encodeChar_eq c with ⟨byte, tail, hchar, -, -⟩
      rw [encode_cons, hchar, List.length_append, List.length_cons, List.length_cons]
      omega

theorem starts_encode (text : List Char) : Starts (encode text) := by
  intro byte hbyte
  cases text with
  | nil => cases hbyte
  | cons c text =>
      rcases encodeChar_eq c with ⟨first, tail, hchar, hfirst, -⟩
      rw [encode_cons, hchar, List.cons_append, List.head?_cons] at hbyte
      rcases Option.some.inj hbyte with rfl
      exact hfirst

/-- An encoded text that is cut in front of a first byte is cut between characters. -/
theorem encode_cut {text : List Char} {front back : List UInt8} (h : encode text = front ++ back)
    (hback : Starts back) :
    ∃ s t, text = s ++ t ∧ front = encode s ∧ back = encode t := by
  induction text generalizing front with
  | nil =>
      rcases List.append_eq_nil_iff.mp h.symm with ⟨rfl, rfl⟩
      exact ⟨[], [], rfl, rfl, rfl⟩
  | cons c text ih =>
      rcases encodeChar_eq c with ⟨first, tail, hchar, -, htail⟩
      rw [encode_cons] at h
      rcases List.append_eq_append_iff.mp h with ⟨more, hfront, hrest⟩ | ⟨more, hchars, hrest⟩
      · rcases ih hrest with ⟨s, t, rfl, hs, ht⟩
        refine ⟨c :: s, t, rfl, ?_, ht⟩
        rw [hfront, hs, encode_cons]
      cases front with
      | nil =>
          refine ⟨[], c :: text, rfl, rfl, ?_⟩
          rw [hrest, encode_cons, hchars, List.nil_append]
      | cons byte front =>
          cases more with
          | nil =>
              rw [List.append_nil] at hchars
              refine ⟨[c], text, rfl, ?_, hrest⟩
              rw [← hchars, encode_cons]
              exact (List.append_nil _).symm
          | cons b more =>
              -- The cut is behind the first byte of the character.
              rw [hchar, List.cons_append, List.cons.injEq] at hchars
              have hcontinues : Continues b := by
                apply htail
                rw [hchars.2]
                exact List.mem_append_right _ List.mem_cons_self
              refine absurd hcontinues (hback b ?_)
              rw [hrest]
              rfl

/-- What follows an encoded text in an encoded text is encoded. -/
theorem encode_cancel {text s : List Char} {back : List UInt8}
    (h : encode text = encode s ++ back) : ∃ t, text = s ++ t ∧ back = encode t := by
  have haccept := Decoder.accept_append (Decoder.accept_encode s) back
  rw [← h, Decoder.accept_encode] at haccept
  rcases Option.map_eq_some_iff.mp haccept.symm with ⟨rest, -, hpair⟩
  rw [Prod.mk.injEq] at hpair
  rcases hpair with ⟨-, rfl⟩
  refine ⟨rest.2, rfl, ?_⟩
  rw [encode_append] at h
  exact (List.append_cancel_left h).symm

theorem encode_injective {s t : List Char} (h : encode s = encode t) : s = t := by
  have hdecode := decode_encode s
  rw [h, decode_encode] at hdecode
  exact hdecode.symm

/-- A beginning of a valid text is valid if and only if it is cut between characters. -/
theorem valid_take_iff {bytes : List UInt8} (h : Valid bytes) (n : ℕ) :
    Valid (bytes.take n) ↔ Starts (bytes.drop n) := by
  rcases h with ⟨text, rfl⟩
  have hsplit : encode text = (encode text).take n ++ (encode text).drop n :=
    (List.take_append_drop n _).symm
  constructor
  · intro htake
    rcases htake with ⟨s, hs⟩
    rw [hs] at hsplit
    rcases encode_cancel hsplit with ⟨t, -, ht⟩
    rw [ht]
    exact starts_encode t
  · intro hstarts
    rcases encode_cut hsplit hstarts with ⟨s, t, -, hs, -⟩
    exact ⟨s, hs⟩

theorem Valid.append {bytes bytes' : List UInt8} (h : Valid bytes) (h' : Valid bytes') :
    Valid (bytes ++ bytes') := by
  rcases h with ⟨text, rfl⟩
  rcases h' with ⟨text', rfl⟩
  exact ⟨text ++ text', (encode_append text text').symm⟩

end Utf8
end Library
end MemosNote
