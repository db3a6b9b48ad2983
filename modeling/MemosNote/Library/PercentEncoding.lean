import MemosNote.Library.JsonText
import MemosNote.Library.Utf8

/-!
# Percent encoding

The bytes of the characters that are not kept are written as a percent sign and two hexadecimal
digits.  Strict decoding refuses what is not such an encoding; lenient decoding leaves it alone.

Main results:

- Theorem {lit}`decode_encode`, Theorem {lit}`bytes_encode`: both decodings give the text back.
- Theorem {lit}`decode_eq_self_iff`: strict decoding leaves a text alone when it has no percent
  sign.
-/

namespace MemosNote
namespace Library
namespace PercentEncoding

/-! ## Encoding -/

/-- An upper-case hexadecimal digit. -/
def digit (n : ℕ) : Char :=
  if n < 10 then Char.ofNat (48 + n) else Char.ofNat (55 + n)

def percentByte (b : UInt8) : List Char :=
  ['%', digit (b.toNat / 16), digit (b.toNat % 16)]

/-- The encoding of a character. -/
def encodeChar (keep : Char → Bool) (c : Char) : List Char :=
  if keep c then [c] else (String.utf8EncodeChar c).flatMap percentByte

def encode (keep : Char → Bool) (text : List Char) : List Char :=
  text.flatMap (encodeChar keep)

/-! ## Decoding -/

/-- The byte that two digits stand for. -/
def byteOf (h l : Char) : Option UInt8 :=
  (hexValue h).bind fun m => (hexValue l).map fun n => UInt8.ofNat (m * 16 + n)

/-- Strict decoding in the middle of a character, or between two. -/
def decodeFrom (d : Utf8.Decoder) : List Char → Option (List Char)
  | [] => if d.missing = 0 then some [] else none
  | c :: rest =>
      if c = '%' then
        match rest with
        | h :: l :: rest =>
            (byteOf h l).bind fun byte =>
              (d.next byte).bind fun step => (decodeFrom step.1 rest).map (step.2 ++ ·)
        | _ => none
      else if d.missing = 0 then (decodeFrom d rest).map (c :: ·)
      else none

def decode (text : List Char) : Option (List Char) :=
  decodeFrom {} text

/-- The bytes of lenient decoding. -/
def bytes : List Char → List UInt8
  | [] => []
  | c :: rest =>
      if c = '%' then
        match rest with
        | h :: l :: rest =>
            (byteOf h l).elim (String.utf8EncodeChar '%' ++ bytes (h :: l :: rest))
              (· :: bytes rest)
        | rest => String.utf8EncodeChar '%' ++ bytes rest
      else String.utf8EncodeChar c ++ bytes rest

/-! ## Digits -/

theorem hexValue_digit : ∀ n < 16, hexValue (digit n) = some n := by
  decide

theorem byteOf_digits (b : UInt8) :
    byteOf (digit (b.toNat / 16)) (digit (b.toNat % 16)) = some b := by
  have hb : b.toNat < 256 := b.toNat_lt
  have hvalue : b.toNat / 16 * 16 + b.toNat % 16 = b.toNat := by omega
  rw [byteOf, hexValue_digit _ (by omega), hexValue_digit _ (by omega), Option.bind_some,
    Option.map_some, hvalue, UInt8.ofNat_toNat]

theorem decodeFrom_percentByte (d : Utf8.Decoder) (b : UInt8) (rest : List Char) :
    decodeFrom d (percentByte b ++ rest) =
      (d.next b).bind fun step => (decodeFrom step.1 rest).map (step.2 ++ ·) := by
  have htext : percentByte b ++ rest =
      '%' :: digit (b.toNat / 16) :: digit (b.toNat % 16) :: rest := rfl
  rw [htext, decodeFrom.eq_def]
  simp only [if_true, byteOf_digits, Option.bind_some]

theorem decodeFrom_cons {c : Char} (hc : c ≠ '%') (rest : List Char) :
    decodeFrom {} (c :: rest) = (decodeFrom {} rest).map (c :: ·) := by
  rw [decodeFrom.eq_def]
  simp only [if_neg hc, if_true]

theorem bytes_percentByte (b : UInt8) (rest : List Char) :
    bytes (percentByte b ++ rest) = b :: bytes rest := by
  have htext : percentByte b ++ rest =
      '%' :: digit (b.toNat / 16) :: digit (b.toNat % 16) :: rest := rfl
  rw [htext, bytes.eq_def]
  simp only [if_true, byteOf_digits, Option.elim_some]

theorem bytes_cons {c : Char} (hc : c ≠ '%') (rest : List Char) :
    bytes (c :: rest) = String.utf8EncodeChar c ++ bytes rest := by
  rw [bytes.eq_def]
  simp only [if_neg hc]

/-! ## Round trips -/

/-- Bytes that fit are decoded to their characters. -/
theorem decodeFrom_percentBytes {d d' : Utf8.Decoder} {bs : List UInt8} {text : List Char}
    (h : d.accept bs = some (d', text)) (rest : List Char) :
    decodeFrom d (bs.flatMap percentByte ++ rest) = (decodeFrom d' rest).map (text ++ ·) := by
  induction bs generalizing d text with
  | nil =>
      cases h
      simp
  | cons b bs ih =>
      rw [Utf8.Decoder.accept] at h
      rcases Option.bind_eq_some_iff.mp h with ⟨step, hstep, hmap⟩
      rcases Option.map_eq_some_iff.mp hmap with ⟨more, hmore, hresult⟩
      cases hresult
      rw [List.flatMap_cons, List.append_assoc, decodeFrom_percentByte, hstep, Option.bind_some,
        ih hmore]
      cases decodeFrom more.1 rest <;> simp

theorem bytes_percentBytes (bs : List UInt8) (rest : List Char) :
    bytes (bs.flatMap percentByte ++ rest) = bs ++ bytes rest := by
  induction bs with
  | nil => rfl
  | cons b bs ih =>
      rw [List.flatMap_cons, List.append_assoc, bytes_percentByte, ih]
      rfl

section RoundTrips

variable {keep : Char → Bool} (hkeep : keep '%' = false)
include hkeep

/-- Strict decoding gives the text back. -/
theorem decode_encode (text : List Char) : decode (encode keep text) = some text := by
  induction text with
  | nil => rfl
  | cons c text ih =>
      rw [decode] at ih
      rw [decode, encode, List.flatMap_cons, encodeChar]
      by_cases hc : keep c = true
      · have hpercent : c ≠ '%' := by
          rintro rfl
          rw [hkeep] at hc
          cases hc
        rw [if_pos hc, List.singleton_append, decodeFrom_cons hpercent]
        change (decodeFrom {} (encode keep text)).map _ = _
        rw [ih]
        rfl
      · rw [if_neg hc, decodeFrom_percentBytes (Utf8.Decoder.accept_encodeChar c)]
        change (decodeFrom {} (encode keep text)).map _ = _
        rw [ih]
        rfl

theorem bytes_encode_append (text rest : List Char) :
    bytes (encode keep text ++ rest) = Utf8.encode text ++ bytes rest := by
  induction text with
  | nil => rfl
  | cons c text ih =>
      have hcons : Utf8.encode (c :: text) = String.utf8EncodeChar c ++ Utf8.encode text :=
        List.flatMap_cons
      rw [encode, List.flatMap_cons, encodeChar, hcons, List.append_assoc, List.append_assoc, ← ih]
      by_cases hc : keep c = true
      · have hpercent : c ≠ '%' := by
          rintro rfl
          rw [hkeep] at hc
          cases hc
        rw [if_pos hc, List.singleton_append, bytes_cons hpercent]
        rfl
      · rw [if_neg hc, bytes_percentBytes]
        rfl

/-- Lenient decoding gives the bytes of the text. -/
theorem bytes_encode (text : List Char) : bytes (encode keep text) = Utf8.encode text := by
  have h := bytes_encode_append hkeep text []
  rw [List.append_nil] at h
  exact h.trans (List.append_nil _)

end RoundTrips

/-! ## Texts without percent signs -/

/-- A byte completes at most one character. -/
theorem length_next {d : Utf8.Decoder} {b : UInt8} {step : Utf8.Decoder × List Char}
    (h : d.next b = some step) : step.2.length ≤ 1 := by
  unfold Utf8.Decoder.next Utf8.Decoder.first at h
  dsimp only at h
  split_ifs at h <;> cases h <;> simp

/-- Digits are no percent signs. -/
theorem byteOf_ne {h l : Char} {b : UInt8} (hb : byteOf h l = some b) : h ≠ '%' ∧ l ≠ '%' := by
  have hnone : hexValue '%' = none := by decide
  rcases Option.bind_eq_some_iff.mp hb with ⟨m, hm, hmap⟩
  rcases Option.map_eq_some_iff.mp hmap with ⟨n, hn, -⟩
  constructor
  · rintro rfl
    rw [hnone] at hm
    cases hm
  · rintro rfl
    rw [hnone] at hn
    cases hn

/-- Every percent sign stands for two characters that are lost. -/
theorem length_decodeFrom {d : Utf8.Decoder} {text out : List Char}
    (h : decodeFrom d text = some out) : out.length + 2 * text.count '%' ≤ text.length := by
  induction d, text using decodeFrom.induct generalizing out with
  | case1 d hd =>
      rw [decodeFrom, if_pos hd] at h
      cases h
      exact Nat.le_refl 0
  | case2 d hd =>
      rw [decodeFrom, if_neg hd] at h
      cases h
  | case3 d hi lo rest ih =>
      rw [decodeFrom, if_pos rfl] at h
      rcases Option.bind_eq_some_iff.mp h with ⟨b, hb, hstep⟩
      rcases Option.bind_eq_some_iff.mp hstep with ⟨step, hnext, hmap⟩
      rcases Option.map_eq_some_iff.mp hmap with ⟨more, hmore, rfl⟩
      have hrest := ih step hmore
      have hone := length_next hnext
      rcases byteOf_ne hb with ⟨hhi, hlo⟩
      simp only [List.count_cons_self, List.count_cons_of_ne hhi, List.count_cons_of_ne hlo,
        List.length_cons, List.length_append]
      omega
  | case4 d rest hshort =>
      have hnone : decodeFrom d ('%' :: rest) = none := by
        rw [decodeFrom.eq_def]
        simp only [if_true]
      rw [hnone] at h
      cases h
  | case5 d c rest hc hd ih =>
      rw [decodeFrom.eq_def] at h
      simp only [if_neg hc, if_pos hd] at h
      rcases Option.map_eq_some_iff.mp h with ⟨more, hmore, rfl⟩
      have hrest := ih hmore
      rw [List.count_cons_of_ne hc, List.length_cons, List.length_cons]
      omega
  | case6 d c rest hc hd =>
      rw [decodeFrom.eq_def] at h
      simp only [if_neg hc, if_neg hd] at h
      cases h

theorem bytes_plain_append {text : List Char} (h : '%' ∉ text) (rest : List Char) :
    bytes (text ++ rest) = Utf8.encode text ++ bytes rest := by
  induction text with
  | nil => rfl
  | cons c text ih =>
      have hc : c ≠ '%' := fun he => h (he ▸ List.mem_cons_self)
      have hcons : Utf8.encode (c :: text) = String.utf8EncodeChar c ++ Utf8.encode text :=
        List.flatMap_cons
      rw [List.cons_append, bytes_cons hc, ih fun hmem => h (List.mem_cons_of_mem c hmem), hcons,
        List.append_assoc]

/-- Strict decoding leaves a text alone exactly when it has no percent sign. -/
theorem decode_eq_self_iff {text : List Char} : decode text = some text ↔ '%' ∉ text := by
  constructor
  · intro h hmem
    have hlength := length_decodeFrom h
    have hcount : 0 < text.count '%' := List.count_pos_iff.mpr hmem
    omega
  · intro h
    induction text with
    | nil => rfl
    | cons c text ih =>
        have hc : c ≠ '%' := fun he => h (he ▸ List.mem_cons_self)
        have htext := ih fun hmem => h (List.mem_cons_of_mem c hmem)
        rw [decode] at htext
        rw [decode, decodeFrom_cons hc, htext]
        rfl

end PercentEncoding
end Library
end MemosNote
