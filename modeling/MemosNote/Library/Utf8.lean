import Mathlib.Data.Nat.Notation
import Mathlib.Data.List.Basic

/-!
# Decoding UTF-8 one byte at a time

A decoder keeps the bits read so far, how many bytes are missing and the bounds of the next one.
A byte that does not fit is refused, or gives a replacement character and starts again.

Main results:

- Theorem {lit}`Decoder.run_append`: the bytes may be cut anywhere.
- Theorem {lit}`Decoder.accept_encode`: what was encoded is decoded, and nothing is missing.
- Theorem {lit}`TextDecoder.flatten_decodeAll_encode`: the same for chunks, one by one.
-/

namespace MemosNote
namespace Library
namespace Utf8

/-- The bytes of a text. -/
def encode (text : List Char) : List UInt8 :=
  text.flatMap String.utf8EncodeChar

theorem encode_append (text text' : List Char) :
    encode (text ++ text') = encode text ++ encode text' :=
  List.flatMap_append

/-- What stands for bytes that are no character. -/
def replacement : Char :=
  Char.ofNat 0xfffd

/-- The character that is being read. -/
structure Decoder where
  codePoint : ℕ := 0
  missing : ℕ := 0
  lower : ℕ := 0x80
  upper : ℕ := 0xbf
deriving DecidableEq, Repr

namespace Decoder

/-- The first byte of a character. -/
def first (b : ℕ) : Option (Decoder × List Char) :=
  if b ≤ 0x7f then some ({}, [Char.ofNat b])
  else if 0xc2 ≤ b ∧ b ≤ 0xdf then some ({ codePoint := b % 0x20, missing := 1 }, [])
  else if 0xe0 ≤ b ∧ b ≤ 0xef then
    some ({ codePoint := b % 0x10
            missing := 2
            lower := if b = 0xe0 then 0xa0 else 0x80
            upper := if b = 0xed then 0x9f else 0xbf }, [])
  else if 0xf0 ≤ b ∧ b ≤ 0xf4 then
    some ({ codePoint := b % 0x08
            missing := 3
            lower := if b = 0xf0 then 0x90 else 0x80
            upper := if b = 0xf4 then 0x8f else 0xbf }, [])
  else none

/-- A byte that fits, and the characters it completes. -/
def next (d : Decoder) (byte : UInt8) : Option (Decoder × List Char) :=
  let b := byte.toNat
  if d.missing = 0 then first b
  else if d.lower ≤ b ∧ b ≤ d.upper then
    let codePoint := d.codePoint * 64 + b % 64
    if d.missing = 1 then some ({}, [Char.ofNat codePoint])
    else some ({ codePoint, missing := d.missing - 1 }, [])
  else none

/-- Any byte.  One that does not fit ends the character, and may start another. -/
def push (d : Decoder) (byte : UInt8) : Decoder × List Char :=
  (d.next byte).getD (
    if d.missing = 0 then ({}, [replacement])
    else
      let start := (first byte.toNat).getD ({}, [replacement])
      (start.1, replacement :: start.2))

/-- Some bytes that all fit. -/
def accept (d : Decoder) : List UInt8 → Option (Decoder × List Char)
  | [] => some (d, [])
  | byte :: bytes =>
      (d.next byte).bind fun step =>
        (accept step.1 bytes).map fun rest => (rest.1, step.2 ++ rest.2)

/-- Some bytes. -/
def run (d : Decoder) : List UInt8 → Decoder × List Char
  | [] => (d, [])
  | byte :: bytes =>
      let rest := run (d.push byte).1 bytes
      (rest.1, (d.push byte).2 ++ rest.2)

theorem run_cons (d : Decoder) (byte : UInt8) (bytes : List UInt8) :
    d.run (byte :: bytes) =
      (((d.push byte).1.run bytes).1, (d.push byte).2 ++ ((d.push byte).1.run bytes).2) :=
  rfl

/-- The bytes may be cut anywhere. -/
theorem run_append (d : Decoder) (bytes bytes' : List UInt8) :
    d.run (bytes ++ bytes') =
      (((d.run bytes).1.run bytes').1, (d.run bytes).2 ++ ((d.run bytes).1.run bytes').2) := by
  induction bytes generalizing d with
  | nil => rfl
  | cons byte bytes ih =>
      rw [List.cons_append, run_cons, run_cons, ih]
      simp

/-- Where all bytes fit, nothing is replaced. -/
theorem run_of_accept {d : Decoder} {bytes : List UInt8} {r : Decoder × List Char}
    (h : d.accept bytes = some r) : d.run bytes = r := by
  induction bytes generalizing d r with
  | nil =>
      cases h
      rfl
  | cons byte bytes ih =>
      rw [accept] at h
      rcases Option.bind_eq_some_iff.mp h with ⟨step, hstep, hmap⟩
      rcases Option.map_eq_some_iff.mp hmap with ⟨rest, hrest, rfl⟩
      have hpush : d.push byte = step := by
        rw [push, hstep]
        rfl
      rw [run_cons, hpush, ih hrest]

theorem accept_append {d d' : Decoder} {bytes : List UInt8} {text : List Char}
    (h : d.accept bytes = some (d', text)) (bytes' : List UInt8) :
    d.accept (bytes ++ bytes') = (d'.accept bytes').map fun rest => (rest.1, text ++ rest.2) := by
  induction bytes generalizing d text with
  | nil =>
      cases h
      simp
  | cons byte bytes ih =>
      rw [accept] at h
      rcases Option.bind_eq_some_iff.mp h with ⟨step, hstep, hmap⟩
      rcases Option.map_eq_some_iff.mp hmap with ⟨rest, hrest, hresult⟩
      cases hresult
      rw [List.cons_append, accept, hstep, Option.bind_some, ih hrest]
      cases rest.1.accept bytes' <;> simp

/-! ## Encoded texts -/

theorem next_first {byte : UInt8} : next {} byte = first byte.toNat :=
  rfl

/-- A byte that completes nothing. -/
theorem accept_cons_of_next {d d' : Decoder} {byte : UInt8} (h : d.next byte = some (d', []))
    (bytes : List UInt8) : d.accept (byte :: bytes) = d'.accept bytes := by
  rw [accept, h, Option.bind_some]
  cases d'.accept bytes <;> rfl

/-- A byte within the bounds, not the last one. -/
theorem next_middle {d : Decoder} {byte : UInt8} (hmissing : 1 < d.missing)
    (hlower : d.lower ≤ byte.toNat) (hupper : byte.toNat ≤ d.upper) :
    d.next byte =
      some ({ codePoint := d.codePoint * 64 + byte.toNat % 64, missing := d.missing - 1 }, []) := by
  unfold next
  rw [if_neg (by omega), if_pos ⟨hlower, hupper⟩, if_neg (by omega)]

/-- The last byte of a character. -/
theorem next_last {d : Decoder} {byte : UInt8} (hmissing : d.missing = 1)
    (hlower : d.lower ≤ byte.toNat) (hupper : byte.toNat ≤ d.upper) :
    d.next byte = some ({}, [Char.ofNat (d.codePoint * 64 + byte.toNat % 64)]) := by
  unfold next
  rw [if_neg (by omega), if_pos ⟨hlower, hupper⟩, if_pos hmissing]

theorem toNat_ofNat {n : ℕ} (h : n < 256) : (UInt8.ofNat n).toNat = n := by
  rw [UInt8.toNat_ofNat']
  exact Nat.mod_eq_of_lt h

/-- The lowest six bits of a number, marked as a byte that continues a character. -/
theorem toNat_tail (v : ℕ) : (UInt8.ofNat (v % 0x40 + 0x80)).toNat = v % 0x40 + 0x80 :=
  toNat_ofNat (by omega)

/-- The last byte of a character, behind a byte without bounds of its own. -/
theorem accept_tail (codePoint v : ℕ) :
    accept { codePoint, missing := 1 } [UInt8.ofNat (v % 0x40 + 0x80)] =
      some ({}, [Char.ofNat (codePoint * 64 + v % 64)]) := by
  have hbounds : 0x80 ≤ v % 0x40 + 0x80 ∧ v % 0x40 + 0x80 ≤ 0xbf := by omega
  rw [← toNat_tail v] at hbounds
  have hbits : (v % 0x40 + 0x80) % 64 = v % 64 := by omega
  rw [accept, next_last rfl hbounds.1 hbounds.2, toNat_tail, hbits]
  rfl

/-- The last two bytes of a character. -/
theorem accept_tails (codePoint v : ℕ) :
    accept { codePoint, missing := 2 }
        [UInt8.ofNat (v / 64 % 0x40 + 0x80), UInt8.ofNat (v % 0x40 + 0x80)] =
      some ({}, [Char.ofNat ((codePoint * 64 + v / 64 % 64) * 64 + v % 64)]) := by
  have hbounds : 0x80 ≤ v / 64 % 0x40 + 0x80 ∧ v / 64 % 0x40 + 0x80 ≤ 0xbf := by omega
  rw [← toNat_tail (v / 64)] at hbounds
  have hbits : (v / 64 % 0x40 + 0x80) % 64 = v / 64 % 64 := by omega
  have hmany : 1 < ({ codePoint, missing := 2 } : Decoder).missing := Nat.lt_succ_self 1
  rw [accept_cons_of_next (next_middle hmany hbounds.1 hbounds.2), toNat_tail, hbits]
  exact accept_tail (codePoint * 64 + v / 64 % 64) v

private theorem accept_two {v : ℕ} (hlow : 0x7f < v) (hhigh : v ≤ 0x7ff) :
    accept {} [UInt8.ofNat (v / 64 % 0x20 + 0xc0), UInt8.ofNat (v % 0x40 + 0x80)] =
      some ({}, [Char.ofNat v]) := by
  have hfirst : first (v / 64 % 0x20 + 0xc0) =
      some ({ codePoint := v / 64, missing := 1 }, []) := by
    have hbits : (v / 64 % 0x20 + 0xc0) % 0x20 = v / 64 := by omega
    rw [first, if_neg (by omega), if_pos (by omega), hbits]
  have hvalue : v / 64 * 64 + v % 64 = v := by omega
  rw [← toNat_ofNat (by omega : v / 64 % 0x20 + 0xc0 < 256), ← next_first] at hfirst
  rw [accept_cons_of_next hfirst, accept_tail, hvalue]

/-- The bounds of the second byte exclude what is written shorter, and the surrogates. -/
private theorem accept_three {v : ℕ} (hlow : 0x7ff < v) (hhigh : v ≤ 0xffff)
    (hvalid : v < 0xd800 ∨ 0xdfff < v) :
    accept {} [UInt8.ofNat (v / 4096 % 0x10 + 0xe0), UInt8.ofNat (v / 64 % 0x40 + 0x80),
        UInt8.ofNat (v % 0x40 + 0x80)] = some ({}, [Char.ofNat v]) := by
  have hfirst : ∃ lower upper, first (v / 4096 % 0x10 + 0xe0) =
        some ({ codePoint := v / 4096, missing := 2, lower, upper }, []) ∧
      lower ≤ v / 64 % 0x40 + 0x80 ∧ v / 64 % 0x40 + 0x80 ≤ upper := by
    have hbits : (v / 4096 % 0x10 + 0xe0) % 0x10 = v / 4096 := by omega
    rw [first, if_neg (by omega), if_neg (by omega), if_pos (by omega), hbits]
    refine ⟨_, _, rfl, ?_, ?_⟩
    · split <;> omega
    · split <;> omega
  rcases hfirst with ⟨lower, upper, hfirst, hlower, hupper⟩
  rw [← toNat_ofNat (by omega : v / 4096 % 0x10 + 0xe0 < 256), ← next_first] at hfirst
  rw [← toNat_tail (v / 64)] at hlower hupper
  have hsecond := @next_middle { codePoint := v / 4096, missing := 2, lower, upper } _
    (Nat.lt_succ_self 1) hlower hupper
  have hbits : (v / 64 % 0x40 + 0x80) % 64 = v / 64 % 64 := by omega
  have hvalue : (v / 4096 * 64 + v / 64 % 64) * 64 + v % 64 = v := by omega
  rw [toNat_tail, hbits] at hsecond
  rw [accept_cons_of_next hfirst, accept_cons_of_next hsecond]
  have htail := accept_tail (v / 4096 * 64 + v / 64 % 64) v
  rw [hvalue] at htail
  exact htail

private theorem accept_four {v : ℕ} (hlow : 0xffff < v) (hhigh : v < 0x110000) :
    accept {} [UInt8.ofNat (v / 262144 % 0x08 + 0xf0), UInt8.ofNat (v / 4096 % 0x40 + 0x80),
        UInt8.ofNat (v / 64 % 0x40 + 0x80), UInt8.ofNat (v % 0x40 + 0x80)] =
      some ({}, [Char.ofNat v]) := by
  have hfirst : ∃ lower upper, first (v / 262144 % 0x08 + 0xf0) =
        some ({ codePoint := v / 262144, missing := 3, lower, upper }, []) ∧
      lower ≤ v / 4096 % 0x40 + 0x80 ∧ v / 4096 % 0x40 + 0x80 ≤ upper := by
    have hbits : (v / 262144 % 0x08 + 0xf0) % 0x08 = v / 262144 := by omega
    rw [first, if_neg (by omega), if_neg (by omega), if_neg (by omega), if_pos (by omega), hbits]
    refine ⟨_, _, rfl, ?_, ?_⟩
    · split <;> omega
    · split <;> omega
  rcases hfirst with ⟨lower, upper, hfirst, hlower, hupper⟩
  rw [← toNat_ofNat (by omega : v / 262144 % 0x08 + 0xf0 < 256), ← next_first] at hfirst
  rw [← toNat_tail (v / 4096)] at hlower hupper
  have hsecond := @next_middle { codePoint := v / 262144, missing := 3, lower, upper } _
    (Nat.lt_add_of_pos_right Nat.two_pos) hlower hupper
  have hbits : (v / 4096 % 0x40 + 0x80) % 64 = v / 4096 % 64 := by omega
  have hvalue :
      ((v / 262144 * 64 + v / 4096 % 64) * 64 + v / 64 % 64) * 64 + v % 64 = v := by omega
  rw [toNat_tail, hbits] at hsecond
  rw [accept_cons_of_next hfirst, accept_cons_of_next hsecond]
  have htails := accept_tails (v / 262144 * 64 + v / 4096 % 64) v
  rw [hvalue] at htails
  exact htails

/-- One character. -/
theorem accept_encodeChar (c : Char) :
    accept {} (String.utf8EncodeChar c) = some ({}, [c]) := by
  have hvalid : c.toNat < 0xd800 ∨ 0xdfff < c.toNat ∧ c.toNat < 0x110000 := c.valid
  have hself : Char.ofNat c.toNat = c := Char.ofNat_toNat c
  have hval : c.val.toNat = c.toNat := rfl
  unfold String.utf8EncodeChar
  rw [hval]
  generalize c.toNat = v at hvalid hself
  rw [← hself]
  dsimp only
  by_cases hone : v ≤ 0x7f
  · rw [if_pos hone, accept, next_first, toNat_ofNat (by omega), first, if_pos hone]
    rfl
  by_cases htwo : v ≤ 0x7ff
  · rw [if_neg hone, if_pos htwo]
    exact accept_two (by omega) htwo
  by_cases hthree : v ≤ 0xffff
  · rw [if_neg hone, if_neg htwo, if_pos hthree]
    exact accept_three (by omega) hthree (by omega)
  · rw [if_neg hone, if_neg htwo, if_neg hthree]
    exact accept_four (by omega) (by omega)

/-- What was encoded is decoded, and nothing is missing. -/
theorem accept_encode (text : List Char) : accept {} (encode text) = some ({}, text) := by
  induction text with
  | nil => rfl
  | cons c text ih =>
      have hcons : encode (c :: text) = String.utf8EncodeChar c ++ encode text :=
        List.flatMap_cons
      rw [hcons, accept_append (accept_encodeChar c), ih]
      rfl

theorem run_encode (text : List Char) : run {} (encode text) = ({}, text) :=
  run_of_accept (accept_encode text)

end Decoder

/-- The text of some bytes; a character that is cut off at the end is replaced. -/
def decode (bytes : List UInt8) : List Char :=
  let r := Decoder.run {} bytes
  if r.1.missing = 0 then r.2 else r.2 ++ [replacement]

theorem decode_encode (text : List Char) : decode (encode text) = text := by
  rw [decode, Decoder.run_encode]
  exact if_pos rfl

/-! ## Byte order marks -/

/-- A text without the mark in front of it. -/
def dropMark : List Char → List Char
  | [] => []
  | c :: text => if c = Char.ofNat 0xfeff then text else c :: text

/-- A decoder that drops a mark in front of the first character. -/
structure TextDecoder where
  decoder : Decoder := {}
  started : Bool := false
deriving DecidableEq, Repr

namespace TextDecoder

/-- Some bytes of a text that goes on. -/
def decode (d : TextDecoder) (bytes : List UInt8) : TextDecoder × List Char :=
  let rest := d.decoder.run bytes
  ({ decoder := rest.1, started := d.started || !rest.2.isEmpty },
    if d.started then rest.2 else dropMark rest.2)

/-- What the chunks are decoded to, one by one. -/
def decodeAll (d : TextDecoder) : List (List UInt8) → List (List Char)
  | [] => []
  | chunk :: chunks => (d.decode chunk).2 :: decodeAll (d.decode chunk).1 chunks

theorem dropMark_append {text : List Char} (h : text ≠ []) (more : List Char) :
    dropMark (text ++ more) = dropMark text ++ more := by
  cases text with
  | nil => exact absurd rfl h
  | cons c text =>
      rw [List.cons_append, dropMark, dropMark]
      split
      · rfl
      · rfl

/-- Chunks do not matter. -/
theorem flatten_decodeAll (d : TextDecoder) (chunks : List (List UInt8)) :
    (d.decodeAll chunks).flatten =
      if d.started then (d.decoder.run chunks.flatten).2
      else dropMark (d.decoder.run chunks.flatten).2 := by
  induction chunks generalizing d with
  | nil =>
      cases d.started <;> rfl
  | cons chunk chunks ih =>
      rw [decodeAll, List.flatten_cons, ih, List.flatten_cons, Decoder.run_append]
      cases hstarted : d.started with
      | true => simp [decode, hstarted]
      | false =>
          cases htext : (d.decoder.run chunk).2 with
          | nil => simp [decode, hstarted, htext, dropMark]
          | cons c text =>
              have happend := dropMark_append (List.cons_ne_nil c text)
                ((d.decoder.run chunk).1.run chunks.flatten).2
              rw [List.cons_append] at happend
              simp [decode, hstarted, htext, happend]

/-- An encoded text in chunks; a mark in front is lost. -/
theorem flatten_decodeAll_encode (text : List Char) {chunks : List (List UInt8)}
    (h : chunks.flatten = encode text) :
    (({} : TextDecoder).decodeAll chunks).flatten = dropMark text := by
  rw [flatten_decodeAll, h]
  change dropMark (Decoder.run {} (encode text)).2 = dropMark text
  rw [Decoder.run_encode]

end TextDecoder

end Utf8
end Library
end MemosNote
