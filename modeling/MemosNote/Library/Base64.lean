import Mathlib.Data.List.Basic
import Mathlib.Data.Nat.Notation

/-!
# Base64

Three bytes are written as four letters; a shorter rest is padded.

Main results:

- Theorem {lit}`decode_encode`: what was encoded is decoded.
- Theorem {lit}`encode_ne_nil`: no bytes but none at all are encoded as the empty text.
-/

namespace MemosNote
namespace Library
namespace Base64

/-- A byte. -/
abbrev Byte :=
  Fin 256

/-- The letters of the digits. -/
def alphabet : List Char :=
  "ABCDEFGHIJKLMNOPQRSTUVWXYZabcdefghijklmnopqrstuvwxyz0123456789+/".toList

def letter (n : ℕ) : Char :=
  alphabet.getD n 'A'

/-- The digit of a letter. -/
def digit (c : Char) : Option ℕ :=
  alphabet.idxOf? c

def encode : List Byte → List Char
  | [] => []
  | [a] => [letter (a / 4), letter (a % 4 * 16), '=', '=']
  | [a, b] => [letter (a / 4), letter (a % 4 * 16 + b / 16), letter (b % 16 * 4), '=']
  | a :: b :: c :: rest =>
      letter (a / 4) :: letter (a % 4 * 16 + b / 16) :: letter (b % 16 * 4 + c / 64) ::
        letter (c % 64) :: encode rest

/-- The bytes of four letters; padding ends the text. -/
def decodeQuanta : List Char → Option (List Byte)
  | [] => some []
  | [c₀, c₁, '=', '='] => do
      let d₀ ← digit c₀
      let d₁ ← digit c₁
      pure [Fin.ofNat 256 (d₀ * 4 + d₁ / 16)]
  | [c₀, c₁, c₂, '='] => do
      let d₀ ← digit c₀
      let d₁ ← digit c₁
      let d₂ ← digit c₂
      pure [Fin.ofNat 256 (d₀ * 4 + d₁ / 16), Fin.ofNat 256 (d₁ % 16 * 16 + d₂ / 4)]
  | c₀ :: c₁ :: c₂ :: c₃ :: rest => do
      let d₀ ← digit c₀
      let d₁ ← digit c₁
      let d₂ ← digit c₂
      let d₃ ← digit c₃
      let bytes ← decodeQuanta rest
      pure (Fin.ofNat 256 (d₀ * 4 + d₁ / 16) :: Fin.ofNat 256 (d₁ % 16 * 16 + d₂ / 4) ::
        Fin.ofNat 256 (d₂ % 4 * 64 + d₃) :: bytes)
  | _ => none

/-- Line ends are skipped. -/
def decode (text : List Char) : Option (List Byte) :=
  decodeQuanta (text.filter fun c => c ≠ '\r' && c ≠ '\n')

example : encode [8, 1, 16, 1] = "CAEQAQ==".toList := by decide

theorem digit_letter : ∀ n < 64, digit (letter n) = some n := by decide +kernel

/-- Padding and line ends are no letters. -/
theorem letter_ne {c : Char} (hc : digit c = none) {n : ℕ} (hn : n < 64) : letter n ≠ c := by
  rintro rfl
  rw [digit_letter n hn] at hc
  cases hc

theorem digit_pad : digit '=' = none := by decide

/-- A group that is not padded. -/
theorem decodeQuanta_cons {d₀ d₁ d₂ d₃ : ℕ} (h₀ : d₀ < 64) (h₁ : d₁ < 64) (h₂ : d₂ < 64)
    (h₃ : d₃ < 64) (rest : List Char) :
    decodeQuanta (letter d₀ :: letter d₁ :: letter d₂ :: letter d₃ :: rest) =
      (decodeQuanta rest).map fun bytes =>
        Fin.ofNat 256 (d₀ * 4 + d₁ / 16) :: Fin.ofNat 256 (d₁ % 16 * 16 + d₂ / 4) ::
          Fin.ofNat 256 (d₂ % 4 * 64 + d₃) :: bytes := by
  have hpad := letter_ne digit_pad h₃
  rw [decodeQuanta]
  · rw [digit_letter d₀ h₀, digit_letter d₁ h₁, digit_letter d₂ h₂, digit_letter d₃ h₃]
    cases decodeQuanta rest <;> rfl
  · exact fun _ h => absurd h hpad
  · exact fun h => absurd h hpad

theorem ofNat_byte {a : Byte} {n : ℕ} (h : n = a) : Fin.ofNat 256 n = a := by
  subst h
  exact Fin.ofNat_val_eq_self a

theorem decodeQuanta_encode (bytes : List Byte) : decodeQuanta (encode bytes) = some bytes := by
  induction bytes using encode.induct with
  | case1 => rfl
  | case2 a =>
      have ha : Fin.ofNat 256 (a / 4 * 4 + a % 4 * 16 / 16) = a := ofNat_byte (by omega)
      rw [encode, decodeQuanta, digit_letter _ (by omega), digit_letter _ (by omega)]
      exact congrArg (fun a => some [a]) ha
  | case3 a b =>
      have ha : Fin.ofNat 256 (a / 4 * 4 + (a % 4 * 16 + b / 16) / 16) = a := ofNat_byte (by omega)
      have hb : Fin.ofNat 256 ((a % 4 * 16 + b / 16) % 16 * 16 + b % 16 * 4 / 4) = b :=
        ofNat_byte (by omega)
      rw [encode, decodeQuanta, digit_letter _ (by omega), digit_letter _ (by omega),
        digit_letter _ (by omega)]
      · exact congrArg some (congrArg₂ (fun a b => [a, b]) ha hb)
      · exact letter_ne digit_pad (by omega)
  | case4 a b c rest ih =>
      have ha : Fin.ofNat 256 (a / 4 * 4 + (a % 4 * 16 + b / 16) / 16) = a := ofNat_byte (by omega)
      have hb : Fin.ofNat 256 ((a % 4 * 16 + b / 16) % 16 * 16 + (b % 16 * 4 + c / 64) / 4) = b :=
        ofNat_byte (by omega)
      have hc : Fin.ofNat 256 ((b % 16 * 4 + c / 64) % 4 * 64 + c % 64) = c := ofNat_byte (by omega)
      rw [encode, decodeQuanta_cons (by omega) (by omega) (by omega) (by omega), ih, ha, hb, hc,
        Option.map_some]

theorem encode_letters (bytes : List Byte) :
    ∀ c ∈ encode bytes, c = '=' ∨ ∃ n < 64, c = letter n := by
  have hletter {n : ℕ} (h : n < 64) : letter n = '=' ∨ ∃ m < 64, letter n = letter m :=
    Or.inr ⟨n, h, rfl⟩
  induction bytes using encode.induct with
  | case1 => simp [encode]
  | case2 a =>
      simp only [encode, List.forall_mem_cons]
      exact ⟨hletter (by omega), hletter (by omega), Or.inl trivial, Or.inl trivial, by simp⟩
  | case3 a b =>
      simp only [encode, List.forall_mem_cons]
      exact ⟨hletter (by omega), hletter (by omega), hletter (by omega), Or.inl trivial, by simp⟩
  | case4 a b c rest ih =>
      simp only [encode, List.forall_mem_cons]
      exact ⟨hletter (by omega), hletter (by omega), hletter (by omega), hletter (by omega), ih⟩

/-- What was encoded is decoded. -/
theorem decode_encode (bytes : List Byte) : decode (encode bytes) = some bytes := by
  have hkeep : (encode bytes).filter (fun c => c ≠ '\r' && c ≠ '\n') = encode bytes := by
    refine List.filter_eq_self.mpr fun c hc => ?_
    rcases encode_letters bytes c hc with rfl | ⟨n, hn, rfl⟩
    · decide
    · have hreturn : letter n ≠ '\r' := letter_ne (by decide) hn
      have hnewline : letter n ≠ '\n' := letter_ne (by decide) hn
      simp [hreturn, hnewline]
  rw [decode, hkeep, decodeQuanta_encode]

theorem encode_ne_nil {bytes : List Byte} (h : bytes ≠ []) : encode bytes ≠ [] := by
  intro hnil
  have hbytes := decodeQuanta_encode bytes
  rw [hnil] at hbytes
  exact h (Option.some.inj hbytes).symm

end Base64
end Library
end MemosNote
