import Mathlib.Data.List.TakeWhile
import MemosNote.Webhook.SafeDial

/-!
# The texts of addresses

An address is handed to a dialer as a text, which the dialer parses.  An IPv4 address is written with
dots, also in its IPv6 form; of an IPv6 address the longest run of zeros is left out.

Main results:

- Theorem {lit}`ofFields_fields`: an address is given by its eight fields.
- Theorem {lit}`parseIP_string`: the text of an address is parsed as this address.
-/

namespace MemosNote
namespace Webhook

open Store (splitAll)

/-! ## Digits -/

def digit (n : ℕ) : Char :=
  "0123456789abcdef".toList.getD n '0'

/-- A number below 256 in decimal digits. -/
def appendDecimal (x : ℕ) : List Char :=
  (if 100 ≤ x then [digit (x / 100)] else []) ++
    (if 10 ≤ x then [digit (x / 10 % 10)] else []) ++ [digit (x % 10)]

/-- A number below {lit}`0x10000` in hexadecimal digits. -/
def appendHex (x : ℕ) : List Char :=
  (if 0x1000 ≤ x then [digit (x / 0x1000)] else []) ++
    (if 0x100 ≤ x then [digit (x / 0x100 % 0x10)] else []) ++
    (if 0x10 ≤ x then [digit (x / 0x10 % 0x10)] else []) ++ [digit (x % 0x10)]

theorem hexDigit_digit : ∀ n < 16, hexDigit (digit n) = some n := by
  decide

theorem digit_alphanum : ∀ n < 16, (digit n).isAlphanum = true := by
  decide

/-- A letter or a digit is no other character. -/
theorem ne_of_alphanum {c mark : Char} (h : c.isAlphanum = true)
    (hmark : mark.isAlphanum = false) : c ≠ mark := by
  rintro rfl
  rw [h] at hmark
  cases hmark

theorem isDigit_digit : ∀ n < 10, (digit n).isDigit = true := by
  decide

theorem toNat_digit : ∀ n < 10, (digit n).toNat - '0'.toNat = n := by
  decide

theorem digit_ne_zero : ∀ n < 10, n ≠ 0 → digit n ≠ '0' := by
  decide

/-- A byte is read back from its decimal text. -/
theorem parseOctet_appendDecimal {x : ℕ} (hx : x < 256) : parseOctet (appendDecimal x) = some x := by
  have hones := toNat_digit (x % 10) (by omega)
  have htens := toNat_digit (x / 10 % 10) (by omega)
  have hhundreds := toNat_digit (x / 100) (by omega)
  have hvalue : Nat.ofDigitChars 10 (appendDecimal x) 0 = x := by
    by_cases h100 : 100 ≤ x
    · have h10 : 10 ≤ x := by omega
      simp only [appendDecimal, if_pos h100, if_pos h10, Nat.ofDigitChars, List.cons_append,
        List.nil_append, List.foldl_cons, List.foldl_nil, hones, htens, hhundreds]
      omega
    · by_cases h10 : 10 ≤ x
      · simp only [appendDecimal, if_neg h100, if_pos h10, Nat.ofDigitChars, List.cons_append,
          List.nil_append, List.foldl_cons, List.foldl_nil, hones, htens]
        omega
      · simp only [appendDecimal, if_neg h100, if_neg h10, Nat.ofDigitChars, List.nil_append,
          List.foldl_cons, List.foldl_nil, hones]
        omega
  have hall : (appendDecimal x).all Char.isDigit = true := by
    rw [List.all_eq_true]
    intro c hc
    simp only [appendDecimal, List.mem_append, List.mem_singleton, List.mem_ite_nil_right] at hc
    rcases hc with (⟨-, rfl⟩ | ⟨-, rfl⟩) | rfl
    · exact isDigit_digit _ (by omega)
    · exact isDigit_digit _ (by omega)
    · exact isDigit_digit _ (by omega)
  have hhead : (appendDecimal x).length = 1 ∨ (appendDecimal x).head? ≠ some '0' := by
    by_cases h100 : 100 ≤ x
    · right
      have hne := digit_ne_zero (x / 100) (by omega) (by omega)
      simpa [appendDecimal, if_pos h100] using hne
    · by_cases h10 : 10 ≤ x
      · right
        have hne := digit_ne_zero (x / 10 % 10) (by omega) (by omega)
        simpa [appendDecimal, if_neg h100, if_pos h10] using hne
      · left
        simp [appendDecimal, h100, h10]
  have hne : appendDecimal x ≠ [] := by simp [appendDecimal]
  rw [parseOctet, hvalue, if_pos ⟨hne, hall, hhead, by omega⟩]

theorem appendDecimal_alphanum {x : ℕ} (hx : x < 256) :
    ∀ c ∈ appendDecimal x, c.isAlphanum = true := by
  intro c hc
  simp only [appendDecimal, List.mem_append, List.mem_singleton, List.mem_ite_nil_right] at hc
  rcases hc with (⟨-, rfl⟩ | ⟨-, rfl⟩) | rfl
  · exact digit_alphanum _ (by omega)
  · exact digit_alphanum _ (by omega)
  · exact digit_alphanum _ (by omega)

private theorem appendHex_ne_nil (x : ℕ) : appendHex x ≠ [] := by
  simp [appendHex]

theorem appendHex_alphanum {x : ℕ} (hx : x < 0x10000) :
    ∀ c ∈ appendHex x, c.isAlphanum = true := by
  intro c hc
  simp only [appendHex, List.mem_append, List.mem_singleton, List.mem_ite_nil_right] at hc
  rcases hc with ((⟨-, rfl⟩ | ⟨-, rfl⟩) | ⟨-, rfl⟩) | rfl
  · exact digit_alphanum _ (by omega)
  · exact digit_alphanum _ (by omega)
  · exact digit_alphanum _ (by omega)
  · exact digit_alphanum _ (by omega)

/-- A field is read back from its hexadecimal text. -/
theorem parseField16_appendHex {x : ℕ} (hx : x < 0x10000) :
    parseField16 (appendHex x) = some x := by
  have h1 := hexDigit_digit (x % 0x10) (by omega)
  have h2 := hexDigit_digit (x / 0x10 % 0x10) (by omega)
  have h3 := hexDigit_digit (x / 0x100 % 0x10) (by omega)
  have h4 := hexDigit_digit (x / 0x1000) (by omega)
  by_cases hlong : 0x1000 ≤ x
  · have hvalue : ((x / 0x1000 * 16 + x / 0x100 % 16) * 16 + x / 16 % 16) * 16 + x % 16 = x := by
      omega
    simp [parseField16, appendHex, hlong, show 0x100 ≤ x by omega, show 0x10 ≤ x by omega, h1, h2,
      h3, h4, hvalue]
  by_cases hthree : 0x100 ≤ x
  · have hvalue : (x / 0x100 % 16 * 16 + x / 16 % 16) * 16 + x % 16 = x := by omega
    simp [parseField16, appendHex, hlong, hthree, show 0x10 ≤ x by omega, h1, h2, h3, hvalue]
  by_cases htwo : 0x10 ≤ x
  · have hvalue : x / 16 % 16 * 16 + x % 16 = x := by omega
    simp [parseField16, appendHex, hlong, hthree, htwo, h1, h2, hvalue]
  · have hvalue : x % 16 = x := by omega
    rw [hvalue] at h1
    simp [parseField16, appendHex, hlong, hthree, htwo, h1, hvalue]

/-! ## Texts -/

/-- The texts with a separator in between. -/
def join (separator : Char) : List (List Char) → List Char
  | [] => []
  | [part] => part
  | part :: parts => part ++ separator :: join separator parts

/-- The eight fields of an address. -/
def fields (ip : IP) : List ℕ :=
  (List.range 8).map fun i => ip.toNat / 2 ^ (16 * (7 - i)) % 2 ^ 16

/-- The end of the run of zeros that starts at a field. -/
def zerosEnd (fields : List ℕ) (i : ℕ) : ℕ :=
  i + ((fields.drop i).takeWhile (· = 0)).length

/-- The first of the longest runs of two zeros or more. -/
def longestZeros (fields : List ℕ) : Option (ℕ × ℕ) :=
  (List.range 8).foldl (fun best i =>
    let l := zerosEnd fields i - i
    if 2 ≤ l ∧ best.elim 0 (fun run => run.2 - run.1) < l then some (i, zerosEnd fields i)
    else best) none

def string6 (fields : List ℕ) : List Char :=
  match longestZeros fields with
  | none => join ':' (fields.map appendHex)
  | some (zeroStart, zeroEnd) =>
      join ':' ((fields.take zeroStart).map appendHex) ++ ':' :: ':' ::
        join ':' ((fields.drop zeroEnd).map appendHex)

def string4 (v4 : ℕ) : List Char :=
  join '.' [appendDecimal (v4 / 2 ^ 24 % 256), appendDecimal (v4 / 2 ^ 16 % 256),
    appendDecimal (v4 / 2 ^ 8 % 256), appendDecimal (v4 % 256)]

/-- The text of an address. -/
def IPString (ip : IP) : List Char :=
  match To4 ip with
  | some v4 => string4 v4
  | none => string6 (fields ip)

/-! ## Joined texts -/

/-- Joined parts start with the first one and a separator. -/
theorem join_cons_of_ne_nil {separator : Char} (part : List Char) {parts : List (List Char)}
    (h : parts ≠ []) : join separator (part :: parts) = part ++ separator :: join separator parts := by
  cases parts with
  | nil => exact absurd rfl h
  | cons next rest => rfl

/-- What is in joined parts. -/
theorem mem_join {separator c : Char} {parts : List (List Char)} (h : c ∈ join separator parts) :
    c = separator ∨ ∃ part ∈ parts, c ∈ part := by
  induction parts with
  | nil => cases h
  | cons part parts ih =>
      by_cases hempty : parts = []
      · rw [hempty] at h
        exact Or.inr ⟨part, by simp, h⟩
      · rw [join_cons_of_ne_nil part hempty, List.mem_append, List.mem_cons] at h
        rcases h with h | h | h
        · exact Or.inr ⟨part, by simp, h⟩
        · exact Or.inl h
        · rcases ih h with h | ⟨q, hq, hc⟩
          · exact Or.inl h
          · exact Or.inr ⟨q, by simp [hq], hc⟩

private theorem splitAll_append_cons {separator : Char} {part : List Char} (h : separator ∉ part)
    (rest : List Char) :
    splitAll separator (part ++ separator :: rest) = part :: splitAll separator rest := by
  induction part with
  | nil => simp [splitAll]
  | cons c cs ih =>
      rw [List.mem_cons, not_or] at h
      rw [List.cons_append, splitAll, if_neg (Ne.symm h.1), ih h.2]

/-- Joined texts are split again. -/
theorem splitAll_join {separator : Char} {parts : List (List Char)} (hne : parts ≠ [])
    (h : ∀ part ∈ parts, separator ∉ part) : splitAll separator (join separator parts) = parts := by
  induction parts with
  | nil => exact absurd rfl hne
  | cons part parts ih =>
      by_cases hempty : parts = []
      · rw [hempty]
        exact Store.splitAll_flat (h part (by simp))
      · rw [join_cons_of_ne_nil part hempty, splitAll_append_cons (h part (by simp)),
          ih hempty fun q hq => h q (by simp [hq])]

/-- Texts without colons do not matter for the first two adjacent colons. -/
theorem splitEllipsis_append {part : List Char} (h : ':' ∉ part) (rest : List Char) :
    splitEllipsis (part ++ rest) =
      (splitEllipsis rest).map fun parts => (part ++ parts.1, parts.2) := by
  induction part with
  | nil => simp
  | cons c cs ih =>
      rw [List.mem_cons, not_or] at h
      have hcons : ∀ tail, splitEllipsis (c :: tail) =
          (splitEllipsis tail).map fun parts => (c :: parts.1, parts.2) := by
        intro tail
        rw [splitEllipsis]
        rintro rest rfl
        exact absurd rfl h.1
      rw [List.cons_append, hcons, ih h.2, Option.map_map]
      rfl

/-- One colon is not two. -/
theorem splitEllipsis_colon {c : Char} (h : c ≠ ':') (rest : List Char) :
    splitEllipsis (':' :: c :: rest) =
      (splitEllipsis (c :: rest)).map fun parts => (':' :: parts.1, parts.2) := by
  rw [splitEllipsis]
  rintro rest' - heq
  exact h (List.cons.inj heq).1

/-- Behind joined texts, the first two adjacent colons are those of what follows. -/
theorem splitEllipsis_join {parts : List (List Char)}
    (h : ∀ part ∈ parts, part ≠ [] ∧ ':' ∉ part) (rest : List Char) :
    splitEllipsis (join ':' parts ++ rest) =
      (splitEllipsis rest).map fun r => (join ':' parts ++ r.1, r.2) := by
  induction parts with
  | nil => simp [join]
  | cons part parts ih =>
      rcases h part (by simp) with ⟨-, hpart⟩
      by_cases hempty : parts = []
      · rw [hempty]
        exact splitEllipsis_append hpart rest
      · have hrest := ih fun q hq => h q (by simp [hq])
        -- The next text starts with something else than a colon.
        have hstart : ∃ c tail, join ':' parts = c :: tail ∧ c ≠ ':' := by
          cases parts with
          | nil => exact absurd rfl hempty
          | cons next more =>
              rcases h next (by simp) with ⟨hne, hcolon⟩
              cases next with
              | nil => exact absurd rfl hne
              | cons c cs =>
                  have hc : c ≠ ':' := fun heq => hcolon (by simp [heq])
                  cases more with
                  | nil => exact ⟨c, cs, rfl, hc⟩
                  | cons q qs => exact ⟨c, cs ++ ':' :: join ':' (q :: qs), rfl, hc⟩
        rcases hstart with ⟨c, tail, hjoin, hc⟩
        have hcolon : splitEllipsis (':' :: (join ':' parts ++ rest)) =
            (splitEllipsis (join ':' parts ++ rest)).map fun r => (':' :: r.1, r.2) := by
          rw [hjoin, List.cons_append]
          exact splitEllipsis_colon hc _
        rw [join_cons_of_ne_nil part hempty, List.append_assoc, List.cons_append,
          splitEllipsis_append hpart, hcolon, hrest, Option.map_map, Option.map_map]
        simp [Function.comp_def]

/-! ## Parsed fields -/

variable {values : List ℕ}

private theorem parseField16_map (h : ∀ x ∈ values, x < 0x10000) :
    (values.map appendHex).mapM parseField16 = some values := by
  induction values with
  | nil => rfl
  | cons x values ih =>
      rw [List.map_cons, List.mapM_cons, parseField16_appendHex (h x (by simp)),
        ih fun y hy => h y (by simp [hy])]
      rfl

/-- Fields are read back from their texts. -/
theorem parseFields_map (h : ∀ x ∈ values, x < 0x10000) :
    parseFields (values.map appendHex) = some values := by
  induction values with
  | nil => rfl
  | cons x values ih =>
      have hx := h x (by simp)
      have hrest := ih fun y hy => h y (by simp [hy])
      cases values with
      | nil =>
          have hdot : '.' ∉ appendHex x := fun hmem =>
            ne_of_alphanum (appendHex_alphanum hx _ hmem) rfl rfl
          rw [List.map_cons, List.map_nil, parseFields, if_neg hdot, parseField16_appendHex hx]
          rfl
      | cons y values =>
          rw [List.map_cons, List.map_cons, parseFields, parseField16_appendHex hx]
          · rw [List.map_cons] at hrest
            rw [hrest]
            rfl
          · simp

theorem join_eq_nil {parts : List (List Char)} (h : ∀ part ∈ parts, part ≠ []) :
    join ':' parts = [] ↔ parts = [] := by
  cases parts with
  | nil => simp [join]
  | cons part parts =>
      have hpart := h part (by simp)
      cases parts with
      | nil => simpa [join] using hpart
      | cons q qs => simp [join]

/-- An address has eight fields. -/
theorem length_fields (ip : IP) : (fields ip).length = 8 := by
  simp [fields]

/-- A field has sixteen bits. -/
theorem lt_of_mem_fields {ip : IP} {x : ℕ} (h : x ∈ fields ip) : x < 0x10000 := by
  rcases List.mem_map.mp h with ⟨i, -, rfl⟩
  exact Nat.mod_lt _ (by decide)

/-- The run that is left out is a run of zeros. -/
theorem longestZeros_some {zeroStart zeroEnd : ℕ} (hlength : values.length = 8)
    (h : longestZeros values = some (zeroStart, zeroEnd)) :
    zeroStart < zeroEnd ∧ zeroEnd ≤ 8 ∧ values =
      values.take zeroStart ++ List.replicate (zeroEnd - zeroStart) 0 ++ values.drop zeroEnd := by
  -- Every run that is ever the best is one that starts where it says.
  have hbest : ∀ run ∈ longestZeros values, run.1 + 2 ≤ run.2 ∧ run.2 = zerosEnd values run.1 := by
    rw [longestZeros]
    apply List.foldlRecOn (motive := fun best : Option (ℕ × ℕ) =>
      ∀ run ∈ best, run.1 + 2 ≤ run.2 ∧ run.2 = zerosEnd values run.1)
    · intro run hrun
      cases hrun
    · intro best hgood i _ run hrun
      dsimp only at hrun
      split at hrun
      · rename_i hlong
        rcases Option.some.inj hrun with rfl
        exact ⟨by omega, rfl⟩
      · exact hgood run hrun
  rcases hbest _ h with ⟨hlong, hend⟩
  dsimp only at hlong hend
  have hrun : (values.drop zeroStart).takeWhile (· = 0) =
      List.replicate (zeroEnd - zeroStart) 0 := by
    apply List.eq_replicate_iff.mpr
    constructor
    · rw [hend, zerosEnd]
      omega
    · intro x hx
      simpa using List.mem_takeWhile_imp hx
  have hsplit := (values.drop zeroStart).takeWhile_append_dropWhile (p := (· = 0))
  have hle : zeroEnd - zeroStart ≤ 8 - zeroStart := by
    have hsublist := ((values.drop zeroStart).takeWhile_sublist (· = 0)).length_le
    rw [hrun, List.length_replicate, List.length_drop, hlength] at hsublist
    exact hsublist
  have htail : (values.drop zeroStart).dropWhile (· = 0) = values.drop zeroEnd := by
    have hdrop := congrArg (List.drop (zeroEnd - zeroStart)) hsplit
    rw [hrun, List.drop_left' (by simp), List.drop_drop] at hdrop
    rw [hdrop, show zeroStart + (zeroEnd - zeroStart) = zeroEnd by omega]
  refine ⟨by omega, by omega, ?_⟩
  rw [hrun, htail] at hsplit
  rw [List.append_assoc, hsplit, List.take_append_drop]

/-- The fields before and after two adjacent colons. -/
theorem parseIPv6Fields_some {s before after : List Char} {left right : List ℕ}
    (hs : splitEllipsis s = some (before, after))
    (hleft : (if before = [] then some [] else (splitAll ':' before).mapM parseField16) = some left)
    (hright : (if after = [] then some [] else parseFields (splitAll ':' after)) = some right)
    (hle : left.length + right.length ≤ 7) :
    parseIPv6Fields s =
      some (left ++ List.replicate (8 - (left.length + right.length)) 0 ++ right) := by
  rw [parseIPv6Fields, hs]
  simp only [Option.bind_eq_bind]
  by_cases hbefore : before = []
  · rw [if_pos hbefore] at hleft ⊢
    rcases Option.some.inj hleft with rfl
    rw [Option.bind_some]
    by_cases hafter : after = []
    · rw [if_pos hafter] at hright ⊢
      rw [hright, Option.bind_some, if_pos hle]
    · rw [if_neg hafter] at hright ⊢
      rw [hright, Option.bind_some, if_pos hle]
  · rw [if_neg hbefore] at hleft ⊢
    rw [hleft, Option.bind_some]
    by_cases hafter : after = []
    · rw [if_pos hafter] at hright ⊢
      rw [hright, Option.bind_some, if_pos hle]
    · rw [if_neg hafter] at hright ⊢
      rw [hright, Option.bind_some, if_pos hle]

/-- The text of eight fields is parsed as these fields. -/
theorem parseIPv6Fields_string6 (hlength : values.length = 8)
    (hvalues : ∀ x ∈ values, x < 0x10000) : parseIPv6Fields (string6 values) = some values := by
  have hparts : ∀ list : List ℕ, (∀ x ∈ list, x < 0x10000) →
      ∀ part ∈ list.map appendHex, part ≠ [] ∧ ':' ∉ part := by
    intro list hlist part hpart
    rcases List.mem_map.mp hpart with ⟨x, hx, rfl⟩
    exact ⟨appendHex_ne_nil x, fun hmem =>
      ne_of_alphanum (appendHex_alphanum (hlist x hx) _ hmem) rfl rfl⟩
  cases hzeros : longestZeros values with
  | none =>
      have hne : values.map appendHex ≠ [] := by
        intro hnil
        rw [List.map_eq_nil_iff.mp hnil] at hlength
        cases hlength
      have hellipsis := splitEllipsis_join (hparts values hvalues) []
      rw [List.append_nil] at hellipsis
      have hnone : splitEllipsis (join ':' (values.map appendHex)) = none := hellipsis
      rw [string6, hzeros, parseIPv6Fields, hnone]
      dsimp only
      rw [splitAll_join hne fun part hpart => (hparts values hvalues part hpart).2,
        parseFields_map hvalues]
      simp [hlength]
  | some run =>
      rcases longestZeros_some hlength (show longestZeros values = some (run.1, run.2) from hzeros)
        with ⟨hlt, hle, hsplit⟩
      have hbefore : ∀ x ∈ values.take run.1, x < 0x10000 :=
        fun x hx => hvalues x (List.mem_of_mem_take hx)
      have hafter : ∀ x ∈ values.drop run.2, x < 0x10000 :=
        fun x hx => hvalues x (List.mem_of_mem_drop hx)
      have hellipsis : splitEllipsis (join ':' ((values.take run.1).map appendHex) ++
          ':' :: ':' :: join ':' ((values.drop run.2).map appendHex)) =
            some (join ':' ((values.take run.1).map appendHex),
              join ':' ((values.drop run.2).map appendHex)) := by
        rw [splitEllipsis_join (hparts _ hbefore)]
        simp [splitEllipsis]
      have hleft : (if join ':' ((values.take run.1).map appendHex) = [] then some []
          else (splitAll ':' (join ':' ((values.take run.1).map appendHex))).mapM parseField16) =
            some (values.take run.1) := by
        split
        · rename_i hempty
          rw [join_eq_nil fun part hpart => (hparts _ hbefore part hpart).1,
            List.map_eq_nil_iff] at hempty
          rw [hempty]
        · rename_i hne
          rw [splitAll_join (fun hnil => hne (by rw [hnil]; rfl))
            fun part hpart => (hparts _ hbefore part hpart).2, parseField16_map hbefore]
      have hright : (if join ':' ((values.drop run.2).map appendHex) = [] then some []
          else parseFields (splitAll ':' (join ':' ((values.drop run.2).map appendHex)))) =
            some (values.drop run.2) := by
        split
        · rename_i hempty
          rw [join_eq_nil fun part hpart => (hparts _ hafter part hpart).1,
            List.map_eq_nil_iff] at hempty
          rw [hempty]
        · rename_i hne
          rw [splitAll_join (fun hnil => hne (by rw [hnil]; rfl))
            fun part hpart => (hparts _ hafter part hpart).2, parseFields_map hafter]
      have hlengths : (values.take run.1).length + (values.drop run.2).length =
          8 - (run.2 - run.1) := by
        rw [List.length_take, List.length_drop, hlength]
        omega
      rw [string6, hzeros]
      dsimp only
      rw [parseIPv6Fields_some hellipsis hleft hright (by omega), hlengths,
        show 8 - (8 - (run.2 - run.1)) = run.2 - run.1 by omega, ← hsplit]

/-- An address is given by its fields. -/
theorem ofFields_fields (ip : IP) : ofFields (fields ip) = ip := by
  have hlt := ip.isLt
  apply BitVec.eq_of_toNat_eq
  have hrange : List.range 8 = [0, 1, 2, 3, 4, 5, 6, 7] := by decide
  rw [ofFields, fields, hrange, BitVec.toNat_ofNat]
  generalize ip.toNat = n at hlt
  simp only [List.map_cons, List.map_nil, List.foldl_cons, List.foldl_nil]
  omega

/-! ## Parsed texts -/

/-- The first of the characters that an address is recognised by. -/
theorem find_mark {s : List Char} {mark : Char} (hmark : mark ∈ s)
    (hchars : ∀ c ∈ s, c ≠ mark → c ≠ '.' ∧ c ≠ ':' ∧ c ≠ '%')
    (hkind : mark = '.' ∨ mark = ':') :
    s.find? (fun c => c = '.' || c = ':' || c = '%') = some mark := by
  cases hfind : s.find? fun c => c = '.' || c = ':' || c = '%' with
  | none =>
      have hnone := List.find?_eq_none.mp hfind mark hmark
      rcases hkind with rfl | rfl <;> simp at hnone
  | some c =>
      have hmem := List.mem_of_find?_eq_some hfind
      have hfound := List.find?_some hfind
      by_contra hne
      rcases hchars c hmem (fun h => hne (by rw [h])) with ⟨hdot, hcolon, hpercent⟩
      simp [hdot, hcolon, hpercent] at hfound

/-- The text of an IPv4 address has letters, digits and dots. -/
theorem mem_string4 {v4 : ℕ} {c : Char} (h : c ∈ string4 v4) : c = '.' ∨ c.isAlphanum = true := by
  rcases mem_join h with hdot | ⟨part, hpart, hmem⟩
  · exact Or.inl hdot
  · simp only [List.mem_cons, List.not_mem_nil, or_false] at hpart
    rcases hpart with rfl | rfl | rfl | rfl <;>
      exact Or.inr (appendDecimal_alphanum (Nat.mod_lt _ (by decide)) _ hmem)

private theorem parseIPv4_string4 {v4 : ℕ} (h : v4 < 2 ^ 32) :
    parseIPv4 (string4 v4) = some v4 := by
  have hoctets : ∀ part ∈ [appendDecimal (v4 / 2 ^ 24 % 256), appendDecimal (v4 / 2 ^ 16 % 256),
      appendDecimal (v4 / 2 ^ 8 % 256), appendDecimal (v4 % 256)], '.' ∉ part := by
    intro part hpart hmem
    simp only [List.mem_cons, List.not_mem_nil, or_false] at hpart
    rcases hpart with rfl | rfl | rfl | rfl <;>
      exact ne_of_alphanum (appendDecimal_alphanum (Nat.mod_lt _ (by decide)) _ hmem) rfl rfl
  rw [parseIPv4, string4, splitAll_join (by simp) hoctets]
  dsimp only
  rw [parseOctet_appendDecimal (Nat.mod_lt _ (by decide)),
    parseOctet_appendDecimal (Nat.mod_lt _ (by decide)),
    parseOctet_appendDecimal (Nat.mod_lt _ (by decide)),
    parseOctet_appendDecimal (Nat.mod_lt _ (by decide))]
  simp only [Option.bind_eq_bind, Option.bind_some, Option.some.injEq]
  omega

private theorem parseAddr_string4 {v4 : ℕ} (h : v4 < 2 ^ 32) :
    ParseAddr (string4 v4) = some ⟨ofIPv4 v4, []⟩ := by
  have hdot : '.' ∈ string4 v4 := by simp [string4, join]
  have hchars : ∀ c ∈ string4 v4, c ≠ '.' → c ≠ '.' ∧ c ≠ ':' ∧ c ≠ '%' := by
    intro c hc hne
    rcases mem_string4 hc with hdot | halphanum
    · exact absurd hdot hne
    · exact ⟨hne, ne_of_alphanum halphanum rfl, ne_of_alphanum halphanum rfl⟩
  simp only [ParseAddr, find_mark hdot hchars (Or.inl rfl), parseIPv4_string4 h]
  rfl

/-- The text of fields has letters, digits and colons. -/
theorem mem_string6 {c : Char} (hvalues : ∀ x ∈ values, x < 0x10000) (h : c ∈ string6 values) :
    c = ':' ∨ c.isAlphanum = true := by
  have hjoin : ∀ list : List ℕ, (∀ x ∈ list, x < 0x10000) →
      c ∈ join ':' (list.map appendHex) → c = ':' ∨ c.isAlphanum = true := by
    intro list hlist hc
    rcases mem_join hc with hcolon | ⟨part, hpart, hmem⟩
    · exact Or.inl hcolon
    · rcases List.mem_map.mp hpart with ⟨x, hx, rfl⟩
      exact Or.inr (appendHex_alphanum (hlist x hx) c hmem)
  rw [string6] at h
  split at h
  · exact hjoin _ hvalues h
  · rw [List.mem_append, List.mem_cons, List.mem_cons] at h
    rcases h with h | h | h | h
    · exact hjoin _ (fun x hx => hvalues x (List.mem_of_mem_take hx)) h
    · exact Or.inl h
    · exact Or.inl h
    · exact hjoin _ (fun x hx => hvalues x (List.mem_of_mem_drop hx)) h

private theorem colon_mem_string6 (hlength : values.length = 8) : ':' ∈ string6 values := by
  rw [string6]
  split
  · cases values with
    | nil => cases hlength
    | cons x values =>
        have hne : values.map appendHex ≠ [] := by
          intro hnil
          rw [List.map_eq_nil_iff.mp hnil] at hlength
          cases hlength
        rw [List.map_cons, join_cons_of_ne_nil _ hne]
        simp
  · simp

private theorem parseAddr_string6 (ip : IP) : ParseAddr (string6 (fields ip)) = some ⟨ip, []⟩ := by
  have hvalues : ∀ x ∈ fields ip, x < 0x10000 := fun x hx => lt_of_mem_fields hx
  have hchars : ∀ c ∈ string6 (fields ip), c ≠ ':' → c ≠ '.' ∧ c ≠ ':' ∧ c ≠ '%' := by
    intro c hc hne
    rcases mem_string6 hvalues hc with hcolon | halphanum
    · exact absurd hcolon hne
    · exact ⟨ne_of_alphanum halphanum rfl, hne, ne_of_alphanum halphanum rfl⟩
  have hpercent : ∀ c ∈ string6 (fields ip), (c ≠ '%') = true := by
    intro c hc
    rcases mem_string6 hvalues hc with rfl | halphanum
    · decide
    · simpa using ne_of_alphanum halphanum (show '%'.isAlphanum = false from rfl)
  have htake : (string6 (fields ip)).takeWhile (· ≠ '%') = string6 (fields ip) :=
    List.takeWhile_eq_self_iff.mpr fun c hc => by simpa using hpercent c hc
  have hdrop : (string6 (fields ip)).dropWhile (· ≠ '%') = [] :=
    List.dropWhile_eq_nil_iff.mpr fun c hc => by simpa using hpercent c hc
  simp only [ParseAddr, find_mark (colon_mem_string6 (length_fields ip)) hchars (Or.inr rfl)]
  rw [parseIPv6, htake, hdrop, parseIPv6Fields_string6 (length_fields ip) hvalues]
  simp [ofFields_fields]

/-- The text of an address is parsed as this address. -/
theorem parseIP_string (ip : IP) : ParseIP (IPString ip) = some ip := by
  rw [IPString]
  cases hfour : To4 ip with
  | none =>
      dsimp only
      rw [ParseIP, parseAddr_string6]
      rfl
  | some v4 =>
      rw [To4] at hfour
      split_ifs at hfour with hmapped
      rcases Option.some.inj hfour with rfl
      have hip : ofIPv4 (ip.toNat % 2 ^ 32) = ip := by
        apply BitVec.eq_of_toNat_eq
        have hlt := ip.isLt
        rw [ofIPv4, BitVec.toNat_ofNat]
        omega
      dsimp only
      rw [ParseIP, parseAddr_string4 (Nat.mod_lt _ (by decide)), hip]
      rfl

/-- The text of an address has letters, digits, dots and colons. -/
theorem mem_IPString {ip : IP} {c : Char} (h : c ∈ IPString ip) :
    c = '.' ∨ c = ':' ∨ c.isAlphanum = true := by
  rw [IPString] at h
  split at h
  · rcases mem_string4 h with hdot | halphanum
    · exact Or.inl hdot
    · exact Or.inr (Or.inr halphanum)
  · exact Or.inr (mem_string6 (fun x hx => lt_of_mem_fields hx) h)

end Webhook
end MemosNote
