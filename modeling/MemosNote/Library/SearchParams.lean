import MemosNote.Library.PercentEncoding

/-!
# Query strings

The pairs of a query string are written as names and values, with a plus sign for a space and
percent encodings for most other characters.  Reading splits the text first and decodes the parts
leniently.

Main results:

- Theorem {lit}`parse_serialize`: pairs are read back.
- Theorem {lit}`get_set`: the value that was set is found.
-/

namespace MemosNote
namespace Library
namespace SearchParams

open PercentEncoding

/-! ## Components -/

/-- The characters that are written as they are. -/
def kept (c : Char) : Bool :=
  c.isAlphanum || c == '*' || c == '-' || c == '.' || c == '_'

def encodeComponent (text : List Char) : List Char :=
  text.flatMap fun c => if c = ' ' then ['+'] else encodeChar kept c

/-- A plus sign is read as a space. -/
def spaced (text : List Char) : List Char :=
  text.map fun c => if c = '+' then ' ' else c

def decodeComponent (text : List Char) : List Char :=
  Utf8.decode (bytes (spaced text))

/-! ## Pairs -/

def pairText (pair : List Char × List Char) : List Char :=
  encodeComponent pair.1 ++ '=' :: encodeComponent pair.2

def serialize (pairs : List (List Char × List Char)) : List Char :=
  ['&'].intercalate (pairs.map pairText)

/-- A part is cut at its first equality sign. -/
def parsePair (text : List Char) : List Char × List Char :=
  (decodeComponent (text.takeWhile (· ≠ '=')), decodeComponent ((text.dropWhile (· ≠ '=')).drop 1))

/-- The pairs of a query string; empty parts are skipped. -/
def parse (text : List Char) : List (List Char × List Char) :=
  ((text.splitOn '&').filter (· ≠ [])).map parsePair

/-- The first value of a name. -/
def get (name : List Char) : List (List Char × List Char) → Option (List Char)
  | [] => none
  | pair :: pairs => if pair.1 = name then some pair.2 else get name pairs

/-- Set the first value of a name and remove the others, or add a pair. -/
def set (name value : List Char) : List (List Char × List Char) → List (List Char × List Char)
  | [] => [(name, value)]
  | pair :: pairs =>
      if pair.1 = name then (name, value) :: pairs.filter (·.1 ≠ name)
      else pair :: set name value pairs

/-- The value that was set is found. -/
theorem get_set (name value : List Char) (pairs : List (List Char × List Char)) :
    get name (set name value pairs) = some value := by
  induction pairs with
  | nil => simp [set, get]
  | cons pair pairs ih =>
      rw [set]
      by_cases h : pair.1 = name
      · simp [h, get]
      · rw [if_neg h, get, if_neg h, ih]

/-! ## Round trips -/

theorem digit_ne {c : Char} (hc : c ∉ "0123456789ABCDEF".toList) : ∀ n < 16, digit n ≠ c := by
  intro n hn he
  have hmem : ∀ n < 16, digit n ∈ "0123456789ABCDEF".toList := by decide
  exact hc (he ▸ hmem n hn)

/-- A symbol that is neither kept nor part of an encoding is not written. -/
theorem notMem_encodeChar {keep : Char → Bool} {symbol : Char} (hkeep : keep symbol = false)
    (hpercent : symbol ≠ '%') (hdigit : symbol ∉ "0123456789ABCDEF".toList) (c : Char) :
    symbol ∉ encodeChar keep c := by
  unfold encodeChar
  by_cases hc : keep c = true
  · rw [if_pos hc, List.mem_singleton]
    rintro rfl
    rw [hkeep] at hc
    cases hc
  · rw [if_neg hc, List.mem_flatMap]
    rintro ⟨b, -, hb⟩
    have hbound : b.toNat < 256 := b.toNat_lt
    simp only [percentByte, List.mem_cons, List.not_mem_nil, or_false] at hb
    rcases hb with hb | hb | hb
    · exact hpercent hb
    · exact digit_ne hdigit _ (by omega) hb.symm
    · exact digit_ne hdigit _ (by omega) hb.symm

theorem notMem_encodeComponent {symbol : Char} (hkeep : kept symbol = false)
    (hpercent : symbol ≠ '%') (hdigit : symbol ∉ "0123456789ABCDEF".toList) (hplus : symbol ≠ '+')
    (text : List Char) : symbol ∉ encodeComponent text := by
  intro h
  rcases List.mem_flatMap.mp h with ⟨c, -, hc⟩
  by_cases hspace : c = ' '
  · rw [if_pos hspace, List.mem_singleton] at hc
    exact hplus hc
  · rw [if_neg hspace] at hc
    exact notMem_encodeChar hkeep hpercent hdigit c hc

/-- Without plus signs nothing is read as a space. -/
theorem spaced_of_notMem {text : List Char} (h : '+' ∉ text) : spaced text = text := by
  induction text with
  | nil => rfl
  | cons c text ih =>
      have hc : c ≠ '+' := fun he => h (he ▸ List.mem_cons_self)
      rw [spaced, List.map_cons, if_neg hc]
      exact congrArg (c :: ·) (ih fun hmem => h (List.mem_cons_of_mem c hmem))

/-- With the spaces read, only they are kept besides. -/
theorem spaced_encodeComponent (text : List Char) :
    spaced (encodeComponent text) = encode (fun c => kept c || c == ' ') text := by
  induction text with
  | nil => rfl
  | cons c text ih =>
      have hsplit : spaced (encodeComponent (c :: text)) =
          spaced (if c = ' ' then ['+'] else encodeChar kept c) ++
            spaced (encodeComponent text) := by
        rw [encodeComponent, List.flatMap_cons, spaced, List.map_append]
        rfl
      rw [hsplit, ih, encode, encode, List.flatMap_cons]
      congr 1
      by_cases hspace : c = ' '
      · subst hspace
        rfl
      · have hplus := @notMem_encodeChar kept '+' (by decide) (by decide) (by decide) c
        have hother : (c == ' ') = false := by simpa using hspace
        rw [if_neg hspace, spaced_of_notMem hplus, encodeChar, encodeChar, hother, Bool.or_false]

theorem decodeComponent_encodeComponent (text : List Char) :
    decodeComponent (encodeComponent text) = text := by
  rw [decodeComponent, spaced_encodeComponent, bytes_encode (by decide), Utf8.decode_encode]

/-- A component without percent and plus signs is decoded to itself. -/
theorem decodeComponent_plain {text : List Char} (hpercent : '%' ∉ text) (hplus : '+' ∉ text) :
    decodeComponent text = text := by
  have hbytes := bytes_plain_append hpercent []
  rw [List.append_nil] at hbytes
  rw [decodeComponent, spaced_of_notMem hplus, hbytes]
  exact (congrArg Utf8.decode (List.append_nil _)).trans (Utf8.decode_encode text)

theorem parsePair_append {name : List Char} (h : '=' ∉ name) (value : List Char) :
    parsePair (name ++ '=' :: value) = (decodeComponent name, decodeComponent value) := by
  have hall : ∀ c ∈ name, (decide (c ≠ '=')) = true := by
    intro c hc
    exact decide_eq_true fun he => h (he ▸ hc)
  rw [parsePair, List.takeWhile_append_of_pos hall, List.dropWhile_append_of_pos hall]
  simp

theorem parsePair_pairText (pair : List Char × List Char) : parsePair (pairText pair) = pair := by
  have hname : '=' ∉ encodeComponent pair.1 :=
    notMem_encodeComponent (by decide) (by decide) (by decide) (by decide) _
  rw [pairText, parsePair_append hname, decodeComponent_encodeComponent,
    decodeComponent_encodeComponent]

/-- Pairs are read back. -/
theorem parse_serialize (pairs : List (List Char × List Char)) :
    parse (serialize pairs) = pairs := by
  cases hpairs : pairs with
  | nil => rfl
  | cons first rest =>
      rw [← hpairs]
      have hne : pairs.map pairText ≠ [] := by
        rw [hpairs]
        simp
      have hseparator : ∀ text ∈ pairs.map pairText, '&' ∉ text := by
        intro text htext
        rcases List.mem_map.mp htext with ⟨pair, -, rfl⟩
        have hcomponent : ∀ t, '&' ∉ encodeComponent t :=
          notMem_encodeComponent (by decide) (by decide) (by decide) (by decide)
        simp [pairText, hcomponent]
      have hfilter : (pairs.map pairText).filter (· ≠ []) = pairs.map pairText := by
        apply List.filter_eq_self.mpr
        intro text htext
        rcases List.mem_map.mp htext with ⟨pair, -, rfl⟩
        simp [pairText]
      rw [parse, serialize, List.splitOn_intercalate '&' hseparator hne, hfilter, List.map_map]
      have hpair : parsePair ∘ pairText = id := funext parsePair_pairText
      rw [hpair, List.map_id]

end SearchParams
end Library
end MemosNote
