import Mathlib.Data.List.DropRight
import Mathlib.Data.List.Infix
import Mathlib.Tactic.Tauto
import MemosNote.Library.SearchParams

/-!
# Resolving a path against an origin

A text that starts with a slash is resolved against an origin as browsers do: control characters are
taken off, backslashes are slashes, two slashes lead to another host, and the path is cut into
segments whose dots are resolved.

Main results:

- Theorem {lit}`pathState_eq`: the segments of a path are those of its pieces, one after another.
- Theorem {lit}`head_closeAll_iff`: which piece is the first segment in the end.
- Theorem {lit}`below_pathname_iff`: a path name is below a route when that is its first segment.
-/

namespace MemosNote
namespace Library
namespace RelativeUrl

/-! ## Characters -/

/-- Both slashes separate the segments of a path on the web. -/
def isSlash (c : Char) : Bool :=
  c = '/' || c = '\\'

/-- A path ends where a query or a fragment starts. -/
def endsPath (c : Char) : Bool :=
  c = '?' || c = '#'

/-- What is taken out of an address wherever it stands. -/
def isTabOrNewline (c : Char) : Bool :=
  c = '\t' || c = '\n' || c = '\r'

/-- What is taken off both ends of an address. -/
def isControlOrSpace (c : Char) : Bool :=
  c.toNat ≤ 0x20

/-- The characters of a path that are not percent-encoded. -/
def keepInPath (c : Char) : Bool :=
  0x20 < c.toNat && c.toNat < 0x7f && c ∉ ['"', '#', '<', '>', '?', '^', '`', '{', '}']

/-- The text without control characters and spaces at its ends, and without tabs and newlines. -/
def clean (input : List Char) : List Char :=
  ((input.dropWhile isControlOrSpace).rdropWhile isControlOrSpace).filter (!isTabOrNewline ·)

/-- A letter of ASCII in lower case. -/
def lower (c : Char) : Char :=
  if 'A' ≤ c ∧ c ≤ 'Z' then Char.ofNat (c.toNat + 32) else c

/-! ## Segments -/

/-- The segment of the same directory, its dot escaped or not. -/
def isSingleDot (segment : List Char) : Bool :=
  segment.map lower ∈ [".".toList, "%2e".toList]

/-- The segment of the directory above, its dots escaped or not. -/
def isDoubleDot (segment : List Char) : Bool :=
  segment.map lower ∈ ["..".toList, ".%2e".toList, "%2e.".toList, "%2e%2e".toList]

/-- The segments after one more has ended, at a slash or at the end of the path. -/
def closeSegment (path : List (List Char)) (buffer : List Char) (last : Bool) : List (List Char) :=
  if isDoubleDot buffer then if last then path.dropLast ++ [[]] else path.dropLast
  else if isSingleDot buffer then if last then path ++ [[]] else path
  else path ++ [buffer]

/-- The segments of a path, when some segments and the beginning of one have been read. -/
def pathState (path : List (List Char)) (buffer : List Char) : List Char → List (List Char)
  | [] => closeSegment path buffer true
  | c :: rest =>
      if endsPath c then closeSegment path buffer true
      else if isSlash c then pathState (closeSegment path buffer false) [] rest
      else pathState path (buffer ++ PercentEncoding.encodeChar keepInPath c) rest

/-- The segments as text. -/
def pathname (path : List (List Char)) : List Char :=
  path.flatMap ('/' :: ·)

/-! ## Resolving -/

/-- Where a URL leads to. -/
structure Origin where
  scheme : String
  host : String
  port : Option ℕ
deriving DecidableEq

/-- An address: its origin and its path. -/
structure Url where
  origin : Origin
  pathname : List Char

/-- Resolve a text that starts with a slash against an origin whose scheme is that of web pages,
when it is known what host and port an authority has. -/
def resolve (parseAuthority : List Char → Option (String × Option ℕ)) (base : Origin)
    (input : List Char) : Option Url :=
  match clean input with
  | [] => none
  | first :: rest =>
      if first ≠ '/' then none
      else if rest.head?.any isSlash then
        let authority := rest.dropWhile isSlash
        (parseAuthority (authority.takeWhile fun c => !isSlash c && !endsPath c)).map fun parsed =>
          let path := authority.dropWhile fun c => !isSlash c && !endsPath c
          ⟨⟨base.scheme, parsed.1, parsed.2⟩,
            pathname (pathState [] [] (if path.head?.any isSlash then path.tail else path))⟩
      else some ⟨base, pathname (pathState [] [] rest)⟩

/-! ## Pieces -/

/-- The pieces of a path as it is written. -/
def pieces (text : List Char) : List (List Char) :=
  (text.takeWhile fun c => !endsPath c).splitOnP isSlash

/-- A segment as the path of an address writes it. -/
abbrev encodeSegment (piece : List Char) : List Char :=
  PercentEncoding.encode keepInPath piece

/-- The segments after some pieces, the last of which ends the path. -/
def closeAll (path : List (List Char)) : List (List Char) → List (List Char)
  | [] => path
  | [piece] => closeSegment path (encodeSegment piece) true
  | piece :: next :: rest => closeAll (closeSegment path (encodeSegment piece) false) (next :: rest)

theorem pieces_ne_nil (text : List Char) : pieces text ≠ [] :=
  List.splitOnP_ne_nil _ _

/-- The segments of a path are those of its pieces, one after another. -/
theorem pathState_eq (path : List (List Char)) (piece text : List Char) :
    pathState path (encodeSegment piece) text =
      closeAll path ((pieces text).modifyHead (piece ++ ·)) := by
  induction text generalizing path piece with
  | nil => simp [pathState, pieces, closeAll, List.splitOnP_nil]
  | cons c rest ih =>
      rw [pathState]
      by_cases hend : endsPath c = true
      · simp [hend, pieces, closeAll, List.splitOnP_nil]
      · have htake : (c :: rest).takeWhile (fun c => !endsPath c) =
            c :: rest.takeWhile fun c => !endsPath c := by
          simp [hend]
        rw [if_neg hend, pieces, htake, List.splitOnP_cons_eq_if_modifyHead]
        by_cases hslash : isSlash c = true
        · have hrest := ih (closeSegment path (encodeSegment piece) false) []
          rw [if_pos hslash, if_pos hslash, List.modifyHead_cons, List.append_nil]
          cases hpieces : pieces rest with
          | nil => exact absurd hpieces (pieces_ne_nil rest)
          | cons next more =>
              rw [hpieces] at hrest
              rw [pieces] at hpieces
              rw [hpieces]
              exact hrest
        · have hrest := ih path (piece ++ [c])
          rw [if_neg hslash, if_neg hslash]
          have hencode : encodeSegment (piece ++ [c]) =
              encodeSegment piece ++ PercentEncoding.encodeChar keepInPath c := by
            simp [encodeSegment, PercentEncoding.encode]
          rw [← hencode, hrest, List.modifyHead_modifyHead, pieces]
          congr 2
          funext p
          simp

/-! ## Encoded segments -/

/-- The first byte of a character other than the dot is not that of the dot. -/
theorem first_byte_ne {c : Char} {b : UInt8} {bytes : List UInt8}
    (h : String.utf8EncodeChar c = b :: bytes) (hc : c ≠ '.') : b.toNat ≠ 0x2e := by
  intro hb
  have haccept := Utf8.Decoder.accept_encodeChar c
  have hfirst : Utf8.Decoder.next {} b = some ({}, ['.']) := by
    rw [Utf8.Decoder.next_first, hb]
    rfl
  rw [h, Utf8.Decoder.accept, hfirst, Option.bind_some] at haccept
  rcases Option.map_eq_some_iff.mp haccept with ⟨rest, -, hrest⟩
  have htext : '.' :: rest.2 = [c] := congrArg Prod.snd hrest
  exact hc (List.cons.inj htext).1.symm

/-- A character stays as it is, or becomes bytes behind percent signs, none for a dot. -/
theorem encodeChar_cases (c : Char) :
    PercentEncoding.encodeChar keepInPath c = [c] ∨
      ∃ b rest, PercentEncoding.encodeChar keepInPath c =
        PercentEncoding.percentByte b ++ rest ∧ b.toNat ≠ 0x2e := by
  rw [PercentEncoding.encodeChar]
  by_cases hkeep : keepInPath c = true
  · exact Or.inl (if_pos hkeep)
  · right
    rw [if_neg hkeep]
    have hc : c ≠ '.' := by
      rintro rfl
      exact hkeep (by decide)
    cases hbytes : String.utf8EncodeChar c with
    | nil =>
        have haccept := Utf8.Decoder.accept_encodeChar c
        rw [hbytes, Utf8.Decoder.accept] at haccept
        cases haccept
    | cons b bytes =>
        exact ⟨b, bytes.flatMap PercentEncoding.percentByte, rfl, first_byte_ne hbytes hc⟩

/-- A piece stays as it is, or has a byte behind a percent sign that is not that of the dot. -/
theorem encodeSegment_cases (piece : List Char) :
    encodeSegment piece = piece ∨
      ∃ before b after, encodeSegment piece =
        before ++ (PercentEncoding.percentByte b ++ after) ∧ b.toNat ≠ 0x2e := by
  induction piece with
  | nil => exact Or.inl rfl
  | cons c piece ih =>
      have hcons : encodeSegment (c :: piece) =
          PercentEncoding.encodeChar keepInPath c ++ encodeSegment piece :=
        List.flatMap_cons
      rw [hcons]
      rcases encodeChar_cases c with hc | ⟨b, rest, hc, hb⟩
      · rw [hc]
        rcases ih with hpiece | ⟨before, b, after, hpiece, hb⟩
        · left
          rw [hpiece, List.singleton_append]
        · right
          exact ⟨c :: before, b, after, by rw [hpiece]; rfl, hb⟩
      · right
        exact ⟨[], b, rest ++ encodeSegment piece, by simp [hc], hb⟩

/-- A text without percent signs is no encoding of another piece. -/
theorem encodeSegment_eq_iff {piece text : List Char} (h : '%' ∉ text)
    (hkept : encodeSegment text = text) : encodeSegment piece = text ↔ piece = text := by
  constructor
  · intro heq
    rcases encodeSegment_cases piece with hpiece | ⟨before, b, after, hpiece, -⟩
    · exact hpiece.symm.trans heq
    · rw [heq] at hpiece
      exact absurd (by simp [hpiece, PercentEncoding.percentByte]) h
  · rintro rfl
    exact hkept

/-- A letter is kept if its lower case is. -/
theorem keepInPath_of_lower {c : Char} (h : keepInPath (lower c) = true) : keepInPath c = true := by
  rw [lower] at h
  split at h
  · rename_i hupper
    have hlow : 0x41 ≤ c.toNat := hupper.1
    have hhigh : c.toNat ≤ 0x5a := hupper.2
    rw [keepInPath, Bool.and_eq_true, Bool.and_eq_true, decide_eq_true_eq, decide_eq_true_eq,
      decide_eq_true_eq]
    refine ⟨⟨by omega, by omega⟩, fun hmem => ?_⟩
    have hcases : (['"', '#', '<', '>', '?', '^', '`', '{', '}'].all fun d =>
        d.toNat < 0x41 || 0x5a < d.toNat) = true := by
      decide
    have hout := List.all_eq_true.mp hcases c hmem
    rw [Bool.or_eq_true, decide_eq_true_eq, decide_eq_true_eq] at hout
    omega
  · exact h

/-- A segment of plain characters stays as it is. -/
theorem encodeSegment_of_keep {piece : List Char} (h : ∀ c ∈ piece, keepInPath c = true) :
    encodeSegment piece = piece := by
  induction piece with
  | nil => rfl
  | cons c piece ih =>
      have hcons : encodeSegment (c :: piece) =
          PercentEncoding.encodeChar keepInPath c ++ encodeSegment piece :=
        List.flatMap_cons
      rw [hcons, ih fun d hd => h d (List.mem_cons_of_mem _ hd), PercentEncoding.encodeChar,
        if_pos (h c List.mem_cons_self)]
      rfl

theorem lower_digit : ∀ n < 16,
    (lower (PercentEncoding.digit n) = '2' → n = 2) ∧
      (lower (PercentEncoding.digit n) = 'e' → n = 14) := by
  decide

/-- A percent sign in a dot segment starts the encoding of a dot. -/
def OnlyDots (text : List Char) : Prop :=
  (∀ c ∈ text, keepInPath c = true) ∧ ∀ x y, ['%', x, y] <:+: text → x = '2' ∧ y = 'e'

/-- Encoding changes no dot segment, and makes none. -/
theorem lower_encodeSegment_iff {text : List Char} (h : OnlyDots text) (piece : List Char) :
    (encodeSegment piece).map lower = text ↔ piece.map lower = text := by
  rcases h with ⟨hkeep, hdots⟩
  constructor
  · intro heq
    rcases encodeSegment_cases piece with hpiece | ⟨before, b, after, hpiece, hb⟩
    · rwa [hpiece] at heq
    · exfalso
      rw [hpiece, List.map_append, List.map_append] at heq
      have hinfix : ['%', lower (PercentEncoding.digit (b.toNat / 16)),
          lower (PercentEncoding.digit (b.toNat % 16))] <:+: text :=
        ⟨before.map lower, after.map lower, by rw [List.append_assoc]; exact heq⟩
      have hbound := b.toNat_lt
      rcases hdots _ _ hinfix with ⟨hx, hy⟩
      have hhigh := (lower_digit (b.toNat / 16) (by omega)).1 hx
      have hlow := (lower_digit (b.toNat % 16) (by omega)).2 hy
      omega
  · intro heq
    rw [encodeSegment_of_keep, heq]
    intro c hc
    exact keepInPath_of_lower (hkeep _ (heq ▸ List.mem_map_of_mem hc))

/-- The spellings of the dot segments are made of dots. -/
theorem onlyDots_mem {text : List Char}
    (h : text ∈ [".".toList, "%2e".toList, "..".toList, ".%2e".toList, "%2e.".toList,
      "%2e%2e".toList]) : OnlyDots text := by
  have hkeep : ([".".toList, "%2e".toList, "..".toList, ".%2e".toList, "%2e.".toList,
      "%2e%2e".toList].all fun text => text.all keepInPath) = true := by
    decide
  refine ⟨List.all_eq_true.mp (List.all_eq_true.mp hkeep text h), ?_⟩
  intro x y hinfix
  simp only [List.mem_cons, List.not_mem_nil, or_false] at h
  rcases h with rfl | rfl | rfl | rfl | rfl | rfl
  · simp [List.infix_cons_iff] at hinfix
  · simpa [List.infix_cons_iff] using hinfix
  · simp [List.infix_cons_iff] at hinfix
  · simpa [List.infix_cons_iff] using hinfix
  · simpa [List.infix_cons_iff] using hinfix
  · simpa [List.infix_cons_iff] using hinfix

/-- Escaping neither makes nor breaks a dot segment. -/
theorem isSingleDot_encodeSegment (piece : List Char) :
    isSingleDot (encodeSegment piece) = isSingleDot piece := by
  have hiff := fun text htext => @lower_encodeSegment_iff text (onlyDots_mem htext) piece
  rw [isSingleDot, isSingleDot, decide_eq_decide]
  simp only [List.mem_cons, List.not_mem_nil, or_false]
  rw [hiff _ (by simp), hiff _ (by simp)]

/-- Escaping neither makes nor breaks a dot segment. -/
theorem isDoubleDot_encodeSegment (piece : List Char) :
    isDoubleDot (encodeSegment piece) = isDoubleDot piece := by
  have hiff := fun text htext => @lower_encodeSegment_iff text (onlyDots_mem htext) piece
  rw [isDoubleDot, isDoubleDot, decide_eq_decide]
  simp only [List.mem_cons, List.not_mem_nil, or_false]
  rw [hiff _ (by simp), hiff _ (by simp), hiff _ (by simp), hiff _ (by simp)]

/-! ## The first segment -/

/-- How many segments there are after one more piece. -/
def stepDepth (depth : ℕ) (piece : List Char) : ℕ :=
  if isDoubleDot piece then depth - 1 else if isSingleDot piece then depth else depth + 1

/-- How deep the segments lead. -/
def depthAfter (depth : ℕ) (pieces : List (List Char)) : ℕ :=
  pieces.foldl stepDepth depth

/-- The first segment is not taken away while some pieces are read. -/
def Stays (depth : ℕ) (pieces : List (List Char)) : Prop :=
  ∀ read rest, pieces = read ++ rest → depthAfter depth read ≠ 0

/-- A piece is read when there is no segment, and is not taken away. -/
def Stands (text : List Char) (depth : ℕ) (pieces : List (List Char)) : Prop :=
  ∃ before after, pieces = before ++ text :: after ∧ depthAfter depth before = 0 ∧ Stays 1 after

theorem stays_nil {depth : ℕ} : Stays depth [] ↔ depth ≠ 0 := by
  constructor
  · exact fun h => h [] [] rfl
  · intro hne read rest hsplit
    rw [(List.append_eq_nil_iff.mp hsplit.symm).1]
    exact hne

/-- Staying inside is decided one segment after another. -/
theorem stays_cons {depth : ℕ} {piece : List Char} {pieces : List (List Char)} :
    Stays depth (piece :: pieces) ↔ depth ≠ 0 ∧ Stays (stepDepth depth piece) pieces := by
  constructor
  · exact fun h => ⟨h [] _ rfl, fun read rest hsplit => h (piece :: read) rest (hsplit ▸ rfl)⟩
  · rintro ⟨hne, hstays⟩ read rest hsplit
    cases read with
    | nil => exact hne
    | cons first read =>
        rcases List.cons.inj hsplit with ⟨rfl, htail⟩
        exact hstays read rest htail

instance decidableStays : (depth : ℕ) → (pieces : List (List Char)) → Decidable (Stays depth pieces)
  | _, [] => decidable_of_iff _ stays_nil.symm
  | depth, piece :: pieces =>
      have := decidableStays (stepDepth depth piece) pieces
      decidable_of_iff _ stays_cons.symm

theorem stands_nil {text : List Char} {depth : ℕ} : ¬Stands text depth [] := by
  rintro ⟨before, after, hsplit, -⟩
  cases before with
  | nil => cases hsplit
  | cons first before => cases hsplit

/-- Standing at the top is decided one segment after another. -/
theorem stands_cons {text piece : List Char} {depth : ℕ} {pieces : List (List Char)} :
    Stands text depth (piece :: pieces) ↔
      (piece = text ∧ depth = 0 ∧ Stays 1 pieces) ∨ Stands text (stepDepth depth piece) pieces := by
  constructor
  · rintro ⟨before, after, hsplit, hdepth, hstays⟩
    cases before with
    | nil =>
        rcases List.cons.inj hsplit with ⟨rfl, rfl⟩
        exact Or.inl ⟨rfl, hdepth, hstays⟩
    | cons first before =>
        rcases List.cons.inj hsplit with ⟨rfl, htail⟩
        exact Or.inr ⟨before, after, htail, hdepth, hstays⟩
  · rintro (⟨rfl, hdepth, hstays⟩ | ⟨before, after, rfl, hdepth, hstays⟩)
    · exact ⟨[], pieces, rfl, hdepth, hstays⟩
    · exact ⟨piece :: before, after, rfl, hdepth, hstays⟩

instance decidableStands (text : List Char) :
    (depth : ℕ) → (pieces : List (List Char)) → Decidable (Stands text depth pieces)
  | _, [] => isFalse stands_nil
  | depth, piece :: pieces =>
      have := decidableStands text (stepDepth depth piece) pieces
      decidable_of_iff _ stands_cons.symm

/-- The depth of the path after a segment. -/
theorem length_closeSegment (path : List (List Char)) (piece : List Char) :
    (closeSegment path (encodeSegment piece) false).length = stepDepth path.length piece := by
  rw [closeSegment, stepDepth, isDoubleDot_encodeSegment, isSingleDot_encodeSegment]
  by_cases hdouble : isDoubleDot piece = true
  · simp [hdouble]
  · by_cases hsingle : isSingleDot piece = true
    · simp [hdouble, hsingle]
    · simp [hdouble, hsingle]

/-- A text that is a segment as it is written. -/
structure PlainSegment (text : List Char) : Prop where
  ne_nil : text ≠ []
  percent : '%' ∉ text
  kept : ∀ c ∈ text, keepInPath c = true
  single : isSingleDot text = false
  double : isDoubleDot text = false

/-- What stands at the top after a segment. -/
theorem head_closeSegment {text : List Char} (htext : PlainSegment text)
    (path : List (List Char)) (piece : List Char) (last : Bool) :
    (closeSegment path (encodeSegment piece) last).head? = some text ↔
      (path.head? = some text ∧ stepDepth path.length piece ≠ 0) ∨ (path = [] ∧ piece = text) := by
  have hencode := @encodeSegment_eq_iff piece text htext.percent (encodeSegment_of_keep htext.kept)
  have hnil : [] ≠ text := htext.ne_nil.symm
  rw [closeSegment, stepDepth, isDoubleDot_encodeSegment, isSingleDot_encodeSegment]
  by_cases hdouble : isDoubleDot piece = true
  · have hne : piece ≠ text := by
      rintro rfl
      rw [htext.double] at hdouble
      cases hdouble
    match path with
    | [] => cases last <;> simp [hdouble, hne, hnil]
    | [first] => cases last <;> simp [hdouble, hnil]
    | first :: second :: rest => cases last <;> simp [hdouble]
  · by_cases hsingle : isSingleDot piece = true
    · have hne : piece ≠ text := by
        rintro rfl
        rw [htext.single] at hsingle
        cases hsingle
      cases path with
      | nil => cases last <;> simp [hdouble, hsingle, hne, hnil]
      | cons first rest => cases last <;> simp [hdouble, hsingle]
    · cases path with
      | nil => simp [hdouble, hsingle, hencode]
      | cons first rest => simp [hdouble, hsingle]

/-- Which piece is the first segment in the end. -/
theorem head_closeAll_iff {text : List Char} (htext : PlainSegment text)
    {pieces : List (List Char)} (hpieces : pieces ≠ []) (path : List (List Char)) :
    (closeAll path pieces).head? = some text ↔
      (path.head? = some text ∧ Stays path.length pieces) ∨ Stands text path.length pieces := by
  induction pieces generalizing path with
  | nil => exact absurd rfl hpieces
  | cons piece pieces ih =>
      have hlength : path.head? = some text → path.length ≠ 0 := by
        intro hhead hzero
        rw [List.eq_nil_of_length_eq_zero hzero] at hhead
        cases hhead
      have hempty : path.length = 0 ↔ path = [] := List.length_eq_zero_iff
      rw [stays_cons, stands_cons]
      cases pieces with
      | nil =>
          rw [closeAll, head_closeSegment htext, stays_nil, hempty]
          have hone : Stays 1 [] := stays_nil.mpr (by decide)
          have hnot : ¬Stands text (stepDepth path.length piece) [] := stands_nil
          tauto
      | cons next rest =>
          rw [closeAll, ih (by simp), head_closeSegment htext, length_closeSegment, hempty]
          have hstays : Stays (stepDepth path.length piece) (next :: rest) →
              stepDepth path.length piece ≠ 0 := fun h => h [] _ rfl
          have hfirst : path = [] → piece = text → stepDepth path.length piece = 1 := by
            rintro rfl rfl
            simp [stepDepth, htext.double, htext.single]
          constructor
          · rintro (⟨⟨hhead, -⟩ | ⟨hpath, htail⟩, hrest⟩ | hstands)
            · exact Or.inl ⟨hhead, hlength hhead, hrest⟩
            · rw [hfirst hpath htail] at hrest
              exact Or.inr (Or.inl ⟨htail, hpath, hrest⟩)
            · exact Or.inr (Or.inr hstands)
          · rintro (⟨hhead, -, hrest⟩ | ⟨htail, hpath, hrest⟩ | hstands)
            · exact Or.inl ⟨Or.inl ⟨hhead, hstays hrest⟩, hrest⟩
            · rw [← hfirst hpath htail] at hrest
              exact Or.inl ⟨Or.inr ⟨hpath, htail⟩, hrest⟩
            · exact Or.inr hstands

/-! ## The path name -/

/-- No piece has a slash. -/
theorem isSlash_of_mem_splitOnP {text piece : List Char} (hpiece : piece ∈ text.splitOnP isSlash)
    {c : Char} (hc : c ∈ piece) : isSlash c = false := by
  induction text generalizing piece with
  | nil =>
      rw [List.splitOnP_nil, List.mem_singleton] at hpiece
      rw [hpiece] at hc
      cases hc
  | cons d text ih =>
      rw [List.splitOnP_cons_eq_if_modifyHead] at hpiece
      by_cases hd : isSlash d = true
      · rw [if_pos hd, List.mem_cons] at hpiece
        rcases hpiece with rfl | hpiece
        · cases hc
        · exact ih hpiece hc
      · rw [if_neg hd] at hpiece
        cases hpieces : text.splitOnP isSlash with
        | nil => exact absurd hpieces (List.splitOnP_ne_nil _ _)
        | cons first rest =>
            rw [hpieces, List.modifyHead_cons, List.mem_cons] at hpiece
            rcases hpiece with rfl | hpiece
            · rcases List.mem_cons.mp hc with rfl | hc
              · exact Bool.eq_false_iff.mpr hd
              · exact ih (hpieces ▸ List.mem_cons_self) hc
            · exact ih (hpieces ▸ List.mem_cons_of_mem _ hpiece) hc

/-- Escaping adds no slash. -/
theorem slash_notMem_encodeSegment {piece : List Char} (h : '/' ∉ piece) :
    '/' ∉ encodeSegment piece := by
  intro hmem
  rcases List.mem_flatMap.mp hmem with ⟨c, hc, hslash⟩
  by_cases hkeep : keepInPath c = true
  · rw [PercentEncoding.encodeChar, if_pos hkeep, List.mem_singleton] at hslash
    exact h (hslash ▸ hc)
  · have hbytes : PercentEncoding.encodeChar keepInPath c =
        PercentEncoding.encodeChar (fun _ => false) c := by
      rw [PercentEncoding.encodeChar, PercentEncoding.encodeChar, if_neg hkeep]
      rfl
    rw [hbytes] at hslash
    exact SearchParams.notMem_encodeChar rfl (by decide) (by decide) c hslash

/-- The segments after one more segment. -/
theorem mem_closeSegment {path : List (List Char)} {buffer segment : List Char} {last : Bool}
    (h : segment ∈ closeSegment path buffer last) :
    segment ∈ path ∨ segment = [] ∨ segment = buffer := by
  rw [closeSegment] at h
  split at h
  · split at h
    · rcases List.mem_append.mp h with h | h
      · exact Or.inl (List.mem_of_mem_dropLast h)
      · exact Or.inr (Or.inl (List.mem_singleton.mp h))
    · exact Or.inl (List.mem_of_mem_dropLast h)
  · split at h
    · split at h
      · rcases List.mem_append.mp h with h | h
        · exact Or.inl h
        · exact Or.inr (Or.inl (List.mem_singleton.mp h))
      · exact Or.inl h
    · rcases List.mem_append.mp h with h | h
      · exact Or.inl h
      · exact Or.inr (Or.inr (List.mem_singleton.mp h))

/-- No segment has a slash. -/
theorem slash_notMem_closeAll {pieces : List (List Char)} (hpieces : ∀ p ∈ pieces, '/' ∉ p)
    {path : List (List Char)} (hpath : ∀ s ∈ path, '/' ∉ s) :
    ∀ s ∈ closeAll path pieces, '/' ∉ s := by
  have hclose : ∀ {path : List (List Char)} {piece : List Char} (last : Bool),
      (∀ s ∈ path, '/' ∉ s) → '/' ∉ piece →
        ∀ s ∈ closeSegment path (encodeSegment piece) last, '/' ∉ s := by
    intro path piece last hpath hpiece s hs
    rcases mem_closeSegment hs with hs | rfl | rfl
    · exact hpath s hs
    · exact List.not_mem_nil
    · exact slash_notMem_encodeSegment hpiece
  induction pieces generalizing path with
  | nil => exact hpath
  | cons piece pieces ih =>
      rw [List.forall_mem_cons] at hpieces
      cases pieces with
      | nil => exact hclose true hpath hpieces.1
      | cons next rest => exact ih hpieces.2 (hclose false hpath hpieces.1)

/-- A path name is a route or below it. -/
def Below (route name : List Char) : Prop :=
  name = '/' :: route ∨ ('/' :: route ++ ['/']) <+: name

theorem pathname_rest (path : List (List Char)) :
    pathname path = [] ∨ ∃ rest, pathname path = '/' :: rest := by
  cases path with
  | nil => exact Or.inl rfl
  | cons first rest => exact Or.inr ⟨first ++ pathname rest, rfl⟩

/-- A path name is below a route exactly when the route is its first segment. -/
theorem below_pathname_iff {route : List Char} (hroute : '/' ∉ route) {path : List (List Char)}
    (hpath : ∀ s ∈ path, '/' ∉ s) : Below route (pathname path) ↔ path.head? = some route := by
  cases path with
  | nil => simp [Below, pathname]
  | cons first rest =>
      rw [List.forall_mem_cons] at hpath
      have hname : pathname (first :: rest) = '/' :: (first ++ pathname rest) := rfl
      rw [hname, List.head?_cons, Option.some_inj]
      -- A segment is what stands before the next slash.
      have htake : ∀ {s t : List Char}, '/' ∉ s → (t = [] ∨ ∃ u, t = '/' :: u) →
          (s ++ t).takeWhile (· ≠ '/') = s := by
        intro s t hs ht
        rw [List.takeWhile_append_of_pos]
        · rcases ht with rfl | ⟨u, rfl⟩
          · simp
          · simp
        · intro c hc
          have hne : c ≠ '/' := fun hslash => hs (hslash ▸ hc)
          simpa using hne
      have hfirst := htake hpath.1 (pathname_rest rest)
      constructor
      · rintro (heq | ⟨more, hmore⟩)
        · have hsame := (List.cons.inj heq).2
          rw [hsame] at hfirst
          rw [← hfirst]
          have hall := htake hroute (Or.inl rfl)
          rwa [List.append_nil] at hall
        · have hsame : route ++ '/' :: more = first ++ pathname rest := by
            have htail := (List.cons.inj hmore).2
            rw [← htail]
            simp
          rw [← hsame] at hfirst
          rw [← hfirst]
          exact htake hroute (Or.inr ⟨more, rfl⟩)
      · rintro rfl
        rcases pathname_rest rest with hnil | ⟨more, hmore⟩
        · left
          rw [hnil, List.append_nil]
        · right
          exact ⟨more, by rw [hmore]; simp⟩

end RelativeUrl
end Library
end MemosNote
