import Mathlib.Data.List.Infix
import Mathlib.Data.Int.Notation
import Mathlib.Order.Basic

/-!
# Motion photos

A motion photo is a JPEG file with a video behind the picture.  The video is found at an offset that
the metadata gives, or by a search for the box that every such video begins with, from the end of
the file.

Main results:

- Theorem {lit}`findEmbeddedMP4Start_iff`: when the search finds the last box.
- Theorem {lit}`ExtractVideo_of_DetectJPEG`: what is detected is extracted.
- Theorem {lit}`box_in_front_of_marker`: a box that the search passes over.
-/

namespace MemosNote
namespace MotionPhoto

/-! ## Metadata -/

/-- Where the video starts, and the time of the still in it. -/
structure Detection where
  VideoStart : ℤ
  PresentationTimestampUs : ℤ
deriving DecidableEq, Repr

/-- How far the markers are searched for. -/
def maxMetadataScanBytes : ℕ :=
  256 * 1024

/-- A byte in lower case. -/
def lowercase (b : ℕ) : ℕ :=
  if 65 ≤ b ∧ b ≤ 90 then b + 32 else b

/-- A letter in either case; the letter s also in its long form. -/
def takeLetter (c : Char) : List UInt8 → Option (List UInt8)
  | [] => none
  | b :: rest =>
      if lowercase b.toNat = lowercase c.toNat then some rest
      else if lowercase c.toNat = 115 ∧ b = 0xc5 ∧ rest.head? = some 0xbf then some rest.tail
      else none

/-- What comes after a word, in whatever case it is written. -/
def takeWord : List Char → List UInt8 → Option (List UInt8)
  | [], text => some text
  | c :: word, text => (takeLetter c text).bind (takeWord word)

/-- A quotation mark, an equality sign, a colon, white space or an angle bracket. -/
def isSeparator (b : UInt8) : Bool :=
  b ∈ [0x22, 0x27, 0x3d, 0x3a, 0x09, 0x0a, 0x0c, 0x0d, 0x20, 0x3e]

/-- What comes after one or more separators. -/
def takeSeparators (text : List UInt8) : Option (List UInt8) :=
  if text.head?.any isSeparator then some (text.dropWhile isSeparator) else none

/-- The digits of ASCII. -/
def isDigit (b : UInt8) : Bool :=
  0x30 ≤ b && b ≤ 0x39

/-- The number that some digits begin with. -/
def takeNumber (text : List UInt8) : Option ℕ :=
  if text.head?.any isDigit then
    some ((text.takeWhile isDigit).foldl (fun n b => 10 * n + (b.toNat - 0x30)) 0)
  else none

/-- A number that may have a sign. -/
def takeSigned : List UInt8 → Option ℤ
  | 0x2d :: rest => (takeNumber rest).map fun n => -(n : ℤ)
  | text => (takeNumber text).map Int.ofNat

/-- A label, separators, and a value behind them. -/
def matchLabelled {α : Type} (labels : List String) (value : List UInt8 → Option α)
    (text : List UInt8) : Option α :=
  labels.findSome? fun label => ((takeWord label.toList text).bind takeSeparators).bind value

/-- The first match in a text. -/
def firstMatch {α : Type} (find : List UInt8 → Option α) : List UInt8 → Option α
  | [] => find []
  | b :: rest => (find (b :: rest)).or (firstMatch find rest)

/-- The marker of a motion photo, with the value 1. -/
def motionPhotoMarkerRegex : List UInt8 → Option Unit :=
  firstMatch (matchLabelled ["Camera:MotionPhoto", "GCamera:MotionPhoto", "MicroVideo"]
    fun text => if text.head? = some 0x31 then some () else none)

/-- The number with the label of the presentation time. -/
def presentationRegex : List UInt8 → Option ℤ :=
  firstMatch (matchLabelled ["Camera:MotionPhotoPresentationTimestampUs",
    "GCamera:MotionPhotoPresentationTimestampUs"] takeSigned)

/-- The number with the label of the video's length. -/
def microVideoOffsetRegex : List UInt8 → Option ℕ :=
  firstMatch (matchLabelled ["Camera:MicroVideoOffset", "GCamera:MicroVideoOffset"] takeNumber)

/-- The greatest int64. -/
def maxInt64 : ℕ :=
  9223372036854775807

/-- The presentation time, or 0 where it is not there or too large. -/
def parsePresentationTimestampUs (text : List UInt8) : ℤ :=
  match presentationRegex text with
  | none => 0
  | some value => if -(maxInt64 : ℤ) - 1 ≤ value ∧ value ≤ maxInt64 then value else 0

/-! ## Boxes -/

/-- The marker of a video, behind the length of its first box. -/
def ftyp : List UInt8 :=
  [0x66, 0x74, 0x79, 0x70]

/-- The number in the first four bytes. -/
def uint32 (blob : List UInt8) : ℕ :=
  (blob.take 4).foldl (fun n b => 256 * n + b.toNat) 0

/-- A video starts with a box of a possible length and the marker. -/
def looksLikeMP4 (blob : List UInt8) : Bool :=
  if blob.length < 12 ∨ (blob.drop 4).take 4 ≠ ftyp then false
  else uint32 blob = 1 || 8 ≤ uint32 blob

/-- The last index up to another at which a list stands. -/
def lastIndexFrom (blob sep : List UInt8) : ℕ → Option ℕ
  | 0 => if (blob.take sep.length) = sep then some 0 else none
  | i + 1 => if ((blob.drop (i + 1)).take sep.length) = sep then some (i + 1)
      else lastIndexFrom blob sep i

/-- Where a pattern occurs last. -/
def LastIndex (blob sep : List UInt8) : Option ℕ :=
  lastIndexFrom blob sep blob.length

/-- The search below an index, which every round lowers. -/
def findBelow (blob : List UInt8) : ℕ → ℕ → ℤ
  | 0, _ => -1
  | rounds + 1, searchFrom =>
      if 8 < searchFrom then
        match LastIndex (blob.take searchFrom) ftyp with
        | none => -1
        | some index =>
            if index < 4 then -1
            else if looksLikeMP4 (blob.drop (index - 4)) then (index - 4 : ℕ)
            else findBelow blob rounds (index - 1)
      else -1

/-- The last place from which on the data looks like a video, or -1. -/
def findEmbeddedMP4Start (blob : List UInt8) : ℤ :=
  findBelow blob blob.length blob.length

/-- The place that the metadata gives, or else the last one that fits. -/
def detectVideoStart (blob text : List UInt8) : ℤ :=
  match microVideoOffsetRegex text with
  | none => findEmbeddedMP4Start blob
  | some offset =>
      if offset ≤ maxInt64 ∧ 0 < offset ∧ offset < blob.length ∧
          looksLikeMP4 (blob.drop (blob.length - offset)) then
        (blob.length - offset : ℕ)
      else findEmbeddedMP4Start blob

/-- The video of an image that is marked as a motion photo. -/
def DetectJPEG (blob : List UInt8) : Option Detection :=
  if blob.length < 16 ∨ blob.take 2 ≠ [0xff, 0xd8] then none
  else
    let text := blob.take maxMetadataScanBytes
    match motionPhotoMarkerRegex text with
    | none => none
    | some _ =>
        let videoStart := detectVideoStart blob text
        if videoStart < 0 ∨ blob.length ≤ videoStart then none
        else some ⟨videoStart, parsePresentationTimestampUs text⟩

/-- The bytes of the video. -/
def ExtractVideo (blob : List UInt8) : Option (List UInt8 × Detection) :=
  match DetectJPEG blob with
  | none => none
  | some detection =>
      let videoBlob := blob.drop detection.VideoStart.toNat
      if looksLikeMP4 videoBlob then some (videoBlob, detection) else none

/-! ## Where the box marker stands -/

variable {blob : List UInt8} {i j s n : ℕ}

/-- The marker of a video stands at a place. -/
def MarkerAt (blob : List UInt8) (i : ℕ) : Prop :=
  (blob.drop i).take 4 = ftyp

instance (blob : List UInt8) (i : ℕ) : Decidable (MarkerAt blob i) :=
  inferInstanceAs (Decidable ((blob.drop i).take 4 = ftyp))

theorem MarkerAt.add_le (h : MarkerAt blob i) : i + 4 ≤ blob.length := by
  have hlength := congrArg List.length h
  rw [List.length_take, List.length_drop] at hlength
  change min 4 (blob.length - i) = 4 at hlength
  omega

theorem MarkerAt.getElem? (h : MarkerAt blob i) : blob[i]? = some 0x66 ∧
    blob[i + 1]? = some 0x74 ∧ blob[i + 2]? = some 0x79 ∧ blob[i + 3]? = some 0x70 := by
  have hbyte (k : ℕ) (hk : k < 4) : blob[i + k]? = ftyp[k]? := by
    rw [← h, List.getElem?_take_of_lt hk, List.getElem?_drop]
  exact ⟨hbyte 0 (by omega), hbyte 1 (by omega), hbyte 2 (by omega), hbyte 3 (by omega)⟩

/-- Markers do not overlap. -/
theorem MarkerAt.apart (hi : MarkerAt blob i) (hj : MarkerAt blob j) (hlt : i < j) :
    i + 4 ≤ j := by
  rcases hi.getElem? with ⟨-, h₁, h₂, h₃⟩
  have hfirst := hj.getElem?.1
  by_contra hclose
  have hcases : j = i + 1 ∨ j = i + 2 ∨ j = i + 3 := by omega
  rcases hcases with rfl | rfl | rfl
  · rw [h₁] at hfirst
    exact absurd hfirst (by decide)
  · rw [h₂] at hfirst
    exact absurd hfirst (by decide)
  · rw [h₃] at hfirst
    exact absurd hfirst (by decide)

/-- A marker in the beginning of the file. -/
theorem take_drop_take_iff :
    ((blob.take n).drop i).take ftyp.length = ftyp ↔ i + 4 ≤ n ∧ MarkerAt blob i := by
  have hfour : ftyp.length = 4 := rfl
  rw [List.drop_take, List.take_take, hfour]
  constructor
  · intro h
    have hlength := congrArg List.length h
    rw [List.length_take, hfour] at hlength
    have hmin : min 4 (n - i) = 4 := by omega
    rw [hmin] at h
    exact ⟨by omega, h⟩
  · intro h
    rw [min_eq_left (by omega)]
    exact h.2

theorem lastIndexFrom_spec (text sep : List UInt8) (k : ℕ) :
    match lastIndexFrom text sep k with
    | none => ∀ i ≤ k, (text.drop i).take sep.length ≠ sep
    | some index => index ≤ k ∧ (text.drop index).take sep.length = sep ∧
        ∀ i ≤ k, (text.drop i).take sep.length = sep → i ≤ index := by
  induction k with
  | zero =>
      rw [lastIndexFrom]
      split_ifs with hzero
      · exact ⟨le_rfl, hzero, fun i hi _ => hi⟩
      · intro i hi
        rw [Nat.le_zero.mp hi]
        exact hzero
  | succ k ih =>
      rw [lastIndexFrom]
      split_ifs with hhere
      · exact ⟨le_rfl, hhere, fun i hi _ => hi⟩
      · cases hlast : lastIndexFrom text sep k with
        | none =>
            rw [hlast] at ih
            intro i hi
            rcases Nat.le_succ_iff.mp hi with hi | rfl
            · exact ih i hi
            · exact hhere
        | some index =>
            rw [hlast] at ih
            refine ⟨Nat.le_succ_of_le ih.1, ih.2.1, fun i hi hat => ?_⟩
            rcases Nat.le_succ_iff.mp hi with hi | rfl
            · exact ih.2.2 i hi hat
            · exact absurd hat hhere

/-- The search for the last marker below an index. -/
theorem LastIndex_none (h : LastIndex (blob.take n) ftyp = none) (hi : i + 4 ≤ n) :
    ¬MarkerAt blob i := by
  intro hat
  have hspec := lastIndexFrom_spec (blob.take n) ftyp (blob.take n).length
  rw [show lastIndexFrom (blob.take n) ftyp (blob.take n).length = none from h] at hspec
  have hend := hat.add_le
  have hlength : i ≤ (blob.take n).length := by
    rw [List.length_take]
    omega
  exact hspec i hlength (take_drop_take_iff.mpr ⟨hi, hat⟩)

theorem LastIndex_some (h : LastIndex (blob.take n) ftyp = some j) :
    j + 4 ≤ n ∧ MarkerAt blob j ∧ ∀ i, i + 4 ≤ n → MarkerAt blob i → i ≤ j := by
  have hspec := lastIndexFrom_spec (blob.take n) ftyp (blob.take n).length
  rw [show lastIndexFrom (blob.take n) ftyp (blob.take n).length = some j from h] at hspec
  rcases take_drop_take_iff.mp hspec.2.1 with ⟨hj, hat⟩
  refine ⟨hj, hat, fun i hi hmarker => ?_⟩
  have hend := hmarker.add_le
  have hlength : i ≤ (blob.take n).length := by
    rw [List.length_take]
    omega
  exact hspec.2.2 i hlength (take_drop_take_iff.mpr ⟨hi, hmarker⟩)

/-! ## Where a box begins -/

/-- A box that looks like the beginning of a video. -/
def BoxAt (blob : List UInt8) (s : ℕ) : Prop :=
  looksLikeMP4 (blob.drop s) = true

theorem boxAt_iff : BoxAt blob s ↔ s + 12 ≤ blob.length ∧ MarkerAt blob (s + 4) ∧
    (uint32 (blob.drop s) = 1 ∨ 8 ≤ uint32 (blob.drop s)) := by
  rw [BoxAt, looksLikeMP4, List.length_drop, List.drop_drop]
  by_cases hlength : s + 12 ≤ blob.length
  · by_cases hmarker : MarkerAt blob (s + 4)
    · rw [if_neg]
      · simp [hlength, hmarker]
      · simp only [not_or, not_not, not_lt]
        exact ⟨by omega, hmarker⟩
    · have hother : (blob.drop (s + 4)).take 4 ≠ ftyp := hmarker
      rw [if_pos (Or.inr hother)]
      simp [hmarker]
  · rw [if_pos (Or.inl (by omega))]
    simp [hlength]

private theorem uint32_eq {a b c d : UInt8} {rest : List UInt8} :
    uint32 (a :: b :: c :: d :: rest) =
      256 * (256 * (256 * a.toNat + b.toNat) + c.toNat) + d.toNat := by
  simp [uint32]

/-- A number whose second or first byte is one of the marker is large. -/
theorem le_uint32 {b : UInt8} (hpos : blob[s]? = some b) (hb : 0x66 ≤ b.toNat)
    (hlength : s + 4 ≤ blob.length) : 8 ≤ uint32 (blob.drop s) := by
  have hdrop : 4 ≤ (blob.drop s).length := by
    rw [List.length_drop]
    omega
  have hfirst : (blob.drop s)[0]? = some b := by
    rw [List.getElem?_drop]
    exact hpos
  revert hdrop hfirst
  generalize blob.drop s = bytes
  intro hdrop hfirst
  match bytes, hdrop with
  | b₀ :: b₁ :: b₂ :: b₃ :: rest, _ =>
      rcases Option.some.inj hfirst with rfl
      rw [uint32_eq]
      omega

/-! ## The last box -/

/-- The marker of a box stands directly in front of a marker that is cut off by the end of the file,
or, at the beginning of the file, one byte in front of it. -/
def PassedOver (blob : List UInt8) (s : ℕ) : Prop :=
  ∃ i, MarkerAt blob i ∧ blob.length < i + 8 ∧ (i = s + 8 ∨ s = 0 ∧ i = 9)

/-- The last start of a box, or -1 if there is none. -/
def IsLastBox (blob : List UInt8) (start : ℤ) : Prop :=
  (∃ s : ℕ, start = s ∧ BoxAt blob s ∧ ∀ t, BoxAt blob t → t ≤ s) ∨
    start = -1 ∧ ∀ t, ¬BoxAt blob t

/-- A marker that no box has, behind bytes that are a large number, is cut off. -/
theorem cut_of_not_boxAt {b : UInt8} (hi : MarkerAt blob i) (hfour : 4 ≤ i)
    (hbox : ¬BoxAt blob (i - 4)) (hpos : blob[i - 4]? = some b) (hb : 0x66 ≤ b.toNat) :
    blob.length < i + 8 := by
  have hend := hi.add_le
  have hlarge := le_uint32 hpos hb (by omega)
  by_contra hlong
  refine hbox (boxAt_iff.mpr ⟨by omega, ?_, Or.inr hlarge⟩)
  rw [Nat.sub_add_cancel hfour]
  exact hi

/-- A box whose marker is in front of a marker without a box is still searched, or passed over. -/
theorem passedOver_of_between (hs : BoxAt blob s) (hi : MarkerAt blob i) (hlt : s + 4 < i)
    (hbox : ¬BoxAt blob (i - 4)) : s + 8 ≤ i - 1 ∨ PassedOver blob s := by
  have hmarker := (boxAt_iff.mp hs).2.1
  have hapart := hmarker.apart hi hlt
  by_cases hbelow : s + 8 ≤ i - 1
  · exact Or.inl hbelow
  have hadjacent : i = s + 8 := by omega
  have hpos : blob[i - 4]? = some 0x66 := by
    rw [hadjacent]
    exact hmarker.getElem?.1
  exact Or.inr ⟨i, hi, cut_of_not_boxAt hi (by omega) hbox hpos (by decide), Or.inl hadjacent⟩

/-- At the end of the search, only a box at the beginning of the file may be left. -/
theorem passedOver_of_end (hs : BoxAt blob s) (hi : MarkerAt blob i) (hbox : ¬BoxAt blob (i - 4))
    (hbelow : s + 8 ≤ i - 1) (hend : i - 1 ≤ 8) : PassedOver blob s := by
  have hzero : s = 0 := by omega
  have hnine : i = 9 := by omega
  subst hzero hnine
  have hpos : blob[9 - 4]? = some 0x74 := (boxAt_iff.mp hs).2.1.getElem?.2.1
  exact ⟨9, hi, cut_of_not_boxAt hi (by omega) hbox hpos (by decide), Or.inr ⟨rfl, rfl⟩⟩

/-- The search begins at the end of the file, and goes on below a marker without a box. -/
def SearchFrom (blob : List UInt8) (n : ℕ) : Prop :=
  n = blob.length ∨ ∃ i, n = i - 1 ∧ MarkerAt blob i ∧ ¬BoxAt blob (i - 4)

/-- The search finds the last box below an index that is not passed over, or there is none. -/
theorem findBelow_spec {rounds : ℕ} (hrounds : n ≤ rounds) (hfrom : SearchFrom blob n) :
    (∃ s : ℕ, findBelow blob rounds n = s ∧ 8 < n ∧ s + 8 ≤ n ∧ BoxAt blob s ∧
        ∀ t, BoxAt blob t → t + 8 ≤ n → PassedOver blob t ∨ t ≤ s) ∨
      findBelow blob rounds n = -1 ∧ ∀ t, BoxAt blob t → t + 8 ≤ n → PassedOver blob t := by
  induction rounds generalizing n with
  | zero => exact Or.inr ⟨rfl, fun t _ ht => absurd (ht.trans hrounds) (by omega)⟩
  | succ rounds ih =>
      rw [findBelow]
      by_cases hmore : 8 < n
      · rw [if_pos hmore]
        cases hlast : LastIndex (blob.take n) ftyp with
        | none =>
            refine Or.inr ⟨rfl, fun t ht hbelow => ?_⟩
            exact absurd (boxAt_iff.mp ht).2.1 (LastIndex_none hlast (by omega))
        | some i =>
            rcases LastIndex_some hlast with ⟨hi, hmarker, hgreatest⟩
            dsimp only
            have hle (t : ℕ) (ht : BoxAt blob t) (hbelow : t + 8 ≤ n) : t + 4 ≤ i :=
              hgreatest (t + 4) (by omega) (boxAt_iff.mp ht).2.1
            by_cases hfour : i < 4
            · rw [if_pos hfour]
              refine Or.inr ⟨rfl, fun t ht hbelow => ?_⟩
              have hlast := hle t ht hbelow
              omega
            rw [if_neg hfour]
            by_cases hbox : looksLikeMP4 (blob.drop (i - 4))
            · rw [if_pos hbox]
              refine Or.inl ⟨i - 4, rfl, hmore, by omega, hbox, fun t ht hbelow => Or.inr ?_⟩
              have hlast := hle t ht hbelow
              omega
            · rw [if_neg hbox]
              have hrest (t : ℕ) (ht : BoxAt blob t) (hbelow : t + 8 ≤ n) :
                  t + 8 ≤ i - 1 ∨ PassedOver blob t := by
                have hother : t + 4 ≠ i := by
                  rintro rfl
                  exact hbox ht
                have hlast := hle t ht hbelow
                exact passedOver_of_between ht hmarker (by omega) hbox
              rcases ih (by omega) (Or.inr ⟨i, rfl, hmarker, hbox⟩) with
                ⟨s, hs, hdeep, hbelow, hfound, hall⟩ | ⟨hs, hall⟩
              · refine Or.inl ⟨s, hs, hmore, by omega, hfound, fun t ht htn => ?_⟩
                rcases hrest t ht htn with hsearched | hpassed
                · exact hall t ht hsearched
                · exact Or.inl hpassed
              · refine Or.inr ⟨hs, fun t ht htn => ?_⟩
                rcases hrest t ht htn with hsearched | hpassed
                · exact hall t ht hsearched
                · exact hpassed
      · rw [if_neg hmore]
        refine Or.inr ⟨rfl, fun t ht hbelow => ?_⟩
        rcases hfrom with rfl | ⟨i, rfl, hmarker, hbox⟩
        · have hlong := (boxAt_iff.mp ht).1
          omega
        · exact passedOver_of_end ht hmarker hbox hbelow (not_lt.mp hmore)

/-- A marker that is cut off is the last one, and the search goes on below it. -/
theorem findEmbeddedMP4Start_of_cut (hi : MarkerAt blob i) (hfour : 4 ≤ i)
    (hcut : blob.length < i + 8) : ∃ rounds, i - 1 ≤ rounds ∧ ¬BoxAt blob (i - 4) ∧
      findEmbeddedMP4Start blob =
        if 8 < blob.length then findBelow blob rounds (i - 1) else -1 := by
  have hend := hi.add_le
  have hbox : ¬BoxAt blob (i - 4) := by
    intro hbox
    have hlong := (boxAt_iff.mp hbox).1
    omega
  have hlast : LastIndex (blob.take blob.length) ftyp = some i := by
    cases hlast : LastIndex (blob.take blob.length) ftyp with
    | none => exact absurd hi (LastIndex_none hlast hend)
    | some j =>
        rcases LastIndex_some hlast with ⟨hj, hmarker, hgreatest⟩
        have hle := hgreatest i hend hi
        rcases Nat.lt_or_eq_of_le hle with hlt | rfl
        · have hapart := hi.apart hmarker hlt
          omega
        · rfl
  have hrounds : ∃ rounds, blob.length = rounds + 1 := ⟨blob.length - 1, by omega⟩
  rcases hrounds with ⟨rounds, hrounds⟩
  refine ⟨rounds, by omega, hbox, ?_⟩
  have hround : findEmbeddedMP4Start blob = findBelow blob (rounds + 1) blob.length := by
    rw [findEmbeddedMP4Start, ← hrounds]
  rw [hround, findBelow, hlast]
  dsimp only
  have hlooks : ¬looksLikeMP4 (blob.drop (i - 4)) = true := hbox
  rw [if_neg (not_lt.mpr hfour), if_neg hlooks]

/-- For every file, the search finds the last box if and only if it passes over none. -/
theorem isLastBox_iff (blob : List UInt8) :
    IsLastBox blob (findEmbeddedMP4Start blob) ↔ ∀ s, BoxAt blob s → ¬PassedOver blob s := by
  constructor
  · intro hlast s hs hpassed
    rcases hpassed with ⟨i, hi, hcut, hadjacent⟩
    rcases findEmbeddedMP4Start_of_cut hi (by omega) hcut with ⟨rounds, hrounds, hbox, hstart⟩
    have hend := hi.add_le
    rw [hstart, if_pos (by omega)] at hlast
    rcases findBelow_spec hrounds (Or.inr ⟨i, rfl, hi, hbox⟩) with
      ⟨s', hfound, hdeep, hbelow, -, -⟩ | ⟨hfound, -⟩
    · rw [hfound] at hlast
      rcases hlast with ⟨s'', hsame, -, hall⟩ | ⟨hnone, -⟩
      · have hle := hall s hs
        omega
      · omega
    · rw [hfound] at hlast
      rcases hlast with ⟨s'', hsame, -, -⟩ | ⟨-, hall⟩
      · omega
      · exact hall s hs
  · intro hnone
    have hbelow (t : ℕ) (ht : BoxAt blob t) : t + 8 ≤ blob.length := by
      have hlong := (boxAt_iff.mp ht).1
      omega
    rcases findBelow_spec (le_refl blob.length) (Or.inl rfl) with
      ⟨s, hfound, -, -, hs, hall⟩ | ⟨hfound, hall⟩
    · refine Or.inl ⟨s, hfound, hs, fun t ht => ?_⟩
      rcases hall t ht (hbelow t ht) with hpassed | hle
      · exact absurd hpassed (hnone t ht)
      · exact hle
    · exact Or.inr ⟨hfound, fun t ht => hnone t ht (hall t ht (hbelow t ht))⟩

/-! ## What is detected is extracted -/

/-- A start that is found is that of a box. -/
theorem boxAt_of_findEmbeddedMP4Start (h : 0 ≤ findEmbeddedMP4Start blob) :
    BoxAt blob (findEmbeddedMP4Start blob).toNat := by
  rcases findBelow_spec (le_refl blob.length) (Or.inl rfl) with ⟨s, hfound, -, -, hs, -⟩ | ⟨hnone, -⟩
  · rw [show findEmbeddedMP4Start blob = s from hfound]
    exact hs
  · rw [show findEmbeddedMP4Start blob = -1 from hnone] at h
    exact absurd h (by decide)

private theorem boxAt_of_detectVideoStart {text : List UInt8} (h : 0 ≤ detectVideoStart blob text) :
    BoxAt blob (detectVideoStart blob text).toNat := by
  rw [detectVideoStart] at h ⊢
  split at h
  · exact boxAt_of_findEmbeddedMP4Start h
  · split at h
    · rename_i hoffset
      rw [if_pos hoffset]
      exact hoffset.2.2.2
    · rename_i hoffset
      rw [if_neg hoffset]
      exact boxAt_of_findEmbeddedMP4Start h

/-- What is detected is extracted. -/
theorem ExtractVideo_of_DetectJPEG {detection : Detection} (h : DetectJPEG blob = some detection) :
    ExtractVideo blob = some (blob.drop detection.VideoStart.toNat, detection) := by
  have hbox : BoxAt blob detection.VideoStart.toNat := by
    rw [DetectJPEG] at h
    split at h
    · cases h
    · dsimp only at h
      split at h
      · cases h
      · split at h
        · cases h
        · rename_i hstart
          rcases Option.some.inj h with rfl
          exact boxAt_of_detectVideoStart (Int.not_lt.mp (not_or.mp hstart).1)
  rw [ExtractVideo, h]
  exact if_pos hbox

/-- For every file, the search finds the last box if and only if it passes over none, and what is
detected is extracted. -/
theorem findEmbeddedMP4Start_iff (blob : List UInt8) :
    (IsLastBox blob (findEmbeddedMP4Start blob) ↔
        ∀ s i, looksLikeMP4 (blob.drop s) = true → MarkerAt blob i → blob.length < i + 8 →
          i ≠ s + 8 ∧ ¬(s = 0 ∧ i = 9)) ∧
      ∀ detection, DetectJPEG blob = some detection →
        ExtractVideo blob = some (blob.drop detection.VideoStart.toNat, detection) := by
  refine ⟨(isLastBox_iff blob).trans ?_, fun detection h => ExtractVideo_of_DetectJPEG h⟩
  constructor
  · intro h s i hs hi hcut
    rw [← not_or]
    exact fun hadjacent => h s hs ⟨i, hi, hcut, hadjacent⟩
  · intro h s hs hpassed
    rcases hpassed with ⟨i, hi, hcut, hadjacent⟩
    exact not_or.mpr (h s i hs hi hcut) hadjacent

/-- A picture with the mark of a motion photo in front of a box and another marker. -/
def cutFile : List UInt8 :=
  [0xff, 0xd8] ++ "GCamera:MotionPhoto=1".toList.map (fun c => UInt8.ofNat c.toNat) ++
    [0, 0, 0, 8] ++ ftyp ++ ftyp

/-- The search passes over the box in front of the last marker. -/
theorem box_in_front_of_marker : ¬∀ blob, IsLastBox blob (findEmbeddedMP4Start blob) := by
  intro h
  have hbox : BoxAt cutFile 23 := by
    rw [BoxAt]
    decide +kernel
  refine (isLastBox_iff cutFile).mp (h cutFile) 23 hbox ⟨31, ?_, ?_, Or.inl rfl⟩
  · decide +kernel
  · decide +kernel

end MotionPhoto
end MemosNote
