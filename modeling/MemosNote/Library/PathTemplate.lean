import Mathlib.Data.List.Basic
import Mathlib.Data.Nat.Notation
import MemosNote.Library.Keys

/-!
# Path templates

A path template has segments that are literal texts or named slots.  The slots are filled by
replacing their texts one after the other in the text of the template.  A path is matched against
templates segment by segment.

Main results:

- Theorem {lit}`foldl_replaceAll`: textual replacement fills the named slots and nothing else.
- Theorem {lit}`fits_filled`: the filled path has the shape of its own template.
- Theorem {lit}`not_fits_of_apart`: templates that differ in a literal segment share no path.
-/

namespace MemosNote
namespace Library
namespace PathTemplate

/-! ## Replacing a text -/

/-- Replace a text from left to right.  The first symbols to be skipped belong to an occurrence that
is replaced already. -/
def replaceFrom (old new : List Char) : ℕ → List Char → List Char
  | _, [] => []
  | skip + 1, _ :: rest => replaceFrom old new skip rest
  | 0, c :: rest =>
      if old.isPrefixOf (c :: rest) then new ++ replaceFrom old new (old.length - 1) rest
      else c :: replaceFrom old new 0 rest

/-- Replace all occurrences of a text that is not empty. -/
def replaceAll (old new text : List Char) : List Char :=
  replaceFrom old new 0 text

/-- A slot as text. -/
def slotText (name : List Char) : List Char :=
  '{' :: (name ++ ['}'])

/-! ## Parts of a template -/

/-- A part of a path: plain text or a slot. -/
inductive Part where
  | text (s : List Char)
  | slot (name : List Char)

/-- The part as text. -/
def Part.render : Part → List Char
  | .text s => s
  | .slot name => slotText name

/-- Braces stand only around the names of slots. -/
def Part.Plain : Part → Prop
  | .text s => '{' ∉ s
  | .slot name => '{' ∉ name ∧ '}' ∉ name

/-- A value put into the slots of a name. -/
def Part.fill (name value : List Char) : Part → Part
  | .text s => .text s
  | .slot n => if n = name then .text value else .slot n

/-- The parts as text. -/
abbrev renderParts (parts : List Part) : List Char :=
  parts.flatMap Part.render

/-- What the pattern covers is skipped. -/
theorem replaceFrom_skip (old new before rest : List Char) :
    replaceFrom old new before.length (before ++ rest) = replaceAll old new rest := by
  induction before with
  | nil => rfl
  | cons c before ih => exact ih

/-- A text without a brace is left as it is. -/
theorem replaceAll_text {name value s : List Char} (h : '{' ∉ s) (rest : List Char) :
    replaceAll (slotText name) value (s ++ rest) = s ++ replaceAll (slotText name) value rest := by
  induction s with
  | nil => rfl
  | cons c s ih =>
      have hc : c ≠ '{' := fun he => h (he ▸ List.mem_cons_self)
      have hstart : (slotText name).isPrefixOf (c :: (s ++ rest)) = false := by
        simp [slotText, List.isPrefixOf, hc.symm]
      rw [List.cons_append, replaceAll, replaceFrom, hstart, if_neg Bool.false_ne_true]
      exact congrArg (c :: ·) (ih fun hmem => h (List.mem_cons_of_mem c hmem))

/-- A slot of the name is filled. -/
theorem replaceAll_slot (name value rest : List Char) :
    replaceAll (slotText name) value (slotText name ++ rest) =
      value ++ replaceAll (slotText name) value rest := by
  have hstart : (slotText name).isPrefixOf (slotText name ++ rest) = true :=
    List.isPrefixOf_iff_prefix.mpr (List.prefix_append _ _)
  have hlength : (slotText name).length - 1 = (name ++ ['}']).length := rfl
  rw [slotText, List.cons_append] at hstart
  rw [replaceAll, slotText, List.cons_append, replaceFrom, hstart, if_pos rfl]
  change value ++ replaceFrom (slotText name) value _ _ = _
  rw [← slotText, hlength, replaceFrom_skip]

/-- Names without closing braces that are followed by one are the same when one text starts with the
other. -/
theorem eq_of_closed_start {name other rest : List Char} (hname : '}' ∉ name) (hother : '}' ∉ other)
    (h : name ++ ['}'] <+: other ++ '}' :: rest) : name = other := by
  induction name generalizing other with
  | nil =>
      cases other with
      | nil => rfl
      | cons c other =>
          have hc := (List.cons_prefix_cons.mp h).1
          exact absurd (hc ▸ List.mem_cons_self) hother
  | cons c name ih =>
      cases other with
      | nil =>
          have hc := (List.cons_prefix_cons.mp h).1
          exact absurd (hc ▸ List.mem_cons_self) hname
      | cons d other =>
          rcases List.cons_prefix_cons.mp h with ⟨rfl, hrest⟩
          rw [ih (fun hmem => hname (List.mem_cons_of_mem c hmem))
            (fun hmem => hother (List.mem_cons_of_mem c hmem)) hrest]

/-- A slot of another name is left as it is. -/
theorem replaceAll_other {name other value : List Char} (hname : '}' ∉ name)
    (hother : '{' ∉ other ∧ '}' ∉ other) (hne : other ≠ name) (rest : List Char) :
    replaceAll (slotText name) value (slotText other ++ rest) =
      slotText other ++ replaceAll (slotText name) value rest := by
  have hstart : (slotText name).isPrefixOf ('{' :: (other ++ ['}'] ++ rest)) = false := by
    rw [Bool.eq_false_iff]
    intro h
    have hp := (List.cons_prefix_cons.mp (List.isPrefixOf_iff_prefix.mp h)).2
    rw [List.append_assoc] at hp
    exact hne (eq_of_closed_start hname hother.2 hp).symm
  have htext : '{' ∉ other ++ ['}'] := by
    simp [hother.1]
  rw [slotText.eq_def other, List.cons_append, replaceAll, replaceFrom, hstart,
    if_neg Bool.false_ne_true]
  exact congrArg ('{' :: ·) (replaceAll_text htext rest)

/-- Replacing the text of a slot fills the slots of that name. -/
theorem replaceAll_renderParts {name : List Char} (hname : '}' ∉ name) (value : List Char)
    {parts : List Part} (h : ∀ p ∈ parts, p.Plain) :
    replaceAll (slotText name) value (renderParts parts) =
      renderParts (parts.map (Part.fill name value)) := by
  induction parts with
  | nil => rfl
  | cons p parts ih =>
      have hp := h p List.mem_cons_self
      have hrest := ih fun q hq => h q (List.mem_cons_of_mem p hq)
      rw [List.map_cons, renderParts, renderParts, List.flatMap_cons, List.flatMap_cons]
      cases p with
      | text s =>
          rw [Part.render, replaceAll_text hp, hrest]
          rfl
      | slot n =>
          rw [Part.render, Part.fill]
          by_cases hn : n = name
          · rw [if_pos hn, hn, replaceAll_slot, hrest]
            rfl
          · rw [if_neg hn, replaceAll_other hname hp hn, hrest]
            rfl

/-! ## Filling all slots -/

/-- A filled part is plain if the value is. -/
theorem Part.Plain.fill {p : Part} (h : p.Plain) {name value : List Char} (hvalue : '{' ∉ value) :
    (p.fill name value).Plain := by
  cases p with
  | text s => exact h
  | slot n =>
      rw [Part.fill]
      by_cases hn : n = name
      · rw [if_pos hn]
        exact hvalue
      · rw [if_neg hn]
        exact h

/-- Fill the slots with the values of their names. -/
def Part.fillAll (pairs : List (List Char × List Char)) : Part → Part
  | .text s => .text s
  | .slot name => (pairs.lookup name).elim (.slot name) .text

theorem fillAll_cons (pair : List Char × List Char) (pairs : List (List Char × List Char))
    (p : Part) : p.fillAll (pair :: pairs) = (p.fill pair.1 pair.2).fillAll pairs := by
  cases p with
  | text s => rfl
  | slot n =>
      rw [Part.fillAll, Part.fill, List.lookup_cons]
      by_cases hn : n = pair.1
      · rw [if_pos hn, beq_iff_eq.mpr hn]
        rfl
      · rw [if_neg hn, beq_eq_false_iff_ne.mpr hn]
        rfl

/-- Replacing the slots of names one after the other fills them all, as long as no value brings a
new slot. -/
theorem foldl_replaceAll {pairs : List (List Char × List Char)}
    (hpairs : ∀ pair ∈ pairs, '}' ∉ pair.1 ∧ '{' ∉ pair.2) {parts : List Part}
    (h : ∀ p ∈ parts, p.Plain) :
    pairs.foldl (fun text pair => replaceAll (slotText pair.1) pair.2 text) (renderParts parts) =
      renderParts (parts.map (Part.fillAll pairs)) := by
  induction pairs generalizing parts with
  | nil =>
      have hself : ∀ p : Part, p.fillAll [] = p := fun p => by cases p <;> rfl
      rw [List.foldl_nil, List.map_congr_left fun p _ => hself p, List.map_id']
  | cons pair pairs ih =>
      rcases hpairs pair List.mem_cons_self with ⟨hname, hvalue⟩
      have hplain : ∀ p ∈ parts.map (Part.fill pair.1 pair.2), p.Plain := by
        intro p hp
        rcases List.mem_map.mp hp with ⟨q, hq, rfl⟩
        exact (h q hq).fill hvalue
      rw [List.foldl_cons, replaceAll_renderParts hname _ h,
        ih (fun q hq => hpairs q (List.mem_cons_of_mem pair hq)) hplain, List.map_map]
      exact congrArg renderParts (List.map_congr_left fun p _ => (fillAll_cons pair pairs p).symm)

/-! ## Segments -/

/-- A segment of a template.  A slot may be followed by a text, and a star stands for whatever is
left of the path. -/
inductive Segment where
  | literal (s : List Char)
  | slot (name suffix : List Char)
  | star

/-- A segment of a template, read from its text. -/
def Segment.parse (text : List Char) : Segment :=
  match text with
  | ['*'] => .star
  | '{' :: rest => .slot (rest.takeWhile (· != '}')) (rest.dropWhile (· != '}')).tail
  | _ => .literal text

/-- The parts of a segment. -/
def Segment.parts : Segment → List Part
  | .literal s => [.text s]
  | .slot name suffix => [.slot name, .text suffix]
  | .star => [.text ['*']]

/-- The text of the segment with its slot filled. -/
def Segment.filled (pairs : List (List Char × List Char)) (s : Segment) : List Char :=
  renderParts (s.parts.map (Part.fillAll pairs))

/-- The segment as text. -/
def Segment.render (s : Segment) : List Char :=
  renderParts s.parts

/-- The segment takes any text. -/
def Segment.isStar : Segment → Bool
  | .star => true
  | _ => false

/-- The piece of a path that a segment takes. -/
def Segment.accepts : Segment → List Char → Bool
  | .literal s, piece => piece == s
  | .slot _ suffix, piece => suffix.isSuffixOf piece
  | .star, _ => true

/-- Whether a path, given as its pieces, has the shape of a template. -/
def fits : List Segment → List (List Char) → Bool
  | [], [] => true
  | [], _ :: _ => false
  | s :: _, [] => s.isStar
  | s :: template, piece :: pieces => s.isStar || s.accepts piece && fits template pieces

/-- Whether both segments are literal and differ. -/
def Segment.differs : Segment → Segment → Bool
  | .literal a, .literal b => a != b
  | _, _ => false

/-- Whether two templates differ in a literal segment or in their lengths. -/
def apart : List Segment → List Segment → Bool
  | [], [] => false
  | [], t :: _ => !t.isStar
  | s :: _, [] => !s.isStar
  | s :: ss, t :: ts => !s.isStar && !t.isStar && (s.differs t || apart ss ts)

/-- Segments that differ take no piece in common. -/
theorem Segment.not_accepts_of_differs {s t : Segment} (h : s.differs t = true) {piece : List Char}
    (ht : t.accepts piece = true) : s.accepts piece = false := by
  cases s with
  | literal a =>
      cases t with
      | literal b =>
          cases beq_iff_eq.mp ht
          exact beq_eq_false_iff_ne.mpr (bne_iff_ne.mp h).symm
      | slot name suffix => cases h
      | star => cases h
  | slot name suffix => cases h
  | star => cases h

/-- Templates that are apart share no path. -/
theorem not_fits_of_apart {s t : List Segment} (h : apart s t = true) {pieces : List (List Char)}
    (ht : fits t pieces = true) : fits s pieces = false := by
  induction s generalizing t pieces with
  | nil =>
      cases t with
      | nil => cases h
      | cons b t =>
          cases pieces with
          | nil =>
              rw [apart, Bool.not_eq_true'] at h
              rw [fits, h] at ht
              cases ht
          | cons piece pieces => rfl
  | cons a s ih =>
      cases t with
      | nil =>
          cases pieces with
          | nil => exact (Bool.not_eq_true' _).mp h
          | cons piece pieces => cases ht
      | cons b t =>
          rw [apart, Bool.and_eq_true, Bool.and_eq_true, Bool.not_eq_true', Bool.not_eq_true'] at h
          rcases h with ⟨⟨ha, hb⟩, hdiffer⟩
          cases pieces with
          | nil => exact ha
          | cons piece pieces =>
              rw [fits, hb, Bool.false_or, Bool.and_eq_true] at ht
              rw [fits, ha, Bool.false_or]
              rcases Bool.or_eq_true_iff.mp hdiffer with hdiffer | hrest
              · rw [Segment.not_accepts_of_differs hdiffer ht.1, Bool.false_and]
              · rw [ih hrest ht.2, Bool.and_false]

/-! ## Filled paths -/

/-- Braces and slashes stand only where the segment is written with them. -/
def Segment.plain : Segment → Bool
  | .literal s => s.all fun c => c != '{' && c != '/'
  | .slot name suffix =>
      (name.all fun c => c != '{' && c != '}') && suffix.all fun c => c != '{' && c != '/'
  | .star => true

/-- The slot of the segment is one of the names. -/
def Segment.bound (names : List (List Char)) : Segment → Bool
  | .slot name _ => names.contains name
  | _ => true

theorem exists_lookup {pairs : List (List Char × List Char)} {name : List Char}
    (h : (pairs.map Prod.fst).contains name = true) : ∃ value, pairs.lookup name = some value := by
  rcases List.mem_map.mp (List.contains_iff_mem.mp h) with ⟨pair, hpair, rfl⟩
  apply Option.isSome_iff_exists.mp
  exact List.lookup_isSome_iff.mpr ⟨pair, hpair, beq_self_eq_true pair.1⟩

theorem notMem_of_all {s : List Char} {a b : Char}
    (h : (s.all fun c => c != a && c != b) = true) : a ∉ s ∧ b ∉ s := by
  simp only [List.all_eq_true, Bool.and_eq_true, bne_iff_ne] at h
  exact ⟨fun ha => (h a ha).1 rfl, fun hb => (h b hb).2 rfl⟩

/-- The parts of a plain segment are plain. -/
theorem Segment.plain_parts {s : Segment} (h : s.plain = true) : ∀ p ∈ s.parts, p.Plain := by
  intro p hp
  cases s with
  | literal text =>
      cases List.mem_singleton.mp hp
      exact (notMem_of_all h).1
  | slot name suffix =>
      rcases (Bool.and_eq_true _ _).mp h with ⟨hname, hsuffix⟩
      rcases List.mem_cons.mp hp with rfl | hp
      · exact notMem_of_all hname
      · cases List.mem_singleton.mp hp
        exact (notMem_of_all hsuffix).1
  | star =>
      cases List.mem_singleton.mp hp
      exact (by decide : '{' ∉ ['*'])

theorem Segment.filled_literal (pairs : List (List Char × List Char)) (s : List Char) :
    filled pairs (.literal s) = s :=
  List.append_nil s

/-- A slot filled with its value. -/
theorem Segment.filled_slot {pairs : List (List Char × List Char)} {name value : List Char}
    (h : pairs.lookup name = some value) (suffix : List Char) :
    filled pairs (.slot name suffix) = value ++ suffix := by
  simp [filled, parts, Part.fillAll, h, Part.render]

/-- A filled segment has no slash of its own. -/
theorem Segment.slash_notMem_filled {pairs : List (List Char × List Char)}
    (hpairs : ∀ pair ∈ pairs, '/' ∉ pair.2) {s : Segment} (hplain : s.plain = true)
    (hbound : s.bound (pairs.map Prod.fst) = true) : '/' ∉ s.filled pairs := by
  cases s with
  | literal text =>
      rw [filled_literal]
      exact (notMem_of_all hplain).2
  | slot name suffix =>
      rcases exists_lookup hbound with ⟨value, hvalue⟩
      have hsuffix := notMem_of_all ((Bool.and_eq_true _ _).mp hplain).2
      rw [filled_slot hvalue, List.mem_append, not_or]
      exact ⟨hpairs _ (mem_of_lookup hvalue), hsuffix.2⟩
  | star => exact (by decide : '/' ∉ ['*'])

/-- A filled segment is accepted by the segment it fills. -/
theorem Segment.accepts_filled {pairs : List (List Char × List Char)} {s : Segment}
    (h : s.bound (pairs.map Prod.fst) = true) : s.accepts (s.filled pairs) = true := by
  cases s with
  | literal text =>
      rw [filled_literal]
      exact beq_self_eq_true text
  | slot name suffix =>
      rcases exists_lookup h with ⟨value, hvalue⟩
      rw [filled_slot hvalue]
      exact List.isSuffixOf_iff_suffix.mpr (List.suffix_append value suffix)
  | star => rfl

/-- The filled path has the shape of its own template. -/
theorem fits_filled {pairs : List (List Char × List Char)} {template : List Segment}
    (h : ∀ s ∈ template, s.bound (pairs.map Prod.fst) = true) :
    fits template (template.map (Segment.filled pairs)) = true := by
  induction template with
  | nil => rfl
  | cons s template ih =>
      rw [List.map_cons, fits, Segment.accepts_filled (h s List.mem_cons_self),
        ih fun t ht => h t (List.mem_cons_of_mem s ht), Bool.and_true, Bool.or_true]

/-- Rendering goes through the slashes. -/
theorem renderParts_intercalate (segments : List (List Part)) :
    renderParts ([Part.text ['/']].intercalate segments) =
      ['/'].intercalate (segments.map renderParts) := by
  induction segments with
  | nil => rfl
  | cons s segments ih =>
      cases segments with
      | nil => simp
      | cons t segments =>
          rw [List.intercalate_cons_cons, renderParts, List.flatMap_append, List.flatMap_append]
          rw [List.map_cons, List.map_cons, List.intercalate_cons_cons]
          exact congrArg (renderParts s ++ ['/'] ++ ·) ih

/-- What is in joined lists. -/
theorem mem_of_mem_intercalate {α : Type} {x : α} {separator : List α} {lists : List (List α)}
    (h : x ∈ separator.intercalate lists) : x ∈ separator ∨ ∃ l ∈ lists, x ∈ l := by
  induction lists with
  | nil => cases h
  | cons l lists ih =>
      cases lists with
      | nil =>
          rw [List.intercalate_singleton] at h
          exact Or.inr ⟨l, List.mem_cons_self, h⟩
      | cons m lists =>
          rw [List.intercalate_cons_cons, List.mem_append, List.mem_append] at h
          rcases h with (h | h) | h
          · exact Or.inr ⟨l, List.mem_cons_self, h⟩
          · exact Or.inl h
          · apply (ih h).imp_right
            rintro ⟨k, hk, hx⟩
            exact ⟨k, List.mem_cons_of_mem l hk, hx⟩

/-- A map goes through joined lists. -/
theorem map_intercalate {α β : Type} (f : α → β) (separator : List α) (lists : List (List α)) :
    (separator.intercalate lists).map f =
      (separator.map f).intercalate (lists.map (List.map f)) := by
  induction lists with
  | nil => rfl
  | cons l lists ih =>
      cases lists with
      | nil => simp
      | cons m lists =>
          rw [List.intercalate_cons_cons, List.map_append, List.map_append, ih]
          exact List.intercalate_cons_cons.symm

/-- Replacing the slots in the text of a path template fills its segments. -/
theorem foldl_replaceAll_path {pairs : List (List Char × List Char)}
    (hpairs : ∀ pair ∈ pairs, '}' ∉ pair.1 ∧ '{' ∉ pair.2) {template : List Segment}
    (h : ∀ s ∈ template, s.plain = true) :
    pairs.foldl (fun text pair => replaceAll (slotText pair.1) pair.2 text)
        (['/'].intercalate (template.map Segment.render)) =
      ['/'].intercalate (template.map (Segment.filled pairs)) := by
  have hplain : ∀ p ∈ [Part.text ['/']].intercalate (template.map Segment.parts), p.Plain := by
    intro p hp
    rcases mem_of_mem_intercalate hp with hp | ⟨parts, hparts, hp⟩
    · cases List.mem_singleton.mp hp
      exact (by decide : '{' ∉ ['/'])
    · rcases List.mem_map.mp hparts with ⟨s, hs, rfl⟩
      exact Segment.plain_parts (h s hs) p hp
  have htext : ['/'].intercalate (template.map Segment.render) =
      renderParts ([Part.text ['/']].intercalate (template.map Segment.parts)) := by
    rw [renderParts_intercalate, List.map_map]
    rfl
  rw [htext, foldl_replaceAll hpairs hplain, map_intercalate]
  change renderParts ([Part.text ['/']].intercalate _) = _
  rw [renderParts_intercalate, List.map_map, List.map_map]
  rfl

/-- The filled path comes apart into its filled segments. -/
theorem splitOn_filled {pairs : List (List Char × List Char)}
    (hpairs : ∀ pair ∈ pairs, '/' ∉ pair.2) {template : List Segment} (hne : template ≠ [])
    (hplain : ∀ s ∈ template, s.plain = true)
    (hbound : ∀ s ∈ template, s.bound (pairs.map Prod.fst) = true) :
    (['/'].intercalate (template.map (Segment.filled pairs))).splitOn '/' =
      template.map (Segment.filled pairs) := by
  apply List.splitOn_intercalate
  · intro l hl
    rcases List.mem_map.mp hl with ⟨s, hs, rfl⟩
    exact Segment.slash_notMem_filled hpairs (hplain s hs) (hbound s hs)
  · simpa using hne

end PathTemplate
end Library
end MemosNote
