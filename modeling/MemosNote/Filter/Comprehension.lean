import MemosNote.Filter.ListMembership
import MemosNote.Library.Traverse

/-!
# Comprehensions over the tags

A filter asks whether some tag, all tags or exactly one tag satisfies a predicate.  The last two
iterate the elements of the list.  The first is answered from the text of the whole list instead:
the argument, with quotes where a tag must begin or end, is searched by {lit}`LIKE`.

Main results:

- Theorem {lit}`foundIn_iff`: what stands between the quotes of the text are the tags, what separates
  them, and the brackets.
- Theorem {lit}`selects_exists_iff`: the search finds the argument in these pieces.
- Theorem {lit}`existential_dual_iff`: for which tags and arguments the search agrees with the
  elements.
-/

namespace MemosNote
namespace Filter

open Library

/-! ## What is asked of an element -/

namespace PredicateExpr

/-- The argument of a predicate. -/
def argument : PredicateExpr → String
  | startsWith text => text
  | endsWith suffix => suffix
  | contains substring => substring
  | equals value => value

/-- What a predicate asks of a tag. -/
def HoldsOf (db : Server) (t : String) : PredicateExpr → Prop
  | startsWith text => db.folding.Occurs .matchPrefix text t
  | endsWith suffix => db.folding.Occurs .matchSuffix suffix t
  | contains substring => db.folding.Occurs .matchContains substring t
  | equals value => db.compareText t value = .eq

end PredicateExpr

section

variable (db : Server) (row : Row) (x : String) (p : PredicateExpr)

/-- The elements of the tag list that are iterated. -/
def iterated : List Datum :=
  ((newSchema.field "tags").bind fun f =>
    elementTable db.dialect ((SqlExpr.jsonArray f).eval db row .null)).getD []

/-- The condition that is evaluated on every element holds of one. -/
def ElementHolds (y : Datum) : Prop :=
  ∃ f, (elementPredicateSQL pure p : Except String (Fragment Arg)) = .ok f ∧
    f.shape.answer db row y f.slots = some .holds

/-- A comprehension over the tags selects the row. -/
def Selects (kind : ComprehensionKind) : Prop :=
  (Condition.listComprehension kind "tags" x p).answer newSchema db row = some .holds

/-- Some element is found exactly if one satisfies the predicate; that is, if the list is not empty
and not all elements fail it.  Exactly one is one. -/
structure Dual : Prop where
  exists_iff : Selects db row x p .exists ↔ ∃ y ∈ iterated db row, ElementHolds db row p y
  exists_iff_not_all : Selects db row x p .exists ↔
    iterated db row ≠ [] ∧ ¬∀ y ∈ iterated db row, ¬ElementHolds db row p y
  exists_of_existsOne : Selects db row x p .existsOne → Selects db row x p .exists

end

/-! ## Searching the text of the list -/

/-- How the characters of the text are compared. -/
def textSame : DialectName → Char → Char → Bool
  | .sqlite, a, b => a.toLower == b.toLower
  | _, a, b => a == b

def textWildcards : DialectName → Like.Wildcards Char
  | .sqlite => bareWildcards
  | _ => likeWildcards

/-- What stands between the quotes of the text of a list: the tags, what separates them, and the
brackets. -/
def pieces (d : DialectName) (tags : List String) : List (List Char) :=
  (stringsText (elementSeparator d) (tags.map String.toList)).splitOn '"'

/-- The argument occurs in a text where the predicate wants it. -/
def PredicateExpr.OccursIn (same : Char → Char → Bool) (s : List Char) : PredicateExpr → Prop
  | .startsWith text => ∃ part, part <+: s ∧ Like.Alike same part text.toList
  | .endsWith suffix => ∃ part, part <:+ s ∧ Like.Alike same part suffix.toList
  | .contains substring => ∃ part, part <:+: s ∧ Like.Alike same part substring.toList
  | .equals value => Like.Alike same s value.toList

/-- The search finds the argument: as a piece, at the start or the end of one, or within one.
Postgres asks for a whole tag. -/
def PredicateExpr.FoundIn (d : DialectName) (tags : List String) : PredicateExpr → Prop
  | .startsWith text => ∃ s ∈ (pieces d tags).tail,
      (PredicateExpr.startsWith text).OccursIn (textSame d) s
  | .endsWith suffix => ∃ s ∈ (pieces d tags).dropLast,
      (PredicateExpr.endsWith suffix).OccursIn (textSame d) s
  | .contains substring => ∃ s ∈ pieces d tags,
      (PredicateExpr.contains substring).OccursIn (textSame d) s
  | .equals value =>
      if d = .postgres then value ∈ tags
      else ∃ s ∈ (pieces d tags).tail.dropLast,
        (PredicateExpr.equals value).OccursIn (textSame d) s

/-- An argument that stands for itself: it is written as it is, and has no wildcards where a
pattern is made of it. -/
def PredicateExpr.Plain (d : DialectName) (p : PredicateExpr) : Prop :=
  ∀ c ∈ p.argument.toList, PlainChar c ∧
    (c = '%' ∨ c = '_' → d = .postgres ∧ ∃ value, p = .equals value)

/-! ## What is found in tags and between them -/

/-- The text of a tag, cut at the quotes that are escaped in it. -/
def segments (t : String) : List (List Char) :=
  (escapeString t.toList).splitOn '"'

namespace PredicateExpr

/-- The search finds the argument in the text of a tag.  Postgres asks for the whole tag. -/
def Written (d : DialectName) (t : String) : PredicateExpr → Prop
  | equals value =>
      if d = .postgres then t = value
      else ∃ s ∈ segments t, (equals value).OccursIn (textSame d) s
  | startsWith text => ∃ s ∈ segments t, (startsWith text).OccursIn (textSame d) s
  | endsWith suffix => ∃ s ∈ segments t, (endsWith suffix).OccursIn (textSame d) s
  | contains substring => ∃ s ∈ segments t, (contains substring).OccursIn (textSame d) s

/-- The argument fits into a bracket, or between two tags if there are so many. -/
def FitsBetween (d : DialectName) (length : ℕ) : PredicateExpr → Prop
  | startsWith text =>
      text.toList <+: [']'] ∨ 2 ≤ length ∧ text.toList <+: elementSeparator d
  | endsWith suffix =>
      suffix.toList <:+ ['['] ∨ 2 ≤ length ∧ suffix.toList <:+ elementSeparator d
  | contains substring =>
      (substring.toList <:+: ['['] ∨ substring.toList <:+: [']']) ∨
        2 ≤ length ∧ substring.toList <:+: elementSeparator d
  | equals value => d ≠ .postgres ∧ 2 ≤ length ∧ value.toList = elementSeparator d

/-- A tag satisfies the predicate; MySQL reads tags of at most 512 characters. -/
def Satisfied (db : Server) (t : String) (p : PredicateExpr) : Prop :=
  (db.dialect = .mysql → t.toList.length ≤ 512) ∧ p.HoldsOf db t

/-- The case of the tags, their lengths, separators and brackets do not mislead the search: if a tag
satisfies the predicate, the argument is found in a tag or fits between tags, and if the argument is
found in a tag or fits between tags, a tag satisfies the predicate. -/
structure SearchAgrees (db : Server) (tags : List String) (p : PredicateExpr) : Prop where
  found : ∀ t ∈ tags, p.Satisfied db t →
    (∃ u ∈ tags, p.Written db.dialect u) ∨ p.FitsBetween db.dialect tags.length
  satisfied : ∀ t ∈ tags, p.Written db.dialect t → ∃ u ∈ tags, p.Satisfied db u
  between : tags ≠ [] → p.FitsBetween db.dialect tags.length → ∃ u ∈ tags, p.Satisfied db u

end PredicateExpr

/-! ## The pieces of the text -/

/-- Plain tags are not cut. -/
theorem segments_plain {t : String} (hplain : ∀ c ∈ t.toList, PlainChar c) :
    segments t = [t.toList] := by
  rw [segments, escapeString_plain hplain]
  exact List.splitOn_eq_singleton fun hmem => (hplain '"' hmem).1 rfl

/-- The pieces between the first quote of the text and the last. -/
def innerPieces (d : DialectName) : List String → List (List Char)
  | [] => []
  | [t] => segments t
  | t :: u :: rest => segments t ++ elementSeparator d :: innerPieces d (u :: rest)

private theorem mem_innerPieces {d : DialectName} {tags : List String} {s : List Char} :
    s ∈ innerPieces d tags ↔
      (∃ t ∈ tags, s ∈ segments t) ∨ 2 ≤ tags.length ∧ s = elementSeparator d := by
  induction tags with
  | nil => simp [innerPieces]
  | cons t tags ih =>
      cases tags with
      | nil => simp [innerPieces]
      | cons u rest =>
          have hlength : 2 ≤ (t :: u :: rest).length := by simp
          rw [innerPieces, List.mem_append, List.mem_cons, ih]
          simp only [List.exists_mem_cons_iff]
          constructor
          · rintro (hs | hs | hs | ⟨-, hs⟩)
            · exact .inl (.inl hs)
            · exact .inr ⟨hlength, hs⟩
            · exact .inl (.inr hs)
            · exact .inr ⟨hlength, hs⟩
          · rintro ((hs | hs) | ⟨-, hs⟩)
            · exact .inl hs
            · exact .inr (.inr (.inl hs))
            · exact .inr (.inl hs)

/-- The text of a list is cut into the brackets, the tags and what separates them. -/
theorem pieces_eq (d : DialectName) {tags : List String} (hne : tags ≠ []) :
    pieces d tags = ['['] :: (innerPieces d tags ++ [[']']]) := by
  have hseparator : (elementSeparator d).splitOn '"' = [elementSeparator d] := by
    cases d <;> decide
  have hinner : ∀ tags : List String, tags ≠ [] →
      ∃ text, (elementSeparator d).intercalate ((tags.map String.toList).map quoteString) ++
          [']'] = '"' :: text ∧ text.splitOn '"' = innerPieces d tags ++ [[']']] := by
    intro tags hne
    induction tags with
    | nil => exact absurd rfl hne
    | cons t tags ih =>
        cases tags with
        | nil =>
            refine ⟨escapeString t.toList ++ '"' :: [']'], by simp [quoteString], ?_⟩
            rw [List.splitOn_append_cons_self]
            rfl
        | cons u rest =>
            rcases ih (by simp) with ⟨text, htext, hsplit⟩
            refine ⟨escapeString t.toList ++ '"' :: (elementSeparator d ++ '"' :: text), ?_, ?_⟩
            · rw [List.map_cons, List.map_cons,
                List.intercalate_cons_of_ne_nil (by simp), List.append_assoc, List.append_assoc,
                htext]
              simp [quoteString]
            · rw [List.splitOn_append_cons_self, List.splitOn_append_cons_self, hseparator, hsplit]
              simp [innerPieces, segments]
  rcases hinner tags hne with ⟨text, htext, hsplit⟩
  have hwhole : stringsText (elementSeparator d) (tags.map String.toList) =
      ['['] ++ '"' :: text := by
    rw [← htext]
    simp [stringsText]
  rw [pieces, hwhole, List.splitOn_append_cons_self, hsplit]
  rfl

/-! ## Searches -/

/-- Only letters have another case. -/
private theorem toLower_eq_iff {a c : Char}
    (hc : c.val.toNat < 65 ∨ 90 < c.val.toNat ∧ c.val.toNat < 97) :
    a.toLower = c ↔ a = c := by
  by_cases hupper : a.val ≥ 'A'.val ∧ a.val ≤ 'Z'.val
  · have hbounds : 65 ≤ a.val.toNat ∧ a.val.toNat ≤ 90 := hupper
    have hadd : a.toLower.val = a.val + 32 := congrArg Char.val (dif_pos hupper)
    constructor
    · intro hlower
      have hval : (a.val + 32).toNat = c.val.toNat := by rw [← hadd, hlower]
      rw [UInt32.toNat_add] at hval
      simp only [UInt32.reduceToNat] at hval
      omega
    · rintro rfl
      omega
  · have hsame : a.toLower = a := dif_neg hupper
    rw [hsame]

/-- Nothing but a quote is compared as a quote. -/
private theorem textSame_quote (d : DialectName) (a b : Char) (h : textSame d a b = true) :
    a = '"' ↔ b = '"' := by
  have hquote : ∀ c : Char, c.toLower = '"' ↔ c = '"' :=
    fun c => toLower_eq_iff (.inl (by decide))
  cases d with
  | sqlite =>
      have heq : a.toLower = b.toLower := by simpa [textSame] using h
      rw [← hquote a, heq, hquote b]
  | _ =>
      have heq : a = b := by simpa [textSame] using h
      rw [heq]

private theorem textSame_self (d : DialectName) (a : Char) : textSame d a a = true := by
  cases d <;> simp [textSame]

/-- Brackets and separators are compared as they are. -/
private theorem alike_bracket {d : DialectName} {part word : List Char}
    (hpart : ∀ c ∈ part, c = '[' ∨ c = ']' ∨ c = ',' ∨ c = ' ') :
    Like.Alike (textSame d) part word ↔ part = word := by
  have hone : ∀ a b : Char, (a = '[' ∨ a = ']' ∨ a = ',' ∨ a = ' ') →
      (textSame d a b = true ↔ a = b) := by
    intro a b ha
    have hlower : a.toLower = a ∧ (b.toLower = a ↔ b = a) := by
      rcases ha with rfl | rfl | rfl | rfl
      · exact ⟨by decide, toLower_eq_iff (.inr (by decide))⟩
      · exact ⟨by decide, toLower_eq_iff (.inr (by decide))⟩
      · exact ⟨by decide, toLower_eq_iff (.inl (by decide))⟩
      · exact ⟨by decide, toLower_eq_iff (.inl (by decide))⟩
    cases d with
    | sqlite =>
        rw [textSame, beq_iff_eq, hlower.1, eq_comm, hlower.2, eq_comm]
    | _ => simp [textSame]
  constructor
  · intro h
    induction h with
    | nil => rfl
    | cons hab _ ih =>
        rw [(hone _ _ (hpart _ List.mem_cons_self)).mp hab,
          ih fun c hc => hpart c (List.mem_cons_of_mem _ hc)]
  · rintro rfl
    exact List.forall₂_same.mpr fun c _ => textSame_self d c

/-- A search for a plain text finds it where it stands. -/
private theorem textLike_iff (d : DialectName) (text word : List Char)
    (hword : ∀ c ∈ word, c ≠ '%' ∧ c ≠ '_' ∧ c ≠ '\\') :
    textLike d text ('%' :: (word ++ ['%'])) = true ↔
      ∃ part, part <:+: text ∧ Like.Alike (textSame d) part word := by
  have hspecial : ∀ c ∈ word, ¬(textWildcards d).Special c := by
    intro c hc
    rcases hword c hc with ⟨hmany, hone, hescape⟩
    cases d <;>
      simp [Like.Wildcards.Special, textWildcards, bareWildcards, likeWildcards, hmany, hone,
        Ne.symm hescape]
  have hlike : textLike d text ('%' :: (word ++ ['%'])) = Like.like (textSame d) (textWildcards d)
      text ((textWildcards d).many :: (word ++ [(textWildcards d).many])) := by
    cases d <;> rfl
  rw [hlike]
  exact Like.like_plain_infix _ hspecial text

section Found

variable (d : DialectName) (tags : List String) {word : String}
  (hword : ∀ c ∈ word.toList, PlainChar c ∧ c ≠ '%' ∧ c ≠ '_')

include hword

private theorem not_quote : '"' ∉ word.toList :=
  fun hmem => (hword '"' hmem).1.1 rfl

private theorem not_special {before after : List Char} (hbefore : before ⊆ ['"'])
    (hafter : after ⊆ ['"']) :
    ∀ c ∈ before ++ word.toList ++ after, c ≠ '%' ∧ c ≠ '_' ∧ c ≠ '\\' := by
  intro c hc
  have hquote : c = '"' → c ≠ '%' ∧ c ≠ '_' ∧ c ≠ '\\' := by
    rintro rfl
    decide
  rcases List.mem_append.mp hc with hc | hc
  · rcases List.mem_append.mp hc with hc | hc
    · exact hquote (List.mem_singleton.mp (hbefore hc))
    · rcases hword c hc with ⟨hplain, hmany, hone⟩
      exact ⟨hmany, hone, hplain.2.1⟩
  · exact hquote (List.mem_singleton.mp (hafter hc))

/-- The text of a list as it is searched. -/
private def listText : List Char :=
  stringsText (elementSeparator d) (tags.map String.toList)

private theorem search_whole :
    textLike d (listText d tags) ("%\"" ++ word ++ "\"%").toList = true ↔
      ∃ s ∈ (pieces d tags).tail.dropLast, Like.Alike (textSame d) s word.toList := by
  have htext : ("%\"" ++ word ++ "\"%").toList =
      '%' :: ((['"'] ++ word.toList ++ ['"']) ++ ['%']) := by simp
  rw [htext, textLike_iff d _ _ (not_special hword (by simp) (by simp))]
  have hshape : ['"'] ++ word.toList ++ ['"'] = '"' :: (word.toList ++ ['"']) := rfl
  rw [hshape, Like.alike_enclosed_infix_iff (textSame_quote d) (textSame_self d '"')
    (not_quote hword)]
  rfl

private theorem search_start :
    textLike d (listText d tags) ("%\"" ++ word ++ "%").toList = true ↔
      ∃ s ∈ (pieces d tags).tail, ∃ part, part <+: s ∧
        Like.Alike (textSame d) part word.toList := by
  have htext : ("%\"" ++ word ++ "%").toList =
      '%' :: ((['"'] ++ word.toList ++ []) ++ ['%']) := by simp
  rw [htext, textLike_iff d _ _ (not_special hword (by simp) (by simp))]
  have hshape : ['"'] ++ word.toList ++ [] = '"' :: word.toList := by simp
  rw [hshape, Like.alike_cons_infix_iff (textSame_quote d) (textSame_self d '"')
    (not_quote hword)]
  rfl

private theorem search_end :
    textLike d (listText d tags) ("%" ++ word ++ "\"%").toList = true ↔
      ∃ s ∈ (pieces d tags).dropLast, ∃ part, part <:+ s ∧
        Like.Alike (textSame d) part word.toList := by
  have htext : ("%" ++ word ++ "\"%").toList =
      '%' :: (([] ++ word.toList ++ ['"']) ++ ['%']) := by simp
  rw [htext, textLike_iff d _ _ (not_special hword (by simp) (by simp))]
  have hshape : [] ++ word.toList ++ ['"'] = word.toList ++ ['"'] := by simp
  rw [hshape, Like.alike_concat_infix_iff (textSame_quote d) (textSame_self d '"')
    (not_quote hword)]
  rfl

private theorem search_within :
    textLike d (listText d tags) ("%" ++ word ++ "%").toList = true ↔
      ∃ s ∈ pieces d tags, ∃ part, part <:+: s ∧ Like.Alike (textSame d) part word.toList := by
  have htext : ("%" ++ word ++ "%").toList =
      '%' :: (([] ++ word.toList ++ []) ++ ['%']) := by simp
  rw [htext, textLike_iff d _ _ (not_special hword (by simp) (by simp))]
  have hshape : [] ++ word.toList ++ [] = word.toList := by simp
  rw [hshape, Like.alike_infix_iff (textSame_quote d) (not_quote hword)]
  rfl

end Found

/-! ## What the search finds -/

private theorem exists_innerPieces {d : DialectName} {tags : List String} {P : List Char → Prop} :
    (∃ s ∈ innerPieces d tags, P s) ↔
      (∃ t ∈ tags, ∃ s ∈ segments t, P s) ∨ 2 ≤ tags.length ∧ P (elementSeparator d) := by
  simp only [mem_innerPieces]
  constructor
  · rintro ⟨s, ⟨t, ht, hs⟩ | ⟨hlength, rfl⟩, hP⟩
    · exact .inl ⟨t, ht, s, hs, hP⟩
    · exact .inr ⟨hlength, hP⟩
  · rintro (⟨t, ht, s, hs, hP⟩ | ⟨hlength, hP⟩)
    · exact ⟨s, .inl ⟨t, ht, hs⟩, hP⟩
    · exact ⟨_, .inr ⟨hlength, rfl⟩, hP⟩

/-- An argument occurs in a bracket or a separator as it is. -/
private theorem exists_part_iff {d : DialectName} {R : List Char → List Char → Prop}
    {s word : List Char} (hs : ∀ c ∈ s, c = '[' ∨ c = ']' ∨ c = ',' ∨ c = ' ')
    (hR : ∀ part, R part s → part ⊆ s) :
    (∃ part, R part s ∧ Like.Alike (textSame d) part word) ↔ R word s := by
  constructor
  · rintro ⟨part, hpart, halike⟩
    rw [alike_bracket fun c hc => hs c (hR part hpart hc)] at halike
    exact halike ▸ hpart
  · intro hword
    exact ⟨word, hword, (alike_bracket fun c hc => hs c (hR word hword hc)).mpr rfl⟩

private theorem bracket_chars {d : DialectName} {s : List Char}
    (hs : s = ['['] ∨ s = [']'] ∨ s = elementSeparator d) :
    ∀ c ∈ s, c = '[' ∨ c = ']' ∨ c = ',' ∨ c = ' ' := by
  intro c hc
  rcases hs with rfl | rfl | rfl
  · rw [List.mem_singleton.mp hc]
    exact .inl rfl
  · rw [List.mem_singleton.mp hc]
    exact .inr (.inl rfl)
  · cases d <;> simp [elementSeparator] at hc <;> tauto

/-- The search finds the argument in the tags, in what separates them, and in the brackets. -/
theorem foundIn_iff (d : DialectName) {tags : List String} (hne : tags ≠ []) (p : PredicateExpr) :
    p.FoundIn d tags ↔ (∃ t ∈ tags, p.Written d t) ∨ p.FitsBetween d tags.length := by
  have hopening := @bracket_chars d ['['] (.inl rfl)
  have hclosing := @bracket_chars d [']'] (.inr (.inl rfl))
  have hseparator := @bracket_chars d (elementSeparator d) (.inr (.inr rfl))
  cases p with
  | startsWith text =>
      have hsub : ∀ s part : List Char, part <+: s → part ⊆ s := fun _ _ h => h.subset
      rw [PredicateExpr.FoundIn, pieces_eq d hne, List.tail_cons, PredicateExpr.FitsBetween,
        ← exists_part_iff (d := d) hclosing (hsub _), ← exists_part_iff (d := d) hseparator (hsub _)]
      simp only [List.mem_append, List.mem_singleton, or_and_right, exists_or, exists_eq_left,
        exists_innerPieces, PredicateExpr.Written, PredicateExpr.OccursIn]
      exact or_assoc.trans (or_congr_right or_comm)
  | endsWith suffix =>
      have hsub : ∀ s part : List Char, part <:+ s → part ⊆ s := fun _ _ h => h.subset
      rw [PredicateExpr.FoundIn, pieces_eq d hne, ← List.cons_append, List.dropLast_concat,
        PredicateExpr.FitsBetween, ← exists_part_iff (d := d) hopening (hsub _),
        ← exists_part_iff (d := d) hseparator (hsub _)]
      simp only [List.exists_mem_cons_iff, exists_innerPieces, PredicateExpr.Written,
        PredicateExpr.OccursIn]
      exact or_left_comm
  | contains substring =>
      have hsub : ∀ s part : List Char, part <:+: s → part ⊆ s := fun _ _ h => h.subset
      rw [PredicateExpr.FoundIn, pieces_eq d hne, PredicateExpr.FitsBetween,
        ← exists_part_iff (d := d) hopening (hsub _), ← exists_part_iff (d := d) hclosing (hsub _),
        ← exists_part_iff (d := d) hseparator (hsub _)]
      simp only [List.exists_mem_cons_iff, List.mem_append, List.mem_singleton, or_and_right,
        exists_or, exists_eq_left, exists_innerPieces, PredicateExpr.Written,
        PredicateExpr.OccursIn]
      refine (or_congr_right or_assoc).trans (or_left_comm.trans (or_congr_right ?_))
      exact (or_congr_right or_comm).trans or_assoc.symm
  | equals value =>
      rw [PredicateExpr.FoundIn, PredicateExpr.FitsBetween]
      by_cases hd : d = .postgres
      · simp [hd, PredicateExpr.Written]
      · rw [if_neg hd, pieces_eq d hne, List.tail_cons, List.dropLast_concat]
        simp only [exists_innerPieces, PredicateExpr.Written, PredicateExpr.OccursIn, hd, if_false,
          alike_bracket hseparator, ne_eq, not_false_eq_true, true_and]
        rw [eq_comm]

/-- A plain tag is searched as it is. -/
theorem written_plain {d : DialectName} {t : String} (hplain : ∀ c ∈ t.toList, PlainChar c)
    (p : PredicateExpr) : p.Written d t ↔ p.OccursIn (textSame d) t.toList := by
  have hwhole : ∀ P : List Char → Prop, (∃ s ∈ segments t, P s) ↔ P t.toList := by
    intro P
    rw [segments_plain hplain]
    simp
  cases p with
  | equals value =>
      rw [PredicateExpr.Written, hwhole]
      by_cases hd : d = .postgres
      · -- Postgres compares whole tags, character by character
        subst hd
        have hsame : ∀ a b : Char, textSame .postgres a b = true ↔ a = b := by simp [textSame]
        simp only [if_true, PredicateExpr.OccursIn, Like.Alike, hsame, List.forall₂_eq_eq_eq,
          String.toList_inj]
      · rw [if_neg hd]
  | startsWith text => exact hwhole _
  | endsWith suffix => exact hwhole _
  | contains substring => exact hwhole _

/-! ## The list of a memo -/

/-- The tags are a list in the payload. -/
private theorem field_tags : ∃ f, newSchema.field "tags" = some f ∧ f.kind = .jsonList ∧
    f.jsonPath = ["tags"] ∧ f.column = ⟨"memo", "payload"⟩ :=
  ⟨_, rfl, rfl, rfl, rfl⟩

/-- Only the list of tags has their key, and an empty list is not written. -/
private theorem lookup_tags (payload : Store.MemoPayload) :
    (payloadJson payload).lookup ["tags"] =
      if payload.Tags = [] then none else some (.array (payload.Tags.map .text)) := by
  rcases payload with ⟨property, location, tags⟩
  by_cases htags : tags = []
  · cases property <;> cases location <;> simp [payloadJson, Json.lookup, htags, List.lookup_cons]
  · cases property <;> cases location <;> simp [payloadJson, Json.lookup, htags, List.lookup_cons]

section Memo

variable {db : Server} {username : Option String} {m : Store.Memo} {f : Field}

private theorem eval_tags (hpath : f.jsonPath = ["tags"]) (hcolumn : f.column = ⟨"memo", "payload"⟩)
    (y : Datum) :
    (SqlExpr.jsonArray f).eval db (memoRow db.dialect username m) y =
      if m.Payload.Tags = [] then .null else .json (.array (m.Payload.Tags.map .text)) := by
  have hpayload : (memoRow db.dialect username m).column f.column =
      .json (payloadJson m.Payload) := by
    rw [hcolumn]
    rfl
  rw [SqlExpr.eval, hpayload, jsonArrayValue, hpath, lookup_tags]
  by_cases htags : m.Payload.Tags = [] <;> simp [htags]

private theorem asText_tags (tags : List String) :
    (tags.map Json.text).mapM Json.asText = some tags := by
  have hmap := Traverse.mapM_eq_some (f := Json.asText) (g := fun j => j.asText.getD "")
    (l := tags.map Json.text) (by
      intro j hj
      rcases List.mem_map.mp hj with ⟨t, _, rfl⟩
      rfl)
  rw [hmap, List.map_map]
  congr 1
  exact List.map_id tags

/-- The elements that are iterated are the tags; MySQL cuts no long ones out but reads them as
{lit}`NULL`. -/
theorem iterated_memoRow : iterated db (memoRow db.dialect username m) =
    m.Payload.Tags.map fun t =>
      if db.dialect = .mysql ∧ 512 < t.toList.length then .null else .text t := by
  rcases field_tags with ⟨f, hfield, -, hpath, hcolumn⟩
  rw [iterated, hfield, Option.bind_some, eval_tags hpath hcolumn]
  by_cases htags : m.Payload.Tags = []
  · rw [if_pos htags, htags]
    rfl
  · rw [if_neg htags, elementTable, asText_tags]
    rfl

/-- What is evaluated on every element. -/
def elementFragment (p : PredicateExpr) : Fragment Arg :=
  elementPredicateSQL (m := Id) pure p

private theorem elementPredicateSQL_eq (p : PredicateExpr) :
    (elementPredicateSQL pure p : Except String (Fragment Arg)) = .ok (elementFragment p) := by
  cases p <;> rfl

private theorem elementHolds_iff_fragment {row : Row} {p : PredicateExpr} {y : Datum} :
    ElementHolds db row p y ↔
      (elementFragment p).shape.answer db row y (elementFragment p).slots = some .holds := by
  constructor
  · rintro ⟨f, hf, hanswer⟩
    rw [elementPredicateSQL_eq] at hf
    cases hf
    exact hanswer
  · exact fun h => ⟨_, elementPredicateSQL_eq p, h⟩

/-- The element condition has an answer on a text and on {lit}`NULL`. -/
private theorem elementFragment_answer (row : Row) (p : PredicateExpr) (t : String) :
    (∃ b, (elementFragment p).shape.answer db row (.text t) (elementFragment p).slots =
        some (.ofBool b) ∧ (b = true ↔ p.HoldsOf db t)) ∧
      (elementFragment p).shape.answer db row .null (elementFragment p).slots =
        some .unknown := by
  cases p with
  | equals value =>
      refine ⟨⟨_, rfl, ?_⟩, rfl⟩
      simp [ComparisonOperator.test, PredicateExpr.HoldsOf]
  | _ => exact ⟨⟨_, rfl, db.folding.foldedLike_likePattern _ _ _⟩, rfl⟩

theorem elementHolds_text (row : Row) (p : PredicateExpr) (t : String) :
    ElementHolds db row p (.text t) ↔ p.HoldsOf db t := by
  rcases @elementFragment_answer db row p t with ⟨⟨b, hanswer, hb⟩, -⟩
  rw [elementHolds_iff_fragment, hanswer, ← hb]
  cases b <;> simp [Truth.ofBool]

private theorem not_elementHolds_null (row : Row) (p : PredicateExpr) :
    ¬ElementHolds db row p .null := by
  rw [elementHolds_iff_fragment, (elementFragment_answer row p "").2]
  simp

/-- Some element satisfies the predicate. -/
theorem exists_elementHolds_iff (p : PredicateExpr) :
    (∃ y ∈ iterated db (memoRow db.dialect username m),
        ElementHolds db (memoRow db.dialect username m) p y) ↔
      ∃ t ∈ m.Payload.Tags, (db.dialect = .mysql → t.toList.length ≤ 512) ∧ p.HoldsOf db t := by
  rw [iterated_memoRow]
  constructor
  · rintro ⟨y, hy, hholds⟩
    rcases List.mem_map.mp hy with ⟨t, ht, rfl⟩
    by_cases hlong : db.dialect = .mysql ∧ 512 < t.toList.length
    · rw [if_pos hlong] at hholds
      exact absurd hholds (not_elementHolds_null _ p)
    · rw [if_neg hlong] at hholds
      exact ⟨t, ht, fun hmysql => by_contra fun hlength => hlong ⟨hmysql, by omega⟩,
        (elementHolds_text _ p t).mp hholds⟩
  · rintro ⟨t, ht, hshort, hholds⟩
    refine ⟨_, List.mem_map_of_mem ht, ?_⟩
    rw [if_neg fun hlong => absurd (hshort hlong.1) (by omega)]
    exact (elementHolds_text _ p t).mpr hholds

/-! ## The answers -/

/-- A comprehension over the tags is one atom. -/
private theorem selects_iff {row : Row} {x : String} {p : PredicateExpr}
    {kind : ComprehensionKind} {fragment : Fragment Arg}
    (h : (renderListComprehension pure newSchema db.dialect kind "tags" p :
      Except String (Fragment Arg)) = .ok fragment) :
    Selects db row x p kind ↔ fragment.answer db row = some .holds := by
  have hatom : Condition.atom newSchema db.dialect (.listComprehension kind "tags" x p) =
      .ok fragment := h
  rw [Selects, Condition.answer_atom rfl hatom]

/-- The search in the text of a list that is present. -/
private theorem jsonLike_tags (d : DialectName) (pattern : String) (tags : List String) :
    jsonLike d pattern (.json (.array (tags.map .text))) =
      some (.ofBool (textLike d (listText d tags) pattern.toList)) := by
  rw [jsonLike, asText_tags]
  rfl

private theorem withNullCheck_answer {p : Shape} {row : Row} {args : List Arg} {t : Truth}
    (h : p.answer db row .null args = some t) :
    (Shape.withNullCheck p (.jsonArray f)).answer db row .null args =
      some (t.conj (nonEmpty ((SqlExpr.jsonArray f).eval db row .null))) := by
  rw [Shape.answer, h]
  rfl

/-- Nothing is found in a list that is absent, and what the search answers counts in one that is
present. -/
private theorem conj_nonEmpty (hpath : f.jsonPath = ["tags"])
    (hcolumn : f.column = ⟨"memo", "payload"⟩) (t : Truth) :
    t.conj (nonEmpty ((SqlExpr.jsonArray f).eval db (memoRow db.dialect username m) .null)) =
        .holds ↔ m.Payload.Tags ≠ [] ∧ t = .holds := by
  rw [eval_tags hpath hcolumn]
  by_cases htags : m.Payload.Tags = []
  · rw [if_pos htags]
    cases t <;> simp [nonEmpty, Truth.conj, htags]
  · rw [if_neg htags]
    cases t <;> simp [nonEmpty, Truth.conj, htags, Truth.ofBool]

variable {x : String}

/-- An answer that counts only for a list that is present. -/
private def AnswersWhen (db : Server) (row : Row) (m : Store.Memo) (fragment : Fragment Arg)
    (found : Prop) : Prop :=
  ∃ t, fragment.answer db row = some t ∧ (m.Payload.Tags ≠ [] → (t = .holds ↔ found))

private theorem selects_wrapped {p : PredicateExpr} {kind : ComprehensionKind}
    {fragment : Fragment Arg} {found : Prop} (hpath : f.jsonPath = ["tags"])
    (hcolumn : f.column = ⟨"memo", "payload"⟩)
    (h : (renderListComprehension pure newSchema db.dialect kind "tags" p :
      Except String (Fragment Arg)) = .ok (wrapWithNullCheck f fragment))
    (hanswers : AnswersWhen db (memoRow db.dialect username m) m fragment found) :
    Selects db (memoRow db.dialect username m) x p kind ↔ m.Payload.Tags ≠ [] ∧ found := by
  rcases hanswers with ⟨t, hanswer, hfound⟩
  have hwrapped : (wrapWithNullCheck f fragment).answer db (memoRow db.dialect username m) =
      some (t.conj (nonEmpty ((SqlExpr.jsonArray f).eval db (memoRow db.dialect username m)
        .null))) := withNullCheck_answer hanswer
  rw [selects_iff h, hwrapped, Option.some.injEq, conj_nonEmpty hpath hcolumn]
  exact and_congr_right hfound

private theorem answers_arrayLike (hpath : f.jsonPath = ["tags"])
    (hcolumn : f.column = ⟨"memo", "payload"⟩) (pattern : String) :
    AnswersWhen db (memoRow db.dialect username m) m
      (single (.arrayLike (.jsonArray f)) (.str pattern))
      (textLike db.dialect (listText db.dialect m.Payload.Tags) pattern.toList = true) := by
  have hanswer : (single (.arrayLike (.jsonArray f)) (.str pattern) : Fragment Arg).answer db
      (memoRow db.dialect username m) = jsonLike db.dialect pattern
        ((SqlExpr.jsonArray f).eval db (memoRow db.dialect username m) .null) := rfl
  rw [AnswersWhen, hanswer, eval_tags hpath hcolumn]
  by_cases htags : m.Payload.Tags = []
  · rw [if_pos htags]
    exact ⟨.unknown, rfl, fun hne => absurd htags hne⟩
  · rw [if_neg htags, jsonLike_tags]
    exact ⟨_, rfl, fun _ => Truth.ofBool_eq_holds_iff _⟩

private theorem answers_arrayContains (hpath : f.jsonPath = ["tags"])
    (hcolumn : f.column = ⟨"memo", "payload"⟩) (hdialect : db.dialect = .postgres)
    {value : String} (hplain : ∀ c ∈ value.toList, PlainChar c) :
    AnswersWhen db (memoRow db.dialect username m) m
      (single (.arrayContains (.jsonArray f)) (.str ("\"" ++ value ++ "\"")))
      (value ∈ m.Payload.Tags) := by
  have hanswer : (single (.arrayContains (.jsonArray f)) (.str ("\"" ++ value ++ "\"")) :
      Fragment Arg).answer db (memoRow db.dialect username m) =
        jsonContains db.dialect ("\"" ++ value ++ "\"")
          ((SqlExpr.jsonArray f).eval db (memoRow db.dialect username m) .null) := rfl
  have hread : readString ("\"" ++ value ++ "\"").toList = some value.toList := by
    have htext : ("\"" ++ value ++ "\"").toList = '"' :: (value.toList ++ ['"']) := by simp
    rw [htext, readString_plain hplain]
  have hnull :
      ¬(db.dialect = .sqlite ∨ (db.dialect = .postgres ∧ Char.ofNat 0 ∈ value.toList)) := by
    rintro (hsqlite | ⟨-, hmem⟩)
    · rw [hdialect] at hsqlite
      cases hsqlite
    · exact absurd (hplain _ hmem).2.2 (by decide)
  rw [AnswersWhen, hanswer, eval_tags hpath hcolumn, jsonContains, hread]
  simp only [Option.bind_eq_bind, Option.bind_some, if_neg hnull]
  by_cases htags : m.Payload.Tags = []
  · rw [if_pos htags]
    exact ⟨.unknown, rfl, fun hne => absurd htags hne⟩
  · rw [if_neg htags]
    simp only [asText_tags, Option.bind_some, String.ofList_toList]
    exact ⟨_, rfl, fun _ => by simp⟩

private theorem answers_either {p q : Fragment Arg} {row : Row} {left right : Prop}
    (hp : AnswersWhen db row m p left) (hq : AnswersWhen db row m q right) :
    AnswersWhen db row m (p.either q) (left ∨ right) := by
  rcases hp with ⟨t, ht, hleft⟩
  rcases hq with ⟨u, hu, hright⟩
  refine ⟨t.disj u, ?_, fun hne => ?_⟩
  · have htake : (p.slots ++ q.slots).take p.shape.arity = p.slots := List.take_left' p.filled
    have hdrop : (p.slots ++ q.slots).drop p.shape.arity = q.slots := List.drop_left' p.filled
    change p.shape.answer db row .null p.slots = some t at ht
    change q.shape.answer db row .null q.slots = some u at hu
    change (Shape.either p.shape q.shape).answer db row .null (p.slots ++ q.slots) = _
    rw [Shape.answer, htake, hdrop, ht, hu]
    rfl
  · rw [Truth.disj_eq_holds_iff, hleft hne, hright hne]

/-- A tag of the list stands in its text between quotes. -/
private theorem quoted_infix (d : DialectName) {tags : List String} {t : String} (ht : t ∈ tags) :
    quoteString t.toList <:+: listText d tags := by
  have hmem : ∀ {α : Type} (sep a : α) (l : List α), a ∈ l → a ∈ l.intersperse sep := by
    intro α sep a l hmem
    induction l with
    | nil => cases hmem
    | cons b l ih =>
        cases l with
        | nil => exact hmem
        | cons c l =>
            rw [List.intersperse_cons_cons]
            rcases List.mem_cons.mp hmem with rfl | hmem
            · exact List.mem_cons_self
            · exact List.mem_cons_of_mem _ (List.mem_cons_of_mem _ (ih hmem))
  have hquoted : quoteString t.toList ∈ (tags.map String.toList).map quoteString :=
    List.mem_map_of_mem (List.mem_map_of_mem ht)
  have hjoined : quoteString t.toList <:+:
      (elementSeparator d).intercalate ((tags.map String.toList).map quoteString) :=
    List.infix_of_mem_flatten (hmem _ _ _ hquoted)
  exact hjoined.trans ⟨['['], [']'], by simp [listText, stringsText]⟩

/-- A whole tag starts with itself. -/
private theorem starts_of_whole (d : DialectName) {tags : List String} {text : String}
    (hplain : ∀ c ∈ text.toList, PlainChar c ∧ c ≠ '%' ∧ c ≠ '_')
    (h : (PredicateExpr.equals text).FoundIn d tags) :
    (PredicateExpr.startsWith text).FoundIn d tags := by
  by_cases hd : d = .postgres
  · rw [PredicateExpr.FoundIn, if_pos hd] at h
    have halike : Like.Alike (textSame d) ('"' :: text.toList) ('"' :: text.toList) :=
      List.forall₂_same.mpr fun c _ => textSame_self d c
    have hescape := escapeString_plain fun c hc => (hplain c hc).1
    have hinfix : '"' :: text.toList <:+: listText d tags := by
      have hquoted := quoted_infix d h
      rw [quoteString, hescape] at hquoted
      exact List.IsInfix.trans ⟨[], ['"'], by simp⟩ hquoted
    exact (Like.alike_cons_infix_iff (textSame_quote d) (textSame_self d '"')
      (fun hmem => (hplain '"' hmem).1.1 rfl) _).mp ⟨_, hinfix, halike⟩
  · rw [PredicateExpr.FoundIn, if_neg hd] at h
    rcases h with ⟨s, hs, halike⟩
    exact ⟨s, List.dropLast_subset _ hs, s, List.prefix_rfl, halike⟩

/-- The exact test of a plain value finds it as a whole tag. -/
private theorem answers_exactMatch (hpath : f.jsonPath = ["tags"])
    (hcolumn : f.column = ⟨"memo", "payload"⟩) {value : String}
    (hplain : ∀ c ∈ value.toList, PlainChar c ∧ (c = '%' ∨ c = '_' → db.dialect = .postgres)) :
    ∃ fragment, (buildExactMatch pure db.dialect f value : Except String (Fragment Arg)) =
        .ok fragment ∧
      AnswersWhen db (memoRow db.dialect username m) m fragment
        ((PredicateExpr.equals value).FoundIn db.dialect m.Payload.Tags) := by
  by_cases hd : db.dialect = .postgres
  · refine ⟨single (.arrayContains (.jsonArray f)) (.str ("\"" ++ value ++ "\"")), ?_, ?_⟩
    · rw [hd]
      rfl
    · rw [PredicateExpr.FoundIn, if_pos hd]
      exact answers_arrayContains hpath hcolumn hd fun c hc => (hplain c hc).1
  · have hword : ∀ c ∈ value.toList, PlainChar c ∧ c ≠ '%' ∧ c ≠ '_' := by
      intro c hc
      rcases hplain c hc with ⟨hchar, hwild⟩
      exact ⟨hchar, fun he => hd (hwild (.inl he)), fun he => hd (hwild (.inr he))⟩
    refine ⟨single (.arrayLike (.jsonArray f)) (.str ("%\"" ++ value ++ "\"%")), ?_, ?_⟩
    · cases hdialect : db.dialect with
      | postgres => exact absurd hdialect hd
      | _ => rfl
    · have hsearch := search_whole db.dialect m.Payload.Tags hword
      rw [PredicateExpr.FoundIn, if_neg hd]
      simp only [PredicateExpr.OccursIn]
      rw [← hsearch]
      exact answers_arrayLike hpath hcolumn _

/-- The search of a predicate. -/
def renderExists (d : DialectName) (f : Field) :
    PredicateExpr → Except String (Fragment Arg)
  | .equals value =>
      (buildExactMatch pure d f value : Except String (Fragment Arg)).map (wrapWithNullCheck f)
  | .startsWith text =>
      (buildExactMatch pure d f text : Except String (Fragment Arg)).map fun exactMatch =>
        wrapWithNullCheck f
          (exactMatch.either (buildJSONArrayLike (m := Id) pure f ("%\"" ++ text ++ "%")))
  | .endsWith suffix =>
      .ok (wrapWithNullCheck f
        (buildJSONArrayLike (m := Id) pure f ("%" ++ suffix ++ "\"%")))
  | .contains substring =>
      .ok (wrapWithNullCheck f
        (buildJSONArrayLike (m := Id) pure f ("%" ++ substring ++ "%")))

/-- The search of a plain argument selects the rows with tags in whose text it is found. -/
theorem selects_exists_iff {p : PredicateExpr} (hplain : p.Plain db.dialect) :
    Selects db (memoRow db.dialect username m) x p .exists ↔
      m.Payload.Tags ≠ [] ∧ p.FoundIn db.dialect m.Payload.Tags := by
  rcases field_tags with ⟨f, hfield, hkind, hpath, hcolumn⟩
  have hlookup : (liftM (lookupField newSchema "tags") : Except String Field) = .ok f := by
    rw [lookupField, hfield]
    rfl
  have hword : (∀ value, p ≠ .equals value) →
      ∀ c ∈ p.argument.toList, PlainChar c ∧ c ≠ '%' ∧ c ≠ '_' := by
    intro hnot c hc
    rcases hplain c hc with ⟨hchar, hwild⟩
    refine ⟨hchar, fun he => ?_, fun he => ?_⟩
    · rcases (hwild (.inl he)).2 with ⟨value, hvalue⟩
      exact hnot value hvalue
    · rcases (hwild (.inr he)).2 with ⟨value, hvalue⟩
      exact hnot value hvalue
  have hrender : (renderListComprehension pure newSchema db.dialect .exists "tags" p :
      Except String (Fragment Arg)) = renderExists db.dialect f p := by
    unfold renderListComprehension
    rw [hlookup]
    change (if f.kind ≠ .jsonList then _ else _) = _
    rw [if_neg (by simp [hkind])]
    cases p <;> rfl
  cases p with
  | equals value =>
      rcases @answers_exactMatch db username m f hpath hcolumn value
        (fun c hc => ⟨(hplain c hc).1, fun he => ((hplain c hc).2 he).1⟩) with
        ⟨fragment, hexact, hanswers⟩
      apply selects_wrapped hpath hcolumn _ hanswers
      rw [hrender, renderExists, hexact]
      rfl
  | startsWith text =>
      have hplainText := hword (by simp)
      rcases @answers_exactMatch db username m f hpath hcolumn text
        (fun c hc => ⟨(hplain c hc).1, fun he => ((hplain c hc).2 he).1⟩) with
        ⟨fragment, hexact, hanswers⟩
      have hlike := @answers_arrayLike db username m f hpath hcolumn
        ("%\"" ++ text ++ "%")
      rw [@search_start db.dialect m.Payload.Tags text hplainText] at hlike
      have heither := answers_either hanswers hlike
      have habsorb := or_iff_right_of_imp
        (@starts_of_whole db.dialect m.Payload.Tags text hplainText)
      rw [← habsorb]
      apply selects_wrapped hpath hcolumn _ heither
      rw [hrender, renderExists, hexact]
      rfl
  | endsWith suffix =>
      have hlike := @answers_arrayLike db username m f hpath hcolumn
        ("%" ++ suffix ++ "\"%")
      rw [@search_end db.dialect m.Payload.Tags suffix (hword (by simp))] at hlike
      apply selects_wrapped hpath hcolumn _ hlike
      rw [hrender]
      rfl
  | contains substring =>
      have hlike := @answers_arrayLike db username m f hpath hcolumn
        ("%" ++ substring ++ "%")
      rw [@search_within db.dialect m.Payload.Tags substring (hword (by simp))] at hlike
      apply selects_wrapped hpath hcolumn _ hlike
      rw [hrender]
      rfl

/-- Exactly one element satisfies the predicate, so one does. -/
theorem exists_of_selects_existsOne {row : Row} {p : PredicateExpr}
    (h : Selects db row x p .existsOne) : ∃ y ∈ iterated db row, ElementHolds db row p y := by
  rcases field_tags with ⟨f, hfield, hkind, hpath, hcolumn⟩
  have hlookup : (liftM (lookupField newSchema "tags") : Except String Field) = .ok f := by
    rw [lookupField, hfield]
    rfl
  let one : Fragment Arg := ⟨.oneElement (.jsonArray f) (elementFragment p).shape,
    (elementFragment p).slots, (elementFragment p).filled⟩
  have hrender : (renderListComprehension pure newSchema db.dialect .existsOne "tags" p :
      Except String (Fragment Arg)) = .ok one := by
    unfold renderListComprehension
    rw [hlookup]
    change (if f.kind ≠ .jsonList then _ else renderTagExistsOne pure f p) = _
    rw [if_neg (by simp [hkind])]
    unfold renderTagExistsOne
    rw [elementPredicateSQL_eq]
    rfl
  rw [selects_iff hrender] at h
  have hanswer : one.answer db row =
      (elementTable db.dialect ((SqlExpr.jsonArray f).eval db row .null)).bind fun elements =>
        (elements.mapM fun y =>
          (elementFragment p).shape.answer db row y (elementFragment p).slots).bind fun answers =>
            some (.ofBool (answers.count .holds = 1)) := rfl
  rw [hanswer] at h
  rcases Option.bind_eq_some_iff.mp h with ⟨elements, helements, hcount⟩
  rcases Option.bind_eq_some_iff.mp hcount with ⟨answers, hanswers, hone⟩
  have hmem : Truth.holds ∈ answers := by
    have hcount : answers.count .holds = 1 := by simpa using hone
    exact List.count_pos_iff.mp (by omega)
  rcases Traverse.exists_left (Traverse.mapM_some_iff.mp hanswers) _ hmem with ⟨y, hy, hholds⟩
  have hiterated : iterated db row = elements := by
    rw [iterated, hfield, Option.bind_some, helements]
    rfl
  rw [hiterated]
  exact ⟨y, hy, elementHolds_iff_fragment.mpr hholds⟩

/-- For a plain argument the search is dual to the iteration if and only if it is not misled. -/
theorem dual_iff_searchAgrees {p : PredicateExpr} (hplain : p.Plain db.dialect) :
    Dual db (memoRow db.dialect username m) x p ↔ p.SearchAgrees db m.Payload.Tags := by
  have hselects := @selects_exists_iff db username m x p hplain
  have helements := @exists_elementHolds_iff db username m p
  constructor
  · intro h
    have hboth := (hselects.symm.trans h.exists_iff).trans helements
    refine ⟨?_, ?_, ?_⟩
    · intro t ht hsatisfied
      rcases hboth.mpr ⟨t, ht, hsatisfied⟩ with ⟨hne, hfound⟩
      exact (foundIn_iff db.dialect hne p).mp hfound
    · intro t ht hwritten
      have hne := List.ne_nil_of_mem ht
      exact hboth.mp ⟨hne, (foundIn_iff db.dialect hne p).mpr (.inl ⟨t, ht, hwritten⟩)⟩
    · intro hne hfits
      exact hboth.mp ⟨hne, (foundIn_iff db.dialect hne p).mpr (.inr hfits)⟩
  · intro h
    have hiff : Selects db (memoRow db.dialect username m) x p .exists ↔
        ∃ y ∈ iterated db (memoRow db.dialect username m),
          ElementHolds db (memoRow db.dialect username m) p y := by
      rw [hselects, helements]
      constructor
      · rintro ⟨hne, hfound⟩
        rcases (foundIn_iff db.dialect hne p).mp hfound with ⟨t, ht, hwritten⟩ | hfits
        · exact h.satisfied t ht hwritten
        · exact h.between hne hfits
      · rintro ⟨t, ht, hsatisfied⟩
        have hne := List.ne_nil_of_mem ht
        exact ⟨hne, (foundIn_iff db.dialect hne p).mpr (h.found t ht hsatisfied)⟩
    refine ⟨hiff, ?_, fun hone => hiff.mpr (exists_of_selects_existsOne hone)⟩
    rw [hiff]
    constructor
    · rintro ⟨y, hy, hholds⟩
      exact ⟨List.ne_nil_of_mem hy, fun hall => hall y hy hholds⟩
    · rintro ⟨-, hnot⟩
      by_contra hnone
      exact hnot fun y hy hholds => hnone ⟨y, hy, hholds⟩

end Memo

/-- Tags without special characters, which MySQL reads whole and which do not differ from the argument
in case only: it stands in a tag where the predicate wants it exactly when the predicate holds. -/
structure PredicateExpr.SameCase (db : Server) (tags : List String) (p : PredicateExpr) : Prop where
  plain : ∀ t ∈ tags, ∀ c ∈ t.toList, PlainChar c
  short : db.dialect = .mysql → ∀ t ∈ tags, t.toList.length ≤ 512
  holds_iff : ∀ t ∈ tags, p.HoldsOf db t ↔ p.OccursIn (textSame db.dialect) t.toList

/-- Such tags do not mislead the search for an argument that fits into no bracket or separator. -/
theorem searchAgrees_of_sameCase {db : Server} {tags : List String} {p : PredicateExpr}
    (h : p.SameCase db tags) (hfits : ¬p.FitsBetween db.dialect tags.length) :
    p.SearchAgrees db tags := by
  refine ⟨?_, ?_, fun _ hbetween => absurd hbetween hfits⟩
  · intro t ht hsatisfied
    exact .inl ⟨t, ht, (written_plain (h.plain t ht) p).mpr ((h.holds_iff t ht).mp hsatisfied.2)⟩
  · intro t ht hwritten
    exact ⟨t, ht, fun hmysql => h.short hmysql t ht,
      (h.holds_iff t ht).mpr ((written_plain (h.plain t ht) p).mp hwritten)⟩

/-- For a plain argument, asking for some tag is dual to what the iteration asks if and only if the
case of the tags, their lengths, separators and brackets do not mislead the search; and they do not
if the tags are plain, short and in the case of the argument, which fits into no bracket or
separator. -/
theorem existential_dual_iff (db : Server) (username : Option String) (m : Store.Memo) (x : String)
    (p : PredicateExpr) :
    (p.Plain db.dialect ∧ p.SearchAgrees db m.Payload.Tags →
        Dual db (memoRow db.dialect username m) x p) ∧
      (p.Plain db.dialect → Dual db (memoRow db.dialect username m) x p →
        p.SearchAgrees db m.Payload.Tags) ∧
      (p.Plain db.dialect ∧ p.SameCase db m.Payload.Tags ∧
          ¬p.FitsBetween db.dialect m.Payload.Tags.length →
        Dual db (memoRow db.dialect username m) x p) := by
  refine ⟨fun h => (dual_iff_searchAgrees h.1).mpr h.2, fun h => (dual_iff_searchAgrees h).mp, ?_⟩
  rintro ⟨hplain, hcase, hfits⟩
  exact (dual_iff_searchAgrees hplain).mpr (searchAgrees_of_sameCase hcase hfits)

/-- A memo with tags. -/
def taggedMemo (tags : List String) : Store.Memo :=
  { ID := 1, UID := "a", CreatorID := 1, Payload := { Tags := tags } }

/-- The letters of a tag are found in it. -/
theorem existential_dual_iff_letters :
    Dual (exactServer .mysql) (memoRow .mysql none (taggedMemo ["work", "home"])) "t"
      (.contains "or") := by
  refine (existential_dual_iff (exactServer .mysql) none (taggedMemo ["work", "home"]) "t"
    (.contains "or")).2.2 ⟨?_, ⟨?_, fun _ => by decide, fun t _ => ?_⟩, ?_⟩
  · have hchars : ∀ c ∈ "or".toList, PlainChar c ∧ ¬(c = '%' ∨ c = '_') := by
      intro c hc
      have hletter : c = 'o' ∨ c = 'r' := by simpa using hc
      rcases hletter with rfl | rfl <;> decide
    exact fun c hc => ⟨(hchars c hc).1, fun he => absurd he (hchars c hc).2⟩
  · simp [taggedMemo, PlainChar]
  · have hsame : ∀ a b : Char, textSame .mysql a b = true ↔ a = b := by simp [textSame]
    refine (CaseFolding.occurs_exact .matchContains "or" t).trans ?_
    simp only [PredicateExpr.OccursIn, exactServer, Like.Alike, hsame, List.forall₂_eq_eq_eq,
      exists_eq_right]
  · simp only [PredicateExpr.FitsBetween]
    decide

/-- SQLite finds the tag {lit}`Work` for the argument {lit}`work`, and the comma between two tags,
though no tag is or contains either. -/
theorem found_outside_elements :
    ¬Dual (exactServer .sqlite) (memoRow .sqlite none (taggedMemo ["Work"])) "t" (.equals "work") ∧
      ¬Dual (exactServer .sqlite) (memoRow .sqlite none (taggedMemo ["a", "b"])) "t"
        (.contains ",") := by
  constructor
  · intro h
    have hselects : Selects (exactServer .sqlite) (memoRow .sqlite none (taggedMemo ["Work"])) "t"
        (.equals "work") .exists := by
      change _ = _
      decide +kernel
    rcases exists_elementHolds_iff _ |>.mp (h.exists_iff.mp hselects) with ⟨t, ht, -, hholds⟩
    cases List.mem_singleton.mp ht
    change compare "Work" "work" = .eq at hholds
    exact absurd hholds (by decide)
  · intro h
    have hselects : Selects (exactServer .sqlite) (memoRow .sqlite none (taggedMemo ["a", "b"])) "t"
        (.contains ",") .exists := by
      change _ = _
      decide +kernel
    rcases exists_elementHolds_iff _ |>.mp (h.exists_iff.mp hselects) with ⟨t, ht, -, hholds⟩
    have hinfix := (CaseFolding.occurs_exact .matchContains "," t).mp hholds
    rcases List.mem_cons.mp ht with rfl | ht
    · exact absurd hinfix (by decide)
    · rw [List.mem_singleton.mp ht] at hinfix
      exact absurd hinfix (by decide)

end Filter
end MemosNote
