import MemosNote.Filter.Bindings
import MemosNote.Filter.Parser
import MemosNote.Filter.Rows
import Mathlib.Data.List.Perm.Basic

/-!
# Lists and sets in filters

A filter tests whether a field is in a list of literals, and compares the tags of a memo with such
a list as sets.  A list test is rendered as one atom whose holes are filled by the values; a set
operation is rewritten to tests of single tags and of the number of tags.

Main results:

- Theorem {lit}`inList_answer_scalar`: a list test of a scalar is the disjunction of the equality
  tests of its values, unless the list is empty.
- Theorem {lit}`inList_denotes_tag`: a list test of tags asks for a tag that is one of the values,
  or below one, unless the list is empty.
- Theorem {lit}`setCondition_denotes`: a set operation relates the sets.
- Theorem {lit}`list_tests_denote_sets`: for which lists the rendered tests are the disjunctions
  and the set relations.
-/

namespace MemosNote
namespace Filter

open Library

/-! ## The answer of a condition -/

/-- What the statement of a condition answers on a row; a condition that does not render has no
answer. -/
def Condition.answer (schema : Schema) (db : Server) (row : Row) (c : Condition) : Option Truth :=
  match render schema db.dialect 0 c with
  | .ok stmt => stmt.answer db row
  | .error _ => none

section Atoms

variable {schema : Schema} {db : Server} {row : Row} {c : Condition} {f : Fragment Arg}

private theorem skeleton_atom (htree : c.tree = .atom c) :
    c.skeleton schema db.dialect = (Condition.atom schema db.dialect c).map Skeleton.atom := by
  rw [Condition.skeleton, htree]
  rfl

theorem Condition.answer_atom (htree : c.tree = .atom c)
    (h : Condition.atom schema db.dialect c = .ok f) :
    c.answer schema db row = f.answer db row := by
  have hskeleton := @skeleton_atom schema db c htree
  rw [h] at hskeleton
  have hanswer := Filter.answer_atom hskeleton row
  rw [Condition.answer]
  cases hrender : render schema db.dialect 0 c with
  | error message =>
      rw [hrender] at hanswer
      cases hanswer
  | ok stmt =>
      rw [hrender] at hanswer
      exact Except.ok.inj hanswer

/-- An atom that renders has a fragment, and its statement answers what the fragment answers. -/
theorem render_atom_inv {stmt : Statement} (htree : c.tree = .atom c)
    (h : render schema db.dialect 0 c = .ok stmt) :
    ∃ f, Condition.atom schema db.dialect c = .ok f ∧ stmt.answer db row = f.answer db row := by
  have hskeleton := @skeleton_atom schema db c htree
  cases hatom : Condition.atom schema db.dialect c with
  | error message =>
      rw [render_spec, hskeleton, hatom] at h
      cases h
  | ok f =>
      rw [hatom] at hskeleton
      have hanswer := Filter.answer_atom hskeleton row
      rw [h] at hanswer
      exact ⟨f, rfl, Except.ok.inj hanswer⟩

end Atoms

/-! ## List tests -/

/-- The equality test of one value of a list. -/
def equalityTest (name : String) (v : Literal) : Condition :=
  .comparison (.fieldRef name) .eq (.literal v)

/-- Some tag is the value, or lies below it. -/
def TagMatches (tags : List String) (s : String) : Prop :=
  ∃ t ∈ tags, t = s ∨ (s ++ "/").toList <+: t.toList

instance (tags : List String) (s : String) : Decidable (TagMatches tags s) :=
  inferInstanceAs (Decidable (∃ t ∈ tags, t = s ∨ (s ++ "/").toList <+: t.toList))

/-- A reading of single tests, carried on to disjunctions of them. -/
def Shape.readThrough (value : Test → Option Truth) : Shape → List Arg → Option Truth
  | .either p q, args => do
      return (← p.readThrough value (args.take p.arity)).disj
        (← q.readThrough value (args.drop p.arity))
  | .anyOf p count, args =>
      if count = 0 then none
      else disjAll <$> (List.range count).mapM fun i =>
        p.readThrough value ((args.drop (i * p.arity)).take p.arity)
  | s, args => value (s, args)

/-- The answers on a row are such a reading. -/
theorem readThrough_answer (db : Server) (row : Row) (s : Shape) (args : List Arg) :
    s.readThrough (Test.answer db row) args = s.answer db row .null args := by
  induction s generalizing args with
  | either p q hp hq => rw [Shape.readThrough, Shape.answer, hp, hq]
  | anyOf p count hp =>
      rw [Shape.readThrough, Shape.answer]
      simp only [hp]
  | _ => rfl

/-- A statement whose single tests are read. -/
def Statement.readBy (d : DialectName) (value : Test → Option Truth) (stmt : Statement) :
    Option Truth :=
  stmt.answerBy d fun t => t.1.readThrough value t.2

/-- A statement that is read by the answers on a row is answered on that row. -/
theorem readBy_answer (db : Server) (row : Row) (stmt : Statement) :
    stmt.readBy db.dialect (Test.answer db row) = stmt.answer db row := by
  have hvalue : (fun t : Test => t.1.readThrough (Test.answer db row) t.2) = Test.answer db row :=
    funext fun t => readThrough_answer db row t.1 t.2
  rw [Statement.readBy, hvalue]
  rfl

section Lists

variable {schema : Schema} {d : DialectName} {db : Server} {row : Row}

private theorem mapM_range {α β : Type} {f : ℕ → Option β} {g : α → Option β} (l : List α)
    (start : ℕ) (h : ∀ i (hi : i < l.length), f (start + i) = g l[i]) :
    (List.range' start l.length).mapM f = l.mapM g := by
  induction l generalizing start with
  | nil => rfl
  | cons a l ih =>
      have hhead : f start = g a := h 0 (by simp)
      have htail : (List.range' (start + 1) l.length).mapM f = l.mapM g := by
        apply ih
        intro i hi
        have hstep := h (i + 1) (by simpa using hi)
        rw [Nat.add_assoc, Nat.add_comm 1 i]
        exact hstep
      rw [List.length_cons, List.range'_succ, List.mapM_cons, List.mapM_cons, hhead, htail]

/-- The pair of slots of one value. -/
private theorem take_pair {σ : Type} (pairs : List (σ × σ)) (i : ℕ) (hi : i < pairs.length) :
    ((pairs.flatMap fun s => [s.1, s.2]).drop (i * 2)).take 2 = [pairs[i].1, pairs[i].2] := by
  induction pairs generalizing i with
  | nil => exact absurd hi (by simp)
  | cons pair pairs ih =>
      cases i with
      | zero => simp
      | succ i =>
          have hdrop : (i + 1) * 2 = i * 2 + 2 := by omega
          simp only [List.flatMap_cons, hdrop, List.cons_append, List.nil_append,
            List.drop_succ_cons, List.getElem_cons_succ]
          exact ih i (by simpa using hi)

/-- The reading of one pair of tag tests. -/
private def pairAnswer (d : DialectName) (field : Field) (value : Test → Option Truth)
    (pair : Arg × Arg) : Option Truth :=
  (Shape.either (exactTagShape d field) (.arrayLike (.jsonArray field))).readThrough value
    [pair.1, pair.2]

private theorem disjAll_singleton (t : Truth) : disjAll [t] = t := by
  simp [disjAll]

/-- A disjunction of tag tests has the readings of its tests; an empty one has none. -/
private theorem tagListFragment_reading (d : DialectName) (field : Field)
    (value : Test → Option Truth) (pairs : List (Arg × Arg)) :
    (tagListFragment d field pairs).shape.readThrough value (tagListFragment d field pairs).slots =
      if pairs = [] then none else disjAll <$> pairs.mapM (pairAnswer d field value) := by
  match pairs with
  | [] => rfl
  | [pair] =>
      have hsingle : (tagListFragment d field [pair]).shape.readThrough value
          (tagListFragment d field [pair]).slots = pairAnswer d field value pair := rfl
      have hlist : [pair].mapM (pairAnswer d field value) =
          (pairAnswer d field value pair).map fun t => [t] := by
        rw [List.mapM_cons]
        cases pairAnswer d field value pair <;> rfl
      rw [hsingle, hlist, if_neg (by simp)]
      cases pairAnswer d field value pair with
      | none => rfl
      | some t => exact congrArg some (disjAll_singleton t).symm
  | first :: second :: rest =>
      have harity : (Shape.either (exactTagShape d field)
          (.arrayLike (.jsonArray field))).arity = 2 := by
        simp [Shape.arity, arity_exactTagShape]
      have hany : (tagListFragment d field (first :: second :: rest)).shape.readThrough value
          (tagListFragment d field (first :: second :: rest)).slots =
          (disjAll <$> (List.range (first :: second :: rest).length).mapM fun i =>
            (Shape.either (exactTagShape d field) (.arrayLike (.jsonArray field))).readThrough
              value
              ((((first :: second :: rest).flatMap fun s => [s.1, s.2]).drop (i *
                (Shape.either (exactTagShape d field)
                  (.arrayLike (.jsonArray field))).arity)).take
                (Shape.either (exactTagShape d field)
                  (.arrayLike (.jsonArray field))).arity)) := rfl
      rw [hany, if_neg (by simp), harity, List.range_eq_range']
      congr 1
      apply mapM_range
      intro i hi
      rw [Nat.zero_add, take_pair _ i hi]
      rfl

/-- The two values bound for a tag. -/
private def tagPair (d : DialectName) (s : String) : Arg × Arg :=
  (.str (exactTagText d s), .str ("%\"" ++ s ++ "/%"))

/-- The values bound for a list of tags. -/
private def tagPairs (d : DialectName) (values : List ValueExpr) :
    Except String (List (Arg × Arg)) :=
  renderTagValues pure d values

private theorem tagPairs_cons (d : DialectName) (s : String) (values : List ValueExpr) :
    tagPairs d (.literal (.str s) :: values) =
      (tagPairs d values).bind fun rest => .ok (tagPair d s :: rest) :=
  rfl

private theorem tagPairs_inv {d : DialectName} {values : List Literal} {pairs : List (Arg × Arg)}
    (h : tagPairs d (values.map .literal) = .ok pairs) :
    ∃ strs : List String, values = strs.map .str ∧ pairs = strs.map (tagPair d) := by
  induction values generalizing pairs with
  | nil =>
      cases h
      exact ⟨[], rfl, rfl⟩
  | cons v values ih =>
      cases v with
      | str s =>
          rw [List.map_cons, tagPairs_cons] at h
          rcases bind_ok h with ⟨rest, hrest, hpairs⟩
          rcases ih hrest with ⟨strs, rfl, rfl⟩
          cases hpairs
          exact ⟨s :: strs, rfl, rfl⟩
      | _ => cases h

private theorem atom_tag (values : List ValueExpr) :
    Condition.atom schema d (.inList (.fieldRef "tag") values) =
      (schema.resolveAlias "tag").elim (.error "tag attribute is not configured") fun field =>
        (tagPairs d values).bind fun slots => .ok (tagListFragment d field slots) := by
  have hrender : Condition.atom schema d (.inList (.fieldRef "tag") values) =
      renderTagInList pure schema d values := rfl
  rw [hrender, renderTagInList]
  cases schema.resolveAlias "tag" <;> rfl

/-- A list of tags that renders is a list of strings, and is read as the disjunction of the pairs of
tests of its values, unless it is empty. -/
private theorem inList_reading_tag {values : List Literal} {stmt : Statement}
    (h : render schema d 0 (.inList (.fieldRef "tag") (values.map .literal)) = .ok stmt) :
    ∃ field strs, schema.resolveAlias "tag" = some field ∧ values = strs.map .str ∧
      ∀ value, stmt.readBy d value =
        if strs = [] then none
        else disjAll <$> strs.mapM fun s => pairAnswer d field value (tagPair d s) := by
  have hskeleton : (Condition.inList (.fieldRef "tag") (values.map .literal)).skeleton schema d =
      (Condition.atom schema d (.inList (.fieldRef "tag") (values.map .literal))).map
        Skeleton.atom := rfl
  rw [atom_tag] at hskeleton
  cases halias : schema.resolveAlias "tag" with
  | none =>
      rw [render_spec, hskeleton, halias] at h
      cases h
  | some field =>
      rw [halias, Option.elim] at hskeleton
      cases hpairs : tagPairs d (values.map .literal) with
      | error message =>
          rw [render_spec, hskeleton, hpairs] at h
          cases h
      | ok pairs =>
          rcases tagPairs_inv hpairs with ⟨strs, rfl, rfl⟩
          rw [hpairs] at hskeleton
          refine ⟨field, strs, rfl, rfl, fun value => ?_⟩
          have hanswer := answerBy_render hskeleton trivial fun t => t.1.readThrough value t.2
          rw [h] at hanswer
          rw [Statement.readBy, Except.ok.inj hanswer]
          refine (tagListFragment_reading d field value _).trans ?_
          simp only [List.map_eq_nil_iff, List.mapM_map, Function.comp_def]

/-- The values bound for a list of scalars. -/
private def scalarValues (field : Field) (values : List ValueExpr) : Except String (List Arg) :=
  renderInValues pure field values

private theorem scalarValues_cons (field : Field) (v : Literal) (values : List ValueExpr) :
    scalarValues field (.literal v :: values) =
      (scalarInArg field v).bind fun a => (scalarValues field values).bind fun rest =>
        .ok (a :: rest) :=
  rfl

/-- A value of a list is compared as the same value on its own. -/
private theorem scalarArg_of_scalarInArg {field : Field} {v : Literal} {a : Arg}
    (h : scalarInArg field v = .ok a) : v ≠ .null ∧ scalarArg field v = .ok a := by
  have hnum : ∀ num : Int64, toInt64 v = .ok num → v ≠ .null := by
    rintro num hnum rfl
    cases hnum
  unfold scalarInArg at h
  unfold scalarArg
  cases htype : field.type with
  | string =>
      simp only [htype] at h
      cases v with
      | str s => exact ⟨by simp, h⟩
      | _ => cases h
  | int =>
      simp only [htype] at h
      cases hint : toInt64 v with
      | error e =>
          rw [hint] at h
          cases h
      | ok num =>
          rw [hint] at h
          refine ⟨hnum num hint, ?_⟩
          simp only [hint]
          exact h
  | _ =>
      simp only [htype] at h
      cases h

private theorem atom_scalarList {name : String} (hname : name ≠ "tag") (values : List ValueExpr) :
    Condition.atom schema db.dialect (.inList (.fieldRef name) values) =
      (lookupField schema name).bind fun field =>
        if field.kind ≠ .scalar then .error ("field " ++ quoteName name ++ " does not support IN()")
        else (scalarValues field values).bind fun args =>
          .ok ⟨.inList (.columnExpr field) args.length, args, rfl⟩ := by
  have hatom : Condition.atom schema db.dialect (.inList (.fieldRef name) values) =
      renderInCondition (m := Except String) pure schema db.dialect (.fieldRef name) values := rfl
  rw [hatom, renderInCondition, if_neg hname]
  rfl

/-- The equality test of a value of a list. -/
private theorem equalityTest_answer {name : String} {field : Field}
    (hfield : lookupField schema name = .ok field) (hkind : field.kind = .scalar) {v : Literal}
    {a : Arg} (ha : scalarInArg field v = .ok a) :
    (equalityTest name v).answer schema db row =
      compareData db .eq ((SqlExpr.columnExpr field).eval db row .null) (a.datum db.dialect) := by
  rcases scalarArg_of_scalarInArg ha with ⟨hnull, harg⟩
  have hcomparison : renderComparison (m := Except String) pure schema db.dialect (.fieldRef name)
      .eq (.literal v) = renderScalarComparison pure field .eq (.literal v) := by
    unfold renderComparison
    change (lookupField schema name).bind _ = _
    rw [hfield]
    rcases field with ⟨name, kind, type⟩
    cases hkind
    rfl
  have hscalar : renderScalarComparison (m := Except String) pure field .eq (.literal v) =
      if v = .null then .ok (fixed (.isNull (.columnExpr field)))
      else (scalarArg field v).bind fun value =>
        .ok (single (.compare (.columnExpr field) .eq) value) := rfl
  have hatom : Condition.atom schema db.dialect (.comparison (.fieldRef name) .eq (.literal v)) =
      .ok (single (.compare (.columnExpr field) .eq) a) := by
    change renderComparison pure schema db.dialect (.fieldRef name) .eq (.literal v) = _
    rw [hcomparison, hscalar, if_neg hnull, harg]
    rfl
  rw [equalityTest, Condition.answer_atom rfl hatom]
  rfl

private theorem scalarValues_answers {name : String} {field : Field}
    (hfield : lookupField schema name = .ok field) (hkind : field.kind = .scalar)
    {values : List Literal} {args : List Arg}
    (h : scalarValues field (values.map .literal) = .ok args) :
    (args = [] ↔ values = []) ∧
      (args.mapM fun a => compareData db .eq ((SqlExpr.columnExpr field).eval db row .null)
        (a.datum db.dialect)) =
      values.mapM fun v => (equalityTest name v).answer schema db row := by
  induction values generalizing args with
  | nil =>
      cases h
      exact ⟨by simp, rfl⟩
  | cons v values ih =>
      rw [List.map_cons, scalarValues_cons] at h
      rcases bind_ok h with ⟨a, ha, hargs⟩
      rcases bind_ok hargs with ⟨rest, hrest, hcons⟩
      cases hcons
      refine ⟨by simp, ?_⟩
      rw [List.mapM_cons, List.mapM_cons, (ih hrest).2, equalityTest_answer hfield hkind ha]

/-- A list of scalars is the disjunction of the equality tests of its values; no database but
SQLite reads an empty list. -/
theorem inList_answer_scalar {name : String} (hname : name ≠ "tag") {values : List Literal}
    {stmt : Statement}
    (h : render schema db.dialect 0 (.inList (.fieldRef name) (values.map .literal)) = .ok stmt) :
    stmt.answer db row =
      if values = [] ∧ db.dialect ≠ .sqlite then none
      else disjAll <$> values.mapM fun v => (equalityTest name v).answer schema db row := by
  rcases @render_atom_inv schema db row _ _ rfl h with ⟨f, hatom, hanswer⟩
  rw [atom_scalarList hname] at hatom
  rcases bind_ok hatom with ⟨field, hfield, hrender⟩
  by_cases hkind : field.kind = .scalar
  · rw [if_neg (by simp [hkind])] at hrender
    rcases bind_ok hrender with ⟨args, hargs, hf⟩
    cases hf
    rcases @scalarValues_answers schema db row name field hfield hkind values args hargs with
      ⟨hempty, hanswers⟩
    have hshape : (⟨.inList (.columnExpr field) args.length, args, rfl⟩ : Fragment Arg).answer db
        row =
          if args = [] ∧ db.dialect ≠ .sqlite then none
          else disjAll <$> args.mapM fun a =>
            compareData db .eq ((SqlExpr.columnExpr field).eval db row .null)
              (a.datum db.dialect) := rfl
    rw [hanswer, hshape, hanswers]
    simp only [hempty]
  · rw [if_pos hkind] at hrender
    cases hrender

end Lists

/-! ## Distinct values -/

/-- The tags of a memo are kept without repetitions. -/
def uniquePreserveCase (strs : List String) : List String :=
  distinctStrings strs

private theorem distinctStrings_concat (values : List String) (v : String) :
    distinctStrings (values ++ [v]) =
      if v ∈ distinctStrings values then distinctStrings values
      else distinctStrings values ++ [v] := by
  rw [distinctStrings, List.foldl_append]
  rfl

private theorem mem_distinctStrings (values : List String) (s : String) :
    s ∈ distinctStrings values ↔ s ∈ values := by
  induction values using List.reverseRecOn with
  | nil => simp [distinctStrings]
  | append_singleton values v ih =>
      rw [distinctStrings_concat]
      by_cases hv : v ∈ distinctStrings values
      · rw [if_pos hv, ih, List.mem_append, List.mem_singleton]
        constructor
        · exact .inl
        · rintro (hs | rfl)
          · exact hs
          · exact ih.mp hv
      · rw [if_neg hv, List.mem_append, List.mem_append, ih]

theorem nodup_distinctStrings (values : List String) : (distinctStrings values).Nodup := by
  induction values using List.reverseRecOn with
  | nil => simp [distinctStrings]
  | append_singleton values v ih =>
      rw [distinctStrings_concat]
      by_cases hv : v ∈ distinctStrings values
      · rw [if_pos hv]
        exact ih
      · rw [if_neg hv, ← List.concat_eq_append]
        exact ih.concat hv

/-- Of two lists without repetitions, one that is contained in the other and as long has the same
elements. -/
private theorem same_elements {l m : List String} (hl : l.Nodup) (hm : m.Nodup) :
    ((∀ v ∈ l, v ∈ m) ∧ m.length = l.length) ↔ ∀ v, v ∈ m ↔ v ∈ l := by
  constructor
  · rintro ⟨hsub, hlength⟩ v
    have hperm : l.Perm m :=
      (List.subperm_of_subset hl hsub).perm_of_length_le hlength.le
    exact (hperm.mem_iff).symm
  · intro h
    refine ⟨fun v hv => (h v).mpr hv, ?_⟩
    apply Nat.le_antisymm
    · exact (List.subperm_of_subset hm fun v hv => (h v).mp hv).length_le
    · exact (List.subperm_of_subset hl fun v hv => (h v).mpr hv).length_le

/-! ## Set operations -/

/-- The set operations of the filter language. -/
inductive SetFunction where
  | contains
  | intersects
  | equivalent
deriving DecidableEq, Repr

/-- The name of a set operation in a filter. -/
def SetFunction.toName : SetFunction → String
  | contains => "sets.contains"
  | intersects => "sets.intersects"
  | equivalent => "sets.equivalent"

/-- The relation of sets that an operation names. -/
def SetFunction.Relates (function : SetFunction) (tags values : List String) : Prop :=
  match function with
  | contains => ∀ v ∈ values, v ∈ tags
  | intersects => ∃ v ∈ values, v ∈ tags
  | equivalent => ∀ v, v ∈ tags ↔ v ∈ values

/-- Single tags are tested exactly, and the number of tags is counted. -/
structure ReadsTags (d : DialectName) (field : Field) (tags : List String)
    (value : Test → Option Truth) : Prop where
  constant : ∀ b, value (.constant b, []) = some (.ofBool b)
  member : ∀ s, value (exactTagShape d field, [.str (exactTagText d s)]) =
    some (.ofBool (s ∈ tags))
  size : ∀ op n, value (.compare (.jsonArrayLength field) op, [.int n]) =
    some (.ofBool (op.test (compare (tags.length : ℤ) n.toInt)))

/-- The tags below a single tag are found as well. -/
structure ReadsTagTree (d : DialectName) (field : Field) (tags : List String)
    (value : Test → Option Truth) : Prop extends ReadsTags d field tags value where
  below : ∀ s, value (.arrayLike (.jsonArray field), [.str ("%\"" ++ s ++ "/%")]) =
    some (.ofBool (∃ t ∈ tags, (s ++ "/").toList <+: t.toList))

/-- Where single tags are read, the pair of tests of a value asks for a tag that matches it. -/
private theorem pairAnswer_tagPair {d : DialectName} {field : Field} {tags : List String}
    {value : Test → Option Truth} (h : ReadsTagTree d field tags value) (s : String) :
    pairAnswer d field value (tagPair d s) = some (.ofBool (TagMatches tags s)) := by
  have hpair : pairAnswer d field value (tagPair d s) =
      (value (exactTagShape d field, [.str (exactTagText d s)])).bind fun t =>
        (value (.arrayLike (.jsonArray field), [.str ("%\"" ++ s ++ "/%")])).bind fun u =>
          some (t.disj u) := by
    cases d <;> rfl
  have hmatches : TagMatches tags s ↔
      s ∈ tags ∨ ∃ t ∈ tags, (s ++ "/").toList <+: t.toList := by
    simp only [TagMatches, and_or_left, exists_or, exists_eq_right]
  rw [hpair, h.member, h.below, Option.bind_some, Option.bind_some]
  simp only [hmatches]
  by_cases hmember : s ∈ tags
  · simp [hmember]
  · simp [hmember]

private theorem disjAll_ofBool {α : Type} (p : α → Prop) [DecidablePred p] (l : List α) :
    disjAll (l.map fun a => .ofBool (p a)) = .ofBool (∃ a ∈ l, p a) := by
  induction l with
  | nil => simp [disjAll]
  | cons a l ih =>
      rw [List.map_cons, disjAll, List.foldr_cons, ← disjAll, ih]
      by_cases ha : p a <;> by_cases hl : ∃ b ∈ l, p b <;> simp [ha, hl]

/-- A list test of tags that renders is one of strings.  Where single tags are read, it asks for a
tag that matches one of them if and only if the list is not empty. -/
theorem inList_denotes_tag {schema : Schema} {d : DialectName} {values : List Literal}
    {stmt : Statement}
    (h : render schema d 0 (.inList (.fieldRef "tag") (values.map .literal)) = .ok stmt) :
    ∃ field strs, schema.resolveAlias "tag" = some field ∧ values = strs.map .str ∧
      ∀ (tags : List String) (value : Test → Option Truth), ReadsTagTree d field tags value →
        (stmt.readBy d value = some (.ofBool (∃ s ∈ strs, TagMatches tags s)) ↔ strs ≠ []) := by
  rcases inList_reading_tag h with ⟨field, strs, halias, hvalues, hreading⟩
  refine ⟨field, strs, halias, hvalues, fun tags value hreads => ?_⟩
  have hpairs : (strs.mapM fun s => pairAnswer d field value (tagPair d s)) =
      some (strs.map fun s => .ofBool (TagMatches tags s)) := by
    simp only [pairAnswer_tagPair hreads]
    exact List.mapM_pure
  rw [hreading, hpairs]
  by_cases hempty : strs = []
  · rw [if_pos hempty]
    simp [hempty]
  · rw [if_neg hempty]
    simp only [ne_eq, hempty, not_false_eq_true, iff_true]
    exact congrArg some (disjAll_ofBool (TagMatches tags) strs)

/-- A condition without constants whose tests come out as a boolean. -/
private def Says (schema : Schema) (d : DialectName) (value : Test → Option Truth) (c : Condition)
    (b : Bool) : Prop :=
  ∃ t, c.skeleton schema d = .ok t ∧ t.ConstantFree ∧ exprAnswer value t.expr = some (.ofBool b)

section Sets

variable {schema : Schema} {d : DialectName} {value : Test → Option Truth} {name : String}
  {field : Field} {tags : List String}

private theorem Says.and {l r : Condition} {a b : Bool} (hl : Says schema d value l a)
    (hr : Says schema d value r b) : Says schema d value (.logical .and l r) (a && b) := by
  rcases hl with ⟨tl, hskell, hfreel, hvall⟩
  rcases hr with ⟨tr, hskelr, hfreer, hvalr⟩
  have hskel : (Condition.logical .and l r).skeleton schema d =
      (l.skeleton schema d).bind fun x => (r.skeleton schema d).bind fun y => .ok (.and x y) := rfl
  refine ⟨.and tl tr, ?_, ⟨hfreel, hfreer⟩, ?_⟩
  · rw [hskel, hskell, hskelr]
    rfl
  · rw [Skeleton.expr, exprAnswer, hvall, hvalr]
    cases a <;> cases b <;> rfl

private theorem Says.or {l r : Condition} {a b : Bool} (hl : Says schema d value l a)
    (hr : Says schema d value r b) : Says schema d value (.logical .or l r) (a || b) := by
  rcases hl with ⟨tl, hskell, hfreel, hvall⟩
  rcases hr with ⟨tr, hskelr, hfreer, hvalr⟩
  have hskel : (Condition.logical .or l r).skeleton schema d =
      (l.skeleton schema d).bind fun x => (r.skeleton schema d).bind fun y => .ok (.or x y) := rfl
  refine ⟨.or tl tr, ?_, ⟨hfreel, hfreer⟩, ?_⟩
  · rw [hskel, hskell, hskelr]
    rfl
  · rw [Skeleton.expr, exprAnswer, hvall, hvalr]
    cases a <;> cases b <;> rfl

/-- A combined list of conditions says what its members say together. -/
private theorem Says.combineAnd {α : Type} {f : α → Condition} {g : α → Bool}
    (h : ∀ a, Says schema d value (f a) (g a)) (a : α) (as : List α) :
    Says schema d value (combineConditions .and (f a) (as.map f)) ((a :: as).all g) := by
  have hfold : ∀ (as : List α) (c : Condition) (b : Bool), Says schema d value c b →
      Says schema d value (combineConditions .and c (as.map f)) (b && as.all g) := by
    intro as
    induction as with
    | nil =>
        intro c b hc
        rw [List.all_nil, Bool.and_true]
        exact hc
    | cons a as ih =>
        intro c b hc
        have hstep := ih _ _ (hc.and (h a))
        rw [Bool.and_assoc] at hstep
        exact hstep
  exact hfold as (f a) (g a) (h a)

private theorem Says.combineOr {α : Type} {f : α → Condition} {g : α → Bool}
    (h : ∀ a, Says schema d value (f a) (g a)) (a : α) (as : List α) :
    Says schema d value (combineConditions .or (f a) (as.map f)) ((a :: as).any g) := by
  have hfold : ∀ (as : List α) (c : Condition) (b : Bool), Says schema d value c b →
      Says schema d value (combineConditions .or c (as.map f)) (b || as.any g) := by
    intro as
    induction as with
    | nil =>
        intro c b hc
        rw [List.any_nil, Bool.or_false]
        exact hc
    | cons a as ih =>
        intro c b hc
        have hstep := ih _ _ (hc.or (h a))
        rw [Bool.or_assoc] at hstep
        exact hstep
  exact hfold as (f a) (g a) (h a)

/-- What is said is what the statement answers. -/
private theorem Says.answerBy {c : Condition} {b : Bool} (h : Says schema d value c b) :
    ∃ stmt, render schema d 0 c = .ok stmt ∧ stmt.answerBy d value = some (.ofBool b) := by
  rcases h with ⟨t, hskel, hfree, hval⟩
  have hanswer := answerBy_render hskel hfree value
  rw [hval] at hanswer
  cases hrender : render schema d 0 c with
  | error message =>
      rw [hrender] at hanswer
      cases hanswer
  | ok stmt =>
      rw [hrender] at hanswer
      exact ⟨stmt, rfl, Except.ok.inj hanswer⟩

private theorem lookupField_of_field (h : schema.field name = some field) :
    lookupField schema name = .ok field := by
  rw [lookupField, h]
  rfl

private theorem says_atom {c : Condition} {f : Fragment Arg} {b : Bool} (htree : c.tree = .atom c)
    (hatom : Condition.atom schema d c = .ok f)
    (hval : value (f.shape, f.slots) = some (.ofBool b)) : Says schema d value c b := by
  refine ⟨.atom f, ?_, trivial, hval⟩
  rw [Condition.skeleton, htree, Skeleton.mapM, hatom]
  rfl

/-- A single tag is tested exactly. -/
private theorem says_membership (hfield : schema.field name = some field)
    (hkind : field.kind = .jsonList) (hreads : ReadsTags d field tags value) (s : String) :
    Says schema d value (membership name s) (s ∈ tags) := by
  have hrender : Condition.atom schema d (membership name s) =
      (lookupField schema name).bind fun field =>
        if field.kind ≠ .jsonList then .error ("field " ++ quoteName name ++ " is not a tag list")
        else .ok (single (exactTagShape d field) (.str (exactTagText d s))
          (arity_exactTagShape d field)) := rfl
  have hatom : Condition.atom schema d (membership name s) =
      .ok (single (exactTagShape d field) (.str (exactTagText d s))
        (arity_exactTagShape d field)) := by
    rw [hrender, lookupField_of_field hfield, Except.bind, if_neg (by simp [hkind])]
  exact says_atom rfl hatom (hreads.member s)

/-- The number of tags is counted. -/
private theorem says_sizeEquals (hfield : schema.field name = some field)
    (hkind : field.kind = .jsonList) (hreads : ReadsTags d field tags value) {n : ℕ}
    (hn : n < 2 ^ 63) : Says schema d value (sizeEquals name n) (tags.length = n) := by
  have hrender : Condition.atom schema d (sizeEquals name n) =
      (sizeField schema name).bind fun field => (sizeExpr field).bind fun expr =>
        .ok (single (.compare expr .eq) (.int (Int64.ofNat n))) := rfl
  have hsize : sizeField schema name = .ok field := by
    unfold sizeField
    rw [lookupField_of_field hfield]
    exact if_neg (by simp [hkind])
  have hatom : Condition.atom schema d (sizeEquals name n) =
      .ok (single (.compare (.jsonArrayLength field) .eq) (.int (Int64.ofNat n))) := by
    have hexpr : sizeExpr field = .ok (.jsonArrayLength field) := if_pos hkind
    rw [hrender, hsize, Except.bind, hexpr]
    rfl
  have htest : ComparisonOperator.eq.test (compare (tags.length : ℤ) (Int64.ofNat n).toInt) =
      decide (tags.length = n) := by
    rw [Int64.toInt_ofNat_of_lt hn, ComparisonOperator.test, decide_eq_decide, compare_eq_iff_eq]
    exact Int.ofNat_inj
  have hval := hreads.size .eq (Int64.ofNat n)
  rw [htest] at hval
  exact says_atom rfl hatom hval

/-- The rendered set operation holds exactly when the sets are so related. -/
theorem setCondition_denotes (hfield : schema.field name = some field)
    (hkind : field.kind = .jsonList) (hreads : ReadsTags d field tags value)
    (htags : tags.Nodup) (function : SetFunction) {values : List String}
    (hlength : values.length < 2 ^ 63) :
    ∃ c stmt, setCondition function.toName name values = .ok c ∧
      render schema d 0 c = .ok stmt ∧
        (stmt.answerBy d value = some .holds ↔ function.Relates tags values) := by
  have hsays : ∀ {c : Condition} {b : Bool}, Says schema d value c b →
      ∃ stmt, render schema d 0 c = .ok stmt ∧
        (stmt.answerBy d value = some .holds ↔ b = true) := by
    intro c b h
    rcases h.answerBy with ⟨stmt, hrender, hanswer⟩
    exact ⟨stmt, hrender, by rw [hanswer]; simp⟩
  have hmember := says_membership hfield hkind hreads
  cases function with
  | contains =>
      cases values with
      | nil => exact ⟨.constant true, _, rfl, rfl, by simp [SetFunction.Relates]; rfl⟩
      | cons v vs =>
          rcases hsays (Says.combineAnd hmember v vs) with ⟨stmt, hrender, hanswer⟩
          refine ⟨_, stmt, rfl, hrender, hanswer.trans ?_⟩
          simp [SetFunction.Relates]
  | intersects =>
      cases values with
      | nil =>
          have hnever : (Statement.mk RenderResult.never.sql []).answerBy d value =
              some .fails := by
            have hanswer : (Statement.mk RenderResult.never.sql []).answerBy d value =
                value (.constant false, []) := rfl
            rw [hanswer, hreads.constant]
            rfl
          refine ⟨.constant false, ⟨RenderResult.never.sql, []⟩, rfl, rfl, ?_⟩
          rw [hnever]
          simp [SetFunction.Relates]
      | cons v vs =>
          rcases hsays (Says.combineOr hmember v vs) with ⟨stmt, hrender, hanswer⟩
          refine ⟨_, stmt, rfl, hrender, hanswer.trans ?_⟩
          simp [SetFunction.Relates]
  | equivalent =>
      have hdistinct := nodup_distinctStrings values
      have hmem := mem_distinctStrings values
      have hbound : (distinctStrings values).length < 2 ^ 63 :=
        (List.subperm_of_subset hdistinct fun v hv => (hmem v).mp hv).length_le.trans_lt hlength
      have hrelates : SetFunction.equivalent.Relates tags values ↔
          (∀ v ∈ distinctStrings values, v ∈ tags) ∧
            tags.length = (distinctStrings values).length := by
        rw [same_elements hdistinct htags]
        simp only [SetFunction.Relates, hmem]
      rw [hrelates]
      cases hcases : distinctStrings values with
      | nil =>
          have hzero := says_sizeEquals hfield hkind hreads (n := 0) (by decide)
          rcases hsays hzero with ⟨stmt, hrender, hanswer⟩
          refine ⟨sizeEquals name 0, stmt, ?_, hrender, hanswer.trans ?_⟩
          · simp only [SetFunction.toName, setCondition, hcases]
            rfl
          · simp
      | cons v vs =>
          rw [hcases] at hbound
          have hsize := says_sizeEquals hfield hkind hreads hbound
          rcases hsays ((Says.combineAnd hmember v vs).and hsize) with ⟨stmt, hrender, hanswer⟩
          refine ⟨_, stmt, ?_, hrender, hanswer.trans ?_⟩
          · simp only [SetFunction.toName, setCondition, hcases]
            rfl
          · simp

end Sets

/-- A list of the source program has fewer than {lit}`2 ^ 63` elements. -/
abbrev GoSlice (α : Type) := {l : List α // l.length < 2 ^ 63}

/-- A rendered list test of a scalar is the disjunction of the equality tests of its values, with no
row for the empty list, if and only if the list is not empty or SQLite is asked.  A rendered list
test of tags holds if some tag is one of the values or below one, and fails otherwise, if and only
if the list is not empty.  A rendered set operation holds if and only if the set of tags and the set
of the values are so related. -/
theorem list_tests_denote_sets (schema : Schema) (db : Server) :
    (∀ (row : Row) (name : String), name ≠ "tag" → ∀ (values : List Literal) (stmt : Statement),
      render schema db.dialect 0 (.inList (.fieldRef name) (values.map .literal)) = .ok stmt →
        ((stmt.answer db row =
            disjAll <$> values.mapM fun v => (equalityTest name v).answer schema db row) ↔
          values ≠ [] ∨ db.dialect = .sqlite)) ∧
      (∀ (values : List Literal) (stmt : Statement),
        render schema db.dialect 0 (.inList (.fieldRef "tag") (values.map .literal)) = .ok stmt →
          ∃ field strs, schema.resolveAlias "tag" = some field ∧ values = strs.map .str ∧
            ∀ (tags : List String) (value : Test → Option Truth),
              ReadsTagTree db.dialect field tags value →
                (stmt.readBy db.dialect value = some (.ofBool (∃ s ∈ strs, TagMatches tags s)) ↔
                  strs ≠ [])) ∧
      ∀ (name : String) (field : Field), schema.field name = some field →
        field.kind = .jsonList →
          ∀ (function : SetFunction) (found : List String) (values : GoSlice String)
            (value : Test → Option Truth),
            ReadsTags db.dialect field (uniquePreserveCase found) value →
              ∃ c stmt, setCondition function.toName name values.1 = .ok c ∧
                render schema db.dialect 0 c = .ok stmt ∧
                  (stmt.answerBy db.dialect value = some .holds ↔
                    function.Relates (uniquePreserveCase found) values.1) := by
  refine ⟨fun row name hname values stmt h => ?_, fun values stmt h => inList_denotes_tag h, ?_⟩
  · have hanswer := @inList_answer_scalar schema db row name hname values stmt h
    by_cases hempty : values = [] ∧ db.dialect ≠ .sqlite
    · rw [hanswer, if_pos hempty, hempty.1]
      simp [disjAll, hempty.2]
    · rw [hanswer, if_neg hempty]
      simp only [true_iff]
      by_cases hnil : values = []
      · exact .inr (by_contra fun hd => hempty ⟨hnil, hd⟩)
      · exact .inl hnil
  · intro name field hfield hkind function found values value hreads
    exact setCondition_denotes hfield hkind hreads (nodup_distinctStrings found) function values.2

/-- The values bound for two tags differ. -/
private theorem exactTagText_injective (d : DialectName) (s t : String) :
    exactTagText d s = exactTagText d t ↔ s = t := by
  constructor
  · intro h
    have hlist := congrArg String.toList h
    apply String.toList_inj.mp
    cases d <;> simpa [exactTagText] using hlist
  · rintro rfl
    rfl

/-- A reading of the tests of tags: a text is one of those that ask for a tag, or one of those that
ask for the parent of a tag. -/
def tagReading (d : DialectName) (tags : List String) : Test → Option Truth
  | (.constant b, []) => some (.ofBool b)
  | (.compare (.jsonArrayLength _) op, [.int n]) =>
      some (.ofBool (op.test (compare (tags.length : ℤ) n.toInt)))
  | (_, [.str text]) => some (.ofBool (text ∈ tags.map (exactTagText d) ∨
      ∃ t ∈ tags, ∃ parent ∈ t.toList.inits, parent.getLast? = some '/' ∧
        text = "%\"" ++ String.ofList parent ++ "%"))
  | _ => none

/-- The text for a tag has a quote where the text for a parent has a slash. -/
private theorem exactTagText_ne_parent (d : DialectName) (s : String) {parent : List Char}
    (hparent : parent.getLast? = some '/') :
    exactTagText d s ≠ "%\"" ++ String.ofList parent ++ "%" := by
  obtain ⟨init, rfl⟩ := List.getLast?_eq_some_iff.mp hparent
  intro h
  have hreverse := congrArg (fun t : String => t.toList.reverse) h
  cases d <;> simp [exactTagText] at hreverse

theorem readsTagTree_tagReading (d : DialectName) (field : Field) (tags : List String) :
    ReadsTagTree d field tags (tagReading d tags) where
  constant _ := rfl
  size _ _ := rfl
  member s := by
    have hmem : (exactTagText d s ∈ tags.map (exactTagText d) ∨
        ∃ t ∈ tags, ∃ parent ∈ t.toList.inits, parent.getLast? = some '/' ∧
          exactTagText d s = "%\"" ++ String.ofList parent ++ "%") ↔ s ∈ tags := by
      constructor
      · rintro (h | ⟨t, -, parent, -, hparent, htext⟩)
        · obtain ⟨t, ht, htext⟩ := List.mem_map.mp h
          rwa [← (exactTagText_injective d t s).mp htext]
        · exact absurd htext (exactTagText_ne_parent d s hparent)
      · exact fun hs => Or.inl (List.mem_map_of_mem hs)
    have hanswer : tagReading d tags (exactTagShape d field, [.str (exactTagText d s)]) =
        some (.ofBool (exactTagText d s ∈ tags.map (exactTagText d) ∨
          ∃ t ∈ tags, ∃ parent ∈ t.toList.inits, parent.getLast? = some '/' ∧
            exactTagText d s = "%\"" ++ String.ofList parent ++ "%")) := by
      cases d <;> rfl
    rw [hanswer]
    simp only [hmem]
  below s := by
    have hslash : (s ++ "/").toList.getLast? = some '/' := by simp
    have hmem : ("%\"" ++ s ++ "/%" ∈ tags.map (exactTagText d) ∨
        ∃ t ∈ tags, ∃ parent ∈ t.toList.inits, parent.getLast? = some '/' ∧
          "%\"" ++ s ++ "/%" = "%\"" ++ String.ofList parent ++ "%") ↔
        ∃ t ∈ tags, (s ++ "/").toList <+: t.toList := by
      have hjoin : ("%\"" ++ s ++ "/%" : String) =
          "%\"" ++ String.ofList (s ++ "/").toList ++ "%" := by
        simp [← String.toList_inj]
      rw [hjoin]
      constructor
      · rintro (h | ⟨t, ht, parent, hinit, -, htext⟩)
        · obtain ⟨t, -, htext⟩ := List.mem_map.mp h
          exact absurd htext (exactTagText_ne_parent d t hslash)
        · have hlist := congrArg String.toList htext
          simp only [String.toList_append, String.toList_ofList, List.append_cancel_left_eq,
            List.append_cancel_right_eq] at hlist
          rw [String.toList_append, hlist]
          exact ⟨t, ht, List.mem_inits _ _ |>.mp hinit⟩
      · rintro ⟨t, ht, hprefix⟩
        exact Or.inr ⟨t, ht, _, (List.mem_inits _ _).mpr hprefix, hslash, rfl⟩
    have hanswer : tagReading d tags (.arrayLike (.jsonArray field), [.str ("%\"" ++ s ++ "/%")]) =
        some (.ofBool ("%\"" ++ s ++ "/%" ∈ tags.map (exactTagText d) ∨
          ∃ t ∈ tags, ∃ parent ∈ t.toList.inits, parent.getLast? = some '/' ∧
            "%\"" ++ s ++ "/%" = "%\"" ++ String.ofList parent ++ "%")) := rfl
    rw [hanswer]
    simp only [hmem]

/-- A repeated value of a scalar, a tag below one of the values, and two tags one of which is
repeated in the content. -/
theorem list_tests_denote_sets_example :
    (∃ stmt, render newSchema .postgres 0
        (.inList (.fieldRef "visibility") ([.str "PUBLIC", .str "PUBLIC"].map .literal)) = .ok stmt ∧
      stmt.answer (exactServer .postgres)
          (memoRow .postgres none { ID := 1, UID := "a", CreatorID := 1, Visibility := .Public }) =
        disjAll <$> [.str "PUBLIC", .str "PUBLIC"].mapM fun v =>
          (equalityTest "visibility" v).answer newSchema (exactServer .postgres)
            (memoRow .postgres none
              { ID := 1, UID := "a", CreatorID := 1, Visibility := .Public })) ∧
      (∃ stmt, render newSchema .postgres 0
          (.inList (.fieldRef "tag") ([.str "book", .str "film"].map .literal)) = .ok stmt ∧
        stmt.readBy .postgres (tagReading .postgres ["book/novel"]) =
          some (.ofBool (∃ s ∈ ["book", "film"], TagMatches ["book/novel"] s))) ∧
      ∃ c stmt, setCondition "sets.equivalent" "tags" ["b", "a", "b"] = .ok c ∧
        render newSchema .postgres 0 c = .ok stmt ∧
          (stmt.answerBy .postgres (tagReading .postgres (uniquePreserveCase ["a", "b", "a"])) =
              some .holds ↔
            SetFunction.equivalent.Relates (uniquePreserveCase ["a", "b", "a"])
              ["b", "a", "b"]) := by
  have hall := list_tests_denote_sets newSchema (exactServer .postgres)
  refine ⟨⟨_, rfl, (hall.1 _ "visibility" (by decide) [.str "PUBLIC", .str "PUBLIC"] _ rfl).mpr
    (.inl (by simp))⟩, ⟨_, rfl, ?_⟩, ?_⟩
  · rcases hall.2.1 [.str "book", .str "film"] _ rfl with ⟨field, strs, -, hvalues, hreads⟩
    have hinj : Function.Injective (List.map Literal.str) :=
      List.map_injective_iff.mpr fun _ _ => Literal.str.inj
    obtain rfl : ["book", "film"] = strs := hinj hvalues
    exact (hreads _ _ (readsTagTree_tagReading .postgres field ["book/novel"])).mpr (by simp)
  · exact hall.2.2 "tags" _ rfl rfl .equivalent ["a", "b", "a"] ⟨["b", "a", "b"], by decide⟩ _
      (readsTagTree_tagReading .postgres _ _).toReadsTags

/-- An empty list of tags is no SQL in any dialect, and an empty list of scalars none in two. -/
theorem empty_list_not_read :
    (∀ d : DialectName, ∃ stmt,
      render newSchema d 0 (.inList (.fieldRef "tag") ([].map .literal)) = .ok stmt ∧
        stmt.sql.text d = "()" ∧
          stmt.answer (exactServer d) (memoRow d none { ID := 1, UID := "a", CreatorID := 1 }) ≠
            some .fails) ∧
      ∃ stmt, render newSchema .postgres 0
          (.inList (.fieldRef "visibility") ([].map .literal)) = .ok stmt ∧
        stmt.sql.text .postgres = "memo.visibility IN ()" ∧
          stmt.answer (exactServer .postgres)
              (memoRow .postgres none { ID := 1, UID := "a", CreatorID := 1 }) ≠
            some .fails := by
  constructor
  · intro d
    cases d <;> exact ⟨_, rfl, by decide +kernel, by decide +kernel⟩
  · exact ⟨_, rfl, by decide +kernel, by decide +kernel⟩

end Filter
end MemosNote
