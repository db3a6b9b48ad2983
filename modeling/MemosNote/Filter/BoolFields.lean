import MemosNote.Filter.Rows

/-!
# Boolean properties in filters

A memo keeps its boolean properties in its payload, and a property that is false is not written
there.  A filter names a property on its own, negates it, or compares it with a literal.

Main results:

- Theorem {lit}`lookup_flag`: the JSON of a payload has the property or lacks it.
- Theorem {lit}`atom_fieldPredicate_answer`, Theorem {lit}`atom_comparison_answer`: what the tests
  say about a property that is present and one that is absent.
- Theorem {lit}`bool_test_selects_iff`: for which tests the selected rows are those where the
  comparison holds with an absent property read as false.
-/

namespace MemosNote
namespace Filter

open Library

/-- The boolean property that a field of the filter names. -/
def hasFlag (name : String) (p : Store.MemoProperty) : Bool :=
  match name with
  | "has_task_list" => p.HasTaskList
  | "has_link" => p.HasLink
  | "has_code" => p.HasCode
  | "has_incomplete_tasks" => p.HasIncompleteTasks
  | _ => false

/-- The property of a payload; a payload without properties has none. -/
def flagOf (name : String) (payload : Store.MemoPayload) : Bool :=
  payload.Property.any (hasFlag name)

/-- The tests of a boolean field. -/
inductive BoolTest where
  | isSet
  | isNotSet
  | equals (b : Bool)
  | differs (b : Bool)
deriving DecidableEq

namespace BoolTest

/-- The condition a test is compiled to. -/
def condition (name : String) : BoolTest → Condition
  | isSet => .fieldPredicate name
  | isNotSet => .not (.fieldPredicate name)
  | equals b => .comparison (.fieldRef name) .eq (.literal (.bool b))
  | differs b => .comparison (.fieldRef name) .neq (.literal (.bool b))

/-- Whether a test holds of a value. -/
def HoldsOf (value : Bool) : BoolTest → Prop
  | isSet => value = true
  | isNotSet => value = false
  | equals b => value = b
  | differs b => value ≠ b

/-- A comparison that holds of a property that is false. -/
def ComparesWithFalse (test : BoolTest) : Prop :=
  test = equals false ∨ test = differs true

end BoolTest

/-! ## Payloads -/

/-- The member of a boolean is there when the boolean is true. -/
private theorem lookup_flag_member (key key' : String) (value : Bool) :
    (if value = true then [(key', Json.bool true)] else []).lookup key =
      if key = key' ∧ value = true then some (.bool true) else none := by
  by_cases hvalue : value = true
  · by_cases hkey : key = key'
    · simp [hvalue, hkey]
    · have hbeq : (key == key') = false := by simpa using hkey
      simp [hvalue, hkey, List.lookup_cons, hbeq]
  · simp [hvalue]

private theorem lookup_title (key title : String) (hkey : key ≠ "title") :
    (if title = "" then [] else [("title", Json.text title)]).lookup key = none := by
  have hbeq : (key == "title") = false := by simpa using hkey
  by_cases htitle : title = "" <;> simp [htitle, List.lookup_cons, hbeq]

/-- The boolean members of a property message. -/
private theorem lookup_propertyMembers (p : Store.MemoProperty) :
    (propertyMembers p).lookup "hasTaskList" =
        (if p.HasTaskList then some (.bool true) else none) ∧
      (propertyMembers p).lookup "hasLink" = (if p.HasLink then some (.bool true) else none) ∧
      (propertyMembers p).lookup "hasCode" = (if p.HasCode then some (.bool true) else none) ∧
      (propertyMembers p).lookup "hasIncompleteTasks" =
        if p.HasIncompleteTasks then some (.bool true) else none := by
  refine ⟨?_, ?_, ?_, ?_⟩
  all_goals
    simp only [propertyMembers, List.lookup_append, lookup_flag_member]
    rw [lookup_title _ _ (by decide)]
    simp

/-- Only the property message has a property. -/
private theorem lookup_property (payload : Store.MemoPayload) (key : String) :
    (payloadJson payload).lookup ["property", key] =
      payload.Property.bind fun p => (propertyMembers p).lookup key := by
  rcases payload with ⟨property, location, tags⟩
  have hend : ∀ j : Option Json, (j.bind fun j => j.lookup []) = j := by
    intro j
    cases j <;> rfl
  cases property with
  | some p =>
      simp only [payloadJson, Option.map_some, Option.toList_some, List.cons_append,
        Json.lookup, List.lookup_cons_self, Option.bind_some]
      exact hend _
  | none =>
      cases location <;> by_cases htags : tags = [] <;>
        simp [payloadJson, Json.lookup, htags, List.lookup_cons]

/-- The fields for boolean properties are stored in the payload, each under its own key. -/
theorem lookup_flag {f : Field} (hf : f ∈ newSchema.fields) (hkind : f.kind = .jsonBool) :
    newSchema.field f.name = some f ∧ f.column = ⟨"memo", "payload"⟩ ∧
      ∀ payload : Store.MemoPayload, (payloadJson payload).lookup f.jsonPath =
        if flagOf f.name payload then some (.bool true) else none := by
  have hkey : ∀ (name key : String), (∀ p, (propertyMembers p).lookup key =
      if hasFlag name p then some (.bool true) else none) →
        ∀ payload : Store.MemoPayload, (payloadJson payload).lookup ["property", key] =
          if flagOf name payload then some (.bool true) else none := by
    intro name key hmembers payload
    rw [lookup_property, flagOf]
    cases payload.Property with
    | none => rfl
    | some p => rw [Option.bind_some, hmembers, Option.any_some]
  simp only [newSchema, List.mem_cons, List.not_mem_nil, or_false] at hf
  rcases hf with rfl | rfl | rfl | rfl | rfl | rfl | rfl | rfl | rfl | rfl | rfl | rfl | rfl
  all_goals first | (exact absurd hkind (by decide)) | skip
  · exact ⟨rfl, rfl, hkey _ _ fun p => (lookup_propertyMembers p).1⟩
  · exact ⟨rfl, rfl, hkey _ _ fun p => (lookup_propertyMembers p).2.1⟩
  · exact ⟨rfl, rfl, hkey _ _ fun p => (lookup_propertyMembers p).2.2.1⟩
  · exact ⟨rfl, rfl, hkey _ _ fun p => (lookup_propertyMembers p).2.2.2⟩

/-- What a dialect extracts for a property that is true. -/
def presentFlag : DialectName → Datum
  | .sqlite => .int 1
  | .mysql => .json (.bool true)
  | .postgres => .text "true"

section

variable {db : Server} {username : Option String} {m : Store.Memo} {f : Field}

/-- A property that is false extracts as {lit}`NULL`. -/
theorem eval_jsonExtract (hf : f ∈ newSchema.fields) (hkind : f.kind = .jsonBool) :
    (SqlExpr.jsonExtract f).eval db (memoRow db.dialect username m) .null =
      if flagOf f.name m.Payload then presentFlag db.dialect else .null := by
  rcases lookup_flag hf hkind with ⟨-, hcolumn, hlookup⟩
  have hpayload : (memoRow db.dialect username m).column f.column =
      .json (payloadJson m.Payload) := by
    rw [hcolumn]
    rfl
  rw [SqlExpr.eval, hpayload]
  simp only [jsonExtractValue, hlookup]
  cases flagOf f.name m.Payload <;> cases db.dialect <;> rfl

/-! ## Tests -/

private theorem lookupField_eq_ok {schema : Schema} {name : String} {f : Field}
    (hfield : schema.field name = some f) :
    (liftM (lookupField schema name) : Except String Field) = .ok f := by
  rw [lookupField, hfield]
  rfl

private theorem renderFieldPredicate_jsonBool {schema : Schema} {d : DialectName} {name : String}
    {f : Field} (hfield : schema.field name = some f) (hkind : f.kind = .jsonBool) :
    (renderFieldPredicate schema d name : Except String (Fragment Arg)) =
      .ok (jsonBoolPredicate d f) := by
  unfold renderFieldPredicate
  rw [lookupField_eq_ok hfield]
  rcases f with ⟨name, kind, type⟩
  cases hkind
  rfl

private theorem renderComparison_jsonBool {schema : Schema} {d : DialectName} {name : String}
    {f : Field} (hfield : schema.field name = some f) (hkind : f.kind = .jsonBool)
    (op : ComparisonOperator) (right : ValueExpr) :
    (renderComparison pure schema d (.fieldRef name) op right : Except String (Fragment Arg)) =
      renderJSONBoolComparison pure d f op right := by
  unfold renderComparison
  simp only
  rw [lookupField_eq_ok hfield]
  rcases f with ⟨name, kind, type⟩
  cases hkind
  rfl

/-- The test of a field on its own reads an absent property as false. -/
theorem atom_fieldPredicate_answer (hf : f ∈ newSchema.fields) (hkind : f.kind = .jsonBool) :
    ∃ fragment, Condition.atom newSchema db.dialect (.fieldPredicate f.name) = .ok fragment ∧
      fragment.answer db (memoRow db.dialect username m) =
        some (.ofBool (flagOf f.name m.Payload)) := by
  rcases lookup_flag hf hkind with ⟨hfield, -, -⟩
  have hvalue := @eval_jsonExtract db username m f hf hkind
  refine ⟨jsonBoolPredicate db.dialect f, renderFieldPredicate_jsonBool hfield hkind, ?_⟩
  cases hdialect : db.dialect with
  | sqlite =>
      rw [hdialect] at hvalue
      change truthTest ((SqlExpr.jsonExtract f).eval db (memoRow .sqlite username m) .null) = _
      rw [hvalue]
      cases flagOf f.name m.Payload <;> rfl
  | mysql =>
      rw [hdialect] at hvalue
      change coalesceIsTrue ((SqlExpr.jsonExtract f).eval db (memoRow .mysql username m) .null) = _
      rw [hvalue]
      cases flagOf f.name m.Payload <;> rfl
  | postgres =>
      rw [hdialect] at hvalue
      change (castBool ((SqlExpr.jsonExtract f).eval db (memoRow .postgres username m) .null)).bind
        truthTest = _
      rw [hvalue]
      cases flagOf f.name m.Payload <;> rfl

/-- A comparison reads an absent property as false in SQLite, but for one field; elsewhere the
comparison of an absent property is unknown. -/
theorem atom_comparison_answer (hf : f ∈ newSchema.fields) (hkind : f.kind = .jsonBool)
    {op : ComparisonOperator} (hop : op = .eq ∨ op = .neq) (b : Bool) :
    ∃ fragment, Condition.atom newSchema db.dialect
        (.comparison (.fieldRef f.name) op (.literal (.bool b))) = .ok fragment ∧
      fragment.answer db (memoRow db.dialect username m) =
        if flagOf f.name m.Payload ∨ (db.dialect = .sqlite ∧ f.name ≠ "has_task_list") then
          some (.ofBool (op.test (compare (flagOf f.name m.Payload) b)))
        else some .unknown := by
  rcases lookup_flag hf hkind with ⟨hfield, -, -⟩
  have hvalue := @eval_jsonExtract db username m f hf hkind
  have hrender : Condition.atom newSchema db.dialect
      (.comparison (.fieldRef f.name) op (.literal (.bool b))) =
        renderJSONBoolComparison pure db.dialect f op (.literal (.bool b)) :=
    renderComparison_jsonBool hfield hkind op (.literal (.bool b))
  rw [hrender]
  cases hdialect : db.dialect with
  | mysql =>
      rw [hdialect] at hvalue
      refine ⟨fixed (.compareJson (.jsonExtract f) op b), rfl, ?_⟩
      have hanswer : (fixed (.compareJson (.jsonExtract f) op b) : Fragment Arg).answer db
          (memoRow .mysql username m) =
            compareData db op ((SqlExpr.jsonExtract f).eval db (memoRow .mysql username m) .null)
              (.json (.bool b)) := rfl
      rw [hanswer, hvalue]
      cases flagOf f.name m.Payload <;> simp [presentFlag, compareData]
  | postgres =>
      rw [hdialect] at hvalue
      refine ⟨single (.castCompare (.jsonExtract f) op) (.bool b), rfl, ?_⟩
      have hanswer : (single (.castCompare (.jsonExtract f) op) (.bool b) : Fragment Arg).answer db
          (memoRow .postgres username m) =
            (castBool ((SqlExpr.jsonExtract f).eval db (memoRow .postgres username m) .null)).bind
              fun v => compareData db op v ((Arg.bool b).datum db.dialect) := rfl
      rw [hanswer, hvalue, hdialect]
      cases flagOf f.name m.Payload <;> simp [presentFlag, compareData, castBool, Arg.datum]
  | sqlite =>
      rw [hdialect] at hvalue
      by_cases htask : f.name = "has_task_list"
      · have hfragment : renderJSONBoolComparison pure .sqlite f op (.literal (.bool b)) =
            (Except.ok (fixed (.compareBit (.jsonExtract f) op b)) :
              Except String (Fragment Arg)) := by
          unfold renderJSONBoolComparison
          rcases hop with rfl | rfl <;> rw [htask] <;> rfl
        refine ⟨_, hfragment, ?_⟩
        have hanswer : (fixed (.compareBit (.jsonExtract f) op b) : Fragment Arg).answer db
            (memoRow .sqlite username m) =
              compareData db op ((SqlExpr.jsonExtract f).eval db (memoRow .sqlite username m) .null)
                (.int b.toNat) := rfl
        rw [hanswer, hvalue]
        cases flagOf f.name m.Payload
        · simp [compareData, htask]
        · cases b <;> rcases hop with rfl | rfl <;> simp [presentFlag, compareData] <;> decide
      · have htrue : (fixed (.isTrue (.jsonExtract f)) : Fragment Arg).answer db
            (memoRow .sqlite username m) = some (.ofBool (flagOf f.name m.Payload)) := by
          change truthTest ((SqlExpr.jsonExtract f).eval db (memoRow .sqlite username m) .null) = _
          rw [hvalue]
          cases flagOf f.name m.Payload <;> rfl
        have hfalse : (fixed (.notIsTrue (.jsonExtract f)) : Fragment Arg).answer db
            (memoRow .sqlite username m) = some (.ofBool (!flagOf f.name m.Payload)) := by
          change (truthTest
            ((SqlExpr.jsonExtract f).eval db (memoRow .sqlite username m) .null)).map Truth.neg = _
          rw [hvalue]
          cases flagOf f.name m.Payload <;> rfl
        have hread : flagOf f.name m.Payload = true ∨
            (DialectName.sqlite = .sqlite ∧ f.name ≠ "has_task_list") := .inr ⟨rfl, htask⟩
        rw [if_pos hread]
        unfold renderJSONBoolComparison
        rcases hop with rfl | rfl
        · cases b with
          | true =>
              refine ⟨_, if_neg htask, htrue.trans ?_⟩
              cases flagOf f.name m.Payload <;> rfl
          | false =>
              refine ⟨_, if_neg htask, hfalse.trans ?_⟩
              cases flagOf f.name m.Payload <;> rfl
        · cases b with
          | true =>
              refine ⟨_, if_neg htask, hfalse.trans ?_⟩
              cases flagOf f.name m.Payload <;> rfl
          | false =>
              refine ⟨_, if_neg htask, htrue.trans ?_⟩
              cases flagOf f.name m.Payload <;> rfl

/-! ## Which tests read an absent property as false -/

/-- What a rendered test says about a property. -/
def BoolTest.verdict (d : DialectName) (name : String) (value : Bool) : BoolTest → Truth
  | isSet => .ofBool value
  | isNotSet => .ofBool (!value)
  | equals b =>
      if value ∨ (d = .sqlite ∧ name ≠ "has_task_list") then .ofBool (value == b) else .unknown
  | differs b =>
      if value ∨ (d = .sqlite ∧ name ≠ "has_task_list") then .ofBool (value != b) else .unknown

private theorem bool_test_answer (hf : f ∈ newSchema.fields) (hkind : f.kind = .jsonBool)
    (test : BoolTest) :
    (render newSchema db.dialect 0 (test.condition f.name)).map
        (Statement.answer db (memoRow db.dialect username m)) =
      .ok (some (test.verdict db.dialect f.name (flagOf f.name m.Payload))) := by
  rcases @atom_fieldPredicate_answer db username m f hf hkind with ⟨predicate, hatom, hanswer⟩
  have htree : ∀ c, (Condition.fieldPredicate f.name = c ∨
      ∃ op b, .comparison (.fieldRef f.name) op (.literal (.bool b)) = c) →
        c.skeleton newSchema db.dialect =
          (Condition.atom newSchema db.dialect c).map Skeleton.atom := by
    rintro c (rfl | ⟨op, b, rfl⟩) <;> rfl
  have hcomparison : ∀ op b, op = ComparisonOperator.eq ∨ op = .neq →
      (render newSchema db.dialect 0 (.comparison (.fieldRef f.name) op (.literal (.bool b)))).map
          (Statement.answer db (memoRow db.dialect username m)) =
        .ok (if flagOf f.name m.Payload ∨ (db.dialect = .sqlite ∧ f.name ≠ "has_task_list") then
          some (.ofBool (op.test (compare (flagOf f.name m.Payload) b)))
        else some .unknown) := by
    intro op b hop
    rcases @atom_comparison_answer db username m f hf hkind op hop b with ⟨fragment, hc, hvalue⟩
    have hskeleton := htree _ (.inr ⟨op, b, rfl⟩)
    rw [hc] at hskeleton
    rw [answer_atom hskeleton, hvalue]
  cases test with
  | isSet =>
      have hskeleton := htree _ (.inl rfl)
      rw [hatom] at hskeleton
      rw [BoolTest.condition, answer_atom hskeleton, hanswer]
      rfl
  | isNotSet =>
      have hskeleton : (Condition.not (.fieldPredicate f.name)).skeleton newSchema db.dialect =
          ((Condition.fieldPredicate f.name).skeleton newSchema db.dialect).map .not := rfl
      rw [htree _ (.inl rfl), hatom] at hskeleton
      rw [BoolTest.condition, answer_not_atom hskeleton, hanswer]
      cases flagOf f.name m.Payload <;> rfl
  | equals b =>
      have heq : ComparisonOperator.eq.test (compare (flagOf f.name m.Payload) b) =
          (flagOf f.name m.Payload == b) := by
        cases flagOf f.name m.Payload <;> cases b <;> rfl
      rw [BoolTest.condition, hcomparison .eq b (.inl rfl), heq, BoolTest.verdict, apply_ite some]
  | differs b =>
      have hneq : ComparisonOperator.neq.test (compare (flagOf f.name m.Payload) b) =
          (flagOf f.name m.Payload != b) := by
        cases flagOf f.name m.Payload <;> cases b <;> rfl
      rw [BoolTest.condition, hcomparison .neq b (.inr rfl), hneq, BoolTest.verdict,
        apply_ite some]

end

/-- Where a test reads a property as it should: the property is there, the test does not compare
with false, or SQLite asks for any field but one. -/
def ReadsAbsent (d : DialectName) (name : String) (test : BoolTest) (value : Bool) : Prop :=
  value = true ∨ ¬test.ComparesWithFalse ∨ (d = .sqlite ∧ name ≠ "has_task_list")

/-- A rendered test of a boolean field selects the rows where the test holds with an absent
property read as false, if and only if the property is there, the test does not compare with
false, or SQLite is asked for another field than {lit}`has_task_list`. -/
theorem bool_test_selects_iff (db : Server) (username : Option String) (m : Store.Memo)
    (f : {f : Field // f ∈ newSchema.fields ∧ f.kind = .jsonBool}) (test : BoolTest) :
    (∃ stmt, render newSchema db.dialect 0 (test.condition f.1.name) = .ok stmt ∧
      (stmt.answer db (memoRow db.dialect username m) = some .holds ↔
        test.HoldsOf (flagOf f.1.name m.Payload))) ↔
      ReadsAbsent db.dialect f.1.name test (flagOf f.1.name m.Payload) := by
  rcases f with ⟨f, hf, hkind⟩
  have hanswer := @bool_test_answer db username m f hf hkind test
  have hselects : (∃ stmt, render newSchema db.dialect 0 (test.condition f.name) = .ok stmt ∧
      (stmt.answer db (memoRow db.dialect username m) = some .holds ↔
        test.HoldsOf (flagOf f.name m.Payload))) ↔
      (test.verdict db.dialect f.name (flagOf f.name m.Payload) = .holds ↔
        test.HoldsOf (flagOf f.name m.Payload)) := by
    cases hrender : render newSchema db.dialect 0 (test.condition f.name) with
    | error message =>
        rw [hrender] at hanswer
        cases hanswer
    | ok stmt =>
        rw [hrender] at hanswer
        have hstmt : stmt.answer db (memoRow db.dialect username m) =
            some (test.verdict db.dialect f.name (flagOf f.name m.Payload)) :=
          Except.ok.inj hanswer
        simp [hstmt]
  rw [hselects, ReadsAbsent]
  by_cases hread : db.dialect = .sqlite ∧ f.name ≠ "has_task_list"
  · cases test <;> cases flagOf f.name m.Payload <;>
      simp [BoolTest.verdict, BoolTest.HoldsOf, hread]
  · cases test with
    | isSet => simp [BoolTest.verdict, BoolTest.HoldsOf, BoolTest.ComparesWithFalse]
    | isNotSet => simp [BoolTest.verdict, BoolTest.HoldsOf, BoolTest.ComparesWithFalse]
    | equals b =>
        cases flagOf f.name m.Payload <;> cases b <;>
          simp [BoolTest.verdict, BoolTest.HoldsOf, BoolTest.ComparesWithFalse, hread]
    | differs b =>
        cases flagOf f.name m.Payload <;> cases b <;>
          simp [BoolTest.verdict, BoolTest.HoldsOf, BoolTest.ComparesWithFalse, hread]

/-- A memo without any property is not selected by a comparison with false. -/
theorem absent_property_not_selected :
    (∃ stmt,
      render newSchema .sqlite 0 ((BoolTest.equals false).condition "has_task_list") = .ok stmt ∧
        ¬(stmt.answer (exactServer .sqlite)
            (memoRow .sqlite none { ID := 1, UID := "a", CreatorID := 1 }) = some .holds ↔
          (BoolTest.equals false).HoldsOf (flagOf "has_task_list" {}))) ∧
      ∃ stmt,
        render newSchema .postgres 0 ((BoolTest.differs true).condition "has_link") = .ok stmt ∧
          ¬(stmt.answer (exactServer .postgres)
              (memoRow .postgres none { ID := 1, UID := "a", CreatorID := 1 }) = some .holds ↔
            (BoolTest.differs true).HoldsOf (flagOf "has_link" {})) := by
  have hequals : (BoolTest.equals false).HoldsOf (flagOf "has_task_list" {}) := rfl
  have hdiffers : (BoolTest.differs true).HoldsOf (flagOf "has_link" {}) := by
    simp [BoolTest.HoldsOf, flagOf]
  constructor
  · exact ⟨_, rfl, fun h => absurd (h.mpr hequals) (by decide +kernel)⟩
  · exact ⟨_, rfl, fun h => absurd (h.mpr hdiffers) (by decide +kernel)⟩

end Filter
end MemosNote
