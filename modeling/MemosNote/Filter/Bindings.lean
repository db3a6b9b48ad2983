import MemosNote.Filter.Skeleton

/-!
# The values an atom binds

How many values an atom binds can be read off the condition, before any SQL is
produced.

Main results:

- Theorem {lit}`length_slots_atom`: an atom that renders binds as many values as
  {lit}`Condition.bindings` counts.
-/

namespace MemosNote
namespace Filter

open Library

/-- Whether a value expression is the null literal. -/
def ValueExpr.isNull : ValueExpr → Bool
  | .literal .null => true
  | _ => false

/-- The number of values an atom binds. -/
def Condition.bindings (schema : Schema) (dialect : DialectName) : Condition → ℕ
  | .comparison (.fieldRef name) _ right =>
      match (schema.field name).map Field.kind with
      | some .jsonBool => if dialect = .postgres then 1 else 0
      | some .scalar => if right.isNull then 0 else 1
      | _ => 1
  | .comparison _ _ _ => 1
  | .inList (.fieldRef name) values => if name = "tag" then 2 * values.length else values.length
  | .elementIn _ _ => 1
  | .textMatch _ _ _ => 1
  | .regex _ _ => 1
  | .listComprehension .exists _ _ (.startsWith _) => 2
  | .listComprehension _ _ _ _ => 1
  | _ => 0

/-- A sequence succeeds when both of its steps do. -/
theorem bind_ok {α β : Type} {x : Except String α} {f : α → Except String β} {b : β}
    (h : (x >>= f) = .ok b) : ∃ a, x = .ok a ∧ f a = .ok b := by
  cases x with
  | error e => cases h
  | ok a => exact ⟨a, rfl, h⟩

private theorem lookupField_ok {schema : Schema} {name : String} {field : Field}
    (h : lookupField schema name = .ok field) : schema.field name = some field := by
  unfold lookupField at h
  cases hf : schema.field name with
  | none => rw [hf] at h; cases h
  | some f => rw [hf] at h; cases h; rfl

private theorem single_bindings {shape : Shape} {h : shape.arity = 1} {x : Except String Arg}
    {f : Fragment Arg} (hf : (x >>= fun v => pure (single shape v h)) = .ok f) :
    f.slots.length = 1 := by
  obtain ⟨v, -, hv⟩ := bind_ok hf
  cases hv
  rfl

private theorem scalarComparison_bindings {field : Field} {op : ComparisonOperator}
    {right : ValueExpr} {f : Fragment Arg}
    (h : (renderScalarComparison pure field op right : Except String (Fragment Arg)) = .ok f) :
    f.slots.length = if right.isNull then 0 else 1 := by
  obtain ⟨lit, hlit, hrest⟩ := bind_ok h
  cases right with
  | literal value =>
      cases hlit
      by_cases hnull : lit = .null
      · subst hnull
        cases op with
        | eq => cases hrest; rfl
        | neq => cases hrest; rfl
        | _ => cases hrest
      · simp only [hnull, if_false] at hrest
        obtain ⟨arg, -, hsingle⟩ := bind_ok hrest
        rw [single_bindings hsingle]
        cases lit with
        | null => exact absurd rfl hnull
        | _ => rfl
  | _ => cases hlit

private theorem jsonBoolComparison_bindings {dialect : DialectName} {field : Field}
    {op : ComparisonOperator} {right : ValueExpr} {f : Fragment Arg}
    (h : (renderJSONBoolComparison pure dialect field op right :
      Except String (Fragment Arg)) = .ok f) :
    f.slots.length = if dialect = .postgres then 1 else 0 := by
  obtain ⟨value, -, h⟩ := bind_ok h
  cases dialect with
  | sqlite =>
      cases op with
      | eq => dsimp only at h; split_ifs at h <;> cases h <;> rfl
      | neq => dsimp only at h; split_ifs at h <;> cases h <;> rfl
      | _ => cases h
  | mysql => cases h; rfl
  | postgres => cases h; rfl

private theorem comparison_bindings {schema : Schema} {dialect : DialectName} {left : ValueExpr}
    {op : ComparisonOperator} {right : ValueExpr} {f : Fragment Arg}
    (h : (renderComparison pure schema dialect left op right :
      Except String (Fragment Arg)) = .ok f) :
    f.slots.length = (Condition.comparison left op right).bindings schema dialect := by
  cases left with
  | fieldRef name =>
      obtain ⟨field, hfield, h⟩ := bind_ok h
      simp only [Condition.bindings, lookupField_ok hfield, Option.map_some]
      cases hkind : field.kind with
      | boolColumn =>
          rw [hkind] at h
          obtain ⟨value, -, h⟩ := bind_ok h
          exact single_bindings h
      | jsonBool =>
          rw [hkind] at h
          exact jsonBoolComparison_bindings h
      | scalar =>
          rw [hkind] at h
          exact scalarComparison_bindings h
      | jsonList => rw [hkind] at h; cases h
      | virtualAlias => rw [hkind] at h; cases h
  | function name args =>
      simp only [renderComparison, renderFunctionComparison] at h
      split at h
      · cases h
      · split at h
        · obtain ⟨field, -, h⟩ := bind_ok h
          obtain ⟨value, -, h⟩ := bind_ok h
          obtain ⟨expr, -, h⟩ := bind_ok h
          exact single_bindings h
        · cases h
        · cases h
  | fieldAccessor name accessor =>
      obtain ⟨field, -, h⟩ := bind_ok h
      obtain ⟨value, -, h⟩ := bind_ok h
      cases hspec : Accessor.ofName? accessor with
      | none => rw [hspec] at h; cases h
      | some spec =>
          rw [hspec] at h
          exact single_bindings h
  | literal value => cases h

private theorem tagValues_length {dialect : DialectName} {values : List ValueExpr}
    {pairs : List (Arg × Arg)}
    (h : (renderTagValues pure dialect values : Except String (List (Arg × Arg))) = .ok pairs) :
    pairs.length = values.length := by
  induction values generalizing pairs with
  | nil => cases h; rfl
  | cons v values ih =>
      obtain ⟨lit, -, h⟩ := bind_ok h
      cases lit with
      | str s =>
          obtain ⟨pair, -, h⟩ := bind_ok h
          obtain ⟨rest, hrest, h⟩ := bind_ok h
          cases h
          rw [List.length_cons, List.length_cons, ih hrest]
      | _ => cases h

private theorem inValues_length {field : Field} {values : List ValueExpr} {args : List Arg}
    (h : (renderInValues pure field values : Except String (List Arg)) = .ok args) :
    args.length = values.length := by
  induction values generalizing args with
  | nil => cases h; rfl
  | cons v values ih =>
      obtain ⟨lit, -, h⟩ := bind_ok h
      obtain ⟨value, -, h⟩ := bind_ok h
      obtain ⟨arg, -, h⟩ := bind_ok h
      obtain ⟨rest, hrest, h⟩ := bind_ok h
      cases h
      rw [List.length_cons, List.length_cons, ih hrest]

private theorem tagListFragment_length {dialect : DialectName} {field : Field}
    (pairs : List (Arg × Arg)) :
    (tagListFragment dialect field pairs).slots.length = 2 * pairs.length := by
  match pairs with
  | [] => rfl
  | [p] => rfl
  | p :: q :: rest =>
      simp only [tagListFragment, List.length_flatMap, List.length_cons, List.length_nil]
      simp
      omega

private theorem inCondition_bindings {schema : Schema} {dialect : DialectName} {left : ValueExpr}
    {values : List ValueExpr} {f : Fragment Arg}
    (h : (renderInCondition pure schema dialect left values :
      Except String (Fragment Arg)) = .ok f) :
    f.slots.length = (Condition.inList left values).bindings schema dialect := by
  cases left with
  | fieldRef name =>
      by_cases htag : name = "tag"
      · simp only [renderInCondition, htag, if_true, renderTagInList] at h
        simp only [Condition.bindings, htag, if_true]
        cases htarget : schema.resolveAlias "tag" with
        | none => rw [htarget] at h; cases h
        | some field =>
            rw [htarget] at h
            obtain ⟨pairs, hpairs, h⟩ := bind_ok h
            cases h
            rw [tagListFragment_length, tagValues_length hpairs]
      · simp only [renderInCondition, htag, if_false] at h
        simp only [Condition.bindings, htag, if_false]
        obtain ⟨field, -, h⟩ := bind_ok h
        split at h
        · cases h
        · obtain ⟨args, hargs, h⟩ := bind_ok h
          cases h
          exact inValues_length hargs
  | _ => cases h

private theorem elementPredicate_bindings {pred : PredicateExpr} {f : Fragment Arg}
    (h : (elementPredicateSQL pure pred : Except String (Fragment Arg)) = .ok f) :
    f.slots.length = 1 := by
  cases pred <;> exact single_bindings h

private theorem exactMatch_bindings {dialect : DialectName} {field : Field} {value : String}
    {f : Fragment Arg}
    (h : (buildExactMatch pure dialect field value : Except String (Fragment Arg)) = .ok f) :
    f.slots.length = 1 := by
  cases dialect <;> exact single_bindings h

private theorem comprehension_bindings {schema : Schema} {dialect : DialectName}
    {kind : ComprehensionKind} {name iterVar : String} {pred : PredicateExpr} {f : Fragment Arg}
    (h : (renderListComprehension pure schema dialect kind name pred :
      Except String (Fragment Arg)) = .ok f) :
    f.slots.length =
      (Condition.listComprehension kind name iterVar pred).bindings schema dialect := by
  obtain ⟨field, -, h⟩ := bind_ok h
  split at h
  · cases h
  · cases kind with
    | all =>
        obtain ⟨g, hg, h⟩ := bind_ok h
        have hlength := elementPredicate_bindings hg
        cases h
        exact hlength
    | existsOne =>
        obtain ⟨g, hg, h⟩ := bind_ok h
        have hlength := elementPredicate_bindings hg
        cases h
        exact hlength
    | «exists» =>
        cases pred with
        | equals value =>
            obtain ⟨g, hg, h⟩ := bind_ok h
            have hlength := exactMatch_bindings hg
            cases h
            exact hlength
        | startsWith text =>
            obtain ⟨g, hg, h⟩ := bind_ok h
            obtain ⟨g', hg', h⟩ := bind_ok h
            cases h
            have hlength : (wrapWithNullCheck field (g.either g')).slots.length =
                g.slots.length + g'.slots.length := List.length_append
            rw [hlength, exactMatch_bindings hg, single_bindings hg']
            rfl
        | endsWith suffix =>
            obtain ⟨g, hg, h⟩ := bind_ok h
            have hlength := single_bindings hg
            cases h
            exact hlength
        | contains substring =>
            obtain ⟨g, hg, h⟩ := bind_ok h
            have hlength := single_bindings hg
            cases h
            exact hlength

/-- An atom that renders binds as many values as counted. -/
theorem length_slots_atom {schema : Schema} {dialect : DialectName} {c : Condition}
    {f : Fragment Arg} (h : c.atom schema dialect = .ok f) :
    f.slots.length = c.bindings schema dialect := by
  cases c with
  | fieldPredicate name =>
      obtain ⟨field, -, h⟩ := bind_ok h
      cases hkind : field.kind with
      | boolColumn => rw [hkind] at h; cases h; rfl
      | jsonBool => rw [hkind] at h; cases h; cases dialect <;> rfl
      | _ => rw [hkind] at h; cases h
  | comparison left op right => exact comparison_bindings h
  | inList left values => exact inCondition_bindings h
  | elementIn element name =>
      obtain ⟨field, -, h⟩ := bind_ok h
      split at h
      · cases h
      · obtain ⟨lit, -, h⟩ := bind_ok h
        cases lit with
        | str s => exact single_bindings h
        | _ => cases h
  | textMatch name mode value =>
      obtain ⟨field, -, h⟩ := bind_ok h
      exact single_bindings h
  | regex name pattern =>
      obtain ⟨field, -, h⟩ := bind_ok h
      exact single_bindings h
  | listComprehension kind name iterVar pred => exact comprehension_bindings h
  | _ => cases h

end Filter
end MemosNote
