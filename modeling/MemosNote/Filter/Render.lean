import MemosNote.Filter.Sql

/-!
# The renderer

The renderer turns a condition into a statement of one dialect.  It threads a
state that counts the placeholders handed out and accumulates the bound values,
while the SQL text travels through the results.

Every atom function is written against an arbitrary way of handing out
placeholders.  The renderer hands out numbers and records the value; an atom
read on its own hands out the value itself, so that
{lit}`Condition.atom` is the fragment with its values in place.

Main results:

- Definition {lit}`render`: the renderer, with its constant shortcuts.
-/

namespace MemosNote
namespace Filter

open Library

/-! ## Literals -/

/-- A numeric literal as a 64-bit integer. -/
def toInt64 : Literal → Except String Int64
  | .int n => pure n
  | .double q => pure (truncate q)
  | lit => throw ("cannot convert " ++ lit.goType ++ " to int64")

/-- The value of a literal expression. -/
def expectLiteral : ValueExpr → Except String Literal
  | .literal value => pure value
  | _ => throw "expression must be a literal"

/-- A literal that is a truth value. -/
def expectBool (expr : ValueExpr) : Except String Bool := do
  match ← expectLiteral expr with
  | .bool value => pure value
  | _ => throw "boolean literal required"

/-- A literal that is a number. -/
def expectNumericLiteral (expr : ValueExpr) : Except String Int64 := do
  toInt64 (← expectLiteral expr)

/-- Look up a field by name. -/
def lookupField (schema : Schema) (name : String) : Except String Field :=
  match schema.field name with
  | some field => pure field
  | none => throw ("unknown field " ++ quoteName name)

/-- Escape the metacharacters of {lit}`LIKE`. -/
def escapeLikeLiteral (s : String) : String :=
  String.join (s.toList.map fun c =>
    if c = '\\' ∨ c = '%' ∨ c = '_' then "\\" ++ c.toString else c.toString)

/-- The pattern of a text match. -/
def likePattern (mode : TextMatchMode) (value : String) : String :=
  match mode with
  | .matchPrefix => escapeLikeLiteral value ++ "%"
  | .matchSuffix => "%" ++ escapeLikeLiteral value
  | .matchContains => "%" ++ escapeLikeLiteral value ++ "%"

/-- The value bound for a boolean; SQLite has no boolean type. -/
def boolArg (dialect : DialectName) (value : Bool) : Arg :=
  match dialect with
  | .sqlite => .int (if value then 1 else 0)
  | _ => .bool value

/-! ## Atoms

Atoms never fold to a constant, so an atom function returns the SQL of its
result. -/

section Atoms

variable {m : Type → Type} [Monad m] [MonadLiftT (Except String) m] {σ : Type}
variable (addArg : Arg → m σ) (schema : Schema) (dialect : DialectName)

/-- A fragment without placeholders. -/
def fixed (shape : Shape) (h : shape.arity = 0 := by rfl) : Fragment σ :=
  ⟨shape, [], h.symm⟩

/-- A fragment with one placeholder. -/
def single (shape : Shape) (slot : σ) (h : shape.arity = 1 := by rfl) : Fragment σ :=
  ⟨shape, [slot], h.symm⟩

/-- Rendering ends with an error. -/
def fail {α : Type} (message : String) : m α :=
  liftM (throw message : Except String α)

/-- The truth test of a JSON boolean. -/
def jsonBoolPredicate (field : Field) : Fragment σ :=
  match dialect with
  | .sqlite => fixed (.isTrue (.jsonExtract field))
  | .mysql => fixed (.coalesceJson (.jsonExtract field))
  | .postgres => fixed (.castIsTrue (.jsonExtract field))

/-- A field that stands alone as a condition. -/
def renderFieldPredicate (name : String) : m (Fragment σ) := do
  let field ← liftM (lookupField schema name)
  match field.kind with
  | .boolColumn => return fixed (.isTrue (.qualified field))
  | .jsonBool => return jsonBoolPredicate dialect field
  | _ => fail ("field " ++ quoteName name ++ " cannot be used as a predicate")

/-- A part of a time, such as its hour, compared with a number. -/
def renderAccessorComparison (name accessor : String) (op : ComparisonOperator)
    (right : ValueExpr) : m (Fragment σ) := do
  let field ← liftM (lookupField schema name)
  let value ← liftM (expectNumericLiteral right)
  match Accessor.ofName? accessor with
  | none => fail ("unsupported timestamp accessor " ++ quoteName accessor)
  | some spec =>
      let placeholder ← addArg (.int value)
      return single (.compare (.timestampAccessor field spec) op) placeholder

/-- The argument of {lit}`size`, seen through a virtual alias. -/
def sizeField (name : String) : Except String Field := do
  let field ← lookupField schema name
  if field.kind = .virtualAlias then
    match schema.resolveAlias name with
    | some target => pure target
    | none => throw ("invalid alias " ++ quoteName name)
  else pure field

/-- The length expression of a field. -/
def sizeExpr (field : Field) : Except String SqlExpr :=
  if field.kind = .jsonList then pure (.jsonArrayLength field)
  else if field.kind = .scalar ∧ field.type = .string then pure (.stringLength field)
  else throw ("size() does not support field " ++ quoteName field.name)

/-- The size of a list compared with a number. -/
def renderFunctionComparison (name : String) (args : List ValueExpr) (op : ComparisonOperator)
    (right : ValueExpr) : m (Fragment σ) := do
  if name ≠ "size" then fail ("unsupported function " ++ name ++ " in comparison")
  else match args with
    | [.fieldRef argument] =>
        let field ← liftM (sizeField schema argument)
        let value ← liftM (expectNumericLiteral right)
        let expr ← liftM (sizeExpr field)
        let placeholder ← addArg (.int value)
        return single (.compare expr op) placeholder
    | [_] => fail "size() argument must be a field"
    | _ => fail "size() expects one argument"

/-- The name of a field type in error texts. -/
def FieldType.toName : FieldType → String
  | .string => "string"
  | .int => "int"
  | .bool => "bool"
  | .timestamp => "timestamp"

/-- The value a scalar field is compared with. -/
def scalarArg (field : Field) (lit : Literal) : Except String Arg :=
  match field.type, lit with
  | .string, .str value => pure (.str value)
  | .string, _ => throw ("field " ++ quoteName field.name ++ " expects string value")
  | .int, lit | .timestamp, lit =>
      match toInt64 lit with
      | .ok num => pure (.int num)
      | .error e => throw ("field " ++ quoteName field.name ++ " expects integer value: " ++ e)
  | .bool, _ =>
      throw ("unsupported data type " ++ quoteName field.type.toName ++ " for field " ++ field.name)

/-- A column compared with a literal; null is asked for by its own operators. -/
def renderScalarComparison (field : Field) (op : ComparisonOperator) (right : ValueExpr) :
    m (Fragment σ) := do
  let lit ← liftM (expectLiteral right)
  if lit = .null then
    match op with
    | .eq => return fixed (.isNull (.columnExpr field))
    | .neq => return fixed (.isNotNull (.columnExpr field))
    | _ => fail ("operator " ++ sqlOperator op ++ " not supported for null comparison")
  else
    let value ← liftM (scalarArg field lit)
    let placeholder ← addArg value
    return single (.compare (.columnExpr field) op) placeholder

/-- A column of truth values compared with a literal. -/
def renderBoolColumnComparison (field : Field) (op : ComparisonOperator) (right : ValueExpr) :
    m (Fragment σ) := do
  let value ← liftM (expectBool right)
  let placeholder ← addArg (boolArg dialect value)
  return single (.compare (.qualified field) op) placeholder

/-- A truth value within the payload compared with a literal, as each dialect writes it. -/
def renderJSONBoolComparison (field : Field) (op : ComparisonOperator) (right : ValueExpr) :
    m (Fragment σ) := do
  let value ← liftM (expectBool right)
  let expr := SqlExpr.jsonExtract field
  match dialect with
  | .sqlite =>
      match op with
      | .eq =>
          if field.name = "has_task_list" then return fixed (.compareBit expr .eq value)
          else if value then return fixed (.isTrue expr)
          else return fixed (.notIsTrue expr)
      | .neq =>
          if field.name = "has_task_list" then return fixed (.compareBit expr .neq value)
          else if value then return fixed (.notIsTrue expr)
          else return fixed (.isTrue expr)
      | _ => fail ("operator " ++ sqlOperator op ++ " not supported for boolean JSON field")
  | .mysql => return fixed (.compareJson expr op value)
  | .postgres =>
      let placeholder ← addArg (.bool value)
      return single (.castCompare expr op) placeholder

/-- A comparison, by the kind of the field on its left. -/
def renderComparison (left : ValueExpr) (op : ComparisonOperator) (right : ValueExpr) :
    m (Fragment σ) := do
  match left with
  | .fieldRef name =>
      let field ← liftM (lookupField schema name)
      match field.kind with
      | .boolColumn => renderBoolColumnComparison addArg dialect field op right
      | .jsonBool => renderJSONBoolComparison addArg dialect field op right
      | .scalar => renderScalarComparison addArg field op right
      | _ => fail ("field " ++ quoteName field.name ++ " does not support comparison")
  | .function name args => renderFunctionComparison addArg schema name args op right
  | .fieldAccessor name accessor => renderAccessorComparison addArg schema name accessor op right
  | .literal _ => fail "comparison must start with a field reference or supported function"

/-- The pattern or JSON text for an exact tag. -/
def exactTagText (value : String) : String :=
  match dialect with
  | .sqlite => "%\"" ++ value ++ "\"%"
  | _ => "\"" ++ value ++ "\""

/-- The shape that tests for an exact tag. -/
def exactTagShape (field : Field) : Shape :=
  match dialect with
  | .sqlite => .arrayLike (.jsonArray field)
  | _ => .arrayContains (.jsonArray field)

theorem arity_exactTagShape (field : Field) : (exactTagShape dialect field).arity = 1 := by
  cases dialect <;> rfl

/-- The two tests of one tag: the exact form, and the form with the tag as a parent. -/
def renderTagMatch (str : String) : m (σ × σ) := do
  let exactMatch ← addArg (.str (exactTagText dialect str))
  let prefixMatch ← addArg (.str ("%\"" ++ str ++ "/%"))
  return (exactMatch, prefixMatch)

/-- The loop of {lit}`tag in [..]`. -/
def renderTagValues : List ValueExpr → m (List (σ × σ))
  | [] => return []
  | v :: values => do
      match ← liftM (expectLiteral v) with
      | .str str =>
          let condition ← renderTagMatch addArg dialect str
          let rest ← renderTagValues values
          return condition :: rest
      | _ => fail "tags must be compared with string literals"

/-- The tag conditions joined by {lit}`OR`; a single one stands alone. -/
def tagListFragment (field : Field) (slots : List (σ × σ)) : Fragment σ :=
  let pair := Shape.either (exactTagShape dialect field) (.arrayLike (.jsonArray field))
  have hpair : pair.arity = 2 := by
    simp [pair, Shape.arity, arity_exactTagShape]
  match slots with
  | [(exactMatch, prefixMatch)] => ⟨pair, [exactMatch, prefixMatch], hpair.symm⟩
  | slots =>
      { shape := .anyOf pair slots.length
        slots := slots.flatMap fun s => [s.1, s.2]
        filled := by
          rw [Shape.arity, hpair, List.length_flatMap]
          simp }

/-- Some tag of the memo is one of the given tags or lies below one. -/
def renderTagInList (values : List ValueExpr) : m (Fragment σ) := do
  match schema.resolveAlias "tag" with
  | none => fail "tag attribute is not configured"
  | some field =>
      let slots ← renderTagValues addArg dialect values
      return tagListFragment dialect field slots

/-- The value of an element of an {lit}`IN` list. -/
def scalarInArg (field : Field) (lit : Literal) : Except String Arg :=
  match field.type, lit with
  | .string, .str str => pure (.str str)
  | .string, _ => throw ("field " ++ quoteName field.name ++ " expects string values")
  | .int, lit => Arg.int <$> toInt64 lit
  | _, _ => throw ("field " ++ quoteName field.name ++ " does not support IN() comparisons")

/-- A placeholder for each value of a list. -/
def renderInValues (field : Field) : List ValueExpr → m (List σ)
  | [] => return []
  | v :: values => do
      let lit ← liftM (expectLiteral v)
      let value ← liftM (scalarInArg field lit)
      let placeholder ← addArg value
      let rest ← renderInValues field values
      return placeholder :: rest

/-- A column is one of the values. -/
def renderScalarInCondition (field : Field) (values : List ValueExpr) : m (Fragment σ) := do
  let placeholders ← renderInValues addArg field values
  return ⟨.inList (.columnExpr field) placeholders.length, placeholders, rfl⟩

/-- A field, or a tag, is one of the values. -/
def renderInCondition (left : ValueExpr) (values : List ValueExpr) : m (Fragment σ) := do
  match left with
  | .fieldRef name =>
      if name = "tag" then renderTagInList addArg schema dialect values
      else
        let field ← liftM (lookupField schema name)
        if field.kind ≠ .scalar then
          fail ("field " ++ quoteName name ++ " does not support IN()")
        else renderScalarInCondition addArg field values
  | _ => fail "IN operator requires a field on the left-hand side"

/-- A value is one of the elements of a list within the payload. -/
def renderElementInCondition (element : ValueExpr) (name : String) : m (Fragment σ) := do
  let field ← liftM (lookupField schema name)
  if field.kind ≠ .jsonList then fail ("field " ++ quoteName name ++ " is not a tag list")
  else
    match ← liftM (expectLiteral element) with
    | .str str =>
        let placeholder ← addArg (.str (exactTagText dialect str))
        return single (exactTagShape dialect field) placeholder (arity_exactTagShape dialect field)
    | _ => fail "tags membership requires string literal"

/-- A case-insensitive match of an expression with an escaped pattern. -/
def foldedLike (expr : SqlExpr) (pattern : String) : m (Fragment σ) := do
  let placeholder ← addArg (.str pattern)
  return single (.foldedLike expr) placeholder

/-- A column starts with, ends with or contains a text, without regard to case. -/
def renderTextMatch (name : String) (mode : TextMatchMode) (value : String) :
    m (Fragment σ) := do
  let field ← liftM (lookupField schema name)
  foldedLike addArg (.columnExpr field) (likePattern mode value)

/-- A column matches a regular expression. -/
def renderRegex (name pattern : String) : m (Fragment σ) := do
  let field ← liftM (lookupField schema name)
  let placeholder ← addArg (.str pattern)
  return single (.regexp (.columnExpr field)) placeholder

/-- The condition on one element of a list. -/
def elementPredicateSQL : PredicateExpr → m (Fragment σ)
  | .equals value => do
      let placeholder ← addArg (.str value)
      return single (.compare .value .eq) placeholder
  | .startsWith text => foldedLike addArg .value (likePattern .matchPrefix text)
  | .endsWith suffix => foldedLike addArg .value (likePattern .matchSuffix suffix)
  | .contains substring => foldedLike addArg .value (likePattern .matchContains substring)

/-- Every element of the list satisfies the predicate. -/
def renderTagAll (field : Field) (pred : PredicateExpr) : m (Fragment σ) := do
  let element ← elementPredicateSQL addArg pred
  return ⟨.allElements (.jsonArray field) element.shape, element.slots, element.filled⟩

/-- Exactly one element of the list satisfies the predicate. -/
def renderTagExistsOne (field : Field) (pred : PredicateExpr) : m (Fragment σ) := do
  let element ← elementPredicateSQL addArg pred
  return ⟨.oneElement (.jsonArray field) element.shape, element.slots, element.filled⟩

/-- A match against the text of a JSON array. -/
def buildJSONArrayLike (field : Field) (pattern : String) : m (Fragment σ) := do
  let placeholder ← addArg (.str pattern)
  return single (.arrayLike (.jsonArray field)) placeholder

/-- The exact element test of a comprehension; Postgres uses containment. -/
def buildExactMatch (field : Field) (value : String) : m (Fragment σ) := do
  match dialect with
  | .postgres =>
      let placeholder ← addArg (.str ("\"" ++ value ++ "\""))
      return single (.arrayContains (.jsonArray field)) placeholder
  | _ => buildJSONArrayLike addArg field ("%\"" ++ value ++ "\"%")

/-- The condition together with the test that the array is present and not empty. -/
def wrapWithNullCheck (field : Field) (f : Fragment σ) : Fragment σ :=
  ⟨.withNullCheck f.shape (.jsonArray field), f.slots, f.filled⟩

/-- The serialized list has the value as an element. -/
def renderTagEquals (field : Field) (value : String) : m (Fragment σ) := do
  let exactMatch ← buildExactMatch addArg dialect field value
  return wrapWithNullCheck field exactMatch

/-- The serialized list has an element that starts with the text. -/
def renderTagStartsWith (field : Field) (text : String) : m (Fragment σ) := do
  let exactMatch ← buildExactMatch addArg dialect field text
  let prefixMatch ← buildJSONArrayLike addArg field ("%\"" ++ text ++ "%")
  return wrapWithNullCheck field (exactMatch.either prefixMatch)

/-- The serialized list has an element that ends with the text. -/
def renderTagEndsWith (field : Field) (suffix : String) : m (Fragment σ) := do
  let likeExpr ← buildJSONArrayLike addArg field ("%" ++ suffix ++ "\"%")
  return wrapWithNullCheck field likeExpr

/-- The serialized list contains the text. -/
def renderTagContains (field : Field) (substring : String) : m (Fragment σ) := do
  let likeExpr ← buildJSONArrayLike addArg field ("%" ++ substring ++ "%")
  return wrapWithNullCheck field likeExpr

/-- A comprehension over a list within the payload, by its kind. -/
def renderListComprehension (kind : ComprehensionKind) (name : String) (pred : PredicateExpr) :
    m (Fragment σ) := do
  let field ← liftM (lookupField schema name)
  if field.kind ≠ .jsonList then fail ("field " ++ quoteName name ++ " is not a JSON list")
  else
    match kind with
    | .all => renderTagAll addArg field pred
    | .existsOne => renderTagExistsOne addArg field pred
    | .exists =>
        match pred with
        | .equals value => renderTagEquals addArg dialect field value
        | .startsWith text => renderTagStartsWith addArg dialect field text
        | .endsWith suffix => renderTagEndsWith addArg field suffix
        | .contains substring => renderTagContains addArg field substring

/-- The SQL of an atomic condition. -/
def renderAtom : Condition → m (Fragment σ)
  | .fieldPredicate field => renderFieldPredicate schema dialect field
  | .comparison left op right => renderComparison addArg schema dialect left op right
  | .inList left values => renderInCondition addArg schema dialect left values
  | .elementIn element field => renderElementInCondition addArg schema dialect element field
  | .textMatch field mode value => renderTextMatch addArg schema field mode value
  | .regex field pattern => renderRegex addArg schema field pattern
  | .listComprehension kind field _ predicate =>
      renderListComprehension addArg schema dialect kind field predicate
  | _ => fail "unsupported condition type"

end Atoms

/-- An atom read on its own, with its values in place of the placeholders. -/
def Condition.atom (schema : Schema) (dialect : DialectName) (c : Condition) :
    Except String (Fragment Arg) :=
  renderAtom pure schema dialect c

/-! ## The renderer -/

/-- The changing part of the renderer; schema and dialect are parameters. -/
structure Renderer where
  placeholderOffset : ℕ
  placeholderCounter : ℕ := 0
  args : List Arg := []
deriving DecidableEq

/-- A computation that may hand out placeholders and may fail. -/
abbrev RenderM := StateT Renderer (Except String)

/-- Record a bound value and hand out its placeholder, counted from zero. -/
def addArg (value : Arg) : RenderM ℕ :=
  modifyGet fun r =>
    (r.placeholderOffset + r.placeholderCounter,
      { r with placeholderCounter := r.placeholderCounter + 1, args := r.args ++ [value] })

/-- The SQL of a condition, unless it folded to a constant. -/
structure RenderResult where
  sql : SqlText := []
  trivial : Bool := false
  unsatisfiable : Bool := false
deriving DecidableEq

namespace RenderResult

/-- The result of an atom. -/
def ofFragment (f : Fragment ℕ) : RenderResult where
  sql := [.leaf f]

/-- A condition that folded to true has no SQL. -/
def always : RenderResult where
  trivial := true

/-- A condition that folded to false. -/
def never : RenderResult where
  sql := [.leaf (fixed (.constant false))]
  unsatisfiable := true

end RenderResult

/-- Both results, where a trivial one leaves the other as it is. -/
def combineAnd (left right : RenderResult) : RenderResult :=
  if left.unsatisfiable ∨ right.unsatisfiable then .never
  else if left.trivial then right
  else if right.trivial then left
  else { sql := .openParen :: (left.sql ++ .andWord :: right.sql) ++ [.closeParen] }

/-- One of two results, where an unsatisfiable one leaves the other as it is. -/
def combineOr (left right : RenderResult) : RenderResult :=
  if left.trivial ∨ right.trivial then .always
  else if left.unsatisfiable then right
  else if right.unsatisfiable then left
  else { sql := .openParen :: (left.sql ++ .orWord :: right.sql) ++ [.closeParen] }

/-- The negation of a result. -/
def renderNot (child : RenderResult) : RenderResult :=
  if child.trivial then .never
  else if child.unsatisfiable then .always
  else { sql := .notWord :: (.openParen :: child.sql ++ [.closeParen]) }

/-- The statement of a whole condition, by recursion on its tree. -/
def renderCondition (schema : Schema) (dialect : DialectName) : Condition → RenderM RenderResult
  | .logical operator left right => do
      let leftResult ← renderCondition schema dialect left
      let rightResult ← renderCondition schema dialect right
      match operator with
      | .and => return combineAnd leftResult rightResult
      | .or => return combineOr leftResult rightResult
  | .not expr => do
      let child ← renderCondition schema dialect expr
      return renderNot child
  | .constant value => return if value then .always else .never
  | atom => return .ofFragment (← renderAtom addArg schema dialect atom)

/-- A rendered SQL fragment and its bound values; empty SQL stands for true. -/
structure Statement where
  sql : SqlText
  args : List Arg
deriving DecidableEq

/-- The statement of a result. -/
def RenderResult.statement (result : RenderResult) (args : List Arg) : Statement :=
  if result.unsatisfiable then ⟨RenderResult.never.sql, args⟩
  else if result.trivial then ⟨[], args⟩
  else ⟨result.sql, args⟩

/-- Render a condition, numbering placeholders from an offset. -/
def render (schema : Schema) (dialect : DialectName) (placeholderOffset : ℕ)
    (cond : Condition) : Except String Statement := do
  let (result, r) ← renderCondition schema dialect cond { placeholderOffset }
  return result.statement r.args

end Filter
end MemosNote
