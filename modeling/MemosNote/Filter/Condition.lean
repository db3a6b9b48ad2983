import Mathlib.Data.Rat.Defs
import MemosNote.Filter.Schema

/-!
# Conditions

The dialect-agnostic condition tree a filter is compiled to, and the bound
values of a rendered statement.
-/

namespace MemosNote
namespace Filter

/-- A literal scalar. -/
inductive Literal where
  | str (s : String)
  | int (n : Int64)
  /-- A double, by its exact value. -/
  | double (q : ℚ)
  | bool (b : Bool)
  | null
deriving DecidableEq

/-- The Go type of a literal, as error texts name it. -/
def Literal.goType : Literal → String
  | .str _ => "string"
  | .int _ => "int64"
  | .double _ => "float64"
  | .bool _ => "bool"
  | .null => "<nil>"

/-- Conversion of a double to a 64-bit integer: truncation, with the smallest
integer for values out of range. -/
def truncate (q : ℚ) : Int64 :=
  let n := q.num.tdiv q.den
  if -9223372036854775808 ≤ n ∧ n ≤ 9223372036854775807 then Int64.ofInt n else Int64.minValue

/-- A name in double quotes. -/
def quoteName (name : String) : String :=
  "\"" ++ name ++ "\""

/-- A bound value of a statement. -/
inductive Arg where
  | str (s : String)
  | int (n : Int64)
  | bool (b : Bool)
deriving DecidableEq, Repr

/-- Scalar expressions that feed a comparison. -/
inductive ValueExpr where
  | fieldRef (name : String)
  | literal (value : Literal)
  | function (name : String) (args : List ValueExpr)
  | fieldAccessor (field accessor : String)

/-- The logical operators. -/
inductive LogicalOperator where
  | and
  | or
deriving DecidableEq, Repr

/-- The modes of a text match. -/
inductive TextMatchMode where
  | matchContains
  | matchPrefix
  | matchSuffix
deriving DecidableEq, Repr

/-- The supported list comprehensions. -/
inductive ComprehensionKind where
  | exists
  | all
  | existsOne
deriving DecidableEq, Repr

/-- The predicates a comprehension may apply to an element. -/
inductive PredicateExpr where
  | startsWith (text : String)
  | endsWith (suffix : String)
  | contains (substring : String)
  | equals (value : String)
deriving DecidableEq, Repr

/-- A boolean expression derived from a filter. -/
inductive Condition where
  | logical (operator : LogicalOperator) (left right : Condition)
  | not (expr : Condition)
  | fieldPredicate (field : String)
  | comparison (left : ValueExpr) (operator : ComparisonOperator) (right : ValueExpr)
  | inList (left : ValueExpr) (values : List ValueExpr)
  | elementIn (element : ValueExpr) (field : String)
  | textMatch (field : String) (mode : TextMatchMode) (value : String)
  | regex (field pattern : String)
  | listComprehension (kind : ComprehensionKind) (field iterVar : String)
      (predicate : PredicateExpr)
  | constant (value : Bool)

end Filter
end MemosNote
