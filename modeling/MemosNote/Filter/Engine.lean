import MemosNote.Filter.Parser
import MemosNote.Filter.Render

/-!
# The filter engine

The engine compiles a filter text to a condition and renders it.  A store query
appends the statements of its filters to a where clause and to the list of bound
values.
-/

namespace MemosNote
namespace Filter

/-- A filter engine.  The expression-language library, which parses a text and checks its
types, is a parameter. -/
structure Engine where
  context : ParseContext
  check : String → Except String Expr

/-- The white space of the Go standard library. -/
def isSpace (c : Char) : Bool :=
  c.toNat ∈ [0x09, 0x0a, 0x0b, 0x0c, 0x0d, 0x20, 0x85, 0xa0, 0x1680, 0x2028, 0x2029, 0x202f,
    0x205f, 0x3000] || (0x2000 ≤ c.toNat && c.toNat ≤ 0x200a)

/-- Parse a filter into a condition. -/
def Engine.compile (engine : Engine) (filter : String) : Except String Condition := do
  if filter.toList.all isSpace then throw "filter expression is empty"
  else
    let expr ← wrapError "failed to compile filter" (engine.check filter)
    buildCondition engine.context expr

/-- Compile and render a filter in one step. -/
def Engine.compileToStatement (engine : Engine) (filter : String) (dialect : DialectName)
    (placeholderOffset : ℕ) : Except String Statement := do
  let cond ← engine.compile filter
  render engine.context.schema dialect placeholderOffset cond

/-- A where clause under construction: the texts to be joined by {lit}`AND`, and the bound
values of the statement so far. -/
structure WhereClause where
  conditions : List SqlText
  args : List Arg
deriving DecidableEq

/-- The joined text. -/
def WhereClause.sql (w : WhereClause) : SqlText :=
  Library.joinAnd w.conditions

/-- Add one text with its bound values. -/
def WhereClause.add (w : WhereClause) (sql : SqlText) (args : List Arg) : WhereClause where
  conditions := w.conditions ++ [sql]
  args := w.args ++ args

/-- Append a statement in parentheses; an empty statement appends nothing. -/
def WhereClause.addStatement (w : WhereClause) (stmt : Statement) : WhereClause :=
  if stmt.sql = [] then w
  else w.add (.openParen :: stmt.sql ++ [.closeParen]) stmt.args

/-- Compile filters and append them to a where clause. -/
def appendConditions (engine : Engine) (dialect : DialectName) :
    List String → WhereClause → Except String WhereClause
  | [], w => pure w
  | filter :: filters, w => do
      let stmt ← engine.compileToStatement filter dialect w.args.length
      appendConditions engine dialect filters (w.addStatement stmt)

end Filter
end MemosNote
