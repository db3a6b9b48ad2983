import MemosNote.Filter.Sql

/-!
# From expressions to conditions

The filter text is parsed and type-checked by the expression-language library; this
module translates the checked expression tree to a condition.  Arithmetic on
literals, timestamps and durations is folded to a 64-bit number of seconds.
-/

namespace MemosNote
namespace Filter

/-- The constants of an expression. -/
inductive Constant where
  | nullValue
  | boolValue (b : Bool)
  | int64Value (n : Int64)
  | uint64Value (n : UInt64)
  /-- A double, by its exact value. -/
  | doubleValue (q : ℚ)
  | stringValue (s : String)
  /-- Bytes and the like, by their Go type. -/
  | other (goType : String)
deriving DecidableEq

/-- A checked expression. -/
inductive Expr where
  | const (c : Constant)
  | ident (name : String)
  | call (target : Option Expr) (function : String) (args : List Expr)
  | list (elements : List Expr)
  | comprehension (iterVar : String) (iterRange accuInit loopStep : Expr)
  | other

/-- What a compilation knows besides the expression: the frozen time, and the seconds
denoted by a timestamp text and by a duration text. -/
structure ParseContext where
  schema : Schema
  now : Int64
  parseTimestamp : String → Except String Int64
  parseDuration : String → Except String Int64

/-! ## Literals and constant folding -/

/-- The name of an expression that is an identifier. -/
def getIdentName : Expr → Except String String
  | .ident name => pure name
  | _ => throw "expression is not an identifier"

/-- The literal of an expression that is a constant. -/
def getConstValue : Expr → Except String Literal
  | .const (.stringValue s) => pure (.str s)
  | .const (.int64Value n) => pure (.int n)
  | .const (.uint64Value n) => pure (.int n.toInt64)
  | .const (.doubleValue q) => pure (.double q)
  | .const (.boolValue b) => pure (.bool b)
  | .const .nullValue => pure .null
  | .const (.other goType) => throw ("unsupported constant " ++ goType)
  | _ => throw "expression is not a literal"

/-- Prefix the message of an error. -/
def wrapError {α : Type} (message : String) : Except String α → Except String α
  | .ok a => .ok a
  | .error e => .error (message ++ ": " ++ e)

/-- A boolean literal under any number of negations. -/
def evaluateBoolExpr : Expr → Except String (Option Bool)
  | .const c =>
      match getConstValue (.const c) with
      | .ok (.bool b) => pure (some b)
      | _ => pure none
  | .call _ "!_" args =>
      match args with
      | [e] => do return (← evaluateBoolExpr e).map (! ·)
      | _ => throw "NOT expects exactly one argument"
  | _ => pure none

/-- The second that a timestamp() literal names. -/
def evaluateTimestamp (pc : ParseContext) (args : List Expr) : Except String (Option Int64) :=
  match args with
  | [arg] => do
      match ← wrapError "timestamp() only supports literal arguments" (getConstValue arg) with
      | .str v => some <$> wrapError "invalid timestamp literal" (pc.parseTimestamp v)
      | .int v => pure (some v)
      | _ => throw "timestamp() argument must be an RFC3339 string or epoch int"
  | _ => throw "timestamp() expects one argument"

/-- The number of seconds of a duration() literal. -/
def evaluateDuration (pc : ParseContext) (args : List Expr) : Except String (Option Int64) :=
  match args with
  | [arg] => do
      match ← wrapError "duration() only supports literal arguments" (getConstValue arg) with
      | .str v => some <$> wrapError "invalid duration literal" (pc.parseDuration v)
      | _ => throw "duration() argument must be a string"
  | _ => throw "duration() expects one argument"

/-- The arithmetic of folded values wraps around and truncates. -/
def evaluateArithmetic (function : String) (left right : Int64) : Except String (Option Int64) :=
  match function with
  | "_+_" => pure (some (left + right))
  | "_-_" => pure (some (left - right))
  | "_*_" => pure (some (left * right))
  | "_/_" => if right = 0 then throw "division by zero" else pure (some (left / right))
  | "_%_" => if right = 0 then throw "modulo by zero" else pure (some (left % right))
  | _ => throw ("unsupported arithmetic operator " ++ quoteName function)

/-- The functions that are folded as arithmetic. -/
def isArithmetic (function : String) : Bool :=
  function ∈ ["_+_", "_-_", "_*_", "_/_", "_%_"]

/-- Fold an expression to a number of seconds. -/
def evaluateNumeric (pc : ParseContext) : Expr → Except String (Option Int64)
  | .const c =>
      match getConstValue (.const c) with
      | .ok (.int v) => pure (some v)
      | .ok (.double q) => pure (some (truncate q))
      | _ => pure none
  | .ident name => pure (if name = "now" then some pc.now else none)
  | .call _ function args =>
      if function = "timestamp" then evaluateTimestamp pc args
      else if function = "duration" then evaluateDuration pc args
      else if isArithmetic function then
        match args with
        | [l, r] => do
            match ← evaluateNumeric pc l with
            | none => pure none
            | some left =>
                match ← evaluateNumeric pc r with
                | none => pure none
                | some right => evaluateArithmetic function left right
        | _ => throw "arithmetic requires two arguments"
      else pure none
  | _ => pure none

/-! ## Value expressions -/

/-- A part of a time, such as its hour, of a field that holds a time. -/
def buildTimestampAccessor (schema : Schema) (target : Expr) (function : String)
    (args : List Expr) : Except String ValueExpr := do
  let targetName ← wrapError "timestamp accessor requires a field target" (getIdentName target)
  match schema.field targetName with
  | none => throw ("unknown identifier " ++ quoteName targetName)
  | some field =>
      if field.type ≠ .timestamp then
        throw (function ++ "() is only valid on timestamp fields, got " ++ quoteName targetName)
      else if args.length ≠ 0 then
        throw (function ++ "() with a timezone argument is not supported")
      else pure (.fieldAccessor targetName function)

/-- What the expression folds to, if it is a constant. -/
def foldConstant (pc : ParseContext) (e : Expr) : Except String (Option Literal) :=
  match getConstValue e with
  | .ok literal => pure (some literal)
  | .error _ => do
      match ← evaluateNumeric pc e with
      | some value => pure (some (.int value))
      | none => return (← evaluateBoolExpr e).map .bool

/-- A value: a field, a literal, a part of a time, a size, or folded arithmetic. -/
def buildValueExpr (pc : ParseContext) : Expr → Except String ValueExpr
  | .ident name =>
      if name = "now" then pure (.literal (.int pc.now))
      else match pc.schema.field name with
        | some _ => pure (.fieldRef name)
        | none => throw ("unknown identifier " ++ quoteName name)
  | .call target function args => do
      match ← foldConstant pc (.call target function args) with
      | some literal => pure (.literal literal)
      | none =>
          match target, (Accessor.ofName? function).isSome with
          | some t, true => buildTimestampAccessor pc.schema t function args
          | _, _ =>
              if function = "size" then
                match args with
                | [arg] => do return .function "size" [← buildValueExpr pc arg]
                | _ => throw "size() expects one argument"
              else throw "unsupported value expression"
  | e => do
      match ← foldConstant pc e with
      | some literal => pure (.literal literal)
      | none => throw "unsupported value expression"

/-- Values, one after another. -/
def buildValueExprs (pc : ParseContext) : List Expr → Except String (List ValueExpr)
  | [] => pure []
  | e :: es => do
      let value ← buildValueExpr pc e
      let values ← buildValueExprs pc es
      return value :: values

/-! ## Conditions -/

/-- The operator that a function of CEL stands for. -/
def toComparisonOperator (fn : String) : Except String ComparisonOperator :=
  match fn with
  | "_==_" => pure .eq
  | "_!=_" => pure .neq
  | "_<_" => pure .lt
  | "_>_" => pure .gt
  | "_<=_" => pure .lte
  | "_>=_" => pure .gte
  | _ => throw ("unsupported comparison operator " ++ quoteName fn)

/-- The operator check of a field on the left of a comparison. -/
def checkOperator (schema : Schema) (op : ComparisonOperator) (name : String) :
    Except String Unit := do
  match schema.field name with
  | none => throw ("unknown identifier " ++ quoteName name)
  | some _ =>
      match schema.resolveAlias name with
      | none => throw ("invalid alias " ++ quoteName name)
      | some field =>
          match field.allowedComparisonOps with
          | none => pure ()
          | some ops =>
              if op ∈ ops then pure ()
              else throw ("operator " ++ sqlOperator op ++ " not allowed for field " ++
                quoteName name)

/-- A comparison of two values. -/
def buildComparisonCondition (pc : ParseContext) (function : String) (args : List Expr) :
    Except String Condition :=
  match args with
  | [l, r] => do
      let op ← toComparisonOperator function
      let left ← buildValueExpr pc l
      let right ← buildValueExpr pc r
      match left with
      | .fieldRef name => checkOperator pc.schema op name
      | _ => pure ()
      return .comparison left op right
  | _ => throw "comparison expects two arguments"

/-- The identifier check of {lit}`identifier in [..]`. -/
def checkInIdentifier (schema : Schema) (name : String) : Except String Unit :=
  match schema.field name with
  | none => throw ("unknown identifier " ++ quoteName name)
  | some field =>
      if field.kind = .virtualAlias ∧ (schema.resolveAlias name).isNone then
        throw ("invalid alias " ++ quoteName name)
      else pure ()

/-- {lit}`value in identifier`. -/
def buildElementIn (pc : ParseContext) (l r : Expr) : Except String Condition :=
  match r with
  | .ident name => do
      match pc.schema.field name with
      | none => throw ("unknown identifier " ++ quoteName name)
      | some _ => return .elementIn (← buildValueExpr pc l) name
  | _ => throw "invalid use of in operator"

/-- Whether a field is in a list of values, or a value in a list field. -/
def buildInCondition (pc : ParseContext) (args : List Expr) : Except String Condition :=
  match args with
  | [.ident name, r] => do
      checkInIdentifier pc.schema name
      match r with
      | .list elements => return .inList (.fieldRef name) (← buildValueExprs pc elements)
      | _ => buildElementIn pc (.ident name) r
  | [l, r] => buildElementIn pc l r
  | _ => throw "in operator expects two arguments"

/-- The target of a text match; the message names what the field lacks. -/
def textTarget (schema : Schema) (target : Option Expr) (missing unsupported : String) :
    Except String String := do
  match target with
  | none => throw missing
  | some target =>
      let name ← getIdentName target
      match schema.field name with
      | none => throw ("unknown identifier " ++ quoteName name)
      | some field =>
          if field.supportsContains then pure name
          else throw ("identifier " ++ quoteName name ++ " does not support " ++ unsupported)

/-- The only argument of a text match, a string literal. -/
def textArgument (args : List Expr) (arity literal type : String) : Except String String :=
  match args with
  | [arg] => do
      match ← wrapError literal (getConstValue arg) with
      | .str s => pure s
      | _ => throw type
  | _ => throw arity

/-- A text match on a field. -/
def buildTextMatchCondition (schema : Schema) (target : Option Expr) (args : List Expr)
    (mode : TextMatchMode) : Except String Condition := do
  let name ← textTarget schema target "text match requires a target" "text matching"
  let str ← textArgument args "text match expects exactly one argument"
    "text match only supports literal arguments" "text match argument must be a string"
  return .textMatch name mode str

/-- A match of a regular expression on a field. -/
def buildMatchesCondition (schema : Schema) (target : Option Expr) (args : List Expr) :
    Except String Condition := do
  let name ← textTarget schema target "matches requires a target" "matches()"
  let pattern ← textArgument args "matches expects exactly one argument"
    "matches only supports literal arguments" "matches argument must be a string"
  return .regex name pattern

/-- A nonempty list of conditions combined from the left. -/
def combineConditions (op : LogicalOperator) (first : Condition) (rest : List Condition) :
    Condition :=
  rest.foldl (fun result c => .logical op result c) first

/-- The values of a list without repetitions, in order of first occurrence. -/
def distinctStrings (values : List String) : List String :=
  values.foldl (fun out v => if v ∈ out then out else out ++ [v]) []

/-- The elements of a list of string literals. -/
def stringElements : List Expr → Except String (List String)
  | [] => pure []
  | el :: els => do
      match ← wrapError "set operations only support literal string elements"
          (getConstValue el) with
      | .str s => return s :: (← stringElements els)
      | _ => throw "set operations require string elements"

/-- {lit}`s in field`. -/
def membership (field : String) (s : String) : Condition :=
  .elementIn (.literal (.str s)) field

/-- {lit}`size(field) == n`. -/
def sizeEquals (field : String) (n : ℕ) : Condition :=
  .comparison (.function "size" [.fieldRef field]) .eq (.literal (.int (Int64.ofNat n)))

/-- The condition of a set operation over literal values. -/
def setCondition (function field : String) (values : List String) : Except String Condition :=
  match function with
  | "sets.contains" =>
      match values with
      | [] => pure (.constant true)
      | v :: vs => pure (combineConditions .and (membership field v) (vs.map (membership field)))
  | "sets.intersects" =>
      match values with
      | [] => pure (.constant false)
      | v :: vs => pure (combineConditions .or (membership field v) (vs.map (membership field)))
  | "sets.equivalent" =>
      match distinctStrings values with
      | [] => pure (sizeEquals field 0)
      | v :: vs =>
          pure (.logical .and
            (combineConditions .and (membership field v) (vs.map (membership field)))
            (sizeEquals field (vs.length + 1)))
  | _ => throw ("unsupported set operation " ++ quoteName function)

/-- A function on sets, written with memberships. -/
def buildSetCondition (pc : ParseContext) (function : String) (args : List Expr) :
    Except String Condition :=
  match args with
  | [l, r] => do
      let name ← wrapError "set operations require a list field as the first argument"
        (getIdentName l)
      match pc.schema.field name with
      | none => throw ("unknown identifier " ++ quoteName name)
      | some field =>
          if field.kind ≠ .jsonList then
            throw ("set operations require a list field, got " ++ quoteName name)
          else match r with
            | .list elements => do setCondition function name (← stringElements elements)
            | _ => throw "set operations require a list literal as the second argument"
  | _ => throw (function ++ " expects two arguments")

/-! ## Comprehensions -/

/-- The kind of a comprehension, read off its accumulator and its loop step. -/
def detectComprehensionKind (accuInit loopStep : Expr) : Except String ComprehensionKind :=
  match accuInit with
  | .const c =>
      let step := match loopStep with
        | .call _ function _ => function
        | _ => ""
      if c ≠ .boolValue true ∧ step = "_||_" then pure .exists
      else if c = .boolValue true ∧ step = "_&&_" then pure .all
      else match c, step with
        | .int64Value _, "_?_:_" => pure .existsOne
        | _, _ => throw "unsupported comprehension type (supported: exists, all, exists_one)"
  | _ => throw "comprehension accumulator must be initialized with a constant"

/-- The variable of a comprehension. -/
def isIterVarExpr (iterVar : String) : Expr → Bool
  | .ident name => name == iterVar
  | _ => false

/-- A constant string argument; the messages start with the name of the predicate. -/
def stringArgument (name : String) (e : Expr) : Except String String := do
  match ← wrapError (name ++ " argument must be a constant string") (getConstValue e) with
  | .str s => pure s
  | _ => throw (name ++ " argument must be a string")

/-- An equality with the variable on either side. -/
def buildEqualsPredicate (iterVar : String) (args : List Expr) : Except String PredicateExpr :=
  match args with
  | [l, r] => do
      if isIterVarExpr iterVar l then return .equals (← stringArgument "equality" r)
      else if isIterVarExpr iterVar r then return .equals (← stringArgument "equality" l)
      else throw ("equality predicate must compare against the iteration variable " ++
        quoteName iterVar)
  | _ => throw "equality predicate expects exactly two arguments"

/-- A predicate that calls a method of the iteration variable with one string. -/
def buildMethodPredicate (name : String) (build : String → PredicateExpr) (iterVar : String)
    (target : Option Expr) (args : List Expr) : Except String PredicateExpr :=
  if target.any (isIterVarExpr iterVar) then
    match args with
    | [arg] => build <$> stringArgument name arg
    | _ => throw (name ++ " expects exactly one argument")
  else throw (name ++ " target must be the iteration variable " ++ quoteName iterVar)

/-- The variable starts with a text. -/
def buildStartsWithPredicate := buildMethodPredicate "startsWith" .startsWith

/-- The variable ends with a text. -/
def buildEndsWithPredicate := buildMethodPredicate "endsWith" .endsWith

/-- The variable contains a text. -/
def buildContainsPredicate := buildMethodPredicate "contains" .contains

/-- The predicate expression inside a loop step. -/
def predicateOfStep (function : String) (args : List Expr) : Except String Expr :=
  if function = "_?_:_" then
    match args with
    | [predicate, _, _] => pure predicate
    | _ => throw "exists_one loop step must have three arguments"
  else
    match args with
    | [_, predicate] => pure predicate
    | _ => throw "comprehension loop step must have two arguments"

/-- The predicate within the step of an expanded comprehension. -/
def extractPredicate (iterVar : String) (loopStep : Expr) : Except String PredicateExpr := do
  match loopStep with
  | .call _ function args =>
      match ← predicateOfStep function args with
      | .call target predicate arguments =>
          match predicate with
          | "_==_" => buildEqualsPredicate iterVar arguments
          | "startsWith" => buildStartsWithPredicate iterVar target arguments
          | "endsWith" => buildEndsWithPredicate iterVar target arguments
          | "contains" => buildContainsPredicate iterVar target arguments
          | _ => throw ("unsupported predicate function " ++ quoteName predicate ++
              " in comprehension (supported: ==, startsWith, endsWith, contains)")
      | _ => throw "comprehension predicate must be a function call"
  | _ => throw "comprehension loop step must be a call expression"

/-- A comprehension over a list field. -/
def buildComprehensionCondition (schema : Schema) (iterVar : String)
    (iterRange accuInit loopStep : Expr) : Except String Condition := do
  let kind ← detectComprehensionKind accuInit loopStep
  match iterRange with
  | .ident name =>
      match schema.field name with
      | none => throw ("unknown field " ++ quoteName name ++ " in comprehension")
      | some field =>
          if field.kind ≠ .jsonList then
            throw ("field " ++ quoteName name ++ " does not support comprehension (must be a list)")
          else return .listComprehension kind name iterVar (← extractPredicate iterVar loopStep)
  | _ => throw "comprehension range must be a field identifier"

/-! ## The translation -/

/-- Calls other than the logical connectives. -/
def buildAtomCall (pc : ParseContext) (target : Option Expr) (function : String)
    (args : List Expr) : Except String Condition :=
  match function with
  | "_==_" | "_!=_" | "_<_" | "_>_" | "_<=_" | "_>=_" => buildComparisonCondition pc function args
  | "@in" => buildInCondition pc args
  | "contains" => buildTextMatchCondition pc.schema target args .matchContains
  | "startsWith" => buildTextMatchCondition pc.schema target args .matchPrefix
  | "endsWith" => buildTextMatchCondition pc.schema target args .matchSuffix
  | "matches" => buildMatchesCondition pc.schema target args
  | "sets.contains" | "sets.intersects" | "sets.equivalent" => buildSetCondition pc function args
  | _ => throw ("unsupported call expression " ++ quoteName function)

/-- The condition of an expression, by recursion on it. -/
def buildCondition (pc : ParseContext) : Expr → Except String Condition
  | .call target function args =>
      if function = "_&&_" then
        match args with
        | [l, r] => do return .logical .and (← buildCondition pc l) (← buildCondition pc r)
        | _ => throw "logical AND expects two arguments"
      else if function = "_||_" then
        match args with
        | [l, r] => do return .logical .or (← buildCondition pc l) (← buildCondition pc r)
        | _ => throw "logical OR expects two arguments"
      else if function = "!_" then
        match args with
        | [e] => do return .not (← buildCondition pc e)
        | _ => throw "logical NOT expects one argument"
      else buildAtomCall pc target function args
  | .const c => do
      match ← getConstValue (.const c) with
      | .bool value => pure (.constant value)
      | _ => throw "filter must evaluate to a boolean value"
  | .ident name => do
      match pc.schema.field name with
      | none => throw ("unknown identifier " ++ quoteName name)
      | some field =>
          if field.type ≠ .bool then throw ("identifier " ++ quoteName name ++ " is not boolean")
          else pure (.fieldPredicate name)
  | .comprehension iterVar iterRange accuInit loopStep =>
      buildComprehensionCondition pc.schema iterVar iterRange accuInit loopStep
  | _ => throw "unsupported top-level expression"

end Filter
end MemosNote
