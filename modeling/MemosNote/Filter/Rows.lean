import MemosNote.Filter.Skeleton
import MemosNote.Filter.TextMatch
import MemosNote.Library.JsonText
import MemosNote.Store.Tables

/-!
# What a rendered statement asks of a row

A database evaluates the SQL of a filter on one row.  An absent JSON key is {lit}`NULL`, and tests
on {lit}`NULL` are unknown unless SQL says otherwise.  A statement that the database refuses, or
whose evaluation fails, has no answer.

What the servers decide themselves, the collation of texts, the regular expressions and the
calendar, are the parameters of {lit}`Server`.

Main results:

- Definition {lit}`Shape.answer`: the truth value of an atom on a row.
- Definition {lit}`Statement.answer`: the truth value of a statement, its placeholders filled by
  position or by number.
- Theorem {lit}`answerBy_render`: a statement without constants asks what its condition asks.
-/

namespace MemosNote
namespace Filter

open Library

/-! ## Values and rows -/

/-- A value of SQL. -/
inductive Datum where
  | null
  | int (n : ℤ)
  | text (s : String)
  | bool (b : Bool)
  | json (j : Json)

/-- A row, by its columns and by the names that the store writes itself. -/
structure Row where
  column : Column → Datum
  named : String → Datum := fun _ => .null

/-- A database server. -/
structure Server where
  dialect : DialectName
  /-- The folding of case-insensitive matches. -/
  folding : CaseFolding
  /-- The collation of text columns. -/
  compareText : String → String → Ordering
  /-- A regular expression on a text; an invalid expression fails. -/
  regexp : String → String → Option Bool
  /-- The date part of an epoch second, as the server counts it. -/
  datePart : Accessor → ℤ → ℤ

/-- A server that compares texts as they are, has no regular expressions and does not compute
dates. -/
def exactServer (d : DialectName) : Server where
  dialect := d
  folding := .exact
  compareText := compare
  regexp _ _ := none
  datePart _ seconds := seconds

/-- The members of a property message: a boolean that is false is not written. -/
def propertyMembers (p : Store.MemoProperty) : List (String × Json) :=
  let flag (key : String) (value : Bool) := if value then [(key, Json.bool true)] else []
  flag "hasLink" p.HasLink ++ flag "hasTaskList" p.HasTaskList ++ flag "hasCode" p.HasCode ++
    flag "hasIncompleteTasks" p.HasIncompleteTasks ++
    if p.Title = "" then [] else [("title", .text p.Title)]

/-- The members of a location message. -/
def locationMembers (l : Store.Location) : List (String × Json) :=
  let coordinate (key : String) (value : ℕ) := if value = 0 then [] else [(key, Json.number value)]
  (if l.Placeholder = "" then [] else [("placeholder", .text l.Placeholder)]) ++
    coordinate "latitude" l.Latitude ++ coordinate "longitude" l.Longitude

/-- The JSON of a payload: absent messages and empty lists are not written. -/
def payloadJson (p : Store.MemoPayload) : Json :=
  .object ((p.Property.map fun v => ("property", Json.object (propertyMembers v))).toList ++
    (p.Location.map fun v => ("location", Json.object (locationMembers v))).toList ++
    if p.Tags = [] then [] else [("tags", .array (p.Tags.map .text))])

/-- The text of a visibility. -/
def visibilityText : Store.Visibility → String
  | .Public => "PUBLIC"
  | .Protected => "PROTECTED"
  | .Private => "PRIVATE"

/-- A memo as a row; the creator is joined by a left join.  Only Postgres has booleans. -/
def memoRow (d : DialectName) (username : Option String) (m : Store.Memo) : Row where
  column col :=
    if col = ⟨"memo_creator", "username"⟩ then username.elim .null .text
    else if col.table ≠ "memo" then .null
    else match col.name with
      | "content" => .text m.Content
      | "creator_id" => .int m.CreatorID
      | "created_ts" => .int m.CreatedTs
      | "updated_ts" => .int m.UpdatedTs
      | "pinned" => if d = .postgres then .bool m.Pinned else .int m.Pinned.toNat
      | "visibility" => .text (visibilityText m.Visibility)
      | "payload" => .json (payloadJson m.Payload)
      | _ => .null

/-- A bound value as the driver sends it. -/
def Arg.datum (d : DialectName) : Arg → Datum
  | .str s => .text s
  | .int n => .int n.toInt
  | .bool b => if d = .postgres then .bool b else .int b.toNat

/-! ## Scalar expressions -/

/-- The JSON scalar under a path; SQLite has no booleans and Postgres extracts text. -/
def jsonExtractValue (d : DialectName) (path : List String) : Datum → Datum
  | .json j =>
      match j.lookup path, d with
      | none, _ => .null
      | some (.text s), .sqlite => .text s
      | some (.bool b), .sqlite => .int b.toNat
      | some (.text s), .postgres => .text s
      | some (.bool b), .postgres => .text (boolText b)
      | some v, _ => .json v
  | _ => .null

/-- The JSON value under a path. -/
def jsonArrayValue (path : List String) : Datum → Datum
  | .json j => (j.lookup path).elim .null .json
  | _ => .null

/-- The conversion of a column. -/
def Expressions.value : Expressions → Datum → Datum
  | .userResource, .text s => .text ("users/" ++ s)
  | _, value => value

/-- The length of a list; an absent one is empty. -/
def jsonLength : Datum → Datum
  | .null => .int 0
  | .json (.array elements) => .int elements.length
  | _ => .null

/-- The number of characters of a text. -/
def charLength : Datum → Datum
  | .text s => .int s.toList.length
  | _ => .null

/-- The value of an expression on a row, with the element of the list that is iterated. -/
def SqlExpr.eval (db : Server) (row : Row) (element : Datum) : SqlExpr → Datum
  | .columnExpr f => f.expressions.value (row.column f.column)
  | .qualified f => row.column f.column
  | .jsonExtract f => jsonExtractValue db.dialect f.jsonPath (row.column f.column)
  | .jsonArray f => jsonArrayValue f.jsonPath (row.column f.column)
  | .jsonArrayLength f => jsonLength (jsonArrayValue f.jsonPath (row.column f.column))
  | .stringLength f => charLength (f.expressions.value (row.column f.column))
  | .timestampAccessor f a =>
      match row.column f.column with
      | .int seconds => .int (db.datePart a seconds - (accessorSpecs a).off db.dialect)
      | _ => .null
  | .value => element
  | .name text _ => row.named text

/-! ## Tests -/

/-- Whether an ordering satisfies an operator. -/
def ComparisonOperator.test : ComparisonOperator → Ordering → Bool
  | .eq, o => o = .eq
  | .neq, o => o ≠ .eq
  | .lt, o => o = .lt
  | .lte, o => o ≠ .gt
  | .gt, o => o = .gt
  | .gte, o => o ≠ .lt

/-- A comparison; values of different types are not compared. -/
def compareData (db : Server) (op : ComparisonOperator) : Datum → Datum → Option Truth
  | .null, _ => some .unknown
  | _, .null => some .unknown
  | .int m, .int n => some (.ofBool (op.test (compare m n)))
  | .text s, .text t => some (.ofBool (op.test (db.compareText s t)))
  | .bool a, .bool b => some (.ofBool (op.test (compare a b)))
  | .json (.bool a), .json (.bool b) => some (.ofBool (op.test (compare a b)))
  | _, _ => none

/-- {lit}`IS TRUE`. -/
def truthTest : Datum → Option Truth
  | .null => some .fails
  | .int n => some (.ofBool (n ≠ 0))
  | .bool b => some (.ofBool b)
  | _ => none

/-- The cast to a boolean of Postgres. -/
def castBool : Datum → Option Datum
  | .null => some .null
  | .bool b => some (.bool b)
  | .text s => if s = "true" then some (.bool true) else if s = "false" then some (.bool false)
      else none
  | _ => none

/-- {lit}`COALESCE(x, false) = true` on JSON values. -/
def coalesceIsTrue : Datum → Option Truth
  | .null => some .fails
  | .json (.bool b) => some (.ofBool b)
  | .json _ => some .fails
  | _ => none

/-- The special characters of {lit}`LIKE` in SQLite, which has no escape character by itself. -/
def bareWildcards : Like.Wildcards Char where
  many := '%'
  one := '_'
  escape := none
  one_ne_many := likeWildcards.one_ne_many
  escape_ne_many := (Option.some_ne_none '%').symm
  escape_ne_one := (Option.some_ne_none '_').symm

/-- {lit}`LIKE` on the text of a JSON list: SQLite ignores the case of ASCII letters and writes no
space behind a comma, the others compare exactly. -/
def textLike (d : DialectName) (text pattern : List Char) : Bool :=
  match d with
  | .sqlite => Like.like (fun a b => a.toLower == b.toLower) bareWildcards text pattern
  | _ => Like.like (fun a b => a == b) likeWildcards text pattern

/-- What stands between two elements in the text of a JSON list. -/
def elementSeparator : DialectName → List Char
  | .sqlite => [',']
  | _ => [',', ' ']

/-- {lit}`LIKE` on a JSON list of strings. -/
def jsonLike (d : DialectName) (pattern : String) : Datum → Option Truth
  | .null => some .unknown
  | .json (.array elements) => do
      let strings ← elements.mapM Json.asText
      return .ofBool (textLike d (stringsText (elementSeparator d) (strings.map String.toList))
        pattern.toList)
  | _ => none

/-- Whether a JSON list contains the string that a text denotes; SQLite cannot ask that, a text
that is no JSON fails, and Postgres refuses the null character. -/
def jsonContains (d : DialectName) (candidate : String) (array : Datum) : Option Truth := do
  let s ← readString candidate.toList
  if d = .sqlite ∨ (d = .postgres ∧ Char.ofNat 0 ∈ s) then none
  else match array with
    | .null => some .unknown
    | .json (.array elements) => do
        let strings ← elements.mapM Json.asText
        return .ofBool (String.ofList s ∈ strings)
    | _ => none

/-- The test that a list is present and not empty. -/
def nonEmpty : Datum → Truth
  | .json (.array elements) => .ofBool (elements ≠ [])
  | _ => .fails

/-- The elements of a list as a table; MySQL makes a string of more than 512 characters
{lit}`NULL`. -/
def elementTable (d : DialectName) : Datum → Option (List Datum)
  | .null => some []
  | .json (.array elements) => do
      let strings ← elements.mapM Json.asText
      return strings.map fun s =>
        if d = .mysql ∧ 512 < s.toList.length then .null else .text s
  | _ => none

/-- A text test; nothing but a text is tested. -/
def onText (test : String → Option Bool) : Datum → Option Truth
  | .null => some .unknown
  | .text s => (test s).map .ofBool
  | _ => none

/-- A disjunction of answers. -/
def disjAll (answers : List Truth) : Truth :=
  answers.foldr Truth.disj .fails

/-- The truth value of an atom on a row; {lit}`none` is an error. -/
def Shape.answer (db : Server) (row : Row) : Shape → Datum → List Arg → Option Truth
  | .constant b, _, _ => some (.ofBool b)
  | .isTrue e, x, _ => truthTest (e.eval db row x)
  | .notIsTrue e, x, _ => (truthTest (e.eval db row x)).map .neg
  | .isNull e, x, _ =>
      match e.eval db row x with
      | .null => some .holds
      | _ => some .fails
  | .isNotNull e, x, _ =>
      match e.eval db row x with
      | .null => some .fails
      | _ => some .holds
  | .compare e op, x, [a] => compareData db op (e.eval db row x) (a.datum db.dialect)
  | .compareBit e op bit, x, _ => compareData db op (e.eval db row x) (.int bit.toNat)
  | .compareJson e op b, x, _ => compareData db op (e.eval db row x) (.json (.bool b))
  | .coalesceJson e, x, _ => coalesceIsTrue (e.eval db row x)
  | .castIsTrue e, x, _ => (castBool (e.eval db row x)).bind truthTest
  | .castCompare e op, x, [a] =>
      (castBool (e.eval db row x)).bind fun v => compareData db op v (a.datum db.dialect)
  | .inList e _, x, args =>
      if args = [] ∧ db.dialect ≠ .sqlite then none
      else disjAll <$> args.mapM fun a =>
        compareData db .eq (e.eval db row x) (a.datum db.dialect)
  | .foldedLike e, x, [.str pattern] =>
      onText (fun s => some (db.folding.foldedLike s pattern)) (e.eval db row x)
  | .regexp e, x, [.str pattern] => onText (db.regexp pattern) (e.eval db row x)
  | .arrayLike e, x, [.str pattern] => jsonLike db.dialect pattern (e.eval db row x)
  | .arrayContains e, x, [.str candidate] =>
      jsonContains db.dialect candidate (e.eval db row x)
  | .either p q, x, args => do
      return (← p.answer db row x (args.take p.arity)).disj
        (← q.answer db row x (args.drop p.arity))
  | .anyOf p count, x, args =>
      if count = 0 then none
      else disjAll <$> (List.range count).mapM fun i =>
        p.answer db row x ((args.drop (i * p.arity)).take p.arity)
  | .withNullCheck p array, x, args => do
      return (← p.answer db row x args).conj (nonEmpty (array.eval db row x))
  | .allElements array p, x, args => do
      let elements ← elementTable db.dialect (array.eval db row x)
      let answers ← elements.mapM fun y => p.answer db row y args
      return (nonEmpty (array.eval db row x)).conj (.ofBool (Truth.fails ∉ answers))
  | .oneElement array p, x, args => do
      let elements ← elementTable db.dialect (array.eval db row x)
      let answers ← elements.mapM fun y => p.answer db row y args
      return .ofBool (answers.count .holds = 1)
  | _, _, _ => none

/-! ## Statements -/

/-- A leaf of a statement whose placeholders are filled. -/
abbrev Test := Shape × List Arg

def Test.answer (db : Server) (row : Row) (t : Test) : Option Truth :=
  t.1.answer db row .null t.2

/-- The value of a fragment whose values are in place. -/
def Fragment.answer (db : Server) (row : Row) (f : Fragment Arg) : Option Truth :=
  f.shape.answer db row .null f.slots

/-- The value for a placeholder: the database counts the marks of a text, or reads their
numbers. -/
def boundArg (d : DialectName) (args : List Arg) (position slot : ℕ) : Option Arg :=
  match d.style with
  | .question => args[position]?
  | .dollar => args[slot]?

/-- Fill the placeholders of a text from a position on. -/
def fillTokens (pick : ℕ → ℕ → Option Arg) : ℕ → SqlText → Option (List (Token Test))
  | _, [] => some []
  | k, .leaf f :: rest => do
      let values ← (f.slots.zipIdx k).mapM fun s => pick s.2 s.1
      return .leaf (f.shape, values) :: (← fillTokens pick (k + f.slots.length) rest)
  | k, .openParen :: rest => (fillTokens pick k rest).map (.openParen :: ·)
  | k, .closeParen :: rest => (fillTokens pick k rest).map (.closeParen :: ·)
  | k, .andWord :: rest => (fillTokens pick k rest).map (.andWord :: ·)
  | k, .orWord :: rest => (fillTokens pick k rest).map (.orWord :: ·)
  | k, .notWord :: rest => (fillTokens pick k rest).map (.notWord :: ·)

/-- The value of a boolean text; one failing test fails it all. -/
def exprAnswer {α : Type} (value : α → Option Truth) : BoolExpr α → Option Truth
  | .leaf a => value a
  | .neg e => (exprAnswer value e).map .neg
  | .conj e f => do return (← exprAnswer value e).conj (← exprAnswer value f)
  | .disj e f => do return (← exprAnswer value e).disj (← exprAnswer value f)

/-- The truth value of a statement whose tests are answered one by one.  Every value needs its
placeholder; empty text is no condition. -/
def Statement.answerBy (d : DialectName) (value : Test → Option Truth) (stmt : Statement) :
    Option Truth :=
  if stmt.sql.slots.length ≠ stmt.args.length then none
  else if stmt.sql = [] then some .holds
  else do
    let sql ← fillTokens (boundArg d stmt.args) 0 stmt.sql
    exprAnswer value (← parse sql)

/-- The truth value of a statement on a row. -/
def Statement.answer (db : Server) (row : Row) (stmt : Statement) : Option Truth :=
  stmt.answerBy db.dialect (Test.answer db row)

/-! ## Statements without constants -/

namespace Skeleton

/-- A tree without constants. -/
def ConstantFree {α : Type} : Skeleton α → Prop
  | constant _ => False
  | atom _ => True
  | not t => t.ConstantFree
  | and l r => l.ConstantFree ∧ r.ConstantFree
  | or l r => l.ConstantFree ∧ r.ConstantFree

/-- The boolean text of a tree; a constant is a test of its own. -/
def expr : Skeleton (Fragment Arg) → BoolExpr Test
  | constant b => .leaf (.constant b, [])
  | atom f => .leaf (f.shape, f.slots)
  | not t => .neg t.expr
  | and l r => .conj l.expr r.expr
  | or l r => .disj l.expr r.expr

end Skeleton

theorem fillTokens_append (pick : ℕ → ℕ → Option Arg) (k : ℕ) (s t : SqlText) :
    fillTokens pick k (s ++ t) =
      (fillTokens pick k s).bind fun u =>
        (fillTokens pick (k + s.slots.length) t).map (u ++ ·) := by
  induction s generalizing k with
  | nil => simp [fillTokens]
  | cons token s ih =>
      cases token with
      | leaf f =>
          have hlength : k + (SqlText.slots (.leaf f :: s)).length =
              k + f.slots.length + (SqlText.slots s).length := by
            rw [SqlText.slots_cons, List.length_append, tokenSlots]
            omega
          rw [List.cons_append, fillTokens, fillTokens, ih, hlength]
          cases (f.slots.zipIdx k).mapM fun s => pick s.2 s.1 with
          | none => rfl
          | some values =>
              cases fillTokens pick (k + f.slots.length) s with
              | none => rfl
              | some u =>
                  cases fillTokens pick (k + f.slots.length + (SqlText.slots s).length) t <;> rfl
      | _ =>
          simp only [List.cons_append, fillTokens, ih, SqlText.slots_cons, tokenSlots,
            List.nil_append]
          cases fillTokens pick k s with
          | none => rfl
          | some u => cases fillTokens pick (k + (SqlText.slots s).length) t <;> rfl

/-- Values that are picked by position and by number. -/
private def Picks (pick : ℕ → ℕ → Option Arg) (start : ℕ) (values : List Arg) : Prop :=
  ∀ i, ∀ a, values[i]? = some a → pick (start + i) (start + i) = some a

private theorem Picks.append {pick : ℕ → ℕ → Option Arg} {start : ℕ} {v w : List Arg}
    (h : Picks pick start (v ++ w)) : Picks pick start v ∧ Picks pick (start + v.length) w := by
  constructor
  · intro i a hi
    have hlt : i < v.length := List.getElem?_eq_some_iff.mp hi |>.1
    exact h i a (by rw [List.getElem?_append_left hlt, hi])
  · intro i a hi
    have hget : (v ++ w)[v.length + i]? = some a := by
      rw [List.getElem?_append_right (by omega), Nat.add_sub_cancel_left, hi]
    rw [Nat.add_assoc]
    exact h (v.length + i) a hget

/-- Numbered placeholders get their values in order. -/
private theorem mapM_picks {pick : ℕ → ℕ → Option Arg} {start : ℕ} {values : List Arg}
    (h : Picks pick start values) :
    ((List.range' start values.length).zipIdx start).mapM (fun s => pick s.2 s.1) =
      some values := by
  induction values generalizing start with
  | nil => rfl
  | cons a values ih =>
      have hhead : pick start start = some a := h 0 a rfl
      have htail : Picks pick (start + 1) values := (Picks.append (v := [a]) h).2
      rw [List.length_cons, List.range'_succ, List.zipIdx_cons, List.mapM_cons, hhead, ih htail]
      rfl

/-- The text of a tree without constants: its placeholders are numbered upwards, and filled it
reads as the tree. -/
private theorem result_text {t : Skeleton (Fragment Arg)} (hfree : t.ConstantFree) (start : ℕ) :
    ∃ sql : SqlText, (t.number start).result = { sql } ∧ sql ≠ [] ∧
      sql.slots.length = t.values.length ∧
      ∀ pick, Picks pick start t.values →
        ∃ filled, fillTokens pick start sql = some filled ∧ Reads filled t.expr := by
  induction t generalizing start with
  | constant b => exact absurd hfree id
  | atom f =>
      refine ⟨[.leaf (f.number start)], rfl, by simp, ?_, fun pick hpick => ?_⟩
      · simp [SqlText.slots, tokenSlots, Fragment.number]
      · have hfill := mapM_picks (by simpa using hpick : Picks pick start f.slots)
        refine ⟨[.leaf (f.shape, f.slots)], ?_, Reads.leaf _⟩
        rw [fillTokens]
        simp only [Fragment.number, hfill]
        rfl
  | not t ih =>
      rcases ih hfree start with ⟨sql, hresult, hne, hlength, hfill⟩
      refine ⟨.notWord :: (.openParen :: sql ++ [.closeParen]), ?_, by simp, ?_,
        fun pick hpick => ?_⟩
      · rw [Skeleton.number, Skeleton.result, hresult]
        rfl
      · simp [tokenSlots, hlength]
      · rcases hfill pick hpick with ⟨filled, hfilled, hreads⟩
        refine ⟨.notWord :: (.openParen :: filled ++ [.closeParen]), ?_,
          hreads.fills.paren.not⟩
        rw [fillTokens, List.cons_append, fillTokens, fillTokens_append, hfilled]
        rfl
  | and l r ihl ihr =>
      rcases ihl hfree.1 start with ⟨sl, hresl, hnel, hlenl, hfilll⟩
      rcases ihr hfree.2 (start + l.values.length) with ⟨sr, hresr, hner, hlenr, hfillr⟩
      refine ⟨.openParen :: (sl ++ .andWord :: sr) ++ [.closeParen], ?_, by simp, ?_,
        fun pick hpick => ?_⟩
      · rw [Skeleton.number, Skeleton.result, hresl, hresr]
        rfl
      · simp [tokenSlots, hlenl, hlenr]
      · rw [Skeleton.values_and] at hpick
        rcases hfilll pick hpick.append.1 with ⟨fl, hfl, hreadl⟩
        rcases hfillr pick hpick.append.2 with ⟨fr, hfr, hreadr⟩
        refine ⟨.openParen :: (fl ++ .andWord :: fr) ++ [.closeParen], ?_,
          (Fills.conj hreadl hreadr).paren⟩
        rw [List.cons_append, fillTokens, List.append_assoc, fillTokens_append, hfl, hlenl,
          Option.bind_some, List.cons_append, fillTokens, fillTokens_append, hfr]
        simp [fillTokens]
  | or l r ihl ihr =>
      rcases ihl hfree.1 start with ⟨sl, hresl, hnel, hlenl, hfilll⟩
      rcases ihr hfree.2 (start + l.values.length) with ⟨sr, hresr, hner, hlenr, hfillr⟩
      refine ⟨.openParen :: (sl ++ .orWord :: sr) ++ [.closeParen], ?_, by simp, ?_,
        fun pick hpick => ?_⟩
      · rw [Skeleton.number, Skeleton.result, hresl, hresr]
        rfl
      · simp [tokenSlots, hlenl, hlenr]
      · rw [Skeleton.values_or] at hpick
        rcases hfilll pick hpick.append.1 with ⟨fl, hfl, hreadl⟩
        rcases hfillr pick hpick.append.2 with ⟨fr, hfr, hreadr⟩
        refine ⟨.openParen :: (fl ++ .orWord :: fr) ++ [.closeParen], ?_,
          (Fills.disj hreadl hreadr).paren⟩
        rw [List.cons_append, fillTokens, List.append_assoc, fillTokens_append, hfl, hlenl,
          Option.bind_some, List.cons_append, fillTokens, fillTokens_append, hfr]
        simp [fillTokens]

variable {schema : Schema} {d : DialectName} {c : Condition}

/-- The statement of a condition without constants asks what the condition asks. -/
theorem answerBy_render {t : Skeleton (Fragment Arg)} (h : c.skeleton schema d = .ok t)
    (hfree : t.ConstantFree) (value : Test → Option Truth) :
    (render schema d 0 c).map (Statement.answerBy d value) = .ok (exprAnswer value t.expr) := by
  rcases result_text hfree 0 with ⟨sql, hresult, hne, hlength, hfill⟩
  have hpick : Picks (boundArg d t.values) 0 t.values := by
    intro i a hi
    rw [boundArg, Nat.zero_add]
    cases d.style <;> exact hi
  rcases hfill _ hpick with ⟨filled, hfilled, hreads⟩
  have hrender : render schema d 0 c = .ok ⟨sql, t.values⟩ := by
    rw [render_spec, h, Except.map, hresult]
    rfl
  rw [hrender, Except.map, Statement.answerBy]
  simp only [hlength, ne_eq, not_true_eq_false, if_false, hne, hfilled]
  rw [Option.bind_eq_bind, Option.bind_some, hreads.fills.parse]
  rfl

variable {db : Server} {f : Fragment Arg}

/-- The statement of an atom asks what its fragment asks. -/
theorem answer_atom (h : c.skeleton schema db.dialect = .ok (.atom f)) (row : Row) :
    (render schema db.dialect 0 c).map (Statement.answer db row) = .ok (f.answer db row) :=
  answerBy_render h trivial (Test.answer db row)

/-- The statement of a negated atom negates the answer. -/
theorem answer_not_atom (h : c.skeleton schema db.dialect = .ok (.not (.atom f))) (row : Row) :
    (render schema db.dialect 0 c).map (Statement.answer db row) =
      .ok ((f.answer db row).map .neg) :=
  answerBy_render h trivial (Test.answer db row)

end Filter
end MemosNote
