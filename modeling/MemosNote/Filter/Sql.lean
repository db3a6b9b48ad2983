import MemosNote.Filter.Condition
import MemosNote.Library.Precedence

/-!
# Statement text

A rendered condition is boolean text whose leaves are fragments.  A fragment is
a shape, the SQL pattern of one atom, together with the slots that fill the
holes of the pattern.  The slots are placeholder numbers in a rendered statement
and bound values in an atom that has not been numbered yet.

Main results:

- Structure {lit}`Fragment`: a fragment fills every hole of its shape.
- Theorem {lit}`Shape.safe_template`: the text of a shape contains no placeholder
  of its own.
- Theorem {lit}`scan_text`: the placeholders found in a statement text are the slots
  of the statement, in order.
-/

namespace MemosNote
namespace Filter

open Library

/-! ## Scalar expressions -/

/-- The timestamp accessors. -/
inductive Accessor where
  | getFullYear
  | getMonth
  | getDate
  | getDayOfMonth
  | getDayOfWeek
  | getDayOfYear
  | getHours
  | getMinutes
  | getSeconds
deriving DecidableEq, Repr

/-- The date-part tokens of an accessor and the offset each dialect subtracts. -/
structure AccessorSpec where
  sqlite : String
  pg : String
  mysql : String
  off : DialectName → ℕ

private def offsets (sqlite postgres mysql : ℕ) : DialectName → ℕ
  | .sqlite => sqlite
  | .postgres => postgres
  | .mysql => mysql

/-- The accessor table. -/
def accessorSpecs : Accessor → AccessorSpec
  | .getFullYear => ⟨"%Y", "YEAR", "YEAR", offsets 0 0 0⟩
  | .getMonth => ⟨"%m", "MONTH", "MONTH", offsets 1 1 1⟩
  | .getDate => ⟨"%d", "DAY", "DAYOFMONTH", offsets 0 0 0⟩
  | .getDayOfMonth => ⟨"%d", "DAY", "DAYOFMONTH", offsets 1 1 1⟩
  | .getDayOfWeek => ⟨"%w", "DOW", "DAYOFWEEK", offsets 0 0 1⟩
  | .getDayOfYear => ⟨"%j", "DOY", "DAYOFYEAR", offsets 1 1 1⟩
  | .getHours => ⟨"%H", "HOUR", "HOUR", offsets 0 0 0⟩
  | .getMinutes => ⟨"%M", "MINUTE", "MINUTE", offsets 0 0 0⟩
  | .getSeconds => ⟨"%S", "SECOND", "SECOND", offsets 0 0 0⟩

/-- The name of an accessor in a filter. -/
def Accessor.toName : Accessor → String
  | .getFullYear => "getFullYear"
  | .getMonth => "getMonth"
  | .getDate => "getDate"
  | .getDayOfMonth => "getDayOfMonth"
  | .getDayOfWeek => "getDayOfWeek"
  | .getDayOfYear => "getDayOfYear"
  | .getHours => "getHours"
  | .getMinutes => "getMinutes"
  | .getSeconds => "getSeconds"

/-- The accessor with a given name. -/
def Accessor.ofName? (name : String) : Option Accessor :=
  [getFullYear, getMonth, getDate, getDayOfMonth, getDayOfWeek, getDayOfYear, getHours,
    getMinutes, getSeconds].find? fun a => a.toName == name

/-- The scalar expressions an atom can start with. -/
inductive SqlExpr where
  /-- A field with the conversions of its schema. -/
  | columnExpr (f : Field)
  /-- The bare column of a field. -/
  | qualified (f : Field)
  | jsonExtract (f : Field)
  | jsonArray (f : Field)
  | jsonArrayLength (f : Field)
  | stringLength (f : Field)
  | timestampAccessor (f : Field) (a : Accessor)
  /-- The iterated element of a list. -/
  | value
  /-- A name that the store writes itself. -/
  | name (text : String) (plain : Plain text)
deriving DecidableEq

/-- The number of elements of a JSON array; an absent array has none. -/
def jsonArrayLengthExpr (d : DialectName) (f : Field) : String :=
  match d with
  | .sqlite => "JSON_ARRAY_LENGTH(COALESCE(" ++ f.jsonArrayExpr d ++ ", JSON_ARRAY()))"
  | .mysql => "JSON_LENGTH(COALESCE(" ++ f.jsonArrayExpr d ++ ", JSON_ARRAY()))"
  | .postgres => "jsonb_array_length(COALESCE(" ++ f.jsonArrayExpr d ++ ", '[]'::jsonb))"

/-- The number of characters of a string column. -/
def stringLengthExpr (d : DialectName) (colExpr : String) : String :=
  match d with
  | .mysql => "CHAR_LENGTH(" ++ colExpr ++ ")"
  | _ => "LENGTH(" ++ colExpr ++ ")"

/-- The date part of a timestamp column, before the offset. -/
def timestampAccessorBase (d : DialectName) (f : Field) (a : Accessor) : String :=
  match d with
  | .sqlite =>
      "CAST(strftime('" ++ (accessorSpecs a).sqlite ++ "', " ++ qualifyColumn d f.column ++
        ", 'unixepoch') AS INTEGER)"
  | .postgres =>
      "CAST(EXTRACT(" ++ (accessorSpecs a).pg ++ " FROM to_timestamp(" ++
        qualifyColumn d f.column ++ ") AT TIME ZONE 'UTC') AS INTEGER)"
  | .mysql => (accessorSpecs a).mysql ++ "(" ++ qualifyColumn d f.column ++ ")"

/-- The date part of a timestamp column in the base of the filter language. -/
def timestampAccessorExpr (d : DialectName) (f : Field) (a : Accessor) : String :=
  if (accessorSpecs a).off d = 0 then timestampAccessorBase d f a
  else "(" ++ timestampAccessorBase d f a ++ " - " ++ toString ((accessorSpecs a).off d) ++ ")"

/-- The text of a scalar expression. -/
def SqlExpr.text (d : DialectName) : SqlExpr → String
  | columnExpr f => f.columnExpr d
  | qualified f => qualifyColumn d f.column
  | jsonExtract f => f.jsonExtractExpr d
  | jsonArray f => f.jsonArrayExpr d
  | jsonArrayLength f => jsonArrayLengthExpr d f
  | stringLength f => stringLengthExpr d (f.columnExpr d)
  | timestampAccessor f a => timestampAccessorExpr d f a
  | value => "value"
  | name text _ => text

private theorem neutral_arrayLength (style : Style) (d : DialectName) (f : Field) :
    Neutral style (jsonArrayLengthExpr d f) := by
  have harray := f.neutral_jsonArrayExpr style d
  cases d <;> exact harray.wrap (by cases style <;> decide +kernel) (by cases style <;> decide +kernel)

private theorem neutral_stringLength (style : Style) (d : DialectName) (f : Field) :
    Neutral style (stringLengthExpr d (f.columnExpr d)) := by
  have hcolumn := f.neutral_columnExpr style d
  cases d <;> exact hcolumn.wrap (by cases style <;> decide +kernel) (by cases style <;> decide +kernel)

private theorem neutral_accessorBase (style : Style) (d : DialectName) (f : Field)
    (a : Accessor) : Neutral style (timestampAccessorBase d f a) := by
  have hcolumn := f.neutral_column style d
  cases d with
  | sqlite =>
      have hformat : Neutral style ("CAST(strftime('" ++ (accessorSpecs a).sqlite ++ "', ") := by
        cases a <;> cases style <;> decide +kernel
      exact hcolumn.wrap hformat (by cases style <;> decide +kernel)
  | postgres =>
      have htoken : Plain (accessorSpecs a).pg := by cases a <;> decide +kernel
      have hextract : Neutral style "CAST(EXTRACT(" := by cases style <;> decide +kernel
      have hfrom : Neutral style " FROM to_timestamp(" := by cases style <;> decide +kernel
      exact hcolumn.wrap ((htoken.neutral style).wrap hextract hfrom) (by cases style <;> decide +kernel)
  | mysql =>
      have htoken : Plain (accessorSpecs a).mysql := by cases a <;> decide +kernel
      have hopen : Neutral style "(" := by cases style <;> decide +kernel
      exact hcolumn.wrap ((htoken.neutral style).append hopen) (by cases style <;> decide +kernel)

private theorem neutral_accessor (style : Style) (d : DialectName) (f : Field)
    (a : Accessor) : Neutral style (timestampAccessorExpr d f a) := by
  have hbase := neutral_accessorBase style d f a
  have hopen : Neutral style "(" := by cases style <;> decide +kernel
  have hminus : Neutral style " - " := by cases style <;> decide +kernel
  have hclose : Neutral style ")" := by cases style <;> decide +kernel
  have hoff : Neutral style (toString ((accessorSpecs a).off d)) := by
    cases a <;> cases d <;> cases style <;> decide +kernel
  unfold timestampAccessorExpr
  split
  · exact hbase
  · exact (((hopen.append hbase).append hminus).append hoff).append hclose

/-- Scalar expressions contain no placeholder. -/
theorem SqlExpr.neutral (style : Style) (d : DialectName) (e : SqlExpr) :
    Neutral style (e.text d) := by
  cases e with
  | columnExpr f => exact f.neutral_columnExpr style d
  | qualified f => exact f.neutral_column style d
  | jsonExtract f => exact f.neutral_jsonExtractExpr style d
  | jsonArray f => exact f.neutral_jsonArrayExpr style d
  | jsonArrayLength f => exact neutral_arrayLength style d f
  | stringLength f => exact neutral_stringLength style d f
  | timestampAccessor f a => exact neutral_accessor style d f a
  | value => exact (by decide : Plain "value").neutral style
  | name text plain => exact plain.neutral style

/-! ## Shapes -/

/-- The SQL patterns of atoms. -/
inductive Shape where
  /-- {lit}`1 = 1` or {lit}`1 = 0`. -/
  | constant (value : Bool)
  | isTrue (e : SqlExpr)
  | notIsTrue (e : SqlExpr)
  | isNull (e : SqlExpr)
  | isNotNull (e : SqlExpr)
  | compare (e : SqlExpr) (op : ComparisonOperator)
  /-- A comparison with the digit {lit}`0` or {lit}`1`. -/
  | compareBit (e : SqlExpr) (op : ComparisonOperator) (bit : Bool)
  /-- A comparison with a JSON boolean of MySQL. -/
  | compareJson (e : SqlExpr) (op : ComparisonOperator) (value : Bool)
  /-- The JSON truth test of MySQL. -/
  | coalesceJson (e : SqlExpr)
  /-- The JSON truth test of Postgres. -/
  | castIsTrue (e : SqlExpr)
  | castCompare (e : SqlExpr) (op : ComparisonOperator)
  | inList (e : SqlExpr) (count : ℕ)
  /-- A case-insensitive match. -/
  | foldedLike (e : SqlExpr)
  | regexp (e : SqlExpr)
  /-- A match against the text of a JSON array. -/
  | arrayLike (e : SqlExpr)
  /-- Containment in a JSON array. -/
  | arrayContains (e : SqlExpr)
  | either (p q : Shape)
  | anyOf (p : Shape) (count : ℕ)
  | withNullCheck (p : Shape) (array : SqlExpr)
  | allElements (array : SqlExpr) (p : Shape)
  | oneElement (array : SqlExpr) (p : Shape)
deriving DecidableEq

/-- The number of holes of a shape. -/
def Shape.arity : Shape → ℕ
  | constant _ | isTrue _ | notIsTrue _ | isNull _ | isNotNull _ | compareBit _ _ _
  | compareJson _ _ _ | coalesceJson _ | castIsTrue _ => 0
  | compare _ _ | castCompare _ _ | foldedLike _ | regexp _ | arrayLike _ | arrayContains _ => 1
  | inList _ count => count
  | either p q => p.arity + q.arity
  | anyOf p count => count * p.arity
  | withNullCheck p _ | allElements _ p | oneElement _ p => p.arity

/-- A hole between two texts. -/
def around (before after : String) : Template :=
  [.text before, .slot (), .text after]

/-- Templates joined by a text. -/
def joinTemplates (separator : String) : List Template → Template
  | [] => []
  | [t] => t
  | t :: u :: rest => t ++ .text separator :: joinTemplates separator (u :: rest)

/-- The test that a JSON array is present and not empty. -/
def nonEmptyText (d : DialectName) (array : String) : String :=
  match d with
  | .sqlite => array ++ " IS NOT NULL AND " ++ array ++ " != '[]'"
  | .mysql => array ++ " IS NOT NULL AND JSON_LENGTH(" ++ array ++ ") > 0"
  | .postgres => array ++ " IS NOT NULL AND jsonb_array_length(" ++ array ++ ") > 0"

/-- The table of the elements of a JSON array. -/
def elementTableText (d : DialectName) (array : String) : String :=
  match d with
  | .sqlite => "json_each(" ++ array ++ ")"
  | .mysql => "JSON_TABLE(" ++ array ++ ", '$[*]' COLUMNS (value VARCHAR(512) PATH '$')) AS elem"
  | .postgres => "jsonb_array_elements_text(" ++ array ++ ") AS elem(value)"

/-- The text {lit}`true` or {lit}`false`. -/
def boolText (value : Bool) : String :=
  if value then "true" else "false"

/-- The text of a shape. -/
def Shape.template (d : DialectName) : Shape → Template
  | constant value => [.text (if value then "1 = 1" else "1 = 0")]
  | isTrue e => [.text (e.text d ++ " IS TRUE")]
  | notIsTrue e => [.text ("NOT(" ++ e.text d ++ " IS TRUE)")]
  | isNull e => [.text (e.text d ++ " IS NULL")]
  | isNotNull e => [.text (e.text d ++ " IS NOT NULL")]
  | compare e op => [.text (e.text d ++ " " ++ sqlOperator op ++ " "), .slot ()]
  | compareBit e op bit =>
      [.text (e.text d ++ " " ++ sqlOperator op ++ " " ++ if bit then "1" else "0")]
  | compareJson e op value =>
      [.text (e.text d ++ " " ++ sqlOperator op ++ " CAST('" ++ boolText value ++ "' AS JSON)")]
  | coalesceJson e =>
      [.text ("COALESCE(" ++ e.text d ++ ", CAST('false' AS JSON)) = CAST('true' AS JSON)")]
  | castIsTrue e => [.text ("(" ++ e.text d ++ ")::boolean IS TRUE")]
  | castCompare e op => [.text ("(" ++ e.text d ++ ")::boolean " ++ sqlOperator op ++ " "), .slot ()]
  | inList e count =>
      .text (e.text d ++ " IN (") ::
        joinTemplates "," (List.replicate count [.slot ()]) ++ [.text ")"]
  | foldedLike e =>
      match d with
      | .sqlite =>
          around ("memos_unicode_lower(" ++ e.text d ++ ") LIKE memos_unicode_lower(")
            ") ESCAPE '\\'"
      | .postgres => [.text (e.text d ++ " ILIKE "), .slot ()]
      | .mysql => [.text (e.text d ++ " LIKE "), .slot ()]
  | regexp e =>
      match d with
      | .postgres => [.text (e.text d ++ " ~ "), .slot ()]
      | _ => [.text (e.text d ++ " REGEXP "), .slot ()]
  | arrayLike e =>
      match d with
      | .postgres => [.text ("(" ++ e.text d ++ ")::text LIKE "), .slot ()]
      | _ => [.text (e.text d ++ " LIKE "), .slot ()]
  | arrayContains e =>
      match d with
      | .postgres => around (e.text d ++ " @> jsonb_build_array(") "::json)"
      | _ => around ("JSON_CONTAINS(" ++ e.text d ++ ", ") ")"
  | either p q => .text "(" :: (p.template d ++ .text " OR " :: (q.template d ++ [.text ")"]))
  | anyOf p count =>
      .text "(" :: joinTemplates " OR " (List.replicate count (p.template d)) ++ [.text ")"]
  | withNullCheck p array =>
      .text "(" :: p.template d ++
        [.text (" AND " ++ nonEmptyText d (array.text d) ++ ")")]
  | allElements array p =>
      .text ("(" ++ nonEmptyText d (array.text d) ++ " AND NOT EXISTS (SELECT 1 FROM " ++
          elementTableText d (array.text d) ++ " WHERE NOT (") ::
        p.template d ++ [.text ")))"]
  | oneElement array p =>
      .text ("(SELECT COUNT(*) FROM " ++ elementTableText d (array.text d) ++ " WHERE ") ::
        p.template d ++ [.text ") = 1"]

@[simp]
theorem holes_joinTemplates (separator : String) (t : Template) (n : ℕ) :
    (joinTemplates separator (List.replicate n t)).holes = n * t.holes := by
  induction n with
  | zero => simp [joinTemplates]
  | succ n ih =>
      cases n with
      | zero => simp [joinTemplates]
      | succ n =>
          have hrest : (joinTemplates separator (List.replicate (n + 1 + 1) t)).holes =
              t.holes + (joinTemplates separator (List.replicate (n + 1) t)).holes := by
            simp [joinTemplates, List.replicate_succ]
          rw [hrest, ih, Nat.succ_mul (n + 1), Nat.add_comm]

/-- A shape has as many holes in its text as its arity says. -/
theorem Shape.holes_template (d : DialectName) (s : Shape) : (s.template d).holes = s.arity := by
  induction s with
  | either p q hp hq => simp [template, arity, hp, hq]
  | anyOf p count hp => simp [template, arity, hp]
  | withNullCheck p array hp => simp [template, arity, hp]
  | allElements array p hp => simp [template, arity, hp]
  | oneElement array p hp => simp [template, arity, hp]
  | inList e count => simp [template, arity]
  | foldedLike e => cases d <;> rfl
  | regexp e => cases d <;> rfl
  | arrayLike e => cases d <;> rfl
  | arrayContains e => cases d <;> rfl
  | _ => rfl

/-! ## Shapes contain no placeholder of their own -/

private theorem neutral_sqlOperator (style : Style) (op : ComparisonOperator) :
    Neutral style (sqlOperator op) := by
  cases op <;> cases style <;> decide +kernel

private theorem neutral_nonEmptyText (style : Style) (d : DialectName) {array : String}
    (h : Neutral style array) : Neutral style (nonEmptyText d array) := by
  cases d with
  | sqlite =>
      have hboth := (h.append (t := " IS NOT NULL AND ") (by cases style <;> decide +kernel)).append h
      exact hboth.append (by cases style <;> decide +kernel)
  | mysql =>
      have hboth := (h.append (t := " IS NOT NULL AND JSON_LENGTH(")
        (by cases style <;> decide +kernel)).append h
      exact hboth.append (by cases style <;> decide +kernel)
  | postgres =>
      have hboth := (h.append (t := " IS NOT NULL AND jsonb_array_length(")
        (by cases style <;> decide +kernel)).append h
      exact hboth.append (by cases style <;> decide +kernel)

private theorem neutral_elementTableText (style : Style) (d : DialectName) {array : String}
    (h : Neutral style array) : Neutral style (elementTableText d array) := by
  cases d <;> exact h.wrap (by cases style <;> decide +kernel) (by cases style <;> decide +kernel)

private theorem Safe.joinTemplates {style : Style} {separator : String} {t : Template}
    (ht : Safe style t) (hsep : Neutral style separator)
    (hstart : separator.toList.head?.any fun c => !c.isDigit) (n : ℕ) :
    Safe style (joinTemplates separator (List.replicate n t)) := by
  induction n with
  | zero => exact Safe.nil
  | succ n ih =>
      cases n with
      | zero => exact ht
      | succ n => exact ht.append_text (.text hsep ih) hstart

/-- The text of a shape contains no placeholder of its own. -/
theorem Shape.safe_template (d : DialectName) (style : Style) (s : Shape) :
    Safe style (s.template d) := by
  have hend : ∀ {t : String}, Neutral style t → Safe style [(.text t : Piece Unit)] :=
    fun h => .text h .nil
  have hhole : ∀ {t : String}, Neutral style t → Safe style [.text t, .slot ()] :=
    fun h => .text h (.slot ())
  have haround : ∀ {t u : String}, Neutral style t → Neutral style u →
      (u.toList.head?.any fun c => !c.isDigit) → Safe style (around t u) :=
    fun ht hu hstart => .text ht (Safe.append_text (.slot ()) (hend hu) hstart)
  have hopen : Neutral style "(" := by cases style <;> decide +kernel
  have hclose : Neutral style ")" := by cases style <;> decide +kernel
  have hspace : Neutral style " " := by cases style <;> decide +kernel
  have hcompare : ∀ {t : String} (op : ComparisonOperator), Neutral style t →
      Neutral style (t ++ " " ++ sqlOperator op) :=
    fun op ht => (ht.append hspace).append (neutral_sqlOperator style op)
  induction s with
  | constant value => exact hend (by cases value <;> cases style <;> decide +kernel)
  | isTrue e => exact hend ((e.neutral style d).append (by cases style <;> decide +kernel))
  | notIsTrue e =>
      exact hend ((e.neutral style d).wrap (by cases style <;> decide +kernel) (by cases style <;> decide +kernel))
  | isNull e => exact hend ((e.neutral style d).append (by cases style <;> decide +kernel))
  | isNotNull e => exact hend ((e.neutral style d).append (by cases style <;> decide +kernel))
  | compare e op => exact hhole ((hcompare op (e.neutral style d)).append hspace)
  | compareBit e op bit =>
      refine hend (((hcompare op (e.neutral style d)).append hspace).append ?_)
      cases bit <;> cases style <;> decide +kernel
  | compareJson e op value =>
      have hcast : Neutral style (" CAST('" ++ boolText value ++ "' AS JSON)") := by
        cases value <;> cases style <;> decide +kernel
      have htext := (hcompare op (e.neutral style d)).append hcast
      refine hend ?_
      simpa only [String.append_assoc] using htext
  | coalesceJson e =>
      exact hend ((e.neutral style d).wrap (by cases style <;> decide +kernel) (by cases style <;> decide +kernel))
  | castIsTrue e =>
      exact hend ((e.neutral style d).wrap (by cases style <;> decide +kernel) (by cases style <;> decide +kernel))
  | castCompare e op =>
      have hcast : Neutral style (")::boolean" ++ " ") := by cases style <;> decide +kernel
      have hleft := (e.neutral style d).wrap hopen hcast
      have htext := (hleft.append (neutral_sqlOperator style op)).append hspace
      refine hhole ?_
      have hword : (")::boolean " : String) = ")::boolean" ++ " " := by decide
      simpa only [hword, String.append_assoc] using htext
  | inList e count =>
      have hcomma : Neutral style "," := by cases style <;> decide +kernel
      have hlist := Safe.joinTemplates (Safe.slot ()) hcomma (by decide) count
      exact .text ((e.neutral style d).append (by cases style <;> decide +kernel))
        (hlist.append_text (hend hclose) (by decide))
  | foldedLike e =>
      have he := e.neutral style d
      cases d with
      | sqlite =>
          exact haround (he.wrap (by cases style <;> decide +kernel) (by cases style <;> decide +kernel))
            (by cases style <;> decide +kernel) (by decide)
      | mysql => exact hhole (he.append (by cases style <;> decide +kernel))
      | postgres => exact hhole (he.append (by cases style <;> decide +kernel))
  | regexp e =>
      have he := e.neutral style d
      cases d <;> exact hhole (he.append (by cases style <;> decide +kernel))
  | arrayLike e =>
      have he := e.neutral style d
      cases d with
      | postgres => exact hhole (he.wrap hopen (by cases style <;> decide +kernel))
      | sqlite => exact hhole (he.append (by cases style <;> decide +kernel))
      | mysql => exact hhole (he.append (by cases style <;> decide +kernel))
  | arrayContains e =>
      have he := e.neutral style d
      cases d with
      | postgres =>
          exact haround (he.append (by cases style <;> decide +kernel)) (by cases style <;> decide +kernel)
            (by decide)
      | sqlite =>
          exact haround (he.wrap (by cases style <;> decide +kernel) (by cases style <;> decide +kernel)) hclose
            (by decide)
      | mysql =>
          exact haround (he.wrap (by cases style <;> decide +kernel) (by cases style <;> decide +kernel)) hclose
            (by decide)
  | either p q hp hq =>
      have hor : Neutral style " OR " := by cases style <;> decide +kernel
      exact .text hopen
        (hp.append_text (.text hor (hq.append_text (hend hclose) (by decide))) (by decide))
  | anyOf p count hp =>
      have hor : Neutral style " OR " := by cases style <;> decide +kernel
      exact .text hopen
        ((Safe.joinTemplates hp hor (by decide) count).append_text (hend hclose) (by decide))
  | withNullCheck p array hp =>
      have hand : Neutral style " AND " := by cases style <;> decide +kernel
      have hcheck := (neutral_nonEmptyText style d (array.neutral style d)).wrap hand hclose
      exact .text hopen (hp.append_text (hend hcheck) (by simp [String.toList_append]))
  | allElements array p hp =>
      have harray := array.neutral style d
      have hexists : Neutral style " AND NOT EXISTS (SELECT 1 FROM " := by
        cases style <;> decide +kernel
      have hwhere : Neutral style " WHERE NOT (" := by cases style <;> decide +kernel
      have hbefore := (((hopen.append (neutral_nonEmptyText style d harray)).append hexists).append
        (neutral_elementTableText style d harray)).append hwhere
      exact .text hbefore
        (hp.append_text (hend (by cases style <;> decide +kernel)) (by decide))
  | oneElement array p hp =>
      have hcount : Neutral style "(SELECT COUNT(*) FROM " := by cases style <;> decide +kernel
      have hwhere : Neutral style " WHERE " := by cases style <;> decide +kernel
      have hbefore :=
        (neutral_elementTableText style d (array.neutral style d)).wrap hcount hwhere
      exact .text hbefore
        (hp.append_text (hend (by cases style <;> decide +kernel)) (by decide))

/-! ## Fragments and statement text -/

/-- The SQL of an atom: a shape whose holes are all filled. -/
structure Fragment (σ : Type) where
  shape : Shape
  slots : List σ
  filled : slots.length = shape.arity := by rfl
deriving DecidableEq

namespace Fragment

variable {σ : Type}

/-- Number the slots of a fragment upwards. -/
def number (start : ℕ) (f : Fragment σ) : Fragment ℕ where
  shape := f.shape
  slots := List.range' start f.slots.length
  filled := by rw [List.length_range', f.filled]

/-- Two fragments joined by {lit}`OR` in parentheses. -/
def either (f g : Fragment σ) : Fragment σ where
  shape := .either f.shape g.shape
  slots := f.slots ++ g.slots
  filled := by rw [List.length_append, f.filled, g.filled]; rfl

/-- The pieces of a fragment. -/
def pieces (d : DialectName) (f : Fragment σ) : List (Piece σ) :=
  (f.shape.template d).fill f.slots

/-- A fragment has a slot for each hole of its template. -/
theorem length_slots_eq_holes (d : DialectName) (f : Fragment σ) :
    f.slots.length = (f.shape.template d).holes := by
  rw [f.filled, Shape.holes_template]

/-- The slots of a fragment appear in its text in order. -/
theorem pieceSlots_pieces (d : DialectName) (f : Fragment σ) :
    pieceSlots (f.pieces d) = f.slots :=
  Template.pieceSlots_fill (f.length_slots_eq_holes d)

private theorem safe_pieces (d : DialectName) (style : Style) (f : Fragment σ) :
    Safe style (f.pieces d) :=
  (Shape.safe_template d style f.shape).fill (f.length_slots_eq_holes d)

end Fragment

/-- Rendered SQL: boolean text over numbered fragments. -/
abbrev SqlText := List (Token (Fragment ℕ))

/-- The pieces of a token. -/
def tokenPieces (d : DialectName) : Token (Fragment ℕ) → List (Piece ℕ)
  | .openParen => [.text "("]
  | .closeParen => [.text ")"]
  | .andWord => [.text " AND "]
  | .orWord => [.text " OR "]
  | .notWord => [.text "NOT "]
  | .leaf f => f.pieces d

/-- The slots of a token. -/
def tokenSlots : Token (Fragment ℕ) → List ℕ
  | .leaf f => f.slots
  | _ => []

namespace SqlText

/-- The pieces of rendered SQL. -/
def pieces (d : DialectName) (sql : SqlText) : List (Piece ℕ) :=
  sql.flatMap (tokenPieces d)

/-- The SQL string. -/
def text (d : DialectName) (sql : SqlText) : String :=
  renderPieces d.style.placeholder (sql.pieces d)

/-- The placeholder numbers of rendered SQL, in text order. -/
def slots (sql : SqlText) : List ℕ :=
  sql.flatMap tokenSlots

@[simp]
theorem slots_nil : slots [] = [] :=
  rfl

@[simp]
theorem slots_append (s t : SqlText) : slots (s ++ t) = slots s ++ slots t := by
  simp [slots]

@[simp]
theorem slots_cons (t : Token (Fragment ℕ)) (s : SqlText) :
    slots (t :: s) = tokenSlots t ++ slots s :=
  rfl

/-- SQL whose string reads the same in every context that does not start with a digit. -/
def Readable (d : DialectName) (sql : SqlText) : Prop :=
  Safe d.style (sql.pieces d)

/-- The slots of the pieces are those of the statement. -/
theorem pieceSlots_pieces (d : DialectName) (sql : SqlText) :
    pieceSlots (sql.pieces d) = sql.slots := by
  induction sql with
  | nil => rfl
  | cons t sql ih =>
      have hpieces : pieces d (t :: sql) = tokenPieces d t ++ pieces d sql := rfl
      rw [hpieces, pieceSlots_append, ih, slots_cons]
      cases t with
      | leaf f => rw [tokenPieces, f.pieceSlots_pieces, tokenSlots]
      | _ => rfl

/-- The placeholders found in the string of readable SQL are its slots, in order. -/
theorem scan_text (d : DialectName) {sql : SqlText} (h : sql.Readable d) :
    scan d.style (sql.text d) = sql.slots.map d.style.mark := by
  rw [text, scan_pieces d.style h.clean, pieceSlots_pieces]

private theorem neutral_words (style : Style) :
    Neutral style "(" ∧ Neutral style ")" ∧ Neutral style " AND " ∧ Neutral style " OR " ∧
      Neutral style "NOT " := by
  cases style <;> decide +kernel

/-- A fragment is readable. -/
theorem Readable.leaf (d : DialectName) (f : Fragment ℕ) : Readable d [.leaf f] := by
  have hpieces : pieces d [.leaf f] = f.pieces d := by simp [pieces, tokenPieces]
  rw [Readable, hpieces]
  exact f.safe_pieces d d.style

/-- A statement in parentheses is readable. -/
theorem Readable.paren {d : DialectName} {sql : SqlText} (h : sql.Readable d) :
    Readable d (.openParen :: sql ++ [.closeParen]) := by
  obtain ⟨hopen, hclose, -⟩ := neutral_words d.style
  have hpieces : pieces d (.openParen :: sql ++ [.closeParen]) =
      .text "(" :: (pieces d sql ++ [.text ")"]) := by
    simp [pieces, tokenPieces]
  rw [Readable, hpieces]
  exact .text hopen (Safe.append_text h (.text hclose .nil) (by decide))

/-- A negation is readable. -/
theorem Readable.not {d : DialectName} {sql : SqlText} (h : sql.Readable d) :
    Readable d (.notWord :: sql) := by
  obtain ⟨-, -, -, -, hnot⟩ := neutral_words d.style
  exact .text hnot h

/-- A conjunction is readable. -/
theorem Readable.and {d : DialectName} {s t : SqlText} (hs : s.Readable d)
    (ht : t.Readable d) : Readable d (s ++ .andWord :: t) := by
  obtain ⟨-, -, hand, -⟩ := neutral_words d.style
  have hpieces : pieces d (s ++ .andWord :: t) = pieces d s ++ .text " AND " :: pieces d t := by
    simp [pieces, tokenPieces]
  rw [Readable, hpieces]
  exact Safe.append_text hs (.text hand ht) (by decide)

/-- A disjunction is readable. -/
theorem Readable.or {d : DialectName} {s t : SqlText} (hs : s.Readable d)
    (ht : t.Readable d) : Readable d (s ++ .orWord :: t) := by
  obtain ⟨-, -, -, hor, -⟩ := neutral_words d.style
  have hpieces : pieces d (s ++ .orWord :: t) = pieces d s ++ .text " OR " :: pieces d t := by
    simp [pieces, tokenPieces]
  rw [Readable, hpieces]
  exact Safe.append_text hs (.text hor ht) (by decide)

/-- Joined statements are readable. -/
theorem Readable.joinAnd {d : DialectName} {sqls : List SqlText}
    (h : ∀ sql ∈ sqls, Readable d sql) : Readable d (Library.joinAnd sqls) := by
  induction sqls with
  | nil => exact Safe.nil
  | cons sql rest ih =>
      have hsql := h sql (by simp)
      have hrest := ih fun t ht => h t (by simp [ht])
      cases rest with
      | nil => exact hsql
      | cons next rest => exact hsql.and hrest

end SqlText

end Filter
end MemosNote
