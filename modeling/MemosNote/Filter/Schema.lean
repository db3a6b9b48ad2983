import MemosNote.Library.Placeholder

/-!
# Filter schemas and column texts

A filter names fields of a schema.  A field knows the column it is stored in,
the JSON path inside that column, and how each dialect converts it.  This module
gives the schema of memo filters and of attachment filters together with the
column texts that the renderer writes.

Main results:

- Structure {lit}`Field`: every field carries the proof that the names it is stored
  under are plain text.
- Theorems {lit}`Field.neutral_columnExpr`, {lit}`Field.neutral_jsonExtractExpr` and
  {lit}`Field.neutral_jsonArrayExpr`: no column text contains a placeholder.
-/

namespace MemosNote
namespace Filter

open Library

/-- The supported SQL dialects. -/
inductive DialectName where
  | sqlite
  | mysql
  | postgres
deriving DecidableEq, Repr

instance (p : DialectName → Prop) [DecidablePred p] : Decidable (∀ d, p d) :=
  decidable_of_iff (p .sqlite ∧ p .mysql ∧ p .postgres)
    ⟨fun ⟨hs, hm, hp⟩ d => by cases d <;> assumption, fun h => ⟨h _, h _, h _⟩⟩

/-- Postgres numbers its placeholders, the other dialects do not. -/
def DialectName.style : DialectName → Style
  | .postgres => .dollar
  | _ => .question

/-- The logical type of a field. -/
inductive FieldType where
  | string
  | int
  | bool
  | timestamp
deriving DecidableEq, Repr

/-- How a field is stored. -/
inductive FieldKind where
  | scalar
  | boolColumn
  | jsonBool
  | jsonList
  | virtualAlias
deriving DecidableEq, Repr

/-- The backing table column. -/
structure Column where
  table : String
  name : String
deriving DecidableEq, Repr

/-- The comparison operators of the condition language. -/
inductive ComparisonOperator where
  | eq
  | neq
  | lt
  | lte
  | gt
  | gte
deriving DecidableEq, Repr

/-- The text of a comparison operator, the same in every dialect. -/
def sqlOperator : ComparisonOperator → String
  | .eq => "="
  | .neq => "!="
  | .lt => "<"
  | .lte => "<="
  | .gt => ">"
  | .gte => ">="

/-- The conversions that occur in the {lit}`Expressions` tables of the schemas. -/
inductive Expressions where
  /-- No entry, or the entry {lit}`%s`. -/
  | asIs
  /-- The resource name of a user. -/
  | userResource
  /-- Epoch seconds: only MySQL stores a {lit}`TIMESTAMP`. -/
  | epochSeconds
deriving DecidableEq, Repr

/-- Apply the entry of a dialect to a column text. -/
def Expressions.apply : Expressions → DialectName → String → String
  | .asIs, _, base => base
  | .userResource, .mysql, base => "CONCAT('users/', " ++ base ++ ")"
  | .userResource, _, base => "('users/' || " ++ base ++ ")"
  | .epochSeconds, .mysql, base => "UNIX_TIMESTAMP(" ++ base ++ ")"
  | .epochSeconds, _, base => base

/-- The qualified name of a column. -/
def qualifyColumn (d : DialectName) (col : Column) : String :=
  match d with
  | .postgres => col.table ++ "." ++ col.name
  | _ => "`" ++ col.table ++ "`.`" ++ col.name ++ "`"

/-- The JSON path text of a field. -/
def jsonPathText (path : List String) : String :=
  "$." ++ ".".intercalate path

/-- The arrow notation of Postgres; only the terminal step may yield text. -/
def buildPostgresJSONAccessor (base : String) : List String → Bool → String
  | [], _ => base
  | [part], true => base ++ "->>'" ++ part ++ "'"
  | part :: rest, terminalText =>
      buildPostgresJSONAccessor (base ++ "->'" ++ part ++ "'") rest terminalText

/-- The text that extracts a JSON scalar. -/
def jsonExtractText (d : DialectName) (col : Column) (path : List String) : String :=
  match d with
  | .postgres => buildPostgresJSONAccessor (qualifyColumn d col) path true
  | _ => "JSON_EXTRACT(" ++ qualifyColumn d col ++ ", '" ++ jsonPathText path ++ "')"

/-- The text that extracts a JSON array. -/
def jsonArrayText (d : DialectName) (col : Column) (path : List String) : String :=
  match d with
  | .postgres => buildPostgresJSONAccessor (qualifyColumn d col) path false
  | _ => "JSON_EXTRACT(" ++ qualifyColumn d col ++ ", '" ++ jsonPathText path ++ "')"

/-- The metadata of an exposed identifier.  A field cannot be built unless the names
it is stored under are free of quotes and of placeholder characters. -/
structure Field where
  name : String
  kind : FieldKind
  type : FieldType
  column : Column := ⟨"", ""⟩
  jsonPath : List String := []
  aliasFor : String := ""
  supportsContains : Bool := false
  expressions : Expressions := .asIs
  allowedComparisonOps : Option (List ComparisonOperator) := none
  plain_table : Plain column.table := by decide +kernel
  plain_column : Plain column.name := by decide +kernel
  plain_path : ∀ part ∈ jsonPath, Plain part := by decide +kernel
deriving DecidableEq

namespace Field

/-- The field expression of a dialect, with the conversions of the schema. -/
def columnExpr (f : Field) (d : DialectName) : String :=
  f.expressions.apply d (qualifyColumn d f.column)

/-- The extraction of a field stored as a JSON scalar. -/
def jsonExtractExpr (f : Field) (d : DialectName) : String :=
  jsonExtractText d f.column f.jsonPath

/-- The extraction of a field stored as a JSON array. -/
def jsonArrayExpr (f : Field) (d : DialectName) : String :=
  jsonArrayText d f.column f.jsonPath

end Field

/-! ## Column texts contain no placeholder -/

private theorem neutral_qualifyColumn (style : Style) (d : DialectName) (f : Field) :
    Neutral style (qualifyColumn d f.column) := by
  have htable := f.plain_table.neutral style
  have hname := f.plain_column.neutral style
  have htick : Neutral style "`" := by cases style <;> decide
  have hticks : Neutral style "`.`" := by cases style <;> decide
  have hdot : Neutral style "." := by cases style <;> decide
  cases d with
  | postgres => exact (htable.append hdot).append hname
  | sqlite => exact (((htick.append htable).append hticks).append hname).append htick
  | mysql => exact (((htick.append htable).append hticks).append hname).append htick

namespace Field

theorem neutral_column (f : Field) (style : Style) (d : DialectName) :
    Neutral style (qualifyColumn d f.column) :=
  neutral_qualifyColumn style d f

theorem neutral_columnExpr (f : Field) (style : Style) (d : DialectName) :
    Neutral style (f.columnExpr d) := by
  have hbase := f.neutral_column style d
  have hconcat : Neutral style "CONCAT('users/', " := by cases style <;> decide
  have husers : Neutral style "('users/' || " := by cases style <;> decide
  have hepoch : Neutral style "UNIX_TIMESTAMP(" := by cases style <;> decide
  have hclose : Neutral style ")" := by cases style <;> decide
  unfold columnExpr
  cases f.expressions with
  | asIs => exact hbase
  | userResource =>
      cases d with
      | mysql => exact (hconcat.append hbase).append hclose
      | sqlite => exact (husers.append hbase).append hclose
      | postgres => exact (husers.append hbase).append hclose
  | epochSeconds =>
      cases d with
      | mysql => exact (hepoch.append hbase).append hclose
      | sqlite => exact hbase
      | postgres => exact hbase

private theorem quoteless_jsonPathText (f : Field) : Quoteless (jsonPathText f.jsonPath) := by
  have hroot : Quoteless "$." := by decide
  have hdot : Quoteless "." := by decide
  exact hroot.append (hdot.intercalate fun part hpart => (f.plain_path part hpart).quoteless)

private theorem neutral_extractCall (style : Style) (d : DialectName) (f : Field) :
    Neutral style
      ("JSON_EXTRACT(" ++ qualifyColumn d f.column ++ ", '" ++ jsonPathText f.jsonPath ++ "')") := by
  have hcall : Neutral style "JSON_EXTRACT(" := by cases style <;> decide
  have hcomma : Neutral style ", " := by cases style <;> decide
  have hclose : Neutral style ")" := by cases style <;> decide
  have hpath := (quoteless_jsonPathText f).neutral_quoted style
  have htext := (((hcall.append (f.neutral_column style d)).append hcomma).append hpath).append
    hclose
  have hsplit : ", '" ++ jsonPathText f.jsonPath ++ "')" =
      ", " ++ ("'" ++ jsonPathText f.jsonPath ++ "'") ++ ")" := by
    rw [show (", '" : String) = ", " ++ "'" from rfl, show ("')" : String) = "'" ++ ")" from rfl]
    simp only [String.append_assoc]
  simpa only [String.append_assoc, hsplit] using htext

private theorem neutral_accessor (style : Style) {path : List String}
    (hpath : ∀ part ∈ path, Plain part) {base : String} (hbase : Neutral style base)
    (terminalText : Bool) : Neutral style (buildPostgresJSONAccessor base path terminalText) := by
  induction path generalizing base with
  | nil => exact hbase
  | cons part rest ih =>
      have hquoted := (hpath part (by simp)).quoteless.neutral_quoted style
      have hplain : ∀ q ∈ rest, Plain q := fun q hq => hpath q (by simp [hq])
      have hstep := fun arrow (harrow : Neutral style arrow) =>
        (hbase.append harrow).append hquoted
      have hobject := hstep "->" (by cases style <;> decide)
      have htext := hstep "->>" (by cases style <;> decide)
      have hjoin : base ++ "->'" ++ part ++ "'" = base ++ "->" ++ ("'" ++ part ++ "'") := by
        rw [show ("->'" : String) = "->" ++ "'" from rfl]
        simp only [String.append_assoc]
      have hjoin' : base ++ "->>'" ++ part ++ "'" = base ++ "->>" ++ ("'" ++ part ++ "'") := by
        rw [show ("->>'" : String) = "->>" ++ "'" from rfl]
        simp only [String.append_assoc]
      cases rest with
      | nil =>
          cases terminalText with
          | true => simpa only [buildPostgresJSONAccessor, hjoin'] using htext
          | false => simpa only [buildPostgresJSONAccessor, hjoin] using hobject
      | cons next rest =>
          have hdeep := ih hplain hobject
          simpa only [buildPostgresJSONAccessor, hjoin] using hdeep

theorem neutral_jsonExtractExpr (f : Field) (style : Style) (d : DialectName) :
    Neutral style (f.jsonExtractExpr d) := by
  cases d with
  | postgres => exact neutral_accessor style f.plain_path (f.neutral_column style .postgres) true
  | sqlite => exact neutral_extractCall style .sqlite f
  | mysql => exact neutral_extractCall style .mysql f

theorem neutral_jsonArrayExpr (f : Field) (style : Style) (d : DialectName) :
    Neutral style (f.jsonArrayExpr d) := by
  cases d with
  | postgres => exact neutral_accessor style f.plain_path (f.neutral_column style .postgres) false
  | sqlite => exact neutral_extractCall style .sqlite f
  | mysql => exact neutral_extractCall style .mysql f

end Field

/-- The fields of a filter language. -/
structure Schema where
  name : String
  fields : List Field

namespace Schema

/-- The field with a given name. -/
def field (s : Schema) (name : String) : Option Field :=
  s.fields.find? fun f => f.name == name

/-- The field behind a virtual alias; any other field stands for itself. -/
def resolveAlias (s : Schema) (name : String) : Option Field :=
  (s.field name).bind fun f =>
    if f.kind = .virtualAlias then s.field f.aliasFor else some f

end Schema

/-- The operators of fields that can only be tested for equality. -/
def equalityOps : Option (List ComparisonOperator) :=
  some [.eq, .neq]

/-- The memo filter schema. -/
def newSchema : Schema where
  name := "memo"
  fields := [
    { name := "content", kind := .scalar, type := .string, column := ⟨"memo", "content"⟩
      supportsContains := true },
    { name := "creator", kind := .scalar, type := .string
      column := ⟨"memo_creator", "username"⟩, expressions := .userResource
      allowedComparisonOps := equalityOps },
    { name := "creator_id", kind := .scalar, type := .int, column := ⟨"memo", "creator_id"⟩
      allowedComparisonOps := equalityOps },
    { name := "created_ts", kind := .scalar, type := .timestamp
      column := ⟨"memo", "created_ts"⟩, expressions := .epochSeconds },
    { name := "updated_ts", kind := .scalar, type := .timestamp
      column := ⟨"memo", "updated_ts"⟩, expressions := .epochSeconds },
    { name := "pinned", kind := .boolColumn, type := .bool, column := ⟨"memo", "pinned"⟩
      allowedComparisonOps := equalityOps },
    { name := "visibility", kind := .scalar, type := .string, column := ⟨"memo", "visibility"⟩
      allowedComparisonOps := equalityOps },
    { name := "tags", kind := .jsonList, type := .string, column := ⟨"memo", "payload"⟩
      jsonPath := ["tags"] },
    { name := "tag", kind := .virtualAlias, type := .string, aliasFor := "tags" },
    { name := "has_task_list", kind := .jsonBool, type := .bool, column := ⟨"memo", "payload"⟩
      jsonPath := ["property", "hasTaskList"], allowedComparisonOps := equalityOps },
    { name := "has_link", kind := .jsonBool, type := .bool, column := ⟨"memo", "payload"⟩
      jsonPath := ["property", "hasLink"], allowedComparisonOps := equalityOps },
    { name := "has_code", kind := .jsonBool, type := .bool, column := ⟨"memo", "payload"⟩
      jsonPath := ["property", "hasCode"], allowedComparisonOps := equalityOps },
    { name := "has_incomplete_tasks", kind := .jsonBool, type := .bool
      column := ⟨"memo", "payload"⟩, jsonPath := ["property", "hasIncompleteTasks"]
      allowedComparisonOps := equalityOps }]

/-- The attachment filter schema. -/
def newAttachmentSchema : Schema where
  name := "attachment"
  fields := [
    { name := "filename", kind := .scalar, type := .string
      column := ⟨"attachment", "filename"⟩, supportsContains := true },
    { name := "mime_type", kind := .scalar, type := .string, column := ⟨"attachment", "type"⟩
      supportsContains := true },
    { name := "create_time", kind := .scalar, type := .timestamp
      column := ⟨"attachment", "created_ts"⟩, expressions := .epochSeconds },
    { name := "memo_id", kind := .scalar, type := .int, column := ⟨"attachment", "memo_id"⟩
      allowedComparisonOps := equalityOps }]

end Filter
end MemosNote
