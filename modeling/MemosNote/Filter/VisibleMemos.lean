import MemosNote.Filter.Engine
import MemosNote.Filter.Rows

/-!
# The memos that a user may see

The server itself filters memos by their visibility to a user: those of the user, and those that
are public or protected.  It writes the filter as a text, which is compiled like every other one.

Main results:

- Definition {lit}`Engine.selects`: the memos that the statement of a filter selects.
- Theorem {lit}`selects_visibleMemos`: what the filter by visibility selects.
-/

namespace MemosNote
namespace Filter

open Library

/-- The memos whose rows the statement of a filter holds of. -/
def Engine.selects (engine : Engine) (db : Server) (filter : String) :
    Except String (Store.Tables → Store.Memo → Bool) :=
  (engine.compileToStatement filter db.dialect 0).map fun stmt tables memo =>
    let creator := tables.users.find? fun user => user.ID = memo.CreatorID
    stmt.answer db (memoRow db.dialect (creator.map Store.User.Username) memo) = some .holds

/-- The expression of the filter by visibility. -/
def visibleMemosExpr (id : Int64) : Expr :=
  .call none "_||_" [
    .call none "_==_" [.ident "creator_id", .const (.int64Value id)],
    .call none "@in" [.ident "visibility",
      .list [.const (.stringValue "PUBLIC"), .const (.stringValue "PROTECTED")]]]

/-- The condition of the filter by visibility. -/
def visibleMemosCondition (id : Int64) : Condition :=
  .logical .or (.comparison (.fieldRef "creator_id") .eq (.literal (.int id)))
    (.inList (.fieldRef "visibility") [.literal (.str "PUBLIC"), .literal (.str "PROTECTED")])

private theorem buildCondition_visibleMemosExpr (pc : ParseContext) (h : pc.schema = newSchema)
    (id : Int64) : buildCondition pc (visibleMemosExpr id) = .ok (visibleMemosCondition id) := by
  rcases pc with ⟨schema, now, parseTimestamp, parseDuration⟩
  rcases h with rfl
  rfl

/-- The field of the creator's identifier. -/
def creatorIDField : Field :=
  (newSchema.field "creator_id").get rfl

/-- The field of the visibility. -/
def visibilityField : Field :=
  (newSchema.field "visibility").get rfl

/-- The tests of the filter by visibility. -/
def creatorFragment (id : Int64) : Fragment Arg :=
  ⟨.compare (.columnExpr creatorIDField) .eq, [.int id], rfl⟩

def visibilityFragment : Fragment Arg :=
  ⟨.inList (.columnExpr visibilityField) 2, [.str "PUBLIC", .str "PROTECTED"], rfl⟩

private theorem skeleton_visibleMemosCondition (d : DialectName) (id : Int64) :
    (visibleMemosCondition id).skeleton newSchema d =
      .ok (.or (.atom (creatorFragment id)) (.atom visibilityFragment)) :=
  rfl

variable (d : DialectName) (username : Option String) (memo : Store.Memo)

private theorem creatorFragment_answer (id : Int64) :
    (creatorFragment id).answer (exactServer d) (memoRow d username memo) =
      some (.ofBool (memo.CreatorID = id.toInt)) := by
  have hcompare : (creatorFragment id).answer (exactServer d) (memoRow d username memo) =
      some (.ofBool (ComparisonOperator.test .eq (compare memo.CreatorID id.toInt))) := rfl
  rw [hcompare]
  simp [ComparisonOperator.test]

private theorem visibilityFragment_answer :
    visibilityFragment.answer (exactServer d) (memoRow d username memo) =
      some (.ofBool (memo.Visibility ∈ [.Public, .Protected])) := by
  have hlist : visibilityFragment.answer (exactServer d) (memoRow d username memo) =
      some (disjAll [
        .ofBool (ComparisonOperator.test .eq (compare (visibilityText memo.Visibility) "PUBLIC")),
        .ofBool (ComparisonOperator.test .eq
          (compare (visibilityText memo.Visibility) "PROTECTED"))]) := rfl
  rw [hlist]
  cases memo.Visibility <;>
    simp [ComparisonOperator.test, visibilityText, disjAll, Truth.ofBool, Truth.disj]

private theorem visibleMemos_answer (id : Int64) :
    exprAnswer (Test.answer (exactServer d) (memoRow d username memo))
        (Skeleton.or (.atom (creatorFragment id)) (.atom visibilityFragment)).expr =
      some (Truth.disj (.ofBool (memo.CreatorID = id.toInt))
        (.ofBool (memo.Visibility ∈ [.Public, .Protected]))) := by
  have hor : exprAnswer (Test.answer (exactServer d) (memoRow d username memo))
      (Skeleton.or (.atom (creatorFragment id)) (.atom visibilityFragment)).expr =
        ((creatorFragment id).answer (exactServer d) (memoRow d username memo)).bind fun left =>
          (visibilityFragment.answer (exactServer d) (memoRow d username memo)).bind fun right =>
            some (left.disj right) := rfl
  rw [hor, creatorFragment_answer, visibilityFragment_answer]
  rfl

private theorem holds_or_iff (p q : Prop) [Decidable p] [Decidable q] :
    some (Truth.disj (.ofBool p) (.ofBool q)) = some Truth.holds ↔ p ∨ q := by
  by_cases hp : p <;> by_cases hq : q <;> simp [hp, hq, Truth.ofBool, Truth.disj]

/-- The memos that a user may see: their own and those that are not private. -/
def VisibleTo (id : ℤ) (memo : Store.Memo) : Prop :=
  memo.CreatorID = id ∨ memo.Visibility ∈ [Store.Visibility.Public, .Protected]

instance (id : ℤ) : DecidablePred (VisibleTo id) :=
  fun _ => inferInstanceAs (Decidable (_ ∨ _))

/-- What a filter selects whose condition has no constants and whose tests are answered. -/
theorem selects_of_answer {engine : Engine} (hschema : engine.context.schema = newSchema)
    {filter : String} (hblank : ¬filter.toList.all isSpace) {expr : Expr}
    (hcheck : engine.check filter = .ok expr) {condition : Condition}
    (hbuild : buildCondition engine.context expr = .ok condition) (d : DialectName)
    {t : Skeleton (Fragment Arg)} (hskeleton : condition.skeleton newSchema d = .ok t)
    (hfree : t.ConstantFree) {p : Store.Memo → Prop} [DecidablePred p]
    (hanswer : ∀ username memo,
      exprAnswer (Test.answer (exactServer d) (memoRow d username memo)) t.expr = some .holds ↔
        p memo) :
    engine.selects (exactServer d) filter = .ok fun _ memo => decide (p memo) := by
  have hcompile : engine.compile filter = .ok condition := by
    rw [Engine.compile, if_neg hblank, hcheck]
    exact hbuild
  have hstatement : engine.compileToStatement filter (exactServer d).dialect 0 =
      render newSchema (exactServer d).dialect 0 condition := by
    rw [Engine.compileToStatement, hcompile, ← hschema]
    rfl
  have hrow (row : Row) := answerBy_render hskeleton hfree (Test.answer (exactServer d) row)
  rw [Engine.selects, hstatement]
  cases hrender : render newSchema (exactServer d).dialect 0 condition with
  | error message =>
      have hnone := hrow (memoRow d none { ID := 0, UID := "", CreatorID := 0 })
      rw [show (exactServer d).dialect = d from rfl] at hrender
      rw [hrender] at hnone
      cases hnone
  | ok stmt =>
      rw [Except.map]
      congr 1
      funext tables memo
      have htests := hrow (memoRow d ((tables.users.find? fun user =>
        user.ID = memo.CreatorID).map Store.User.Username) memo)
      rw [show (exactServer d).dialect = d from rfl] at hrender
      rw [hrender] at htests
      rw [decide_eq_decide]
      exact (Eq.congr_left (Except.ok.inj htests)).trans (hanswer _ memo)

/-- The filter by visibility selects the memos that the user may see. -/
theorem selects_visibleMemos {engine : Engine} (hschema : engine.context.schema = newSchema)
    {filter : String} (hblank : ¬filter.toList.all isSpace) {id : Int64}
    (hcheck : engine.check filter = .ok (visibleMemosExpr id)) (d : DialectName) :
    engine.selects (exactServer d) filter =
      .ok fun _ memo => decide (VisibleTo id.toInt memo) := by
  refine selects_of_answer hschema hblank hcheck (buildCondition_visibleMemosExpr _ hschema id) d
    (skeleton_visibleMemosCondition d id) ⟨trivial, trivial⟩ fun username memo => ?_
  rw [visibleMemos_answer]
  exact holds_or_iff _ _

/-! ## Public memos -/

/-- The expression of the filter for public memos. -/
def publicMemosExpr : Expr :=
  .call none "_==_" [.ident "visibility", .const (.stringValue "PUBLIC")]

def publicMemosCondition : Condition :=
  .comparison (.fieldRef "visibility") .eq (.literal (.str "PUBLIC"))

private theorem buildCondition_publicMemosExpr (pc : ParseContext) (h : pc.schema = newSchema) :
    buildCondition pc publicMemosExpr = .ok publicMemosCondition := by
  rcases pc with ⟨schema, now, parseTimestamp, parseDuration⟩
  rcases h with rfl
  rfl

def publicFragment : Fragment Arg :=
  ⟨.compare (.columnExpr visibilityField) .eq, [.str "PUBLIC"], rfl⟩

private theorem skeleton_publicMemosCondition (d : DialectName) :
    publicMemosCondition.skeleton newSchema d = .ok (.atom publicFragment) :=
  rfl

private theorem publicFragment_answer :
    publicFragment.answer (exactServer d) (memoRow d username memo) =
      some (.ofBool (memo.Visibility = .Public)) := by
  have hcompare : publicFragment.answer (exactServer d) (memoRow d username memo) =
      some (.ofBool (ComparisonOperator.test .eq
        (compare (visibilityText memo.Visibility) "PUBLIC"))) := rfl
  rw [hcompare]
  cases memo.Visibility <;> simp [ComparisonOperator.test, visibilityText]

/-- The filter for public memos selects these. -/
theorem selects_publicMemos {engine : Engine} (hschema : engine.context.schema = newSchema)
    {filter : String} (hblank : ¬filter.toList.all isSpace)
    (hcheck : engine.check filter = .ok publicMemosExpr) (d : DialectName) :
    engine.selects (exactServer d) filter =
      .ok fun _ memo => decide (memo.Visibility = .Public) := by
  refine selects_of_answer hschema hblank hcheck (buildCondition_publicMemosExpr _ hschema) d
    (skeleton_publicMemosCondition d) trivial fun username memo => ?_
  have hatom : exprAnswer (Test.answer (exactServer d) (memoRow d username memo))
      (Skeleton.atom publicFragment).expr =
        publicFragment.answer (exactServer d) (memoRow d username memo) := rfl
  rw [hatom, publicFragment_answer]
  by_cases hpublic : memo.Visibility = .Public <;> simp [hpublic, Truth.ofBool]

end Filter
end MemosNote
