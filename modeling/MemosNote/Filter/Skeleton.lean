import MemosNote.Filter.Render

/-!
# The boolean skeleton of a rendered condition

The renderer decomposes into three steps: split a condition into a boolean tree
over atoms, render the atoms from left to right, and fold the tree of rendered
fragments with the constant shortcuts.  Every property of rendered statements is
derived from this decomposition.

Main results:

- Theorem {lit}`renderAtom_spec`: an atom hands out consecutive placeholders for
  exactly its own values.
- Theorem {lit}`render_spec`: the renderer is the fold of the numbered skeleton.
- Theorem {lit}`render_truth`: the rendered statement has the Kleene value of the
  condition.
-/

namespace MemosNote
namespace Filter

open Library

/-! ## Boolean trees with constants -/

/-- A boolean tree over atoms of type {lit}`α`. -/
inductive Skeleton (α : Type) where
  | constant (value : Bool)
  | atom (a : α)
  | not (t : Skeleton α)
  | and (l r : Skeleton α)
  | or (l r : Skeleton α)
deriving DecidableEq

namespace Skeleton

variable {α β ε : Type}

/-- The Kleene value of a tree. -/
def kleene (value : α → Truth) : Skeleton α → Truth
  | constant b => .ofBool b
  | atom a => value a
  | not t => (t.kleene value).neg
  | and l r => (l.kleene value).conj (r.kleene value)
  | or l r => (l.kleene value).disj (r.kleene value)

/-- The constant a conjunction folds to. -/
def foldAnd : Option Bool → Option Bool → Option Bool
  | some false, _ => some false
  | _, some false => some false
  | some true, right => right
  | left, some true => left
  | none, none => none

/-- The constant a disjunction folds to. -/
def foldOr : Option Bool → Option Bool → Option Bool
  | some true, _ => some true
  | _, some true => some true
  | some false, right => right
  | left, some false => left
  | none, none => none

/-- The constant a tree folds to. -/
def folds : Skeleton α → Option Bool
  | constant b => some b
  | atom _ => none
  | not t => t.folds.map (! ·)
  | and l r => foldAnd l.folds r.folds
  | or l r => foldOr l.folds r.folds

/-- The atoms of a tree, from left to right. -/
def atoms : Skeleton α → List α
  | constant _ => []
  | atom a => [a]
  | not t => t.atoms
  | and l r => l.atoms ++ r.atoms
  | or l r => l.atoms ++ r.atoms

/-- The tree itself and all its operands, at every depth. -/
def parts : Skeleton α → List (Skeleton α)
  | constant b => [constant b]
  | atom a => [atom a]
  | not t => not t :: t.parts
  | and l r => and l r :: (l.parts ++ r.parts)
  | or l r => or l r :: (l.parts ++ r.parts)

/-- Replace the atoms from left to right by a map that may fail. -/
def mapM (f : α → Except ε β) : Skeleton α → Except ε (Skeleton β)
  | constant b => pure (constant b)
  | atom a => atom <$> f a
  | not t => not <$> t.mapM f
  | and l r => do return and (← l.mapM f) (← r.mapM f)
  | or l r => do return or (← l.mapM f) (← r.mapM f)

end Skeleton

/-- The boolean tree of a condition. -/
def Condition.tree : Condition → Skeleton Condition
  | .logical .and left right => .and left.tree right.tree
  | .logical .or left right => .or left.tree right.tree
  | .not expr => .not expr.tree
  | .constant value => .constant value
  | atom => .atom atom

/-- The boolean tree of a condition over its atoms' fragments. -/
def Condition.skeleton (schema : Schema) (dialect : DialectName) (c : Condition) :
    Except String (Skeleton (Fragment Arg)) :=
  c.tree.mapM (Condition.atom schema dialect)

namespace Skeleton

/-- The values bound by a tree, from left to right. -/
def values (t : Skeleton (Fragment Arg)) : List Arg :=
  t.atoms.flatMap Fragment.slots

/-- Number the slots of the fragments upwards, from left to right. -/
def number : ℕ → Skeleton (Fragment Arg) → Skeleton (Fragment ℕ)
  | _, constant b => constant b
  | start, atom f => atom (f.number start)
  | start, not t => not (t.number start)
  | start, and l r => and (l.number start) (r.number (start + l.values.length))
  | start, or l r => or (l.number start) (r.number (start + l.values.length))

/-- Fold a tree of rendered fragments with the constant shortcuts. -/
def result : Skeleton (Fragment ℕ) → RenderResult
  | constant value => if value then .always else .never
  | atom f => .ofFragment f
  | not t => renderNot t.result
  | and l r => combineAnd l.result r.result
  | or l r => combineOr l.result r.result

@[simp]
theorem values_and (l r : Skeleton (Fragment Arg)) : (and l r).values = l.values ++ r.values := by
  simp [values, atoms]

@[simp]
theorem values_or (l r : Skeleton (Fragment Arg)) : (or l r).values = l.values ++ r.values := by
  simp [values, atoms]

@[simp]
theorem values_not (t : Skeleton (Fragment Arg)) : (not t).values = t.values :=
  rfl

@[simp]
theorem values_constant (b : Bool) : (constant b : Skeleton (Fragment Arg)).values = [] :=
  rfl

@[simp]
theorem values_atom (f : Fragment Arg) : (atom f).values = f.slots := by
  simp [values, atoms]

end Skeleton

/-! ## Atoms hand out consecutive placeholders -/

namespace Renderer

/-- The number of the next placeholder. -/
def next (r : Renderer) : ℕ :=
  r.placeholderOffset + r.placeholderCounter

/-- The renderer after recording values. -/
def push (r : Renderer) (values : List Arg) : Renderer where
  placeholderOffset := r.placeholderOffset
  placeholderCounter := r.placeholderCounter + values.length
  args := r.args ++ values

@[simp]
theorem push_nil (r : Renderer) : r.push [] = r := by
  cases r
  simp [push]

@[simp]
theorem push_push (r : Renderer) (v w : List Arg) : (r.push v).push w = r.push (v ++ w) := by
  simp [push, Nat.add_assoc]

@[simp]
theorem next_push (r : Renderer) (v : List Arg) : (r.push v).next = r.next + v.length := by
  simp [push, next, Nat.add_assoc]

end Renderer

/-- A computation hands out consecutive placeholders for the values that the same
computation would put in their place. -/
def Tracks {α β : Type} (values : α → List Arg) (number : ℕ → α → β) (run : RenderM β)
    (direct : Except String α) : Prop :=
  ∀ r : Renderer, run r = direct.map fun a => (number r.next a, r.push (values a))

/-- A fragment computation hands out consecutive placeholders. -/
abbrev TracksFragment : RenderM (Fragment ℕ) → Except String (Fragment Arg) → Prop :=
  Tracks Fragment.slots Fragment.number

section

variable {α β γ δ κ : Type} {values : α → List Arg} {number : ℕ → α → β}

/-- A pure step is tracked. -/
theorem Tracks.bind_lift {e : Except String γ} {f : γ → RenderM β} {g : γ → Except String α}
    (h : ∀ a, Tracks values number (f a) (g a)) :
    Tracks values number ((liftM e : RenderM γ) >>= f) ((liftM e : Except String γ) >>= g) := by
  intro r
  cases e with
  | error message => rfl
  | ok a => exact h a r

/-- A failure is tracked by the same failure. -/
theorem Tracks.fail (message : String) :
    Tracks values number (Filter.fail message) (Filter.fail message) := by
  intro r
  rfl

/-- Sequencing: the rest runs after the values of the first part. -/
theorem Tracks.bind {values' : γ → List Arg} {number' : ℕ → γ → δ} {run : RenderM β}
    {direct : Except String α} {f : β → RenderM δ} {g : α → Except String γ}
    (h : Tracks values number run direct)
    (hf : ∀ (a : α) (r : Renderer), f (number r.next a) (r.push (values a)) =
      (g a).map fun c => (number' r.next c, r.push (values' c))) :
    Tracks values' number' (run >>= f) (direct >>= g) := by
  intro r
  have hrun : (run >>= f) r = (run r).bind fun p => f p.1 p.2 := rfl
  rw [hrun, h r]
  cases direct with
  | error message => rfl
  | ok a => exact hf a r

/-- A pure last step that commutes with numbering. -/
theorem Tracks.bind_pure {values' : γ → List Arg} {number' : ℕ → γ → δ} {run : RenderM β}
    {direct : Except String α} {f : β → δ} {g : α → γ} (h : Tracks values number run direct)
    (hvalues : ∀ a, values' (g a) = values a)
    (hnumber : ∀ start a, number' start (g a) = f (number start a)) :
    Tracks values' number' (run >>= fun b => pure (f b)) (direct >>= fun a => pure (g a)) := by
  refine h.bind fun a r => ?_
  have hright : (pure (g a) : Except String γ).map
      (fun c => (number' r.next c, r.push (values' c))) =
        .ok (number' r.next (g a), r.push (values' (g a))) := rfl
  rw [hright, hvalues, hnumber]
  rfl

/-- Two computations, one after the other, with a pure last step. -/
theorem Tracks.bind_bind_pure {α' β' : Type} {values₁ : α' → List Arg} {number₁ : ℕ → α' → β'}
    {values' : γ → List Arg} {number' : ℕ → γ → δ} {run : RenderM β} {direct : Except String α}
    {run₁ : RenderM β'} {direct₁ : Except String α'} {f : β → β' → δ} {g : α → α' → γ}
    (h : Tracks values number run direct) (h₁ : Tracks values₁ number₁ run₁ direct₁)
    (hvalues : ∀ a b, values' (g a b) = values a ++ values₁ b)
    (hnumber : ∀ start a b, number' start (g a b) =
      f (number start a) (number₁ (start + (values a).length) b)) :
    Tracks values' number' (run >>= fun x => run₁ >>= fun y => pure (f x y))
      (direct >>= fun x => direct₁ >>= fun y => pure (g x y)) := by
  refine h.bind fun a r => ?_
  have hrun : (run₁ >>= fun y => pure (f (number r.next a) y)) (r.push (values a)) =
      (run₁ (r.push (values a))).bind fun p => .ok (f (number r.next a) p.1, p.2) := rfl
  rw [hrun, h₁]
  cases direct₁ with
  | error message => rfl
  | ok b =>
      have hright : ((.ok b : Except String α') >>= fun y => pure (g a y)).map
          (fun c => (number' r.next c, r.push (values' c))) =
            .ok (number' r.next (g a b), r.push (values' (g a b))) := rfl
      rw [hright, hvalues, hnumber, ← Renderer.next_push, ← Renderer.push_push]
      rfl

/-- One placeholder. -/
theorem tracks_addArg (value : Arg) :
    Tracks (fun v => [v]) (fun n _ => n) (addArg value) (pure value) := by
  intro r
  rfl

/-- A fragment without values is tracked. -/
theorem tracks_fixed (shape : Shape) (h : shape.arity = 0) :
    TracksFragment (pure (fixed shape h)) (pure (fixed shape h)) := by
  intro r
  exact congrArg Except.ok (Prod.ext rfl r.push_nil.symm)

/-- A fragment with one value is tracked. -/
theorem tracks_single (shape : Shape) (h : shape.arity = 1) (value : Arg) :
    TracksFragment (addArg value >>= fun p => pure (single shape p h))
      (pure value >>= fun p => pure (single shape p h)) :=
  (tracks_addArg value).bind_pure (fun _ => rfl) fun _ _ => rfl

end

private theorem either_number (start : ℕ) (f g : Fragment Arg) :
    (f.either g).number start = (f.number start).either (g.number (start + f.slots.length)) := by
  simp [Fragment.either, Fragment.number]

section

variable (schema : Schema) (dialect : DialectName)

private theorem renderFieldPredicate_tracks (name : String) :
    TracksFragment (renderFieldPredicate schema dialect name)
      (renderFieldPredicate schema dialect name) := by
  refine Tracks.bind_lift fun field => ?_
  cases field.kind with
  | boolColumn => exact tracks_fixed _ rfl
  | jsonBool => cases dialect <;> exact tracks_fixed _ rfl
  | _ => exact Tracks.fail _

private theorem renderAccessorComparison_tracks (name accessor : String)
    (op : ComparisonOperator) (right : ValueExpr) :
    TracksFragment (renderAccessorComparison addArg schema name accessor op right)
      (renderAccessorComparison pure schema name accessor op right) := by
  refine Tracks.bind_lift fun field => Tracks.bind_lift fun value => ?_
  cases Accessor.ofName? accessor with
  | none => exact Tracks.fail _
  | some spec => exact tracks_single _ rfl _

private theorem renderFunctionComparison_tracks (name : String) (args : List ValueExpr)
    (op : ComparisonOperator) (right : ValueExpr) :
    TracksFragment (renderFunctionComparison addArg schema name args op right)
      (renderFunctionComparison pure schema name args op right) := by
  unfold renderFunctionComparison
  split
  · exact Tracks.fail _
  · split
    · exact Tracks.bind_lift fun field => Tracks.bind_lift fun value =>
        Tracks.bind_lift fun expr => tracks_single _ rfl _
    · exact Tracks.fail _
    · exact Tracks.fail _

private theorem renderScalarComparison_tracks (field : Field) (op : ComparisonOperator)
    (right : ValueExpr) :
    TracksFragment (renderScalarComparison addArg field op right)
      (renderScalarComparison pure field op right) := by
  refine Tracks.bind_lift fun lit => ?_
  by_cases hnull : lit = .null
  · simp only [hnull, if_true]
    cases op <;> first | exact tracks_fixed _ rfl | exact Tracks.fail _
  · simp only [hnull, if_false]
    exact Tracks.bind_lift fun value => tracks_single _ rfl _

private theorem renderBoolColumnComparison_tracks (field : Field) (op : ComparisonOperator)
    (right : ValueExpr) :
    TracksFragment (renderBoolColumnComparison addArg dialect field op right)
      (renderBoolColumnComparison pure dialect field op right) :=
  Tracks.bind_lift fun _ => tracks_single _ rfl _

private theorem renderJSONBoolComparison_tracks (field : Field) (op : ComparisonOperator)
    (right : ValueExpr) :
    TracksFragment (renderJSONBoolComparison addArg dialect field op right)
      (renderJSONBoolComparison pure dialect field op right) := by
  refine Tracks.bind_lift fun value => ?_
  cases dialect with
  | sqlite =>
      cases op with
      | eq => dsimp only; split_ifs <;> exact tracks_fixed _ rfl
      | neq => dsimp only; split_ifs <;> exact tracks_fixed _ rfl
      | _ => exact Tracks.fail _
  | mysql => exact tracks_fixed _ rfl
  | postgres => exact tracks_single _ rfl _

private theorem renderComparison_tracks (left : ValueExpr) (op : ComparisonOperator)
    (right : ValueExpr) :
    TracksFragment (renderComparison addArg schema dialect left op right)
      (renderComparison pure schema dialect left op right) := by
  cases left with
  | fieldRef name =>
      refine Tracks.bind_lift fun field => ?_
      cases field.kind with
      | boolColumn => exact renderBoolColumnComparison_tracks dialect field op right
      | jsonBool => exact renderJSONBoolComparison_tracks dialect field op right
      | scalar => exact renderScalarComparison_tracks field op right
      | _ => exact Tracks.fail _
  | function name args => exact renderFunctionComparison_tracks schema name args op right
  | fieldAccessor name accessor =>
      exact renderAccessorComparison_tracks schema name accessor op right
  | literal value => exact Tracks.fail _

/-- Number pairs of slots upwards. -/
def numberPairs : ℕ → List (Arg × Arg) → List (ℕ × ℕ)
  | _, [] => []
  | start, _ :: pairs => (start, start + 1) :: numberPairs (start + 2) pairs

/-- The slots of a list of pairs. -/
def pairSlots {σ : Type} (pairs : List (σ × σ)) : List σ :=
  pairs.flatMap fun p => [p.1, p.2]

private theorem pairSlots_cons {σ : Type} (p : σ × σ) (pairs : List (σ × σ)) :
    pairSlots (p :: pairs) = p.1 :: p.2 :: pairSlots pairs :=
  rfl

private theorem pairSlots_numberPairs (start : ℕ) (pairs : List (Arg × Arg)) :
    pairSlots (numberPairs start pairs) = List.range' start (pairSlots pairs).length := by
  induction pairs generalizing start with
  | nil => rfl
  | cons p pairs ih =>
      rw [numberPairs, pairSlots_cons, pairSlots_cons, ih]
      simp [List.range'_succ]

private theorem length_numberPairs (start : ℕ) (pairs : List (Arg × Arg)) :
    (numberPairs start pairs).length = pairs.length := by
  induction pairs generalizing start with
  | nil => rfl
  | cons p pairs ih => simp [numberPairs, ih]

private theorem renderTagMatch_tracks (str : String) :
    Tracks (fun p => [p.1, p.2]) (fun start _ => (start, start + 1))
      (renderTagMatch addArg dialect str) (renderTagMatch pure dialect str) :=
  (tracks_addArg _).bind_bind_pure (tracks_addArg _) (fun _ _ => rfl) fun _ _ _ => rfl

private theorem renderTagValues_tracks (values : List ValueExpr) :
    Tracks pairSlots numberPairs (renderTagValues addArg dialect values)
      (renderTagValues pure dialect values) := by
  induction values with
  | nil =>
      intro r
      exact congrArg Except.ok (Prod.ext rfl r.push_nil.symm)
  | cons v values ih =>
      refine Tracks.bind_lift fun lit => ?_
      cases lit with
      | str s =>
          exact (renderTagMatch_tracks dialect s).bind_bind_pure ih (fun _ _ => rfl)
            fun _ _ _ => rfl
      | _ => exact Tracks.fail _

private theorem tagListFragment_number (field : Field) (start : ℕ) (pairs : List (Arg × Arg)) :
    (tagListFragment dialect field pairs).number start =
      tagListFragment dialect field (numberPairs start pairs) := by
  match pairs with
  | [] => rfl
  | [p] => rfl
  | p :: q :: rest =>
      have hslots := pairSlots_numberPairs start (p :: q :: rest)
      have hlength := length_numberPairs (start + 2 + 2) rest
      simp only [pairSlots] at hslots
      simp only [tagListFragment, Fragment.number, numberPairs] at hslots ⊢
      simp [hslots, hlength]

private theorem renderTagInList_tracks (values : List ValueExpr) :
    TracksFragment (renderTagInList addArg schema dialect values)
      (renderTagInList pure schema dialect values) := by
  unfold renderTagInList
  cases schema.resolveAlias "tag" with
  | none => exact Tracks.fail _
  | some field =>
      refine (renderTagValues_tracks dialect values).bind_pure (fun pairs => ?_) fun start pairs =>
        tagListFragment_number dialect field start pairs
      match pairs with
      | [] => rfl
      | [p] => rfl
      | p :: q :: rest => rfl

private theorem renderInValues_tracks (field : Field) (values : List ValueExpr) :
    Tracks (fun l => l) (fun start l => List.range' start l.length)
      (renderInValues addArg field values) (renderInValues pure field values) := by
  induction values with
  | nil =>
      intro r
      exact congrArg Except.ok (Prod.ext rfl r.push_nil.symm)
  | cons v values ih =>
      refine Tracks.bind_lift fun lit => Tracks.bind_lift fun value => ?_
      exact (tracks_addArg value).bind_bind_pure ih (fun _ _ => rfl) fun start _ l => by
        simp [List.range'_succ]

private theorem renderInCondition_tracks (left : ValueExpr) (values : List ValueExpr) :
    TracksFragment (renderInCondition addArg schema dialect left values)
      (renderInCondition pure schema dialect left values) := by
  cases left with
  | fieldRef name =>
      by_cases htag : name = "tag"
      · simp only [renderInCondition, htag, if_true]
        exact renderTagInList_tracks schema dialect values
      · simp only [renderInCondition, htag, if_false]
        refine Tracks.bind_lift fun field => ?_
        split
        · exact Tracks.fail _
        · refine (renderInValues_tracks field values).bind_pure (fun _ => rfl) fun start l => ?_
          simp [Fragment.number]
  | _ => exact Tracks.fail _

private theorem renderElementInCondition_tracks (element : ValueExpr) (name : String) :
    TracksFragment (renderElementInCondition addArg schema dialect element name)
      (renderElementInCondition pure schema dialect element name) := by
  refine Tracks.bind_lift fun field => ?_
  split
  · exact Tracks.fail _
  · refine Tracks.bind_lift fun lit => ?_
    cases lit with
    | str s => exact tracks_single _ _ _
    | _ => exact Tracks.fail _

private theorem elementPredicateSQL_tracks (pred : PredicateExpr) :
    TracksFragment (elementPredicateSQL addArg pred) (elementPredicateSQL pure pred) := by
  cases pred <;> exact tracks_single _ rfl _

private theorem buildExactMatch_tracks (field : Field) (value : String) :
    TracksFragment (buildExactMatch addArg dialect field value)
      (buildExactMatch pure dialect field value) := by
  cases dialect <;> exact tracks_single _ rfl _

private theorem buildJSONArrayLike_tracks (field : Field) (pattern : String) :
    TracksFragment (buildJSONArrayLike addArg field pattern)
      (buildJSONArrayLike pure field pattern) :=
  tracks_single _ rfl _

private theorem renderTagStartsWith_tracks (field : Field) (text : String) :
    TracksFragment (renderTagStartsWith addArg dialect field text)
      (renderTagStartsWith pure dialect field text) := by
  refine (buildExactMatch_tracks dialect field text).bind_bind_pure
    (buildJSONArrayLike_tracks field _) (fun _ _ => rfl) fun start f g => ?_
  rw [← show wrapWithNullCheck field ((f.either g).number start) =
    (wrapWithNullCheck field (f.either g)).number start from rfl, either_number]

private theorem renderListComprehension_tracks (kind : ComprehensionKind) (name : String)
    (pred : PredicateExpr) :
    TracksFragment (renderListComprehension addArg schema dialect kind name pred)
      (renderListComprehension pure schema dialect kind name pred) := by
  refine Tracks.bind_lift fun field => ?_
  split
  · exact Tracks.fail _
  · have hwrap : ∀ {run direct}, TracksFragment run direct →
        TracksFragment (run >>= fun f => pure (wrapWithNullCheck field f))
          (direct >>= fun f => pure (wrapWithNullCheck field f)) :=
      fun h => h.bind_pure (fun _ => rfl) fun _ _ => rfl
    cases kind with
    | all => exact (elementPredicateSQL_tracks pred).bind_pure (fun _ => rfl) fun _ _ => rfl
    | existsOne => exact (elementPredicateSQL_tracks pred).bind_pure (fun _ => rfl) fun _ _ => rfl
    | «exists» =>
        cases pred with
        | equals value => exact hwrap (buildExactMatch_tracks dialect field value)
        | startsWith text => exact renderTagStartsWith_tracks dialect field text
        | endsWith suffix => exact hwrap (buildJSONArrayLike_tracks field _)
        | contains substring => exact hwrap (buildJSONArrayLike_tracks field _)

/-- An atom hands out consecutive placeholders for exactly its own values. -/
theorem renderAtom_spec (c : Condition) (r : Renderer) :
    renderAtom addArg schema dialect c r =
      (c.atom schema dialect).map fun f => (f.number r.next, r.push f.slots) := by
  suffices h : TracksFragment (renderAtom addArg schema dialect c)
      (renderAtom pure schema dialect c) from h r
  cases c with
  | fieldPredicate field => exact renderFieldPredicate_tracks schema dialect field
  | comparison left op right => exact renderComparison_tracks schema dialect left op right
  | inList left values => exact renderInCondition_tracks schema dialect left values
  | elementIn element field => exact renderElementInCondition_tracks schema dialect element field
  | textMatch field mode value => exact Tracks.bind_lift fun _ => tracks_single _ rfl _
  | regex field pattern => exact Tracks.bind_lift fun _ => tracks_single _ rfl _
  | listComprehension kind field iterVar pred =>
      exact renderListComprehension_tracks schema dialect kind field pred
  | _ => exact Tracks.fail _

end

/-! ## The renderer folds the numbered skeleton -/

private theorem run_bind {α β : Type} (run : RenderM α) (f : α → RenderM β) (r : Renderer) :
    (run >>= f) r = (run r).bind fun p => f p.1 p.2 :=
  rfl

private theorem renderCondition_atom {schema : Schema} {dialect : DialectName} {c : Condition}
    (htree : c.tree = .atom c)
    (hrun : renderCondition schema dialect c =
      renderAtom addArg schema dialect c >>= fun f => pure (.ofFragment f)) (r : Renderer) :
    renderCondition schema dialect c r =
      (c.skeleton schema dialect).map fun t => ((t.number r.next).result, r.push t.values) := by
  have hskeleton : c.skeleton schema dialect = (c.atom schema dialect).map .atom := by
    rw [Condition.skeleton, htree]
    rfl
  rw [hrun, run_bind, renderAtom_spec, hskeleton]
  cases c.atom schema dialect with
  | error message => rfl
  | ok f =>
      simp only [Except.map, Except.bind, Skeleton.values_atom]
      rfl

/-- The renderer folds the skeleton of {lit}`c` numbered from its own counter. -/
private def FoldsSkeleton (schema : Schema) (dialect : DialectName) (c : Condition) : Prop :=
  ∀ r : Renderer, renderCondition schema dialect c r =
    (c.skeleton schema dialect).map fun t => ((t.number r.next).result, r.push t.values)

private theorem foldsSkeleton_binary {schema : Schema} {dialect : DialectName}
    {c left right : Condition} {combine : RenderResult → RenderResult → RenderResult}
    {node : ∀ {α : Type}, Skeleton α → Skeleton α → Skeleton α}
    (hrun : ∀ r, renderCondition schema dialect c r =
      (renderCondition schema dialect left r).bind fun p =>
        (renderCondition schema dialect right p.2).bind fun q => .ok (combine p.1 q.1, q.2))
    (htree : c.skeleton schema dialect = (left.skeleton schema dialect).bind fun l =>
      (right.skeleton schema dialect).bind fun u => .ok (node l u))
    (hresult : ∀ start (l u : Skeleton (Fragment Arg)), ((node l u).number start).result =
      combine (l.number start).result (u.number (start + l.values.length)).result)
    (hvalues : ∀ l u : Skeleton (Fragment Arg), (node l u).values = l.values ++ u.values)
    (hleft : FoldsSkeleton schema dialect left) (hright : FoldsSkeleton schema dialect right) :
    FoldsSkeleton schema dialect c := by
  intro r
  rw [hrun, hleft, htree]
  cases left.skeleton schema dialect with
  | error message => rfl
  | ok l =>
      simp only [Except.map, Except.bind]
      rw [hright]
      cases right.skeleton schema dialect with
      | error message => rfl
      | ok u => simp [Except.map, hresult, hvalues]

/-- The renderer folds the skeleton numbered from its own counter. -/
theorem renderCondition_spec (schema : Schema) (dialect : DialectName) (c : Condition)
    (r : Renderer) :
    renderCondition schema dialect c r =
      (c.skeleton schema dialect).map fun t => ((t.number r.next).result, r.push t.values) := by
  induction c generalizing r with
  | logical op left right hleft hright =>
      cases op with
      | and =>
          exact foldsSkeleton_binary (fun _ => rfl) rfl (fun _ _ _ => rfl) Skeleton.values_and
            hleft hright r
      | or =>
          exact foldsSkeleton_binary (fun _ => rfl) rfl (fun _ _ _ => rfl) Skeleton.values_or
            hleft hright r
  | not expr hexpr =>
      have hrun : renderCondition schema dialect (.not expr) r =
          (renderCondition schema dialect expr r).bind fun p => .ok (renderNot p.1, p.2) := rfl
      have htree : (Condition.not expr).skeleton schema dialect =
          (expr.skeleton schema dialect).map .not := rfl
      rw [hrun, hexpr, htree]
      cases expr.skeleton schema dialect <;> rfl
  | constant value =>
      change Except.ok (_, r) = Except.ok (_, r.push [])
      rw [Renderer.push_nil]
      rfl
  | fieldPredicate field => exact renderCondition_atom rfl rfl r
  | comparison left op right => exact renderCondition_atom rfl rfl r
  | inList left values => exact renderCondition_atom rfl rfl r
  | elementIn element field => exact renderCondition_atom rfl rfl r
  | textMatch field mode value => exact renderCondition_atom rfl rfl r
  | regex field pattern => exact renderCondition_atom rfl rfl r
  | listComprehension kind field iterVar predicate => exact renderCondition_atom rfl rfl r

/-- A rendered statement is the fold of the numbered skeleton. -/
theorem render_spec (schema : Schema) (dialect : DialectName) (offset : ℕ) (c : Condition) :
    render schema dialect offset c =
      (c.skeleton schema dialect).map fun t =>
        (t.number offset).result.statement t.values := by
  have hrun : render schema dialect offset c =
      (renderCondition schema dialect c { placeholderOffset := offset }).map
        fun p => p.1.statement p.2.args := by
    unfold render
    cases renderCondition schema dialect c { placeholderOffset := offset } <;> rfl
  rw [hrun, renderCondition_spec]
  cases c.skeleton schema dialect with
  | error message => rfl
  | ok t => simp [Except.map, Renderer.push, Renderer.next]

/-- A condition renders exactly when its atoms do. -/
theorem render_eq_ok_iff (schema : Schema) (dialect : DialectName) (offset : ℕ) (c : Condition)
    (stmt : Statement) :
    render schema dialect offset c = .ok stmt ↔
      ∃ t, c.skeleton schema dialect = .ok t ∧
        stmt = (t.number offset).result.statement t.values := by
  rw [render_spec]
  cases c.skeleton schema dialect with
  | error message => simp [Except.map]
  | ok t => simp [Except.map, eq_comm]

/-! ## What a result means -/

/-- The truth value of a leaf: a constant reads as itself, every other fragment as
the database evaluates it. -/
def leafTruth (value : Fragment ℕ → Truth) (f : Fragment ℕ) : Truth :=
  match f.shape with
  | .constant b => .ofBool b
  | _ => value f

/-- The truth value of a statement: empty SQL reads as true, any other text is
parsed with the precedence of {lit}`NOT` over {lit}`AND` over {lit}`OR`. -/
def Statement.truth (value : Fragment ℕ → Truth) (stmt : Statement) : Option Truth :=
  if stmt.sql = [] then some .holds
  else (parse stmt.sql).map fun e => e.eval (leafTruth value)

/-- A result denotes a three-valued truth function of its fragments: it folded to a
constant that the function always takes, or its text reads as one operand with the
function as value. -/
inductive Denotes : RenderResult → ((Fragment ℕ → Truth) → Truth) → Prop where
  | always {truth : (Fragment ℕ → Truth) → Truth} (h : ∀ value, truth value = .holds) :
      Denotes .always truth
  | never {truth : (Fragment ℕ → Truth) → Truth} (h : ∀ value, truth value = .fails) :
      Denotes .never truth
  | text {sql : SqlText} {e : BoolExpr (Fragment ℕ)} {truth : (Fragment ℕ → Truth) → Truth}
      (hreads : Reads sql e) (h : ∀ value, truth value = e.eval (leafTruth value)) :
      Denotes { sql } truth

namespace Denotes

variable {left right : RenderResult} {p q : (Fragment ℕ → Truth) → Truth}

/-- The shortcuts of conjunction are sound. -/
theorem and (hl : Denotes left p) (hr : Denotes right q) :
    Denotes (combineAnd left right) fun value => (p value).conj (q value) := by
  cases hl with
  | never h => exact .never fun value => by simp [h]
  | always h =>
      cases hr with
      | never h' => exact .never fun value => by simp [h']
      | always h' => exact .always fun value => by simp [h, h']
      | text hreads h' => exact .text hreads fun value => by simp [h, h']
  | text hreads h =>
      cases hr with
      | never h' => exact .never fun value => by simp [h']
      | always h' => exact .text hreads fun value => by simp [h, h']
      | text hreads' h' =>
          exact .text (Fills.conj hreads hreads').paren fun value => by simp [h, h']

/-- The shortcuts of disjunction are sound. -/
theorem or (hl : Denotes left p) (hr : Denotes right q) :
    Denotes (combineOr left right) fun value => (p value).disj (q value) := by
  cases hl with
  | always h => exact .always fun value => by simp [h]
  | never h =>
      cases hr with
      | always h' => exact .always fun value => by simp [h']
      | never h' => exact .never fun value => by simp [h, h']
      | text hreads h' => exact .text hreads fun value => by simp [h, h']
  | text hreads h =>
      cases hr with
      | always h' => exact .always fun value => by simp [h']
      | never h' => exact .text hreads fun value => by simp [h, h']
      | text hreads' h' =>
          exact .text (Fills.disj hreads hreads').paren fun value => by simp [h, h']

/-- The shortcuts of negation are sound. -/
theorem not (hl : Denotes left p) : Denotes (renderNot left) fun value => (p value).neg := by
  cases hl with
  | always h => exact .never fun value => by simp [h]
  | never h => exact .always fun value => by simp [h]
  | text hreads h => exact .text hreads.fills.paren.not fun value => by simp [h]

/-- The statement of a result has the truth value the result denotes. -/
theorem statement_truth (h : Denotes left p) (args : List Arg) (value : Fragment ℕ → Truth) :
    (left.statement args).truth value = some (p value) := by
  cases h with
  | always h =>
      rw [h]
      rfl
  | never h =>
      rw [h]
      rfl
  | text hreads h =>
      rw [h]
      simp [RenderResult.statement, Statement.truth, hreads.ne_nil, hreads.fills.parse]

end Denotes

/-- The fold of a skeleton denotes its Kleene value. -/
theorem Skeleton.result_denotes (t : Skeleton (Fragment ℕ)) :
    Denotes t.result fun value => t.kleene (leafTruth value) := by
  induction t with
  | constant b =>
      cases b with
      | true => exact .always fun _ => rfl
      | false => exact .never fun _ => rfl
  | atom f => exact .text (.leaf f) fun _ => rfl
  | not t ih => exact ih.not
  | and l r ihl ihr => exact ihl.and ihr
  | or l r ihl ihr => exact ihl.or ihr

/-! ## The rendered statement has the value of the condition -/

/-- The Kleene value of a condition whose atoms render to the fragments that carry the
truth values; placeholders are numbered from an offset. -/
def Condition.kleene (schema : Schema) (dialect : DialectName) (offset : ℕ)
    (value : Fragment ℕ → Truth) (c : Condition) : Except String Truth :=
  (c.skeleton schema dialect).map fun t => (t.number offset).kleene (leafTruth value)

/-- Rendering preserves the boolean skeleton: whatever truth values the database gives
the atoms' fragments, the statement evaluates to the Kleene value of the condition, and
a condition that does not render has no value. -/
theorem render_truth (schema : Schema) (dialect : DialectName) (offset : ℕ) (c : Condition)
    (value : Fragment ℕ → Truth) :
    (render schema dialect offset c).map (Statement.truth value) =
      (c.kleene schema dialect offset value).map some := by
  rw [render_spec, Condition.kleene]
  cases c.skeleton schema dialect with
  | error message => rfl
  | ok t => exact congrArg Except.ok ((t.number offset).result_denotes.statement_truth t.values value)

end Filter
end MemosNote
