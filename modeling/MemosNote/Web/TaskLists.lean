import Mathlib.Data.List.Nodup
import MemosNote.Library.Keys

/-!
# Lists that mix tasks and other items

Before a memo is shown, a list that mixes tasks and other items is split into lists of one kind.
The split lists keep the attributes of the list, its start number included.

Main results:

- Theorem {lit}`outlines_split_iff`: splitting keeps what is shown as far as mixed lists are not
  numbered.
- Theorem {lit}`splitsWell_iff`: splitting keeps the numbers of all items exactly when no ordered
  list is mixed.
-/

namespace MemosNote
namespace Web

open Library

/-! ## Trees -/

mutual

/-- A node of a markdown tree other than the root and the items of lists. -/
inductive MdNode where
  | list (ordered : Option Bool) (start : Option ℕ) (spread : Option Bool)
      (children : List ListItem)
  | parent (type : String) (children : List MdNode)
  | literal (type value : String)

/-- An item: its box if it has one, whether its blocks are spread, and its blocks. -/
inductive ListItem where
  | mk (checked spread : Option Bool) (children : List MdNode)

end

/-- A document. -/
structure Root where
  children : List MdNode

/-! ## Splitting -/

/-- An item with a box. -/
def isTaskItem : ListItem → Bool
  | .mk checked _ _ => checked.isSome

/-- An item of at most one block. -/
def isSingleBlockItem : ListItem → Bool
  | .mk _ _ children => children.length ≤ 1

/-- An item of several blocks that are spread. -/
def hasLooseBlockItem : ListItem → Bool
  | .mk checked spread children =>
      !isSingleBlockItem (.mk checked spread children) && spread.getD false

/-- An item of one block is not spread. -/
def normalizeSplitListItem : ListItem → ListItem
  | .mk checked spread children =>
      if isSingleBlockItem (.mk checked spread children) then .mk checked (some false) children
      else .mk checked spread children

/-- The items of a list that was split. -/
def normalizeSplitListItems (items : List ListItem) : List ListItem :=
  items.map normalizeSplitListItem

/-- A list, or the lists of its runs of tasks and of other items. -/
def splitMixedList (ordered : Option Bool) (start : Option ℕ) (spread : Option Bool)
    (children : List ListItem) : List MdNode :=
  let hasTaskItem := children.any isTaskItem
  let hasRegularItem := children.any fun item => !isTaskItem item
  if !hasTaskItem || !hasRegularItem then [.list ordered start spread children]
  else (runs isTaskItem children).map fun group =>
    let children := normalizeSplitListItems group.2
    .list ordered start (some (children.any hasLooseBlockItem)) children

mutual

/-- The nodes that stand in the place of a node after its visit. -/
def splitMixedTaskListsInNode : MdNode → List MdNode
  | .list ordered start spread children =>
      let children := splitMixedTaskListsInItems children
      let splitLists := splitMixedList ordered start spread children
      if 1 < splitLists.length then splitLists else [.list ordered start spread children]
  | .parent type children => [.parent type (splitMixedTaskListsInParent children)]
  | .literal type value => [.literal type value]

/-- Visit the children of a parent; the lists that are put in are passed over. -/
def splitMixedTaskListsInParent : List MdNode → List MdNode
  | [] => []
  | child :: rest => splitMixedTaskListsInNode child ++ splitMixedTaskListsInParent rest

/-- The lists within an item are split. -/
def splitMixedTaskListsInItem : ListItem → ListItem
  | .mk checked spread children => .mk checked spread (splitMixedTaskListsInParent children)

/-- The lists within the items are split. -/
def splitMixedTaskListsInItems : List ListItem → List ListItem
  | [] => []
  | item :: rest => splitMixedTaskListsInItem item :: splitMixedTaskListsInItems rest

end

/-- The lists of a document are split. -/
def remarkSplitMixedTaskLists (tree : Root) : Root :=
  ⟨splitMixedTaskListsInParent tree.children⟩

/-! ## What is shown -/

/-- A tree without its lists, whose items carry their numbers. -/
inductive Outline where
  | item (ordinal : Option ℕ) (checked : Option Bool) (children : List Outline)
  | parent (type : String) (children : List Outline)
  | literal (type value : String)

def Outline.ordinal : Outline → Option ℕ
  | item ordinal _ _ => ordinal
  | parent _ _ => none
  | literal _ _ => none

/-- The number of the first item of a list. -/
abbrev Numbering :=
  Option Bool → Option ℕ → Option ℕ

/-- No list is numbered. -/
def unnumbered : Numbering :=
  fun _ _ => none

/-- Ordered lists are numbered from their start. -/
def ordinals : Numbering :=
  fun ordered start => if ordered = some true then some (start.getD 1) else none

mutual

def MdNode.outlines (numbering : Numbering) : MdNode → List Outline
  | .list ordered start _ children => itemOutlines numbering (numbering ordered start) children
  | .parent type children => [.parent type (outlines numbering children)]
  | .literal type value => [.literal type value]

/-- The outlines of the nodes. -/
def outlines (numbering : Numbering) : List MdNode → List Outline
  | [] => []
  | node :: rest => node.outlines numbering ++ outlines numbering rest

/-- The outline of an item, under its number. -/
def ListItem.outline (numbering : Numbering) (ordinal : Option ℕ) : ListItem → Outline
  | .mk checked _ children => .item ordinal checked (outlines numbering children)

/-- The outlines of the items, with the numbers going up. -/
def itemOutlines (numbering : Numbering) (next : Option ℕ) : List ListItem → List Outline
  | [] => []
  | item :: rest =>
      item.outline numbering next :: itemOutlines numbering (next.map (· + 1)) rest

end

/-- All items are tasks, or none is. -/
def Uniform (items : List ListItem) : Prop :=
  ∀ a ∈ items, ∀ b ∈ items, isTaskItem a = isTaskItem b

mutual

/-- All lists of some kind below a node are uniform. -/
def MdNode.UniformLists (kind : Option Bool → Option ℕ → Prop) : MdNode → Prop
  | .list ordered start _ children =>
      (kind ordered start → Uniform children) ∧ UniformItems kind children
  | .parent _ children => UniformNodes kind children
  | .literal _ _ => True

/-- Every list within the nodes is of the kind. -/
def UniformNodes (kind : Option Bool → Option ℕ → Prop) : List MdNode → Prop
  | [] => True
  | node :: rest => node.UniformLists kind ∧ UniformNodes kind rest

/-- Every list within the item is of the kind. -/
def ListItem.UniformLists (kind : Option Bool → Option ℕ → Prop) : ListItem → Prop
  | .mk _ _ children => UniformNodes kind children

/-- Every list within the items is of the kind. -/
def UniformItems (kind : Option Bool → Option ℕ → Prop) : List ListItem → Prop
  | [] => True
  | item :: rest => item.UniformLists kind ∧ UniformItems kind rest

end

/-- No item is lost, doubled or moved, every list is all tasks or all other items, items keep their
numbers, and a second pass changes nothing. -/
structure SplitsWell (tree : Root) : Prop where
  items : outlines unnumbered (remarkSplitMixedTaskLists tree).children =
    outlines unnumbered tree.children
  uniform : UniformNodes (fun _ _ => True) (remarkSplitMixedTaskLists tree).children
  numbers : outlines ordinals (remarkSplitMixedTaskLists tree).children =
    outlines ordinals tree.children
  idempotent : remarkSplitMixedTaskLists (remarkSplitMixedTaskLists tree) =
    remarkSplitMixedTaskLists tree

/-! ## One list -/

private theorem isTaskItem_normalize (item : ListItem) :
    isTaskItem (normalizeSplitListItem item) = isTaskItem item := by
  rcases item with ⟨checked, spread, children⟩
  rw [normalizeSplitListItem]
  split
  · rfl
  · rfl

private theorem isTaskItem_split (item : ListItem) :
    isTaskItem (splitMixedTaskListsInItem item) = isTaskItem item := by
  rcases item with ⟨checked, spread, children⟩
  rfl

/-- The items are split one by one. -/
theorem splitMixedTaskListsInItems_eq (items : List ListItem) :
    splitMixedTaskListsInItems items = items.map splitMixedTaskListsInItem := by
  induction items with
  | nil => rfl
  | cons item rest ih => rw [splitMixedTaskListsInItems, ih, List.map_cons]

/-- Changes of items that keep tasks keep whether a list is uniform. -/
theorem uniform_map {change : ListItem → ListItem}
    (h : ∀ item, isTaskItem (change item) = isTaskItem item) {items : List ListItem} :
    Uniform (items.map change) ↔ Uniform items := by
  simp [Uniform, h]

/-- Splitting within the items leaves a list as uniform as it was. -/
theorem uniform_split {items : List ListItem} :
    Uniform (splitMixedTaskListsInItems items) ↔ Uniform items := by
  rw [splitMixedTaskListsInItems_eq, uniform_map isTaskItem_split]

/-- The test of the code is that of the kinds. -/
theorem uniform_iff {items : List ListItem} :
    Uniform items ↔
      (!items.any isTaskItem || !items.any fun item => !isTaskItem item) = true := by
  rw [Bool.or_eq_true, Bool.not_eq_true', Bool.not_eq_true', List.any_eq_false, List.any_eq_false]
  constructor
  · intro h
    by_cases htask : ∃ a ∈ items, isTaskItem a = true
    · rcases htask with ⟨a, ha, htask⟩
      right
      intro b hb
      simp [← h a ha b hb, htask]
    · left
      intro a ha htrue
      exact htask ⟨a, ha, htrue⟩
  · intro h a ha b hb
    rcases h with h | h
    · rw [Bool.eq_false_iff.mpr (h a ha), Bool.eq_false_iff.mpr (h b hb)]
    · rw [Bool.not_not_eq.mp (h a ha), Bool.not_not_eq.mp (h b hb)]

/-- The list of a run. -/
def runList (ordered : Option Bool) (start : Option ℕ) (group : Bool × List ListItem) : MdNode :=
  .list ordered start (some ((normalizeSplitListItems group.2).any hasLooseBlockItem))
    (normalizeSplitListItems group.2)

variable {ordered : Option Bool} {start : Option ℕ} {spread : Option Bool}
  {children : List ListItem}

/-- A uniform list stays one list. -/
theorem splitNode_uniform (h : Uniform children) :
    splitMixedTaskListsInNode (.list ordered start spread children) =
      [.list ordered start spread (splitMixedTaskListsInItems children)] := by
  have hparts := uniform_iff.mp (uniform_split.mpr h)
  simp only [splitMixedTaskListsInNode, splitMixedList, if_pos hparts, List.length_singleton,
    Nat.lt_irrefl, if_false]

/-- A list of both kinds has several runs. -/
theorem one_lt_length_runs (h : ¬Uniform children) : 1 < (runs isTaskItem children).length := by
  by_contra hle
  exact h fun a ha b hb => key_eq_of_length_runs (by omega) ha hb

/-- A list of both kinds becomes one list a run. -/
theorem splitNode_mixed (h : ¬Uniform children) :
    splitMixedTaskListsInNode (.list ordered start spread children) =
      (runs isTaskItem (splitMixedTaskListsInItems children)).map (runList ordered start) := by
  have hmixed := mt uniform_split.mp h
  have hparts := mt uniform_iff.mpr hmixed
  have hlength := one_lt_length_runs hmixed
  simp only [splitMixedTaskListsInNode, splitMixedList, if_neg hparts, List.length_map,
    if_pos hlength]
  rfl

/-! ## Uniform lists -/

/-- Of nodes the condition holds one by one. -/
theorem uniformNodes_iff {kind : Option Bool → Option ℕ → Prop} {nodes : List MdNode} :
    UniformNodes kind nodes ↔ ∀ node ∈ nodes, node.UniformLists kind := by
  induction nodes with
  | nil => simp [UniformNodes]
  | cons node rest ih => simp [UniformNodes, ih]

/-- Of items the condition holds one by one. -/
theorem uniformItems_iff {kind : Option Bool → Option ℕ → Prop} {items : List ListItem} :
    UniformItems kind items ↔ ∀ item ∈ items, item.UniformLists kind := by
  induction items with
  | nil => simp [UniformItems]
  | cons item rest ih => simp [UniformItems, ih]

private theorem uniformLists_normalize {kind : Option Bool → Option ℕ → Prop} {item : ListItem} :
    (normalizeSplitListItem item).UniformLists kind ↔ item.UniformLists kind := by
  rcases item with ⟨checked, spread, children⟩
  rw [normalizeSplitListItem]
  split
  · rfl
  · rfl

private theorem uniform_runList {kind : Option Bool → Option ℕ → Prop} {items : List ListItem}
    (h : UniformItems kind items) {group : Bool × List ListItem}
    (hgroup : group ∈ runs isTaskItem items) :
    (runList ordered start group).UniformLists kind := by
  rw [runList, MdNode.UniformLists]
  constructor
  · intro _
    rw [normalizeSplitListItems, uniform_map isTaskItem_normalize]
    intro a ha b hb
    rw [(mem_runs hgroup).2 a ha, (mem_runs hgroup).2 b hb]
  · rw [uniformItems_iff]
    intro item hitem
    rcases List.mem_map.mp hitem with ⟨old, hold, rfl⟩
    exact uniformLists_normalize.mpr (uniformItems_iff.mp h old (mem_of_mem_runs hgroup hold))

mutual

private theorem uniform_splitNode (node : MdNode) :
    UniformNodes (fun _ _ => True) (splitMixedTaskListsInNode node) := by
  cases node with
  | list ordered start spread children =>
      have hitems := uniform_splitItems children
      by_cases h : Uniform children
      · rw [splitNode_uniform h]
        exact ⟨⟨fun _ => uniform_split.mpr h, hitems⟩, trivial⟩
      · rw [splitNode_mixed h, uniformNodes_iff]
        intro node hnode
        rcases List.mem_map.mp hnode with ⟨group, hgroup, rfl⟩
        exact uniform_runList hitems hgroup
  | parent type children => exact ⟨uniform_splitParent children, trivial⟩
  | literal type value => exact ⟨trivial, trivial⟩

/-- After the split every list is uniform. -/
theorem uniform_splitParent (nodes : List MdNode) :
    UniformNodes (fun _ _ => True) (splitMixedTaskListsInParent nodes) := by
  cases nodes with
  | nil => exact trivial
  | cons node rest =>
      have hnode := uniform_splitNode node
      have hrest := uniform_splitParent rest
      rw [uniformNodes_iff] at hnode hrest ⊢
      rw [splitMixedTaskListsInParent]
      exact List.forall_mem_append.mpr ⟨hnode, hrest⟩

private theorem uniform_splitItem (item : ListItem) :
    (splitMixedTaskListsInItem item).UniformLists fun _ _ => True := by
  cases item with
  | mk checked spread children => exact uniform_splitParent children

theorem uniform_splitItems (items : List ListItem) :
    UniformItems (fun _ _ => True) (splitMixedTaskListsInItems items) := by
  cases items with
  | nil => exact trivial
  | cons item rest => exact ⟨uniform_splitItem item, uniform_splitItems rest⟩

end

mutual

private theorem splitNode_of_uniform {node : MdNode} (h : node.UniformLists fun _ _ => True) :
    splitMixedTaskListsInNode node = [node] := by
  cases node with
  | list ordered start spread children =>
      rw [splitNode_uniform (h.1 trivial), splitItems_of_uniform h.2]
  | parent type children =>
      rw [splitMixedTaskListsInNode, splitParent_of_uniform h]
  | literal type value => rfl

/-- Nothing changes where every list is uniform. -/
theorem splitParent_of_uniform {nodes : List MdNode} (h : UniformNodes (fun _ _ => True) nodes) :
    splitMixedTaskListsInParent nodes = nodes := by
  cases nodes with
  | nil => rfl
  | cons node rest =>
      rw [splitMixedTaskListsInParent, splitNode_of_uniform h.1, splitParent_of_uniform h.2]
      rfl

private theorem splitItem_of_uniform {item : ListItem} (h : item.UniformLists fun _ _ => True) :
    splitMixedTaskListsInItem item = item := by
  cases item with
  | mk checked spread children => rw [splitMixedTaskListsInItem, splitParent_of_uniform h]

theorem splitItems_of_uniform {items : List ListItem} (h : UniformItems (fun _ _ => True) items) :
    splitMixedTaskListsInItems items = items := by
  cases items with
  | nil => rfl
  | cons item rest =>
      rw [splitMixedTaskListsInItems, splitItem_of_uniform h.1, splitItems_of_uniform h.2]

end

/-! ## Numbers -/

private theorem outlines_append (numbering : Numbering) (a b : List MdNode) :
    outlines numbering (a ++ b) = outlines numbering a ++ outlines numbering b := by
  induction a with
  | nil => rfl
  | cons node rest ih => rw [List.cons_append, outlines, ih, outlines, List.append_assoc]

private theorem outline_normalize (numbering : Numbering) (ordinal : Option ℕ) (item : ListItem) :
    (normalizeSplitListItem item).outline numbering ordinal = item.outline numbering ordinal := by
  rcases item with ⟨checked, spread, children⟩
  rw [normalizeSplitListItem]
  split
  · rfl
  · rfl

private theorem itemOutlines_normalize (numbering : Numbering) (next : Option ℕ)
    (items : List ListItem) :
    itemOutlines numbering next (normalizeSplitListItems items) =
      itemOutlines numbering next items := by
  induction items generalizing next with
  | nil => rfl
  | cons item rest ih =>
      rw [normalizeSplitListItems, List.map_cons, itemOutlines, outline_normalize, itemOutlines]
      exact congrArg _ (ih _)

theorem length_itemOutlines (numbering : Numbering) (next : Option ℕ) (items : List ListItem) :
    (itemOutlines numbering next items).length = items.length := by
  induction items generalizing next with
  | nil => rfl
  | cons item rest ih => rw [itemOutlines, List.length_cons, ih, List.length_cons]

/-- What the lists of some runs show. -/
theorem outlines_runLists (numbering : Numbering) (groups : List (Bool × List ListItem)) :
    outlines numbering (groups.map (runList ordered start)) =
      groups.flatMap fun group => itemOutlines numbering (numbering ordered start) group.2 := by
  induction groups with
  | nil => rfl
  | cons group rest ih =>
      rw [List.map_cons, outlines, ih, List.flatMap_cons, runList, MdNode.outlines,
        itemOutlines_normalize]

private theorem length_outlines_splitNode (numbering : Numbering) (node : MdNode) :
    (outlines numbering (splitMixedTaskListsInNode node)).length =
      (node.outlines numbering).length := by
  cases node with
  | list ordered start spread children =>
      rw [MdNode.outlines, length_itemOutlines]
      by_cases h : Uniform children
      · rw [splitNode_uniform h, outlines, outlines, List.append_nil, MdNode.outlines,
          length_itemOutlines, splitMixedTaskListsInItems_eq, List.length_map]
      · rw [splitNode_mixed h, outlines_runLists, List.length_flatMap]
        simp only [length_itemOutlines]
        rw [← List.length_flatMap, flatten_runs, splitMixedTaskListsInItems_eq, List.length_map]
  | parent type children => rfl
  | literal type value => rfl

private theorem itemOutlines_none (numbering : Numbering) (items : List ListItem) :
    itemOutlines numbering none items = items.map (·.outline numbering none) := by
  induction items with
  | nil => rfl
  | cons item rest ih => rw [itemOutlines, Option.map_none, ih, List.map_cons]

/-- The numbers of a list go up from its first one. -/
theorem ordinals_itemOutlines (numbering : Numbering) (first : ℕ) (items : List ListItem) :
    (itemOutlines numbering (some first) items).map Outline.ordinal =
      (List.range' first items.length).map some := by
  induction items generalizing first with
  | nil => rfl
  | cons item rest ih =>
      rcases item with ⟨checked, spread, children⟩
      rw [itemOutlines, List.map_cons, List.length_cons, List.range'_succ, List.map_cons,
        Option.map_some, ih]
      rfl

/-- Two lists that start with one number do not show what one list does. -/
theorem outlines_runLists_ne (numbering : Numbering) {first : ℕ}
    (hfirst : numbering ordered start = some first) (h : ¬Uniform children)
    (items : List ListItem) :
    outlines numbering ((runs isTaskItem children).map (runList ordered start)) ≠
      itemOutlines numbering (some first) items := by
  intro hsame
  have hnumbers := congrArg (List.map Outline.ordinal) hsame
  rw [outlines_runLists, hfirst, ordinals_itemOutlines, List.map_flatMap] at hnumbers
  have hnodup : ((List.range' first items.length).map some).Nodup :=
    (List.nodup_range' _ (by omega)).map fun _ _ hsame => Option.some_inj.mp hsame
  rw [← hnumbers, List.nodup_flatMap] at hnodup
  have hlength := one_lt_length_runs h
  have hstarts : ∀ group ∈ runs isTaskItem children,
      some first ∈ (itemOutlines numbering (some first) group.2).map Outline.ordinal := by
    intro group hgroup
    rw [ordinals_itemOutlines]
    have hne := List.length_pos_iff.mpr (mem_runs hgroup).1
    exact List.mem_map_of_mem (List.mem_range'_1.mpr ⟨Nat.le_refl _, by omega⟩)
  cases hruns : runs isTaskItem children with
  | nil => simp [hruns] at hlength
  | cons group rest =>
      cases rest with
      | nil => simp [hruns] at hlength
      | cons next rest =>
          rw [hruns] at hnodup hstarts
          have hapart := (List.pairwise_cons.mp hnodup.2).1 next (by simp)
          exact hapart (hstarts group (by simp)) (hstarts next (by simp))

/-- The lists whose items have numbers. -/
def Numbered (numbering : Numbering) (ordered : Option Bool) (start : Option ℕ) : Prop :=
  numbering ordered start ≠ none

private theorem outlines_mixed (numbering : Numbering) (h : ¬Uniform children)
    (hitems : itemOutlines numbering (numbering ordered start)
        (splitMixedTaskListsInItems children) =
          itemOutlines numbering (numbering ordered start) children ↔
      UniformItems (Numbered numbering) children) :
    outlines numbering (splitMixedTaskListsInNode (.list ordered start spread children)) =
        (MdNode.list ordered start spread children).outlines numbering ↔
      (MdNode.list ordered start spread children).UniformLists (Numbered numbering) := by
  rw [splitNode_mixed h, MdNode.outlines, MdNode.UniformLists]
  cases hfirst : numbering ordered start with
  | none =>
      rw [hfirst] at hitems
      rw [outlines_runLists, hfirst, ← hitems]
      simp only [itemOutlines_none]
      rw [← List.map_flatMap, flatten_runs]
      exact (and_iff_right fun hnumbered => absurd hfirst hnumbered).symm
  | some first =>
      have hne := outlines_runLists_ne numbering hfirst (mt uniform_split.mp h) children
      constructor
      · intro hsame
        exact absurd hsame hne
      · rintro ⟨huniform, -⟩
        exact absurd (huniform (by simp [Numbered, hfirst])) h

mutual

private theorem outlines_splitNode_iff (numbering : Numbering) (node : MdNode) :
    outlines numbering (splitMixedTaskListsInNode node) = node.outlines numbering ↔
      node.UniformLists (Numbered numbering) := by
  cases node with
  | list ordered start spread children =>
      have hitems := itemOutlines_splitItems_iff numbering (numbering ordered start) children
      by_cases h : Uniform children
      · rw [splitNode_uniform h, outlines, outlines, List.append_nil, MdNode.outlines,
          MdNode.outlines, hitems, MdNode.UniformLists]
        exact (and_iff_right fun _ => h).symm
      · exact outlines_mixed numbering h hitems
  | parent type children =>
      have hchildren := outlines_splitParent_iff numbering children
      simp [splitMixedTaskListsInNode, outlines, MdNode.outlines, MdNode.UniformLists, hchildren]
  | literal type value =>
      simp [splitMixedTaskListsInNode, outlines, MdNode.outlines, MdNode.UniformLists]

/-- The split keeps the outlines exactly where no numbered list is mixed. -/
theorem outlines_splitParent_iff (numbering : Numbering) (nodes : List MdNode) :
    outlines numbering (splitMixedTaskListsInParent nodes) = outlines numbering nodes ↔
      UniformNodes (Numbered numbering) nodes := by
  cases nodes with
  | nil => simp [splitMixedTaskListsInParent, UniformNodes]
  | cons node rest =>
      have hnode := outlines_splitNode_iff numbering node
      have hrest := outlines_splitParent_iff numbering rest
      rw [splitMixedTaskListsInParent, outlines_append, outlines, UniformNodes, ← hnode, ← hrest]
      constructor
      · intro hsame
        exact List.append_inj hsame (length_outlines_splitNode numbering node)
      · rintro ⟨hnode, hrest⟩
        rw [hnode, hrest]

private theorem outline_splitItem_iff (numbering : Numbering) (ordinal : Option ℕ) (item : ListItem)
    :
    (splitMixedTaskListsInItem item).outline numbering ordinal = item.outline numbering ordinal ↔
      item.UniformLists (Numbered numbering) := by
  cases item with
  | mk checked spread children =>
      have hchildren := outlines_splitParent_iff numbering children
      simp [splitMixedTaskListsInItem, ListItem.outline, ListItem.UniformLists, hchildren]

/-- The split keeps the outlines of items exactly where no numbered list is mixed. -/
theorem itemOutlines_splitItems_iff (numbering : Numbering) (next : Option ℕ)
    (items : List ListItem) :
    itemOutlines numbering next (splitMixedTaskListsInItems items) =
        itemOutlines numbering next items ↔
      UniformItems (Numbered numbering) items := by
  cases items with
  | nil => simp [splitMixedTaskListsInItems, UniformItems]
  | cons item rest =>
      have hitem := outline_splitItem_iff numbering next item
      have hrest := itemOutlines_splitItems_iff numbering (next.map (· + 1)) rest
      rw [splitMixedTaskListsInItems, itemOutlines, itemOutlines, UniformItems, List.cons_eq_cons,
        hitem, hrest]

end

mutual

private theorem uniformLists_of_none {kind : Option Bool → Option ℕ → Prop}
    (h : ∀ ordered start, ¬kind ordered start) (node : MdNode) : node.UniformLists kind := by
  cases node with
  | list ordered start spread children =>
      exact ⟨fun hkind => absurd hkind (h ordered start), uniformItems_of_none h children⟩
  | parent type children => exact uniformNodes_of_none h children
  | literal type value => exact trivial

theorem uniformNodes_of_none {kind : Option Bool → Option ℕ → Prop}
    (h : ∀ ordered start, ¬kind ordered start) (nodes : List MdNode) :
    UniformNodes kind nodes := by
  cases nodes with
  | nil => exact trivial
  | cons node rest => exact ⟨uniformLists_of_none h node, uniformNodes_of_none h rest⟩

private theorem uniformItem_of_none {kind : Option Bool → Option ℕ → Prop}
    (h : ∀ ordered start, ¬kind ordered start) (item : ListItem) : item.UniformLists kind := by
  cases item with
  | mk checked spread children => exact uniformNodes_of_none h children

theorem uniformItems_of_none {kind : Option Bool → Option ℕ → Prop}
    (h : ∀ ordered start, ¬kind ordered start) (items : List ListItem) :
    UniformItems kind items := by
  cases items with
  | nil => exact trivial
  | cons item rest => exact ⟨uniformItem_of_none h item, uniformItems_of_none h rest⟩

end

/-- Splitting keeps what is shown as far as mixed lists are not numbered. -/
theorem outlines_split_iff (numbering : Numbering) (tree : Root) :
    outlines numbering (remarkSplitMixedTaskLists tree).children =
        outlines numbering tree.children ↔
      UniformNodes (Numbered numbering) tree.children :=
  outlines_splitParent_iff numbering tree.children

private theorem outlines_unnumbered_split (tree : Root) :
    outlines unnumbered (remarkSplitMixedTaskLists tree).children =
      outlines unnumbered tree.children :=
  (outlines_split_iff unnumbered tree).mpr
    (uniformNodes_of_none (fun _ _ hnumbered => hnumbered rfl) tree.children)

private theorem numbered_ordinals : Numbered ordinals = fun ordered _ => ordered = some true := by
  funext ordered start
  simp [Numbered, ordinals]

/-- No ordered list of a tree mixes tasks and other items. -/
def OrderedListsUniform (tree : Root) : Prop :=
  UniformNodes (fun ordered _ => ordered = some true) tree.children

/-- Splitting keeps the numbers of all items exactly when no ordered list is mixed. -/
theorem splitsWell_iff (tree : Root) : SplitsWell tree ↔ OrderedListsUniform tree := by
  rw [OrderedListsUniform, ← numbered_ordinals, ← outlines_split_iff]
  constructor
  · intro h
    exact h.numbers
  · intro hnumbers
    have huniform := uniform_splitParent tree.children
    refine ⟨outlines_unnumbered_split tree, huniform, hnumbers, ?_⟩
    rw [remarkSplitMixedTaskLists, remarkSplitMixedTaskLists, splitParent_of_uniform huniform]

/-- An ordered list of a task and a paragraph. -/
def mixedOrderedList : Root :=
  ⟨[.list (some true) (some 1) (some false)
    [.mk (some false) (some false) [.literal "text" "a"],
      .mk none (some false) [.literal "text" "b"]]]⟩

theorem mixedOrderedList_not_splitsWell : ¬∀ tree, SplitsWell tree := by
  intro h
  have hnumbers := congrArg (List.map Outline.ordinal) (h mixedOrderedList).numbers
  revert hnumbers
  decide

end Web
end MemosNote
