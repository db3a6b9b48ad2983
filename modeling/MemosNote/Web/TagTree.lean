import Mathlib.Data.List.Lex
import Mathlib.Data.List.Nodup
import Mathlib.Data.List.Sort
import Mathlib.Order.Basic
import MemosNote.Library.Pieces

/-!
# The tree of tags

The client shows tags as a tree whose nodes are the beginnings of tags up to a slash.  Tags are
added in the order of their texts with their amounts, and a node gets its amount when it is added.

Main results:

- Theorem {lit}`amountAt_addTags`: a path has the amount that the first tag below it gave it.
- Theorem {lit}`tagTree_correct`: the nodes of the tree, their children and their amounts.
-/

namespace MemosNote
namespace Web

/-! ## Texts -/

/-- A text of a script, as its code units. -/
abbrev Units :=
  List ℕ

/-- The separator of the levels. -/
def slash : ℕ :=
  '/'.toNat

/-- The separator of the sort text. -/
def comma : ℕ :=
  ','.toNat

/-- The text of a number. -/
def numberText (n : ℕ) : Units :=
  (Nat.toDigits 10 n).map Char.toNat

/-- The segments of a tag. -/
def segments (tag : Units) : List Units :=
  tag.splitOn slash

/-- A beginning of a tag that ends before a slash or is the whole tag. -/
def SlashPrefix (t tag : Units) : Prop :=
  t = tag ∨ (t ++ [slash]) <+: tag

/-! ## Building the tree -/

/-- A node of the tree. -/
inductive Tag where
  | mk (key text : Units) (amount : ℕ) (subTags : List Tag)

namespace Tag

/-- The name of the node within its parent. -/
def key : Tag → Units
  | mk key _ _ _ => key

/-- The whole tag. -/
def text : Tag → Units
  | mk _ text _ _ => text

/-- The number of memos with the tag. -/
def amount : Tag → ℕ
  | mk _ _ amount _ => amount

/-- The tags below. -/
def subTags : Tag → List Tag
  | mk _ _ _ subTags => subTags

/-- The tag with other tags below it. -/
def withSubTags (tag : Tag) (subTags : List Tag) : Tag :=
  mk tag.key tag.text tag.amount subTags

@[simp]
theorem key_withSubTags (tag : Tag) (subTags : List Tag) :
    (tag.withSubTags subTags).key = tag.key :=
  rfl

@[simp]
theorem text_withSubTags (tag : Tag) (subTags : List Tag) :
    (tag.withSubTags subTags).text = tag.text :=
  rfl

@[simp]
theorem amount_withSubTags (tag : Tag) (subTags : List Tag) :
    (tag.withSubTags subTags).amount = tag.amount :=
  rfl

@[simp]
theorem subTags_withSubTags (tag : Tag) (subTags : List Tag) :
    (tag.withSubTags subTags).subTags = subTags :=
  rfl

end Tag

/-- The text of a segment behind the text of its parent. -/
def extend (parent : Option Units) (key : Units) : Units :=
  match parent with
  | none => key
  | some tagText => tagText ++ slash :: key

/-- Change the first tag with a text, or add a tag. -/
def descend (tagText : Units) (change : Tag → Tag) (obj : Tag) : List Tag → List Tag
  | [] => [obj]
  | t :: rest =>
      if t.text = tagText then change t :: rest else t :: descend tagText change obj rest

/-- Add the segments of a tag; new tags get their amounts. -/
def addSegments (amountOf : Units → ℕ) : Option Units → List Units → List Tag → List Tag
  | _, [], subTags => subTags
  | parent, key :: keys, subTags =>
      let tagText := extend parent key
      descend tagText
        (fun t => t.withSubTags (addSegments amountOf (some tagText) keys t.subTags))
        (.mk key tagText (amountOf tagText) (addSegments amountOf (some tagText) keys [])) subTags

/-- The amount of a new node while a tag with some amount is added. -/
def nodeAmount (sortedTagAmounts : List (Units × ℕ)) (current : ℕ) (tagText : Units) : ℕ :=
  if sortedTagAmounts.any fun entry => entry.1 = tagText && 1 < entry.2 then current else 0

/-- What the default order of pairs compares. -/
def sortText (entry : Units × ℕ) : Units :=
  entry.1 ++ comma :: numberText entry.2

/-- The tags in the order of their sort text. -/
def sortTagAmounts (tagAmounts : List (Units × ℕ)) : List (Units × ℕ) :=
  tagAmounts.insertionSort fun a b => sortText a ≤ sortText b

/-- The tree of some tags that are added in order. -/
def addTags (sortedTagAmounts : List (Units × ℕ)) (done : List (Units × ℕ)) : List Tag :=
  done.foldl (fun subTags entry =>
    addSegments (nodeAmount sortedTagAmounts entry.2) none (segments entry.1) subTags) []

/-- The tree of the tags. -/
def buildTags (tagAmounts : List (Units × ℕ)) : List Tag :=
  addTags (sortTagAmounts tagAmounts) (sortTagAmounts tagAmounts)

/-! ## Nodes -/

mutual

/-- A tag and all tags below it. -/
def Tag.nodes : Tag → List Tag
  | .mk key text amount subTags => .mk key text amount subTags :: nodesOf subTags

/-- All tags of a tree. -/
def nodesOf : List Tag → List Tag
  | [] => []
  | t :: rest => t.nodes ++ nodesOf rest

end

/-- The tag at the end of a path of keys. -/
def nodeAt : List Units → List Tag → Option Tag
  | [], _ => none
  | [key], subTags => subTags.find? fun t => t.key = key
  | key :: next :: keys, subTags =>
      (subTags.find? fun t => t.key = key).bind fun t => nodeAt (next :: keys) t.subTags

/-- The tags of a level have different keys, their texts extend the text of their parent, and so on
below them. -/
inductive Grown : Option Units → List Tag → Prop where
  | mk {parent : Option Units} {subTags : List Tag} (keys : (subTags.map Tag.key).Nodup)
      (flat : ∀ t ∈ subTags, slash ∉ t.key) (texts : ∀ t ∈ subTags, t.text = extend parent t.key)
      (below : ∀ t ∈ subTags, Grown (some t.text) t.subTags) : Grown parent subTags

/-! ## Segments -/

theorem segments_ne_nil (t : Units) : segments t ≠ [] :=
  List.splitOn_ne_nil slash t

/-- The segments, with slashes between them, are the tag. -/
theorem intercalate_segments (t : Units) : [slash].intercalate (segments t) = t :=
  List.intercalate_splitOn slash

/-- No segment has a slash. -/
theorem segments_flat {t key : Units} (h : key ∈ segments t) : slash ∉ key := by
  apply Library.Pieces.notMem_of_length_splitOn_intercalate (segments_ne_nil t) _ key h
  rw [intercalate_segments]
  rfl

/-- A slash ends a segment. -/
theorem segments_append_slash (t r : Units) :
    segments (t ++ slash :: r) = segments t ++ segments r :=
  List.splitOn_append_cons_self t r

/-- A tag is given by its segments. -/
theorem segments_inj {t u : Units} (h : segments t = segments u) : t = u := by
  rw [← intercalate_segments t, h, intercalate_segments]

/-- A text without a slash is one segment. -/
theorem segments_of_flat {t : Units} (h : slash ∉ t) : segments t = [t] :=
  List.splitOn_eq_singleton h

/-- The beginnings of a tag are those of its segments. -/
theorem slashPrefix_iff {t tag : Units} :
    SlashPrefix t tag ↔ segments t <+: segments tag := by
  constructor
  · intro h
    rcases h with rfl | ⟨r, rfl⟩
    · exact List.prefix_rfl
    · rw [List.append_assoc, List.singleton_append, segments_append_slash]
      exact List.prefix_append _ _
  · intro h
    rcases h with ⟨rest, hrest⟩
    cases rest with
    | nil =>
        left
        exact segments_inj (by rw [← hrest, List.append_nil])
    | cons key keys =>
        right
        have hflat : ∀ l ∈ key :: keys, slash ∉ l := by
          intro l hl
          exact segments_flat (hrest ▸ List.mem_append_right _ hl)
        have hsplit := List.splitOn_intercalate slash hflat (by simp)
        refine ⟨[slash].intercalate (key :: keys), ?_⟩
        rw [List.append_assoc, List.singleton_append]
        apply segments_inj
        rw [segments_append_slash, ← hrest]
        exact congrArg _ hsplit

/-- A tag is sorted before the tags that go on behind a slash. -/
theorem sortText_lt {t r : Units} {m n : ℕ} : sortText (t, m) < sortText (t ++ slash :: r, n) := by
  rw [sortText, sortText, List.append_assoc]
  apply List.append_left_lt
  exact List.Lex.rel (by decide)

/-! ## The text of a path -/

/-- The text of the last of some keys behind the text of a parent. -/
def pathText : Option Units → List Units → Units
  | parent, [] => parent.getD []
  | parent, key :: keys => pathText (some (extend parent key)) keys

theorem pathText_some (t : Units) (q : List Units) :
    pathText (some t) q = t ++ q.flatMap (slash :: ·) := by
  induction q generalizing t with
  | nil => simp [pathText]
  | cons key keys ih => simp [pathText, extend, ih]

/-- The segments of the tag at a path are the path. -/
theorem segments_pathText {q : List Units} (hq : q ≠ []) (hflat : ∀ key ∈ q, slash ∉ key) :
    segments (pathText none q) = q := by
  have hjoin : pathText none q = [slash].intercalate q := by
    cases q with
    | nil => exact absurd rfl hq
    | cons key keys =>
        rw [pathText, extend, pathText_some]
        clear hq hflat
        induction keys generalizing key with
        | nil => simp
        | cons next keys ih =>
            rw [List.intercalate_cons_cons, ← ih]
            simp
  rw [hjoin]
  exact List.splitOn_intercalate slash hflat hq

/-- Different paths below a parent have different texts. -/
theorem pathText_inj {parent : Option Units} {q q' : List Units} (hq : q ≠ []) (hq' : q' ≠ [])
    (hflat : ∀ key ∈ q, slash ∉ key) (hflat' : ∀ key ∈ q', slash ∉ key)
    (h : pathText parent q = pathText parent q') : q = q' := by
  have hnone : pathText none q = pathText none q' := by
    cases parent with
    | none => exact h
    | some t =>
        cases q with
        | nil => exact absurd rfl hq
        | cons key keys =>
            cases q' with
            | nil => exact absurd rfl hq'
            | cons key' keys' =>
                simpa [pathText, extend, pathText_some] using h
  rw [← segments_pathText hq hflat, hnone, segments_pathText hq' hflat']

/-! ## One level -/

variable {tagText key : Units} {change : Tag → Tag} {obj : Tag} {subTags : List Tag}

/-- What is on a level after a step down. -/
theorem mem_descend {t : Tag} (h : t ∈ descend tagText change obj subTags) :
    t ∈ subTags ∨ t = obj ∨ ∃ u ∈ subTags, u.text = tagText ∧ t = change u := by
  induction subTags with
  | nil => exact Or.inr (Or.inl (List.mem_singleton.mp h))
  | cons u rest ih =>
      rw [descend] at h
      by_cases hu : u.text = tagText
      · rw [if_pos hu] at h
        rcases List.mem_cons.mp h with rfl | h
        · exact Or.inr (Or.inr ⟨u, List.mem_cons_self, hu, rfl⟩)
        · exact Or.inl (List.mem_cons_of_mem _ h)
      · rw [if_neg hu] at h
        rcases List.mem_cons.mp h with rfl | h
        · exact Or.inl List.mem_cons_self
        · rcases ih h with h | h | ⟨v, hv, htext, rfl⟩
          · exact Or.inl (List.mem_cons_of_mem _ h)
          · exact Or.inr (Or.inl h)
          · exact Or.inr (Or.inr ⟨v, List.mem_cons_of_mem _ hv, htext, rfl⟩)

private theorem find_descend (htext : ∀ t ∈ subTags, t.text = tagText ↔ t.key = key)
    (hchange : ∀ t, (change t).key = t.key) (hobj : obj.key = key) (k : Units) :
    (descend tagText change obj subTags).find? (fun t => t.key = k) =
      if k = key then some (((subTags.find? fun t => t.key = key).map change).getD obj)
      else subTags.find? fun t => t.key = k := by
  induction subTags with
  | nil =>
      rw [descend, List.find?_cons]
      by_cases hk : k = key
      · simp [hk, hobj]
      · simp [hk, hobj, Ne.symm hk]
  | cons u rest ih =>
      have ih := ih fun t ht => htext t (List.mem_cons_of_mem _ ht)
      have hu := htext u List.mem_cons_self
      rw [descend]
      by_cases hkey : u.key = key
      · rw [if_pos (hu.mpr hkey)]
        by_cases hk : k = key
        · simp [hk, hchange, hkey]
        · simp [hk, hchange, hkey, Ne.symm hk]
      · rw [if_neg (mt hu.mp hkey), List.find?_cons, ih]
        by_cases hk : k = key
        · simp [hk, hkey]
        · simp [hk, List.find?_cons]

private theorem nodup_descend (htext : ∀ t ∈ subTags, t.text = tagText ↔ t.key = key)
    (hchange : ∀ t, (change t).key = t.key) (hobj : obj.key = key)
    (h : (subTags.map Tag.key).Nodup) :
    ((descend tagText change obj subTags).map Tag.key).Nodup := by
  induction subTags with
  | nil => exact List.nodup_singleton _
  | cons u rest ih =>
      have ih := ih fun t ht => htext t (List.mem_cons_of_mem _ ht)
      have hu := htext u List.mem_cons_self
      rw [List.map_cons, List.nodup_cons] at h
      rw [descend]
      by_cases hkey : u.key = key
      · rw [if_pos (hu.mpr hkey), List.map_cons, hchange, List.nodup_cons]
        exact h
      · rw [if_neg (mt hu.mp hkey), List.map_cons, List.nodup_cons]
        refine ⟨fun hmem => ?_, ih h.2⟩
        rcases List.mem_map.mp hmem with ⟨t, ht, hsame⟩
        rcases mem_descend ht with ht | rfl | ⟨v, hv, -, rfl⟩
        · exact h.1 (hsame ▸ List.mem_map_of_mem ht)
        · exact hkey (hsame ▸ hobj)
        · exact h.1 (hsame ▸ hchange v ▸ List.mem_map_of_mem hv)

/-! ## Adding a tag -/

private theorem extend_inj {parent : Option Units} {k k' : Units} :
    extend parent k = extend parent k' ↔ k = k' := by
  cases parent with
  | none => exact Iff.rfl
  | some t => simp [extend]

/-- On a level, tags and names correspond. -/
theorem Grown.text_iff {parent : Option Units} (h : Grown parent subTags) :
    ∀ t ∈ subTags, t.text = extend parent key ↔ t.key = key := by
  intro t ht
  rcases h with ⟨-, -, htexts, -⟩
  rw [htexts t ht, extend_inj]

theorem grown_nil (parent : Option Units) : Grown parent [] :=
  ⟨List.nodup_nil, by simp, by simp, by simp⟩

private theorem grown_addSegments {amountOf : Units → ℕ} {keys : List Units}
    (hflat : ∀ key ∈ keys, slash ∉ key) {parent : Option Units} {subTags : List Tag}
    (h : Grown parent subTags) : Grown parent (addSegments amountOf parent keys subTags) := by
  induction keys generalizing parent subTags with
  | nil => exact h
  | cons key keys ih =>
      have ih := @ih fun k hk => hflat k (List.mem_cons_of_mem _ hk)
      have htext := @Grown.text_iff key _ _ h
      rcases h with ⟨hkeys, hold, htexts, hbelow⟩
      rw [addSegments]
      constructor
      · exact nodup_descend htext (fun t => rfl) rfl hkeys
      · intro t ht
        rcases mem_descend ht with ht | rfl | ⟨u, hu, -, rfl⟩
        · exact hold t ht
        · exact hflat key List.mem_cons_self
        · exact hold u hu
      · intro t ht
        rcases mem_descend ht with ht | rfl | ⟨u, hu, -, rfl⟩
        · exact htexts t ht
        · rfl
        · exact htexts u hu
      · intro t ht
        rcases mem_descend ht with ht | rfl | ⟨u, hu, hsame, rfl⟩
        · exact hbelow t ht
        · exact ih (grown_nil _)
        · rw [Tag.text_withSubTags, Tag.subTags_withSubTags, ← hsame]
          exact ih (hbelow u hu)

private theorem nodeAt_nil (q : List Units) : nodeAt q [] = none := by
  cases q with
  | nil => rfl
  | cons key keys =>
      cases keys with
      | nil => rfl
      | cons next keys => rfl

/-- A node is found by the first name, and below by the rest. -/
theorem nodeAt_cons (key : Units) (keys : List Units) (subTags : List Tag) :
    nodeAt (key :: keys) subTags =
      (subTags.find? fun t => t.key = key).bind fun t =>
        if keys = [] then some t else nodeAt keys t.subTags := by
  cases keys with
  | nil => simp [nodeAt]
  | cons next keys => simp [nodeAt]

/-- The amount of the tag at the end of a path. -/
def amountAt (q : List Units) (subTags : List Tag) : Option ℕ :=
  (nodeAt q subTags).map Tag.amount

theorem amountAt_nil (q : List Units) : amountAt q [] = none := by
  rw [amountAt, nodeAt_nil, Option.map_none]

/-- An amount is found by the first name, and below by the rest. -/
theorem amountAt_cons (key : Units) (keys : List Units) (subTags : List Tag) :
    amountAt (key :: keys) subTags =
      (subTags.find? fun t => t.key = key).bind fun t =>
        if keys = [] then some t.amount else amountAt keys t.subTags := by
  rw [amountAt, nodeAt_cons, Option.map_bind]
  congr 1
  funext t
  rw [Function.comp_apply]
  split
  · rfl
  · rfl

/-- Adding a tag keeps the amounts of the tags that were there and gives the new ones theirs. -/
theorem amountAt_addSegments {amountOf : Units → ℕ} {keys : List Units} {parent : Option Units}
    {subTags : List Tag} (h : Grown parent subTags) {q : List Units} (hq : q ≠ []) :
    amountAt q (addSegments amountOf parent keys subTags) =
      (amountAt q subTags <|>
        if q <+: keys then some (amountOf (pathText parent q)) else none) := by
  induction keys generalizing parent subTags q with
  | nil => simp [addSegments, hq]
  | cons key keys ih =>
      cases q with
      | nil => exact absurd rfl hq
      | cons k q =>
          rw [addSegments, amountAt_cons, amountAt_cons,
            find_descend h.text_iff (fun t => Tag.key_withSubTags t _) (Tag.key.eq_1 key _ _ _)]
          by_cases hk : k = key
          · subst hk
            simp only [if_true, List.cons_prefix_cons, true_and, Option.bind_some, pathText]
            cases hfind : subTags.find? fun t => t.key = k with
            | none =>
                by_cases hend : q = []
                · subst hend
                  simp [pathText, Tag.amount]
                · simp [hend, ih (grown_nil _) hend, amountAt_nil, Tag.subTags]
            | some t =>
                rcases h with ⟨-, -, htexts, hbelow⟩
                have ht := List.mem_of_find?_eq_some hfind
                have hkey : t.key = k := by simpa using List.find?_some hfind
                by_cases hend : q = []
                · simp [hend]
                · have htext : t.text = extend parent k := by rw [htexts t ht, hkey]
                  simp [hend, ih (htext ▸ hbelow t ht) hend]
          · simp [hk]

/-- One tag more is added to the tree of the others. -/
theorem addTags_append (sortedTagAmounts done : List (Units × ℕ)) (entry : Units × ℕ) :
    addTags sortedTagAmounts (done ++ [entry]) =
      addSegments (nodeAmount sortedTagAmounts entry.2) none (segments entry.1)
        (addTags sortedTagAmounts done) := by
  rw [addTags, List.foldl_append]
  rfl

/-- Every tree that is built is well grown. -/
theorem grown_addTags (sortedTagAmounts done : List (Units × ℕ)) :
    Grown none (addTags sortedTagAmounts done) := by
  induction done using List.reverseRecOn with
  | nil => exact grown_nil none
  | append_singleton done entry ih =>
      rw [addTags_append]
      exact grown_addSegments (fun key hkey => segments_flat hkey) ih

/-- A path has the amount that the first tag below it gave it. -/
theorem amountAt_addTags (sortedTagAmounts done : List (Units × ℕ)) {q : List Units} (hq : q ≠ []) :
    amountAt q (addTags sortedTagAmounts done) =
      (done.find? fun entry => q.isPrefixOf (segments entry.1)).map fun entry =>
        nodeAmount sortedTagAmounts entry.2 (pathText none q) := by
  induction done using List.reverseRecOn with
  | nil => exact amountAt_nil q
  | append_singleton done entry ih =>
      have hgrown := grown_addTags sortedTagAmounts done
      rw [addTags_append, amountAt_addSegments hgrown hq, ih, List.find?_append]
      by_cases hq : q <+: segments entry.1
      · have hq' := List.isPrefixOf_iff_prefix.mpr hq
        cases hfind : done.find? fun entry => q.isPrefixOf (segments entry.1) with
        | none => simp [hq, hq']
        | some first => simp
      · have hq' : q.isPrefixOf (segments entry.1) = false := by
          rw [← Bool.not_eq_true, List.isPrefixOf_iff_prefix]
          exact hq
        cases hfind : done.find? fun entry => q.isPrefixOf (segments entry.1) with
        | none => simp [hq, hq']
        | some first => simp

/-! ## The nodes of a tree -/

theorem nodes_eq (t : Tag) : t.nodes = t :: nodesOf t.subTags := by
  cases t
  rw [Tag.nodes, Tag.subTags]

/-- The nodes are those of the level and those below them. -/
theorem mem_nodesOf {node : Tag} {subTags : List Tag} :
    node ∈ nodesOf subTags ↔ ∃ t ∈ subTags, node = t ∨ node ∈ nodesOf t.subTags := by
  induction subTags with
  | nil => simp [nodesOf]
  | cons t rest ih => simp [nodesOf, nodes_eq, ih, or_assoc]

/-- On a level a node is found by its name. -/
theorem find_eq_some_of_mem {subTags : List Tag} (keys : (subTags.map Tag.key).Nodup) {t : Tag}
    (ht : t ∈ subTags) : (subTags.find? fun u => u.key = t.key) = some t := by
  rw [List.find?_eq_some_iff_append]
  rcases List.append_of_mem ht with ⟨before, after, rfl⟩
  refine ⟨by simp, before, after, rfl, fun u hu => ?_⟩
  rw [List.map_append, List.map_cons, List.nodup_middle, List.nodup_cons] at keys
  have hne : u.key ≠ t.key := by
    intro hsame
    exact keys.1 (List.mem_append_left _ (hsame ▸ List.mem_map_of_mem hu))
  simp [hne]

/-- The nodes of a tree are its tags at the ends of paths. -/
theorem Grown.mem_nodesOf_iff {parent : Option Units} {subTags : List Tag}
    (h : Grown parent subTags) {node : Tag} :
    node ∈ nodesOf subTags ↔ ∃ q, nodeAt q subTags = some node := by
  induction h with
  | mk keys flat texts below ih =>
      rename_i parent subTags
      rw [mem_nodesOf]
      constructor
      · rintro ⟨t, ht, hnode⟩
        have hfind := find_eq_some_of_mem keys ht
        rcases hnode with rfl | hnode
        · exact ⟨[node.key], by simp [nodeAt_cons, hfind]⟩
        · rcases (ih t ht).mp hnode with ⟨q, hq⟩
          have hne : q ≠ [] := by
            rintro rfl
            cases hq
          exact ⟨t.key :: q, by simp [nodeAt_cons, hfind, hne, hq]⟩
      · rintro ⟨q, hq⟩
        cases q with
        | nil => cases hq
        | cons key q =>
            rw [nodeAt_cons] at hq
            rcases Option.bind_eq_some_iff.mp hq with ⟨t, hfind, hnode⟩
            have ht := List.mem_of_find?_eq_some hfind
            refine ⟨t, ht, ?_⟩
            by_cases hend : q = []
            · rw [if_pos hend] at hnode
              exact Or.inl (Option.some_inj.mp hnode).symm
            · rw [if_neg hend] at hnode
              exact Or.inr ((ih t ht).mpr ⟨q, hnode⟩)

/-- The tag of a node is its path. -/
theorem Grown.nodeAt_text {parent : Option Units} {subTags : List Tag} (h : Grown parent subTags)
    {q : List Units} {node : Tag} (hnode : nodeAt q subTags = some node) :
    q ≠ [] ∧ (∀ key ∈ q, slash ∉ key) ∧ node.text = pathText parent q ∧
      Grown (some node.text) node.subTags := by
  induction q generalizing parent subTags with
  | nil => cases hnode
  | cons key q ih =>
      rcases h with ⟨-, flat, texts, below⟩
      rw [nodeAt_cons] at hnode
      rcases Option.bind_eq_some_iff.mp hnode with ⟨t, hfind, hnode⟩
      have ht := List.mem_of_find?_eq_some hfind
      have hkey : t.key = key := by simpa using List.find?_some hfind
      have hflat : slash ∉ key := hkey ▸ flat t ht
      have htext : t.text = extend parent key := hkey ▸ texts t ht
      refine ⟨List.cons_ne_nil _ _, ?_⟩
      by_cases hend : q = []
      · rw [if_pos hend] at hnode
        cases hnode
        subst hend
        exact ⟨by simpa using hflat, htext, below node ht⟩
      · rw [if_neg hend] at hnode
        have hbelow := below t ht
        rw [htext] at hbelow
        rcases ih hbelow hnode with ⟨-, hrest, hpath, hgrown⟩
        exact ⟨List.forall_mem_cons.mpr ⟨hflat, hrest⟩, hpath, hgrown⟩

/-- Every tag of the tree is that of a path. -/
theorem Grown.exists_path {parent : Option Units} {subTags : List Tag} (h : Grown parent subTags)
    {text : Units} (htext : text ∈ (nodesOf subTags).map Tag.text) :
    ∃ q, q ≠ [] ∧ (∀ key ∈ q, slash ∉ key) ∧ text = pathText parent q := by
  rcases List.mem_map.mp htext with ⟨node, hnode, rfl⟩
  rcases h.mem_nodesOf_iff.mp hnode with ⟨q, hq⟩
  rcases h.nodeAt_text hq with ⟨hne, hflat, htext, -⟩
  exact ⟨q, hne, hflat, htext⟩

/-- No text has two nodes. -/
theorem Grown.nodup_texts {parent : Option Units} {subTags : List Tag} (h : Grown parent subTags) :
    ((nodesOf subTags).map Tag.text).Nodup := by
  induction h with
  | mk keys flat texts below ih =>
      rename_i parent subTags
      have hnodes : (nodesOf subTags).map Tag.text =
          subTags.flatMap fun t => t.text :: (nodesOf t.subTags).map Tag.text := by
        clear keys flat texts below ih
        induction subTags with
        | nil => rfl
        | cons t rest ih => simp [nodesOf, nodes_eq, ih]
      -- the texts at and below a tag are those of paths that start with its key
      have hstart : ∀ t ∈ subTags, ∀ text ∈ t.text :: (nodesOf t.subTags).map Tag.text,
          ∃ q, (∀ key ∈ t.key :: q, slash ∉ key) ∧ text = pathText parent (t.key :: q) := by
        intro t ht text htext
        rw [List.mem_cons] at htext
        rcases htext with rfl | htext
        · exact ⟨[], by simpa using flat t ht, texts t ht⟩
        · rcases (below t ht).exists_path htext with ⟨q, -, hflat, rfl⟩
          refine ⟨q, List.forall_mem_cons.mpr ⟨flat t ht, hflat⟩, ?_⟩
          rw [pathText, ← texts t ht]
      rw [hnodes, List.nodup_flatMap]
      constructor
      · intro t ht
        refine List.nodup_cons.mpr ⟨fun hmem => ?_, ih t ht⟩
        rcases (below t ht).exists_path hmem with ⟨q, hne, -, htext⟩
        rw [pathText_some] at htext
        cases q with
        | nil => exact hne rfl
        | cons key q => simpa using congrArg List.length htext
      · apply (List.pairwise_map.mp keys).imp_of_mem
        intro t u ht hu hne text htext htext'
        rcases hstart t ht text htext with ⟨q, hflat, rfl⟩
        rcases hstart u hu _ htext' with ⟨q', hflat', hsame⟩
        have hpath := pathText_inj (by simp) (by simp) hflat hflat' hsame
        exact hne (List.cons.inj hpath).1

private theorem nodeAt_concat {q : List Units} (hq : q ≠ []) (key : Units) (subTags : List Tag) :
    nodeAt (q ++ [key]) subTags =
      (nodeAt q subTags).bind fun node => node.subTags.find? fun t => t.key = key := by
  induction q generalizing subTags with
  | nil => exact absurd rfl hq
  | cons k q ih =>
      rw [List.cons_append, nodeAt_cons, nodeAt_cons, Option.bind_assoc]
      congr 1
      funext t
      by_cases hend : q = []
      · subst hend
        simp [nodeAt]
      · simp [hend, ih hend]

/-! ## The tree -/

private theorem sorted_sortTagAmounts (tagAmounts : List (Units × ℕ)) :
    (sortTagAmounts tagAmounts).Pairwise fun a b => sortText a ≤ sortText b := by
  have htotal : Std.Total fun a b : Units × ℕ => sortText a ≤ sortText b :=
    ⟨fun a b => le_total (sortText a) (sortText b)⟩
  have htrans : IsTrans (Units × ℕ) fun a b => sortText a ≤ sortText b :=
    ⟨fun a b c hab hbc => le_trans hab hbc⟩
  exact List.pairwise_insertionSort _ tagAmounts

/-- A path is in the tree as the segments of a tag start with it. -/
theorem nodeAt_buildTags {tagAmounts : List (Units × ℕ)} {q : List Units} (hq : q ≠ []) :
    (∃ node, nodeAt q (buildTags tagAmounts) = some node) ↔
      ∃ entry ∈ tagAmounts, q <+: segments entry.1 := by
  have hamount := amountAt_addTags (sortTagAmounts tagAmounts) (sortTagAmounts tagAmounts) hq
  rw [← buildTags, amountAt] at hamount
  have hsome := congrArg Option.isSome hamount
  rw [Option.isSome_map, Option.isSome_map, Bool.eq_iff_iff, Option.isSome_iff_exists,
    List.find?_isSome] at hsome
  rw [hsome]
  simp only [sortTagAmounts, List.mem_insertionSort, List.isPrefixOf_iff_prefix]

/-- The tags of the tree are the tags and what stands before their slashes. -/
theorem mem_texts_buildTags {tagAmounts : List (Units × ℕ)} {t : Units} :
    t ∈ (nodesOf (buildTags tagAmounts)).map Tag.text ↔
      ∃ entry ∈ tagAmounts, SlashPrefix t entry.1 := by
  have hgrown := grown_addTags (sortTagAmounts tagAmounts) (sortTagAmounts tagAmounts)
  rw [← buildTags] at hgrown
  simp only [slashPrefix_iff, ← nodeAt_buildTags (segments_ne_nil t)]
  constructor
  · intro h
    rcases List.mem_map.mp h with ⟨node, hnode, rfl⟩
    rcases hgrown.mem_nodesOf_iff.mp hnode with ⟨q, hq⟩
    rcases hgrown.nodeAt_text hq with ⟨hne, hflat, htext, -⟩
    rw [htext, segments_pathText hne hflat]
    exact ⟨node, hq⟩
  · rintro ⟨node, hnode⟩
    rcases hgrown.nodeAt_text hnode with ⟨hne, hflat, htext, -⟩
    have ht : node.text = t := by
      apply segments_inj
      rw [htext, segments_pathText hne hflat]
    exact ht ▸ List.mem_map_of_mem (hgrown.mem_nodesOf_iff.mpr ⟨_, hnode⟩)

/-- A node has the count of its tag when it is more than one. -/
theorem amount_buildTags {tagAmounts : List (Units × ℕ)} (h : (tagAmounts.map Prod.fst).Nodup)
    {node : Tag} (hnode : node ∈ nodesOf (buildTags tagAmounts)) :
    (∀ count, (node.text, count) ∈ tagAmounts → 1 < count → node.amount = count) ∧
      ((¬∃ count, (node.text, count) ∈ tagAmounts ∧ 1 < count) → node.amount = 0) := by
  have hgrown := grown_addTags (sortTagAmounts tagAmounts) (sortTagAmounts tagAmounts)
  rw [← buildTags] at hgrown
  rcases hgrown.mem_nodesOf_iff.mp hnode with ⟨q, hq⟩
  rcases hgrown.nodeAt_text hq with ⟨hne, hflat, htext, -⟩
  have hamount := amountAt_addTags (sortTagAmounts tagAmounts) (sortTagAmounts tagAmounts) hne
  rw [← buildTags, amountAt, hq, Option.map_some, ← htext] at hamount
  rcases Option.map_eq_some_iff.mp hamount.symm with ⟨first, hfirst, hvalue⟩
  have hcreated : node.amount = nodeAmount (sortTagAmounts tagAmounts) first.2 node.text :=
    hvalue.symm
  constructor
  · intro count hmem hcount
    have hmem' : (node.text, count) ∈ sortTagAmounts tagAmounts :=
      (List.mem_insertionSort _).mpr hmem
    have hany : (sortTagAmounts tagAmounts).any fun entry =>
        entry.1 = node.text && 1 < entry.2 := by
      rw [List.any_eq_true]
      exact ⟨_, hmem', by simpa using hcount⟩
    rw [hcreated, nodeAmount, if_pos hany]
    have hq' : q = segments node.text := by rw [htext, segments_pathText hne hflat]
    rw [List.find?_eq_some_iff_append] at hfirst
    rcases hfirst with ⟨hfirst, before, after, hsplit, hbefore⟩
    have hsorted := sorted_sortTagAmounts tagAmounts
    have hperm := (List.perm_insertionSort (fun a b => sortText a ≤ sortText b) tagAmounts).map
      Prod.fst
    rw [hsplit] at hmem' hsorted
    rcases List.mem_append.mp hmem' with hmem' | hmem'
    · have hnot := hbefore _ hmem'
      have hself := List.isPrefixOf_iff_prefix.mpr (List.prefix_refl (segments node.text))
      rw [hq', hself] at hnot
      cases hnot
    rcases List.mem_cons.mp hmem' with hsame | hmem'
    · rw [← hsame]
    · have hle := (List.pairwise_cons.mp (List.pairwise_append.mp hsorted).2.1).1 _ hmem'
      rw [List.isPrefixOf_iff_prefix, hq', ← slashPrefix_iff] at hfirst
      exfalso
      rcases hfirst with htag | ⟨r, hr⟩
      · have hnodup := hperm.nodup_iff.mpr h
        rw [← sortTagAmounts, hsplit, List.map_append, List.map_cons] at hnodup
        have hnotMem := (List.nodup_cons.mp (List.nodup_append.mp hnodup).2.1).1
        exact hnotMem (htag ▸ List.mem_map_of_mem hmem')
      · have hlt := @sortText_lt node.text r count first.2
        rw [List.append_assoc, List.singleton_append] at hr
        rw [hr] at hlt
        exact absurd hle (not_le_of_gt hlt)
  · intro hnone
    rw [hcreated, nodeAmount, if_neg]
    rw [List.any_eq_true]
    rintro ⟨⟨tag, count⟩, hmem, hboth⟩
    have hboth : tag = node.text ∧ 1 < count := by simpa using hboth
    rcases hboth with ⟨rfl, hcount⟩
    exact hnone ⟨count, (List.mem_insertionSort _).mp hmem, hcount⟩

/-- The children of a node are the nodes one segment further. -/
theorem child_buildTags {tagAmounts : List (Units × ℕ)} {node : Tag}
    (hnode : node ∈ nodesOf (buildTags tagAmounts)) (key text : Units) :
    (∃ child ∈ node.subTags, child.key = key ∧ child.text = text) ↔
      slash ∉ key ∧ text = node.text ++ slash :: key ∧
        text ∈ (nodesOf (buildTags tagAmounts)).map Tag.text := by
  have hgrown := grown_addTags (sortTagAmounts tagAmounts) (sortTagAmounts tagAmounts)
  rw [← buildTags] at hgrown
  rcases hgrown.mem_nodesOf_iff.mp hnode with ⟨q, hq⟩
  rcases hgrown.nodeAt_text hq with ⟨hne, hflat, htext, hbelow⟩
  rcases hbelow with ⟨keys, flat, texts, -⟩
  have hstep : ∀ k, nodeAt (q ++ [k]) (buildTags tagAmounts) =
      node.subTags.find? fun t => t.key = k := by
    intro k
    rw [nodeAt_concat hne, hq, Option.bind_some]
  constructor
  · rintro ⟨child, hchild, rfl, rfl⟩
    refine ⟨flat child hchild, texts child hchild, List.mem_map_of_mem ?_⟩
    rw [hgrown.mem_nodesOf_iff]
    exact ⟨q ++ [child.key], (hstep child.key).trans (find_eq_some_of_mem keys hchild)⟩
  · rintro ⟨hkey, rfl, hmem⟩
    rw [mem_texts_buildTags] at hmem
    simp only [slashPrefix_iff, ← nodeAt_buildTags (segments_ne_nil _)] at hmem
    rcases hmem with ⟨child, hchild⟩
    rw [segments_append_slash, segments_of_flat hkey, htext, segments_pathText hne hflat,
      hstep] at hchild
    have hmem := List.mem_of_find?_eq_some hchild
    have hsame : child.key = key := by simpa using List.find?_some hchild
    exact ⟨child, hmem, hsame, hsame ▸ texts child hmem⟩

/-- The tags at the top are the nodes of one segment. -/
theorem root_buildTags (tagAmounts : List (Units × ℕ)) (key text : Units) :
    (∃ child ∈ buildTags tagAmounts, child.key = key ∧ child.text = text) ↔
      slash ∉ key ∧ text = key ∧ text ∈ (nodesOf (buildTags tagAmounts)).map Tag.text := by
  have hgrown := grown_addTags (sortTagAmounts tagAmounts) (sortTagAmounts tagAmounts)
  rw [← buildTags] at hgrown
  rcases hgrown with ⟨keys, flat, texts, -⟩
  constructor
  · rintro ⟨child, hchild, rfl, rfl⟩
    refine ⟨flat child hchild, texts child hchild, List.mem_map_of_mem ?_⟩
    exact mem_nodesOf.mpr ⟨child, hchild, Or.inl rfl⟩
  · rintro ⟨hkey, rfl, hmem⟩
    rw [mem_texts_buildTags] at hmem
    simp only [slashPrefix_iff, ← nodeAt_buildTags (segments_ne_nil _)] at hmem
    rcases hmem with ⟨child, hchild⟩
    rw [segments_of_flat hkey, nodeAt] at hchild
    have hmem := List.mem_of_find?_eq_some hchild
    have hsame : child.key = text := by simpa using List.find?_some hchild
    exact ⟨child, hmem, hsame, hsame ▸ texts child hmem⟩

/-- The tree has one node for each beginning of a tag up to a slash; a node's children are the nodes
one segment further, and its amount is the count of its tag if that is more than one. -/
theorem tagTree_correct (tagAmounts : List (Units × ℕ)) (h : (tagAmounts.map Prod.fst).Nodup) :
    ((nodesOf (buildTags tagAmounts)).map Tag.text).Nodup ∧
      (∀ t, t ∈ (nodesOf (buildTags tagAmounts)).map Tag.text ↔
        ∃ entry ∈ tagAmounts, SlashPrefix t entry.1) ∧
      (∀ key text, (∃ child ∈ buildTags tagAmounts, child.key = key ∧ child.text = text) ↔
        slash ∉ key ∧ text = key ∧ text ∈ (nodesOf (buildTags tagAmounts)).map Tag.text) ∧
      ∀ node ∈ nodesOf (buildTags tagAmounts),
        (∀ key text, (∃ child ∈ node.subTags, child.key = key ∧ child.text = text) ↔
          slash ∉ key ∧ text = node.text ++ slash :: key ∧
            text ∈ (nodesOf (buildTags tagAmounts)).map Tag.text) ∧
        (∀ count, (node.text, count) ∈ tagAmounts → 1 < count → node.amount = count) ∧
        ((¬∃ count, (node.text, count) ∈ tagAmounts ∧ 1 < count) → node.amount = 0) := by
  refine ⟨(grown_addTags _ _).nodup_texts, fun t => mem_texts_buildTags,
    root_buildTags tagAmounts, fun node hnode => ⟨child_buildTags hnode, ?_⟩⟩
  exact amount_buildTags h hnode

/-- Counts of a tag, of a tag below it and of one whose first segment is no tag. -/
theorem tagTree_correct_three :
    let tagAmounts := [([97, 47, 98], 3), ([99, 47, 100], 1), ([97], 2)]
    (tagAmounts.map Prod.fst).Nodup ∧
      ∀ node ∈ nodesOf (buildTags tagAmounts), ∀ count,
        (node.text, count) ∈ tagAmounts → 1 < count → node.amount = count := by
  intro tagAmounts
  have hnodup : (tagAmounts.map Prod.fst).Nodup := by decide
  exact ⟨hnodup, fun node hnode =>
    ((tagTree_correct tagAmounts hnodup).2.2.2 node hnode).2.1⟩

end Web
end MemosNote
