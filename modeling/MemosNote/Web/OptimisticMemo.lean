import Mathlib.Data.List.Basic
import MemosNote.Library.Run

/-!
# The optimistic cache of a memo

The client caches a memo under its own key and in the lists that hold it.  An update is shown before
the server answers: it starts with a patch of the cache, and ends with the memo of the server or
with the copy that was cached at its start.  Updates of one memo may overlap.

Main results:

- Theorem {lit}`cache_converges`: if an update that fails last has overlapped with no other, every
  cached copy is the memo of the server or is to be fetched anew.
- Theorem {lit}`cache_rolled_back`: an update that fails after another one succeeded shows the memo
  as it was before both.
-/

namespace MemosNote
namespace Web

open Library

/-! ## Memos and patches -/

/-- The fields that an object has. -/
def Fields (Field Value : Type) : Type :=
  Field → Option Value

variable {Field Value : Type}

/-- The fields of an object over those of another. -/
def spread (memo update : Fields Field Value) : Fields Field Value :=
  fun f => (update f).or (memo f)

/-- All fields of an object are fields of another. -/
def Covers (memo update : Fields Field Value) : Prop :=
  ∀ f, memo f = none → update f = none

/-- A field that the update leaves out keeps its value. -/
theorem spread_apply_of_none {memo update : Fields Field Value} {f : Field} (h : update f = none) :
    spread memo update f = memo f := by
  rw [spread, h, Option.none_or]

theorem Covers.refl (memo : Fields Field Value) : Covers memo memo :=
  fun _ h => h

/-- Covering is transitive. -/
theorem Covers.trans {a b c : Fields Field Value} (h : Covers a b) (h' : Covers b c) :
    Covers a c :=
  fun f hf => h' f (h f hf)

/-- A memo that is covered by two memos is covered by one spread over the other. -/
theorem Covers.spread {memo a b : Fields Field Value} (ha : Covers memo a) (hb : Covers memo b) :
    Covers memo (spread a b) := by
  intro f hf
  rw [spread_apply_of_none (hb f hf), ha f hf]

/-- An object that covers another replaces it. -/
theorem Covers.spread_eq {memo a : Fields Field Value} (h : Covers memo a) :
    Web.spread a memo = memo := by
  funext f
  cases hf : memo f with
  | none => rw [spread_apply_of_none hf, h f hf]
  | some v => rw [Web.spread, hf, Option.some_or]

/-! ## The cache -/

/-- What the query library does to a cached answer.  Written or fetched data is fresh, and an answer
that is invalidated keeps its data. -/
class QueryClient (Query : Type → Type) where
  data {α : Type} : Query α → α
  isInvalidated {α : Type} : Query α → Bool
  setQueryData {α : Type} : Option (Query α) → α → Query α
  invalidateQuery {α : Type} : Query α → Query α
  refetchQuery {α : Type} : Query α → α → Query α
  data_set {α : Type} (query : Option (Query α)) (a : α) : data (setQueryData query a) = a
  isInvalidated_set {α : Type} (query : Option (Query α)) (a : α) :
    isInvalidated (setQueryData query a) = false
  data_invalidate {α : Type} (query : Query α) : data (invalidateQuery query) = data query
  isInvalidated_invalidate {α : Type} (query : Query α) :
    isInvalidated (invalidateQuery query) = true
  data_refetch {α : Type} (query : Query α) (a : α) : data (refetchQuery query a) = a
  isInvalidated_refetch {α : Type} (query : Query α) (a : α) :
    isInvalidated (refetchQuery query a) = false

open QueryClient

/-- The cached answer to a query of the memo. -/
structure DetailQuery (Query : Type → Type) (Field Value : Type) where
  answer : Query (Fields Field Value)

/-- The cached answer to a query of a list, or of the comments of the memo's parent: the copies of
the memo in it. -/
structure CollectionQuery (Query : Type → Type) (Field Value : Type) where
  comments : Bool
  answer : Query (List (Fields Field Value))

/-- The cached answers that have copies of the memo. -/
structure MemoCache (Query : Type → Type) (Field Value : Type) where
  detail : Option (DetailQuery Query Field Value)
  collections : List (CollectionQuery Query Field Value)

/-- An update in flight: the copy that was cached at its start, whether it started with no other in
flight and nothing to be fetched anew, and whether another one has succeeded since. -/
structure Mutation (Field Value : Type) where
  previousMemo : Option (Fields Field Value)
  alone : Bool
  overtaken : Bool

/-- The client and the memo of the server, which is a comment or not. -/
structure MemoClient (Query : Type → Type) (Field Value : Type) where
  isComment : Bool
  cache : MemoCache Query Field Value
  inFlight : List (Mutation Field Value)
  server : Fields Field Value

/-- An update starts, the server answers it with the updated memo, or it fails; or what was
invalidated has been fetched anew, with some number of copies. -/
inductive UpdateEvent (Field Value : Type) where
  | onMutate (update : Fields Field Value)
  | onSuccess (i : ℕ) (updatedMemo : Fields Field Value)
  | onError (i : ℕ)
  | refetchDetail
  | refetchCollection (i copies : ℕ)

variable {Query : Type → Type} [QueryClient Query]

/-- The memo in the answer. -/
def DetailQuery.memo (query : DetailQuery Query Field Value) : Fields Field Value :=
  data query.answer

/-- The answer is to be fetched anew. -/
def DetailQuery.invalidated (query : DetailQuery Query Field Value) : Bool :=
  isInvalidated query.answer

/-- The memos in the answer. -/
def CollectionQuery.memos (query : CollectionQuery Query Field Value) :
    List (Fields Field Value) :=
  data query.answer

/-- The answer is to be fetched anew. -/
def CollectionQuery.invalidated (query : CollectionQuery Query Field Value) : Bool :=
  isInvalidated query.answer

namespace MemoCache

variable (cache : MemoCache Query Field Value)

/-- Put a memo into the query of its page. -/
def setDetail (memo : Fields Field Value) : MemoCache Query Field Value :=
  { cache with detail := some ⟨setQueryData (cache.detail.map DetailQuery.answer) memo⟩ }

/-- The memo as a list shows it. -/
def findMemoInCollectionQueries : Option (Fields Field Value) :=
  cache.collections.findSome? fun query => query.memos.head?

/-- Patch the copies in the collections; every one of them is written. -/
def patchMemoInCollectionQueries (update : Fields Field Value) : MemoCache Query Field Value :=
  { cache with
    collections := cache.collections.map fun query =>
      { query with
        answer := setQueryData (some query.answer) (query.memos.map fun memo =>
          spread memo update) } }

/-- Invalidate the lists, or the comments of the parent. -/
def invalidateCollections (comments : Bool) : MemoCache Query Field Value :=
  { cache with
    collections := cache.collections.map fun query =>
      if query.comments = comments then { query with answer := invalidateQuery query.answer }
      else query }

/-- Every query is to be fetched anew. -/
def invalidateAll : MemoCache Query Field Value where
  detail := cache.detail.map fun query => ⟨invalidateQuery query.answer⟩
  collections := cache.collections.map fun query =>
    { query with answer := invalidateQuery query.answer }

/-- The copy of the memo that is found. -/
def previousMemo : Option (Fields Field Value) :=
  (cache.detail.map DetailQuery.memo).or cache.findMemoInCollectionQueries

/-- Nothing is to be fetched anew. -/
def fresh : Bool :=
  cache.detail.all (fun query => !query.invalidated) &&
    cache.collections.all fun query => !query.invalidated

/-- All cached copies. -/
def copies : List (Fields Field Value) :=
  cache.detail.toList.map DetailQuery.memo ++ cache.collections.flatMap CollectionQuery.memos

/-- Which collections are of comments. -/
def kinds : List Bool :=
  cache.collections.map CollectionQuery.comments

end MemoCache

/-! ## Updates -/

namespace MemoClient

/-- An update is sent: the cache shows it at once. -/
def onMutate (s : MemoClient Query Field Value) (update : Fields Field Value) :
    MemoClient Query Field Value :=
  let previousMemo := s.cache.previousMemo
  let cache := previousMemo.elim s.cache fun memo => s.cache.setDetail (spread memo update)
  { s with
    cache := cache.patchMemoInCollectionQueries update
    inFlight := s.inFlight ++ [{
      previousMemo := previousMemo
      alone := s.inFlight.isEmpty && s.cache.fresh
      overtaken := false }] }

/-- The server has answered with the updated memo. -/
def onSuccess (s : MemoClient Query Field Value) (i : ℕ) (updatedMemo : Fields Field Value) :
    MemoClient Query Field Value :=
  let cache := ((s.cache.setDetail updatedMemo).patchMemoInCollectionQueries
    updatedMemo).invalidateCollections false
  { s with
    cache := if s.isComment then cache.invalidateCollections true else cache
    inFlight := (s.inFlight.eraseIdx i).map fun m => { m with overtaken := true }
    server := updatedMemo }

/-- The update has failed: the cache shows the earlier memo. -/
def onError (s : MemoClient Query Field Value) (i : ℕ) (m : Mutation Field Value) :
    MemoClient Query Field Value :=
  { s with
    cache := m.previousMemo.elim s.cache.invalidateAll fun memo =>
      (s.cache.setDetail memo).patchMemoInCollectionQueries memo
    inFlight := s.inFlight.eraseIdx i }

/-- The query of the page is fetched anew, if it has to be. -/
def refetchDetail (s : MemoClient Query Field Value) : MemoClient Query Field Value :=
  { s with cache := { s.cache with
    detail := s.cache.detail.map fun query =>
      if query.invalidated then ⟨refetchQuery query.answer s.server⟩ else query } }

/-- A query of lists is fetched anew, if it has to be. -/
def refetchCollection (s : MemoClient Query Field Value) (i n : ℕ) : MemoClient Query Field Value :=
  { s with cache := { s.cache with
    collections := s.cache.collections.modify i fun query =>
      if query.invalidated then
        { query with answer := refetchQuery query.answer (List.replicate n s.server) }
      else query } }

/-- One event of the client; an answer comes to an update under way. -/
def step (s : MemoClient Query Field Value) :
    UpdateEvent Field Value → Option (MemoClient Query Field Value)
  | .onMutate update => some (s.onMutate update)
  | .onSuccess i updatedMemo => s.inFlight[i]?.map fun _ => s.onSuccess i updatedMemo
  | .onError i => s.inFlight[i]?.map (s.onError i)
  | .refetchDetail => some s.refetchDetail
  | .refetchCollection i n => some (s.refetchCollection i n)

/-- Every cached copy is the memo of the server or is to be fetched anew. -/
def Converged (s : MemoClient Query Field Value) : Prop :=
  (∀ query ∈ s.cache.detail, query.invalidated = true ∨ query.memo = s.server) ∧
    ∀ query ∈ s.cache.collections, query.invalidated = true ∨ ∀ memo ∈ query.memos, memo = s.server

/-- An update sets fields that the cached copy has, and one that fails last, after it has found a
copy, started with no other in flight and no other has succeeded since. -/
def Uncontended (s : MemoClient Query Field Value) : UpdateEvent Field Value → Prop
  | .onMutate update => ∀ memo ∈ s.cache.previousMemo, Covers memo update
  | .onError i => s.inFlight.length = 1 → ∀ m ∈ s.inFlight[i]?, m.previousMemo.isSome →
      m.alone = true ∧ m.overtaken = false
  | _ => True

end MemoClient

/-! ## Copies -/

namespace MemoCache

variable {cache : MemoCache Query Field Value} {P : Fields Field Value → Prop}

@[simp]
theorem kinds_setDetail (memo : Fields Field Value) : (cache.setDetail memo).kinds = cache.kinds :=
  rfl

@[simp]
theorem kinds_patch (update : Fields Field Value) :
    (cache.patchMemoInCollectionQueries update).kinds = cache.kinds := by
  simp [kinds, patchMemoInCollectionQueries]

@[simp]
theorem kinds_invalidateCollections (comments : Bool) :
    (cache.invalidateCollections comments).kinds = cache.kinds := by
  rw [kinds, invalidateCollections, List.map_map]
  apply List.map_congr_left
  intro query _
  rw [Function.comp_apply]
  split_ifs <;> rfl

@[simp]
theorem kinds_invalidateAll : cache.invalidateAll.kinds = cache.kinds := by
  simp [kinds, invalidateAll]

/-- The copies of the memo are those of its page and of the lists. -/
theorem mem_copies {a : Fields Field Value} : a ∈ cache.copies ↔
    (∃ query ∈ cache.detail, query.memo = a) ∨ ∃ query ∈ cache.collections, a ∈ query.memos := by
  simp [copies, Option.mem_toList]

/-- The earlier memo is one of the copies. -/
theorem previousMemo_mem {memo : Fields Field Value} (h : cache.previousMemo = some memo) :
    memo ∈ cache.copies := by
  rw [mem_copies]
  rcases Option.or_eq_some_iff.mp h with hdetail | ⟨-, hfound⟩
  · rcases Option.map_eq_some_iff.mp hdetail with ⟨query, hquery, hmemo⟩
    exact Or.inl ⟨query, hquery, hmemo⟩
  · rcases List.exists_of_findSome?_eq_some hfound with ⟨query, hquery, hhead⟩
    exact Or.inr ⟨query, hquery, List.mem_of_head? hhead⟩

private theorem copies_eq_nil (h : cache.previousMemo = none) : cache.copies = [] := by
  rcases Option.or_eq_none_iff.mp h with ⟨hdetail, hfound⟩
  rw [copies, Option.map_eq_none_iff.mp hdetail]
  apply List.flatMap_eq_nil_iff.mpr
  intro query hquery
  exact List.head?_eq_none_iff.mp (List.findSome?_eq_none_iff.mp hfound query hquery)

/-- The copies after the page's query was set. -/
theorem mem_copies_setDetail {memo a : Fields Field Value}
    (h : a ∈ (cache.setDetail memo).copies) : a = memo ∨ a ∈ cache.copies := by
  rcases mem_copies.mp h with ⟨query, hquery, rfl⟩ | hcollections
  · rcases Option.some.inj hquery with rfl
    exact Or.inl (data_set _ memo)
  · exact Or.inr (mem_copies.mpr (Or.inr hcollections))

/-- The copies after the lists were patched. -/
theorem mem_copies_patch {update a : Fields Field Value}
    (h : a ∈ (cache.patchMemoInCollectionQueries update).copies) :
    (∃ query ∈ cache.detail, query.memo = a) ∨ ∃ b ∈ cache.copies, spread b update = a := by
  rcases mem_copies.mp h with hdetail | ⟨query, hquery, hmemo⟩
  · exact Or.inl hdetail
  · rcases List.mem_map.mp hquery with ⟨query', hquery', rfl⟩
    rw [CollectionQuery.memos, data_set] at hmemo
    rcases List.mem_map.mp hmemo with ⟨b, hb, rfl⟩
    exact Or.inr ⟨b, mem_copies.mpr (Or.inr ⟨query', hquery', hb⟩), rfl⟩

private theorem mem_copies_invalidateAll {a : Fields Field Value}
    (h : a ∈ cache.invalidateAll.copies) :
    a ∈ cache.copies := by
  rcases mem_copies.mp h with ⟨query, hquery, rfl⟩ | ⟨query, hquery, hmemo⟩
  · rcases Option.map_eq_some_iff.mp hquery with ⟨query', hquery', rfl⟩
    exact mem_copies.mpr (Or.inl ⟨query', hquery', (data_invalidate query'.answer).symm⟩)
  · rcases List.mem_map.mp hquery with ⟨query', hquery', rfl⟩
    rw [CollectionQuery.memos, data_invalidate] at hmemo
    exact mem_copies.mpr (Or.inr ⟨query', hquery', hmemo⟩)

/-- Invalidation keeps the memos and changes a mark. -/
theorem mem_invalidateCollections {comments : Bool} {query : CollectionQuery Query Field Value}
    (h : query ∈ (cache.invalidateCollections comments).collections) :
    ∃ q ∈ cache.collections, query.comments = q.comments ∧
      query.invalidated = (q.invalidated || q.comments == comments) := by
  rcases List.mem_map.mp h with ⟨q, hq, rfl⟩
  refine ⟨q, hq, ?_⟩
  by_cases hcomments : q.comments = comments
  · simp [hcomments, CollectionQuery.invalidated, isInvalidated_invalidate]
  · simp [hcomments]

/-- The copies after an optimistic patch or a rollback. -/
theorem covers_patch {memo shown update : Fields Field Value}
    (h : ∀ a ∈ cache.copies, Covers memo a) (hshown : Covers memo shown)
    (hupdate : Covers memo update) :
    ∀ a ∈ ((cache.setDetail shown).patchMemoInCollectionQueries update).copies,
      Covers memo a := by
  intro a ha
  rcases mem_copies_patch ha with ⟨query, hquery, rfl⟩ | ⟨b, hb, rfl⟩
  · rcases Option.some.inj hquery with rfl
    rw [DetailQuery.memo, data_set]
    exact hshown
  · rcases mem_copies_setDetail hb with rfl | hb
    · exact hshown.spread hupdate
    · exact (h b hb).spread hupdate

/-- After a rollback to a copy that covers the others, they are all this copy. -/
theorem copies_rollback {memo : Fields Field Value} (h : ∀ a ∈ cache.copies, Covers memo a) :
    ∀ a ∈ ((cache.setDetail memo).patchMemoInCollectionQueries memo).copies, a = memo := by
  intro a ha
  rcases mem_copies_patch ha with ⟨query, hquery, rfl⟩ | ⟨b, hb, rfl⟩
  · rcases Option.some.inj hquery with rfl
    exact data_set _ memo
  · rcases mem_copies_setDetail hb with rfl | hb
    · exact (Covers.refl b).spread_eq
    · exact (h b hb).spread_eq

end MemoCache

/-! ## Runs -/

namespace MemoClient

variable {s s' : MemoClient Query Field Value}

private theorem converged_of_copies (h : ∀ a ∈ s.cache.copies, a = s.server) : s.Converged :=
  ⟨fun query hquery => Or.inr (h _ (MemoCache.mem_copies.mpr (Or.inl ⟨query, hquery, rfl⟩))),
    fun query hquery => Or.inr fun memo hmemo =>
      h memo (MemoCache.mem_copies.mpr (Or.inr ⟨query, hquery, hmemo⟩))⟩

/-- When nothing is to be fetched anew, the copies are the memo of the server. -/
theorem Converged.copies (h : s.Converged) (hfresh : s.cache.fresh = true) :
    ∀ a ∈ s.cache.copies, a = s.server := by
  rcases Bool.and_eq_true_iff.mp hfresh with ⟨hdetail, hcollections⟩
  intro a ha
  rcases MemoCache.mem_copies.mp ha with ⟨query, hquery, rfl⟩ | ⟨query, hquery, hmemo⟩
  · rcases h.1 query hquery with hinvalid | hmemo
    · rw [hquery] at hdetail
      simp [hinvalid] at hdetail
    · exact hmemo
  · rcases h.2 query hquery with hinvalid | hmemos
    · have hvalid := List.all_eq_true.mp hcollections query hquery
      simp [hinvalid] at hvalid
    · exact hmemos a hmemo

/-- An update has started from the memo of the server, which covers every copy since. -/
structure StartedFrom (s : MemoClient Query Field Value) (memo : Fields Field Value) : Prop where
  server_eq : s.server = memo
  copies : ∀ a ∈ s.cache.copies, Covers memo a
  snapshots : ∀ m ∈ s.inFlight, ∀ a ∈ m.previousMemo, Covers memo a

/-- Collections of comments hold comments only, at rest the cache has converged, and the one update
that may have started alone is the first in flight. -/
structure Steady (s : MemoClient Query Field Value) : Prop where
  comments : true ∈ s.cache.kinds → s.isComment = true
  converged : s.inFlight = [] → s.Converged
  later : ∀ m ∈ s.inFlight.tail, m.alone = false
  first : ∀ m ∈ s.inFlight.head?, m.alone = true → m.overtaken = false →
    ∀ memo ∈ m.previousMemo, s.StartedFrom memo

/-- An update under way has a copy to come back to. -/
theorem StartedFrom.onMutate {memo : Fields Field Value} (h : s.StartedFrom memo)
    {update : Fields Field Value} (hupdate : ∀ a ∈ s.cache.previousMemo, Covers a update) :
    (s.onMutate update).StartedFrom memo := by
  constructor
  · exact h.server_eq
  · rw [MemoClient.onMutate]
    cases hprevious : s.cache.previousMemo with
    | none =>
        intro a ha
        rcases MemoCache.mem_copies_patch ha with ⟨query, hquery, rfl⟩ | ⟨b, hb, rfl⟩
        · exact h.copies _ (MemoCache.mem_copies.mpr (Or.inl ⟨query, hquery, rfl⟩))
        · rw [Option.elim_none, MemoCache.copies_eq_nil hprevious] at hb
          exact absurd hb List.not_mem_nil
    | some a =>
        have hcovers := h.copies a (MemoCache.previousMemo_mem hprevious)
        have hupdate' := hcovers.trans (hupdate a hprevious)
        exact MemoCache.covers_patch h.copies (hcovers.spread hupdate') hupdate'
  · intro m hm a ha
    rcases List.mem_append.mp hm with hm | hm
    · exact h.snapshots m hm a ha
    · rcases List.mem_singleton.mp hm with rfl
      exact h.copies a (MemoCache.previousMemo_mem ha)

private theorem kinds_onMutate (update : Fields Field Value) :
    (s.onMutate update).cache.kinds = s.cache.kinds := by
  rw [MemoClient.onMutate]
  cases s.cache.previousMemo <;> simp

private theorem steady_onMutate (hs : s.Steady) {update : Fields Field Value}
    (hupdate : ∀ memo ∈ s.cache.previousMemo, Covers memo update) :
    (s.onMutate update).Steady := by
  constructor
  · rw [kinds_onMutate]
    exact hs.comments
  · intro hnone
    exact absurd hnone (List.append_ne_nil_of_right_ne_nil _ (List.cons_ne_nil _ _))
  · cases hflight : s.inFlight with
    | nil => simp [MemoClient.onMutate, hflight]
    | cons m rest =>
        have hlater := hs.later
        rw [hflight] at hlater
        intro m' hm'
        simp only [MemoClient.onMutate, hflight, List.cons_append, List.tail_cons,
          List.mem_append, List.mem_singleton] at hm'
        rcases hm' with hm' | rfl
        · exact hlater m' hm'
        · rfl
  · intro m hm halone hovertaken memo hmemo
    cases hflight : s.inFlight with
    | nil =>
        simp only [MemoClient.onMutate, hflight, List.nil_append, List.head?_cons,
          Option.mem_some_iff] at hm
        rcases hm with rfl
        have hcopies := (hs.converged hflight).copies halone
        have hserver : memo = s.server := hcopies memo (MemoCache.previousMemo_mem hmemo)
        have hstarted : s.StartedFrom memo := by
          refine ⟨hserver.symm, fun a ha => ?_, fun m hm => ?_⟩
          · rw [hcopies a ha, hserver]
            exact Covers.refl _
          · rw [hflight] at hm
            exact absurd hm List.not_mem_nil
        exact hstarted.onMutate hupdate
    | cons m' rest =>
        have hfirst := hs.first
        rw [hflight] at hfirst
        simp only [MemoClient.onMutate, hflight, List.cons_append, List.head?_cons,
          Option.mem_some_iff] at hm
        rcases hm with rfl
        exact (hfirst m' rfl halone hovertaken memo hmemo).onMutate hupdate

private theorem kinds_onSuccess (i : ℕ) (updatedMemo : Fields Field Value) :
    (s.onSuccess i updatedMemo).cache.kinds = s.cache.kinds := by
  rw [onSuccess]
  cases s.isComment <;> simp

/-- A success shows the memo of the server under its key and invalidates every collection. -/
theorem converged_onSuccess (hs : s.Steady) (i : ℕ) (updatedMemo : Fields Field Value) :
    (s.onSuccess i updatedMemo).Converged := by
  constructor
  · intro query hquery
    right
    rw [onSuccess] at hquery
    cases hcomment : s.isComment <;> rw [hcomment] at hquery <;>
      rcases Option.some.inj hquery with rfl <;> exact data_set _ updatedMemo
  · intro query hquery
    left
    rw [onSuccess] at hquery
    cases hcomment : s.isComment with
    | true =>
        rw [hcomment, if_pos rfl] at hquery
        rcases MemoCache.mem_invalidateCollections hquery with ⟨q, hq, hcomments, hinvalid⟩
        rcases MemoCache.mem_invalidateCollections hq with ⟨q', -, hcomments', hinvalid'⟩
        rw [hinvalid, hinvalid', hcomments']
        cases q'.comments <;> simp
    | false =>
        rw [hcomment, if_neg Bool.false_ne_true] at hquery
        rcases MemoCache.mem_invalidateCollections hquery with ⟨q, hq, -, hinvalid⟩
        have hlist : q.comments = false := by
          rw [Bool.eq_false_iff]
          intro hcomments
          have hkinds : true ∈ s.cache.kinds := by
            rw [← MemoCache.kinds_setDetail updatedMemo, ← MemoCache.kinds_patch updatedMemo]
            exact List.mem_map.mpr ⟨q, hq, hcomments⟩
          rw [hs.comments hkinds] at hcomment
          cases hcomment
        rw [hinvalid, hlist]
        simp

/-- What is left of a list without its first element, after an element is erased. -/
theorem mem_tail_eraseIdx {α : Type} {list : List α} {i : ℕ} {a : α}
    (h : a ∈ (list.eraseIdx i).tail) : a ∈ list.tail := by
  cases list with
  | nil => exact h
  | cons b list =>
      cases i with
      | zero => exact List.mem_of_mem_tail h
      | succ i => exact List.mem_of_mem_eraseIdx h

private theorem steady_onSuccess (hs : s.Steady) (i : ℕ) (updatedMemo : Fields Field Value) :
    (s.onSuccess i updatedMemo).Steady := by
  constructor
  · rw [kinds_onSuccess]
    exact hs.comments
  · exact fun _ => converged_onSuccess hs i updatedMemo
  · intro m hm
    rw [onSuccess, List.map_tail.symm] at hm
    rcases List.mem_map.mp hm with ⟨m', hm', rfl⟩
    exact hs.later m' (mem_tail_eraseIdx hm')
  · intro m hm _ hovertaken
    rw [onSuccess, Option.mem_def, List.head?_map] at hm
    rcases Option.map_eq_some_iff.mp hm with ⟨m', -, rfl⟩
    cases hovertaken

private theorem kinds_onError (i : ℕ) (m : Mutation Field Value) :
    (s.onError i m).cache.kinds = s.cache.kinds := by
  rw [onError]
  cases m.previousMemo <;> simp

/-- A failed update puts back a copy that was there. -/
theorem StartedFrom.onError {memo : Fields Field Value} (h : s.StartedFrom memo) (i : ℕ)
    {m : Mutation Field Value} (hm : m ∈ s.inFlight) : (s.onError i m).StartedFrom memo := by
  constructor
  · exact h.server_eq
  · rw [MemoClient.onError]
    cases hprevious : m.previousMemo with
    | none => exact fun a ha => h.copies a (MemoCache.mem_copies_invalidateAll ha)
    | some a =>
        have hcovers := h.snapshots m hm a hprevious
        exact MemoCache.covers_patch h.copies hcovers hcovers
  · exact fun m' hm' => h.snapshots m' (List.mem_of_mem_eraseIdx hm')

private theorem steady_onError (hs : s.Steady) {i : ℕ} {m : Mutation Field Value}
    (hi : s.inFlight[i]? = some m)
    (hlast : s.inFlight.length = 1 → m.previousMemo.isSome → m.alone = true ∧ m.overtaken = false) :
    (s.onError i m).Steady := by
  have hm : m ∈ s.inFlight := List.mem_of_getElem? hi
  constructor
  · rw [kinds_onError]
    exact hs.comments
  · intro hnone
    rcases List.getElem?_eq_some_iff.mp hi with ⟨hlt, -⟩
    have hlength : s.inFlight.length = 1 := by
      have herased := congrArg List.length hnone
      rw [MemoClient.onError, List.length_eraseIdx_of_lt hlt, List.length_nil] at herased
      omega
    cases hprevious : m.previousMemo with
    | none =>
        rw [MemoClient.onError, hprevious]
        constructor
        · intro query hquery
          rcases Option.map_eq_some_iff.mp hquery with ⟨q, -, rfl⟩
          exact Or.inl (isInvalidated_invalidate q.answer)
        · intro query hquery
          rcases List.mem_map.mp hquery with ⟨q, -, rfl⟩
          exact Or.inl (isInvalidated_invalidate q.answer)
    | some memo =>
        have hstarted : s.StartedFrom memo := by
          rcases hlast hlength (by rw [hprevious]; rfl) with ⟨halone, hovertaken⟩
          rcases List.length_eq_one_iff.mp hlength with ⟨m', hflight⟩
          rw [hflight, List.mem_singleton] at hm
          exact hs.first m (by rw [hflight, hm]; rfl) halone hovertaken memo hprevious
        have hcopies := MemoCache.copies_rollback hstarted.copies
        apply converged_of_copies
        rw [MemoClient.onError, hprevious]
        exact fun a ha => (hcopies a ha).trans hstarted.server_eq.symm
  · exact fun m' hm' => hs.later m' (mem_tail_eraseIdx hm')
  · intro m' hm' halone hovertaken memo hmemo
    cases hflight : s.inFlight with
    | nil =>
        rw [hflight] at hm
        exact absurd hm List.not_mem_nil
    | cons b rest =>
        rw [MemoClient.onError, hflight] at hm'
        cases i with
        | zero =>
            have hlater := hs.later m' (by rw [hflight]; exact List.mem_of_head? hm')
            rw [halone] at hlater
            cases hlater
        | succ i =>
            rcases Option.some.inj hm' with rfl
            exact (hs.first b (by rw [hflight]; rfl) halone hovertaken memo hmemo).onError _ hm

private theorem steady_refetchDetail (hs : s.Steady) : s.refetchDetail.Steady := by
  have hquery {query : DetailQuery Query Field Value} (h : query ∈ s.refetchDetail.cache.detail) :
      query.memo = s.server ∨ query ∈ s.cache.detail := by
    rcases Option.map_eq_some_iff.mp h with ⟨q, hq, rfl⟩
    split_ifs
    · exact Or.inl (data_refetch q.answer s.server)
    · exact Or.inr hq
  constructor
  · exact hs.comments
  · intro hnone
    refine ⟨fun query h => ?_, (hs.converged hnone).2⟩
    rcases hquery h with hmemo | hold
    · exact Or.inr hmemo
    · exact (hs.converged hnone).1 query hold
  · exact hs.later
  · intro m hm halone hovertaken memo hmemo
    have hstarted := hs.first m hm halone hovertaken memo hmemo
    refine ⟨hstarted.server_eq, fun a ha => ?_, hstarted.snapshots⟩
    rcases MemoCache.mem_copies.mp ha with ⟨query, h, rfl⟩ | hcollections
    · rcases hquery h with hserver | hold
      · rw [hserver, hstarted.server_eq]
        exact Covers.refl memo
      · exact hstarted.copies _ (MemoCache.mem_copies.mpr (Or.inl ⟨query, hold, rfl⟩))
    · exact hstarted.copies a (MemoCache.mem_copies.mpr (Or.inr hcollections))

private theorem mem_modify {α : Type} {f : α → α} {list : List α} {i : ℕ} {a : α}
    (h : a ∈ list.modify i f) : a ∈ list ∨ ∃ b ∈ list, f b = a := by
  induction list generalizing i with
  | nil => simp at h
  | cons b list ih =>
      cases i with
      | zero =>
          rcases List.mem_cons.mp h with rfl | h
          · exact Or.inr ⟨b, List.mem_cons_self, rfl⟩
          · exact Or.inl (List.mem_cons_of_mem b h)
      | succ i =>
          rcases List.mem_cons.mp h with rfl | h
          · exact Or.inl List.mem_cons_self
          · rcases ih h with hmem | ⟨c, hc, rfl⟩
            · exact Or.inl (List.mem_cons_of_mem b hmem)
            · exact Or.inr ⟨c, List.mem_cons_of_mem b hc, rfl⟩

private theorem steady_refetchCollection (hs : s.Steady) (i n : ℕ) :
    (s.refetchCollection i n).Steady := by
  have hquery {query : CollectionQuery Query Field Value}
      (h : query ∈ (s.refetchCollection i n).cache.collections) :
      query ∈ s.cache.collections ∨ (∃ q ∈ s.cache.collections, q.comments = query.comments) ∧
        ∀ memo ∈ query.memos, memo = s.server := by
    rcases mem_modify h with hold | ⟨q, hq, rfl⟩
    · exact Or.inl hold
    · split_ifs
      · refine Or.inr ⟨⟨q, hq, rfl⟩, fun memo hmemo => ?_⟩
        rw [CollectionQuery.memos, data_refetch] at hmemo
        exact List.eq_of_mem_replicate hmemo
      · exact Or.inl hq
  constructor
  · intro hkinds
    apply hs.comments
    rcases List.mem_map.mp hkinds with ⟨query, h, hcomments⟩
    rcases hquery h with hold | ⟨⟨q, hq, hsame⟩, -⟩
    · exact List.mem_map.mpr ⟨query, hold, hcomments⟩
    · exact List.mem_map.mpr ⟨q, hq, hsame.trans hcomments⟩
  · intro hnone
    refine ⟨(hs.converged hnone).1, fun query h => ?_⟩
    rcases hquery h with hold | ⟨-, hmemos⟩
    · exact (hs.converged hnone).2 query hold
    · exact Or.inr hmemos
  · exact hs.later
  · intro m hm halone hovertaken memo hmemo
    have hstarted := hs.first m hm halone hovertaken memo hmemo
    refine ⟨hstarted.server_eq, fun a ha => ?_, hstarted.snapshots⟩
    rcases MemoCache.mem_copies.mp ha with hdetail | ⟨query, h, ha⟩
    · exact hstarted.copies a (MemoCache.mem_copies.mpr (Or.inl hdetail))
    · rcases hquery h with hold | ⟨-, hmemos⟩
      · exact hstarted.copies a (MemoCache.mem_copies.mpr (Or.inr ⟨query, hold, ha⟩))
      · rw [hmemos a ha, hstarted.server_eq]
        exact Covers.refl memo

/-- A step keeps the cache steady. -/
theorem steady_step (e : UpdateEvent Field Value) (hs : s.Steady) (huncontended : s.Uncontended e)
    (h : s.step e = some s') : s'.Steady := by
  cases e with
  | onMutate update =>
      rcases Option.some.inj h with rfl
      exact steady_onMutate hs huncontended
  | onSuccess i updatedMemo =>
      rcases Option.map_eq_some_iff.mp h with ⟨m, -, rfl⟩
      exact steady_onSuccess hs i updatedMemo
  | onError i =>
      rcases Option.map_eq_some_iff.mp h with ⟨m, hi, rfl⟩
      exact steady_onError hs hi fun hlength hprevious => huncontended hlength m hi hprevious
  | refetchDetail =>
      rcases Option.some.inj h with rfl
      exact steady_refetchDetail hs
  | refetchCollection i n =>
      rcases Option.some.inj h with rfl
      exact steady_refetchCollection hs i n

end MemoClient

open MemoClient

/-- From a cache that shows the memo of the server, any run in which updates set fields that the
cached copy has, and in which the last one to fail has overlapped with no other that counts, ends
with every cached copy showing the memo of the server or to be fetched anew. -/
theorem cache_converges {s s' : MemoClient Query Field Value} {events : List (UpdateEvent Field Value)}
    (hrun : Run step Uncontended s events s') (hstart : s.inFlight = []) (hshown : s.Converged)
    (hcomments : true ∈ s.cache.kinds → s.isComment = true) (hend : s'.inFlight = []) :
    s'.Converged := by
  have hs : s.Steady := by
    refine ⟨hcomments, fun _ => hshown, ?_, ?_⟩
    · rw [hstart]
      exact fun m hm => absurd hm List.not_mem_nil
    · rw [hstart]
      exact fun m hm => nomatch hm
  have hsteady : s'.Steady :=
    hrun.invariant (fun _ e _ hs huncontended h => steady_step e hs huncontended h) hs
  exact hsteady.converged hend

/-- Data that is to be fetched anew or not. -/
structure CachedAnswer (α : Type) where
  value : α
  isInvalidated : Bool

namespace CachedAnswer

variable {α : Type}

/-- A new answer. -/
def write (_ : Option (CachedAnswer α)) (a : α) : CachedAnswer α :=
  ⟨a, false⟩

/-- The answer is to be fetched anew. -/
def invalidate (query : CachedAnswer α) : CachedAnswer α :=
  ⟨query.value, true⟩

theorem value_write (query : Option (CachedAnswer α)) (a : α) : (write query a).value = a :=
  rfl

theorem isInvalidated_write (query : Option (CachedAnswer α)) (a : α) :
    (write query a).isInvalidated = false :=
  rfl

private theorem value_invalidate (query : CachedAnswer α) : query.invalidate.value = query.value :=
  rfl

theorem isInvalidated_invalidate (query : CachedAnswer α) :
    query.invalidate.isInvalidated = true :=
  rfl

instance : QueryClient CachedAnswer where
  data := value
  isInvalidated := isInvalidated
  setQueryData := write
  invalidateQuery := invalidate
  refetchQuery query := write (some query)
  data_set := value_write
  isInvalidated_set := isInvalidated_write
  data_invalidate := value_invalidate
  isInvalidated_invalidate := isInvalidated_invalidate
  data_refetch query := value_write (some query)
  isInvalidated_refetch query := isInvalidated_write (some query)

end CachedAnswer

/-- An object with a text only. -/
def textFields (text : String) : Fields String String :=
  fun f => if f = "content" then some text else none

/-- A content alone covers only the content. -/
theorem covers_textFields {memo : Fields String String} (h : (memo "content").isSome)
    (text : String) : Covers memo (textFields text) := by
  intro f hf
  apply if_neg
  rintro rfl
  rw [hf] at h
  cases h

/-- A memo that is shown under its key and in a list. -/
def shownMemo : MemoClient CachedAnswer String String where
  isComment := false
  cache :=
    { detail := some ⟨⟨textFields "a", false⟩⟩
      collections := [⟨false, ⟨[textFields "a"], false⟩⟩] }
  inFlight := []
  server := textFields "a"

theorem shownMemo_converged : shownMemo.Converged := by
  constructor
  · intro query hquery
    rcases Option.some.inj hquery with rfl
    exact Or.inr rfl
  · intro query hquery
    rcases List.mem_singleton.mp hquery with rfl
    exact Or.inr fun memo hmemo => List.mem_singleton.mp hmemo

/-- Of two updates that overlap the first fails and the second succeeds; a later one fails. -/
theorem cache_converges_overlapping :
    ∃ s, Run step Uncontended shownMemo
        [.onMutate (textFields "b"), .onMutate (textFields "c"), .onError 0,
          .onSuccess 0 (textFields "c"), .refetchCollection 0 1, .onMutate (textFields "d"),
          .onError 0] s ∧
      s.server = textFields "c" ∧ s.Converged := by
  have hrun : ∃ s, Run step Uncontended shownMemo
      [.onMutate (textFields "b"), .onMutate (textFields "c"), .onError 0,
        .onSuccess 0 (textFields "c"), .refetchCollection 0 1, .onMutate (textFields "d"),
        .onError 0] s ∧ s.inFlight = [] ∧ s.server = textFields "c" := by
    refine ⟨_, .cons ?_ rfl (.cons ?_ rfl (.cons ?_ rfl (.cons trivial rfl (.cons trivial rfl
      (.cons ?_ rfl (.cons ?_ rfl (.nil _))))))), rfl, rfl⟩
    · intro memo hmemo
      rcases Option.some.inj hmemo with rfl
      exact covers_textFields rfl "b"
    · intro memo hmemo
      rcases Option.some.inj hmemo with rfl
      exact covers_textFields rfl "c"
    · intro hlength
      exact absurd hlength (by decide)
    · intro memo hmemo
      rcases Option.some.inj hmemo with rfl
      exact covers_textFields rfl "d"
    · intro _ m hm _
      rcases Option.some.inj hm with rfl
      exact ⟨rfl, rfl⟩
  rcases hrun with ⟨s, hrun, hend, hserver⟩
  have hcomments : true ∈ shownMemo.cache.kinds → shownMemo.isComment = true :=
    fun h => absurd h (by decide)
  exact ⟨s, hrun, hserver, cache_converges hrun rfl shownMemo_converged hcomments hend⟩

/-- An update that fails after a later one has succeeded shows the memo as it was before both. -/
theorem cache_rolled_back :
    ¬∀ (s s' : MemoClient CachedAnswer String String) (events : List (UpdateEvent String String)),
      FreeRun step s events s' → s.inFlight = [] → s.Converged →
        (true ∈ s.cache.kinds → s.isComment = true) → s'.inFlight = [] → s'.Converged := by
  intro h
  have hrun : ∃ s, FreeRun step shownMemo
      [.onMutate (textFields "b"), .onMutate (textFields "c"), .onSuccess 1 (textFields "c"),
        .onError 0] s ∧ s.inFlight = [] ∧ s.cache.detail = some ⟨⟨textFields "a", false⟩⟩ ∧
          s.server = textFields "c" :=
    ⟨_, .cons trivial rfl (.cons trivial rfl (.cons trivial rfl (.cons trivial rfl (.nil _)))),
      rfl, rfl, rfl⟩
  rcases hrun with ⟨s, hrun, hend, hdetail, hserver⟩
  have hconverged := h _ _ _ hrun rfl shownMemo_converged (fun h => absurd h (by decide)) hend
  rcases hconverged.1 _ hdetail with hinvalid | hmemo
  · cases hinvalid
  · rw [hserver] at hmemo
    exact absurd (congrFun hmemo "content") (by decide)

end Web
end MemosNote
