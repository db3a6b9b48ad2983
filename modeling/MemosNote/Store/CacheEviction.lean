import MemosNote.Library.BoundedSelection
import MemosNote.Store.CacheItems

/-!
# The items that are evicted

When a cache is over its limit, one pass over its items selects those that expire first, whichever
way the pass goes, and they are deleted.

Main results:

- Definition {lit}`cleanupOldest`: the eviction, for an order of the keys.
- Theorem {lit}`newestIdx_spec`: the candidate that is replaced.
- Theorem {lit}`evictsOldest_iff`: when the eviction deletes as many items as it should, and none
  that expires later than one it leaves.
- Theorem {lit}`cleanupOldest_of_run`: the steps of a call that nothing interrupts are an eviction
  for some order.
-/

namespace MemosNote
namespace Store

open Library

variable {α : Type} {config : CacheConfig} {c : ItemCache α}

/-- The candidates after a visit of a key. -/
def visitOldest (config : CacheConfig) (c : ItemCache α) (candidates : List KeyExpPair)
    (key : String) : List KeyExpPair :=
  match c.data.load key with
  | none => candidates
  | some item => considerOldest (evictionThreshold config) candidates ⟨key, item.expiration⟩

/-- The candidates after the keys are visited in an order. -/
def oldestCandidates (config : CacheConfig) (c : ItemCache α) (order : List String) :
    List KeyExpPair :=
  order.foldl (visitOldest config c) []

/-- The map without the keys of candidates. -/
def deleteCandidates (data : SyncMap String (CacheItem α)) (candidates : List KeyExpPair) :
    SyncMap String (CacheItem α) :=
  candidates.foldl (fun data candidate => data.delete candidate.key) data

def cleanupOldest (config : CacheConfig) (order : List String) (c : ItemCache α) : ItemCache α :=
  if c.itemCount ≤ config.MaxItems then c
  else
    let candidates := oldestCandidates config c order
    { c with
      data := deleteCandidates c.data candidates
      itemCount := c.itemCount - candidates.length }

/-! ## The candidate that is replaced -/

theorem expirationAt_of_lt {candidates : List KeyExpPair} {i : ℕ} (h : i < candidates.length) :
    expirationAt candidates i = candidates[i].expiration := by
  rw [expirationAt, List.getElem?_eq_getElem h]
  rfl

/-- Up to an index, the search has found a candidate that expires last. -/
theorem newest_of_range (candidates : List KeyExpPair) (n : ℕ) :
    let newest := (List.range n).foldl
      (fun newest i =>
        if expirationAt candidates newest < expirationAt candidates i then i else newest) 0
    newest ≤ n - 1 ∧ ∀ i < n, expirationAt candidates i ≤ expirationAt candidates newest := by
  induction n with
  | zero => exact ⟨Nat.le_refl 0, fun i hi => absurd hi (Nat.not_lt_zero i)⟩
  | succ n ih =>
      rw [List.range_succ, List.foldl_append, List.foldl_cons, List.foldl_nil]
      dsimp only at ih ⊢
      split
      · rename_i hlater
        refine ⟨le_rfl, fun i hi => ?_⟩
        rcases Nat.lt_succ_iff_lt_or_eq.mp hi with hi | rfl
        · exact (ih.2 i hi).trans hlater.le
        · exact le_rfl
      · rename_i hlater
        refine ⟨ih.1.trans (by omega), fun i hi => ?_⟩
        rcases Nat.lt_succ_iff_lt_or_eq.mp hi with hi | rfl
        · exact ih.2 i hi
        · exact not_lt.mp hlater

/-- The candidate that is replaced expires last. -/
theorem newestIdx_spec {candidates : List KeyExpPair} (h : candidates ≠ []) :
    ∃ hi : newestIdx candidates < candidates.length,
      ∀ pair ∈ candidates, pair.expiration ≤ candidates[newestIdx candidates].expiration := by
  have hpos := List.length_pos_iff.mpr h
  have hrange := newest_of_range candidates candidates.length
  have hi : newestIdx candidates < candidates.length := by
    have hle : newestIdx candidates ≤ candidates.length - 1 := hrange.1
    omega
  refine ⟨hi, fun pair hpair => ?_⟩
  rcases List.mem_iff_getElem.mp hpair with ⟨j, hj, rfl⟩
  have hle : expirationAt candidates j ≤ expirationAt candidates (newestIdx candidates) :=
    hrange.2 j hj
  rw [expirationAt_of_lt hj, expirationAt_of_lt hi] at hle
  exact hle

private theorem evictionThreshold_pos (config : CacheConfig) : 0 < evictionThreshold config := by
  rw [evictionThreshold]
  omega

/-- One more item is considered. -/
theorem considerOldest_selected {seen candidates : List KeyExpPair} {threshold : ℕ}
    (hthreshold : 0 < threshold) (h : Selected KeyExpPair.expiration threshold seen candidates)
    (pair : KeyExpPair) :
    Selected KeyExpPair.expiration threshold (seen ++ [pair])
      (considerOldest threshold candidates pair) := by
  rw [considerOldest]
  by_cases hroom : candidates.length < threshold
  · rw [if_pos hroom]
    exact h.keep hroom pair
  have hfull := not_lt.mp hroom
  have hne : candidates ≠ [] := List.length_pos_iff.mp (hthreshold.trans_le hfull)
  rcases newestIdx_spec hne with ⟨hi, hnewest⟩
  rw [if_neg hroom, expirationAt_of_lt hi]
  by_cases hearlier : pair.expiration < candidates[newestIdx candidates].expiration
  · rw [if_pos hearlier]
    exact h.replace hfull hi hnewest hearlier
  · rw [if_neg hearlier]
    exact h.skip hfull fun b hb => (hnewest b hb).trans (not_lt.mp hearlier)

/-- The items of keys, as the pass sees them. -/
def itemPairs (c : ItemCache α) (order : List String) : List KeyExpPair :=
  order.filterMap fun key => (c.data.load key).map fun item => ⟨key, item.expiration⟩

/-- The pass selects the items that expire first. -/
theorem oldestCandidates_selected (config : CacheConfig) (c : ItemCache α) (order : List String) :
    Selected KeyExpPair.expiration (evictionThreshold config) (itemPairs c order)
      (oldestCandidates config c order) := by
  induction order using List.reverseRecOn with
  | nil => exact .nil _ _
  | append_singleton order key ih =>
      rw [oldestCandidates, List.foldl_append, List.foldl_cons, List.foldl_nil, visitOldest,
        itemPairs, List.filterMap_append]
      cases hload : c.data.load key with
      | none =>
          rw [List.filterMap_cons_none (by rw [hload]; rfl), List.filterMap_nil, List.append_nil]
          exact ih
      | some item =>
          rw [List.filterMap_cons_some (by rw [hload]; rfl), List.filterMap_nil]
          exact considerOldest_selected (evictionThreshold_pos config) ih _

/-! ## What is deleted -/

theorem load_deleteCandidates (data : SyncMap String (CacheItem α)) (candidates : List KeyExpPair)
    (key : String) :
    (deleteCandidates data candidates).load key =
      if key ∈ candidates.map KeyExpPair.key then none else data.load key := by
  induction candidates generalizing data with
  | nil => rfl
  | cons candidate rest ih =>
      rw [deleteCandidates, List.foldl_cons]
      refine (ih (data.delete candidate.key)).trans ?_
      rw [List.map_cons]
      by_cases hrest : key ∈ rest.map KeyExpPair.key
      · rw [if_pos hrest, if_pos (List.mem_cons_of_mem _ hrest)]
      · rw [if_neg hrest, SyncMap.delete]
        simp only [List.mem_cons, hrest, or_false]

theorem mem_keys_deleteCandidates {data : SyncMap String (CacheItem α)}
    {candidates : List KeyExpPair} {key : String} :
    key ∈ (deleteCandidates data candidates).keys ↔
      key ∈ data.keys ∧ key ∉ candidates.map KeyExpPair.key := by
  rw [SyncMap.mem_keys, SyncMap.mem_keys, load_deleteCandidates]
  by_cases hkey : key ∈ candidates.map KeyExpPair.key
  · simp [hkey]
  · simp [hkey]

/-- Every key of the pass has an item. -/
theorem map_key_itemPairs {order : List String} (h : ∀ key ∈ order, key ∈ c.data.keys) :
    (itemPairs c order).map KeyExpPair.key = order := by
  induction order with
  | nil => rfl
  | cons key rest ih =>
      have hload := (c.data.mem_keys key).mp (h key List.mem_cons_self)
      rcases Option.isSome_iff_exists.mp hload with ⟨item, hitem⟩
      rw [itemPairs, List.filterMap_cons_some (by rw [hitem]; rfl), List.map_cons]
      congr 1
      exact ih fun key hkey => h key (List.mem_cons_of_mem _ hkey)

theorem mem_itemPairs {order : List String} {pair : KeyExpPair} :
    pair ∈ itemPairs c order ↔ pair.key ∈ order ∧
      ∃ item, c.data.load pair.key = some item ∧ item.expiration = pair.expiration := by
  rw [itemPairs, List.mem_filterMap]
  constructor
  · intro h
    rcases h with ⟨key, hkey, hpair⟩
    rcases Option.map_eq_some_iff.mp hpair with ⟨item, hitem, rfl⟩
    exact ⟨hkey, item, hitem, rfl⟩
  · intro h
    rcases h with ⟨hkey, item, hitem, hexpiration⟩
    refine ⟨pair.key, hkey, Option.map_eq_some_iff.mpr ⟨item, hitem, ?_⟩⟩
    rw [hexpiration]

/-- An eviction deletes a fifth of the limit, at least one item and at most all, and what it leaves
expires no earlier than what it deletes. -/
structure EvictsOldest (config : CacheConfig) (c c' : ItemCache α) : Prop where
  keys : c'.data.keys ⊆ c.data.keys
  count : (c.data.keys \ c'.data.keys).card =
    min (max (config.MaxItems.tdiv 5) 1).toNat c.data.keys.card
  kept : ∀ key ∈ c'.data.keys, c'.data.load key = c.data.load key
  oldest : ∀ key ∈ c.data.keys \ c'.data.keys, ∀ item, c.data.load key = some item →
    ∀ key' item', c'.data.load key' = some item' → item.expiration ≤ item'.expiration

/-- With the counter above the limit, an eviction in any order of the keys deletes the oldest. -/
theorem evictsOldest_of_itemCount {order : List String} (hnodup : order.Nodup)
    (hkeys : ∀ key, key ∈ order ↔ key ∈ c.data.keys) (habove : config.MaxItems < c.itemCount) :
    EvictsOldest config c (cleanupOldest config order c) := by
  have hrun : (cleanupOldest config order c).data =
      deleteCandidates c.data (oldestCandidates config c order) := by
    rw [cleanupOldest, if_neg (not_le.mpr habove)]
  have hselected := oldestCandidates_selected config c order
  rcases hselected.smallest with ⟨left, hperm, hsmallest⟩
  have hpairs := map_key_itemPairs fun key hkey => (hkeys key).mp hkey
  have hmapped := hperm.map KeyExpPair.key
  rw [hpairs, List.map_append] at hmapped
  have hcandidates := (List.nodup_append.mp (hmapped.nodup_iff.mpr hnodup)).1
  have hlength : (itemPairs c order).length = c.data.keys.card := by
    have horder : order.toFinset = c.data.keys := by
      ext key
      rw [List.mem_toFinset, hkeys]
    rw [← horder, List.toFinset_card_of_nodup hnodup, ← hpairs, List.length_map, hpairs]
  have hdeleted : c.data.keys \ (deleteCandidates c.data (oldestCandidates config c order)).keys =
      ((oldestCandidates config c order).map KeyExpPair.key).toFinset := by
    ext key
    rw [Finset.mem_sdiff, mem_keys_deleteCandidates, List.mem_toFinset]
    constructor
    · intro h
      by_contra hkey
      exact h.2 ⟨h.1, hkey⟩
    · intro h
      have hmem := hmapped.subset (List.mem_append_left _ h)
      exact ⟨(hkeys key).mp hmem, fun hleft => hleft.2 h⟩
  constructor <;> rw [hrun]
  · exact fun key hkey => (mem_keys_deleteCandidates.mp hkey).1
  · rw [hdeleted, List.toFinset_card_of_nodup hcandidates, List.length_map, hselected.length,
      hlength, evictionThreshold]
  · intro key hkey
    rw [load_deleteCandidates, if_neg (mem_keys_deleteCandidates.mp hkey).2]
  · intro key hkey item hitem key' item' hitem'
    rw [hdeleted, List.mem_toFinset] at hkey
    rcases List.mem_map.mp hkey with ⟨pair, hpair, rfl⟩
    rw [load_deleteCandidates] at hitem'
    split at hitem'
    · cases hitem'
    · rename_i hsurvives
      have hkey' : key' ∈ order := by
        rw [hkeys, SyncMap.mem_keys, hitem']
        rfl
      have hseen : (⟨key', item'.expiration⟩ : KeyExpPair) ∈ itemPairs c order :=
        mem_itemPairs.mpr ⟨hkey', item', hitem', rfl⟩
      have hpair' : (⟨key', item'.expiration⟩ : KeyExpPair) ∈ left := by
        rcases List.mem_append.mp (hperm.symm.subset hseen) with hmem | hmem
        · exact absurd (List.mem_map_of_mem hmem) hsurvives
        · exact hmem
      rcases mem_itemPairs.mp (hperm.subset (List.mem_append_left _ hpair)) with
        ⟨-, item₀, hitem₀, hexpiration⟩
      rw [hitem] at hitem₀
      cases hitem₀
      rw [hexpiration]
      exact hsmallest pair hpair _ hpair'

/-- An eviction in any order of the keys deletes the oldest if and only if the counter is above the
limit, or nothing is stored. -/
theorem evictsOldest_iff {order : List String} (hnodup : order.Nodup)
    (hkeys : ∀ key, key ∈ order ↔ key ∈ c.data.keys) :
    EvictsOldest config c (cleanupOldest config order c) ↔
      config.MaxItems < c.itemCount ∨ c.data.keys = ∅ := by
  constructor
  · intro hevicts
    by_contra hnot
    rw [not_or] at hnot
    have hcount := hevicts.count
    rw [cleanupOldest, if_pos (not_lt.mp hnot.1), Finset.sdiff_self, Finset.card_empty] at hcount
    have hstored : 0 < c.data.keys.card :=
      Finset.card_pos.mpr (Finset.nonempty_iff_ne_empty.mpr hnot.2)
    omega
  · rintro (habove | hempty)
    · exact evictsOldest_of_itemCount hnodup hkeys habove
    · by_cases habove : config.MaxItems < c.itemCount
      · exact evictsOldest_of_itemCount hnodup hkeys habove
      · rw [cleanupOldest, if_pos (not_lt.mp habove)]
        constructor
        · exact Finset.Subset.refl _
        · simp [hempty]
        · exact fun _ _ => rfl
        · simp

/-- Four items, two of which expire first. -/
def fullCache : ItemCache ℕ where
  data := (((SyncMap.empty.store "a" ⟨1, 40⟩).store "b" ⟨2, 10⟩).store "c" ⟨3, 30⟩).store "d"
    ⟨4, 10⟩
  itemCount := 4
  now := 0

theorem evictsOldest_iff_ties :
    EvictsOldest ⟨600, 3⟩ fullCache (cleanupOldest ⟨600, 3⟩ ["a", "b", "c", "d"] fullCache) := by
  have hkeys (key : String) : key ∈ ["a", "b", "c", "d"] ↔ key ∈ fullCache.data.keys := by
    simp [fullCache, SyncMap.store, SyncMap.empty]
    tauto
  have habove : (⟨600, 3⟩ : CacheConfig).MaxItems < fullCache.itemCount := by decide
  exact (evictsOldest_iff (by decide) hkeys).mpr (Or.inl habove)

/-- Two operations get one expired item, and both count it as gone; then two items are set. -/
def doubleGetSteps : List (CacheStep ℕ) :=
  [.call (.SetWithTTL "a" 1 0), .next 0, .next 0, .next 0, .next 0, .next 0, .tick 1,
    .call (.Get "a"), .call (.Get "a"), .next 1, .next 2, .next 1, .next 2, .next 1, .next 2,
    .next 1, .next 2, .call (.Set "b" 2), .next 3, .next 3, .next 3, .next 3, .next 3,
    .call (.Set "c" 3), .next 4, .next 4, .next 4, .next 4, .next 4]

/-- A cache at rest may hold more items than the limit while its counter does not show it: nothing
is evicted then. -/
theorem evicts_none : ∃ s, FreeRun (CacheSystem.step ⟨600, 1⟩) (.New 0) doubleGetSteps s ∧
    s.atRest = true ∧ s.cache.itemCount = 1 ∧ s.cache.data.size = 2 ∧
      (∀ key, key ∈ ["b", "c"] ↔ key ∈ s.cache.data.keys) ∧
        ¬EvictsOldest ⟨600, 1⟩ s.cache (cleanupOldest ⟨600, 1⟩ ["b", "c"] s.cache) := by
  have hrun : ∃ s, FreeRun (CacheSystem.step ⟨600, 1⟩) (.New 0) doubleGetSteps s ∧
      s.atRest = true ∧ s.cache.itemCount = 1 ∧ s.cache.data.keys = {"c", "b"} :=
    ⟨_, Run.of_exec rfl, rfl, rfl, rfl⟩
  rcases hrun with ⟨s, hrun, hrest, hcount, hkeys⟩
  have hsize : s.cache.data.size = 2 := by
    rw [SyncMap.size, hkeys]
    rfl
  have hsame : cleanupOldest ⟨600, 1⟩ ["b", "c"] s.cache = s.cache := by
    rw [cleanupOldest, if_pos (le_of_eq hcount)]
  refine ⟨s, hrun, hrest, hcount, hsize, fun key => ?_, fun hevicts => ?_⟩
  · simp [hkeys, or_comm]
  have hnone := hevicts.count
  rw [hsame, Finset.sdiff_self, Finset.card_empty, ← SyncMap.size, hsize] at hnone
  exact absurd hnone (by decide)

/-! ## A call that nothing interrupts -/

/-- The step is one of a call. -/
def CacheStep.isOf (i : ℕ) : CacheStep α → Prop
  | .next j => j = i
  | .visit j _ => j = i
  | _ => False

/-- A step of a call leaves the other calls alone. -/
theorem step_isOf {s s' : CacheSystem α} {e : CacheStep α} {i : ℕ} {phase : CallPhase α}
    (he : e.isOf i) (hi : s.calls[i]? = some phase) (h : s.step config e = some s') :
    ∃ phase', s'.calls[i]? = some phase' ∧
      (phase.next config s.cache = some (s'.cache, phase') ∨
        s'.cache = s.cache ∧ ∃ key, phase.visit config s.cache key = some phase') := by
  rcases List.getElem?_eq_some_iff.mp hi with ⟨hlt, -⟩
  cases e with
  | next j =>
      rcases (he : j = i) with rfl
      rw [CacheSystem.step, hi] at h
      rcases Option.bind_eq_some_iff.mp h with ⟨_, ⟨rfl⟩, hrest⟩
      rcases Option.bind_eq_some_iff.mp hrest with ⟨⟨c, phase'⟩, hnext, hsome⟩
      rcases Option.some.inj hsome with rfl
      exact ⟨phase', List.getElem?_set_self hlt, Or.inl hnext⟩
  | visit j key =>
      rcases (he : j = i) with rfl
      rw [CacheSystem.step, hi] at h
      rcases Option.bind_eq_some_iff.mp h with ⟨_, ⟨rfl⟩, hrest⟩
      rcases Option.bind_eq_some_iff.mp hrest with ⟨phase', hvisit, hsome⟩
      rcases Option.some.inj hsome with rfl
      exact ⟨phase', List.getElem?_set_self hlt, Or.inr ⟨rfl, key, hvisit⟩⟩
  | tick d => exact he.elim
  | call call => exact he.elim

/-- What is left to do of an eviction, from a phase of the call. -/
def evictionEnds (config : CacheConfig) (c c' : ItemCache α) : CallPhase α → Prop
  | .done _ => c' = c
  | .oldestCount deletedCount => c' = { c with itemCount := c.itemCount - deletedCount }
  | .oldestDelete candidates deletedCount =>
      c' = { c with
        data := deleteCandidates c.data candidates
        itemCount := c.itemCount - (deletedCount + candidates.length : ℕ) }
  | .oldestRange call candidates =>
      candidates = oldestCandidates config c call.visited → call.visited.Nodup →
        (∀ key ∈ call.visited, key ∈ c.data.keys) →
          ∃ order, order.Nodup ∧ (∀ key ∈ order, key ∈ c.data.keys) ∧
            (∀ key ∈ c.data.keys, c.data.since key < call.start → key ∈ order) ∧
            c' = { c with
              data := deleteCandidates c.data (oldestCandidates config c order)
              itemCount := c.itemCount - (oldestCandidates config c order).length }
  | .oldestBegin => c.data.Dated →
      ∃ order, order.Nodup ∧ (∀ key, key ∈ order ↔ key ∈ c.data.keys) ∧
        c' = { c with
          data := deleteCandidates c.data (oldestCandidates config c order)
          itemCount := c.itemCount - (oldestCandidates config c order).length }
  | .oldestLoad => c.data.Dated →
      ∃ order, order.Nodup ∧ (∀ key, key ∈ order ↔ key ∈ c.data.keys) ∧
        c' = cleanupOldest config order c
  | _ => True

private theorem visitOldest_of_load {key : String} {item : CacheItem α}
    (h : c.data.load key = some item)
    (candidates : List KeyExpPair) : visitOldest config c candidates key =
      considerOldest (evictionThreshold config) candidates ⟨key, item.expiration⟩ := by
  rw [visitOldest, h]

/-- A step of the call does what is left to do before it. -/
theorem evictionEnds_next {c c₁ c' : ItemCache α} {phase phase₁ : CallPhase α}
    (h : phase.next config c = some (c₁, phase₁)) (hends : evictionEnds config c₁ c' phase₁) :
    evictionEnds config c c' phase := by
  cases phase with
  | oldestCount deletedCount =>
      rcases Option.some.inj h with ⟨rfl, rfl⟩
      exact hends
  | oldestDelete candidates deletedCount =>
      cases candidates with
      | nil =>
          rcases Option.some.inj h with ⟨rfl, rfl⟩
          split_ifs at hends with hcount
          · rw [evictionEnds] at hends
            rw [evictionEnds, hends]
            rfl
          · rw [evictionEnds] at hends
            rw [evictionEnds, hends, Nat.eq_zero_of_not_pos hcount]
            simp [deleteCandidates]
      | cons candidate candidates =>
          rcases Option.some.inj h with ⟨rfl, rfl⟩
          rw [evictionEnds] at hends
          rw [evictionEnds, hends, List.length_cons, Nat.add_right_comm, Nat.add_assoc]
          rfl
  | oldestRange call candidates =>
      rw [CallPhase.next] at h
      split_ifs at h with hexhausted
      rcases Option.some.inj h with ⟨rfl, rfl⟩
      dsimp only [evictionEnds] at hends ⊢
      intro hcandidates hnodup hkeys
      refine ⟨call.visited, hnodup, hkeys, hexhausted, ?_⟩
      rw [hends, hcandidates, Nat.zero_add]
  | oldestBegin =>
      rcases Option.some.inj h with ⟨rfl, rfl⟩
      intro hdated
      rcases hends rfl List.nodup_nil (fun key hkey => absurd hkey List.not_mem_nil) with
        ⟨order, hnodup, hkeys, hall, hcache⟩
      exact ⟨order, hnodup, fun key => ⟨hkeys key, fun hkey => hall key hkey (hdated key hkey)⟩,
        hcache⟩
  | oldestLoad =>
      rcases Option.some.inj h with ⟨rfl, rfl⟩
      intro hdated
      split_ifs at hends with hbelow
      · refine ⟨c.data.keys.toList, Finset.nodup_toList _, fun key => Finset.mem_toList, ?_⟩
        rw [cleanupOldest, if_pos hbelow]
        exact hends
      · rcases hends hdated with ⟨order, hnodup, hkeys, hcache⟩
        refine ⟨order, hnodup, hkeys, ?_⟩
        rw [cleanupOldest, if_neg hbelow]
        exact hcache
  | done result => cases h
  | _ => trivial

/-- A visit of a key does what is left to do before it. -/
theorem evictionEnds_visit {c' : ItemCache α} {phase phase₁ : CallPhase α} {key : String}
    (h : phase.visit config c key = some phase₁) (hends : evictionEnds config c c' phase₁) :
    evictionEnds config c c' phase := by
  cases phase with
  | oldestRange call candidates =>
      rcases Option.map_eq_some_iff.mp h with ⟨⟨call₁, item⟩, hvisit, rfl⟩
      rw [SyncMap.visit] at hvisit
      split_ifs at hvisit with hnew
      rcases Option.map_eq_some_iff.mp hvisit with ⟨found, hload, hpair⟩
      cases hpair
      intro hcandidates hnodup hkeys
      apply hends
      · rw [oldestCandidates, List.foldl_append, List.foldl_cons, List.foldl_nil,
          visitOldest_of_load hload, hcandidates]
        rfl
      · exact hnodup.append (List.nodup_singleton key) (List.disjoint_singleton.mpr hnew)
      · intro other hother
        rcases List.mem_append.mp hother with hother | hother
        · exact hkeys other hother
        · rw [List.mem_singleton.mp hother, c.data.mem_keys, hload]
          rfl
  | clearRange | cleanupRange => trivial
  | _ => cases h

/-- The steps of a call that nothing interrupts evict items, in some order. -/
theorem cleanupOldest_of_callRun {s s' : CacheSystem α} {steps : List (CacheStep α)} {i : ℕ}
    {result : Option α}
    (hrun : Run (CacheSystem.step config) (fun _ e => e.isOf i) s steps s')
    (hdated : s.cache.data.Dated) (hstart : s.calls[i]? = some .oldestLoad)
    (hend : s'.calls[i]? = some (.done result)) :
    ∃ order, order.Nodup ∧ (∀ key, key ∈ order ↔ key ∈ s.cache.data.keys) ∧
      s'.cache = cleanupOldest config order s.cache := by
  have hends : ∀ phase, s.calls[i]? = some phase →
      evictionEnds config s.cache s'.cache phase := by
    clear hstart hdated
    induction hrun with
    | nil =>
        intro phase hphase
        rw [hend] at hphase
        rcases Option.some.inj hphase with rfl
        rfl
    | cons hguard hstep hrest ih =>
        intro phase hphase
        rcases step_isOf hguard hphase hstep with ⟨phase₁, hphase₁, hnext | ⟨hcache, key, hvisit⟩⟩
        · exact evictionEnds_next hnext (ih hend phase₁ hphase₁)
        · have hrestEnds := ih hend phase₁ hphase₁
          rw [hcache] at hrestEnds
          exact evictionEnds_visit hvisit hrestEnds
  exact hends _ hstart hdated

/-! ## The maps of caches are dated -/

/-- A step of a call changes the map by one access at most. -/
theorem next_data {c c' : ItemCache α} {phase phase' : CallPhase α}
    (h : phase.next config c = some (c', phase')) : c'.data = c.data ∨
      (∃ key, c'.data = c.data.delete key) ∨ ∃ key item, c'.data = c.data.store key item := by
  cases phase with
  | setDelete key value ttl =>
      rcases Option.some.inj h with ⟨rfl, rfl⟩
      exact Or.inr (Or.inl ⟨key, rfl⟩)
  | setStore key item =>
      rcases Option.some.inj h with ⟨rfl, rfl⟩
      exact Or.inr (Or.inr ⟨key, item, rfl⟩)
  | getDelete key =>
      rcases Option.some.inj h with ⟨rfl, rfl⟩
      exact Or.inr (Or.inl ⟨key, rfl⟩)
  | clearDelete call key =>
      rcases Option.some.inj h with ⟨rfl, rfl⟩
      exact Or.inr (Or.inl ⟨key, rfl⟩)
  | cleanupDelete call count key =>
      rcases Option.some.inj h with ⟨rfl, rfl⟩
      exact Or.inr (Or.inl ⟨key, rfl⟩)
  | deleteLoad key =>
      rw [CallPhase.next] at h
      split_ifs at h
      · rcases Option.some.inj h with ⟨rfl, rfl⟩
        exact Or.inr (Or.inl ⟨key, rfl⟩)
      · rcases Option.some.inj h with ⟨rfl, rfl⟩
        exact Or.inl rfl
  | oldestDelete candidates deletedCount =>
      cases candidates with
      | nil =>
          rcases Option.some.inj h with ⟨rfl, rfl⟩
          exact Or.inl rfl
      | cons candidate candidates =>
          rcases Option.some.inj h with ⟨rfl, rfl⟩
          exact Or.inr (Or.inl ⟨candidate.key, rfl⟩)
  | oldestRange | clearRange | cleanupRange =>
      rw [CallPhase.next] at h
      split_ifs at h
      all_goals
        rcases Option.some.inj h with ⟨rfl, rfl⟩
        exact Or.inl rfl
  | done result => cases h
  | _ =>
      rcases Option.some.inj h with ⟨rfl, rfl⟩
      exact Or.inl rfl

private theorem dated_step {s s' : CacheSystem α} (e : CacheStep α) (hs : s.cache.data.Dated)
    (h : s.step config e = some s') : s'.cache.data.Dated := by
  cases e with
  | tick d =>
      rcases Option.some.inj h with rfl
      exact hs
  | call call =>
      rcases Option.some.inj h with rfl
      exact hs
  | visit i key =>
      rcases Option.bind_eq_some_iff.mp h with ⟨phase, -, hrest⟩
      rcases Option.bind_eq_some_iff.mp hrest with ⟨phase', -, hsome⟩
      rcases Option.some.inj hsome with rfl
      exact hs
  | next i =>
      rcases Option.bind_eq_some_iff.mp h with ⟨phase, -, hrest⟩
      rcases Option.bind_eq_some_iff.mp hrest with ⟨⟨c, phase'⟩, hnext, hsome⟩
      rcases Option.some.inj hsome with rfl
      dsimp only
      rcases next_data hnext with hsame | ⟨key, hdelete⟩ | ⟨key, item, hstore⟩
      · rw [hsame]
        exact hs
      · rw [hdelete]
        exact hs.delete key
      · rw [hstore]
        exact hs.store key item

/-- In every state of a cache, the eviction that a call makes when nothing interrupts it is the one
of some order. -/
theorem cleanupOldest_of_run {now : ℤ} {s s' : CacheSystem α} {before steps : List (CacheStep α)}
    {i : ℕ} {result : Option α} (hbefore : FreeRun (CacheSystem.step config) (.New now) before s)
    (hrun : Run (CacheSystem.step config) (fun _ e => e.isOf i) s steps s')
    (hstart : s.calls[i]? = some .oldestLoad) (hend : s'.calls[i]? = some (.done result)) :
    ∃ order, order.Nodup ∧ (∀ key, key ∈ order ↔ key ∈ s.cache.data.keys) ∧
      s'.cache = cleanupOldest config order s.cache := by
  have hdated : s.cache.data.Dated :=
    hbefore.invariant (fun _ e _ hs _ h => dated_step e hs h) SyncMap.dated_empty
  exact cleanupOldest_of_callRun hrun hdated hstart hend

end Store
end MemosNote
