import MemosNote.Library.Ledger
import MemosNote.Library.Run
import MemosNote.Library.SyncMap

/-!
# The number of items in a cache

A cache is a concurrent map and a counter of its items.  Its operations access the map and the
counter in separate steps, so that the steps of several operations interleave.

Main results:

- Theorem {lit}`itemCount_eq_size`: while every step still finds what its operation read, the
  counter of a cache at rest is the number of its keys, within the limit.
- Theorem {lit}`itemCount_drifts`: two operations that set one key count it twice.
-/

namespace MemosNote
namespace Store

open Library

/-! ## The cache -/

structure CacheConfig where
  DefaultTTL : ℤ
  MaxItems : ℤ
deriving DecidableEq, Repr

/-- A cached value with its expiration. -/
structure CacheItem (α : Type) where
  value : α
  expiration : ℤ
deriving DecidableEq, Repr

/-- The memory of a cache, and the clock. -/
structure ItemCache (α : Type) where
  data : SyncMap String (CacheItem α)
  itemCount : ℤ
  now : ℤ

/-- A candidate for eviction. -/
structure KeyExpPair where
  key : String
  expiration : ℤ
deriving DecidableEq, Repr

/-- The calls of a cache; the last one is periodic. -/
inductive CacheCall (α : Type) where
  | Set (key : String) (value : α)
  | SetWithTTL (key : String) (value : α) (ttl : ℤ)
  | Get (key : String)
  | Delete (key : String)
  | Clear
  | cleanup

/-- What a call does next. -/
inductive CallPhase (α : Type) where
  | setLoad (key : String) (value : α) (ttl : ℤ)
  | setDelete (key : String) (value : α) (ttl : ℤ)
  | setCount (key : String) (value : α) (ttl : ℤ)
  | setNow (key : String) (value : α) (ttl : ℤ)
  | setStore (key : String) (item : CacheItem α)
  | setLimit
  | oldestLoad
  | oldestBegin
  | oldestRange (call : RangeCall String) (candidates : List KeyExpPair)
  | oldestDelete (candidates : List KeyExpPair) (deletedCount : ℕ)
  | oldestCount (deletedCount : ℕ)
  | getLoad (key : String)
  | getNow (key : String) (item : CacheItem α)
  | getDelete (key : String)
  | getCount
  | deleteLoad (key : String)
  | deleteCount
  | clearBegin
  | clearRange (call : RangeCall String)
  | clearDelete (call : RangeCall String) (key : String)
  | clearCount
  | cleanupBegin
  | cleanupRange (call : RangeCall String) (count : ℕ)
  | cleanupNow (call : RangeCall String) (count : ℕ) (key : String) (item : CacheItem α)
  | cleanupDelete (call : RangeCall String) (count : ℕ) (key : String)
  | cleanupCount (count : ℕ)
  | done (result : Option α)

/-- The cache with its calls. -/
structure CacheSystem (α : Type) where
  cache : ItemCache α
  calls : List (CallPhase α)

/-- Time passes, a call begins, a call goes on, or a call that ranges over the map goes on to a
key. -/
inductive CacheStep (α : Type) where
  | tick (d : ℕ)
  | call (call : CacheCall α)
  | next (i : ℕ)
  | visit (i : ℕ) (key : String)

/-! ## The candidates for eviction -/

/-- The number of items that are evicted at once. -/
def evictionThreshold (config : CacheConfig) : ℕ :=
  (max (config.MaxItems.tdiv 5) 1).toNat

def expirationAt (candidates : List KeyExpPair) (i : ℕ) : ℤ :=
  (candidates[i]?.map KeyExpPair.expiration).getD 0

/-- The first of the candidates that expire last. -/
def newestIdx (candidates : List KeyExpPair) : ℕ :=
  (List.range candidates.length).foldl
    (fun newest i =>
      if expirationAt candidates newest < expirationAt candidates i then i else newest) 0

/-- The candidates after another item. -/
def considerOldest (threshold : ℕ) (candidates : List KeyExpPair) (pair : KeyExpPair) :
    List KeyExpPair :=
  if candidates.length < threshold then candidates ++ [pair]
  else if pair.expiration < expirationAt candidates (newestIdx candidates) then
    candidates.set (newestIdx candidates) pair
  else candidates

/-! ## The steps of the calls -/

variable {α : Type}

def CacheCall.start (config : CacheConfig) : CacheCall α → CallPhase α
  | Set key value => .setLoad key value config.DefaultTTL
  | SetWithTTL key value ttl => .setLoad key value ttl
  | Get key => .getLoad key
  | Delete key => .deleteLoad key
  | Clear => .clearBegin
  | cleanup => .cleanupBegin

/-- The next step of a call; while it ranges over the map, the end of that. -/
def CallPhase.next (config : CacheConfig) (c : ItemCache α) :
    CallPhase α → Option (ItemCache α × CallPhase α)
  | setLoad key value ttl =>
      some (c, if (c.data.load key).isSome then .setDelete key value ttl
        else .setCount key value ttl)
  | setDelete key value ttl => some ({ c with data := c.data.delete key }, .setNow key value ttl)
  | setCount key value ttl => some ({ c with itemCount := c.itemCount + 1 }, .setNow key value ttl)
  | setNow key value ttl => some (c, .setStore key ⟨value, c.now + ttl⟩)
  | setStore key item => some ({ c with data := c.data.store key item }, .setLimit)
  | setLimit =>
      some (c, if 0 < config.MaxItems ∧ config.MaxItems < c.itemCount then .oldestLoad
        else .done none)
  | oldestLoad => some (c, if c.itemCount ≤ config.MaxItems then .done none else .oldestBegin)
  | oldestBegin => some (c, .oldestRange c.data.beginRange [])
  | oldestRange call candidates =>
      if c.data.exhausted call then some (c, .oldestDelete candidates 0) else none
  | oldestDelete [] deletedCount =>
      some (c, if 0 < deletedCount then .oldestCount deletedCount else .done none)
  | oldestDelete (candidate :: candidates) deletedCount =>
      some ({ c with data := c.data.delete candidate.key },
        .oldestDelete candidates (deletedCount + 1))
  | oldestCount deletedCount =>
      some ({ c with itemCount := c.itemCount - deletedCount }, .done none)
  | getLoad key => some (c, (c.data.load key).elim (.done none) (.getNow key))
  | getNow key item =>
      some (c, if item.expiration < c.now then .getDelete key else .done (some item.value))
  | getDelete key => some ({ c with data := c.data.delete key }, .getCount)
  | getCount => some ({ c with itemCount := c.itemCount - 1 }, .done none)
  | deleteLoad key =>
      if (c.data.load key).isSome then some ({ c with data := c.data.delete key }, .deleteCount)
      else some (c, .done none)
  | deleteCount => some ({ c with itemCount := c.itemCount - 1 }, .done none)
  | clearBegin => some (c, .clearRange c.data.beginRange)
  | clearRange call => if c.data.exhausted call then some (c, .clearCount) else none
  | clearDelete call key => some ({ c with data := c.data.delete key }, .clearRange call)
  | clearCount => some ({ c with itemCount := 0 }, .done none)
  | cleanupBegin => some (c, .cleanupRange c.data.beginRange 0)
  | cleanupRange call count =>
      if c.data.exhausted call then
        some (c, if 0 < count then .cleanupCount count else .done none)
      else none
  | cleanupNow call count key item =>
      some (c, if item.expiration < c.now then .cleanupDelete call count key
        else .cleanupRange call count)
  | cleanupDelete call count key =>
      some ({ c with data := c.data.delete key }, .cleanupRange call (count + 1))
  | cleanupCount count => some ({ c with itemCount := c.itemCount - count }, .done none)
  | done _ => none

/-- A call that ranges over the map goes on to a key. -/
def CallPhase.visit (config : CacheConfig) (c : ItemCache α) (key : String) :
    CallPhase α → Option (CallPhase α)
  | oldestRange call candidates =>
      (c.data.visit call key).map fun (call, item) => .oldestRange call
        (considerOldest (evictionThreshold config) candidates ⟨key, item.expiration⟩)
  | clearRange call => (c.data.visit call key).map fun (call, _) => .clearDelete call key
  | cleanupRange call count =>
      (c.data.visit call key).map fun (call, item) => .cleanupNow call count key item
  | _ => none

namespace CacheSystem

/-- A new cache. -/
def New (now : ℤ) : CacheSystem α where
  cache := { data := .empty, itemCount := 0, now := now }
  calls := []

def step (config : CacheConfig) (s : CacheSystem α) : CacheStep α → Option (CacheSystem α)
  | .tick d => some { s with cache := { s.cache with now := s.cache.now + d } }
  | .call call => some { s with calls := s.calls ++ [call.start config] }
  | .next i => do
      let phase ← s.calls[i]?
      let (cache, phase) ← phase.next config s.cache
      pure ⟨cache, s.calls.set i phase⟩
  | .visit i key => do
      let phase ← s.calls[i]?
      let phase ← phase.visit config s.cache key
      pure { s with calls := s.calls.set i phase }

end CacheSystem

/-- The call has returned. -/
def CallPhase.isDone : CallPhase α → Bool
  | done _ => true
  | _ => false

/-- No call is in flight. -/
def CacheSystem.atRest (s : CacheSystem α) : Bool :=
  s.calls.all CallPhase.isDone

/-! ## What calls owe -/

/-- What the counter is ahead of the map by, for a call. -/
def CallPhase.owed : CallPhase α → ℕ
  | setNow _ _ _ | setStore _ _ | getCount | deleteCount => 1
  | oldestDelete _ n | oldestCount n => n
  | cleanupRange _ n | cleanupNow _ n _ _ | cleanupDelete _ n _ | cleanupCount n => n
  | _ => 0

/-- The keys that a call is about to store. -/
def CallPhase.reserved : CallPhase α → ℕ
  | setNow _ _ _ | setStore _ _ => 1
  | _ => 0

/-- The keys that a call is about to evict if there are too many. -/
def CallPhase.credit : CallPhase α → ℕ
  | setNow _ _ _ | setStore _ _ | setLimit | oldestLoad | oldestBegin | oldestRange _ _ => 1
  | oldestDelete (_ :: _) 0 => 1
  | _ => 0

/-- The call clears the map, after which it resets the counter. -/
def CallPhase.clears : CallPhase α → Bool
  | clearBegin | clearRange _ | clearDelete _ _ | clearCount => true
  | _ => false

/-- The step finds in the map what the call read of it: a key that is deleted is stored, a key that
is stored is new, and only an empty map has nothing to evict.  The counter is reset when nothing is
stored and no call is between the map and the counter. -/
def CallPhase.finds (s : CacheSystem α) : CallPhase α → Bool
  | setDelete key _ _ | getDelete key | cleanupDelete _ _ key => (s.cache.data.load key).isSome
  | oldestDelete (candidate :: _) _ => (s.cache.data.load candidate.key).isSome
  | setStore key _ => (s.cache.data.load key).isNone
  | oldestRange _ [] => s.cache.data.size = 0
  | clearCount => s.cache.data.size = 0 && s.calls.all fun other => other.owed = 0
  | _ => true

/-- The step of a call finds what the call read. -/
def CacheSystem.undisturbed (s : CacheSystem α) : CacheStep α → Bool
  | .next i => s.calls[i]?.all (CallPhase.finds s)
  | _ => true

/-! ## One step -/

variable {config : CacheConfig} {s s' : CacheSystem α} {c : ItemCache α}
  {phase phase' : CallPhase α}

/-- A step deletes a stored key, which the call owes then. -/
theorem count_delete {key : String} (hkey : (s.cache.data.load key).isSome)
    (howed : phase'.owed = phase.owed + 1) :
    s.cache.itemCount - (s.cache.data.delete key).size - phase'.owed =
      s.cache.itemCount - s.cache.data.size - phase.owed := by
  have hsize := SyncMap.size_delete hkey
  omega

/-- The counter is ahead of the map by what is owed, before and after a step. -/
theorem next_count (hfinds : phase.finds s = true) (hclears : phase.clears = false)
    (h : phase.next config s.cache = some (c, phase')) :
    c.itemCount - c.data.size - phase'.owed =
        s.cache.itemCount - s.cache.data.size - phase.owed ∧ phase'.clears = false := by
  cases phase with
  | setDelete key value ttl =>
      rcases Option.some.inj h with ⟨rfl, rfl⟩
      exact ⟨count_delete hfinds rfl, rfl⟩
  | setStore key item =>
      rcases Option.some.inj h with ⟨rfl, rfl⟩
      have hsize := SyncMap.size_store (Option.isNone_iff_eq_none.mp hfinds) item
      simp [CallPhase.owed, CallPhase.clears]
      omega
  | oldestDelete candidates deletedCount =>
      cases candidates with
      | nil =>
          rcases Option.some.inj h with ⟨rfl, rfl⟩
          split_ifs with hcount
          · exact ⟨rfl, rfl⟩
          · simp [CallPhase.owed, CallPhase.clears]
            omega
      | cons candidate candidates =>
          rcases Option.some.inj h with ⟨rfl, rfl⟩
          exact ⟨count_delete hfinds rfl, rfl⟩
  | getDelete key =>
      rcases Option.some.inj h with ⟨rfl, rfl⟩
      exact ⟨count_delete hfinds rfl, rfl⟩
  | getLoad key =>
      rcases Option.some.inj h with ⟨rfl, rfl⟩
      cases s.cache.data.load key <;> exact ⟨rfl, rfl⟩
  | deleteLoad key =>
      rw [CallPhase.next] at h
      split_ifs at h with hkey
      · rcases Option.some.inj h with ⟨rfl, rfl⟩
        exact ⟨count_delete hkey rfl, rfl⟩
      · rcases Option.some.inj h with ⟨rfl, rfl⟩
        exact ⟨rfl, rfl⟩
  | cleanupDelete call count key =>
      rcases Option.some.inj h with ⟨rfl, rfl⟩
      exact ⟨count_delete hfinds rfl, rfl⟩
  | oldestRange call candidates =>
      rw [CallPhase.next] at h
      split_ifs at h
      rcases Option.some.inj h with ⟨rfl, rfl⟩
      exact ⟨rfl, rfl⟩
  | cleanupRange call count =>
      rw [CallPhase.next] at h
      split_ifs at h with _ hcount
      · rcases Option.some.inj h with ⟨rfl, rfl⟩
        exact ⟨rfl, rfl⟩
      · rcases Option.some.inj h with ⟨rfl, rfl⟩
        simp [CallPhase.owed, CallPhase.clears]
        omega
  | clearBegin | clearRange | clearDelete | clearCount => cases hclears
  | done result => cases h
  | setCount | oldestCount | getCount | deleteCount | cleanupCount =>
      rcases Option.some.inj h with ⟨rfl, rfl⟩
      simp [CallPhase.owed, CallPhase.clears]
      omega
  | setLoad | setLimit | oldestLoad | getNow | cleanupNow =>
      rcases Option.some.inj h with ⟨rfl, rfl⟩
      split_ifs <;> exact ⟨rfl, rfl⟩
  | setNow | oldestBegin | cleanupBegin =>
      rcases Option.some.inj h with ⟨rfl, rfl⟩
      exact ⟨rfl, rfl⟩

/-- A step of a call that clears the map. -/
theorem next_clears (hclears : phase.clears = true)
    (h : phase.next config s.cache = some (c, phase')) :
    phase'.owed = phase.owed ∧ (phase = .clearCount ∧ c.itemCount = 0 ∧ c.data = s.cache.data ∨
      c.itemCount = s.cache.itemCount ∧ c.data.size ≤ s.cache.data.size ∧
        phase'.clears = true) := by
  cases phase with
  | clearBegin =>
      rcases Option.some.inj h with ⟨rfl, rfl⟩
      exact ⟨rfl, Or.inr ⟨rfl, le_rfl, rfl⟩⟩
  | clearRange call =>
      rw [CallPhase.next] at h
      split_ifs at h
      rcases Option.some.inj h with ⟨rfl, rfl⟩
      exact ⟨rfl, Or.inr ⟨rfl, le_rfl, rfl⟩⟩
  | clearDelete call key =>
      rcases Option.some.inj h with ⟨rfl, rfl⟩
      exact ⟨rfl, Or.inr ⟨rfl, SyncMap.size_delete_le _ key, rfl⟩⟩
  | clearCount =>
      rcases Option.some.inj h with ⟨rfl, rfl⟩
      exact ⟨rfl, Or.inl ⟨rfl, rfl, rfl⟩⟩
  | _ => cases hclears

/-- A step takes a key more for a call only if the call is about to look at the limit, and a call
gives that up only when an item is gone, the counter is within the limit, or the map is empty. -/
theorem next_room (hfinds : phase.finds s = true)
    (h : phase.next config s.cache = some (c, phase')) :
    c.data.size + phase'.reserved + phase.credit ≤
        s.cache.data.size + phase.reserved + phase'.credit ∨
      c.data = s.cache.data ∧ phase'.reserved = phase.reserved ∧
        (0 < config.MaxItems → s.cache.itemCount ≤ config.MaxItems ∨
          s.cache.data.size = 0) := by
  cases phase with
  | setDelete key value ttl =>
      rcases Option.some.inj h with ⟨rfl, rfl⟩
      have hsize := SyncMap.size_delete hfinds
      left
      simp [CallPhase.reserved, CallPhase.credit]
      omega
  | setStore key item =>
      rcases Option.some.inj h with ⟨rfl, rfl⟩
      have hsize := SyncMap.size_store (Option.isNone_iff_eq_none.mp hfinds) item
      left
      simp [CallPhase.reserved, CallPhase.credit]
      omega
  | setLimit =>
      rcases Option.some.inj h with ⟨rfl, rfl⟩
      split_ifs with hlimit
      · exact Or.inl le_rfl
      · exact Or.inr ⟨rfl, rfl, fun hmax => Or.inl (by omega)⟩
  | oldestLoad =>
      rcases Option.some.inj h with ⟨rfl, rfl⟩
      split_ifs with hlimit
      · exact Or.inr ⟨rfl, rfl, fun _ => Or.inl hlimit⟩
      · exact Or.inl le_rfl
  | oldestRange call candidates =>
      rw [CallPhase.next] at h
      split_ifs at h
      rcases Option.some.inj h with ⟨rfl, rfl⟩
      cases candidates with
      | nil => exact Or.inr ⟨rfl, rfl, fun _ => Or.inr (of_decide_eq_true hfinds)⟩
      | cons candidate candidates => exact Or.inl le_rfl
  | oldestDelete candidates deletedCount =>
      cases candidates with
      | nil =>
          rcases Option.some.inj h with ⟨rfl, rfl⟩
          left
          split_ifs <;> exact le_rfl
      | cons candidate candidates =>
          rcases Option.some.inj h with ⟨rfl, rfl⟩
          have hsize := SyncMap.size_delete hfinds
          left
          cases deletedCount <;> cases candidates <;>
            simp [CallPhase.reserved, CallPhase.credit] <;> omega
  | getDelete key =>
      rcases Option.some.inj h with ⟨rfl, rfl⟩
      exact Or.inl (SyncMap.size_delete_le _ key)
  | getLoad key =>
      rcases Option.some.inj h with ⟨rfl, rfl⟩
      left
      cases s.cache.data.load key <;> exact le_rfl
  | deleteLoad key =>
      rw [CallPhase.next] at h
      left
      split_ifs at h with hkey
      · rcases Option.some.inj h with ⟨rfl, rfl⟩
        exact SyncMap.size_delete_le _ key
      · rcases Option.some.inj h with ⟨rfl, rfl⟩
        exact le_rfl
  | clearRange call =>
      rw [CallPhase.next] at h
      split_ifs at h
      rcases Option.some.inj h with ⟨rfl, rfl⟩
      exact Or.inl le_rfl
  | clearDelete call key =>
      rcases Option.some.inj h with ⟨rfl, rfl⟩
      exact Or.inl (SyncMap.size_delete_le _ key)
  | cleanupRange call count =>
      rw [CallPhase.next] at h
      left
      split_ifs at h
      · rcases Option.some.inj h with ⟨rfl, rfl⟩
        exact le_rfl
      · rcases Option.some.inj h with ⟨rfl, rfl⟩
        exact le_rfl
  | cleanupDelete call count key =>
      rcases Option.some.inj h with ⟨rfl, rfl⟩
      exact Or.inl (SyncMap.size_delete_le _ key)
  | done result => cases h
  | setLoad | getNow | cleanupNow =>
      rcases Option.some.inj h with ⟨rfl, rfl⟩
      left
      split_ifs <;> exact le_rfl
  | setCount | setNow | oldestBegin | oldestCount | getCount | deleteCount | clearBegin |
      clearCount | cleanupBegin | cleanupCount =>
      rcases Option.some.inj h with ⟨rfl, rfl⟩
      exact Or.inl le_rfl

/-- A visit of a key leaves what a call owes as it is. -/
theorem visit_owed {key : String} (h : phase.visit config c key = some phase') :
    phase'.owed = phase.owed ∧ phase'.reserved = phase.reserved ∧ phase'.credit = phase.credit ∧
      phase'.clears = phase.clears := by
  cases phase with
  | oldestRange call candidates | clearRange call | cleanupRange call count =>
      rcases Option.map_eq_some_iff.mp h with ⟨entry, -, rfl⟩
      exact ⟨rfl, rfl, rfl, rfl⟩
  | _ => cases h

/-! ## Runs -/

private theorem reserved_le_owed (phase : CallPhase α) : phase.reserved ≤ phase.owed := by
  cases phase <;> simp [CallPhase.reserved, CallPhase.owed]

private theorem reserved_le_credit (phase : CallPhase α) : phase.reserved ≤ phase.credit := by
  cases phase <;> simp [CallPhase.reserved, CallPhase.credit]

/-- The counter is ahead of the map by what the calls owe, or by more while one clears the map, and
there is room for the keys but for those that calls are about to evict. -/
structure CacheSystem.Balanced (config : CacheConfig) (s : CacheSystem α) : Prop where
  le : s.cache.data.size + total CallPhase.owed s.calls ≤ s.cache.itemCount
  eq : (∀ phase ∈ s.calls, phase.clears = false) →
    s.cache.itemCount = s.cache.data.size + total CallPhase.owed s.calls
  room : 0 < config.MaxItems → (s.cache.data.size + total CallPhase.reserved s.calls : ℤ) ≤
    config.MaxItems + total CallPhase.credit s.calls

/-- When the counter is reset, nothing is stored or owed. -/
theorem settled_of_clearCount (hfinds : CallPhase.clearCount.finds s = true) :
    s.cache.data.size = 0 ∧ total CallPhase.owed s.calls = 0 := by
  rcases Bool.and_eq_true_iff.mp hfinds with ⟨hsize, hothers⟩
  exact ⟨of_decide_eq_true hsize, total_eq_zero fun other hother =>
    of_decide_eq_true (List.all_eq_true.mp hothers other hother)⟩

private theorem balanced_next {i : ℕ} (hs : s.Balanced config) (hi : s.calls[i]? = some phase)
    (hfinds : phase.finds s = true) (h : phase.next config s.cache = some (c, phase')) :
    CacheSystem.Balanced config ⟨c, s.calls.set i phase'⟩ := by
  have howed := total_set CallPhase.owed hi phase'
  have hreserved := total_set CallPhase.reserved hi phase'
  have hcredit := total_set CallPhase.credit hi phase'
  have hmem : phase ∈ s.calls := List.mem_of_getElem? hi
  have hmem' : phase' ∈ s.calls.set i phase' := by
    rcases List.getElem?_eq_some_iff.mp hi with ⟨hlt, -⟩
    exact List.mem_set hlt phase'
  have hbelow : total CallPhase.reserved s.calls ≤ total CallPhase.owed s.calls :=
    total_le reserved_le_owed s.calls
  have hle := hs.le
  constructor
  · dsimp only
    cases hclears : phase.clears with
    | false =>
        have hcount := (next_count hfinds hclears h).1
        omega
    | true =>
        rcases next_clears hclears h with ⟨hsame, ⟨rfl, hzero, hdata⟩ | ⟨hcount, hsize, -⟩⟩
        · rcases settled_of_clearCount hfinds with ⟨hempty, hnone⟩
          rw [hdata]
          omega
        · omega
  · intro hnone
    dsimp only at hnone ⊢
    cases hclears : phase.clears with
    | false =>
        have hcount := (next_count hfinds hclears h).1
        have hbefore := hs.eq fun other hother => by
          rcases mem_set_of_mem phase' hi hother with rfl | hrest
          · exact hclears
          · exact hnone other hrest
        omega
    | true =>
        rcases next_clears hclears h with ⟨hsame, ⟨rfl, hzero, hdata⟩ | ⟨-, -, hclears'⟩⟩
        · rcases settled_of_clearCount hfinds with ⟨hempty, htotal⟩
          rw [hdata]
          omega
        · rw [hnone phase' hmem'] at hclears'
          cases hclears'
  · intro hmax
    have hroom := hs.room hmax
    dsimp only
    rcases next_room hfinds h with hchange | ⟨hdata, hsame, hlimit⟩
    · omega
    · rcases hlimit hmax with hcount | hempty
      · rw [hdata]
        omega
      · have hafter : total CallPhase.reserved (s.calls.set i phase') ≤
            total CallPhase.credit (s.calls.set i phase') :=
          total_le reserved_le_credit _
        rw [hdata, hempty]
        omega

private theorem start_owes (config : CacheConfig) (call : CacheCall α) :
    (call.start config).owed = 0 ∧
    (call.start config).reserved = 0 ∧ (call.start config).credit = 0 := by
  cases call <;> exact ⟨rfl, rfl, rfl⟩

/-- A step in which a call finds what it read keeps the counter balanced. -/
theorem balanced_step (e : CacheStep α) (hs : s.Balanced config) (hfinds : s.undisturbed e = true)
    (h : s.step config e = some s') : s'.Balanced config := by
  cases e with
  | tick d =>
      rcases Option.some.inj h with rfl
      exact ⟨hs.le, hs.eq, hs.room⟩
  | call call =>
      rcases Option.some.inj h with rfl
      rcases start_owes config call with ⟨howed, hreserved, hcredit⟩
      have hle := hs.le
      constructor
      · simp [total_append, total_singleton, howed]
        omega
      · intro hnone
        have hbefore := hs.eq fun phase hphase => hnone phase (List.mem_append_left _ hphase)
        simp [total_append, total_singleton, howed]
        omega
      · intro hmax
        have hroom := hs.room hmax
        simp [total_append, total_singleton, hreserved, hcredit]
        omega
  | next i =>
      rw [CacheSystem.step] at h
      rcases Option.bind_eq_some_iff.mp h with ⟨phase, hi, hrest⟩
      rcases Option.bind_eq_some_iff.mp hrest with ⟨⟨c, phase'⟩, hnext, hsome⟩
      rcases Option.some.inj hsome with rfl
      rw [CacheSystem.undisturbed, hi] at hfinds
      exact balanced_next hs hi hfinds hnext
  | visit i key =>
      rw [CacheSystem.step] at h
      rcases Option.bind_eq_some_iff.mp h with ⟨phase, hi, hrest⟩
      rcases Option.bind_eq_some_iff.mp hrest with ⟨phase', hvisit, hsome⟩
      rcases Option.some.inj hsome with rfl
      rcases visit_owed hvisit with ⟨howed, hreserved, hcredit, hclears⟩
      have howed' := total_set CallPhase.owed hi phase'
      have hreserved' := total_set CallPhase.reserved hi phase'
      have hcredit' := total_set CallPhase.credit hi phase'
      have hle := hs.le
      constructor
      · dsimp only
        omega
      · intro hnone
        have hbefore := hs.eq fun other hother => by
          rcases mem_set_of_mem phase' hi hother with rfl | hrest
          · rcases List.getElem?_eq_some_iff.mp hi with ⟨hlt, -⟩
            rw [← hclears]
            exact hnone phase' (List.mem_set hlt phase')
          · exact hnone other hrest
        dsimp only
        omega
      · intro hmax
        have hroom := hs.room hmax
        dsimp only
        omega

private theorem balanced_New (now : ℤ) : (CacheSystem.New now : CacheSystem α).Balanced config where
  le := le_rfl
  eq _ := rfl
  room hmax := by
    have hempty : (CacheSystem.New now : CacheSystem α).cache.data.size = 0 := rfl
    rw [hempty]
    simpa [CacheSystem.New, total] using hmax.le

private theorem owes_of_done (hdone : phase.isDone = true) :
    phase.owed = 0 ∧ phase.credit = 0 ∧ phase.clears = false := by
  cases phase with
  | done result => exact ⟨rfl, rfl, rfl⟩
  | _ => cases hdone

/-- In a run in which every step finds what its operation read, the counter of a cache at rest is
the number of its keys, and within the limit. -/
theorem itemCount_eq_size {now : ℤ} {steps : List (CacheStep α)}
    (hrun : Run (CacheSystem.step config) (fun s e => s.undisturbed e = true) (.New now) steps s)
    (hrest : s.atRest = true) : s.cache.itemCount = s.cache.data.size ∧
      (0 < config.MaxItems → s.cache.itemCount ≤ config.MaxItems) := by
  have hbalanced : s.Balanced config :=
    hrun.invariant (fun _ e _ hs hfinds h => balanced_step e hs hfinds h) (balanced_New now)
  have hdone (phase : CallPhase α) (h : phase ∈ s.calls) :=
    owes_of_done (List.all_eq_true.mp hrest phase h)
  have howed : total CallPhase.owed s.calls = 0 := total_eq_zero fun phase h => (hdone phase h).1
  have hcredit : total CallPhase.credit s.calls = 0 :=
    total_eq_zero fun phase h => (hdone phase h).2.1
  have hcount := hbalanced.eq fun phase h => (hdone phase h).2.2
  constructor
  · omega
  · intro hmax
    have hroom := hbalanced.room hmax
    omega

/-- Two operations that set a key each, of which one evicts the other's. -/
def evictingSteps : List (CacheStep ℕ) :=
  [.call (.Set "a" 1), .call (.Set "b" 2), .next 0, .next 1, .next 0, .next 1, .next 0, .next 1,
    .next 0, .next 1, .next 0, .next 0, .next 0, .visit 0 "a", .visit 0 "b", .next 0, .next 0,
    .next 0, .next 0, .next 1]

theorem itemCount_eq_size_evicting :
    ∃ s, Run (CacheSystem.step ⟨600, 1⟩) (fun s e => s.undisturbed e = true) (.New 0)
        evictingSteps s ∧
      s.atRest = true ∧ s.cache.itemCount = s.cache.data.size ∧ s.cache.itemCount ≤ 1 := by
  have hrun : ∃ s, Run (CacheSystem.step ⟨600, 1⟩) (fun s e => s.undisturbed e = true) (.New 0)
      evictingSteps s ∧ s.atRest = true :=
    ⟨_, Run.of_exec rfl, rfl⟩
  rcases hrun with ⟨s, hrun, hrest⟩
  have hcount := itemCount_eq_size hrun hrest
  exact ⟨s, hrun, hrest, hcount.1, hcount.2 Int.one_pos⟩

/-- Two operations that set the same key. -/
def doubleSetSteps : List (CacheStep ℕ) :=
  [.call (.Set "a" 1), .call (.Set "a" 2), .next 0, .next 1, .next 0, .next 1, .next 0, .next 1,
    .next 0, .next 1, .next 0, .next 1]

/-- Two operations that set one key count it twice. -/
theorem itemCount_drifts :
    ¬∀ (config : CacheConfig) (steps : List (CacheStep ℕ)) (s : CacheSystem ℕ),
      FreeRun (CacheSystem.step config) (.New 0) steps s → s.atRest = true →
        s.cache.itemCount = s.cache.data.size ∧
          (0 < config.MaxItems → s.cache.itemCount ≤ config.MaxItems) := by
  have hrun : ∃ s, FreeRun (CacheSystem.step ⟨600, 1000⟩) (.New 0) doubleSetSteps s ∧
      s.atRest = true ∧ s.cache.itemCount = 2 ∧ s.cache.data.size = 1 :=
    ⟨_, Run.of_exec rfl, rfl, rfl, rfl⟩
  rcases hrun with ⟨s, hrun, hrest, hcount, hsize⟩
  intro h
  have hsame := (h _ _ _ hrun hrest).1
  rw [hcount, hsize] at hsame
  exact absurd hsame (by decide)

end Store
end MemosNote
