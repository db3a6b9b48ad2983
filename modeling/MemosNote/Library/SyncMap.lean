import Mathlib.Data.Finset.Card

/-!
# A map that is changed while it is ranged over

A concurrent map takes every access as one step.  A call that ranges over it visits no key twice
and visits every key that is stored from its start to its end; a key that comes or goes in between
may be visited or not.  To tell the keys apart, the map remembers since when each is stored.

Main results:

- Theorem {lit}`size_store` and Theorem {lit}`size_delete`: how an access changes the number of
  keys.
- Theorem {lit}`Dated.store`: every key is stored since an earlier change.
- Definition {lit}`SyncMap.exhausted`: when a call that ranges over the map may end.
-/

namespace MemosNote
namespace Library

/-- A map with the change since which each key is stored. -/
structure SyncMap (κ ν : Type) where
  load : κ → Option ν
  keys : Finset κ
  mem_keys : ∀ k, k ∈ keys ↔ (load k).isSome
  since : κ → ℕ
  changes : ℕ

/-- A call that ranges over a map: when it started and what it visited. -/
structure RangeCall (κ : Type) where
  start : ℕ
  visited : List κ

namespace SyncMap

variable {κ ν : Type}

def empty : SyncMap κ ν where
  load _ := none
  keys := ∅
  mem_keys _ := by simp
  since _ := 0
  changes := 0

def size (m : SyncMap κ ν) : ℕ :=
  m.keys.card

variable [DecidableEq κ]

def store (m : SyncMap κ ν) (k : κ) (v : ν) : SyncMap κ ν where
  load := fun j => if j = k then some v else m.load j
  keys := insert k m.keys
  mem_keys j := by
    rw [Finset.mem_insert]
    split_ifs with hj
    · simp [hj]
    · simp [hj, m.mem_keys]
  since := fun j => if j = k ∧ (m.load k).isNone then m.changes else m.since j
  changes := m.changes + 1

def delete (m : SyncMap κ ν) (k : κ) : SyncMap κ ν where
  load := fun j => if j = k then none else m.load j
  keys := m.keys.erase k
  mem_keys j := by
    rw [Finset.mem_erase]
    split_ifs with hj
    · simp [hj]
    · simp [hj, m.mem_keys]
  since := m.since
  changes := m.changes + 1

/-! ## The number of keys -/

theorem size_store {m : SyncMap κ ν} {k : κ} (h : m.load k = none) (v : ν) :
    (m.store k v).size = m.size + 1 := by
  apply Finset.card_insert_of_notMem
  rw [m.mem_keys, h]
  simp

theorem size_delete {m : SyncMap κ ν} {k : κ} (h : (m.load k).isSome) :
    (m.delete k).size + 1 = m.size :=
  Finset.card_erase_add_one ((m.mem_keys k).mpr h)

theorem size_delete_le (m : SyncMap κ ν) (k : κ) : (m.delete k).size ≤ m.size :=
  Finset.card_erase_le

/-! ## Since when keys are stored -/

/-- Every key is stored since an earlier change. -/
def Dated (m : SyncMap κ ν) : Prop :=
  ∀ k ∈ m.keys, m.since k < m.changes

omit [DecidableEq κ] in
theorem dated_empty : (empty : SyncMap κ ν).Dated :=
  fun k hk => absurd hk (Finset.notMem_empty k)

theorem Dated.store {m : SyncMap κ ν} (h : m.Dated) (k : κ) (v : ν) : (m.store k v).Dated := by
  intro j hj
  change (if j = k ∧ (m.load k).isNone then m.changes else m.since j) < m.changes + 1
  split_ifs with hnew
  · exact Nat.lt_succ_self _
  · rcases Finset.mem_insert.mp hj with rfl | hj
    · have hstored : (m.load j).isSome := by
        simpa [Option.isSome_iff_ne_none] using hnew
      exact Nat.lt_succ_of_lt (h j ((m.mem_keys j).mpr hstored))
    · exact Nat.lt_succ_of_lt (h j hj)

theorem Dated.delete {m : SyncMap κ ν} (h : m.Dated) (k : κ) : (m.delete k).Dated :=
  fun j hj => Nat.lt_succ_of_lt (h j (Finset.mem_of_mem_erase hj))

/-! ## Calls that range over the map -/

def beginRange (m : SyncMap κ ν) : RangeCall κ where
  start := m.changes
  visited := []

/-- The call goes on to a key that it did not visit. -/
def visit (m : SyncMap κ ν) (call : RangeCall κ) (k : κ) : Option (RangeCall κ × ν) :=
  if k ∈ call.visited then none
  else (m.load k).map fun v => ({ call with visited := call.visited ++ [k] }, v)

/-- The call has visited all keys that are stored since before its start. -/
def exhausted (m : SyncMap κ ν) (call : RangeCall κ) : Prop :=
  ∀ k ∈ m.keys, m.since k < call.start → k ∈ call.visited

instance (m : SyncMap κ ν) (call : RangeCall κ) : Decidable (m.exhausted call) :=
  inferInstanceAs (Decidable (∀ k ∈ m.keys, m.since k < call.start → k ∈ call.visited))

end SyncMap

end Library
end MemosNote
