import Mathlib.Data.List.Induction
import Mathlib.Data.Nat.Notation
import Mathlib.Logic.Function.Basic
import MemosNote.Library.Run

/-!
# A cache beside a database

Operations access a database in one atomic step and a cache in others.  A lookup that
finds its entity in the cache answers from it; every other operation accesses the
database and then sets or deletes cache entries one by one.  Entries may be evicted
at any time.

A ghost history lists the values each entity has had, so that an answer can be
compared with the writes that had completed when its read started.

Main results:

- Structure {lit}`CacheAside.Coherent`: the invariant on entries, writers and readers.
- Theorem {lit}`CacheAside.coherent_step`: a step whose cache entry, if it sets one, is
  the stored value keeps it.
- Theorem {lit}`CacheAside.reads_fresh`: in a run of such steps no answer is older than a
  write that had completed before its read started.
-/

namespace MemosNote
namespace Library

/-- An access to the cache. -/
inductive CacheAction (κ ν : Type) where
  | set (k : κ) (v : ν)
  | delete (k : κ)
deriving DecidableEq, Repr

/-- The entity whose entry an access concerns. -/
def CacheAction.entity {κ ν : Type} : CacheAction κ ν → κ
  | set k _ => k
  | delete k => k

/-- What an operation does in the database, and the cache accesses that follow. -/
structure Access (D κ ν : Type) where
  database : D
  written : List κ := []
  actions : List (CacheAction κ ν) := []
  result : Option ν := none

/-- A store that keeps a cache beside its database: the entity an operation looks up in the
cache first, the entity whose value its result is, and its database access. -/
structure CacheClient (D κ χ ν Op : Type) where
  lookup : D → κ → Option ν
  cacheKey : κ → χ
  asks : Op → Option κ
  observes : Op → Option κ
  access : Op → D → Access D κ ν

/-- The laws of a store with a cache: distinct entities have distinct entries, an access
writes only what it says, follows every write with a cache access, and its result is the
stored value of the entity it observes. -/
structure CacheClient.Lawful {D κ χ ν Op : Type} (C : CacheClient D κ χ ν Op) : Prop where
  cacheKey_injective : Function.Injective C.cacheKey
  written_of_lookup_ne : ∀ op d k,
    C.lookup (C.access op d).database k ≠ C.lookup d k → k ∈ (C.access op d).written
  action_of_written : ∀ op d k, k ∈ (C.access op d).written →
    ∃ a ∈ (C.access op d).actions, a.entity = k
  result_eq : ∀ op d k, C.observes op = some k →
    (C.access op d).result = C.lookup (C.access op d).database k

/-- A read of an entity, with the number of the last write that had completed when it
started, and its answer. -/
structure CacheRead (κ ν : Type) where
  entity : κ
  since : ℕ
  value : Option ν

/-- How far an operation has come: it has missed the cache, or it has accessed the database
and has cache accesses left. -/
inductive CachePhase (κ ν Op : Type) where
  | idle
  | asked (op : Op) (observed : Option (κ × ℕ))
  | accessed (actions : List (CacheAction κ ν)) (writes : List (κ × ℕ))
      (answer : Option (CacheRead κ ν))

/-- The atomic steps. -/
inductive CacheEvent (χ Op : Type) where
  | start (p : ℕ) (op : Op)
  | access (p : ℕ)
  /-- The database access fails. -/
  | fail (p : ℕ)
  | act (p : ℕ)
  | finish (p : ℕ)
  | evict (entry : χ)
deriving DecidableEq, Repr

/-- The database, the cache and the operations under way, with the ghost history. -/
structure CacheAside (D κ χ ν Op : Type) where
  database : D
  cached : χ → Option ν
  phase : ℕ → CachePhase κ ν Op := fun _ => .idle
  /-- The values an entity had before the one it has. -/
  earlier : κ → List (Option ν) := fun _ => []
  /-- The number of the last completed write of an entity. -/
  completed : κ → ℕ := fun _ => 0
  reads : List (CacheRead κ ν) := []

namespace CacheAside

variable {D κ χ ν Op : Type} (C : CacheClient D κ χ ν Op)

/-- All values an entity has had, the stored one last. -/
def history (s : CacheAside D κ χ ν Op) (k : κ) : List (Option ν) :=
  s.earlier k ++ [C.lookup s.database k]

def setPhase (s : CacheAside D κ χ ν Op) (p : ℕ) (phase : CachePhase κ ν Op) :
    CacheAside D κ χ ν Op :=
  { s with phase := Function.update s.phase p phase }

/-- A value is not older than a write of the entity. -/
def NotOlder (s : CacheAside D κ χ ν Op) (k : κ) (write : ℕ) (v : Option ν) : Prop :=
  v ∈ (s.history C k).drop write

/-- No answer is older than a write that had completed before its read started. -/
def Fresh (s : CacheAside D κ χ ν Op) : Prop :=
  ∀ read ∈ s.reads, s.NotOlder C read.entity read.since read.value

/-- What an operation under way knows: the versions it writes exist and its entries, once
accessed, are not older; its answer is not older than its read. -/
def PhaseCoherent (s : CacheAside D κ χ ν Op) : CachePhase κ ν Op → Prop
  | .idle => True
  | .asked op observed => ∀ k n, observed = some (k, n) →
      C.observes op = some k ∧ n ≤ (s.earlier k).length
  | .accessed actions writes answer =>
      (∀ k n, (k, n) ∈ writes → n ≤ (s.earlier k).length ∧
        ((∃ a ∈ actions, a.entity = k) ∨
          ∀ v, s.cached (C.cacheKey k) = some v → s.NotOlder C k n (some v))) ∧
      ∀ read, answer = some read → s.NotOlder C read.entity read.since read.value

/-- The invariant on cache entries, operations under way and answers. -/
structure Coherent (s : CacheAside D κ χ ν Op) : Prop where
  completed_le : ∀ k, s.completed k ≤ (s.earlier k).length
  entry : ∀ k v, s.cached (C.cacheKey k) = some v → s.NotOlder C k (s.completed k) (some v)
  phase : ∀ p, s.PhaseCoherent C (s.phase p)
  reads : s.Fresh C

section

variable {C} {s s' : CacheAside D κ χ ν Op}

/-- The stored value is not older than any write. -/
theorem notOlder_lookup {k : κ} {n : ℕ} (hn : n ≤ (s.earlier k).length) :
    s.NotOlder C k n (C.lookup s.database k) := by
  unfold NotOlder history
  rw [List.drop_append_of_le_length hn]
  exact List.mem_append_right _ (List.mem_singleton_self _)

/-- Histories only grow, so nothing becomes older than a write that is already there. -/
theorem NotOlder.grow {k : κ} {n : ℕ} {v : Option ν} (h : s.NotOlder C k n v)
    (hgrow : s.history C k <+: s'.history C k) : s'.NotOlder C k n v := by
  obtain ⟨later, hlater⟩ := hgrow
  unfold NotOlder at h ⊢
  rw [← hlater, List.drop_append]
  exact List.mem_append_left _ h

/-! ## Frame lemmas -/

/-- A new phase of one operation keeps the invariant when the phase is coherent. -/
theorem Coherent.setPhase (h : s.Coherent C) (p : ℕ) {phase : CachePhase κ ν Op}
    (hphase : s.PhaseCoherent C phase) : (s.setPhase p phase).Coherent C := by
  constructor
  · exact h.completed_le
  · exact h.entry
  · intro q
    change s.PhaseCoherent C (Function.update s.phase p phase q)
    by_cases hq : q = p
    · rw [hq, Function.update_self]
      exact hphase
    · rw [Function.update_of_ne hq]
      exact h.phase q
  · exact h.reads

/-- New cache entries that are stored values keep a phase coherent. -/
theorem PhaseCoherent.recache {cached : χ → Option ν} {phase : CachePhase κ ν Op}
    (h : s.PhaseCoherent C phase)
    (hcached : ∀ k v, cached (C.cacheKey k) = some v →
      s.cached (C.cacheKey k) = some v ∨ C.lookup s.database k = some v) :
    PhaseCoherent C { s with cached := cached } phase := by
  cases phase with
  | idle => exact h
  | asked op observed => exact h
  | accessed actions writes answer =>
      refine ⟨fun k n hwrite => ?_, h.2⟩
      obtain ⟨hle, hentry⟩ := h.1 k n hwrite
      refine ⟨hle, hentry.imp_right fun hentry v hv => ?_⟩
      rcases hcached k v hv with hold | hstored
      · exact hentry v hold
      · exact hstored ▸ notOlder_lookup hle

/-- New cache entries that are stored values keep the invariant. -/
theorem Coherent.recache (h : s.Coherent C) {cached : χ → Option ν}
    (hcached : ∀ k v, cached (C.cacheKey k) = some v →
      s.cached (C.cacheKey k) = some v ∨ C.lookup s.database k = some v) :
    Coherent C { s with cached := cached } := by
  constructor
  · exact h.completed_le
  · intro k v hv
    rcases hcached k v hv with hold | hstored
    · exact h.entry k v hold
    · exact hstored ▸ notOlder_lookup (h.completed_le k)
  · exact fun p => (h.phase p).recache hcached
  · exact h.reads

/-- The store with nothing under way and entries that are stored values. -/
theorem coherent_initial {database : D} {cached : χ → Option ν}
    (hcached : ∀ k v, cached (C.cacheKey k) = some v → C.lookup database k = some v) :
    Coherent C { database := database, cached := cached } := by
  constructor
  · exact fun k => Nat.le_refl _
  · exact fun k v hv => hcached k v hv ▸ notOlder_lookup (Nat.le_refl _)
  · exact fun p => trivial
  · exact fun read hread => absurd hread List.not_mem_nil

end

/-! ## Cache accesses -/

section

variable [DecidableEq χ]

/-- The effect of a cache access. -/
def perform (cached : χ → Option ν) : CacheAction κ ν → χ → Option ν
  | .set k v => Function.update cached (C.cacheKey k) (some v)
  | .delete k => Function.update cached (C.cacheKey k) none

variable {C}

/-- After a cache access the entry of its entity, if there is one, is the one it set. -/
theorem perform_self {cached : χ → Option ν} {a : CacheAction κ ν} {v : ν}
    (hv : perform C cached a (C.cacheKey a.entity) = some v) : a = .set a.entity v := by
  cases a with
  | set k w =>
      simp only [perform, CacheAction.entity, Function.update_self, Option.some.injEq] at hv
      rw [CacheAction.entity, hv]
  | delete k => simp [perform, CacheAction.entity] at hv

/-- A cache access leaves the entries of other entities alone. -/
theorem perform_of_ne (hC : C.Lawful) (cached : χ → Option ν) (a : CacheAction κ ν) {k : κ}
    (hk : k ≠ a.entity) :
    perform C cached a (C.cacheKey k) = cached (C.cacheKey k) := by
  have hkey : C.cacheKey k ≠ C.cacheKey a.entity := fun heq => hk (hC.cacheKey_injective heq)
  cases a <;> exact Function.update_of_ne hkey _ _

end

/-! ## Database accesses -/

section

variable [DecidableEq κ]

/-- The completion of writes: each counter rises to the number of the write. -/
def complete (completed : κ → ℕ) (writes : List (κ × ℕ)) (k : κ) : ℕ :=
  writes.foldl (fun n write => if write.1 = k then max n write.2 else n) (completed k)

/-- A counter rises to its old value or to the number of one of the writes. -/
theorem complete_cases (completed : κ → ℕ) (writes : List (κ × ℕ)) (k : κ) :
    complete completed writes k = completed k ∨ (k, complete completed writes k) ∈ writes := by
  unfold complete
  induction writes using List.reverseRecOn with
  | nil => exact .inl rfl
  | append_singleton writes write ih =>
      obtain ⟨k', n⟩ := write
      rw [List.foldl_append]
      simp only [List.foldl_cons, List.foldl_nil, List.mem_append, List.mem_singleton]
      by_cases hk : k' = k
      · subst hk
        simp only [if_true]
        rcases Nat.le_total n (writes.foldl (fun n write =>
          if write.1 = k' then max n write.2 else n) (completed k')) with hle | hle
        · rw [Nat.max_eq_left hle]
          exact ih.imp_right .inl
        · rw [Nat.max_eq_right hle]
          exact .inr (.inr rfl)
      · rw [if_neg hk]
        exact ih.imp_right .inl

/-- The database access of an operation: written entities get a new version. -/
def accessed (s : CacheAside D κ χ ν Op) (p : ℕ) (op : Op) (observed : Option (κ × ℕ)) :
    CacheAside D κ χ ν Op :=
  let access := C.access op s.database
  { s with
    database := access.database
    earlier := fun k =>
      if k ∈ access.written then s.history C k else s.earlier k
    phase := Function.update s.phase p (.accessed access.actions
      (access.written.map fun k => (k, (s.earlier k).length + 1))
      (observed.map fun read => ⟨read.1, read.2, access.result⟩)) }

variable {C} {s : CacheAside D κ χ ν Op}

/-- An access only makes histories longer. -/
theorem history_accessed (hC : C.Lawful) (s : CacheAside D κ χ ν Op) (p : ℕ) (op : Op)
    (observed : Option (κ × ℕ)) (k : κ) :
    s.history C k <+: (s.accessed C p op observed).history C k := by
  by_cases hk : k ∈ (C.access op s.database).written
  · simp only [history, accessed, if_pos hk]
    exact List.prefix_append _ _
  · have hsame : C.lookup (C.access op s.database).database k = C.lookup s.database k := by
      by_contra hne
      exact hk (hC.written_of_lookup_ne op s.database k hne)
    simp only [history, accessed, if_neg hk, hsame]
    exact List.prefix_rfl

theorem earlier_accessed_le (s : CacheAside D κ χ ν Op) (p : ℕ) (op : Op)
    (observed : Option (κ × ℕ)) (k : κ) :
    (s.earlier k).length ≤ ((s.accessed C p op observed).earlier k).length := by
  by_cases hk : k ∈ (C.access op s.database).written
  · simp [accessed, history, hk]
  · simp [accessed, hk]

theorem phase_accessed_self (s : CacheAside D κ χ ν Op) (p : ℕ) (op : Op)
    (observed : Option (κ × ℕ)) :
    (s.accessed C p op observed).phase p =
      .accessed (C.access op s.database).actions
        ((C.access op s.database).written.map fun k => (k, (s.earlier k).length + 1))
        (observed.map fun read => ⟨read.1, read.2, (C.access op s.database).result⟩) :=
  Function.update_self _ _ _

theorem phase_accessed_of_ne (s : CacheAside D κ χ ν Op) {p q : ℕ} (op : Op)
    (observed : Option (κ × ℕ)) (hq : q ≠ p) :
    (s.accessed C p op observed).phase q = s.phase q :=
  Function.update_of_ne hq _ _

/-- An access keeps every phase coherent. -/
theorem PhaseCoherent.accessed (hC : C.Lawful) {phase : CachePhase κ ν Op}
    (h : s.PhaseCoherent C phase) (p : ℕ) (op : Op) (observed : Option (κ × ℕ)) :
    (s.accessed C p op observed).PhaseCoherent C phase := by
  have hle := earlier_accessed_le (C := C) s p op observed
  have hgrow := history_accessed hC s p op observed
  cases phase with
  | idle => trivial
  | asked op' observed' =>
      exact fun k n hobserved => ⟨(h k n hobserved).1, Nat.le_trans (h k n hobserved).2 (hle k)⟩
  | accessed actions writes answer =>
      refine ⟨fun k n hwrite => ?_, fun read hread => (h.2 read hread).grow (hgrow _)⟩
      obtain ⟨hn, hentry⟩ := h.1 k n hwrite
      exact ⟨Nat.le_trans hn (hle k), hentry.imp_right fun hentry v hv => (hentry v hv).grow (hgrow k)⟩

/-- The database access of an operation keeps the invariant. -/
theorem Coherent.accessed (hC : C.Lawful) (h : s.Coherent C) {p : ℕ} {op : Op}
    {observed : Option (κ × ℕ)} (hp : s.phase p = .asked op observed) :
    (s.accessed C p op observed).Coherent C := by
  have hle := earlier_accessed_le (C := C) s p op observed
  have hgrow := history_accessed hC s p op observed
  have hasked : s.PhaseCoherent C (.asked op observed) := hp ▸ h.phase p
  constructor
  · exact fun k => Nat.le_trans (h.completed_le k) (hle k)
  · exact fun k v hv => (h.entry k v hv).grow (hgrow k)
  · intro q
    by_cases hq : q = p
    · -- the operation itself: its versions are new and its result is the stored value
      rw [hq, phase_accessed_self]
      constructor
      · intro k n hwrite
        obtain ⟨k', hk', heq⟩ := List.mem_map.mp hwrite
        obtain ⟨rfl, rfl⟩ := Prod.mk.injEq .. ▸ heq
        refine ⟨?_, .inl (hC.action_of_written op s.database k' hk')⟩
        simp [CacheAside.accessed, history, hk']
      · intro read hread
        obtain ⟨⟨k, n⟩, hobserved, rfl⟩ := Option.map_eq_some_iff.mp hread
        obtain ⟨hobserves, hn⟩ := hasked k n hobserved
        rw [hC.result_eq op s.database k hobserves]
        exact notOlder_lookup (Nat.le_trans hn (hle k))
    · rw [phase_accessed_of_ne s op observed hq]
      exact (h.phase q).accessed hC p op observed
  · exact fun read hread => (h.reads read hread).grow (hgrow _)

/-- Finishing an operation keeps the invariant: the entries of what it wrote are not older
than its writes. -/
theorem coherent_finish (h : s.Coherent C) {p : ℕ} {writes : List (κ × ℕ)}
    {answer : Option (CacheRead κ ν)} (hp : s.phase p = .accessed [] writes answer) :
    Coherent C { s.setPhase p .idle with
      completed := complete s.completed writes
      reads := answer.toList ++ s.reads } := by
  obtain ⟨hwrites, hanswer⟩ : s.PhaseCoherent C (.accessed [] writes answer) := hp ▸ h.phase p
  have hidle : (s.setPhase p .idle).Coherent C := h.setPhase p trivial
  constructor
  · intro k
    rcases complete_cases s.completed writes k with hold | hnew
    · exact Nat.le_trans (Nat.le_of_eq hold) (h.completed_le k)
    · exact (hwrites k _ hnew).1
  · intro k v hv
    change s.NotOlder C k (complete s.completed writes k) (some v)
    rcases complete_cases s.completed writes k with hold | hnew
    · exact hold ▸ h.entry k v hv
    · rcases (hwrites k _ hnew).2 with ⟨a, ha, -⟩ | hentry
      · exact absurd ha List.not_mem_nil
      · exact hentry v hv
  · exact hidle.phase
  · intro read hread
    rcases List.mem_append.mp hread with hread | hread
    · exact hanswer read (Option.mem_toList.mp hread)
    · exact h.reads read hread

end

/-! ## Runs -/

section

variable [DecidableEq κ] [DecidableEq χ]

/-- One atomic step. -/
def step (s : CacheAside D κ χ ν Op) : CacheEvent χ Op → Option (CacheAside D κ χ ν Op)
  | .start p op =>
      match s.phase p with
      | .idle =>
          match (C.asks op).bind fun k => (s.cached (C.cacheKey k)).map (k, ·) with
          | some (k, v) => some { s with reads := ⟨k, s.completed k, some v⟩ :: s.reads }
          | none =>
              some (s.setPhase p (.asked op ((C.observes op).map fun k => (k, s.completed k))))
      | _ => none
  | .access p =>
      match s.phase p with
      | .asked op observed => some (s.accessed C p op observed)
      | _ => none
  | .fail p =>
      match s.phase p with
      | .asked _ _ => some (s.setPhase p .idle)
      | _ => none
  | .act p =>
      match s.phase p with
      | .accessed (a :: actions) writes answer =>
          some { s.setPhase p (.accessed actions writes answer) with
            cached := perform C s.cached a }
      | _ => none
  | .finish p =>
      match s.phase p with
      | .accessed [] writes answer =>
          some { s.setPhase p .idle with
            completed := complete s.completed writes
            reads := answer.toList ++ s.reads }
      | _ => none
  | .evict entry => some { s with cached := Function.update s.cached entry none }

/-- A cache entry that is set is the stored value of its entity. -/
def Current (s : CacheAside D κ χ ν Op) : CacheEvent χ Op → Prop
  | .act p => ∀ k v actions writes answer,
      s.phase p = .accessed (.set k v :: actions) writes answer →
        C.lookup s.database k = some v
  | _ => True

variable {C} {s s' : CacheAside D κ χ ν Op}

/-- Starting an operation keeps the invariant: an answer from the cache is an entry, and a
database access is asked for no later than the writes completed by now. -/
theorem coherent_start (h : s.Coherent C) {p : ℕ} {op : Op}
    (hstep : s.step C (.start p op) = some s') : s'.Coherent C := by
  unfold step at hstep
  cases hp : s.phase p with
  | idle =>
      simp only [hp] at hstep
      cases hhit : (C.asks op).bind fun k => (s.cached (C.cacheKey k)).map (k, ·) with
      | some hit =>
          obtain ⟨k, v⟩ := hit
          simp only [hhit, Option.some.injEq] at hstep
          obtain ⟨k', -, hk'⟩ := Option.bind_eq_some_iff.mp hhit
          obtain ⟨v', hv', heq⟩ := Option.map_eq_some_iff.mp hk'
          simp only [Prod.mk.injEq] at heq
          obtain ⟨rfl, rfl⟩ := heq
          subst hstep
          refine ⟨h.completed_le, h.entry, h.phase, fun read hread => ?_⟩
          rcases List.mem_cons.mp hread with rfl | hread
          · exact h.entry k' v' hv'
          · exact h.reads read hread
      | none =>
          simp only [hhit, Option.some.injEq] at hstep
          subst hstep
          refine h.setPhase p fun k n hobserved => ?_
          obtain ⟨k', hobserves, heq⟩ := Option.map_eq_some_iff.mp hobserved
          simp only [Prod.mk.injEq] at heq
          obtain ⟨rfl, rfl⟩ := heq
          exact ⟨hobserves, h.completed_le k'⟩
  | asked op' observed => simp [hp] at hstep
  | accessed actions writes answer => simp [hp] at hstep

/-- A cache access keeps the invariant when an entry it sets is the stored value. -/
theorem coherent_act (hC : C.Lawful) (h : s.Coherent C) {p : ℕ} {a : CacheAction κ ν}
    {actions : List (CacheAction κ ν)} {writes : List (κ × ℕ)} {answer : Option (CacheRead κ ν)}
    (hp : s.phase p = .accessed (a :: actions) writes answer)
    (hset : ∀ k v, a = .set k v → C.lookup s.database k = some v) :
    Coherent C { s.setPhase p (.accessed actions writes answer) with
      cached := perform C s.cached a } := by
  have hcached : ∀ k v, perform C s.cached a (C.cacheKey k) = some v →
      s.cached (C.cacheKey k) = some v ∨ C.lookup s.database k = some v := by
    intro k v hv
    by_cases hk : k = a.entity
    · subst hk
      exact .inr (hset _ _ (perform_self hv))
    · exact .inl (perform_of_ne hC s.cached a hk ▸ hv)
  obtain ⟨hwrites, hanswer⟩ : s.PhaseCoherent C (.accessed (a :: actions) writes answer) :=
    hp ▸ h.phase p
  refine (h.recache hcached).setPhase p ⟨fun k n hwrite => ?_, hanswer⟩
  obtain ⟨hn, hentry⟩ := hwrites k n hwrite
  refine ⟨hn, ?_⟩
  rcases hentry with ⟨b, hb, rfl⟩ | hentry
  · rcases List.mem_cons.mp hb with rfl | hb
    · -- the access at hand is the one that follows the write
      refine .inr fun v hv => ?_
      rw [← hset _ _ (perform_self hv)]
      exact notOlder_lookup hn
    · exact .inl ⟨b, hb, rfl⟩
  · refine .inr fun v hv => ?_
    rcases hcached k v hv with hold | hstored
    · exact hentry v hold
    · exact hstored ▸ notOlder_lookup hn

/-- A step whose cache entry, if it sets one, is the stored value keeps the invariant. -/
theorem coherent_step (hC : C.Lawful) (s : CacheAside D κ χ ν Op) (e : CacheEvent χ Op)
    (s' : CacheAside D κ χ ν Op) (h : s.Coherent C) (hcurrent : s.Current C e)
    (hstep : s.step C e = some s') : s'.Coherent C := by
  cases e with
  | start p op => exact coherent_start h hstep
  | access p =>
      cases hp : s.phase p with
      | asked op observed =>
          simp only [step, hp, Option.some.injEq] at hstep
          exact hstep ▸ h.accessed hC hp
      | idle => simp [step, hp] at hstep
      | accessed actions writes answer => simp [step, hp] at hstep
  | fail p =>
      cases hp : s.phase p with
      | asked op observed =>
          simp only [step, hp, Option.some.injEq] at hstep
          exact hstep ▸ h.setPhase p trivial
      | idle => simp [step, hp] at hstep
      | accessed actions writes answer => simp [step, hp] at hstep
  | act p =>
      cases hp : s.phase p with
      | accessed actions writes answer =>
          cases actions with
          | nil => simp [step, hp] at hstep
          | cons a actions =>
              simp only [step, hp, Option.some.injEq] at hstep
              refine hstep ▸ coherent_act hC h hp fun k v ha => ?_
              exact hcurrent k v actions writes answer (ha ▸ hp)
      | idle => simp [step, hp] at hstep
      | asked op observed => simp [step, hp] at hstep
  | finish p =>
      cases hp : s.phase p with
      | accessed actions writes answer =>
          cases actions with
          | nil =>
              simp only [step, hp, Option.some.injEq] at hstep
              exact hstep ▸ coherent_finish h hp
          | cons a actions => simp [step, hp] at hstep
      | idle => simp [step, hp] at hstep
      | asked op observed => simp [step, hp] at hstep
  | evict entry =>
      simp only [step, Option.some.injEq] at hstep
      refine hstep ▸ h.recache fun k v hv => ?_
      by_cases hk : C.cacheKey k = entry
      · rw [hk, Function.update_self] at hv
        exact absurd hv (by simp)
      · rw [Function.update_of_ne hk] at hv
        exact .inl hv

/-- When every entry that is set is the stored value, no answer is older than a write that
had completed before its read started. -/
theorem reads_fresh (hC : C.Lawful) {es : List (CacheEvent χ Op)}
    (hrun : Run (step C) (Current C) s es s') (h : s.Coherent C) : s'.Fresh C :=
  (hrun.invariant (coherent_step hC) h).reads

end

end CacheAside

end Library
end MemosNote
