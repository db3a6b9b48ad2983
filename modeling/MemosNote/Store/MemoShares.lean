import MemosNote.Store.DeleteUser
import MemosNote.Store.MemoStore

/-!
# Shares of memos

A share lets whoever has its token read a memo.  The driver's accesses to shares, and what the other
writes of the store do to memos and shares.

Main results:

- Structure {lit}`Tables.Evolves`: memos keep their identifiers and names, and shares are only taken
  away.
- Theorem {lit}`StoreWrite.evolves_apply`: this holds for every write but the insertion of a share.
-/

namespace MemosNote
namespace Store

open Library

/-! ## Accesses -/

structure FindMemoShare where
  ID : Option ℤ := none
  UID : Option String := none
  MemoID : Option ℤ := none
  CreatorID : Option ℤ := none
deriving DecidableEq, Repr

structure DeleteMemoShare where
  ID : Option ℤ := none
  UID : Option String := none
deriving DecidableEq, Repr

def FindMemoShare.matchesShare (find : FindMemoShare) (ms : MemoShare) : Bool :=
  (∀ id ∈ find.ID, ms.ID = id) &&
    (∀ uid ∈ find.UID, ms.UID = uid) &&
    (∀ memoID ∈ find.MemoID, ms.MemoID = memoID) &&
    (∀ creatorID ∈ find.CreatorID, ms.CreatorID = creatorID)

def DeleteMemoShare.matchesShare (delete : DeleteMemoShare) (ms : MemoShare) : Bool :=
  (∀ id ∈ delete.ID, ms.ID = id) && (∀ uid ∈ delete.UID, ms.UID = uid)

namespace Tables

/-- The statement that inserts a share. -/
def insertMemoShare (db : Tables) (create : MemoShare) : Tables :=
  { db with memoShares := db.memoShares ++ [create] }

def deleteMemoShare (db : Tables) (delete : DeleteMemoShare) : Tables :=
  { db with memoShares := db.memoShares.filter fun ms => !delete.matchesShare ms }

end Tables

/-- Insert a share with a new token.  The database assigns its identifier and its time. -/
def createMemoShare (create : MemoShare) : StoreM MemoShare := fun db =>
  if create.UID ∈ db.memoShares.map MemoShare.UID then
    (.error "UNIQUE constraint failed: memo_share.uid", db)
  else (.ok create, db.insertMemoShare create)

def listMemoShares (find : FindMemoShare) : StoreM (List MemoShare) :=
  Effect.read fun db =>
    (db.memoShares.filter find.matchesShare).insertionSort fun a b => a.ID ≤ b.ID

def getMemoShare (find : FindMemoShare) : StoreM (Option MemoShare) :=
  Effect.read fun db => db.memoShares.find? find.matchesShare

def deleteMemoShare (delete : DeleteMemoShare) : StoreM Unit :=
  Effect.update fun db => db.deleteMemoShare delete

/-- A share with an expiry expires after that second. -/
def isMemoShareExpired (now : ℤ) (ms : MemoShare) : Bool :=
  ms.ExpiresTs.any (· < now)

/-- A share that is found by its token. -/
theorem find_memoShare {db : Tables} {token : String} {ms : MemoShare}
    (h : db.memoShares.find? ({ UID := some token } : FindMemoShare).matchesShare = some ms) :
    ms ∈ db.memoShares ∧ ms.UID = token := by
  refine ⟨List.mem_of_find?_eq_some h, ?_⟩
  simpa [FindMemoShare.matchesShare] using List.find?_some h

theorem isMemoShareExpired_mono {ms : MemoShare} {now later : ℤ} (hle : now ≤ later)
    (h : isMemoShareExpired now ms = true) : isMemoShareExpired later ms = true := by
  unfold isMemoShareExpired at h ⊢
  cases hexpires : ms.ExpiresTs with
  | none =>
      rw [hexpires] at h
      cases h
  | some ts =>
      rw [hexpires] at h
      simp only [Option.any_some, decide_eq_true_eq] at h ⊢
      omega

/-! ## Other writes -/

/-- The tables after other writes: a memo that was there has kept its identifier and its name, a
memo that is new has a new identifier, and no share is new. -/
structure Tables.Evolves (db db' : Tables) : Prop where
  sequence : db.memoSequence ≤ db'.memoSequence
  memos : ∀ m' ∈ db'.memos, (∃ m ∈ db.memos, m.ID = m'.ID ∧ m.UID = m'.UID) ∨
    db.memoSequence < m'.ID
  shares : db'.memoShares.Sublist db.memoShares

namespace Tables

variable {db db' : Tables}

theorem Evolves.refl (db : Tables) : db.Evolves db :=
  ⟨le_rfl, fun m hm => Or.inl ⟨m, hm, rfl, rfl⟩, List.Sublist.refl _⟩

theorem Evolves.trans {db'' : Tables} (h : db.Evolves db') (h' : db'.Evolves db'') :
    db.Evolves db'' := by
  refine ⟨h.sequence.trans h'.sequence, fun m'' hm'' => ?_, h'.shares.trans h.shares⟩
  rcases h'.memos m'' hm'' with ⟨m', hm', hid, huid⟩ | hnew
  · rcases h.memos m' hm' with ⟨m, hm, hid', huid'⟩ | hnew
    · exact Or.inl ⟨m, hm, hid'.trans hid, huid'.trans huid⟩
    · exact Or.inr (hid ▸ hnew)
  · exact Or.inr (lt_of_le_of_lt h.sequence hnew)

/-- Nothing but rows that are no memos and no shares are written, or memos are taken away. -/
theorem Evolves.of_sublist (hsequence : db'.memoSequence = db.memoSequence)
    (hmemos : db'.memos.Sublist db.memos) (hshares : db'.memoShares.Sublist db.memoShares) :
    db.Evolves db' :=
  ⟨hsequence.ge, fun m hm => Or.inl ⟨m, hmemos.subset hm, rfl, rfl⟩, hshares⟩

private theorem evolves_insertMemo (now : ℤ) (create : Memo)
    (h : create.UID ∉ db.memos.map Memo.UID) : db.Evolves (db.insertMemo now create h) := by
  refine ⟨(Int.lt_add_one_iff.mpr le_rfl).le, fun m hm => ?_, List.Sublist.refl _⟩
  rcases List.mem_append.mp hm with hm | hm
  · exact Or.inl ⟨m, hm, rfl, rfl⟩
  · right
    rw [List.mem_singleton.mp hm]
    exact Int.lt_add_one_iff.mpr le_rfl

private theorem evolves_updateMemo (update : UpdateMemo) : db.Evolves (db.updateMemo update) := by
  refine ⟨le_rfl, fun m' hm' => ?_, List.Sublist.refl _⟩
  rcases List.mem_map.mp hm' with ⟨m, hm, rfl⟩
  exact Or.inl ⟨m, hm, (update.onRow_ID m).symm, (update.onRow_UID m).symm⟩

end Tables

/-- The writes of the store that change memos, or rows that hang on them. -/
inductive StoreWrite where
  | createMemo (create : Memo)
  | updateMemo (update : UpdateMemo)
  | deleteMemo (id : ℤ)
  | upsertMemoRelation (create : MemoRelation)
  | deleteMemoRelation (delete : DeleteMemoRelation)
  | updateAttachment (update : UpdateAttachment)
  | deleteAttachment (id : ℤ)
  | deleteMemoShare (delete : DeleteMemoShare)
  | deleteUser (userID : ℤ)

/-- The tables after a write, which may have failed half-way. -/
def StoreWrite.apply (engine : StoreEngine) (db : Tables) : StoreWrite → Tables
  | createMemo create => (engine.createMemo create db).2
  | updateMemo update => (StoreEngine.updateMemo update db).2
  | deleteMemo id => (engine.deleteMemo id db).2
  | upsertMemoRelation create => (StoreEngine.upsertMemoRelation create db).2
  | deleteMemoRelation delete => (StoreEngine.deleteMemoRelation delete db).2
  | updateAttachment update => (StoreEngine.updateAttachment update db).2
  | deleteAttachment id => (engine.deleteAttachment id db).2
  | deleteMemoShare delete => (Store.deleteMemoShare delete db).2
  | deleteUser userID =>
      match DeleteUser false db userID with
      | .error _ => db
      | .ok (_, db') => db'

variable {engine : StoreEngine} {db : Tables}

private theorem evolves_filterAttachments (p : Attachment → Bool) :
    db.Evolves (db.filterAttachments p) :=
  .of_sublist rfl (List.Sublist.refl _) (List.Sublist.refl _)

theorem evolves_deleteAttachment (id : ℤ) :
    Effect.Keeps db.Evolves (engine.deleteAttachment id) :=
  StoreEngine.deleteAttachment_keeps fun _ h => h.trans (evolves_filterAttachments _)

/-- The deletion of a memo, which may fail half-way. -/
theorem evolves_deleteMemo (id : ℤ) : Effect.Keeps db.Evolves (engine.deleteMemo id) := by
  have hrelations (delete : DeleteMemoRelation) :
      Effect.Keeps db.Evolves (StoreEngine.deleteMemoRelation delete) :=
    Effect.Keeps.update fun t ht =>
      ht.trans (.of_sublist rfl (List.Sublist.refl _) (List.Sublist.refl _))
  refine (hrelations _).bind fun _ => (hrelations _).bind fun _ => ?_
  refine (StoreEngine.listAttachments_keeps _).bind fun attachments => ?_
  refine (Effect.Keeps.forEach fun a _ => evolves_deleteAttachment a.ID).bind fun _ => ?_
  exact Effect.Keeps.update fun t ht =>
    ht.trans (.of_sublist rfl List.filter_sublist (List.Sublist.refl _))

/-- The transaction that deletes a user. -/
theorem evolves_deleteUserTargetsTx (userID : ℤ) (targets : DeleteUserTargetSet) :
    db.Evolves (db.deleteUserTargetsTx userID targets) := by
  apply Tables.Evolves.of_sublist <;>
    simp only [Tables.deleteUserTargetsTx, Tables.deleteUserRowTx, Tables.deleteMemosTx,
      Tables.deleteMemoRelationsTx, Tables.deleteUserSettingsTx, Tables.deleteUserIdentitiesTx,
      Tables.deleteInboxesByIDsTx, Tables.deleteMemoSharesTx, Tables.deleteReactionsByCreatorTx,
      Tables.deleteAttachmentsByIDsTx, Tables.deleteReactionsByContentIDsTx]
  · exact deleteInBatches_sublist _ _
  · exact (deleteInBatches_sublist _ _).trans List.filter_sublist

/-- Every write but the insertion of a share. -/
theorem StoreWrite.evolves_apply (write : StoreWrite) : db.Evolves (write.apply engine db) := by
  cases write with
  | createMemo create =>
      change db.Evolves (engine.createMemo create db).2
      rw [StoreEngine.createMemo]
      split
      · exact .refl db
      · split
        · exact .refl db
        · rename_i hnew
          exact Tables.evolves_insertMemo _ _ hnew
  | updateMemo update => exact Tables.evolves_updateMemo update
  | deleteMemo id => exact evolves_deleteMemo id db (.refl db)
  | upsertMemoRelation create =>
      exact .of_sublist rfl (List.Sublist.refl _) (List.Sublist.refl _)
  | deleteMemoRelation delete =>
      exact .of_sublist rfl (List.Sublist.refl _) (List.Sublist.refl _)
  | updateAttachment update => exact .of_sublist rfl (List.Sublist.refl _) (List.Sublist.refl _)
  | deleteAttachment id => exact evolves_deleteAttachment id db (.refl db)
  | deleteMemoShare delete => exact .of_sublist rfl (List.Sublist.refl _) List.filter_sublist
  | deleteUser userID =>
      rw [apply]
      cases hdelete : DeleteUser false db userID with
      | error err => exact .refl db
      | ok result =>
          rw [DeleteUser] at hdelete
          cases htargets : collectDeleteUserTargets db userID with
          | error err =>
              rw [htargets] at hdelete
              cases hdelete
          | ok targets =>
              rw [htargets] at hdelete
              cases hdelete
              exact evolves_deleteUserTargetsTx userID targets

end Store
end MemosNote
