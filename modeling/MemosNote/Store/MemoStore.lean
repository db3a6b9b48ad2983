import Mathlib.Data.List.Sort
import Mathlib.Data.Prod.Lex
import MemosNote.Library.Effect
import MemosNote.Library.OffsetPages
import MemosNote.Store.Tables

/-!
# Accesses to memos, relations and attachments

The statements of the driver and the operations of the store that are made of them.

Main results:

- Theorem {lit}`mem_selectMemos`, Theorem {lit}`mem_of_getMemo_uid`: what a query for memos
  returns.
- Theorem {lit}`deleteMemo_ok`: what the deletion of a memo deletes.
- Theorem {lit}`listAttachments_page`: a query for attachments by limit and offset returns a page.
-/

namespace MemosNote
namespace Store

open Library

/-- A request on the tables. -/
abbrev StoreM :=
  Effect String Tables

/-- The order in which the database returns attachments; rows of one time come in any order. -/
structure AttachmentOrder where
  sort : List Attachment → List Attachment
  perm : ∀ rows, (sort rows).Perm rows
  sorted : ∀ rows, (sort rows).Pairwise fun a b => b.UpdatedTs ≤ a.UpdatedTs

/-- What lies outside the store: the order of the database, its text search, the filters, the
clock, its readings while attachments are linked to a memo, one for each, and the files of the
attachments, whose deletion may fail. -/
structure StoreEngine where
  attachmentOrder : AttachmentOrder
  like : String → String → Bool
  compileMemoFilter : String → Except String (Tables → Memo → Bool)
  compileAttachmentFilter : String → Except String (Tables → Attachment → Bool)
  now : ℤ
  linkClock : ℕ → ℤ
  deleteStorage : Attachment → Option String

/-- The order that leaves the rows of one time as they are stored. -/
def AttachmentOrder.stored : AttachmentOrder where
  sort rows := rows.insertionSort fun a b => b.UpdatedTs ≤ a.UpdatedTs
  perm _ := List.perm_insertionSort _ _
  sorted rows := by
    have htotal : Std.Total fun a b : Attachment => b.UpdatedTs ≤ a.UpdatedTs :=
      ⟨fun a b => Int.le_total b.UpdatedTs a.UpdatedTs⟩
    have htrans : IsTrans Attachment fun a b => b.UpdatedTs ≤ a.UpdatedTs :=
      ⟨fun _ _ _ hab hbc => Int.le_trans hbc hab⟩
    exact List.pairwise_insertionSort _ rows

/-- A store whose filters select everything and whose attachments have no files. -/
def StoreEngine.plain : StoreEngine where
  attachmentOrder := .stored
  like _ _ := false
  compileMemoFilter _ := .ok fun _ _ => true
  compileAttachmentFilter _ := .ok fun _ _ => true
  now := 0
  linkClock _ := 0
  deleteStorage _ := none

/-- The rows of a page; a negative limit is none. -/
def limitRows {α : Type} (limit offset : Option ℤ) (rows : List α) : List α :=
  match limit with
  | none => rows
  | some n =>
      let rest := rows.drop (offset.getD 0).toNat
      if n < 0 then rest else rest.take n.toNat

/-! ## Memos -/

/-- A memo of a query, with the memo that it comments on. -/
structure FoundMemo extends Memo where
  ParentUID : Option String := none
deriving DecidableEq, Repr

/-- Which memos are asked for, and in which order. -/
structure FindMemo where
  ID : Option ℤ := none
  UID : Option String := none
  IDList : List ℤ := []
  UIDList : List String := []
  RowStatus : Option RowStatus := none
  CreatorID : Option ℤ := none
  VisibilityList : List Visibility := []
  ExcludeContent : Bool := false
  ExcludeComments : Bool := false
  Filters : List String := []
  Limit : Option ℤ := none
  Offset : Option ℤ := none
  OrderByPinned : Bool := false
  OrderByUpdatedTs : Bool := false
  OrderByTimeAsc : Bool := false
deriving DecidableEq, Repr

/-- The changes of an update; no caller changes the name of a memo. -/
structure UpdateMemo where
  ID : ℤ
  CreatedTs : Option ℤ := none
  UpdatedTs : Option ℤ := none
  RowStatus : Option RowStatus := none
  Content : Option String := none
  Visibility : Option Visibility := none
  Pinned : Option Bool := none
  Payload : Option MemoPayload := none
deriving DecidableEq, Repr

namespace Tables

/-- The relations that make a memo a comment. -/
def commentRelations (db : Tables) (memoID : ℤ) : List MemoRelation :=
  db.memoRelations.filter fun r => r.MemoID = memoID ∧ r.RelationType = .Comment

/-- The UID of a memo. -/
def memoUID? (db : Tables) (id : ℤ) : Option String :=
  (db.memos.find? fun m => m.ID = id).map Memo.UID

/-- The join of a memo with its relations and parents: one row for every relation. -/
def joinMemo (db : Tables) (memo : Memo) : List FoundMemo :=
  match db.commentRelations memo.ID with
  | [] => [⟨memo, none⟩]
  | relations => relations.map fun r => ⟨memo, db.memoUID? r.RelatedMemoID⟩

end Tables

namespace FindMemo

variable (find : FindMemo)

/-- The conditions of the query on a joined row, but for the filters. -/
def matchesMemo (row : FoundMemo) : Bool :=
  (∀ id ∈ find.ID, row.ID = id) &&
    (find.IDList = [] || row.ID ∈ find.IDList) &&
    (∀ uid ∈ find.UID, row.UID = uid) &&
    (find.UIDList = [] || row.UID ∈ find.UIDList) &&
    (∀ creatorID ∈ find.CreatorID, row.CreatorID = creatorID) &&
    (∀ rowStatus ∈ find.RowStatus, row.RowStatus = rowStatus) &&
    (find.VisibilityList = [] || row.Visibility ∈ find.VisibilityList) &&
    (!find.ExcludeComments || row.ParentUID.isNone)

/-- The sort key: pinned memos first if asked for, then the time, then the greatest
identifier. -/
def orderKey (memo : Memo) : ℤ ×ₗ ℤ ×ₗ ℤ :=
  let pinned := if find.OrderByPinned && memo.Pinned then -1 else 0
  let time := if find.OrderByUpdatedTs then memo.UpdatedTs else memo.CreatedTs
  toLex (pinned, toLex (if find.OrderByTimeAsc then time else -time, -memo.ID))

/-- The memos in the order that is asked for. -/
def orderBy (rows : List FoundMemo) : List FoundMemo :=
  rows.insertionSort fun a b => find.orderKey a.toMemo ≤ find.orderKey b.toMemo

/-- The content of a row is left out on demand. -/
def project (row : FoundMemo) : FoundMemo :=
  if find.ExcludeContent then { row with Content := "" } else row

end FindMemo

namespace UpdateMemo

/-- The assignments of the statement, on one row. -/
def assign (update : UpdateMemo) (memo : Memo) : Memo where
  ID := memo.ID
  UID := memo.UID
  CreatorID := memo.CreatorID
  CreatedTs := update.CreatedTs.getD memo.CreatedTs
  UpdatedTs := update.UpdatedTs.getD memo.UpdatedTs
  RowStatus := update.RowStatus.getD memo.RowStatus
  Content := update.Content.getD memo.Content
  Visibility := update.Visibility.getD memo.Visibility
  Pinned := update.Pinned.getD memo.Pinned
  Payload := update.Payload.getD memo.Payload

/-- The assignment of the row with the identifier of the update. -/
def onRow (update : UpdateMemo) (memo : Memo) : Memo :=
  if memo.ID = update.ID then update.assign memo else memo

@[simp]
theorem onRow_ID (update : UpdateMemo) (memo : Memo) : (update.onRow memo).ID = memo.ID := by
  rw [onRow]
  split <;> rfl

@[simp]
theorem onRow_UID (update : UpdateMemo) (memo : Memo) : (update.onRow memo).UID = memo.UID := by
  rw [onRow]
  split <;> rfl

theorem ID_comp_onRow (update : UpdateMemo) : Memo.ID ∘ update.onRow = Memo.ID :=
  funext update.onRow_ID

theorem UID_comp_onRow (update : UpdateMemo) : Memo.UID ∘ update.onRow = Memo.UID :=
  funext update.onRow_UID

end UpdateMemo

namespace Tables

/-- The statement of an update. -/
def updateMemo (db : Tables) (update : UpdateMemo) : Tables :=
  { db with
    memos := db.memos.map update.onRow
    memoIDs := by
      intro memo hmemo
      obtain ⟨m, hm, rfl⟩ := List.mem_map.mp hmemo
      rw [UpdateMemo.onRow_ID]
      exact db.memoIDs m hm
    memoIDs_nodup := by
      rw [List.map_map, update.ID_comp_onRow]
      exact db.memoIDs_nodup
    memoUIDs_nodup := by
      rw [List.map_map, update.UID_comp_onRow]
      exact db.memoUIDs_nodup }

/-- The rows of memos that are kept. -/
def filterMemos (db : Tables) (p : Memo → Bool) : Tables :=
  { db with
    memos := db.memos.filter p
    memoIDs := fun m hm => db.memoIDs m (List.filter_sublist.subset hm)
    memoIDs_nodup := db.memoIDs_nodup.sublist (List.filter_sublist.map _)
    memoUIDs_nodup := db.memoUIDs_nodup.sublist (List.filter_sublist.map _) }

end Tables

/-! ## Relations -/

/-- Which relations are asked for. -/
structure FindMemoRelation where
  MemoID : Option ℤ := none
  RelatedMemoID : Option ℤ := none
  RelationType : Option MemoRelationType := none
  MemoFilter : Option String := none
  MemoIDList : List ℤ := []
  SourceMemoIDList : List ℤ := []
  RelatedMemoIDList : List ℤ := []
  Limit : Option ℤ := none
  Offset : Option ℤ := none
deriving DecidableEq, Repr

/-- Which relations are deleted. -/
structure DeleteMemoRelation where
  MemoID : Option ℤ := none
  RelatedMemoID : Option ℤ := none
  RelationType : Option MemoRelationType := none
deriving DecidableEq, Repr

namespace FindMemoRelation

/-- The conditions of the query, but for the filter. -/
def matchesRelation (find : FindMemoRelation) (r : MemoRelation) : Bool :=
  (∀ id ∈ find.MemoID, r.MemoID = id) &&
    (∀ id ∈ find.RelatedMemoID, r.RelatedMemoID = id) &&
    (∀ relationType ∈ find.RelationType, r.RelationType = relationType) &&
    (find.MemoIDList = [] || r.MemoID ∈ find.MemoIDList || r.RelatedMemoID ∈ find.MemoIDList) &&
    (find.SourceMemoIDList = [] || r.MemoID ∈ find.SourceMemoIDList) &&
    (find.RelatedMemoIDList = [] || r.RelatedMemoID ∈ find.RelatedMemoIDList)

end FindMemoRelation

/-- The conditions of a deletion. -/
def DeleteMemoRelation.matchesRelation (delete : DeleteMemoRelation) (r : MemoRelation) : Bool :=
  (∀ id ∈ delete.MemoID, r.MemoID = id) &&
    (∀ id ∈ delete.RelatedMemoID, r.RelatedMemoID = id) &&
    (∀ relationType ∈ delete.RelationType, r.RelationType = relationType)

namespace Tables

/-- Insert a relation that is not there yet. -/
def upsertMemoRelation (db : Tables) (create : MemoRelation) : Tables :=
  { db with
    memoRelations :=
      if create ∈ db.memoRelations then db.memoRelations else db.memoRelations ++ [create]
    memoRelations_nodup := by
      split
      · exact db.memoRelations_nodup
      · rename_i hnew
        refine List.nodup_append.mpr ⟨db.memoRelations_nodup, List.nodup_singleton _, ?_⟩
        rintro r hr r' hr' rfl
        exact hnew (List.mem_singleton.mp hr' ▸ hr) }

/-- Delete the matching relations. -/
def deleteMemoRelation (db : Tables) (delete : DeleteMemoRelation) : Tables :=
  { db with
    memoRelations := db.memoRelations.filter fun r => !delete.matchesRelation r
    memoRelations_nodup := db.memoRelations_nodup.filter _ }

/-- The relations after an upsert. -/
theorem mem_upsertMemoRelation {db : Tables} {create r : MemoRelation} :
    r ∈ (db.upsertMemoRelation create).memoRelations ↔ r ∈ db.memoRelations ∨ r = create := by
  by_cases h : create ∈ db.memoRelations
  · simp only [upsertMemoRelation, if_pos h]
    exact ⟨.inl, fun hr => hr.elim id fun heq => heq ▸ h⟩
  · simp [upsertMemoRelation, h]

end Tables

/-! ## Attachments -/

/-- Which attachments are asked for. -/
structure FindAttachment where
  GetBlob : Bool := false
  ID : Option ℤ := none
  UID : Option String := none
  CreatorID : Option ℤ := none
  Filename : Option String := none
  FilenameSearch : Option String := none
  MemoID : Option ℤ := none
  MemoIDList : List ℤ := []
  HasRelatedMemo : Bool := false
  StorageType : Option AttachmentStorageType := none
  Filters : List String := []
  Limit : Option ℤ := none
  Offset : Option ℤ := none
deriving DecidableEq, Repr

/-- The changes of an update; no caller changes the name of an attachment. -/
structure UpdateAttachment where
  ID : ℤ
  UpdatedTs : Option ℤ := none
  Filename : Option String := none
  MemoID : Option ℤ := none
  Reference : Option String := none
  Payload : Option AttachmentPayload := none
deriving DecidableEq, Repr

namespace FindAttachment

variable (find : FindAttachment)

/-- The conditions of the query, but for the filters. -/
def matchesAttachment (like : String → String → Bool) (a : Attachment) : Bool :=
  (∀ id ∈ find.ID, a.ID = id) &&
    (∀ uid ∈ find.UID, a.UID = uid) &&
    (∀ creatorID ∈ find.CreatorID, a.CreatorID = creatorID) &&
    (∀ filename ∈ find.Filename, a.Filename = filename) &&
    (∀ search ∈ find.FilenameSearch, like a.Filename ("%" ++ search ++ "%")) &&
    (∀ memoID ∈ find.MemoID, a.MemoID = some memoID) &&
    (find.MemoIDList = [] || find.MemoIDList.any fun memoID => a.MemoID = some memoID) &&
    (!find.HasRelatedMemo || a.MemoID.isSome) &&
    (∀ storageType ∈ find.StorageType, a.StorageType = storageType)

/-- Without a limit of its own, a query has a default one. -/
def withDefaultLimit : FindAttachment :=
  if find.Limit.isNone && find.MemoIDList.length = 0 then
    { find with Limit := some (if find.GetBlob then 10 else 100) }
  else find

end FindAttachment

namespace UpdateAttachment

/-- The assignments of the statement, on one row. -/
def assign (update : UpdateAttachment) (a : Attachment) : Attachment where
  ID := a.ID
  UID := a.UID
  CreatorID := a.CreatorID
  CreatedTs := a.CreatedTs
  UpdatedTs := update.UpdatedTs.getD a.UpdatedTs
  Filename := update.Filename.getD a.Filename
  MediaType := a.MediaType
  Size := a.Size
  StorageType := a.StorageType
  Reference := update.Reference.getD a.Reference
  Payload := update.Payload.getD a.Payload
  MemoID := update.MemoID <|> a.MemoID

/-- The assignment of the row with the identifier of the update. -/
def onRow (update : UpdateAttachment) (a : Attachment) : Attachment :=
  if a.ID = update.ID then update.assign a else a

@[simp]
theorem onRow_ID (update : UpdateAttachment) (a : Attachment) : (update.onRow a).ID = a.ID := by
  rw [onRow]
  split <;> rfl

@[simp]
theorem onRow_UID (update : UpdateAttachment) (a : Attachment) :
    (update.onRow a).UID = a.UID := by
  rw [onRow]
  split <;> rfl

theorem ID_comp_onRow (update : UpdateAttachment) :
    Attachment.ID ∘ update.onRow = Attachment.ID :=
  funext update.onRow_ID

theorem UID_comp_onRow (update : UpdateAttachment) :
    Attachment.UID ∘ update.onRow = Attachment.UID :=
  funext update.onRow_UID

end UpdateAttachment

namespace Tables

/-- Update the row of an attachment. -/
def updateAttachment (db : Tables) (update : UpdateAttachment) : Tables :=
  { db with
    attachments := db.attachments.map update.onRow
    attachmentIDs_nodup := by
      rw [List.map_map, update.ID_comp_onRow]
      exact db.attachmentIDs_nodup
    attachmentUIDs_nodup := by
      rw [List.map_map, update.UID_comp_onRow]
      exact db.attachmentUIDs_nodup }

/-- The rows of attachments that are kept. -/
def filterAttachments (db : Tables) (p : Attachment → Bool) : Tables :=
  { db with
    attachments := db.attachments.filter p
    attachmentIDs_nodup := db.attachmentIDs_nodup.sublist (List.filter_sublist.map _)
    attachmentUIDs_nodup := db.attachmentUIDs_nodup.sublist (List.filter_sublist.map _) }

end Tables

/-! ## Operations -/

/-- The names that are accepted: letters, digits and inner hyphens, at most 36 characters. -/
def UIDMatcher (uid : String) : Bool :=
  let cs := uid.toList
  let alphanumeric := fun c : Char => c.isAlpha || c.isDigit
  cs ≠ [] && cs.length ≤ 36 && cs.all (fun c => alphanumeric c || c = '-') &&
    cs.head?.all alphanumeric && cs.getLast?.all alphanumeric

namespace Tables

/-- The rows that a query for memos returns. -/
def selectMemos (db : Tables) (find : FindMemo) (filters : List (Tables → Memo → Bool)) :
    List FoundMemo :=
  (limitRows find.Limit find.Offset (find.orderBy ((db.memos.flatMap db.joinMemo).filter
    fun row => find.matchesMemo row && filters.all fun f => f db row.toMemo))).map find.project

/-- The row of a new memo; without times of its own it gets the current one. -/
def newMemo (db : Tables) (now : ℤ) (create : Memo) : Memo where
  ID := db.memoSequence + 1
  UID := create.UID
  CreatorID := create.CreatorID
  CreatedTs := if create.CreatedTs = 0 then now else create.CreatedTs
  UpdatedTs := if create.UpdatedTs = 0 then now else create.UpdatedTs
  Content := create.Content
  Visibility := create.Visibility
  Payload := create.Payload

/-- The statement that inserts a memo. -/
def insertMemo (db : Tables) (now : ℤ) (create : Memo) (h : create.UID ∉ db.memos.map Memo.UID) :
    Tables :=
  { db with
    memos := db.memos ++ [db.newMemo now create]
    memoSequence := db.memoSequence + 1
    memoSequence_nonneg := by
      have hnonneg := db.memoSequence_nonneg
      omega
    memoIDs := by
      intro m hm
      have hnonneg := db.memoSequence_nonneg
      rcases List.mem_append.mp hm with hm | hm
      · have hbound := db.memoIDs m hm
        omega
      · have heq : m.ID = db.memoSequence + 1 := congrArg Memo.ID (List.mem_singleton.mp hm)
        omega
    memoIDs_nodup := by
      rw [List.map_append, List.map_singleton, List.nodup_append]
      refine ⟨db.memoIDs_nodup, List.nodup_singleton _, ?_⟩
      rintro id hid id' hid' rfl
      obtain ⟨m, hm, rfl⟩ := List.mem_map.mp hid
      have hbound := db.memoIDs m hm
      have heq : m.ID = db.memoSequence + 1 := List.mem_singleton.mp hid'
      omega
    memoUIDs_nodup := by
      rw [List.map_append, List.map_singleton, List.nodup_append]
      refine ⟨db.memoUIDs_nodup, List.nodup_singleton _, ?_⟩
      rintro uid huid uid' huid' rfl
      have heq : uid = create.UID := List.mem_singleton.mp huid'
      exact h (heq ▸ huid) }

end Tables

namespace StoreEngine

variable (engine : StoreEngine)

/-- The memos that are asked for, if the filters compile. -/
def listMemos (find : FindMemo) : StoreM (List FoundMemo) := do
  let filters ← Effect.ofExcept (find.Filters.mapM engine.compileMemoFilter)
  Effect.read fun db => db.selectMemos find filters

/-- The first of the memos that are asked for. -/
def getMemo (find : FindMemo) : StoreM (Option FoundMemo) := do
  let list ← engine.listMemos find
  pure list.head?

/-- Insert a memo with a new name. -/
def createMemo (create : Memo) : StoreM Memo := fun db =>
  if !UIDMatcher create.UID then (.error "invalid uid", db)
  else if h : create.UID ∈ db.memos.map Memo.UID then
    (.error "UNIQUE constraint failed: memo.uid", db)
  else
    (.ok (db.newMemo engine.now create), db.insertMemo engine.now create h)

/-- Update the row of a memo. -/
def updateMemo (update : UpdateMemo) : StoreM Unit :=
  Effect.update fun db => db.updateMemo update

/-- The relations that are asked for; the filter is on the memos at both ends. -/
def listMemoRelations (find : FindMemoRelation) : StoreM (List MemoRelation) := do
  let filters ← Effect.ofExcept (find.MemoFilter.toList.mapM engine.compileMemoFilter)
  Effect.read fun db =>
    let selected := fun id => db.memos.any fun m => m.ID = id && filters.all fun f => f db m
    let matching := db.memoRelations.filter fun r =>
      find.matchesRelation r &&
        (find.MemoFilter.isNone || selected r.MemoID && selected r.RelatedMemoID)
    limitRows find.Limit find.Offset (matching.insertionSort fun a b => b.MemoID ≤ a.MemoID)

/-- Insert a relation that is not there yet. -/
def upsertMemoRelation (create : MemoRelation) : StoreM Unit :=
  Effect.update fun db => db.upsertMemoRelation create

/-- Delete the matching relations. -/
def deleteMemoRelation (delete : DeleteMemoRelation) : StoreM Unit :=
  Effect.update fun db => db.deleteMemoRelation delete

/-- The attachments that are asked for, if the filters compile. -/
def listAttachments (find : FindAttachment) : StoreM (List Attachment) := do
  let find := find.withDefaultLimit
  let filters ← Effect.ofExcept ((find.Filters.mapM engine.compileAttachmentFilter).mapError
    ("failed to append filter conditions: " ++ ·))
  Effect.read fun db =>
    limitRows find.Limit find.Offset (engine.attachmentOrder.sort (db.attachments.filter fun a =>
      find.matchesAttachment engine.like a && filters.all fun f => f db a))

/-- The first of the attachments that are asked for. -/
def getAttachment (find : FindAttachment) : StoreM (Option Attachment) := do
  let attachments ← engine.listAttachments find
  pure attachments.head?

/-- Update the row of an attachment. -/
def updateAttachment (update : UpdateAttachment) : StoreM Unit :=
  Effect.update fun db => db.updateAttachment update

/-- Delete an attachment and its file; only a local file that cannot be deleted is an error. -/
def deleteAttachment (id : ℤ) : StoreM Unit := do
  let attachment ← (engine.getAttachment { ID := some id }).mapError ("failed to get attachment: " ++ ·)
  match attachment with
  | none => Effect.fail "attachment not found"
  | some attachment =>
      match engine.deleteStorage attachment with
      | some err =>
          if attachment.StorageType = .LOCAL then
            Effect.fail ("failed to delete local file: " ++ err)
          else Effect.update fun db => db.filterAttachments fun a => a.ID ≠ id
      | none => Effect.update fun db => db.filterAttachments fun a => a.ID ≠ id

/-- Delete a memo with its relations and attachments. -/
def deleteMemo (id : ℤ) : StoreM Unit := do
  deleteMemoRelation { MemoID := some id }
  deleteMemoRelation { RelatedMemoID := some id }
  let attachments ← engine.listAttachments { MemoID := some id }
  Effect.forEach (fun attachment => engine.deleteAttachment attachment.ID) attachments
  Effect.update fun db => db.filterMemos fun m => m.ID ≠ id

end StoreEngine

/-! ## What the operations do -/

namespace Tables

variable {db : Tables}

/-- A memo is found also where nothing is joined to it. -/
theorem joinMemo_ne_nil (db : Tables) (memo : Memo) : db.joinMemo memo ≠ [] := by
  rw [joinMemo]
  split
  · simp
  · rename_i h
    simpa using h

/-- A found row is that of its memo. -/
theorem toMemo_of_mem_joinMemo {memo : Memo} {row : FoundMemo} (h : row ∈ db.joinMemo memo) :
    row.toMemo = memo := by
  rw [joinMemo] at h
  split at h
  · rw [List.mem_singleton.mp h]
  · obtain ⟨r, -, rfl⟩ := List.mem_map.mp h
    rfl

/-- Ordering keeps the rows. -/
theorem mem_orderBy {find : FindMemo} {rows : List FoundMemo} {row : FoundMemo} :
    row ∈ find.orderBy rows ↔ row ∈ rows :=
  List.mem_insertionSort _

/-- The rows of a query without a limit. -/
theorem mem_selectMemos {find : FindMemo} (hlimit : find.Limit = none)
    {filters : List (Tables → Memo → Bool)} {row : FoundMemo} :
    row ∈ db.selectMemos find filters ↔ ∃ memo ∈ db.memos, ∃ joined ∈ db.joinMemo memo,
      find.matchesMemo joined = true ∧ (∀ f ∈ filters, f db memo = true) ∧
        find.project joined = row := by
  rw [selectMemos, hlimit, limitRows]
  constructor
  · intro h
    obtain ⟨joined, hjoined, rfl⟩ := List.mem_map.mp h
    obtain ⟨hmem, hmatches⟩ := List.mem_filter.mp (mem_orderBy.mp hjoined)
    obtain ⟨memo, hmemo, hrow⟩ := List.mem_flatMap.mp hmem
    rw [Bool.and_eq_true, List.all_eq_true, toMemo_of_mem_joinMemo hrow] at hmatches
    exact ⟨memo, hmemo, joined, hrow, hmatches.1, hmatches.2, rfl⟩
  · rintro ⟨memo, hmemo, joined, hjoined, hmatches, hfilters, rfl⟩
    refine List.mem_map_of_mem (mem_orderBy.mpr (List.mem_filter.mpr ⟨?_, ?_⟩))
    · exact List.mem_flatMap.mpr ⟨memo, hmemo, hjoined⟩
    · rw [Bool.and_eq_true, List.all_eq_true, toMemo_of_mem_joinMemo hjoined]
      exact ⟨hmatches, hfilters⟩

/-- Two deletions are one. -/
theorem filterAttachments_filterAttachments (p q : Attachment → Bool) :
    (db.filterAttachments p).filterAttachments q = db.filterAttachments fun a => p a && q a := by
  simp [filterAttachments, List.filter_filter, Bool.and_comm]

end Tables

namespace StoreEngine

variable {engine : StoreEngine} {db db' : Tables}

/-- What a creation inserts. -/
theorem createMemo_ok {create memo : Memo} (h : engine.createMemo create db = (.ok memo, db')) :
    memo = db.newMemo engine.now create := by
  rw [createMemo] at h
  split at h
  · cases h
  · split at h
    · cases h
    · exact (Except.ok.inj (Prod.mk.inj h).1).symm

/-- A query without filters. -/
theorem listMemos_eq {find : FindMemo} (h : find.Filters = []) :
    engine.listMemos find db = (.ok (db.selectMemos find []), db) := by
  rw [listMemos, h]
  rfl

/-- Without filters the first matching memo is found. -/
theorem getMemo_eq {find : FindMemo} (h : find.Filters = []) :
    engine.getMemo find db = (.ok (db.selectMemos find []).head?, db) := by
  rw [getMemo, Effect.bind_of_ok (listMemos_eq h)]
  rfl

theorem matchesMemo_uid (uid : String) (row : FoundMemo) :
    ({ UID := some uid } : FindMemo).matchesMemo row = true ↔ row.UID = uid := by
  simp [FindMemo.matchesMemo]

/-- A memo found by its name. -/
theorem mem_of_getMemo_uid {uid : String} {memo : FoundMemo}
    (h : engine.getMemo { UID := some uid } db = (.ok (some memo), db')) :
    db' = db ∧ memo.toMemo ∈ db.memos ∧ memo.UID = uid ∧ memo ∈ db.joinMemo memo.toMemo := by
  rw [getMemo_eq rfl] at h
  obtain ⟨hhead, rfl⟩ := Prod.mk.inj h
  have hmem := List.mem_of_head? (Except.ok.inj hhead)
  obtain ⟨m, hm, joined, hjoined, hmatches, -, rfl⟩ := (Tables.mem_selectMemos rfl).mp hmem
  have htoMemo := Tables.toMemo_of_mem_joinMemo hjoined
  have hproject : ({ UID := some uid } : FindMemo).project joined = joined := rfl
  have huid := (matchesMemo_uid uid joined).mp hmatches
  rw [hproject]
  refine ⟨rfl, htoMemo ▸ hm, huid, ?_⟩
  rw [htoMemo]
  exact hjoined

/-- A name that no memo has. -/
theorem getMemo_uid_none_iff {uid : String} :
    engine.getMemo { UID := some uid } db = (.ok none, db) ↔ ∀ memo ∈ db.memos, memo.UID ≠ uid := by
  rw [getMemo_eq rfl]
  simp only [Prod.mk.injEq, and_true, Except.ok.injEq, List.head?_eq_none_iff]
  rw [List.eq_nil_iff_forall_not_mem]
  constructor
  · intro hnone memo hmemo huid
    obtain ⟨joined, hjoined⟩ := List.exists_mem_of_ne_nil _ (db.joinMemo_ne_nil memo)
    refine hnone _ ((Tables.mem_selectMemos rfl).mpr
      ⟨memo, hmemo, joined, hjoined, (matchesMemo_uid uid joined).mpr ?_, by simp, rfl⟩)
    rw [Tables.toMemo_of_mem_joinMemo hjoined]
    exact huid
  · rintro hnone row hrow
    obtain ⟨memo, hmemo, joined, hjoined, hmatches, -, -⟩ := (Tables.mem_selectMemos rfl).mp hrow
    rw [matchesMemo_uid, Tables.toMemo_of_mem_joinMemo hjoined] at hmatches
    exact hnone memo hmemo hmatches

/-- A query for the identifier of a memo finds it. -/
theorem getMemo_id {memo : Memo} (hmemo : memo ∈ db.memos) :
    ∃ row, engine.getMemo { ID := some memo.ID } db = (.ok (some row), db) ∧ row.toMemo = memo := by
  have hmatches : ∀ row : FoundMemo, ({ ID := some memo.ID } : FindMemo).matchesMemo row = true ↔
      row.ID = memo.ID := fun row => by simp [FindMemo.matchesMemo]
  cases hhead : (db.selectMemos { ID := some memo.ID } []).head? with
  | none =>
      rw [List.head?_eq_none_iff] at hhead
      rcases List.exists_mem_of_ne_nil _ (db.joinMemo_ne_nil memo) with ⟨joined, hjoined⟩
      have hmem : joined ∈ db.selectMemos { ID := some memo.ID } [] := by
        refine (Tables.mem_selectMemos rfl).mpr
          ⟨memo, hmemo, joined, hjoined, (hmatches joined).mpr ?_, by simp, rfl⟩
        rw [Tables.toMemo_of_mem_joinMemo hjoined]
      rw [hhead] at hmem
      cases hmem
  | some row =>
      refine ⟨row, by rw [getMemo_eq rfl, hhead], ?_⟩
      rcases (Tables.mem_selectMemos rfl).mp (List.mem_of_head? hhead) with
        ⟨m, hm, joined, hjoined, hjoinedID, -, rfl⟩
      have hproject : ({ ID := some memo.ID } : FindMemo).project joined = joined := rfl
      have htoMemo := Tables.toMemo_of_mem_joinMemo hjoined
      rw [hmatches, htoMemo] at hjoinedID
      rw [hproject, htoMemo]
      exact db.eq_of_memoID_eq hm hmemo hjoinedID

/-- A query without filters. -/
theorem listAttachments_eq {find : FindAttachment} (h : find.Filters = []) :
    engine.listAttachments find db =
      (.ok (limitRows find.withDefaultLimit.Limit find.withDefaultLimit.Offset
        (engine.attachmentOrder.sort (db.attachments.filter fun a =>
          find.withDefaultLimit.matchesAttachment engine.like a))), db) := by
  have hfilters : find.withDefaultLimit.Filters = [] := by
    rw [FindAttachment.withDefaultLimit]
    split <;> exact h
  have hlist : engine.listAttachments find db =
      (do
        let filters ← Effect.ofExcept ((find.withDefaultLimit.Filters.mapM
          engine.compileAttachmentFilter).mapError ("failed to append filter conditions: " ++ ·))
        Effect.read fun db =>
          limitRows find.withDefaultLimit.Limit find.withDefaultLimit.Offset
            (engine.attachmentOrder.sort (db.attachments.filter fun a =>
              find.withDefaultLimit.matchesAttachment engine.like a &&
                filters.all fun f => f db a)) : StoreM (List Attachment)) db := rfl
  rw [hlist, hfilters]
  have hall : ∀ a : Attachment,
      (find.withDefaultLimit.matchesAttachment engine.like a &&
        ([] : List (Tables → Attachment → Bool)).all fun f => f db a) =
        find.withDefaultLimit.matchesAttachment engine.like a := fun a => by simp
  have hread : (Effect.read fun db : Tables =>
      limitRows find.withDefaultLimit.Limit find.withDefaultLimit.Offset
        (engine.attachmentOrder.sort (db.attachments.filter fun a =>
          find.withDefaultLimit.matchesAttachment engine.like a &&
            ([] : List (Tables → Attachment → Bool)).all fun f => f db a)) :
      StoreM (List Attachment)) db = _ := Effect.read_apply _ db
  simp only [hall] at hread
  exact hread

/-- The attachments linked to a memo that are listed: at most a hundred. -/
def listedAttachments (engine : StoreEngine) (db : Tables) (memoID : ℤ) : List Attachment :=
  (engine.attachmentOrder.sort (db.attachments.filter fun a => a.MemoID = some memoID)).take 100

/-- The attachments of a memo are listed as its listed ones. -/
theorem listAttachments_memo (memoID : ℤ) :
    engine.listAttachments { MemoID := some memoID } db =
      (.ok (engine.listedAttachments db memoID), db) := by
  have hmatches : ∀ a, ({ MemoID := some memoID } : FindAttachment).withDefaultLimit.matchesAttachment
      engine.like a = decide (a.MemoID = some memoID) := fun a => by
    simp [FindAttachment.withDefaultLimit, FindAttachment.matchesAttachment]
  rw [listAttachments_eq rfl]
  simp only [hmatches]
  rfl

/-- A listed attachment belongs to the memo. -/
theorem mem_of_mem_listedAttachments {memoID : ℤ} {a : Attachment}
    (h : a ∈ engine.listedAttachments db memoID) :
    a ∈ db.attachments ∧ a.MemoID = some memoID := by
  have hmem := (engine.attachmentOrder.perm _).mem_iff.mp (List.mem_of_mem_take h)
  obtain ⟨ha, hmemo⟩ := List.mem_filter.mp hmem
  exact ⟨ha, of_decide_eq_true hmemo⟩

/-- An attachment found by a query without filters. -/
theorem getAttachment_eq {find : FindAttachment} (h : find.Filters = [])
    (hlimit : find.withDefaultLimit.Limit = some 100) (hoffset : find.withDefaultLimit.Offset = none) :
    ∃ found, engine.getAttachment find db = (.ok found, db) ∧
      ∀ a ∈ found, a ∈ db.attachments ∧
        find.withDefaultLimit.matchesAttachment engine.like a = true := by
  rw [getAttachment, Effect.bind_of_ok (listAttachments_eq h), hlimit, hoffset]
  refine ⟨_, rfl, fun a ha => ?_⟩
  have hmem := (engine.attachmentOrder.perm _).mem_iff.mp
    (List.mem_of_mem_take (List.mem_of_head? ha))
  exact List.mem_filter.mp hmem

/-- An attachment found by its identifier. -/
theorem getAttachment_id (id : ℤ) :
    ∃ found, engine.getAttachment { ID := some id } db = (.ok found, db) ∧
      ∀ a ∈ found, a ∈ db.attachments ∧ a.ID = id := by
  rcases @getAttachment_eq engine db { ID := some id } rfl rfl rfl with ⟨found, hget, hfound⟩
  refine ⟨found, hget, fun a ha => ⟨(hfound a ha).1, ?_⟩⟩
  simpa [FindAttachment.withDefaultLimit, FindAttachment.matchesAttachment] using (hfound a ha).2

/-- An attachment found by its name. -/
theorem getAttachment_uid (uid : String) :
    ∃ found, engine.getAttachment { UID := some uid } db = (.ok found, db) ∧
      ∀ a ∈ found, a ∈ db.attachments ∧ a.UID = uid := by
  rcases @getAttachment_eq engine db { UID := some uid } rfl rfl rfl with ⟨found, hget, hfound⟩
  refine ⟨found, hget, fun a ha => ⟨(hfound a ha).1, ?_⟩⟩
  simpa [FindAttachment.withDefaultLimit, FindAttachment.matchesAttachment] using (hfound a ha).2

/-- An attachment is deleted, or nothing is changed. -/
theorem deleteAttachment_state (id : ℤ) :
    (∃ err, engine.deleteAttachment id db = (.error err, db)) ∨
      engine.deleteAttachment id db = (.ok (), db.filterAttachments fun a => a.ID ≠ id) := by
  obtain ⟨found, hget, -⟩ := @getAttachment_id engine db id
  have hfound : (engine.getAttachment { ID := some id }).mapError ("failed to get attachment: " ++ ·)
      db = (.ok found, db) := by
    rw [Effect.mapError, hget]
    rfl
  rw [deleteAttachment, Effect.bind_of_ok hfound]
  cases found with
  | none => exact .inl ⟨_, rfl⟩
  | some a =>
      cases hstorage : engine.deleteStorage a with
      | none =>
          simp only [hstorage]
          exact .inr rfl
      | some err =>
          simp only [hstorage]
          by_cases hlocal : a.StorageType = .LOCAL
          · rw [if_pos hlocal]
            exact .inl ⟨_, rfl⟩
          · rw [if_neg hlocal]
            exact .inr rfl

private theorem deleteAttachment_ok {id : ℤ} (h : engine.deleteAttachment id db = (.ok (), db')) :
    db' = db.filterAttachments fun a => a.ID ≠ id := by
  rcases @deleteAttachment_state engine db id with ⟨err, herr⟩ | hok
  · rw [herr] at h
    cases h
  · rw [hok] at h
    exact (Prod.mk.inj h).2.symm

/-- Several attachments are deleted. -/
theorem deleteAttachments_ok {list : List Attachment}
    (h : Effect.forEach (fun a : Attachment => engine.deleteAttachment a.ID) list db =
      (.ok (), db')) :
    db' = db.filterAttachments fun a => a.ID ∉ list.map Attachment.ID := by
  induction list generalizing db with
  | nil =>
      obtain rfl := (Prod.mk.inj h).2
      simp [Tables.filterAttachments]
  | cons a list ih =>
      obtain ⟨_, t, hfirst, hrest⟩ := Effect.ok_of_bind h
      rw [deleteAttachment_ok hfirst] at hrest
      rw [ih hrest, Tables.filterAttachments_filterAttachments]
      congr 1
      funext b
      rw [Bool.eq_iff_iff]
      simp

/-- The tables without a memo, its relations and its listed attachments. -/
def withoutMemo (engine : StoreEngine) (db : Tables) (id : ℤ) : Tables :=
  (((db.deleteMemoRelation { MemoID := some id }).deleteMemoRelation
    { RelatedMemoID := some id }).filterAttachments fun a =>
      a.ID ∉ (engine.listedAttachments db id).map Attachment.ID).filterMemos fun m => m.ID ≠ id

/-- What a successful deletion leaves. -/
theorem deleteMemo_ok {id : ℤ} (h : engine.deleteMemo id db = (.ok (), db')) :
    db' = engine.withoutMemo db id := by
  rw [deleteMemo] at h
  obtain ⟨_, t, hfirst, h⟩ := Effect.ok_of_bind h
  obtain rfl := (Prod.mk.inj hfirst).2
  obtain ⟨_, t, hsecond, h⟩ := Effect.ok_of_bind h
  obtain rfl := (Prod.mk.inj hsecond).2
  rw [Effect.bind_of_ok (listAttachments_memo id)] at h
  obtain ⟨_, t, hdelete, h⟩ := Effect.ok_of_bind h
  rw [deleteAttachments_ok hdelete] at h
  exact (Prod.mk.inj h).2.symm

/-! ## What the operations keep -/

variable {P : Tables → Prop}

/-- A reading changes nothing. -/
theorem listMemos_keeps (find : FindMemo) : Effect.Keeps P (engine.listMemos find) :=
  (Effect.Keeps.ofExcept _).bind fun _ => Effect.Keeps.read _

/-- A reading changes nothing. -/
theorem getMemo_keeps (find : FindMemo) : Effect.Keeps P (engine.getMemo find) :=
  (listMemos_keeps find).bind fun _ => Effect.Keeps.pure _

/-- A query for a name finds a memo with the name, or none. -/
theorem getMemo_uid_triple (uid : String) :
    Effect.Triple P (engine.getMemo { UID := some uid })
      (fun row db => P db ∧ ∀ memo ∈ row, memo.toMemo ∈ db.memos ∧ memo.UID = uid) fun _ => P := by
  refine (getMemo_keeps _).triple_of_ok fun db row db' hdb hget => ?_
  have hstate : db' = db := by
    rw [getMemo_eq rfl] at hget
    exact (Prod.mk.inj hget).2.symm
  subst hstate
  refine ⟨hdb, fun memo hmemo => ?_⟩
  cases hmemo
  obtain ⟨-, hmem, huid, -⟩ := mem_of_getMemo_uid hget
  exact ⟨hmem, huid⟩

/-- A reading changes nothing. -/
theorem listMemoRelations_keeps (find : FindMemoRelation) :
    Effect.Keeps P (engine.listMemoRelations find) :=
  (Effect.Keeps.ofExcept _).bind fun _ => Effect.Keeps.read _

/-- A reading changes nothing. -/
theorem listAttachments_keeps (find : FindAttachment) :
    Effect.Keeps P (engine.listAttachments find) :=
  (Effect.Keeps.ofExcept _).bind fun _ => Effect.Keeps.read _

/-- A reading changes nothing. -/
theorem getAttachment_keeps (find : FindAttachment) :
    Effect.Keeps P (engine.getAttachment find) :=
  (listAttachments_keeps find).bind fun _ => Effect.Keeps.pure _

/-- The deletion of an attachment keeps what does not depend on the row. -/
theorem deleteAttachment_keeps {id : ℤ}
    (h : ∀ db, P db → P (db.filterAttachments fun a => a.ID ≠ id)) :
    Effect.Keeps P (engine.deleteAttachment id) := by
  intro db hdb
  rcases @deleteAttachment_state engine db id with ⟨err, heq⟩ | heq
  · rw [heq]
    exact hdb
  · rw [heq]
    exact h db hdb

end StoreEngine

/-! ## Orders of attachments -/

/-- An order that returns given rows as they are listed. -/
def orderOfList (list : List Attachment)
    (h : list.Pairwise fun a b => b.UpdatedTs ≤ a.UpdatedTs) : AttachmentOrder where
  sort rows := if rows.Perm list then list else AttachmentOrder.stored.sort rows
  perm rows := by
    split
    · next hperm => exact hperm.symm
    · exact AttachmentOrder.stored.perm rows
  sorted rows := by
    split
    · exact h
    · exact AttachmentOrder.stored.sorted rows

/-- The database sorts by time. -/
theorem AttachmentOrder.sorting (order : AttachmentOrder) (rows : List Attachment) :
    Page.Sorting Attachment.UpdatedTs rows (order.sort rows) :=
  ⟨order.perm rows, order.sorted rows⟩

/-- Whatever is sorted by time is what the database returns in some order. -/
theorem exists_order {lists : ℕ → List Attachment} {rows : List Attachment}
    (h : ∀ i, Page.Sorting Attachment.UpdatedTs rows (lists i)) :
    ∃ orders : ℕ → AttachmentOrder, ∀ i, (orders i).sort rows = lists i :=
  ⟨fun i => orderOfList (lists i) (h i).sorted, fun i => if_pos (h i).perm.symm⟩

/-- A query without filters, by limit and offset. -/
theorem listAttachments_page {engine : StoreEngine} {db : Tables} {find : FindAttachment}
    {limit offset : ℕ} (hfilters : find.Filters = []) (hlimit : find.Limit = some (limit : ℤ))
    (hoffset : find.Offset = some (offset : ℤ)) :
    engine.listAttachments find db =
      (.ok (Page.page offset limit (engine.attachmentOrder.sort (db.attachments.filter fun a =>
        find.matchesAttachment engine.like a))), db) := by
  have hdefault : find.withDefaultLimit = find := by
    rw [FindAttachment.withDefaultLimit, hlimit]
    rfl
  have hrows (rows : List Attachment) :
      limitRows find.Limit find.Offset rows = Page.page offset limit rows := by
    rw [hlimit, hoffset]
    simp [limitRows, Page.page]
  rw [StoreEngine.listAttachments_eq hfilters, hdefault, hrows]

end Store
end MemosNote
