import Mathlib.Data.Nat.Notation
import MemosNote.Library.RecursiveQuery
import MemosNote.Store.Tables

/-!
# The deletion of a user

The deletion collects what belongs to a user: the memos and, by a recursive query, the comments
below them, the attachments of both, and the messages about them.  It then deletes, table by
table and in batches, the rows that refer to any of these, in one transaction.

Main results:

- Theorem {lit}`deleteInBatches_eq`: deleting in batches is deleting at once.
- Theorem {lit}`mem_listDeleteUserMemoTree_iff`: the query returns the tree of comments.
- Theorem {lit}`delete_user_integrity`: what is left does not refer to what was deleted, and
  everything else is left.
-/

namespace MemosNote
namespace Store

open Library

/-! ## Batches -/

/-- The number of identifiers in one statement. -/
def deleteUserBatchSize : ℕ :=
  500

/-- Cut a list into batches. -/
def deleteUserBatches {α : Type} (values : List α) (size : ℕ) : List (List α) :=
  (List.range ((values.length + size - 1) / size)).map fun i => (values.drop (i * size)).take size

/-- Delete the rows one of whose keys is listed. -/
def deleteIn {α β : Type} [DecidableEq β] (keys : α → List β) (values : List β)
    (rows : List α) : List α :=
  rows.filter fun row => ∀ key ∈ keys row, key ∉ values

/-- Delete the rows one of whose keys is listed, batch by batch. -/
def deleteInBatches {α β : Type} [DecidableEq β] (keys : α → List β) (values : List β)
    (rows : List α) : List α :=
  (deleteUserBatches values deleteUserBatchSize).foldl
    (fun rows batch => deleteIn keys batch rows) rows

section

variable {α β : Type}

/-- The batches hold the values of the list, whatever its length. -/
theorem exists_mem_deleteUserBatches {values : List α} {size : ℕ} (hsize : 0 < size) {a : α} :
    (∃ batch ∈ deleteUserBatches values size, a ∈ batch) ↔ a ∈ values := by
  constructor
  · rintro ⟨batch, hbatch, ha⟩
    obtain ⟨i, -, rfl⟩ := List.mem_map.mp hbatch
    exact List.mem_of_mem_drop (List.mem_of_mem_take ha)
  · intro ha
    obtain ⟨j, hj, rfl⟩ := List.mem_iff_getElem.mp ha
    -- the value stands in the batch of its position
    have hdiv : j / size * size + j % size = j := Nat.div_add_mod' j size
    have hmod : j % size < size := Nat.mod_lt j hsize
    refine ⟨_, List.mem_map.mpr ⟨j / size, ?_, rfl⟩, ?_⟩
    · rw [List.mem_range, Nat.div_lt_iff_lt_mul hsize]
      have hceil := Nat.lt_div_mul_add (a := values.length + size - 1) hsize
      omega
    · refine List.mem_iff_getElem.mpr ⟨j % size, ?_, ?_⟩
      · rw [List.length_take, List.length_drop]
        omega
      · rw [List.getElem_take, List.getElem_drop]
        congr 1

variable [DecidableEq β] {keys : α → List β}

private theorem mem_deleteIn {values : List β} {rows : List α} {row : α} :
    row ∈ deleteIn keys values rows ↔ row ∈ rows ∧ ∀ key ∈ keys row, key ∉ values := by
  simp [deleteIn]

private theorem deleteIn_deleteIn (values more : List β) (rows : List α) :
    deleteIn keys more (deleteIn keys values rows) = deleteIn keys (values ++ more) rows := by
  rw [deleteIn, deleteIn, deleteIn, List.filter_filter]
  refine List.filter_congr fun row _ => ?_
  rw [Bool.eq_iff_iff]
  simp only [Bool.and_eq_true, decide_eq_true_eq, List.mem_append, not_or]
  exact ⟨fun h key hkey => ⟨h.2 key hkey, h.1 key hkey⟩,
    fun h => ⟨fun key hkey => (h key hkey).2, fun key hkey => (h key hkey).1⟩⟩

private theorem foldl_deleteIn (batches : List (List β)) (rows : List α) :
    batches.foldl (fun rows batch => deleteIn keys batch rows) rows =
      deleteIn keys batches.flatten rows := by
  induction batches generalizing rows with
  | nil => simp [deleteIn]
  | cons batch batches ih => rw [List.foldl_cons, ih, deleteIn_deleteIn, List.flatten_cons]

/-- Deleting in batches is deleting at once. -/
theorem deleteInBatches_eq (values : List β) (rows : List α) :
    deleteInBatches keys values rows = deleteIn keys values rows := by
  rw [deleteInBatches, foldl_deleteIn, deleteIn, deleteIn]
  refine List.filter_congr fun row _ => ?_
  have hmem : ∀ key, key ∈ (deleteUserBatches values deleteUserBatchSize).flatten ↔
      key ∈ values := fun key => by
    rw [List.mem_flatten]
    exact exists_mem_deleteUserBatches (by decide)
  simp only [hmem]

theorem deleteInBatches_sublist (values : List β) (rows : List α) :
    (deleteInBatches keys values rows).Sublist rows := by
  rw [deleteInBatches_eq]
  exact List.filter_sublist

end

/-! ## Collecting -/

/-- The two identifiers of a memo. -/
structure DeleteUserMemoRef where
  ID : ℤ
  UID : String
deriving DecidableEq, Repr

/-- The two identifiers of the memo. -/
def Memo.ref (memo : Memo) : DeleteUserMemoRef :=
  ⟨memo.ID, memo.UID⟩

/-- What is deleted with a user. -/
structure DeleteUserTargetSet where
  memos : List DeleteUserMemoRef
  attachments : List Attachment
  userSettingKeys : List SettingKey
  inboxIDs : List ℤ
deriving DecidableEq, Repr

namespace DeleteUserTargetSet

variable (targets : DeleteUserTargetSet)

/-- The identifiers of the memos. -/
def memoIDs : List ℤ :=
  targets.memos.map DeleteUserMemoRef.ID

/-- The names under which reactions refer to the memos. -/
def contentIDs : List String :=
  targets.memos.map fun memo => buildMemoName memo.UID

/-- The identifiers of the attachments. -/
def attachmentIDs : List ℤ :=
  targets.attachments.map Attachment.ID

end DeleteUserTargetSet

/-- The comments on a memo: the join of the recursive part of the query. -/
def commentRefs (db : Tables) (parent : DeleteUserMemoRef) : List DeleteUserMemoRef :=
  db.memos.flatMap fun child =>
    (db.memoRelations.filter fun rel =>
      rel.MemoID = child.ID ∧ rel.RelationType = .Comment ∧ rel.RelatedMemoID = parent.ID).map
        fun _ => child.ref

/-- The memos of a user, and the comments below them. -/
def listDeleteUserMemoTree (db : Tables) (userID : ℤ) : List DeleteUserMemoRef :=
  recursiveUnion (commentRefs db) (db.memos.map Memo.ref)
    ((db.memos.filter fun memo => memo.CreatorID = userID).map Memo.ref)

/-- Append the attachments of a query, unless they were seen. -/
def appendDeleteUserAttachments (attachments rows : List Attachment) : List Attachment :=
  rows.foldl (fun attachments row =>
    if row.ID ∈ attachments.map Attachment.ID then attachments else attachments ++ [row]) attachments

/-- The attachments of a user, and those linked to the memos. -/
def listDeleteUserAttachments (db : Tables) (userID : ℤ) (memoIDs : List ℤ) : List Attachment :=
  (deleteUserBatches memoIDs deleteUserBatchSize).foldl
    (fun attachments batch => appendDeleteUserAttachments attachments
      (db.attachments.filter fun a => ∃ memoID ∈ a.MemoID, memoID ∈ batch))
    (appendDeleteUserAttachments [] (db.attachments.filter fun a => a.CreatorID = userID))

/-- The keys of the user's settings. -/
def listDeleteUserSettingKeys (db : Tables) (userID : ℤ) : List SettingKey :=
  (db.userSettings.filter fun s => s.UserID = userID).map UserSetting.Key

/-- The messages that the user sent or received. -/
def listDeleteUserDirectInboxIDs (db : Tables) (userID : ℤ) : List ℤ :=
  (db.inboxes.filter fun i => i.SenderID = userID ∨ i.ReceiverID = userID).map Inbox.ID

/-- A memo of the set; 0 stands for no memo. -/
def memoIDInSet (id : ℤ) (memoIDSet : List ℤ) : Bool :=
  id ≠ 0 && id ∈ memoIDSet

/-- A message is about one of the memos. -/
def inboxMessageTouchesMemoSet (message : InboxMessage) (memoIDSet : List ℤ) : Bool :=
  match message.MessageType, message.Payload with
  | .MEMO_COMMENT, some (.MemoComment payload) =>
      memoIDInSet payload.MemoId memoIDSet || memoIDInSet payload.RelatedMemoId memoIDSet
  | .MEMO_MENTION, some (.MemoMention payload) =>
      memoIDInSet payload.MemoId memoIDSet || memoIDInSet payload.RelatedMemoId memoIDSet
  | _, _ => false

/-- The rows whose message is about one of the memos; a text that is no message is an error. -/
def touchingInboxIDs (memoIDSet : List ℤ) : List Inbox → Except String (List ℤ)
  | [] => .ok []
  | row :: rows =>
      match row.Message with
      | .blank => touchingInboxIDs memoIDSet rows
      | .malformed err => .error err
      | .decoded message => do
          let ids ← touchingInboxIDs memoIDSet rows
          pure (if inboxMessageTouchesMemoSet message memoIDSet then row.ID :: ids else ids)

/-- The other messages, where they speak of a memo of the set. -/
def listDeleteUserMemoReferencedInboxIDs (db : Tables) (userID : ℤ) (memoIDSet : List ℤ) :
    Except String (List ℤ) :=
  touchingInboxIDs memoIDSet
    (db.inboxes.filter fun i => i.SenderID ≠ userID ∧ i.ReceiverID ≠ userID)

/-- All messages to be deleted. -/
def listDeleteUserInboxIDs (db : Tables) (userID : ℤ) (memoIDSet : List ℤ) :
    Except String (List ℤ) := do
  let directIDs := listDeleteUserDirectInboxIDs db userID
  if memoIDSet.length = 0 then pure directIDs
  else
    let memoIDs ← listDeleteUserMemoReferencedInboxIDs db userID memoIDSet
    pure (directIDs ++ memoIDs)

/-- What is to be deleted, read before the first deletion. -/
def collectDeleteUserTargets (db : Tables) (userID : ℤ) : Except String DeleteUserTargetSet := do
  let memos := listDeleteUserMemoTree db userID
  let attachments := listDeleteUserAttachments db userID (memos.map DeleteUserMemoRef.ID)
  let userSettingKeys := listDeleteUserSettingKeys db userID
  let inboxIDs ← listDeleteUserInboxIDs db userID (memos.map DeleteUserMemoRef.ID)
  pure { memos, attachments, userSettingKeys, inboxIDs }

/-! ## Deleting -/

namespace Tables

/-- Fewer reactions. -/
def deleteReactionsByContentIDsTx (db : Tables) (contentIDs : List String) : Tables :=
  { db with reactions := deleteInBatches (fun r => [r.ContentID]) contentIDs db.reactions }

/-- Delete the attachments in batches. -/
def deleteAttachmentsByIDsTx (db : Tables) (attachmentIDs : List ℤ) : Tables :=
  { db with
    attachments := deleteInBatches (fun a => [a.ID]) attachmentIDs db.attachments
    attachmentIDs_nodup :=
      db.attachmentIDs_nodup.sublist ((deleteInBatches_sublist _ _).map _)
    attachmentUIDs_nodup :=
      db.attachmentUIDs_nodup.sublist ((deleteInBatches_sublist _ _).map _) }

/-- Delete the user's own reactions. -/
def deleteReactionsByCreatorTx (db : Tables) (userID : ℤ) : Tables :=
  { db with reactions := deleteIn (fun r => [r.CreatorID]) [userID] db.reactions }

/-- Delete the shares that the user made, and those of the memos. -/
def deleteMemoSharesTx (db : Tables) (userID : ℤ) (memoIDs : List ℤ) : Tables :=
  { db with
    memoShares := deleteInBatches (fun s => [s.MemoID]) memoIDs
      (deleteIn (fun s => [s.CreatorID]) [userID] db.memoShares) }

/-- Delete the messages in batches. -/
def deleteInboxesByIDsTx (db : Tables) (inboxIDs : List ℤ) : Tables :=
  { db with
    inboxes := deleteInBatches (fun i => [i.ID]) inboxIDs db.inboxes
    inboxIDs_nodup := db.inboxIDs_nodup.sublist ((deleteInBatches_sublist _ _).map _) }

/-- Delete the accounts elsewhere that sign the user in. -/
def deleteUserIdentitiesTx (db : Tables) (userID : ℤ) : Tables :=
  { db with userIdentities := deleteIn (fun i => [i.UserID]) [userID] db.userIdentities }

/-- Delete the user's settings. -/
def deleteUserSettingsTx (db : Tables) (userID : ℤ) : Tables :=
  { db with userSettings := deleteIn (fun s => [s.UserID]) [userID] db.userSettings }

/-- Delete the relations from and to the memos. -/
def deleteMemoRelationsTx (db : Tables) (memoIDs : List ℤ) : Tables :=
  { db with
    memoRelations := deleteInBatches (fun r => [r.MemoID, r.RelatedMemoID]) memoIDs db.memoRelations
    memoRelations_nodup := db.memoRelations_nodup.sublist (deleteInBatches_sublist _ _) }

/-- Delete the memos in batches. -/
def deleteMemosTx (db : Tables) (memoIDs : List ℤ) : Tables :=
  { db with
    memos := deleteInBatches (fun m => [m.ID]) memoIDs db.memos
    memoIDs := fun m hm => db.memoIDs m ((deleteInBatches_sublist _ _).subset hm)
    memoIDs_nodup := db.memoIDs_nodup.sublist ((deleteInBatches_sublist _ _).map _)
    memoUIDs_nodup := db.memoUIDs_nodup.sublist ((deleteInBatches_sublist _ _).map _) }

/-- Delete the user. -/
def deleteUserRowTx (db : Tables) (userID : ℤ) : Tables :=
  { db with users := deleteIn (fun u => [u.ID]) [userID] db.users }

/-- All deletions, in the order of the transaction. -/
def deleteUserTargetsTx (db : Tables) (userID : ℤ) (targets : DeleteUserTargetSet) : Tables :=
  let db := db.deleteReactionsByContentIDsTx targets.contentIDs
  let db := db.deleteAttachmentsByIDsTx targets.attachmentIDs
  let db := db.deleteReactionsByCreatorTx userID
  let db := db.deleteMemoSharesTx userID targets.memoIDs
  let db := db.deleteInboxesByIDsTx targets.inboxIDs
  let db := db.deleteUserIdentitiesTx userID
  let db := db.deleteUserSettingsTx userID
  let db := db.deleteMemoRelationsTx targets.memoIDs
  let db := db.deleteMemosTx targets.memoIDs
  db.deleteUserRowTx userID

end Tables

/-- What is left to be cleaned up once the transaction is committed. -/
structure DeleteUserResult where
  Attachments : List Attachment
  UserSettingKeys : List SettingKey
deriving DecidableEq, Repr

/-- Delete a user in one transaction: an error leaves the database as it was. -/
def DeleteUser (failpointBeforeCommit : Bool) (db : Tables) (userID : ℤ) :
    Except String (DeleteUserResult × Tables) := do
  let targets ← (collectDeleteUserTargets db userID).mapError
    ("failed to collect delete user targets: " ++ ·)
  let deleted := db.deleteUserTargetsTx userID targets
  if failpointBeforeCommit then throw "delete user failpoint before commit"
  pure ({ Attachments := targets.attachments, UserSettingKeys := targets.userSettingKeys }, deleted)

/-! ## What is collected -/

/-- The memos of a user and, recursively, the comments on them. -/
inductive InMemoTree (db : Tables) (userID : ℤ) : Memo → Prop where
  | own {memo : Memo} (hmemo : memo ∈ db.memos) (hcreator : memo.CreatorID = userID) :
      InMemoTree db userID memo
  | comment {child parent : Memo} {rel : MemoRelation} (hchild : child ∈ db.memos)
      (hrel : rel ∈ db.memoRelations) (htype : rel.RelationType = .Comment)
      (hmemo : rel.MemoID = child.ID) (hrelated : rel.RelatedMemoID = parent.ID)
      (hparent : InMemoTree db userID parent) : InMemoTree db userID child

section

variable {db : Tables} {userID : ℤ}

theorem InMemoTree.mem {memo : Memo} (h : InMemoTree db userID memo) : memo ∈ db.memos := by
  cases h with
  | own hmemo hcreator => exact hmemo
  | comment hchild => exact hchild

theorem mem_commentRefs {parent ref : DeleteUserMemoRef} :
    ref ∈ commentRefs db parent ↔ ∃ child ∈ db.memos, ∃ rel ∈ db.memoRelations,
      (rel.MemoID = child.ID ∧ rel.RelationType = .Comment ∧ rel.RelatedMemoID = parent.ID) ∧
        child.ref = ref := by
  simp only [commentRefs, List.mem_flatMap, List.mem_map, List.mem_filter, decide_eq_true_eq,
    and_assoc]

/-- The recursive query returns the tree. -/
theorem mem_listDeleteUserMemoTree_iff {ref : DeleteUserMemoRef} :
    ref ∈ listDeleteUserMemoTree db userID ↔ ∃ memo, InMemoTree db userID memo ∧ memo.ref = ref := by
  have hbase : ∀ r ∈ (db.memos.filter fun memo => memo.CreatorID = userID).map Memo.ref,
      r ∈ db.memos.map Memo.ref := fun r hr =>
    (List.filter_sublist.map _).subset hr
  have hstep : ∀ r, ∀ r' ∈ commentRefs db r, r' ∈ db.memos.map Memo.ref := by
    intro r r' hr'
    obtain ⟨child, hchild, -, -, -, rfl⟩ := mem_commentRefs.mp hr'
    exact List.mem_map_of_mem hchild
  rw [listDeleteUserMemoTree, mem_recursiveUnion_iff hbase hstep]
  constructor
  · rintro ⟨r₀, hr₀, hreach⟩
    induction hreach with
    | refl =>
        obtain ⟨memo, hmemo, rfl⟩ := List.mem_map.mp hr₀
        obtain ⟨hmem, hcreator⟩ := List.mem_filter.mp hmemo
        exact ⟨memo, .own hmem (of_decide_eq_true hcreator), rfl⟩
    | tail _ hlast ih =>
        obtain ⟨parent, hparent, rfl⟩ := ih
        obtain ⟨child, hchild, rel, hrel, ⟨hmemo, htype, hrelated⟩, rfl⟩ := mem_commentRefs.mp hlast
        exact ⟨child, .comment hchild hrel htype hmemo hrelated hparent, rfl⟩
  · rintro ⟨memo, htree, rfl⟩
    induction htree with
    | own hmem hcreator =>
        refine ⟨_, List.mem_map_of_mem (List.mem_filter.mpr ⟨hmem, ?_⟩), .refl⟩
        exact decide_eq_true hcreator
    | comment hchild hrel htype hmemo hrelated _ ih =>
        obtain ⟨r₀, hr₀, hreach⟩ := ih
        refine ⟨r₀, hr₀, hreach.tail ?_⟩
        exact mem_commentRefs.mpr ⟨_, hchild, _, hrel, ⟨hmemo, htype, hrelated⟩, rfl⟩

private theorem mem_treeIDs_iff {id : ℤ} :
    id ∈ (listDeleteUserMemoTree db userID).map DeleteUserMemoRef.ID ↔
      ∃ memo, InMemoTree db userID memo ∧ memo.ID = id := by
  constructor
  · intro h
    obtain ⟨ref, href, rfl⟩ := List.mem_map.mp h
    obtain ⟨memo, htree, rfl⟩ := mem_listDeleteUserMemoTree_iff.mp href
    exact ⟨memo, htree, rfl⟩
  · rintro ⟨memo, htree, rfl⟩
    exact List.mem_map.mpr ⟨memo.ref, mem_listDeleteUserMemoTree_iff.mpr ⟨memo, htree, rfl⟩, rfl⟩

theorem mem_appendDeleteUserAttachments {attachments rows : List Attachment} {id : ℤ} :
    id ∈ (appendDeleteUserAttachments attachments rows).map Attachment.ID ↔
      id ∈ attachments.map Attachment.ID ∨ id ∈ rows.map Attachment.ID := by
  induction rows generalizing attachments with
  | nil => simp [appendDeleteUserAttachments]
  | cons row rows ih =>
      rw [appendDeleteUserAttachments, List.foldl_cons, ← appendDeleteUserAttachments, ih]
      by_cases hseen : row.ID ∈ attachments.map Attachment.ID
      · rw [if_pos hseen, List.map_cons, List.mem_cons]
        constructor
        · exact Or.imp_right .inr
        · rintro (h | rfl | h)
          · exact .inl h
          · exact .inl hseen
          · exact .inr h
      · rw [if_neg hseen, List.map_append, List.map_cons, List.map_cons, List.map_nil,
          List.mem_append, List.mem_singleton, List.mem_cons, or_assoc]

private theorem mem_foldl_appendDeleteUserAttachments (queries : List (List Attachment))
    {attachments : List Attachment} {id : ℤ} :
    id ∈ (queries.foldl appendDeleteUserAttachments attachments).map Attachment.ID ↔
      id ∈ attachments.map Attachment.ID ∨ ∃ rows ∈ queries, id ∈ rows.map Attachment.ID := by
  induction queries generalizing attachments with
  | nil => simp
  | cons rows queries ih =>
      rw [List.foldl_cons, ih, mem_appendDeleteUserAttachments, List.exists_mem_cons_iff, or_assoc]

/-- The attachments collected: those of the user, and those of the memos. -/
theorem mem_listDeleteUserAttachments_iff {memoIDs : List ℤ} {id : ℤ} :
    id ∈ (listDeleteUserAttachments db userID memoIDs).map Attachment.ID ↔
      ∃ a ∈ db.attachments, a.ID = id ∧
        (a.CreatorID = userID ∨ ∃ memoID ∈ a.MemoID, memoID ∈ memoIDs) := by
  have hfold : listDeleteUserAttachments db userID memoIDs =
      ((deleteUserBatches memoIDs deleteUserBatchSize).map fun batch =>
        db.attachments.filter fun a => ∃ memoID ∈ a.MemoID, memoID ∈ batch).foldl
          appendDeleteUserAttachments
          (appendDeleteUserAttachments [] (db.attachments.filter fun a => a.CreatorID = userID)) := by
    rw [listDeleteUserAttachments, List.foldl_map]
  rw [hfold, mem_foldl_appendDeleteUserAttachments, mem_appendDeleteUserAttachments]
  constructor
  · rintro ((h | h) | ⟨rows, hrows, h⟩)
    · simp at h
    · obtain ⟨a, ha, rfl⟩ := List.mem_map.mp h
      obtain ⟨hmem, hcreator⟩ := List.mem_filter.mp ha
      exact ⟨a, hmem, rfl, .inl (of_decide_eq_true hcreator)⟩
    · obtain ⟨batch, hbatch, rfl⟩ := List.mem_map.mp hrows
      obtain ⟨a, ha, rfl⟩ := List.mem_map.mp h
      obtain ⟨hmem, hlinked⟩ := List.mem_filter.mp ha
      obtain ⟨memoID, hmemoID, hin⟩ := of_decide_eq_true hlinked
      refine ⟨a, hmem, rfl, .inr ⟨memoID, hmemoID, ?_⟩⟩
      exact (exists_mem_deleteUserBatches (by decide)).mp ⟨batch, hbatch, hin⟩
  · rintro ⟨a, ha, rfl, hcreator | ⟨memoID, hmemoID, hin⟩⟩
    · refine .inl (.inr (List.mem_map_of_mem (List.mem_filter.mpr ⟨ha, ?_⟩)))
      exact decide_eq_true hcreator
    · have hsize : 0 < deleteUserBatchSize := by decide
      obtain ⟨batch, hbatch, hin⟩ := (exists_mem_deleteUserBatches hsize).mpr hin
      refine .inr ⟨_, List.mem_map_of_mem hbatch, List.mem_map_of_mem (List.mem_filter.mpr ⟨ha, ?_⟩)⟩
      exact decide_eq_true ⟨memoID, hmemoID, hin⟩

private theorem memoIDInSet_iff {id : ℤ} {memoIDSet : List ℤ} :
    memoIDInSet id memoIDSet = true ↔ id ≠ 0 ∧ id ∈ memoIDSet := by
  simp [memoIDInSet]

/-- A message touches the memos that it is about. -/
theorem inboxMessageTouchesMemoSet_iff {message : InboxMessage} {memoIDSet : List ℤ} :
    inboxMessageTouchesMemoSet message memoIDSet = true ↔
      ∃ id ∈ (StoredMessage.decoded message).memoIDs, id ∈ memoIDSet := by
  obtain ⟨messageType, payload⟩ := message
  cases payload with
  | none => cases messageType <;> simp [inboxMessageTouchesMemoSet, StoredMessage.memoIDs]
  | some payload =>
      cases payload <;> cases messageType <;>
        simp [inboxMessageTouchesMemoSet, StoredMessage.memoIDs, StoredMessage.payloadMemoIDs,
          InboxPayload.messageType, InboxPayload.memos, memoIDInSet_iff, or_and_right, exists_or]

private theorem mem_touchingInboxIDs {memoIDSet : List ℤ} {rows : List Inbox} {ids : List ℤ}
    (h : touchingInboxIDs memoIDSet rows = .ok ids) {id : ℤ} :
    id ∈ ids ↔ ∃ row ∈ rows, row.ID = id ∧ ∃ memoID ∈ row.Message.memoIDs, memoID ∈ memoIDSet := by
  induction rows generalizing ids with
  | nil =>
      obtain rfl := Except.ok.inj h
      simp
  | cons row rows ih =>
      rw [touchingInboxIDs] at h
      rw [List.exists_mem_cons_iff]
      cases hmessage : row.Message with
      | blank =>
          rw [hmessage] at h
          simp only [StoredMessage.memoIDs, List.not_mem_nil, false_and, exists_false, and_false,
            false_or]
          exact ih h
      | malformed err =>
          rw [hmessage] at h
          cases h
      | decoded message =>
          rw [hmessage] at h
          rcases hrest : touchingInboxIDs memoIDSet rows with err | rest
          · rw [hrest] at h
            cases h
          · rw [hrest] at h
            obtain rfl := Except.ok.inj h
            rw [← ih hrest, ← inboxMessageTouchesMemoSet_iff]
            by_cases htouches : inboxMessageTouchesMemoSet message memoIDSet = true
            · simp [htouches, eq_comm]
            · simp [htouches]

/-- The messages collected: those of the user, and those about the memos. -/
theorem mem_listDeleteUserInboxIDs {memoIDSet : List ℤ} {ids : List ℤ}
    (h : listDeleteUserInboxIDs db userID memoIDSet = .ok ids) {id : ℤ} :
    id ∈ ids ↔ ∃ i ∈ db.inboxes, i.ID = id ∧
      ((i.SenderID = userID ∨ i.ReceiverID = userID) ∨
        ∃ memoID ∈ i.Message.memoIDs, memoID ∈ memoIDSet) := by
  have hdirect : id ∈ listDeleteUserDirectInboxIDs db userID ↔
      ∃ i ∈ db.inboxes, i.ID = id ∧ (i.SenderID = userID ∨ i.ReceiverID = userID) := by
    simp only [listDeleteUserDirectInboxIDs, List.mem_map, List.mem_filter, decide_eq_true_eq]
    exact exists_congr fun i => by tauto
  rw [listDeleteUserInboxIDs] at h
  by_cases hempty : memoIDSet.length = 0
  · rw [if_pos hempty] at h
    obtain rfl := Except.ok.inj h
    rw [List.length_eq_zero_iff] at hempty
    simp [hdirect, hempty]
  · rw [if_neg hempty] at h
    rcases hreferenced : listDeleteUserMemoReferencedInboxIDs db userID memoIDSet with err | memoIDs
    · rw [hreferenced] at h
      cases h
    · rw [hreferenced] at h
      obtain rfl := Except.ok.inj h
      rw [List.mem_append, hdirect, mem_touchingInboxIDs hreferenced]
      constructor
      · rintro (⟨i, hi, hid, hown⟩ | ⟨i, hi, hid, htouches⟩)
        · exact ⟨i, hi, hid, .inl hown⟩
        · exact ⟨i, (List.mem_filter.mp hi).1, hid, .inr htouches⟩
      · rintro ⟨i, hi, hid, hreason⟩
        by_cases hown : i.SenderID = userID ∨ i.ReceiverID = userID
        · exact .inl ⟨i, hi, hid, hown⟩
        · rw [not_or] at hown
          rcases hreason with hown' | htouches
          · exact absurd hown' (not_or.mpr hown)
          · exact .inr ⟨i, List.mem_filter.mpr ⟨hi, decide_eq_true hown⟩, hid, htouches⟩

end

/-! ## What is left -/

/-- The referents that the deletion removed. -/
inductive Removed (db db' : Tables) (userID : ℤ) : Referent → Prop where
  | user : Removed db db' userID (.user userID)
  | memo {memo : Memo} (h : InMemoTree db userID memo) : Removed db db' userID (.memo memo)
  | attachment {attachment : Attachment} (h : attachment ∈ db.attachments)
      (hgone : attachment ∉ db'.attachments) : Removed db db' userID (.attachment attachment)

/-- A deletion that leaves no reference behind, and changes nothing else. -/
structure IntegrityRestored (db db' : Tables) (userID : ℤ) : Prop where
  noReference : ∀ row ∈ db'.rows, ∀ referent, Removed db db' userID referent →
    ¬ row.RefersTo referent
  unchanged : ∀ row ∈ db.rows, (∀ referent, Removed db db' userID referent →
    ¬ row.RefersTo referent) → row ∈ db'.rows
  noOther : ∀ row ∈ db'.rows, row ∈ db.rows

/-- The rows that the statements of the deletion delete. -/
def Doomed (userID : ℤ) (targets : DeleteUserTargetSet) : TableRow → Prop
  | .user row => row.ID = userID
  | .userSetting row => row.UserID = userID
  | .userIdentity row => row.UserID = userID
  | .memo row => row.ID ∈ targets.memoIDs
  | .memoRelation row => row.MemoID ∈ targets.memoIDs ∨ row.RelatedMemoID ∈ targets.memoIDs
  | .attachment row => row.ID ∈ targets.attachmentIDs
  | .reaction row => row.ContentID ∈ targets.contentIDs ∨ row.CreatorID = userID
  | .memoShare row => row.CreatorID = userID ∨ row.MemoID ∈ targets.memoIDs
  | .inbox row => row.ID ∈ targets.inboxIDs
  | .systemSetting _ => False
  | .idp _ => False

section

variable {db : Tables} {userID : ℤ} {targets : DeleteUserTargetSet}

/-- Table by table, the doomed rows are deleted and the others are left. -/
theorem has_deleteUserTargetsTx (row : TableRow) :
    (db.deleteUserTargetsTx userID targets).Has row ↔ db.Has row ∧ ¬ Doomed userID targets row := by
  cases row <;>
    simp only [Tables.deleteUserTargetsTx, Tables.deleteUserRowTx, Tables.deleteMemosTx,
      Tables.deleteMemoRelationsTx, Tables.deleteUserSettingsTx, Tables.deleteUserIdentitiesTx,
      Tables.deleteInboxesByIDsTx, Tables.deleteMemoSharesTx, Tables.deleteReactionsByCreatorTx,
      Tables.deleteAttachmentsByIDsTx, Tables.deleteReactionsByContentIDsTx, Tables.Has, Doomed,
      deleteInBatches_eq, mem_deleteIn, List.forall_mem_cons, List.mem_singleton, forall_eq,
      not_or, not_false_eq_true, and_true, and_assoc]

/-- The rows of one message are found by its identifier. -/
theorem inboxID_mem_iff {ids : List ℤ} {p : Inbox → Prop}
    (h : ∀ id, id ∈ ids ↔ ∃ i ∈ db.inboxes, i.ID = id ∧ p i) {row : Inbox} (hrow : row ∈ db.inboxes) :
    row.ID ∈ ids ↔ p row := by
  rw [h]
  constructor
  · rintro ⟨i, hi, heq, hp⟩
    rwa [← db.eq_of_inboxID_eq hi hrow heq]
  · intro hp
    exact ⟨row, hrow, rfl, hp⟩

private theorem attachmentID_mem_iff {ids : List ℤ} {p : Attachment → Prop}
    (h : ∀ id, id ∈ ids ↔ ∃ a ∈ db.attachments, a.ID = id ∧ p a) {row : Attachment}
    (hrow : row ∈ db.attachments) : row.ID ∈ ids ↔ p row := by
  rw [h]
  constructor
  · rintro ⟨a, ha, heq, hp⟩
    rwa [← db.eq_of_attachmentID_eq ha hrow heq]
  · intro hp
    exact ⟨row, hrow, rfl, hp⟩

/-- What the collected targets are. -/
structure Collected (db : Tables) (userID : ℤ) (targets : DeleteUserTargetSet) : Prop where
  memoIDs : ∀ id, id ∈ targets.memoIDs ↔ ∃ memo, InMemoTree db userID memo ∧ memo.ID = id
  contentIDs : ∀ contentID, contentID ∈ targets.contentIDs ↔
    ∃ memo, InMemoTree db userID memo ∧ buildMemoName memo.UID = contentID
  attachmentIDs : ∀ row ∈ db.attachments, row.ID ∈ targets.attachmentIDs ↔
    row.CreatorID = userID ∨ ∃ memoID ∈ row.MemoID, memoID ∈ targets.memoIDs
  inboxIDs : ∀ row ∈ db.inboxes, row.ID ∈ targets.inboxIDs ↔
    (row.SenderID = userID ∨ row.ReceiverID = userID) ∨
      ∃ memoID ∈ row.Message.memoIDs, memoID ∈ targets.memoIDs

private theorem collected_of_ok (h : collectDeleteUserTargets db userID = .ok targets) :
    Collected db userID targets := by
  rw [collectDeleteUserTargets] at h
  rcases hinbox : listDeleteUserInboxIDs db userID
      ((listDeleteUserMemoTree db userID).map DeleteUserMemoRef.ID) with err | inboxIDs
  · rw [hinbox] at h
    cases h
  rw [hinbox] at h
  obtain rfl := Except.ok.inj h
  refine ⟨fun id => mem_treeIDs_iff, ?_, ?_, ?_⟩
  · intro contentID
    rw [DeleteUserTargetSet.contentIDs, List.mem_map]
    constructor
    · rintro ⟨ref, href, rfl⟩
      obtain ⟨memo, htree, rfl⟩ := mem_listDeleteUserMemoTree_iff.mp href
      exact ⟨memo, htree, rfl⟩
    · rintro ⟨memo, htree, rfl⟩
      exact ⟨memo.ref, mem_listDeleteUserMemoTree_iff.mpr ⟨memo, htree, rfl⟩, rfl⟩
  · intro row hrow
    exact attachmentID_mem_iff (fun id => mem_listDeleteUserAttachments_iff) hrow
  · intro row hrow
    exact inboxID_mem_iff (fun id => mem_listDeleteUserInboxIDs hinbox) hrow

/-- A doomed row refers to something that is removed. -/
theorem Collected.refersTo_of_doomed (h : Collected db userID targets) {db' : Tables}
    {row : TableRow} (hrow : db.Has row) (hdoomed : Doomed userID targets row) :
    ∃ referent, Removed db db' userID referent ∧ row.RefersTo referent := by
  cases row with
  | user row => exact ⟨_, .user, hdoomed⟩
  | userSetting row => exact ⟨_, .user, hdoomed⟩
  | userIdentity row => exact ⟨_, .user, hdoomed⟩
  | memo row =>
      obtain ⟨memo, htree, hid⟩ := (h.memoIDs _).mp hdoomed
      exact ⟨_, .memo htree, hid.symm⟩
  | memoRelation row =>
      rcases hdoomed with hmemo | hrelated
      · obtain ⟨memo, htree, hid⟩ := (h.memoIDs _).mp hmemo
        exact ⟨_, .memo htree, .inl hid.symm⟩
      · obtain ⟨memo, htree, hid⟩ := (h.memoIDs _).mp hrelated
        exact ⟨_, .memo htree, .inr hid.symm⟩
  | attachment row =>
      rcases (h.attachmentIDs row hrow).mp hdoomed with hcreator | ⟨memoID, hmemoID, hin⟩
      · exact ⟨_, .user, hcreator⟩
      · obtain ⟨memo, htree, rfl⟩ := (h.memoIDs _).mp hin
        exact ⟨_, .memo htree, hmemoID⟩
  | reaction row =>
      rcases hdoomed with hcontent | hcreator
      · obtain ⟨memo, htree, hname⟩ := (h.contentIDs _).mp hcontent
        exact ⟨_, .memo htree, hname.symm⟩
      · exact ⟨_, .user, hcreator⟩
  | memoShare row =>
      rcases hdoomed with hcreator | hmemo
      · exact ⟨_, .user, hcreator⟩
      · obtain ⟨memo, htree, hid⟩ := (h.memoIDs _).mp hmemo
        exact ⟨_, .memo htree, hid.symm⟩
  | inbox row =>
      rcases (h.inboxIDs row hrow).mp hdoomed with hown | ⟨memoID, hmemoID, hin⟩
      · exact ⟨_, .user, hown⟩
      · obtain ⟨memo, htree, rfl⟩ := (h.memoIDs _).mp hin
        exact ⟨_, .memo htree, hmemoID⟩
  | systemSetting row => exact hdoomed.elim
  | idp row => exact hdoomed.elim

/-- A row that refers to something that is removed is doomed. -/
theorem Collected.doomed_of_refersTo (h : Collected db userID targets) {row : TableRow}
    (hrow : db.Has row) {referent : Referent}
    (hremoved : Removed db (db.deleteUserTargetsTx userID targets) userID referent)
    (hrefers : row.RefersTo referent) : Doomed userID targets row := by
  cases hremoved with
  | user =>
      cases row with
      | user row => exact hrefers
      | userSetting row => exact hrefers
      | userIdentity row => exact hrefers
      | memo row => exact (h.memoIDs _).mpr ⟨row, .own hrow hrefers, rfl⟩
      | attachment row => exact (h.attachmentIDs row hrow).mpr (.inl hrefers)
      | reaction row => exact .inr hrefers
      | memoShare row => exact .inl hrefers
      | inbox row => exact (h.inboxIDs row hrow).mpr (.inl hrefers)
      | _ => exact hrefers.elim
  | @memo memo htree =>
      have hmemo : memo.ID ∈ targets.memoIDs := (h.memoIDs _).mpr ⟨memo, htree, rfl⟩
      cases row with
      | memo row => exact Eq.subst (motive := (· ∈ targets.memoIDs)) hrefers.symm hmemo
      | memoRelation row =>
          rcases hrefers with hid | hid
          · exact .inl (hid ▸ hmemo)
          · exact .inr (hid ▸ hmemo)
      | attachment row => exact (h.attachmentIDs row hrow).mpr (.inr ⟨_, hrefers, hmemo⟩)
      | reaction row => exact .inl ((h.contentIDs _).mpr ⟨memo, htree, hrefers.symm⟩)
      | memoShare row => exact .inr (Eq.subst (motive := (· ∈ targets.memoIDs)) hrefers.symm hmemo)
      | inbox row => exact (h.inboxIDs row hrow).mpr (.inr ⟨_, hrefers, hmemo⟩)
      | _ => exact hrefers.elim
  | @attachment attachment hmem hgone =>
      cases row with
      | attachment row =>
          obtain rfl := db.eq_of_attachmentID_eq hrow hmem hrefers
          by_contra hspared
          exact hgone ((has_deleteUserTargetsTx (.attachment row)).mpr ⟨hrow, hspared⟩)
      | _ => exact hrefers.elim

/-- A deletion that commits has collected its targets. -/
theorem exists_targets_of_ok {failpoint : Bool} {db' : Tables} {result : DeleteUserResult}
    (h : DeleteUser failpoint db userID = .ok (result, db')) :
    ∃ targets, collectDeleteUserTargets db userID = .ok targets ∧
      db.deleteUserTargetsTx userID targets = db' := by
  rw [DeleteUser] at h
  rcases hcollect : collectDeleteUserTargets db userID with err | targets
  · rw [hcollect] at h
    cases h
  · rw [hcollect] at h
    cases failpoint with
    | true => cases h
    | false => exact ⟨targets, rfl, (Prod.mk.inj (Except.ok.inj h)).2⟩

end

/-- Referential integrity.  After a deletion that commits, no row refers to the user, to a memo in
the tree below the user's memos or to a deleted attachment, and the rows that refer to none of
these are left as they were. -/
theorem delete_user_integrity {failpoint : Bool} {db db' : Tables} {userID : ℤ}
    {result : DeleteUserResult} (h : DeleteUser failpoint db userID = .ok (result, db')) :
    IntegrityRestored db db' userID := by
  obtain ⟨targets, hcollect, rfl⟩ := exists_targets_of_ok h
  have hcollected := collected_of_ok hcollect
  constructor
  · intro row hrow referent hremoved hrefers
    rw [Tables.mem_rows, has_deleteUserTargetsTx] at hrow
    exact hrow.2 (hcollected.doomed_of_refersTo hrow.1 hremoved hrefers)
  · intro row hrow hnone
    rw [Tables.mem_rows] at hrow ⊢
    refine (has_deleteUserTargetsTx row).mpr ⟨hrow, fun hdoomed => ?_⟩
    obtain ⟨referent, hremoved, hrefers⟩ := hcollected.refersTo_of_doomed hrow hdoomed
    exact hnone referent hremoved hrefers
  · intro row hrow
    rw [Tables.mem_rows, has_deleteUserTargetsTx] at hrow
    exact (Tables.mem_rows db row).mpr hrow.1

/-- Two users, a memo of the first with a comment of the second, and what hangs on them. -/
def commentedMemo : Tables where
  users := [{ ID := 1, Username := "ada" }, { ID := 2, Username := "bob" }]
  memos := [{ ID := 1, UID := "m", CreatorID := 1 }, { ID := 2, UID := "c", CreatorID := 2 },
    { ID := 3, UID := "n", CreatorID := 2 }]
  memoRelations := [⟨2, 1, .Comment⟩, ⟨3, 1, .Reference⟩]
  attachments := [{ ID := 1, UID := "a", CreatorID := 2, MemoID := some 2 }]
  inboxes := [{
    ID := 1
    SenderID := 2
    ReceiverID := 3
    Message := .decoded ⟨.MEMO_COMMENT, some (.MemoComment ⟨2, 1⟩)⟩ }]
  memoSequence := 3
  memoIDs := by decide
  memoIDs_nodup := by decide
  memoUIDs_nodup := by decide
  memoRelations_nodup := by decide
  attachmentIDs_nodup := by decide
  attachmentUIDs_nodup := by decide
  inboxIDs_nodup := by decide

/-- The same after the deletion of the first user. -/
def commentedMemoDeleted : Tables where
  users := [{ ID := 2, Username := "bob" }]
  memos := [{ ID := 3, UID := "n", CreatorID := 2 }]
  memoSequence := 3
  memoIDs := by decide
  memoIDs_nodup := by decide
  memoUIDs_nodup := by decide
  memoRelations_nodup := by decide
  attachmentIDs_nodup := by decide
  attachmentUIDs_nodup := by decide
  inboxIDs_nodup := by decide

set_option maxRecDepth 8000 in
theorem delete_user_integrity_example : IntegrityRestored commentedMemo commentedMemoDeleted 1 :=
  @delete_user_integrity false _ _ _
    ⟨[{ ID := 1, UID := "a", CreatorID := 2, MemoID := some 2 }], []⟩ rfl

/-- A comment message between two others about the memo of the first user, under another type. -/
def mistypedMessage : Inbox :=
  { ID := 1, SenderID := 2, ReceiverID := 3,
    Message := .decoded ⟨.TYPE_UNSPECIFIED, some (.MemoComment ⟨2, 1⟩)⟩ }

/-- A memo, and a message whose payload is not of the message's type. -/
def mistypedInbox : Tables where
  users := [{ ID := 1, Username := "ada" }]
  memos := [{ ID := 1, UID := "m", CreatorID := 1 }]
  inboxes := [mistypedMessage]
  memoSequence := 1
  memoIDs := by decide
  memoIDs_nodup := by decide
  memoUIDs_nodup := by decide
  memoRelations_nodup := by decide
  attachmentIDs_nodup := by decide
  attachmentUIDs_nodup := by decide
  inboxIDs_nodup := by decide

set_option maxRecDepth 8000 in
/-- A message under another type than its payload's is left, although the payload holds the
identifier of a memo that is deleted. -/
theorem delete_user_leaves_mistyped : ∃ result db' memo,
    DeleteUser false mistypedInbox 1 = .ok (result, db') ∧
      InMemoTree mistypedInbox 1 memo ∧ memo.ID ∈ mistypedMessage.Message.payloadMemoIDs ∧
        TableRow.inbox mistypedMessage ∈ db'.rows :=
  ⟨_, _, { ID := 1, UID := "m", CreatorID := 1 }, rfl, .own (by decide) rfl, by decide, by decide⟩

end Store
end MemosNote
