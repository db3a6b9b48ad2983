import Mathlib.Data.List.Nodup
import MemosNote.Store.Database

/-!
# The tables of memos and of what hangs on them

The rows of the database with their keys.  Rows refer to each other by identifiers, without
foreign keys; reactions refer to memos by name.

Main results:

- Structure {lit}`Tables`: the tables, with their primary and unique keys.
- Definition {lit}`TableRow.RefersTo`: what a row refers to.
-/

namespace MemosNote
namespace Store

/-! ## Rows -/

/-- Who may see a memo. -/
inductive Visibility where
  | Public
  | Protected
  | Private
deriving DecidableEq, Repr

/-- A place; its coordinates are kept as the bits of their doubles. -/
structure Location where
  Placeholder : String
  Latitude : ℕ
  Longitude : ℕ
deriving DecidableEq, Repr

/-- The properties calculated from the content of a memo. -/
structure MemoProperty where
  HasLink : Bool := false
  HasTaskList : Bool := false
  HasCode : Bool := false
  HasIncompleteTasks : Bool := false
  Title : String := ""
deriving DecidableEq, Repr

/-- What is derived from the content of a memo, and its location. -/
structure MemoPayload where
  Property : Option MemoProperty := none
  Location : Option Location := none
  Tags : List String := []
deriving DecidableEq, Repr

/-- A row of the table {lit}`memo`. -/
structure Memo where
  ID : ℤ
  UID : String
  RowStatus : RowStatus := .NORMAL
  CreatorID : ℤ
  CreatedTs : ℤ := 0
  UpdatedTs : ℤ := 0
  Content : String := ""
  Visibility : Visibility := .Private
  Pinned : Bool := false
  Payload : MemoPayload := {}
deriving DecidableEq, Repr

/-- The kinds of relations. -/
inductive MemoRelationType where
  | Reference
  | Comment
deriving DecidableEq, Repr

/-- A row of the table {lit}`memo_relation`. -/
structure MemoRelation where
  MemoID : ℤ
  RelatedMemoID : ℤ
  RelationType : MemoRelationType
deriving DecidableEq, Repr

/-- Where a file is kept. -/
inductive AttachmentStorageType where
  | ATTACHMENT_STORAGE_TYPE_UNSPECIFIED
  | LOCAL
  | S3
  | EXTERNAL
deriving DecidableEq, Repr

/-- The makers of motion photos. -/
inductive MotionMediaFamily where
  | MOTION_MEDIA_FAMILY_UNSPECIFIED
  | APPLE_LIVE_PHOTO
  | ANDROID_MOTION_PHOTO
deriving DecidableEq, Repr

/-- The parts of a motion photo. -/
inductive MotionMediaRole where
  | MOTION_MEDIA_ROLE_UNSPECIFIED
  | STILL
  | VIDEO
  | CONTAINER
deriving DecidableEq, Repr

/-- The part of a motion photo that an attachment is. -/
structure MotionMedia where
  Family : MotionMediaFamily := .MOTION_MEDIA_FAMILY_UNSPECIFIED
  Role : MotionMediaRole := .MOTION_MEDIA_ROLE_UNSPECIFIED
  GroupId : String := ""
  PresentationTimestampUs : ℤ := 0
  HasEmbeddedVideo : Bool := false
deriving DecidableEq, Repr

/-- The configuration of an S3 storage. -/
structure StorageS3Config where
  AccessKeyId : String := ""
  AccessKeySecret : String := ""
  Endpoint : String := ""
  Region : String := ""
  Bucket : String := ""
  UsePathStyle : Bool := false
  InsecureSkipTlsVerify : Bool := false
deriving DecidableEq, Repr

/-- The file in a bucket. -/
structure S3Object where
  S3Config : Option StorageS3Config := none
  Key : String := ""
  LastPresignedTime : Option ℤ := none
deriving DecidableEq, Repr

/-- What else is known of an attachment. -/
structure AttachmentPayload where
  S3Object : Option S3Object := none
  MotionMedia : Option MotionMedia := none
deriving DecidableEq, Repr

/-- A row of the table {lit}`attachment`, without its blob. -/
structure Attachment where
  ID : ℤ
  UID : String
  CreatorID : ℤ
  CreatedTs : ℤ := 0
  UpdatedTs : ℤ := 0
  Filename : String := ""
  MediaType : String := ""
  Size : ℤ := 0
  StorageType : AttachmentStorageType := .ATTACHMENT_STORAGE_TYPE_UNSPECIFIED
  Reference : String := ""
  Payload : AttachmentPayload := {}
  MemoID : Option ℤ := none
deriving DecidableEq, Repr

/-- A row of the table {lit}`reaction`. -/
structure Reaction where
  ID : ℤ
  CreatedTs : ℤ := 0
  CreatorID : ℤ
  ContentID : String
  ReactionType : String
deriving DecidableEq, Repr

/-- A row of the table {lit}`memo_share`. -/
structure MemoShare where
  ID : ℤ
  UID : String
  MemoID : ℤ
  CreatorID : ℤ
  CreatedTs : ℤ := 0
  ExpiresTs : Option ℤ := none
deriving DecidableEq, Repr

/-- The type of a message; a text may hold a number that has no name. -/
inductive InboxMessageType where
  | TYPE_UNSPECIFIED
  | MEMO_COMMENT
  | MEMO_MENTION
  | unrecognized (number : ℤ)
deriving DecidableEq, Repr

/-- The memos that a message is about. -/
structure InboxMemos where
  MemoId : ℤ
  RelatedMemoId : ℤ
deriving DecidableEq, Repr

/-- The payload of a message, of one of two types. -/
inductive InboxPayload where
  | MemoComment (memos : InboxMemos)
  | MemoMention (memos : InboxMemos)
deriving DecidableEq, Repr

namespace InboxPayload

/-- The type of the messages that carry a payload. -/
def messageType : InboxPayload → InboxMessageType
  | MemoComment _ => .MEMO_COMMENT
  | MemoMention _ => .MEMO_MENTION

/-- The memos that the payload speaks of. -/
def memos : InboxPayload → InboxMemos
  | MemoComment memos => memos
  | MemoMention memos => memos

end InboxPayload

/-- A message; its text holds the type and the payload apart from each other. -/
structure InboxMessage where
  MessageType : InboxMessageType
  Payload : Option InboxPayload
deriving DecidableEq, Repr

/-- The text of a message column: empty, no message, or a message. -/
inductive StoredMessage where
  | blank
  | malformed (err : String)
  | decoded (message : InboxMessage)
deriving DecidableEq, Repr

/-- Whether a message was read. -/
inductive InboxStatus where
  | UNREAD
  | ARCHIVED
deriving DecidableEq, Repr

/-- A row of the table {lit}`inbox`. -/
structure Inbox where
  ID : ℤ
  CreatedTs : ℤ := 0
  SenderID : ℤ
  ReceiverID : ℤ
  Status : InboxStatus := .UNREAD
  Message : StoredMessage
deriving DecidableEq, Repr

/-- A row of the table {lit}`user_identity`. -/
structure UserIdentity where
  ID : ℤ
  UserID : ℤ
  Provider : String
  ExternUID : String
  CreatedTs : ℤ := 0
  UpdatedTs : ℤ := 0
deriving DecidableEq, Repr

/-- A row of the table {lit}`system_setting`. -/
structure SystemSetting where
  Name : String
  Value : String
  Description : String := ""
deriving DecidableEq, Repr

/-- A row of the table {lit}`idp`. -/
structure IdentityProvider where
  ID : ℤ
  UID : String
  Name : String
  ProviderType : String
  IdentifierFilter : String := ""
  Config : String := ""
deriving DecidableEq, Repr

/-! ## Tables -/

/-- The tables.  Identifiers are assigned in increasing order from 1 on, and never again. -/
structure Tables where
  users : List User := []
  userSettings : List (UserSetting String) := []
  userIdentities : List UserIdentity := []
  memos : List Memo := []
  memoRelations : List MemoRelation := []
  attachments : List Attachment := []
  reactions : List Reaction := []
  memoShares : List MemoShare := []
  inboxes : List Inbox := []
  systemSettings : List SystemSetting := []
  idps : List IdentityProvider := []
  /-- The greatest identifier assigned to a memo so far. -/
  memoSequence : ℤ := 0
  memoSequence_nonneg : 0 ≤ memoSequence := by decide
  memoIDs : ∀ memo ∈ memos, 0 < memo.ID ∧ memo.ID ≤ memoSequence
  memoIDs_nodup : (memos.map Memo.ID).Nodup
  memoUIDs_nodup : (memos.map Memo.UID).Nodup
  memoRelations_nodup : memoRelations.Nodup
  attachmentIDs_nodup : (attachments.map Attachment.ID).Nodup
  attachmentUIDs_nodup : (attachments.map Attachment.UID).Nodup
  inboxIDs_nodup : (inboxes.map Inbox.ID).Nodup

/-- Tables of memos, relations and attachments only. -/
def Tables.ofMemos (memos : List Memo) (memoRelations : List MemoRelation)
    (attachments : List Attachment) (memoSequence : ℤ)
    (h : 0 ≤ memoSequence ∧ (∀ memo ∈ memos, 0 < memo.ID ∧ memo.ID ≤ memoSequence) ∧
      (memos.map Memo.ID).Nodup ∧ (memos.map Memo.UID).Nodup ∧ memoRelations.Nodup ∧
      (attachments.map Attachment.ID).Nodup ∧ (attachments.map Attachment.UID).Nodup := by decide) :
    Tables where
  memos := memos
  memoRelations := memoRelations
  attachments := attachments
  memoSequence := memoSequence
  memoSequence_nonneg := h.1
  memoIDs := h.2.1
  memoIDs_nodup := h.2.2.1
  memoUIDs_nodup := h.2.2.2.1
  memoRelations_nodup := h.2.2.2.2.1
  attachmentIDs_nodup := h.2.2.2.2.2.1
  attachmentUIDs_nodup := h.2.2.2.2.2.2
  inboxes := []
  inboxIDs_nodup := List.nodup_nil

/-- The name by which reactions refer to a memo. -/
def buildMemoName (uid : String) : String :=
  "memos/" ++ uid

/-- What rows refer to. -/
inductive Referent where
  | user (id : ℤ)
  | memo (memo : Memo)
  | attachment (attachment : Attachment)
deriving DecidableEq, Repr

/-- A row of some table. -/
inductive TableRow where
  | user (row : User)
  | userSetting (row : UserSetting String)
  | userIdentity (row : UserIdentity)
  | memo (row : Memo)
  | memoRelation (row : MemoRelation)
  | attachment (row : Attachment)
  | reaction (row : Reaction)
  | memoShare (row : MemoShare)
  | inbox (row : Inbox)
  | systemSetting (row : SystemSetting)
  | idp (row : IdentityProvider)
deriving DecidableEq, Repr

namespace StoredMessage

/-- The memo identifiers in the payload of a stored message; 0 stands for no memo. -/
def payloadMemoIDs : StoredMessage → List ℤ
  | .decoded ⟨_, some payload⟩ =>
      [payload.memos.MemoId, payload.memos.RelatedMemoId].filter (· ≠ 0)
  | _ => []

/-- The memo identifiers that a stored message is about: those in a payload of its own type. -/
def memoIDs : StoredMessage → List ℤ
  | .decoded ⟨messageType, some payload⟩ =>
      if messageType = payload.messageType then
        payloadMemoIDs (.decoded ⟨messageType, some payload⟩)
      else []
  | _ => []

end StoredMessage

/-- A row refers to a user, a memo or an attachment: it is its row, or it holds its key. -/
def TableRow.RefersTo : TableRow → Referent → Prop
  | .user row, .user id => row.ID = id
  | .userSetting row, .user id => row.UserID = id
  | .userIdentity row, .user id => row.UserID = id
  | .memo row, .user id => row.CreatorID = id
  | .memo row, .memo m => row.ID = m.ID
  | .memoRelation row, .memo m => row.MemoID = m.ID ∨ row.RelatedMemoID = m.ID
  | .attachment row, .user id => row.CreatorID = id
  | .attachment row, .memo m => row.MemoID = some m.ID
  | .attachment row, .attachment a => row.ID = a.ID
  | .reaction row, .user id => row.CreatorID = id
  | .reaction row, .memo m => row.ContentID = buildMemoName m.UID
  | .memoShare row, .user id => row.CreatorID = id
  | .memoShare row, .memo m => row.MemoID = m.ID
  | .inbox row, .user id => row.SenderID = id ∨ row.ReceiverID = id
  | .inbox row, .memo m => m.ID ∈ row.Message.memoIDs
  | _, _ => False

namespace Tables

/-- All rows, table by table. -/
def rows (db : Tables) : List TableRow :=
  db.users.map .user ++ db.userSettings.map .userSetting ++
    db.userIdentities.map .userIdentity ++ db.memos.map .memo ++
    db.memoRelations.map .memoRelation ++ db.attachments.map .attachment ++
    db.reactions.map .reaction ++ db.memoShares.map .memoShare ++ db.inboxes.map .inbox ++
    db.systemSettings.map .systemSetting ++ db.idps.map .idp

/-- The row is in its table. -/
def Has (db : Tables) : TableRow → Prop
  | .user row => row ∈ db.users
  | .userSetting row => row ∈ db.userSettings
  | .userIdentity row => row ∈ db.userIdentities
  | .memo row => row ∈ db.memos
  | .memoRelation row => row ∈ db.memoRelations
  | .attachment row => row ∈ db.attachments
  | .reaction row => row ∈ db.reactions
  | .memoShare row => row ∈ db.memoShares
  | .inbox row => row ∈ db.inboxes
  | .systemSetting row => row ∈ db.systemSettings
  | .idp row => row ∈ db.idps

theorem mem_rows (db : Tables) (row : TableRow) : row ∈ db.rows ↔ db.Has row := by
  cases row <;> simp [rows, Has]

/-- Memos with one identifier are one. -/
theorem eq_of_memoID_eq (db : Tables) {m n : Memo} (hm : m ∈ db.memos) (hn : n ∈ db.memos)
    (h : m.ID = n.ID) : m = n :=
  List.inj_on_of_nodup_map db.memoIDs_nodup hm hn h

theorem eq_of_memoUID_eq (db : Tables) {m n : Memo} (hm : m ∈ db.memos) (hn : n ∈ db.memos)
    (h : m.UID = n.UID) : m = n :=
  List.inj_on_of_nodup_map db.memoUIDs_nodup hm hn h

theorem eq_of_attachmentID_eq (db : Tables) {a b : Attachment} (ha : a ∈ db.attachments)
    (hb : b ∈ db.attachments) (h : a.ID = b.ID) : a = b :=
  List.inj_on_of_nodup_map db.attachmentIDs_nodup ha hb h

theorem eq_of_attachmentUID_eq (db : Tables) {a b : Attachment} (ha : a ∈ db.attachments)
    (hb : b ∈ db.attachments) (h : a.UID = b.UID) : a = b :=
  List.inj_on_of_nodup_map db.attachmentUIDs_nodup ha hb h

theorem eq_of_inboxID_eq (db : Tables) {i j : Inbox} (hi : i ∈ db.inboxes) (hj : j ∈ db.inboxes)
    (h : i.ID = j.ID) : i = j :=
  List.inj_on_of_nodup_map db.inboxIDs_nodup hi hj h

end Tables

end Store
end MemosNote
