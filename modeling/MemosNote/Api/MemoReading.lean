import Mathlib.Data.List.Dedup
import MemosNote.Api.MemoMessage

/-!
# Reading memos

The message of a memo: its row, its attachments, and the relations whose memos the user may see.

Main results:

- Theorem {lit}`getMemo_keeps`: reading changes nothing.
- Theorem {lit}`getMemo_ok`: what a fetched memo shows of its row and of its attachments.
-/

namespace MemosNote
namespace Api

open Library Store

/-- A number of seconds since the epoch. -/
def timestampOfUnix (seconds : ℤ) : Timestamp :=
  ⟨seconds, 0⟩

/-- The message of an attachment, with the memo it is linked to, and the place of a file that is
kept elsewhere. -/
def convertAttachmentFromStore (db : Tables) (attachment : Attachment) : AttachmentMessage where
  Name := attachmentNamePrefix ++ attachment.UID
  CreateTime := some (timestampOfUnix attachment.CreatedTs)
  Filename := attachment.Filename
  MediaType := attachment.MediaType
  Size := attachment.Size
  MotionMedia := attachment.Payload.MotionMedia
  Memo :=
    match attachment.MemoID.bind db.memoUID? with
    | none => none
    | some memoUID => if memoUID = "" then none else some (memoNamePrefix ++ memoUID)
  ExternalLink :=
    if attachment.StorageType = .EXTERNAL ∨ attachment.StorageType = .S3 then
      attachment.Reference
    else ""

/-- The filter for the memos that a user may see. -/
def visibleMemos : Option User → String
  | none => "visibility == \"PUBLIC\""
  | some user =>
      "creator_id == " ++ toString user.ID ++ " || visibility in [\"PUBLIC\", \"PROTECTED\"]"

/-- The relations of two lists, each once. -/
def mergeMemoRelations (outgoing incoming : List MemoRelation) : List MemoRelation :=
  (outgoing ++ incoming).foldl (fun merged r => if r ∈ merged then merged else merged ++ [r]) []

/-- The memo of a relation, from the memos that were loaded. -/
def relationMemo (loaded : List (ℤ × RelationMemo)) (id : ℤ) : Option RelationMemo :=
  (loaded.find? fun entry => entry.1 = id).map Prod.snd

/-- The message of a relation, for each of its ends that is the memo. -/
def convertMemoRelation (loaded : List (ℤ × RelationMemo)) (memoID : ℤ) (r : MemoRelation) :
    List RelationMessage :=
  match relationMemo loaded r.MemoID, relationMemo loaded r.RelatedMemoID with
  | some memo, some relatedMemo =>
      let relation := {
        Memo := some memo
        RelatedMemo := some relatedMemo
        RelationType := convertMemoRelationTypeFromStore r.RelationType }
      (if r.MemoID = memoID then [relation] else []) ++
        if r.RelatedMemoID = memoID then [relation] else []
  | _, _ => []

namespace MemoService

variable (svc : MemoService)

def getMemoContentSnippet (content : String) : Except String String :=
  (svc.generateSnippet content).mapError ("failed to generate snippet: " ++ ·)

/-- A loaded memo with its name and its snippet. -/
def relationEntry (failed : String) (memo : Memo) : Except String (ℤ × RelationMemo) :=
  match svc.getMemoContentSnippet memo.Content with
  | .error err => .error (failed ++ ": " ++ err)
  | .ok snippet => .ok (memo.ID, ⟨memoNamePrefix ++ memo.UID, snippet⟩)

/-- The relations of a memo between memos that the user may see. -/
def loadMemoRelations (memo : Memo) : StoreM (List RelationMessage) := do
  let currentUser ← Effect.ofExcept (svc.fetchCurrentUser.mapError ("failed to get user: " ++ ·))
  let memoFilter := visibleMemos currentUser
  let outgoing ← (svc.engine.listMemoRelations
    { SourceMemoIDList := [memo.ID], MemoFilter := some memoFilter }).mapError
      ("failed to batch list outgoing memo relations: " ++ ·)
  let incoming ← (svc.engine.listMemoRelations
    { RelatedMemoIDList := [memo.ID], MemoFilter := some memoFilter }).mapError
      ("failed to batch list incoming memo relations: " ++ ·)
  let allRelations := mergeMemoRelations outgoing incoming
  let entry ← Effect.ofExcept (svc.relationEntry "failed to get memo content snippet" memo)
  let extraIDs := ((allRelations.flatMap fun r => [r.MemoID, r.RelatedMemoID]).dedup).filter
    (· ≠ memo.ID)
  let extraMemos ← Effect.mapError ("failed to batch fetch related memos: " ++ ·)
    (if extraIDs = [] then pure [] else svc.engine.listMemos { IDList := extraIDs })
  let entries ← Effect.ofExcept (extraMemos.mapM fun m =>
    svc.relationEntry "failed to get related memo content snippet" m.toMemo)
  pure (allRelations.flatMap (convertMemoRelation (entry :: entries) memo.ID))

/-- The text of the error for a memo without a creator. -/
def errMemoCreatorNotFound : String :=
  "memo creator not found"

/-- The message of a memo, whose creator must exist. -/
def convertMemoFromStore (db : Tables) (memo : Memo) (attachments : List Attachment)
    (relations : List RelationMessage) : Except String MemoMessage :=
  if (db.users.find? fun user => user.ID = memo.CreatorID).isNone then
    .error errMemoCreatorNotFound
  else
    match svc.getMemoContentSnippet memo.Content with
    | .error err => .error ("failed to get memo content snippet: " ++ err)
    | .ok _ =>
        .ok {
          Name := memoNamePrefix ++ memo.UID
          State := convertStateFromStore memo.RowStatus
          CreateTime := some (timestampOfUnix memo.CreatedTs)
          UpdateTime := some (timestampOfUnix memo.UpdatedTs)
          Content := memo.Content
          Visibility := convertVisibilityFromStore memo.Visibility
          Pinned := memo.Pinned
          Location := memo.Payload.Location
          Relations := relations
          Attachments := attachments.map (convertAttachmentFromStore db) }

/-- The creator reads archived memos; users read protected memos, and the creator private ones. -/
def checkMemoReadAccess (memo : Memo) : Except Failure Unit :=
  let archivedAccess : Except Failure Unit :=
    if memo.RowStatus = .ARCHIVED then
      match svc.fetchCurrentUser with
      | .error _ => .error (.status .Internal "failed to get user")
      | .ok user =>
          if user.any fun user => memo.CreatorID = user.ID then .ok ()
          else .error (.status .NotFound "memo not found")
    else .ok ()
  let visibleAccess : Except Failure Unit :=
    if memo.Visibility = .Public then .ok ()
    else
      match svc.fetchCurrentUser with
      | .error _ => .error (.status .Internal "failed to get user")
      | .ok none => .error (.status .Unauthenticated "user not authenticated")
      | .ok (some user) =>
          if memo.Visibility = .Private ∧ memo.CreatorID ≠ user.ID then
            .error (.status .PermissionDenied "permission denied")
          else .ok ()
  archivedAccess.bind fun _ => visibleAccess

/-- The parent of a comment must be readable too. -/
def checkParentReadAccess (memo : FoundMemo) : ApiM Unit :=
  match memo.ParentUID with
  | none => pure ()
  | some parentUID => do
      let parentMemo ← internally "failed to get parent memo"
        (svc.engine.getMemo { UID := some parentUID })
      match parentMemo with
      | none => Effect.fail (.status .NotFound "memo not found")
      | some parentMemo => Effect.ofExcept (svc.checkMemoReadAccess parentMemo.toMemo)

def getMemo (name : String) : ApiM MemoMessage := do
  let memo ← svc.requireMemo name fun err => .status .Unknown err
  Effect.ofExcept (svc.checkMemoReadAccess memo.toMemo)
  svc.checkParentReadAccess memo
  let attachments ← internally "failed to list attachments"
    (svc.engine.listAttachments { MemoID := some memo.ID })
  let relations ← withStatus .Unknown (fun err => "failed to load memo relations: " ++ err)
    (svc.loadMemoRelations memo.toMemo)
  let db ← Effect.read id
  Effect.ofExcept ((svc.convertMemoFromStore db memo.toMemo attachments relations).mapError
    fun err =>
      if err = errMemoCreatorNotFound then .status .NotFound "memo creator not found"
      else .status .Unknown ("failed to convert memo: " ++ err))

/-- The message of a memo after a write. -/
def buildUpdatedMemoState (memoID : ℤ) : StoreM MemoMessage := do
  let found ← (svc.engine.getMemo { ID := some memoID }).mapError ("failed to get memo: " ++ ·)
  match found with
  | none => Effect.fail "memo not found"
  | some memo => do
      let attachments ← (svc.engine.listAttachments { MemoID := some memo.ID }).mapError
        ("failed to list attachments: " ++ ·)
      let relations ← (svc.loadMemoRelations memo.toMemo).mapError
        ("failed to load memo relations: " ++ ·)
      let db ← Effect.read id
      Effect.ofExcept ((svc.convertMemoFromStore db memo.toMemo attachments relations).mapError
        ("failed to convert memo: " ++ ·))

/-! ## Reading changes nothing -/

variable {svc} {P : Tables → Prop}

theorem loadMemoRelations_keeps (memo : Memo) : Effect.Keeps P (svc.loadMemoRelations memo) := by
  refine (Effect.Keeps.ofExcept _).bind fun user => ?_
  refine ((StoreEngine.listMemoRelations_keeps _).mapError _).bind fun outgoing => ?_
  refine ((StoreEngine.listMemoRelations_keeps _).mapError _).bind fun incoming => ?_
  refine (Effect.Keeps.ofExcept _).bind fun entry => ?_
  refine Effect.Keeps.bind (Effect.Keeps.mapError ?_ _) fun extra =>
    (Effect.Keeps.ofExcept _).bind fun _ => Effect.Keeps.pure _
  split
  · exact Effect.Keeps.pure _
  · exact StoreEngine.listMemos_keeps _

theorem buildUpdatedMemoState_keeps (memoID : ℤ) :
    Effect.Keeps P (svc.buildUpdatedMemoState memoID) := by
  refine ((StoreEngine.getMemo_keeps _).mapError _).bind fun found => ?_
  cases found with
  | none => exact Effect.Keeps.fail _
  | some memo =>
      refine ((StoreEngine.listAttachments_keeps _).mapError _).bind fun attachments => ?_
      refine ((loadMemoRelations_keeps _).mapError _).bind fun relations => ?_
      exact Effect.Keeps.read_bind fun s hs => Effect.Keeps.ofExcept _ s hs

theorem checkParentReadAccess_keeps (memo : FoundMemo) :
    Effect.Keeps P (svc.checkParentReadAccess memo) := by
  rw [checkParentReadAccess]
  cases memo.ParentUID with
  | none => exact Effect.Keeps.pure _
  | some parentUID =>
      refine ((StoreEngine.getMemo_keeps _).mapError _).bind fun parent => ?_
      cases parent with
      | none => exact Effect.Keeps.fail _
      | some parent => exact Effect.Keeps.ofExcept _

theorem getMemo_keeps (name : String) : Effect.Keeps P (svc.getMemo name) := by
  refine (requireMemo_keeps _ _).bind fun memo => ?_
  refine (Effect.Keeps.ofExcept _).bind fun _ => ?_
  refine (checkParentReadAccess_keeps memo).bind fun _ => ?_
  refine ((StoreEngine.listAttachments_keeps _).mapError _).bind fun attachments => ?_
  refine ((loadMemoRelations_keeps _).mapError _).bind fun relations => ?_
  exact Effect.Keeps.read_bind fun s hs => Effect.Keeps.ofExcept _ s hs

/-! ## What a fetched memo shows -/

theorem convertMemoFromStore_ok {db : Tables} {memo : Memo} {attachments : List Attachment}
    {relations : List RelationMessage} {message : MemoMessage}
    (h : svc.convertMemoFromStore db memo attachments relations = .ok message) :
    message = {
      Name := memoNamePrefix ++ memo.UID
      State := convertStateFromStore memo.RowStatus
      CreateTime := some (timestampOfUnix memo.CreatedTs)
      UpdateTime := some (timestampOfUnix memo.UpdatedTs)
      Content := memo.Content
      Visibility := convertVisibilityFromStore memo.Visibility
      Pinned := memo.Pinned
      Location := memo.Payload.Location
      Relations := relations
      Attachments := attachments.map (convertAttachmentFromStore db) } := by
  rw [convertMemoFromStore] at h
  split at h
  · cases h
  · split at h
    · cases h
    · exact (Except.ok.inj h).symm

/-- A fetched memo shows its row and its listed attachments. -/
theorem getMemo_ok {db : Tables} {name : String} {message : MemoMessage}
    {db' : Tables} (h : svc.getMemo name db = (.ok message, db')) :
    db' = db ∧ ∃ memo : FoundMemo, memo.toMemo ∈ db.memos ∧ name = buildMemoName memo.UID ∧
      ∃ relations, svc.convertMemoFromStore db memo.toMemo
        (svc.engine.listedAttachments db memo.ID) relations = .ok message := by
  rw [getMemo] at h
  rcases Effect.ok_of_read_bind (fun s => requireMemo_keeps _ _) h with ⟨memo, hfind, haccess⟩
  rcases requireMemo_ok hfind with ⟨-, hname, hmem, -⟩
  rcases Effect.ok_of_read_bind (fun s => Effect.Keeps.ofExcept _) haccess with ⟨_, -, hparent⟩
  rcases Effect.ok_of_read_bind (fun s => checkParentReadAccess_keeps memo) hparent with
    ⟨_, -, hlist⟩
  have hattachments : internally "failed to list attachments"
      (svc.engine.listAttachments { MemoID := some memo.ID }) db =
        (.ok (svc.engine.listedAttachments db memo.ID), db) := by
    rw [internally, withStatus, Effect.mapError, StoreEngine.listAttachments_memo]
    rfl
  rw [Effect.bind_of_ok hattachments] at hlist
  rcases Effect.ok_of_read_bind (fun s => (loadMemoRelations_keeps memo.toMemo).mapError _) hlist with
    ⟨relations, -, hconvert⟩
  rcases Effect.ok_of_ofExcept hconvert with ⟨hmessage, rfl⟩
  refine ⟨rfl, memo, hmem, eq_of_extractMemoUIDFromName hname, relations, ?_⟩
  cases hresult : svc.convertMemoFromStore db' memo.toMemo
      (svc.engine.listedAttachments db' memo.ID) relations with
  | ok message' =>
      rw [id, hresult] at hmessage
      cases hmessage
      rfl
  | error err =>
      rw [id, hresult] at hmessage
      cases hmessage

end MemoService

end Api
end MemosNote
