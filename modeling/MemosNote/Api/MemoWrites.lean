import MemosNote.Api.MemoLinks
import MemosNote.Filter.Engine

/-!
# Creating and updating memos

The operations that write memos.  What they notify about is left out: it is written to the inbox
only, after the memo and its links.

Main results:

- Definition {lit}`createMemo`, Definition {lit}`createMemoComment`, Definition
  {lit}`updateMemo`: the operations.
- Theorem {lit}`updateContent_ok`: the payload of a new content.
-/

namespace MemosNote
namespace Api

open Library Store
open MemosNote.Filter (isSpace)

/-- The text without white space at its ends. -/
def trimSpace (text : String) : String :=
  String.ofList (((text.toList.dropWhile isSpace).reverse.dropWhile isSpace).reverse)

/-- The text without white space at its ends, if it can be an identifier. -/
def validateAndGenerateUID (uuid provided : String) : Except Failure String :=
  let uid := trimSpace provided
  if uid = "" then .ok uuid
  else if UIDMatcher uid then .ok uid
  else .error (.status .InvalidArgument ("invalid ID format: must be 1-36 characters, " ++
    "alphanumeric and hyphens only, cannot start or end with hyphen"))

namespace MemoService

variable (svc : MemoService)

/-- The payload of a memo with the tags and the properties of its content. -/
def rebuildMemoPayload (memo : Memo) : Except String MemoPayload :=
  match svc.extractAll memo.Content with
  | .error err => .error ("failed to extract markdown metadata: " ++ err)
  | .ok data => .ok { memo.Payload with Tags := data.Tags, Property := data.Property }

/-- Content may have as many bytes as the limit allows. -/
def checkContentLength (content : String) : Except Failure Unit :=
  match svc.contentLengthLimit with
  | .error _ => .error (.status .Internal "failed to get content length limit")
  | .ok limit =>
      if limit < content.utf8ByteSize then
        .error (.status .InvalidArgument
          ("content too long (max " ++ toString limit ++ " characters)"))
      else .ok ()

/-! ## Creation -/

structure CreateMemoRequest where
  Memo : Option MemoMessage
  MemoId : String := ""
deriving DecidableEq, Repr

/-- The times of a new memo, 0 for none. -/
def validTime (time : Option Timestamp) : ℤ :=
  match time with
  | some t => if t.isValid then t.unix else 0
  | none => 0

/-- The error of an insertion whose name is taken. -/
def creationFailed (memoUID err : String) : Failure :=
  if err = "UNIQUE constraint failed: memo.uid" then
    .status .AlreadyExists ("memo with ID " ++ svc.quote memoUID ++ " already exists")
  else .status .Unknown err

/-- The attachments of a new memo, as they are listed when they are set. -/
def setNewAttachments (user : User) (message : MemoMessage) (memo : Memo) :
    ApiM (List Attachment) :=
  if message.Attachments = [] then pure []
  else do
    (svc.setMemoAttachmentsInternal user memo message.Attachments).mapError
      (Failure.wrap "failed to set memo attachments")
    withStatus .Unknown (fun err => "failed to get memo attachments: " ++ err)
      (svc.engine.listAttachments { MemoID := some memo.ID })

/-- The references of a new memo. -/
def setNewRelations (message : MemoMessage) (memo : Memo) : ApiM Unit :=
  if message.Relations = [] then pure ()
  else (svc.setMemoRelationsInternal memo message.Relations).mapError
    (Failure.wrap "failed to set memo relations")

/-- The attachments, the references and the message of a new memo, which the response carries. -/
def finishMemo (user : User) (message : MemoMessage) (memo : Memo) : ApiM MemoMessage := do
  let attachments ← svc.setNewAttachments user message memo
  svc.setNewRelations message memo
  let relations ← withStatus .Unknown (fun err => "failed to load memo relations: " ++ err)
    (svc.loadMemoRelations memo)
  let db ← Effect.read id
  Effect.ofExcept ((svc.convertMemoFromStore db memo attachments relations).mapError fun err =>
    .status .Unknown ("failed to convert memo: " ++ err))

def createMemo (request : CreateMemoRequest) : ApiM Memo := do
  let user ← Effect.ofExcept (svc.requireUser "failed to get user")
  let memoUID ← Effect.ofExcept (validateAndGenerateUID svc.uuid request.MemoId)
  let message ← dereference request.Memo
  let create : Memo := {
    ID := 0
    UID := memoUID
    CreatorID := user.ID
    Content := message.Content
    Visibility := convertVisibilityToStore message.Visibility
    CreatedTs := validTime message.CreateTime
    UpdatedTs := validTime message.UpdateTime }
  Effect.ofExcept (svc.checkContentLength create.Content)
  let payload ← Effect.ofExcept ((svc.rebuildMemoPayload create).mapError fun err =>
    .status .Internal ("failed to rebuild memo payload: " ++ err))
  let memo ← (svc.engine.createMemo { create with
    Payload := { payload with Location := message.Location <|> payload.Location } }).mapError
      (svc.creationFailed memoUID)
  let _ ← svc.finishMemo user message memo
  pure memo

structure CreateMemoCommentRequest where
  Name : String
  Comment : Option MemoMessage
  CommentId : String := ""
deriving DecidableEq, Repr

/-- Relate a new memo, found by its name, to the memo that it comments on. -/
def relateComment (relatedMemo : Memo) (created : Memo) : ApiM Memo := do
  let memoUID ← svc.memoUIDOfName (buildMemoName created.UID)
  let found ← internally "failed to get memo" (svc.engine.getMemo { UID := some memoUID })
  let memo ← dereference found
  internally "failed to create memo relation"
    (StoreEngine.upsertMemoRelation ⟨memo.ID, relatedMemo.ID, .Comment⟩)
  pure created

/-- Create a comment with the visibility of the memo that it comments on. -/
def createComment (relatedMemo : Memo) (comment : MemoMessage) (commentID : String) :
    ApiM Memo := do
  let created ← (svc.createMemo {
    Memo := some { comment with Visibility := convertVisibilityFromStore relatedMemo.Visibility }
    MemoId := commentID }).mapError fun _ => .status .Internal "failed to create memo"
  svc.relateComment relatedMemo created

/-- Everyone may comment on a memo that is not private. -/
def canComment (user : User) (relatedMemo : Memo) : Bool :=
  relatedMemo.Visibility ≠ .Private || canModifyMemo user relatedMemo

def createMemoComment (request : CreateMemoCommentRequest) : ApiM Memo := do
  let relatedMemo ← svc.requireMemo request.Name fun _ => .status .Internal "failed to get memo"
  let user ← Effect.ofExcept (svc.requireUser "failed to get user")
  if !canComment user relatedMemo.toMemo then
    Effect.fail (.status .PermissionDenied "permission denied")
  else
    match request.Comment with
    | none => Effect.fail (.status .InvalidArgument "comment is required")
    | some comment => svc.createComment relatedMemo.toMemo comment request.CommentId

/-! ## Update -/

structure UpdateMemoRequest where
  Memo : Option MemoMessage
  UpdateMask : Option (List String)
deriving DecidableEq, Repr

/-- The memo of an update as it is read and changed in place, and the update collected so far. -/
structure UpdateState where
  memo : FoundMemo
  update : UpdateMemo
deriving DecidableEq, Repr

/-- The path {lit}`content`. -/
def updateContent (message : MemoMessage) (st : UpdateState) : Except Failure UpdateState :=
  match svc.checkContentLength message.Content with
  | .error failure => .error failure
  | .ok () =>
      let memo := { st.memo with Content := message.Content }
      match svc.rebuildMemoPayload memo.toMemo with
      | .error err => .error (.status .Internal ("failed to rebuild memo payload: " ++ err))
      | .ok payload =>
          .ok {
            memo := { memo with Payload := payload }
            update := { st.update with Content := some message.Content, Payload := some payload } }

/-- The visibility that an update gives a memo: a comment has the visibility of its parent. -/
def updatedVisibility (message : MemoMessage) (memo : FoundMemo) : ApiM Visibility :=
  match memo.ParentUID with
  | none => pure (convertVisibilityToStore message.Visibility)
  | some parentUID => do
      let parentMemo ← internally "failed to get parent memo"
        (svc.engine.getMemo { UID := some parentUID })
      match parentMemo with
      | none => Effect.fail (.status .NotFound "memo not found")
      | some parentMemo => pure parentMemo.Visibility

/-- The path {lit}`location`. -/
def updateLocation (message : MemoMessage) (st : UpdateState) : UpdateState :=
  let payload := { st.memo.Payload with Location := message.Location }
  { memo := { st.memo with Payload := payload }
    update := { st.update with Payload := some payload } }

/-- One path of a mask.  Attachments and references are set at once; the rest is collected. -/
def updatePath (user : User) (message : MemoMessage) (path : String) (st : UpdateState) :
    ApiM UpdateState :=
  if path = "content" then Effect.ofExcept (svc.updateContent message st)
  else if path = "visibility" then do
    let visibility ← svc.updatedVisibility message st.memo
    pure { st with update := { st.update with Visibility := some visibility } }
  else if path = "pinned" then
    pure { st with update := { st.update with Pinned := some message.Pinned } }
  else if path = "state" then
    pure { st with update := { st.update with
      RowStatus := some (convertStateToStore message.State) } }
  else if path = "create_time" then
    -- Without a time, the epoch.
    pure { st with update := { st.update with
      CreatedTs := some (message.CreateTime.elim 0 Timestamp.unix) } }
  else if path = "update_time" then
    pure { st with update := { st.update with
      UpdatedTs := some (message.UpdateTime.elim svc.engine.now Timestamp.unix) } }
  else if path = "display_time" then
    Effect.fail (.status .InvalidArgument "display_time is not supported")
  else if path = "location" then pure (updateLocation message st)
  else if path = "attachments" then do
    (svc.setMemoAttachmentsInternal user st.memo.toMemo message.Attachments).mapError
      (Failure.wrap "failed to set memo attachments")
    pure st
  else if path = "relations" then do
    (svc.setMemoRelationsInternal st.memo.toMemo message.Relations).mapError
      (Failure.wrap "failed to set memo relations")
    pure st
  else pure st

def updatePaths (user : User) (message : MemoMessage) : List String → UpdateState →
    ApiM UpdateState
  | [], st => pure st
  | path :: paths, st => do
      let st ← svc.updatePath user message path st
      updatePaths user message paths st

/-- Write what was collected, and read the message of the response. -/
def writeUpdate (st : UpdateState) : ApiM MemoMessage := do
  internally "failed to update memo" (StoreEngine.updateMemo st.update)
  let found ← withStatus .Unknown (fun err => "failed to get memo: " ++ err)
    (svc.engine.getMemo { ID := some st.memo.ID })
  let memo ← dereference found
  withStatus .Unknown (fun err => "failed to build updated memo state: " ++ err)
    (svc.buildUpdatedMemoState memo.ID)

def updateMemo (request : UpdateMemoRequest) : ApiM MemoMessage := do
  let message ← dereference request.Memo
  let memoUID ← svc.memoUIDOfName message.Name
  match request.UpdateMask with
  | none | some [] => Effect.fail (.status .InvalidArgument "update mask is required")
  | some paths => do
      let found ← svc.findOwnMemo memoUID
        (fun err => .status .Internal ("failed to get memo: " ++ err)) "failed to get current user"
      let st ← svc.updatePaths found.2 message paths ⟨found.1, { ID := found.1.ID }⟩
      svc.writeUpdate st

/-! ## What the operations do -/

variable {svc}

/-- The payload of a content: its tags and properties, and the location as it was. -/
theorem updateContent_ok {message : MemoMessage} {st st' : UpdateState}
    (h : svc.updateContent message st = .ok st') :
    ∃ data, svc.extractAll message.Content = .ok data ∧
      st'.memo = { st.memo with
        Content := message.Content
        Payload := { st.memo.Payload with Tags := data.Tags, Property := data.Property } } ∧
      st'.update = { st.update with
        Content := some message.Content
        Payload := some { st.memo.Payload with Tags := data.Tags, Property := data.Property } } := by
  rw [updateContent] at h
  cases hcheck : svc.checkContentLength message.Content with
  | error failure =>
      rw [hcheck] at h
      cases h
  | ok _ =>
      cases hextract : svc.extractAll message.Content with
      | error err =>
          simp only [hcheck, rebuildMemoPayload, hextract] at h
          cases h
      | ok data =>
          simp only [hcheck, rebuildMemoPayload, hextract] at h
          obtain rfl := Except.ok.inj h
          exact ⟨data, rfl, rfl, rfl⟩

end MemoService

end Api
end MemosNote
