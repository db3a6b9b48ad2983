import MemosNote.Api.MemoReading

/-!
# The attachments and references of a memo

A request gives the attachments and the references that a memo is to have.  Both are set step by
step: attachments and references that are not in the request are deleted first, and the tables are
left as they are when a later step fails.

Main results:

- Theorem {lit}`setMemoAttachmentsInternal_keeps`, Theorem {lit}`setMemoRelationsInternal_keeps`:
  memos and the relations of comments are left alone.
-/

namespace MemosNote
namespace Api

open Library Store

/-! ## Attachments -/

def getAttachmentMotionMedia (attachment : Attachment) : Option MotionMedia :=
  attachment.Payload.MotionMedia

/-- The group of a motion photo that an attachment belongs to. -/
def motionGroup (attachment : Attachment) : Option String :=
  (getAttachmentMotionMedia attachment).bind fun motion =>
    if motion.GroupId = "" then none else some motion.GroupId

def isMultiMemberMotionGroup (attachments : List Attachment) : Bool :=
  2 ≤ attachments.length && attachments.all fun a => (motionGroup a).isSome

def allGroupMembersRequested (group : List Attachment) (requestedNames : List String) : Bool :=
  group ≠ [] && group.all fun a => a.UID ∈ requestedNames

/-- Append the attachments that are not there yet. -/
def appendNew (normalized : List Attachment) : List Attachment → List Attachment
  | [] => normalized
  | a :: rest =>
      if a.UID ∈ normalized.map Attachment.UID then appendNew normalized rest
      else appendNew (normalized ++ [a]) rest

/-- The attachments of a list that belong to a group. -/
def groupMembers (list : List Attachment) (group : String) : List Attachment :=
  list.filter fun a => motionGroup a = some group

/-- Normalize one requested attachment: the attachments so far and the groups that were met. -/
def normalizeStep (current requested : List Attachment) (done : List Attachment × List String)
    (a : Attachment) : List Attachment × List String :=
  match motionGroup a with
  | none => (appendNew done.1 [a], done.2)
  | some group =>
      if group ∈ done.2 then done
      else if isMultiMemberMotionGroup (groupMembers current group) &&
          !allGroupMembersRequested (groupMembers current group)
            ((groupMembers requested group).map Attachment.UID) then
        (done.1, group :: done.2)
      else (appendNew done.1 (groupMembers requested group), group :: done.2)

/-- The attachments that a memo gets, from those it has and those requested: each once, the
members of a group together, and none of a group of which a member is left out. -/
def normalizeAttachments (current requested : List Attachment) : List Attachment :=
  (requested.foldl (normalizeStep current requested) ([], [])).1

namespace MemoService

variable (svc : MemoService)

/-- The attachment of a name in a request, which must exist and belong to the user. -/
def requestedAttachment (user : User) (name : String) : ApiM Attachment := do
  let attachmentUID ← Effect.ofExcept ((svc.extractAttachmentUIDFromName name).mapError fun err =>
    .status .InvalidArgument ("invalid attachment name: " ++ err))
  let attachment ← withStatus .Internal (fun err => "failed to get attachment: " ++ err)
    (svc.engine.getAttachment { UID := some attachmentUID })
  match attachment with
  | none => Effect.fail (.status .NotFound ("attachment not found: " ++ attachmentUID))
  | some attachment =>
      if attachment.CreatorID ≠ user.ID && !isSuperUser user then
        Effect.fail (.status .PermissionDenied "cannot attach another user's attachment")
      else pure attachment

def requestedAttachments (user : User) : List AttachmentMessage → ApiM (List Attachment)
  | [] => pure []
  | requestAttachment :: rest => do
      let attachment ← svc.requestedAttachment user requestAttachment.Name
      let attachments ← requestedAttachments user rest
      pure (attachment :: attachments)

def normalizeMemoAttachmentRequest (user : User) (currentAttachments : List Attachment)
    (requestAttachments : List AttachmentMessage) : ApiM (List Attachment) := do
  let requested ← svc.requestedAttachments user requestAttachments
  pure (normalizeAttachments currentAttachments requested)

/-- Delete an attachment that is not in the request. -/
def removeAttachment (user : User) (requestedIDs : List ℤ) (attachment : Attachment) : ApiM Unit :=
  if attachment.ID ∈ requestedIDs then pure ()
  else if attachment.CreatorID ≠ user.ID && !isSuperUser user then
    Effect.fail (.status .PermissionDenied "cannot remove another user's attachment")
  else internally "failed to delete attachment" (svc.engine.deleteAttachment attachment.ID)

/-- Link an attachment to a memo.  The clock is read for each, and its place is added. -/
def linkAttachment (memo : Memo) (indexed : Attachment × ℕ) : ApiM Unit :=
  withStatus .Internal (fun err => "failed to update attachment: " ++ err)
    (StoreEngine.updateAttachment {
      ID := indexed.1.ID
      MemoID := some memo.ID
      UpdatedTs := some (svc.engine.linkClock indexed.2 + indexed.2) })

def setMemoAttachmentsInternal (user : User) (memo : Memo)
    (requestAttachments : List AttachmentMessage) : ApiM Unit := do
  let currentAttachments ← internally "failed to list attachments"
    (svc.engine.listAttachments { MemoID := some memo.ID })
  let normalizedAttachments ←
    svc.normalizeMemoAttachmentRequest user currentAttachments requestAttachments
  let requestedIDs := normalizedAttachments.map Attachment.ID
  Effect.forEach (svc.removeAttachment user requestedIDs) currentAttachments
  Effect.forEach (svc.linkAttachment memo) normalizedAttachments.reverse.zipIdx

/-! ## References -/

/-- Set one relation of a request; comments and relations of a memo to itself are ignored. -/
def setMemoRelation (memo : Memo) (relation : RelationMessage) : ApiM Unit := do
  let relatedMemo ← dereference relation.RelatedMemo
  if buildMemoName memo.UID = relatedMemo.Name then pure ()
  else if relation.RelationType = .COMMENT then pure ()
  else do
    let relatedMemoUID ← Effect.ofExcept ((svc.extractMemoUIDFromName relatedMemo.Name).mapError
      fun err => .status .InvalidArgument ("invalid related memo name: " ++ err))
    let found ← internally "failed to get related memo"
      (svc.engine.getMemo { UID := some relatedMemoUID })
    -- The memo is used without a check.
    let related ← dereference found
    internally "failed to upsert memo relation" (StoreEngine.upsertMemoRelation
      ⟨memo.ID, related.ID, convertMemoRelationTypeToStore relation.RelationType⟩)

def setMemoRelationsInternal (memo : Memo) (relations : List RelationMessage) : ApiM Unit := do
  internally "failed to delete memo relation"
    (StoreEngine.deleteMemoRelation { MemoID := some memo.ID, RelationType := some .Reference })
  Effect.forEach (svc.setMemoRelation memo) relations

/-! ## What is left alone -/

variable {svc} {P : Tables → Prop}

theorem dereference_keeps {α : Type} (a : Option α) : Effect.Keeps P (dereference a) := by
  cases a with
  | none => exact Effect.Keeps.fail _
  | some a => exact Effect.Keeps.pure a

theorem requestedAttachment_keeps (user : User) (name : String) :
    Effect.Keeps P (svc.requestedAttachment user name) := by
  refine (Effect.Keeps.ofExcept _).bind fun uid => ?_
  refine ((StoreEngine.getAttachment_keeps _).mapError _).bind fun found => ?_
  cases found with
  | none => exact Effect.Keeps.fail _
  | some attachment =>
      dsimp only
      split
      · exact Effect.Keeps.fail _
      · exact Effect.Keeps.pure _

theorem requestedAttachments_keeps (user : User) (requestAttachments : List AttachmentMessage) :
    Effect.Keeps P (svc.requestedAttachments user requestAttachments) := by
  induction requestAttachments with
  | nil => exact Effect.Keeps.pure _
  | cons requestAttachment rest ih =>
      exact (requestedAttachment_keeps user _).bind fun _ => ih.bind fun _ =>
        Effect.Keeps.pure _

private theorem removeAttachment_keeps
    (hfilter : ∀ db id, P db → P (db.filterAttachments fun a => a.ID ≠ id)) (user : User)
    (requestedIDs : List ℤ) (attachment : Attachment) :
    Effect.Keeps P (svc.removeAttachment user requestedIDs attachment) := by
  rw [removeAttachment]
  split
  · exact Effect.Keeps.pure _
  · split
    · exact Effect.Keeps.fail _
    · exact (StoreEngine.deleteAttachment_keeps fun db => hfilter db _).mapError _

/-- Setting attachments keeps what deleting and linking attachments keeps. -/
theorem setMemoAttachmentsInternal_keeps {memo : Memo}
    (hfilter : ∀ db id, P db → P (db.filterAttachments fun a => a.ID ≠ id))
    (hlink : ∀ db id updatedTs, P db → P (db.updateAttachment
      { ID := id, MemoID := some memo.ID, UpdatedTs := some updatedTs }))
    (user : User) (requestAttachments : List AttachmentMessage) :
    Effect.Keeps P (svc.setMemoAttachmentsInternal user memo requestAttachments) := by
  refine ((StoreEngine.listAttachments_keeps _).mapError _).bind fun current => ?_
  refine ((requestedAttachments_keeps user requestAttachments).bind fun _ =>
    Effect.Keeps.pure _).bind fun normalized => ?_
  refine (Effect.Keeps.forEach fun a _ => removeAttachment_keeps hfilter _ _ a).bind fun _ => ?_
  exact Effect.Keeps.forEach fun indexed _ =>
    (Effect.Keeps.update fun db => hlink db _ _).mapError _

private theorem setMemoRelation_keeps {memo : Memo}
    (hupsert : ∀ db id, P db → P (db.upsertMemoRelation ⟨memo.ID, id, .Reference⟩))
    (relation : RelationMessage) : Effect.Keeps P (svc.setMemoRelation memo relation) := by
  refine (dereference_keeps _).bind fun name => ?_
  split
  · exact Effect.Keeps.pure _
  · split
    · exact Effect.Keeps.pure _
    · rename_i hcomment
      have htype : convertMemoRelationTypeToStore relation.RelationType = .Reference := by
        cases hrelation : relation.RelationType with
        | TYPE_UNSPECIFIED | REFERENCE => rfl
        | COMMENT => exact absurd hrelation hcomment
      rw [htype]
      refine (Effect.Keeps.ofExcept _).bind fun uid => ?_
      refine ((StoreEngine.getMemo_keeps _).mapError _).bind fun found => ?_
      refine (dereference_keeps found).bind fun related => ?_
      exact (Effect.Keeps.update fun db => hupsert db _).mapError _

/-- Setting references keeps what does not depend on them. -/
theorem setMemoRelationsInternal_keeps {memo : Memo}
    (hdelete : ∀ db, P db → P (db.deleteMemoRelation
      { MemoID := some memo.ID, RelationType := some .Reference }))
    (hupsert : ∀ db id, P db → P (db.upsertMemoRelation ⟨memo.ID, id, .Reference⟩))
    (relations : List RelationMessage) :
    Effect.Keeps P (svc.setMemoRelationsInternal memo relations) :=
  ((Effect.Keeps.update hdelete).mapError _).bind fun _ =>
    Effect.Keeps.forEach fun relation _ => setMemoRelation_keeps hupsert relation

end MemoService

end Api
end MemosNote
