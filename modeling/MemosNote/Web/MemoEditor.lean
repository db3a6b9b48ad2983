import MemosNote.Api.UpdateEffects

/-!
# The memo editor

An editor is filled from a memo that was loaded.  When it is saved, the memo is fetched again, and
the fields in which the editor differs from what was fetched are sent as an update.

Main results:

- Definition {lit}`buildUpdateMask`, Definition {lit}`save`: the mask, the patch and the two
  requests of a save.
- Theorem {lit}`timestampDate_inj`: which times have the same date.
-/

namespace MemosNote
namespace Web

open Library Store Api

/-! ## Dates -/

/-- The conversions of the Protobuf library between times and dates, which are in milliseconds since
the epoch.  A time in whole seconds is a date. -/
class ProtobufDates where
  timestampDate : Timestamp → ℤ
  timestampFromDate : ℤ → Timestamp
  timestampFromDate_timestampDate (seconds : ℤ) :
    timestampFromDate (timestampDate ⟨seconds, 0⟩) = ⟨seconds, 0⟩

open ProtobufDates

variable [ProtobufDates]

theorem unix_timestampFromDate (seconds : ℤ) :
    (timestampFromDate (timestampDate (timestampOfUnix seconds))).unix = seconds := by
  rw [timestampOfUnix, timestampFromDate_timestampDate, Timestamp.unix]
  simp

theorem timestampDate_inj {a b : ℤ} :
    timestampDate (timestampOfUnix a) = timestampDate (timestampOfUnix b) ↔ a = b := by
  constructor
  · intro hdate
    rw [← unix_timestampFromDate a, hdate, unix_timestampFromDate]
  · rintro rfl
    rfl

/-! ## The state of an editor -/

structure EditorMetadata where
  visibility : VisibilityMessage
  attachments : List AttachmentMessage
  relations : List RelationMessage
  location : Option Location
deriving DecidableEq, Repr

structure EditorTimestamps where
  createTime : Option ℤ
  updateTime : Option ℤ
deriving DecidableEq, Repr

/-- The state of an editor that a save reads; files that are not uploaded yet are left out. -/
structure EditorState where
  content : String
  metadata : EditorMetadata
  timestamps : EditorTimestamps
deriving DecidableEq, Repr

/-- The state of an editor that was filled from a memo. -/
def fromMemo (memo : MemoMessage) : EditorState where
  content := memo.Content
  metadata := {
    visibility := memo.Visibility
    attachments := memo.Attachments
    relations := memo.Relations
    location := memo.Location }
  timestamps := {
    createTime := memo.CreateTime.map timestampDate
    updateTime := memo.UpdateTime.map timestampDate }

/-! ## Saving -/

/-- Attachments by their names only. -/
def toAttachmentReferences (attachments : List AttachmentMessage) : List AttachmentMessage :=
  attachments.map fun a => { Name := a.Name }

/-- A date of the editor that differs from the one that was fetched. -/
def dateChanged (date : Option ℤ) (prev : Option Timestamp) : Bool :=
  date.isSome && date ≠ prev.map timestampDate

/-- The editable fields that differ. -/
def changedFields (prevMemo : MemoMessage) (state : EditorState)
    (allAttachments : List AttachmentMessage) : List String :=
  (if state.content ≠ prevMemo.Content then ["content"] else []) ++
    (if state.metadata.visibility ≠ prevMemo.Visibility then ["visibility"] else []) ++
    (if allAttachments ≠ prevMemo.Attachments then ["attachments"] else []) ++
    (if state.metadata.relations ≠ prevMemo.Relations then ["relations"] else []) ++
    (if state.metadata.location ≠ prevMemo.Location then ["location"] else [])

/-- A change of the content, the attachments, the relations or the location updates the time. -/
def touches (mask : List String) : Bool :=
  ["content", "attachments", "relations", "location"].any fun key => key ∈ mask

/-- The mask and the patch of an update, against the memo that was fetched. -/
def buildUpdateMask (prevMemo : MemoMessage) (state : EditorState)
    (allAttachments : List AttachmentMessage) : List String × MemoMessage :=
  let fields := changedFields prevMemo state allAttachments
  let createTimeChanged := dateChanged state.timestamps.createTime prevMemo.CreateTime
  let updateTimeChanged := dateChanged state.timestamps.updateTime prevMemo.UpdateTime
  let touched := if touches fields then fields ++ ["update_time"] else fields
  let timed := if createTimeChanged then touched ++ ["create_time"] else touched
  (if updateTimeChanged && !touches fields then timed ++ ["update_time"] else timed,
    { Name := prevMemo.Name
      Content := state.content
      Visibility := if "visibility" ∈ fields then state.metadata.visibility
        else .VISIBILITY_UNSPECIFIED
      Attachments := if "attachments" ∈ fields then toAttachmentReferences allAttachments else []
      Relations := if "relations" ∈ fields then state.metadata.relations else []
      Location := if "location" ∈ fields then state.metadata.location else none
      CreateTime := if createTimeChanged then state.timestamps.createTime.map timestampFromDate
        else none
      UpdateTime := if updateTimeChanged then state.timestamps.updateTime.map timestampFromDate
        else none })

/-- What a save answers: the name of the memo, and whether it has changed. -/
structure SaveResult where
  memoName : String
  hasChanges : Bool
deriving DecidableEq, Repr

/-- Save the changes of a memo; {lit}`newAttachments` are the files that were uploaded for it. -/
def save (svc : MemoService) (state : EditorState) (newAttachments : List AttachmentMessage)
    (memoName : String) : ApiM SaveResult := do
  let allAttachments := state.metadata.attachments ++ newAttachments
  let prevMemo ← svc.getMemo memoName
  let update := buildUpdateMask prevMemo state allAttachments
  if update.1 = [] then pure ⟨prevMemo.Name, false⟩
  else do
    let memo ← svc.updateMemo { Memo := some update.2, UpdateMask := some update.1 }
    pure ⟨memo.Name, true⟩

end Web
end MemosNote
