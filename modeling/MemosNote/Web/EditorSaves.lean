import MemosNote.Web.MemoEditor

/-!
# Editors that save one memo

Any number of editors hold a memo.  A save is two requests, one that fetches the memo and one that
updates the fields in which the editor differs from what was fetched, and the requests of different
saves interleave.

Main results:

- Theorem {lit}`sendUpdate_fields`: what one save does to the fields of the memo.
- Theorem {lit}`saves_keep_last`: the value of a field is that of the last save whose editor
  differed from what it had fetched.
- Theorem {lit}`saves_in_turn`: of saves that follow one another, the last one decides all fields,
  and sets the time back.
-/

namespace MemosNote
namespace Web

open Library Store Api ProtobufDates

/-! ## The fields of the memo -/

/-- The fields of a memo that a save compares one by one, and the time of its last update. -/
structure MemoFields where
  content : String
  visibility : Visibility
  location : Option Location
  updatedTs : ℤ
deriving DecidableEq, Repr

/-- The fields of a row. -/
def fieldsOf (memo : Memo) : MemoFields where
  content := memo.Content
  visibility := memo.Visibility
  location := memo.Payload.Location
  updatedTs := memo.UpdatedTs

/-- The fields of the memo with a name. -/
def fields (uid : String) (db : Tables) : Option MemoFields :=
  (db.memos.find? fun memo => memo.UID = uid).map fieldsOf

theorem fields_of_mem {db : Tables} {memo : Memo} (hmemo : memo ∈ db.memos) :
    fields memo.UID db = some (fieldsOf memo) := by
  cases hfind : db.memos.find? fun row => row.UID = memo.UID with
  | none => exact absurd (decide_eq_true rfl) (List.find?_eq_none.mp hfind memo hmemo)
  | some row =>
      have huid : row.UID = memo.UID := by simpa using List.find?_some hfind
      rw [fields, hfind, Option.map_some,
        db.eq_of_memoUID_eq (List.mem_of_find?_eq_some hfind) hmemo huid]

/-- The memo with a name is no comment. -/
def NotComment (uid : String) (db : Tables) : Prop :=
  ∀ memo ∈ db.memos, memo.UID = uid → db.commentRelations memo.ID = []

theorem NotComment.parent {uid : String} {db : Tables} (h : NotComment uid db) {memo : FoundMemo}
    (hmemo : memo.toMemo ∈ db.memos) (huid : memo.UID = uid)
    (hjoined : memo ∈ db.joinMemo memo.toMemo) : memo.ParentUID = none := by
  rw [Tables.joinMemo, h memo.toMemo hmemo huid, List.mem_singleton] at hjoined
  rw [hjoined]

theorem buildMemoName_inj {a b : String} (h : buildMemoName a = buildMemoName b) : a = b := by
  have hlist := congrArg String.toList h
  rw [buildMemoName, buildMemoName, String.toList_append, String.toList_append] at hlist
  exact String.toList_inj.mp (List.append_cancel_left hlist)

theorem name_of_getMemo {svc : MemoService} {name : String} {db db' : Tables}
    {message : MemoMessage} (h : svc.getMemo name db = (.ok message, db')) :
    message.Name = name := by
  rcases MemoService.getMemo_ok h with ⟨-, memo, -, hname, relations, hconvert⟩
  rw [MemoService.convertMemoFromStore_ok hconvert, hname]
  rfl

/-- A fetched memo shows the stored fields. -/
theorem shows_of_getMemo {svc : MemoService} {uid : String} {db db' : Tables}
    {prevMemo : MemoMessage} {before : MemoFields} (hbefore : fields uid db = some before)
    (h : svc.getMemo (buildMemoName uid) db = (.ok prevMemo, db')) :
    prevMemo.Content = before.content ∧
      prevMemo.Visibility = convertVisibilityFromStore before.visibility ∧
      prevMemo.Location = before.location ∧
      prevMemo.UpdateTime = some (timestampOfUnix before.updatedTs) := by
  rcases MemoService.getMemo_ok h with ⟨-, memo, hmem, hname, relations, hconvert⟩
  have hfields := fields_of_mem hmem
  rw [show memo.toMemo.UID = uid from (buildMemoName_inj hname).symm, hbefore] at hfields
  rw [Option.some.inj hfields, MemoService.convertMemoFromStore_ok hconvert]
  exact ⟨rfl, rfl, rfl, rfl⟩

/-! ## What a save does -/

section

variable {prevMemo : MemoMessage} {state : EditorState} {attachments : List AttachmentMessage}

theorem content_mem_changedFields :
    "content" ∈ changedFields prevMemo state attachments ↔ state.content ≠ prevMemo.Content := by
  simp [changedFields]

theorem visibility_mem_changedFields :
    "visibility" ∈ changedFields prevMemo state attachments ↔
      state.metadata.visibility ≠ prevMemo.Visibility := by
  simp [changedFields]

theorem location_mem_changedFields :
    "location" ∈ changedFields prevMemo state attachments ↔
      state.metadata.location ≠ prevMemo.Location := by
  simp [changedFields]

private theorem update_time_notMem_changedFields :
    "update_time" ∉ changedFields prevMemo state attachments := by
  simp [changedFields]

end

section

variable [ProtobufDates]

/-- An editor that saves: its state and the files that were uploaded for it. -/
structure MemoEditor where
  state : EditorState
  newAttachments : List AttachmentMessage := []
deriving DecidableEq, Repr

namespace MemoEditor

variable (editor : MemoEditor)

def allAttachments : List AttachmentMessage :=
  editor.state.metadata.attachments ++ editor.newAttachments

/-- The request that updates the memo, and the answer of the save. -/
def sendUpdate (svc : MemoService) (prevMemo : MemoMessage) : ApiM SaveResult :=
  let update := buildUpdateMask prevMemo editor.state editor.allAttachments
  if update.1 = [] then pure ⟨prevMemo.Name, false⟩
  else do
    let memo ← svc.updateMemo { Memo := some update.2, UpdateMask := some update.1 }
    pure ⟨memo.Name, true⟩

/-- A save fetches the memo and sends the update. -/
theorem save_eq (svc : MemoService) (memoName : String) :
    save svc editor.state editor.newAttachments memoName =
      svc.getMemo memoName >>= editor.sendUpdate svc :=
  rfl

/-- The time of the last update after a save. -/
def updatedTs (prevMemo : MemoMessage) (now before : ℤ) : ℤ :=
  if dateChanged editor.state.timestamps.updateTime prevMemo.UpdateTime then
    (editor.state.timestamps.updateTime.map timestampFromDate).elim now Timestamp.unix
  else if touches (changedFields prevMemo editor.state editor.allAttachments) then now
  else before

/-- What a save makes of the fields. -/
def save (prevMemo : MemoMessage) (now : ℤ) (before : MemoFields) : MemoFields where
  content := if editor.state.content ≠ prevMemo.Content then editor.state.content
    else before.content
  visibility := if editor.state.metadata.visibility ≠ prevMemo.Visibility then
      convertVisibilityToStore editor.state.metadata.visibility
    else before.visibility
  location := if editor.state.metadata.location ≠ prevMemo.Location then
      editor.state.metadata.location
    else before.location
  updatedTs := editor.updatedTs prevMemo now before.updatedTs

end MemoEditor

/-! ### The mask -/

section

variable {prevMemo : MemoMessage} {state : EditorState} {attachments : List AttachmentMessage}

/-- An editable field is in the mask exactly when it differs. -/
theorem mem_buildUpdateMask {path : String} (hpath : path ∉ ["update_time", "create_time"]) :
    path ∈ (buildUpdateMask prevMemo state attachments).1 ↔
      path ∈ changedFields prevMemo state attachments := by
  simp only [List.mem_cons, List.not_mem_nil, or_false, not_or] at hpath
  rw [buildUpdateMask]
  dsimp only
  split_ifs <;> simp [hpath]

/-- The time is in the mask when it differs or another field has changed. -/
theorem update_time_mem_buildUpdateMask :
    "update_time" ∈ (buildUpdateMask prevMemo state attachments).1 ↔
      dateChanged state.timestamps.updateTime prevMemo.UpdateTime = true ∨
        touches (changedFields prevMemo state attachments) = true := by
  have hnot := @update_time_notMem_changedFields prevMemo state attachments
  rw [buildUpdateMask]
  dsimp only
  split_ifs <;> simp_all

end

namespace MemoEditor

variable {editor : MemoEditor} {prevMemo : MemoMessage} {uid : String} {db db' : Tables}

/-- Without anything in the mask the fields stay. -/
theorem save_of_mask_nil {now : ℤ}
    (h : (buildUpdateMask prevMemo editor.state editor.allAttachments).1 = [])
    (before : MemoFields) : editor.save prevMemo now before = before := by
  have hnot : ∀ path, path ∉ (buildUpdateMask prevMemo editor.state editor.allAttachments).1 := by
    rw [h]
    exact fun path => List.not_mem_nil
  have hcontent := mt (mem_buildUpdateMask (by decide)).mpr (hnot "content")
  have hvisibility := mt (mem_buildUpdateMask (by decide)).mpr (hnot "visibility")
  have hlocation := mt (mem_buildUpdateMask (by decide)).mpr (hnot "location")
  have htime := mt update_time_mem_buildUpdateMask.mpr (hnot "update_time")
  rw [content_mem_changedFields] at hcontent
  rw [visibility_mem_changedFields] at hvisibility
  rw [location_mem_changedFields] at hlocation
  rw [not_or] at htime
  rw [save, updatedTs, if_neg hcontent, if_neg hvisibility, if_neg hlocation, if_neg htime.1,
    if_neg htime.2]

/-- An update with the mask and the patch of a save does to a row what the save does. -/
theorem save_of_written {now : ℤ} {memo : FoundMemo} {row : Memo} (hparent : memo.ParentUID = none)
    (hwritten : MemoService.Written (buildUpdateMask prevMemo editor.state editor.allAttachments).2
      now (buildUpdateMask prevMemo editor.state editor.allAttachments).1 memo db.memos row) :
    fieldsOf row = editor.save prevMemo now (fieldsOf memo.toMemo) := by
  have hcontent : row.Content = (editor.save prevMemo now (fieldsOf memo.toMemo)).content := by
    rw [hwritten.content]
    refine if_congr ?_ rfl rfl
    rw [mem_buildUpdateMask (by decide), content_mem_changedFields]
  have hvisibility :
      row.Visibility = (editor.save prevMemo now (fieldsOf memo.toMemo)).visibility := by
    have hstored := hwritten.visibility
    rw [hparent] at hstored
    by_cases hdiffer : "visibility" ∈ changedFields prevMemo editor.state editor.allAttachments
    · rw [if_pos ((mem_buildUpdateMask (by decide)).mpr hdiffer)] at hstored
      rw [Option.some.inj hstored, save, if_pos (visibility_mem_changedFields.mp hdiffer),
        buildUpdateMask]
      dsimp only
      rw [if_pos hdiffer]
    · rw [if_neg (mt (mem_buildUpdateMask (by decide)).mp hdiffer)] at hstored
      rw [Option.some.inj hstored, save, if_neg (mt visibility_mem_changedFields.mpr hdiffer)]
      rfl
  have hlocation :
      row.Payload.Location = (editor.save prevMemo now (fieldsOf memo.toMemo)).location := by
    rw [hwritten.location]
    by_cases hdiffer : "location" ∈ changedFields prevMemo editor.state editor.allAttachments
    · rw [if_pos ((mem_buildUpdateMask (by decide)).mpr hdiffer), save,
        if_pos (location_mem_changedFields.mp hdiffer), buildUpdateMask]
      dsimp only
      rw [if_pos hdiffer]
    · rw [if_neg (mt (mem_buildUpdateMask (by decide)).mp hdiffer), save,
        if_neg (mt location_mem_changedFields.mpr hdiffer)]
      rfl
  have htime : row.UpdatedTs = (editor.save prevMemo now (fieldsOf memo.toMemo)).updatedTs := by
    rw [hwritten.updatedTs, save, updatedTs]
    by_cases hdate : dateChanged editor.state.timestamps.updateTime prevMemo.UpdateTime = true
    · rw [if_pos (update_time_mem_buildUpdateMask.mpr (.inl hdate)), if_pos hdate, buildUpdateMask]
      dsimp only
      rw [if_pos hdate]
    · rw [if_neg hdate]
      by_cases htouched : touches (changedFields prevMemo editor.state editor.allAttachments) = true
      · rw [if_pos (update_time_mem_buildUpdateMask.mpr (.inr htouched)), if_pos htouched,
          buildUpdateMask]
        dsimp only
        rw [if_neg hdate]
        rfl
      · have hnot : ¬ "update_time" ∈
            (buildUpdateMask prevMemo editor.state editor.allAttachments).1 := by
          rw [update_time_mem_buildUpdateMask, not_or]
          exact ⟨hdate, htouched⟩
        rw [if_neg hnot, if_neg htouched]
        rfl
  rw [fieldsOf, hcontent, hvisibility, hlocation, htime]

/-- What the second request of a save does to the fields of the memo. -/
theorem sendUpdate_fields {svc : MemoService} {result : SaveResult}
    (hname : prevMemo.Name = buildMemoName uid) (hcomment : NotComment uid db)
    (h : editor.sendUpdate svc prevMemo db = (.ok result, db')) :
    fields uid db' = (fields uid db).map (editor.save prevMemo svc.engine.now) := by
  rw [sendUpdate] at h
  split at h
  · rename_i hmask
    cases h
    rw [funext (save_of_mask_nil hmask)]
    exact Option.map_id'.symm
  · rcases Effect.ok_of_bind h with ⟨answer, t, hupdate, hanswer⟩
    cases hanswer
    rcases MemoService.updateMemo_ok hupdate with
      ⟨message, hmessage, paths, hpaths, memo, user, st, t, hfound, hwrites, rfl⟩
    rcases Option.some.inj hmessage
    rcases Option.some.inj hpaths
    rcases MemoService.requireOwnMemo_ok hfound with ⟨-, hextract, hmem, hjoined, -⟩
    have huid : memo.UID = uid := by
      have hpatch := MemoService.eq_of_extractMemoUIDFromName hextract
      exact buildMemoName_inj (hpatch.symm.trans hname)
    rcases MemoService.updateMemo_writes hmem hwrites with ⟨hrow, hwritten⟩
    have hafter := fields_of_mem hrow
    rw [show (st.update.assign memo.toMemo).UID = uid from huid] at hafter
    have hbefore := fields_of_mem hmem
    rw [show memo.toMemo.UID = uid from huid] at hbefore
    rw [hafter, hbefore, Option.map_some,
      save_of_written (hcomment.parent hmem huid hjoined) hwritten]

end MemoEditor

/-! ## Saves that interleave -/

/-- A save that was answered: the editor, the memo that it had fetched and the time. -/
structure CompletedSave where
  editor : ℕ
  prevMemo : MemoMessage
  now : ℤ
deriving DecidableEq, Repr

/-- The tables, what the saves under way have fetched, and the saves that were answered. -/
structure Editing where
  db : Tables
  fetched : ℕ → Option MemoMessage := fun _ => none
  completed : List CompletedSave := []

/-- The requests of the saves, each with the service that answers it, and of others. -/
inductive EditingEvent where
  | getMemo (p : ℕ) (svc : MemoService)
  | updateMemo (p : ℕ) (svc : MemoService)
  | other (db : Tables)

namespace Editing

/-- A request that is answered; a save whose request fails does not go on. -/
def step (editors : ℕ → MemoEditor) (uid : String) (s : Editing) : EditingEvent → Option Editing
  | .getMemo p svc =>
      match svc.getMemo (buildMemoName uid) s.db with
      | (.ok prevMemo, db) =>
          some { s with db := db, fetched := Function.update s.fetched p (some prevMemo) }
      | (.error _, _) => none
  | .updateMemo p svc =>
      match s.fetched p with
      | none => none
      | some prevMemo =>
          match (editors p).sendUpdate svc prevMemo s.db with
          | (.ok _, db) =>
              some {
                db := db
                fetched := Function.update s.fetched p none
                completed := s.completed ++ [⟨p, prevMemo, svc.engine.now⟩] }
          | (.error _, _) => none
  | .other db => some { s with db := db }

/-- The memo is no comment, and only its editors change its fields. -/
def OnlyEditors (uid : String) (s : Editing) : EditingEvent → Prop
  | .getMemo _ _ => True
  | .updateMemo _ _ => NotComment uid s.db
  | .other db => fields uid db = fields uid s.db

instance (uid : String) (s : Editing) : (e : EditingEvent) → Decidable (OnlyEditors uid s e)
  | .getMemo _ _ => inferInstanceAs (Decidable True)
  | .updateMemo _ _ => inferInstanceAs (Decidable (∀ memo ∈ s.db.memos, memo.UID = uid →
      s.db.commentRelations memo.ID = []))
  | .other db => inferInstanceAs (Decidable (fields uid db = fields uid s.db))

variable {editors : ℕ → MemoEditor} {uid : String} {s t : Editing}

/-- What a request does. -/
inductive Answered (editors : ℕ → MemoEditor) (uid : String) (s : Editing) :
    EditingEvent → Editing → Prop where
  | getMemo {p : ℕ} {svc : MemoService} {prevMemo : MemoMessage}
      (hget : svc.getMemo (buildMemoName uid) s.db = (.ok prevMemo, s.db)) :
      Answered editors uid s (.getMemo p svc)
        { s with fetched := Function.update s.fetched p (some prevMemo) }
  | updateMemo {p : ℕ} {svc : MemoService} {prevMemo : MemoMessage} {result : SaveResult}
      {db : Tables} (hfetched : s.fetched p = some prevMemo)
      (hsend : (editors p).sendUpdate svc prevMemo s.db = (.ok result, db)) :
      Answered editors uid s (.updateMemo p svc)
        { db := db
          fetched := Function.update s.fetched p none
          completed := s.completed ++ [⟨p, prevMemo, svc.engine.now⟩] }
  | other {db : Tables} : Answered editors uid s (.other db) { s with db := db }

theorem answered_of_step {e : EditingEvent} (h : s.step editors uid e = some t) :
    Answered editors uid s e t := by
  cases e with
  | getMemo p svc =>
      unfold step at h
      dsimp only at h
      rcases hget : svc.getMemo (buildMemoName uid) s.db with ⟨result, db⟩
      rw [hget] at h
      cases result with
      | error failure => cases h
      | ok prevMemo =>
          rcases Option.some.inj h
          rcases (MemoService.getMemo_ok hget).1
          exact .getMemo hget
  | updateMemo p svc =>
      unfold step at h
      dsimp only at h
      cases hfetched : s.fetched p with
      | none =>
          rw [hfetched] at h
          cases h
      | some prevMemo =>
          rw [hfetched] at h
          dsimp only at h
          rcases hsend : (editors p).sendUpdate svc prevMemo s.db with ⟨result, db⟩
          rw [hsend] at h
          cases result with
          | error failure => cases h
          | ok result =>
              rcases Option.some.inj h
              exact .updateMemo hfetched hsend
  | other db =>
      rcases Option.some.inj h
      exact .other

end Editing

namespace Editing

variable {editors : ℕ → MemoEditor} {uid : String} {s t : Editing}

/-- What the answered saves make of the fields, one after the other. -/
def replay (editors : ℕ → MemoEditor) (completed : List CompletedSave) (initial : MemoFields) :
    MemoFields :=
  completed.foldl (fun before c => (editors c.editor).save c.prevMemo c.now before) initial

/-- The fields are those that the answered saves make; what was fetched is the memo. -/
structure EditingInv (editors : ℕ → MemoEditor) (uid : String) (initial : Option MemoFields)
    (s : Editing) : Prop where
  fields : Web.fields uid s.db = initial.map (replay editors s.completed)
  fetched : ∀ p, ∀ prevMemo ∈ s.fetched p, prevMemo.Name = buildMemoName uid

private theorem editingInv_step {initial : Option MemoFields} (s : Editing) (e : EditingEvent)
    (t : Editing) (h : EditingInv editors uid initial s) (hguard : OnlyEditors uid s e)
    (hstep : s.step editors uid e = some t) : EditingInv editors uid initial t := by
  cases answered_of_step hstep with
  | @getMemo p svc prevMemo hget =>
      refine ⟨h.fields, fun q message hmessage => ?_⟩
      dsimp only at hmessage
      by_cases hq : q = p
      · rw [hq, Function.update_self] at hmessage
        rcases Option.some.inj hmessage
        exact name_of_getMemo hget
      · rw [Function.update_of_ne hq] at hmessage
        exact h.fetched q message hmessage
  | @updateMemo p svc prevMemo result db hfetched hsend =>
      constructor
      · have hname := h.fetched p prevMemo hfetched
        rw [MemoEditor.sendUpdate_fields hname hguard hsend, h.fields, Option.map_map]
        congr 1
        funext before
        simp [replay]
      · intro q message hmessage
        dsimp only at hmessage
        by_cases hq : q = p
        · rw [hq, Function.update_self] at hmessage
          cases hmessage
        · rw [Function.update_of_ne hq] at hmessage
          exact h.fetched q message hmessage
  | @other db =>
      exact ⟨hguard.trans h.fields, h.fetched⟩

/-- The fields after a run are what the answered saves make of those before. -/
theorem fields_of_run {db : Tables} {events : List EditingEvent}
    (hrun : Run (step editors uid) (OnlyEditors uid) { db := db } events s) :
    fields uid s.db = (fields uid db).map (replay editors s.completed) := by
  have hstart : EditingInv editors uid (fields uid db) { db := db } := by
    constructor
    · exact Option.map_id'.symm
    · intro p prevMemo hfetched
      cases hfetched
  exact (hrun.invariant editingInv_step hstart).fields

end Editing

/-! ## Who decides a field -/

/-- A field that a save compares. -/
inductive EditorField where
  | content
  | visibility
  | location

namespace EditorField

def Value : EditorField → Type
  | .content => String
  | .visibility => Visibility
  | .location => Option Location

/-- The stored value. -/
def stored : (field : EditorField) → MemoFields → field.Value
  | .content => MemoFields.content
  | .visibility => MemoFields.visibility
  | .location => MemoFields.location

/-- The value that an editor holds. -/
def held : (field : EditorField) → EditorState → field.Value
  | .content => fun state => state.content
  | .visibility => fun state => convertVisibilityToStore state.metadata.visibility
  | .location => fun state => state.metadata.location

/-- The editor does not hold what its save has fetched. -/
def differs : EditorField → EditorState → MemoMessage → Bool
  | .content => fun state prevMemo => state.content ≠ prevMemo.Content
  | .visibility => fun state prevMemo => state.metadata.visibility ≠ prevMemo.Visibility
  | .location => fun state prevMemo => state.metadata.location ≠ prevMemo.Location

/-- A save writes the fields in which its editor differs from what it has fetched. -/
theorem stored_save (field : EditorField) (editor : MemoEditor) (prevMemo : MemoMessage) (now : ℤ)
    (before : MemoFields) :
    field.stored (editor.save prevMemo now before) =
      if field.differs editor.state prevMemo = true then field.held editor.state
      else field.stored before := by
  cases field <;> refine if_congr ?_ rfl rfl <;> simp [differs]

/-- The last of the saves that wrote a field decides it. -/
theorem stored_replay (field : EditorField) (editors : ℕ → MemoEditor)
    (completed : List CompletedSave) (initial : MemoFields) :
    field.stored (Editing.replay editors completed initial) =
      ((completed.filter fun c => field.differs (editors c.editor).state c.prevMemo).getLast?.map
        fun c => field.held (editors c.editor).state).getD (field.stored initial) := by
  induction completed using List.reverseRecOn with
  | nil => rfl
  | append_singleton completed c ih =>
      have hlast : Editing.replay editors (completed ++ [c]) initial =
          (editors c.editor).save c.prevMemo c.now (Editing.replay editors completed initial) := by
        simp [Editing.replay]
      rw [hlast, stored_save, List.filter_append]
      by_cases hdiffers : field.differs (editors c.editor).state c.prevMemo = true
      · rw [if_pos hdiffers]
        simp [hdiffers]
      · rw [if_neg hdiffers, ih]
        simp [hdiffers]

end EditorField

/-- **Who decides a field.**  However the requests of any number of saves interleave, every field
that editors save has the value held by the editor of the last answered save that differed in it
from what that save had fetched, and its first value when there is no such save. -/
theorem saves_keep_last {editors : ℕ → MemoEditor} {uid : String} {db : Tables}
    {events : List EditingEvent} {s : Editing} {before : MemoFields}
    (hbefore : fields uid db = some before)
    (hrun : Run (Editing.step editors uid) (Editing.OnlyEditors uid) { db := db } events s) :
    ∃ after, fields uid s.db = some after ∧ ∀ field : EditorField, field.stored after =
      ((s.completed.filter fun c => field.differs (editors c.editor).state c.prevMemo).getLast?.map
        fun c => field.held (editors c.editor).state).getD (field.stored before) := by
  refine ⟨Editing.replay editors s.completed before, ?_, fun field => ?_⟩
  · rw [Editing.fields_of_run hrun, hbefore]
    rfl
  · exact field.stored_replay editors s.completed before

/-! ## Saves in turn -/

/-- A save that has fetched the stored fields leaves its editor's. -/
theorem MemoEditor.save_of_shows {editor : MemoEditor} {prevMemo : MemoMessage}
    {before : MemoFields} (now : ℤ) (hcontent : prevMemo.Content = before.content)
    (hvisibility : prevMemo.Visibility = convertVisibilityFromStore before.visibility)
    (hlocation : prevMemo.Location = before.location) (field : EditorField) :
    field.stored (editor.save prevMemo now before) = field.held editor.state := by
  rw [field.stored_save]
  split
  · rfl
  · rename_i hsame
    cases field with
    | content =>
        have hheld : editor.state.content = prevMemo.Content := by
          simpa [EditorField.differs] using hsame
        exact (hheld.trans hcontent).symm
    | visibility =>
        have hheld : editor.state.metadata.visibility = prevMemo.Visibility := by
          simpa [EditorField.differs] using hsame
        change before.visibility = convertVisibilityToStore editor.state.metadata.visibility
        rw [hheld, hvisibility, convertVisibilityToStore_fromStore]
    | location =>
        have hheld : editor.state.metadata.location = prevMemo.Location := by
          simpa [EditorField.differs] using hsame
        exact (hheld.trans hlocation).symm

/-- The time after a save whose editor was filled at another time. -/
theorem MemoEditor.updatedTs_of_loaded {editor : MemoEditor} {prevMemo : MemoMessage}
    {now before seconds : ℤ} (htime : prevMemo.UpdateTime = some (timestampOfUnix before))
    (hloaded : editor.state.timestamps.updateTime =
      some (timestampDate (timestampOfUnix seconds))) :
    editor.updatedTs prevMemo now before =
      if seconds ≠ before then seconds
      else if touches (changedFields prevMemo editor.state editor.allAttachments) then now
      else before := by
  have hdate : dateChanged editor.state.timestamps.updateTime prevMemo.UpdateTime = true ↔
      seconds ≠ before := by
    rw [hloaded, htime, dateChanged, Option.map_some]
    simp [timestampDate_inj]
  rw [updatedTs]
  by_cases hseconds : seconds ≠ before
  · rw [if_pos (hdate.mpr hseconds), if_pos hseconds, hloaded]
    exact unix_timestampFromDate seconds
  · rw [if_neg (mt hdate.mp hseconds), if_neg hseconds]

/-- A save whose two requests follow one another, with the services that answer them. -/
structure Turn where
  editor : ℕ
  fetching : MemoService
  updating : MemoService

/-- The requests of a save. -/
def Turn.events (turn : Turn) : List EditingEvent :=
  [.getMemo turn.editor turn.fetching, .updateMemo turn.editor turn.updating]

/-- **Saves in turn.**  When saves follow one another, the last one leaves all fields as its editor
holds them, whether it changed them or not.  An editor that was filled before the memo was updated
last sets the time of the update back to the one it was filled with. -/
theorem saves_in_turn {editors : ℕ → MemoEditor} {uid : String} {db : Tables}
    {turns : List Turn} {last : Turn} {s : Editing} {first : MemoFields}
    (hfirst : fields uid db = some first)
    (hrun : Run (Editing.step editors uid) (Editing.OnlyEditors uid) { db := db }
      ((turns ++ [last]).flatMap Turn.events) s) :
    ∃ t before after, Run (Editing.step editors uid) (Editing.OnlyEditors uid) { db := db }
        (turns.flatMap Turn.events) t ∧
      fields uid t.db = some before ∧ fields uid s.db = some after ∧
      (∀ field : EditorField, field.stored after = field.held (editors last.editor).state) ∧
      ∀ seconds, (editors last.editor).state.timestamps.updateTime =
          some (timestampDate (timestampOfUnix seconds)) → seconds ≠ before.updatedTs →
        after.updatedTs = seconds := by
  rw [List.flatMap_append, List.flatMap_singleton] at hrun
  rcases hrun.of_append with ⟨t, hturns, hlast⟩
  have hbefore := Editing.fields_of_run hturns
  rw [hfirst, Option.map_some] at hbefore
  cases hlast with
  | cons _ hget hrest =>
      cases hrest with
      | cons hcomment hupdate hend =>
          cases hend
          cases Editing.answered_of_step hget with
          | @getMemo p svc prevMemo hfetch =>
              rcases shows_of_getMemo hbefore hfetch with
                ⟨hcontent, hvisibility, hlocation, htime⟩
              cases Editing.answered_of_step hupdate with
              | @updateMemo _ _ message result db' hfetched hsend =>
                  dsimp only at hfetched
                  rw [Function.update_self] at hfetched
                  rcases Option.some.inj hfetched
                  have hname := name_of_getMemo hfetch
                  have hafter := MemoEditor.sendUpdate_fields hname hcomment hsend
                  rw [hbefore, Option.map_some] at hafter
                  refine ⟨t, _, _, hturns, hbefore, hafter, fun field => ?_,
                    fun seconds hloaded hother => ?_⟩
                  · exact MemoEditor.save_of_shows _ hcontent hvisibility hlocation field
                  · exact (MemoEditor.updatedTs_of_loaded htime hloaded).trans (if_pos hother)

end

/-! ## Two editors -/

/-- The date of a time, to the nearest millisecond. -/
def toMilliseconds (t : Timestamp) : ℤ :=
  t.Seconds * 1000 + (t.Nanos + 500000) / 1000000

def ofMilliseconds (date : ℤ) : Timestamp :=
  ⟨date / 1000, date % 1000 * 1000000⟩

private theorem ofMilliseconds_toMilliseconds (seconds : ℤ) :
    ofMilliseconds (toMilliseconds ⟨seconds, 0⟩) = ⟨seconds, 0⟩ := by
  simp only [ofMilliseconds, toMilliseconds, Timestamp.mk.injEq]
  omega

instance : ProtobufDates where
  timestampDate := toMilliseconds
  timestampFromDate := ofMilliseconds
  timestampFromDate_timestampDate := ofMilliseconds_toMilliseconds

def editedTables : Tables :=
  { Tables.ofMemos [{ ID := 1, UID := "a", CreatorID := 1, Content := "x", UpdatedTs := 5 }] [] [] 1
    with users := [{ ID := 1, Username := "ada" }] }

/-- An editor that was filled from the memo. -/
def loadedState : EditorState where
  content := "x"
  metadata := { visibility := .PRIVATE, attachments := [], relations := [], location := none }
  timestamps := { createTime := some 0, updateTime := some 5000 }

/-- The first editor changes the content, the others the visibility. -/
def twoEditors (n : ℕ) : MemoEditor :=
  if n = 0 then { state := { loadedState with content := "y" } }
  else
    { state := { loadedState with
        metadata := { loadedState.metadata with visibility := .PUBLIC } } }

/-- The service at a time. -/
def serviceAt (now : ℤ) : MemoService :=
  { MemoService.plain with engine := { StoreEngine.plain with now := now } }

/-- A run of the two editors and the fields that it ends with. -/
theorem exists_twoEditors {events : List EditingEvent} {after : MemoFields}
    (h : ((Run.exec (Editing.step twoEditors "a") (Editing.OnlyEditors "a") { db := editedTables }
      events).bind fun s => fields "a" s.db) = some after) :
    ∃ s, Run (Editing.step twoEditors "a") (Editing.OnlyEditors "a") { db := editedTables }
      events s ∧ fields "a" s.db = some after := by
  rcases Option.bind_eq_some_iff.mp h with ⟨s, hexec, hafter⟩
  exact ⟨s, .of_exec hexec, hafter⟩

/-- Both have fetched the memo before either updates it: both changes are kept. -/
theorem saves_keep_last_overlapping :
    ∃ s : Editing, fields "a" s.db = some ⟨"y", .Public, none, 8⟩ ∧
      ∃ after, fields "a" s.db = some after ∧ ∀ field : EditorField, field.stored after =
        ((s.completed.filter fun c =>
          field.differs (twoEditors c.editor).state c.prevMemo).getLast?.map
            fun c => field.held (twoEditors c.editor).state).getD
              (field.stored ⟨"x", .Private, none, 5⟩) := by
  rcases @exists_twoEditors [.getMemo 0 (serviceAt 7), .getMemo 1 (serviceAt 7),
    .updateMemo 0 (serviceAt 8), .updateMemo 1 (serviceAt 9)] ⟨"y", .Public, none, 8⟩
    (by decide +kernel) with ⟨s, hrun, hfields⟩
  have hbefore : fields "a" editedTables = some ⟨"x", .Private, none, 5⟩ := by decide +kernel
  exact ⟨s, hfields, saves_keep_last hbefore hrun⟩

/-- One saves after the other: the change of the first is gone, and the time is set back. -/
theorem saves_in_turn_lost :
    ∃ s : Editing, fields "a" s.db = some ⟨"x", .Public, none, 5⟩ ∧ ∃ t before after,
      Run (Editing.step twoEditors "a") (Editing.OnlyEditors "a") { db := editedTables }
        (([⟨0, serviceAt 7, serviceAt 8⟩] : List Turn).flatMap Turn.events) t ∧
      fields "a" t.db = some before ∧ fields "a" s.db = some after ∧
      (∀ field : EditorField, field.stored after = field.held (twoEditors 1).state) ∧
      ∀ seconds, (twoEditors 1).state.timestamps.updateTime =
          some (timestampDate (timestampOfUnix seconds)) → seconds ≠ before.updatedTs →
        after.updatedTs = seconds := by
  rcases @exists_twoEditors (([⟨0, serviceAt 7, serviceAt 8⟩] ++
    [⟨1, serviceAt 9, serviceAt 9⟩] : List Turn).flatMap Turn.events) ⟨"x", .Public, none, 5⟩
    (by decide +kernel) with ⟨s, hrun, hfields⟩
  have hfirst : fields "a" editedTables = some ⟨"x", .Private, none, 5⟩ := by decide +kernel
  exact ⟨s, hfields, saves_in_turn hfirst hrun⟩

end Web
end MemosNote
