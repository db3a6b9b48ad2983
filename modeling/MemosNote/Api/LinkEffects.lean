import MemosNote.Api.MemoLinks

/-!
# What setting links does to the tables

The references that a request gives are read off the memos; the attachments that it gives are read
off their rows.  From both it follows what the tables are when a step fails, and when none does.

Main results:

- Theorem {lit}`setMemoRelationsInternal_eq`: the references of a memo become those before the
  first entry that fails.
- Theorem {lit}`setMemoAttachmentsInternal_cases`: where setting attachments may fail, and what it
  has deleted and linked by then.
-/

namespace MemosNote
namespace Store
namespace Tables

/-! ## Statements on references -/

/-- The statement that deletes the references of a memo. -/
def deleteReferences (db : Tables) (memoID : ℤ) : Tables :=
  db.deleteMemoRelation { MemoID := some memoID, RelationType := some .Reference }

/-- The statements that add references of a memo. -/
def addReferences (db : Tables) (memoID : ℤ) (ids : List ℤ) : Tables :=
  ids.foldl (fun db id => db.upsertMemoRelation ⟨memoID, id, .Reference⟩) db

variable {db : Tables} {memoID : ℤ}

private theorem mem_deleteReferences {r : MemoRelation} :
    r ∈ (db.deleteReferences memoID).memoRelations ↔
      r ∈ db.memoRelations ∧ ¬(r.MemoID = memoID ∧ r.RelationType = .Reference) := by
  rw [deleteReferences, deleteMemoRelation, List.mem_filter, not_and_or]
  simp [DeleteMemoRelation.matchesRelation]

private theorem mem_addReferences {ids : List ℤ} {r : MemoRelation} :
    r ∈ (db.addReferences memoID ids).memoRelations ↔
      r ∈ db.memoRelations ∨ ∃ id ∈ ids, r = ⟨memoID, id, .Reference⟩ := by
  induction ids generalizing db with
  | nil => simp [addReferences]
  | cons id ids ih =>
      have hstep : db.addReferences memoID (id :: ids) =
          (db.upsertMemoRelation ⟨memoID, id, .Reference⟩).addReferences memoID ids := rfl
      rw [hstep, ih, mem_upsertMemoRelation, or_assoc]
      simp

/-- Nothing but relations changes. -/
theorem memos_addReferences {ids : List ℤ} : (db.addReferences memoID ids).memos = db.memos := by
  induction ids generalizing db with
  | nil => rfl
  | cons id ids ih => exact ih

private theorem attachments_addReferences {ids : List ℤ} :
    (db.addReferences memoID ids).attachments = db.attachments := by
  induction ids generalizing db with
  | nil => rfl
  | cons id ids ih => exact ih

/-- The references of a memo, replaced. -/
def withReferences (db : Tables) (memoID : ℤ) (ids : List ℤ) : Tables :=
  (db.deleteReferences memoID).addReferences memoID ids

/-- The memo that a relation makes a reference of. -/
def IsReference (memoID id : ℤ) (db : Tables) : Prop :=
  (⟨memoID, id, .Reference⟩ : MemoRelation) ∈ db.memoRelations

/-- The references of one memo are replaced. -/
theorem mem_withReferences {ids : List ℤ} {r : MemoRelation} :
    r ∈ (db.withReferences memoID ids).memoRelations ↔
      (r ∈ db.memoRelations ∧ ¬(r.MemoID = memoID ∧ r.RelationType = .Reference)) ∨
        ∃ id ∈ ids, r = ⟨memoID, id, .Reference⟩ := by
  rw [withReferences, mem_addReferences, mem_deleteReferences]

@[simp]
theorem memos_withReferences {ids : List ℤ} : (db.withReferences memoID ids).memos = db.memos :=
  memos_addReferences

@[simp]
theorem attachments_withReferences {ids : List ℤ} :
    (db.withReferences memoID ids).attachments = db.attachments :=
  attachments_addReferences

/-- The memo refers to the given ones. -/
theorem isReference_withReferences {ids : List ℤ} {id : ℤ} :
    IsReference memoID id (db.withReferences memoID ids) ↔ id ∈ ids := by
  rw [IsReference, mem_withReferences]
  simp

/-- The relations stay the same exactly when the references do. -/
theorem sameRelations_withReferences_iff {ids : List ℤ} :
    (∀ r, r ∈ (db.withReferences memoID ids).memoRelations ↔ r ∈ db.memoRelations) ↔
      ∀ id, IsReference memoID id db ↔ id ∈ ids := by
  constructor
  · intro hsame id
    have hid := hsame ⟨memoID, id, .Reference⟩
    rw [IsReference, ← hid]
    exact isReference_withReferences
  · intro hreferences r
    rw [mem_withReferences]
    constructor
    · intro hr
      rcases hr with hr | ⟨id, hid, rfl⟩
      · exact hr.1
      · exact (hreferences id).mpr hid
    · intro hr
      by_cases href : r.MemoID = memoID ∧ r.RelationType = .Reference
      · right
        rcases r with ⟨source, target, relationType⟩
        rcases href with ⟨rfl, rfl⟩
        exact ⟨target, (hreferences target).mp hr, rfl⟩
      · exact .inl ⟨hr, href⟩

/-! ## Statements on attachments -/

/-- The memo that every attachment is linked to. -/
def memoLinks (db : Tables) : List (ℤ × Option ℤ) :=
  db.attachments.map fun a => (a.ID, a.MemoID)

/-- The statements that link attachments to a memo, each at the time of its number. -/
def linkAttachments (db : Tables) (time : ℕ → ℤ) (memoID : ℤ) (list : List (Attachment × ℕ)) :
    Tables :=
  list.foldl (fun db indexed => db.updateAttachment {
    ID := indexed.1.ID
    MemoID := some memoID
    UpdatedTs := some (time indexed.2) }) db

/-- An update of an attachment may set its link. -/
theorem memoLinks_updateAttachment {id : ℤ} {updatedTs : Option ℤ} :
    (db.updateAttachment { ID := id, MemoID := some memoID, UpdatedTs := updatedTs }).memoLinks =
      db.memoLinks.map fun link => if link.1 = id then (link.1, some memoID) else link := by
  rw [memoLinks, memoLinks, updateAttachment, List.map_map, List.map_map]
  apply List.map_congr_left
  intro a _
  by_cases ha : a.ID = id
  · simp [UpdateAttachment.onRow, UpdateAttachment.assign, ha]
  · simp [UpdateAttachment.onRow, ha]

/-- Linking keeps the rows and their names. -/
theorem attachments_linkAttachments {time : ℕ → ℤ} {list : List (Attachment × ℕ)} :
    (db.linkAttachments time memoID list).attachments.map (fun a => (a.ID, a.UID, a.MemoID)) =
      db.attachments.map fun a => (a.ID, a.UID,
        if a.ID ∈ list.map fun indexed => indexed.1.ID then some memoID else a.MemoID) := by
  induction list generalizing db with
  | nil => simp [linkAttachments]
  | cons indexed list ih =>
      have hstep : db.linkAttachments time memoID (indexed :: list) =
          (db.updateAttachment {
            ID := indexed.1.ID
            MemoID := some memoID
            UpdatedTs := some (time indexed.2) }).linkAttachments time memoID list := rfl
      rw [hstep, ih, updateAttachment, List.map_map]
      apply List.map_congr_left
      intro a _
      rw [Function.comp_apply, UpdateAttachment.onRow]
      by_cases hhead : a.ID = indexed.1.ID
      · have hmem : a.ID ∈ (indexed :: list).map fun indexed => indexed.1.ID := by simp [hhead]
        rw [if_pos hhead]
        simp only [if_pos hmem, UpdateAttachment.assign]
        exact congrArg (fun memoID => (a.ID, a.UID, memoID)) (ite_self (some memoID))
      · rw [if_neg hhead]
        simp only [List.map_cons, List.mem_cons, hhead, false_or]

/-- The linked attachments belong to the memo, the others stay. -/
theorem memoLinks_linkAttachments {time : ℕ → ℤ} {list : List (Attachment × ℕ)} :
    (db.linkAttachments time memoID list).memoLinks =
      db.memoLinks.map fun link =>
        if link.1 ∈ list.map fun indexed => indexed.1.ID then (link.1, some memoID) else link := by
  have hrows := congrArg (List.map fun row : ℤ × String × Option ℤ => (row.1, row.2.2))
    (@attachments_linkAttachments db memoID time list)
  rw [List.map_map, List.map_map] at hrows
  rw [memoLinks, memoLinks, List.map_map]
  refine hrows.trans (List.map_congr_left fun a _ => ?_)
  by_cases ha : a.ID ∈ list.map fun indexed => indexed.1.ID
  · simp only [Function.comp_apply, if_pos ha]
  · simp only [Function.comp_apply, if_neg ha]

/-- Deleted attachments lose their links. -/
theorem memoLinks_filterAttachments {ids : List ℤ} :
    (db.filterAttachments fun a => a.ID ∉ ids).memoLinks =
      db.memoLinks.filter fun link => link.1 ∉ ids := by
  rw [memoLinks, memoLinks, List.filter_map]
  rfl

/-- A deletion adds no link. -/
theorem memoLinks_filterAttachments_sublist {p : Attachment → Bool} :
    (db.filterAttachments p).memoLinks.Sublist db.memoLinks :=
  List.filter_sublist.map _

@[simp]
theorem memos_linkAttachments {time : ℕ → ℤ} {list : List (Attachment × ℕ)} :
    (db.linkAttachments time memoID list).memos = db.memos := by
  induction list generalizing db with
  | nil => rfl
  | cons indexed list ih => exact ih

@[simp]
theorem memoRelations_linkAttachments {time : ℕ → ℤ} {list : List (Attachment × ℕ)} :
    (db.linkAttachments time memoID list).memoRelations = db.memoRelations := by
  induction list generalizing db with
  | nil => rfl
  | cons indexed list ih => exact ih

theorem filterAttachments_notMem_nil : (db.filterAttachments fun a => a.ID ∉ ([] : List ℤ)) = db := by
  simp [filterAttachments]

end Tables
end Store

namespace Api

open Library Store

namespace MemoService

variable (svc : MemoService)

/-! ## References -/

/-- The memo that one relation of a request refers to; none if the relation is ignored. -/
def relationTarget (memoUID : String) (memos : List Memo) (relation : RelationMessage) :
    Except Failure (Option ℤ) :=
  match relation.RelatedMemo with
  | none => .error nilPointer
  | some relatedMemo =>
      if buildMemoName memoUID = relatedMemo.Name then .ok none
      else if relation.RelationType = .COMMENT then .ok none
      else
        match svc.extractMemoUIDFromName relatedMemo.Name with
        | .error err => .error (.status .InvalidArgument ("invalid related memo name: " ++ err))
        | .ok uid =>
            match memos.find? fun m => m.UID = uid with
            | none => .error nilPointer
            | some related => .ok (some related.ID)

/-- The references of a request up to the first relation that fails, and its failure. -/
def relationTargets (memoUID : String) (memos : List Memo) :
    List RelationMessage → List ℤ × Except Failure Unit
  | [] => ([], .ok ())
  | relation :: rest =>
      match svc.relationTarget memoUID memos relation with
      | .error failure => ([], .error failure)
      | .ok none => relationTargets memoUID memos rest
      | .ok (some id) =>
          (id :: (relationTargets memoUID memos rest).1, (relationTargets memoUID memos rest).2)

variable {svc} {db : Tables}

/-- A query for a name finds the memo with the name. -/
theorem getMemo_uid_eq (engine : StoreEngine) (db : Tables) (uid : String) :
    ∃ found, engine.getMemo { UID := some uid } db = (.ok found, db) ∧
      found.map FoundMemo.toMemo = db.memos.find? fun m => m.UID = uid := by
  have hget := @StoreEngine.getMemo_eq engine db { UID := some uid } rfl
  cases hfound : (db.selectMemos { UID := some uid } []).head? with
  | none =>
      rw [hfound] at hget
      refine ⟨none, hget, ?_⟩
      have hnone := StoreEngine.getMemo_uid_none_iff.mp hget
      exact (List.find?_eq_none.mpr fun m hm => by simpa using hnone m hm).symm
  | some row =>
      rw [hfound] at hget
      refine ⟨some row, hget, ?_⟩
      rcases StoreEngine.mem_of_getMemo_uid hget with ⟨-, hmem, huid, -⟩
      cases hfind : db.memos.find? fun m => m.UID = uid with
      | none =>
          have hnot := List.find?_eq_none.mp hfind row.toMemo hmem
          exact absurd huid (by simpa using hnot)
      | some m =>
          have hm : m.UID = uid := by simpa using List.find?_some hfind
          rw [db.eq_of_memoUID_eq (List.mem_of_find?_eq_some hfind) hmem (hm.trans huid.symm)]
          rfl

private theorem convertMemoRelationTypeToStore_of_ne {relationType : RelationTypeMessage}
    (h : relationType ≠ .COMMENT) : convertMemoRelationTypeToStore relationType = .Reference := by
  cases relationType with
  | TYPE_UNSPECIFIED | REFERENCE => rfl
  | COMMENT => exact absurd rfl h

/-- One relation adds a reference, is ignored, or fails and adds none. -/
theorem setMemoRelation_eq (memo : Memo) (relation : RelationMessage) :
    svc.setMemoRelation memo relation db =
      match svc.relationTarget memo.UID db.memos relation with
      | .error failure => (.error failure, db)
      | .ok none => (.ok (), db)
      | .ok (some id) => (.ok (), db.upsertMemoRelation ⟨memo.ID, id, .Reference⟩) := by
  rw [setMemoRelation, relationTarget]
  cases relation.RelatedMemo with
  | none => rfl
  | some relatedMemo =>
      rw [dereference_some_bind]
      dsimp only
      by_cases hself : buildMemoName memo.UID = relatedMemo.Name
      · simp [hself]
      by_cases hcomment : relation.RelationType = .COMMENT
      · simp [hself, hcomment]
      rw [if_neg hself, if_neg hcomment, if_neg hself, if_neg hcomment]
      cases hextract : svc.extractMemoUIDFromName relatedMemo.Name with
      | error err => rfl
      | ok uid =>
          rcases getMemo_uid_eq svc.engine db uid with ⟨found, hget, hfind⟩
          have hinternally : internally "failed to get related memo"
              (svc.engine.getMemo { UID := some uid }) db = (.ok found, db) := by
            rw [internally, withStatus, Effect.mapError, hget]
            rfl
          dsimp only
          rw [← hfind]
          refine (Effect.bind_of_ok (rfl : _ = (Except.ok uid, db))).trans ?_
          rw [Effect.bind_of_ok hinternally]
          cases found with
          | none => rfl
          | some related =>
              rw [dereference_some_bind, convertMemoRelationTypeToStore_of_ne hcomment]
              rfl

private theorem setMemoRelations_eq (memo : Memo) (relations : List RelationMessage) :
    Effect.forEach (svc.setMemoRelation memo) relations db =
      ((svc.relationTargets memo.UID db.memos relations).2,
        db.addReferences memo.ID (svc.relationTargets memo.UID db.memos relations).1) := by
  induction relations generalizing db with
  | nil => rfl
  | cons relation rest ih =>
      have hone := @setMemoRelation_eq svc db memo relation
      rw [relationTargets, Effect.forEach]
      cases htarget : svc.relationTarget memo.UID db.memos relation with
      | error failure =>
          rw [htarget] at hone
          rw [Effect.bind_of_error hone]
          rfl
      | ok target =>
          rw [htarget] at hone
          cases target with
          | none => rw [Effect.bind_of_ok hone, ih]
          | some id =>
              rw [Effect.bind_of_ok hone, ih]
              rfl

/-- Setting references replaces them by those before the first relation that fails. -/
theorem setMemoRelationsInternal_eq (memo : Memo) (relations : List RelationMessage) :
    svc.setMemoRelationsInternal memo relations db =
      ((svc.relationTargets memo.UID db.memos relations).2,
        db.withReferences memo.ID (svc.relationTargets memo.UID db.memos relations).1) := by
  have hdelete : internally "failed to delete memo relation" (StoreEngine.deleteMemoRelation
      { MemoID := some memo.ID, RelationType := some .Reference }) db =
        (.ok (), db.deleteReferences memo.ID) := rfl
  rw [setMemoRelationsInternal, Effect.bind_of_ok hdelete, setMemoRelations_eq]
  rfl

/-! ## Attachments -/

/-- What is added to the normalized list. -/
theorem mem_of_mem_appendNew {normalized list : List Attachment} {a : Attachment}
    (h : a ∈ appendNew normalized list) : a ∈ normalized ∨ a ∈ list := by
  induction list generalizing normalized with
  | nil => exact .inl h
  | cons b rest ih =>
      rw [appendNew] at h
      split at h
      · exact (ih h).imp id (List.mem_cons_of_mem b)
      · rcases ih h with hmem | hmem
        · rcases List.mem_append.mp hmem with hmem | hmem
          · exact .inl hmem
          · exact .inr (List.mem_singleton.mp hmem ▸ List.mem_cons_self)
        · exact .inr (List.mem_cons_of_mem b hmem)

private theorem mem_of_mem_normalizeStep {current requested : List Attachment}
    {done : List Attachment × List String} {a b : Attachment} (ha : a ∈ requested)
    (h : b ∈ (normalizeStep current requested done a).1) : b ∈ done.1 ∨ b ∈ requested := by
  rw [normalizeStep] at h
  split at h
  · rcases mem_of_mem_appendNew h with hmem | hmem
    · exact .inl hmem
    · exact .inr (List.mem_singleton.mp hmem ▸ ha)
  · split at h
    · exact .inl h
    · split at h
      · exact .inl h
      · exact (mem_of_mem_appendNew h).imp id fun hmem => (List.mem_filter.mp hmem).1

/-- Only requested attachments are left after normalizing. -/
theorem mem_of_mem_normalizeAttachments {current requested : List Attachment} {b : Attachment}
    (h : b ∈ normalizeAttachments current requested) : b ∈ requested := by
  have hfold : ∀ (list : List Attachment) (done : List Attachment × List String),
      (∀ a ∈ list, a ∈ requested) → (∀ a ∈ done.1, a ∈ requested) →
      ∀ a ∈ (list.foldl (normalizeStep current requested) done).1, a ∈ requested := by
    intro list
    induction list with
    | nil => exact fun _ _ hdone => hdone
    | cons a rest ih =>
        intro done hlist hdone
        apply ih _ fun a' ha' => hlist a' (List.mem_cons_of_mem a ha')
        intro b hb
        rcases mem_of_mem_normalizeStep (hlist a List.mem_cons_self) hb with hb | hb
        · exact hdone b hb
        · exact hb
  exact hfold requested ([], []) (fun _ ha => ha) (fun _ ha => absurd ha (by simp)) b h

/-- A user may remove and attach the own attachments, an administrator all. -/
def mayUse (user : User) (attachment : Attachment) : Bool :=
  attachment.CreatorID = user.ID || isSuperUser user

/-- The test of the code is that of use. -/
theorem not_mayUse_iff {user : User} {attachment : Attachment} :
    (attachment.CreatorID ≠ user.ID && !isSuperUser user) = !mayUse user attachment := by
  simp [mayUse]

private theorem requestedAttachment_ok {user : User} {name : String} {a : Attachment} {db' : Tables}
    (h : svc.requestedAttachment user name db = (.ok a, db')) :
    a ∈ db.attachments ∧ svc.extractAttachmentUIDFromName name = .ok a.UID ∧
      mayUse user a = true := by
  rw [requestedAttachment] at h
  rcases Effect.ok_of_bind h with ⟨uid, t, hextract, hrest⟩
  rcases Effect.ok_of_ofExcept hextract with ⟨huid, rfl⟩
  rcases @StoreEngine.getAttachment_uid svc.engine t uid with ⟨found, hget, hfound⟩
  have hstatus : withStatus .Internal (fun err => "failed to get attachment: " ++ err)
      (svc.engine.getAttachment { UID := some uid }) t = (.ok found, t) := by
    rw [withStatus, Effect.mapError, hget]
    rfl
  rw [Effect.bind_of_ok hstatus] at hrest
  cases found with
  | none => cases hrest
  | some b =>
      dsimp only at hrest
      rw [not_mayUse_iff] at hrest
      by_cases hmay : mayUse user b = true
      · rw [if_neg (by simp [hmay])] at hrest
        cases hrest
        rcases hfound a rfl with ⟨hmem, hname⟩
        refine ⟨hmem, ?_, hmay⟩
        rw [hname]
        cases hresult : svc.extractAttachmentUIDFromName name with
        | error err =>
            rw [hresult] at huid
            cases huid
        | ok uid' =>
            rw [hresult] at huid
            cases huid
            rfl
      · rw [if_pos (by simpa using hmay)] at hrest
        cases hrest

/-- The attachments of a request are those with its names. -/
theorem requestedAttachments_ok {user : User} {requestAttachments : List AttachmentMessage}
    {list : List Attachment} {db' : Tables}
    (h : svc.requestedAttachments user requestAttachments db = (.ok list, db')) :
    List.Forall₂ (fun (request : AttachmentMessage) (a : Attachment) => a ∈ db.attachments ∧
      svc.extractAttachmentUIDFromName request.Name = .ok a.UID ∧ mayUse user a = true)
      requestAttachments list := by
  induction requestAttachments generalizing list db' with
  | nil =>
      cases h
      exact .nil
  | cons request rest ih =>
      rw [requestedAttachments] at h
      rcases Effect.ok_of_read_bind (fun s => requestedAttachment_keeps user request.Name) h with
        ⟨a, hfirst, hthen⟩
      rcases Effect.ok_of_bind hthen with ⟨attachments, t, hrest, hlist⟩
      cases hlist
      exact .cons (requestedAttachment_ok hfirst) (ih hrest)

/-- The requested attachments are in the table. -/
theorem mem_of_requestedAttachments {user : User} {requestAttachments : List AttachmentMessage}
    {list : List Attachment} {db' : Tables}
    (h : svc.requestedAttachments user requestAttachments db = (.ok list, db')) :
    ∀ a ∈ list, a ∈ db.attachments := by
  intro a ha
  rcases List.forall₂_iff_get.mp (requestedAttachments_ok h) with ⟨hlength, hget⟩
  rcases List.mem_iff_get.mp ha with ⟨i, rfl⟩
  have hi : i.val < requestAttachments.length := by
    rw [hlength]
    exact i.isLt
  exact (hget i.val hi i.isLt).1

variable (svc) in
/-- The attachments that a request gives a memo. -/
def attachmentsOfRequest (user : User) (memoID : ℤ) (db : Tables)
    (requestAttachments : List AttachmentMessage) : Except Failure (List Attachment) :=
  (svc.normalizeMemoAttachmentRequest user (svc.engine.listedAttachments db memoID)
    requestAttachments db).1

/-- The normalized list as a function of the tables. -/
theorem normalizeMemoAttachmentRequest_eq (user : User) (memoID : ℤ)
    (requestAttachments : List AttachmentMessage) :
    svc.normalizeMemoAttachmentRequest user (svc.engine.listedAttachments db memoID)
      requestAttachments db = (svc.attachmentsOfRequest user memoID db requestAttachments, db) :=
  Effect.eq_of_keeps (fun _ => (requestedAttachments_keeps user requestAttachments).bind fun _ =>
    Effect.Keeps.pure _) db

/-- The normalized list is in the table. -/
theorem mem_of_attachmentsOfRequest {user : User} {memoID : ℤ}
    {requestAttachments : List AttachmentMessage} {normalized : List Attachment}
    (h : svc.attachmentsOfRequest user memoID db requestAttachments = .ok normalized) :
    ∀ a ∈ normalized, a ∈ db.attachments := by
  have hrun := @normalizeMemoAttachmentRequest_eq svc db user memoID requestAttachments
  rw [h] at hrun
  rcases Effect.ok_of_bind hrun with ⟨requested, t, hrequested, hnormalized⟩
  cases hnormalized
  intro a ha
  exact mem_of_requestedAttachments hrequested a (mem_of_mem_normalizeAttachments ha)

/-- One attachment stays, is deleted, or stops the deletion. -/
theorem removeAttachment_cases (user : User) (requestedIDs : List ℤ) (a : Attachment) :
    (a.ID ∈ requestedIDs ∧ svc.removeAttachment user requestedIDs a db = (.ok (), db)) ∨
      (a.ID ∉ requestedIDs ∧ mayUse user a = true ∧
        svc.removeAttachment user requestedIDs a db =
          (.ok (), db.filterAttachments fun b => b.ID ≠ a.ID)) ∨
      (a.ID ∉ requestedIDs ∧ ∃ failure,
        svc.removeAttachment user requestedIDs a db = (.error failure, db) ∧
          (failure.Rejects → mayUse user a = false)) := by
  rw [removeAttachment]
  by_cases hrequested : a.ID ∈ requestedIDs
  · rw [if_pos hrequested]
    exact .inl ⟨hrequested, rfl⟩
  rw [if_neg hrequested, not_mayUse_iff]
  cases hmay : mayUse user a with
  | false => exact .inr (.inr ⟨hrequested, _, rfl, fun _ => rfl⟩)
  | true =>
      rw [if_neg (by simp)]
      rcases @StoreEngine.deleteAttachment_state svc.engine db a.ID with ⟨err, hrun⟩ | hrun
      · right
        right
        refine ⟨hrequested, .status .Internal "failed to delete attachment", ?_, ?_⟩
        · rw [internally, withStatus, Effect.mapError, hrun]
          rfl
        · intro hrejects
          simp [Failure.Rejects] at hrejects
      · refine .inr (.inl ⟨hrequested, rfl, ?_⟩)
        rw [internally, withStatus, Effect.mapError, hrun]
        rfl

/-- The attachments that are not requested are deleted up to the first that stops the deletion. -/
theorem removeAttachments_cases (user : User) (requestedIDs : List ℤ) (current : List Attachment) :
    ((∀ a ∈ current.filter (fun a => a.ID ∉ requestedIDs), mayUse user a = true) ∧
      Effect.forEach (svc.removeAttachment user requestedIDs) current db =
        (.ok (), db.filterAttachments fun b =>
          b.ID ∉ (current.filter (fun a => a.ID ∉ requestedIDs)).map Attachment.ID)) ∨
      ∃ before a after failure,
        current.filter (fun a => a.ID ∉ requestedIDs) = before ++ a :: after ∧
          (∀ b ∈ before, mayUse user b = true) ∧
          Effect.forEach (svc.removeAttachment user requestedIDs) current db =
            (.error failure, db.filterAttachments fun b => b.ID ∉ before.map Attachment.ID) ∧
          (failure.Rejects → mayUse user a = false) := by
  induction current generalizing db with
  | nil =>
      left
      refine ⟨fun a ha => absurd ha (by simp), ?_⟩
      exact congrArg (Prod.mk (Except.ok ())) Tables.filterAttachments_notMem_nil.symm
  | cons a rest ih =>
      rw [Effect.forEach]
      rcases @removeAttachment_cases svc db user requestedIDs a with
        ⟨hstays, hrun⟩ | ⟨hgoes, hmay, hrun⟩ | ⟨hgoes, failure, hrun, hrejects⟩
      · rw [Effect.bind_of_ok hrun, List.filter_cons_of_neg (by simpa using hstays)]
        exact ih
      · rw [Effect.bind_of_ok hrun, List.filter_cons_of_pos (by simpa using hgoes)]
        -- What the deletion of the first and of others leaves.
        have hboth : ∀ ids : List ℤ, ((db.filterAttachments fun b => b.ID ≠ a.ID).filterAttachments
            fun b => b.ID ∉ ids) = db.filterAttachments fun b => b.ID ∉ a.ID :: ids := by
          intro ids
          rw [Tables.filterAttachments_filterAttachments]
          congr 1
          funext b
          rw [Bool.eq_iff_iff]
          simp
        rcases @ih (db.filterAttachments fun b => b.ID ≠ a.ID) with
          ⟨hall, hrest⟩ | ⟨before, b, after, failure, hsplit, hall, hrest, hrejects⟩
        · left
          refine ⟨fun b hb => ?_, ?_⟩
          · rcases List.mem_cons.mp hb with rfl | hb
            · exact hmay
            · exact hall b hb
          · rw [hrest, List.map_cons, ← hboth]
        · right
          refine ⟨a :: before, b, after, failure, by rw [hsplit, List.cons_append], ?_, ?_, hrejects⟩
          · intro b hb
            rcases List.mem_cons.mp hb with rfl | hb
            · exact hmay
            · exact hall b hb
          · rw [hrest, List.map_cons, ← hboth]
      · right
        rw [Effect.bind_of_error hrun, List.filter_cons_of_pos (by simpa using hgoes)]
        refine ⟨[], a, _, failure, rfl, fun b hb => absurd hb (by simp), ?_, hrejects⟩
        exact congrArg (Prod.mk (Except.error failure)) Tables.filterAttachments_notMem_nil.symm

variable (svc) in
/-- The time that the attachment of a place gets. -/
def linkTime (i : ℕ) : ℤ :=
  svc.engine.linkClock i + i

private theorem linkAttachments_eq (memo : Memo) (list : List (Attachment × ℕ)) :
    Effect.forEach (svc.linkAttachment memo) list db =
      (.ok (), db.linkAttachments svc.linkTime memo.ID list) :=
  Effect.forEach_update (fun _ _ => rfl) list db

variable (svc) in
/-- The listed attachments of a memo that are not in a list. -/
def removedAttachments (memoID : ℤ) (db : Tables) (normalized : List Attachment) :
    List Attachment :=
  (svc.engine.listedAttachments db memoID).filter fun a =>
    a.ID ∉ normalized.map Attachment.ID

variable (svc) in
/-- The tables after the attachments of a memo are set. -/
def withAttachments (memoID : ℤ) (db : Tables) (normalized : List Attachment) : Tables :=
  (db.filterAttachments fun b =>
    b.ID ∉ (svc.removedAttachments memoID db normalized).map Attachment.ID).linkAttachments
      svc.linkTime memoID normalized.reverse.zipIdx

/-- The places do not change the identifiers. -/
theorem map_ID_zipIdx (list : List Attachment) :
    (list.zipIdx.map fun indexed => indexed.1.ID) = list.map Attachment.ID := by
  have hfst : (list.zipIdx.map fun indexed => indexed.1.ID) =
      (list.zipIdx.map Prod.fst).map Attachment.ID := by rw [List.map_map]; rfl
  rw [hfst, List.zipIdx_map_fst]

/-- The links after the attachments of a memo are set. -/
theorem mem_memoLinks_withAttachments {memoID : ℤ} {normalized : List Attachment}
    {link : ℤ × Option ℤ} :
    link ∈ (svc.withAttachments memoID db normalized).memoLinks ↔
      ∃ a ∈ db.attachments,
        a.ID ∉ (svc.removedAttachments memoID db normalized).map Attachment.ID ∧
          (if a.ID ∈ normalized.map Attachment.ID then (a.ID, some memoID)
            else (a.ID, a.MemoID)) = link := by
  rw [withAttachments, Tables.memoLinks_linkAttachments, Tables.memoLinks_filterAttachments,
    map_ID_zipIdx, Tables.memoLinks, List.filter_map, List.map_map, List.mem_map]
  simp only [List.mem_filter, Function.comp_apply, List.map_reverse, List.mem_reverse, and_assoc,
    decide_eq_true_eq]

/-- Setting attachments fails with the request, fails at a deletion, or completes. -/
theorem setMemoAttachmentsInternal_cases (user : User) (memo : Memo)
    (requestAttachments : List AttachmentMessage) :
    (∃ failure, svc.attachmentsOfRequest user memo.ID db requestAttachments = .error failure ∧
      svc.setMemoAttachmentsInternal user memo requestAttachments db = (.error failure, db)) ∨
    ∃ normalized, svc.attachmentsOfRequest user memo.ID db requestAttachments = .ok normalized ∧
      (((∀ a ∈ svc.removedAttachments memo.ID db normalized, mayUse user a = true) ∧
        svc.setMemoAttachmentsInternal user memo requestAttachments db =
          (.ok (), svc.withAttachments memo.ID db normalized)) ∨
      ∃ before a after failure,
        svc.removedAttachments memo.ID db normalized = before ++ a :: after ∧
          (∀ b ∈ before, mayUse user b = true) ∧
          svc.setMemoAttachmentsInternal user memo requestAttachments db =
            (.error failure, db.filterAttachments fun b => b.ID ∉ before.map Attachment.ID) ∧
          (failure.Rejects → mayUse user a = false)) := by
  have hlist : internally "failed to list attachments"
      (svc.engine.listAttachments { MemoID := some memo.ID }) db =
        (.ok (svc.engine.listedAttachments db memo.ID), db) := by
    rw [internally, withStatus, Effect.mapError, StoreEngine.listAttachments_memo]
    rfl
  have hnormalize := @normalizeMemoAttachmentRequest_eq svc db user memo.ID requestAttachments
  rw [setMemoAttachmentsInternal, Effect.bind_of_ok hlist]
  cases hrequest : svc.attachmentsOfRequest user memo.ID db requestAttachments with
  | error failure =>
      rw [hrequest] at hnormalize
      rw [Effect.bind_of_error hnormalize]
      exact .inl ⟨failure, rfl, rfl⟩
  | ok normalized =>
      rw [hrequest] at hnormalize
      rw [Effect.bind_of_ok hnormalize]
      refine .inr ⟨normalized, rfl, ?_⟩
      rcases @removeAttachments_cases svc db user (normalized.map Attachment.ID)
        (svc.engine.listedAttachments db memo.ID) with
        ⟨hall, hrun⟩ | ⟨before, a, after, failure, hsplit, hall, hrun, hrejects⟩
      · left
        refine ⟨hall, ?_⟩
        rw [Effect.bind_of_ok hrun, linkAttachments_eq]
        rfl
      · right
        refine ⟨before, a, after, failure, hsplit, hall, ?_, hrejects⟩
        exact Effect.bind_of_error hrun

end MemoService

end Api
end MemosNote
