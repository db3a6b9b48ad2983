import MemosNote.Api.LinkEffects
import MemosNote.Api.MemoWrites

/-!
# Updates that are rejected

An update collects the fields of a memo and writes them last, but sets its attachments and its
references as it meets them in the mask.  What is rejected after that has changed them already.

Main results:

- Definition {lit}`MemoService.Spares`: the requests that change nothing before they are rejected.
- Theorem {lit}`update_memo_atomic_iff`: a rejected update leaves the memo, its attachments and its
  relations as they were exactly when its request is one of these.
-/

namespace MemosNote
namespace Api

open Library Store

/-- The same memos, the same memo for every attachment, and the same relations. -/
structure Unchanged (db db' : Tables) : Prop where
  memos : db'.memos = db.memos
  memoLinks : db'.memoLinks = db.memoLinks
  memoRelations : ∀ r, r ∈ db'.memoRelations ↔ r ∈ db.memoRelations

theorem Unchanged.refl (db : Tables) : Unchanged db db :=
  ⟨rfl, rfl, fun _ => Iff.rfl⟩

theorem Unchanged.iff_of_step {db t db' : Tables} (h : Unchanged db t) :
    Unchanged db db' ↔ Unchanged t db' := by
  constructor
  · intro hdb
    exact ⟨hdb.memos.trans h.memos.symm, hdb.memoLinks.trans h.memoLinks.symm,
      fun r => (hdb.memoRelations r).trans (h.memoRelations r).symm⟩
  · intro ht
    exact ⟨ht.memos.trans h.memos, ht.memoLinks.trans h.memoLinks,
      fun r => (ht.memoRelations r).trans (h.memoRelations r)⟩

namespace MemoService

/-- What an update keeps of the memo that it has found. -/
structure UpdateState.Of (memo : FoundMemo) (st : UpdateState) : Prop where
  ID : st.memo.ID = memo.ID
  UID : st.memo.UID = memo.UID
  parent : st.memo.ParentUID = memo.ParentUID
  updateID : st.update.ID = memo.ID

variable (svc : MemoService)

/-! ## The requests that are spared -/

/-- A path that only collects, and rejects the request. -/
def Stops (message : MemoMessage) (memo : FoundMemo) (db : Tables) (path : String) : Prop :=
  (path = "content" ∧
      ∃ limit, svc.contentLengthLimit = .ok limit ∧ limit < message.Content.utf8ByteSize) ∨
    (path = "visibility" ∧
      ∃ parentUID ∈ memo.ParentUID, ∀ parent ∈ db.memos, parent.UID ≠ parentUID) ∨
    path = "display_time"

/-- The attachments are those of the memo, or the first that is to be deleted must not be; in the
first case the rest of the mask counts. -/
def SparesLinks (user : User) (memoID : ℤ) (db : Tables) (normalized : List Attachment)
    (rest : Tables → Prop) : Prop :=
  match svc.removedAttachments memoID db normalized with
  | [] => (∀ a ∈ normalized, a.MemoID = some memoID) ∧
      rest (svc.withAttachments memoID db normalized)
  | a :: _ => mayUse user a = false

/-- The requested attachments reject the request, or spare the links. -/
def SparesAttachments (user : User) (message : MemoMessage) (memoID : ℤ) (db : Tables)
    (rest : Tables → Prop) : Prop :=
  match svc.attachmentsOfRequest user memoID db message.Attachments with
  | .error _ => True
  | .ok normalized => svc.SparesLinks user memoID db normalized rest

/-- The references of the memo are those of the request, up to the entry that rejects it; then the
rest of the mask counts. -/
def SparesRelations (message : MemoMessage) (memo : Memo) (db : Tables) (rest : Tables → Prop) :
    Prop :=
  let targets := svc.relationTargets memo.UID db.memos message.Relations
  (∀ id, Tables.IsReference memo.ID id db ↔ id ∈ targets.1) ∧
    (targets.2 = .ok () → rest (db.withReferences memo.ID targets.1))

/-- No path of the mask changes attachments or references before the request is rejected. -/
def Spares (user : User) (message : MemoMessage) (memo : FoundMemo) :
    List String → Tables → Prop
  | [], _ => True
  | path :: rest, db =>
      if path = "attachments" then
        svc.SparesAttachments user message memo.ID db (Spares user message memo rest)
      else if path = "relations" then
        svc.SparesRelations message memo.toMemo db (Spares user message memo rest)
      else svc.Stops message memo db path ∨ Spares user message memo rest db

/-! ## What one path does -/

variable {svc} {user : User} {message : MemoMessage} {memo : FoundMemo} {st : UpdateState}
  {db db' : Tables}

private theorem checkContentLength_ok_iff {content : String} :
    svc.checkContentLength content = .ok () ↔
      ∃ limit, svc.contentLengthLimit = .ok limit ∧ content.utf8ByteSize ≤ limit := by
  rw [checkContentLength]
  cases svc.contentLengthLimit with
  | error err => simp
  | ok limit =>
      by_cases hlong : limit < content.utf8ByteSize
      · simp [hlong]
      · simp [hlong, Nat.not_lt.mp hlong]

/-- Of the failures of a content, only its length rejects the request. -/
theorem updateContent_rejects {failure : Failure}
    (h : svc.updateContent message st = .error failure) (hrejects : failure.Rejects) :
    ∃ limit, svc.contentLengthLimit = .ok limit ∧ limit < message.Content.utf8ByteSize := by
  rw [updateContent] at h
  cases hcheck : svc.checkContentLength message.Content with
  | error err =>
      rw [hcheck] at h
      cases h
      rw [checkContentLength] at hcheck
      cases hlimit : svc.contentLengthLimit with
      | error err =>
          rw [hlimit] at hcheck
          cases hcheck
          simp [Failure.Rejects] at hrejects
      | ok limit =>
          rw [hlimit] at hcheck
          by_cases hlong : limit < message.Content.utf8ByteSize
          · exact ⟨limit, rfl, hlong⟩
          · simp [hlong] at hcheck
  | ok _ =>
      cases hextract : svc.extractAll message.Content with
      | error err =>
          simp only [hcheck, rebuildMemoPayload, hextract] at h
          cases h
          simp [Failure.Rejects] at hrejects
      | ok data =>
          simp only [hcheck, rebuildMemoPayload, hextract] at h
          cases h

private theorem updateContent_checked {st' : UpdateState}
    (h : svc.updateContent message st = .ok st') :
    svc.checkContentLength message.Content = .ok () := by
  rw [updateContent] at h
  cases hcheck : svc.checkContentLength message.Content with
  | error err =>
      rw [hcheck] at h
      cases h
  | ok _ => rfl

/-- The visibility that an update gives a memo, if its parent is there. -/
def storedVisibility (visibility : VisibilityMessage) (parentUID : Option String)
    (memos : List Memo) : Option Visibility :=
  match parentUID with
  | none => some (convertVisibilityToStore visibility)
  | some uid => (memos.find? fun m => m.UID = uid).map Memo.Visibility

theorem storedVisibility_eq_none_iff {visibility : VisibilityMessage} {parentUID : Option String}
    {memos : List Memo} : storedVisibility visibility parentUID memos = none ↔
      ∃ uid ∈ parentUID, ∀ parent ∈ memos, parent.UID ≠ uid := by
  cases parentUID with
  | none => simp [storedVisibility]
  | some uid => simp [storedVisibility, List.find?_eq_none]

/-- A visibility is collected unless the parent is missing. -/
theorem updatedVisibility_eq :
    svc.updatedVisibility message memo db =
      match storedVisibility message.Visibility memo.ParentUID db.memos with
      | some visibility => (.ok visibility, db)
      | none => (.error (.status .NotFound "memo not found"), db) := by
  rw [updatedVisibility]
  cases memo.ParentUID with
  | none => rfl
  | some parentUID =>
      rcases getMemo_uid_eq svc.engine db parentUID with ⟨found, hget, hfind⟩
      have hparent : internally "failed to get parent memo"
          (svc.engine.getMemo { UID := some parentUID }) db = (.ok found, db) := by
        rw [internally, withStatus, Effect.mapError, hget]
        rfl
      dsimp only
      rw [Effect.bind_of_ok hparent, storedVisibility, ← hfind]
      cases found with
      | none => rfl
      | some parent => rfl

variable (svc user message db) in
/-- A path that only collects changes nothing. -/
theorem updatePath_collects {path : String} (hattachments : path ≠ "attachments")
    (hrelations : path ≠ "relations") (hst : st.Of memo) :
    (∃ st', svc.updatePath user message path st db = (.ok st', db) ∧ st'.Of memo ∧
      ¬svc.Stops message memo db path) ∨
    ∃ failure, svc.updatePath user message path st db = (.error failure, db) ∧
      (failure.Rejects → svc.Stops message memo db path) := by
  by_cases hcontent : path = "content"
  · subst hcontent
    have hpath : svc.updatePath user message "content" st =
        Effect.ofExcept (svc.updateContent message st) := if_pos rfl
    rw [hpath]
    cases hupdate : svc.updateContent message st with
    | error failure =>
        right
        exact ⟨failure, rfl, fun hrejects => .inl ⟨rfl, updateContent_rejects hupdate hrejects⟩⟩
    | ok st' =>
        left
        rcases updateContent_ok hupdate with ⟨data, -, hmemo, hcollected⟩
        rcases checkContentLength_ok_iff.mp (updateContent_checked hupdate) with
          ⟨limit, hlimit, hshort⟩
        refine ⟨st', rfl, ⟨?_, ?_, ?_, ?_⟩, ?_⟩
        · rw [hmemo]
          exact hst.ID
        · rw [hmemo]
          exact hst.UID
        · rw [hmemo]
          exact hst.parent
        · rw [hcollected]
          exact hst.updateID
        · rintro (⟨-, limit', hlimit', hlong⟩ | ⟨hpath, -⟩ | hpath)
          · rw [hlimit] at hlimit'
            cases hlimit'
            omega
          · exact absurd hpath (by decide)
          · exact absurd hpath (by decide)
  by_cases hvisibility : path = "visibility"
  · subst hvisibility
    have hpath : svc.updatePath user message "visibility" st = (do
        let visibility ← svc.updatedVisibility message st.memo
        pure { st with update := { st.update with Visibility := some visibility } }) := if_neg hcontent
    rw [hpath]
    have hrun := @updatedVisibility_eq svc message st.memo db
    rw [hst.parent] at hrun
    cases hstored : storedVisibility message.Visibility memo.ParentUID db.memos with
    | some visibility =>
        left
        rw [hstored] at hrun
        rw [Effect.bind_of_ok hrun]
        refine ⟨_, rfl, ⟨hst.ID, hst.UID, hst.parent, hst.updateID⟩, ?_⟩
        rintro (⟨hpath, -⟩ | ⟨-, hmissing⟩ | hpath)
        · exact absurd hpath (by decide)
        · rw [storedVisibility_eq_none_iff.mpr hmissing] at hstored
          cases hstored
        · exact absurd hpath (by decide)
    | none =>
        right
        rw [hstored] at hrun
        rw [Effect.bind_of_error hrun]
        exact ⟨_, rfl, fun _ => .inr (.inl ⟨rfl, storedVisibility_eq_none_iff.mp hstored⟩)⟩
  by_cases hdisplay : path = "display_time"
  · subst hdisplay
    exact .inr ⟨_, rfl, fun _ => .inr (.inr rfl)⟩
  left
  have hgoes : ¬svc.Stops message memo db path := by
    rintro (⟨hpath, -⟩ | ⟨hpath, -⟩ | hpath)
    · exact hcontent hpath
    · exact hvisibility hpath
    · exact hdisplay hpath
  have hkept : ∀ st' : UpdateState, st'.memo.ID = st.memo.ID → st'.memo.UID = st.memo.UID →
      st'.memo.ParentUID = st.memo.ParentUID → st'.update.ID = st.update.ID → st'.Of memo :=
    fun st' hID hUID hparent hupdateID => ⟨hID.trans hst.ID, hUID.trans hst.UID,
      hparent.trans hst.parent, hupdateID.trans hst.updateID⟩
  rw [updatePath, if_neg hcontent, if_neg hvisibility]
  split_ifs
  all_goals exact ⟨_, rfl, hkept _ rfl rfl rfl rfl, hgoes⟩

theorem updatePath_attachments (user : User) (message : MemoMessage) (st : UpdateState) :
    svc.updatePath user message "attachments" st = (do
      (svc.setMemoAttachmentsInternal user st.memo.toMemo message.Attachments).mapError
        (Failure.wrap "failed to set memo attachments")
      pure st) := by
  simp [updatePath]

theorem updatePath_relations (user : User) (message : MemoMessage) (st : UpdateState) :
    svc.updatePath user message "relations" st = (do
      (svc.setMemoRelationsInternal st.memo.toMemo message.Relations).mapError
        (Failure.wrap "failed to set memo relations")
      pure st) := by
  simp [updatePath]

/-- What setting attachments and references keeps, a path keeps; it does not turn to another
memo. -/
theorem updatePath_linking {P : Tables → Prop}
    (hattachments : ∀ m : Memo, m.ID = memo.ID →
      Effect.Keeps P (svc.setMemoAttachmentsInternal user m message.Attachments))
    (hrelations : ∀ m : Memo, m.ID = memo.ID → m.UID = memo.UID →
      Effect.Keeps P (svc.setMemoRelationsInternal m message.Relations))
    (hst : st.Of memo) (path : String) :
    Effect.Triple P (svc.updatePath user message path st) (fun st' s => P s ∧ st'.Of memo)
      fun _ => P := by
  have hlink : ∀ set : ApiM Unit, Effect.Keeps P set → Effect.Triple P
      (set >>= fun _ => (pure st : ApiM UpdateState)) (fun st' s => P s ∧ st'.Of memo)
      fun _ => P :=
    fun set hset => hset.triple.bind fun _ => Effect.Triple.pure fun s hs => ⟨hs, hst⟩
  by_cases hpath : path = "attachments"
  · rw [hpath, updatePath_attachments]
    exact hlink _ ((hattachments _ hst.ID).mapError _)
  by_cases hpath' : path = "relations"
  · rw [hpath', updatePath_relations]
    exact hlink _ ((hrelations _ hst.ID hst.UID).mapError _)
  intro s hs
  rcases updatePath_collects svc user message s hpath hpath' hst with
    ⟨st', hrun, hst', -⟩ | ⟨failure, hrun, -⟩
  · rw [hrun]
    exact ⟨hs, hst'⟩
  · rw [hrun]
    exact hs

theorem updatePaths_linking {P : Tables → Prop}
    (hattachments : ∀ m : Memo, m.ID = memo.ID →
      Effect.Keeps P (svc.setMemoAttachmentsInternal user m message.Attachments))
    (hrelations : ∀ m : Memo, m.ID = memo.ID → m.UID = memo.UID →
      Effect.Keeps P (svc.setMemoRelationsInternal m message.Relations))
    (hst : st.Of memo) (paths : List String) :
    Effect.Triple P (svc.updatePaths user message paths st) (fun st' s => P s ∧ st'.Of memo)
      fun _ => P := by
  induction paths generalizing st with
  | nil => exact Effect.Triple.pure fun s hs => ⟨hs, hst⟩
  | cons path rest ih =>
      rw [updatePaths]
      refine (updatePath_linking hattachments hrelations hst path).bind fun st' => ?_
      rintro s ⟨hs, hst'⟩
      exact ih hst' s hs

theorem updatePaths_keeps {P : Tables → Prop}
    (hattachments : ∀ m : Memo, m.ID = memo.ID →
      Effect.Keeps P (svc.setMemoAttachmentsInternal user m message.Attachments))
    (hrelations : ∀ m : Memo, m.ID = memo.ID → m.UID = memo.UID →
      Effect.Keeps P (svc.setMemoRelationsInternal m message.Relations))
    (hst : st.Of memo) (paths : List String) :
    Effect.Keeps P (svc.updatePaths user message paths st) :=
  ((updatePaths_linking hattachments hrelations hst paths).conseq (fun _ hs => hs)
    (fun _ _ hs => hs.1) fun _ _ hs => hs).keeps

/-- No path writes a memo. -/
theorem updatePath_memos (hst : st.Of memo) (path : String) (memos : List Memo) :
    Effect.Triple (fun db => db.memos = memos) (svc.updatePath user message path st)
      (fun st' s => s.memos = memos ∧ st'.Of memo) fun _ s => s.memos = memos := by
  refine updatePath_linking (fun m hm => ?_) (fun m hm huid => ?_) hst path
  · exact setMemoAttachmentsInternal_keeps (fun s id hs => hs) (fun s id updatedTs hs => hs) user _
  · exact setMemoRelationsInternal_keeps (fun s hs => hs) (fun s id hs => hs) _

theorem updatePaths_memos (hst : st.Of memo) (paths : List String) (memos : List Memo) :
    Effect.Triple (fun db => db.memos = memos) (svc.updatePaths user message paths st)
      (fun st' s => s.memos = memos ∧ st'.Of memo) fun _ s => s.memos = memos := by
  refine updatePaths_linking (fun m hm => ?_) (fun m hm huid => ?_) hst paths
  · exact setMemoAttachmentsInternal_keeps (fun s id hs => hs) (fun s id updatedTs hs => hs) user _
  · exact setMemoRelationsInternal_keeps (fun s hs => hs) (fun s id hs => hs) _

/-! ## What stays changed -/

variable (svc user message) in
/-- An attachment that is gone stays gone. -/
theorem updatePaths_keeps_absent (hst : st.Of memo) (paths : List String) (id : ℤ) :
    Effect.Keeps (fun db => id ∉ db.memoLinks.map Prod.fst)
      (svc.updatePaths user message paths st) := by
  refine updatePaths_keeps (fun m hm => ?_) (fun m hm huid => ?_) hst paths
  · refine setMemoAttachmentsInternal_keeps (fun s id' hs => ?_) (fun s id' updatedTs hs => ?_) user _
    · intro hmem
      exact hs ((Tables.memoLinks_filterAttachments_sublist.map _).subset hmem)
    · rw [Tables.memoLinks_updateAttachment, List.map_map]
      intro hmem
      rcases List.mem_map.mp hmem with ⟨link, hlink, hid⟩
      refine hs (List.mem_map.mpr ⟨link, hlink, ?_⟩)
      rw [← hid, Function.comp_apply]
      split <;> rfl
  · intro s hs
    rw [setMemoRelationsInternal_eq, Tables.memoLinks, Tables.attachments_withReferences]
    exact hs

variable (svc user message) in
/-- An attachment that was linked to the memo stays linked, unless it is deleted. -/
theorem updatePaths_keeps_linked (hst : st.Of memo) (paths : List String) (id : ℤ) :
    Effect.Keeps (fun db => ∀ link ∈ db.memoLinks, link.1 = id → link.2 = some memo.ID)
      (svc.updatePaths user message paths st) := by
  refine updatePaths_keeps (fun m hm => ?_) (fun m hm huid => ?_) hst paths
  · refine setMemoAttachmentsInternal_keeps (fun s id' hs => ?_) (fun s id' updatedTs hs => ?_) user _
    · intro link hlink
      exact hs link (Tables.memoLinks_filterAttachments_sublist.subset hlink)
    · rw [Tables.memoLinks_updateAttachment, hm]
      intro link hlink
      rcases List.mem_map.mp hlink with ⟨link', hlink', rfl⟩
      split
      · exact fun _ => rfl
      · exact hs link' hlink'
  · intro s hs
    rw [setMemoRelationsInternal_eq, Tables.memoLinks, Tables.attachments_withReferences]
    exact hs

variable (svc user message) in
/-- The references that were set stay as they are. -/
theorem updatePaths_keeps_references (hst : st.Of memo) (paths : List String) (memos : List Memo) :
    Effect.Keeps (fun db => db.memos = memos ∧ ∀ id, Tables.IsReference memo.ID id db ↔
        id ∈ (svc.relationTargets memo.UID memos message.Relations).1)
      (svc.updatePaths user message paths st) := by
  refine updatePaths_keeps (fun m hm => ?_) (fun m hm huid => ?_) hst paths
  · exact setMemoAttachmentsInternal_keeps (fun s id' hs => hs) (fun s id' updatedTs hs => hs) user _
  · intro s hs
    rw [setMemoRelationsInternal_eq, Tables.memos_withReferences, hs.1, hm, huid]
    exact ⟨rfl, fun id => Tables.isReference_withReferences⟩

/-- Tables without an attachment that was there are not the same. -/
theorem not_unchanged_of_absent {a : Attachment} (ha : a ∈ db.attachments)
    (habsent : a.ID ∉ db'.memoLinks.map Prod.fst) : ¬Unchanged db db' := by
  intro hsame
  rw [hsame.memoLinks] at habsent
  exact habsent (List.mem_map.mpr ⟨(a.ID, a.MemoID), List.mem_map.mpr ⟨a, ha, rfl⟩, rfl⟩)

/-- Tables with a new link of an attachment are not the same. -/
theorem not_unchanged_of_linked {a : Attachment} {memoID : ℤ} (ha : a ∈ db.attachments)
    (hother : a.MemoID ≠ some memoID)
    (hlinked : ∀ link ∈ db'.memoLinks, link.1 = a.ID → link.2 = some memoID) :
    ¬Unchanged db db' := by
  intro hsame
  rw [hsame.memoLinks] at hlinked
  exact hother (hlinked (a.ID, a.MemoID) (List.mem_map.mpr ⟨a, ha, rfl⟩) rfl)

/-- Linking the attachments of a memo again changes no link. -/
theorem unchanged_withAttachments {memoID : ℤ} {normalized : List Attachment}
    (hmem : ∀ a ∈ normalized, a ∈ db.attachments)
    (hnone : svc.removedAttachments memoID db normalized = [])
    (hlinked : ∀ a ∈ normalized, a.MemoID = some memoID) :
    Unchanged db (svc.withAttachments memoID db normalized) := by
  rw [withAttachments, hnone, List.map_nil, Tables.filterAttachments_notMem_nil]
  refine ⟨Tables.memos_linkAttachments, ?_, fun r => by rw [Tables.memoRelations_linkAttachments]⟩
  rw [Tables.memoLinks_linkAttachments, map_ID_zipIdx, Tables.memoLinks, List.map_map]
  apply List.map_congr_left
  intro a ha
  rw [Function.comp_apply]
  split
  · rename_i hid
    rcases List.mem_map.mp hid with ⟨b, hb, hbID⟩
    rw [List.mem_reverse] at hb
    rw [← hlinked b hb, db.eq_of_attachmentID_eq (hmem b hb) ha hbID]
  · rfl

/-! ## Rejected updates -/

/-- A path that links has failed, or the rest of the mask. -/
theorem linking_cases {set : ApiM Unit} {context : String} {rest : List String}
    {failure : Failure}
    (h : ((do set.mapError (Failure.wrap context); pure st) >>=
      svc.updatePaths user message rest) db = (.error failure, db')) :
    (∃ t, set db = (.ok (), t) ∧ svc.updatePaths user message rest st t = (.error failure, db')) ∨
      ∃ cause, set db = (.error cause, db') ∧ failure = cause.wrap context := by
  rcases hset : set db with ⟨result, t⟩
  cases result with
  | ok _ =>
      have hwrapped : (do set.mapError (Failure.wrap context); pure st : ApiM UpdateState) db =
          (.ok st, t) := by
        have hmapped : set.mapError (Failure.wrap context) db = (.ok (), t) := by
          rw [Effect.mapError, hset]
          rfl
        rw [Effect.bind_of_ok hmapped]
        rfl
      rw [Effect.bind_of_ok hwrapped] at h
      exact .inl ⟨t, rfl, h⟩
  | error cause =>
      have hwrapped : (do set.mapError (Failure.wrap context); pure st : ApiM UpdateState) db =
          (.error (cause.wrap context), t) := by
        apply Effect.bind_of_error
        rw [Effect.mapError, hset]
        rfl
      rw [Effect.bind_of_error hwrapped] at h
      rcases Prod.mk.inj h with ⟨hfailure, rfl⟩
      exact .inr ⟨cause, rfl, (Except.error.inj hfailure).symm⟩

/-- Attachments were set, and the rest of the mask does not undo it. -/
theorem unchanged_iff_of_set {rest : List String} {failure : Failure} {normalized : List Attachment}
    (hst : st.Of memo) (hmem : ∀ a ∈ normalized, a ∈ db.attachments)
    (hmay : ∀ a ∈ svc.removedAttachments memo.ID db normalized, mayUse user a = true)
    (ih : Unchanged (svc.withAttachments memo.ID db normalized) db' ↔
      svc.Spares user message memo rest (svc.withAttachments memo.ID db normalized))
    (hrest : svc.updatePaths user message rest st (svc.withAttachments memo.ID db normalized) =
      (.error failure, db')) :
    Unchanged db db' ↔
      svc.SparesLinks user memo.ID db normalized (svc.Spares user message memo rest) := by
  rw [SparesLinks]
  cases hremoved : svc.removedAttachments memo.ID db normalized with
  | nil =>
      dsimp only
      by_cases hlinked : ∀ a ∈ normalized, a.MemoID = some memo.ID
      · have hsame := unchanged_withAttachments hmem hremoved hlinked
        rw [hsame.iff_of_step, ih]
        exact ⟨fun hspared => ⟨hlinked, hspared⟩, fun hspared => hspared.2⟩
      · -- A new link stays.
        refine iff_of_false ?_ fun hspared => hlinked hspared.1
        simp only [not_forall] at hlinked
        rcases hlinked with ⟨a, ha, hother⟩
        apply not_unchanged_of_linked (hmem a ha) hother
        have hkept := updatePaths_keeps_linked svc user message
          hst rest a.ID (svc.withAttachments memo.ID db normalized) ?_
        · rw [hrest] at hkept
          exact hkept
        · intro link hlink hid
          rcases mem_memoLinks_withAttachments.mp hlink with ⟨b, -, -, rfl⟩
          by_cases hb : b.ID ∈ normalized.map Attachment.ID
          · rw [if_pos hb]
          · rw [if_neg hb] at hid
            exact absurd (List.mem_map.mpr ⟨a, ha, hid.symm⟩) hb
  | cons a after =>
      -- A deleted attachment stays away.
      have ha : a ∈ svc.removedAttachments memo.ID db normalized := by
        rw [hremoved]
        exact List.mem_cons_self
      refine iff_of_false ?_ fun hspared => Bool.false_ne_true (hspared.symm.trans (hmay a ha))
      apply not_unchanged_of_absent
        (StoreEngine.mem_of_mem_listedAttachments (List.mem_filter.mp ha).1).1
      have hkept := updatePaths_keeps_absent svc user message
        hst rest a.ID (svc.withAttachments memo.ID db normalized) ?_
      · rw [hrest] at hkept
        exact hkept
      · intro hmem
        rcases List.mem_map.mp hmem with ⟨link, hlink, hid⟩
        rcases mem_memoLinks_withAttachments.mp hlink with ⟨b, -, hb, rfl⟩
        have hbID : b.ID = a.ID := by
          rw [← hid]
          split <;> rfl
        exact hb (hbID ▸ List.mem_map_of_mem ha)

/-- The deletion was stopped, at the first attachment or at a later one. -/
theorem unchanged_iff_of_stopped {normalized before after : List Attachment} {a : Attachment}
    {rest : Tables → Prop}
    (hsplit : svc.removedAttachments memo.ID db normalized = before ++ a :: after)
    (hbefore : ∀ b ∈ before, mayUse user b = true) (ha : mayUse user a = false) :
    Unchanged db (db.filterAttachments fun b => b.ID ∉ before.map Attachment.ID) ↔
      svc.SparesLinks user memo.ID db normalized rest := by
  rw [SparesLinks, hsplit]
  cases before with
  | nil =>
      rw [List.map_nil, Tables.filterAttachments_notMem_nil]
      exact iff_of_true (.refl db) ha
  | cons b before =>
      have hb : b ∈ svc.removedAttachments memo.ID db normalized := by
        rw [hsplit]
        exact List.mem_cons_self
      refine iff_of_false ?_ fun hspared =>
        Bool.false_ne_true (hspared.symm.trans (hbefore b List.mem_cons_self))
      apply not_unchanged_of_absent
        (StoreEngine.mem_of_mem_listedAttachments (List.mem_filter.mp hb).1).1
      rw [Tables.memoLinks_filterAttachments]
      simp

/-- A mask that begins with attachments. -/
theorem unchanged_iff_of_attachments {rest : List String} {failure : Failure} (hst : st.Of memo)
    (ih : ∀ {t : Tables}, svc.updatePaths user message rest st t = (.error failure, db') →
      (Unchanged t db' ↔ svc.Spares user message memo rest t))
    (h : svc.updatePaths user message ("attachments" :: rest) st db = (.error failure, db'))
    (hrejects : failure.Rejects) :
    Unchanged db db' ↔
      svc.SparesAttachments user message memo.ID db (svc.Spares user message memo rest) := by
  rw [updatePaths, updatePath_attachments] at h
  have hcases := @setMemoAttachmentsInternal_cases svc db user st.memo.toMemo message.Attachments
  rw [hst.ID] at hcases
  rw [SparesAttachments]
  rcases linking_cases h with ⟨t, hok, hrest⟩ | ⟨cause, herror, hfailure⟩
  · rcases hcases with ⟨cause, -, hset⟩ | ⟨normalized, hrequest, ⟨hmay, hset⟩ |
      ⟨before, a, after, cause, -, -, hset, -⟩⟩
    · rw [hset] at hok
      cases hok
    · rw [hset] at hok
      cases hok
      rw [hrequest]
      exact unchanged_iff_of_set hst (mem_of_attachmentsOfRequest hrequest) hmay (ih hrest) hrest
    · rw [hset] at hok
      cases hok
  · rw [hfailure, Failure.rejects_wrap] at hrejects
    rcases hcases with ⟨cause', hrequest, hset⟩ | ⟨normalized, hrequest, ⟨hmay, hset⟩ |
      ⟨before, a, after, cause', hsplit, hbefore, hset, hcause⟩⟩
    · -- The request is rejected before anything is written.
      rw [hset] at herror
      cases herror
      rw [hrequest]
      exact iff_of_true (.refl db) trivial
    · rw [hset] at herror
      cases herror
    · rw [hset] at herror
      cases herror
      rw [hrequest]
      exact unchanged_iff_of_stopped hsplit hbefore (hcause hrejects)

/-- A mask that begins with references. -/
theorem unchanged_iff_of_relations {rest : List String} {failure : Failure} (hst : st.Of memo)
    (ih : ∀ {t : Tables}, svc.updatePaths user message rest st t = (.error failure, db') →
      (Unchanged t db' ↔ svc.Spares user message memo rest t))
    (h : svc.updatePaths user message ("relations" :: rest) st db = (.error failure, db')) :
    Unchanged db db' ↔
      svc.SparesRelations message memo.toMemo db (svc.Spares user message memo rest) := by
  rw [updatePaths, updatePath_relations] at h
  have hset := @setMemoRelationsInternal_eq svc db st.memo.toMemo message.Relations
  rw [hst.ID, hst.UID] at hset
  rw [SparesRelations]
  set targets := svc.relationTargets memo.UID db.memos message.Relations with htargets
  -- What the path leaves is unchanged exactly when the references were these.
  have hsame : Unchanged db (db.withReferences memo.ID targets.1) ↔
      ∀ id, Tables.IsReference memo.ID id db ↔ id ∈ targets.1 := by
    rw [← Tables.sameRelations_withReferences_iff]
    refine ⟨fun hsame => hsame.memoRelations, fun hrelations => ⟨?_, ?_, hrelations⟩⟩
    · exact Tables.memos_withReferences
    · rw [Tables.memoLinks, Tables.attachments_withReferences]
      rfl
  rcases linking_cases h with ⟨t, hok, hrest⟩ | ⟨cause, herror, hfailure⟩
  · rw [hset] at hok
    rcases Prod.mk.inj hok with ⟨hcomplete, rfl⟩
    by_cases hreferences : ∀ id, Tables.IsReference memo.ID id db ↔ id ∈ targets.1
    · rw [(hsame.mpr hreferences).iff_of_step, ih hrest]
      exact ⟨fun hspared => ⟨hreferences, fun _ => hspared⟩, fun hspared => hspared.2 hcomplete⟩
    · -- Other references stay.
      refine iff_of_false (fun hunchanged => hreferences fun id => ?_) fun hspared =>
        hreferences hspared.1
      have hkept := updatePaths_keeps_references svc user message
        hst rest db.memos (db.withReferences memo.ID targets.1)
        ⟨Tables.memos_withReferences, fun id => Tables.isReference_withReferences⟩
      rw [hrest] at hkept
      exact (hunchanged.memoRelations _).symm.trans (hkept.2 id)
  · rw [hset] at herror
    rcases Prod.mk.inj herror with ⟨hfailed, rfl⟩
    rw [hsame]
    refine ⟨fun hreferences => ⟨hreferences, fun hcomplete => ?_⟩, fun hspared => hspared.1⟩
    rw [hfailed] at hcomplete
    cases hcomplete

/-- A mask whose paths reject the request leaves everything as it was exactly when it is spared. -/
theorem unchanged_iff_of_updatePaths {paths : List String} {failure : Failure} (hst : st.Of memo)
    (h : svc.updatePaths user message paths st db = (.error failure, db'))
    (hrejects : failure.Rejects) : Unchanged db db' ↔ svc.Spares user message memo paths db := by
  induction paths generalizing st db with
  | nil => cases h
  | cons path rest ih =>
      rw [Spares]
      by_cases hattachments : path = "attachments"
      · rw [if_pos hattachments]
        rw [hattachments] at h
        exact unchanged_iff_of_attachments hst (fun hrun => ih hst hrun) h hrejects
      rw [if_neg hattachments]
      by_cases hrelations : path = "relations"
      · rw [if_pos hrelations]
        rw [hrelations] at h
        exact unchanged_iff_of_relations hst (fun hrun => ih hst hrun) h
      rw [if_neg hrelations]
      rcases updatePath_collects svc user message db hattachments hrelations hst with
        ⟨st', hrun, hst', hgoes⟩ | ⟨cause, hrun, hstops⟩
      · rw [updatePaths, Effect.bind_of_ok hrun] at h
        rw [ih hst' h]
        exact ⟨.inr, fun hspared => hspared.resolve_left hgoes⟩
      · rw [updatePaths, Effect.bind_of_error hrun] at h
        cases h
        exact iff_of_true (.refl _) (.inl (hstops hrejects))

/-- What is written last does not reject the request. -/
theorem writeUpdate_not_rejects {failure : Failure} {row : Memo} (hrow : row ∈ db.memos)
    (hID : row.ID = st.memo.ID) (h : svc.writeUpdate st db = (.error failure, db')) :
    ¬failure.Rejects := by
  have hwrite : internally "failed to update memo" (StoreEngine.updateMemo st.update) db =
      (.ok (), db.updateMemo st.update) := rfl
  have hrow' : st.update.onRow row ∈ (db.updateMemo st.update).memos := List.mem_map_of_mem hrow
  rcases @StoreEngine.getMemo_id svc.engine _ _ hrow' with ⟨found, hget, -⟩
  rw [UpdateMemo.onRow_ID, hID] at hget
  have hread : withStatus .Unknown (fun err => "failed to get memo: " ++ err)
      (svc.engine.getMemo { ID := some st.memo.ID }) (db.updateMemo st.update) =
        (.ok (some found), db.updateMemo st.update) := by
    rw [withStatus, Effect.mapError, hget]
    rfl
  rw [writeUpdate, Effect.bind_of_ok hwrite, Effect.bind_of_ok hread, dereference_some_bind,
    withStatus] at h
  rcases Effect.error_of_mapError h with ⟨err, -, rfl⟩
  simp [Failure.Rejects]

variable (svc) in
/-- The memo that an update changes, and the user who may change it. -/
def updatedMemo (message : MemoMessage) : ApiM (FoundMemo × User) :=
  svc.requireOwnMemo message.Name (fun err => .status .Internal ("failed to get memo: " ++ err))
    "failed to get current user"

variable (svc) in
/-- No path of the request changes attachments or references before it is rejected. -/
def SparesRequest (request : UpdateMemoRequest) (db : Tables) : Prop :=
  ∀ message ∈ request.Memo, ∀ paths ∈ request.UpdateMask, ∀ memo user,
    svc.updatedMemo message db = (.ok (memo, user), db) → svc.Spares user message memo paths db

theorem updatedMemo_keeps {P : Tables → Prop} (message : MemoMessage) :
    Effect.Keeps P (svc.updatedMemo message) :=
  requireOwnMemo_keeps _ _ _

/-- An update with a mask finds its memo, then performs its paths. -/
theorem updateMemo_eq {request : UpdateMemoRequest} {path : String} {paths : List String}
    (hmemo : request.Memo = some message) (hmask : request.UpdateMask = some (path :: paths)) :
    svc.updateMemo request = svc.updatedMemo message >>= fun found =>
      svc.updatePaths found.2 message (path :: paths) ⟨found.1, { ID := found.1.ID }⟩ >>=
        svc.writeUpdate := by
  rw [updateMemo, hmemo, dereference_some_bind, hmask, updatedMemo, requireOwnMemo,
    Effect.bind_assoc]

/-- An update fails before its paths, or in them, or after them. -/
theorem updateMemo_error {request : UpdateMemoRequest} {failure : Failure}
    (h : svc.updateMemo request db = (.error failure, db')) :
    (db' = db ∧ svc.SparesRequest request db) ∨
    ∃ message ∈ request.Memo, ∃ paths ∈ request.UpdateMask, ∃ memo user,
      svc.updatedMemo message db = (.ok (memo, user), db) ∧
        (svc.updatePaths user message paths ⟨memo, { ID := memo.ID }⟩ db = (.error failure, db') ∨
          ∃ st t, svc.updatePaths user message paths ⟨memo, { ID := memo.ID }⟩ db = (.ok st, t) ∧
            svc.writeUpdate st t = (.error failure, db')) := by
  cases hmemo : request.Memo with
  | none =>
      rw [updateMemo, hmemo] at h
      cases h
      left
      refine ⟨rfl, fun message hmessage => ?_⟩
      rw [hmemo] at hmessage
      cases hmessage
  | some message =>
      -- Without a mask, the request fails before the memo is looked up.
      have hunmasked : Effect.Keeps (· = db) (svc.memoUIDOfName message.Name >>= fun _ =>
          (Effect.fail (.status .InvalidArgument "update mask is required") : ApiM MemoMessage)) :=
        (Effect.Keeps.ofExcept _).bind fun _ => Effect.Keeps.fail _
      cases hmask : request.UpdateMask with
      | none =>
          rw [updateMemo, hmemo, dereference_some_bind, hmask] at h
          have hsame := hunmasked db rfl
          rw [h] at hsame
          left
          refine ⟨hsame, fun _ _ paths hpaths => ?_⟩
          rw [hmask] at hpaths
          cases hpaths
      | some paths =>
          cases paths with
          | nil =>
              rw [updateMemo, hmemo, dereference_some_bind, hmask] at h
              have hsame := hunmasked db rfl
              rw [h] at hsame
              left
              refine ⟨hsame, fun _ _ paths hpaths => ?_⟩
              rw [hmask] at hpaths
              cases hpaths
              exact fun _ _ _ => trivial
          | cons path paths =>
              rw [updateMemo_eq hmemo hmask] at h
              rcases hfound : svc.updatedMemo message db with ⟨result, t⟩
              have hsame := @updatedMemo_keeps svc (· = db) message db rfl
              rw [hfound] at hsame
              cases hsame
              cases result with
              | error cause =>
                  rw [Effect.bind_of_error hfound] at h
                  cases h
                  left
                  refine ⟨rfl, fun message' hmessage' _ _ memo user hrun => ?_⟩
                  rw [hmemo] at hmessage'
                  cases hmessage'
                  rw [hfound] at hrun
                  cases hrun
              | ok found =>
                  rw [Effect.bind_of_ok hfound] at h
                  right
                  refine ⟨message, rfl, path :: paths, rfl, found.1, found.2, hfound, ?_⟩
                  exact Effect.error_of_bind h

/-- **Rejected updates.**  An update that is rejected because of its request leaves the memo, the
links of its attachments and its relations as they were exactly when no path of its mask has
changed attachments or references before. -/
theorem update_memo_atomic_iff (svc : MemoService) (request : UpdateMemoRequest)
    {db db' : Tables} {failure : Failure}
    (h : svc.updateMemo request db = (.error failure, db')) (hrejects : failure.Rejects) :
    Unchanged db db' ↔ svc.SparesRequest request db := by
  rcases updateMemo_error h with ⟨rfl, hspared⟩ |
    ⟨message, hmessage, paths, hpaths, memo, user, hfound, hrun⟩
  · exact iff_of_true (.refl _) hspared
  · have hrequest : svc.SparesRequest request db ↔ svc.Spares user message memo paths db := by
      constructor
      · intro hspared
        exact hspared message hmessage paths hpaths memo user hfound
      · intro hspared message' hmessage' paths' hpaths' memo' user' hfound'
        cases Option.some.inj (hmessage.symm.trans hmessage')
        cases Option.some.inj (hpaths.symm.trans hpaths')
        rw [hfound] at hfound'
        cases hfound'
        exact hspared
    rw [hrequest]
    rcases hrun with hpaths | ⟨st, t, hpaths, hwrite⟩
    · exact unchanged_iff_of_updatePaths ⟨rfl, rfl, rfl, rfl⟩ hpaths hrejects
    · -- What is written last does not reject it.
      rcases requireOwnMemo_ok hfound with ⟨-, -, hmem, -⟩
      rcases (updatePaths_memos ⟨rfl, rfl, rfl, rfl⟩ paths db.memos).ok rfl hpaths with
        ⟨hmemos, hst⟩
      rw [← hmemos] at hmem
      exact absurd hrejects (writeUpdate_not_rejects hmem hst.ID.symm hwrite)

/-- Two memos of one user, the first with a reference to the second. -/
def twoMemos : Tables :=
  { Tables.ofMemos [{ ID := 1, UID := "a", CreatorID := 1 }, { ID := 2, UID := "b", CreatorID := 1 }]
      [⟨1, 2, .Reference⟩] [] 2 with
    users := [{ ID := 1, Username := "ada" }] }

/-- An update of the first memo with a reference to a name. -/
def referenceUpdate (name : String) (paths : List String) : UpdateMemoRequest where
  Memo := some { Name := "memos/a", Relations := [{ RelatedMemo := some { Name := name } }] }
  UpdateMask := some paths

theorem update_memo_atomic_iff_example :
    Unchanged twoMemos
      (MemoService.plain.updateMemo (referenceUpdate "memos/b" ["relations", "display_time"])
        twoMemos).2 := by
  have hrun : (MemoService.plain.updateMemo
      (referenceUpdate "memos/b" ["relations", "display_time"]) twoMemos).1 =
        .error (.status .InvalidArgument "display_time is not supported") := by decide +kernel
  refine (update_memo_atomic_iff MemoService.plain
    (referenceUpdate "memos/b" ["relations", "display_time"]) (Effect.eq_of_fst hrun) (.inl rfl)).mpr ?_
  intro message hmessage paths hpaths memo user hfound
  cases hmessage
  cases hpaths
  rcases requireOwnMemo_ok hfound with ⟨-, hname, hmem, -⟩
  have huid : memo.UID = "a" := by
    have hextract : MemoService.plain.extractMemoUIDFromName "memos/a" = .ok "a" := by decide +kernel
    exact Except.ok.inj (hname.symm.trans hextract)
  have hID : memo.ID = 1 := by
    rcases List.mem_cons.mp hmem with hrow | hrow
    · exact congrArg Memo.ID hrow
    · rw [List.mem_singleton.mp hrow] at huid
      exact absurd huid (by decide)
  have htargets : MemoService.plain.relationTargets "a" twoMemos.memos
      [{ RelatedMemo := some { Name := "memos/b" } }] = ([2], .ok ()) := by decide +kernel
  refine ⟨fun id => ?_, fun _ => .inl (.inr (.inr rfl))⟩
  rw [hID, huid]
  refine Iff.trans ?_ (iff_of_eq (congrArg (id ∈ Prod.fst ·) htargets)).symm
  simp [Tables.IsReference, twoMemos, Tables.ofMemos]

variable (svc) in
/-- A request that is rejected leaves everything as it was. -/
def RejectsAtomically (request : UpdateMemoRequest) (db : Tables) : Prop :=
  ∀ failure db', svc.updateMemo request db = (.error failure, db') → failure.Rejects →
    Unchanged db db'

/-- An update with a reference to a memo that does not exist panics after it has deleted the
references. -/
theorem update_memo_not_atomic :
    ¬MemoService.plain.RejectsAtomically (referenceUpdate "memos/c" ["relations"]) twoMemos := by
  intro hatomic
  have hrun : (MemoService.plain.updateMemo (referenceUpdate "memos/c" ["relations"]) twoMemos).1 =
      .error nilPointer := by decide +kernel
  have hsame := hatomic nilPointer _ (Effect.eq_of_fst hrun) trivial
  have hkept := (hsame.memoRelations ⟨1, 2, .Reference⟩).mpr (by decide)
  exact absurd hkept (by decide +kernel)

end MemoService

end Api
end MemosNote
