import MemosNote.Api.MemoDeletion
import MemosNote.Api.MemoWrites
import MemosNote.Library.Run

/-!
# The visibility of comments

A comment is created with the visibility of its parent, and an update of a comment gives it the
visibility of its parent.  An update of the parent does not reach its comments.

Main results:

- Structure {lit}`FollowsParents`: every comment has the visibility of its parent.
- Theorem {lit}`createMemo_triple`, Theorem {lit}`createMemoComment_keeps`, Theorem
  {lit}`updateMemo_keeps`, Theorem {lit}`deleteMemo_keeps`: what the operations do to it.
- Theorem {lit}`comments_follow_parents`: it holds in every run whose updates spare the comments.
-/

namespace MemosNote
namespace Api

open Library Store

/-- A relation by which a memo comments on another. -/
def IsComment (db : Tables) (r : MemoRelation) : Prop :=
  r ∈ db.memoRelations ∧ r.RelationType = .Comment

/-- Comments and their parents exist, and every comment has the visibility of its parent. -/
structure FollowsParents (db : Tables) : Prop where
  child : ∀ r, IsComment db r → ∃ memo ∈ db.memos, memo.ID = r.MemoID
  parent : ∀ r, IsComment db r → ∃ memo ∈ db.memos, memo.ID = r.RelatedMemoID
  visibility : ∀ r, IsComment db r → ∀ child ∈ db.memos, child.ID = r.MemoID →
    ∀ parent ∈ db.memos, parent.ID = r.RelatedMemoID → child.Visibility = parent.Visibility

/-- The same memos and comments. -/
structure SameThreads (db db' : Tables) : Prop where
  memos : db'.memos = db.memos
  comments : ∀ r, IsComment db' r ↔ IsComment db r

theorem SameThreads.refl (db : Tables) : SameThreads db db :=
  ⟨rfl, fun _ => Iff.rfl⟩

theorem FollowsParents.of_sameThreads {db db' : Tables} (h : FollowsParents db)
    (hsame : SameThreads db db') : FollowsParents db' where
  child r hr := by
    rw [hsame.memos]
    exact h.child r ((hsame.comments r).mp hr)
  parent r hr := by
    rw [hsame.memos]
    exact h.parent r ((hsame.comments r).mp hr)
  visibility r hr := by
    rw [hsame.memos]
    exact h.visibility r ((hsame.comments r).mp hr)

/-- Fewer comments follow their parents too. -/
theorem FollowsParents.of_fewer {db db' : Tables} (h : FollowsParents db)
    (hmemos : db'.memos = db.memos) (hfewer : ∀ r, IsComment db' r → IsComment db r) :
    FollowsParents db' where
  child r hr := by
    rw [hmemos]
    exact h.child r (hfewer r hr)
  parent r hr := by
    rw [hmemos]
    exact h.parent r (hfewer r hr)
  visibility r hr := by
    rw [hmemos]
    exact h.visibility r (hfewer r hr)

/-! ## Links leave threads alone -/

section

variable {svc : MemoService} {db : Tables}

theorem sameThreads_setMemoAttachmentsInternal (user : User) (memo : Memo)
    (requestAttachments : List AttachmentMessage) :
    Effect.Keeps (SameThreads db)
      (svc.setMemoAttachmentsInternal user memo requestAttachments) :=
  MemoService.setMemoAttachmentsInternal_keeps (fun _ _ h => ⟨h.memos, h.comments⟩)
    (fun _ _ _ h => ⟨h.memos, h.comments⟩) user requestAttachments

theorem sameThreads_setMemoRelationsInternal (memo : Memo) (relations : List RelationMessage) :
    Effect.Keeps (SameThreads db) (svc.setMemoRelationsInternal memo relations) := by
  refine MemoService.setMemoRelationsInternal_keeps ?_ ?_ relations
  · intro s hs
    refine ⟨hs.memos, fun r => Iff.trans ?_ (hs.comments r)⟩
    constructor
    · rintro ⟨hmem, hcomment⟩
      exact ⟨(List.mem_filter.mp hmem).1, hcomment⟩
    · rintro ⟨hmem, hcomment⟩
      refine ⟨List.mem_filter.mpr ⟨hmem, ?_⟩, hcomment⟩
      simp [DeleteMemoRelation.matchesRelation, hcomment]
  · intro s id hs
    refine ⟨hs.memos, fun r => Iff.trans ?_ (hs.comments r)⟩
    constructor
    · rintro ⟨hmem, hcomment⟩
      rcases Tables.mem_upsertMemoRelation.mp hmem with hmem | rfl
      · exact ⟨hmem, hcomment⟩
      · cases hcomment
    · rintro ⟨hmem, hcomment⟩
      exact ⟨Tables.mem_upsertMemoRelation.mpr (.inl hmem), hcomment⟩

/-! ## Creation -/

/-- A memo was added, with a new identifier and without comments. -/
structure Created (db db' : Tables) (visibility : Visibility) (memo : Memo) : Prop where
  memos : db'.memos = db.memos ++ [memo]
  comments : ∀ r, IsComment db' r ↔ IsComment db r
  new : ∀ m ∈ db.memos, m.ID ≠ memo.ID
  uid : UIDMatcher memo.UID = true
  visibility : memo.Visibility = visibility

theorem Created.of_sameThreads {db db' db'' : Tables} {visibility : Visibility} {memo : Memo}
    (h : Created db db' visibility memo) (hsame : SameThreads db' db'') :
    Created db db'' visibility memo where
  memos := hsame.memos.trans h.memos
  comments r := (hsame.comments r).trans (h.comments r)
  new := h.new
  uid := h.uid
  visibility := h.visibility

theorem Created.followsParents {db db' : Tables} {visibility : Visibility} {memo : Memo}
    (h : Created db db' visibility memo) (hdb : FollowsParents db) : FollowsParents db' := by
  have hmem : ∀ m ∈ db.memos, m ∈ db'.memos := fun m hm => by
    rw [h.memos]
    exact List.mem_append_left _ hm
  have hold : ∀ m ∈ db'.memos, ∀ m' ∈ db.memos, m.ID = m'.ID → m = m' := fun m hm m' hm' hid =>
    db'.eq_of_memoID_eq hm (hmem m' hm') hid
  constructor
  · intro r hr
    obtain ⟨m, hm, hid⟩ := hdb.child r ((h.comments r).mp hr)
    exact ⟨m, hmem m hm, hid⟩
  · intro r hr
    obtain ⟨m, hm, hid⟩ := hdb.parent r ((h.comments r).mp hr)
    exact ⟨m, hmem m hm, hid⟩
  · intro r hr child hchild hchildID parent hparent hparentID
    have hr' := (h.comments r).mp hr
    obtain ⟨c, hc, hcID⟩ := hdb.child r hr'
    obtain ⟨p, hp, hpID⟩ := hdb.parent r hr'
    rw [hold child hchild c hc (hchildID.trans hcID.symm),
      hold parent hparent p hp (hparentID.trans hpID.symm)]
    exact hdb.visibility r hr' c hc hcID p hp hpID

private theorem storeCreateMemo_triple {engine : StoreEngine} (create : Memo) :
    Effect.Triple (· = db) (engine.createMemo create)
      (fun memo s => Created db s create.Visibility memo) fun _ s => s = db := by
  rintro s rfl
  rw [StoreEngine.createMemo]
  by_cases huid : UIDMatcher create.UID = true
  · rw [if_neg (by simp [huid])]
    by_cases htaken : create.UID ∈ s.memos.map Memo.UID
    · rw [dif_pos htaken]
    · rw [dif_neg htaken]
      refine ⟨rfl, fun r => Iff.rfl, fun m hm => ?_, huid, rfl⟩
      have hbound := s.memoIDs m hm
      have hnew : (s.newMemo engine.now create).ID = s.memoSequence + 1 := rfl
      omega
  · rw [if_pos (by simpa using huid)]

/-- What setting attachments and references keeps, a new memo keeps. -/
theorem finishMemo_keeps {P : Tables → Prop} {user : User} {message : MemoMessage} {memo : Memo}
    (hattachments : Effect.Keeps P
      (svc.setMemoAttachmentsInternal user memo message.Attachments))
    (hrelations : Effect.Keeps P (svc.setMemoRelationsInternal memo message.Relations)) :
    Effect.Keeps P (svc.finishMemo user message memo) := by
  have hset : Effect.Keeps P (svc.setNewAttachments user message memo) := by
    rw [MemoService.setNewAttachments]
    split
    · exact Effect.Keeps.pure _
    · exact (hattachments.mapError _).bind fun _ =>
        (StoreEngine.listAttachments_keeps _).mapError _
  have hrelate : Effect.Keeps P (svc.setNewRelations message memo) := by
    rw [MemoService.setNewRelations]
    split
    · exact Effect.Keeps.pure _
    · exact hrelations.mapError _
  refine hset.bind fun attachments => hrelate.bind fun _ => ?_
  refine ((MemoService.loadMemoRelations_keeps memo).mapError _).bind fun relations => ?_
  exact Effect.Keeps.read_bind fun s hs => Effect.Keeps.ofExcept _ s hs

private theorem sameThreads_finishMemo (user : User) (message : MemoMessage) (memo : Memo) :
    Effect.Keeps (SameThreads db) (svc.finishMemo user message memo) :=
  finishMemo_keeps (sameThreads_setMemoAttachmentsInternal _ _ _)
    (sameThreads_setMemoRelationsInternal _ _)

end

section

variable {svc : MemoService} {db : Tables}

/-- What a creation that fails leaves: nothing, or the memo. -/
def CreatedOrNot (db db' : Tables) : Prop :=
  db' = db ∨ ∃ visibility memo, Created db db' visibility memo

theorem CreatedOrNot.followsParents {db db' : Tables} (h : CreatedOrNot db db')
    (hdb : FollowsParents db) : FollowsParents db' := by
  rcases h with rfl | ⟨visibility, memo, hcreated⟩
  · exact hdb
  · exact hcreated.followsParents hdb

/-- A part of an operation that only computes. -/
theorem computed_triple {α : Type} (r : Except Failure α) :
    Effect.Triple (· = db) (Effect.ofExcept r) (fun a s => r = .ok a ∧ s = db)
      fun _ => CreatedOrNot db :=
  Effect.Triple.ofExcept (fun _ ha _ hs => ⟨ha, hs⟩) fun _ _ _ hs => .inl hs

theorem createMemo_triple (request : MemoService.CreateMemoRequest) :
    Effect.Triple (· = db) (svc.createMemo request)
      (fun memo s => ∃ message ∈ request.Memo,
        Created db s (convertVisibilityToStore message.Visibility) memo)
      fun _ => CreatedOrNot db := by
  rw [MemoService.createMemo]
  refine (computed_triple _).bind fun user => ?_
  refine Effect.Triple.conseq ?_ (fun s hs => hs.2) (fun _ _ h => h) fun _ _ h => h
  refine (computed_triple _).bind fun memoUID => ?_
  refine Effect.Triple.conseq ?_ (fun s hs => hs.2) (fun _ _ h => h) fun _ _ h => h
  cases hmessage : request.Memo with
  | none => exact Effect.Triple.fail fun s hs => .inl hs
  | some message =>
      refine Effect.Triple.bind (Effect.Triple.pure fun s hs => ⟨rfl, hs⟩ : Effect.Triple
        (· = db) (dereference (some message)) (fun m s => m = message ∧ s = db) _) fun m => ?_
      rintro s ⟨rfl, hs⟩
      revert s hs
      refine (computed_triple _).bind fun _ => ?_
      refine Effect.Triple.conseq ?_ (fun s hs => hs.2) (fun _ _ h => h) fun _ _ h => h
      refine (computed_triple _).bind fun payload => ?_
      refine Effect.Triple.conseq ?_ (fun s hs => hs.2) (fun _ _ h => h) fun _ _ h => h
      refine Effect.Triple.bind (Effect.Triple.mapError
        ((storeCreateMemo_triple _).conseq (fun _ h => h) (fun _ _ h => h)
          fun _ _ h => .inl h)) fun memo => ?_
      have hfinish : Effect.Triple (fun s => Created db s (convertVisibilityToStore m.Visibility) memo)
          (svc.finishMemo user m memo)
          (fun _ s => Created db s (convertVisibilityToStore m.Visibility) memo)
          fun _ => CreatedOrNot db := by
        intro s hs
        have hkept := (@sameThreads_finishMemo svc s user m memo).triple s (.refl s)
        rcases hrun : svc.finishMemo user m memo s with ⟨result, s'⟩
        rw [hrun] at hkept
        cases result with
        | ok a => exact hs.of_sameThreads hkept
        | error e => exact .inr ⟨_, _, hs.of_sameThreads hkept⟩
      exact hfinish.bind fun _ => Effect.Triple.pure fun s hs => ⟨m, rfl, hs⟩

/-- A new memo becomes a comment on a memo with its visibility. -/
theorem Created.followsParents_upsert {s : Tables} {visibility : Visibility} {memo parent : Memo}
    (h : Created db s visibility memo) (hdb : FollowsParents db) (hparent : parent ∈ db.memos)
    (hvisibility : parent.Visibility = visibility) :
    FollowsParents (s.upsertMemoRelation ⟨memo.ID, parent.ID, .Comment⟩) := by
  have hs := h.followsParents hdb
  have hmemo : memo ∈ s.memos := by
    rw [h.memos]
    exact List.mem_append_right _ (List.mem_singleton_self memo)
  have hparent' : parent ∈ s.memos := by
    rw [h.memos]
    exact List.mem_append_left _ hparent
  have hcases : ∀ r, IsComment (s.upsertMemoRelation ⟨memo.ID, parent.ID, .Comment⟩) r →
      IsComment s r ∨ r = ⟨memo.ID, parent.ID, .Comment⟩ := by
    rintro r ⟨hmem, hcomment⟩
    rcases Tables.mem_upsertMemoRelation.mp hmem with hmem | hnew
    · exact .inl ⟨hmem, hcomment⟩
    · exact .inr hnew
  constructor
  · intro r hr
    rcases hcases r hr with hr | rfl
    · exact hs.child r hr
    · exact ⟨memo, hmemo, rfl⟩
  · intro r hr
    rcases hcases r hr with hr | rfl
    · exact hs.parent r hr
    · exact ⟨parent, hparent', rfl⟩
  · intro r hr child hchild hchildID p hp hpID
    rcases hcases r hr with hr | rfl
    · exact hs.visibility r hr child hchild hchildID p hp hpID
    · rw [s.eq_of_memoID_eq hchild hmemo hchildID, s.eq_of_memoID_eq hp hparent' hpID,
        h.visibility, hvisibility]

/-- Relating a new memo, when it is there. -/
theorem relateComment_triple {visibility : Visibility} {created parent : Memo}
    (hdb : FollowsParents db) (hparent : parent ∈ db.memos)
    (hvisibility : parent.Visibility = visibility) :
    Effect.Triple (fun s => Created db s visibility created) (svc.relateComment parent created)
      (fun _ => FollowsParents) fun _ => FollowsParents := by
  refine Effect.Triple.bind (Q := fun memoUID s => Created db s visibility created ∧
      memoUID = created.UID) ?_ fun memoUID => ?_
  · intro s hs
    rw [MemoService.memoUIDOfName,
      MemoService.extractMemoUIDFromName_buildMemoName hs.uid]
    exact ⟨hs, rfl⟩
  · refine Effect.Triple.bind (Q := fun found s => (Created db s visibility created ∧
        memoUID = created.UID) ∧ ∀ memo ∈ found, memo.toMemo ∈ s.memos ∧ memo.UID = memoUID)
      (Effect.Triple.mapError ((StoreEngine.getMemo_uid_triple memoUID).conseq (fun _ h => h)
        (fun _ _ h => h) fun _ _ h => h.1.followsParents hdb)) fun found => ?_
    cases found with
    | none => exact Effect.Triple.fail fun s hs => hs.1.1.followsParents hdb
    | some memo =>
        rw [dereference_some_bind]
        refine Effect.Triple.bind (Q := fun _ => FollowsParents)
          (Effect.Triple.mapError (Effect.Triple.update fun s hs => ?_)) fun _ =>
            Effect.Triple.pure fun s hs => hs
        obtain ⟨⟨hcreated, rfl⟩, hfound⟩ := hs
        obtain ⟨hmem, huid⟩ := hfound memo rfl
        have hnew : created ∈ s.memos := by
          rw [hcreated.memos]
          exact List.mem_append_right _ (List.mem_singleton_self created)
        have hsame : memo.ID = created.ID :=
          congrArg Memo.ID (s.eq_of_memoUID_eq hmem hnew huid)
        rw [hsame]
        exact hcreated.followsParents_upsert hdb hparent hvisibility

/-- The creation of a comment keeps comments with their parents, wherever it fails. -/
theorem createMemoComment_keeps (request : MemoService.CreateMemoCommentRequest) :
    Effect.Keeps FollowsParents (svc.createMemoComment request) := by
  apply Effect.Triple.keeps
  refine Effect.Triple.bind (Q := fun parent s => FollowsParents s ∧ parent.toMemo ∈ s.memos)
    ((MemoService.requireMemo_keeps _ _).triple_of_ok ?_) fun parent => ?_
  · intro s parent s' hs hrun
    obtain ⟨rfl, -, hmem, -⟩ := MemoService.requireMemo_ok hrun
    exact ⟨hs, hmem⟩
  · refine Effect.Triple.bind (Q := fun _ s => FollowsParents s ∧ parent.toMemo ∈ s.memos)
      (Effect.Triple.ofExcept (fun _ _ s hs => hs) fun _ _ s hs => hs.1) fun user => ?_
    split
    · exact Effect.Triple.fail fun s hs => hs.1
    · cases request.Comment with
      | none => exact Effect.Triple.fail fun s hs => hs.1
      | some comment =>
          rintro s ⟨hs, hparent⟩
          refine Effect.Triple.bind (Effect.Triple.mapError ((createMemo_triple _).conseq
            (fun _ h => h) (fun _ _ h => h) fun _ t h => ?_)) (fun created => ?_) s rfl
          · exact h.followsParents hs
          · rintro t ⟨message, hmessage, hcreated⟩
            obtain rfl := Option.some.inj hmessage
            rw [convertVisibilityToStore_fromStore] at hcreated
            exact relateComment_triple hs hparent rfl t hcreated

/-! ## Update -/

/-- A visibility that an update gives a memo: of its parent, or of the message. -/
def Assigned (db : Tables) (message : MemoMessage) (found : FoundMemo)
    (visibility : Visibility) : Prop :=
  match found.ParentUID with
  | none => visibility = convertVisibilityToStore message.Visibility
  | some parentUID => ∃ parent ∈ db.memos, parent.UID = parentUID ∧ visibility = parent.Visibility

private theorem updatedVisibility_triple (message : MemoMessage) (found : FoundMemo) :
    Effect.Triple (SameThreads db) (svc.updatedVisibility message found)
      (fun visibility s => SameThreads db s ∧ Assigned db message found visibility)
      fun _ => SameThreads db := by
  rw [MemoService.updatedVisibility]
  cases hparent : found.ParentUID with
  | none => exact Effect.Triple.pure fun s hs => ⟨hs, by rw [Assigned, hparent]⟩
  | some parentUID =>
      refine Effect.Triple.bind (Effect.Triple.mapError
        (StoreEngine.getMemo_uid_triple parentUID)) fun parent => ?_
      cases parent with
      | none => exact Effect.Triple.fail fun s hs => hs.1
      | some parent =>
          refine Effect.Triple.pure fun s hs => ⟨hs.1, ?_⟩
          obtain ⟨hmem, huid⟩ := hs.2 parent rfl
          rw [Assigned, hparent]
          exact ⟨parent.toMemo, hs.1.memos ▸ hmem, huid, rfl⟩

/-- What the paths of a mask have collected. -/
structure Collected (db : Tables) (message : MemoMessage) (found : FoundMemo) (masked : Prop)
    (st : MemoService.UpdateState) : Prop where
  memoID : st.memo.ID = found.ID
  parent : st.memo.ParentUID = found.ParentUID
  updateID : st.update.ID = found.ID
  visibility : ∀ visibility ∈ st.update.Visibility,
    masked ∧ Assigned db message found visibility

/-- One path keeps the threads and collects a visibility for {lit}`visibility` only. -/
theorem updatePath_triple {user : User} {message : MemoMessage} {found : FoundMemo}
    {masked : Prop} {path : String} (hmasked : path = "visibility" → masked)
    {st : MemoService.UpdateState} (hst : Collected db message found masked st) :
    Effect.Triple (SameThreads db) (svc.updatePath user message path st)
      (fun st s => SameThreads db s ∧ Collected db message found masked st)
      fun _ => SameThreads db := by
  rw [MemoService.updatePath]
  have hkeep : Effect.Triple (SameThreads db) (pure st : ApiM MemoService.UpdateState)
      (fun st s => SameThreads db s ∧ Collected db message found masked st)
      fun _ => SameThreads db := Effect.Triple.pure fun s hs => ⟨hs, hst⟩
  have hcollect : ∀ update : UpdateMemo, update.ID = st.update.ID →
      update.Visibility = st.update.Visibility →
      Effect.Triple (SameThreads db) (pure { st with update := update } : ApiM MemoService.UpdateState)
        (fun st s => SameThreads db s ∧ Collected db message found masked st)
        fun _ => SameThreads db := by
    intro update hid hvisibility
    refine Effect.Triple.pure fun s hs => ⟨hs, hst.memoID, hst.parent, hid.trans hst.updateID, ?_⟩
    intro visibility hmem
    exact hst.visibility visibility (hvisibility ▸ hmem)
  by_cases hcontent : path = "content"
  · rw [if_pos hcontent]
    refine Effect.Triple.ofExcept (fun st' hst' s hs => ⟨hs, ?_⟩) fun _ _ s hs => hs
    obtain ⟨data, -, hmemo, hupdate⟩ := MemoService.updateContent_ok hst'
    constructor
    · rw [hmemo]
      exact hst.memoID
    · rw [hmemo]
      exact hst.parent
    · rw [hupdate]
      exact hst.updateID
    · rw [hupdate]
      exact hst.visibility
  rw [if_neg hcontent]
  by_cases hpath : path = "visibility"
  · rw [if_pos hpath]
    refine Effect.Triple.bind (updatedVisibility_triple message st.memo) fun visibility => ?_
    refine Effect.Triple.pure fun s hs => ⟨hs.1, hst.memoID, hst.parent, hst.updateID, ?_⟩
    rintro _ ⟨⟩
    refine ⟨hmasked hpath, ?_⟩
    have hassigned := hs.2
    rw [Assigned, hst.parent] at hassigned
    exact hassigned
  rw [if_neg hpath]
  repeat' split
  all_goals first
    | exact hkeep
    | exact hcollect _ rfl rfl
    | exact Effect.Triple.fail fun s hs => hs
    | skip
  · exact Effect.Triple.pure fun s hs =>
      ⟨hs, hst.memoID, hst.parent, hst.updateID, hst.visibility⟩
  · exact ((sameThreads_setMemoAttachmentsInternal _ _ _).mapError _).triple.bind fun _ => hkeep
  · exact ((sameThreads_setMemoRelationsInternal _ _).mapError _).triple.bind fun _ => hkeep

theorem updatePaths_triple {user : User} {message : MemoMessage} {found : FoundMemo}
    {masked : Prop} {paths : List String} (hmasked : "visibility" ∈ paths → masked)
    {st : MemoService.UpdateState} (hst : Collected db message found masked st) :
    Effect.Triple (SameThreads db) (svc.updatePaths user message paths st)
      (fun st s => SameThreads db s ∧ Collected db message found masked st)
      fun _ => SameThreads db := by
  induction paths generalizing st with
  | nil => exact Effect.Triple.pure fun s hs => ⟨hs, hst⟩
  | cons path paths ih =>
      have hfirst : Effect.Triple (SameThreads db) (svc.updatePath user message path st) _ _ :=
        updatePath_triple (fun hpath => hmasked (hpath ▸ List.mem_cons_self)) hst
      refine hfirst.bind fun st' => ?_
      rintro s ⟨hs, hst'⟩
      exact ih (fun hmem => hmasked (List.mem_cons_of_mem _ hmem)) hst' s hs

/-- A memo that was found has a parent exactly when it comments on a memo. -/
theorem parent_of_joined (hdb : FollowsParents db) {found : FoundMemo}
    (h : found ∈ db.joinMemo found.toMemo) :
    match found.ParentUID with
    | none => ∀ r, IsComment db r → r.MemoID ≠ found.ID
    | some parentUID => ∃ r, IsComment db r ∧ r.MemoID = found.ID ∧
        ∃ parent ∈ db.memos, parent.ID = r.RelatedMemoID ∧ parent.UID = parentUID := by
  have hmem : ∀ r, r ∈ db.commentRelations found.ID ↔ IsComment db r ∧ r.MemoID = found.ID := by
    intro r
    rw [Tables.commentRelations, List.mem_filter, decide_eq_true_iff, IsComment]
    tauto
  rw [Tables.joinMemo] at h
  cases hrelations : db.commentRelations found.ID with
  | nil =>
      rw [hrelations] at h
      have hnone : found.ParentUID = none := congrArg FoundMemo.ParentUID (List.mem_singleton.mp h)
      rw [hnone]
      intro r hr hchild
      have hnil := (hmem r).mpr ⟨hr, hchild⟩
      rw [hrelations] at hnil
      exact List.not_mem_nil hnil
  | cons r rest =>
      rw [hrelations] at h
      obtain ⟨r', hr', hfound⟩ := List.mem_map.mp h
      rw [← hrelations] at hr'
      obtain ⟨hcomment, hchild⟩ := (hmem r').mp hr'
      obtain ⟨parent, hparent, hid⟩ := hdb.parent r' hcomment
      have hsome : (db.memos.find? fun m => m.ID = r'.RelatedMemoID) = some parent := by
        have hfound : (db.memos.find? fun m => m.ID = r'.RelatedMemoID).isSome :=
          List.find?_isSome.mpr ⟨parent, hparent, decide_eq_true hid⟩
        obtain ⟨m, hfind⟩ := Option.isSome_iff_exists.mp hfound
        have hm : m.ID = r'.RelatedMemoID := by simpa using List.find?_some hfind
        rw [hfind, db.eq_of_memoID_eq (List.mem_of_find?_eq_some hfind) hparent (hm.trans hid.symm)]
      have huid : found.ParentUID = some parent.UID := by
        rw [← hfound]
        change db.memoUID? r'.RelatedMemoID = _
        rw [Tables.memoUID?, hsome]
        rfl
      rw [huid]
      exact ⟨r', hcomment, hchild, parent, hparent, hid, rfl⟩

/-- An update that changes the visibility of no memo with comments, and of no comment. -/
theorem FollowsParents.updateMemo (h : FollowsParents db) {update : UpdateMemo}
    (hkept : ∀ r, IsComment db r → ∀ m ∈ db.memos, m.ID = r.MemoID ∨ m.ID = r.RelatedMemoID →
      (update.onRow m).Visibility = m.Visibility) : FollowsParents (db.updateMemo update) := by
  have hmemos : (db.updateMemo update).memos = db.memos.map update.onRow := rfl
  have hcomments : ∀ r, IsComment (db.updateMemo update) r ↔ IsComment db r := fun r => Iff.rfl
  constructor
  · intro r hr
    obtain ⟨m, hm, hid⟩ := h.child r ((hcomments r).mp hr)
    exact ⟨update.onRow m, List.mem_map_of_mem hm, (update.onRow_ID m).trans hid⟩
  · intro r hr
    obtain ⟨m, hm, hid⟩ := h.parent r ((hcomments r).mp hr)
    exact ⟨update.onRow m, List.mem_map_of_mem hm, (update.onRow_ID m).trans hid⟩
  · intro r hr child hchild hchildID parent hparent hparentID
    rw [hmemos] at hchild hparent
    obtain ⟨c, hc, rfl⟩ := List.mem_map.mp hchild
    obtain ⟨p, hp, rfl⟩ := List.mem_map.mp hparent
    rw [update.onRow_ID] at hchildID hparentID
    rw [hkept r hr c hc (.inl hchildID), hkept r hr p hp (.inr hparentID)]
    exact h.visibility r hr c hc hchildID p hp hparentID

/-- The visibility collected by an update of a memo changes nothing that comments depend on. -/
theorem FollowsParents.of_collected (h : FollowsParents db) {message : MemoMessage}
    {found : FoundMemo} (hfound : found.toMemo ∈ db.memos) (hjoined : found ∈ db.joinMemo found.toMemo)
    {masked : Prop} {st : MemoService.UpdateState} (hst : Collected db message found masked st)
    (hspared : masked → (∀ r, IsComment db r → r.MemoID ≠ found.ID) →
      (∃ r, IsComment db r ∧ r.RelatedMemoID = found.ID) →
        convertVisibilityToStore message.Visibility = found.Visibility) :
    FollowsParents (db.updateMemo st.update) := by
  refine h.updateMemo fun r hr m hm hend => ?_
  rw [UpdateMemo.onRow]
  by_cases hid : m.ID = st.update.ID
  · rw [if_pos hid]
    have hsame : m = found.toMemo :=
      db.eq_of_memoID_eq hm hfound (hid.trans hst.updateID)
    change st.update.Visibility.getD m.Visibility = m.Visibility
    cases hvisibility : st.update.Visibility with
    | none => rfl
    | some visibility =>
        obtain ⟨hmasked, hassigned⟩ := hst.visibility visibility hvisibility
        have hparent := parent_of_joined h hjoined
        rw [Assigned] at hassigned
        subst hsame
        cases huid : found.ParentUID with
        | none =>
            rw [huid] at hassigned hparent
            have hcommented : r.RelatedMemoID = found.ID :=
              hend.elim (fun hchild => absurd hchild.symm (hparent r hr)) Eq.symm
            exact hassigned.trans (hspared hmasked hparent ⟨r, hr, hcommented⟩)
        | some parentUID =>
            rw [huid] at hassigned hparent
            obtain ⟨p, hp, hpUID, rfl⟩ := hassigned
            obtain ⟨r', hr', hchild, p', hp', hp'ID, hp'UID⟩ := hparent
            obtain rfl := db.eq_of_memoUID_eq hp hp' (hpUID.trans hp'UID.symm)
            exact (h.visibility r' hr' found.toMemo hfound hchild.symm p hp hp'ID).symm
  · rw [if_neg hid]

/-- An update spares the comments on its memo: it does not set the visibility, or the memo is a
comment itself, has no comments or already has the visibility of the message. -/
def SparesComments (svc : MemoService) (db : Tables) (request : MemoService.UpdateMemoRequest) :
    Prop :=
  ∀ message ∈ request.Memo, ∀ paths ∈ request.UpdateMask, "visibility" ∈ paths →
    ∀ memo ∈ db.memos, svc.extractMemoUIDFromName message.Name = .ok memo.UID →
      (∀ r, IsComment db r → r.MemoID ≠ memo.ID) →
        (∃ r, IsComment db r ∧ r.RelatedMemoID = memo.ID) →
          convertVisibilityToStore message.Visibility = memo.Visibility

private theorem writeUpdate_triple (hdb : FollowsParents db) {message : MemoMessage}
    {found : FoundMemo}
    (hfound : found.toMemo ∈ db.memos) (hjoined : found ∈ db.joinMemo found.toMemo)
    {masked : Prop} {st : MemoService.UpdateState} (hst : Collected db message found masked st)
    (hspared : masked → (∀ r, IsComment db r → r.MemoID ≠ found.ID) →
      (∃ r, IsComment db r ∧ r.RelatedMemoID = found.ID) →
        convertVisibilityToStore message.Visibility = found.Visibility) :
    Effect.Triple (SameThreads db) (svc.writeUpdate st) (fun _ => FollowsParents)
      fun _ => FollowsParents := by
  refine Effect.Triple.bind (Q := fun _ => FollowsParents)
    (Effect.Triple.mapError (Effect.Triple.update fun s hs => ?_)) fun _ => ?_
  · refine (hdb.of_collected hfound hjoined hst hspared).of_sameThreads ⟨?_, hs.comments⟩
    change s.memos.map _ = db.memos.map _
    rw [hs.memos]
  · refine Effect.Keeps.triple (((StoreEngine.getMemo_keeps _).mapError _).bind fun found => ?_)
    exact (MemoService.dereference_keeps found).bind fun memo =>
      (MemoService.buildUpdatedMemoState_keeps _).mapError _

/-- An update that spares the comments keeps them with their parents, wherever it fails. -/
theorem updateMemo_keeps {request : MemoService.UpdateMemoRequest} (hdb : FollowsParents db)
    (hspares : SparesComments svc db request) : FollowsParents (svc.updateMemo request db).2 := by
  have hkept : Effect.Triple (· = db) (svc.updateMemo request) (fun _ => FollowsParents)
      fun _ => FollowsParents := by
    rw [MemoService.updateMemo]
    cases hmemo : request.Memo with
    | none => exact Effect.Triple.fail fun s hs => hs ▸ hdb
    | some message =>
        rw [dereference_some_bind]
        refine Effect.Triple.bind (Q := fun memoUID s => s = db ∧
          svc.extractMemoUIDFromName message.Name = .ok memoUID) ?_ fun memoUID => ?_
        · refine ((Effect.Keeps.ofExcept _).triple_of_ok ?_).conseq (fun _ h => h)
            (fun _ _ h => h) fun _ _ h => h ▸ hdb
          rintro s memoUID s' rfl hrun
          obtain ⟨rfl, hname⟩ := MemoService.memoUIDOfName_ok hrun
          exact ⟨rfl, hname⟩
        · split
          · exact Effect.Triple.fail fun s hs => hs.1 ▸ hdb
          · exact Effect.Triple.fail fun s hs => hs.1 ▸ hdb
          · rename_i paths hne hmask
            refine Effect.Triple.bind (Q := fun found s => s = db ∧ found.1.UID = memoUID ∧
              found.1.toMemo ∈ db.memos ∧ found.1 ∈ db.joinMemo found.1.toMemo ∧
                svc.extractMemoUIDFromName message.Name = .ok memoUID) ?_ fun found => ?_
            · refine (Effect.Keeps.triple_of_ok (MemoService.findOwnMemo_keeps _ _ _) ?_).conseq
                (fun _ h => h) (fun _ _ h => h) fun _ _ h => h.1 ▸ hdb
              rintro s ⟨memo, user⟩ s' ⟨rfl, hname⟩ hrun
              obtain ⟨rfl, huid, hmem, hjoined, -⟩ := MemoService.findOwnMemo_ok hrun
              exact ⟨rfl, huid, hmem, hjoined, hname⟩
            · rintro s ⟨rfl, huid, hmem, hjoined, hname⟩
              have hspared : "visibility" ∈ paths →
                  (∀ r, IsComment s r → r.MemoID ≠ found.1.ID) →
                    (∃ r, IsComment s r ∧ r.RelatedMemoID = found.1.ID) →
                      convertVisibilityToStore message.Visibility = found.1.Visibility :=
                fun hmem' => hspares message hmemo paths hmask hmem' found.1.toMemo hmem
                  (hname.trans (congrArg _ huid.symm))
              refine Effect.Triple.bind ((updatePaths_triple (fun h => h)
                ⟨rfl, rfl, rfl, fun _ h => (Option.not_mem_none _ h).elim⟩).conseq (fun _ h => h)
                  (fun _ _ h => h) fun _ _ h => hdb.of_sameThreads h) (fun st => ?_) s (.refl s)
              rintro t ⟨ht, hst⟩
              exact writeUpdate_triple hdb hmem hjoined hst hspared t ht
  exact hkept.state rfl

/-! ## Deletion -/

/-- No relation of a memo is left. -/
structure Isolated (db : Tables) (id : ℤ) : Prop where
  follows : FollowsParents db
  relations : ∀ r ∈ db.memoRelations, r.MemoID ≠ id ∧ r.RelatedMemoID ≠ id

/-- A memo without relations can be deleted. -/
theorem Isolated.filterMemos {id : ℤ} (h : Isolated db id) :
    FollowsParents (db.filterMemos fun m => m.ID ≠ id) := by
  have hmem : ∀ m, m ∈ (db.filterMemos fun m => m.ID ≠ id).memos ↔ m ∈ db.memos ∧ m.ID ≠ id := by
    intro m
    change m ∈ db.memos.filter _ ↔ _
    rw [List.mem_filter, decide_eq_true_iff]
  constructor
  · intro r hr
    obtain ⟨m, hm, hid⟩ := h.follows.child r hr
    exact ⟨m, (hmem m).mpr ⟨hm, hid ▸ (h.relations r hr.1).1⟩, hid⟩
  · intro r hr
    obtain ⟨m, hm, hid⟩ := h.follows.parent r hr
    exact ⟨m, (hmem m).mpr ⟨hm, hid ▸ (h.relations r hr.1).2⟩, hid⟩
  · intro r hr child hchild hchildID parent hparent hparentID
    exact h.follows.visibility r hr child ((hmem child).mp hchild).1 hchildID parent
      ((hmem parent).mp hparent).1 hparentID

/-- A deletion keeps comments with their parents: the relations of a memo go before the memo. -/
theorem storeDeleteMemo_keeps {engine : StoreEngine} (id : ℤ) :
    Effect.Keeps FollowsParents (engine.deleteMemo id) := by
  apply Effect.Triple.keeps
  refine Effect.Triple.bind (Q := fun _ s => FollowsParents s ∧
    ∀ r ∈ s.memoRelations, r.MemoID ≠ id) (Effect.Triple.update fun s hs => ?_) fun _ => ?_
  · refine ⟨hs.of_fewer rfl fun r hr => ⟨(List.mem_filter.mp hr.1).1, hr.2⟩, fun r hr hid => ?_⟩
    have hmatches := (List.mem_filter.mp hr).2
    simp [DeleteMemoRelation.matchesRelation, hid] at hmatches
  refine Effect.Triple.bind (Q := fun _ s => Isolated s id) (Effect.Triple.update fun s hs => ?_)
    fun _ => ?_
  · refine ⟨hs.1.of_fewer rfl fun r hr => ⟨(List.mem_filter.mp hr.1).1, hr.2⟩, fun r hr => ?_⟩
    obtain ⟨hmem, hmatches⟩ := List.mem_filter.mp hr
    refine ⟨hs.2 r hmem, fun hid => ?_⟩
    simp [DeleteMemoRelation.matchesRelation, hid] at hmatches
  have hweaken : ∀ (e : String) (s : Tables), Isolated s id → FollowsParents s :=
    fun _ _ hs => hs.follows
  refine Effect.Triple.bind ((StoreEngine.listAttachments_keeps _).triple.conseq (fun _ h => h)
    (fun _ _ h => h) hweaken) fun attachments => ?_
  have hattachments : Effect.Keeps (fun s => Isolated s id)
      (Effect.forEach (fun a : Attachment => engine.deleteAttachment a.ID) attachments) :=
    Effect.Keeps.forEach fun a _ => StoreEngine.deleteAttachment_keeps fun s hs =>
      ⟨hs.follows.of_sameThreads ⟨rfl, fun _ => Iff.rfl⟩, hs.relations⟩
  refine Effect.Triple.bind (hattachments.triple.conseq (fun _ h => h) (fun _ _ h => h) hweaken)
    fun _ => ?_
  exact Effect.Triple.update fun s hs => hs.filterMemos

theorem deleteMemo_keeps (name : String) :
    Effect.Keeps FollowsParents (svc.deleteMemo name) := by
  refine (MemoService.requireOwnMemo_keeps _ _ _).bind fun found => ?_
  refine ((StoreEngine.listAttachments_keeps _).mapError _).bind fun _ => ?_
  refine ((StoreEngine.listMemoRelations_keeps _).mapError _).bind fun relations => ?_
  refine (Effect.Keeps.forEach fun relation _ =>
    (storeDeleteMemo_keeps relation.MemoID).mapError _).bind fun _ => ?_
  exact (storeDeleteMemo_keeps _).mapError _

end

/-! ## Runs -/

/-- A request that writes memos. -/
inductive MemoRequest where
  | createMemo (request : MemoService.CreateMemoRequest)
  | createMemoComment (request : MemoService.CreateMemoCommentRequest)
  | updateMemo (request : MemoService.UpdateMemoRequest)
  | deleteMemo (name : String)
deriving DecidableEq, Repr

/-- The tables after a request, whether or not it succeeds.  Every request has a service of its
own: its user, the time, the next identifier. -/
def handle (db : Tables) (call : MemoService × MemoRequest) : Option Tables :=
  match call.2 with
  | .createMemo request => some (call.1.createMemo request db).2
  | .createMemoComment request => some (call.1.createMemoComment request db).2
  | .updateMemo request => some (call.1.updateMemo request db).2
  | .deleteMemo name => some (call.1.deleteMemo name db).2

/-- The updates among the requests spare the comments. -/
def Spares (db : Tables) (call : MemoService × MemoRequest) : Prop :=
  match call.2 with
  | .updateMemo request => SparesComments call.1 db request
  | _ => True

/-- One request keeps comments with their parents. -/
theorem handle_keeps {db db' : Tables} {call : MemoService × MemoRequest} (hdb : FollowsParents db)
    (hspares : Spares db call) (h : handle db call = some db') : FollowsParents db' := by
  obtain ⟨svc, request⟩ := call
  cases request with
  | createMemo request =>
      obtain rfl := Option.some.inj h
      have hkept : Effect.Triple (· = db) (svc.createMemo request) (fun _ => FollowsParents)
          fun _ => FollowsParents :=
        (createMemo_triple request).conseq (fun _ hs => hs)
          (fun _ _ ⟨_, _, hcreated⟩ => hcreated.followsParents hdb)
          fun _ _ hcreated => hcreated.followsParents hdb
      exact hkept.state rfl
  | createMemoComment request =>
      obtain rfl := Option.some.inj h
      exact createMemoComment_keeps request db hdb
  | updateMemo request =>
      obtain rfl := Option.some.inj h
      exact updateMemo_keeps hdb hspares
  | deleteMemo name =>
      obtain rfl := Option.some.inj h
      exact deleteMemo_keeps name db hdb

/-- Every memo with a relation to a parent has the visibility of the parent. -/
def SameVisibility (db : Tables) : Prop :=
  ∀ r ∈ db.memoRelations, r.RelationType = .Comment →
    ∀ child ∈ db.memos, child.ID = r.MemoID →
      ∀ parent ∈ db.memos, parent.ID = r.RelatedMemoID → child.Visibility = parent.Visibility

instance (db : Tables) : Decidable (SameVisibility db) :=
  inferInstanceAs (Decidable (∀ r ∈ db.memoRelations, r.RelationType = .Comment →
    ∀ child ∈ db.memos, child.ID = r.MemoID →
      ∀ parent ∈ db.memos, parent.ID = r.RelatedMemoID → child.Visibility = parent.Visibility))

/-- In every run from tables without relations whose updates spare the comments, every comment
has the visibility of its parent. -/
theorem comments_follow_parents {db db' : Tables} {calls : List (MemoService × MemoRequest)}
    (hempty : db.memoRelations = []) (hrun : Run handle Spares db calls db') :
    SameVisibility db' := by
  have hnone : ∀ r, ¬ IsComment db r := by
    rintro r ⟨hmem, -⟩
    rw [hempty] at hmem
    exact List.not_mem_nil hmem
  have hstart : FollowsParents db :=
    ⟨fun r hr => (hnone r hr).elim, fun r hr => (hnone r hr).elim, fun r hr => (hnone r hr).elim⟩
  have hend : FollowsParents db' :=
    hrun.invariant (fun _ _ _ hs hspares hstep => handle_keeps hs hspares hstep) hstart
  exact fun r hr hcomment => hend.visibility r ⟨hr, hcomment⟩

/-- Create a public memo and a comment on it. -/
def threadCalls : List (MemoService × MemoRequest) :=
  [(.plain, .createMemo { Memo := some { Visibility := .PUBLIC }, MemoId := "m" }),
    (.plain, .createMemoComment { Name := "memos/m", Comment := some {}, CommentId := "c" })]

/-- Update one field of the memo. -/
def updateCall (path : String) : MemoService × MemoRequest :=
  (.plain, .updateMemo {
    Memo := some { Name := "memos/m", Visibility := .PRIVATE }
    UpdateMask := some [path] })

/-- Tables with one user. -/
def oneUser : Tables :=
  { Tables.ofMemos [] [] [] 0 with users := [{ ID := 1, Username := "ada" }] }

/-- The tables after the requests. -/
def afterCalls (calls : List (MemoService × MemoRequest)) : Tables :=
  calls.foldl (fun db call => (handle db call).getD db) oneUser

theorem comments_follow_parents_example :
    SameVisibility (afterCalls (threadCalls ++ [updateCall "pinned"])) := by
  refine @comments_follow_parents oneUser _
    (threadCalls ++ [updateCall "pinned"]) rfl
    (.cons trivial rfl (.cons trivial rfl (.cons ?_ rfl (.nil _))))
  intro message _ paths hpaths hmem
  obtain rfl := Option.some.inj hpaths
  simp at hmem

/-- A memo that becomes private leaves its comment public. -/
theorem comment_stays_public :
    FreeRun handle oneUser (threadCalls ++ [updateCall "visibility"])
      (afterCalls (threadCalls ++ [updateCall "visibility"])) ∧
    ¬ SameVisibility (afterCalls (threadCalls ++ [updateCall "visibility"])) :=
  ⟨.cons trivial rfl (.cons trivial rfl (.cons trivial rfl (.nil _))), by decide +kernel⟩

end Api
end MemosNote
