import MemosNote.Api.CommentThreads
import MemosNote.Api.MentionNotifications
import MemosNote.Library.Run

/-!
# Runs of mention notifications

Who is notified, and who may read what the notification is about, over a run of creations, comments
and updates.  A notification goes by the visibility of the memo and of its parent; reading goes by
whether they are archived too.

Main results:

- Theorem {lit}`MentionService.createMemo_answered`, Theorem
  {lit}`MentionService.createMemoComment_answered`, Theorem
  {lit}`MentionService.updateMemo_answered`: what one request notifies about.
- Theorem {lit}`mention_notifications`: in a run that notifies nobody about an archived memo, all
  notifications are about new mentions and may be read.
- Theorem {lit}`archived_mention`: an update that archives a memo notifies who may not read it.
-/

namespace MemosNote
namespace Api

open Library Store

/-! ## Operations that notify nobody -/

variable {db db' : Tables}

/-- Messages leave the threads as they are. -/
theorem sameThreads_of_mailed {mentions : List (ℤ × ℤ)} (h : Tables.Mailed db db' mentions) :
    SameThreads db db' := by
  refine ⟨h.memos, fun r => ?_⟩
  rw [IsComment, IsComment, h.memoRelations]

/-- The same users and mention notifications. -/
structure SameMentions (db db' : Tables) : Prop where
  users : db'.users = db.users
  mentions : db'.mentions = db.mentions

section

variable {svc : MemoService}

/-- Attachments do not matter to mentions. -/
theorem sameMentions_setMemoAttachmentsInternal (user : User) (memo : Memo)
    (requestAttachments : List AttachmentMessage) :
    Effect.Keeps (SameMentions db)
      (svc.setMemoAttachmentsInternal user memo requestAttachments) :=
  MemoService.setMemoAttachmentsInternal_keeps (fun _ _ h => ⟨h.users, h.mentions⟩)
    (fun _ _ _ h => ⟨h.users, h.mentions⟩) user requestAttachments

/-- References do not matter to mentions. -/
theorem sameMentions_setMemoRelationsInternal (memo : Memo) (relations : List RelationMessage) :
    Effect.Keeps (SameMentions db) (svc.setMemoRelationsInternal memo relations) :=
  MemoService.setMemoRelationsInternal_keeps (fun _ h => ⟨h.users, h.mentions⟩)
    (fun _ _ h => ⟨h.users, h.mentions⟩) relations

private theorem sameMentions_storeCreateMemo {engine : StoreEngine} (create : Memo) :
    Effect.Keeps (SameMentions db) (engine.createMemo create) := by
  intro s hs
  rw [StoreEngine.createMemo]
  split
  · exact hs
  · split
    · exact hs
    · exact ⟨hs.users, hs.mentions⟩

/-- A new memo is the only change that matters to mentions. -/
theorem sameMentions_createMemo (request : MemoService.CreateMemoRequest) :
    Effect.Keeps (SameMentions db) (svc.createMemo request) := by
  refine (Effect.Keeps.ofExcept _).bind fun user => ?_
  refine (Effect.Keeps.ofExcept _).bind fun memoUID => ?_
  refine (MemoService.dereference_keeps _).bind fun message => ?_
  refine (Effect.Keeps.ofExcept _).bind fun _ => ?_
  refine (Effect.Keeps.ofExcept _).bind fun payload => ?_
  refine ((sameMentions_storeCreateMemo _).mapError _).bind fun memo => ?_
  exact (finishMemo_keeps (sameMentions_setMemoAttachmentsInternal _ _ _)
    (sameMentions_setMemoRelationsInternal _ _)).bind fun _ => Effect.Keeps.pure _

private theorem sameMentions_relateComment (relatedMemo created : Memo) :
    Effect.Keeps (SameMentions db) (svc.relateComment relatedMemo created) := by
  refine (Effect.Keeps.ofExcept _).bind fun memoUID => ?_
  refine ((StoreEngine.getMemo_keeps _).mapError _).bind fun found => ?_
  refine (MemoService.dereference_keeps found).bind fun memo => ?_
  exact ((Effect.Keeps.update fun _ h => ⟨h.users, h.mentions⟩).mapError _).bind fun _ =>
    Effect.Keeps.pure _

private theorem sameMentions_createComment (relatedMemo : Memo) (comment : MemoMessage)
    (commentID : String) :
    Effect.Keeps (SameMentions db) (svc.createComment relatedMemo comment commentID) :=
  ((sameMentions_createMemo _).mapError _).bind fun _ => sameMentions_relateComment _ _

private theorem sameMentions_updatePaths (user : User) (message : MemoMessage) (memo : FoundMemo)
    (paths : List String) : Effect.Keeps (SameMentions db)
      (svc.updatePaths user message paths ⟨memo, { ID := memo.ID }⟩) :=
  MemoService.updatePaths_keeps (fun _ _ => sameMentions_setMemoAttachmentsInternal _ _ _)
    (fun _ _ _ => sameMentions_setMemoRelationsInternal _ _) ⟨rfl, rfl, rfl, rfl⟩ paths

private theorem sameMentions_writeUpdate (st : MemoService.UpdateState) :
    Effect.Keeps (SameMentions db) (svc.writeUpdate st) := by
  refine ((Effect.Keeps.update fun _ h => ⟨h.users, h.mentions⟩).mapError _).bind fun _ => ?_
  refine ((StoreEngine.getMemo_keeps _).mapError _).bind fun found => ?_
  exact (MemoService.dereference_keeps found).bind fun memo =>
    (MemoService.buildUpdatedMemoState_keeps _).mapError _

end

/-! ## Notifications -/

namespace MentionService

variable (svc : MentionService)

/-- A request adds the mention of a user to a memo: the content after it mentions the user, and the
content before it, if there is one, does not. -/
def newlyMentions (before after : Tables) (id memoID : ℤ) : Bool :=
  (after.memos.any fun memo => memo.ID = memoID && id ∈ svc.mentionedIDs after memo.Content) &&
    before.memos.all fun memo =>
      memo.ID ≠ memoID || id ∉ svc.mentionedIDs before memo.Content

/-- A notification of a new mention, to a user who may read the memo and has not written it. -/
structure Permitted (before after : Tables) (id memoID : ℤ) : Prop where
  newlyMentions : svc.newlyMentions before after id memoID = true
  notAuthor : ∀ memo ∈ after.memos, memo.ID = memoID → id ≠ memo.CreatorID
  mayRead : ∀ memo ∈ after.memos, memo.ID = memoID → MayRead after memo id

/-- A request notifies every user once at most of a memo, and only where it is permitted. -/
def NotifiesProperly (before after : Tables) : Prop :=
  ∃ new, after.mentions = before.mentions ++ new ∧ new.Nodup ∧
    ∀ mention ∈ new, svc.Permitted before after mention.1 mention.2

/-- A user whom a notification about a memo would reach reads the memo: neither the memo nor its
parent is archived. -/
def Spared (memo : Memo) (relatedMemo : Option Memo) (id : ℤ) : Prop :=
  Addressed memo relatedMemo id →
    memo.RowStatus ≠ .ARCHIVED ∧ ∀ related ∈ relatedMemo, related.RowStatus ≠ .ARCHIVED

variable {svc} {before s after : Tables} {memo : Memo} {parent : Option Memo} {id : ℤ}

/-- Who is mentioned depends on the users only. -/
theorem mentionedIDs_congr (h : after.users = before.users) (content : String) :
    svc.mentionedIDs after content = svc.mentionedIDs before content := by
  rw [mentionedIDs, mentionedIDs, resolveMentionTargets, resolveMentionTargets]
  simp only [listUsers, h]

private theorem readable_of_spared (hspared : Spared memo parent id)
    (haddressed : Addressed memo parent id) :
    Readable memo id ∧ ∀ p ∈ parent, Readable p id := by
  have hactive := hspared haddressed
  constructor
  · exact .inr ⟨hactive.1, haddressed.2.1⟩
  · exact fun p hp => .inr ⟨hactive.2 p hp, (haddressed.2.2 p hp).2⟩

variable (svc) in
/-- What holds after a request: one parent for every comment, and proper notifications. -/
def Answered (before after : Tables) : Prop :=
  Threads after ∧ svc.NotifiesProperly before after

/-- A request that does not matter to mentions is answered properly. -/
theorem answered_of_sameMentions (hthreads : Threads after) (h : SameMentions before after) :
    svc.Answered before after :=
  ⟨hthreads, [], by rw [h.mentions, List.append_nil], List.nodup_nil,
    fun _ hmention => absurd hmention List.not_mem_nil⟩

/-- A dispatch about a memo that was written before notifies properly if it addresses nobody who is
kept from reading. -/
theorem answered_dispatch {previous : String} (hthreads : Threads s) (hsame : SameMentions before s)
    (hmemo : memo ∈ s.memos) (hparent : IsParent s memo parent)
    (hspared : ∀ id ∈ svc.mentionedIDs before memo.Content,
      id ∉ svc.mentionedIDs before previous → Spared memo parent id)
    (hold : ∀ old ∈ before.memos, old.ID = memo.ID → ∀ id ∈ svc.mentionedIDs before memo.Content,
      id ∉ svc.mentionedIDs before previous → id ∉ svc.mentionedIDs before old.Content) :
    svc.Answered before
      (svc.dispatchMemoMentionNotificationsBestEffort memo parent previous s).2 := by
  rcases @dispatch_mailed svc s memo parent previous with ⟨ids, hnodup, hmailed, hids⟩
  rw [dispatchMemoMentionNotificationsBestEffort, Effect.attempt_bind]
  change svc.Answered before (svc.dispatchMemoMentionNotifications memo parent previous s).2
  revert hmailed
  generalize (svc.dispatchMemoMentionNotifications memo parent previous s).2 = after
  intro hmailed
  have hthreads' := hthreads.of_sameThreads (sameThreads_of_mailed hmailed)
  have hparent' := isParent_of_sameThreads (sameThreads_of_mailed hmailed) hparent
  have honly : ∀ m ∈ after.memos, m.ID = memo.ID → m = memo := by
    intro m hm hid
    rw [hmailed.memos] at hm
    exact s.eq_of_memoID_eq hm hmemo hid
  refine ⟨hthreads', ids.map fun id => (id, memo.ID), ?_, ?_, ?_⟩
  · rw [hmailed.mentions, hsame.mentions]
  · exact hnodup.map fun a b hab => (Prod.mk.inj hab).1
  · intro mention hmention
    rcases List.mem_map.mp hmention with ⟨id, hid, rfl⟩
    rcases hids id hid with ⟨hcurrent, hnew, haddressed⟩
    rw [mentionedIDs_congr hsame.users] at hcurrent hnew
    rcases readable_of_spared (hspared id hcurrent hnew) haddressed with ⟨hreads, hreadsParent⟩
    constructor
    · rw [newlyMentions, Bool.and_eq_true, List.any_eq_true, List.all_eq_true]
      refine ⟨⟨memo, hmailed.memos ▸ hmemo, ?_⟩, fun old hmem => ?_⟩
      · rw [mentionedIDs_congr (hmailed.users.trans hsame.users)]
        simpa using hcurrent
      · by_cases holdID : old.ID = memo.ID
        · simpa [holdID] using hold old hmem holdID id hcurrent hnew
        · simp [holdID]
    · intro m hm hmID
      rw [honly m hm hmID]
      exact haddressed.1
    · intro m hm hmID
      rw [honly m hm hmID]
      exact mayRead_of_readable hthreads' hparent' hreads hreadsParent

/-! ## Creation -/

/-- The row of a new memo. -/
theorem createMemo_row {svc : MemoService} {request : MemoService.CreateMemoRequest}
    (h : svc.createMemo request db = (.ok memo, db')) :
    ∃ user, svc.requireUser "failed to get user" = .ok user ∧ ∃ message ∈ request.Memo,
      memo.CreatorID = user.ID ∧ memo.Content = message.Content ∧ memo.RowStatus = .NORMAL := by
  rw [MemoService.createMemo] at h
  rcases Effect.ok_of_bind h with ⟨user, t, huser, hrest⟩
  have hrequire := (Effect.ok_of_ofExcept huser).1
  rcases Effect.ok_of_bind hrest with ⟨memoUID, t, -, hrest⟩
  cases hmessage : request.Memo with
  | none =>
      rw [hmessage] at hrest
      cases hrest
  | some message =>
      rw [hmessage, dereference_some_bind] at hrest
      rcases Effect.ok_of_bind hrest with ⟨_, t', -, hrest⟩
      rcases Effect.ok_of_bind hrest with ⟨payload, t'', -, hrest⟩
      rcases Effect.ok_of_bind hrest with ⟨created, u, hcreate, hrest⟩
      rcases Effect.ok_of_bind hrest with ⟨_, u', -, hlast⟩
      cases hlast
      rw [StoreEngine.createMemo_ok (Effect.ok_of_mapError hcreate)]
      exact ⟨user, hrequire, message, rfl, rfl, rfl, rfl⟩

/-- A memo that comments on nothing yet. -/
theorem isParent_none_of_created {visibility : Visibility} (hthreads : Threads db)
    (h : Created db s visibility memo) : IsParent s memo none := by
  intro r hr hid
  rcases hthreads.child r ((h.comments r).mp hr) with ⟨m, hm, hmID⟩
  exact h.new m hm (hmID.trans hid)

/-- The created memo is in the table. -/
theorem mem_of_created {visibility : Visibility} (h : Created db s visibility memo) :
    memo ∈ s.memos := by
  rw [h.memos]
  exact List.mem_append_right _ (List.mem_singleton_self memo)

/-- The creation of a memo notifies properly. -/
theorem createMemo_answered (hdb : Threads db) (request : MemoService.CreateMemoRequest) :
    svc.Answered db (svc.createMemo request db).2 := by
  have hsame : SameMentions db (svc.toMemoService.createMemo request db).2 :=
    sameMentions_createMemo request db ⟨rfl, rfl⟩
  have htriple := @createMemo_triple svc.toMemoService db request
  rw [createMemo]
  cases hresult : (svc.toMemoService.createMemo request db).1 with
  | error err =>
      have hrun := Effect.eq_of_fst hresult
      rw [Effect.bind_of_error hrun]
      exact answered_of_sameMentions (hdb.of_createdOrNot (htriple.error rfl hrun)) hsame
  | ok memo =>
      have hrun := Effect.eq_of_fst hresult
      rw [Effect.bind_of_ok hrun, Effect.snd_bind_pure]
      rcases htriple.ok rfl hrun with ⟨message, -, hcreated⟩
      rcases createMemo_row hrun with ⟨user, -, -, -, -, -, hstatus⟩
      refine answered_dispatch (hdb.of_created hcreated) hsame (mem_of_created hcreated)
        (isParent_none_of_created hdb hcreated) ?_ ?_
      · intro id _ _ _
        refine ⟨?_, fun related hrelated => absurd hrelated (Option.not_mem_none related)⟩
        rw [hstatus]
        exact RowStatus.noConfusion
      · intro old hold hid
        exact absurd hid (hcreated.new old hold)

/-! ## Comments -/

/-- A new memo is found, and becomes a comment. -/
theorem relateComment_eq {visibility : Visibility} {related : Memo} {svc : MemoService}
    (hthreads : Threads db) (hcreated : Created db s visibility memo) :
    svc.relateComment related memo s =
      (.ok memo, s.upsertMemoRelation ⟨memo.ID, related.ID, .Comment⟩) := by
  have hget := @StoreEngine.getMemo_joined svc.engine s memo (mem_of_created hcreated)
  rw [Tables.parentUIDs,
    commentRelations_eq_nil (isParent_none_of_created hthreads hcreated)] at hget
  have hfound : internally "failed to get memo" (svc.engine.getMemo { UID := some memo.UID }) s =
      (.ok (some ⟨memo, none⟩), s) := by
    rw [internally, withStatus, Effect.mapError, hget]
    rfl
  have hname : svc.memoUIDOfName (buildMemoName memo.UID) s = (.ok memo.UID, s) := by
    rw [MemoService.memoUIDOfName, MemoService.extractMemoUIDFromName_buildMemoName hcreated.uid]
    rfl
  rw [MemoService.relateComment, Effect.bind_of_ok hname, Effect.bind_of_ok hfound]
  rfl

/-- What the creation of a comment on a memo leaves. -/
structure NewComment (db s : Tables) (related : Memo) (content : String) (user : User)
    (memo : Memo) : Prop where
  threads : Threads s
  mem : memo ∈ s.memos
  isParent : IsParent s memo (some related)
  new : ∀ old ∈ db.memos, old.ID ≠ memo.ID
  creator : memo.CreatorID = user.ID
  content : memo.Content = content
  visibility : memo.Visibility = related.Visibility
  status : memo.RowStatus = .NORMAL

/-- A creation adds a memo of the request, or leaves the threads. -/
theorem createMemo_new {svc : MemoService} (hdb : Threads db)
    (request : MemoService.CreateMemoRequest) :
    Effect.Triple (· = db) (svc.createMemo request)
      (fun memo s => ∃ message ∈ request.Memo,
        Created db s (convertVisibilityToStore message.Visibility) memo ∧
          ∃ user, svc.requireUser "failed to get user" = .ok user ∧ memo.CreatorID = user.ID ∧
            memo.Content = message.Content ∧ memo.RowStatus = .NORMAL)
      fun _ => Threads := by
  rintro s rfl
  have htriple := @createMemo_triple svc s request
  rcases hrun : svc.createMemo request s with ⟨result, t⟩
  cases result with
  | error err => exact hdb.of_createdOrNot (htriple.error rfl hrun)
  | ok memo =>
      rcases htriple.ok rfl hrun with ⟨message, hmessage, hcreated⟩
      rcases createMemo_row hrun with ⟨user, huser, message', hmessage', hrow⟩
      cases Option.mem_unique hmessage hmessage'
      exact ⟨message, hmessage, hcreated, user, huser, hrow⟩

/-- A comment is created with the relation to its parent. -/
theorem createComment_new {svc : MemoService} (hdb : Threads db) {related : Memo}
    (hrelated : related ∈ db.memos) (comment : MemoMessage) (commentID : String) :
    Effect.Triple (· = db) (svc.createComment related comment commentID)
      (fun memo s => ∃ user, svc.requireUser "failed to get user" = .ok user ∧
        NewComment db s related comment.Content user memo)
      fun _ => Threads := by
  refine Effect.Triple.bind (Effect.Triple.mapError (createMemo_new hdb _)) fun memo => ?_
  intro s hs
  rcases hs with ⟨_, hmessage, hcreated, user, huser, hcreator, hcontent, hstatus⟩
  cases hmessage
  rw [convertVisibilityToStore_fromStore] at hcreated
  rw [relateComment_eq hdb hcreated]
  have hmem := mem_of_created hcreated
  have hmemRelated : related ∈ s.memos := by
    rw [hcreated.memos]
    exact List.mem_append_left _ hrelated
  refine ⟨user, huser, ?_, hmem, ?_, hcreated.new, hcreator, hcontent, hcreated.visibility, hstatus⟩
  · exact (hdb.of_created hcreated).of_upsert hmem hmemRelated
      (isParent_none_of_created hdb hcreated) (Ne.symm (hcreated.new related hrelated))
  · exact ⟨_, (isComment_upsert rfl).mpr (.inr rfl), rfl, hmemRelated, rfl⟩

/-- A comment notification is no mention notification. -/
theorem notifyComment_mailed (memo relatedMemo : Memo) :
    Tables.Mailed db (svc.notifyComment memo relatedMemo db).2 [] := by
  rw [notifyComment, Effect.read_bind]
  cases svc.resolveUserByName (id db) (creatorName (id db) memo) with
  | error err => exact .refl db
  | ok found =>
      cases found with
      | none => exact .refl db
      | some creator =>
          dsimp only
          split
          · rw [createInbox]
            cases svc.inboxError (commentInbox creator.ID memo relatedMemo) with
            | some err => exact .refl db
            | none => exact Tables.mailed_insertInbox _ _
          · exact .refl db

variable (svc) in
/-- A comment is on a memo that is not archived, or mentions nobody whom a notification would
reach. -/
def SparesComment (db : Tables) (request : MemoService.CreateMemoCommentRequest) : Prop :=
  ∀ related ∈ db.memos, svc.extractMemoUIDFromName request.Name = .ok related.UID →
    ∀ comment ∈ request.Comment, ∀ user, svc.requireUser "failed to get user" = .ok user →
      ∀ id ∈ svc.mentionedIDs db comment.Content,
        Spared { ID := 0, UID := "", CreatorID := user.ID, Visibility := related.Visibility }
          (some related) id

/-- The rest of the creation of a comment on a memo that was found. -/
def commentOn (svc : MentionService) (related : Memo) (comment : MemoMessage)
    (commentID : String) : ApiM Memo := do
  let memo ← svc.createComment related comment commentID
  svc.notifyComment memo related
  svc.dispatchMemoMentionNotificationsBestEffort memo (some related) ""
  pure memo

private theorem commentOn_answered (hdb : Threads db) {related : Memo}
    (hrelated : related ∈ db.memos)
    {comment : MemoMessage} {commentID : String}
    (hspares : ∀ user, svc.requireUser "failed to get user" = .ok user →
      ∀ id ∈ svc.mentionedIDs db comment.Content,
        Spared { ID := 0, UID := "", CreatorID := user.ID, Visibility := related.Visibility }
          (some related) id) :
    Effect.Triple (· = db) (svc.commentOn related comment commentID)
      (fun _ => svc.Answered db) fun _ => svc.Answered db := by
  refine Effect.Triple.bind (((createComment_new hdb hrelated comment commentID).and_keeps
    (sameMentions_createComment related comment commentID) fun s hs => hs ▸ ⟨rfl, rfl⟩).conseq
      (fun _ hs => hs) (fun _ _ hs => hs) fun _ _ hs => answered_of_sameMentions hs.1 hs.2)
    fun memo => ?_
  rintro s ⟨⟨user, huser, hnew⟩, hsame⟩
  have hmailed : Tables.Mailed s (svc.notifyComment memo related s).2 [] :=
    notifyComment_mailed memo related
  have hthreads := hnew.threads.of_sameThreads (sameThreads_of_mailed hmailed)
  have hquiet : SameMentions db (svc.notifyComment memo related s).2 := by
    refine ⟨hmailed.users.trans hsame.users, ?_⟩
    rw [hmailed.mentions, hsame.mentions, List.append_nil]
  rcases hrun : svc.notifyComment memo related s with ⟨result, t⟩
  rw [hrun] at hmailed hthreads hquiet
  cases result with
  | error err =>
      rw [Effect.bind_of_error hrun]
      exact answered_of_sameMentions hthreads hquiet
  | ok _ =>
      rw [Effect.bind_of_ok hrun]
      have hanswered := @answered_dispatch svc db t memo (some related) "" hthreads hquiet
        (hmailed.memos ▸ hnew.mem)
        (isParent_of_sameThreads (sameThreads_of_mailed hmailed) hnew.isParent) ?_ ?_
      · exact hanswered
      · intro id hid _ haddressed
        rw [hnew.content] at hid
        have hactive := hspares user huser id hid ?_
        · refine ⟨?_, hactive.2⟩
          rw [hnew.status]
          exact RowStatus.noConfusion
        · refine ⟨?_, ?_, haddressed.2.2⟩
          · rw [← hnew.creator]
            exact haddressed.1
          · rw [← hnew.visibility]
            exact haddressed.2.1
      · intro old hold hid
        exact absurd hid (hnew.new old hold)

/-- The creation of a comment that spares its readers notifies properly. -/
theorem createMemoComment_answered (hdb : Threads db)
    {request : MemoService.CreateMemoCommentRequest} (hspares : svc.SparesComment db request) :
    svc.Answered db (svc.createMemoComment request db).2 := by
  have hstart : svc.Answered db db := answered_of_sameMentions hdb ⟨rfl, rfl⟩
  have hkept : Effect.Triple (· = db) (svc.createMemoComment request)
      (fun _ => svc.Answered db) fun _ => svc.Answered db := by
    refine Effect.Triple.bind (Q := fun related s => s = db ∧ related.toMemo ∈ db.memos ∧
      svc.extractMemoUIDFromName request.Name = .ok related.UID)
      (((MemoService.requireMemo_keeps _ _).triple_of_ok ?_).conseq (fun _ h => h)
        (fun _ _ h => h) fun _ s hs => hs ▸ hstart) fun related => ?_
    · rintro s related s' rfl hrun
      rcases MemoService.requireMemo_ok hrun with ⟨rfl, hname, hmem, -⟩
      exact ⟨rfl, hmem, hname⟩
    refine Effect.Triple.bind (Effect.Triple.ofExcept (fun _ _ s hs => hs)
      fun _ _ s hs => hs.1 ▸ hstart) fun user => ?_
    split
    · exact Effect.Triple.fail fun s hs => hs.1 ▸ hstart
    cases hcomment : request.Comment with
    | none => exact Effect.Triple.fail fun s hs => hs.1 ▸ hstart
    | some comment =>
        rintro s ⟨rfl, hmem, hname⟩
        exact commentOn_answered hdb hmem (hspares related.toMemo hmem hname comment hcomment) s rfl
  exact hkept.state rfl

/-! ## Update -/

/-- What a path collects of the state. -/
theorem updatePath_status {svc : MemoService} {user : User} {message : MemoMessage} {path : String}
    {st st' : MemoService.UpdateState}
    (h : svc.updatePath user message path st db = (.ok st', db')) :
    st'.update.RowStatus =
      if path = "state" then some (convertStateToStore message.State) else st.update.RowStatus := by
  by_cases hattachments : path = "attachments"
  · rw [hattachments, MemoService.updatePath_attachments] at h
    rcases Effect.ok_of_bind h with ⟨_, t, -, hlast⟩
    cases hlast
    simp [hattachments]
  by_cases hrelations : path = "relations"
  · rw [hrelations, MemoService.updatePath_relations] at h
    rcases Effect.ok_of_bind h with ⟨_, t, -, hlast⟩
    cases hlast
    simp [hrelations]
  rw [MemoService.updatePath] at h
  by_cases hcontent : path = "content"
  · rw [if_pos hcontent] at h
    rcases MemoService.updateContent_ok (Effect.ok_of_ofExcept h).1 with ⟨data, -, -, hcollected⟩
    simp [hcontent, hcollected]
  rw [if_neg hcontent] at h
  by_cases hvisibility : path = "visibility"
  · rw [if_pos hvisibility] at h
    rcases Effect.ok_of_bind h with ⟨_, t, -, hlast⟩
    cases hlast
    simp [hvisibility]
  rw [if_neg hvisibility, if_neg hattachments, if_neg hrelations] at h
  by_cases hstate : path = "state"
  · rw [hstate] at h ⊢
    simp only [String.reduceEq, if_false, if_true] at h
    cases h
    rfl
  rw [if_neg hstate] at h ⊢
  split_ifs at h
  all_goals first
    | cases h
      rfl
    | cases h

private theorem updatePaths_status {svc : MemoService} {user : User} {message : MemoMessage}
    {paths : List String} {st st' : MemoService.UpdateState}
    (h : svc.updatePaths user message paths st db = (.ok st', db')) :
    st'.update.RowStatus =
      if "state" ∈ paths then some (convertStateToStore message.State)
      else st.update.RowStatus := by
  induction paths generalizing st db with
  | nil =>
      cases h
      simp
  | cons path rest ih =>
      rw [MemoService.updatePaths] at h
      rcases Effect.ok_of_bind h with ⟨st₁, t, hpath, hrest⟩
      rw [ih hrest, updatePath_status hpath]
      by_cases hrest : "state" ∈ rest
      · simp [hrest]
      · simp [hrest, eq_comm]

private theorem previousContent_of_not_mem {message : MemoMessage} {paths : List String}
    (h : "content" ∉ paths) (content previous : String) :
    previousContent message paths content previous = previous := by
  induction paths with
  | nil => rfl
  | cons path rest ih =>
      rw [List.mem_cons, not_or] at h
      rw [previousContent, if_neg (Ne.symm h.1)]
      exact ih h.2

/-- The content before the last path {lit}`content`: the old content if the path is there once, the
new one if it is there again. -/
theorem previousContent_eq {message : MemoMessage} {paths : List String} (content previous : String)
    (h : "content" ∈ paths) :
    previousContent message paths content previous =
      if paths.count "content" = 1 then content else message.Content := by
  induction paths generalizing content previous with
  | nil => cases h
  | cons path rest ih =>
      rw [previousContent]
      by_cases hpath : path = "content"
      · rw [if_pos hpath, hpath, List.count_cons_self]
        by_cases hrest : "content" ∈ rest
        · have hcount := List.count_pos_iff.mpr hrest
          rw [ih _ _ hrest, ite_self, if_neg (by omega)]
        · rw [previousContent_of_not_mem hrest, List.count_eq_zero.mpr hrest, if_pos rfl]
      · rw [if_neg hpath, List.count_cons_of_ne hpath]
        rcases List.mem_cons.mp h with heq | hrest
        · exact absurd heq.symm hpath
        · exact ih _ _ hrest

/-- A query for the identifier of a memo finds it with its parent. -/
theorem getMemo_id_joined {engine : StoreEngine} {memo : Memo} (hmemo : memo ∈ db.memos) :
    ∃ row, engine.getMemo { ID := some memo.ID } db = (.ok (some row), db) ∧
      row ∈ db.joinMemo memo := by
  rcases @StoreEngine.getMemo_id engine db memo hmemo with ⟨row, hget, hrow⟩
  refine ⟨row, hget, ?_⟩
  rw [StoreEngine.getMemo_eq rfl] at hget
  have hmem := List.mem_of_head? (Except.ok.inj (Prod.mk.inj hget).1)
  rcases (Tables.mem_selectMemos rfl).mp hmem with ⟨m, -, joined, hjoined, -, -, rfl⟩
  have hproject : ({ ID := some memo.ID } : FindMemo).project joined = joined := rfl
  rw [hproject] at hrow ⊢
  rw [← hrow, Tables.toMemo_of_mem_joinMemo hjoined]
  exact hjoined

/-- The parent of a memo is found. -/
theorem findParent_eq (hdb : Threads db) (hparent : IsParent db memo parent) {found : FoundMemo}
    (hfound : found ∈ db.joinMemo memo) :
    ∃ row : Option FoundMemo, svc.findParent found db = (.ok row, db) ∧
      row.map FoundMemo.toMemo = parent := by
  rw [findParent, parentUID_of_isParent hdb hparent hfound]
  cases parent with
  | none => exact ⟨none, rfl, rfl⟩
  | some p =>
      rcases hparent with ⟨r, -, -, hmem, -⟩
      rcases getMemo_uid_of_mem svc.engine hmem with ⟨row, hget, hrow⟩
      refine ⟨some row, ?_, congrArg some hrow⟩
      dsimp only [Option.map_some]
      rw [Effect.attempt_bind, hget]
      rfl

variable (svc) in
/-- The dispatch about a memo that is read again is about the memo and its parent. -/
theorem dispatchUpdated_eq (hdb : Threads db) (hmemo : memo ∈ db.memos)
    (hparent : IsParent db memo parent) (previous : String) :
    svc.dispatchUpdated memo.ID previous db =
      svc.dispatchMemoMentionNotificationsBestEffort memo parent previous db := by
  rcases @getMemo_id_joined db svc.engine memo hmemo with ⟨row, hget, hjoined⟩
  have hfound : withStatus .Unknown (fun err => "failed to get memo: " ++ err)
      (svc.engine.getMemo { ID := some memo.ID }) db = (.ok (some row), db) := by
    rw [withStatus, Effect.mapError, hget]
    rfl
  rcases @findParent_eq db svc memo parent hdb hparent row hjoined with ⟨found, hfind, hrow⟩
  rw [dispatchUpdated, Effect.bind_of_ok hfound, dereference_some_bind, Effect.bind_of_ok hfind,
    hrow, Tables.toMemo_of_mem_joinMemo hjoined]

/-- The row of a memo after an update, as far as reading goes. -/
def maskedRow (message : MemoMessage) (paths : List String) (memo : Memo) (parent : Option Memo) :
    Memo :=
  { memo with
    RowStatus := if "state" ∈ paths then convertStateToStore message.State else memo.RowStatus
    Visibility :=
      if "visibility" ∈ paths then
        parent.elim (convertVisibilityToStore message.Visibility) Memo.Visibility
      else memo.Visibility }

variable (svc) in
/-- An update adds the mention of nobody whom a notification would reach, or leaves a memo that is
not archived and whose parent is not archived. -/
def SparesUpdate (db : Tables) (request : MemoService.UpdateMemoRequest) : Prop :=
  ∀ message ∈ request.Memo, ∀ paths ∈ request.UpdateMask, paths.count "content" = 1 →
    ∀ memo ∈ db.memos, svc.extractMemoUIDFromName message.Name = .ok memo.UID →
      ∀ parent, IsParent db memo parent → ∀ id ∈ svc.mentionedIDs db message.Content,
        id ∉ svc.mentionedIDs db memo.Content →
          Spared (maskedRow message paths memo parent) parent id

private theorem spared_congr {memo' : Memo} (hcreator : memo'.CreatorID = memo.CreatorID)
    (hvisibility : memo'.Visibility = memo.Visibility) (hstatus : memo'.RowStatus = memo.RowStatus)
    (h : Spared memo parent id) : Spared memo' parent id := by
  rw [Spared, Addressed, hcreator, hvisibility, hstatus]
  exact h

/-- A parent of an updated memo is its parent as it was. -/
theorem isParent_of_updateMemo {update : UpdateMemo} (hdb : Threads db)
    (hparent : IsParent db memo parent) (hid : update.ID = memo.ID) :
    IsParent (db.updateMemo update) (update.assign memo) parent := by
  cases parent with
  | none => exact hparent
  | some p =>
      rcases hparent with ⟨r, hr, hchild, hmem, hparentID⟩
      refine ⟨r, hr, hchild, ?_, hparentID⟩
      have hother : p.ID ≠ update.ID := by
        rw [hparentID, hid, ← hchild]
        exact Ne.symm (hdb.irrefl r hr)
      have hrow : update.onRow p ∈ (db.updateMemo update).memos := List.mem_map_of_mem hmem
      rw [UpdateMemo.onRow, if_neg hother] at hrow
      exact hrow

private theorem storedVisibility_of_isParent (hparent : IsParent db memo parent)
    (visibility : VisibilityMessage) :
    MemoService.storedVisibility visibility (parent.map Memo.UID) db.memos =
      some (parent.elim (convertVisibilityToStore visibility) Memo.Visibility) := by
  cases parent with
  | none => rfl
  | some p =>
      rcases hparent with ⟨r, -, -, hmem, -⟩
      rw [Option.map_some, MemoService.storedVisibility]
      cases hfind : db.memos.find? fun m => m.UID = p.UID with
      | none => exact absurd (decide_eq_true rfl) (List.find?_eq_none.mp hfind p hmem)
      | some m =>
          have huid : m.UID = p.UID := by simpa using List.find?_some hfind
          rw [db.eq_of_memoUID_eq (List.mem_of_find?_eq_some hfind) hmem huid]
          rfl

/-- An update that has found its memo. -/
def updateFound (svc : MentionService) (message : MemoMessage) (paths : List String)
    (found : FoundMemo × User) : ApiM MemoMessage := do
  let st ← svc.updatePaths found.2 message paths ⟨found.1, { ID := found.1.ID }⟩
  let answer ← svc.writeUpdate st
  svc.notifyUpdate message paths found.1.toMemo
  pure answer

/-- An update keeps the threads. -/
theorem writeUpdate_threads {svc : MemoService} (st : MemoService.UpdateState) :
    Effect.Keeps Threads (svc.writeUpdate st) := by
  refine ((Effect.Keeps.update fun _ h => h.of_updateMemo st.update).mapError _).bind fun _ => ?_
  refine ((StoreEngine.getMemo_keeps _).mapError _).bind fun found => ?_
  exact (MemoService.dereference_keeps found).bind fun memo =>
    (MemoService.buildUpdatedMemoState_keeps _).mapError _

/-- What the notification of an update reaches, after the row was written. -/
theorem notifyUpdate_answered {message : MemoMessage} {paths : List String} {found : FoundMemo}
    {user : User} {st : MemoService.UpdateState} {t : Tables} (hdb : Threads db)
    (hmemo : found.toMemo ∈ db.memos) (hjoined : found ∈ db.joinMemo found.toMemo)
    (hpaths : svc.updatePaths user message paths ⟨found, { ID := found.ID }⟩ db = (.ok st, t))
    (hthreads : SameThreads db t) (hsame : SameMentions db (t.updateMemo st.update))
    (hspares : paths.count "content" = 1 → ∀ parent, IsParent db found.toMemo parent →
      ∀ id ∈ svc.mentionedIDs db message.Content, id ∉ svc.mentionedIDs db found.Content →
        Spared (maskedRow message paths found.toMemo parent) parent id) :
    svc.Answered db
      (svc.notifyUpdate message paths found.toMemo (t.updateMemo st.update)).2 := by
  have hupdated : Threads (t.updateMemo st.update) :=
    (hdb.of_sameThreads hthreads).of_updateMemo st.update
  rw [notifyUpdate]
  by_cases hcontent : "content" ∈ paths
  · rw [if_pos hcontent]
    rcases MemoService.updateMemo_writes hmemo hpaths with ⟨hrow, hwritten⟩
    rcases hdb.exists_isParent found.toMemo with ⟨parent, hparent⟩
    have hstart : MemoService.UpdateState.Of found ⟨found, { ID := found.ID }⟩ :=
      ⟨rfl, rfl, rfl, rfl⟩
    have hid := ((MemoService.updatePaths_memos hstart paths db.memos).ok rfl hpaths).2.updateID
    have hparent' := isParent_of_updateMemo (hdb.of_sameThreads hthreads)
      (isParent_of_sameThreads hthreads hparent) hid
    have hrowContent : (st.update.assign found.toMemo).Content = message.Content := by
      rw [hwritten.content, if_pos hcontent]
    have hdispatch := dispatchUpdated_eq svc hupdated hrow hparent'
      (previousContent message paths found.Content "")
    change svc.Answered db (svc.dispatchUpdated (st.update.assign found.toMemo).ID _ _).2
    rw [hdispatch]
    -- Those who are new to the content before the last path are new to the content as it was.
    have hnew : ∀ id ∈ svc.mentionedIDs db message.Content,
        id ∉ svc.mentionedIDs db (previousContent message paths found.Content "") →
          paths.count "content" = 1 ∧ id ∉ svc.mentionedIDs db found.Content := by
      intro id hid hprevious
      rw [previousContent_eq _ _ hcontent] at hprevious
      by_cases hcount : paths.count "content" = 1
      · rw [if_pos hcount] at hprevious
        exact ⟨hcount, hprevious⟩
      · rw [if_neg hcount] at hprevious
        exact absurd hid hprevious
    refine answered_dispatch hupdated hsame hrow hparent' ?_ ?_
    · intro id hmentioned hprevious
      rw [hrowContent] at hmentioned
      rcases hnew id hmentioned hprevious with ⟨hcount, hold⟩
      have hspared := hspares hcount parent hparent id hmentioned hold
      refine spared_congr ?_ ?_ ?_ hspared
      · rfl
      · have hvisibility := hwritten.visibility
        rw [parentUID_of_isParent hdb hparent hjoined,
          storedVisibility_of_isParent hparent] at hvisibility
        rw [maskedRow]
        dsimp only
        split at hvisibility
        · rename_i hmask
          rw [if_pos hmask]
          exact Option.some.inj hvisibility
        · rename_i hmask
          rw [if_neg hmask]
          exact Option.some.inj hvisibility
      · change st.update.RowStatus.getD found.RowStatus = _
        rw [updatePaths_status hpaths, maskedRow]
        split <;> rfl
    · intro old hold hsameID id hmentioned hprevious
      rw [hrowContent] at hmentioned
      rw [db.eq_of_memoID_eq hold hmemo hsameID]
      exact (hnew id hmentioned hprevious).2
  · rw [if_neg hcontent]
    exact answered_of_sameMentions hupdated hsame

private theorem updateFound_answered {message : MemoMessage} {paths : List String}
    {found : FoundMemo}
    (user : User) (hdb : Threads db) (hmemo : found.toMemo ∈ db.memos)
    (hjoined : found ∈ db.joinMemo found.toMemo)
    (hspares : paths.count "content" = 1 → ∀ parent, IsParent db found.toMemo parent →
      ∀ id ∈ svc.mentionedIDs db message.Content, id ∉ svc.mentionedIDs db found.Content →
        Spared (maskedRow message paths found.toMemo parent) parent id) :
    svc.Answered db (svc.updateFound message paths (found, user) db).2 := by
  have hsame := @sameMentions_updatePaths db svc.toMemoService user message found paths db
    ⟨rfl, rfl⟩
  have htriple := @updatePaths_triple svc.toMemoService db user message found True paths
    (fun _ => trivial) ⟨found, { ID := found.ID }⟩
    ⟨rfl, rfl, rfl, fun _ h => (Option.not_mem_none _ h).elim⟩
  rw [updateFound]
  rcases hpaths : svc.updatePaths user message paths ⟨found, { ID := found.ID }⟩ db with ⟨result, t⟩
  rw [hpaths] at hsame
  cases result with
  | error failure =>
      rw [Effect.bind_of_error hpaths]
      exact answered_of_sameMentions (hdb.of_sameThreads (htriple.error (.refl db) hpaths)) hsame
  | ok st =>
      have hthreads := (htriple.ok (.refl db) hpaths).1
      have hsame' := @sameMentions_writeUpdate db svc.toMemoService st t hsame
      have hthreads' := @writeUpdate_threads svc.toMemoService st t (hdb.of_sameThreads hthreads)
      rw [Effect.bind_of_ok hpaths]
      rcases hwrite : svc.writeUpdate st t with ⟨answer, u⟩
      rw [hwrite] at hsame' hthreads'
      cases answer with
      | error failure =>
          rw [Effect.bind_of_error hwrite]
          exact answered_of_sameMentions hthreads' hsame'
      | ok answer =>
          rw [Effect.bind_of_ok hwrite, Effect.snd_bind_pure]
          rcases MemoService.writeUpdate_ok hwrite with rfl
          exact notifyUpdate_answered hdb hmemo hjoined hpaths hthreads hsame' hspares

/-- An update that spares the readers of its memo notifies properly. -/
theorem updateMemo_answered (hdb : Threads db) {request : MemoService.UpdateMemoRequest}
    (hspares : svc.SparesUpdate db request) :
    svc.Answered db (svc.updateMemo request db).2 := by
  have hstart : svc.Answered db db := answered_of_sameMentions hdb ⟨rfl, rfl⟩
  cases hmessage : request.Memo with
  | none =>
      rw [updateMemo, hmessage]
      exact hstart
  | some message =>
      have hkept : Effect.Triple (· = db) (svc.updateMemo request)
          (fun _ => svc.Answered db) fun _ => svc.Answered db := by
        rw [updateMemo, hmessage, dereference_some_bind]
        refine Effect.Triple.bind (Q := fun memoUID s => s = db ∧
          svc.extractMemoUIDFromName message.Name = .ok memoUID) ?_ fun memoUID => ?_
        · refine ((Effect.Keeps.ofExcept _).triple_of_ok ?_).conseq (fun _ h => h)
            (fun _ _ h => h) fun _ s h => h ▸ hstart
          rintro s memoUID s' rfl hrun
          exact MemoService.memoUIDOfName_ok hrun
        cases hmask : request.UpdateMask with
        | none => exact Effect.Triple.fail fun s hs => hs.1 ▸ hstart
        | some paths =>
            cases paths with
            | nil => exact Effect.Triple.fail fun s hs => hs.1 ▸ hstart
            | cons path rest =>
                refine Effect.Triple.bind (Q := fun found s => s = db ∧ found.1.UID = memoUID ∧
                  found.1.toMemo ∈ db.memos ∧ found.1 ∈ db.joinMemo found.1.toMemo ∧
                    svc.extractMemoUIDFromName message.Name = .ok memoUID) ?_ fun found => ?_
                · refine ((MemoService.findOwnMemo_keeps _ _ _).triple_of_ok ?_).conseq
                    (fun _ h => h) (fun _ _ h => h) fun _ s h => h.1 ▸ hstart
                  rintro s ⟨memo, user⟩ s' ⟨rfl, hname⟩ hrun
                  rcases MemoService.findOwnMemo_ok hrun with ⟨rfl, huid, hmem, hjoined, -⟩
                  exact ⟨rfl, huid, hmem, hjoined, hname⟩
                · rintro s ⟨rfl, huid, hmem, hjoined, hname⟩
                  have hanswered := updateFound_answered found.2 hdb hmem hjoined
                    (hspares message hmessage (path :: rest) hmask · found.1.toMemo hmem
                      (hname.trans (congrArg _ huid.symm)))
                  exact Effect.Triple.of_state (fun t ht => ht ▸ hanswered) s rfl
      exact hkept.state rfl

/-! ## Threads -/

/-- Notifications keep the threads. -/
theorem dispatch_threads (memo : Memo) (parent : Option Memo) (previous : String) :
    Effect.Keeps Threads
      (svc.dispatchMemoMentionNotificationsBestEffort memo parent previous) := by
  intro s hs
  rcases @dispatch_mailed svc s memo parent previous with ⟨ids, -, hmailed, -⟩
  rw [dispatchMemoMentionNotificationsBestEffort, Effect.attempt_bind]
  exact hs.of_sameThreads (sameThreads_of_mailed hmailed)

private theorem commentOn_threads (hdb : Threads db) {related : Memo}
    (hrelated : related ∈ db.memos)
    (comment : MemoMessage) (commentID : String) :
    Threads (svc.commentOn related comment commentID db).2 := by
  have hcreated : Effect.Triple (· = db) (svc.createComment related comment commentID)
      (fun _ => Threads) fun _ => Threads :=
    (createComment_new hdb hrelated comment commentID).conseq (fun _ hs => hs)
      (fun memo s hs => by
        rcases hs with ⟨user, -, hnew⟩
        exact hnew.threads)
      fun _ _ hs => hs
  refine Effect.Triple.state (P := (· = db)) (hcreated.bind fun memo => ?_) rfl
  have hnotify : Effect.Keeps Threads (svc.notifyComment memo related) := fun s hs =>
    hs.of_sameThreads (sameThreads_of_mailed (notifyComment_mailed memo related))
  exact (hnotify.bind fun _ => (dispatch_threads _ _ _).bind fun _ => Effect.Keeps.pure _).triple

private theorem createMemoComment_threads (request : MemoService.CreateMemoCommentRequest) :
    Effect.Keeps Threads (svc.createMemoComment request) := by
  refine Effect.Triple.keeps ?_
  refine Effect.Triple.bind (Q := fun related s => Threads s ∧ related.toMemo ∈ s.memos)
    ((MemoService.requireMemo_keeps _ _).triple_of_ok ?_) fun related => ?_
  · intro s related s' hs hrun
    rcases MemoService.requireMemo_ok hrun with ⟨rfl, -, hmem, -⟩
    exact ⟨hs, hmem⟩
  refine Effect.Triple.bind (Effect.Triple.ofExcept (fun _ _ s hs => hs)
    fun _ _ s hs => hs.1) fun user => ?_
  split
  · exact Effect.Triple.fail fun s hs => hs.1
  cases request.Comment with
  | none => exact Effect.Triple.fail fun s hs => hs.1
  | some comment =>
      exact Effect.Triple.of_state fun s hs => commentOn_threads hs.1 hs.2 comment _

private theorem updatePaths_threads {svc : MemoService} (user : User) (message : MemoMessage)
    (memo : FoundMemo) (paths : List String) :
    Effect.Keeps Threads (svc.updatePaths user message paths ⟨memo, { ID := memo.ID }⟩) := by
  intro s hs
  have hsame : Effect.Keeps (SameThreads s)
      (svc.updatePaths user message paths ⟨memo, { ID := memo.ID }⟩) :=
    MemoService.updatePaths_keeps (fun _ _ => sameThreads_setMemoAttachmentsInternal _ _ _)
      (fun _ _ _ => sameThreads_setMemoRelationsInternal _ _) ⟨rfl, rfl, rfl, rfl⟩ paths
  exact hs.of_sameThreads (hsame s (.refl s))

private theorem updateMemo_threads (request : MemoService.UpdateMemoRequest) :
    Effect.Keeps Threads (svc.updateMemo request) := by
  have hnotify (message : MemoMessage) (paths : List String) (memo : Memo) :
      Effect.Keeps Threads (svc.notifyUpdate message paths memo) := by
    rw [notifyUpdate]
    split
    · refine ((StoreEngine.getMemo_keeps _).mapError _).bind fun found => ?_
      refine (MemoService.dereference_keeps _).bind fun updated => ?_
      refine Effect.Keeps.bind ?_ fun parent => dispatch_threads _ _ _
      rw [findParent]
      split
      · exact Effect.Keeps.pure _
      · exact (StoreEngine.getMemo_keeps _).attempt.bind fun _ => Effect.Keeps.pure _
    · exact Effect.Keeps.pure _
  refine (MemoService.dereference_keeps _).bind fun message => ?_
  refine (Effect.Keeps.ofExcept _).bind fun memoUID => ?_
  split
  · exact Effect.Keeps.fail _
  · exact Effect.Keeps.fail _
  · refine (MemoService.findOwnMemo_keeps _ _ _).bind fun found => ?_
    refine (updatePaths_threads _ _ _ _).bind fun st => (writeUpdate_threads st).bind fun _ => ?_
    exact (hnotify _ _ _).bind fun _ => Effect.Keeps.pure _

end MentionService

/-! ## Runs -/

/-- A request that may mention users. -/
inductive MentionRequest where
  | createMemo (request : MemoService.CreateMemoRequest)
  | createMemoComment (request : MemoService.CreateMemoCommentRequest)
  | updateMemo (request : MemoService.UpdateMemoRequest)
deriving DecidableEq, Repr

/-- The tables after a request, whether or not it succeeds.  Every request has a service of its
own. -/
def answer (db : Tables) (call : MentionService × MentionRequest) : Option Tables :=
  match call.2 with
  | .createMemo request => some (call.1.createMemo request db).2
  | .createMemoComment request => some (call.1.createMemoComment request db).2
  | .updateMemo request => some (call.1.updateMemo request db).2

/-- Every request keeps the threads. -/
theorem answer_threads {call : MentionService × MentionRequest} (hdb : Threads db)
    (h : answer db call = some db') : Threads db' := by
  rcases call with ⟨svc, request⟩
  cases request with
  | createMemo request =>
      rcases Option.some.inj h with rfl
      exact (svc.createMemo_answered hdb request).1
  | createMemoComment request =>
      rcases Option.some.inj h with rfl
      exact svc.createMemoComment_threads request db hdb
  | updateMemo request =>
      rcases Option.some.inj h with rfl
      exact svc.updateMemo_threads request db hdb

/-- In every run of requests from tables without relations, a comment has one parent. -/
theorem oneParent_of_run {calls : List (MentionService × MentionRequest)}
    (hempty : db.memoRelations = []) (hrun : FreeRun answer db calls db') : OneParent db' :=
  (hrun.invariant (fun _ _ _ hs _ hstep => answer_threads hs hstep)
    (threads_of_empty hempty)).single

/-- A request would notify nobody about a memo that is archived or whose parent is. -/
def SparesReaders (db : Tables) (call : MentionService × MentionRequest) : Prop :=
  match call.2 with
  | .createMemo _ => True
  | .createMemoComment request => call.1.SparesComment db request
  | .updateMemo request => call.1.SparesUpdate db request

/-- One request keeps the threads, and notifies properly. -/
theorem answer_answered {call : MentionService × MentionRequest} (hdb : Threads db)
    (hspares : SparesReaders db call) (h : answer db call = some db') :
    Threads db' ∧ call.1.NotifiesProperly db db' := by
  rcases call with ⟨svc, request⟩
  cases request with
  | createMemo request =>
      rcases Option.some.inj h with rfl
      exact svc.createMemo_answered hdb request
  | createMemoComment request =>
      rcases Option.some.inj h with rfl
      exact svc.createMemoComment_answered hdb hspares
  | updateMemo request =>
      rcases Option.some.inj h with rfl
      exact svc.updateMemo_answered hdb hspares

/-- A user gets one mention notification at most of a memo in a request, and none without a new
mention. -/
theorem count_mentions_le {svc : MentionService} (h : svc.NotifiesProperly db db')
    (id memoID : ℤ) :
    db'.mentions.count (id, memoID) ≤
      db.mentions.count (id, memoID) + if svc.newlyMentions db db' id memoID then 1 else 0 := by
  rcases h with ⟨new, hmentions, hnodup, hpermitted⟩
  rw [hmentions, List.count_append]
  apply Nat.add_le_add_left
  by_cases hmem : (id, memoID) ∈ new
  · rw [if_pos (hpermitted _ hmem).newlyMentions]
    exact List.nodup_iff_count_le_one.mp hnodup _
  · rw [List.count_eq_zero.mpr hmem]
    exact Nat.zero_le _

/-- In a run from tables without relations that notifies nobody about an archived memo, every
request notifies properly, and nobody gets more mention notifications of a memo than there were
new mentions. -/
theorem mention_notifications {db db' : Tables} {calls : List (MentionService × MentionRequest)}
    (hempty : db.memoRelations = []) (hrun : Run answer SparesReaders db calls db') :
    (∀ t ∈ trace answer db calls, t.2.1.1.NotifiesProperly t.1 t.2.2) ∧
      ∀ id memoID, db'.mentions.count (id, memoID) ≤ db.mentions.count (id, memoID) +
        (trace answer db calls).countP fun t => t.2.1.1.newlyMentions t.1 t.2.2 id memoID := by
  have hstart : Threads db := threads_of_empty hempty
  have hsteps : ∀ t ∈ trace answer db calls, t.2.1.1.NotifiesProperly t.1 t.2.2 :=
    hrun.forall_trace (R := fun before call after => call.1.NotifiesProperly before after)
      (fun _ _ _ hs hspares hstep => answer_answered hs hspares hstep) hstart
  refine ⟨hsteps, fun id memoID => ?_⟩
  exact hrun.measure_le_countP (m := fun db => db.mentions.count (id, memoID))
    (p := fun t => t.2.1.1.newlyMentions t.1 t.2.2 id memoID)
    fun t ht => count_mentions_le (hsteps t ht) id memoID

/-- The service of the user with identifier 1, for contents that mention one user or none. -/
def mentioning (content : String) : MentionService :=
  .ofMemoService { MemoService.plain with
    extractAll := fun text => .ok ⟨[], if text = content then ["bob"] else [], none⟩ }

/-- Tables with two users. -/
def twoUsers : Tables :=
  { oneUser with
    users := [{ ID := 1, Username := "ada" }, { ID := 2, Username := "bob" }] }

/-- Create a public memo. -/
def publicCall : MentionService × MentionRequest :=
  (mentioning "@bob", .createMemo { Memo := some { Visibility := .PUBLIC }, MemoId := "m" })

/-- Mention a user in the memo. -/
def mentionCall (paths : List String) : MentionService × MentionRequest :=
  (mentioning "@bob", .updateMemo {
    Memo := some { Name := "memos/m", Content := "@bob", State := .ARCHIVED }
    UpdateMask := some paths })

theorem answer_eq (db : Tables) (call : MentionService × MentionRequest) :
    answer db call = some ((answer db call).getD db) := by
  rcases call with ⟨svc, request⟩
  cases request <;> rfl

/-- The tables after a public memo was created, and after it was archived with a mention. -/
def beforeArchive : Tables :=
  (answer twoUsers publicCall).getD twoUsers

def afterArchive : Tables :=
  (answer beforeArchive (mentionCall ["content", "state"])).getD beforeArchive

theorem mention_notifications_example :
    ∃ db, Run answer SparesReaders twoUsers [publicCall, mentionCall ["content"]] db ∧
      ∀ t ∈ trace answer twoUsers [publicCall, mentionCall ["content"]],
        t.2.1.1.NotifiesProperly t.1 t.2.2 := by
  have hrun : ∃ db, Run answer SparesReaders twoUsers [publicCall, mentionCall ["content"]] db := by
    refine ⟨_, .cons trivial (answer_eq _ _) (.cons ?_ (answer_eq _ _) (.nil _))⟩
    intro message hmessage paths hpaths _ memo hmemo _ parent hparent id _ _ _
    cases hmessage
    cases hpaths
    have hactive : ∀ m ∈ beforeArchive.memos, m.RowStatus ≠ .ARCHIVED := by
      decide +kernel
    refine ⟨hactive memo hmemo, ?_⟩
    cases parent with
    | none => exact fun related hrelated => absurd hrelated (Option.not_mem_none related)
    | some p =>
        rcases hparent with ⟨r, hr, -⟩
        exact absurd hr.1 List.not_mem_nil
  rcases hrun with ⟨db, hrun⟩
  exact ⟨db, hrun, (mention_notifications rfl hrun).1⟩

/-- The notification of a user of a mention in an archived memo is not proper. -/
theorem not_notifiesProperly_archive (svc : MentionService) :
    ¬ svc.NotifiesProperly beforeArchive afterArchive := by
  intro h
  rcases h with ⟨new, hnew, -, hpermitted⟩
  have hbefore : beforeArchive.mentions = [] := by decide +kernel
  have hafter : afterArchive.mentions = [(2, 1)] := by decide +kernel
  have hrow : ∃ memo ∈ afterArchive.memos,
      memo.ID = 1 ∧ memo.RowStatus = .ARCHIVED ∧ memo.CreatorID = 1 := by
    decide +kernel
  rw [hbefore, hafter, List.nil_append] at hnew
  have hmention : ((2, 1) : ℤ × ℤ) ∈ new := hnew ▸ List.mem_singleton_self _
  rcases hrow with ⟨memo, hmemo, hid, hstatus, hcreator⟩
  have hreads := (hpermitted _ hmention).mayRead memo hmemo hid
  refine not_mayRead_of_archived (by decide) hstatus ?_ hreads
  rw [hcreator]
  decide

/-- An update that archives a memo notifies a user of a mention in it. -/
theorem archived_mention :
    FreeRun answer twoUsers [publicCall, mentionCall ["content", "state"]] afterArchive ∧
    ¬ ∀ t ∈ trace answer twoUsers [publicCall, mentionCall ["content", "state"]],
      t.2.1.1.NotifiesProperly t.1 t.2.2 := by
  have hfirst : answer twoUsers publicCall = some beforeArchive := answer_eq _ _
  have hsecond : answer beforeArchive (mentionCall ["content", "state"]) = some afterArchive :=
    answer_eq _ _
  refine ⟨.cons trivial hfirst (.cons trivial hsecond (.nil _)), fun h => ?_⟩
  rw [Run.trace_cons hfirst, Run.trace_cons hsecond] at h
  have hlast := (List.forall_mem_cons.mp (List.forall_mem_cons.mp h).2).1
  dsimp only at hlast
  exact not_notifiesProperly_archive _ hlast

end Api
end MemosNote
