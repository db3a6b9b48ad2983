import Mathlib.Data.List.Pairwise
import MemosNote.Api.CommentVisibility
import MemosNote.Api.UpdateEffects

/-!
# Mention notifications

A new memo notifies the users that it mentions; an update of the content of a memo notifies those
that were not mentioned before.  Whom the visibility of the memo excludes is left out.

Main results:

- Definition {lit}`MentionService.createMemo`, Definition {lit}`MentionService.createMemoComment`,
  Definition {lit}`MentionService.updateMemo`: the operations with their notifications.
- Theorem {lit}`MentionService.shouldSkipMentionInbox_eq_false_iff`: who is not left out.
- Theorem {lit}`MentionService.dispatch_mailed`: whom a dispatch notifies.
-/

namespace MemosNote
namespace Store

/-! ## The inbox -/

/-- A message of the type of its payload. -/
def StoredMessage.ofPayload (payload : InboxPayload) : StoredMessage :=
  .decoded ⟨payload.messageType, some payload⟩

/-- The receiver of a mention notification, and the memo that it is about. -/
def Inbox.mention? (row : Inbox) : Option (ℤ × ℤ) :=
  match row.Message with
  | .decoded ⟨.MEMO_MENTION, some (.MemoMention memos)⟩ => some (row.ReceiverID, memos.MemoId)
  | _ => none

namespace Tables

/-- The mention notifications, each with its receiver and its memo. -/
def mentions (db : Tables) : List (ℤ × ℤ) :=
  db.inboxes.filterMap Inbox.mention?

/-- The identifier of the next message. -/
def nextInboxID (db : Tables) : ℤ :=
  (db.inboxes.map Inbox.ID).foldr max 0 + 1

private theorem le_foldr_max {ids : List ℤ} {id : ℤ} (h : id ∈ ids) : id ≤ ids.foldr max 0 := by
  induction ids with
  | nil => cases h
  | cons a rest ih =>
      rw [List.foldr_cons]
      rcases List.mem_cons.mp h with rfl | h
      · exact le_max_left _ _
      · exact (ih h).trans (le_max_right _ _)

/-- The statement that inserts a message. -/
def insertInbox (db : Tables) (now : ℤ) (create : Inbox) : Tables :=
  { db with
    inboxes := db.inboxes ++ [{ create with ID := db.nextInboxID, CreatedTs := now }]
    inboxIDs_nodup := by
      rw [List.map_append, List.map_singleton, List.nodup_append]
      refine ⟨db.inboxIDs_nodup, List.nodup_singleton _, ?_⟩
      rintro id hid id' hid' rfl
      have hbound := le_foldr_max hid
      have heq : id = (db.inboxes.map Inbox.ID).foldr max 0 + 1 := List.mem_singleton.mp hid'
      omega }

/-- Notifications were added; the memos, their relations and the users are the same. -/
structure Mailed (db db' : Tables) (mentions : List (ℤ × ℤ)) : Prop where
  memos : db'.memos = db.memos
  memoRelations : db'.memoRelations = db.memoRelations
  users : db'.users = db.users
  mentions : db'.mentions = db.mentions ++ mentions

variable {db db' db'' : Tables}

theorem Mailed.refl (db : Tables) : Mailed db db [] :=
  ⟨rfl, rfl, rfl, (List.append_nil _).symm⟩

theorem Mailed.trans {list list' : List (ℤ × ℤ)} (h : Mailed db db' list)
    (h' : Mailed db' db'' list') : Mailed db db'' (list ++ list') where
  memos := h'.memos.trans h.memos
  memoRelations := h'.memoRelations.trans h.memoRelations
  users := h'.users.trans h.users
  mentions := by rw [h'.mentions, h.mentions, List.append_assoc]

theorem mailed_insertInbox (now : ℤ) (create : Inbox) :
    Mailed db (db.insertInbox now create) create.mention?.toList where
  memos := rfl
  memoRelations := rfl
  users := rfl
  mentions := by
    have hrow : [{ create with ID := db.nextInboxID, CreatedTs := now }].filterMap Inbox.mention? =
        create.mention?.toList := by
      cases hmention : create.mention? with
      | none => exact List.filterMap_cons_none hmention
      | some mention => exact List.filterMap_cons_some hmention
    rw [mentions, insertInbox, List.filterMap_append, hrow, mentions]

end Tables
end Store

namespace Api

open Library Store

/-! ## The service -/

/-- The service of one request with what notifications depend on: how the database compares the
names of users, whether it inserts a message, and the order in which a map is visited. -/
structure MentionService extends MemoService where
  usernameIn : String → List String → Bool
  inboxError : Inbox → Option String
  rangeOrder : List User → List User
  rangeOrder_perm : ∀ targets, (rangeOrder targets).Perm targets

/-- A service over the plain store, whose database compares the names of users exactly. -/
def MentionService.ofMemoService (svc : MemoService) : MentionService where
  toMemoService := svc
  usernameIn username list := username ∈ list
  inboxError _ := none
  rangeOrder targets := targets
  rangeOrder_perm _ := List.Perm.refl _

def canUserAccessMentionContext (target : User) (memo : Memo) (relatedMemo : Option Memo) : Bool :=
  if relatedMemo.any fun related =>
      related.Visibility = .Private && target.ID ≠ related.CreatorID then false
  else if memo.Visibility = .Private && target.ID ≠ memo.CreatorID then false
  else true

def shouldSkipMentionInbox (target : User) (memo : Memo) (relatedMemo : Option Memo) : Bool :=
  if target.ID = memo.CreatorID then true
  -- The creator of the parent is notified of the comment itself.
  else if relatedMemo.any fun related =>
      target.ID = related.CreatorID && memo.Visibility ≠ .Private &&
        memo.CreatorID ≠ related.CreatorID then true
  else !canUserAccessMentionContext target memo relatedMemo

/-- The message that notifies a user of being mentioned. -/
def mentionInbox (target : User) (memo : Memo) (relatedMemo : Option Memo) : Inbox where
  ID := 0
  SenderID := memo.CreatorID
  ReceiverID := target.ID
  Message := .ofPayload (.MemoMention ⟨memo.ID, relatedMemo.elim 0 Memo.ID⟩)

/-- The message that notifies the creator of a memo of a comment. -/
def commentInbox (creatorID : ℤ) (memo relatedMemo : Memo) : Inbox where
  ID := 0
  SenderID := creatorID
  ReceiverID := relatedMemo.CreatorID
  Message := .ofPayload (.MemoComment ⟨memo.ID, relatedMemo.ID⟩)

namespace MentionService

variable (svc : MentionService)

/-! ## Mentions -/

/-- The users in use with one of the names. -/
def listUsers (db : Tables) (usernameList : List String) : List User :=
  db.users.filter fun user => svc.usernameIn user.Username usernameList && user.RowStatus = .NORMAL

/-- The mentioned users; of those with one identifier, the last. -/
def resolveMentionTargets (db : Tables) (content : String) : Except String (List User) :=
  if content = "" then .ok []
  else
    match svc.extractAll content with
    | .error err => .error ("failed to extract mentions: " ++ err)
    | .ok data =>
        if data.Mentions = [] then .ok []
        else .ok ((svc.listUsers db data.Mentions).pwFilter fun a b => a.ID ≠ b.ID)

def createInbox (create : Inbox) : StoreM Unit :=
  match svc.inboxError create with
  | some err => Effect.fail err
  | none => Effect.update fun db => db.insertInbox svc.engine.now create

/-- Notify a user that was not mentioned before, unless the user is left out. -/
def notifyTarget (memo : Memo) (relatedMemo : Option Memo) (previousTargets : List User)
    (target : User) : StoreM Unit :=
  if target.ID ∈ previousTargets.map User.ID then pure ()
  else if shouldSkipMentionInbox target memo relatedMemo then pure ()
  else (svc.createInbox (mentionInbox target memo relatedMemo)).mapError
    ("failed to create mention inbox: " ++ ·)

def dispatchMemoMentionNotifications (memo : Memo) (relatedMemo : Option Memo)
    (previousContent : String) : StoreM Unit := do
  let db ← Effect.read id
  let currentTargets ← Effect.ofExcept (svc.resolveMentionTargets db memo.Content)
  if currentTargets = [] then pure ()
  else do
    let previousTargets ← Effect.ofExcept (svc.resolveMentionTargets db previousContent)
    Effect.forEach (svc.notifyTarget memo relatedMemo previousTargets)
      (svc.rangeOrder currentTargets)

/-- An error of a dispatch is only logged. -/
def dispatchMemoMentionNotificationsBestEffort (memo : Memo) (relatedMemo : Option Memo)
    (previousContent : String) : ApiM Unit := do
  let _ ← (svc.dispatchMemoMentionNotifications memo relatedMemo previousContent).attempt
  pure ()

/-! ## The operations -/

def createMemo (request : MemoService.CreateMemoRequest) : ApiM Memo := do
  let memo ← svc.toMemoService.createMemo request
  svc.dispatchMemoMentionNotificationsBestEffort memo none ""
  pure memo

/-- The name of the creator in the message of a memo. -/
def creatorName (db : Tables) (memo : Memo) : String :=
  buildUserName (((db.users.find? fun user => user.ID = memo.CreatorID).map User.Username).getD "")

def resolveUserByName (db : Tables) (name : String) : Except String (Option User) :=
  match svc.getNameParentToken name userNamePrefix with
  | .error err => .error err
  | .ok username => .ok (db.users.filter fun user => svc.usernameIn user.Username [username]).head?

/-- Notify the creator of a memo of a comment by someone else. -/
def notifyComment (memo relatedMemo : Memo) : ApiM Unit := do
  let db ← Effect.read id
  match svc.resolveUserByName db (creatorName db memo) with
  | .error _ => Effect.fail (.status .InvalidArgument "invalid memo creator")
  | .ok none => Effect.fail (.status .NotFound "memo creator not found")
  | .ok (some creator) =>
      if memo.Visibility ≠ .Private ∧ creator.ID ≠ relatedMemo.CreatorID then
        internally "failed to create inbox"
          (svc.createInbox (commentInbox creator.ID memo relatedMemo))
      else pure ()

/-- The creation of a comment; the creation of its memo does not notify. -/
def createMemoComment (request : MemoService.CreateMemoCommentRequest) : ApiM Memo := do
  let relatedMemo ← svc.requireMemo request.Name fun _ => .status .Internal "failed to get memo"
  let user ← Effect.ofExcept (svc.requireUser "failed to get user")
  if !MemoService.canComment user relatedMemo.toMemo then
    Effect.fail (.status .PermissionDenied "permission denied")
  else
    match request.Comment with
    | none => Effect.fail (.status .InvalidArgument "comment is required")
    | some comment => do
        let memo ← svc.createComment relatedMemo.toMemo comment request.CommentId
        svc.notifyComment memo relatedMemo.toMemo
        svc.dispatchMemoMentionNotificationsBestEffort memo (some relatedMemo.toMemo) ""
        pure memo

/-- The content before the last path {lit}`content` of a mask; each changes the memo in place. -/
def previousContent (message : MemoMessage) : List String → String → String → String
  | [], _, previous => previous
  | path :: rest, content, previous =>
      if path = "content" then previousContent message rest message.Content content
      else previousContent message rest content previous

/-- The parent of a memo; a query for it that fails finds none. -/
def findParent (memo : FoundMemo) : ApiM (Option FoundMemo) :=
  match memo.ParentUID with
  | none => pure none
  | some parentUID => do
      let result ← (svc.engine.getMemo { UID := some parentUID }).attempt
      pure result.toOption.join

/-- The dispatch about a memo that is read again, with its parent. -/
def dispatchUpdated (memoID : ℤ) (previous : String) : ApiM Unit := do
  let found ← withStatus .Unknown (fun err => "failed to get memo: " ++ err)
    (svc.engine.getMemo { ID := some memoID })
  let memo ← dereference found
  let parentMemo ← svc.findParent memo
  svc.dispatchMemoMentionNotificationsBestEffort memo.toMemo (parentMemo.map FoundMemo.toMemo)
    previous

/-- An update of the content notifies those whom it mentions anew. -/
def notifyUpdate (message : MemoMessage) (paths : List String) (memo : Memo) : ApiM Unit :=
  if "content" ∈ paths then
    svc.dispatchUpdated memo.ID (previousContent message paths memo.Content "")
  else pure ()

def updateMemo (request : MemoService.UpdateMemoRequest) : ApiM MemoMessage := do
  let message ← dereference request.Memo
  let memoUID ← svc.memoUIDOfName message.Name
  match request.UpdateMask with
  | none | some [] => Effect.fail (.status .InvalidArgument "update mask is required")
  | some paths => do
      let found ← svc.findOwnMemo memoUID
        (fun err => .status .Internal ("failed to get memo: " ++ err)) "failed to get current user"
      let st ← svc.updatePaths found.2 message paths ⟨found.1, { ID := found.1.ID }⟩
      let answer ← svc.writeUpdate st
      svc.notifyUpdate message paths found.1.toMemo
      pure answer

/-! ## Whom a dispatch notifies -/

variable {svc} {db : Tables} {memo : Memo} {relatedMemo : Option Memo}

/-- Neither the creator of the memo nor the creator of its parent, and a user who is excluded by
no visibility. -/
def Addressed (memo : Memo) (relatedMemo : Option Memo) (id : ℤ) : Prop :=
  id ≠ memo.CreatorID ∧ memo.Visibility ≠ .Private ∧
    ∀ related ∈ relatedMemo, id ≠ related.CreatorID ∧ related.Visibility ≠ .Private

private theorem shouldSkipMentionInbox_eq_false_iff {target : User} :
    shouldSkipMentionInbox target memo relatedMemo = false ↔
      Addressed memo relatedMemo target.ID := by
  rw [shouldSkipMentionInbox, canUserAccessMentionContext, Addressed]
  by_cases hown : target.ID = memo.CreatorID
  · simp [hown]
  rw [if_neg hown]
  cases relatedMemo with
  | none => simp [hown]
  | some related =>
      by_cases hparent : target.ID = related.CreatorID
      · by_cases hprivate : memo.Visibility = .Private
        · simp [hown, hprivate]
        · have hother : memo.CreatorID ≠ related.CreatorID := by
            rw [← hparent]
            exact Ne.symm hown
          simp [hparent, hprivate, hother]
      · simp [hown, hparent]
        tauto

variable (svc) in
/-- The identifiers of the users that a content mentions. -/
def mentionedIDs (db : Tables) (content : String) : List ℤ :=
  match svc.resolveMentionTargets db content with
  | .ok targets => targets.map User.ID
  | .error _ => []

private theorem resolveMentionTargets_nodup {content : String} {targets : List User}
    (h : svc.resolveMentionTargets db content = .ok targets) : (targets.map User.ID).Nodup := by
  rw [resolveMentionTargets] at h
  by_cases hempty : content = ""
  · rw [if_pos hempty] at h
    cases h
    exact List.nodup_nil
  rw [if_neg hempty] at h
  cases hextract : svc.extractAll content with
  | error err =>
      rw [hextract] at h
      cases h
  | ok data =>
      rw [hextract] at h
      dsimp only at h
      by_cases hmentions : data.Mentions = []
      · rw [if_pos hmentions] at h
        cases h
        exact List.nodup_nil
      · rw [if_neg hmentions] at h
        cases h
        exact List.pairwise_map.mpr (List.pairwise_pwFilter _)

/-- A message about a mention is inserted, or nothing is. -/
theorem createInbox_mailed (target : User) :
    ∃ ids : List ℤ, ids.Sublist [target.ID] ∧
      Tables.Mailed db ((svc.createInbox (mentionInbox target memo relatedMemo)) db).2
        (ids.map fun id => (id, memo.ID)) := by
  rw [createInbox]
  cases svc.inboxError (mentionInbox target memo relatedMemo) with
  | some err => exact ⟨[], List.nil_sublist _, .refl db⟩
  | none => exact ⟨[target.ID], List.Sublist.refl _, Tables.mailed_insertInbox _ _⟩

/-- A user is notified once, or not at all. -/
theorem notifyTarget_mailed (previousTargets : List User) (target : User) :
    ∃ ids : List ℤ, ids.Sublist [target.ID] ∧
      Tables.Mailed db (svc.notifyTarget memo relatedMemo previousTargets target db).2
        (ids.map fun id => (id, memo.ID)) ∧
      ∀ id ∈ ids, id ∉ previousTargets.map User.ID ∧ Addressed memo relatedMemo id := by
  rw [notifyTarget]
  by_cases hprevious : target.ID ∈ previousTargets.map User.ID
  · rw [if_pos hprevious]
    exact ⟨[], List.nil_sublist _, .refl db, fun id hid => absurd hid List.not_mem_nil⟩
  rw [if_neg hprevious]
  cases hskip : shouldSkipMentionInbox target memo relatedMemo with
  | true => exact ⟨[], List.nil_sublist _, .refl db, fun id hid => absurd hid List.not_mem_nil⟩
  | false =>
      rcases @createInbox_mailed svc db memo relatedMemo target with ⟨ids, hids, hmailed⟩
      refine ⟨ids, hids, hmailed, fun id hid => ?_⟩
      rw [List.mem_singleton.mp (hids.subset hid)]
      exact ⟨hprevious, shouldSkipMentionInbox_eq_false_iff.mp hskip⟩

/-- Of the targets, each is notified once at most. -/
theorem notifyTargets_mailed (previousTargets targets : List User) :
    ∃ ids : List ℤ, ids.Sublist (targets.map User.ID) ∧
      Tables.Mailed db
        (Effect.forEach (svc.notifyTarget memo relatedMemo previousTargets) targets db).2
        (ids.map fun id => (id, memo.ID)) ∧
      ∀ id ∈ ids, id ∉ previousTargets.map User.ID ∧ Addressed memo relatedMemo id := by
  induction targets generalizing db with
  | nil => exact ⟨[], List.nil_sublist _, .refl db, fun id hid => absurd hid List.not_mem_nil⟩
  | cons target rest ih =>
      rcases @notifyTarget_mailed svc db memo relatedMemo previousTargets target with
        ⟨first, hfirst, hmailed, hgood⟩
      rw [Effect.forEach]
      cases hresult : (svc.notifyTarget memo relatedMemo previousTargets target db).1 with
      | error err =>
          rw [Effect.bind_of_error (Effect.eq_of_fst hresult)]
          refine ⟨first, hfirst.trans ?_, hmailed, hgood⟩
          exact List.cons_sublist_cons.mpr (List.nil_sublist _)
      | ok _ =>
          rw [Effect.bind_of_ok (Effect.eq_of_fst hresult)]
          rcases @ih (svc.notifyTarget memo relatedMemo previousTargets target db).2 with
            ⟨later, hlater, hmailed', hgood'⟩
          refine ⟨first ++ later, hfirst.append hlater, ?_, ?_⟩
          · rw [List.map_append]
            exact hmailed.trans hmailed'
          · intro id hid
            exact (List.mem_append.mp hid).elim (hgood id) (hgood' id)

/-- A dispatch notifies users that the memo mentions and that were not mentioned before, each
once, and only those whom it addresses. -/
theorem dispatch_mailed (memo : Memo) (relatedMemo : Option Memo) (previous : String) :
    ∃ ids : List ℤ, ids.Nodup ∧
      Tables.Mailed db (svc.dispatchMemoMentionNotifications memo relatedMemo previous db).2
        (ids.map fun id => (id, memo.ID)) ∧
      ∀ id ∈ ids, id ∈ svc.mentionedIDs db memo.Content ∧ id ∉ svc.mentionedIDs db previous ∧
        Addressed memo relatedMemo id := by
  have hnone : ∃ ids : List ℤ, ids.Nodup ∧
      Tables.Mailed db db (ids.map fun id => (id, memo.ID)) ∧
      ∀ id ∈ ids, id ∈ svc.mentionedIDs db memo.Content ∧ id ∉ svc.mentionedIDs db previous ∧
        Addressed memo relatedMemo id :=
    ⟨[], List.nodup_nil, .refl db, fun id hid => absurd hid List.not_mem_nil⟩
  rw [dispatchMemoMentionNotifications, Effect.read_bind, id]
  cases hcurrent : svc.resolveMentionTargets db memo.Content with
  | error err => exact hnone
  | ok currentTargets =>
      rw [Effect.ofExcept, Effect.pure_bind]
      by_cases hempty : currentTargets = []
      · rw [if_pos hempty]
        exact hnone
      rw [if_neg hempty]
      cases hprevious : svc.resolveMentionTargets db previous with
      | error err => exact hnone
      | ok previousTargets =>
          rw [Effect.ofExcept, Effect.pure_bind]
          rcases @notifyTargets_mailed svc db memo relatedMemo previousTargets
            (svc.rangeOrder currentTargets) with ⟨ids, hids, hmailed, hgood⟩
          have hperm := (svc.rangeOrder_perm currentTargets).map User.ID
          refine ⟨ids, ?_, hmailed, fun id hid => ⟨?_, ?_, (hgood id hid).2⟩⟩
          · exact (hperm.nodup_iff.mpr (resolveMentionTargets_nodup hcurrent)).sublist hids
          · rw [mentionedIDs, hcurrent]
            exact hperm.subset (hids.subset hid)
          · rw [mentionedIDs, hprevious]
            exact (hgood id hid).1

end MentionService
end Api
end MemosNote
