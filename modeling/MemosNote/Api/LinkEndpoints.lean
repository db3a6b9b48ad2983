import MemosNote.Api.LinkEffects

/-!
# The endpoints of attachments and relations

The requests that set the attachments or the references of a memo, and the request that lists its
relations.

Main results:

- Theorem {lit}`memoForLinks_ok`: what was found and checked before links are set.
- Theorem {lit}`mem_listMemoRelations`: the memos of a listed relation exist.
-/

namespace MemosNote
namespace Api

open Library Store

/-- An error that hides its cause; a panic is none. -/
def Failure.replace (message : String) : Failure → Failure
  | status _ _ => status .Internal message
  | panic message => panic message

/-- The request for the attachments of a memo. -/
structure SetMemoAttachmentsRequest where
  Name : String
  Attachments : List AttachmentMessage
deriving DecidableEq, Repr

/-- The request for the relations of a memo. -/
structure SetMemoRelationsRequest where
  Name : String
  Relations : List RelationMessage
deriving DecidableEq, Repr

namespace MemoService

variable (svc : MemoService)

/-- The authenticated user of a request that sets links. -/
def linkingUser : Except Failure User :=
  match svc.fetchCurrentUser with
  | .error err => .error (.status .Internal ("failed to get current user: " ++ err))
  | .ok none => .error (.status .Unauthenticated "user not authenticated")
  | .ok (some user) => .ok user

/-- The user and the memo of a request that sets links, which the user may change. -/
def memoForLinks (name : String) : ApiM (User × FoundMemo) := do
  let user ← Effect.ofExcept svc.linkingUser
  let memo ← svc.requireMemo name fun _ => .status .Internal "failed to get memo"
  if canModifyMemo user memo.toMemo then pure (user, memo)
  else Effect.fail (.status .PermissionDenied "permission denied")

/-- The memo was updated now. -/
def touchMemoUpdatedTimestamp (memoID : ℤ) : ApiM Unit :=
  internally "failed to update memo timestamp"
    (StoreEngine.updateMemo { ID := memoID, UpdatedTs := some svc.engine.now })

/-- The end of a request that sets links: the memo is touched, and its message is built for the
notifications. -/
def finishLinks (memoID : ℤ) : ApiM Unit := do
  svc.touchMemoUpdatedTimestamp memoID
  let _ ← internally "failed to build updated memo state" (svc.buildUpdatedMemoState memoID)
  pure ()

/-- The attachments of a memo become those of the request. -/
def setMemoAttachments (request : SetMemoAttachmentsRequest) : ApiM Unit := do
  let found ← svc.memoForLinks request.Name
  svc.setMemoAttachmentsInternal found.1 found.2.toMemo request.Attachments
  svc.finishLinks found.2.ID

/-- The relations of a memo become those of the request. -/
def setMemoRelations (request : SetMemoRelationsRequest) : ApiM Unit := do
  let found ← svc.memoForLinks request.Name
  svc.setMemoRelationsInternal found.2.toMemo request.Relations
  svc.finishLinks found.2.ID

/-- A memo of a relation; the memo is used without a check. -/
def relationEnd (failed snippetFailed : String) (memoID : ℤ) : ApiM RelationMemo := do
  let found ← withStatus .Internal (fun err => failed ++ ": " ++ err)
    (svc.engine.getMemo { ID := some memoID })
  let memo ← dereference found
  let snippet ← Effect.ofExcept ((svc.getMemoContentSnippet memo.Content).mapError fun err =>
    .status .Unknown (snippetFailed ++ ": " ++ err))
  pure ⟨memoNamePrefix ++ memo.UID, snippet⟩

/-- A relation as the API shows it, with snippets of both memos. -/
def convertMemoRelationFromStore (r : MemoRelation) : ApiM RelationMessage := do
  let memo ← svc.relationEnd "failed to get memo" "failed to get memo content snippet" r.MemoID
  let relatedMemo ← svc.relationEnd "failed to get related memo"
    "failed to get related memo content snippet" r.RelatedMemoID
  pure {
    Memo := some memo
    RelatedMemo := some relatedMemo
    RelationType := convertMemoRelationTypeFromStore r.RelationType }

/-- The relations, one after another. -/
def convertMemoRelationsFromStore : List MemoRelation → ApiM (List RelationMessage)
  | [] => pure []
  | r :: rest => do
      let relation ← (svc.convertMemoRelationFromStore r).mapError
        (Failure.replace "failed to convert memo relation")
      let relations ← convertMemoRelationsFromStore rest
      pure (relation :: relations)

/-- The relations of a query, converted. -/
def listConvertedRelations (failed : String) (find : FindMemoRelation) :
    ApiM (List RelationMessage) := do
  let list ← withStatus .Internal (fun err => failed ++ ": " ++ err)
    (svc.engine.listMemoRelations find)
  svc.convertMemoRelationsFromStore list

/-- The relations of a memo, to those who may see both ends. -/
def listMemoRelations (name : String) : ApiM (List RelationMessage) := do
  let memoUID ← svc.memoUIDOfName name
  let found ← internally "failed to get memo" (svc.engine.getMemo { UID := some memoUID })
  let currentUser ← Effect.ofExcept (svc.fetchCurrentUser.mapError fun _ =>
    .status .Internal "failed to get user")
  let memoFilter := visibleMemos currentUser
  -- The memo is used without a check.
  let memo ← dereference found
  let outgoing ← svc.listConvertedRelations "failed to list memo relations"
    { MemoID := some memo.ID, MemoFilter := some memoFilter }
  let incoming ← svc.listConvertedRelations "failed to list related memo relations"
    { RelatedMemoID := some memo.ID, MemoFilter := some memoFilter }
  pure (outgoing ++ incoming)

/-! ## What the shared parts do -/

variable {svc} {db db' : Tables}

theorem memoForLinks_ok {name : String} {user : User} {memo : FoundMemo}
    (h : svc.memoForLinks name db = (.ok (user, memo), db')) :
    db' = db ∧ svc.linkingUser = .ok user ∧ svc.extractMemoUIDFromName name = .ok memo.UID ∧
      memo.toMemo ∈ db.memos ∧ canModifyMemo user memo.toMemo = true := by
  rw [memoForLinks] at h
  rcases Effect.ok_of_bind h with ⟨u, t, huser, hrest⟩
  rcases Effect.ok_of_ofExcept huser with ⟨hlinking, rfl⟩
  rcases Effect.ok_of_bind hrest with ⟨found, t', hfind, hcheck⟩
  rcases requireMemo_ok hfind with ⟨rfl, hname, hmem, -⟩
  split at hcheck
  · rename_i hmodify
    cases hcheck
    exact ⟨rfl, hlinking, hname, hmem, hmodify⟩
  · cases hcheck

/-- The memos of a relation that a query with a filter lists exist. -/
theorem mem_listMemoRelations {find : FindMemoRelation} {memoFilter : String}
    (hfilter : find.MemoFilter = some memoFilter) {list : List MemoRelation}
    (h : svc.engine.listMemoRelations find db = (.ok list, db')) {r : MemoRelation} (hr : r ∈ list) :
    (∃ m ∈ db.memos, m.ID = r.MemoID) ∧ ∃ m ∈ db.memos, m.ID = r.RelatedMemoID := by
  rw [StoreEngine.listMemoRelations] at h
  rcases Effect.ok_of_bind h with ⟨filters, t, hfilters, hread⟩
  rcases Effect.ok_of_ofExcept hfilters with ⟨-, rfl⟩
  cases hread
  have hmem : ∀ rows : List MemoRelation, r ∈ limitRows find.Limit find.Offset rows → r ∈ rows := by
    intro rows hr
    unfold limitRows at hr
    split at hr
    · exact hr
    · dsimp only at hr
      split at hr
      · exact List.mem_of_mem_drop hr
      · exact List.mem_of_mem_drop (List.mem_of_mem_take hr)
  have hlisted := (List.mem_insertionSort _).mp (hmem _ hr)
  have hmatches := (List.mem_filter.mp hlisted).2
  simp only [hfilter, Option.isNone_some, Bool.false_or, Bool.and_eq_true, List.any_eq_true,
    decide_eq_true_eq] at hmatches
  rcases hmatches.2 with ⟨⟨m, hm, hid, -⟩, m', hm', hid', -⟩
  exact ⟨⟨m, hm, hid⟩, m', hm', hid'⟩

end MemoService

end Api
end MemosNote
