import MemosNote.Api.MemoListing
import MemosNote.FileServer.AttachmentPermission
import MemosNote.Library.Run

/-!
# Memo shares

The creator of a memo, or an administrator, makes tokens that let everybody read it, until they are
revoked or expire.

Main results:

- Structure {lit}`SharesInv`: every share was granted by who may change its memo, and tokens and
  identifiers are not used again.
- Theorem {lit}`share_links`: what a token opens in a run, and when it never opens anything again.
-/

namespace MemosNote
namespace Api

open Library Store FileServer

/-! ## Requests -/

/-- A share of the API. -/
structure MemoShareMessage where
  Name : String
  CreateTime : Timestamp
  ExpireTime : Option Timestamp := none
deriving DecidableEq, Repr

/-- The request to share a memo. -/
structure CreateMemoShareRequest where
  Parent : String
  ExpireTime : Option Timestamp := none
deriving DecidableEq, Repr

/-- What stands before the token in the name of a share. -/
def memoShareNamePrefix : String :=
  "shares/"

/-- A share as the API shows it. -/
def convertMemoShareFromStore (ms : MemoShare) (memoUID : String) : MemoShareMessage where
  Name := memoNamePrefix ++ memoUID ++ "/" ++ memoShareNamePrefix ++ ms.UID
  CreateTime := timestampOfUnix ms.CreatedTs
  ExpireTime := ms.ExpiresTs.map timestampOfUnix

/-- What the checks of a creation have granted: who shares which memo, and until when. -/
structure ShareGrant where
  user : User
  memo : FoundMemo
  ExpiresTs : Option ℤ
deriving DecidableEq, Repr

/-- The share of a grant with a new token; the database assigns the identifier and the time. -/
def ShareGrant.share (grant : ShareGrant) (token : String) (id createdTs : ℤ) : MemoShare where
  ID := id
  UID := token
  MemoID := grant.memo.ID
  CreatorID := grant.user.ID
  CreatedTs := createdTs
  ExpiresTs := grant.ExpiresTs

namespace MemoService

variable (svc : MemoService)

/-- The memo of a name, if the user may change it. -/
def memoToShare (user : User) (memoUID : String) : ApiM FoundMemo := do
  let memo ← svc.findMemo memoUID fun _ => .status .Internal "failed to get memo"
  if canModifyMemo user memo.toMemo then pure memo
  else Effect.fail (.status .PermissionDenied "permission denied")

/-- The expiry of a request, which lies in the future. -/
def shareExpiry (request : CreateMemoShareRequest) : Except Failure (Option ℤ) :=
  match request.ExpireTime with
  | none => .ok none
  | some time =>
      if time.unix ≤ svc.engine.now then
        .error (.status .InvalidArgument "expire_time must be in the future")
      else .ok (some time.unix)

/-- The checks of a creation. -/
def grantMemoShare (request : CreateMemoShareRequest) : ApiM ShareGrant := do
  let user ← Effect.ofExcept (svc.requireUser "failed to get user")
  let memoUID ← svc.memoUIDOfName request.Parent
  let memo ← svc.memoToShare user memoUID
  let expiresTs ← Effect.ofExcept (svc.shareExpiry request)
  pure ⟨user, memo, expiresTs⟩

/-- Create a share, with a new token. -/
def issueMemoShare (grant : ShareGrant) (token : String) (id : ℤ) : ApiM MemoShareMessage := do
  let ms ← internally "failed to create memo share"
    (createMemoShare (grant.share token id svc.engine.now))
  pure (convertMemoShareFromStore ms grant.memo.UID)

/-- A memo is shared under a drawn token. -/
def CreateMemoShare (request : CreateMemoShareRequest) (token : String) (id : ℤ) :
    ApiM MemoShareMessage := do
  let grant ← svc.grantMemoShare request
  svc.issueMemoShare grant token id

/-- The shares of a memo, for those who may share it. -/
def ListMemoShares (parent : String) : ApiM (List MemoShareMessage) := do
  let user ← Effect.ofExcept (svc.requireUser "failed to get user")
  let memoUID ← svc.memoUIDOfName parent
  let memo ← svc.memoToShare user memoUID
  let shares ← internally "failed to list memo shares" (listMemoShares { MemoID := some memo.ID })
  pure (shares.map fun ms => convertMemoShareFromStore ms memo.UID)

/-- The names of the memo and of the share in the name of a share. -/
def shareTokens (name : String) : Except String (String × String) :=
  match splitName name with
  | [memos, memoUID, shares, token] =>
      if memos ++ "/" ≠ memoNamePrefix then
        .error ("invalid prefix " ++ svc.quote memoNamePrefix ++ " in request " ++ svc.quote name)
      else if memoUID = "" then
        .error ("invalid request " ++ svc.quote name ++ " with empty prefix " ++
          svc.quote memoNamePrefix)
      else if shares ++ "/" ≠ memoShareNamePrefix then
        .error ("invalid prefix " ++ svc.quote memoShareNamePrefix ++ " in request " ++
          svc.quote name)
      else if token = "" then
        .error ("invalid request " ++ svc.quote name ++ " with empty prefix " ++
          svc.quote memoShareNamePrefix)
      else .ok (memoUID, token)
  | _ => .error ("invalid request " ++ svc.quote name)

/-- A share is revoked. -/
def DeleteMemoShare (name : String) : ApiM Unit := do
  let user ← Effect.ofExcept (svc.requireUser "failed to get user")
  let (memoUID, shareToken) ← Effect.ofExcept ((svc.shareTokens name).mapError fun err =>
    .status .InvalidArgument ("invalid share name: " ++ err))
  let memo ← svc.memoToShare user memoUID
  let ms ← internally "failed to get memo share" (getMemoShare { UID := some shareToken })
  if ms.any fun ms => ms.MemoID = memo.ID then
    internally "failed to delete memo share" (deleteMemoShare { UID := some shareToken })
  else Effect.fail (.status .NotFound "memo share not found")

/-- The share of a token, unless it has expired. -/
def getActiveMemoShare (shareID : String) : ApiM MemoShare := do
  let ms ← internally "failed to get memo share" (getMemoShare { UID := some shareID })
  match ms with
  | none => Effect.fail (.status .NotFound "not found")
  | some ms =>
      if isMemoShareExpired svc.engine.now ms then Effect.fail (.status .NotFound "not found")
      else pure ms

end MemoService

namespace ListingService

variable (svc : ListingService)

/-- The memo of a token; whoever asks needs not be a user. -/
def GetMemoByShare (shareID : String) : ApiM ListedMemo := do
  let ms ← svc.memoService.getActiveMemoShare shareID
  let found ← internally "failed to get memo"
    (svc.memoService.engine.getMemo { ID := some ms.MemoID })
  match found with
  | none => Effect.fail (.status .NotFound "not found")
  | some memo =>
      if memo.RowStatus = .ARCHIVED then Effect.fail (.status .NotFound "not found")
      else do
        let reactions ← internally "failed to list reactions"
          (listReactions { ContentID := some (memoNamePrefix ++ memo.UID) })
        let attachments ← internally "failed to list attachments"
          (svc.memoService.engine.listAttachments { MemoID := some memo.ID })
        let relations ← internally "failed to load memo relations"
          (svc.memoService.batchConvertMemoRelations [memo.toMemo] true)
        let creators ← withStatus .Unknown
          ("failed to convert memo: failed to list memo creators: " ++ ·)
          (listUsersByID [memo.CreatorID])
        let message ← withStatus .Unknown ("failed to convert memo: " ++ ·)
          (svc.convertMemoFromStoreWithCreators memo reactions attachments (relations memo.ID)
            creators)
        match message with
        | none => Effect.fail (.status .NotFound "not found")
        | some message => pure message

end ListingService

/-! ## What the requests do -/

section Requests

variable {svc : MemoService} {db db' : Tables}

theorem ok_of_internally {α : Type} {message : String} {x : StoreM α} {a : α}
    (h : internally message x db = (.ok a, db')) : x db = (.ok a, db') :=
  Effect.ok_of_mapError h

theorem memoToShare_ok {user : User} {memoUID : String} {memo : FoundMemo}
    (h : svc.memoToShare user memoUID db = (.ok memo, db')) :
    db' = db ∧ memo.UID = memoUID ∧ memo.toMemo ∈ db.memos ∧
      canModifyMemo user memo.toMemo = true := by
  rw [MemoService.memoToShare] at h
  rcases Effect.ok_of_bind h with ⟨found, t, hfind, hcheck⟩
  rcases MemoService.findMemo_ok hfind with ⟨rfl, huid, hmem, -⟩
  split_ifs at hcheck with hmodify
  · cases hcheck
    exact ⟨rfl, huid, hmem, hmodify⟩
  · cases hcheck

/-- Who shares a memo may change it, and the share expires later if at all. -/
theorem grantMemoShare_ok {request : CreateMemoShareRequest} {grant : ShareGrant}
    (h : svc.grantMemoShare request db = (.ok grant, db')) :
    db' = db ∧ grant.memo.toMemo ∈ db.memos ∧
      canModifyMemo grant.user grant.memo.toMemo = true := by
  rw [MemoService.grantMemoShare] at h
  rcases Effect.ok_of_read_bind (fun _ => Effect.Keeps.ofExcept _) h with ⟨user, -, hname⟩
  rcases Effect.ok_of_read_bind (fun _ => Effect.Keeps.ofExcept _) hname with ⟨memoUID, -, hfind⟩
  rcases Effect.ok_of_bind hfind with ⟨memo, t, hmemo, hexpiry⟩
  rcases memoToShare_ok hmemo with ⟨rfl, -, hmem, hmodify⟩
  rcases Effect.ok_of_read_bind (fun _ => Effect.Keeps.ofExcept _) hexpiry with
    ⟨expiresTs, -, hgrant⟩
  cases hgrant
  exact ⟨rfl, hmem, hmodify⟩

/-- A share is revoked by who may change its memo. -/
theorem deleteMemoShare_ok {name : String}
    (h : svc.DeleteMemoShare name db = (.ok (), db')) :
    ∃ user memoUID token, svc.shareTokens name = .ok (memoUID, token) ∧
      svc.requireUser "failed to get user" = .ok user ∧
      (∃ ms ∈ db.memoShares, ms.UID = token ∧ ∃ memo ∈ db.memos, memo.ID = ms.MemoID ∧
        canModifyMemo user memo = true) ∧
      db' = db.deleteMemoShare { UID := some token } := by
  rw [MemoService.DeleteMemoShare] at h
  rcases Effect.ok_of_read_bind (fun _ => Effect.Keeps.ofExcept _) h with ⟨user, huser, hname⟩
  rcases Effect.ok_of_read_bind (fun _ => Effect.Keeps.ofExcept _) hname with
    ⟨⟨memoUID, token⟩, htokens, hfind⟩
  rcases Effect.ok_of_bind hfind with ⟨memo, t, hmemo, hget⟩
  rcases memoToShare_ok hmemo with ⟨rfl, -, hmem, hmodify⟩
  rcases Effect.ok_of_bind hget with ⟨found, t, hfound, hdelete⟩
  rcases Prod.mk.inj (ok_of_internally hfound) with ⟨hshare, rfl⟩
  have hparse : svc.shareTokens name = .ok (memoUID, token) := by
    have hok := (Effect.ok_of_ofExcept htokens).1
    cases hparse : svc.shareTokens name with
    | error err =>
        rw [hparse] at hok
        cases hok
    | ok tokens =>
        rw [hparse] at hok
        cases hok
        rfl
  split_ifs at hdelete with hmine
  · rcases (Option.any_eq_true _ _).mp hmine with ⟨ms, rfl, hmemoID⟩
    rcases find_memoShare (Except.ok.inj hshare) with ⟨hms, huid⟩
    refine ⟨user, memoUID, token, hparse, (Effect.ok_of_ofExcept huser).1,
      ⟨ms, hms, huid, memo.toMemo, hmem, (of_decide_eq_true hmemoID).symm, hmodify⟩, ?_⟩
    exact (Prod.mk.inj (ok_of_internally hdelete)).2.symm
  · cases hdelete

/-- A memo found by its identifier. -/
theorem mem_of_getMemo_id {engine : StoreEngine} {id : ℤ} {memo : FoundMemo}
    (h : engine.getMemo { ID := some id } db = (.ok (some memo), db')) :
    db' = db ∧ memo.toMemo ∈ db.memos ∧ memo.ID = id := by
  rw [StoreEngine.getMemo_eq rfl] at h
  rcases Prod.mk.inj h with ⟨hhead, rfl⟩
  have hmem := List.mem_of_head? (Except.ok.inj hhead)
  rcases (Tables.mem_selectMemos rfl).mp hmem with ⟨m, hm, joined, hjoined, hmatches, -, rfl⟩
  have hproject : ({ ID := some id } : FindMemo).project joined = joined := rfl
  have htoMemo := Tables.toMemo_of_mem_joinMemo hjoined
  have hid : joined.ID = id := by simpa [FindMemo.matchesMemo] using hmatches
  rw [hproject]
  exact ⟨rfl, htoMemo ▸ hm, hid⟩

private theorem getActiveMemoShare_ok {token : String} {ms : MemoShare}
    (h : svc.getActiveMemoShare token db = (.ok ms, db')) :
    db' = db ∧ ms ∈ db.memoShares ∧ ms.UID = token ∧
      isMemoShareExpired svc.engine.now ms = false := by
  rw [MemoService.getActiveMemoShare] at h
  rcases Effect.ok_of_bind h with ⟨share, t, hfind, hactive⟩
  rcases Prod.mk.inj (ok_of_internally hfind) with ⟨hshare, rfl⟩
  cases share with
  | none => cases hactive
  | some share =>
      dsimp only at hactive
      split_ifs at hactive with hexpired
      · cases hactive
      · cases hactive
        rcases find_memoShare (Except.ok.inj hshare) with ⟨hms, huid⟩
        exact ⟨rfl, hms, huid, Bool.eq_false_iff.mpr hexpired⟩

private theorem convertMemo_name {svc : ListingService} {memo : FoundMemo}
    {reactions : List Reaction}
    {attachments : List Attachment} {relations : List RelationMessage} {creators : List User}
    {message : ListedMemo}
    (h : svc.convertMemoFromStoreWithCreators memo reactions attachments relations creators db =
      (.ok (some message), db')) :
    message.Name = buildMemoName memo.UID ∧ message.Content = memo.Content := by
  rw [ListingService.convertMemoFromStoreWithCreators] at h
  cases hcreator : userByID creators memo.CreatorID with
  | none =>
      rw [hcreator] at h
      cases h
  | some creator =>
      rw [hcreator] at h
      rcases Effect.ok_of_bind h with ⟨messages, t, -, hsnippet⟩
      rcases Effect.ok_of_bind hsnippet with ⟨snippet, t', -, hmessage⟩
      cases hmessage
      exact ⟨rfl, rfl⟩

/-- What a token opens is the memo of its share, which is not archived. -/
theorem getMemoByShare_ok {svc : ListingService} {token : String} {message : ListedMemo}
    (h : (svc.GetMemoByShare token db).1 = .ok message) :
    ∃ ms ∈ db.memoShares, ms.UID = token ∧
      isMemoShareExpired svc.memoService.engine.now ms = false ∧
      ∃ memo ∈ db.memos, memo.ID = ms.MemoID ∧ memo.RowStatus ≠ .ARCHIVED ∧
        message.Name = buildMemoName memo.UID ∧ message.Content = memo.Content := by
  have hok := Effect.eq_of_fst h
  rw [ListingService.GetMemoByShare] at hok
  rcases Effect.ok_of_bind hok with ⟨ms, t, hshare, hget⟩
  rcases getActiveMemoShare_ok hshare with ⟨rfl, hms, huid, hactive⟩
  rcases Effect.ok_of_bind hget with ⟨found, t, hmemo, hmessage⟩
  have hquery := ok_of_internally hmemo
  cases found with
  | none => cases hmessage
  | some memo =>
      rcases mem_of_getMemo_id hquery with ⟨rfl, hmem, hid⟩
      dsimp only at hmessage
      split_ifs at hmessage with harchived
      · cases hmessage
      · rcases Effect.ok_of_bind hmessage with ⟨reactions, t, -, hmessage⟩
        rcases Effect.ok_of_bind hmessage with ⟨attachments, t, -, hmessage⟩
        rcases Effect.ok_of_bind hmessage with ⟨relations, t, -, hmessage⟩
        rcases Effect.ok_of_bind hmessage with ⟨creators, t, -, hmessage⟩
        rcases Effect.ok_of_bind hmessage with ⟨converted, t, hconvert, hmessage⟩
        cases converted with
        | none => cases hmessage
        | some converted =>
            rcases convertMemo_name (Effect.ok_of_mapError hconvert) with ⟨hname, hcontent⟩
            cases hmessage
            exact ⟨ms, hms, huid, hactive, memo.toMemo, hmem, hid, harchived, hname, hcontent⟩

end Requests

/-! ## Runs -/

/-- The database and the clock, the grants whose share is not stored yet, the tokens that were drawn
and the shares that were stored, each with its grant. -/
structure ShareWorld where
  db : Tables
  now : ℤ
  granted : List ShareGrant := []
  drawn : List String := []
  issued : List (String × ShareGrant) := []

/-- Time passes, something else is written, or a request for a share is granted, is carried out with
a new token, or revokes a share. -/
inductive ShareEvent where
  | pass (seconds : ℕ)
  | write (engine : StoreEngine) (write : StoreWrite)
  | grant (svc : MemoService) (request : CreateMemoShareRequest)
  | issue (svc : MemoService) (grant : ShareGrant) (token : String) (id : ℤ)
  | revoke (svc : MemoService) (name : String)

namespace ShareWorld

variable (s : ShareWorld)

/-- One event of the world of shares. -/
def step : ShareEvent → Option ShareWorld
  | .pass seconds => some { s with now := s.now + seconds }
  | .write engine write => some { s with db := write.apply engine s.db }
  | .grant svc request =>
      if svc.engine.now = s.now then
        match (svc.grantMemoShare request s.db).1 with
        | .error _ => some s
        | .ok grant => some { s with granted := grant :: s.granted }
      else none
  | .issue svc grant token id =>
      if grant ∈ s.granted then
        let rest := { s with granted := s.granted.erase grant, drawn := token :: s.drawn }
        match svc.issueMemoShare grant token id s.db with
        | (.error _, db) => some { rest with db := db }
        | (.ok _, db) => some { rest with db := db, issued := (token, grant) :: s.issued }
      else none
  | .revoke svc name => some { s with db := (svc.DeleteMemoShare name s.db).2 }

/-- Every token is new. -/
def Fresh : ShareEvent → Prop
  | .issue _ _ token _ => token ∉ s.drawn
  | _ => True

/-- The memo has a share with the token, which has not expired. -/
def SharesMemo (token : String) (memo : Memo) : Prop :=
  ∃ ms ∈ s.db.memoShares, ms.UID = token ∧ isMemoShareExpired s.now ms = false ∧
    memo.ID = ms.MemoID

/-- The token is the one of a share of a memo that exists. -/
def Alive (token : String) : Prop :=
  ∃ memo ∈ s.db.memos, s.SharesMemo token memo

end ShareWorld

/-- Whoever has the token, and is no user, is shown the memo of a name, or gets the file of an
attachment of a memo that is not public. -/
inductive ShareWorld.Shows (s : ShareWorld) (token : String) : String → Prop where
  | memo {svc : ListingService} {message : ListedMemo}
      (hnow : svc.memoService.engine.now = s.now)
      (hopens : (svc.GetMemoByShare token s.db).1 = .ok message) : Shows s token message.Name
  | file {req : AttachmentRequest} {attachment : Attachment} {memo : Memo}
      (hnow : req.engine.now = s.now) (htoken : req.shareToken = token)
      (hnobody : req.currentUser = .ok none) (hmemo : memo ∈ s.db.memos)
      (hlinked : attachment.MemoID = some memo.ID) (hhidden : memo.Visibility ≠ .Public)
      (hgives : (req.checkAttachmentPermission attachment s.db).1 = .ok ()) :
      Shows s token (buildMemoName memo.UID)

/-- What a step does. -/
inductive ShareMove (s : ShareWorld) : ShareWorld → Prop where
  | pass (seconds : ℕ) : ShareMove s { s with now := s.now + seconds }
  | write {db : Tables} (h : s.db.Evolves db) : ShareMove s { s with db := db }
  | grant {grant : ShareGrant} (hmemo : grant.memo.toMemo ∈ s.db.memos)
      (hmodify : canModifyMemo grant.user grant.memo.toMemo = true) :
      ShareMove s { s with granted := grant :: s.granted }
  | spoil (grant : ShareGrant) (token : String) :
      ShareMove s { s with granted := s.granted.erase grant, drawn := token :: s.drawn }
  | issue {grant : ShareGrant} {token : String} (hgrant : grant ∈ s.granted)
      (hfresh : token ∉ s.drawn) (id createdTs : ℤ) :
      ShareMove s { s with
        db := s.db.insertMemoShare (grant.share token id createdTs)
        granted := s.granted.erase grant
        drawn := token :: s.drawn
        issued := (token, grant) :: s.issued }

/-- A share is stored if its token is new among the shares, and then the request succeeds. -/
theorem issueMemoShare_cases (svc : MemoService) (grant : ShareGrant) (token : String) (id : ℤ)
    (db : Tables) :
    (∃ failure, svc.issueMemoShare grant token id db = (.error failure, db)) ∨
      ∃ message, svc.issueMemoShare grant token id db =
        (.ok message, db.insertMemoShare (grant.share token id svc.engine.now)) := by
  by_cases htaken : token ∈ db.memoShares.map MemoShare.UID
  · left
    have hcreate : createMemoShare (grant.share token id svc.engine.now) db =
        (.error "UNIQUE constraint failed: memo_share.uid", db) := if_pos htaken
    have hfails : internally "failed to create memo share"
        (createMemoShare (grant.share token id svc.engine.now)) db =
          (.error (.status .Internal "failed to create memo share"), db) := by
      rw [internally, withStatus, Effect.mapError, hcreate]
      rfl
    exact ⟨_, Effect.bind_of_error hfails⟩
  · right
    have hcreate : createMemoShare (grant.share token id svc.engine.now) db =
        (.ok (grant.share token id svc.engine.now),
          db.insertMemoShare (grant.share token id svc.engine.now)) := if_neg htaken
    have hstores : internally "failed to create memo share"
        (createMemoShare (grant.share token id svc.engine.now)) db =
          (.ok (grant.share token id svc.engine.now),
            db.insertMemoShare (grant.share token id svc.engine.now)) := by
      rw [internally, withStatus, Effect.mapError, hcreate]
      rfl
    exact ⟨_, Effect.bind_of_ok hstores⟩

private theorem deleteMemoShare_evolves (svc : MemoService) (name : String) (db : Tables) :
    db.Evolves (svc.DeleteMemoShare name db).2 := by
  have hkeeps : Effect.Keeps db.Evolves (svc.DeleteMemoShare name) := by
    refine (Effect.Keeps.ofExcept _).bind fun user =>
      (Effect.Keeps.ofExcept _).bind fun tokens => ?_
    have hmemo : Effect.Keeps db.Evolves (svc.memoToShare user tokens.1) := by
      refine (MemoService.findMemo_keeps _ _).bind fun memo => ?_
      split_ifs
      · exact Effect.Keeps.pure _
      · exact Effect.Keeps.fail _
    refine hmemo.bind fun memo => ((Effect.Keeps.read _).mapError _).bind fun ms => ?_
    split_ifs
    · exact (Effect.Keeps.update fun t ht => ht.trans
        (.of_sublist rfl (List.Sublist.refl _) List.filter_sublist)).mapError _
    · exact Effect.Keeps.fail _
  exact hkeeps db (.refl db)

private theorem share_move {s t : ShareWorld} {e : ShareEvent} (hfresh : s.Fresh e)
    (h : s.step e = some t) : ShareMove s t := by
  cases e with
  | pass seconds =>
      cases h
      exact .pass seconds
  | write engine write =>
      cases h
      exact .write write.evolves_apply
  | grant svc request =>
      rw [ShareWorld.step] at h
      split_ifs at h
      split at h
      · cases h
        exact .write (.refl s.db)
      · rename_i grant hgrant
        cases h
        rcases grantMemoShare_ok (Effect.eq_of_fst hgrant) with ⟨-, hmemo, hmodify⟩
        exact .grant hmemo hmodify
  | issue svc grant token id =>
      rw [ShareWorld.step] at h
      split_ifs at h with hgrant
      rcases issueMemoShare_cases svc grant token id s.db with ⟨failure, hissue⟩ | ⟨message, hissue⟩
      · rw [hissue] at h
        cases h
        exact .spoil grant token
      · rw [hissue] at h
        cases h
        exact .issue hgrant hfresh id svc.engine.now
  | revoke svc name =>
      cases h
      exact .write (deleteMemoShare_evolves svc name s.db)

/-- The memo of a grant has kept its identifier and its name, as far as it is still there. -/
structure Granted (db : Tables) (grant : ShareGrant) : Prop where
  modify : canModifyMemo grant.user grant.memo.toMemo = true
  known : grant.memo.ID ≤ db.memoSequence
  named : ∀ memo ∈ db.memos, memo.ID = grant.memo.ID → memo.UID = grant.memo.UID

/-- Every share was granted by who may change its memo, and no token is used again. -/
structure SharesInv (s : ShareWorld) : Prop where
  granted : ∀ grant ∈ s.granted, Granted s.db grant
  issued : ∀ p ∈ s.issued, p.1 ∈ s.drawn ∧ Granted s.db p.2
  single : (s.issued.map Prod.fst).Nodup
  unique : (s.db.memoShares.map MemoShare.UID).Nodup
  shares : ∀ ms ∈ s.db.memoShares, ∃ grant, (ms.UID, grant) ∈ s.issued ∧
    ms = grant.share ms.UID ms.ID ms.CreatedTs

/-- A later state of the same run. -/
structure ShareWorld.Later (s t : ShareWorld) : Prop where
  now : s.now ≤ t.now
  drawn : s.drawn ⊆ t.drawn
  issued : s.issued ⊆ t.issued
  memos : ∀ memo ∈ t.db.memos, (∃ m ∈ s.db.memos, m.ID = memo.ID) ∨ s.db.memoSequence < memo.ID
  shares : ∀ ms ∈ t.db.memoShares, ms.UID ∈ s.drawn → ms ∈ s.db.memoShares
  sequence : s.db.memoSequence ≤ t.db.memoSequence

variable {s t u : ShareWorld}

theorem Granted.evolves {db db' : Tables} {grant : ShareGrant} (h : Granted db grant)
    (hevolves : db.Evolves db') : Granted db' grant := by
  refine ⟨h.modify, h.known.trans hevolves.sequence, fun memo hmemo hid => ?_⟩
  rcases hevolves.memos memo hmemo with ⟨m, hm, hmid, hmuid⟩ | hnew
  · exact hmuid.symm.trans (h.named m hm (hmid.trans hid))
  · exact absurd (hid ▸ h.known) (not_le.mpr hnew)

theorem SharesInv.move (h : SharesInv s) (hmove : ShareMove s t) : SharesInv t := by
  cases hmove with
  | pass seconds => exact ⟨h.granted, h.issued, h.single, h.unique, h.shares⟩
  | write hevolves =>
      refine ⟨fun grant hgrant => (h.granted grant hgrant).evolves hevolves,
        fun p hp => ⟨(h.issued p hp).1, (h.issued p hp).2.evolves hevolves⟩, h.single,
        h.unique.sublist (hevolves.shares.map _),
        fun ms hms => h.shares ms (hevolves.shares.subset hms)⟩
  | @grant grant hmemo hmodify =>
      refine ⟨fun g hg => ?_, h.issued, h.single, h.unique, h.shares⟩
      rcases List.mem_cons.mp hg with rfl | hg
      · refine ⟨hmodify, (s.db.memoIDs _ hmemo).2, fun memo hmem hid => ?_⟩
        rw [s.db.eq_of_memoID_eq hmem hmemo hid]
      · exact h.granted g hg
  | spoil grant token =>
      exact ⟨fun g hg => h.granted g (List.mem_of_mem_erase hg),
        fun p hp => ⟨List.mem_cons_of_mem _ (h.issued p hp).1, (h.issued p hp).2⟩, h.single,
        h.unique, h.shares⟩
  | @issue grant token hgrant hfresh id createdTs =>
      refine ⟨fun g hg => ?_, fun p hp => ?_, ?_, ?_, fun ms hms => ?_⟩
      · have hg := h.granted g (List.mem_of_mem_erase hg)
        exact ⟨hg.modify, hg.known, hg.named⟩
      · rcases List.mem_cons.mp hp with rfl | hp
        · have hg := h.granted grant hgrant
          exact ⟨List.mem_cons_self, hg.modify, hg.known, hg.named⟩
        · have hg := (h.issued p hp).2
          exact ⟨List.mem_cons_of_mem _ (h.issued p hp).1, hg.modify, hg.known, hg.named⟩
      · rw [List.map_cons, List.nodup_cons]
        refine ⟨fun hmem => ?_, h.single⟩
        rcases List.mem_map.mp hmem with ⟨p, hp, htoken⟩
        have hdrawn := (h.issued p hp).1
        rw [htoken] at hdrawn
        exact hfresh hdrawn
      · have happend : (s.db.memoShares ++ [grant.share token id createdTs]).map MemoShare.UID =
            s.db.memoShares.map MemoShare.UID ++ [token] := by
          rw [List.map_append]
          rfl
        change ((s.db.memoShares ++ [grant.share token id createdTs]).map MemoShare.UID).Nodup
        rw [happend, List.nodup_append]
        refine ⟨h.unique, List.nodup_singleton token, ?_⟩
        rintro uid huid other hother rfl
        rcases List.mem_singleton.mp hother with rfl
        rcases List.mem_map.mp huid with ⟨ms, hms, rfl⟩
        rcases h.shares ms hms with ⟨g, hg, -⟩
        exact hfresh (h.issued _ hg).1
      · rcases List.mem_append.mp hms with hms | hms
        · rcases h.shares ms hms with ⟨g, hg, hshare⟩
          exact ⟨g, List.mem_cons_of_mem _ hg, hshare⟩
        · rcases List.mem_singleton.mp hms with rfl
          exact ⟨grant, List.mem_cons_self, rfl⟩

namespace ShareWorld.Later

theorem refl (s : ShareWorld) : s.Later s :=
  ⟨le_rfl, List.Subset.refl _, List.Subset.refl _, fun memo hmemo => Or.inl ⟨memo, hmemo, rfl⟩,
    fun _ hms _ => hms, le_rfl⟩

theorem trans (h : s.Later t) (h' : t.Later u) : s.Later u := by
  refine ⟨h.now.trans h'.now, List.Subset.trans h.drawn h'.drawn,
    List.Subset.trans h.issued h'.issued,
    fun memo hmemo => ?_, fun ms hms hdrawn => ?_, h.sequence.trans h'.sequence⟩
  · rcases h'.memos memo hmemo with ⟨m, hm, hid⟩ | hnew
    · rw [← hid]
      exact h.memos m hm
    · exact Or.inr (lt_of_le_of_lt h.sequence hnew)
  · exact h.shares ms (h'.shares ms hms (h.drawn hdrawn)) hdrawn

theorem move (hmove : ShareMove s t) : s.Later t := by
  cases hmove with
  | pass seconds =>
      refine ⟨?_, List.Subset.refl _, List.Subset.refl _,
        fun memo hmemo => Or.inl ⟨memo, hmemo, rfl⟩, fun _ hms _ => hms, le_rfl⟩
      dsimp only
      omega
  | write hevolves =>
      refine ⟨le_rfl, List.Subset.refl _, List.Subset.refl _, fun memo hmemo => ?_,
        fun ms hms _ => hevolves.shares.subset hms, hevolves.sequence⟩
      rcases hevolves.memos memo hmemo with ⟨m, hm, hid, -⟩ | hnew
      · exact Or.inl ⟨m, hm, hid⟩
      · exact Or.inr hnew
  | grant hmemo hmodify =>
      exact ⟨le_rfl, List.Subset.refl _, List.Subset.refl _,
        fun memo hmemo => Or.inl ⟨memo, hmemo, rfl⟩, fun _ hms _ => hms, le_rfl⟩
  | spoil grant token =>
      exact ⟨le_rfl, List.subset_cons_self _ _, List.Subset.refl _,
        fun memo hmemo => Or.inl ⟨memo, hmemo, rfl⟩, fun _ hms _ => hms, le_rfl⟩
  | issue hgrant hfresh id createdTs =>
      refine ⟨le_rfl, List.subset_cons_self _ _, List.subset_cons_self _ _,
        fun memo hmemo => Or.inl ⟨memo, hmemo, rfl⟩, fun ms hms hdrawn => ?_, le_rfl⟩
      rcases List.mem_append.mp hms with hms | hms
      · exact hms
      · rcases List.mem_singleton.mp hms with rfl
        exact absurd hdrawn hfresh

end ShareWorld.Later

theorem share_run {es : List ShareEvent} (hrun : Run ShareWorld.step ShareWorld.Fresh s es t)
    (hs : SharesInv s) : SharesInv t ∧ s.Later t := by
  have hpreserved (u : ShareWorld) (e : ShareEvent) (v : ShareWorld) (hu : SharesInv u ∧ s.Later u)
      (hfresh : u.Fresh e) (hstep : u.step e = some v) : SharesInv v ∧ s.Later v := by
    have hmove := share_move hfresh hstep
    exact ⟨hu.1.move hmove, hu.2.trans (.move hmove)⟩
  exact hrun.invariant hpreserved ⟨hs, .refl s⟩

/-! ## What a token shows -/

/-- A token shows the memo of its share, until that expires. -/
theorem exists_memo_of_shows {token name : String} (h : s.Shows token name) :
    ∃ memo ∈ s.db.memos, s.SharesMemo token memo ∧ name = buildMemoName memo.UID := by
  cases h with
  | @memo svc message hnow hopens =>
      rcases getMemoByShare_ok hopens with ⟨ms, hms, huid, hactive, memo, hmemo, hid, -, hname, -⟩
      exact ⟨memo, hmemo, ⟨ms, hms, huid, hnow ▸ hactive, hid⟩, hname⟩
  | @file req attachment memo hnow htoken hnobody hmemo hlinked hhidden hgives =>
      rcases (AttachmentRequest.checkAttachmentPermission_linked_iff hmemo hlinked).mp hgives with
        (hpublic | hshared) | ⟨user, huser, -⟩
      · exact absurd hpublic hhidden
      · rcases AttachmentRequest.mem_of_sharedBy hshared with ⟨ms, hms, huid, hactive, hid⟩
        exact ⟨memo, hmemo, ⟨ms, hms, huid.trans htoken, hnow ▸ hactive, hid.symm⟩, rfl⟩
      · rw [hnobody] at huser
        cases huser

/-- Who has granted what a token shows. -/
theorem SharesInv.exists_grant (h : SharesInv s) {token name : String}
    (hshows : s.Shows token name) :
    ∃ grant, (token, grant) ∈ s.issued ∧ name = buildMemoName grant.memo.UID ∧
      canModifyMemo grant.user grant.memo.toMemo = true ∧ ∀ ts ∈ grant.ExpiresTs, s.now ≤ ts := by
  rcases exists_memo_of_shows hshows with ⟨memo, hmemo, ⟨ms, hms, rfl, hactive, hid⟩, rfl⟩
  rcases h.shares ms hms with ⟨grant, hgrant, hshare⟩
  have hmemoID : ms.MemoID = grant.memo.ID := by
    rw [hshare]
    rfl
  have hexpires : ms.ExpiresTs = grant.ExpiresTs := by
    rw [hshare]
    rfl
  have hgranted := (h.issued _ hgrant).2
  refine ⟨grant, hgrant, ?_, hgranted.modify, fun ts hts => ?_⟩
  · rw [hgranted.named memo hmemo (hid.trans hmemoID)]
  · rw [isMemoShareExpired, hexpires, Option.mem_def.mp hts] at hactive
    simpa using hactive

/-- A token shows one memo. -/
theorem SharesInv.shows_unique (h : SharesInv t) (hlater : s.Later t) (hs : SharesInv s)
    {token name name' : String} (hshows : s.Shows token name) (hshows' : t.Shows token name') :
    name' = name := by
  rcases hs.exists_grant hshows with ⟨grant, hgrant, rfl, -⟩
  rcases h.exists_grant hshows' with ⟨grant', hgrant', rfl, -⟩
  have hsame := List.inj_on_of_nodup_map h.single hgrant' (hlater.issued hgrant) rfl
  rw [(Prod.mk.inj hsame).2]

/-- A token that is dead stays dead. -/
theorem ShareWorld.Later.not_shows (hlater : s.Later t) (hs : SharesInv s) {token : String}
    (hdrawn : token ∈ s.drawn) (hdead : ¬s.Alive token) (name : String) : ¬t.Shows token name := by
  intro hshows
  rcases exists_memo_of_shows hshows with ⟨memo, hmemo, ⟨ms, hms, rfl, hactive, hid⟩, -⟩
  have hold := hlater.shares ms hms hdrawn
  have hunexpired : isMemoShareExpired s.now ms = false := by
    by_contra hexpired
    rw [Bool.not_eq_false] at hexpired
    rw [isMemoShareExpired_mono hlater.now hexpired] at hactive
    cases hactive
  rcases hlater.memos memo hmemo with ⟨m, hm, hmid⟩ | hnew
  · exact hdead ⟨m, hm, ms, hold, rfl, hunexpired, hmid.trans hid⟩
  · rcases hs.shares ms hold with ⟨grant, hgrant, hshare⟩
    have hmemoID : ms.MemoID = grant.memo.ID := by
      rw [hshare]
      rfl
    rw [hid, hmemoID] at hnew
    exact absurd (hs.issued _ hgrant).2.known (not_le.mpr hnew)

/-- A revoked token is dead. -/
theorem SharesInv.revoke (h : SharesInv s) {svc : MemoService} {name : String} {db : Tables}
    (hrevoke : svc.DeleteMemoShare name s.db = (.ok (), db)) :
    ∃ memoUID token, svc.shareTokens name = .ok (memoUID, token) ∧ token ∈ s.drawn ∧
      ¬ ShareWorld.Alive { s with db := db } token := by
  rcases deleteMemoShare_ok hrevoke with
    ⟨user, memoUID, token, htokens, -, ⟨ms, hms, huid, -⟩, rfl⟩
  rcases h.shares ms hms with ⟨grant, hgrant, -⟩
  refine ⟨memoUID, token, htokens, huid ▸ (h.issued _ hgrant).1, ?_⟩
  rintro ⟨memo, hmemo, ms', hms', huid', -⟩
  have hkept := (List.mem_filter.mp hms').2
  simp [DeleteMemoShare.matchesShare, huid'] at hkept

/-- The share of a token is found. -/
theorem SharesInv.find (h : SharesInv s) {ms : MemoShare} (hms : ms ∈ s.db.memoShares) :
    s.db.memoShares.find? ({ UID := some ms.UID } : FindMemoShare).matchesShare = some ms := by
  cases hfind : s.db.memoShares.find? ({ UID := some ms.UID } : FindMemoShare).matchesShare with
  | none =>
      have hnone := List.find?_eq_none.mp hfind ms hms
      simp [FindMemoShare.matchesShare] at hnone
  | some found =>
      rcases find_memoShare hfind with ⟨hfound, huid⟩
      rw [List.inj_on_of_nodup_map h.unique hfound hms huid]

/-- A share of a memo that is not archived opens it. -/
theorem SharesInv.opens (h : SharesInv s) {svc : ListingService} {user : Option User}
    (hserves : svc.Serves user) (hnow : svc.memoService.engine.now = s.now) {token : String}
    {memo : Memo} (hmemo : memo ∈ s.db.memos) (hshares : s.SharesMemo token memo)
    (hnormal : memo.RowStatus ≠ .ARCHIVED) (hcreator : ∃ u ∈ s.db.users, u.ID = memo.CreatorID) :
    ∃ message, (svc.GetMemoByShare token s.db).1 = .ok message ∧
      message.Name = buildMemoName memo.UID ∧ message.Content = memo.Content := by
  rcases hshares with ⟨ms, hms, rfl, hactive, hid⟩
  have hshare : svc.memoService.getActiveMemoShare ms.UID s.db = (.ok ms, s.db) := by
    have hfound : internally "failed to get memo share" (getMemoShare { UID := some ms.UID }) s.db =
        (.ok (some ms), s.db) := by
      rw [← h.find hms]
      rfl
    rw [MemoService.getActiveMemoShare, Effect.bind_of_ok hfound]
    dsimp only
    rw [hnow, if_neg (Bool.eq_false_iff.mp hactive)]
    rfl
  rcases @StoreEngine.getMemo_id svc.memoService.engine s.db memo hmemo with ⟨row, hget, rfl⟩
  have hrow : internally "failed to get memo"
      (svc.memoService.engine.getMemo { ID := some ms.MemoID }) s.db = (.ok (some row), s.db) := by
    rw [internally, withStatus, Effect.mapError, ← hid, hget]
    rfl
  rw [ListingService.GetMemoByShare, Effect.bind_of_ok hshare, Effect.bind_of_ok hrow]
  dsimp only
  rw [if_neg hnormal]
  have hreactions : ∃ reactions, internally "failed to list reactions"
      (listReactions { ContentID := some (memoNamePrefix ++ row.UID) }) s.db =
        (.ok reactions, s.db) := ⟨_, rfl⟩
  rcases hreactions with ⟨reactions, hreactions⟩
  have hattachments : ∃ attachments, internally "failed to list attachments"
      (svc.memoService.engine.listAttachments { MemoID := some row.ID }) s.db =
        (.ok attachments, s.db) := by
    rw [internally, withStatus, Effect.mapError, StoreEngine.listAttachments_eq rfl]
    exact ⟨_, rfl⟩
  rcases hattachments with ⟨attachments, hattachments⟩
  rcases @MemoService.exists_batch svc.memoService _ user hserves.current hserves.compile true
    (fun _ => hserves.snippets) s.db [row.toMemo] with ⟨relations, hbatch⟩
  have hrelations : internally "failed to load memo relations"
      (svc.memoService.batchConvertMemoRelations [row.toMemo] true) s.db =
        (.ok relations, s.db) := by
    rw [internally, withStatus, Effect.mapError, hbatch]
    rfl
  have hcreators : withStatus .Unknown
      (fun err => "failed to convert memo: failed to list memo creators: " ++ err)
        (listUsersByID [row.CreatorID]) s.db =
          (.ok (s.db.users.filter fun user => user.ID ∈ [row.CreatorID]), s.db) := rfl
  rw [Effect.bind_of_ok hreactions, Effect.bind_of_ok hattachments, Effect.bind_of_ok hrelations,
    Effect.bind_of_ok hcreators]
  have hknown := @ListingService.listed_creator_iff s.db [row.CreatorID] row List.mem_cons_self
  rcases ListingService.convertMemo_ok hserves.snippets hknown reactions attachments
    (relations row.ID) with ⟨message, hmessage, hshown⟩
  rw [Effect.bind_of_ok hmessage]
  have hhas : ListingService.HasCreator s.db row := hcreator
  simp only [List.filter_cons, hhas, decide_true, if_true, List.filter_nil, List.map_cons,
    List.map_nil] at hshown
  cases message with
  | none => cases hshown
  | some message =>
      have hfields := (List.cons.inj hshown).1
      exact ⟨message, rfl, (Prod.mk.inj hfields).1, (Prod.mk.inj hfields).2⟩

/-! ## The life of a token -/

/-- A run of requests for shares, from a database without any. -/
abbrev ShareRun (db : Tables) (now : ℤ) : List ShareEvent → ShareWorld → Prop :=
  Run ShareWorld.step ShareWorld.Fresh { db := db, now := now }

theorem SharesInv.initial {db : Tables} (hempty : db.memoShares = []) (now : ℤ) :
    SharesInv { db := db, now := now } := by
  have hnone : ∀ ms, ms ∉ db.memoShares := by simp [hempty]
  refine ⟨fun _ h => absurd h List.not_mem_nil, fun _ h => absurd h List.not_mem_nil,
    List.nodup_nil, ?_, fun ms hms => absurd hms (hnone ms)⟩
  rw [hempty]
  exact List.nodup_nil

/-- In every run from a database without shares: what a token shows was granted, by who may change
the memo, and has not expired; a share opens its memo for everybody; a token that is dead, because
its share was revoked or has expired or its memo was deleted, never shows anything again; a
revocation makes it dead; and a token shows the same memo ever after. -/
theorem share_links {db : Tables} (hempty : db.memoShares = []) {now : ℤ} {es : List ShareEvent}
    {s : ShareWorld} (hrun : ShareRun db now es s) :
    (∀ token name, s.Shows token name → ∃ grant, (token, grant) ∈ s.issued ∧
      name = buildMemoName grant.memo.UID ∧ canModifyMemo grant.user grant.memo.toMemo = true ∧
        ∀ ts ∈ grant.ExpiresTs, s.now ≤ ts) ∧
    (∀ (svc : ListingService) user, svc.Serves user → svc.memoService.engine.now = s.now →
      ∀ token, ∀ memo ∈ s.db.memos, s.SharesMemo token memo → memo.RowStatus ≠ .ARCHIVED →
        (∃ u ∈ s.db.users, u.ID = memo.CreatorID) →
          ∃ message, (svc.GetMemoByShare token s.db).1 = .ok message ∧
            message.Name = buildMemoName memo.UID ∧ message.Content = memo.Content) ∧
    (∀ token ∈ s.drawn, ¬s.Alive token → ∀ fs t, Run ShareWorld.step ShareWorld.Fresh s fs t →
      ∀ name, ¬t.Shows token name) ∧
    (∀ svc name, (MemoService.DeleteMemoShare svc name s.db).1 = .ok () →
      ∃ memoUID token, svc.shareTokens name = .ok (memoUID, token) ∧ token ∈ s.drawn ∧
        ∀ t, s.step (.revoke svc name) = some t → ¬t.Alive token) ∧
    ∀ token name, s.Shows token name → ∀ fs t, Run ShareWorld.step ShareWorld.Fresh s fs t →
      ∀ name', t.Shows token name' → name' = name := by
  have hinv : SharesInv s := (share_run hrun (.initial hempty now)).1
  refine ⟨fun token name => hinv.exists_grant, fun svc user hserves hnow token memo hmemo => ?_,
    fun token hdrawn hdead fs t hlater name => ?_, fun svc name hrevoke => ?_,
    fun token name hshows fs t hlater name' => ?_⟩
  · exact hinv.opens hserves hnow hmemo
  · exact (share_run hlater hinv).2.not_shows hinv hdrawn hdead name
  · rcases hinv.revoke (Effect.eq_of_fst hrevoke) with ⟨memoUID, token, htokens, hdrawn, hdead⟩
    refine ⟨memoUID, token, htokens, hdrawn, fun t ht => ?_⟩
    cases ht
    exact hdead
  · rcases share_run hlater hinv with ⟨hinv', hlater⟩
    exact hinv'.shows_unique hlater hinv hshows

/-- Ada shares a memo. -/
def adaGrant : ShareGrant where
  user := { ID := 1, Username := "ada" }
  memo := { ID := 2, UID := "b", CreatorID := 1 }
  ExpiresTs := none

/-- A database with one share. -/
def adaShares : ShareWorld where
  db := StatsService.viewerTables.toTables.insertMemoShare (adaGrant.share "t" 1 0)
  now := 0
  drawn := ["t"]
  issued := [("t", adaGrant)]

private theorem adaShares_run : ShareRun StatsService.viewerTables.toTables 0
    [.grant .plain { Parent := "memos/b" }, .issue .plain adaGrant "t" 1] adaShares := by
  have hgrant : ShareWorld.step { db := StatsService.viewerTables.toTables, now := 0 }
      (.grant .plain { Parent := "memos/b" }) = some
        { db := StatsService.viewerTables.toTables, now := 0, granted := [adaGrant] } := rfl
  have hfresh : ShareWorld.Fresh
      { db := StatsService.viewerTables.toTables, now := 0, granted := [adaGrant] }
        (.issue .plain adaGrant "t" 1) := List.not_mem_nil
  exact .cons trivial hgrant (.cons hfresh rfl (.nil _))

/-- She revokes the share. -/
theorem share_links_revoked : adaShares.Shows "t" "memos/b" ∧
    ∃ t, adaShares.step (.revoke .plain "memos/b/shares/t") = some t ∧ ¬t.Alive "t" := by
  rcases share_links rfl adaShares_run with ⟨-, hopens, -, hrevoke, -⟩
  have hmemo : ({ ID := 2, UID := "b", CreatorID := 1 } : Memo) ∈ adaShares.db.memos :=
    List.mem_cons_of_mem _ List.mem_cons_self
  rcases hopens ListingService.annListing _ ListingService.serves_annListing rfl "t" _ hmemo
    ⟨_, List.mem_cons_self, rfl, rfl, rfl⟩ (by decide)
      ⟨{ ID := 1, Username := "ann" }, List.mem_cons_self, rfl⟩ with ⟨message, hopen, hname, -⟩
  have hshows : adaShares.Shows "t" message.Name := .memo rfl hopen
  rw [hname] at hshows
  refine ⟨hshows, _, rfl, ?_⟩
  rcases hrevoke .plain "memos/b/shares/t" rfl with ⟨memoUID, token, htokens, -, hdead⟩
  cases htokens
  exact hdead _ rfl

end Api
end MemosNote
