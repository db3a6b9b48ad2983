import MemosNote.Api.CommentThreads
import MemosNote.Api.MemoListing
import MemosNote.Api.NilDereference
import MemosNote.Api.RequestOrder
import MemosNote.FileServer.AttachmentPermission

/-!
# The requests that show something of a memo

Besides the memo itself, its reactions, its attachments and their files, the comments of another
memo and the relations of another memo show something of a memo.  Each request makes its own check.

Main results:

- Theorem {lit}`getMemo_iff`: who fetches a memo.
- Theorem {lit}`read_paths`: who is shown something of a memo, and when nobody is who does not fetch
  it.
-/

namespace MemosNote
namespace Api

open Library Store FileServer

/-! ## Requests -/

namespace MemoService

variable (svc : MemoService)

/-- Private memos are for their creators and administrators, protected ones for all users. -/
def checkVisibility (failed : String → String) (memo : Memo) : Except Failure Unit :=
  if memo.Visibility = .Public then .ok ()
  else
    match svc.fetchCurrentUser with
    | .error err => .error (.status .Internal (failed err))
    | .ok none => .error (.status .Unauthenticated "user not authenticated")
    | .ok (some user) =>
        if memo.Visibility = .Private ∧ memo.CreatorID ≠ user.ID ∧ !isSuperUser user then
          .error (.status .PermissionDenied "permission denied")
        else .ok ()

private theorem checkAttachmentsAccess_eq (memo : Memo) :
    svc.checkAttachmentsAccess memo = svc.checkVisibility ("failed to get user: " ++ ·) memo :=
  rfl

def listMemoReactions (name : String) : ApiM (List ReactionMessage) := do
  let memo ← svc.requireMemo name fun err => .status .Internal ("failed to get memo: " ++ err)
  Effect.ofExcept (svc.checkVisibility (fun _ => "failed to get user") memo.toMemo)
  let reactions ← internally "failed to list reactions" (listReactions { ContentID := some name })
  internally "failed to convert reactions" (convertReactionsFromStoreWithCreators reactions [])

/-- The current user; an error counts as nobody. -/
def attachmentReader : Option User :=
  svc.fetchCurrentUser.toOption.join

def checkAttachmentAccess (attachment : Attachment) : ApiM Unit :=
  match attachment.MemoID with
  | none =>
      match svc.attachmentReader with
      | none => Effect.fail (.status .Unauthenticated "user not authenticated")
      | some user =>
          if attachment.CreatorID ≠ user.ID ∧ !isSuperUser user then
            Effect.fail (.status .PermissionDenied "permission denied")
          else pure ()
  | some memoID => do
      let found ← withStatus .Internal ("failed to get memo: " ++ ·)
        (svc.engine.getMemo { ID := some memoID })
      match found with
      | none => Effect.fail (.status .NotFound "memo not found")
      | some memo =>
          if memo.Visibility = .Public then pure ()
          else
            match svc.attachmentReader with
            | none => Effect.fail (.status .Unauthenticated "user not authenticated")
            | some user =>
                if memo.Visibility = .Private ∧ memo.CreatorID ≠ user.ID ∧ !isSuperUser user then
                  Effect.fail (.status .PermissionDenied "permission denied")
                else pure ()

def GetAttachment (name : String) : ApiM AttachmentMessage := do
  let attachmentUID ← Effect.ofExcept ((svc.extractAttachmentUIDFromName name).mapError fun err =>
    .status .InvalidArgument ("invalid attachment id: " ++ err))
  let found ← withStatus .Internal ("failed to get attachment: " ++ ·)
    (svc.engine.getAttachment { UID := some attachmentUID })
  match found with
  | none => Effect.fail (.status .NotFound "attachment not found")
  | some attachment => do
      svc.checkAttachmentAccess attachment
      Effect.read fun db => convertAttachmentFromStore db attachment

end MemoService

structure ListMemoCommentsRequest where
  Name : String
  PageSize : ℤ := 0
  PageToken : String := ""
deriving DecidableEq, Repr

structure ListMemoCommentsResponse where
  Memos : List ListedMemo := []
  NextPageToken : String := ""
deriving DecidableEq, Repr

namespace ListingService

variable (svc : ListingService)

/-- The comments on a memo between memos that the user may see. -/
def commentsFind (memoID : ℤ) (user : Option User) : FindMemoRelation where
  RelatedMemoID := some memoID
  RelationType := some .Comment
  MemoFilter := some (visibleMemos user)

/-- A page of the comments on a memo, with the token of the next page. -/
def commentRows (memoID : ℤ) (user : Option User) (limit offset : ℕ) :
    ApiM (List MemoRelation × String) := do
  let relations ← internally "failed to list memo relations"
    (svc.memoService.engine.listMemoRelations { commentsFind memoID user with
      Limit := some (limit + 1 : ℕ), Offset := some (offset : ℤ) })
  if relations.length = limit + 1 then
    let token ← Effect.ofExcept ((svc.format.getPageToken limit (offset + limit)).mapError
      fun err => .status .Internal ("failed to get next page token, error: " ++ err))
    pure (relations.take limit, token)
  else pure (relations, "")

def ListMemoComments (request : ListMemoCommentsRequest) : ApiM ListMemoCommentsResponse := do
  let memo ← svc.memoService.requireMemo request.Name fun _ =>
    .status .Internal "failed to get memo"
  Effect.ofExcept (svc.memoService.checkMemoReadAccess memo.toMemo)
  let currentUser ← Effect.ofExcept (svc.memoService.fetchCurrentUser.mapError fun _ =>
    .status .Internal "failed to get user")
  let (limit, offset) ← Effect.ofExcept
    (svc.pageOf { PageSize := request.PageSize, PageToken := request.PageToken })
  let (relations, token) ← svc.commentRows memo.ID currentUser limit offset
  if relations = [] then pure { NextPageToken := token }
  else
    let memos ← internally "failed to list memos"
      (svc.memoService.engine.listMemos { IDList := relations.map MemoRelation.MemoID })
    let messages ← svc.memoMessages memos
    pure { Memos := messages, NextPageToken := token }

end ListingService

/-! ## Who fetches a memo -/

namespace ListingService

variable {svc : ListingService} {user : Option User} {db : Tables}

/-- The memo that a memo comments on can be read too. -/
def ParentReadable (user : Option User) (db : Tables) (row : FoundMemo) : Prop :=
  ∀ uid ∈ row.ParentUID, ∃ parent ∈ db.memos, parent.UID = uid ∧
    (parent.RowStatus = .ARCHIVED → ∃ u ∈ user, parent.CreatorID = u.ID) ∧ SeenBy user parent

private theorem checkParentReadAccess_iff (h : svc.Serves user) (row : FoundMemo) :
    svc.memoService.checkParentReadAccess row db = (.ok (), db) ↔ ParentReadable user db row := by
  rw [MemoService.checkParentReadAccess, ParentReadable]
  cases hparent : row.ParentUID with
  | none => exact ⟨fun _ uid huid => absurd huid (Option.not_mem_none uid), fun _ => rfl⟩
  | some uid =>
      rcases MemoService.getMemo_uid_eq svc.memoService.engine db uid with ⟨found, hget, hfind⟩
      have hquery : internally "failed to get parent memo"
          (svc.memoService.engine.getMemo { UID := some uid }) db = (.ok found, db) := by
        rw [internally, withStatus, Effect.mapError, hget]
        rfl
      dsimp only
      rw [Effect.bind_of_ok hquery]
      cases found with
      | none =>
          refine ⟨fun hfail => ?_, fun hreadable => ?_⟩
          · cases hfail
          · rcases hreadable uid rfl with ⟨parent, hmem, huid, -⟩
            exact absurd (decide_eq_true huid) (List.find?_eq_none.mp hfind.symm parent hmem)
      | some parent =>
          have hmem := List.mem_of_find?_eq_some hfind.symm
          have huid : parent.UID = uid := by simpa using List.find?_some hfind.symm
          have haccess : (Effect.ofExcept (svc.memoService.checkMemoReadAccess parent.toMemo) :
              ApiM Unit) db = (.ok (), db) ↔
                svc.base.checkMemoReadAccess parent.toMemo = .ok () := by
            change (Effect.ofExcept (svc.base.checkMemoReadAccess parent.toMemo) :
              ApiM Unit) db = (.ok (), db) ↔ _
            cases svc.base.checkMemoReadAccess parent.toMemo with
            | ok _ => exact iff_of_true rfl rfl
            | error err =>
                constructor
                · intro hfail
                  cases hfail
                · intro hfail
                  cases hfail
          rw [haccess, checkMemoReadAccess_iff h]
          constructor
          · intro hreads uid' huid'
            rcases Option.some.inj huid' with rfl
            exact ⟨parent.toMemo, hmem, huid, hreads⟩
          · intro hreadable
            rcases hreadable uid rfl with ⟨parent', hmem', huid', hreads⟩
            rw [db.eq_of_memoUID_eq hmem hmem' (huid.trans huid'.symm)]
            exact hreads

/-- The memo passes the checks of a request for it. -/
def Reads (user : Option User) (db : Tables) (row : FoundMemo) : Prop :=
  (row.RowStatus = .ARCHIVED → ∃ u ∈ user, row.CreatorID = u.ID) ∧ SeenBy user row.toMemo ∧
    ParentReadable user db row

/-- The memo of a name is found. -/
theorem requireMemo_eq {row : FoundMemo} (hname : UIDMatcher row.UID = true)
    (hrow : svc.memoService.engine.getMemo { UID := some row.UID } db = (.ok (some row), db))
    (queryFailed : String → Failure) :
    svc.memoService.requireMemo (buildMemoName row.UID) queryFailed db = (.ok row, db) := by
  have huid : svc.memoService.memoUIDOfName (buildMemoName row.UID) db = (.ok row.UID, db) := by
    rw [MemoService.memoUIDOfName, MemoService.extractMemoUIDFromName_buildMemoName hname]
    rfl
  have hquery : (svc.memoService.engine.getMemo { UID := some row.UID }).mapError queryFailed db =
      (.ok (some row), db) := by
    rw [Effect.mapError, hrow]
    rfl
  rw [MemoService.requireMemo, Effect.bind_of_ok huid, MemoService.findMemo,
    Effect.bind_of_ok hquery]
  rfl

theorem listedAttachments_eq (id : ℤ) :
    internally "failed to list attachments"
      (svc.memoService.engine.listAttachments { MemoID := some id }) db =
        (.ok (svc.memoService.engine.listedAttachments db id), db) := by
  rw [internally, withStatus, Effect.mapError, StoreEngine.listAttachments_memo]
  rfl

/-- The relations of a memo can be loaded. -/
theorem exists_relations (h : svc.Serves user) (memo : Memo) :
    ∃ relations, withStatus .Unknown (fun err => "failed to load memo relations: " ++ err)
      (svc.memoService.loadMemoRelations memo) db = (.ok relations, db) := by
  rcases @MemoService.exists_batch svc.memoService _ user h.current h.compile true
    (fun _ => h.snippets) db [memo] with ⟨relations, hbatch⟩
  refine ⟨relations memo.ID, ?_⟩
  rw [withStatus, Effect.mapError, MemoService.loadMemoRelations_eq_batch,
    Effect.bind_of_ok hbatch]
  rfl

private theorem convertMemoFromStore_ok_iff (h : svc.Serves user) (row : FoundMemo)
    (attachments : List Attachment) (relations : List RelationMessage) :
    (∃ message, svc.memoService.convertMemoFromStore db row.toMemo attachments relations =
      .ok message) ↔ HasCreator db row := by
  have hsome : (db.users.find? fun user => user.ID = row.CreatorID).isNone = false ↔
      HasCreator db row := by
    rw [← Option.not_isSome, Bool.not_eq_false', List.find?_isSome, HasCreator]
    simp
  rw [MemoService.convertMemoFromStore, ← hsome]
  rcases h.snippets row.Content with ⟨snippet, hsnippet⟩
  have hcontent : svc.memoService.getMemoContentSnippet row.Content = .ok snippet := by
    change (svc.base.generateSnippet row.Content).mapError _ = _
    rw [hsnippet]
    rfl
  rw [hcontent]
  cases (db.users.find? fun user => user.ID = row.CreatorID).isNone with
  | true => simp
  | false => simp

/-- Who fetches a memo: who passes the checks, as long as the creator exists. -/
theorem getMemo_iff (h : svc.Serves user) {row : FoundMemo} (hname : UIDMatcher row.UID = true)
    (hrow : svc.memoService.engine.getMemo { UID := some row.UID } db = (.ok (some row), db)) :
    (∃ message, (svc.memoService.getMemo (buildMemoName row.UID) db).1 = .ok message) ↔
      Reads user db row ∧ HasCreator db row := by
  rcases @exists_relations svc user db h row.toMemo with ⟨relations, hrelations⟩
  rw [MemoService.getMemo, Effect.bind_of_ok (requireMemo_eq hname hrow _), Reads, ← and_assoc,
    ← checkMemoReadAccess_iff h row.toMemo, ← checkParentReadAccess_iff h row,
    ← convertMemoFromStore_ok_iff h row (svc.memoService.engine.listedAttachments db row.ID)
      relations]
  constructor
  · intro hfetched
    rcases hfetched with ⟨message, hok⟩
    rcases Effect.ok_of_read_bind (fun _ => Effect.Keeps.ofExcept _) (Effect.eq_of_fst hok) with
      ⟨_, haccess, hparent⟩
    rcases Effect.ok_of_read_bind (fun _ => MemoService.checkParentReadAccess_keeps row) hparent
      with ⟨_, hchecked, hlist⟩
    rw [Effect.bind_of_ok (listedAttachments_eq row.ID), Effect.bind_of_ok hrelations] at hlist
    refine ⟨⟨(Effect.ok_of_ofExcept haccess).1, hchecked⟩, ?_⟩
    have hconverted := (Effect.ok_of_ofExcept hlist).1
    dsimp only [id] at hconverted
    cases hresult : svc.memoService.convertMemoFromStore db row.toMemo
        (svc.memoService.engine.listedAttachments db row.ID) relations with
    | ok converted => exact ⟨converted, rfl⟩
    | error err =>
        rw [hresult] at hconverted
        cases hconverted
  · intro hreads
    rcases hreads with ⟨⟨haccess, hparent⟩, message, hconvert⟩
    have hread : (Effect.ofExcept (svc.memoService.checkMemoReadAccess row.toMemo) : ApiM Unit) db =
        (.ok (), db) := by
      change (Effect.ofExcept (svc.base.checkMemoReadAccess row.toMemo) : ApiM Unit) db = _
      rw [haccess]
      rfl
    rw [Effect.bind_of_ok hread, Effect.bind_of_ok hparent,
      Effect.bind_of_ok (listedAttachments_eq row.ID), Effect.bind_of_ok hrelations]
    refine ⟨message, ?_⟩
    simp only [Effect.read_bind, id, hconvert]
    rfl

/-! ## The comments of a memo -/

/-- All comments on a memo that the user may see. -/
def commentRelations (user : Option User) (db : Tables) (memoID : ℤ) : List MemoRelation :=
  SameButTimes.selectRelations (commentsFind memoID user)
    (fun _ memo => decide (SeenBy user memo)) db

/-- One comment more than the page tells whether there is a next page. -/
theorem commentRows_eq (h : svc.Serves user) (memoID : ℤ) (limit offset : ℕ) :
    svc.commentRows memoID user limit offset db =
      if offset + limit < (commentRelations user db memoID).length then
        match svc.format.getPageToken limit (offset + limit) with
        | .error err =>
            (.error (.status .Internal ("failed to get next page token, error: " ++ err)), db)
        | .ok token => (.ok (Page.page offset limit (commentRelations user db memoID), token), db)
      else (.ok (Page.page offset limit (commentRelations user db memoID), ""), db) := by
  have hlist : internally "failed to list memo relations"
      (svc.memoService.engine.listMemoRelations { commentsFind memoID user with
        Limit := some ((limit + 1 : ℕ) : ℤ), Offset := some (offset : ℤ) }) db =
      (.ok (Page.page offset (limit + 1) (commentRelations user db memoID)), db) := by
    rw [internally, withStatus, Effect.mapError,
      SameButTimes.listMemoRelations_filtered _ rfl, h.compile]
    exact congrArg (fun rows => (Except.ok rows, db)) (limitRows_natCast (limit + 1) offset _)
  rw [commentRows, Effect.bind_of_ok hlist]
  by_cases hnext : offset + limit < (commentRelations user db memoID).length
  · rw [if_pos (Page.length_page_succ_iff.mpr hnext), if_pos hnext, Page.take_page_succ]
    cases svc.format.getPageToken limit (offset + limit) <;> rfl
  · rw [if_neg fun h => hnext (Page.length_page_succ_iff.mp h), if_neg hnext,
      Page.page_succ_of_le (Nat.not_lt.mp hnext)]
    rfl

theorem mem_commentRelations {memoID : ℤ} {r : MemoRelation} :
    r ∈ commentRelations user db memoID ↔
      MemoService.Visible (fun _ memo => decide (SeenBy user memo)) db r ∧
        r.RelatedMemoID = memoID ∧ r.RelationType = .Comment := by
  rw [commentRelations, MemoService.mem_selectRelations rfl]
  simp [FindMemoRelation.matchesRelation, commentsFind]

/-- The memos of comments. -/
def commentMemos (db : Tables) (relations : List MemoRelation) : List FoundMemo :=
  if relations = [] then []
  else db.selectMemos { IDList := relations.map MemoRelation.MemoID } []

theorem mem_commentMemos {relations : List MemoRelation} {row : FoundMemo}
    (h : row ∈ commentMemos db relations) :
    row.toMemo ∈ db.memos ∧ row ∈ db.joinMemo row.toMemo ∧
      ∃ r ∈ relations, r.MemoID = row.ID := by
  rw [commentMemos] at h
  split_ifs at h with hempty
  · cases h
  · rcases (Tables.mem_selectMemos rfl).mp h with ⟨memo, hmemo, joined, hjoined, hmatches, -, rfl⟩
    have htoMemo := Tables.toMemo_of_mem_joinMemo hjoined
    have hproject : ({ IDList := relations.map MemoRelation.MemoID } : FindMemo).project joined =
        joined := rfl
    have hid : joined.ID ∈ relations.map MemoRelation.MemoID := by
      simpa [FindMemo.matchesMemo, hempty] using hmatches
    rw [hproject]
    exact ⟨htoMemo ▸ hmemo, htoMemo.symm ▸ hjoined, List.mem_map.mp hid⟩

/-- The response with the memos of a page of comments. -/
theorem ListMemoComments_rows (h : svc.Serves user) {request : ListMemoCommentsRequest}
    {parent : FoundMemo}
    (hrequire : svc.memoService.requireMemo request.Name
      (fun _ => .status .Internal "failed to get memo") db = (.ok parent, db))
    (haccess : svc.base.checkMemoReadAccess parent.toMemo = .ok ()) {limit offset : ℕ}
    (hpage : svc.pageOf { PageSize := request.PageSize, PageToken := request.PageToken } =
      .ok (limit, offset)) {relations : List MemoRelation} {token : String}
    (hrows : svc.commentRows parent.ID user limit offset db = (.ok (relations, token), db)) :
    ∃ messages, svc.ListMemoComments request db =
        (.ok { Memos := messages, NextPageToken := token }, db) ∧
      messages.map (fun m => (m.Name, m.Content)) = shown db (commentMemos db relations) := by
  have hcurrent : svc.memoService.fetchCurrentUser = .ok user := h.current
  have hread : svc.memoService.checkMemoReadAccess parent.toMemo = .ok () := haccess
  rw [ListMemoComments, Effect.bind_of_ok hrequire, hread, hcurrent, hpage]
  simp only [Except.mapError, Effect.ofExcept, Effect.pure_bind]
  rw [Effect.bind_of_ok hrows, commentMemos]
  dsimp only
  split_ifs with hempty
  · exact ⟨[], rfl, rfl⟩
  · have hlist : internally "failed to list memos"
        (svc.memoService.engine.listMemos { IDList := relations.map MemoRelation.MemoID }) db =
        (.ok (db.selectMemos { IDList := relations.map MemoRelation.MemoID } []), db) := by
      rw [internally, withStatus, Effect.mapError, StoreEngine.listMemos_eq rfl]
      rfl
    rcases memoMessages_ok h db (db.selectMemos { IDList := relations.map MemoRelation.MemoID } [])
      with ⟨messages, hmessages, hshown⟩
    rw [Effect.bind_of_ok hlist, Effect.bind_of_ok hmessages]
    exact ⟨messages, rfl, hshown⟩

private theorem commentRows_ok (h : svc.Serves user) {memoID : ℤ} {limit offset : ℕ}
    {relations : List MemoRelation} {token : String} {t : Tables}
    (hrows : svc.commentRows memoID user limit offset db = (.ok (relations, token), t)) :
    t = db ∧ relations = Page.page offset limit (commentRelations user db memoID) := by
  rw [commentRows_eq h] at hrows
  split_ifs at hrows
  · cases htoken : svc.format.getPageToken limit (offset + limit) with
    | error err =>
        rw [htoken] at hrows
        cases hrows
    | ok next =>
        rw [htoken] at hrows
        cases hrows
        exact ⟨rfl, rfl⟩
  · cases hrows
    exact ⟨rfl, rfl⟩

/-- The service that serves a user fetches this user. -/
theorem Serves.eq_of_fetched (h : svc.Serves user) {failed : String → Failure}
    {user' : Option User}
    (hcurrent : svc.memoService.fetchCurrentUser.mapError failed = .ok user') : user' = user := by
  have hbase : svc.memoService.fetchCurrentUser = .ok user := h.current
  rw [hbase] at hcurrent
  exact (Except.ok.inj hcurrent).symm

/-- The comments of a response are a page of those that the user may see. -/
theorem ListMemoComments_page (h : svc.Serves user) {request : ListMemoCommentsRequest}
    {response : ListMemoCommentsResponse}
    (hresponse : (svc.ListMemoComments request db).1 = .ok response) :
    ∃ (parent : FoundMemo) (limit offset : ℕ), parent.toMemo ∈ db.memos ∧
      svc.base.checkMemoReadAccess parent.toMemo = .ok () ∧
      response.Memos.map (fun m => (m.Name, m.Content)) =
        shown db (commentMemos db
          (Page.page offset limit (commentRelations user db parent.ID))) := by
  have hok := Effect.eq_of_fst hresponse
  rw [ListMemoComments] at hok
  rcases Effect.ok_of_read_bind (fun _ => MemoService.requireMemo_keeps _ _) hok with
    ⟨parent, hrequire, haccess⟩
  rcases MemoService.requireMemo_ok hrequire with ⟨-, -, hmem, -⟩
  rcases Effect.ok_of_read_bind (fun _ => Effect.Keeps.ofExcept _) haccess with
    ⟨_, hread, huser⟩
  rcases Effect.ok_of_read_bind (fun _ => Effect.Keeps.ofExcept _) huser with
    ⟨user', hcurrent, hpage⟩
  have hsame := h.eq_of_fetched (Effect.ok_of_ofExcept hcurrent).1
  subst hsame
  rcases Effect.ok_of_read_bind (fun _ => Effect.Keeps.ofExcept _) hpage with
    ⟨⟨limit, offset⟩, hpageOf, hlist⟩
  rcases Effect.ok_of_bind hlist with ⟨⟨relations, token⟩, t, hrows, -⟩
  rcases commentRows_ok h hrows with ⟨rfl, hpageRows⟩
  rcases ListMemoComments_rows h hrequire (Effect.ok_of_ofExcept hread).1
    (Effect.ok_of_ofExcept hpageOf).1 hrows with ⟨messages, hrun, hshown⟩
  rw [hrun] at hresponse
  rcases Except.ok.inj hresponse with rfl
  rw [hpageRows] at hshown
  exact ⟨parent, limit, offset, hmem, (Effect.ok_of_ofExcept hread).1, hshown⟩

/-! ## Who is shown something of a memo -/

/-- A request that shows something of a memo besides the memo itself: its attachments and reactions,
an attachment of it and the file of one, the comments on a memo and the relations of a memo. -/
inductive ReadPath where
  | attachments
  | reactions
  | attachment (name : String) (attachment : Attachment)
  | file (request : AttachmentRequest) (attachment : Attachment)
  | comments (request : ListMemoCommentsRequest)
  | relations (name : String)

/-- The request succeeds for the user, and what it answers with is of the memo. -/
def Shows (svc : ListingService) (user : Option User) (db : Tables) (memo : Memo) :
    ReadPath → Prop
  | .attachments =>
      ∃ list, (svc.memoService.listMemoAttachments (buildMemoName memo.UID) db).1 = .ok list
  | .reactions =>
      ∃ list, (svc.memoService.listMemoReactions (buildMemoName memo.UID) db).1 = .ok list
  | .attachment name attachment =>
      attachment ∈ db.attachments ∧ attachment.MemoID = some memo.ID ∧
        svc.memoService.extractAttachmentUIDFromName name = .ok attachment.UID ∧
          ∃ message, (svc.memoService.GetAttachment name db).1 = .ok message
  | .file request attachment =>
      attachment ∈ db.attachments ∧ attachment.MemoID = some memo.ID ∧
        request.currentUser = .ok user ∧ request.shareToken = "" ∧
          (request.checkAttachmentPermission attachment db).1 = .ok ()
  | .comments request =>
      ∃ response, (svc.ListMemoComments request db).1 = .ok response ∧
        buildMemoName memo.UID ∈ response.Memos.map fun m => m.Name
  | .relations name =>
      ∃ list, (svc.memoService.listMemoRelations name db).1 = .ok list ∧ ∃ r ∈ list,
        ∃ shown ∈ [r.Memo, r.RelatedMemo], shown.map RelationMemo.Name =
          some (buildMemoName memo.UID)

/-- The user is no administrator. -/
def Ordinary (user : Option User) : Prop :=
  ∀ u ∈ user, isSuperUser u = false

/-- The visibility check passes for who sees the memo. -/
theorem checkVisibility_iff (h : svc.Serves user) (hordinary : Ordinary user)
    (failed : String → String) (memo : Memo) :
    svc.memoService.checkVisibility failed memo = .ok () ↔ SeenBy user memo := by
  have hcurrent : svc.memoService.fetchCurrentUser = .ok user := h.current
  rw [MemoService.checkVisibility, hcurrent]
  cases user with
  | none => cases hvisibility : memo.Visibility <;> simp [SeenBy, hvisibility]
  | some user =>
      have hadmin := hordinary user rfl
      by_cases hcreator : memo.CreatorID = user.ID
      · cases hvisibility : memo.Visibility <;>
          simp [SeenBy, Filter.VisibleTo, hcreator, hvisibility]
      · cases hvisibility : memo.Visibility <;>
          simp [SeenBy, Filter.VisibleTo, hcreator, hvisibility, hadmin]

/-- Who gets the list of the attachments. -/
theorem attachments_iff (h : svc.Serves user) (hordinary : Ordinary user) {row : FoundMemo}
    (hname : UIDMatcher row.UID = true)
    (hrow : svc.memoService.engine.getMemo { UID := some row.UID } db = (.ok (some row), db)) :
    (∃ list, (svc.memoService.listMemoAttachments (buildMemoName row.UID) db).1 = .ok list) ↔
      SeenBy user row.toMemo := by
  rw [MemoService.listMemoAttachments, Effect.bind_of_ok (requireMemo_eq hname hrow _),
    MemoService.checkAttachmentsAccess_eq,
    ← checkVisibility_iff h hordinary ("failed to get user: " ++ ·)]
  have hlist : withStatus .Internal (fun err => "failed to list attachments: " ++ err)
      (svc.memoService.engine.listAttachments { MemoID := some row.ID }) db =
        (.ok (svc.memoService.engine.listedAttachments db row.ID), db) := by
    rw [withStatus, Effect.mapError, StoreEngine.listAttachments_memo]
    rfl
  cases svc.memoService.checkVisibility ("failed to get user: " ++ ·) row.toMemo with
  | error err => simp [Effect.ofExcept, Effect.fail, bind]
  | ok _ =>
      rw [Effect.ofExcept, Effect.pure_bind, Effect.bind_of_ok hlist]
      exact iff_of_true ⟨_, rfl⟩ rfl

/-- Who gets the list of the reactions. -/
theorem reactions_iff (h : svc.Serves user) (hordinary : Ordinary user) {row : FoundMemo}
    (hname : UIDMatcher row.UID = true)
    (hrow : svc.memoService.engine.getMemo { UID := some row.UID } db = (.ok (some row), db)) :
    (∃ list, (svc.memoService.listMemoReactions (buildMemoName row.UID) db).1 = .ok list) ↔
      SeenBy user row.toMemo := by
  rw [MemoService.listMemoReactions, Effect.bind_of_ok (requireMemo_eq hname hrow _),
    ← checkVisibility_iff h hordinary fun _ => "failed to get user"]
  have hlist : internally "failed to list reactions"
      (listReactions { ContentID := some (buildMemoName row.UID) }) db =
        (.ok ((db.reactions.filter ({ ContentID := some (buildMemoName row.UID) } :
          FindReaction).matchesReaction).insertionSort fun a b => a.ID ≤ b.ID), db) := rfl
  cases svc.memoService.checkVisibility (fun _ => "failed to get user") row.toMemo with
  | error err => simp [Effect.ofExcept, Effect.fail, bind]
  | ok _ =>
      rw [Effect.ofExcept, Effect.pure_bind, Effect.bind_of_ok hlist]
      refine iff_of_true ?_ rfl
      rcases convertReactions_ok _ [] db with ⟨messages, hmessages⟩
      refine ⟨messages, ?_⟩
      rw [internally, withStatus, Effect.mapError, hmessages]
      rfl

private theorem checkAttachmentAccess_iff (h : svc.Serves user) (hordinary : Ordinary user)
    {memo : Memo}
    (hmemo : memo ∈ db.memos) {a : Attachment} (hlinked : a.MemoID = some memo.ID) :
    (svc.memoService.checkAttachmentAccess a db).1 = .ok () ↔ SeenBy user memo := by
  rcases @StoreEngine.getMemo_id svc.memoService.engine db memo hmemo with ⟨row, hget, rfl⟩
  have hquery : withStatus .Internal (fun err => "failed to get memo: " ++ err)
      (svc.memoService.engine.getMemo { ID := some row.ID }) db = (.ok (some row), db) := by
    rw [withStatus, Effect.mapError, hget]
    rfl
  have hreader : svc.memoService.attachmentReader = user := by
    have hcurrent : svc.memoService.fetchCurrentUser = .ok user := h.current
    rw [MemoService.attachmentReader, hcurrent]
    rfl
  rw [MemoService.checkAttachmentAccess, hlinked]
  dsimp only
  rw [Effect.bind_of_ok hquery, hreader]
  dsimp only
  cases user with
  | none => cases hvisibility : row.Visibility <;> simp [SeenBy, hvisibility, Effect.fail, pure]
  | some user =>
      have hadmin := hordinary user rfl
      by_cases hcreator : row.CreatorID = user.ID
      · cases hvisibility : row.Visibility <;>
          simp [SeenBy, Filter.VisibleTo, hcreator, hvisibility, pure]
      · cases hvisibility : row.Visibility <;>
          simp [SeenBy, Filter.VisibleTo, hcreator, hvisibility, hadmin, Effect.fail, pure]

/-- Who gets an attachment of the memo. -/
theorem attachment_iff (h : svc.Serves user) (hordinary : Ordinary user) {memo : Memo}
    (hmemo : memo ∈ db.memos) {a : Attachment} (ha : a ∈ db.attachments)
    (hlinked : a.MemoID = some memo.ID) {name : String}
    (hname : svc.memoService.extractAttachmentUIDFromName name = .ok a.UID) :
    (∃ message, (svc.memoService.GetAttachment name db).1 = .ok message) ↔ SeenBy user memo := by
  have hget : withStatus .Internal (fun err => "failed to get attachment: " ++ err)
      (svc.memoService.engine.getAttachment { UID := some a.UID }) db = (.ok (some a), db) := by
    rw [withStatus, Effect.mapError, MemoService.getAttachment_of_mem ha]
    rfl
  rw [← checkAttachmentAccess_iff h hordinary hmemo hlinked, MemoService.GetAttachment, hname]
  simp only [Except.mapError, Effect.ofExcept, Effect.pure_bind]
  rw [Effect.bind_of_ok hget]
  dsimp only
  cases haccess : (svc.memoService.checkAttachmentAccess a db).1 with
  | error err =>
      rw [Effect.bind_of_error (Effect.eq_of_fst haccess)]
      constructor
      · rintro ⟨_, hfail⟩
        cases hfail
      · intro hfail
        cases hfail
  | ok _ =>
      rw [Effect.bind_of_ok (Effect.eq_of_fst haccess)]
      exact iff_of_true ⟨_, rfl⟩ rfl

/-- Who gets the file of an attachment of the memo. -/
theorem file_iff (hordinary : Ordinary user) {memo : Memo} (hmemo : memo ∈ db.memos)
    {a : Attachment} (hlinked : a.MemoID = some memo.ID) {request : AttachmentRequest}
    (hcurrent : request.currentUser = .ok user) (htoken : request.shareToken = "") :
    (request.checkAttachmentPermission a db).1 = .ok () ↔ SeenBy user memo := by
  have hshared : request.sharedBy memo.ID db ≠ true := by
    rw [AttachmentRequest.sharedBy, htoken]
    simp
  rw [AttachmentRequest.checkAttachmentPermission_linked_iff hmemo hlinked, hcurrent]
  cases user with
  | none => simp [SeenBy, hshared]
  | some user =>
      have hadmin : user.Role ≠ .ADMIN := by simpa [isSuperUser] using hordinary user rfl
      cases hvisibility : memo.Visibility <;>
        simp [SeenBy, Filter.VisibleTo, hvisibility, hshared, hadmin, @eq_comm _ memo.CreatorID]

/-- The name of a memo that the user sees. -/
def SeenName (user : Option User) (db : Tables) (name : String) : Prop :=
  ∃ memo ∈ db.memos, SeenBy user memo ∧ name = buildMemoName memo.UID

private theorem comments_seen (h : svc.Serves user) {request : ListMemoCommentsRequest}
    {response : ListMemoCommentsResponse}
    (hresponse : (svc.ListMemoComments request db).1 = .ok response) {name : String}
    (hname : name ∈ response.Memos.map fun m => m.Name) : SeenName user db name := by
  rcases ListMemoComments_page h hresponse with ⟨parent, limit, offset, -, -, hshown⟩
  have hnames : response.Memos.map (fun m => m.Name) = (shown db (commentMemos db
      (Page.page offset limit (commentRelations user db parent.ID)))).map Prod.fst := by
    rw [← hshown, List.map_map]
    rfl
  rw [hnames, shown, List.map_map] at hname
  rcases List.mem_map.mp hname with ⟨row, hrow, rfl⟩
  rcases mem_commentMemos (List.mem_filter.mp hrow).1 with ⟨hmem, -, r, hr, hid⟩
  have hvisible := (mem_commentRelations.mp (List.mem_of_mem_drop (List.mem_of_mem_take hr))).1
  rcases hvisible.source with ⟨m, hm, hmid, hseen⟩
  rw [db.eq_of_memoID_eq hm hmem (hmid.trans hid)] at hseen
  exact ⟨row.toMemo, hmem, of_decide_eq_true hseen, rfl⟩

theorem relationEnd_seen {failed snippetFailed : String} {id : ℤ} {t : Tables} {m : RelationMemo}
    (hend : svc.memoService.relationEnd failed snippetFailed id db = (.ok m, t))
    (hseen : ∃ memo ∈ db.memos, memo.ID = id ∧ decide (SeenBy user memo) = true) :
    SeenName user db m.Name := by
  rw [MemoService.relationEnd] at hend
  rcases Effect.ok_of_bind hend with ⟨found, t', hget, hrest⟩
  have hquery := Effect.ok_of_mapError hget
  rcases hseen with ⟨memo, hmemo, rfl, hseen⟩
  rcases @StoreEngine.getMemo_id svc.memoService.engine db memo hmemo with ⟨row, hrow, rfl⟩
  rw [hrow] at hquery
  cases hquery
  rw [dereference_some_bind] at hrest
  rcases Effect.ok_of_bind hrest with ⟨snippet, t'', -, hvalue⟩
  cases hvalue
  exact ⟨row.toMemo, hmemo, of_decide_eq_true hseen, rfl⟩

/-- The memos of relations that are converted are memos that the user sees. -/
theorem convertMemoRelations_seen {relations : List MemoRelation} {t : Tables}
    {list : List RelationMessage}
    (hvisible : ∀ r ∈ relations,
      MemoService.Visible (fun _ memo => decide (SeenBy user memo)) db r)
    (h : svc.memoService.convertMemoRelationsFromStore relations db = (.ok list, t)) :
    ∀ r ∈ list, ∀ side ∈ [r.Memo, r.RelatedMemo], ∃ m, side = some m ∧ SeenName user db m.Name := by
  induction relations generalizing list t with
  | nil =>
      cases h
      exact fun r hr => absurd hr List.not_mem_nil
  | cons r rest ih =>
      rw [MemoService.convertMemoRelationsFromStore] at h
      rcases Effect.ok_of_read_bind (fun _ => Effect.Keeps.mapError
        ((MemoService.relationEnd_keeps _ _ _).bind fun _ =>
          (MemoService.relationEnd_keeps _ _ _).bind fun _ => Effect.Keeps.pure _) _) h with
        ⟨message, hmessage, hrest⟩
      rcases Effect.ok_of_read_bind (fun _ => MemoService.convertMemoRelations_keeps _) hrest with
        ⟨messages, hmessages, hlist⟩
      cases hlist
      have hfirst := hvisible r List.mem_cons_self
      have hconvert : svc.memoService.convertMemoRelationFromStore r db = (.ok message, db) :=
        Effect.ok_of_mapError hmessage
      rw [MemoService.convertMemoRelationFromStore] at hconvert
      rcases Effect.ok_of_read_bind (fun _ => MemoService.relationEnd_keeps _ _ _) hconvert with
        ⟨memo, hmemo, hconvert⟩
      rcases Effect.ok_of_read_bind (fun _ => MemoService.relationEnd_keeps _ _ _) hconvert with
        ⟨relatedMemo, hrelated, hvalue⟩
      cases hvalue
      intro r' hr' side hside
      rcases List.mem_cons.mp hr' with rfl | hr'
      · rcases List.mem_pair.mp hside with rfl | rfl
        · exact ⟨memo, rfl, relationEnd_seen hmemo hfirst.source⟩
        · exact ⟨relatedMemo, rfl, relationEnd_seen hrelated hfirst.related⟩
      · exact ih (fun r hr => hvisible r (List.mem_cons_of_mem _ hr)) hmessages r' hr' side hside

theorem listConvertedRelations_seen (h : svc.Serves user) {failed : String}
    {find : FindMemoRelation} (hfilter : find.MemoFilter = some (visibleMemos user))
    (hlimit : find.Limit = none) {list : List RelationMessage} {t : Tables}
    (hlist : svc.memoService.listConvertedRelations failed find db = (.ok list, t)) :
    ∀ r ∈ list, ∀ side ∈ [r.Memo, r.RelatedMemo], ∃ m, side = some m ∧ SeenName user db m.Name := by
  rw [MemoService.listConvertedRelations] at hlist
  rcases Effect.ok_of_bind hlist with ⟨relations, t', hquery, hconvert⟩
  have hrows := Effect.ok_of_mapError hquery
  rw [SameButTimes.listMemoRelations_filtered _ hfilter, h.compile] at hrows
  cases hrows
  exact convertMemoRelations_seen (fun r hr => ((MemoService.mem_selectRelations hlimit).mp hr).1)
    hconvert

theorem listConvertedRelations_keeps {P : Tables → Prop} (failed : String)
    (find : FindMemoRelation) :
    Effect.Keeps P (svc.memoService.listConvertedRelations failed find) :=
  ((StoreEngine.listMemoRelations_keeps _).mapError _).bind fun _ =>
    MemoService.convertMemoRelations_keeps _

private theorem relations_seen (h : svc.Serves user) {name : String} {list : List RelationMessage}
    (hlist : (svc.memoService.listMemoRelations name db).1 = .ok list) :
    ∀ r ∈ list, ∀ side ∈ [r.Memo, r.RelatedMemo], ∃ m, side = some m ∧ SeenName user db m.Name := by
  have hok := Effect.eq_of_fst hlist
  rw [MemoService.listMemoRelations] at hok
  rcases Effect.ok_of_read_bind (fun _ => Effect.Keeps.ofExcept _) hok with ⟨uid, -, hfind⟩
  rcases Effect.ok_of_read_bind (fun _ => (StoreEngine.getMemo_keeps _).mapError _) hfind with
    ⟨found, -, huser⟩
  rcases Effect.ok_of_read_bind (fun _ => Effect.Keeps.ofExcept _) huser with
    ⟨user', hcurrent, hmemo⟩
  have hsame := h.eq_of_fetched (Effect.ok_of_ofExcept hcurrent).1
  subst hsame
  rcases Effect.ok_of_read_bind (fun _ => MemoService.dereference_keeps _) hmemo with
    ⟨memo, -, houtgoing⟩
  rcases Effect.ok_of_read_bind (fun _ => listConvertedRelations_keeps _ _) houtgoing with
    ⟨outgoing, hout, hincoming⟩
  rcases Effect.ok_of_read_bind (fun _ => listConvertedRelations_keeps _ _) hincoming with
    ⟨incoming, hin, hvalue⟩
  rcases Except.ok.inj (Prod.mk.inj hvalue).1 with rfl
  intro r hr
  rcases List.mem_append.mp hr with hr | hr
  · exact listConvertedRelations_seen h rfl rfl hout r hr
  · exact listConvertedRelations_seen h rfl rfl hin r hr

theorem seenBy_of_seenName {memo : Memo} (hmemo : memo ∈ db.memos)
    (h : SeenName user db (buildMemoName memo.UID)) : SeenBy user memo := by
  rcases h with ⟨m, hm, hseen, hname⟩
  have huid : memo.UID = m.UID := by simpa [buildMemoName] using hname
  rw [db.eq_of_memoUID_eq hmemo hm huid]
  exact hseen

/-- Nothing of a memo is shown to an ordinary user who does not see it. -/
theorem seenBy_of_shows (h : svc.Serves user) (hordinary : Ordinary user) {row : FoundMemo}
    (hname : UIDMatcher row.UID = true)
    (hrow : svc.memoService.engine.getMemo { UID := some row.UID } db = (.ok (some row), db))
    {path : ReadPath} (hshows : Shows svc user db row.toMemo path) : SeenBy user row.toMemo := by
  rcases StoreEngine.mem_of_getMemo_uid hrow with ⟨-, hmem, -, -⟩
  cases path with
  | attachments => exact (attachments_iff h hordinary hname hrow).mp hshows
  | reactions => exact (reactions_iff h hordinary hname hrow).mp hshows
  | attachment name a =>
      rcases hshows with ⟨ha, hlinked, huid, hmessage⟩
      exact (attachment_iff h hordinary hmem ha hlinked huid).mp hmessage
  | file request a =>
      rcases hshows with ⟨-, hlinked, hcurrent, htoken, hgiven⟩
      exact (file_iff hordinary hmem hlinked hcurrent htoken).mp hgiven
  | comments request =>
      rcases hshows with ⟨response, hresponse, hshown⟩
      exact seenBy_of_seenName hmem (comments_seen h hresponse hshown)
  | relations name =>
      rcases hshows with ⟨list, hlist, r, hr, side, hside, hshown⟩
      rcases relations_seen h hlist r hr side hside with ⟨m, rfl, hseen⟩
      rw [Option.map_some, Option.some.injEq] at hshown
      exact seenBy_of_seenName hmem (hshown ▸ hseen)

/-- Nothing of a memo is shown to an ordinary user who does not see it; its attachments and its
reactions are shown to everybody who does; and who is shown something of the memo fetches it if and
only if for who sees it the creator exists and the other checks are passed too: an archived memo is
the user's own, and so is the memo that it comments on, which the user sees. -/
theorem read_paths (h : svc.Serves user) (hordinary : Ordinary user) {row : FoundMemo}
    (hname : UIDMatcher row.UID = true)
    (hrow : svc.memoService.engine.getMemo { UID := some row.UID } db = (.ok (some row), db)) :
    (∀ path, Shows svc user db row.toMemo path → SeenBy user row.toMemo) ∧
    (SeenBy user row.toMemo → Shows svc user db row.toMemo .attachments ∧
      Shows svc user db row.toMemo .reactions ∧
        ∀ a ∈ db.attachments, a.MemoID = some row.ID →
          (∀ name, svc.memoService.extractAttachmentUIDFromName name = .ok a.UID →
            Shows svc user db row.toMemo (.attachment name a)) ∧
          ∀ request : AttachmentRequest, request.currentUser = .ok user → request.shareToken = "" →
            Shows svc user db row.toMemo (.file request a)) ∧
    ((∀ path, Shows svc user db row.toMemo path →
        ∃ message, (svc.memoService.getMemo (buildMemoName row.UID) db).1 = .ok message) ↔
      (SeenBy user row.toMemo → HasCreator db row ∧
        (row.RowStatus = .ARCHIVED → ∃ u ∈ user, row.CreatorID = u.ID) ∧
          ParentReadable user db row)) := by
  rcases StoreEngine.mem_of_getMemo_uid hrow with ⟨-, hmem, -, -⟩
  have hown (hseen : SeenBy user row.toMemo) : Shows svc user db row.toMemo .reactions :=
    (reactions_iff h hordinary hname hrow).mpr hseen
  refine ⟨fun path => seenBy_of_shows h hordinary hname hrow, fun hseen => ?_, ?_⟩
  · refine ⟨(attachments_iff h hordinary hname hrow).mpr hseen, hown hseen,
      fun a ha hlinked => ⟨fun name huid => ?_, fun request hcurrent htoken => ?_⟩⟩
    · exact ⟨ha, hlinked, huid, (attachment_iff h hordinary hmem ha hlinked huid).mpr hseen⟩
    · exact ⟨ha, hlinked, hcurrent, htoken,
        (file_iff hordinary hmem hlinked hcurrent htoken).mpr hseen⟩
  · constructor
    · intro hfetches hseen
      rcases (getMemo_iff h hname hrow).mp (hfetches .reactions (hown hseen)) with
        ⟨hreads, hcreator⟩
      exact ⟨hcreator, hreads.1, hreads.2.2⟩
    · intro hchecks path hshows
      have hseen := seenBy_of_shows h hordinary hname hrow hshows
      rcases hchecks hseen with ⟨hcreator, harchived, hparent⟩
      exact (getMemo_iff h hname hrow).mpr ⟨⟨harchived, hseen, hparent⟩, hcreator⟩

/-- A public memo that its creator has archived. -/
def archivedMemo : Memo where
  ID := 1
  UID := "b"
  RowStatus := .ARCHIVED
  CreatorID := 2
  Visibility := .Public

def archivedTables : Tables :=
  { Tables.ofMemos [archivedMemo] [] [] 1 with
    users := [{ ID := 1, Username := "ada" }, { ID := 2, Username := "ben" }] }

/-- Ada is shown the reactions of the archived memo, which she does not fetch. -/
theorem read_paths_archived :
    Shows annListing (some { ID := 1, Username := "ada" }) archivedTables archivedMemo .reactions ∧
      ¬∀ path, Shows annListing (some { ID := 1, Username := "ada" }) archivedTables archivedMemo
        path → ∃ message,
          (annListing.memoService.getMemo (buildMemoName "b") archivedTables).1 = .ok message := by
  have hordinary : Ordinary (some { ID := 1, Username := "ada" }) := by
    intro u hu
    rcases Option.some.inj hu with rfl
    rfl
  rcases @read_paths annListing _ archivedTables serves_annListing hordinary ⟨archivedMemo, none⟩
    (by decide) rfl with ⟨-, hshown, hfetches⟩
  have hseen : SeenBy (some { ID := 1, Username := "ada" }) archivedMemo :=
    Or.inr List.mem_cons_self
  refine ⟨(hshown hseen).2.1, fun hall => ?_⟩
  rcases (hfetches.mp hall hseen).2.1 rfl with ⟨u, hu, hid⟩
  rcases Option.some.inj hu with rfl
  exact absurd hid (by decide)

end ListingService

end Api
end MemosNote
