import MemosNote.Api.RelationBatches
import MemosNote.Api.UserStats
import MemosNote.Library.Base64
import MemosNote.Library.Collect

/-!
# Listing memos

Memos are listed page by page.  The token of a page holds the limit and the offset of the next one.

Main results:

- Theorem {lit}`listMemos_pages`: following the tokens shows the rows of the query, each once.
- Theorem {lit}`listMemos_readable`: these are the memos that the user may read and that the filter
  of the request selects.
-/

namespace MemosNote
namespace Api

open Library Store

/-! ## Page tokens -/

/-- What a page token says. -/
structure PageToken where
  Limit : Int32 := 0
  Offset : Int32 := 0
deriving DecidableEq

/-- How messages are written as bytes and read, and the error for a text that is no base64. -/
structure PageTokenFormat where
  marshal : PageToken → Except String (List Base64.Byte)
  unmarshal : List Base64.Byte → Except String PageToken
  corruptInput : String → String

/-- The size of a page that asks for none. -/
def DefaultPageSize : ℕ :=
  10

/-- The greatest size of a page. -/
def MaxPageSize : ℕ :=
  1000

namespace PageTokenFormat

variable (format : PageTokenFormat)

/-- A page token as text. -/
def marshalPageToken (pageToken : PageToken) : Except String String :=
  match format.marshal pageToken with
  | .error err => .error ("failed to marshal page token: " ++ err)
  | .ok bytes => .ok (String.ofList (Base64.encode bytes))

/-- The token of a page; both numbers are cut to 32 bits. -/
def getPageToken (limit offset : ℤ) : Except String String :=
  format.marshalPageToken { Limit := Int32.ofInt limit, Offset := Int32.ofInt offset }

/-- A page token read back. -/
def unmarshalPageToken (s : String) : Except String PageToken :=
  match Base64.decode s.toList with
  | none => .error ("failed to decode page token: " ++ format.corruptInput s)
  | some bytes => (format.unmarshal bytes).mapError ("failed to unmarshal page token: " ++ ·)

/-- A token holds what was written. -/
theorem unmarshalPageToken_encode {pageToken : PageToken} {bytes : List Base64.Byte}
    (hunmarshal : format.unmarshal bytes = .ok pageToken) :
    format.unmarshalPageToken (String.ofList (Base64.encode bytes)) = .ok pageToken := by
  rw [unmarshalPageToken, String.toList_ofList, Base64.decode_encode]
  dsimp only
  rw [hunmarshal]
  rfl

end PageTokenFormat

/-- The size of a page, between 1 and the greatest one. -/
def normalizePageSize (pageSize : ℤ) : ℕ :=
  if pageSize ≤ 0 then DefaultPageSize
  else if MaxPageSize < pageSize then MaxPageSize
  else pageSize.toNat

/-! ## The order of the memos -/

/-- The fields of a text, between runs of white space. -/
def textFields (text : List Char) : List (List Char) :=
  (text.splitOnP Filter.isSpace).filter (· ≠ [])

/-- One field of the order; whether a field of time was seen before comes and goes with it. -/
def orderField (field : List Char) (s : FindMemo × Bool) : Except String (FindMemo × Bool) :=
  match textFields field with
  | [] => .ok s
  | name :: rest =>
      let direction := (rest.head?.map fun d => (String.ofList d).toLower).getD "desc"
      if direction ≠ "asc" ∧ direction ≠ "desc" then
        .error ("invalid order direction: " ++ String.ofList (rest.headD []) ++
          ", must be 'asc' or 'desc'")
      else
        match String.ofList name with
        | "pinned" => .ok ({ s.1 with OrderByPinned := true }, s.2)
        | "create_time" | "name" =>
            .ok (if s.2 then s.1 else { s.1 with OrderByTimeAsc := direction = "asc" }, true)
        | "update_time" =>
            .ok (if s.2 then s.1
              else { s.1 with OrderByUpdatedTs := true, OrderByTimeAsc := direction = "asc" }, true)
        | name => .error ("unsupported order field: " ++ name ++
            ", supported fields are: pinned, create_time, update_time, name")

/-- The order in the text of a request. -/
def parseMemoOrderBy (orderBy : String) (find : FindMemo) : Except String FindMemo := do
  if orderBy.toList.all Filter.isSpace then throw "empty order_by"
  else
    let fields := orderBy.toList.splitOn ','
    let (find, _) ← fields.foldlM (fun s field => orderField field s) (find, false)
    pure (if find.OrderByPinned && !find.OrderByUpdatedTs && fields.length = 1 then
      { find with OrderByTimeAsc := false } else find)

/-! ## Messages of a listing -/

/-- A reaction of the API. -/
structure ReactionMessage where
  Name : String
  Creator : String
  ContentId : String
  ReactionType : String
  CreateTime : Timestamp
deriving DecidableEq, Repr

/-- The message of a memo with its creator, its reactions and what is derived from the content. -/
structure ListedMemo extends MemoMessage where
  Creator : String
  Tags : List String
  Property : Option MemoProperty
  Parent : Option String
  Reactions : List ReactionMessage
  Snippet : String
deriving DecidableEq, Repr

/-- The request for a page of memos. -/
structure ListMemosRequest where
  PageSize : ℤ := 0
  PageToken : String := ""
  State : StateMessage := .STATE_UNSPECIFIED
  OrderBy : String := ""
  Filter : String := ""
deriving DecidableEq, Repr

/-- A page of memos, and the token of the next one. -/
structure ListMemosResponse where
  Memos : List ListedMemo := []
  NextPageToken : String := ""
deriving DecidableEq, Repr

/-- The query for reactions. -/
structure FindReaction where
  ID : Option ℤ := none
  CreatorID : Option ℤ := none
  ContentID : Option String := none
  ContentIDList : List String := []
deriving DecidableEq, Repr

/-- The reaction is asked for. -/
def FindReaction.matchesReaction (find : FindReaction) (r : Reaction) : Bool :=
  (∀ id ∈ find.ID, r.ID = id) &&
    (∀ id ∈ find.CreatorID, r.CreatorID = id) &&
    (∀ id ∈ find.ContentID, r.ContentID = id) &&
    (find.ContentIDList = [] || r.ContentID ∈ find.ContentIDList)

/-- The reactions of a query, the oldest ones first. -/
def listReactions (find : FindReaction) : StoreM (List Reaction) :=
  Effect.read fun db =>
    (db.reactions.filter find.matchesReaction).insertionSort fun a b => a.ID ≤ b.ID

/-- The users with given identifiers. -/
def listUsersByID (userIDs : List ℤ) : StoreM (List User) :=
  Effect.read fun db => db.users.filter fun user => user.ID ∈ userIDs

/-- The users who are known already, and those who are missing. -/
def listUsersByIDWithExisting (userIDs : List ℤ) (existing : List User) : StoreM (List User) := do
  let missing := (userIDs.filter fun id => id ∉ existing.map User.ID).dedup
  let users ← listUsersByID missing
  pure (existing ++ users)

/-- The user with an identifier. -/
def userByID (users : List User) (id : ℤ) : Option User :=
  users.find? fun user => user.ID = id

/-- What the resource names of reactions start with. -/
def reactionNamePrefix : String :=
  "reactions/"

/-- The message of a reaction, unless its creator is missing. -/
def convertReactionFromStoreWithCreators (creators : List User) (r : Reaction) :
    Option ReactionMessage :=
  (userByID creators r.CreatorID).map fun creator => {
    Name := r.ContentID ++ "/" ++ reactionNamePrefix ++ toString r.ID
    Creator := buildUserName creator.Username
    ContentId := r.ContentID
    ReactionType := r.ReactionType
    CreateTime := timestampOfUnix r.CreatedTs }

/-- The messages of reactions; those with a missing creator are skipped. -/
def convertReactionsFromStoreWithCreators (reactions : List Reaction) (creators : List User) :
    StoreM (List ReactionMessage) :=
  if reactions = [] then pure []
  else do
    let users ← listUsersByIDWithExisting (reactions.map Reaction.CreatorID) creators
    pure (reactions.filterMap (convertReactionFromStoreWithCreators users))

/-! ## The requests -/

/-- The service of one request: the memo service, the filter engine, which has the schema of
memos, the database and the format of page tokens. -/
structure ListingService where
  base : MemoService
  filters : Filter.Engine
  filters_schema : filters.context.schema = Filter.newSchema
  dialect : Filter.DialectName
  format : PageTokenFormat

namespace ListingService

variable (svc : ListingService)

/-- The memo service, whose store filters memos by the engine. -/
def memoService : MemoService :=
  { svc.base with
    engine := { svc.base.engine with
      compileMemoFilter := svc.filters.selects (Filter.exactServer svc.dialect) } }

/-- The message of a memo, or nothing if its creator is missing. -/
def convertMemoFromStoreWithCreators (memo : FoundMemo) (reactions : List Reaction)
    (attachments : List Attachment) (relations : List RelationMessage) (creators : List User) :
    StoreM (Option ListedMemo) :=
  match userByID creators memo.CreatorID with
  | none => pure none
  | some creator => do
      let reactionMessages ← (convertReactionsFromStoreWithCreators reactions creators).mapError
        ("failed to convert reactions: " ++ ·)
      let snippet ← Effect.ofExcept ((svc.base.getMemoContentSnippet memo.Content).mapError
        ("failed to get memo content snippet: " ++ ·))
      Effect.read fun db => some {
        Name := memoNamePrefix ++ memo.UID
        State := convertStateFromStore memo.RowStatus
        Creator := buildUserName creator.Username
        CreateTime := some (timestampOfUnix memo.CreatedTs)
        UpdateTime := some (timestampOfUnix memo.UpdatedTs)
        Content := memo.Content
        Visibility := convertVisibilityFromStore memo.Visibility
        Pinned := memo.Pinned
        Tags := memo.Payload.Tags
        Property := memo.Payload.Property
        Location := memo.Payload.Location
        Parent := memo.ParentUID.map (memoNamePrefix ++ ·)
        Reactions := reactionMessages
        Relations := relations
        Attachments := attachments.map (convertAttachmentFromStore db)
        Snippet := snippet }

/-- The messages of a page: reactions, attachments, relations and creators are loaded for all
memos at once. -/
def memoMessages (memos : List FoundMemo) : ApiM (List ListedMemo) := do
  let reactions ← internally "failed to list reactions"
    (listReactions { ContentIDList := memos.map fun m => memoNamePrefix ++ m.UID })
  let attachments ← internally "failed to list attachments"
    (svc.memoService.engine.listAttachments { MemoIDList := memos.map fun m => m.ID })
  let relationMap ← internally "failed to batch load memo relations"
    (svc.memoService.batchConvertMemoRelations (memos.map FoundMemo.toMemo) false)
  let creators ← withStatus .Internal ("failed to list memo creators: " ++ ·)
    (listUsersByID (memos.map (fun m => m.CreatorID) ++ reactions.map Reaction.CreatorID))
  memos.foldr
    (fun memo rest => do
      let message ← withStatus .Unknown ("failed to convert memo: " ++ ·)
        (svc.convertMemoFromStoreWithCreators memo
          (reactions.filter fun r => r.ContentID = memoNamePrefix ++ memo.UID)
          (attachments.filter fun a => a.MemoID = some memo.ID)
          (relationMap memo.ID) creators)
      let messages ← rest
      pure (message.toList ++ messages))
    (pure [])

/-- The order of a request, the newest memos first by default. -/
def orderFind (request : ListMemosRequest) (find : FindMemo) : Except Failure FindMemo :=
  if request.OrderBy = "" then .ok find
  else (parseMemoOrderBy request.OrderBy find).mapError fun err =>
    .status .InvalidArgument ("invalid order_by: " ++ err)

/-- The filter of a request, which must be valid. -/
def requestFilters (request : ListMemosRequest) : Except Failure (List String) :=
  if request.Filter = "" then .ok []
  else
    ((StatsService.validateFilter {
      engine := svc.base.engine
      filters := svc.filters
      filters_schema := svc.filters_schema
      dialect := svc.dialect
      quote := svc.base.quote
      contextUserID := svc.base.contextUserID } request.Filter).mapError fun err =>
        .status .InvalidArgument ("invalid filter: " ++ err)).map fun _ => [request.Filter]

/-- The query of a listing, but for the page; archived memos are shown to their creator only. -/
def memosFind (currentUser : Option User) (request : ListMemosRequest) :
    Except Failure (Option FindMemo) :=
  if request.State = .ARCHIVED ∧ currentUser = none then .ok none
  else do
    let find ← orderFind request {
      ExcludeComments := true
      RowStatus := some (if request.State = .ARCHIVED then .ARCHIVED else .NORMAL)
      CreatorID := if request.State = .ARCHIVED then currentUser.map User.ID else none }
    let filters ← svc.requestFilters request
    pure (some (match currentUser with
      | none => { find with Filters := filters, VisibilityList := [.Public] }
      | some user =>
          if find.CreatorID = none then
            { find with Filters := filters ++ [visibleMemos (some user)] }
          else { find with Filters := filters }))

/-- The limit and the offset of a request. -/
def pageOf (request : ListMemosRequest) : Except Failure (ℕ × ℕ) :=
  if request.PageToken = "" then .ok (normalizePageSize request.PageSize, 0)
  else
    match svc.format.unmarshalPageToken request.PageToken with
    | .error err => .error (.status .InvalidArgument ("invalid page token: " ++ err))
    | .ok token => .ok (normalizePageSize token.Limit.toInt, token.Offset.toInt.toNat)

/-- A page of the rows of a query, with the token of the next page. -/
def memoRows (find : FindMemo) (limit offset : ℕ) : ApiM (List FoundMemo × String) := do
  let limit := min limit MaxPageSize
  let memos ← withStatus .Internal ("failed to list memos: " ++ ·)
    (svc.memoService.engine.listMemos
      { find with Limit := some (limit + 1 : ℕ), Offset := some (offset : ℤ) })
  if memos.length = limit + 1 then
    let token ← Effect.ofExcept ((svc.format.getPageToken limit (offset + limit)).mapError
      fun err => .status .Internal ("failed to get next page token, error: " ++ err))
    pure (memos.take limit, token)
  else pure (memos, "")

/-- The request for a page of memos that the viewer may see. -/
def ListMemos (request : ListMemosRequest) : ApiM ListMemosResponse := do
  let currentUser ← Effect.ofExcept (svc.memoService.fetchCurrentUser.mapError fun _ =>
    .status .Internal "failed to get user")
  match ← Effect.ofExcept (svc.memosFind currentUser request) with
  | none => pure {}
  | some find => do
      let (limit, offset) ← Effect.ofExcept (svc.pageOf request)
      let (memos, token) ← svc.memoRows find limit offset
      if memos = [] then pure { NextPageToken := token }
      else
        let messages ← svc.memoMessages memos
        pure { Memos := messages, NextPageToken := token }

/-- A client asks for a page, and for the next one if there is a token. -/
def followToken (request : ListMemosRequest) (db : Tables) (token : String) :
    Option (List ListedMemo × Option String) :=
  match (svc.ListMemos { request with PageToken := token } db).1 with
  | .error _ => none
  | .ok response => some (response.Memos,
      if response.NextPageToken = "" then none else some response.NextPageToken)

/-! ## A page of rows -/

variable {svc} {db : Tables} {find : FindMemo} {filters : List (Tables → Memo → Bool)}

theorem limitRows_natCast {α : Type} (limit offset : ℕ) (rows : List α) :
    limitRows (some (limit : ℤ)) (some (offset : ℤ)) rows = Page.page offset limit rows := by
  simp [limitRows, Page.page]

/-- A query for a page returns a page of all rows. -/
theorem listMemos_page {engine : StoreEngine} (hlimit : find.Limit = none)
    (hfilters : find.Filters.mapM engine.compileMemoFilter = .ok filters) (limit offset : ℕ) :
    engine.listMemos { find with Limit := some (limit : ℤ), Offset := some (offset : ℤ) } db =
      (.ok (Page.page offset limit (db.selectMemos find filters)), db) := by
  have hlist : engine.listMemos
      { find with Limit := some (limit : ℤ), Offset := some (offset : ℤ) } db =
      (.ok (db.selectMemos { find with Limit := some (limit : ℤ), Offset := some (offset : ℤ) }
        filters), db) := by
    rw [StoreEngine.listMemos, hfilters]
    rfl
  have hall (rows : List FoundMemo) : limitRows find.Limit find.Offset rows = rows := by
    rw [hlimit]
    rfl
  rw [hlist, Tables.selectMemos, Tables.selectMemos, limitRows_natCast, hall, Page.page, Page.page,
    ← List.map_drop, ← List.map_take]
  rfl

/-- One row more than the page tells whether there is a next page. -/
theorem memoRows_eq (hlimit : find.Limit = none)
    (hfilters : find.Filters.mapM svc.memoService.engine.compileMemoFilter = .ok filters)
    {limit : ℕ} (hmax : limit ≤ MaxPageSize) (offset : ℕ) :
    svc.memoRows find limit offset db =
      if offset + limit < (db.selectMemos find filters).length then
        match svc.format.getPageToken limit (offset + limit) with
        | .error err =>
            (.error (.status .Internal ("failed to get next page token, error: " ++ err)), db)
        | .ok token => (.ok (Page.page offset limit (db.selectMemos find filters), token), db)
      else (.ok (Page.page offset limit (db.selectMemos find filters), ""), db) := by
  have hlist : withStatus .Internal (fun err => "failed to list memos: " ++ err)
      (svc.memoService.engine.listMemos
        { find with Limit := some ((limit + 1 : ℕ) : ℤ), Offset := some (offset : ℤ) }) db =
      (.ok (Page.page offset (limit + 1) (db.selectMemos find filters)), db) := by
    rw [withStatus, Effect.mapError, listMemos_page hlimit hfilters]
    rfl
  rw [memoRows, Nat.min_eq_left hmax, Effect.bind_of_ok hlist]
  by_cases hnext : offset + limit < (db.selectMemos find filters).length
  · rw [if_pos (Page.length_page_succ_iff.mpr hnext), if_pos hnext, Page.take_page_succ]
    cases svc.format.getPageToken limit (offset + limit) <;> rfl
  · rw [if_neg fun h => hnext (Page.length_page_succ_iff.mp h), if_neg hnext,
      Page.page_succ_of_le (Nat.not_lt.mp hnext)]
    rfl

/-! ## The messages of a page -/

/-- The creator of a memo exists. -/
def HasCreator (db : Tables) (memo : FoundMemo) : Prop :=
  ∃ user ∈ db.users, user.ID = memo.CreatorID

instance (db : Tables) : DecidablePred (HasCreator db) :=
  fun memo => inferInstanceAs (Decidable (∃ user ∈ db.users, user.ID = memo.CreatorID))

private theorem userByID_isSome_iff {users : List User} {id : ℤ} :
    (userByID users id).isSome ↔ ∃ user ∈ users, user.ID = id := by
  simp [userByID, List.find?_isSome]

/-- The creator of a memo is among the users that were listed. -/
theorem listed_creator_iff {ids : List ℤ} {memo : FoundMemo} (hlisted : memo.CreatorID ∈ ids) :
    (userByID (db.users.filter fun user => user.ID ∈ ids) memo.CreatorID).isSome ↔
      HasCreator db memo := by
  rw [userByID_isSome_iff, HasCreator]
  constructor
  · rintro ⟨user, huser, hid⟩
    exact ⟨user, List.mem_of_mem_filter huser, hid⟩
  · rintro ⟨user, huser, hid⟩
    exact ⟨user, List.mem_filter.mpr ⟨huser, decide_eq_true (hid ▸ hlisted)⟩, hid⟩

/-- Snippets are generated of every content. -/
def MakesSnippets (svc : ListingService) : Prop :=
  ∀ content, ∃ snippet, svc.base.generateSnippet content = .ok snippet

theorem convertReactions_ok (reactions : List Reaction) (creators : List User) (db : Tables) :
    ∃ messages,
      convertReactionsFromStoreWithCreators reactions creators db = (.ok messages, db) := by
  rw [convertReactionsFromStoreWithCreators]
  split_ifs
  · exact ⟨[], rfl⟩
  · exact ⟨_, rfl⟩

/-- A memo is shown under its name, with its content, unless its creator is missing. -/
theorem convertMemo_ok (hsnippets : svc.MakesSnippets) {memo : FoundMemo} {creators : List User}
    (hcreators : (userByID creators memo.CreatorID).isSome ↔ HasCreator db memo)
    (reactions : List Reaction) (attachments : List Attachment)
    (relations : List RelationMessage) :
    ∃ message, withStatus .Unknown (fun err => "failed to convert memo: " ++ err)
        (svc.convertMemoFromStoreWithCreators memo reactions attachments relations creators) db =
          (.ok message, db) ∧
      message.toList.map (fun m => (m.Name, m.Content)) =
        ([memo].filter fun memo => HasCreator db memo).map fun memo =>
          (memoNamePrefix ++ memo.UID, memo.Content) := by
  rw [withStatus, Effect.mapError, convertMemoFromStoreWithCreators]
  cases hcreator : userByID creators memo.CreatorID with
  | none =>
      have hnone : ¬HasCreator db memo := fun h => by
        have hsome := hcreators.mpr h
        rw [hcreator] at hsome
        cases hsome
      exact ⟨none, rfl, by simp [hnone]⟩
  | some creator =>
      have hsome : HasCreator db memo := hcreators.mp (by rw [hcreator]; rfl)
      rcases convertReactions_ok reactions creators db with ⟨messages, hmessages⟩
      rcases hsnippets memo.Content with ⟨snippet, hsnippet⟩
      have hreactions : (convertReactionsFromStoreWithCreators reactions creators).mapError
          ("failed to convert reactions: " ++ ·) db = (.ok messages, db) := by
        rw [Effect.mapError, hmessages]
        rfl
      dsimp only
      rw [Effect.bind_of_ok hreactions, MemoService.getMemoContentSnippet, hsnippet]
      refine ⟨_, rfl, ?_⟩
      simp [hsome]

/-- The filter by visibility, as it is parsed. -/
def visibleExpr : Option User → Filter.Expr
  | none => Filter.publicMemosExpr
  | some user => Filter.visibleMemosExpr (Int64.ofInt user.ID)

/-- The memos that the filter by visibility selects. -/
def SeenBy (user : Option User) (memo : Memo) : Prop :=
  match user with
  | none => memo.Visibility = .Public
  | some user => Filter.VisibleTo user.ID memo

instance (user : Option User) : DecidablePred (SeenBy user) := fun memo =>
  match user with
  | none => inferInstanceAs (Decidable (memo.Visibility = .Public))
  | some user => inferInstanceAs (Decidable (Filter.VisibleTo user.ID memo))

/-- A request of a user, or of nobody: the filter by visibility is parsed and every content has a
snippet. -/
structure Serves (svc : ListingService) (user : Option User) : Prop where
  current : svc.base.fetchCurrentUser = .ok user
  ids : ∀ u ∈ user, 0 < u.ID ∧ u.ID ≤ 2147483647
  check : svc.filters.check (visibleMemos user) = .ok (visibleExpr user)
  snippets : svc.MakesSnippets

variable {user : Option User}

theorem Serves.compile (h : svc.Serves user) :
    svc.memoService.engine.compileMemoFilter (visibleMemos user) =
      .ok fun _ memo => decide (SeenBy user memo) := by
  have hcheck := h.check
  cases user with
  | none =>
      have hfirst : Filter.isSpace 'v' = false := by decide
      exact Filter.selects_publicMemos svc.filters_schema (by simp [visibleMemos, hfirst]) hcheck
        svc.dialect
  | some user =>
      have hid := h.ids user rfl
      have hint : (Int64.ofInt user.ID).toInt = user.ID :=
        Int64.toInt_ofInt_of_le (by omega) (by omega)
      have hselects := Filter.selects_visibleMemos svc.filters_schema
        (StatsService.visibleMemos_not_blank user) hcheck svc.dialect
      rw [hint] at hselects
      exact hselects

/-- The messages of the memos one after the other. -/
theorem foldr_messages_ok {message : FoundMemo → ApiM (Option ListedMemo)} {memos : List FoundMemo}
    (h : ∀ memo ∈ memos, ∃ m, message memo db = (.ok m, db) ∧
      m.toList.map (fun m => (m.Name, m.Content)) =
        ([memo].filter fun memo => HasCreator db memo).map fun memo =>
          (memoNamePrefix ++ memo.UID, memo.Content)) :
    ∃ messages, memos.foldr
        (fun memo rest => message memo >>= fun m => rest >>= fun messages =>
          pure (m.toList ++ messages)) (pure []) db = (.ok messages, db) ∧
      messages.map (fun m => (m.Name, m.Content)) =
        (memos.filter fun memo => HasCreator db memo).map fun memo =>
          (memoNamePrefix ++ memo.UID, memo.Content) := by
  induction memos with
  | nil => exact ⟨[], rfl, rfl⟩
  | cons memo memos ih =>
      rcases h memo List.mem_cons_self with ⟨m, hm, hcontent⟩
      rcases ih fun memo hmemo => h memo (List.mem_cons_of_mem _ hmemo) with
        ⟨messages, hmessages, hcontents⟩
      refine ⟨m.toList ++ messages, ?_, ?_⟩
      · rw [List.foldr_cons, Effect.bind_of_ok hm, Effect.bind_of_ok hmessages]
        rfl
      · rw [List.map_append, hcontent, hcontents, ← List.map_append, ← List.filter_append]
        rfl

/-- The page shows the memos whose creators exist. -/
theorem memoMessages_ok (h : svc.Serves user) (db : Tables) (memos : List FoundMemo) :
    ∃ messages, svc.memoMessages memos db = (.ok messages, db) ∧
      messages.map (fun m => (m.Name, m.Content)) =
        (memos.filter fun memo => HasCreator db memo).map fun memo =>
          (memoNamePrefix ++ memo.UID, memo.Content) := by
  have hcurrent : svc.memoService.fetchCurrentUser = .ok user := h.current
  rcases MemoService.exists_batch hcurrent h.compile (fun _ => h.snippets) db
    (memos.map FoundMemo.toMemo) with ⟨relations, hrelations⟩
  have hbatch : internally "failed to batch load memo relations"
      (svc.memoService.batchConvertMemoRelations (memos.map FoundMemo.toMemo) false) db =
        (.ok relations, db) := by
    rw [internally, withStatus, Effect.mapError, hrelations]
    rfl
  have hattachments : ∃ attachments, internally "failed to list attachments"
      (svc.memoService.engine.listAttachments { MemoIDList := memos.map fun m => m.ID }) db =
        (.ok attachments, db) := by
    rw [internally, withStatus, Effect.mapError, StoreEngine.listAttachments_eq rfl]
    exact ⟨_, rfl⟩
  rcases hattachments with ⟨attachments, hattachments⟩
  have hreactions : ∃ reactions, internally "failed to list reactions"
      (listReactions { ContentIDList := memos.map fun m => memoNamePrefix ++ m.UID }) db =
        (.ok reactions, db) := ⟨_, rfl⟩
  rcases hreactions with ⟨reactions, hreactions⟩
  rw [memoMessages, Effect.bind_of_ok hreactions, Effect.bind_of_ok hattachments,
    Effect.bind_of_ok hbatch]
  have hcreators : withStatus .Internal (fun err => "failed to list memo creators: " ++ err)
      (listUsersByID (memos.map (fun m => m.CreatorID) ++ reactions.map Reaction.CreatorID)) db =
        (.ok (db.users.filter fun user => user.ID ∈
          memos.map (fun m => m.CreatorID) ++ reactions.map Reaction.CreatorID), db) := rfl
  rw [Effect.bind_of_ok hcreators]
  refine foldr_messages_ok fun memo hmemo => convertMemo_ok h.snippets (listed_creator_iff ?_) _ _ _
  exact List.mem_append_left _ (List.mem_map_of_mem hmemo)

/-! ## The query -/

/-- A query but for its order. -/
def unordered (find : FindMemo) : FindMemo :=
  { find with OrderByPinned := false, OrderByUpdatedTs := false, OrderByTimeAsc := false }

private theorem orderField_keeps {field : List Char} {s s' : FindMemo × Bool}
    (h : orderField field s = .ok s') : unordered s'.1 = unordered s.1 := by
  rw [orderField] at h
  split at h
  · cases h
    rfl
  · dsimp only at h
    split at h
    · cases h
    · -- one case for every name of a field, and one for the other names
      split at h
      · cases h
        rfl
      · cases h
        cases s.2 <;> rfl
      · cases h
        cases s.2 <;> rfl
      · cases h
        cases s.2 <;> rfl
      · cases h

/-- The order of a listing does not change which memos are listed. -/
theorem parseMemoOrderBy_keeps {orderBy : String} {find find' : FindMemo}
    (h : parseMemoOrderBy orderBy find = .ok find') : unordered find' = unordered find := by
  rw [parseMemoOrderBy] at h
  split_ifs at h
  rcases Traverse.ok_of_bind h with ⟨s, hfields, hfind'⟩
  have hkept := Traverse.foldlM_keeps (P := fun s => unordered s.1 = unordered find)
    (fun s field s' hs hstep => (orderField_keeps hstep).trans hs) rfl hfields
  rw [← Except.ok.inj hfind', ← hkept]
  split_ifs <;> rfl

/-- The state of the memos that are listed. -/
def listedStatus (request : ListMemosRequest) : RowStatus :=
  if request.State = .ARCHIVED then .ARCHIVED else .NORMAL

/-- Which rows are listed: those of the requested state that are no comments, that the user may
read, and that the filter of the request selects. -/
def Listed (svc : ListingService) (request : ListMemosRequest) (db : Tables) (row : FoundMemo) :
    Prop :=
  row.ParentUID = none ∧ row.RowStatus = listedStatus request ∧
    svc.base.checkMemoReadAccess row.toMemo = .ok () ∧
      (request.Filter ≠ "" → ∀ p, svc.memoService.engine.compileMemoFilter request.Filter = .ok p →
        p db row.toMemo = true)

theorem checkMemoReadAccess_iff (h : svc.Serves user) (memo : Memo) :
    svc.base.checkMemoReadAccess memo = .ok () ↔
      (memo.RowStatus = .ARCHIVED → ∃ u ∈ user, memo.CreatorID = u.ID) ∧ SeenBy user memo := by
  rw [MemoService.checkMemoReadAccess, h.current]
  cases user with
  | none =>
      cases hstatus : memo.RowStatus <;> cases hvisibility : memo.Visibility <;>
        simp [Except.bind, SeenBy, hvisibility]
  | some user =>
      by_cases hcreator : memo.CreatorID = user.ID
      · simp [hcreator, Except.bind, SeenBy, Filter.VisibleTo]
      · cases hstatus : memo.RowStatus <;> cases hvisibility : memo.Visibility <;>
          simp [hcreator, Except.bind, SeenBy, Filter.VisibleTo, hvisibility]

/-- The filter of a request that is valid. -/
theorem validateFilter_ok {stats : StatsService} {filter : String}
    (h : stats.validateFilter filter = .ok ()) :
    ∃ p, stats.store.compileMemoFilter filter = .ok p := by
  rw [StatsService.validateFilter] at h
  split_ifs at h
  change ∃ p, (stats.filters.compileToStatement filter stats.dialect 0).map _ = .ok p
  cases hcompile : stats.filters.compileToStatement filter stats.dialect 0 with
  | error err =>
      rw [hcompile] at h
      cases h
  | ok stmt => exact ⟨_, rfl⟩

/-- What the query of a listing selects. -/
structure Selects (svc : ListingService) (request : ListMemosRequest) (find : FindMemo)
    (filters : List (Tables → Memo → Bool)) : Prop where
  limit : find.Limit = none
  content : find.ExcludeContent = false
  compile : find.Filters.mapM svc.memoService.engine.compileMemoFilter = .ok filters
  rows : ∀ db row, (find.matchesMemo row = true ∧ ∀ f ∈ filters, f db row.toMemo = true) ↔
    svc.Listed request db row

/-- The filter of the request, if there is one. -/
theorem requestFilters_ok {request : ListMemosRequest} {fs : List String}
    (h : svc.requestFilters request = .ok fs) :
    ∃ filters, fs.mapM svc.memoService.engine.compileMemoFilter = .ok filters ∧
      ∀ db memo, (∀ f ∈ filters, f db memo = true) ↔ (request.Filter ≠ "" →
        ∀ p, svc.memoService.engine.compileMemoFilter request.Filter = .ok p →
          p db memo = true) := by
  rw [requestFilters] at h
  split_ifs at h with hempty
  · cases h
    exact ⟨[], rfl, fun db memo => by simp [hempty]⟩
  · cases hvalid : StatsService.validateFilter {
        engine := svc.base.engine
        filters := svc.filters
        filters_schema := svc.filters_schema
        dialect := svc.dialect
        quote := svc.base.quote
        contextUserID := svc.base.contextUserID } request.Filter with
    | error err =>
        rw [hvalid] at h
        cases h
    | ok _ =>
        rw [hvalid] at h
        cases h
        rcases validateFilter_ok hvalid with ⟨p, hp⟩
        have hcompile : svc.memoService.engine.compileMemoFilter request.Filter = .ok p := hp
        refine ⟨[p], ?_, fun db memo => ?_⟩
        · rw [List.mapM_cons, hcompile]
          rfl
        · simp [hempty, hcompile]

private theorem orderFind_keeps {request : ListMemosRequest} {find find' : FindMemo}
    (h : orderFind request find = .ok find') : unordered find' = unordered find := by
  rw [orderFind] at h
  split_ifs at h
  · cases h
    rfl
  · cases hparse : parseMemoOrderBy request.OrderBy find with
    | error err =>
        rw [hparse] at h
        cases h
    | ok found =>
        rw [hparse] at h
        cases h
        exact parseMemoOrderBy_keeps hparse

/-- What the query of a listing selects. -/
theorem memosFind_selects (h : svc.Serves user) {request : ListMemosRequest} {find : FindMemo}
    (hfind : svc.memosFind user request = .ok (some find)) :
    ∃ filters, svc.Selects request find filters := by
  rw [memosFind] at hfind
  split at hfind
  · cases hfind
  rename_i hnobody
  rcases Traverse.ok_of_bind hfind with ⟨ordered, hordered, hfind⟩
  rcases Traverse.ok_of_bind hfind with ⟨fs, hfs, hfind⟩
  have hkept : unordered ordered = unordered {
      ExcludeComments := true
      RowStatus := some (listedStatus request)
      CreatorID := if request.State = .ARCHIVED then user.map User.ID else none } :=
    orderFind_keeps hordered
  have hID : ordered.ID = none := congrArg FindMemo.ID hkept
  have hIDList : ordered.IDList = [] := congrArg FindMemo.IDList hkept
  have hUID : ordered.UID = none := congrArg FindMemo.UID hkept
  have hUIDList : ordered.UIDList = [] := congrArg FindMemo.UIDList hkept
  have hstatus : ordered.RowStatus = some (listedStatus request) :=
    congrArg FindMemo.RowStatus hkept
  have hcreator : ordered.CreatorID =
      if request.State = .ARCHIVED then user.map User.ID else none :=
    congrArg FindMemo.CreatorID hkept
  have hvisibility : ordered.VisibilityList = [] := congrArg FindMemo.VisibilityList hkept
  have hcomments : ordered.ExcludeComments = true := congrArg FindMemo.ExcludeComments hkept
  have hlimit : ordered.Limit = none := congrArg FindMemo.Limit hkept
  have hcontent : ordered.ExcludeContent = false := congrArg FindMemo.ExcludeContent hkept
  rcases requestFilters_ok hfs with ⟨filters, hfilters, hholds⟩
  rcases Option.some.inj (Except.ok.inj hfind) with rfl
  cases user with
  | none =>
      refine ⟨filters, hlimit, hcontent, hfilters, fun db row => ?_⟩
      have hnormal : listedStatus request = .NORMAL :=
        if_neg fun harchived => hnobody ⟨harchived, rfl⟩
      rw [hholds, Listed, checkMemoReadAccess_iff h]
      by_cases hrow : row.RowStatus = .NORMAL
      · simp [FindMemo.matchesMemo, hID, hIDList, hUID, hUIDList, hstatus, hcreator, hcomments,
          hnormal, SeenBy, hrow]
        tauto
      · simp [FindMemo.matchesMemo, hstatus, hnormal, hrow]
  | some user =>
      by_cases harchived : request.State = .ARCHIVED
      · have hown : listedStatus request = .ARCHIVED := if_pos harchived
        rw [if_pos harchived, Option.map_some] at hcreator
        dsimp only
        rw [hcreator, if_neg (Option.some_ne_none _)]
        refine ⟨filters, hlimit, hcontent, hfilters, fun db row => ?_⟩
        rw [hholds, Listed, checkMemoReadAccess_iff h]
        simp [FindMemo.matchesMemo, hID, hIDList, hUID, hUIDList, hstatus, hcomments, hvisibility,
          hown, SeenBy, Filter.VisibleTo]
        tauto
      · have hnormal : listedStatus request = .NORMAL := if_neg harchived
        rw [if_neg harchived] at hcreator
        dsimp only
        rw [if_pos hcreator]
        refine ⟨filters ++ [fun _ memo => decide (SeenBy (some user) memo)], hlimit, hcontent, ?_,
          fun db row => ?_⟩
        · rw [List.mapM_append, hfilters]
          have hvisible := h.compile
          simp only [List.mapM_cons, List.mapM_nil, hvisible]
          rfl
        · have hall : (∀ f ∈ filters ++ [fun (_ : Tables) memo => decide (SeenBy (some user) memo)],
              f db row.toMemo = true) ↔
              (∀ f ∈ filters, f db row.toMemo = true) ∧ SeenBy (some user) row.toMemo := by
            simp [or_imp, forall_and]
          rw [hall, hholds, Listed, checkMemoReadAccess_iff h]
          by_cases hrow : row.RowStatus = .NORMAL
          · simp [FindMemo.matchesMemo, hID, hIDList, hUID, hUIDList, hstatus, hcreator, hcomments,
              hvisibility, hnormal, hrow]
            tauto
          · simp [FindMemo.matchesMemo, hstatus, hnormal, hrow]

/-! ## Following the tokens -/

/-- The names of rows whose creators exist, with their contents. -/
def shown (db : Tables) (rows : List FoundMemo) : List (String × String) :=
  (rows.filter fun memo => HasCreator db memo).map fun memo =>
    (memoNamePrefix ++ memo.UID, memo.Content)

private theorem shown_flatten (db : Tables) (pages : List (List FoundMemo)) :
    shown db pages.flatten = (pages.map (shown db)).flatten := by
  rw [shown, List.filter_flatten, List.map_flatten, List.map_map]
  rfl

/-- The tokens of a limit are written and read back, up to an offset. -/
def Writes (format : PageTokenFormat) (limit n : ℕ) : Prop :=
  ∀ offset : ℕ, 0 < offset → offset < n →
    ∃ bytes, bytes ≠ [] ∧
      format.marshal { Limit := Int32.ofInt limit, Offset := Int32.ofInt offset } = .ok bytes ∧
      format.unmarshal bytes = .ok { Limit := Int32.ofInt limit, Offset := Int32.ofInt offset }

theorem normalizePageSize_pos (pageSize : ℤ) : 0 < normalizePageSize pageSize := by
  rw [normalizePageSize]
  split_ifs with hnone hmax
  · decide
  · decide
  · omega

theorem normalizePageSize_le (pageSize : ℤ) : normalizePageSize pageSize ≤ MaxPageSize := by
  rw [normalizePageSize]
  split_ifs with hnone hmax
  · decide
  · exact Nat.le_refl _
  · omega

private theorem normalizePageSize_idem (pageSize : ℤ) :
    normalizePageSize (normalizePageSize pageSize : ℤ) = normalizePageSize pageSize := by
  have hpos := normalizePageSize_pos pageSize
  have hle := normalizePageSize_le pageSize
  rw [normalizePageSize, if_neg (by omega), if_neg (by omega), Int.toNat_natCast]

theorem toInt_ofInt_nat {n : ℕ} (h : n ≤ 2147483647) : (Int32.ofInt n).toInt = n :=
  Int32.toInt_ofInt_of_le (by omega) (by omega)

/-- The token of the next page holds its limit and its offset. -/
theorem getPageToken_ok {limit n offset : ℕ} {request : ListMemosRequest}
    (hwrites : Writes svc.format limit n) (hlimit : limit = normalizePageSize request.PageSize)
    (hpos : 0 < offset) (hlt : offset < n) (hn : n ≤ 2147483647) :
    ∃ token, token ≠ "" ∧ svc.format.getPageToken limit offset = .ok token ∧
      svc.pageOf { request with PageToken := token } = .ok (limit, offset) := by
  rcases hwrites offset hpos hlt with ⟨bytes, hbytes, hmarshal, hunmarshal⟩
  have hwritten : svc.format.getPageToken limit offset =
      .ok (String.ofList (Base64.encode bytes)) := by
    rw [PageTokenFormat.getPageToken, PageTokenFormat.marshalPageToken, hmarshal]
  have hread := svc.format.unmarshalPageToken_encode hunmarshal
  have hsome : String.ofList (Base64.encode bytes) ≠ "" := by
    intro hempty
    refine Base64.encode_ne_nil hbytes ?_
    rw [← String.toList_ofList (l := Base64.encode bytes), hempty]
    rfl
  refine ⟨_, hsome, hwritten, ?_⟩
  rw [pageOf, if_neg hsome, hread]
  have hle := normalizePageSize_le request.PageSize
  have hmax : MaxPageSize = 1000 := rfl
  dsimp only
  rw [toInt_ofInt_nat (by omega), toInt_ofInt_nat (by omega), Int.toNat_natCast, hlimit,
    normalizePageSize_idem]

/-- The response with the rows of a page. -/
theorem ListMemos_rows (h : svc.Serves user) {request : ListMemosRequest} {find : FindMemo}
    (hfind : svc.memosFind user request = .ok (some find)) {limit offset : ℕ}
    (hpage : svc.pageOf request = .ok (limit, offset)) {db : Tables} {rows : List FoundMemo}
    {token : String} (hrows : svc.memoRows find limit offset db = (.ok (rows, token), db)) :
    ∃ messages, svc.ListMemos request db =
        (.ok { Memos := messages, NextPageToken := token }, db) ∧
      messages.map (fun m => (m.Name, m.Content)) = shown db rows := by
  have hcurrent : svc.memoService.fetchCurrentUser = .ok user := h.current
  rw [ListMemos, hcurrent, hpage]
  simp only [Except.mapError, Effect.ofExcept, Effect.pure_bind, hfind]
  rw [Effect.bind_of_ok hrows]
  dsimp only
  split_ifs with hempty
  · exact ⟨[], rfl, by rw [hempty]; rfl⟩
  · rcases memoMessages_ok h db rows with ⟨messages, hmessages, hshown⟩
    rw [Effect.bind_of_ok hmessages]
    exact ⟨messages, rfl, hshown⟩

/-- A page shows its rows, and has a token if there are rows behind it. -/
theorem followToken_eq (h : svc.Serves user) {request : ListMemosRequest} {find : FindMemo}
    (hfind : svc.memosFind user request = .ok (some find))
    {filters : List (Tables → Memo → Bool)} (hselects : svc.Selects request find filters)
    {db : Tables} (hmax : (db.memos.flatMap db.joinMemo).length ≤ 2147483647) {limit : ℕ}
    (hlimit : limit = normalizePageSize request.PageSize)
    (hwrites : Writes svc.format limit (db.memos.flatMap db.joinMemo).length) {token : String}
    {k : ℕ} (htoken : svc.pageOf { request with PageToken := token } = .ok (limit, k * limit)) :
    ∃ messages next, svc.followToken request db token = some (messages, next) ∧
      messages.map (fun m => (m.Name, m.Content)) =
        shown db (Page.page (k * limit) limit (db.selectMemos find filters)) ∧
      if (k + 1) * limit < (db.selectMemos find filters).length then
        ∃ s, next = some s ∧
          svc.pageOf { request with PageToken := s } = .ok (limit, (k + 1) * limit)
      else next = none := by
  have hle : limit ≤ MaxPageSize := hlimit ▸ normalizePageSize_le request.PageSize
  have hmemoRows := @memoRows_eq svc db _ _ hselects.limit hselects.compile _ hle (k * limit)
  have hboundary : k * limit + limit = (k + 1) * limit := (Nat.succ_mul k limit).symm
  have hcount : (db.selectMemos find filters).length ≤ (db.memos.flatMap db.joinMemo).length :=
    StatsService.length_selectMemos_le hselects.limit
  have hpos : 0 < (k + 1) * limit :=
    Nat.mul_pos (Nat.succ_pos k) (hlimit ▸ normalizePageSize_pos request.PageSize)
  have hsame : svc.memosFind user { request with PageToken := token } = .ok (some find) := hfind
  rw [hboundary, ← Int.natCast_add, hboundary] at hmemoRows
  by_cases hnext : (k + 1) * limit < (db.selectMemos find filters).length
  · rcases getPageToken_ok hwrites hlimit hpos (hnext.trans_le hcount) hmax with
      ⟨s, hsome, hwritten, hread⟩
    rw [if_pos hnext, hwritten] at hmemoRows
    rcases ListMemos_rows h hsame htoken hmemoRows with ⟨messages, hresponse, hshown⟩
    refine ⟨messages, some s, ?_, hshown, ?_⟩
    · rw [followToken, hresponse]
      dsimp only
      rw [if_neg hsome]
    · rw [if_pos hnext]
      exact ⟨s, rfl, hread⟩
  · rw [if_neg hnext] at hmemoRows
    rcases ListMemos_rows h hsame htoken hmemoRows with ⟨messages, hresponse, hshown⟩
    refine ⟨messages, none, ?_, hshown, ?_⟩
    · rw [followToken, hresponse]
      rfl
    · rw [if_neg hnext]

/-- The tokens come to an end, and the pages show the rows of the query once each and in order, but
for those whose creators are missing. -/
theorem listMemos_pages (h : svc.Serves user) {request : ListMemosRequest} {find : FindMemo}
    (hfind : svc.memosFind user request = .ok (some find))
    {db : Tables} (hmax : (db.memos.flatMap db.joinMemo).length ≤ 2147483647)
    (hwrites : Writes svc.format (normalizePageSize request.PageSize)
      (db.memos.flatMap db.joinMemo).length) :
    ∃ filters turns pages, svc.Selects request find filters ∧
      collect (svc.followToken request db) turns "" = some pages ∧
      (∀ page ∈ pages, page.length ≤ normalizePageSize request.PageSize) ∧
      pages.flatten.map (fun m => (m.Name, m.Content)) =
        shown db (db.selectMemos find filters) := by
  rcases memosFind_selects h hfind with ⟨filters, hselects⟩
  have hpos := normalizePageSize_pos request.PageSize
  generalize hlimit : normalizePageSize request.PageSize = limit at hpos hwrites ⊢
  have hfollows : FollowsPages (svc.followToken request db) limit (db.selectMemos find filters)
      (List.map fun m : ListedMemo => (m.Name, m.Content)) (shown db)
        fun k s => svc.pageOf { request with PageToken := s } = .ok (limit, k * limit) :=
    fun k s hs => followToken_eq h hfind hselects hmax hlimit.symm hwrites hs
  have hstart : svc.pageOf { request with PageToken := "" } = .ok (limit, 0 * limit) := by
    rw [pageOf, if_pos rfl, hlimit, Nat.zero_mul]
  rcases collect_pages hfollows hpos hstart with ⟨turns, pages, n, hpages, hshown, hall⟩
  refine ⟨filters, turns, pages, hselects, hpages, fun page hpage => ?_, ?_⟩
  · have hmem : page.map (fun m => (m.Name, m.Content)) ∈
        (Page.pages limit (fun _ => db.selectMemos find filters) n).map (shown db) := by
      rw [← hshown]
      exact List.mem_map_of_mem hpage
    rcases List.mem_map.mp hmem with ⟨rows, hrows, hpageRows⟩
    rcases List.mem_map.mp hrows with ⟨i, -, rfl⟩
    have hcount := congrArg List.length hpageRows
    rw [List.length_map, shown, List.length_map] at hcount
    exact hcount.symm.le.trans ((List.length_filter_le _ _).trans (List.length_take_le _ _))
  · rw [List.map_flatten, hshown, ← shown_flatten, hall]

/-! ## Who is shown what -/

/-- The pages of a listing show the memos that the user may read, whatever the filter of the request
is, and without a filter they show all of them. -/
theorem listMemos_readable (h : svc.Serves user) {request : ListMemosRequest}
    {found : Option FindMemo} (hfind : svc.memosFind user request = .ok found) {db : Tables}
    (hmax : (db.memos.flatMap db.joinMemo).length ≤ 2147483647)
    (hwrites : Writes svc.format (normalizePageSize request.PageSize)
      (db.memos.flatMap db.joinMemo).length) :
    ∃ turns pages, collect (svc.followToken request db) turns "" = some pages ∧
      ∀ name, name ∈ pages.flatten.map (fun m => m.Name) ↔
        ∃ memo ∈ db.memos, name = memoNamePrefix ++ memo.UID ∧
          ∃ row ∈ db.joinMemo memo, svc.Listed request db row ∧ HasCreator db row := by
  cases found with
  | none =>
      have hnobody : request.State = .ARCHIVED ∧ user = none := by
        rw [memosFind] at hfind
        by_contra hnot
        rw [if_neg hnot] at hfind
        rcases Traverse.ok_of_bind hfind with ⟨ordered, -, hfind⟩
        rcases Traverse.ok_of_bind hfind with ⟨fs, -, hfind⟩
        cases hfind
      have hround : svc.followToken request db "" = some ([], none) := by
        have hcurrent : svc.memoService.fetchCurrentUser = .ok user := h.current
        have hsame : svc.memosFind user { request with PageToken := "" } = .ok none := hfind
        rw [followToken, ListMemos, hcurrent]
        simp only [Except.mapError, Effect.ofExcept, Effect.pure_bind, hsame]
        rfl
      refine ⟨1, [[]], by rw [collect, hround], fun name => ⟨fun hname => ?_, ?_⟩⟩
      · cases hname
      · rintro ⟨memo, -, -, row, -, ⟨-, hstatus, hread, -⟩, -⟩
        rw [listedStatus, if_pos hnobody.1] at hstatus
        rcases ((checkMemoReadAccess_iff h row.toMemo).mp hread).1 hstatus with ⟨u, hu, -⟩
        rw [hnobody.2] at hu
        cases hu
  | some find =>
      rcases listMemos_pages h hfind hmax hwrites with
        ⟨filters, turns, pages, hselects, hpages, -, hshown⟩
      refine ⟨turns, pages, hpages, fun name => ?_⟩
      have hnames : pages.flatten.map (fun m => m.Name) =
          ((db.selectMemos find filters).filter fun memo => HasCreator db memo).map fun memo =>
            memoNamePrefix ++ memo.UID := by
        have hfst := congrArg (List.map Prod.fst) hshown
        rw [List.map_map, shown, List.map_map] at hfst
        exact hfst
      have hproject (row : FoundMemo) : find.project row = row := by
        rw [FindMemo.project, hselects.content]
        rfl
      rw [hnames, List.mem_map]
      constructor
      · rintro ⟨row, hrow, rfl⟩
        rcases List.mem_filter.mp hrow with ⟨hrow, hcreator⟩
        rcases (Tables.mem_selectMemos hselects.limit).mp hrow with
          ⟨memo, hmemo, joined, hjoined, hmatches, hfilters, rfl⟩
        have htoMemo := Tables.toMemo_of_mem_joinMemo hjoined
        rw [hproject] at hcreator ⊢
        refine ⟨memo, hmemo, by rw [htoMemo], joined, hjoined, ?_, of_decide_eq_true hcreator⟩
        exact (hselects.rows db joined).mp ⟨hmatches, by rw [htoMemo]; exact hfilters⟩
      · rintro ⟨memo, hmemo, rfl, row, hrow, hlisted, hcreator⟩
        have htoMemo := Tables.toMemo_of_mem_joinMemo hrow
        rcases (hselects.rows db row).mpr hlisted with ⟨hmatches, hfilters⟩
        rw [htoMemo] at hfilters
        have hmem := (Tables.mem_selectMemos hselects.limit).mpr
          ⟨memo, hmemo, row, hrow, hmatches, hfilters, hproject row⟩
        exact ⟨row, List.mem_filter.mpr ⟨hmem, decide_eq_true hcreator⟩, by rw [htoMemo]⟩

/-- The first user lists two memos, one on a page. -/
def annListing : ListingService where
  base := .plain
  filters := StatsService.viewerService.filters
  filters_schema := StatsService.viewerService.filters_schema
  dialect := .sqlite
  format :=
    { marshal := fun token =>
        if token = { Limit := 1, Offset := 1 } then .ok ((Base64.decode "CAEQAQ==".toList).getD [])
        else .error "unknown token"
      unmarshal := fun bytes =>
        if Base64.encode bytes = "CAEQAQ==".toList then .ok { Limit := 1, Offset := 1 }
        else .error "unknown token"
      corruptInput := fun _ => "illegal base64 data" }

theorem serves_annListing : annListing.Serves (some { ID := 1, Username := "ada" }) where
  current := rfl
  ids := by
    rintro u hu
    cases hu
    exact ⟨Int.one_pos, by decide⟩
  check := rfl
  snippets content := ⟨content, rfl⟩

theorem writes_annListing : Writes annListing.format 1 2 := by
  intro offset hpos hlt
  have hone : offset = 1 := by omega
  subst hone
  exact ⟨(Base64.decode "CAEQAQ==".toList).getD [], by decide, rfl, rfl⟩

theorem listMemos_pages_ann : ∃ turns pages,
    collect (annListing.followToken { PageSize := 1 } StatsService.viewerTables.toTables) turns "" =
        some pages ∧
      pages.flatten.map (fun m => (m.Name, m.Content)) = [("memos/b", ""), ("memos/a", "")] := by
  rcases @listMemos_pages annListing _ serves_annListing { PageSize := 1 } _ rfl
    StatsService.viewerTables.toTables (by decide) writes_annListing with
    ⟨filters, turns, pages, hselects, hpages, -, hshown⟩
  have hcompile : [visibleMemos (some { ID := 1, Username := "ada" })].mapM
      annListing.memoService.engine.compileMemoFilter = .ok filters := hselects.compile
  rw [List.mapM_cons, serves_annListing.compile] at hcompile
  cases hcompile
  refine ⟨turns, pages, hpages, hshown.trans ?_⟩
  decide +kernel

theorem listMemos_readable_ann : ∃ turns pages,
    collect (annListing.followToken { PageSize := 1 } StatsService.viewerTables.toTables) turns "" =
        some pages ∧ "memos/b" ∈ pages.flatten.map (fun m => m.Name) := by
  rcases @listMemos_readable annListing _ serves_annListing { PageSize := 1 } _ rfl
    StatsService.viewerTables.toTables (by decide) writes_annListing with
    ⟨turns, pages, hpages, hnames⟩
  refine ⟨turns, pages, hpages, (hnames "memos/b").mpr
    ⟨{ ID := 2, UID := "b", CreatorID := 1 }, List.mem_cons_of_mem _ List.mem_cons_self, rfl,
      ⟨{ ID := 2, UID := "b", CreatorID := 1 }, none⟩, List.mem_cons_self,
      ⟨rfl, rfl, rfl, fun hfilter => absurd rfl hfilter⟩,
      ⟨{ ID := 1, Username := "ann" }, List.mem_cons_self, rfl⟩⟩⟩

end ListingService

end Api
end MemosNote
