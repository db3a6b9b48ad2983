import MemosNote.Api.MemoReading
import MemosNote.Api.Shortcut
import MemosNote.Filter.VisibleMemos
import MemosNote.Library.Page
import MemosNote.Library.Traverse

/-!
# Statistics of users

The memos of a user, or of all users, are read page by page and counted.  Who asks sees public
memos, protected ones when signed in, and all of their own.

Main results:

- Theorem {lit}`GetUserStats_ok` and Theorem {lit}`ListAllUserStats_ok`: what the requests count.
- Theorem {lit}`userStats_agree`: they count the same for every user.
-/

namespace MemosNote
namespace Api

open Library Store

/-! ## Statistics -/

/-- How many memos have links, code and tasks. -/
structure MemoTypeStats where
  LinkCount : Int32 := 0
  CodeCount : Int32 := 0
  TodoCount : Int32 := 0
  UndoCount : Int32 := 0
deriving DecidableEq

/-- The statistics of a user. -/
structure UserStats where
  Name : String := ""
  MemoCreatedTimestamps : List ℤ := []
  MemoUpdatedTimestamps : List ℤ := []
  MemoTypeStats : MemoTypeStats := {}
  TagCount : String → Option Int32 := fun _ => none
  PinnedMemos : List String := []
  TotalMemoCount : Int32 := 0

/-- One more memo has the tag. -/
def countTag (count : String → Option Int32) (tag : String) : String → Option Int32 :=
  fun t => if t = tag then some ((count tag).getD 0 + 1) else count t

/-- One more for every property that holds. -/
def MemoTypeStats.countProperty (stats : MemoTypeStats) (p : MemoProperty) : MemoTypeStats where
  LinkCount := if p.HasLink then stats.LinkCount + 1 else stats.LinkCount
  CodeCount := if p.HasCode then stats.CodeCount + 1 else stats.CodeCount
  TodoCount := if p.HasTaskList then stats.TodoCount + 1 else stats.TodoCount
  UndoCount := if p.HasIncompleteTasks then stats.UndoCount + 1 else stats.UndoCount

/-- Count a memo by its properties. -/
def MemoTypeStats.count (stats : MemoTypeStats) (payload : MemoPayload) : MemoTypeStats :=
  payload.Property.elim stats stats.countProperty

/-- What is counted of a memo, but for the total and the pinned memos. -/
def UserStats.count (stats : UserStats) (memo : FoundMemo) : UserStats :=
  { stats with
    MemoCreatedTimestamps := stats.MemoCreatedTimestamps ++ [memo.CreatedTs]
    MemoUpdatedTimestamps := stats.MemoUpdatedTimestamps ++ [memo.UpdatedTs]
    TagCount := memo.Payload.Tags.foldl countTag stats.TagCount
    MemoTypeStats := stats.MemoTypeStats.count memo.Payload }

/-- The resource name of a pinned memo. -/
def pinnedMemoName (username : String) (id : ℤ) : String :=
  buildUserName username ++ "/memos/" ++ toString id

/-! ## The requests -/

/-- The tables, with the keys of the users. -/
structure UserTables extends Tables where
  userIDs : ∀ user ∈ users, 0 < user.ID ∧ user.ID ≤ 2147483647
  userIDs_nodup : (users.map User.ID).Nodup
  usernames_nodup : (users.map User.Username).Nodup

/-- The service of one request: the store, the filter engine, which has the schema of memos, the
database, Go's quoting of texts and the authenticated user. -/
structure StatsService where
  engine : StoreEngine
  filters : Filter.Engine
  filters_schema : filters.context.schema = Filter.newSchema
  dialect : Filter.DialectName
  quote : String → String
  contextUserID : ℤ

/-- The request for the statistics of all users. -/
structure ListAllUserStatsRequest where
  State : StateMessage := .STATE_UNSPECIFIED
  Filter : String := ""
deriving DecidableEq, Repr

namespace StatsService

variable (svc : StatsService)

/-- The store, which filters memos by the engine. -/
def store : StoreEngine :=
  { svc.engine with
    compileMemoFilter := svc.filters.selects (Filter.exactServer svc.dialect) }

/-- The authenticated user, unless there is none or the user is archived. -/
def fetchCurrentUser : StoreM (Option User) := fun db =>
  if svc.contextUserID = 0 then (.ok none, db)
  else
    match db.users.find? fun user => user.ID = svc.contextUserID with
    | none => (.error ("user " ++ toString svc.contextUserID ++ " not found"), db)
    | some user => (.ok (if user.RowStatus = .ARCHIVED then none else some user), db)

/-- The user name in a resource name. -/
def parseUsernameFromName (name : String) : Except String String :=
  match splitName name with
  | [collection, username] =>
      if collection ++ "/" ≠ userNamePrefix then
        .error ("invalid prefix " ++ svc.quote userNamePrefix ++ " in request " ++ svc.quote name)
      else if username = "" then
        .error ("invalid request " ++ svc.quote name ++ " with empty prefix " ++
          svc.quote userNamePrefix)
      else .ok username
  | _ => .error ("invalid request " ++ svc.quote name)

/-- The user of a resource name, if there is one. -/
def resolveUserByName (name : String) : StoreM (Option User) := do
  let username ← Effect.ofExcept (svc.parseUsernameFromName name)
  Effect.read fun db => db.users.find? fun user => user.Username = username

/-- A page of a thousand memos. -/
def memoPage (find : FindMemo) (offset : ℕ) : ApiM (List FoundMemo) :=
  withStatus .Internal (fun err => "failed to list memos: " ++ err)
    (svc.store.listMemos { find with Limit := some 1000, Offset := some offset })

/-- The loop over the pages. -/
def forEachMemoPage {σ : Type} (find : FindMemo) (step : σ → List FoundMemo → σ) :
    ℕ → ℕ → σ → ApiM σ
  | 0, _, acc => pure acc
  | fuel + 1, offset, acc => do
      let memos ← svc.memoPage find offset
      if memos.isEmpty then pure acc
      else forEachMemoPage find step fuel (offset + 1000) (step acc memos)

/-- The loop over the pages; as many turns as there are rows are enough. -/
def forAllMemos {σ : Type} (find : FindMemo) (step : σ → List FoundMemo → σ) (acc : σ) : ApiM σ :=
  fun db =>
    svc.forEachMemoPage find step ((db.memos.flatMap db.joinMemo).length + 1) 0 acc db

/-- The loop of a user's statistics over a page. -/
def addPage (username : String) (stats : UserStats) (memos : List FoundMemo) : UserStats :=
  memos.foldl
    (fun stats memo =>
      let stats := stats.count memo
      if memo.Pinned then
        { stats with PinnedMemos := stats.PinnedMemos ++ [pinnedMemoName username memo.ID] }
      else stats)
    { stats with TotalMemoCount := stats.TotalMemoCount + Int32.ofNat memos.length }

/-- The query of a user's memos. -/
def userStatsFind (currentUser : Option User) (userID : ℤ) : FindMemo where
  CreatorID := some userID
  ExcludeComments := true
  ExcludeContent := true
  RowStatus := some .NORMAL
  VisibilityList :=
    match currentUser with
    | none => [.Public]
    | some user => if user.ID = userID then [] else [.Public, .Protected]

/-- The request for the statistics of one user. -/
def GetUserStats (name : String) : ApiM UserStats := do
  let user ← withStatus .InvalidArgument (fun err => "invalid user name: " ++ err)
    (svc.resolveUserByName name)
  match user with
  | none => Effect.fail (.status .NotFound "user not found")
  | some user => do
      let currentUser ← withStatus .Internal (fun err => "failed to get user: " ++ err)
        svc.fetchCurrentUser
      let stats ← svc.forAllMemos (userStatsFind currentUser user.ID) (addPage user.Username) {}
      pure { stats with Name := buildUserName user.Username ++ "/stats" }

/-- The statistics by user, in the order in which the users came up, and the identifiers of their
pinned memos. -/
structure StatsByUser where
  stats : List (ℤ × UserStats) := []
  pinnedMemoIDs : ℤ → List ℤ := fun _ => []

/-- Change the entry of a user, who gets an empty one first if there is none. -/
def alterEntry (id : ℤ) (f : UserStats → UserStats) : List (ℤ × UserStats) → List (ℤ × UserStats)
  | [] => [(id, f {})]
  | entry :: rest =>
      if entry.1 = id then (id, f entry.2) :: rest else entry :: alterEntry id f rest

/-- Count a memo for its creator. -/
def StatsByUser.add (all : StatsByUser) (memo : FoundMemo) : StatsByUser where
  stats := alterEntry memo.CreatorID (fun stats =>
    { stats.count memo with TotalMemoCount := stats.TotalMemoCount + 1 }) all.stats
  pinnedMemoIDs :=
    if memo.Pinned then
      fun id => if id = memo.CreatorID then all.pinnedMemoIDs id ++ [memo.ID]
        else all.pinnedMemoIDs id
    else all.pinnedMemoIDs

/-- The entry of a user in the response. -/
def userEntry (users : List User) (all : StatsByUser) (entry : ℤ × UserStats) :
    Except Failure UserStats :=
  match users.find? fun user => user.ID = entry.1 with
  | none => .error (.status .Internal "failed to resolve user stats name")
  | some user => .ok { entry.2 with
      Name := buildUserName user.Username ++ "/stats"
      PinnedMemos := (all.pinnedMemoIDs entry.1).map (pinnedMemoName user.Username) }

/-- A filter is not empty, and compiles. -/
def validateFilter (filter : String) : Except String Unit :=
  if filter = "" then .error "filter cannot be empty"
  else
    match svc.filters.compileToStatement filter svc.dialect 0 with
    | .error err => .error ("failed to compile filter: " ++ err)
    | .ok _ => .ok ()

/-- The query of all memos that the current user may see; archived memos are the creator's. -/
def allUserStatsFind (currentUser : Option User) (request : ListAllUserStatsRequest) :
    Option FindMemo :=
  let find : FindMemo := {
    ExcludeComments := true
    ExcludeContent := true
    RowStatus := some (convertStateToStore request.State)
    Filters := if request.Filter = "" then [] else [request.Filter] }
  match currentUser with
  | none =>
      if request.State = .ARCHIVED then none else some { find with VisibilityList := [.Public] }
  | some user =>
      if request.State = .ARCHIVED then some { find with CreatorID := some user.ID }
      else some { find with Filters := find.Filters ++ [visibleMemos (some user)] }

/-- The request for the statistics of all users over the memos that the viewer may see. -/
def ListAllUserStats (request : ListAllUserStatsRequest) : ApiM (List UserStats) := do
  let currentUser ← withStatus .Internal (fun err => "failed to get user: " ++ err)
    svc.fetchCurrentUser
  if request.Filter ≠ "" then
    Effect.ofExcept ((svc.validateFilter request.Filter).mapError fun err =>
      .status .InvalidArgument ("invalid filter: " ++ err))
  match allUserStatsFind currentUser request with
  | none => pure []
  | some find => do
      let all ← svc.forAllMemos find (fun all memos => memos.foldl StatsByUser.add all) {}
      let users ← Effect.read Tables.users
      Effect.ofExcept (all.stats.mapM (userEntry users all))

/-! ## The pages -/

variable {svc}

/-- A page of a query is a page of all its rows. -/
theorem selectMemos_page (db : Tables) (find : FindMemo) (hlimit : find.Limit = none)
    (filters : List (Tables → Memo → Bool)) (offset : ℕ) :
    db.selectMemos { find with Limit := some 1000, Offset := some offset } filters =
      Page.page offset 1000 (db.selectMemos find filters) := by
  have hrows (rows : List FoundMemo) :
      limitRows (some 1000) (some (offset : ℤ)) rows = Page.page offset 1000 rows := by
    simp [limitRows, Page.page]
  have hall (rows : List FoundMemo) : limitRows find.Limit find.Offset rows = rows := by
    rw [hlimit]
    rfl
  rw [Tables.selectMemos, Tables.selectMemos, hrows, hall, Page.page, Page.page, ← List.map_drop,
    ← List.map_take]
  rfl

variable {db : Tables} {find : FindMemo} {filters : List (Tables → Memo → Bool)}

private theorem memoPage_eq (hlimit : find.Limit = none)
    (hfilters : find.Filters.mapM svc.store.compileMemoFilter = .ok filters) (offset : ℕ) :
    svc.memoPage find offset db =
      (.ok (Page.page offset 1000 (db.selectMemos find filters)), db) := by
  have hlist : svc.store.listMemos { find with Limit := some 1000, Offset := some offset } db =
      (.ok (db.selectMemos { find with Limit := some 1000, Offset := some offset } filters),
        db) := by
    rw [StoreEngine.listMemos, hfilters]
    rfl
  rw [memoPage, withStatus, Effect.mapError, hlist, selectMemos_page db find hlimit]
  rfl

private theorem forEachMemoPage_eq {σ : Type} (hlimit : find.Limit = none)
    (hfilters : find.Filters.mapM svc.store.compileMemoFilter = .ok filters)
    (step : σ → List FoundMemo → σ) (fuel offset : ℕ) (acc : σ) :
    svc.forEachMemoPage find step fuel offset acc db =
      (.ok (Page.foldPages 1000 step (db.selectMemos find filters) fuel offset acc), db) := by
  induction fuel generalizing offset acc with
  | zero => rfl
  | succ fuel ih =>
      rw [forEachMemoPage, Effect.bind_of_ok (memoPage_eq hlimit hfilters offset), Page.foldPages]
      split_ifs
      · rfl
      · exact ih _ _

theorem length_selectMemos_le (hlimit : find.Limit = none) :
    (db.selectMemos find filters).length ≤ (db.memos.flatMap db.joinMemo).length := by
  rw [Tables.selectMemos, List.length_map, hlimit, limitRows, FindMemo.orderBy,
    List.length_insertionSort]
  exact List.length_filter_le _ _

/-- The loop goes over all rows of the query. -/
theorem forAllMemos_eq {σ : Type} (hlimit : find.Limit = none)
    (hfilters : find.Filters.mapM svc.store.compileMemoFilter = .ok filters)
    {step : σ → List FoundMemo → σ} (hnil : ∀ acc, step acc [] = acc)
    (happend : ∀ acc l m, step (step acc l) m = step acc (l ++ m)) (acc : σ) :
    svc.forAllMemos find step acc db = (.ok (step acc (db.selectMemos find filters)), db) := by
  have hlength : (db.selectMemos find filters).length ≤ (db.memos.flatMap db.joinMemo).length :=
    length_selectMemos_le hlimit
  rw [forAllMemos, forEachMemoPage_eq hlimit hfilters,
    Page.foldPages_eq (by decide) hnil happend _ _ _ _ (by omega), List.drop_zero]

/-! ## What is counted -/

/-- The counts of some memos, but for the pinned ones. -/
def tally (stats : UserStats) (memos : List FoundMemo) : UserStats where
  Name := stats.Name
  MemoCreatedTimestamps := stats.MemoCreatedTimestamps ++ memos.map fun memo => memo.CreatedTs
  MemoUpdatedTimestamps := stats.MemoUpdatedTimestamps ++ memos.map fun memo => memo.UpdatedTs
  MemoTypeStats := memos.foldl (fun types memo => types.count memo.Payload) stats.MemoTypeStats
  TagCount := memos.foldl (fun count memo => memo.Payload.Tags.foldl countTag count) stats.TagCount
  PinnedMemos := stats.PinnedMemos
  TotalMemoCount := stats.TotalMemoCount + Int32.ofNat memos.length

theorem tally_nil (stats : UserStats) : tally stats [] = stats := by
  simp [tally]

theorem tally_append (stats : UserStats) (l m : List FoundMemo) :
    tally (tally stats l) m = tally stats (l ++ m) := by
  simp [tally, Int32.ofNat_add, Int32.add_assoc]

/-- The pinned memos of some memos. -/
def pinnedNames (username : String) (memos : List FoundMemo) : List String :=
  (memos.filter fun memo => memo.Pinned).map fun memo => pinnedMemoName username memo.ID

theorem addPage_eq (username : String) (stats : UserStats) (memos : List FoundMemo) :
    addPage username stats memos =
      { tally stats memos with
        PinnedMemos := stats.PinnedMemos ++ pinnedNames username memos } := by
  have hloop (stats : UserStats) : memos.foldl
      (fun stats memo =>
        let stats := stats.count memo
        if memo.Pinned then
          { stats with PinnedMemos := stats.PinnedMemos ++ [pinnedMemoName username memo.ID] }
        else stats) stats =
      { tally stats memos with
        PinnedMemos := stats.PinnedMemos ++ pinnedNames username memos
        TotalMemoCount := stats.TotalMemoCount } := by
    induction memos generalizing stats with
    | nil => simp [tally, pinnedNames]
    | cons memo memos ih =>
        rw [List.foldl_cons, ih]
        by_cases hpinned : memo.Pinned <;>
          simp [tally, pinnedNames, UserStats.count, hpinned]
  rw [addPage, hloop]
  rfl

private theorem addPage_nil (username : String) (stats : UserStats) :
    addPage username stats [] = stats := by
  rw [addPage_eq, tally_nil]
  simp [pinnedNames]

private theorem addPage_append (username : String) (stats : UserStats) (l m : List FoundMemo) :
    addPage username (addPage username stats l) m = addPage username stats (l ++ m) := by
  simp only [addPage_eq, ← tally_append]
  simp [tally, pinnedNames]

/-! ## What is counted by user -/

/-- The memos of a user. -/
def memosOf (id : ℤ) (memos : List FoundMemo) : List FoundMemo :=
  memos.filter fun memo => memo.CreatorID = id

/-- The entries of users that come up once each. -/
theorem alterEntry_map {f : UserStats → UserStats} {counts : ℤ → UserStats} {ids : List ℤ} {id : ℤ}
    (hnodup : ids.Nodup) (hnew : id ∉ ids → counts id = {}) :
    alterEntry id f (ids.map fun k => (k, counts k)) =
      (if id ∈ ids then ids else ids ++ [id]).map fun k =>
        (k, if k = id then f (counts k) else counts k) := by
  induction ids with
  | nil => simp [alterEntry, hnew List.not_mem_nil]
  | cons k ids ih =>
      rcases List.nodup_cons.mp hnodup with ⟨hk, hids⟩
      rw [List.map_cons, alterEntry]
      by_cases hkid : k = id
      · have hrest : ids.map (fun k => (k, counts k)) =
            ids.map fun k => (k, if k = id then f (counts k) else counts k) := by
          apply List.map_congr_left
          intro j hj
          rw [if_neg]
          rintro rfl
          exact hk (hkid ▸ hj)
        rw [if_pos hkid, hrest, ← hkid, if_pos List.mem_cons_self, List.map_cons, if_pos rfl]
      · have hmem : id ∈ k :: ids ↔ id ∈ ids := by simp [Ne.symm hkid]
        have hrest := ih hids fun hid => hnew fun h => hid (hmem.mp h)
        rw [if_neg hkid, hrest]
        by_cases hid : id ∈ ids
        · rw [if_pos hid, if_pos (hmem.mpr hid), List.map_cons, if_neg hkid]
        · rw [if_neg hid, if_neg fun h => hid (hmem.mp h), List.cons_append, List.map_cons,
            if_neg hkid]

/-- What is counted by user after some memos. -/
theorem foldl_add (memos : List FoundMemo) :
    (∃ ids : List ℤ, ids.Nodup ∧ (∀ memo ∈ memos, memo.CreatorID ∈ ids) ∧
      (memos.foldl StatsByUser.add {}).stats = ids.map fun k => (k, tally {} (memosOf k memos))) ∧
      ∀ k, (memos.foldl StatsByUser.add {}).pinnedMemoIDs k =
        ((memosOf k memos).filter fun memo => memo.Pinned).map fun memo => memo.ID := by
  induction memos using List.reverseRecOn with
  | nil => exact ⟨⟨[], List.nodup_nil, by simp, rfl⟩, fun _ => rfl⟩
  | append_singleton memos memo ih =>
      rcases ih with ⟨⟨ids, hnodup, hids, hstats⟩, hpinned⟩
      have hof (k : ℤ) : memosOf k (memos ++ [memo]) =
          memosOf k memos ++ if memo.CreatorID = k then [memo] else [] := by
        by_cases hk : memo.CreatorID = k <;> simp [memosOf, hk]
      rw [List.foldl_append, List.foldl_cons, List.foldl_nil]
      constructor
      · have hnew : memo.CreatorID ∉ ids → tally {} (memosOf memo.CreatorID memos) = {} := by
          intro hid
          have hnone : memosOf memo.CreatorID memos = [] := by
            rw [memosOf, List.filter_eq_nil_iff]
            intro m hm hcreator
            exact hid (of_decide_eq_true hcreator ▸ hids m hm)
          rw [hnone, tally_nil]
        refine ⟨if memo.CreatorID ∈ ids then ids else ids ++ [memo.CreatorID], ?_, ?_, ?_⟩
        · split_ifs with hid
          · exact hnodup
          · rw [← List.concat_eq_append]
            exact hnodup.concat hid
        · intro m hm
          have hmem : m.CreatorID ∈ ids ∨ m.CreatorID = memo.CreatorID := by
            rcases List.mem_append.mp hm with hm | hm
            · exact Or.inl (hids m hm)
            · rcases List.mem_singleton.mp hm with rfl
              exact Or.inr rfl
          split_ifs with hid
          · rcases hmem with hmem | hmem
            · exact hmem
            · exact hmem ▸ hid
          · rcases hmem with hmem | hmem
            · exact List.mem_append_left _ hmem
            · exact List.mem_append_right _ (List.mem_singleton.mpr hmem)
        · rw [StatsByUser.add, hstats, alterEntry_map hnodup hnew]
          apply List.map_congr_left
          intro k _
          rw [hof, ← tally_append]
          by_cases hk : k = memo.CreatorID
          · rw [if_pos hk, if_pos hk.symm]
            rfl
          · rw [if_neg hk, if_neg (Ne.symm hk), tally_nil]
      · intro k
        rw [hof, List.filter_append, List.map_append, ← hpinned, StatsByUser.add]
        by_cases hp : memo.Pinned
        · by_cases hk : k = memo.CreatorID
          · simp [hp, hk]
          · simp [hp, hk, Ne.symm hk]
        · by_cases hk : memo.CreatorID = k <;> simp [hp, hk]

/-! ## What the requests answer -/

/-- The statistics of a user from the memos that are counted. -/
def statsOf (username : String) (memos : List FoundMemo) : UserStats :=
  { tally {} memos with
    Name := buildUserName username ++ "/stats"
    PinnedMemos := pinnedNames username memos }

theorem fetchCurrentUser_ok {currentUser : Option User} {db' : Tables}
    (h : svc.fetchCurrentUser db = (.ok currentUser, db')) :
    db' = db ∧ ∀ user, currentUser = some user → user ∈ db.users ∧ user.ID = svc.contextUserID := by
  rw [fetchCurrentUser] at h
  split at h
  · rcases Prod.mk.inj h with ⟨hnone, rfl⟩
    rcases Except.ok.inj hnone with rfl
    exact ⟨rfl, fun user huser => nomatch huser⟩
  · cases hfind : db.users.find? fun user => user.ID = svc.contextUserID with
    | none =>
        rw [hfind] at h
        cases h
    | some found =>
        rw [hfind] at h
        rcases Prod.mk.inj h with ⟨hcurrent, rfl⟩
        refine ⟨rfl, fun user huser => ?_⟩
        rcases Except.ok.inj hcurrent with rfl
        split_ifs at huser
        rcases Option.some.inj huser with rfl
        exact ⟨List.mem_of_find?_eq_some hfind, by simpa using List.find?_some hfind⟩

private theorem resolveUserByName_ok {name : String} {user : Option User} {db' : Tables}
    (h : svc.resolveUserByName name db = (.ok user, db')) :
    db' = db ∧ ∀ u, user = some u → u ∈ db.users := by
  rw [resolveUserByName] at h
  rcases Effect.ok_of_bind h with ⟨username, t, husername, hread⟩
  rcases Effect.ok_of_ofExcept husername with ⟨-, rfl⟩
  rcases Prod.mk.inj hread with ⟨hfind, rfl⟩
  exact ⟨rfl, fun u hu => List.mem_of_find?_eq_some ((Except.ok.inj hfind).trans hu)⟩

private theorem statsOf_eq_addPage (username : String) (memos : List FoundMemo) :
    statsOf username memos =
      { addPage username {} memos with Name := buildUserName username ++ "/stats" } := by
  rw [addPage_eq]
  rfl

/-- A user's statistics count the memos of the query. -/
theorem GetUserStats_ok {name : String} {stats : UserStats} {db' : Tables}
    (h : svc.GetUserStats name db = (.ok stats, db')) :
    ∃ user ∈ db.users, ∃ currentUser, svc.fetchCurrentUser db = (.ok currentUser, db) ∧
      stats = statsOf user.Username (db.selectMemos (userStatsFind currentUser user.ID) []) := by
  rw [GetUserStats] at h
  rcases Effect.ok_of_bind h with ⟨found, t, hresolve, hstats⟩
  rcases resolveUserByName_ok (Effect.ok_of_mapError hresolve) with ⟨rfl, hfound⟩
  cases found with
  | none => cases hstats
  | some user =>
      rcases Effect.ok_of_bind hstats with ⟨currentUser, t, hcurrent, hloop⟩
      have hcurrent' := Effect.ok_of_mapError hcurrent
      rcases fetchCurrentUser_ok hcurrent' with ⟨rfl, -⟩
      have hall : svc.forAllMemos (userStatsFind currentUser user.ID) (addPage user.Username) {} t =
          (.ok (addPage user.Username {} (t.selectMemos (userStatsFind currentUser user.ID) [])),
            t) :=
        forAllMemos_eq rfl rfl (addPage_nil user.Username) (addPage_append user.Username) {}
      rw [Effect.bind_of_ok hall] at hloop
      rcases Prod.mk.inj hloop with ⟨hstats, -⟩
      refine ⟨user, hfound user rfl, currentUser, hcurrent', ?_⟩
      rw [statsOf_eq_addPage]
      exact (Except.ok.inj hstats).symm

/-- The entries of the response count the memos of the query, user by user. -/
theorem userEntry_ok {memos : List FoundMemo} {stats : List UserStats}
    (h : (memos.foldl StatsByUser.add {}).stats.mapM
      (userEntry db.users (memos.foldl StatsByUser.add {})) = .ok stats) :
    ∀ entry ∈ stats, ∃ user ∈ db.users,
      entry = statsOf user.Username (memosOf user.ID memos) := by
  intro entry hentry
  rcases foldl_add memos with ⟨⟨ids, -, -, hstats⟩, hpinned⟩
  rcases Traverse.exists_left (Traverse.mapM_ok_iff.mp h) entry hentry with ⟨counted, hcounted, hok⟩
  rw [hstats] at hcounted
  rcases List.mem_map.mp hcounted with ⟨id, -, rfl⟩
  rw [userEntry] at hok
  cases hfind : db.users.find? fun user => user.ID = id with
  | none =>
      simp only [hfind] at hok
      cases hok
  | some user =>
      simp only [hfind] at hok
      have hid : user.ID = id := by simpa using List.find?_some hfind
      refine ⟨user, List.mem_of_find?_eq_some hfind, ?_⟩
      rw [← Except.ok.inj hok, hpinned, statsOf, hid, pinnedNames, List.map_map]
      rfl

/-! ## The two requests -/

/-- Of all memos that a query finds, those of a user are what a query for the user finds. -/
theorem memosOf_selectMemos {find' : FindMemo} {filters' : List (Tables → Memo → Bool)} {id : ℤ}
    (hlimit : find.Limit = none) (hlimit' : find'.Limit = none)
    (horder : find'.orderKey = find.orderKey)
    (hcontent : find'.ExcludeContent = find.ExcludeContent)
    (hmatches : ∀ row : FoundMemo,
      (find.matchesMemo row ∧ ∀ f ∈ filters, f db row.toMemo) ∧ row.CreatorID = id ↔
        find'.matchesMemo row ∧ ∀ f ∈ filters', f db row.toMemo) :
    memosOf id (db.selectMemos find filters) = db.selectMemos find' filters' := by
  have hproject : find'.project = find.project := by
    funext row
    rw [FindMemo.project, FindMemo.project, hcontent]
  have hcreator : ((fun memo : FoundMemo => decide (memo.CreatorID = id)) ∘ find.project) =
      fun memo => decide (memo.CreatorID = id) := by
    funext row
    rw [Function.comp_apply, FindMemo.project]
    split_ifs <;> rfl
  have htotal : Std.Total fun a b : FoundMemo => find.orderKey a.toMemo ≤ find.orderKey b.toMemo :=
    ⟨fun a b => le_total (find.orderKey a.toMemo) (find.orderKey b.toMemo)⟩
  have htrans : IsTrans FoundMemo fun a b => find.orderKey a.toMemo ≤ find.orderKey b.toMemo :=
    ⟨fun _ _ _ => le_trans⟩
  have hrows (f : FindMemo) (hf : f.Limit = none) (rows : List FoundMemo) :
      limitRows f.Limit f.Offset rows = rows := by
    rw [hf]
    rfl
  rw [memosOf, Tables.selectMemos, Tables.selectMemos, hrows find hlimit, hrows find' hlimit',
    hproject, List.filter_map, hcreator, FindMemo.orderBy, FindMemo.orderBy, horder,
    Page.filter_insertionSort, List.filter_filter]
  congr 2
  apply List.filter_congr
  intro row _
  rw [Bool.eq_iff_iff]
  simp only [Bool.and_eq_true, List.all_eq_true, decide_eq_true_eq]
  rw [and_comm]
  exact hmatches row

/-- The query of all memos in the normal state. -/
theorem allUserStatsFind_normal (currentUser : Option User) {request : ListAllUserStatsRequest}
    (hstate : request.State ≠ .ARCHIVED) (hfilter : request.Filter = "") :
    allUserStatsFind currentUser request = some {
      ExcludeComments := true
      ExcludeContent := true
      RowStatus := some .NORMAL
      VisibilityList := if currentUser.isNone then [.Public] else []
      Filters := currentUser.toList.map fun user => visibleMemos (some user) } := by
  have hnormal : convertStateToStore request.State = .NORMAL := by
    cases hs : request.State with
    | ARCHIVED => exact absurd hs hstate
    | _ => rfl
  cases currentUser <;> simp [allUserStatsFind, hstate, hfilter, hnormal]

/-- The memos that the requests count for a user. -/
theorem memosOf_allUserStats (db : Tables) (id : ℤ) (currentUser : Option User)
    {request : ListAllUserStatsRequest} (hstate : request.State ≠ .ARCHIVED)
    (hfilter : request.Filter = "") (hfind : allUserStatsFind currentUser request = some find) :
    memosOf id (db.selectMemos find (currentUser.toList.map fun user _ memo =>
      decide (Filter.VisibleTo user.ID memo))) =
        db.selectMemos (userStatsFind currentUser id) [] := by
  rw [allUserStatsFind_normal currentUser hstate hfilter] at hfind
  rcases Option.some.inj hfind with rfl
  apply memosOf_selectMemos
  · rfl
  · rfl
  · rfl
  · rfl
  intro row
  cases currentUser with
  | none =>
      simp [FindMemo.matchesMemo, userStatsFind]
      tauto
  | some user =>
      by_cases hown : user.ID = id
      · simp [FindMemo.matchesMemo, userStatsFind, hown, Filter.VisibleTo]
        tauto
      · have hother (hcreator : row.CreatorID = id) : row.CreatorID ≠ user.ID :=
          fun huser => hown (huser.symm.trans hcreator)
        simp [FindMemo.matchesMemo, userStatsFind, hown, Filter.VisibleTo]
        tauto

/-- The text of the filter by visibility is not blank. -/
theorem visibleMemos_not_blank (user : User) :
    ¬(visibleMemos (some user)).toList.all Filter.isSpace := by
  have hfirst : Filter.isSpace 'c' = false := by decide
  simp [visibleMemos, hfirst]

private theorem compile_visibleMemos {user : User} (hid : 0 < user.ID ∧ user.ID ≤ 2147483647)
    (hcheck : svc.filters.check (visibleMemos (some user)) =
      .ok (Filter.visibleMemosExpr (Int64.ofInt user.ID))) :
    svc.store.compileMemoFilter (visibleMemos (some user)) =
      .ok fun _ memo => decide (Filter.VisibleTo user.ID memo) := by
  have hselects := Filter.selects_visibleMemos svc.filters_schema (visibleMemos_not_blank user)
    hcheck svc.dialect
  have hint : (Int64.ofInt user.ID).toInt = user.ID :=
    Int64.toInt_ofInt_of_le (by omega) (by omega)
  rw [hint] at hselects
  exact hselects

/-- The entries of all users count the memos of the queries of the single users. -/
theorem ListAllUserStats_ok {db : UserTables} {request : ListAllUserStatsRequest}
    (hstate : request.State ≠ .ARCHIVED) (hfilter : request.Filter = "")
    (hcheck : ∀ user ∈ db.users, svc.filters.check (visibleMemos (some user)) =
      .ok (Filter.visibleMemosExpr (Int64.ofInt user.ID)))
    {stats : List UserStats} {db' : Tables}
    (h : svc.ListAllUserStats request db.toTables = (.ok stats, db')) :
    ∃ currentUser, svc.fetchCurrentUser db.toTables = (.ok currentUser, db.toTables) ∧
      ∀ entry ∈ stats, ∃ user ∈ db.users, entry = statsOf user.Username
        (db.toTables.selectMemos (userStatsFind currentUser user.ID) []) := by
  rw [ListAllUserStats] at h
  rcases Effect.ok_of_bind h with ⟨currentUser, t, hcurrent, hrest⟩
  have hcurrent' := Effect.ok_of_mapError hcurrent
  rcases fetchCurrentUser_ok hcurrent' with ⟨rfl, hmem⟩
  refine ⟨currentUser, hcurrent', ?_⟩
  have hfind := allUserStatsFind_normal currentUser hstate hfilter
  have hmemos (id : ℤ) := memosOf_allUserStats db.toTables id currentUser hstate hfilter hfind
  have hcompile : (currentUser.toList.map fun user => visibleMemos (some user)).mapM
      svc.store.compileMemoFilter = .ok (currentUser.toList.map fun user _ memo =>
        decide (Filter.VisibleTo user.ID memo)) := by
    cases currentUser with
    | none => rfl
    | some user =>
        have huser := (hmem user rfl).1
        have hvisible := compile_visibleMemos (db.userIDs user huser) (hcheck user huser)
        simp only [Option.toList_some, List.map_cons, List.map_nil, List.mapM_cons, hvisible]
        rfl
  have hloop (find : FindMemo) {filters : List (Tables → Memo → Bool)} (hlimit : find.Limit = none)
      (hfilters : find.Filters.mapM svc.store.compileMemoFilter = .ok filters) :
      svc.forAllMemos find (fun all memos => memos.foldl StatsByUser.add all) {} db.toTables =
        (.ok ((db.toTables.selectMemos find filters).foldl StatsByUser.add {}), db.toTables) :=
    forAllMemos_eq hlimit hfilters (fun _ => rfl) (fun _ _ _ => List.foldl_append.symm) _
  simp only [hfilter, ne_eq, not_true_eq_false, if_false, hfind] at hrest
  rw [Effect.bind_of_ok (hloop _ rfl hcompile)] at hrest
  have hentries := Effect.ok_of_ofExcept hrest
  intro entry hentry
  rcases userEntry_ok hentries.1 entry hentry with ⟨user, huser, hstats⟩
  rw [hmemos user.ID] at hstats
  exact ⟨user, huser, hstats⟩

theorem statsOf_Name (username : String) (memos : List FoundMemo) :
    (statsOf username memos).Name = buildUserName username ++ "/stats" :=
  rfl

/-- The two requests answer the same for every user. -/
theorem userStats_agree {svc : StatsService} {db : UserTables}
    (hcheck : ∀ user ∈ db.users, svc.filters.check (visibleMemos (some user)) =
      .ok (Filter.visibleMemosExpr (Int64.ofInt user.ID)))
    {request : ListAllUserStatsRequest} (hstate : request.State ≠ .ARCHIVED)
    (hfilter : request.Filter = "") {name : String} {stats entry : UserStats}
    {all : List UserStats} {db₁ db₂ : Tables}
    (hget : svc.GetUserStats name db.toTables = (.ok stats, db₁))
    (hlist : svc.ListAllUserStats request db.toTables = (.ok all, db₂))
    (hentry : entry ∈ all) (hname : entry.Name = stats.Name) : entry = stats := by
  rcases GetUserStats_ok hget with ⟨user, huser, currentUser, hcurrent, hstats⟩
  rcases ListAllUserStats_ok hstate hfilter hcheck hlist with ⟨currentUser', hcurrent', hall⟩
  rcases hall entry hentry with ⟨user', huser', hentries⟩
  have hviewer : currentUser' = currentUser :=
    Except.ok.inj (Prod.mk.inj (hcurrent'.symm.trans hcurrent)).1
  have husername : user'.Username = user.Username := by
    rw [hstats, hentries, statsOf_Name, statsOf_Name, String.append_left_inj] at hname
    exact (String.append_right_inj _).mp hname
  have hsame : user' = user :=
    List.inj_on_of_nodup_map db.usernames_nodup huser' huser husername
  rw [hstats, hentries, hviewer, hsame]

/-- A viewer of another user's memos. -/
def viewerUser : User := { ID := 2, Username := "bob" }

/-- A memo for signed-in users. -/
def viewerMemo : Memo where
  ID := 1
  UID := "a"
  CreatorID := 1
  Visibility := .Protected
  Pinned := true

/-- A protected memo and a private one of the same creator. -/
def viewerTables : UserTables where
  users := [{ ID := 1, Username := "ann" }, viewerUser]
  memos := [viewerMemo, { ID := 2, UID := "b", CreatorID := 1 }]
  attachments := []
  inboxes := []
  memoSequence := 2
  memoSequence_nonneg := Int.natCast_nonneg 2
  memoIDs := by
    intro memo hmemo
    rcases List.mem_pair.mp hmemo with rfl | rfl
    · exact ⟨Int.one_pos, by decide⟩
    · exact ⟨by decide, Int.le_refl 2⟩
  memoIDs_nodup := List.nodup_cons.mpr
    ⟨fun h => absurd (List.mem_singleton.mp h) (by decide), List.nodup_singleton 2⟩
  memoUIDs_nodup := List.nodup_cons.mpr
    ⟨fun h => absurd (List.mem_singleton.mp h) (by decide), List.nodup_singleton "b"⟩
  memoRelations_nodup := List.nodup_nil
  attachmentIDs_nodup := List.nodup_nil
  attachmentUIDs_nodup := List.nodup_nil
  inboxIDs_nodup := List.nodup_nil
  userIDs := by
    intro user huser
    rcases List.mem_pair.mp huser with rfl | rfl
    · exact ⟨Int.one_pos, by decide⟩
    · exact ⟨by decide, by decide⟩
  userIDs_nodup := List.nodup_cons.mpr
    ⟨fun h => absurd (List.mem_singleton.mp h) (by decide), List.nodup_singleton 2⟩
  usernames_nodup := List.nodup_cons.mpr
    ⟨fun h => absurd (List.mem_singleton.mp h) (by decide), List.nodup_singleton "bob"⟩

/-- The service with a signed-in viewer. -/
def viewerService : StatsService where
  engine := .plain
  filters :=
    { context :=
        { schema := Filter.newSchema
          now := 0
          parseTimestamp := fun _ => .error "no timestamp"
          parseDuration := fun _ => .error "no duration" }
      check := fun filter =>
        if filter = visibleMemos (some { ID := 1, Username := "ann" }) then
          .ok (Filter.visibleMemosExpr 1)
        else if filter = visibleMemos (some viewerUser) then .ok (Filter.visibleMemosExpr 2)
        else .error "undeclared reference" }
  filters_schema := rfl
  dialect := .sqlite
  quote := id
  contextUserID := 2

theorem userStats_agree_viewer :
    ∃ stats entry all, (viewerService.GetUserStats "users/ann" viewerTables.toTables).1 =
        .ok stats ∧ (viewerService.ListAllUserStats {} viewerTables.toTables).1 = .ok all ∧
      entry ∈ all ∧ entry = stats := by
  have hget : viewerService.GetUserStats "users/ann" viewerTables.toTables =
      (.ok (statsOf "ann" [{ viewerMemo with ParentUID := none }]), viewerTables.toTables) :=
    rfl
  have hlist : viewerService.ListAllUserStats {} viewerTables.toTables =
      (.ok [statsOf "ann" [{ viewerMemo with ParentUID := none }]], viewerTables.toTables) :=
    rfl
  have hcheck : ∀ user ∈ viewerTables.users,
      viewerService.filters.check (visibleMemos (some user)) =
        .ok (Filter.visibleMemosExpr (Int64.ofInt user.ID)) := by
    intro user huser
    rcases List.mem_pair.mp huser with rfl | rfl
    · rfl
    · rfl
  exact ⟨_, _, _, congrArg Prod.fst hget, congrArg Prod.fst hlist, List.mem_cons_self,
    userStats_agree hcheck (by decide) rfl hget hlist List.mem_cons_self rfl⟩

end StatsService

end Api
end MemosNote
