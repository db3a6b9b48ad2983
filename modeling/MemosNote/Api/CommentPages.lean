import MemosNote.Api.MentionRuns
import MemosNote.Api.ReadPaths

/-!
# Listing the comments of a memo

The comments of a memo are listed page by page; a page holds some of the relations, and shows their
memos in the order of a query of its own.

Main results:

- Theorem {lit}`names_commentMemos_perm`: a page shows the memo of each of its comments once.
- Theorem {lit}`listMemoComments_pages`: following the tokens shows each comment once.
-/

namespace MemosNote
namespace Api

open Library Store

namespace ListingService

variable {svc : ListingService} {user : Option User} {db : Tables}

/-- A client asks for a page of comments, and for the next one if there is a token. -/
def followComments (svc : ListingService) (request : ListMemoCommentsRequest) (db : Tables)
    (token : String) : Option (List ListedMemo × Option String) :=
  match (svc.ListMemoComments { request with PageToken := token } db).1 with
  | .error _ => none
  | .ok response => some (response.Memos,
      if response.NextPageToken = "" then none else some response.NextPageToken)

/-! ## One row for each memo -/

/-- Where every comment has one parent, a memo has one row. -/
theorem joinMemo_eq (h : OneParent db) (memo : Memo) :
    ∃ parentUID, db.joinMemo memo = [⟨memo, parentUID⟩] := by
  rw [Tables.joinMemo]
  have hsame : ∀ r ∈ db.commentRelations memo.ID, ∀ r' ∈ db.commentRelations memo.ID, r = r' := by
    intro r hr r' hr'
    rcases Api.mem_commentRelations.mp hr with ⟨hcomment, hid⟩
    rcases Api.mem_commentRelations.mp hr' with ⟨hcomment', hid'⟩
    exact h r r' hcomment hcomment' (hid.trans hid'.symm)
  have hnodup : (db.commentRelations memo.ID).Nodup := db.memoRelations_nodup.filter _
  cases hrelations : db.commentRelations memo.ID with
  | nil => exact ⟨none, rfl⟩
  | cons r rest =>
      rw [hrelations] at hsame hnodup
      cases rest with
      | nil => exact ⟨_, rfl⟩
      | cons r' rest =>
          have heq := hsame r List.mem_cons_self r' (List.mem_cons_of_mem _ List.mem_cons_self)
          exact absurd heq (List.ne_of_not_mem_cons (List.nodup_cons.mp hnodup).1)

private theorem map_toMemo_flatMap (h : OneParent db) (memos : List Memo) :
    (memos.flatMap db.joinMemo).map FoundMemo.toMemo = memos := by
  induction memos with
  | nil => rfl
  | cons memo memos ih =>
      rcases joinMemo_eq h memo with ⟨parentUID, hjoin⟩
      rw [List.flatMap_cons, List.map_append, ih, hjoin]
      rfl

/-- The rows of the memos of comments have different names. -/
theorem nodup_names_commentMemos (h : OneParent db) (relations : List MemoRelation) :
    ((commentMemos db relations).map fun row => memoNamePrefix ++ row.UID).Nodup := by
  rw [commentMemos]
  split_ifs
  · exact List.nodup_nil
  · have hproject : (({ IDList := relations.map MemoRelation.MemoID } : FindMemo).project :
        FoundMemo → FoundMemo) = id := rfl
    rw [Tables.selectMemos, hproject, List.map_id]
    refine ((List.perm_insertionSort _ _).map _).nodup_iff.mpr ?_
    refine List.Nodup.sublist (List.filter_sublist.map _) ?_
    have hnames : (db.memos.flatMap db.joinMemo).map (fun row => memoNamePrefix ++ row.UID) =
        (db.memos.map Memo.UID).map (memoNamePrefix ++ ·) := by
      have hmemos := congrArg (List.map fun memo : Memo => memoNamePrefix ++ memo.UID)
        (map_toMemo_flatMap h db.memos)
      rw [List.map_map] at hmemos
      exact hmemos.trans (List.map_map).symm
    rw [hnames]
    exact db.memoUIDs_nodup.map (fun a b hab => by simpa using hab)

/-- The name of a memo that is shown, if it exists and has a creator. -/
def shownName (db : Tables) (memoID : ℤ) : Option String :=
  (db.memos.find? fun m => m.ID = memoID).bind fun m =>
    if HasCreator db ⟨m, none⟩ then some (memoNamePrefix ++ m.UID) else none

theorem mem_shownName {id : ℤ} {name : String} : name ∈ shownName db id ↔
    ∃ memo ∈ db.memos, memo.ID = id ∧ HasCreator db ⟨memo, none⟩ ∧
      name = memoNamePrefix ++ memo.UID := by
  rw [shownName, Option.mem_bind_iff]
  constructor
  · rintro ⟨memo, hfind, hname⟩
    have hid : memo.ID = id := by simpa using List.find?_some hfind
    split_ifs at hname with hcreator
    · exact ⟨memo, List.mem_of_find?_eq_some hfind, hid, hcreator, (Option.some.inj hname).symm⟩
    · cases hname
  · rintro ⟨memo, hmemo, rfl, hcreator, rfl⟩
    refine ⟨memo, ?_, ?_⟩
    · cases hfind : db.memos.find? fun m => m.ID = memo.ID with
      | none => exact absurd (decide_eq_true rfl) (List.find?_eq_none.mp hfind memo hmemo)
      | some m =>
          have hid : m.ID = memo.ID := by simpa using List.find?_some hfind
          rw [db.eq_of_memoID_eq (List.mem_of_find?_eq_some hfind) hmemo hid]
          rfl
    · rw [if_pos hcreator]
      rfl

theorem nodup_shownNames {ids : List ℤ} (hnodup : ids.Nodup) :
    (ids.filterMap (shownName db)).Nodup := by
  refine hnodup.filterMap fun id id' name hname hname' => ?_
  rcases mem_shownName.mp hname with ⟨memo, hmemo, rfl, -, rfl⟩
  rcases mem_shownName.mp hname' with ⟨memo', hmemo', rfl, -, huid⟩
  rw [db.eq_of_memoUID_eq hmemo hmemo' (by simpa using huid)]

/-- A page shows the memo of each of its comments once. -/
theorem names_commentMemos_perm (h : OneParent db) {relations : List MemoRelation}
    (hnodup : (relations.map MemoRelation.MemoID).Nodup) :
    ((shown db (commentMemos db relations)).map Prod.fst).Perm
      ((relations.map MemoRelation.MemoID).filterMap (shownName db)) := by
  have hnames : (shown db (commentMemos db relations)).map Prod.fst =
      ((commentMemos db relations).filter fun row => HasCreator db row).map fun row =>
        memoNamePrefix ++ row.UID := by
    rw [shown, List.map_map]
    rfl
  rw [hnames]
  refine (List.perm_ext_iff_of_nodup ?_ (nodup_shownNames hnodup)).mpr fun name => ?_
  · exact (nodup_names_commentMemos h relations).sublist (List.filter_sublist.map _)
  · rw [List.mem_map, List.mem_filterMap]
    constructor
    · rintro ⟨row, hrow, rfl⟩
      rcases List.mem_filter.mp hrow with ⟨hrow, hcreator⟩
      rcases mem_commentMemos hrow with ⟨hmem, -, r, hr, hid⟩
      exact ⟨row.ID, List.mem_map.mpr ⟨r, hr, hid⟩, mem_shownName.mpr
        ⟨row.toMemo, hmem, rfl, of_decide_eq_true hcreator, rfl⟩⟩
    · rintro ⟨id, hid, hname⟩
      rcases mem_shownName.mp hname with ⟨memo, hmemo, rfl, hcreator, rfl⟩
      rcases joinMemo_eq h memo with ⟨parentUID, hjoin⟩
      have hne : relations.map MemoRelation.MemoID ≠ [] := List.ne_nil_of_mem hid
      have hsome : relations ≠ [] := fun hnil => hne (by rw [hnil]; rfl)
      refine ⟨⟨memo, parentUID⟩, List.mem_filter.mpr ⟨?_, decide_eq_true hcreator⟩, rfl⟩
      rw [commentMemos, if_neg hsome]
      refine (Tables.mem_selectMemos rfl).mpr ⟨memo, hmemo, ⟨memo, parentUID⟩,
        hjoin ▸ List.mem_singleton_self _, ?_, fun f hf => absurd hf List.not_mem_nil, rfl⟩
      simpa [FindMemo.matchesMemo] using Or.inr (List.mem_map.mp hid)

/-! ## All pages -/

/-- The comments on a memo are by different memos. -/
theorem nodup_commentRelations (memoID : ℤ) :
    ((commentRelations user db memoID).map MemoRelation.MemoID).Nodup := by
  have hnodup : (commentRelations user db memoID).Nodup :=
    ((List.perm_insertionSort _ _).nodup_iff).mpr (db.memoRelations_nodup.filter _)
  refine hnodup.map_on fun r hr r' hr' hid => ?_
  rcases mem_commentRelations.mp hr with ⟨-, hrelated, htype⟩
  rcases mem_commentRelations.mp hr' with ⟨-, hrelated', htype'⟩
  cases r
  cases r'
  simp_all

/-- A page of comments shows the memos of its comments, and has a token if there are comments behind
it. -/
theorem followComments_pages (h : svc.Serves user) {request : ListMemoCommentsRequest}
    {parent : FoundMemo}
    (hrequire : svc.memoService.requireMemo request.Name
      (fun _ => .status .Internal "failed to get memo") db = (.ok parent, db))
    (haccess : svc.base.checkMemoReadAccess parent.toMemo = .ok ())
    (hmax : db.memoRelations.length ≤ 2147483647) {limit : ℕ}
    (hlimit : limit = normalizePageSize request.PageSize)
    (hwrites : Writes svc.format limit db.memoRelations.length) :
    FollowsPages (svc.followComments request db) limit (commentRelations user db parent.ID)
      (List.map fun m : ListedMemo => (m.Name, m.Content))
      (fun relations => shown db (commentMemos db relations))
      fun k token => svc.pageOf { PageSize := request.PageSize, PageToken := token } =
        .ok (limit, k * limit) := by
  intro k token htoken
  have hrows := @commentRows_eq svc user db h parent.ID limit (k * limit)
  have hboundary : k * limit + limit = (k + 1) * limit := (Nat.succ_mul k limit).symm
  have hcount : (commentRelations user db parent.ID).length ≤ db.memoRelations.length := by
    rw [commentRelations, SameButTimes.selectRelations]
    refine (List.length_insertionSort _ _).le.trans (List.length_filter_le _ _)
  have hpos : 0 < (k + 1) * limit :=
    Nat.mul_pos (Nat.succ_pos k) (hlimit ▸ normalizePageSize_pos request.PageSize)
  rw [hboundary, ← Int.natCast_add, hboundary] at hrows
  by_cases hnext : (k + 1) * limit < (commentRelations user db parent.ID).length
  · rcases @getPageToken_ok svc _ _ _ { PageSize := request.PageSize } hwrites hlimit hpos
      (hnext.trans_le hcount) hmax with ⟨next, hsome, hwritten, hread⟩
    rw [if_pos hnext, hwritten] at hrows
    rcases @ListMemoComments_rows svc user db h { request with PageToken := token } parent hrequire
      haccess limit _ htoken _ _ hrows with ⟨messages, hresponse, hshown⟩
    refine ⟨messages, some next, ?_, hshown, ?_⟩
    · rw [followComments, hresponse]
      dsimp only
      rw [if_neg hsome]
    · rw [if_pos hnext]
      exact ⟨next, rfl, hread⟩
  · rw [if_neg hnext] at hrows
    rcases @ListMemoComments_rows svc user db h { request with PageToken := token } parent hrequire
      haccess limit _ htoken _ _ hrows with ⟨messages, hresponse, hshown⟩
    refine ⟨messages, none, ?_, hshown, ?_⟩
    · rw [followComments, hresponse]
      rfl
    · rw [if_neg hnext]

/-- Where a comment has one parent, as it has after every run of creations, comments and updates,
the tokens come to an end, and the pages show, once each, the memos that comment on the memo, that
the user sees and that have a creator. -/
theorem listMemoComments_pages (h : svc.Serves user) {request : ListMemoCommentsRequest}
    {parent : FoundMemo}
    (hrequire : svc.memoService.requireMemo request.Name
      (fun _ => .status .Internal "failed to get memo") db = (.ok parent, db))
    (haccess : svc.base.checkMemoReadAccess parent.toMemo = .ok ())
    (hmax : db.memoRelations.length ≤ 2147483647)
    (hwrites : Writes svc.format (normalizePageSize request.PageSize) db.memoRelations.length) :
    (∀ start calls, start.memoRelations = [] → FreeRun answer start calls db → OneParent db) ∧
    (OneParent db →
      ∃ turns pages, collect (svc.followComments request db) turns "" = some pages ∧
        (∀ page ∈ pages, page.length ≤ normalizePageSize request.PageSize) ∧
        (pages.flatten.map fun m => m.Name).Nodup ∧
        ∀ name, name ∈ pages.flatten.map (fun m => m.Name) ↔
          ∃ memo ∈ db.memos, name = memoNamePrefix ++ memo.UID ∧ SeenBy user memo ∧
            (∃ u ∈ db.users, u.ID = memo.CreatorID) ∧
              ∃ r, IsComment db r ∧ r.MemoID = memo.ID ∧ r.RelatedMemoID = parent.ID) := by
  refine ⟨fun start calls hempty hrun => oneParent_of_run hempty hrun, fun hthreads => ?_⟩
  have hpos := normalizePageSize_pos request.PageSize
  generalize hlimit : normalizePageSize request.PageSize = limit at hpos hwrites ⊢
  have hfollows := followComments_pages h hrequire haccess hmax hlimit.symm hwrites
  have hstart : svc.pageOf { PageSize := request.PageSize, PageToken := "" } =
      .ok (limit, 0 * limit) := by
    rw [pageOf, if_pos rfl, hlimit, Nat.zero_mul]
  rcases collect_pages hfollows hpos hstart with ⟨turns, pages, n, hpages, hshown, hall⟩
  have hids := @nodup_commentRelations user db parent.ID
  -- A page is a part of all comments, so its memos differ.
  have hpart {rows : List MemoRelation}
      (hrows : rows ∈ Page.pages limit (fun _ => commentRelations user db parent.ID) n) :
      (rows.map MemoRelation.MemoID).Nodup := by
    rcases List.mem_map.mp hrows with ⟨i, -, rfl⟩
    exact hids.sublist (((List.take_sublist _ _).trans (List.drop_sublist _ _)).map _)
  have hnames : (pages.flatten.map fun m => m.Name).Perm
      (((commentRelations user db parent.ID).map MemoRelation.MemoID).filterMap
        (shownName db)) := by
    have hfst : pages.flatten.map (fun m => m.Name) =
        (Page.pages limit (fun _ => commentRelations user db parent.ID) n).flatMap fun rows =>
          (shown db (commentMemos db rows)).map Prod.fst := by
      have hviews := congrArg (List.map (List.map Prod.fst)) hshown
      rw [List.map_map, List.map_map] at hviews
      have hname : (List.map Prod.fst ∘ List.map fun m : ListedMemo => (m.Name, m.Content)) =
          List.map fun m => m.Name := by
        funext page
        exact List.map_map
      rw [hname] at hviews
      rw [List.map_flatten, hviews, List.flatMap_def]
      rfl
    have hparts : ((commentRelations user db parent.ID).map MemoRelation.MemoID).filterMap
        (shownName db) = (Page.pages limit (fun _ => commentRelations user db parent.ID) n).flatMap
          fun rows => (rows.map MemoRelation.MemoID).filterMap (shownName db) := by
      have hflat := congrArg (fun relations =>
        (relations.map MemoRelation.MemoID).filterMap (shownName db)) hall
      rw [← hflat, List.map_flatten, List.filterMap_flatten, List.map_map, List.flatMap_def]
      rfl
    rw [hfst, hparts]
    exact List.Perm.flatMap_left _ fun rows hrows => names_commentMemos_perm hthreads (hpart hrows)
  refine ⟨turns, pages, hpages, fun page hpage => ?_, hnames.nodup_iff.mpr (nodup_shownNames hids),
    fun name => hnames.mem_iff.trans ?_⟩
  · have hmem : page.map (fun m => (m.Name, m.Content)) ∈
        (Page.pages limit (fun _ => commentRelations user db parent.ID) n).map fun relations =>
          shown db (commentMemos db relations) := by
      rw [← hshown]
      exact List.mem_map_of_mem hpage
    rcases List.mem_map.mp hmem with ⟨rows, hrows, hpageRows⟩
    have hcount := (names_commentMemos_perm hthreads (hpart hrows)).length_eq
    rw [hpageRows, List.length_map, List.length_map] at hcount
    rcases List.mem_map.mp hrows with ⟨i, -, rfl⟩
    rw [hcount]
    refine (List.length_filterMap_le _ _).trans ?_
    rw [List.length_map]
    exact List.length_take_le _ _
  · rcases MemoService.requireMemo_ok hrequire with ⟨-, -, hparent, -⟩
    have hseen := ((checkMemoReadAccess_iff h parent.toMemo).mp haccess).2
    rw [List.mem_filterMap]
    constructor
    · rintro ⟨id, hid, hname⟩
      rcases List.mem_map.mp hid with ⟨r, hr, rfl⟩
      rcases mem_commentRelations.mp hr with ⟨hvisible, hrelated, htype⟩
      rcases mem_shownName.mp hname with ⟨memo, hmemo, hmemoID, hcreator, rfl⟩
      rcases hvisible.source with ⟨m, hm, hmid, hsees⟩
      rw [db.eq_of_memoID_eq hm hmemo (hmid.trans hmemoID.symm)] at hsees
      exact ⟨memo, hmemo, rfl, of_decide_eq_true hsees, hcreator, r, ⟨hvisible.mem, htype⟩,
        hmemoID.symm, hrelated⟩
    · rintro ⟨memo, hmemo, rfl, hsees, hcreator, r, ⟨hr, htype⟩, hid, hrelated⟩
      refine ⟨memo.ID, ?_, mem_shownName.mpr ⟨memo, hmemo, rfl, hcreator, rfl⟩⟩
      refine List.mem_map.mpr ⟨r, mem_commentRelations.mpr ⟨⟨hr, ?_, ?_⟩, hrelated, htype⟩, hid⟩
      · exact ⟨memo, hmemo, hid.symm, decide_eq_true hsees⟩
      · exact ⟨parent.toMemo, hparent, hrelated.symm, decide_eq_true hseen⟩

/-- A memo with two comments. -/
def commentedTables : Tables :=
  { Tables.ofMemos
      [{ ID := 1, UID := "b", CreatorID := 1, Visibility := .Public },
        { ID := 2, UID := "c", CreatorID := 1, Visibility := .Public },
        { ID := 3, UID := "d", CreatorID := 1, Visibility := .Public }]
      [⟨2, 1, .Comment⟩, ⟨3, 1, .Comment⟩] [] 3 with
    users := [{ ID := 1, Username := "ada" }] }

private theorem oneParent_commentedTables : OneParent commentedTables := by
  rintro r r' ⟨hr, -⟩ ⟨hr', -⟩ hid
  rcases List.mem_pair.mp hr with rfl | rfl <;> rcases List.mem_pair.mp hr' with rfl | rfl <;>
    simp_all

theorem listMemoComments_pages_ann : ∃ turns pages,
    collect (annListing.followComments { Name := "memos/b", PageSize := 1 } commentedTables) turns
        "" = some pages ∧
      (∀ page ∈ pages, page.length ≤ 1) ∧ "memos/c" ∈ pages.flatten.map fun m => m.Name := by
  rcases (@listMemoComments_pages annListing _ commentedTables serves_annListing
    { Name := "memos/b", PageSize := 1 }
    ⟨{ ID := 1, UID := "b", CreatorID := 1, Visibility := .Public }, none⟩ rfl rfl (by decide)
    writes_annListing).2 oneParent_commentedTables with ⟨turns, pages, hpages, hlength, -, hnames⟩
  refine ⟨turns, pages, hpages, hlength, (hnames "memos/c").mpr
    ⟨{ ID := 2, UID := "c", CreatorID := 1, Visibility := .Public },
      List.mem_cons_of_mem _ List.mem_cons_self, rfl, Or.inl rfl,
      ⟨_, List.mem_cons_self, rfl⟩, ⟨2, 1, .Comment⟩, ⟨List.mem_cons_self, rfl⟩, rfl, rfl⟩⟩

end ListingService

end Api
end MemosNote
