import Mathlib.Data.List.Flatten
import Mathlib.Data.List.Perm.Basic
import MemosNote.Api.TouchedMemo

/-!
# Relations of many memos at once

A listing loads the relations of all its memos with two queries, and those of a single memo are
loaded in the same way.

Main results:

- Theorem {lit}`loadMemoRelations_eq_batch`: for one memo the batch is what is loaded for it.
- Theorem {lit}`batchConvertMemoRelations_agrees`: in a larger batch a memo has the same relations,
  in another order.
-/

namespace MemosNote
namespace Api

open Library Store

namespace MemoService

variable (svc : MemoService)

/-- A loaded memo with its name, and with its snippet on demand. -/
def batchEntry (includeSnippets : Bool) (failed : String) (memo : Memo) :
    Except String (ℤ × RelationMemo) :=
  if includeSnippets then svc.relationEntry failed memo
  else .ok (memo.ID, ⟨memoNamePrefix ++ memo.UID, ""⟩)

/-- Memos are fetched if some are missing. -/
def fetchMissing (includeSnippets : Bool) (ids : List ℤ) :
    StoreM (List FoundMemo) :=
  if ids = [] then pure []
  else svc.engine.listMemos { IDList := ids, ExcludeContent := !includeSnippets }

/-- The relations of memos that the user may see, by memo. -/
def batchConvertMemoRelations (memos : List Memo) (includeSnippets : Bool) :
    StoreM (ℤ → List RelationMessage) :=
  if memos = [] then pure fun _ => []
  else do
    let currentUser ← Effect.ofExcept (svc.fetchCurrentUser.mapError ("failed to get user: " ++ ·))
    let memoFilter := visibleMemos currentUser
    let memoIDs := memos.map Memo.ID
    let outgoing ← (svc.engine.listMemoRelations
      { SourceMemoIDList := memoIDs, MemoFilter := some memoFilter }).mapError
        ("failed to batch list outgoing memo relations: " ++ ·)
    let incoming ← (svc.engine.listMemoRelations
      { RelatedMemoIDList := memoIDs, MemoFilter := some memoFilter }).mapError
        ("failed to batch list incoming memo relations: " ++ ·)
    let allRelations := mergeMemoRelations outgoing incoming
    let entries ← Effect.ofExcept (memos.mapM
      (svc.batchEntry includeSnippets "failed to get memo content snippet"))
    let extraIDs := ((allRelations.flatMap fun r => [r.MemoID, r.RelatedMemoID]).dedup).filter
      (· ∉ memoIDs)
    let extraMemos ← (svc.fetchMissing includeSnippets extraIDs).mapError
      ("failed to batch fetch related memos: " ++ ·)
    let extra ← Effect.ofExcept (extraMemos.mapM fun m =>
      svc.batchEntry includeSnippets "failed to get related memo content snippet" m.toMemo)
    pure fun memoID =>
      if memoID ∈ memoIDs then
        allRelations.flatMap (convertMemoRelation (entries ++ extra) memoID)
      else []

/-! ## A batch of one -/

variable {svc}

theorem loadMemoRelations_eq_batch (memo : Memo) : svc.loadMemoRelations memo =
    svc.batchConvertMemoRelations [memo] true >>= fun relations => pure (relations memo.ID) := by
  have hentry (f : List (ℤ × RelationMemo) → StoreM (List RelationMessage)) :
      (Effect.ofExcept ([memo].mapM
        (svc.batchEntry true "failed to get memo content snippet")) >>= f) =
      Effect.ofExcept (svc.relationEntry "failed to get memo content snippet" memo) >>=
        fun entry => f [entry] := by
    rw [List.mapM_cons, List.mapM_nil, batchEntry, if_pos rfl]
    cases svc.relationEntry "failed to get memo content snippet" memo <;> rfl
  have hother (id : ℤ) : decide (id ∉ [memo].map Memo.ID) = decide (id ≠ memo.ID) := by
    simp
  rw [loadMemoRelations, batchConvertMemoRelations, if_neg (List.cons_ne_nil memo [])]
  simp only [Effect.bind_assoc, hentry, hother]
  refine congrArg _ (funext fun user => congrArg _ (funext fun outgoing => congrArg _ (funext
    fun incoming => congrArg _ (funext fun entry => congrArg _ (funext fun extraMemos =>
      congrArg _ (funext fun entries => ?_))))))
  rw [Effect.pure_bind]
  exact congrArg pure (if_pos List.mem_cons_self).symm

/-! ## The relations of a batch -/

theorem mem_foldl_merge (relations merged : List MemoRelation) (hmerged : merged.Nodup) :
    (relations.foldl (fun merged r => if r ∈ merged then merged else merged ++ [r]) merged).Nodup ∧
      ∀ r, r ∈ relations.foldl (fun merged r => if r ∈ merged then merged else merged ++ [r])
        merged ↔ r ∈ merged ∨ r ∈ relations := by
  induction relations generalizing merged with
  | nil => exact ⟨hmerged, fun r => by simp⟩
  | cons first rest ih =>
      rw [List.foldl_cons]
      by_cases hfirst : first ∈ merged
      · rw [if_pos hfirst]
        refine ⟨(ih merged hmerged).1, fun r => ((ih merged hmerged).2 r).trans ?_⟩
        rw [List.mem_cons]
        refine or_congr_right' fun hr => ⟨Or.inr, fun h => h.resolve_left ?_⟩
        rintro rfl
        exact hr hfirst
      · rw [if_neg hfirst]
        have hnew : (merged ++ [first]).Nodup := by
          rw [List.nodup_append]
          refine ⟨hmerged, List.nodup_singleton first, ?_⟩
          rintro r hr r' hr' rfl
          exact hfirst (List.mem_singleton.mp hr' ▸ hr)
        refine ⟨(ih _ hnew).1, fun r => ((ih _ hnew).2 r).trans ?_⟩
        rw [List.mem_append, List.mem_singleton, List.mem_cons, or_assoc]

private theorem mem_mergeMemoRelations {outgoing incoming : List MemoRelation} {r : MemoRelation} :
    r ∈ mergeMemoRelations outgoing incoming ↔ r ∈ outgoing ∨ r ∈ incoming := by
  have hmem := (mem_foldl_merge (outgoing ++ incoming) [] List.nodup_nil).2 r
  rw [List.mem_append] at hmem
  exact hmem.trans (by simp)

/-- The relations from or to given memos, between memos that a filter selects. -/
def relationsAmong (f : Tables → Memo → Bool) (db : Tables) (ids : List ℤ) : List MemoRelation :=
  mergeMemoRelations (SameButTimes.selectRelations { SourceMemoIDList := ids } f db)
    (SameButTimes.selectRelations { RelatedMemoIDList := ids } f db)

theorem nodup_relationsAmong (f : Tables → Memo → Bool) (db : Tables) (ids : List ℤ) :
    (relationsAmong f db ids).Nodup :=
  (mem_foldl_merge _ _ List.nodup_nil).1

/-- Both memos of a relation exist. -/
structure Visible (f : Tables → Memo → Bool) (db : Tables) (r : MemoRelation) : Prop where
  mem : r ∈ db.memoRelations
  source : ∃ m ∈ db.memos, m.ID = r.MemoID ∧ f db m = true
  related : ∃ m ∈ db.memos, m.ID = r.RelatedMemoID ∧ f db m = true

variable {db : Tables} {f : Tables → Memo → Bool} {memos : List Memo}

theorem mem_selectRelations {find : FindMemoRelation} (hlimit : find.Limit = none)
    {r : MemoRelation} : r ∈ SameButTimes.selectRelations find f db ↔
      Visible f db r ∧ find.matchesRelation r = true := by
  rw [SameButTimes.selectRelations, hlimit, limitRows, List.mem_insertionSort, List.mem_filter]
  simp only [Bool.and_eq_true, List.any_eq_true, decide_eq_true_eq]
  constructor
  · rintro ⟨hr, hfind, hsource, hrelated⟩
    exact ⟨⟨hr, hsource, hrelated⟩, hfind⟩
  · rintro ⟨⟨hr, hsource, hrelated⟩, hfind⟩
    exact ⟨hr, hfind, hsource, hrelated⟩

theorem mem_relationsAmong {ids : List ℤ} (hids : ids ≠ []) {r : MemoRelation} :
    r ∈ relationsAmong f db ids ↔ Visible f db r ∧ (r.MemoID ∈ ids ∨ r.RelatedMemoID ∈ ids) := by
  rw [relationsAmong, mem_mergeMemoRelations, mem_selectRelations rfl, mem_selectRelations rfl,
    ← and_or_left]
  simp [FindMemoRelation.matchesRelation, hids]

/-- An entry of a memo in the tables. -/
def EntryOf (svc : MemoService) (includeSnippets : Bool) (db : Tables) (entry : ℤ × RelationMemo) :
    Prop :=
  ∃ m ∈ db.memos, ∃ failed, svc.batchEntry includeSnippets failed m = .ok entry

/-- The memo of an identifier is loaded, with its name. -/
def Loads (includeSnippets : Bool) (db : Tables) (loaded : List (ℤ × RelationMemo)) (id : ℤ) :
    Prop :=
  ∃ m ∈ db.memos, m.ID = id ∧ ∃ x, relationMemo loaded id = some x ∧
    x.Name = memoNamePrefix ++ m.UID ∧ (includeSnippets = false → x.Snippet = "")

theorem batchEntry_ok {includeSnippets : Bool} {failed : String} {m : Memo}
    {entry : ℤ × RelationMemo} (h : svc.batchEntry includeSnippets failed m = .ok entry) :
    entry.1 = m.ID ∧ entry.2.Name = memoNamePrefix ++ m.UID ∧
      (includeSnippets = false → entry.2.Snippet = "") := by
  cases includeSnippets with
  | false =>
      cases h
      exact ⟨rfl, rfl, fun _ => rfl⟩
  | true =>
      have hentry : svc.relationEntry failed m = .ok entry := h
      rw [relationEntry] at hentry
      cases hsnippet : svc.getMemoContentSnippet m.Content with
      | error err =>
          rw [hsnippet] at hentry
          cases hentry
      | ok snippet =>
          rw [hsnippet] at hentry
          cases hentry
          exact ⟨rfl, rfl, fun h => by cases h⟩

private theorem loads_of_mem {includeSnippets : Bool} {loaded : List (ℤ × RelationMemo)}
    (hloaded : ∀ entry ∈ loaded, svc.EntryOf includeSnippets db entry) {id : ℤ}
    (hid : id ∈ loaded.map Prod.fst) : Loads includeSnippets db loaded id := by
  cases hfind : loaded.find? fun entry => entry.1 = id with
  | none =>
      rcases List.mem_map.mp hid with ⟨entry, hentry, heq⟩
      have hnot := List.find?_eq_none.mp hfind entry hentry
      exact absurd heq (by simpa using hnot)
  | some entry =>
      have heq : entry.1 = id := by simpa using List.find?_some hfind
      rcases hloaded entry (List.mem_of_find?_eq_some hfind) with ⟨m, hm, failed, hentry⟩
      rcases batchEntry_ok hentry with ⟨hfst, hname, hsnippet⟩
      exact ⟨m, hm, hfst.symm.trans heq, entry.2, by rw [relationMemo, hfind, Option.map_some],
        hname, hsnippet⟩

theorem listed_relations {find : FindMemoRelation} {user : Option User}
    (hfind : find.MemoFilter = some (visibleMemos user)) {context : String → String}
    {list : List MemoRelation} {t : Tables}
    (h : (svc.engine.listMemoRelations find).mapError context db = (.ok list, t)) :
    ∃ f, svc.engine.compileMemoFilter (visibleMemos user) = .ok f ∧
      list = SameButTimes.selectRelations find f db := by
  have hlist := Effect.ok_of_mapError h
  rw [SameButTimes.listMemoRelations_filtered _ hfind] at hlist
  cases hcompile : svc.engine.compileMemoFilter (visibleMemos user) with
  | error err =>
      rw [hcompile] at hlist
      cases hlist
  | ok f =>
      rw [hcompile] at hlist
      cases hlist
      exact ⟨f, rfl, rfl⟩

/-- The rows of the memos that are fetched, whose entries do not need the content left out. -/
theorem entry_of_row {includeSnippets : Bool} {ids : List ℤ} {row : FoundMemo}
    (h : row ∈ db.selectMemos { IDList := ids, ExcludeContent := !includeSnippets } []) :
    ∃ m ∈ db.memos, ∀ failed, svc.batchEntry includeSnippets failed row.toMemo =
      svc.batchEntry includeSnippets failed m := by
  rcases (Tables.mem_selectMemos rfl).mp h with ⟨m, hm, joined, hjoined, -, -, rfl⟩
  have hmemo := Tables.toMemo_of_mem_joinMemo hjoined
  refine ⟨m, hm, fun failed => ?_⟩
  cases includeSnippets with
  | true =>
      rw [← hmemo]
      rfl
  | false =>
      rw [← hmemo]
      rfl

/-- Every memo that is asked for is fetched. -/
theorem exists_row {includeSnippets : Bool} {ids : List ℤ} {m : Memo} (hm : m ∈ db.memos)
    (hid : m.ID ∈ ids) : ∃ row ∈ db.selectMemos
      { IDList := ids, ExcludeContent := !includeSnippets } [], row.ID = m.ID := by
  rcases List.exists_mem_of_ne_nil _ (db.joinMemo_ne_nil m) with ⟨joined, hjoined⟩
  have hmemo := Tables.toMemo_of_mem_joinMemo hjoined
  have hmatches : ({ IDList := ids, ExcludeContent := !includeSnippets } : FindMemo).matchesMemo
      joined = true := by
    have hjoinedID : joined.ID ∈ ids := by
      rw [hmemo]
      exact hid
    simp [FindMemo.matchesMemo, hjoinedID]
  refine ⟨_, (Tables.mem_selectMemos rfl).mpr ⟨m, hm, joined, hjoined, hmatches, by simp, rfl⟩, ?_⟩
  rw [FindMemo.project]
  split_ifs <;> rw [hmemo]

private theorem fetchMissing_eq {includeSnippets : Bool} {ids : List ℤ} {rows : List FoundMemo}
    {t : Tables} (h : svc.fetchMissing includeSnippets ids db = (.ok rows, t)) :
    (ids ≠ [] → rows = db.selectMemos
      { IDList := ids, ExcludeContent := !includeSnippets } []) ∧ (ids = [] → rows = []) := by
  rw [fetchMissing] at h
  split_ifs at h with hids
  · cases h
    exact ⟨fun hne => absurd hids hne, fun _ => rfl⟩
  · rw [StoreEngine.listMemos_eq rfl] at h
    cases h
    exact ⟨fun _ => rfl, fun hnil => absurd hnil hids⟩

private theorem fetchMissing_keeps {P : Tables → Prop} (includeSnippets : Bool) (ids : List ℤ) :
    Effect.Keeps P (svc.fetchMissing includeSnippets ids) := by
  rw [fetchMissing]
  split_ifs
  · exact Effect.Keeps.pure _
  · exact StoreEngine.listMemos_keeps _

/-- What a batch loads: the relations among the memos, with both ends of each. -/
theorem batchConvertMemoRelations_ok {includeSnippets : Bool} (hmemos : ∀ m ∈ memos, m ∈ db.memos)
    (hsome : memos ≠ []) {relations : ℤ → List RelationMessage} {t : Tables}
    (h : svc.batchConvertMemoRelations memos includeSnippets db = (.ok relations, t)) :
    t = db ∧ ∃ user f loaded, svc.fetchCurrentUser = .ok user ∧
      svc.engine.compileMemoFilter (visibleMemos user) = .ok f ∧
      (∀ r ∈ relationsAmong f db (memos.map Memo.ID),
        Loads includeSnippets db loaded r.MemoID ∧
          Loads includeSnippets db loaded r.RelatedMemoID) ∧
      ∀ id ∈ memos.map Memo.ID, relations id =
        (relationsAmong f db (memos.map Memo.ID)).flatMap (convertMemoRelation loaded id) := by
  have hids : memos.map Memo.ID ≠ [] := fun hnil => hsome (List.map_eq_nil_iff.mp hnil)
  rw [batchConvertMemoRelations, if_neg hsome] at h
  rcases Effect.ok_of_read_bind (fun _ => Effect.Keeps.ofExcept _) h with ⟨user, huser, h⟩
  rcases Effect.ok_of_read_bind (fun _ => (StoreEngine.listMemoRelations_keeps _).mapError _) h
    with ⟨outgoing, houtgoing, h⟩
  rcases Effect.ok_of_read_bind (fun _ => (StoreEngine.listMemoRelations_keeps _).mapError _) h
    with ⟨incoming, hincoming, h⟩
  rcases Effect.ok_of_read_bind (fun _ => Effect.Keeps.ofExcept _) h with ⟨entries, hentries, h⟩
  rcases listed_relations rfl houtgoing with ⟨f, hcompile, rfl⟩
  rcases listed_relations rfl hincoming with ⟨f', hcompile', rfl⟩
  rcases Except.ok.inj (hcompile.symm.trans hcompile') with rfl
  have hall : mergeMemoRelations
      (SameButTimes.selectRelations
        { SourceMemoIDList := memos.map Memo.ID, MemoFilter := some (visibleMemos user) } f db)
      (SameButTimes.selectRelations
        { RelatedMemoIDList := memos.map Memo.ID, MemoFilter := some (visibleMemos user) } f db) =
      relationsAmong f db (memos.map Memo.ID) := rfl
  rw [hall] at h
  have hextraID {r : MemoRelation} (hr : r ∈ relationsAmong f db (memos.map Memo.ID)) {id : ℤ}
      (hend : id = r.MemoID ∨ id = r.RelatedMemoID) (hother : id ∉ memos.map Memo.ID) :
      id ∈ ((relationsAmong f db (memos.map Memo.ID)).flatMap fun r =>
        [r.MemoID, r.RelatedMemoID]).dedup.filter (· ∉ memos.map Memo.ID) := by
    refine List.mem_filter.mpr ⟨List.mem_dedup.mpr (List.mem_flatMap.mpr ⟨r, hr, ?_⟩),
      decide_eq_true hother⟩
    rw [List.mem_pair]
    exact hend
  generalize ((relationsAmong f db (memos.map Memo.ID)).flatMap fun r =>
    [r.MemoID, r.RelatedMemoID]).dedup.filter (· ∉ memos.map Memo.ID) = extraIDs at h hextraID
  rcases Effect.ok_of_read_bind (fun _ => (fetchMissing_keeps _ _).mapError _) h with
    ⟨rows, hrows, h⟩
  rcases fetchMissing_eq (Effect.ok_of_mapError hrows) with ⟨hfetched, hnone⟩
  rcases Effect.ok_of_read_bind (fun _ => Effect.Keeps.ofExcept _) h with ⟨extra, hextra, h⟩
  cases h
  have hentriesOk := Traverse.mapM_ok_iff.mp (Effect.ok_of_ofExcept hentries).1
  have hextraOk := Traverse.mapM_ok_iff.mp (Effect.ok_of_ofExcept hextra).1
  have hloaded : ∀ entry ∈ entries ++ extra, svc.EntryOf includeSnippets db entry := by
    intro entry hentry
    rcases List.mem_append.mp hentry with hentry | hentry
    · rcases Traverse.exists_left hentriesOk entry hentry with ⟨m, hm, hok⟩
      exact ⟨m, hmemos m hm, _, hok⟩
    · rcases Traverse.exists_left hextraOk entry hentry with ⟨row, hrow, hok⟩
      have hids : extraIDs ≠ [] := by
        intro hnil
        rw [hnone hnil] at hrow
        cases hrow
      rw [hfetched hids] at hrow
      rcases entry_of_row hrow with ⟨m, hm, hsame⟩
      exact ⟨m, hm, _, (hsame _).symm.trans hok⟩
  have hends : ∀ r ∈ relationsAmong f db (memos.map Memo.ID), ∀ m ∈ db.memos,
      m.ID = r.MemoID ∨ m.ID = r.RelatedMemoID →
        Loads includeSnippets db (entries ++ extra) m.ID := by
    intro r hr m hm hend
    refine loads_of_mem hloaded ?_
    by_cases hmem : m.ID ∈ memos.map Memo.ID
    · rcases List.mem_map.mp hmem with ⟨m', hm', hid⟩
      rcases Traverse.exists_right hentriesOk m' hm' with ⟨entry, hentry, hok⟩
      exact List.mem_map.mpr ⟨entry, List.mem_append_left _ hentry,
        (batchEntry_ok hok).1.trans hid⟩
    · -- The memo is not of the batch, so it is fetched.
      have hmissing := hextraID hr hend hmem
      rcases @exists_row db includeSnippets extraIDs m hm hmissing with ⟨row, hrow, hid⟩
      rw [← hfetched (List.ne_nil_of_mem hmissing)] at hrow
      rcases Traverse.exists_right hextraOk row hrow with ⟨entry, hentry, hok⟩
      exact List.mem_map.mpr ⟨entry, List.mem_append_right _ hentry,
        (batchEntry_ok hok).1.trans hid⟩
  refine ⟨rfl, user, f, entries ++ extra, ?_, hcompile, fun r hr => ?_, fun id hid => if_pos hid⟩
  · have hok := (Effect.ok_of_ofExcept huser).1
    cases hfetch : svc.fetchCurrentUser with
    | error err =>
        rw [hfetch] at hok
        cases hok
    | ok user' =>
        rw [hfetch] at hok
        cases hok
        rfl
  · rcases ((mem_relationsAmong hids).mp hr).1 with ⟨-, ⟨m, hm, hid, -⟩, ⟨m', hm', hid', -⟩⟩
    exact ⟨hid ▸ hends r hr m hm (Or.inl hid), hid' ▸ hends r hr m' hm' (Or.inr hid')⟩

/-! ## A batch agrees with what is loaded for one memo -/

/-- A batch needs the current user, the filter and the snippets, if it is one with snippets. -/
theorem exists_batch {user : Option User} (huser : svc.fetchCurrentUser = .ok user)
    (hfilter : svc.engine.compileMemoFilter (visibleMemos user) = .ok f) {includeSnippets : Bool}
    (hsnippets : includeSnippets = true →
      ∀ content, ∃ snippet, svc.generateSnippet content = .ok snippet) (db : Tables)
    (memos : List Memo) :
    ∃ relations, svc.batchConvertMemoRelations memos includeSnippets db = (.ok relations, db) := by
  have hlisted {find : FindMemoRelation} (hfind : find.MemoFilter = some (visibleMemos user))
      (context : String → String) :
      ∃ list, (svc.engine.listMemoRelations find).mapError context db = (.ok list, db) := by
    rw [Effect.mapError, SameButTimes.listMemoRelations_filtered _ hfind, hfilter]
    exact ⟨_, rfl⟩
  have hentries {α : Type} (list : List α) (memo : α → Memo) (failed : String) :
      ∃ entries, (Effect.ofExcept
        (list.mapM fun a => svc.batchEntry includeSnippets failed (memo a)) :
          StoreM (List (ℤ × RelationMemo))) db = (.ok entries, db) := by
    have hentry (a : α) : ∃ entry, svc.batchEntry includeSnippets failed (memo a) = .ok entry := by
      rw [batchEntry]
      split_ifs with hinclude
      · rcases hsnippets hinclude (memo a).Content with ⟨snippet, hsnippet⟩
        rw [relationEntry, getMemoContentSnippet, hsnippet]
        exact ⟨_, rfl⟩
      · exact ⟨_, rfl⟩
    rcases @Traverse.exists_mapM_ok _ _ _ (fun a => svc.batchEntry includeSnippets failed (memo a))
      list (fun a _ => hentry a) with ⟨entries, hentries⟩
    rw [hentries]
    exact ⟨entries, rfl⟩
  have hfetched (ids : List ℤ) (context : String → String) :
      ∃ rows, (svc.fetchMissing includeSnippets ids).mapError context db = (.ok rows, db) := by
    rw [fetchMissing, Effect.mapError]
    split_ifs
    · exact ⟨[], rfl⟩
    · rw [StoreEngine.listMemos_eq rfl]
      exact ⟨_, rfl⟩
  rw [batchConvertMemoRelations, huser]
  split_ifs
  · exact ⟨_, rfl⟩
  · have hcurrent : (Effect.ofExcept ((Except.ok user : Except String (Option User)).mapError
        ("failed to get user: " ++ ·)) : StoreM (Option User)) db = (.ok user, db) := rfl
    rw [Effect.bind_of_ok hcurrent]
    refine Effect.exists_ok_bind (hlisted rfl _) fun outgoing => ?_
    refine Effect.exists_ok_bind (hlisted rfl _) fun incoming => ?_
    refine Effect.exists_ok_bind (hentries memos id _) fun entries => ?_
    refine Effect.exists_ok_bind (hfetched _ _) fun rows => ?_
    exact Effect.exists_ok_bind (hentries rows FoundMemo.toMemo _) fun extra => ⟨_, rfl⟩

/-- The message of a relation without the snippets of its memos. -/
def withoutSnippets (r : RelationMessage) : RelationMessage :=
  { r with
    Memo := r.Memo.map fun m => { m with Snippet := "" }
    RelatedMemo := r.RelatedMemo.map fun m => { m with Snippet := "" } }

/-- The same memos are loaded with and without snippets. -/
theorem loads_without_snippets {loaded loaded' : List (ℤ × RelationMemo)} {id : ℤ}
    (h : Loads false db loaded id) (h' : Loads true db loaded' id) :
    ∃ x, relationMemo loaded' id = some x ∧
      relationMemo loaded id = some { x with Snippet := "" } := by
  rcases h with ⟨m, hm, hid, x, hx, hname, hsnippet⟩
  rcases h' with ⟨m', hm', hid', x', hx', hname', -⟩
  have hsame := db.eq_of_memoID_eq hm hm' (hid.trans hid'.symm)
  refine ⟨x', hx', hx.trans (congrArg some ?_)⟩
  have hempty := hsnippet rfl
  rcases x with ⟨name, snippet⟩
  rw [RelationMemo.mk.injEq]
  exact ⟨hname.trans ((congrArg (memoNamePrefix ++ ·.UID) hsame).trans hname'.symm), hempty⟩

private theorem convertMemoRelation_without_snippets {loaded loaded' : List (ℤ × RelationMemo)}
    {r : MemoRelation} {memoID : ℤ} (hsource : Loads false db loaded r.MemoID)
    (hrelated : Loads false db loaded r.RelatedMemoID) (hsource' : Loads true db loaded' r.MemoID)
    (hrelated' : Loads true db loaded' r.RelatedMemoID) :
    convertMemoRelation loaded memoID r =
      (convertMemoRelation loaded' memoID r).map withoutSnippets := by
  rcases loads_without_snippets hsource hsource' with ⟨x, hx', hx⟩
  rcases loads_without_snippets hrelated hrelated' with ⟨y, hy', hy⟩
  rw [convertMemoRelation, convertMemoRelation, hx, hy, hx', hy']
  by_cases hfrom : r.MemoID = memoID <;> by_cases hto : r.RelatedMemoID = memoID <;>
    simp [hfrom, hto, withoutSnippets]

/-- The relations of a memo are among those of a batch with it. -/
theorem filter_relationsAmong_perm {ids : List ℤ} {id : ℤ} (hid : id ∈ ids) :
    ((relationsAmong f db ids).filter fun r => r.MemoID = id ∨ r.RelatedMemoID = id).Perm
      (relationsAmong f db [id]) := by
  refine (List.perm_ext_iff_of_nodup ((nodup_relationsAmong f db ids).filter _)
    (nodup_relationsAmong f db [id])).mpr fun r => ?_
  rw [List.mem_filter, mem_relationsAmong (List.ne_nil_of_mem hid),
    mem_relationsAmong (List.cons_ne_nil id []), List.mem_singleton, List.mem_singleton,
    decide_eq_true_eq]
  constructor
  · rintro ⟨⟨hvisible, -⟩, hend⟩
    exact ⟨hvisible, hend⟩
  · rintro ⟨hvisible, hend⟩
    refine ⟨⟨hvisible, ?_⟩, hend⟩
    rcases hend with rfl | rfl
    · exact Or.inl hid
    · exact Or.inr hid

private theorem convertMemoRelation_of_other {loaded : List (ℤ × RelationMemo)} {r : MemoRelation}
    {memoID : ℤ} (h : ¬(r.MemoID = memoID ∨ r.RelatedMemoID = memoID)) :
    convertMemoRelation loaded memoID r = [] := by
  rw [convertMemoRelation]
  rcases not_or.mp h with ⟨hfrom, hto⟩
  split
  · simp [hfrom, hto]
  · rfl

private theorem flatMap_convertMemoRelation (loaded : List (ℤ × RelationMemo)) (memoID : ℤ)
    (relations : List MemoRelation) :
    relations.flatMap (convertMemoRelation loaded memoID) =
      (relations.filter fun r => r.MemoID = memoID ∨ r.RelatedMemoID = memoID).flatMap
        (convertMemoRelation loaded memoID) := by
  induction relations with
  | nil => rfl
  | cons r rest ih =>
      by_cases hend : r.MemoID = memoID ∨ r.RelatedMemoID = memoID
      · simp [hend, ih]
      · simp [hend, ih, convertMemoRelation_of_other hend]

/-- In a batch a memo has the relations that are loaded for it alone, in another order and without
the snippets. -/
theorem batchConvertMemoRelations_agrees (svc : MemoService) {db t : Tables} {memos : List Memo}
    (hmemos : ∀ m ∈ memos, m ∈ db.memos) {memo : Memo} (hmemo : memo ∈ memos)
    {single : List RelationMessage} (hsingle : svc.loadMemoRelations memo db = (.ok single, t)) :
    ∃ relations, svc.batchConvertMemoRelations memos false db = (.ok relations, db) ∧
      (relations memo.ID).Perm (single.map withoutSnippets) := by
  rw [loadMemoRelations_eq_batch] at hsingle
  rcases Effect.ok_of_bind hsingle with ⟨relations', t', hbatch', hpure⟩
  cases hpure
  rcases batchConvertMemoRelations_ok (fun m hm => List.mem_singleton.mp hm ▸ hmemos memo hmemo)
    (List.cons_ne_nil memo []) hbatch' with
    ⟨-, user, f, loaded', huser, hcompile, hends', hrelations'⟩
  have hnone : false = true → ∀ content, ∃ snippet, svc.generateSnippet content = .ok snippet :=
    fun h => absurd h Bool.false_ne_true
  rcases exists_batch huser hcompile hnone db memos with ⟨relations, hbatch⟩
  rcases batchConvertMemoRelations_ok hmemos (List.ne_nil_of_mem hmemo) hbatch with
    ⟨-, user', f', loaded, huser', hcompile', hends, hrelations⟩
  rcases Except.ok.inj (huser.symm.trans huser') with rfl
  rcases Except.ok.inj (hcompile.symm.trans hcompile') with rfl
  refine ⟨relations, hbatch, ?_⟩
  have hid : memo.ID ∈ memos.map Memo.ID := List.mem_map_of_mem hmemo
  rw [hrelations _ hid, hrelations' _ List.mem_cons_self, List.map_flatMap]
  have hsame : (relationsAmong f db [memo.ID]).flatMap (convertMemoRelation loaded memo.ID) =
      (relationsAmong f db [memo.ID]).flatMap fun r =>
        (convertMemoRelation loaded' memo.ID r).map withoutSnippets := by
    refine List.flatMap_congr fun r hr => ?_
    have hr' := (filter_relationsAmong_perm hid).mem_iff.mpr hr
    rcases hends r (List.mem_of_mem_filter hr') with ⟨hsource, hrelated⟩
    rcases hends' r hr with ⟨hsource', hrelated'⟩
    exact convertMemoRelation_without_snippets hsource hrelated hsource' hrelated'
  rw [flatMap_convertMemoRelation]
  exact ((filter_relationsAmong_perm hid).flatMap_right _).trans (List.Perm.of_eq hsame)

end MemoService

/-- Two memos, one of which refers to the other. -/
def linkedMemos : Tables :=
  .ofMemos [{ ID := 1, UID := "a", CreatorID := 1, Content := "see b" },
    { ID := 2, UID := "b", CreatorID := 1 }]
    [⟨1, 2, .Reference⟩] [] 2

theorem batchConvertMemoRelations_agrees_linkedMemos :
    ∃ relations, MemoService.plain.batchConvertMemoRelations linkedMemos.memos false linkedMemos =
        (.ok relations, linkedMemos) ∧
      (relations 2).Perm [{
        Memo := some ⟨"memos/a", ""⟩
        RelatedMemo := some ⟨"memos/b", ""⟩
        RelationType := .REFERENCE }] := by
  have hsingle : (MemoService.plain.loadMemoRelations { ID := 2, UID := "b", CreatorID := 1 }
      linkedMemos).1 = .ok [{
        Memo := some ⟨"memos/a", "see b"⟩
        RelatedMemo := some ⟨"memos/b", ""⟩
        RelationType := .REFERENCE }] := by decide +kernel
  exact MemoService.batchConvertMemoRelations_agrees .plain (fun m hm => hm)
    (List.mem_cons_of_mem _ List.mem_cons_self) (Effect.eq_of_fst hsingle)

end Api
end MemosNote
