import MemosNote.Api.LinkEndpoints
import MemosNote.Library.Traverse

/-!
# A memo that is touched

What a request that sets links can still do after the times of memos have changed.

Main results:

- Theorem {lit}`SameMemos.memoForLinks`: the memo is still found, and may still be changed.
- Theorem {lit}`SameButTimes.buildUpdatedMemoState`: its message can still be built.
-/

namespace MemosNote
namespace Api

open Library Store

namespace MemoService

/-- The service of a later request, to which the database may return attachments of one time in
another order. -/
def later (svc : MemoService) (now : ℤ) (order : AttachmentOrder) : MemoService :=
  { svc with engine := { svc.engine with attachmentOrder := order, now := now } }

/-- The service of a request that reads the clock anew while it links attachments. -/
def withClock (svc : MemoService) (clock : ℕ → ℤ) : MemoService :=
  { svc with engine := { svc.engine with linkClock := clock } }

/-- The filter for the memos that a user may see does not look at other rows or at times. -/
def FiltersByVisibility (svc : MemoService) : Prop :=
  ∀ user f, svc.engine.compileMemoFilter (visibleMemos user) = .ok f →
    ∀ db db' memo time, f db' { memo with UpdatedTs := time } = f db memo

end MemoService

/-- The tables have the same memos, but for their times. -/
def SameMemos (db db' : Tables) : Prop :=
  ∃ time : Memo → ℤ, db'.memos = db.memos.map fun m => { m with UpdatedTs := time m }

namespace SameMemos

variable {svc : MemoService} {now : ℤ} {order : AttachmentOrder} {db db' db'' : Tables}

theorem of_eq (h : db'.memos = db.memos) : SameMemos db db' :=
  ⟨Memo.UpdatedTs, h.trans (List.map_id _).symm⟩

theorem trans (h : SameMemos db db') (h' : SameMemos db' db'') : SameMemos db db'' := by
  rcases h with ⟨time, hmemos⟩
  rcases h' with ⟨time', hmemos'⟩
  refine ⟨fun m => time' { m with UpdatedTs := time m }, ?_⟩
  rw [hmemos', hmemos, List.map_map]
  rfl

/-- Touching a memo changes a time. -/
theorem touch (db : Tables) (id time : ℤ) :
    SameMemos db (db.updateMemo { ID := id, UpdatedTs := some time }) := by
  refine ⟨fun m => if m.ID = id then time else m.UpdatedTs, ?_⟩
  refine List.map_congr_left fun m _ => ?_
  rw [UpdateMemo.onRow]
  by_cases hm : m.ID = id
  · simp [hm, UpdateMemo.assign]
  · simp [hm]

/-- A memo has a counterpart with another time. -/
theorem mem (h : SameMemos db db') {m : Memo} (hm : m ∈ db.memos) :
    ∃ time, { m with UpdatedTs := time } ∈ db'.memos := by
  rcases h with ⟨time, hmemos⟩
  refine ⟨time m, ?_⟩
  rw [hmemos]
  exact List.mem_map_of_mem hm

private theorem mem_of_mem (h : SameMemos db db') {m' : Memo} (hm : m' ∈ db'.memos) :
    ∃ m ∈ db.memos, m' = { m with UpdatedTs := m'.UpdatedTs } := by
  rcases h with ⟨time, hmemos⟩
  rw [hmemos] at hm
  rcases List.mem_map.mp hm with ⟨m, hmem, rfl⟩
  exact ⟨m, hmem, rfl⟩

/-! ## The memo of a request -/

/-- A query for the name of a memo still finds it. -/
theorem getMemo_uid (h : SameMemos db db') {m : Memo} (hm : m ∈ db.memos) :
    ∃ found time, (svc.later now order).engine.getMemo { UID := some m.UID } db' =
        (.ok (some found), db') ∧
      found.toMemo = { m with UpdatedTs := time } ∧ found.toMemo ∈ db'.memos := by
  rcases h.mem hm with ⟨time, htouched⟩
  rcases MemoService.getMemo_uid_eq (svc.later now order).engine db' m.UID with
    ⟨found, hget, hfind⟩
  have huid : (fun m' : Memo => decide (m'.UID = m.UID)) { m with UpdatedTs := time } = true := by
    simp
  cases hfound : db'.memos.find? (fun m' => m'.UID = m.UID) with
  | none =>
      rw [List.find?_eq_none] at hfound
      exact absurd huid (hfound _ htouched)
  | some m' =>
      have hmem := List.mem_of_find?_eq_some hfound
      have hsame : m'.UID = m.UID := by simpa using List.find?_some hfound
      have heq : m' = { m with UpdatedTs := time } := db'.eq_of_memoUID_eq hmem htouched hsame
      rw [hfound] at hfind
      cases found with
      | none => cases hfind
      | some row =>
          have hrow : row.toMemo = m' := Option.some.inj hfind
          exact ⟨row, time, hget, hrow.trans heq, hrow ▸ hmem⟩

/-- The memo of a name is still found. -/
theorem requireMemo (h : SameMemos db db') {name : String} {m : Memo} (hm : m ∈ db.memos)
    (hname : svc.extractMemoUIDFromName name = .ok m.UID) (queryFailed : String → Failure) :
    ∃ found time, (svc.later now order).requireMemo name queryFailed db' = (.ok found, db') ∧
      found.toMemo = { m with UpdatedTs := time } ∧ found.toMemo ∈ db'.memos := by
  rcases @getMemo_uid svc now order db db' h m hm with ⟨found, time, hget, hrow, hrowmem⟩
  refine ⟨found, time, ?_, hrow, hrowmem⟩
  have huid : (svc.later now order).memoUIDOfName name db' = (.ok m.UID, db') := by
    rw [MemoService.memoUIDOfName]
    have hlater : (svc.later now order).extractMemoUIDFromName name = .ok m.UID := hname
    rw [hlater]
    rfl
  have hmapped : ((svc.later now order).engine.getMemo { UID := some m.UID }).mapError
      queryFailed db' = (.ok (some found), db') := by
    rw [Effect.mapError, hget]
    rfl
  rw [MemoService.requireMemo, Effect.bind_of_ok huid, MemoService.findMemo,
    Effect.bind_of_ok hmapped]
  rfl

/-- The memo is still found, and may still be changed. -/
theorem memoForLinks (h : SameMemos db db') {name : String} {user : User} {memo : FoundMemo}
    {t : Tables} (hfound : svc.memoForLinks name db = (.ok (user, memo), t)) :
    ∃ memo' time, (svc.later now order).memoForLinks name db' = (.ok (user, memo'), db') ∧
      memo'.toMemo = { memo.toMemo with UpdatedTs := time } ∧ memo'.toMemo ∈ db'.memos := by
  rcases MemoService.memoForLinks_ok hfound with ⟨-, huser, hname, hmem, hmodify⟩
  rcases @requireMemo svc now order db db' h name memo.toMemo hmem hname
    (fun _ => .status .Internal "failed to get memo") with ⟨found, time, hrequire, hrow, hrowmem⟩
  refine ⟨found, time, ?_, hrow, hrowmem⟩
  have hlinking : (svc.later now order).linkingUser = .ok user := huser
  have hcan : canModifyMemo user found.toMemo = true := by
    rw [hrow]
    exact hmodify
  rw [MemoService.memoForLinks, hlinking, Effect.ofExcept, Effect.pure_bind,
    Effect.bind_of_ok hrequire, if_pos hcan]
  rfl

end SameMemos

/-! ## The message of a memo -/

/-- The tables have the same users, relations and memos, but for the times of memos. -/
structure SameButTimes (db db' : Tables) : Prop where
  users : db'.users = db.users
  memoRelations : db'.memoRelations = db.memoRelations
  memos : SameMemos db db'

namespace SameButTimes

variable {svc : MemoService} {now : ℤ} {order : AttachmentOrder} {db db' db'' : Tables}

theorem trans (h : SameButTimes db db') (h' : SameButTimes db' db'') : SameButTimes db db'' :=
  ⟨h'.users.trans h.users, h'.memoRelations.trans h.memoRelations, h.memos.trans h'.memos⟩

theorem touch (db : Tables) (id time : ℤ) :
    SameButTimes db (db.updateMemo { ID := id, UpdatedTs := some time }) :=
  ⟨rfl, rfl, SameMemos.touch db id time⟩

/-- The relations of a query between memos that a filter selects. -/
def selectRelations (find : FindMemoRelation) (f : Tables → Memo → Bool) (db : Tables) :
    List MemoRelation :=
  let selected := fun id => db.memos.any fun m => m.ID = id && f db m
  limitRows find.Limit find.Offset ((db.memoRelations.filter fun r =>
    find.matchesRelation r && (selected r.MemoID && selected r.RelatedMemoID)).insertionSort
      fun a b => b.MemoID ≤ a.MemoID)

theorem listMemoRelations_filtered (engine : StoreEngine) {find : FindMemoRelation} {text : String}
    (hfind : find.MemoFilter = some text) (db : Tables) :
    engine.listMemoRelations find db =
      ((engine.compileMemoFilter text).map fun f => selectRelations find f db, db) := by
  rw [StoreEngine.listMemoRelations, hfind]
  cases hcompile : engine.compileMemoFilter text with
  | error err =>
      simp only [Option.toList_some, List.mapM_cons, hcompile]
      rfl
  | ok f =>
      simp only [Option.toList_some, List.mapM_cons, List.mapM_nil, hcompile, pure_bind]
      refine Prod.ext ?_ rfl
      simp [selectRelations, Effect.ofExcept, bind, Except.bind, pure, Except.pure, Effect.read,
        Except.map]

/-- The relations between memos that the user may see stay. -/
theorem listMemoRelations (h : SameButTimes db db') (hfilter : svc.FiltersByVisibility)
    {user : Option User} {find : FindMemoRelation}
    (hfind : find.MemoFilter = some (visibleMemos user)) {list : List MemoRelation} {t : Tables}
    (hlist : svc.engine.listMemoRelations find db = (.ok list, t)) :
    (svc.later now order).engine.listMemoRelations find db' = (.ok list, db') := by
  rw [listMemoRelations_filtered _ hfind] at hlist ⊢
  have hlater : (svc.later now order).engine.compileMemoFilter (visibleMemos user) =
      svc.engine.compileMemoFilter (visibleMemos user) := rfl
  rw [hlater]
  cases hcompile : svc.engine.compileMemoFilter (visibleMemos user) with
  | error err =>
      rw [hcompile] at hlist
      cases hlist
  | ok f =>
      rw [hcompile] at hlist
      rcases h.memos with ⟨time, hmemos⟩
      have hselected : ∀ id, (db'.memos.any fun m => m.ID = id && f db' m) =
          db.memos.any fun m => m.ID = id && f db m := by
        intro id
        rw [hmemos, List.any_map]
        congr 1
        funext m
        simp only [Function.comp_apply]
        rw [hfilter user f hcompile]
      have hrows : selectRelations find f db' = selectRelations find f db := by
        simp only [selectRelations, hselected, h.memoRelations]
      cases hlist
      rw [Except.map, hrows]

/-- Snippets of the memos of a list can still be made. -/
theorem relationEntries (h : SameButTimes db db') {failed : String} {ids : List ℤ}
    {rows : List FoundMemo} {t : Tables} {entries : List (ℤ × RelationMemo)}
    (hrows : (if ids = [] then pure [] else svc.engine.listMemos { IDList := ids }) db =
      (.ok rows, t))
    (hentries : (rows.mapM fun m => svc.relationEntry failed m.toMemo) = .ok entries) :
    ∃ rows' entries',
      (if ids = [] then pure [] else (svc.later now order).engine.listMemos { IDList := ids }) db' =
        (.ok rows', db') ∧
      (rows'.mapM fun m => (svc.later now order).relationEntry failed m.toMemo) = .ok entries' := by
  by_cases hnil : ids = []
  · rw [if_pos hnil]
    exact ⟨[], [], rfl, rfl⟩
  rw [if_neg hnil] at hrows ⊢
  have hlist' := @StoreEngine.listMemos_eq (svc.later now order).engine db' { IDList := ids } rfl
  refine ⟨db'.selectMemos { IDList := ids } [], ?_⟩
  rw [exists_and_left]
  refine ⟨hlist', Traverse.exists_mapM_ok ?_⟩
  intro row' hrow'
  rcases (Tables.mem_selectMemos rfl).mp hrow' with ⟨m', hm', joined', hjoined', hmatches', -, rfl⟩
  rcases h.memos.mem_of_mem hm' with ⟨m, hm, hsame⟩
  -- The row is the one of a memo that was listed before.
  rcases List.exists_mem_of_ne_nil _ (db.joinMemo_ne_nil m) with ⟨joined, hjoined⟩
  have hmatches : ({ IDList := ids } : FindMemo).matchesMemo joined = true := by
    have hid : joined.ID = joined'.ID := by
      rw [Tables.toMemo_of_mem_joinMemo hjoined, Tables.toMemo_of_mem_joinMemo hjoined', hsame]
    simpa [FindMemo.matchesMemo, hid] using hmatches'
  have hlisted : joined ∈ rows := by
    have hlist := @StoreEngine.listMemos_eq svc.engine db { IDList := ids } rfl
    rw [hrows] at hlist
    rw [Except.ok.inj (Prod.mk.inj hlist).1]
    exact (Tables.mem_selectMemos rfl).mpr ⟨m, hm, joined, hjoined, hmatches, by simp, rfl⟩
  rcases Traverse.exists_right (Traverse.mapM_ok_iff.mp hentries) joined hlisted with
    ⟨entry, -, hentry⟩
  refine ⟨entry, ?_⟩
  have hproject : ({ IDList := ids } : FindMemo).project joined' = joined' := rfl
  rw [Tables.toMemo_of_mem_joinMemo hjoined] at hentry
  rw [hproject, Tables.toMemo_of_mem_joinMemo hjoined', hsame]
  exact hentry

/-- The relations of a memo can still be loaded. -/
theorem loadMemoRelations (h : SameButTimes db db') (hfilter : svc.FiltersByVisibility) {m : Memo}
    {relations : List RelationMessage} {t : Tables}
    (hloaded : svc.loadMemoRelations m db = (.ok relations, t)) (time : ℤ) :
    ∃ relations', (svc.later now order).loadMemoRelations { m with UpdatedTs := time } db' =
      (.ok relations', db') := by
  rw [MemoService.loadMemoRelations] at hloaded
  rcases Effect.ok_of_read_bind (fun _ => Effect.Keeps.ofExcept _) hloaded with
    ⟨user, huser, hloaded⟩
  rcases Effect.ok_of_read_bind (fun _ => (StoreEngine.listMemoRelations_keeps _).mapError _)
    hloaded with ⟨outgoing, houtgoing, hloaded⟩
  rcases Effect.ok_of_read_bind (fun _ => (StoreEngine.listMemoRelations_keeps _).mapError _)
    hloaded with ⟨incoming, hincoming, hloaded⟩
  rcases Effect.ok_of_read_bind (fun _ => Effect.Keeps.ofExcept _) hloaded with
    ⟨entry, hentry, hloaded⟩
  rcases Effect.ok_of_bind hloaded with ⟨rows, t', hrows, hloaded⟩
  rcases Effect.ok_of_bind hloaded with ⟨entries, t'', hentries, -⟩
  have hentriesOk := (Effect.ok_of_ofExcept hentries).1
  have hlisted : ∀ {list : List MemoRelation} {find : FindMemoRelation} {context : String},
      find.MemoFilter = some (visibleMemos user) →
      ((svc.engine.listMemoRelations find).mapError (context ++ ·)) db = (.ok list, db) →
      (((svc.later now order).engine.listMemoRelations find).mapError (context ++ ·)) db' =
        (.ok list, db') := by
    intro list find context hfind hlist
    rw [Effect.mapError, h.listMemoRelations hfilter hfind (Effect.ok_of_mapError hlist)]
    rfl
  have huserOk : (Effect.ofExcept ((svc.later now order).fetchCurrentUser.mapError
      ("failed to get user: " ++ ·)) : StoreM (Option User)) db' = (.ok user, db') := by
    have hfetch : (svc.later now order).fetchCurrentUser = svc.fetchCurrentUser := rfl
    rw [hfetch, (Effect.ok_of_ofExcept huser).1]
    rfl
  have hentryOk : (Effect.ofExcept ((svc.later now order).relationEntry
      "failed to get memo content snippet" { m with UpdatedTs := time }) :
      StoreM (ℤ × RelationMemo)) db' = (.ok entry, db') := by
    have hsame : (svc.later now order).relationEntry "failed to get memo content snippet"
        { m with UpdatedTs := time } = svc.relationEntry "failed to get memo content snippet" m :=
      rfl
    rw [hsame, (Effect.ok_of_ofExcept hentry).1]
    rfl
  rw [MemoService.loadMemoRelations, Effect.bind_of_ok huserOk,
    Effect.bind_of_ok (hlisted rfl houtgoing), Effect.bind_of_ok (hlisted rfl hincoming),
    Effect.bind_of_ok hentryOk]
  rcases @relationEntries svc now order db db' h _ _ _ _ _ (Effect.ok_of_mapError hrows) hentriesOk
    with ⟨rows', entries', hrows', hentries'⟩
  refine ⟨(mergeMemoRelations outgoing incoming).flatMap
    (convertMemoRelation (entry :: entries') m.ID), ?_⟩
  refine (Effect.bind_of_ok (?_ : _ = (Except.ok rows', db'))).trans ?_
  · rw [Effect.mapError, hrows']
    rfl
  · refine (Effect.bind_of_ok (?_ : _ = (Except.ok entries', db'))).trans rfl
    rw [hentries']
    rfl

theorem convertMemoFromStore (h : SameButTimes db db') {m : Memo} {attachments : List Attachment}
    {relations : List RelationMessage} {message : MemoMessage}
    (hconverted : svc.convertMemoFromStore db m attachments relations = .ok message)
    (time : ℤ) (attachments' : List Attachment) (relations' : List RelationMessage) :
    ∃ message', (svc.later now order).convertMemoFromStore db' { m with UpdatedTs := time }
      attachments' relations' = .ok message' := by
  rw [MemoService.convertMemoFromStore] at hconverted ⊢
  rw [h.users]
  dsimp only
  by_cases hcreator : (db.users.find? fun user => user.ID = m.CreatorID).isNone = true
  · rw [if_pos hcreator] at hconverted
    cases hconverted
  · rw [if_neg hcreator] at hconverted ⊢
    have hsnippet : (svc.later now order).getMemoContentSnippet m.Content =
        svc.getMemoContentSnippet m.Content := rfl
    rw [hsnippet]
    cases hresult : svc.getMemoContentSnippet m.Content with
    | error err =>
        rw [hresult] at hconverted
        cases hconverted
    | ok snippet => exact ⟨_, rfl⟩

/-- The message of a memo can still be built. -/
theorem buildUpdatedMemoState (h : SameButTimes db db') (hfilter : svc.FiltersByVisibility)
    {m : Memo} (hm : m ∈ db.memos) {message : MemoMessage} {t : Tables}
    (hbuilt : svc.buildUpdatedMemoState m.ID db = (.ok message, t)) :
    ∃ message', (svc.later now order).buildUpdatedMemoState m.ID db' = (.ok message', db') := by
  rcases @StoreEngine.getMemo_id svc.engine db m hm with ⟨row, hget, hrow⟩
  rcases h.memos.mem hm with ⟨time, hm'⟩
  rcases @StoreEngine.getMemo_id (svc.later now order).engine db' _ hm' with ⟨row', hget', hrow'⟩
  have hfound : ∀ {engine : StoreEngine} {row : FoundMemo} {db : Tables},
      engine.getMemo { ID := some m.ID } db = (.ok (some row), db) →
      ((engine.getMemo { ID := some m.ID }).mapError ("failed to get memo: " ++ ·)) db =
        (.ok (some row), db) := by
    intro engine row db hget
    rw [Effect.mapError, hget]
    rfl
  have hattached : ∀ (engine : StoreEngine) (id : ℤ) (db : Tables),
      ((engine.listAttachments { MemoID := some id }).mapError
        ("failed to list attachments: " ++ ·)) db = (.ok (engine.listedAttachments db id), db) := by
    intro engine id db
    rw [Effect.mapError, StoreEngine.listAttachments_memo]
    rfl
  rw [MemoService.buildUpdatedMemoState, Effect.bind_of_ok (hfound hget)] at hbuilt
  dsimp only at hbuilt
  rw [Effect.bind_of_ok (hattached _ _ _)] at hbuilt
  rcases Effect.ok_of_read_bind (fun _ => (MemoService.loadMemoRelations_keeps _).mapError _)
    hbuilt with ⟨relations, hrelations, hconverted⟩
  rw [hrow] at hrelations
  rcases @loadMemoRelations svc now order db db' h hfilter m relations _
    (Effect.ok_of_mapError hrelations) time with ⟨relations', hrelations'⟩
  rw [Effect.read_bind, id_eq, hrow] at hconverted
  have hconvertedOk := (Effect.ok_of_ofExcept hconverted).1
  cases hmessage : svc.convertMemoFromStore db m (svc.engine.listedAttachments db m.ID)
    relations with
  | error err =>
      rw [hmessage] at hconvertedOk
      cases hconvertedOk
  | ok built =>
      rcases h.convertMemoFromStore hmessage time
        ((svc.later now order).engine.listedAttachments db' m.ID) relations' with
        ⟨message', hmessage'⟩
      refine ⟨message', ?_⟩
      have hloaded : ((svc.later now order).loadMemoRelations row'.toMemo).mapError
          ("failed to load memo relations: " ++ ·) db' = (.ok relations', db') := by
        rw [Effect.mapError, hrow', hrelations']
        rfl
      rw [MemoService.buildUpdatedMemoState, Effect.bind_of_ok (hfound hget')]
      dsimp only
      rw [Effect.bind_of_ok (hattached _ _ _), Effect.bind_of_ok hloaded, Effect.read_bind, id_eq,
        hrow', hmessage']
      rfl

/-- The end of a request that sets links completes again. -/
theorem finishLinks (h : SameButTimes db db') (hfilter : svc.FiltersByVisibility) {m : Memo}
    (hm : m ∈ db.memos) {message : MemoMessage} {t : Tables}
    (hbuilt : svc.buildUpdatedMemoState m.ID db = (.ok message, t)) :
    (svc.later now order).finishLinks m.ID db' =
      (.ok (), db'.updateMemo { ID := m.ID, UpdatedTs := some now }) := by
  have htouched : (svc.later now order).touchMemoUpdatedTimestamp m.ID db' =
      (.ok (), db'.updateMemo { ID := m.ID, UpdatedTs := some now }) := rfl
  rcases @buildUpdatedMemoState svc now order db _ (h.trans (touch db' m.ID now)) hfilter m hm
    message t hbuilt with ⟨message', hbuilt'⟩
  have hinternally : internally "failed to build updated memo state"
      ((svc.later now order).buildUpdatedMemoState m.ID)
      (db'.updateMemo { ID := m.ID, UpdatedTs := some now }) =
        (.ok message', db'.updateMemo { ID := m.ID, UpdatedTs := some now }) := by
    rw [internally, withStatus, Effect.mapError, hbuilt']
    rfl
  rw [MemoService.finishLinks, Effect.bind_of_ok htouched, Effect.bind_of_ok hinternally]
  rfl

end SameButTimes

/-- What the end of a request that sets links leaves. -/
theorem MemoService.finishLinks_ok {svc : MemoService} {db db' : Tables} {id : ℤ}
    (h : svc.finishLinks id db = (.ok (), db')) :
    db' = db.updateMemo { ID := id, UpdatedTs := some svc.engine.now } ∧
      ∃ message, svc.buildUpdatedMemoState id db' = (.ok message, db') := by
  rw [MemoService.finishLinks] at h
  rcases Effect.ok_of_bind h with ⟨_, t, htouch, hrest⟩
  cases htouch
  rcases Effect.ok_of_read_bind (fun _ => (buildUpdatedMemoState_keeps _).mapError _) hrest with
    ⟨message, hbuilt, hdone⟩
  cases hdone
  exact ⟨rfl, message, Effect.ok_of_mapError hbuilt⟩

end Api
end MemosNote
