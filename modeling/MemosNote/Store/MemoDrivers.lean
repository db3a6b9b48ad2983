import MemosNote.Library.Page
import MemosNote.Store.MemoStore

/-!
# The lists of memos of the three drivers

The drivers ask their databases for memos with one query, which joins each memo with the relations
that make it a comment and with the memos it comments on.  The queries differ in how they recognise
a comment, in how the names of memos are compared and in what they make of negative limits.

Main results:

- Theorem {lit}`lists_selectMemos`: the rows that the store selects are a list of SQLite.
- Theorem {lit}`listMemos_agree_iff`: for which contents and queries the drivers list the same
  memos in the same order.
-/

namespace MemosNote
namespace Store

open Library

/-- A row of the joined query: a memo, a relation that makes it a comment, and the memo it comments
on.  The join with the creator adds no row, for the identifiers of users are a primary key. -/
structure JoinedMemo where
  memo : Memo
  relation : Option MemoRelation
  parent : Option Memo

/-- What is read from a row. -/
def JoinedMemo.found (row : JoinedMemo) : FoundMemo :=
  ⟨row.memo, row.parent.map Memo.UID⟩

namespace Tables

/-- The rows of one memo: one for every relation, and one for a memo without any. -/
def joinRows (db : Tables) (memo : Memo) : List JoinedMemo :=
  if db.commentRelations memo.ID = [] then [⟨memo, none, none⟩]
  else (db.commentRelations memo.ID).map fun r =>
    ⟨memo, some r, db.memos.find? fun m => m.ID = r.RelatedMemoID⟩

/-- The rows of the join. -/
def joinMemos (db : Tables) : List JoinedMemo :=
  db.memos.flatMap db.joinRows

end Tables

/-! ## The drivers -/

/-- What the three queries do differently. -/
structure MemoDriver where
  /-- How names of memos are compared. -/
  sameUID : String → String → Bool
  /-- The test of a comment that is to be excluded. -/
  isComment : JoinedMemo → Bool
  /-- Negative limits and offsets are read as none. -/
  negativeLimits : Bool

/-- A collation of MySQL. -/
structure Collation where
  same : String → String → Bool
  refl : ∀ s, same s s = true

/-- Limits and offsets that every database reads. -/
def FindMemo.NonnegativeLimits (find : FindMemo) : Prop :=
  ∀ n ∈ find.Limit, 0 ≤ n ∧ ∀ o ∈ find.Offset, 0 ≤ o

instance (find : FindMemo) : Decidable find.NonnegativeLimits :=
  inferInstanceAs (Decidable (∀ n ∈ find.Limit, 0 ≤ n ∧ ∀ o ∈ find.Offset, 0 ≤ o))

namespace MemoDriver

/-- SQLite tests the name of the parent. -/
def sqlite : MemoDriver where
  sameUID s t := s == t
  isComment row := row.parent.isSome
  negativeLimits := true

/-- MySQL tests the name of the parent, in {lit}`HAVING`, and compares names by a collation. -/
def mysql (collation : Collation) : MemoDriver where
  sameUID := collation.same
  isComment row := row.parent.isSome
  negativeLimits := false

/-- Postgres tests the relation. -/
def postgres : MemoDriver where
  sameUID s t := s == t
  isComment row := row.relation.isSome
  negativeLimits := false

section

variable (driver : MemoDriver) (find : FindMemo)

/-- The conditions of the query. -/
def selects (row : JoinedMemo) : Bool :=
  (∀ id ∈ find.ID, row.memo.ID = id) &&
    (find.IDList = [] || row.memo.ID ∈ find.IDList) &&
    find.UID.all (driver.sameUID row.memo.UID) &&
    (find.UIDList = [] || find.UIDList.any (driver.sameUID row.memo.UID)) &&
    (∀ creatorID ∈ find.CreatorID, row.memo.CreatorID = creatorID) &&
    (∀ rowStatus ∈ find.RowStatus, row.memo.RowStatus = rowStatus) &&
    (find.VisibilityList = [] || row.memo.Visibility ∈ find.VisibilityList) &&
    (!find.ExcludeComments || !driver.isComment row)

/-- The page of the query; a database that does not read negative limits fails. -/
def pageOf {α : Type} (rows : List α) : Option (List α) :=
  if driver.negativeLimits ∨ find.NonnegativeLimits then
    some (limitRows find.Limit find.Offset rows)
  else none

/-- An answer of the driver: the selected rows are sorted, and rows of one memo come in any
order. -/
def Lists (db : Tables) (answer : Option (List FoundMemo)) : Prop :=
  ∃ sorted : List JoinedMemo, sorted.Perm (db.joinMemos.filter (driver.selects find)) ∧
    (sorted.Pairwise fun a b => find.orderKey a.memo ≤ find.orderKey b.memo) ∧
    answer = (driver.pageOf find sorted).map fun rows => rows.map fun row => find.project row.found

end

end MemoDriver

/-- The identifiers of the memos of an answer. -/
def answerIDs (answer : Option (List FoundMemo)) : Option (List ℤ) :=
  answer.map fun memos => memos.map fun memo => memo.ID

def memoDrivers (collation : Collation) : List MemoDriver :=
  [.sqlite, .mysql collation, .postgres]

/-- Whatever the drivers answer, it is the same memos in the same order. -/
def DriversAgree (collation : Collation) (db : Tables) (find : FindMemo) : Prop :=
  ∀ first ∈ memoDrivers collation, ∀ second ∈ memoDrivers collation, ∀ answer answer',
    first.Lists find db answer → second.Lists find db answer' →
      answerIDs answer = answerIDs answer'

/-! ## When the drivers agree -/

/-- A row about which the queries cannot differ: it is found by its exact name, and it is no
comment of whatever memo where comments are excluded. -/
def FindMemo.Undisputed (find : FindMemo) (row : JoinedMemo) : Prop :=
  ((∀ uid ∈ find.UID, row.memo.UID = uid) ∧ (find.UIDList = [] ∨ row.memo.UID ∈ find.UIDList)) ∧
    (find.ExcludeComments = true → row.relation = none)

/-- The rows that meet the conditions, with names up to collation and comments on memos that exist
excluded. -/
def candidates (collation : Collation) (db : Tables) (find : FindMemo) : List JoinedMemo :=
  db.joinMemos.filter ((MemoDriver.mysql collation).selects find)

/-- The number of candidates in front of a row. -/
def rank (collation : Collation) (db : Tables) (find : FindMemo) (row : JoinedMemo) : ℕ :=
  (candidates collation db find).countP fun other =>
    find.orderKey other.memo < find.orderKey row.memo

/-- No limit is negative, and the page is empty, starts behind all candidates or ends in front of
the first disputed one. -/
structure Undisturbed (collation : Collation) (db : Tables) (find : FindMemo) : Prop where
  nonneg : find.NonnegativeLimits
  page : find.Limit = some 0 ∨
    (find.Limit ≠ none ∧ ((candidates collation db find).length : ℤ) ≤ find.Offset.getD 0) ∨
    ∀ row ∈ candidates collation db find,
      (∀ n ∈ find.Limit, (rank collation db find row : ℤ) < find.Offset.getD 0 + n) →
        find.Undisputed row

/-! ## The rows of the join -/

theorem mem_joinMemos {db : Tables} {row : JoinedMemo} (h : row ∈ db.joinMemos) :
    row.memo ∈ db.memos ∧ (row.relation = none ↔ db.commentRelations row.memo.ID = []) ∧
      (row.relation = none → row = ⟨row.memo, none, none⟩) := by
  rcases List.mem_flatMap.mp h with ⟨memo, hmemo, hrow⟩
  rw [Tables.joinRows] at hrow
  by_cases hnone : db.commentRelations memo.ID = []
  · rw [if_pos hnone, List.mem_singleton] at hrow
    subst hrow
    exact ⟨hmemo, by simp [hnone], fun _ => rfl⟩
  · rw [if_neg hnone] at hrow
    rcases List.mem_map.mp hrow with ⟨r, _, rfl⟩
    exact ⟨hmemo, by simp [hnone], fun hrelation => by cases hrelation⟩

/-- The rows without a relation are of different memos. -/
private theorem nodup_unrelated (db : Tables) :
    ((db.joinMemos.filter fun row => row.relation.isNone).map fun row => row.memo.ID).Nodup := by
  have hrows : ∀ memos : List Memo,
      (memos.flatMap db.joinRows).filter (fun row => row.relation.isNone) =
        (memos.filter fun memo => db.commentRelations memo.ID = []).map fun memo =>
          ⟨memo, none, none⟩ := by
    intro memos
    induction memos with
    | nil => rfl
    | cons memo memos ih =>
        rw [List.flatMap_cons, List.filter_append, ih, List.filter_cons, Tables.joinRows]
        by_cases hnone : db.commentRelations memo.ID = []
        · simp [hnone]
        · simp [hnone]
  rw [Tables.joinMemos, hrows, List.map_map]
  exact db.memoIDs_nodup.sublist (List.filter_sublist.map _)

theorem limitRows_map {α β : Type} (f : α → β) (limit offset : Option ℤ) (rows : List α) :
    limitRows limit offset (rows.map f) = (limitRows limit offset rows).map f := by
  cases limit with
  | none => rfl
  | some n =>
      simp only [limitRows]
      by_cases hn : n < 0
      · simp [hn, List.map_drop]
      · simp [hn, List.map_drop, List.map_take]

/-- The rows that the store selects are an answer of SQLite. -/
theorem lists_selectMemos (db : Tables) (find : FindMemo) :
    MemoDriver.sqlite.Lists find db (some (db.selectMemos find [])) := by
  have hrows : db.memos.flatMap db.joinMemo = db.joinMemos.map JoinedMemo.found := by
    rw [Tables.joinMemos, List.map_flatMap]
    congr 1
    funext memo
    rw [Tables.joinMemo.eq_def, Tables.joinRows]
    cases db.commentRelations memo.ID with
    | nil => rfl
    | cons r relations =>
        rw [if_neg (by simp), List.map_map]
        rfl
  have hselects : ∀ row : JoinedMemo, (find.matchesMemo row.found &&
      ([] : List (Tables → Memo → Bool)).all fun f => f db row.found.toMemo) =
        MemoDriver.sqlite.selects find row := by
    intro row
    have huid : (find.UID.all fun uid => row.memo.UID == uid) = true ↔
        ∀ uid ∈ find.UID, row.memo.UID = uid := by
      cases find.UID <;> simp
    have hparent : (row.parent.map Memo.UID).isNone = !row.parent.isSome := by
      cases row.parent <;> rfl
    rw [List.all_nil, Bool.and_true, Bool.eq_iff_iff]
    simp only [FindMemo.matchesMemo, MemoDriver.selects, Bool.and_eq_true, Bool.or_eq_true,
      decide_eq_true_eq]
    simp only [MemoDriver.sqlite, JoinedMemo.found, hparent, huid, List.any_eq_true, beq_iff_eq,
      exists_eq_right']
  let rows := db.joinMemos.filter (MemoDriver.sqlite.selects find)
  have htotal : Std.Total fun a b : JoinedMemo => find.orderKey a.memo ≤ find.orderKey b.memo :=
    ⟨fun a b => le_total (find.orderKey a.memo) (find.orderKey b.memo)⟩
  have htrans : IsTrans JoinedMemo fun a b => find.orderKey a.memo ≤ find.orderKey b.memo :=
    ⟨fun _ _ _ => le_trans⟩
  refine ⟨rows.insertionSort fun a b => find.orderKey a.memo ≤ find.orderKey b.memo,
    List.perm_insertionSort _ _, List.pairwise_insertionSort _ _, ?_⟩
  have hsorted : find.orderBy (rows.map JoinedMemo.found) =
      (rows.insertionSort fun a b => find.orderKey a.memo ≤ find.orderKey b.memo).map
        JoinedMemo.found :=
    (List.map_insertionSort _ _ JoinedMemo.found rows fun _ _ _ _ => Iff.rfl).symm
  have hfilter : (db.joinMemos.map JoinedMemo.found).filter (fun row => find.matchesMemo row &&
      ([] : List (Tables → Memo → Bool)).all fun f => f db row.toMemo) =
        rows.map JoinedMemo.found := by
    rw [List.filter_map]
    congr 1
    apply List.filter_congr
    exact fun row _ => hselects row
  rw [Tables.selectMemos, hrows, hfilter, hsorted, MemoDriver.pageOf, if_pos (.inl rfl),
    limitRows_map]
  simp

/-! ## Sorted identifiers -/

/-- The identifier in a sort key. -/
private def keyID (key : ℤ ×ₗ ℤ ×ₗ ℤ) : ℤ :=
  -(ofLex (ofLex key).2).2

@[simp]
private theorem keyID_orderKey (find : FindMemo) (memo : Memo) :
    keyID (find.orderKey memo) = memo.ID := by
  simp [keyID, FindMemo.orderKey]

/-- The sort keys of the rows that a driver selects, in order. -/
private def sortedKeys (find : FindMemo) (rows : List JoinedMemo) : List (ℤ ×ₗ ℤ ×ₗ ℤ) :=
  (rows.map fun row => find.orderKey row.memo).insertionSort (· ≤ ·)

private theorem sortedKeys_pairwise (find : FindMemo) (rows : List JoinedMemo) :
    (sortedKeys find rows).Pairwise (· ≤ ·) :=
  List.pairwise_insertionSort _ _

private theorem sortedKeys_perm (find : FindMemo) (rows : List JoinedMemo) :
    (sortedKeys find rows).Perm (rows.map fun row => find.orderKey row.memo) :=
  List.perm_insertionSort _ _

/-- However ties are broken, the keys of a sorted list are the same. -/
private theorem map_orderKey_eq {find : FindMemo} {rows sorted : List JoinedMemo}
    (hperm : sorted.Perm rows)
    (hsorted : sorted.Pairwise fun a b => find.orderKey a.memo ≤ find.orderKey b.memo) :
    (sorted.map fun row => find.orderKey row.memo) = sortedKeys find rows := by
  apply List.Perm.eq_of_pairwise' (r := (· ≤ ·))
  · exact List.pairwise_map.mpr hsorted
  · exact sortedKeys_pairwise find rows
  · exact (hperm.map _).trans (sortedKeys_perm find rows).symm

/-- Leaving out rows by their identifiers leaves out their keys. -/
private theorem sortedKeys_filter (find : FindMemo) (q : ℤ → Bool) (rows : List JoinedMemo) :
    (sortedKeys find (rows.filter fun row => q row.memo.ID)).map keyID =
      ((sortedKeys find rows).map keyID).filter q := by
  have hkeys : sortedKeys find (rows.filter fun row => q row.memo.ID) =
      (sortedKeys find rows).filter (q ∘ keyID) := by
    apply List.Perm.eq_of_pairwise' (r := (· ≤ ·))
    · exact sortedKeys_pairwise find _
    · exact (sortedKeys_pairwise find rows).filter _
    · apply (sortedKeys_perm find _).trans
      apply List.Perm.trans _ ((sortedKeys_perm find rows).filter _).symm
      rw [List.filter_map]
      have hcomp : (q ∘ keyID) ∘ (fun row : JoinedMemo => find.orderKey row.memo) =
          fun row => q row.memo.ID := by
        funext row
        simp
      rw [hcomp]
  rw [hkeys, List.filter_map]

/-! ## What a driver lists -/

/-- The identifiers of the rows that a driver selects, in order. -/
private def listedIDs (driver : MemoDriver) (db : Tables) (find : FindMemo) : List ℤ :=
  (sortedKeys find (db.joinMemos.filter (driver.selects find))).map keyID

private theorem pageOf_map {α β : Type} (driver : MemoDriver) (find : FindMemo) (f : α → β)
    (rows : List α) :
    driver.pageOf find (rows.map f) = (driver.pageOf find rows).map fun rows => rows.map f := by
  simp only [MemoDriver.pageOf, limitRows_map]
  split <;> rfl

/-- An answer has the identifiers of a page of what is listed. -/
private theorem answerIDs_of_lists {driver : MemoDriver} {db : Tables} {find : FindMemo}
    {answer : Option (List FoundMemo)} (h : driver.Lists find db answer) :
    answerIDs answer = driver.pageOf find (listedIDs driver db find) := by
  rcases h with ⟨sorted, hperm, hsorted, rfl⟩
  have hproject : ∀ row : JoinedMemo, (find.project row.found).ID = row.memo.ID := by
    intro row
    rw [FindMemo.project]
    split <;> rfl
  have hids : listedIDs driver db find = sorted.map fun row => row.memo.ID := by
    rw [listedIDs, ← map_orderKey_eq hperm hsorted, List.map_map]
    congr 1
    funext row
    simp
  rw [hids, pageOf_map, answerIDs, Option.map_map]
  congr 1
  funext rows
  simp [hproject]

/-- Every driver answers. -/
private theorem exists_lists (driver : MemoDriver) (db : Tables) (find : FindMemo) :
    ∃ answer, driver.Lists find db answer := by
  have htotal : Std.Total fun a b : JoinedMemo => find.orderKey a.memo ≤ find.orderKey b.memo :=
    ⟨fun a b => le_total (find.orderKey a.memo) (find.orderKey b.memo)⟩
  have htrans : IsTrans JoinedMemo fun a b => find.orderKey a.memo ≤ find.orderKey b.memo :=
    ⟨fun _ _ _ => le_trans⟩
  exact ⟨_, (db.joinMemos.filter (driver.selects find)).insertionSort
    fun a b => find.orderKey a.memo ≤ find.orderKey b.memo,
    List.perm_insertionSort _ _, List.pairwise_insertionSort _ _, rfl⟩

private theorem agree_iff_pages {collation : Collation} {db : Tables} {find : FindMemo} :
    DriversAgree collation db find ↔
      ∀ first ∈ memoDrivers collation, ∀ second ∈ memoDrivers collation,
        first.pageOf find (listedIDs first db find) =
          second.pageOf find (listedIDs second db find) := by
  constructor
  · intro h first hfirst second hsecond
    rcases exists_lists first db find with ⟨answer, hlists⟩
    rcases exists_lists second db find with ⟨answer', hlists'⟩
    rw [← answerIDs_of_lists hlists, ← answerIDs_of_lists hlists']
    exact h first hfirst second hsecond answer answer' hlists hlists'
  · intro h first hfirst second hsecond answer answer' hlists hlists'
    rw [answerIDs_of_lists hlists, answerIDs_of_lists hlists']
    exact h first hfirst second hsecond

/-! ## What the drivers list differently -/

section Differences

variable (collation : Collation) (db : Tables) (find : FindMemo)

/-- The rows that are found by their exact names. -/
private def exactName (row : JoinedMemo) : Bool :=
  (find.UID.all fun uid => row.memo.UID == uid) &&
    (find.UIDList = [] || row.memo.UID ∈ find.UIDList)

/-- The rows that are no comments of whatever memo where comments are excluded. -/
private def unrelated (row : JoinedMemo) : Bool :=
  !find.ExcludeComments || row.relation.isNone

private theorem exactName_iff (row : JoinedMemo) :
    exactName find row = true ↔
      (∀ uid ∈ find.UID, row.memo.UID = uid) ∧
        (find.UIDList = [] ∨ row.memo.UID ∈ find.UIDList) := by
  have huid : (find.UID.all fun uid => row.memo.UID == uid) = true ↔
      ∀ uid ∈ find.UID, row.memo.UID = uid := by
    cases find.UID <;> simp
  rw [exactName, Bool.and_eq_true, huid]
  simp

private theorem undisputed_iff (row : JoinedMemo) :
    find.Undisputed row ↔ (exactName find row && unrelated find row) = true := by
  have hrelation : unrelated find row = true ↔
      (find.ExcludeComments = true → row.relation = none) := by
    rw [unrelated]
    cases find.ExcludeComments <;> simp
  rw [FindMemo.Undisputed, Bool.and_eq_true, exactName_iff, hrelation]

/-- The conditions that all queries share. -/
private def meetsOthers (row : JoinedMemo) : Prop :=
  ((∀ id ∈ find.ID, row.memo.ID = id) ∧ (find.IDList = [] ∨ row.memo.ID ∈ find.IDList)) ∧
    (∀ creatorID ∈ find.CreatorID, row.memo.CreatorID = creatorID) ∧
    (∀ rowStatus ∈ find.RowStatus, row.memo.RowStatus = rowStatus) ∧
    (find.VisibilityList = [] ∨ row.memo.Visibility ∈ find.VisibilityList)

private theorem selects_iff (driver : MemoDriver) (row : JoinedMemo) :
    driver.selects find row = true ↔
      meetsOthers find row ∧
        (∀ uid ∈ find.UID, driver.sameUID row.memo.UID uid = true) ∧
        (find.UIDList = [] ∨ ∃ uid ∈ find.UIDList, driver.sameUID row.memo.UID uid = true) ∧
        (find.ExcludeComments = true → driver.isComment row = false) := by
  have huid : (find.UID.all (driver.sameUID row.memo.UID)) = true ↔
      ∀ uid ∈ find.UID, driver.sameUID row.memo.UID uid = true := by
    cases find.UID <;> simp
  have hcomment : (!find.ExcludeComments || !driver.isComment row) = true ↔
      (find.ExcludeComments = true → driver.isComment row = false) := by
    cases find.ExcludeComments <;> simp
  simp only [MemoDriver.selects, Bool.and_eq_true, hcomment, huid, Bool.or_eq_true,
    decide_eq_true_eq, List.any_eq_true, meetsOthers]
  constructor
  · intro h
    rcases h with ⟨⟨⟨⟨⟨⟨hids, huid⟩, huids⟩, hcreator⟩, hstatus⟩, hvisibility⟩, hcomment⟩
    exact ⟨⟨hids, hcreator, hstatus, hvisibility⟩, huid, huids, hcomment⟩
  · intro h
    rcases h with ⟨⟨hids, hcreator, hstatus, hvisibility⟩, huid, huids, hcomment⟩
    exact ⟨⟨⟨⟨⟨⟨hids, huid⟩, huids⟩, hcreator⟩, hstatus⟩, hvisibility⟩, hcomment⟩

/-- SQLite selects the candidates with exact names. -/
private theorem sqlite_selects (row : JoinedMemo) :
    MemoDriver.sqlite.selects find row =
      ((MemoDriver.mysql collation).selects find row && exactName find row) := by
  rw [Bool.eq_iff_iff, Bool.and_eq_true, selects_iff, selects_iff, exactName_iff]
  simp only [MemoDriver.sqlite, MemoDriver.mysql, beq_iff_eq, exists_eq_right']
  constructor
  · rintro ⟨hothers, huid, hlist, hcomment⟩
    refine ⟨⟨hothers, fun uid hmem => ?_, ?_, hcomment⟩, huid, hlist⟩
    · rw [huid uid hmem]
      exact collation.refl uid
    · exact hlist.imp id fun hmem => ⟨_, hmem, collation.refl _⟩
  · rintro ⟨⟨hothers, -, -, hcomment⟩, huid, hlist⟩
    exact ⟨hothers, huid, hlist, hcomment⟩

/-- Postgres selects the undisputed candidates. -/
private theorem postgres_selects {row : JoinedMemo} (hrow : row ∈ db.joinMemos) :
    MemoDriver.postgres.selects find row =
      ((MemoDriver.mysql collation).selects find row &&
        (exactName find row && unrelated find row)) := by
  have hpostgres : MemoDriver.postgres.selects find row =
      (MemoDriver.sqlite.selects find row && unrelated find row) := by
    rw [Bool.eq_iff_iff, Bool.and_eq_true, selects_iff, selects_iff, unrelated]
    simp only [MemoDriver.sqlite, MemoDriver.postgres]
    cases find.ExcludeComments with
    | false => simp
    | true =>
        cases hrelation : row.relation with
        | none =>
            rw [(mem_joinMemos hrow).2.2 hrelation]
            simp
        | some r => simp
  rw [hpostgres, sqlite_selects collation, Bool.and_assoc]

/-- What is so for all rows of a memo. -/
private def ofRows (q : JoinedMemo → Bool) (id : ℤ) : Bool :=
  (db.joinMemos.filter fun row => row.memo.ID = id).all q

/-- The rows of a memo all have a relation, or there is one without. -/
private def Uniform (q : JoinedMemo → Bool) : Prop :=
  ∀ row row' : JoinedMemo, row.memo = row'.memo → (row.relation = none ↔ row'.relation = none) →
    q row = q row'

private theorem ofRows_eq {q : JoinedMemo → Bool} (hq : Uniform q) {row : JoinedMemo}
    (hrow : row ∈ db.joinMemos) : ofRows db q row.memo.ID = q row := by
  have hsame : ∀ row' ∈ db.joinMemos, row'.memo.ID = row.memo.ID → q row' = q row := by
    intro row' hrow' hid
    rcases mem_joinMemos hrow with ⟨hmem, hrelation, -⟩
    rcases mem_joinMemos hrow' with ⟨hmem', hrelation', -⟩
    have hmemo : row'.memo = row.memo := db.eq_of_memoID_eq hmem' hmem hid
    apply hq _ _ hmemo
    rw [hrelation', hrelation, hmemo]
  rw [Bool.eq_iff_iff, ofRows, List.all_eq_true]
  constructor
  · intro h
    exact h row (List.mem_filter.mpr ⟨hrow, by simp⟩)
  · intro h row' hrow'
    rcases List.mem_filter.mp hrow' with ⟨hmem, hid⟩
    rw [hsame row' hmem (by simpa using hid)]
    exact h

/-- A driver that selects fewer rows leaves out their identifiers. -/
private theorem listedIDs_filter {driver driver' : MemoDriver} {q : JoinedMemo → Bool}
    (hq : Uniform q) (hselects : ∀ row ∈ db.joinMemos,
      driver'.selects find row = (driver.selects find row && q row)) :
    listedIDs driver' db find = (listedIDs driver db find).filter (ofRows db q) := by
  have hrows : db.joinMemos.filter (driver'.selects find) =
      (db.joinMemos.filter (driver.selects find)).filter fun row => ofRows db q row.memo.ID := by
    rw [List.filter_filter]
    apply List.filter_congr
    intro row hrow
    rw [hselects row hrow, ofRows_eq db hq hrow, Bool.and_comm]
  rw [listedIDs, hrows, sortedKeys_filter]
  rfl

private theorem uniform_exactName : Uniform (exactName find) := by
  intro row row' hmemo _
  rw [exactName, exactName, hmemo]

private theorem uniform_undisputed :
    Uniform fun row => exactName find row && unrelated find row := by
  intro row row' hmemo hrelation
  have hisNone : row.relation.isNone = row'.relation.isNone := by
    rw [Bool.eq_iff_iff, Option.isNone_iff_eq_none, Option.isNone_iff_eq_none]
    exact hrelation
  simp only [uniform_exactName find row row' hmemo hrelation, unrelated, hisNone]

/-- Without comments a driver lists no memo twice. -/
private theorem nodup_postgres (hexclude : find.ExcludeComments = true) :
    (listedIDs .postgres db find).Nodup := by
  have hsub : (db.joinMemos.filter (MemoDriver.postgres.selects find)).Sublist
      (db.joinMemos.filter fun row => row.relation.isNone) := by
    apply List.monotone_filter_right
    intro row hrow
    have hcomment := ((selects_iff find .postgres row).mp hrow).2.2.2 hexclude
    simpa [MemoDriver.postgres] using hcomment
  have hperm : (listedIDs .postgres db find).Perm
      ((db.joinMemos.filter (MemoDriver.postgres.selects find)).map fun row => row.memo.ID) := by
    apply ((sortedKeys_perm find _).map keyID).trans
    rw [List.map_map]
    apply List.Perm.of_eq
    congr 1
    funext row
    simp
  exact hperm.nodup_iff.mpr ((nodup_unrelated db).sublist (hsub.map _))

/-- The first identifiers that MySQL lists are those of the rows of small rank. -/
private theorem forall_take_iff {q : JoinedMemo → Bool} (hq : Uniform q) (n : ℕ) :
    (∀ id ∈ (listedIDs (.mysql collation) db find).take n, ofRows db q id = true) ↔
      ∀ row ∈ candidates collation db find, rank collation db find row < n → q row = true := by
  have hmem : ∀ key, key ∈ sortedKeys find (candidates collation db find) ↔
      ∃ row ∈ candidates collation db find, find.orderKey row.memo = key := by
    intro key
    rw [(sortedKeys_perm find _).mem_iff, List.mem_map]
  have hrank : ∀ row, (sortedKeys find (candidates collation db find)).countP
      (· < find.orderKey row.memo) = rank collation db find row := by
    intro row
    rw [(sortedKeys_perm find _).countP_eq, List.countP_map]
    rfl
  have htake : (listedIDs (.mysql collation) db find).take n =
      ((sortedKeys find (candidates collation db find)).take n).map keyID := by
    rw [List.map_take]
    rfl
  have hkey := Page.mem_take_iff_rank (sortedKeys_pairwise find (candidates collation db find))
  rw [htake]
  simp only [List.forall_mem_map, hkey, hmem]
  constructor
  · intro h row hrow hn
    have hrow' := (List.mem_filter.mp hrow).1
    have hall := h _ ⟨⟨row, hrow, rfl⟩, (hrank row).symm ▸ hn⟩
    rwa [keyID_orderKey, ofRows_eq db hq hrow'] at hall
  · rintro h key ⟨⟨row, hrow, rfl⟩, hn⟩
    rw [hrank] at hn
    rw [keyID_orderKey, ofRows_eq db hq (List.mem_filter.mp hrow).1]
    exact h row hrow hn

/-! ## Pages -/

/-- The rows in front of the page. -/
private def startOf : ℕ :=
  if find.Limit = none then 0 else (find.Offset.getD 0).toNat

/-- The rows on the page, if there are not more than a number of rows. -/
private def sizeOf (total : ℕ) : ℕ :=
  find.Limit.elim total Int.toNat

/-- A query without negative limits returns a page. -/
private theorem pageOf_eq (hnonneg : find.NonnegativeLimits) (driver : MemoDriver) {α : Type}
    {rows : List α} {total : ℕ} (htotal : rows.length ≤ total) :
    driver.pageOf find rows = some (Page.page (startOf find) (sizeOf find total) rows) := by
  rw [MemoDriver.pageOf, if_pos (.inr hnonneg), startOf, sizeOf]
  cases hlimit : find.Limit with
  | none =>
      rw [if_pos rfl, limitRows, Page.page, List.drop_zero]
      exact congrArg some (List.take_of_length_le htotal).symm
  | some n =>
      have hn := (hnonneg n hlimit).1
      rw [if_neg (by simp), limitRows, if_neg (by omega)]
      rfl

private theorem length_listedIDs :
    (listedIDs (.mysql collation) db find).length = (candidates collation db find).length := by
  rw [listedIDs, List.length_map, (sortedKeys_perm find _).length_eq, List.length_map]
  rfl

private theorem rank_lt {row : JoinedMemo} (hrow : row ∈ candidates collation db find) :
    rank collation db find row < (candidates collation db find).length := by
  apply lt_of_le_of_ne List.countP_le_length
  intro hall
  have hself := List.countP_eq_length.mp hall row hrow
  simp at hself

/-- When a page is undisturbed, in terms of what MySQL lists. -/
private theorem undisturbed_iff :
    Undisturbed collation db find ↔ find.NonnegativeLimits ∧
      (sizeOf find (candidates collation db find).length = 0 ∨
        (candidates collation db find).length ≤ startOf find ∨
        ∀ id ∈ (listedIDs (.mysql collation) db find).take
            (startOf find + sizeOf find (candidates collation db find).length),
          ofRows db (fun row => exactName find row && unrelated find row) id = true) := by
  have hundisputed : ∀ row, (exactName find row && unrelated find row) = true ↔
      find.Undisputed row := fun row => (undisputed_iff find row).symm
  rw [forall_take_iff collation db find (uniform_undisputed find)]
  simp only [hundisputed]
  have hpage : Undisturbed collation db find ↔ find.NonnegativeLimits ∧
      (find.Limit = some 0 ∨
        (find.Limit ≠ none ∧ ((candidates collation db find).length : ℤ) ≤ find.Offset.getD 0) ∨
        ∀ row ∈ candidates collation db find,
          (∀ n ∈ find.Limit, (rank collation db find row : ℤ) < find.Offset.getD 0 + n) →
            find.Undisputed row) := ⟨fun h => ⟨h.nonneg, h.page⟩, fun h => ⟨h.1, h.2⟩⟩
  rw [hpage]
  apply and_congr_right
  intro hnonneg
  rw [startOf, sizeOf]
  cases hlimit : find.Limit with
  | none =>
      have hrank : ∀ row ∈ candidates collation db find,
          rank collation db find row < (candidates collation db find).length :=
        fun row hrow => rank_lt collation db find hrow
      simp only [reduceCtorEq, ne_eq, not_true_eq_false, false_and, false_or, Option.not_mem_none,
        false_implies, implies_true, if_true, Option.elim_none, Nat.zero_add, Nat.le_zero]
      constructor
      · exact fun h => .inr (.inr fun row hrow _ => h row hrow trivial)
      · rintro (hempty | hempty | h) row hrow -
        · exact absurd (hrank row hrow) (by omega)
        · exact absurd (hrank row hrow) (by omega)
        · exact h row hrow (hrank row hrow)
  | some n =>
      rcases hnonneg n hlimit with ⟨hn, hoffset⟩
      have hstart : 0 ≤ find.Offset.getD 0 := by
        cases ho : find.Offset with
        | none => exact Int.le_refl 0
        | some o => exact hoffset o ho
      simp only [Option.some.injEq, ne_eq, reduceCtorEq, not_false_eq_true, true_and,
        Option.mem_def, forall_eq', if_false, Option.elim_some]
      apply or_congr (by omega)
      apply or_congr (by omega)
      apply forall_congr'
      intro row
      apply forall_congr'
      intro hrow
      rw [show ((rank collation db find row : ℤ) < find.Offset.getD 0 + n) ↔
        rank collation db find row < (find.Offset.getD 0).toNat + n.toNat by omega]

end Differences

/-- The drivers list the same memos in the same order if the page is undisturbed; and only if,
where comments are excluded or the page starts at the front. -/
theorem listMemos_agree_iff (collation : Collation) (db : Tables) (find : FindMemo) :
    (Undisturbed collation db find → DriversAgree collation db find) ∧
      (find.ExcludeComments = true ∨ find.Limit = none ∨ find.Offset.getD 0 = 0 →
        DriversAgree collation db find → Undisturbed collation db find) := by
  let total := (candidates collation db find).length
  let ids := listedIDs (.mysql collation) db find
  let undisputed := ofRows db fun row => exactName find row && unrelated find row
  let named := ofRows db (exactName find)
  have hlength : ids.length = total := length_listedIDs collation db find
  have hpostgres : listedIDs .postgres db find = ids.filter undisputed :=
    listedIDs_filter db find (uniform_undisputed find) fun row hrow =>
      postgres_selects collation db find hrow
  have hsqlite : listedIDs .sqlite db find = ids.filter named :=
    listedIDs_filter db find (uniform_exactName find) fun row _ =>
      sqlite_selects collation find row
  have hpage : ∀ (driver : MemoDriver) (q : ℤ → Bool), find.NonnegativeLimits →
      driver.pageOf find (ids.filter q) =
        some (Page.page (startOf find) (sizeOf find total) (ids.filter q)) := by
    intro driver q hnonneg
    exact pageOf_eq find hnonneg driver ((List.length_filter_le q ids).trans hlength.le)
  have hall : ∀ driver : MemoDriver, find.NonnegativeLimits →
      driver.pageOf find ids = some (Page.page (startOf find) (sizeOf find total) ids) :=
    fun driver hnonneg => pageOf_eq find hnonneg driver hlength.le
  rw [agree_iff_pages, undisturbed_iff]
  constructor
  · rintro ⟨hnonneg, hcases⟩
    have hundisputed : sizeOf find total = 0 ∨ ids.length ≤ startOf find ∨
        ∀ id ∈ ids.take (startOf find + sizeOf find total), undisputed id = true := by
      rw [hlength]
      exact hcases
    have hnamed : sizeOf find total = 0 ∨ ids.length ≤ startOf find ∨
        ∀ id ∈ ids.take (startOf find + sizeOf find total), named id = true := by
      refine hundisputed.imp_right (Or.imp_right fun hall id hid => ?_)
      apply List.all_eq_true.mpr
      intro row hrow
      have hboth := List.all_eq_true.mp (hall id hid) row hrow
      exact (Bool.and_eq_true_iff.mp hboth).1
    have hsame : ∀ driver ∈ memoDrivers collation,
        driver.pageOf find (listedIDs driver db find) =
          some (Page.page (startOf find) (sizeOf find total) ids) := by
      intro driver hdriver
      rcases List.mem_cons.mp hdriver with rfl | hdriver
      · rw [hsqlite, hpage _ _ hnonneg, ← Page.page_filter_eq hnamed]
      rcases List.mem_cons.mp hdriver with rfl | hdriver
      · exact hall _ hnonneg
      · rw [List.mem_singleton.mp hdriver, hpostgres, hpage _ _ hnonneg,
          ← Page.page_filter_eq hundisputed]
    intro first hfirst second hsecond
    rw [hsame first hfirst, hsame second hsecond]
  · intro hstart h
    have hnonneg : find.NonnegativeLimits := by
      by_contra hnegative
      have hpages := h .sqlite (by simp [memoDrivers]) (.mysql collation) (by simp [memoDrivers])
      rw [MemoDriver.pageOf, MemoDriver.pageOf, if_pos (.inl rfl),
        if_neg (by simp [MemoDriver.mysql, hnegative])] at hpages
      cases hpages
    refine ⟨hnonneg, ?_⟩
    have hpages := h (.mysql collation) (by simp [memoDrivers]) .postgres (by simp [memoDrivers])
    rw [hall _ hnonneg, hpostgres, hpage _ _ hnonneg, Option.some.injEq] at hpages
    have hnodup : startOf find = 0 ∨ (ids.filter undisputed).Nodup := by
      rcases hstart with hexclude | hlimit | hoffset
      · right
        rw [← hpostgres]
        exact nodup_postgres db find hexclude
      · exact .inl (if_pos hlimit)
      · left
        rw [startOf, hoffset]
        split <;> rfl
    have hcases := (Page.page_filter_eq_iff hnodup).mp hpages
    rwa [hlength] at hcases

/-- A collation that ignores case. -/
def Collation.caseless : Collation where
  same s t := s.toLower == t.toLower
  refl _ := beq_self_eq_true _

/-- A comment on a memo. -/
private def commentOn (parent : ℤ) : MemoRelation :=
  ⟨2, parent, .Comment⟩

/-- A comment on a memo that exists is listed by no driver. -/
theorem listMemos_agree_iff_comment :
    DriversAgree .caseless
      (.ofMemos [{ ID := 1, UID := "a", CreatorID := 1 }, { ID := 2, UID := "b", CreatorID := 1 }]
        [commentOn 1] [] 2) { ExcludeComments := true } := by
  apply (listMemos_agree_iff _ _ _).1
  refine ⟨by decide, .inr (.inr ?_)⟩
  have hrows : candidates .caseless
      (.ofMemos [{ ID := 1, UID := "a", CreatorID := 1 }, { ID := 2, UID := "b", CreatorID := 1 }]
        [commentOn 1] [] 2) { ExcludeComments := true } =
          [⟨{ ID := 1, UID := "a", CreatorID := 1 }, none, none⟩] := rfl
  rw [hrows]
  intro row hrow _
  rw [List.mem_singleton.mp hrow]
  exact ⟨⟨by simp, .inl rfl⟩, fun _ => rfl⟩

/-- A comment on a memo that no longer exists is listed by SQLite and not by Postgres. -/
theorem dangling_comment_listed :
    ¬DriversAgree .caseless
      (.ofMemos [{ ID := 2, UID := "b", CreatorID := 1 }] [commentOn 1] [] 2)
      { ExcludeComments := true } := by
  intro h
  have hpages := agree_iff_pages.mp h .sqlite (by simp [memoDrivers]) .postgres
    (by simp [memoDrivers])
  revert hpages
  decide +kernel

end Store
end MemosNote
