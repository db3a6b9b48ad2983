import MemosNote.Api.CommentVisibility
import MemosNote.Api.UpdateEffects

/-!
# Threads and their readers

A memo comments on one memo at most, in every run of creations, comments and updates.  Who reads a
comment reads the memo that it comments on too.

Main results:

- Structure {lit}`Threads`: every comment has one parent, which exists.
- Theorem {lit}`checkMemoReadAccess_ok_iff`: who reads a memo.
- Theorem {lit}`mayRead_of_readable`, Theorem {lit}`not_mayRead_of_archived`: who reads a memo with
  its parent.
-/

namespace MemosNote
namespace Api

open Library Store

/-! ## Reading -/

/-- The creator reads a memo; the others read it if it is neither archived nor private. -/
def Readable (memo : Memo) (id : ℤ) : Prop :=
  memo.CreatorID = id ∨ (memo.RowStatus ≠ .ARCHIVED ∧ memo.Visibility ≠ .Private)

theorem checkMemoReadAccess_ok_iff {reader : MemoService} {user : User} {memo : Memo}
    (huser : reader.fetchCurrentUser = .ok (some user)) :
    reader.checkMemoReadAccess memo = .ok () ↔ Readable memo user.ID := by
  rw [MemoService.checkMemoReadAccess, Readable, huser]
  by_cases hcreator : memo.CreatorID = user.ID
  · simp [hcreator, Except.bind]
  · cases hstatus : memo.RowStatus <;> cases hvisibility : memo.Visibility <;>
      simp [hcreator, Except.bind]

/-- The user reads the memo and, of a comment, the memo that it comments on. -/
def MayRead (db : Tables) (memo : Memo) (id : ℤ) : Prop :=
  ∀ (reader : MemoService) (user : User), user.ID = id →
    reader.fetchCurrentUser = .ok (some user) →
      reader.checkMemoReadAccess memo = .ok () ∧
        ∀ found ∈ db.joinMemo memo, (reader.checkParentReadAccess found db).1 = .ok ()

/-- The memo that a memo comments on, if it comments on one. -/
def IsParent (db : Tables) (memo : Memo) : Option Memo → Prop
  | none => ∀ r, IsComment db r → r.MemoID ≠ memo.ID
  | some parent => ∃ r, IsComment db r ∧ r.MemoID = memo.ID ∧
      parent ∈ db.memos ∧ parent.ID = r.RelatedMemoID

/-! ## Threads -/

/-- A comment comments on one other memo, which exists. -/
structure Threads (db : Tables) : Prop where
  child : ∀ r, IsComment db r → ∃ memo ∈ db.memos, memo.ID = r.MemoID
  parent : ∀ r, IsComment db r → ∃ memo ∈ db.memos, memo.ID = r.RelatedMemoID
  single : ∀ r r', IsComment db r → IsComment db r' → r.MemoID = r'.MemoID → r = r'
  irrefl : ∀ r, IsComment db r → r.MemoID ≠ r.RelatedMemoID

/-- A comment has one parent. -/
def OneParent (db : Tables) : Prop :=
  ∀ r r', IsComment db r → IsComment db r' → r.MemoID = r'.MemoID → r = r'

variable {db db' : Tables}

/-- Tables without relations have no comments. -/
theorem threads_of_empty (h : db.memoRelations = []) : Threads db := by
  have hnone : ∀ r, ¬ IsComment db r := by
    intro r hr
    exact List.not_mem_nil (h ▸ hr.1)
  constructor
  · exact fun r hr => absurd hr (hnone r)
  · exact fun r hr => absurd hr (hnone r)
  · exact fun r _ hr => absurd hr (hnone r)
  · exact fun r hr => absurd hr (hnone r)

/-- The same comments on memos that are all left. -/
theorem Threads.of_comments (h : Threads db) (hcomments : ∀ r, IsComment db' r ↔ IsComment db r)
    (hmemos : ∀ m ∈ db.memos, ∃ m' ∈ db'.memos, m'.ID = m.ID) : Threads db' := by
  have hleft : ∀ id, (∃ m ∈ db.memos, m.ID = id) → ∃ m ∈ db'.memos, m.ID = id := by
    intro id hid
    rcases hid with ⟨m, hm, rfl⟩
    exact hmemos m hm
  constructor
  · exact fun r hr => hleft _ (h.child r ((hcomments r).mp hr))
  · exact fun r hr => hleft _ (h.parent r ((hcomments r).mp hr))
  · exact fun r r' hr hr' => h.single r r' ((hcomments r).mp hr) ((hcomments r').mp hr')
  · exact fun r hr => h.irrefl r ((hcomments r).mp hr)

theorem Threads.of_sameThreads (h : Threads db) (hsame : SameThreads db db') : Threads db' := by
  refine h.of_comments hsame.comments fun m hm => ⟨m, ?_, rfl⟩
  rw [hsame.memos]
  exact hm

theorem Threads.of_created {visibility : Visibility} {memo : Memo} (h : Threads db)
    (hcreated : Created db db' visibility memo) : Threads db' := by
  refine h.of_comments hcreated.comments fun m hm => ⟨m, ?_, rfl⟩
  rw [hcreated.memos]
  exact List.mem_append_left _ hm

theorem Threads.of_createdOrNot (h : Threads db) (hcreated : CreatedOrNot db db') :
    Threads db' := by
  rcases hcreated with rfl | ⟨visibility, memo, hcreated⟩
  · exact h
  · exact h.of_created hcreated

theorem Threads.of_updateMemo (h : Threads db) (update : UpdateMemo) :
    Threads (db.updateMemo update) :=
  h.of_comments (fun _ => Iff.rfl) fun m hm =>
    ⟨update.onRow m, List.mem_map_of_mem hm, update.onRow_ID m⟩

theorem isComment_upsert {create r : MemoRelation} (hcreate : create.RelationType = .Comment) :
    IsComment (db.upsertMemoRelation create) r ↔ IsComment db r ∨ r = create := by
  rw [IsComment, IsComment, Tables.mem_upsertMemoRelation]
  constructor
  · intro h
    exact h.1.imp (fun hmem => ⟨hmem, h.2⟩) id
  · intro h
    rcases h with h | rfl
    · exact ⟨.inl h.1, h.2⟩
    · exact ⟨.inr rfl, hcreate⟩

/-- A memo that comments on nothing becomes a comment. -/
theorem Threads.of_upsert (h : Threads db) {memo parent : Memo} (hmemo : memo ∈ db.memos)
    (hparent : parent ∈ db.memos) (hnew : ∀ r, IsComment db r → r.MemoID ≠ memo.ID)
    (hne : memo.ID ≠ parent.ID) :
    Threads (db.upsertMemoRelation ⟨memo.ID, parent.ID, .Comment⟩) := by
  constructor
  · intro r hr
    rcases (isComment_upsert rfl).mp hr with hr | rfl
    · exact h.child r hr
    · exact ⟨memo, hmemo, rfl⟩
  · intro r hr
    rcases (isComment_upsert rfl).mp hr with hr | rfl
    · exact h.parent r hr
    · exact ⟨parent, hparent, rfl⟩
  · intro r r' hr hr' hsame
    rcases (isComment_upsert rfl).mp hr with hr | rfl
    · rcases (isComment_upsert rfl).mp hr' with hr' | rfl
      · exact h.single r r' hr hr' hsame
      · exact absurd hsame (hnew r hr)
    · rcases (isComment_upsert rfl).mp hr' with hr' | rfl
      · exact absurd hsame.symm (hnew r' hr')
      · rfl
  · intro r hr
    rcases (isComment_upsert rfl).mp hr with hr | rfl
    · exact h.irrefl r hr
    · exact hne

theorem Threads.exists_isParent (h : Threads db) (memo : Memo) :
    ∃ parent, IsParent db memo parent := by
  by_cases hcomment : ∃ r, IsComment db r ∧ r.MemoID = memo.ID
  · rcases hcomment with ⟨r, hr, hid⟩
    rcases h.parent r hr with ⟨parent, hparent, hparentID⟩
    exact ⟨some parent, r, hr, hid, hparent, hparentID⟩
  · exact ⟨none, fun r hr hid => hcomment ⟨r, hr, hid⟩⟩

theorem mem_commentRelations {r : MemoRelation} {id : ℤ} :
    r ∈ db.commentRelations id ↔ IsComment db r ∧ r.MemoID = id := by
  rw [Tables.commentRelations, List.mem_filter, decide_eq_true_iff, IsComment]
  tauto

theorem commentRelations_eq_nil {memo : Memo} (h : IsParent db memo none) :
    db.commentRelations memo.ID = [] := by
  rw [List.eq_nil_iff_forall_not_mem]
  intro r hr
  rcases mem_commentRelations.mp hr with ⟨hr, hid⟩
  exact h r hr hid

private theorem memoUID?_of_mem {memo : Memo} (hmemo : memo ∈ db.memos) :
    db.memoUID? memo.ID = some memo.UID := by
  rw [Tables.memoUID?]
  cases hfind : db.memos.find? fun m => m.ID = memo.ID with
  | none => exact absurd (List.find?_eq_none.mp hfind memo hmemo) (by simp)
  | some m =>
      have hid : m.ID = memo.ID := by simpa using List.find?_some hfind
      rw [db.eq_of_memoID_eq (List.mem_of_find?_eq_some hfind) hmemo hid]
      rfl

/-- A query for a memo shows its parent. -/
theorem parentUID_of_isParent (h : Threads db) {memo : Memo} {parent : Option Memo}
    (hparent : IsParent db memo parent) {found : FoundMemo} (hfound : found ∈ db.joinMemo memo) :
    found.ParentUID = parent.map Memo.UID := by
  rw [Tables.joinMemo] at hfound
  cases parent with
  | none =>
      rw [commentRelations_eq_nil hparent] at hfound
      rw [List.mem_singleton.mp hfound]
      rfl
  | some parent =>
      rcases hparent with ⟨r, hr, hid, hmem, hparentID⟩
      have hne : db.commentRelations memo.ID ≠ [] :=
        List.ne_nil_of_mem (mem_commentRelations.mpr ⟨hr, hid⟩)
      cases hrelations : db.commentRelations memo.ID with
      | nil => exact absurd hrelations hne
      | cons first rest =>
          rw [hrelations] at hfound
          rcases List.mem_map.mp hfound with ⟨r', hr', rfl⟩
          rw [← hrelations] at hr'
          rcases mem_commentRelations.mp hr' with ⟨hcomment, hid'⟩
          rw [h.single r' r hcomment hr (hid'.trans hid.symm), ← hparentID]
          exact memoUID?_of_mem hmem

theorem isParent_of_sameThreads (h : SameThreads db db') {memo : Memo} {parent : Option Memo}
    (hparent : IsParent db memo parent) : IsParent db' memo parent := by
  cases parent with
  | none => exact fun r hr => hparent r ((h.comments r).mp hr)
  | some p =>
      rcases hparent with ⟨r, hr, hid, hmem, hparentID⟩
      exact ⟨r, (h.comments r).mpr hr, hid, h.memos ▸ hmem, hparentID⟩

/-- A query for the name of a memo finds it. -/
theorem getMemo_uid_of_mem (engine : StoreEngine) {memo : Memo} (hmemo : memo ∈ db.memos) :
    ∃ row, engine.getMemo { UID := some memo.UID } db = (.ok (some row), db) ∧
      row.toMemo = memo := by
  rcases MemoService.getMemo_uid_eq engine db memo.UID with ⟨found, hget, hfind⟩
  cases found with
  | none =>
      have hnone := List.find?_eq_none.mp hfind.symm memo hmemo
      exact absurd (decide_eq_true rfl) hnone
  | some row =>
      have huid : row.UID = memo.UID := by simpa using List.find?_some hfind.symm
      exact ⟨row, hget,
        db.eq_of_memoUID_eq (List.mem_of_find?_eq_some hfind.symm) hmemo huid⟩

/-- Who reads a memo and its parent. -/
theorem mayRead_of_readable (h : Threads db) {memo : Memo} {parent : Option Memo}
    (hparent : IsParent db memo parent) {id : ℤ} (hmemo : Readable memo id)
    (hreadable : ∀ p ∈ parent, Readable p id) : MayRead db memo id := by
  intro reader user hid huser
  refine ⟨(checkMemoReadAccess_ok_iff huser).mpr (hid ▸ hmemo), fun found hfound => ?_⟩
  rw [MemoService.checkParentReadAccess, parentUID_of_isParent h hparent hfound]
  cases parent with
  | none => rfl
  | some p =>
      rcases hparent with ⟨r, -, -, hmem, -⟩
      rcases getMemo_uid_of_mem reader.engine hmem with ⟨row, hget, hrow⟩
      have hquery : internally "failed to get parent memo"
          (reader.engine.getMemo { UID := some p.UID }) db = (.ok (some row), db) := by
        rw [internally, withStatus, Effect.mapError, hget]
        rfl
      dsimp only [Option.map_some]
      rw [Effect.bind_of_ok hquery]
      change (Effect.ofExcept (reader.checkMemoReadAccess row.toMemo) db).1 = _
      rw [hrow, (checkMemoReadAccess_ok_iff huser).mpr (hid ▸ hreadable p rfl)]
      rfl

/-- Only the creator reads an archived memo. -/
theorem not_mayRead_of_archived {memo : Memo} {id : ℤ} (hid : id ≠ 0)
    (hstatus : memo.RowStatus = .ARCHIVED) (hother : memo.CreatorID ≠ id) :
    ¬ MayRead db memo id := by
  intro h
  -- A service for a request of the user.
  let user : User := { ID := id, Username := "" }
  let reader : MemoService :=
    { MemoService.plain with contextUserID := id, getUserByID := fun _ => .ok (some user) }
  have huser : reader.fetchCurrentUser = .ok (some user) := by
    rw [MemoService.fetchCurrentUser, if_neg hid]
    rfl
  rcases (checkMemoReadAccess_ok_iff huser).mp (h reader user rfl huser).1 with hcreator | hactive
  · exact hother hcreator
  · exact hactive.1 hstatus

end Api
end MemosNote
