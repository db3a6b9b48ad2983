import MemosNote.Api.MemoService

/-!
# The deletion of a memo

The service deletes the comments on a memo and then the memo, each with its relations and its
attachments.  It leaves the reactions and the shares of the memos it deletes, and the comments
on comments.

Main results:

- Theorem {lit}`deleteMemo_ok`: a deletion that succeeds deletes one memo after the other.
- Theorem {lit}`linkedCount_withoutMemos`: a deletion of a memo deletes a hundred attachments at
  most.
- Theorem {lit}`delete_memo_iff`: when nothing is left dangling.
-/

namespace MemosNote
namespace Api

open Library Store

namespace MemoService

variable (svc : MemoService)

/-- Delete a memo and the comments on it. -/
def deleteMemo (name : String) : ApiM Unit := do
  -- What is read only for the webhook, the reactions and relations, is left out.
  let found ← svc.requireOwnMemo name (fun err => .status .Unknown err)
    "failed to get current user"
  let memo := found.1
  let _ ← internally "failed to list attachments"
    (svc.engine.listAttachments { MemoID := some memo.ID })
  let relations ← internally "failed to list memo comments" (svc.engine.listMemoRelations
    { RelatedMemoID := some memo.ID, RelationType := some .Comment })
  Effect.forEach (fun relation =>
    internally "failed to delete memo comment" (svc.engine.deleteMemo relation.MemoID)) relations
  internally "failed to delete memo" (svc.engine.deleteMemo memo.ID)

end MemoService

/-! ## What a deletion leaves -/

/-- The tables after the deletion of several memos. -/
def withoutMemos (engine : StoreEngine) (db : Tables) (ids : List ℤ) : Tables :=
  ids.foldl engine.withoutMemo db

/-- The comments on a memo, by their relations. -/
def commentIDs (db : Tables) (memo : Memo) : List ℤ :=
  (db.memoRelations.filter fun r => r.RelatedMemoID = memo.ID ∧ r.RelationType = .Comment).map
    MemoRelation.MemoID

/-- The number of attachments linked to a memo. -/
def linkedCount (db : Tables) (memoID : ℤ) : ℕ :=
  (db.attachments.filter fun a => a.MemoID = some memoID).length

section

variable {engine : StoreEngine} {db db' : Tables}

private theorem memos_withoutMemos (ids : List ℤ) :
    (withoutMemos engine db ids).memos = db.memos.filter fun m => m.ID ∉ ids := by
  induction ids generalizing db with
  | nil => simp [withoutMemos]
  | cons id ids ih =>
      rw [withoutMemos, List.foldl_cons, ← withoutMemos, ih]
      have hone : (engine.withoutMemo db id).memos = db.memos.filter fun m => m.ID ≠ id := rfl
      rw [hone, List.filter_filter]
      refine List.filter_congr fun m _ => ?_
      rw [Bool.eq_iff_iff]
      simp [and_comm]

theorem memoRelations_withoutMemos (ids : List ℤ) :
    (withoutMemos engine db ids).memoRelations =
      db.memoRelations.filter fun r => r.MemoID ∉ ids ∧ r.RelatedMemoID ∉ ids := by
  induction ids generalizing db with
  | nil => simp [withoutMemos]
  | cons id ids ih =>
      rw [withoutMemos, List.foldl_cons, ← withoutMemos, ih]
      have hone : (engine.withoutMemo db id).memoRelations =
          (db.memoRelations.filter fun r =>
            !({ MemoID := some id } : DeleteMemoRelation).matchesRelation r).filter fun r =>
              !({ RelatedMemoID := some id } : DeleteMemoRelation).matchesRelation r := rfl
      rw [hone, List.filter_filter, List.filter_filter]
      refine List.filter_congr fun r _ => ?_
      rw [Bool.eq_iff_iff]
      simp only [DeleteMemoRelation.matchesRelation, Bool.and_eq_true, decide_eq_true_eq]
      simp
      tauto

theorem reactions_withoutMemos (ids : List ℤ) :
    (withoutMemos engine db ids).reactions = db.reactions := by
  induction ids generalizing db with
  | nil => rfl
  | cons id ids ih => exact ih

theorem memoShares_withoutMemos (ids : List ℤ) :
    (withoutMemos engine db ids).memoShares = db.memoShares := by
  induction ids generalizing db with
  | nil => rfl
  | cons id ids ih => exact ih

/-- Taking away what a prefix holds leaves the rest of a list with distinct keys. -/
theorem length_filter_notMem_take {α β : Type} [DecidableEq β] (key : α → β) {list : List α}
    (hnodup : (list.map key).Nodup) (n : ℕ) :
    (list.filter fun a => key a ∉ (list.take n).map key).length = list.length - n := by
  have hsplit : (list.filter fun a => key a ∉ (list.take n).map key) = list.drop n := by
    have happend : list.filter (fun a => key a ∉ (list.take n).map key) =
        (list.take n).filter (fun a => key a ∉ (list.take n).map key) ++
          (list.drop n).filter (fun a => key a ∉ (list.take n).map key) := by
      rw [← List.filter_append, List.take_append_drop]
    have htake : (list.take n).filter (fun a => key a ∉ (list.take n).map key) = [] := by
      rw [List.filter_eq_nil_iff]
      intro a ha hkept
      exact of_decide_eq_true hkept (List.mem_map_of_mem ha)
    have hdrop : (list.drop n).filter (fun a => key a ∉ (list.take n).map key) = list.drop n := by
      rw [List.filter_eq_self]
      intro a ha
      rw [← List.take_append_drop n list, List.map_append, List.nodup_append] at hnodup
      refine decide_eq_true fun hmem => ?_
      exact hnodup.2.2 _ hmem _ (List.mem_map_of_mem ha) rfl
    rw [happend, htake, hdrop, List.nil_append]
  rw [hsplit, List.length_drop]

/-- One deletion deletes at most a hundred of the attachments of its memo, and no other. -/
theorem linkedCount_withoutMemo (id memoID : ℤ) :
    linkedCount (engine.withoutMemo db id) memoID =
      if memoID = id then linkedCount db memoID - 100 else linkedCount db memoID := by
  have hattachments : (engine.withoutMemo db id).attachments = db.attachments.filter
      fun a => a.ID ∉ (engine.listedAttachments db id).map Attachment.ID := rfl
  rw [linkedCount, hattachments, List.filter_filter]
  by_cases h : memoID = id
  · subst h
    rw [if_pos rfl, linkedCount]
    have hperm := engine.attachmentOrder.perm (db.attachments.filter fun a => a.MemoID = some memoID)
    have hnodup : ((engine.attachmentOrder.sort
        (db.attachments.filter fun a => a.MemoID = some memoID)).map Attachment.ID).Nodup :=
      (hperm.map _).nodup_iff.mpr (db.attachmentIDs_nodup.sublist (List.filter_sublist.map _))
    rw [← hperm.length_eq, ← length_filter_notMem_take Attachment.ID hnodup 100,
      (hperm.filter _).length_eq, List.filter_filter]
    congr 1
    refine List.filter_congr fun a _ => ?_
    rw [StoreEngine.listedAttachments, Bool.and_comm]
  · rw [if_neg h, linkedCount]
    congr 1
    refine List.filter_congr fun a ha => ?_
    rw [Bool.eq_iff_iff]
    simp only [Bool.and_eq_true, decide_eq_true_eq, and_iff_left_iff_imp]
    rintro hlinked hlisted
    obtain ⟨b, hb, hid⟩ := List.mem_map.mp hlisted
    obtain ⟨hmem, hmemo⟩ := StoreEngine.mem_of_mem_listedAttachments hb
    rw [db.eq_of_attachmentID_eq hmem ha hid, hlinked] at hmemo
    exact h (Option.some.inj hmemo)

theorem linkedCount_withoutMemos (ids : List ℤ) (memoID : ℤ) :
    linkedCount (withoutMemos engine db ids) memoID =
      linkedCount db memoID - 100 * ids.count memoID := by
  induction ids generalizing db with
  | nil => simp [withoutMemos]
  | cons id ids ih =>
      rw [withoutMemos, List.foldl_cons, ← withoutMemos, ih, linkedCount_withoutMemo,
        List.count_cons]
      by_cases h : memoID = id
      · rw [if_pos h, if_pos (by simp [h])]
        omega
      · rw [if_neg h, if_neg (by simpa using fun heq => h heq.symm)]
        omega

/-! ## A deletion that succeeds -/

private theorem deleteComments_ok {relations : List MemoRelation}
    (h : Effect.forEach (fun relation : MemoRelation =>
      internally "failed to delete memo comment" (engine.deleteMemo relation.MemoID)) relations db =
        (.ok (), db')) :
    db' = withoutMemos engine db (relations.map MemoRelation.MemoID) := by
  induction relations generalizing db with
  | nil => exact (Prod.mk.inj h).2.symm
  | cons relation relations ih =>
      obtain ⟨_, t, hfirst, hrest⟩ := Effect.ok_of_bind h
      obtain rfl := StoreEngine.deleteMemo_ok (Effect.ok_of_mapError hfirst)
      exact ih hrest

/-- The relations listed for a memo, in some order. -/
theorem listMemoRelations_comments {memo : Memo} {relations : List MemoRelation} {t : Tables}
    (h : internally "failed to list memo comments" (engine.listMemoRelations
      { RelatedMemoID := some memo.ID, RelationType := some .Comment }) db = (.ok relations, t)) :
    t = db ∧ (relations.map MemoRelation.MemoID).Perm (commentIDs db memo) := by
  have hlist : engine.listMemoRelations
      { RelatedMemoID := some memo.ID, RelationType := some .Comment } db =
        (.ok ((db.memoRelations.filter fun r =>
          ({ RelatedMemoID := some memo.ID, RelationType := some .Comment } :
            FindMemoRelation).matchesRelation r && true).insertionSort
              fun a b => b.MemoID ≤ a.MemoID), db) := rfl
  have hok := Effect.ok_of_mapError h
  rw [hlist] at hok
  obtain ⟨hrelations, rfl⟩ := Prod.mk.inj hok
  obtain rfl := Except.ok.inj hrelations
  refine ⟨rfl, ((List.perm_insertionSort _ _).trans ?_).map _⟩
  refine List.Perm.of_eq (List.filter_congr fun r _ => ?_)
  rw [Bool.eq_iff_iff]
  simp [FindMemoRelation.matchesRelation]

variable {svc : MemoService}

/-- A deletion that succeeds deletes the comments on its memo, and then the memo. -/
theorem deleteMemo_ok {name : String}
    (h : svc.deleteMemo name db = (.ok (), db')) :
    ∃ memo ∈ db.memos, svc.extractMemoUIDFromName name = .ok memo.UID ∧
      ∃ ids, ids.Perm (commentIDs db memo ++ [memo.ID]) ∧ db' = withoutMemos svc.engine db ids := by
  rw [MemoService.deleteMemo] at h
  obtain ⟨⟨memo, user⟩, t, hfound, hlisting⟩ := Effect.ok_of_bind h
  obtain ⟨rfl, hname, hmem, -⟩ := MemoService.requireOwnMemo_ok hfound
  obtain ⟨_, t', hlist, hcascade⟩ := Effect.ok_of_bind hlisting
  have hlist' := Effect.ok_of_mapError hlist
  rw [StoreEngine.listAttachments_memo] at hlist'
  obtain rfl := (Prod.mk.inj hlist').2
  obtain ⟨relations, t2, hrelations, hdeletions⟩ := Effect.ok_of_bind hcascade
  obtain ⟨rfl, hperm⟩ := @listMemoRelations_comments _ _ memo.toMemo _ _ hrelations
  obtain ⟨_, u, hcomments, hlast⟩ := Effect.ok_of_bind hdeletions
  obtain rfl := deleteComments_ok hcomments
  obtain rfl := StoreEngine.deleteMemo_ok (Effect.ok_of_mapError hlast)
  refine ⟨memo.toMemo, hmem, hname, relations.map MemoRelation.MemoID ++ [memo.ID],
    hperm.append_right _, ?_⟩
  rw [withoutMemos, withoutMemos, List.foldl_append]
  rfl

end

/-! ## Nothing dangling -/

/-- The rows that hang on a memo: its relations, attachments, reactions and shares. -/
def TableRow.HangsOn : TableRow → Memo → Prop
  | .memoRelation row, memo => TableRow.RefersTo (.memoRelation row) (.memo memo)
  | .attachment row, memo => TableRow.RefersTo (.attachment row) (.memo memo)
  | .reaction row, memo => TableRow.RefersTo (.reaction row) (.memo memo)
  | .memoShare row, memo => TableRow.RefersTo (.memoShare row) (.memo memo)
  | _, _ => False

/-- A direct or indirect comment of a memo. -/
inductive CommentBelow (db : Tables) (memo : Memo) : Memo → Prop where
  | direct (child : Memo) :
      child ∈ db.memos → ⟨child.ID, memo.ID, .Comment⟩ ∈ db.memoRelations →
        CommentBelow db memo child
  | indirect (parent child : Memo) :
      CommentBelow db memo parent → child ∈ db.memos →
        ⟨child.ID, parent.ID, .Comment⟩ ∈ db.memoRelations → CommentBelow db memo child

/-- A memo that queries list as one without a parent. -/
def TopLevel (db : Tables) (memo : Memo) : Prop :=
  ∃ row ∈ db.joinMemo memo, row.ParentUID = none

/-- A deletion has left nothing dangling: no row hangs on a memo that was deleted, and no comment
below the memo is left over as a memo without a parent. -/
structure NothingDangling (db db' : Tables) (memo : Memo) : Prop where
  noRow : ∀ x ∈ db.memos, x ∉ db'.memos → ∀ row ∈ db'.rows, ¬ TableRow.HangsOn row x
  noStray : ∀ child ∈ db'.memos, CommentBelow db memo child → ¬ TopLevel db' child

/-- The memos that the deletion of a memo deletes, by their identifiers. -/
def deletedIDs (db : Tables) (memo : Memo) : List ℤ :=
  commentIDs db memo ++ [memo.ID]

/-- A deletion leaves nothing dangling: the memos it deletes have no reactions, no shares and a
hundred attachments at most, and every deeper comment has another parent that stays. -/
structure SafeToDelete (db : Tables) (memo : Memo) : Prop where
  attachments : ∀ x ∈ db.memos, x.ID ∈ deletedIDs db memo →
    linkedCount db x.ID ≤ 100 * (deletedIDs db memo).count x.ID
  reactions : ∀ x ∈ db.memos, x.ID ∈ deletedIDs db memo →
    ∀ reaction ∈ db.reactions, reaction.ContentID ≠ buildMemoName x.UID
  shares : ∀ x ∈ db.memos, x.ID ∈ deletedIDs db memo →
    ∀ share ∈ db.memoShares, share.MemoID ≠ x.ID
  comments : ∀ child ∈ db.memos, child.ID ∉ deletedIDs db memo → CommentBelow db memo child →
    (∃ r ∈ db.commentRelations child.ID, r.RelatedMemoID ∉ deletedIDs db memo) ∧
      ∀ r ∈ db.commentRelations child.ID, r.RelatedMemoID ∉ deletedIDs db memo →
        ∃ parent ∈ db.memos, parent.ID = r.RelatedMemoID

section

variable {engine : StoreEngine} {db : Tables} {ids : List ℤ}

theorem mem_memos_withoutMemos {memo : Memo} :
    memo ∈ (withoutMemos engine db ids).memos ↔ memo ∈ db.memos ∧ memo.ID ∉ ids := by
  rw [memos_withoutMemos, List.mem_filter, decide_eq_true_iff]

/-- The deleted memos are those with the identifiers. -/
theorem deleted_iff {x : Memo} (hx : x ∈ db.memos) :
    x ∉ (withoutMemos engine db ids).memos ↔ x.ID ∈ ids := by
  rw [mem_memos_withoutMemos]
  constructor
  · intro hgone
    by_contra hkept
    exact hgone ⟨hx, hkept⟩
  · intro hid hmem
    exact hmem.2 hid

/-- An attachment is still linked to a memo when it had more than the deletions delete. -/
theorem linked_withoutMemos_iff {memoID : ℤ} :
    (∃ a ∈ (withoutMemos engine db ids).attachments, a.MemoID = some memoID) ↔
      100 * ids.count memoID < linkedCount db memoID := by
  have hpos : (∃ a ∈ (withoutMemos engine db ids).attachments, a.MemoID = some memoID) ↔
      0 < linkedCount (withoutMemos engine db ids) memoID := by
    rw [linkedCount, List.length_pos_iff_exists_mem]
    constructor
    · rintro ⟨a, ha, hlinked⟩
      exact ⟨a, List.mem_filter.mpr ⟨ha, decide_eq_true hlinked⟩⟩
    · rintro ⟨a, ha⟩
      exact ⟨a, (List.mem_filter.mp ha).1, of_decide_eq_true (List.mem_filter.mp ha).2⟩
  rw [hpos, linkedCount_withoutMemos]
  omega

/-- No row hangs on a deleted memo, by what hung on it before. -/
theorem noRow_iff {x : Memo} (hx : x.ID ∈ ids) :
    (∀ row ∈ (withoutMemos engine db ids).rows, ¬ TableRow.HangsOn row x) ↔
      linkedCount db x.ID ≤ 100 * ids.count x.ID ∧
        (∀ reaction ∈ db.reactions, reaction.ContentID ≠ buildMemoName x.UID) ∧
          ∀ share ∈ db.memoShares, share.MemoID ≠ x.ID := by
  constructor
  · intro hnone
    refine ⟨?_, ?_, ?_⟩
    · by_contra hmore
      obtain ⟨a, ha, hlinked⟩ :=
        linked_withoutMemos_iff.mpr (show 100 * ids.count x.ID < linkedCount db x.ID by omega)
      exact hnone (.attachment a) ((Tables.mem_rows _ _).mpr ha) hlinked
    · intro reaction hreaction hcontent
      refine hnone (.reaction reaction) ((Tables.mem_rows _ _).mpr ?_) hcontent
      change reaction ∈ (withoutMemos engine db ids).reactions
      rwa [reactions_withoutMemos]
    · intro share hshare hmemo
      refine hnone (.memoShare share) ((Tables.mem_rows _ _).mpr ?_) hmemo
      change share ∈ (withoutMemos engine db ids).memoShares
      rwa [memoShares_withoutMemos]
  · rintro ⟨hattachments, hreactions, hshares⟩ row hrow hhangs
    have hmem := (Tables.mem_rows _ _).mp hrow
    cases row with
    | memoRelation r =>
        change r ∈ (withoutMemos engine db ids).memoRelations at hmem
        rw [memoRelations_withoutMemos] at hmem
        obtain ⟨hsource, htarget⟩ := of_decide_eq_true (List.mem_filter.mp hmem).2
        rcases hhangs with heq | heq
        · exact hsource (heq ▸ hx)
        · exact htarget (heq ▸ hx)
    | attachment a =>
        have hmore := linked_withoutMemos_iff.mp ⟨a, hmem, hhangs⟩
        omega
    | reaction reaction =>
        change reaction ∈ (withoutMemos engine db ids).reactions at hmem
        rw [reactions_withoutMemos] at hmem
        exact hreactions reaction hmem hhangs
    | memoShare share =>
        change share ∈ (withoutMemos engine db ids).memoShares at hmem
        rw [memoShares_withoutMemos] at hmem
        exact hshares share hmem hhangs
    | user | userSetting | userIdentity | memo | inbox | systemSetting | idp => exact hhangs

/-- The relations to parents that stay. -/
theorem commentRelations_withoutMemos {memoID : ℤ} (h : memoID ∉ ids) :
    (withoutMemos engine db ids).commentRelations memoID =
      (db.commentRelations memoID).filter fun r => r.RelatedMemoID ∉ ids := by
  rw [Tables.commentRelations, memoRelations_withoutMemos, Tables.commentRelations,
    List.filter_filter, List.filter_filter]
  refine List.filter_congr fun r _ => ?_
  rw [Bool.eq_iff_iff]
  simp only [Bool.and_eq_true, decide_eq_true_eq]
  constructor
  · rintro ⟨hcomment, -, htarget⟩
    exact ⟨htarget, hcomment⟩
  · rintro ⟨htarget, hcomment⟩
    exact ⟨hcomment, hcomment.1 ▸ h, htarget⟩

theorem memoUID?_isSome_iff {id : ℤ} :
    (db.memoUID? id).isSome ↔ ∃ memo ∈ db.memos, memo.ID = id := by
  rw [Tables.memoUID?, Option.isSome_map, List.find?_isSome]
  simp

/-- A memo has a parent in every row when it has relations to parents and all of them exist. -/
theorem not_topLevel_iff {memo : Memo} :
    ¬ TopLevel db memo ↔ db.commentRelations memo.ID ≠ [] ∧
      ∀ r ∈ db.commentRelations memo.ID, ∃ parent ∈ db.memos, parent.ID = r.RelatedMemoID := by
  rw [TopLevel, Tables.joinMemo]
  cases hrelations : db.commentRelations memo.ID with
  | nil => simp
  | cons r rest =>
      simp only [List.mem_map, not_exists, not_and]
      constructor
      · intro hparents
        refine ⟨List.cons_ne_nil _ _, fun r' hr' => ?_⟩
        rw [← memoUID?_isSome_iff, Option.isSome_iff_ne_none]
        exact hparents _ ⟨r', hr', rfl⟩
      · rintro ⟨-, hparents⟩ row ⟨r', hr', rfl⟩
        exact Option.isSome_iff_ne_none.mp (memoUID?_isSome_iff.mpr (hparents r' hr'))

/-- A comment that stays keeps a parent in every row when one of its parents stays and all that
stay exist. -/
theorem not_topLevel_withoutMemos_iff {child : Memo} (h : child.ID ∉ ids) :
    ¬ TopLevel (withoutMemos engine db ids) child ↔
      (∃ r ∈ db.commentRelations child.ID, r.RelatedMemoID ∉ ids) ∧
        ∀ r ∈ db.commentRelations child.ID, r.RelatedMemoID ∉ ids →
          ∃ parent ∈ db.memos, parent.ID = r.RelatedMemoID := by
  rw [not_topLevel_iff, commentRelations_withoutMemos h]
  have hparent : ∀ id ∉ ids, (∃ parent ∈ (withoutMemos engine db ids).memos, parent.ID = id) ↔
      ∃ parent ∈ db.memos, parent.ID = id := by
    intro id hid
    constructor
    · rintro ⟨parent, hmem, rfl⟩
      exact ⟨parent, (mem_memos_withoutMemos.mp hmem).1, rfl⟩
    · rintro ⟨parent, hmem, rfl⟩
      exact ⟨parent, mem_memos_withoutMemos.mpr ⟨hmem, hid⟩, rfl⟩
  refine and_congr ?_ ?_
  · rw [Ne, List.filter_eq_nil_iff]
    simp
  · simp only [List.mem_filter, decide_eq_true_eq, and_imp]
    refine forall_congr' fun r => forall_congr' fun _ => ?_
    constructor
    · intro hexists hstays
      exact (hparent _ hstays).mp (hexists hstays)
    · intro hexists hstays
      exact (hparent _ hstays).mpr (hexists hstays)

/-- A deletion leaves nothing dangling exactly when the memos it deletes have no reactions, no
shares and a hundred attachments at most, and every deeper comment keeps another parent. -/
theorem delete_memo_iff {svc : MemoService} {name : String} {db db' : Tables} {memo : Memo}
    (hmemo : memo ∈ db.memos) (hname : svc.extractMemoUIDFromName name = .ok memo.UID)
    (h : svc.deleteMemo name db = (.ok (), db')) :
    NothingDangling db db' memo ↔ SafeToDelete db memo := by
  obtain ⟨found, hfound, hextract, ids, hperm, rfl⟩ := deleteMemo_ok h
  have huid : memo.UID = found.UID := Except.ok.inj (hname.symm.trans hextract)
  obtain rfl := db.eq_of_memoUID_eq hmemo hfound huid
  have hcount : ∀ id, ids.count id = (deletedIDs db memo).count id := fun id =>
    hperm.count_eq id
  have hmem : ∀ id, id ∈ ids ↔ id ∈ deletedIDs db memo := fun id => hperm.mem_iff
  constructor
  · rintro ⟨hnoRow, hnoStray⟩
    have hrows : ∀ x ∈ db.memos, x.ID ∈ deletedIDs db memo → _ := fun x hx hid =>
      (noRow_iff ((hmem _).mpr hid)).mp (hnoRow x hx ((deleted_iff hx).mpr ((hmem _).mpr hid)))
    refine ⟨?_, ?_, ?_, ?_⟩
    · intro x hx hid
      rw [← hcount]
      exact (hrows x hx hid).1
    · exact fun x hx hid => (hrows x hx hid).2.1
    · exact fun x hx hid => (hrows x hx hid).2.2
    · intro child hchild hid hbelow
      have hstays : child.ID ∉ ids := fun hdeleted => hid ((hmem _).mp hdeleted)
      have hnot := hnoStray child (mem_memos_withoutMemos.mpr ⟨hchild, hstays⟩) hbelow
      simpa only [hmem] using (not_topLevel_withoutMemos_iff hstays).mp hnot
  · intro hsafe
    refine ⟨?_, ?_⟩
    · intro x hx hgone
      have hid := (deleted_iff hx).mp hgone
      have hid' := (hmem _).mp hid
      refine (noRow_iff hid).mpr ⟨?_, hsafe.reactions x hx hid', hsafe.shares x hx hid'⟩
      rw [hcount]
      exact hsafe.attachments x hx hid'
    · intro child hchild hbelow
      obtain ⟨hmemos, hstays⟩ := mem_memos_withoutMemos.mp hchild
      refine (not_topLevel_withoutMemos_iff hstays).mpr ?_
      simpa only [hmem] using
        hsafe.comments child hmemos (fun hdeleted => hstays ((hmem _).mpr hdeleted)) hbelow

end

/-- A memo with a comment and an attachment. -/
def plainThread : Tables :=
  Tables.ofMemos [{ ID := 1, UID := "m", CreatorID := 1 }, { ID := 2, UID := "c", CreatorID := 1 }]
    [⟨2, 1, .Comment⟩] [{ ID := 1, UID := "a", CreatorID := 1, MemoID := some 1 }] 2

theorem delete_memo_iff_example :
    NothingDangling plainThread (MemoService.plain.deleteMemo "memos/m" plainThread).2
        { ID := 1, UID := "m", CreatorID := 1 } ↔
      SafeToDelete plainThread { ID := 1, UID := "m", CreatorID := 1 } :=
  delete_memo_iff (by decide) rfl (Effect.eq_ok_of_isOk (by decide +kernel))

/-- A memo with a comment, a reply to the comment and a reaction to the comment. -/
def repliedThread : Tables :=
  { Tables.ofMemos [{ ID := 1, UID := "m", CreatorID := 1 }, { ID := 2, UID := "c", CreatorID := 1 },
      { ID := 3, UID := "r", CreatorID := 1 }] [⟨2, 1, .Comment⟩, ⟨3, 2, .Comment⟩] [] 3 with
    reactions := [{ ID := 1, CreatorID := 1, ContentID := "memos/c", ReactionType := "+1" }] }

/-- The deletion of the memo succeeds; the reply is listed as a memo of its own, and the reaction
to the deleted comment is still there. -/
theorem deletion_leaves_dangling :
    (MemoService.plain.deleteMemo "memos/m" repliedThread).1.isOk = true ∧
      ¬ NothingDangling repliedThread (MemoService.plain.deleteMemo "memos/m" repliedThread).2
        { ID := 1, UID := "m", CreatorID := 1 } := by
  refine ⟨by decide +kernel, fun hnone => ?_⟩
  have hbelow : CommentBelow repliedThread { ID := 1, UID := "m", CreatorID := 1 }
      { ID := 3, UID := "r", CreatorID := 1 } :=
    .indirect _ _ (.direct { ID := 2, UID := "c", CreatorID := 1 } (by decide) (by decide))
      (by decide) (by decide)
  exact hnone.noStray { ID := 3, UID := "r", CreatorID := 1 } (by decide +kernel) hbelow
    ⟨⟨{ ID := 3, UID := "r", CreatorID := 1 }, none⟩, by decide +kernel, rfl⟩

end Api
end MemosNote
