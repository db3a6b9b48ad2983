import Mathlib.Data.List.Perm.Subperm
import MemosNote.Api.AttachmentGroups
import MemosNote.Api.TouchedMemo
import MemosNote.Store.MemoStore

/-!
# Setting links again

A request that sets the attachments or the references of a memo, made twice.

Main results:

- Theorem {lit}`sameAttachments_iff`: when one request leaves the attachments of a memo.
- Theorem {lit}`settled_iff`: when every later request does.
- Theorem {lit}`set_links_idempotent_iff`: exactly when a request that has completed can be repeated
  without a change.
-/

namespace MemosNote
namespace Api

open Library Store

/-! ## Times -/

/-- Of rows that are listed latest first, few are later than one of the first. -/
theorem length_lt_of_mem_take {rows later : List Attachment} {n : ℕ} {b : Attachment}
    (hsorted : rows.Pairwise fun a b => b.UpdatedTs ≤ a.UpdatedTs) (hb : b ∈ rows.take n)
    (hlater : ∀ a ∈ later, a ∈ rows ∧ b.UpdatedTs < a.UpdatedTs) (hnodup : later.Nodup) :
    later.length < n := by
  rcases List.append_of_mem hb with ⟨before, after, hsplit⟩
  have hrows : rows = before ++ b :: (after ++ rows.drop n) := by
    rw [← List.cons_append, ← List.append_assoc, ← hsplit, List.take_append_drop]
  have hbefore : later ⊆ before := by
    intro a ha
    rcases hlater a ha with ⟨hmem, htime⟩
    rw [hrows] at hmem hsorted
    rcases List.mem_append.mp hmem with hmem | hmem
    · exact hmem
    · have hle : a.UpdatedTs ≤ b.UpdatedTs := by
        rcases List.mem_cons.mp hmem with rfl | hmem
        · exact le_refl _
        · exact List.rel_of_pairwise_cons (List.pairwise_append.mp hsorted).2.1 hmem
      omega
  have hlength : before.length + 1 ≤ n := by
    have htake := List.length_take_le n rows
    rw [hsplit, List.length_append, List.length_cons] at htake
    omega
  have hle := (List.subperm_of_subset hnodup hbefore).length_le
  omega

/-- Later rows come first, and of one time those that are not in a list. -/
def OthersFirst (list : List Attachment) (a b : Attachment) : Prop :=
  b.UpdatedTs < a.UpdatedTs ∨ b.UpdatedTs = a.UpdatedTs ∧ (a ∉ list ∨ b ∈ list)

instance (list : List Attachment) (a b : Attachment) : Decidable (OthersFirst list a b) :=
  inferInstanceAs (Decidable (_ ∨ _))

/-- The rows that are not in a list may come before all of the same time that are. -/
theorem exists_othersFirst (rows list : List Attachment) :
    ∃ order : AttachmentOrder, (order.sort rows).Pairwise (OthersFirst list) := by
  have htotal : Std.Total (OthersFirst list) := by
    refine ⟨fun a b => ?_⟩
    rcases Int.lt_trichotomy a.UpdatedTs b.UpdatedTs with hlt | heq | hlt
    · exact .inr (.inl hlt)
    · by_cases ha : a ∈ list
      · exact .inr (.inr ⟨heq, .inr ha⟩)
      · exact .inl (.inr ⟨heq.symm, .inl ha⟩)
    · exact .inl (.inl hlt)
  have htrans : IsTrans Attachment (OthersFirst list) := by
    refine ⟨fun a b c hab hbc => ?_⟩
    rcases hab with hab | ⟨hab, hout⟩ <;> rcases hbc with hbc | ⟨hbc, hout'⟩
    · exact .inl (hbc.trans hab)
    · exact .inl (hbc ▸ hab)
    · exact .inl (hab ▸ hbc)
    · refine .inr ⟨hbc.trans hab, ?_⟩
      rcases hout with hout | hin
      · exact .inl hout
      · exact .inr (hout'.resolve_left (not_not.mpr hin))
  have hpairwise := List.pairwise_insertionSort (OthersFirst list) rows
  have htimes : (rows.insertionSort (OthersFirst list)).Pairwise
      fun a b => b.UpdatedTs ≤ a.UpdatedTs := by
    refine hpairwise.imp fun hab => ?_
    rcases hab with hlt | hle
    · exact le_of_lt hlt
    · exact le_of_eq hle.1
  refine ⟨orderOfList _ htimes, ?_⟩
  have hsort : (orderOfList _ htimes).sort rows = rows.insertionSort (OthersFirst list) :=
    if_pos (List.perm_insertionSort _ rows).symm
  rw [hsort]
  exact hpairwise

/-- In every order of the database the first rows are in a list exactly when so many of the list
are later than any other row. -/
theorem take_sort_subset_iff {rows list : List Attachment} (hrows : rows.Nodup)
    (hnodup : list.Nodup) (hlist : list ⊆ rows) {n : ℕ} :
    (∀ order : AttachmentOrder, ∀ a ∈ (order.sort rows).take n, a ∈ list) ↔
      ∀ b ∈ rows, b ∉ list → n ≤ (list.filter fun a => b.UpdatedTs < a.UpdatedTs).length := by
  constructor
  · intro h b hb hnot
    rcases exists_othersFirst rows list with ⟨order, hpairwise⟩
    -- The rows before the first that is not in the list are in it, and later than that row.
    have hsorted : b ∈ order.sort rows := (order.perm rows).mem_iff.mpr hb
    cases hfirst : (order.sort rows).find? fun a => a ∉ list with
    | none =>
        rw [List.find?_eq_none] at hfirst
        exact absurd (decide_eq_true hnot) (hfirst b hsorted)
    | some c =>
        rcases List.find?_eq_some_iff_append.mp hfirst with ⟨hc, before, after, hsplit, hbefore⟩
        have hc : c ∉ list := of_decide_eq_true hc
        have hin : ∀ a ∈ before, a ∈ list := fun a ha => by simpa using hbefore a ha
        rw [hsplit] at hpairwise hsorted
        rcases List.pairwise_append.mp hpairwise with ⟨-, hfrom, hacross⟩
        have hle : b.UpdatedTs ≤ c.UpdatedTs := by
          rcases List.mem_append.mp hsorted with hmem | hmem
          · exact absurd (hin b hmem) hnot
          · rcases List.mem_cons.mp hmem with rfl | hmem
            · exact le_refl _
            · rcases List.rel_of_pairwise_cons hfrom hmem with hlt | heq
              · exact le_of_lt hlt
              · exact le_of_eq heq.1
        have hlater : before ⊆ list.filter fun a => b.UpdatedTs < a.UpdatedTs := by
          intro a ha
          refine List.mem_filter.mpr ⟨hin a ha, decide_eq_true ?_⟩
          rcases hacross a ha c List.mem_cons_self with hlt | ⟨-, hout⟩
          · omega
          · exact absurd (hin a ha) (hout.resolve_right hc)
        have hdistinct : (before ++ c :: after).Nodup :=
          hsplit ▸ (order.perm rows).nodup_iff.mpr hrows
        have hlength :=
          (List.subperm_of_subset (List.nodup_append.mp hdistinct).1 hlater).length_le
        by_contra hfew
        refine hc (h order c ?_)
        rw [hsplit, List.take_append]
        refine List.mem_append_right _ ?_
        rw [List.take_cons (by omega)]
        exact List.mem_cons_self
  · intro h order b hb
    by_contra hnot
    have hmany := h b ((order.perm rows).mem_iff.mp (List.mem_of_mem_take hb)) hnot
    have hfew := length_lt_of_mem_take (order.sorted rows) hb (fun a ha => by
      rcases List.mem_filter.mp ha with ⟨ha, hlater⟩
      exact ⟨(order.perm rows).mem_iff.mpr (hlist ha), of_decide_eq_true hlater⟩)
      (hnodup.filter fun a => b.UpdatedTs < a.UpdatedTs)
    omega
/-! ## The rows after attachments are set -/

/-- A row after the attachments with the given identifiers, in the order of the request, are linked
to a memo, each at the time of its place from the end. -/
def linkRow (time : ℕ → ℤ) (memoID : ℤ) (ids : List ℤ) (a : Attachment) : Attachment :=
  if a.ID ∈ ids then
    { a with MemoID := some memoID, UpdatedTs := time (ids.reverse.idxOf a.ID) }
  else a

section

variable {time : ℕ → ℤ} {memoID : ℤ} {ids : List ℤ} {a : Attachment}

@[simp]
theorem linkRow_ID : (linkRow time memoID ids a).ID = a.ID := by
  rw [linkRow]
  split <;> rfl

@[simp]
theorem linkRow_UID : (linkRow time memoID ids a).UID = a.UID := by
  rw [linkRow]
  split <;> rfl

@[simp]
theorem linkRow_CreatorID : (linkRow time memoID ids a).CreatorID = a.CreatorID := by
  rw [linkRow]
  split <;> rfl

@[simp]
theorem linkRow_motionGroup : motionGroup (linkRow time memoID ids a) = motionGroup a := by
  rw [linkRow]
  split <;> rfl

/-- A linked row belongs to the memo. -/
theorem linkRow_of_mem (h : a.ID ∈ ids) : linkRow time memoID ids a =
    { a with MemoID := some memoID, UpdatedTs := time (ids.reverse.idxOf a.ID) } :=
  if_pos h

/-- Any other row stays as it is. -/
theorem linkRow_of_not_mem (h : a.ID ∉ ids) : linkRow time memoID ids a = a :=
  if_neg h

/-- Which rows belong to the memo after the links. -/
theorem linkRow_linked : (linkRow time memoID ids a).MemoID = some memoID ↔
    a.ID ∈ ids ∨ a.MemoID = some memoID := by
  by_cases h : a.ID ∈ ids
  · simp [linkRow_of_mem h, h]
  · simp [linkRow_of_not_mem h, h]

end

/-- The times of the rows of a request, from its end. -/
theorem updatedTs_linkRow {time : ℕ → ℤ} {memoID : ℤ} {list : List Attachment}
    (hnodup : (list.map Attachment.ID).Nodup) {i : ℕ} (hi : i < list.reverse.length) :
    (linkRow time memoID (list.map Attachment.ID) list.reverse[i]).UpdatedTs = time i := by
  have hmem : list.reverse[i].ID ∈ list.map Attachment.ID :=
    List.mem_map_of_mem (List.mem_reverse.mp (List.getElem_mem hi))
  have hindex : (list.map Attachment.ID).reverse.idxOf list.reverse[i].ID = i := by
    rw [← List.map_reverse]
    have hnodup' : (list.reverse.map Attachment.ID).Nodup := by
      rw [List.map_reverse]
      exact List.nodup_reverse.mpr hnodup
    have hget := hnodup'.idxOf_getElem i (by rw [List.length_map]; exact hi)
    rw [List.getElem_map] at hget
    exact hget
  rw [linkRow_of_mem hmem, hindex]

namespace MemoService

variable {svc : MemoService} {memoID : ℤ} {db : Tables}

/-- The rows after attachments are linked, with the times from a number on. -/
theorem attachments_linkAttachments_zipIdx {time : ℕ → ℤ} {list : List Attachment} {k : ℕ}
    (hnodup : (list.map Attachment.ID).Nodup) :
    (db.linkAttachments time memoID (list.zipIdx k)).attachments = db.attachments.map fun a =>
      if a.ID ∈ list.map Attachment.ID then
        { a with
          MemoID := some memoID
          UpdatedTs := time (k + (list.map Attachment.ID).idxOf a.ID) }
      else a := by
  induction list generalizing db k with
  | nil => simp [Tables.linkAttachments]
  | cons first list ih =>
      rw [List.map_cons, List.nodup_cons] at hnodup
      have hstep : db.linkAttachments time memoID ((first :: list).zipIdx k) =
          (db.updateAttachment {
            ID := first.ID
            MemoID := some memoID
            UpdatedTs := some (time k) }).linkAttachments time memoID (list.zipIdx (k + 1)) := rfl
      rw [hstep, ih hnodup.2, Tables.updateAttachment, List.map_map]
      apply List.map_congr_left
      intro a _
      rw [Function.comp_apply, UpdateAttachment.onRow, List.map_cons]
      by_cases hfirst : a.ID = first.ID
      · have hnew : a.ID ∉ list.map Attachment.ID := hfirst ▸ hnodup.1
        have hassign : ({ ID := first.ID, UpdatedTs := some (time k), MemoID := some memoID } :
            UpdateAttachment).assign a = { a with MemoID := some memoID, UpdatedTs := time k } := rfl
        have hindex : (first.ID :: list.map Attachment.ID).idxOf a.ID = 0 := by
          rw [hfirst, List.idxOf_cons_self]
        have hmem : a.ID ∈ first.ID :: list.map Attachment.ID := hfirst ▸ List.mem_cons_self
        rw [if_pos hfirst, hassign, hindex, if_pos hmem, Nat.add_zero]
        exact if_neg hnew
      · rw [if_neg hfirst]
        by_cases hmem : a.ID ∈ list.map Attachment.ID
        · rw [if_pos hmem, if_pos (List.mem_cons_of_mem _ hmem),
            List.idxOf_cons_ne _ (Ne.symm hfirst)]
          congr 2
          omega
        · rw [if_neg hmem, if_neg (by simpa [hfirst] using hmem)]

/-- The rows after the attachments of a memo are set. -/
theorem attachments_withAttachments {normalized : List Attachment}
    (hnodup : (normalized.map Attachment.ID).Nodup) :
    (svc.withAttachments memoID db normalized).attachments =
      (db.attachments.filter fun a =>
        a.ID ∉ (svc.removedAttachments memoID db normalized).map Attachment.ID).map
          (linkRow svc.linkTime memoID (normalized.map Attachment.ID)) := by
  have hreverse : (normalized.reverse.map Attachment.ID).Nodup := by
    rw [List.map_reverse]
    exact List.nodup_reverse.mpr hnodup
  rw [withAttachments, attachments_linkAttachments_zipIdx hreverse, Tables.filterAttachments]
  apply List.map_congr_left
  intro a _
  simp only [linkRow, List.map_reverse, List.mem_reverse, Nat.zero_add]

/-! ## What one request leaves -/

/-- The attachments of a memo. -/
def attachmentsOf (memoID : ℤ) (db : Tables) : List Attachment :=
  db.attachments.filter fun a => a.MemoID = some memoID

/-- The attachments of a memo. -/
theorem mem_attachmentsOf {a : Attachment} :
    a ∈ attachmentsOf memoID db ↔ a ∈ db.attachments ∧ a.MemoID = some memoID := by
  simp [attachmentsOf]

/-- A memo has the same attachments, in the same order of their times. -/
structure SameAttachments (memoID : ℤ) (db db' : Tables) : Prop where
  ids : ∀ id, id ∈ (attachmentsOf memoID db).map Attachment.ID ↔
    id ∈ (attachmentsOf memoID db').map Attachment.ID
  order : ∀ a ∈ attachmentsOf memoID db, ∀ b ∈ attachmentsOf memoID db,
    ∀ a' ∈ attachmentsOf memoID db', ∀ b' ∈ attachmentsOf memoID db',
      a'.ID = a.ID → b'.ID = b.ID → (a.UpdatedTs < b.UpdatedTs ↔ a'.UpdatedTs < b'.UpdatedTs)

/-- An update of the memo leaves its attachments. -/
theorem sameAttachments_updateMemo {db' : Tables} {update : UpdateMemo} :
    SameAttachments memoID db (db'.updateMemo update) ↔ SameAttachments memoID db db' :=
  ⟨fun h => ⟨h.ids, h.order⟩, fun h => ⟨h.ids, h.order⟩⟩

section

variable {normalized : List Attachment}

/-- Among rows of one table the identifiers tell. -/
theorem mem_of_mem_ids (hmem : ∀ a ∈ normalized, a ∈ db.attachments) {a : Attachment}
    (ha : a ∈ db.attachments) : a.ID ∈ normalized.map Attachment.ID ↔ a ∈ normalized := by
  constructor
  · intro hid
    rcases List.mem_map.mp hid with ⟨b, hb, hsame⟩
    rw [← db.eq_of_attachmentID_eq (hmem b hb) ha hsame]
    exact hb
  · exact List.mem_map_of_mem

/-- The rows after attachments are set: listed ones that are not among them are gone. -/
theorem mem_withAttachments (hmem : ∀ a ∈ normalized, a ∈ db.attachments)
    (hnodup : (normalized.map Attachment.ID).Nodup) {c : Attachment} :
    c ∈ (svc.withAttachments memoID db normalized).attachments ↔
      ∃ a ∈ db.attachments, (a ∈ svc.engine.listedAttachments db memoID → a ∈ normalized) ∧
        linkRow svc.linkTime memoID (normalized.map Attachment.ID) a = c := by
  have hremoved : ∀ a ∈ db.attachments,
      (a.ID ∉ (svc.removedAttachments memoID db normalized).map Attachment.ID ↔
        (a ∈ svc.engine.listedAttachments db memoID → a ∈ normalized)) := by
    intro a ha
    have hsub : ∀ b ∈ svc.removedAttachments memoID db normalized, b ∈ db.attachments :=
      fun b hb => (StoreEngine.mem_of_mem_listedAttachments (List.mem_filter.mp hb).1).1
    rw [mem_of_mem_ids hsub ha, removedAttachments, List.mem_filter, decide_eq_true_eq,
      mem_of_mem_ids hmem ha, not_and, not_not]
  rw [attachments_withAttachments hnodup]
  constructor
  · intro hc
    rcases List.mem_map.mp hc with ⟨a, ha, rfl⟩
    rcases List.mem_filter.mp ha with ⟨ha, hkept⟩
    exact ⟨a, ha, (hremoved a ha).mp (by simpa using hkept), rfl⟩
  · intro hc
    rcases hc with ⟨a, ha, hkept, rfl⟩
    refine List.mem_map_of_mem (List.mem_filter.mpr ⟨ha, ?_⟩)
    exact decide_eq_true ((hremoved a ha).mpr hkept)

/-- The attachments of a memo after they are set. -/
theorem mem_attachmentsOf_withAttachments (hmem : ∀ a ∈ normalized, a ∈ db.attachments)
    (hnodup : (normalized.map Attachment.ID).Nodup) {c : Attachment} :
    c ∈ attachmentsOf memoID (svc.withAttachments memoID db normalized) ↔
      ∃ a ∈ db.attachments, (a ∈ svc.engine.listedAttachments db memoID → a ∈ normalized) ∧
        (a ∈ normalized ∨ a.MemoID = some memoID) ∧
        linkRow svc.linkTime memoID (normalized.map Attachment.ID) a = c := by
  rw [mem_attachmentsOf, mem_withAttachments hmem hnodup]
  constructor
  · intro h
    rcases h with ⟨⟨a, ha, hkept, rfl⟩, hlinked⟩
    rw [linkRow_linked, mem_of_mem_ids hmem ha] at hlinked
    exact ⟨a, ha, hkept, hlinked, rfl⟩
  · intro h
    rcases h with ⟨a, ha, hkept, hlinked, rfl⟩
    rw [linkRow_linked, mem_of_mem_ids hmem ha]
    exact ⟨⟨a, ha, hkept, rfl⟩, hlinked⟩

/-- Setting attachments leaves them when none is removed, none is new, and the times stay in
order. -/
theorem sameAttachments_iff (hmem : ∀ a ∈ normalized, a ∈ db.attachments)
    (hnodup : (normalized.map Attachment.ID).Nodup) :
    SameAttachments memoID db (svc.withAttachments memoID db normalized) ↔
      (∀ a ∈ svc.engine.listedAttachments db memoID, a ∈ normalized) ∧
        (∀ a ∈ normalized, a.MemoID = some memoID) ∧
        ∀ a ∈ attachmentsOf memoID db, ∀ b ∈ attachmentsOf memoID db,
          (a.UpdatedTs < b.UpdatedTs ↔
            (linkRow svc.linkTime memoID (normalized.map Attachment.ID) a).UpdatedTs <
              (linkRow svc.linkTime memoID (normalized.map Attachment.ID) b).UpdatedTs) := by
  have hafter := @mem_attachmentsOf_withAttachments svc memoID db normalized hmem hnodup
  constructor
  · intro h
    have hkept : ∀ a ∈ svc.engine.listedAttachments db memoID, a ∈ normalized := by
      intro a hlisted
      have ha := StoreEngine.mem_of_mem_listedAttachments hlisted
      have hid := (h.ids a.ID).mp (List.mem_map_of_mem (mem_attachmentsOf.mpr ha))
      rcases List.mem_map.mp hid with ⟨c, hc, hsame⟩
      rcases hafter.mp hc with ⟨b, hb, hlater, -, rfl⟩
      rw [linkRow_ID] at hsame
      rw [db.eq_of_attachmentID_eq hb ha.1 hsame] at hlater
      exact hlater hlisted
    refine ⟨hkept, ?_, ?_⟩
    · intro a ha
      have hid := (h.ids a.ID).mpr (List.mem_map.mpr ⟨_,
        hafter.mpr ⟨a, hmem a ha, fun _ => ha, .inl ha, rfl⟩, linkRow_ID⟩)
      rcases List.mem_map.mp hid with ⟨b, hb, hsame⟩
      rcases mem_attachmentsOf.mp hb with ⟨hb, hlinked⟩
      rw [← db.eq_of_attachmentID_eq hb (hmem a ha) hsame]
      exact hlinked
    · intro a ha b hb
      have hstays : ∀ a ∈ attachmentsOf memoID db,
          linkRow svc.linkTime memoID (normalized.map Attachment.ID) a ∈
            attachmentsOf memoID (svc.withAttachments memoID db normalized) := by
        intro a ha
        rcases mem_attachmentsOf.mp ha with ⟨hrow, hlinked⟩
        exact hafter.mpr ⟨a, hrow, hkept a, .inr hlinked, rfl⟩
      exact h.order a ha b hb _ (hstays a ha) _ (hstays b hb) linkRow_ID linkRow_ID
  · intro h
    rcases h with ⟨hkept, hlinked, horder⟩
    -- The attachments are those of before, linked again.
    have hrows : ∀ c, c ∈ attachmentsOf memoID (svc.withAttachments memoID db normalized) ↔
        ∃ a ∈ attachmentsOf memoID db,
          linkRow svc.linkTime memoID (normalized.map Attachment.ID) a = c := by
      intro c
      rw [hafter]
      constructor
      · intro hc
        rcases hc with ⟨a, ha, -, hmemo, hrow⟩
        exact ⟨a, mem_attachmentsOf.mpr ⟨ha, hmemo.elim (hlinked a) id⟩, hrow⟩
      · intro hc
        rcases hc with ⟨a, ha, hrow⟩
        rcases mem_attachmentsOf.mp ha with ⟨ha, hmemo⟩
        exact ⟨a, ha, hkept a, .inr hmemo, hrow⟩
    constructor
    · intro id
      rw [List.mem_map, List.mem_map]
      constructor
      · intro hid
        rcases hid with ⟨a, ha, rfl⟩
        exact ⟨_, (hrows _).mpr ⟨a, ha, rfl⟩, linkRow_ID⟩
      · intro hid
        rcases hid with ⟨c, hc, rfl⟩
        rcases (hrows c).mp hc with ⟨a, ha, rfl⟩
        exact ⟨a, ha, linkRow_ID.symm⟩
    · intro a ha b hb a' ha' b' hb' hsame hsame'
      rcases (hrows a').mp ha' with ⟨c, hc, rfl⟩
      rcases (hrows b').mp hb' with ⟨d, hd, rfl⟩
      rw [linkRow_ID] at hsame hsame'
      rcases db.eq_of_attachmentID_eq (mem_attachmentsOf.mp hc).1 (mem_attachmentsOf.mp ha).1 hsame
      rcases db.eq_of_attachmentID_eq (mem_attachmentsOf.mp hd).1 (mem_attachmentsOf.mp hb).1 hsame'
      exact horder _ hc _ hd

end

/-! ## What every later request leaves -/

/-- The identifiers of a request, in its order. -/
def requestOrder (requested : List Attachment) : List ℤ :=
  (normalizeAttachments [] requested).map Attachment.ID

/-- The requested attachments are of the memo, the times that they have are in the order of those
that they get, and any other attachment has a hundred of them before it. -/
structure Settled (time : ℕ → ℤ) (memoID : ℤ) (db : Tables) (requested : List Attachment) :
    Prop where
  linked : ∀ a ∈ requested, a.MemoID = some memoID
  ordered : ∀ a ∈ attachmentsOf memoID db, ∀ b ∈ attachmentsOf memoID db,
    (a.UpdatedTs < b.UpdatedTs ↔
      (linkRow time memoID (requestOrder requested) a).UpdatedTs <
        (linkRow time memoID (requestOrder requested) b).UpdatedTs)
  others : ∀ b ∈ attachmentsOf memoID db, b ∉ requested →
    100 ≤ ((normalizeAttachments [] requested).filter fun a =>
      b.UpdatedTs < a.UpdatedTs).length

section

variable {requested : List Attachment}

private theorem unique_of_rows (hrows : ∀ a ∈ requested, a ∈ db.attachments) :
    ∀ a ∈ requested, ∀ b ∈ requested, a.UID = b.UID → a = b :=
  fun a ha b hb huid => db.eq_of_attachmentUID_eq (hrows a ha) (hrows b hb) huid

/-- What the normalized list holds. -/
theorem mem_normalizeAttachments_of_rows (hrows : ∀ a ∈ requested, a ∈ db.attachments)
    {current : List Attachment} {a : Attachment} :
    a ∈ normalizeAttachments current requested ↔
      a ∈ requested ∧ leftOut current requested a = false :=
  mem_normalizeAttachments (unique_of_rows hrows)

/-- Without current attachments nothing is left out. -/
theorem mem_normalizeAttachments_nil (hrows : ∀ a ∈ requested, a ∈ db.attachments)
    {a : Attachment} : a ∈ normalizeAttachments [] requested ↔ a ∈ requested := by
  rw [mem_normalizeAttachments_of_rows hrows, leftOut_of_subset (by simp)]
  simp

/-- Normalized attachments have different identifiers. -/
theorem nodup_ids_of_rows (hrows : ∀ a ∈ requested, a ∈ db.attachments)
    (current : List Attachment) :
    ((normalizeAttachments current requested).map Attachment.ID).Nodup := by
  have hnodup := nodup_normalizeAttachments current requested
  rw [List.Nodup, List.pairwise_map] at hnodup ⊢
  refine hnodup.imp_of_mem ?_
  intro a b ha hb huid hid
  apply huid
  rw [db.eq_of_attachmentID_eq (hrows a ((mem_normalizeAttachments_of_rows hrows).mp ha).1)
    (hrows b ((mem_normalizeAttachments_of_rows hrows).mp hb).1) hid]

/-- A request that names all that is listed is normalized as if the memo had none. -/
theorem normalizeAttachments_of_listed
    (h : ∀ a ∈ svc.engine.listedAttachments db memoID, a ∈ requested) :
    normalizeAttachments (svc.engine.listedAttachments db memoID) requested =
      normalizeAttachments [] requested :=
  normalizeAttachments_congr fun a _ => by
    rw [leftOut_of_subset h, leftOut_of_subset (by simp)]

/-- A request leaves the attachments when it names all that is listed and nothing else, and its
order is that of the times. -/
theorem sameAttachments_request_iff (hrows : ∀ a ∈ requested, a ∈ db.attachments) :
    SameAttachments memoID db (svc.withAttachments memoID db
        (normalizeAttachments (svc.engine.listedAttachments db memoID) requested)) ↔
      (∀ a ∈ svc.engine.listedAttachments db memoID, a ∈ requested) ∧
        (∀ a ∈ requested, a.MemoID = some memoID) ∧
        ∀ a ∈ attachmentsOf memoID db, ∀ b ∈ attachmentsOf memoID db,
          (a.UpdatedTs < b.UpdatedTs ↔
            (linkRow svc.linkTime memoID (requestOrder requested) a).UpdatedTs <
              (linkRow svc.linkTime memoID (requestOrder requested) b).UpdatedTs) := by
  have hmem : ∀ current, ∀ a ∈ normalizeAttachments current requested, a ∈ db.attachments :=
    fun current a ha => hrows a ((mem_normalizeAttachments_of_rows hrows).mp ha).1
  constructor
  · intro h
    have hkept := ((sameAttachments_iff (hmem _) (nodup_ids_of_rows hrows _)).mp h).1
    have hlisted : ∀ a ∈ svc.engine.listedAttachments db memoID, a ∈ requested :=
      fun a ha => ((mem_normalizeAttachments_of_rows hrows).mp (hkept a ha)).1
    rw [normalizeAttachments_of_listed hlisted,
      sameAttachments_iff (hmem _) (nodup_ids_of_rows hrows _)] at h
    exact ⟨hlisted, fun a ha => h.2.1 a ((mem_normalizeAttachments_nil hrows).mpr ha), h.2.2⟩
  · intro h
    rcases h with ⟨hlisted, hlinked, horder⟩
    rw [normalizeAttachments_of_listed hlisted,
      sameAttachments_iff (hmem _) (nodup_ids_of_rows hrows _)]
    exact ⟨fun a ha => (mem_normalizeAttachments_nil hrows).mpr (hlisted a ha),
      fun a ha => hlinked a ((mem_normalizeAttachments_nil hrows).mp ha), horder⟩

/-- In every order of the database only requested attachments are listed exactly when any other has
a hundred of them before it. -/
theorem listed_requested_iff (hrows : ∀ a ∈ requested, a ∈ db.attachments)
    (hlinked : ∀ a ∈ requested, a.MemoID = some memoID) :
    (∀ order : AttachmentOrder, ∀ a ∈ (order.sort (attachmentsOf memoID db)).take 100,
      a ∈ requested) ↔
      ∀ b ∈ attachmentsOf memoID db, b ∉ requested →
        100 ≤ ((normalizeAttachments [] requested).filter fun a =>
          b.UpdatedTs < a.UpdatedTs).length := by
  have hattached : (attachmentsOf memoID db).Nodup :=
    (List.Nodup.of_map Attachment.ID db.attachmentIDs_nodup).filter _
  have hsub : normalizeAttachments [] requested ⊆ attachmentsOf memoID db := by
    intro a ha
    have ha := (mem_normalizeAttachments_nil hrows).mp ha
    exact mem_attachmentsOf.mpr ⟨hrows a ha, hlinked a ha⟩
  have htake := @take_sort_subset_iff _ _ hattached (nodup_ids_of_rows hrows []).of_map hsub 100
  simp only [mem_normalizeAttachments_nil hrows] at htake
  exact htake

/-- A later request leaves the attachments of a memo, in whichever order the database returns them,
exactly when they are settled. -/
theorem settled_iff (hrows : ∀ a ∈ requested, a ∈ db.attachments) :
    (∀ now order, SameAttachments memoID db ((svc.later now order).withAttachments memoID db
      (normalizeAttachments ((svc.later now order).engine.listedAttachments db memoID)
        requested))) ↔
      Settled svc.linkTime memoID db requested := by
  constructor
  · intro h
    have hsame := fun now order => (sameAttachments_request_iff hrows).mp (h now order)
    rcases hsame svc.engine.now svc.engine.attachmentOrder with ⟨-, hlinked, hordered⟩
    exact ⟨hlinked, hordered,
      (listed_requested_iff hrows hlinked).mp fun order => (hsame svc.engine.now order).1⟩
  · intro h now order
    exact (sameAttachments_request_iff hrows).mpr
      ⟨(listed_requested_iff hrows h.linked).mpr h.others order, h.linked, h.ordered⟩

end

/-! ## The rows of a request -/

/-- The rows that the names of a request refer to. -/
def requestedRows (svc : MemoService) (db : Tables) (requests : List AttachmentMessage) :
    List Attachment :=
  requests.filterMap fun request =>
    (svc.extractAttachmentUIDFromName request.Name).toOption.bind fun uid =>
      db.attachments.find? fun a => a.UID = uid

/-- A name of a request and the row it refers to, which the user may use. -/
def Names (svc : MemoService) (user : User) (db : Tables) (request : AttachmentMessage)
    (a : Attachment) : Prop :=
  a ∈ db.attachments ∧ svc.extractAttachmentUIDFromName request.Name = .ok a.UID ∧
    mayUse user a = true

private theorem find_uid {a : Attachment} (ha : a ∈ db.attachments) :
    db.attachments.find? (fun b => b.UID = a.UID) = some a := by
  cases hfound : db.attachments.find? (fun b => b.UID = a.UID) with
  | none =>
      rw [List.find?_eq_none] at hfound
      have hself := hfound a ha
      simp at hself
  | some b =>
      have huid : b.UID = a.UID := by simpa using List.find?_some hfound
      rw [db.eq_of_attachmentUID_eq (List.mem_of_find?_eq_some hfound) ha huid]

/-- The rows that a request names. -/
theorem requestedRows_eq {user : User} {requests : List AttachmentMessage}
    {list : List Attachment} (h : List.Forall₂ (svc.Names user db) requests list) :
    svc.requestedRows db requests = list := by
  induction h with
  | nil => rfl
  | cons hfirst _ ih =>
      rw [requestedRows, List.filterMap_cons, hfirst.2.1, ← requestedRows, ih]
      simp only [Except.toOption, Option.bind_some, find_uid hfirst.1]

/-- A requested row is in the table. -/
theorem mem_of_mem_requestedRows {requests : List AttachmentMessage} {a : Attachment}
    (h : a ∈ svc.requestedRows db requests) : a ∈ db.attachments := by
  rcases List.mem_filterMap.mp h with ⟨request, -, hfound⟩
  rcases Option.bind_eq_some_iff.mp hfound with ⟨uid, -, hfind⟩
  exact List.mem_of_find?_eq_some hfind

/-- An attachment is found by its UID. -/
theorem getAttachment_of_mem {engine : StoreEngine} {a : Attachment} (ha : a ∈ db.attachments) :
    engine.getAttachment { UID := some a.UID } db = (.ok (some a), db) := by
  rcases @StoreEngine.getAttachment_uid engine db a.UID with ⟨found, hget, hfound⟩
  cases found with
  | some b =>
      rcases hfound b rfl with ⟨hb, huid⟩
      rw [hget, db.eq_of_attachmentUID_eq hb ha huid]
  | none =>
      -- The row itself would be found.
      rw [StoreEngine.getAttachment, Effect.bind_of_ok (StoreEngine.listAttachments_eq rfl)] at hget
      have hnone := Except.ok.inj (Prod.mk.inj hget).1
      have hmem : a ∈ engine.attachmentOrder.sort (db.attachments.filter fun b =>
          ({ UID := some a.UID } : FindAttachment).withDefaultLimit.matchesAttachment
            engine.like b) := by
        refine (engine.attachmentOrder.perm _).mem_iff.mpr (List.mem_filter.mpr ⟨ha, ?_⟩)
        simp [FindAttachment.withDefaultLimit, FindAttachment.matchesAttachment]
      have hempty : (engine.attachmentOrder.sort (db.attachments.filter fun b =>
          ({ UID := some a.UID } : FindAttachment).withDefaultLimit.matchesAttachment
            engine.like b)).take 100 = [] := List.head?_eq_none_iff.mp hnone
      rcases List.take_eq_nil_iff.mp hempty with hzero | hnil
      · cases hzero
      · rw [hnil] at hmem
        cases hmem

/-- Names that refer to rows that the user may use are accepted. -/
theorem requestedAttachments_of_names {user : User} {requests : List AttachmentMessage}
    {list : List Attachment} (h : List.Forall₂ (svc.Names user db) requests list) :
    svc.requestedAttachments user requests db = (.ok list, db) := by
  have hone : ∀ {request : AttachmentMessage} {a : Attachment}, svc.Names user db request a →
      svc.requestedAttachment user request.Name db = (.ok a, db) := by
    intro request a hnames
    rcases hnames with ⟨ha, hextract, hmay⟩
    have hget : withStatus .Internal (fun err => "failed to get attachment: " ++ err)
        (svc.engine.getAttachment { UID := some a.UID }) db = (.ok (some a), db) := by
      rw [withStatus, Effect.mapError, getAttachment_of_mem ha]
      rfl
    rw [requestedAttachment, hextract, Except.mapError, Effect.ofExcept, Effect.pure_bind,
      Effect.bind_of_ok hget]
    dsimp only
    rw [not_mayUse_iff, hmay]
    rfl
  induction h with
  | nil => rfl
  | cons hfirst _ ih =>
      rw [requestedAttachments, Effect.bind_of_ok (hone hfirst), Effect.bind_of_ok ih]
      rfl

/-- Names still refer to rows that are still there after a change of rows. -/
theorem names_of_map {user : User} {db' : Tables} {f : Attachment → Attachment}
    {requests : List AttachmentMessage} {list : List Attachment}
    (huid : ∀ a, (f a).UID = a.UID) (hcreator : ∀ a, (f a).CreatorID = a.CreatorID)
    (h : List.Forall₂ (svc.Names user db) requests list)
    (hthere : ∀ a ∈ list, f a ∈ db'.attachments) :
    List.Forall₂ (svc.Names user db') requests (list.map f) := by
  induction h with
  | nil => exact .nil
  | @cons request a _ _ hfirst _ ih =>
      refine .cons ⟨hthere a List.mem_cons_self, ?_, ?_⟩
        (ih fun b hb => hthere b (List.mem_cons_of_mem a hb))
      · rw [huid]
        exact hfirst.2.1
      · rw [mayUse, hcreator]
        exact hfirst.2.2

/-- The rows that the same names refer to after a change of rows. -/
theorem names_map {user user' : User} {db' : Tables} {f : Attachment → Attachment}
    {requests : List AttachmentMessage} {list list' : List Attachment}
    (hrows : ∀ b ∈ db'.attachments, ∃ a ∈ db.attachments, f a = b) (huid : ∀ a, (f a).UID = a.UID)
    (h : List.Forall₂ (svc.Names user db) requests list)
    (h' : List.Forall₂ (svc.Names user' db') requests list') : list' = list.map f := by
  induction h generalizing list' with
  | nil =>
      cases h'
      rfl
  | cons hfirst _ ih =>
      cases h' with
      | cons hfirst' hrest' =>
          rcases hrows _ hfirst'.1 with ⟨a, ha, rfl⟩
          have hsame := hfirst.2.1.symm.trans hfirst'.2.1
          rw [huid] at hsame
          rw [List.map_cons, ih hrest',
            db.eq_of_attachmentUID_eq hfirst.1 ha (Except.ok.inj hsame)]

/-! ## Requests that can be repeated -/

/-- A row after a request; only what is requested and not left out is linked anew. -/
def rowAfter (svc : MemoService) (memoID : ℤ) (db : Tables) (requested : List Attachment) :
    Attachment → Attachment :=
  linkRow svc.linkTime memoID ((normalizeAttachments (svc.engine.listedAttachments db memoID)
    requested).map Attachment.ID)

/-- A row after a request has been made again, with readings of the clock of its own. -/
def rowAgain (svc : MemoService) (clock : ℕ → ℤ) (memoID : ℤ) (db : Tables)
    (requested : List Attachment) (a : Attachment) : Attachment :=
  linkRow (fun i => clock i + i) memoID (requestOrder requested)
    (svc.rowAfter memoID db requested a)

/-- The tables after the attachments of a request are set. -/
def tablesAfter (svc : MemoService) (memoID : ℤ) (db : Tables) (requested : List Attachment) :
    Tables :=
  svc.withAttachments memoID db
    (normalizeAttachments (svc.engine.listedAttachments db memoID) requested)

/-- What is requested, and the attachments of the memo that are not listed. -/
def remaining (svc : MemoService) (memoID : ℤ) (db : Tables) (requested : List Attachment) :
    List Attachment :=
  db.attachments.filter fun a =>
    a ∈ requested ∨ a.MemoID = some memoID ∧ a ∉ svc.engine.listedAttachments db memoID

/-- Every requested attachment is kept, or is of the memo but was not listed; the two requests give
times in the same order; and any other attachment of the memo has a hundred of the requested ones
before it. -/
structure Repeatable (svc : MemoService) (clock : ℕ → ℤ) (memoID : ℤ) (db : Tables)
    (requested : List Attachment) : Prop where
  present : ∀ a ∈ requested, leftOut (svc.engine.listedAttachments db memoID) requested a = true →
    a.MemoID = some memoID ∧ a ∉ svc.engine.listedAttachments db memoID
  ordered : ∀ a ∈ svc.remaining memoID db requested, ∀ b ∈ svc.remaining memoID db requested,
    ((svc.rowAfter memoID db requested a).UpdatedTs <
        (svc.rowAfter memoID db requested b).UpdatedTs ↔
      (svc.rowAgain clock memoID db requested a).UpdatedTs <
        (svc.rowAgain clock memoID db requested b).UpdatedTs)
  others : ∀ b ∈ attachmentsOf memoID db, b ∉ svc.engine.listedAttachments db memoID →
    b ∉ requested →
      100 ≤ ((normalizeAttachments [] requested).filter fun a =>
        b.UpdatedTs < (svc.rowAfter memoID db requested a).UpdatedTs).length

section

variable {requested : List Attachment} {clock : ℕ → ℤ}

/-- What is in the table after a request. -/
theorem mem_tablesAfter (hrows : ∀ a ∈ requested, a ∈ db.attachments) {c : Attachment} :
    c ∈ (svc.tablesAfter memoID db requested).attachments ↔
      ∃ a ∈ db.attachments, (a ∈ svc.engine.listedAttachments db memoID →
        a ∈ requested ∧ leftOut (svc.engine.listedAttachments db memoID) requested a = false) ∧
        svc.rowAfter memoID db requested a = c := by
  rw [tablesAfter, mem_withAttachments
    (fun a ha => hrows a ((mem_normalizeAttachments_of_rows hrows).mp ha).1)
    (nodup_ids_of_rows hrows _)]
  simp only [mem_normalizeAttachments_of_rows hrows, rowAfter]

/-- Which rows belong to the memo after a request. -/
theorem rowAfter_linked (hrows : ∀ a ∈ requested, a ∈ db.attachments) {a : Attachment}
    (ha : a ∈ db.attachments) : (svc.rowAfter memoID db requested a).MemoID = some memoID ↔
      (a ∈ requested ∧ leftOut (svc.engine.listedAttachments db memoID) requested a = false) ∨
        a.MemoID = some memoID := by
  rw [rowAfter, linkRow_linked, mem_of_mem_ids
    (fun a ha => hrows a ((mem_normalizeAttachments_of_rows hrows).mp ha).1) ha,
    mem_normalizeAttachments_of_rows hrows]

@[simp]
theorem rowAfter_ID {a : Attachment} : (svc.rowAfter memoID db requested a).ID = a.ID :=
  linkRow_ID

@[simp]
theorem rowAfter_UID {a : Attachment} : (svc.rowAfter memoID db requested a).UID = a.UID :=
  linkRow_UID

/-- A row that is not requested stays. -/
theorem rowAfter_of_not_requested (hrows : ∀ a ∈ requested, a ∈ db.attachments) {a : Attachment}
    (ha : a ∈ db.attachments) (hnot : a ∉ requested) : svc.rowAfter memoID db requested a = a := by
  refine linkRow_of_not_mem fun hid => hnot ?_
  rw [mem_of_mem_ids (fun a ha => hrows a ((mem_normalizeAttachments_of_rows hrows).mp ha).1) ha,
    mem_normalizeAttachments_of_rows hrows] at hid
  exact hid.1

/-- A requested row is there after the request unless it was listed and left out. -/
theorem rowAfter_mem (hrows : ∀ a ∈ requested, a ∈ db.attachments) {a : Attachment}
    (ha : a ∈ requested) :
    svc.rowAfter memoID db requested a ∈ (svc.tablesAfter memoID db requested).attachments ↔
      (leftOut (svc.engine.listedAttachments db memoID) requested a = true →
        a ∉ svc.engine.listedAttachments db memoID) := by
  rw [mem_tablesAfter hrows]
  constructor
  · intro h hleft hlisted
    rcases h with ⟨b, hb, hkept, hsame⟩
    have hid : b.ID = a.ID := by simpa using congrArg Attachment.ID hsame
    rw [db.eq_of_attachmentID_eq hb (hrows a ha) hid] at hkept
    rw [(hkept hlisted).2] at hleft
    cases hleft
  · intro h
    refine ⟨a, hrows a ha, fun hlisted => ⟨ha, ?_⟩, rfl⟩
    cases hleft : leftOut (svc.engine.listedAttachments db memoID) requested a with
    | false => rfl
    | true => exact absurd hlisted (h hleft)

/-- The attachments of the memo after a request whose attachments are still there. -/
theorem mem_attachmentsOf_tablesAfter (hrows : ∀ a ∈ requested, a ∈ db.attachments)
    (hpresent : ∀ a ∈ requested,
      leftOut (svc.engine.listedAttachments db memoID) requested a = true →
        a.MemoID = some memoID ∧ a ∉ svc.engine.listedAttachments db memoID) {c : Attachment} :
    c ∈ attachmentsOf memoID (svc.tablesAfter memoID db requested) ↔
      ∃ a ∈ svc.remaining memoID db requested, svc.rowAfter memoID db requested a = c := by
  rw [mem_attachmentsOf, mem_tablesAfter hrows]
  constructor
  · intro h
    rcases h with ⟨⟨a, ha, hkept, rfl⟩, hlinked⟩
    rw [rowAfter_linked hrows ha] at hlinked
    refine ⟨a, List.mem_filter.mpr ⟨ha, decide_eq_true ?_⟩, rfl⟩
    by_cases hrequested : a ∈ requested
    · exact .inl hrequested
    · exact .inr ⟨hlinked.resolve_left fun hin => hrequested hin.1,
        fun hlisted => hrequested (hkept hlisted).1⟩
  · intro h
    rcases h with ⟨a, ha, rfl⟩
    rcases List.mem_filter.mp ha with ⟨ha, hremains⟩
    rw [rowAfter_linked hrows ha]
    rcases of_decide_eq_true hremains with hrequested | ⟨hlinked, hunlisted⟩
    · cases hleft : leftOut (svc.engine.listedAttachments db memoID) requested a with
      | false => exact ⟨⟨a, ha, fun _ => ⟨hrequested, hleft⟩, rfl⟩, .inl ⟨hrequested, rfl⟩⟩
      | true =>
          rcases hpresent a hrequested hleft with ⟨hlinked, hunlisted⟩
          exact ⟨⟨a, ha, fun hlisted => absurd hlisted hunlisted, rfl⟩, .inr hlinked⟩
    · exact ⟨⟨a, ha, fun hlisted => absurd hlisted hunlisted, rfl⟩, .inr hlinked⟩

/-- A request keeps the order of what is requested. -/
theorem normalizeAttachments_rowAfter :
    normalizeAttachments [] (requested.map (svc.rowAfter memoID db requested)) =
      (normalizeAttachments [] requested).map (svc.rowAfter memoID db requested) :=
  normalizeAttachments_map (fun _ => linkRow_UID) (fun _ => linkRow_motionGroup) requested

/-- The request orders the rows as before. -/
theorem requestOrder_rowAfter :
    requestOrder (requested.map (svc.rowAfter memoID db requested)) = requestOrder requested := by
  rw [requestOrder, normalizeAttachments_rowAfter, List.map_map]
  exact List.map_congr_left fun a _ => rowAfter_ID

/-- The requested attachments that are later than another after a request. -/
theorem length_later_rowAfter (time : ℤ) :
    ((normalizeAttachments [] (requested.map (svc.rowAfter memoID db requested))).filter fun a =>
      time < a.UpdatedTs).length =
      ((normalizeAttachments [] requested).filter fun a =>
        time < (svc.rowAfter memoID db requested a).UpdatedTs).length := by
  rw [normalizeAttachments_rowAfter, List.filter_map, List.length_map]
  rfl

/-- A request can be repeated when what it names is still there and settled. -/
theorem repeatable_iff (hrows : ∀ a ∈ requested, a ∈ db.attachments) {db' : Tables}
    (hdb' : db'.attachments = (svc.tablesAfter memoID db requested).attachments) :
    svc.Repeatable clock memoID db requested ↔
      (∀ a ∈ requested, svc.rowAfter memoID db requested a ∈ db'.attachments) ∧
      Settled (fun i => clock i + i) memoID db'
        (requested.map (svc.rowAfter memoID db requested)) := by
  have hsame : attachmentsOf memoID db' =
      attachmentsOf memoID (svc.tablesAfter memoID db requested) := by
    rw [attachmentsOf, attachmentsOf, hdb']
  have hlater := @length_later_rowAfter svc memoID db requested
  constructor
  · intro h
    have hof := @mem_attachmentsOf_tablesAfter svc memoID db requested hrows h.present
    refine ⟨?_, ?_, ?_, ?_⟩
    · intro a ha
      rw [hdb', rowAfter_mem hrows ha]
      exact fun hleft => (h.present a ha hleft).2
    · intro c hc
      rcases List.mem_map.mp hc with ⟨a, ha, rfl⟩
      rw [rowAfter_linked hrows (hrows a ha)]
      cases hleft : leftOut (svc.engine.listedAttachments db memoID) requested a with
      | false => exact .inl ⟨ha, rfl⟩
      | true => exact .inr (h.present a ha hleft).1
    · intro c hc d hd
      rw [hsame, hof] at hc hd
      rcases hc with ⟨a, ha, rfl⟩
      rcases hd with ⟨b, hb, rfl⟩
      rw [requestOrder_rowAfter]
      exact h.ordered a ha b hb
    · intro c hc hnot
      rw [hsame, hof] at hc
      rcases hc with ⟨b, hb, rfl⟩
      rcases List.mem_filter.mp hb with ⟨hb, hremains⟩
      have hnotRequested : b ∉ requested := fun hb => hnot (List.mem_map_of_mem hb)
      rcases (of_decide_eq_true hremains).resolve_left hnotRequested with ⟨hlinked, hunlisted⟩
      rw [rowAfter_of_not_requested hrows hb hnotRequested, hlater]
      exact h.others b (mem_attachmentsOf.mpr ⟨hb, hlinked⟩) hunlisted hnotRequested
  · intro h
    rcases h with ⟨hthere, hsettled⟩
    have hpresent : ∀ a ∈ requested,
        leftOut (svc.engine.listedAttachments db memoID) requested a = true →
          a.MemoID = some memoID ∧ a ∉ svc.engine.listedAttachments db memoID := by
      intro a ha hleft
      have hthere := hthere a ha
      rw [hdb', rowAfter_mem hrows ha] at hthere
      have hlinked := hsettled.linked _ (List.mem_map_of_mem ha)
      rw [rowAfter_linked hrows (hrows a ha), hleft] at hlinked
      exact ⟨hlinked.resolve_left (by simp), hthere hleft⟩
    have hof : ∀ a ∈ svc.remaining memoID db requested,
        svc.rowAfter memoID db requested a ∈ attachmentsOf memoID db' := by
      intro a ha
      rw [hsame, mem_attachmentsOf_tablesAfter hrows hpresent]
      exact ⟨a, ha, rfl⟩
    refine ⟨hpresent, ?_, ?_⟩
    · intro a ha b hb
      have hordered := hsettled.ordered _ (hof a ha) _ (hof b hb)
      rw [requestOrder_rowAfter] at hordered
      exact hordered
    · intro b hb hunlisted hnot
      rcases mem_attachmentsOf.mp hb with ⟨hb, hlinked⟩
      have hstays := @rowAfter_of_not_requested svc memoID db requested hrows b hb hnot
      have hremains : b ∈ svc.remaining memoID db requested :=
        List.mem_filter.mpr ⟨hb, decide_eq_true (.inr ⟨hlinked, hunlisted⟩)⟩
      have hnot' : b ∉ requested.map (svc.rowAfter memoID db requested) := by
        intro hin
        rcases List.mem_map.mp hin with ⟨a, ha, hsame⟩
        have hid : a.ID = b.ID := by simpa using congrArg Attachment.ID hsame
        exact hnot (db.eq_of_attachmentID_eq (hrows a ha) hb hid ▸ ha)
      have hmany := hsettled.others b (hstays ▸ hof b hremains) hnot'
      rwa [hlater] at hmany

/-- The times that two requests give, at the same places, are in the same order. -/
def SameTimes (time time' : ℕ → ℤ) (length : ℕ) : Prop :=
  ∀ i < length, ∀ j < length, (time i < time j ↔ time' i < time' j)

/-- A request of which nothing is left out links its attachments at the times of their places. -/
theorem updatedTs_rowAfter (hrows : ∀ a ∈ requested, a ∈ db.attachments)
    (hkept : ∀ a ∈ requested,
      leftOut (svc.engine.listedAttachments db memoID) requested a = false) {i : ℕ}
    (hi : i < (normalizeAttachments [] requested).reverse.length) :
    (svc.rowAfter memoID db requested
        (normalizeAttachments [] requested).reverse[i]).UpdatedTs = svc.linkTime i ∧
      (svc.rowAgain clock memoID db requested
        (normalizeAttachments [] requested).reverse[i]).UpdatedTs = clock i + i := by
  have hsame : normalizeAttachments (svc.engine.listedAttachments db memoID) requested =
      normalizeAttachments [] requested :=
    normalizeAttachments_congr fun a ha => by rw [hkept a ha, leftOut_of_subset (by simp)]
  have hnodup := nodup_ids_of_rows hrows []
  constructor
  · rw [rowAfter, hsame]
    exact updatedTs_linkRow hnodup hi
  · have hmem : (normalizeAttachments [] requested).reverse[i].ID ∈ requestOrder requested :=
      List.mem_map_of_mem (List.mem_reverse.mp (List.getElem_mem hi))
    have hagain := @updatedTs_linkRow (fun i => clock i + i) memoID _ hnodup i hi
    rw [← requestOrder, linkRow_of_mem hmem] at hagain
    rw [rowAgain, linkRow_of_mem (by rw [rowAfter_ID]; exact hmem), rowAfter_ID]
    exact hagain

/-- With at most a hundred attachments, a request can be repeated when none is left out and the two
requests give times in the same order. -/
theorem repeatable_iff_of_few (hrows : ∀ a ∈ requested, a ∈ db.attachments)
    (hfew : (attachmentsOf memoID db).length ≤ 100) :
    svc.Repeatable clock memoID db requested ↔
      (∀ a ∈ requested,
        leftOut (svc.engine.listedAttachments db memoID) requested a = false) ∧
      SameTimes svc.linkTime (fun i => clock i + i) (normalizeAttachments [] requested).length := by
  have hlisted : ∀ a ∈ attachmentsOf memoID db, a ∈ svc.engine.listedAttachments db memoID := by
    intro a ha
    have hlength := (svc.engine.attachmentOrder.perm (attachmentsOf memoID db)).length_eq
    rw [StoreEngine.listedAttachments, List.take_of_length_le (by
      rw [attachmentsOf] at hlength hfew
      omega)]
    exact (svc.engine.attachmentOrder.perm _).mem_iff.mpr ha
  -- What remains is what is requested.
  have hremaining : ∀ a, a ∈ svc.remaining memoID db requested ↔ a ∈ requested := by
    intro a
    rw [remaining, List.mem_filter, decide_eq_true_eq]
    constructor
    · intro h
      rcases h with ⟨ha, hrequested | ⟨hlinked, hunlisted⟩⟩
      · exact hrequested
      · exact absurd (hlisted a (mem_attachmentsOf.mpr ⟨ha, hlinked⟩)) hunlisted
    · exact fun h => ⟨hrows a h, .inl h⟩
  have hplaces : ∀ a ∈ requested, ∃ i, ∃ hi : i < (normalizeAttachments [] requested).reverse.length,
      (normalizeAttachments [] requested).reverse[i] = a := by
    intro a ha
    exact List.getElem_of_mem
      (List.mem_reverse.mpr ((mem_normalizeAttachments_nil hrows).mpr ha))
  constructor
  · intro h
    have hkept : ∀ a ∈ requested,
        leftOut (svc.engine.listedAttachments db memoID) requested a = false := by
      intro a ha
      cases hleft : leftOut (svc.engine.listedAttachments db memoID) requested a with
      | false => rfl
      | true =>
          rcases h.present a ha hleft with ⟨hlinked, hnot⟩
          exact absurd (hlisted a (mem_attachmentsOf.mpr ⟨hrows a ha, hlinked⟩)) hnot
    refine ⟨hkept, fun i hi j hj => ?_⟩
    rw [← List.length_reverse] at hi hj
    have hmem : ∀ k (hk : k < (normalizeAttachments [] requested).reverse.length),
        (normalizeAttachments [] requested).reverse[k] ∈ svc.remaining memoID db requested :=
      fun k hk => (hremaining _).mpr ((mem_normalizeAttachments_nil hrows).mp
        (List.mem_reverse.mp (List.getElem_mem hk)))
    have hordered := h.ordered _ (hmem i hi) _ (hmem j hj)
    have hi' := @updatedTs_rowAfter svc memoID db requested clock hrows hkept i hi
    have hj' := @updatedTs_rowAfter svc memoID db requested clock hrows hkept j hj
    rwa [hi'.1, hj'.1, hi'.2, hj'.2] at hordered
  · intro h
    rcases h with ⟨hkept, htimes⟩
    refine ⟨?_, ?_, fun b hb hnot => absurd (hlisted b hb) hnot⟩
    · intro a ha hleft
      rw [hkept a ha] at hleft
      cases hleft
    · intro a ha b hb
      rcases hplaces a ((hremaining a).mp ha) with ⟨i, hi, rfl⟩
      rcases hplaces b ((hremaining b).mp hb) with ⟨j, hj, rfl⟩
      have hi' := @updatedTs_rowAfter svc memoID db requested clock hrows hkept i hi
      have hj' := @updatedTs_rowAfter svc memoID db requested clock hrows hkept j hj
      rw [hi'.1, hj'.1, hi'.2, hj'.2]
      rw [List.length_reverse] at hi hj
      exact htimes i hi j hj

/-- Clocks that do not go back give times in the same order. -/
theorem sameTimes_of_forward {clock clock' : ℕ → ℤ} {length : ℕ}
    (h : ∀ i, i + 1 < length → clock i ≤ clock (i + 1))
    (h' : ∀ i, i + 1 < length → clock' i ≤ clock' (i + 1)) :
    SameTimes (fun i => clock i + i) (fun i => clock' i + i) length := by
  have hlater : ∀ clock : ℕ → ℤ, (∀ i, i + 1 < length → clock i ≤ clock (i + 1)) →
      ∀ i j, i ≤ j → j < length → clock i ≤ clock j := by
    intro clock hclock i j hij
    induction j, hij using Nat.le_induction with
    | base => exact fun _ => le_refl _
    | succ j _ ih =>
        intro hj
        exact (ih (by omega)).trans (hclock j hj)
  intro i hi j hj
  dsimp only
  rcases Nat.lt_trichotomy i j with hij | rfl | hij
  · have hle := hlater clock h i j (by omega) hj
    have hle' := hlater clock' h' i j (by omega) hj
    omega
  · omega
  · have hle := hlater clock h j i (by omega) hi
    have hle' := hlater clock' h' j i (by omega) hi
    omega

end

/-! ## One request after the other -/

/-- What a request that sets attachments has found and left. -/
theorem setMemoAttachments_ok {request : SetMemoAttachmentsRequest} {db' : Tables}
    (h : svc.setMemoAttachments request db = (.ok (), db')) :
    ∃ user memo, svc.memoForLinks request.Name db = (.ok (user, memo), db) ∧
      memo.toMemo ∈ db.memos ∧ svc.extractMemoUIDFromName request.Name = .ok memo.UID ∧
      List.Forall₂ (svc.Names user db) request.Attachments
        (svc.requestedRows db request.Attachments) ∧
      db' = (svc.tablesAfter memo.ID db (svc.requestedRows db request.Attachments)).updateMemo
        { ID := memo.ID, UpdatedTs := some svc.engine.now } ∧
      ∃ message, svc.buildUpdatedMemoState memo.ID db' = (.ok message, db') := by
  rw [setMemoAttachments] at h
  rcases Effect.ok_of_bind h with ⟨found, t, hfound, hrest⟩
  rcases found with ⟨user, memo⟩
  rcases memoForLinks_ok hfound with ⟨rfl, -, hname, hmemo, -⟩
  rcases Effect.ok_of_bind hrest with ⟨_, t', hset, hfinish⟩
  rcases finishLinks_ok hfinish with ⟨rfl, hbuilt⟩
  refine ⟨user, memo, hfound, hmemo, hname, ?_⟩
  rcases @setMemoAttachmentsInternal_cases svc t user memo.toMemo request.Attachments with
    ⟨failure, -, hrun⟩ | ⟨normalized, hnormalized, ⟨-, hrun⟩ | ⟨_, _, _, failure, -, -, hrun, -⟩⟩
  · rw [hrun] at hset
    cases hset
  · rw [hrun] at hset
    cases hset
    have hrequest := @normalizeMemoAttachmentRequest_eq svc t user memo.ID request.Attachments
    rw [hnormalized] at hrequest
    rcases Effect.ok_of_bind hrequest with ⟨rows, t', hrows, hdone⟩
    cases hdone
    have hnames : List.Forall₂ (svc.Names user t) request.Attachments rows :=
      requestedAttachments_ok hrows
    rw [requestedRows_eq hnames]
    exact ⟨hnames, rfl, hbuilt⟩
  · rw [hrun] at hset
    cases hset

/-- A request whose names refer to rows and that removes nothing completes. -/
theorem setMemoAttachmentsInternal_ok {user : User} {memo : Memo}
    {requests : List AttachmentMessage} {requested : List Attachment}
    (hnames : List.Forall₂ (svc.Names user db) requests requested)
    (hlisted : ∀ a ∈ svc.engine.listedAttachments db memo.ID, a ∈ requested) :
    svc.setMemoAttachmentsInternal user memo requests db =
      (.ok (), svc.tablesAfter memo.ID db requested) := by
  have hrows : ∀ a ∈ requested, a ∈ db.attachments :=
    fun a ha => mem_of_mem_requestedRows (requestedRows_eq hnames ▸ ha)
  have hrequest : svc.attachmentsOfRequest user memo.ID db requests =
      .ok (normalizeAttachments (svc.engine.listedAttachments db memo.ID) requested) := by
    rw [attachmentsOfRequest, normalizeMemoAttachmentRequest,
      Effect.bind_of_ok (requestedAttachments_of_names hnames)]
    rfl
  have hnone : svc.removedAttachments memo.ID db
      (normalizeAttachments (svc.engine.listedAttachments db memo.ID) requested) = [] := by
    rw [removedAttachments, List.filter_eq_nil_iff]
    intro a ha
    simp only [decide_eq_true_eq, not_not]
    apply List.mem_map_of_mem
    rw [mem_normalizeAttachments_of_rows hrows, leftOut_of_subset hlisted]
    exact ⟨hlisted a ha, rfl⟩
  rcases @setMemoAttachmentsInternal_cases svc db user memo requests with
    ⟨failure, herror, -⟩ | ⟨normalized, hnormalized, ⟨-, hrun⟩ | ⟨_, _, _, failure, hsplit, -⟩⟩
  · rw [hrequest] at herror
    cases herror
  · rw [hrequest] at hnormalized
    cases hnormalized
    exact hrun
  · rw [hrequest] at hnormalized
    cases hnormalized
    rw [hnone] at hsplit
    simp at hsplit

private theorem users_linkAttachments {time : ℕ → ℤ} {list : List (Attachment × ℕ)} :
    (db.linkAttachments time memoID list).users = db.users := by
  induction list generalizing db with
  | nil => rfl
  | cons indexed list ih => exact ih

/-- Setting attachments changes no memo. -/
theorem sameButTimes_tablesAfter (svc : MemoService) (memoID : ℤ) (db : Tables)
    (requested : List Attachment) :
    SameButTimes db (svc.tablesAfter memoID db requested) := by
  exact ⟨users_linkAttachments, Tables.memoRelations_linkAttachments,
    SameMemos.of_eq Tables.memos_linkAttachments⟩

/-- A request that sets attachments can be made again without a change exactly when it names what
is still there, and what it leaves is settled. -/
theorem repeat_setMemoAttachments (hfilter : svc.FiltersByVisibility) {clock : ℕ → ℤ}
    {request : SetMemoAttachmentsRequest} {db' : Tables} {memo : Memo} (hmemo : memo ∈ db.memos)
    (hname : svc.extractMemoUIDFromName request.Name = .ok memo.UID)
    (h : svc.setMemoAttachments request db = (.ok (), db')) :
    (∀ now order, ∃ db'',
      ((svc.withClock clock).later now order).setMemoAttachments request db' = (.ok (), db'') ∧
        SameAttachments memo.ID db' db'') ↔
      svc.Repeatable clock memo.ID db (svc.requestedRows db request.Attachments) := by
  rcases setMemoAttachments_ok h with
    ⟨user, found, hfound, hfoundMem, hfoundName, hnames, hdb', message, hbuilt⟩
  have hsame : found.toMemo = memo :=
    db.eq_of_memoUID_eq hfoundMem hmemo (Except.ok.inj (hfoundName.symm.trans hname))
  have hid : found.ID = memo.ID := congrArg Memo.ID hsame
  rw [hid] at hdb' hbuilt
  have hrows : ∀ a ∈ svc.requestedRows db request.Attachments, a ∈ db.attachments :=
    fun a ha => mem_of_mem_requestedRows ha
  generalize svc.requestedRows db request.Attachments = requested at hnames hdb' hrows ⊢
  have hattachments : db'.attachments = (svc.tablesAfter memo.ID db requested).attachments := by
    rw [hdb']
    rfl
  have htimes : SameMemos db db' := by
    rw [hdb']
    exact (sameButTimes_tablesAfter svc _ _ _).memos.trans (SameMemos.touch _ _ _)
  -- The memo of the second request is the one of the first.
  have hsecond : ∀ now order, ∃ memo',
      ((svc.withClock clock).later now order).memoForLinks request.Name db' =
        (.ok (user, memo'), db') ∧ memo'.ID = memo.ID ∧ memo'.toMemo ∈ db'.memos := by
    intro now order
    rcases @SameMemos.memoForLinks (svc.withClock clock) now order db db' htimes _ _ _ _ hfound with
      ⟨memo', time, hfound', hsame', hmem'⟩
    have hmemoID := congrArg Memo.ID hsame'
    exact ⟨memo', hfound', hmemoID.trans hid, hmem'⟩
  rw [repeatable_iff hrows hattachments]
  constructor
  · intro hrepeat
    -- What a second request names is what the first has left of its own.
    have hnamed : ∀ now order,
        ((svc.withClock clock).later now order).requestedRows db' request.Attachments =
            requested.map (svc.rowAfter memo.ID db requested) ∧
          SameAttachments memo.ID db' (((svc.withClock clock).later now order).tablesAfter memo.ID
            db' (((svc.withClock clock).later now order).requestedRows db' request.Attachments)) := by
      intro now order
      rcases hrepeat now order with ⟨db'', hrun, hsameLinks⟩
      rcases setMemoAttachments_ok hrun with
        ⟨user', found', hfound', -, -, hnames', hdb'', -⟩
      rcases hsecond now order with ⟨memo', hmemo', hmemoID, -⟩
      rw [hmemo'] at hfound'
      cases hfound'
      rw [hmemoID] at hdb''
      refine ⟨names_map (fun b hb => ?_) (fun _ => rowAfter_UID) hnames hnames', ?_⟩
      · rw [hattachments] at hb
        rcases (mem_tablesAfter hrows).mp hb with ⟨a, ha, -, hrow⟩
        exact ⟨a, ha, hrow⟩
      · rw [hdb''] at hsameLinks
        exact sameAttachments_updateMemo.mp hsameLinks
    have hthere : ∀ b ∈ requested.map (svc.rowAfter memo.ID db requested),
        b ∈ db'.attachments := by
      intro b hb
      rw [← (hnamed svc.engine.now svc.engine.attachmentOrder).1] at hb
      exact mem_of_mem_requestedRows hb
    refine ⟨fun a ha => hthere _ (List.mem_map_of_mem ha),
      (@settled_iff (svc.withClock clock) memo.ID db' _ hthere).mp ?_⟩
    intro now order
    have hsameLinks := (hnamed now order).2
    rw [(hnamed now order).1] at hsameLinks
    exact hsameLinks
  · intro hrepeatable now order
    rcases hrepeatable with ⟨hthere, hsettled⟩
    have hthere' : ∀ b ∈ requested.map (svc.rowAfter memo.ID db requested),
        b ∈ db'.attachments := by
      intro b hb
      rcases List.mem_map.mp hb with ⟨a, ha, rfl⟩
      exact hthere a ha
    have hsameLinks := (@settled_iff (svc.withClock clock) memo.ID db' _ hthere').mpr hsettled
      now order
    rcases hsecond now order with ⟨memo', hmemo', hmemoID, hmem'⟩
    have hnames' : List.Forall₂ (((svc.withClock clock).later now order).Names user db')
        request.Attachments (requested.map (svc.rowAfter memo.ID db requested)) :=
      names_of_map (fun _ => rowAfter_UID) (fun _ => linkRow_CreatorID) hnames hthere
    have hlisted : ∀ a ∈ ((svc.withClock clock).later now order).engine.listedAttachments db'
        memo'.toMemo.ID, a ∈ requested.map (svc.rowAfter memo.ID db requested) := by
      rw [hmemoID]
      exact (listed_requested_iff hthere' hsettled.linked).mpr hsettled.others order
    have hset := setMemoAttachmentsInternal_ok hnames' hlisted
    rw [hmemoID] at hset
    have hfinish := @SameButTimes.finishLinks (svc.withClock clock) now order db' _
      (sameButTimes_tablesAfter ((svc.withClock clock).later now order) memo.ID db'
        (requested.map (svc.rowAfter memo.ID db requested))) hfilter memo'.toMemo
      hmem' message db' (by rw [hmemoID]; exact hbuilt)
    refine ⟨_, ?_, @sameAttachments_updateMemo _ _ _ { ID := memo'.ID, UpdatedTs := some now } |>.mpr
      hsameLinks⟩
    rw [setMemoAttachments, Effect.bind_of_ok hmemo']
    exact (Effect.bind_of_ok hset).trans hfinish

/-! ## References -/

private theorem memoRelations_addReferences {db db' : Tables}
    (h : db'.memoRelations = db.memoRelations)
    (ids : List ℤ) : (db'.addReferences memoID ids).memoRelations =
      (db.addReferences memoID ids).memoRelations := by
  induction ids generalizing db db' with
  | nil => exact h
  | cons id ids ih =>
      apply @ih (db.upsertMemoRelation ⟨memoID, id, .Reference⟩)
        (db'.upsertMemoRelation ⟨memoID, id, .Reference⟩)
      simp only [Tables.upsertMemoRelation, h]

/-- Deleting the references of a memo deletes the ones that were added. -/
theorem deleteReferences_addReferences (ids : List ℤ) :
    ((db.addReferences memoID ids).deleteReferences memoID).memoRelations =
      (db.deleteReferences memoID).memoRelations := by
  induction ids generalizing db with
  | nil => rfl
  | cons id ids ih =>
      refine (@ih (db.upsertMemoRelation ⟨memoID, id, .Reference⟩)).trans ?_
      simp only [Tables.deleteReferences, Tables.deleteMemoRelation, Tables.upsertMemoRelation]
      split
      · rfl
      · simp [List.filter_append, DeleteMemoRelation.matchesRelation]

/-- Replacing the references of a memo by the same again changes nothing. -/
theorem withReferences_again {db' : Tables} {ids : List ℤ}
    (h : db'.memoRelations = (db.withReferences memoID ids).memoRelations) :
    (db'.withReferences memoID ids).memoRelations =
      (db.withReferences memoID ids).memoRelations := by
  rw [Tables.withReferences, Tables.withReferences]
  apply memoRelations_addReferences
  have hdeleted : (db'.deleteReferences memoID).memoRelations =
      ((db.withReferences memoID ids).deleteReferences memoID).memoRelations := by
    simp only [Tables.deleteReferences, Tables.deleteMemoRelation, h]
  rw [hdeleted, Tables.withReferences, deleteReferences_addReferences]
  simp [Tables.deleteReferences, Tables.deleteMemoRelation, List.filter_filter]

/-- A relation refers to the same memo after the times of memos have changed. -/
theorem relationTarget_later {db' : Tables} (h : SameMemos db db') {now : ℤ}
    {order : AttachmentOrder} (memoUID : String) (relation : RelationMessage) :
    (svc.later now order).relationTarget memoUID db'.memos relation =
      svc.relationTarget memoUID db.memos relation := by
  have hextract : ∀ name, (svc.later now order).extractMemoUIDFromName name =
      svc.extractMemoUIDFromName name := fun _ => rfl
  rcases h with ⟨time, hmemos⟩
  have hfind : ∀ uid, db'.memos.find? (fun m => m.UID = uid) =
      (db.memos.find? fun m => m.UID = uid).map fun m => { m with UpdatedTs := time m } := by
    intro uid
    rw [hmemos, List.find?_map]
    rfl
  rw [relationTarget, relationTarget]
  cases relation.RelatedMemo with
  | none => rfl
  | some related =>
      simp only [hextract, hfind]
      cases svc.extractMemoUIDFromName related.Name with
      | error err => rfl
      | ok uid =>
          dsimp only
          cases db.memos.find? (fun m => m.UID = uid) <;> rfl

private theorem relationTargets_later {db' : Tables} (h : SameMemos db db') {now : ℤ}
    {order : AttachmentOrder} (memoUID : String) (relations : List RelationMessage) :
    (svc.later now order).relationTargets memoUID db'.memos relations =
      svc.relationTargets memoUID db.memos relations := by
  induction relations with
  | nil => rfl
  | cons relation rest ih => rw [relationTargets, relationTargets, ih, relationTarget_later h]

private theorem users_withReferences {ids : List ℤ} :
    (db.withReferences memoID ids).users = db.users := by
  have hadd : ∀ (ids : List ℤ) (db : Tables), (db.addReferences memoID ids).users = db.users := by
    intro ids
    induction ids with
    | nil => exact fun _ => rfl
    | cons id ids ih => exact fun db => ih (db.upsertMemoRelation ⟨memoID, id, .Reference⟩)
  exact hadd ids (db.deleteReferences memoID)

/-- A request that sets references can always be made again, and changes none. -/
theorem repeat_setMemoRelations (hfilter : svc.FiltersByVisibility)
    {request : SetMemoRelationsRequest} {db' : Tables}
    (h : svc.setMemoRelations request db = (.ok (), db')) (now : ℤ) (order : AttachmentOrder) :
    ∃ db'', (svc.later now order).setMemoRelations request db' = (.ok (), db'') ∧
      db''.memoRelations = db'.memoRelations := by
  rw [setMemoRelations] at h
  rcases Effect.ok_of_bind h with ⟨found, t, hfound, hrest⟩
  rcases found with ⟨user, memo⟩
  rcases memoForLinks_ok hfound with ⟨rfl, -, -, -, -⟩
  rcases Effect.ok_of_bind hrest with ⟨_, t', hset, hfinish⟩
  rcases finishLinks_ok hfinish with ⟨hdb', message, hbuilt⟩
  rw [setMemoRelationsInternal_eq] at hset
  rcases Prod.mk.inj hset with ⟨hok, rfl⟩
  generalize htargets : svc.relationTargets memo.UID t.memos request.Relations = targets
    at hok hdb' hset
  -- The first request has changed relations and a time.
  have hrelations : db'.memoRelations = (t.withReferences memo.ID targets.1).memoRelations := by
    rw [hdb']
    rfl
  have hmemos : SameMemos t db' := by
    rw [hdb']
    exact (SameMemos.of_eq Tables.memos_withReferences).trans (SameMemos.touch _ _ _)
  rcases @SameMemos.memoForLinks svc now order t db' hmemos _ _ _ _ hfound with
    ⟨memo', time, hfound', hsame, hmem'⟩
  have hmemoID : memo'.ID = memo.ID := by rw [hsame]
  have hmemoUID : memo'.UID = memo.UID := by rw [hsame]
  -- The second refers to the same memos, and replaces the references by themselves.
  have hset' : (svc.later now order).setMemoRelationsInternal memo'.toMemo request.Relations db' =
      (.ok (), db'.withReferences memo.ID targets.1) := by
    rw [setMemoRelationsInternal_eq, hmemoUID, relationTargets_later hmemos, htargets, hok, hmemoID]
  have hagain := withReferences_again hrelations
  have hsecond : SameButTimes db' (db'.withReferences memo.ID targets.1) :=
    ⟨users_withReferences, hagain.trans hrelations.symm, SameMemos.of_eq Tables.memos_withReferences⟩
  have hfinish' := @SameButTimes.finishLinks svc now order db' _ hsecond hfilter memo'.toMemo hmem'
    message db' (by rw [hmemoID]; exact hbuilt)
  refine ⟨(db'.withReferences memo.ID targets.1).updateMemo
    { ID := memo'.ID, UpdatedTs := some now }, ?_, hagain.trans hrelations.symm⟩
  rw [setMemoRelations, Effect.bind_of_ok hfound']
  exact (Effect.bind_of_ok hset').trans hfinish'

end MemoService

/-! ## Both requests -/

/-- A request that sets links of a memo. -/
inductive SetLinksRequest where
  | attachments (request : SetMemoAttachmentsRequest)
  | relations (request : SetMemoRelationsRequest)
deriving DecidableEq, Repr

namespace SetLinksRequest

/-- The name of the memo. -/
def Name : SetLinksRequest → String
  | .attachments request => request.Name
  | .relations request => request.Name

/-- What a request sets is the same. -/
def SameLinks (memoID : ℤ) (db db' : Tables) : SetLinksRequest → Prop
  | .attachments _ => MemoService.SameAttachments memoID db db'
  | .relations _ => ∀ r, r ∈ db.memoRelations ↔ r ∈ db'.memoRelations

/-- Requests that can be repeated, with readings of the clock: all that set references, and some
that set attachments. -/
def Repeatable (svc : MemoService) (clock : ℕ → ℤ) (memoID : ℤ) (db : Tables) :
    SetLinksRequest → Prop
  | .attachments request =>
      svc.Repeatable clock memoID db (svc.requestedRows db request.Attachments)
  | .relations _ => True

end SetLinksRequest

namespace MemoService

def setLinks (svc : MemoService) : SetLinksRequest → ApiM Unit
  | .attachments request => svc.setMemoAttachments request
  | .relations request => svc.setMemoRelations request

/-- The same request, made again with readings of the clock of its own, completes and sets nothing
else, in whichever order the database returns attachments of one time. -/
def RepeatsUnchanged (svc : MemoService) (clock : ℕ → ℤ) (request : SetLinksRequest) (memoID : ℤ)
    (db' : Tables) : Prop :=
  ∀ now order, ∃ db'',
    ((svc.withClock clock).later now order).setLinks request db' = (.ok (), db'') ∧
      request.SameLinks memoID db' db''

/-- A request that has completed can be made again exactly when it is repeatable. -/
theorem set_links_idempotent_iff (svc : MemoService) (clock : ℕ → ℤ)
    (hfilter : svc.FiltersByVisibility) (request : SetLinksRequest) {db db' : Tables} {memo : Memo}
    (hmemo : memo ∈ db.memos)
    (hname : svc.extractMemoUIDFromName request.Name = .ok memo.UID)
    (h : svc.setLinks request db = (.ok (), db')) :
    svc.RepeatsUnchanged clock request memo.ID db' ↔ request.Repeatable svc clock memo.ID db := by
  cases request with
  | attachments request => exact repeat_setMemoAttachments hfilter hmemo hname h
  | relations request =>
      refine iff_of_true (fun now order => ?_) trivial
      rcases repeat_setMemoRelations hfilter h now order with ⟨db'', hrun, hsame⟩
      exact ⟨db'', hrun, fun r => by rw [hsame]⟩

/-- A memo with the still and the video of one motion photo. -/
def motionPhoto : Tables :=
  { Tables.ofMemos [{ ID := 1, UID := "m", CreatorID := 1 }] []
      [{ ID := 1, UID := "still", CreatorID := 1, MemoID := some 1,
         Payload := { MotionMedia := some { GroupId := "g" } } },
        { ID := 2, UID := "video", CreatorID := 1, MemoID := some 1,
          Payload := { MotionMedia := some { GroupId := "g" } } }] 1 with
    users := [{ ID := 1, Username := "ada" }] }

/-- A request for attachments of the memo. -/
def motionRequest (names : List String) : SetLinksRequest :=
  .attachments { Name := "memos/m", Attachments := names.map fun name => { Name := name } }

theorem set_links_idempotent_iff_example :
    MemoService.plain.RepeatsUnchanged (fun i => 60 + 2 * i)
      (motionRequest ["attachments/video", "attachments/still"]) 1
      (MemoService.plain.setLinks (motionRequest ["attachments/video", "attachments/still"])
        motionPhoto).2 := by
  have hrun : (MemoService.plain.setLinks
      (motionRequest ["attachments/video", "attachments/still"]) motionPhoto).1 = .ok () := by
    decide +kernel
  have hfilter : MemoService.plain.FiltersByVisibility := by
    intro user f hf db db' memo time
    cases hf
    rfl
  have hmemo : { ID := 1, UID := "m", CreatorID := 1 : Memo } ∈ motionPhoto.memos :=
    List.mem_singleton.mpr rfl
  refine (set_links_idempotent_iff MemoService.plain (fun i => 60 + 2 * i) hfilter
    (motionRequest ["attachments/video", "attachments/still"]) hmemo (by decide +kernel)
    (Effect.eq_of_fst hrun)).mpr ?_
  refine (repeatable_iff_of_few (fun a ha => mem_of_mem_requestedRows ha) (by decide)).mpr
    ⟨by decide +kernel, sameTimes_of_forward (fun i _ => le_refl _) fun i _ => ?_⟩
  push_cast
  omega

/-- A request for one of two attachments that belong together deletes the one that it names, and
cannot be made again. -/
theorem set_links_not_idempotent :
    ∃ db', MemoService.plain.setLinks (motionRequest ["attachments/still"]) motionPhoto =
        (.ok (), db') ∧
      ¬MemoService.plain.RepeatsUnchanged (fun _ => 60) (motionRequest ["attachments/still"]) 1
        db' := by
  have hrun : (MemoService.plain.setLinks (motionRequest ["attachments/still"]) motionPhoto).1 =
      .ok () := by decide +kernel
  refine ⟨_, Effect.eq_of_fst hrun, fun hrepeats => ?_⟩
  rcases hrepeats 60 .stored with ⟨db'', hagain, -⟩
  have hfails : (((MemoService.plain.withClock fun _ => 60).later 60 .stored).setLinks
      (motionRequest ["attachments/still"])
      (MemoService.plain.setLinks (motionRequest ["attachments/still"]) motionPhoto).2).1 =
        .error (.status .NotFound "attachment not found: still") := by decide +kernel
  rw [hagain] at hfails
  cases hfails

end MemoService

end Api
end MemosNote
