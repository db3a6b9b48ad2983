import MemosNote.Api.LinkEffects

/-!
# Requested attachments and their groups

Which of the requested attachments a memo gets, and in which order.

Main results:

- Theorem {lit}`mem_normalizeAttachments`: all but those of a partly requested group.
- Theorem {lit}`normalizeAttachments_congr`: of what the memo has, only the partly requested groups
  matter.
- Theorem {lit}`normalizeAttachments_map`: of an attachment, only its name and its group matter.
-/

namespace MemosNote
namespace Api

open Library Store

/-! ## Partly requested groups -/

/-- A group of which several attachments are listed, and not all of these are requested. -/
def isPartialGroup (current requested : List Attachment) (group : String) : Bool :=
  isMultiMemberMotionGroup (groupMembers current group) &&
    !allGroupMembersRequested (groupMembers current group)
      ((groupMembers requested group).map Attachment.UID)

/-- An attachment of a partly requested group. -/
def leftOut (current requested : List Attachment) (a : Attachment) : Bool :=
  (motionGroup a).any (isPartialGroup current requested)

theorem mem_groupMembers {list : List Attachment} {group : String} {a : Attachment} :
    a ∈ groupMembers list group ↔ a ∈ list ∧ motionGroup a = some group := by
  simp [groupMembers]

/-- What is listed and requested is requested as a whole. -/
theorem isPartialGroup_of_subset {current requested : List Attachment}
    (h : ∀ a ∈ current, a ∈ requested) (group : String) :
    isPartialGroup current requested group = false := by
  rw [isPartialGroup, Bool.and_eq_false_iff]
  by_cases hnil : groupMembers current group = []
  · left
    simp [isMultiMemberMotionGroup, hnil]
  · right
    simp only [allGroupMembersRequested, Bool.not_eq_false', Bool.and_eq_true, decide_eq_true_eq,
      List.all_eq_true]
    refine ⟨hnil, fun a ha => List.mem_map_of_mem ?_⟩
    rcases mem_groupMembers.mp ha with ⟨hcurrent, hgroup⟩
    exact mem_groupMembers.mpr ⟨h a hcurrent, hgroup⟩

theorem leftOut_of_subset {current requested : List Attachment}
    (h : ∀ a ∈ current, a ∈ requested) (a : Attachment) : leftOut current requested a = false := by
  rw [leftOut]
  cases motionGroup a with
  | none => rfl
  | some group => exact isPartialGroup_of_subset h group

/-! ## Appending -/

theorem mem_appendNew_of_mem {normalized list : List Attachment} {a : Attachment}
    (h : a ∈ normalized) : a ∈ appendNew normalized list := by
  induction list generalizing normalized with
  | nil => exact h
  | cons b rest ih =>
      rw [appendNew]
      split
      · exact ih h
      · exact ih (List.mem_append_left _ h)

/-- The names that are appended are there. -/
theorem uid_mem_appendNew {normalized list : List Attachment} {a : Attachment} (h : a ∈ list) :
    a.UID ∈ (appendNew normalized list).map Attachment.UID := by
  induction list generalizing normalized with
  | nil => simp at h
  | cons b rest ih =>
      rw [appendNew]
      rcases List.mem_cons.mp h with rfl | h
      · split
        · next hmem =>
            rcases List.mem_map.mp hmem with ⟨c, hc, huid⟩
            rw [← huid]
            exact List.mem_map_of_mem (mem_appendNew_of_mem hc)
        · exact List.mem_map_of_mem (mem_appendNew_of_mem (by simp))
      · split
        · exact ih h
        · exact ih h

theorem nodup_appendNew {normalized list : List Attachment}
    (h : (normalized.map Attachment.UID).Nodup) :
    ((appendNew normalized list).map Attachment.UID).Nodup := by
  induction list generalizing normalized with
  | nil => exact h
  | cons a rest ih =>
      rw [appendNew]
      split
      · exact ih h
      · next hnew =>
          apply ih
          rw [List.map_append, List.nodup_append]
          refine ⟨h, by simp, ?_⟩
          rintro uid huid uid' huid' rfl
          have heq : uid = a.UID := by simpa using huid'
          exact hnew (heq ▸ huid)

theorem appendNew_map {f : Attachment → Attachment} (hf : ∀ a, (f a).UID = a.UID)
    (normalized list : List Attachment) :
    appendNew (normalized.map f) (list.map f) = (appendNew normalized list).map f := by
  have hnames : ∀ l : List Attachment, (l.map f).map Attachment.UID = l.map Attachment.UID := by
    intro l
    rw [List.map_map]
    exact List.map_congr_left fun a _ => hf a
  induction list generalizing normalized with
  | nil => rfl
  | cons a rest ih =>
      rw [List.map_cons, appendNew, appendNew, hf, hnames]
      split
      · exact ih normalized
      · rw [show normalized.map f ++ [f a] = (normalized ++ [a]).map f by simp]
        exact ih _

/-! ## Normalizing -/

theorem normalizeStep_none {current requested : List Attachment}
    {done : List Attachment × List String} {a : Attachment} (h : motionGroup a = none) :
    normalizeStep current requested done a = (appendNew done.1 [a], done.2) := by
  rw [normalizeStep, h]

theorem normalizeStep_some {current requested : List Attachment}
    {done : List Attachment × List String} {a : Attachment} {group : String}
    (h : motionGroup a = some group) :
    normalizeStep current requested done a =
      if group ∈ done.2 then done
      else if isPartialGroup current requested group then (done.1, group :: done.2)
      else (appendNew done.1 (groupMembers requested group), group :: done.2) := by
  rw [normalizeStep, h]
  rfl

/-- What is normalized after some of the requested attachments. -/
structure NormalizedBy (current requested before : List Attachment)
    (done : List Attachment × List String) : Prop where
  sound : ∀ a ∈ done.1, a ∈ requested ∧ leftOut current requested a = false
  complete : ∀ a ∈ before, leftOut current requested a = false →
    a.UID ∈ done.1.map Attachment.UID
  groups : ∀ group ∈ done.2, isPartialGroup current requested group = false →
    ∀ a ∈ groupMembers requested group, a.UID ∈ done.1.map Attachment.UID
  nodup : (done.1.map Attachment.UID).Nodup

theorem NormalizedBy.step {current requested before : List Attachment}
    {done : List Attachment × List String} (h : NormalizedBy current requested before done)
    {a : Attachment} (ha : a ∈ requested) :
    NormalizedBy current requested (before ++ [a]) (normalizeStep current requested done a) := by
  -- What was appended stays.
  have hkept : ∀ list uid, uid ∈ done.1.map Attachment.UID →
      uid ∈ (appendNew done.1 list).map Attachment.UID := by
    intro list uid huid
    rcases List.mem_map.mp huid with ⟨b, hb, rfl⟩
    exact List.mem_map_of_mem (mem_appendNew_of_mem hb)
  cases hgroup : motionGroup a with
  | none =>
      rw [normalizeStep_none hgroup]
      have hleft : leftOut current requested a = false := by rw [leftOut, hgroup]; rfl
      refine ⟨?_, ?_, ?_, nodup_appendNew h.nodup⟩
      · intro b hb
        rcases MemoService.mem_of_mem_appendNew hb with hb | hb
        · exact h.sound b hb
        · rw [List.mem_singleton.mp hb]
          exact ⟨ha, hleft⟩
      · intro b hb hkeep
        rcases List.mem_append.mp hb with hb | hb
        · exact hkept _ _ (h.complete b hb hkeep)
        · exact uid_mem_appendNew hb
      · exact fun group hmet hkeep b hb => hkept _ _ (h.groups group hmet hkeep b hb)
  | some group =>
      rw [normalizeStep_some hgroup]
      have hleft : leftOut current requested a = isPartialGroup current requested group := by
        rw [leftOut, hgroup]
        rfl
      by_cases hmet : group ∈ done.2
      · rw [if_pos hmet]
        refine ⟨h.sound, ?_, h.groups, h.nodup⟩
        intro b hb hkeep
        rcases List.mem_append.mp hb with hb | hb
        · exact h.complete b hb hkeep
        · rcases List.mem_singleton.mp hb with rfl
          exact h.groups group hmet (hleft ▸ hkeep) b (mem_groupMembers.mpr ⟨ha, hgroup⟩)
      rw [if_neg hmet]
      cases hpart : isPartialGroup current requested group with
      | true =>
          rw [if_pos rfl]
          refine ⟨h.sound, ?_, ?_, h.nodup⟩
          · intro b hb hkeep
            rcases List.mem_append.mp hb with hb | hb
            · exact h.complete b hb hkeep
            · rcases List.mem_singleton.mp hb with rfl
              rw [hleft, hpart] at hkeep
              cases hkeep
          · intro group' hmem hkeep b hb
            rcases List.mem_cons.mp hmem with rfl | hmem
            · rw [hpart] at hkeep
              cases hkeep
            · exact h.groups group' hmem hkeep b hb
      | false =>
          rw [if_neg (by simp)]
          refine ⟨?_, ?_, ?_, nodup_appendNew h.nodup⟩
          · intro b hb
            rcases MemoService.mem_of_mem_appendNew hb with hb | hb
            · exact h.sound b hb
            · rcases mem_groupMembers.mp hb with ⟨hrequested, hsame⟩
              refine ⟨hrequested, ?_⟩
              rw [leftOut, hsame]
              exact hpart
          · intro b hb hkeep
            rcases List.mem_append.mp hb with hb | hb
            · exact hkept _ _ (h.complete b hb hkeep)
            · rcases List.mem_singleton.mp hb with rfl
              exact uid_mem_appendNew (mem_groupMembers.mpr ⟨ha, hgroup⟩)
          · intro group' hmem hkeep b hb
            rcases List.mem_cons.mp hmem with rfl | hmem
            · exact uid_mem_appendNew hb
            · exact hkept _ _ (h.groups group' hmem hkeep b hb)

theorem normalizedBy_normalizeAttachments (current requested : List Attachment) :
    NormalizedBy current requested requested
      (requested.foldl (normalizeStep current requested) ([], [])) := by
  have hfold : ∀ (after before : List Attachment) (done : List Attachment × List String),
      (∀ a ∈ after, a ∈ requested) → NormalizedBy current requested before done →
      NormalizedBy current requested (before ++ after)
        (after.foldl (normalizeStep current requested) done) := by
    intro after
    induction after with
    | nil =>
        intro before done _ hdone
        simpa using hdone
    | cons a after ih =>
        intro before done hafter hdone
        have hnext := ih (before ++ [a]) _ (fun b hb => hafter b (List.mem_cons_of_mem a hb))
          (hdone.step (hafter a List.mem_cons_self))
        simpa using hnext
  exact hfold requested [] ([], []) (fun _ ha => ha)
    ⟨by simp, by simp, by simp, List.nodup_nil⟩

/-- All requested attachments are left but those of a partly requested group. -/
theorem mem_normalizeAttachments {current requested : List Attachment}
    (hunique : ∀ a ∈ requested, ∀ b ∈ requested, a.UID = b.UID → a = b) {a : Attachment} :
    a ∈ normalizeAttachments current requested ↔
      a ∈ requested ∧ leftOut current requested a = false := by
  have hdone := normalizedBy_normalizeAttachments current requested
  constructor
  · exact hdone.sound a
  · intro h
    rcases List.mem_map.mp (hdone.complete a h.1 h.2) with ⟨b, hb, huid⟩
    rw [← hunique b (hdone.sound b hb).1 a h.1 huid]
    exact hb

theorem nodup_normalizeAttachments (current requested : List Attachment) :
    ((normalizeAttachments current requested).map Attachment.UID).Nodup :=
  (normalizedBy_normalizeAttachments current requested).nodup

/-- Of what the memo has, only the partly requested groups matter. -/
theorem normalizeAttachments_congr {current current' requested : List Attachment}
    (h : ∀ a ∈ requested, leftOut current requested a = leftOut current' requested a) :
    normalizeAttachments current requested = normalizeAttachments current' requested := by
  rw [normalizeAttachments, normalizeAttachments]
  congr 1
  apply List.foldl_ext
  intro done a ha
  cases hgroup : motionGroup a with
  | none => rw [normalizeStep_none hgroup, normalizeStep_none hgroup]
  | some group =>
      have hsame := h a ha
      rw [leftOut, leftOut, hgroup, Option.any_some, Option.any_some] at hsame
      rw [normalizeStep_some hgroup, normalizeStep_some hgroup, hsame]

private theorem groupMembers_map {f : Attachment → Attachment}
    (hf : ∀ a, motionGroup (f a) = motionGroup a) (list : List Attachment) (group : String) :
    groupMembers (list.map f) group = (groupMembers list group).map f := by
  rw [groupMembers, groupMembers, List.filter_map]
  congr 2
  funext a
  rw [Function.comp_apply, hf]

/-- Of an attachment, only its name and its group matter. -/
theorem normalizeAttachments_map {f : Attachment → Attachment} (huid : ∀ a, (f a).UID = a.UID)
    (hgroup : ∀ a, motionGroup (f a) = motionGroup a) (requested : List Attachment) :
    normalizeAttachments [] (requested.map f) = (normalizeAttachments [] requested).map f := by
  have hnone : ∀ list group, isPartialGroup [] list group = false :=
    fun _ _ => isPartialGroup_of_subset (by simp) _
  have hstep : ∀ (done : List Attachment × List String) (a : Attachment),
      normalizeStep [] (requested.map f) (done.1.map f, done.2) (f a) =
        ((normalizeStep [] requested done a).1.map f, (normalizeStep [] requested done a).2) := by
    intro done a
    cases hmember : motionGroup a with
    | none =>
        rw [normalizeStep_none hmember, normalizeStep_none ((hgroup a).trans hmember)]
        exact congrArg (·, done.2) (appendNew_map huid done.1 [a])
    | some group =>
        rw [normalizeStep_some hmember, normalizeStep_some ((hgroup a).trans hmember), hnone, hnone,
          groupMembers_map hgroup, appendNew_map huid]
        by_cases hmet : group ∈ done.2
        · rw [if_pos hmet, if_pos hmet]
        · rw [if_neg hmet, if_neg hmet, if_neg (by simp), if_neg (by simp)]
  have hfold : ∀ (list : List Attachment) (done : List Attachment × List String),
      (list.map f).foldl (normalizeStep [] (requested.map f)) (done.1.map f, done.2) =
        ((list.foldl (normalizeStep [] requested) done).1.map f,
          (list.foldl (normalizeStep [] requested) done).2) := by
    intro list
    induction list with
    | nil => exact fun _ => rfl
    | cons a list ih =>
        intro done
        rw [List.map_cons, List.foldl_cons, List.foldl_cons, hstep]
        exact ih _
  exact congrArg Prod.fst (hfold requested ([], []))

end Api
end MemosNote
