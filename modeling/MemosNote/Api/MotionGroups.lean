import MemosNote.Api.AttachmentGroups
import MemosNote.Library.Gather

/-!
# Motion photos stay whole

The attachments of a motion photo form a group.  A request either names a group as a whole or
loses it.

Main results:

- Theorem {lit}`normalizeAttachments_eq_gather`: what is normalized is the request without the
  partly requested groups, gathered by groups.
- Theorem {lit}`normalize_keeps_groups`: what a request that is accepted resolves to.
-/

namespace MemosNote
namespace Api

open Library Store

/-! ## Blocks -/

/-- What attachments are kept together by: a group, or a name. -/
inductive AttachmentBlock where
  | group (id : String)
  | single (uid : String)
deriving DecidableEq, Repr

def attachmentBlock (a : Attachment) : AttachmentBlock :=
  match motionGroup a with
  | some group => .group group
  | none => .single a.UID

theorem attachmentBlock_some {a : Attachment} {group : String} (h : motionGroup a = some group) :
    attachmentBlock a = .group group := by
  rw [attachmentBlock, h]

theorem attachmentBlock_none {a : Attachment} (h : motionGroup a = none) :
    attachmentBlock a = .single a.UID := by
  rw [attachmentBlock, h]

theorem attachmentBlock_eq_group {a : Attachment} {group : String} :
    attachmentBlock a = .group group ↔ motionGroup a = some group := by
  cases h : motionGroup a with
  | none => simp [attachmentBlock_none h]
  | some group' => simp [attachmentBlock_some h]

/-- The attachments of one group are the block of the group. -/
theorem groupMembers_eq_filter (list : List Attachment) (group : String) :
    groupMembers list group = list.filter fun a => attachmentBlock a = .group group := by
  refine List.filter_congr fun a _ => ?_
  rw [decide_eq_decide]
  exact attachmentBlock_eq_group.symm

/-- The blocks that are left out. -/
def leavesOutBlock (current requested : List Attachment) : AttachmentBlock → Bool
  | .group group => isPartialGroup current requested group
  | .single _ => false

theorem leftOut_eq_leavesOutBlock (current requested : List Attachment) (a : Attachment) :
    leftOut current requested a = leavesOutBlock current requested (attachmentBlock a) := by
  cases h : motionGroup a with
  | none => rw [leftOut, h, attachmentBlock_none h]; rfl
  | some group => rw [leftOut, h, attachmentBlock_some h]; rfl

/-! ## Appending -/

/-- No two attachments of a list share a name. -/
def NamesApart (list : List Attachment) : Prop :=
  ∀ a ∈ list, ∀ b ∈ list, a.UID = b.UID → a = b

theorem NamesApart.mono {list list' : List Attachment} (h : NamesApart list)
    (hsub : ∀ a ∈ list', a ∈ list) : NamesApart list' :=
  fun a ha b hb => h a (hsub a ha) b (hsub b hb)

private theorem NamesApart.uid_mem {list list' : List Attachment} (h : NamesApart list)
    (hsub : ∀ a ∈ list', a ∈ list) {a : Attachment} (ha : a ∈ list) :
    a.UID ∈ list'.map Attachment.UID ↔ a ∈ list' := by
  constructor
  · intro huid
    rcases List.mem_map.mp huid with ⟨b, hb, hsame⟩
    rw [← h b (hsub b hb) a ha hsame]
    exact hb
  · exact List.mem_map_of_mem

/-- Appending what is there already changes nothing. -/
theorem appendNew_of_mem {normalized list : List Attachment} (h : ∀ a ∈ list, a ∈ normalized) :
    appendNew normalized list = normalized := by
  induction list with
  | nil => rfl
  | cons a rest ih =>
      rw [appendNew, if_pos (List.mem_map_of_mem (h a List.mem_cons_self))]
      exact ih fun b hb => h b (List.mem_cons_of_mem a hb)

/-- Appending keeps the first of equal attachments. -/
theorem appendNew_eq_eraseDups {normalized list : List Attachment}
    (h : NamesApart (normalized ++ list)) (hnodup : normalized.Nodup) :
    appendNew normalized list = (normalized ++ list).eraseDups := by
  induction list generalizing normalized with
  | nil => rw [appendNew, List.append_nil, eraseDups_eq_self hnodup]
  | cons a rest ih =>
      have hmem : a.UID ∈ normalized.map Attachment.UID ↔ a ∈ normalized :=
        h.uid_mem (fun b hb => List.mem_append_left _ hb)
          (List.mem_append_right _ List.mem_cons_self)
      have hsplit : normalized ++ a :: rest = (normalized ++ [a]) ++ rest := by simp
      rw [appendNew]
      by_cases ha : a ∈ normalized
      · rw [if_pos (hmem.mpr ha), ih (h.mono ?_) hnodup, hsplit, List.eraseDups_append,
          List.eraseDups_append, eraseDups_concat, if_pos ha]
        · congr 2
          rw [List.removeAll, List.removeAll]
          refine List.filter_congr fun b _ => ?_
          by_cases hb : b = a
          · simp [hb, ha]
          · simp [hb]
        · intro b hb
          rcases List.mem_append.mp hb with hb | hb
          · exact List.mem_append_left _ hb
          · exact List.mem_append_right _ (List.mem_cons_of_mem a hb)
      · rw [if_neg (fun hname => ha (hmem.mp hname)), hsplit]
        refine ih (hsplit ▸ h) ?_
        rw [← List.concat_eq_append]
        exact hnodup.concat ha

/-- Appending what is not there yet. -/
theorem appendNew_of_disjoint {normalized list : List Attachment}
    (h : NamesApart (normalized ++ list)) (hnodup : normalized.Nodup)
    (hnew : ∀ a ∈ list, a ∉ normalized) :
    appendNew normalized list = normalized ++ list.eraseDups := by
  have hkept : list.removeAll normalized = list := by
    rw [List.removeAll, List.filter_eq_self]
    intro a ha
    simpa using hnew a ha
  rw [appendNew_eq_eraseDups h hnodup, List.eraseDups_append, hkept, eraseDups_eq_self hnodup]

/-! ## Normalizing gathers -/

/-- The blocks that are kept of some of the requested attachments. -/
def keptBlocks (current requested before : List Attachment) : List (AttachmentBlock) :=
  ((before.filter fun a => !leftOut current requested a).map attachmentBlock).eraseDups

/-- The requested attachments of some blocks. -/
def ofBlocks (requested : List Attachment) (blocks : List (AttachmentBlock)) : List Attachment :=
  blocks.flatMap fun k => requested.eraseDups.filter fun a => attachmentBlock a = k

theorem mem_ofBlocks {requested : List Attachment} {blocks : List (AttachmentBlock)}
    {a : Attachment} : a ∈ ofBlocks requested blocks ↔ a ∈ requested ∧ attachmentBlock a ∈ blocks := by
  simp only [ofBlocks, List.mem_flatMap, List.mem_filter, List.mem_eraseDups, decide_eq_true_eq]
  constructor
  · rintro ⟨k, hk, ha, rfl⟩
    exact ⟨ha, hk⟩
  · rintro ⟨ha, hk⟩
    exact ⟨_, hk, ha, rfl⟩

theorem mem_keptBlocks {current requested before : List Attachment} {k : AttachmentBlock} :
    k ∈ keptBlocks current requested before ↔
      (∃ a ∈ before, attachmentBlock a = k) ∧ leavesOutBlock current requested k = false := by
  simp only [keptBlocks, List.mem_eraseDups, List.mem_map, List.mem_filter, Bool.not_eq_true',
    leftOut_eq_leavesOutBlock]
  constructor
  · rintro ⟨a, ⟨ha, hkeep⟩, rfl⟩
    exact ⟨⟨a, ha, rfl⟩, hkeep⟩
  · rintro ⟨⟨a, ha, rfl⟩, hkeep⟩
    exact ⟨a, ⟨ha, hkeep⟩, rfl⟩

private theorem nodup_ofBlocks {requested : List Attachment} {blocks : List (AttachmentBlock)}
    (h : blocks.Nodup) : (ofBlocks requested blocks).Nodup := by
  rw [ofBlocks, List.nodup_flatMap]
  refine ⟨fun k _ => (nodup_eraseDups _).filter _, h.imp fun {k k'} hne => ?_⟩
  intro a ha ha'
  have hk : attachmentBlock a = k := by simpa using (List.mem_filter.mp ha).2
  have hk' : attachmentBlock a = k' := by simpa using (List.mem_filter.mp ha').2
  exact hne (hk.symm.trans hk')

/-- A further attachment adds its block, unless this is there or left out. -/
theorem keptBlocks_concat (current requested before : List Attachment) (a : Attachment) :
    keptBlocks current requested (before ++ [a]) =
      if leavesOutBlock current requested (attachmentBlock a) = true ∨
          attachmentBlock a ∈ keptBlocks current requested before then
        keptBlocks current requested before
      else keptBlocks current requested before ++ [attachmentBlock a] := by
  rw [keptBlocks, List.filter_append]
  cases hleft : leavesOutBlock current requested (attachmentBlock a) with
  | true =>
      rw [if_pos (.inl rfl), List.filter_cons_of_neg (by simp [leftOut_eq_leavesOutBlock, hleft]),
        List.filter_nil, List.append_nil]
      rfl
  | false =>
      rw [List.filter_cons_of_pos (by simp [leftOut_eq_leavesOutBlock, hleft]), List.filter_nil,
        List.map_append, List.map_singleton, eraseDups_concat]
      simp only [Bool.false_eq_true, false_or, keptBlocks, List.mem_eraseDups]

/-- What is normalized after some of the requested attachments, by blocks. -/
structure GatheredBy (current requested before : List Attachment)
    (done : List Attachment × List String) : Prop where
  blocks : done.1 = ofBlocks requested (keptBlocks current requested before)
  groups : ∀ group, group ∈ done.2 ↔ ∃ a ∈ before, motionGroup a = some group

/-- Appending a block that is not there yet. -/
theorem appendNew_block {requested : List Attachment} (hapart : NamesApart requested)
    {blocks : List (AttachmentBlock)} (hnodup : blocks.Nodup) {k : AttachmentBlock}
    (hnew : k ∉ blocks) {list : List Attachment}
    (hlist : list.eraseDups = requested.eraseDups.filter fun a => attachmentBlock a = k) :
    appendNew (ofBlocks requested blocks) list = ofBlocks requested (blocks ++ [k]) := by
  have hmem : ∀ a ∈ list, a ∈ requested ∧ attachmentBlock a = k := by
    intro a ha
    rw [← List.mem_eraseDups, hlist, List.mem_filter, List.mem_eraseDups, decide_eq_true_eq] at ha
    exact ha
  rw [appendNew_of_disjoint (hapart.mono ?_) (nodup_ofBlocks hnodup) ?_, hlist, ofBlocks, ofBlocks,
    List.flatMap_append, List.flatMap_singleton]
  · intro a ha
    rcases List.mem_append.mp ha with ha | ha
    · exact (mem_ofBlocks.mp ha).1
    · exact (hmem a ha).1
  · intro a ha hthere
    rw [← (hmem a ha).2] at hnew
    exact hnew (mem_ofBlocks.mp hthere).2

theorem GatheredBy.step {current requested before : List Attachment}
    {done : List Attachment × List String} (hapart : NamesApart requested)
    (h : GatheredBy current requested before done) {a : Attachment} (ha : a ∈ requested) :
    GatheredBy current requested (before ++ [a]) (normalizeStep current requested done a) := by
  have hnodup : (keptBlocks current requested before).Nodup := nodup_eraseDups _
  have hmet : ∀ group, (∃ b ∈ before ++ [a], motionGroup b = some group) ↔
      (∃ b ∈ before, motionGroup b = some group) ∨ motionGroup a = some group := by
    intro group
    simp only [List.mem_append, List.mem_singleton, or_and_right, exists_or, exists_eq_left]
  cases hgroup : motionGroup a with
  | none =>
      have hblock := attachmentBlock_none hgroup
      have hsame : ∀ b ∈ requested, attachmentBlock b = .single a.UID ↔ b = a := by
        intro b hb
        constructor
        · intro hb'
          cases hmotion : motionGroup b with
          | some group =>
              rw [attachmentBlock_some hmotion] at hb'
              cases hb'
          | none =>
              rw [attachmentBlock_none hmotion] at hb'
              exact hapart b hb a ha (AttachmentBlock.single.inj hb')
        · rintro rfl
          exact hblock
      rw [normalizeStep_none hgroup]
      refine ⟨?_, fun group => ?_⟩
      · rw [keptBlocks_concat, hblock, h.blocks]
        by_cases hold : AttachmentBlock.single a.UID ∈ keptBlocks current requested before
        · rw [if_pos (.inr hold), appendNew_of_mem]
          intro b hb
          rcases List.mem_singleton.mp hb with rfl
          exact mem_ofBlocks.mpr ⟨ha, hblock ▸ hold⟩
        · rw [if_neg (by simpa [leavesOutBlock] using hold)]
          refine appendNew_block hapart hnodup hold ?_
          rw [← eraseDups_filter]
          refine (eraseDups_constant (fun b hb => ?_) ?_).symm
          · rcases List.mem_filter.mp hb with ⟨hb, hkey⟩
            exact (hsame b hb).mp (by simpa using hkey)
          · exact List.ne_nil_of_mem (List.mem_filter.mpr ⟨ha, by simpa using hblock⟩)
      · rw [hmet, h.groups, hgroup]
        simp
  | some group =>
      have hblock := attachmentBlock_some hgroup
      rw [normalizeStep_some hgroup]
      by_cases hdone : group ∈ done.2
      · -- The block of a group that was met is there, or left out.
        rw [if_pos hdone]
        rcases (h.groups group).mp hdone with ⟨b, hb, hgroup'⟩
        refine ⟨?_, fun group' => ?_⟩
        · rw [keptBlocks_concat, if_pos, h.blocks]
          rw [hblock]
          cases hpart : leavesOutBlock current requested (.group group) with
          | true => exact .inl rfl
          | false =>
              exact .inr (mem_keptBlocks.mpr ⟨⟨b, hb, attachmentBlock_some hgroup'⟩, hpart⟩)
        · rw [hmet, h.groups]
          constructor
          · exact .inl
          · rintro (hother | hother)
            · exact hother
            · rw [hgroup] at hother
              cases hother
              exact ⟨b, hb, hgroup'⟩
      · have hgroups : ∀ group', group' ∈ group :: done.2 ↔
            ∃ b ∈ before ++ [a], motionGroup b = some group' := by
          intro group'
          rw [hmet, List.mem_cons, h.groups, hgroup, Option.some_inj, or_comm, eq_comm]
        have hnew : AttachmentBlock.group group ∉ keptBlocks current requested before := by
          intro hthere
          rcases (mem_keptBlocks.mp hthere).1 with ⟨b, hb, hkey⟩
          exact hdone ((h.groups group).mpr ⟨b, hb, attachmentBlock_eq_group.mp hkey⟩)
        rw [if_neg hdone]
        cases hpart : isPartialGroup current requested group with
        | true =>
            rw [if_pos rfl]
            refine ⟨?_, hgroups⟩
            rw [keptBlocks_concat, hblock, if_pos (.inl hpart), h.blocks]
        | false =>
            rw [if_neg (by simp)]
            refine ⟨?_, hgroups⟩
            have hkeep : leavesOutBlock current requested (.group group) = false := hpart
            rw [keptBlocks_concat, hblock, if_neg (by simp [hkeep, hnew]), h.blocks]
            refine appendNew_block hapart hnodup hnew ?_
            rw [groupMembers_eq_filter, eraseDups_filter]

/-- Attachments are kept by their blocks. -/
theorem gather_keep (current requested list : List Attachment) :
    gather attachmentBlock (list.filter fun a => !leftOut current requested a) =
      (gather attachmentBlock list).filter fun a => !leftOut current requested a := by
  simp only [leftOut_eq_leavesOutBlock]
  exact @gather_filter _ _ _ _ attachmentBlock list fun k => !leavesOutBlock current requested k

/-- Normalizing drops the partly requested groups and gathers the others. -/
theorem normalizeAttachments_eq_gather {current requested : List Attachment}
    (hapart : NamesApart requested) :
    normalizeAttachments current requested =
      (gather attachmentBlock requested).filter fun a => !leftOut current requested a := by
  have hfold : ∀ (after before : List Attachment) (done : List Attachment × List String),
      (∀ a ∈ after, a ∈ requested) → GatheredBy current requested before done →
      GatheredBy current requested (before ++ after)
        (after.foldl (normalizeStep current requested) done) := by
    intro after
    induction after with
    | nil =>
        intro before done _ hdone
        simpa using hdone
    | cons a after ih =>
        intro before done hafter hdone
        have hnext := ih (before ++ [a]) _ (fun b hb => hafter b (List.mem_cons_of_mem a hb))
          (hdone.step hapart (hafter a List.mem_cons_self))
        simpa using hnext
  have hdone := hfold requested [] ([], []) (fun _ ha => ha) ⟨rfl, by simp⟩
  rw [normalizeAttachments, hdone.blocks, List.nil_append, ← gather_keep]
  refine List.flatMap_congr fun k hk => ?_
  rw [eraseDups_filter, List.filter_filter]
  refine List.filter_congr fun a _ => ?_
  by_cases hkey : attachmentBlock a = k
  · subst hkey
    simp [leftOut_eq_leavesOutBlock, (mem_keptBlocks.mp hk).2]
  · simp [hkey]

/-! ## What a request resolves to -/

/-- A group with several current members, of which one is not requested. -/
def PartlyRequested (current requested : List Attachment) (group : String) : Prop :=
  2 ≤ (groupMembers current group).length ∧
    ∃ a ∈ groupMembers current group, ∀ b ∈ groupMembers requested group, b.UID ≠ a.UID

private theorem isPartialGroup_iff {current requested : List Attachment} {group : String} :
    isPartialGroup current requested group = true ↔ PartlyRequested current requested group := by
  have hmotion : (groupMembers current group).all (fun a => (motionGroup a).isSome) = true := by
    rw [List.all_eq_true]
    intro a ha
    rw [(mem_groupMembers.mp ha).2]
    rfl
  rw [isPartialGroup, isMultiMemberMotionGroup, hmotion, Bool.and_true, Bool.and_eq_true,
    decide_eq_true_eq, PartlyRequested]
  refine and_congr_right fun hseveral => ?_
  have hne : groupMembers current group ≠ [] := by
    intro hnil
    rw [hnil] at hseveral
    cases hseveral
  simp only [allGroupMembersRequested, hne, ne_eq, not_false_eq_true, decide_true, Bool.true_and,
    Bool.not_eq_true', List.all_eq_false, decide_eq_true_eq, List.mem_map, not_exists, not_and]

theorem leftOut_iff {current requested : List Attachment} {a : Attachment} :
    leftOut current requested a = true ↔
      ∃ group, motionGroup a = some group ∧ PartlyRequested current requested group := by
  rw [leftOut, Option.any_eq_true]
  simp only [isPartialGroup_iff]

/-- Where the block of an attachment starts in a request: at the first member of its group, or at
the attachment itself. -/
def blockStart (requested : List Attachment) (a : Attachment) : ℕ :=
  (requested.map attachmentBlock).idxOf (attachmentBlock a)

/-- The attachments that a request leaves: each once, all but the partly requested groups, the
members of a group together at the place of the first of them; and they are left as they are when
they are requested again. -/
structure KeepsGroups (current requested output : List Attachment) : Prop where
  nodup : output.Nodup
  subset : ∀ a ∈ output, a ∈ requested
  kept : ∀ a ∈ requested, a ∈ output ↔
    ¬∃ group, motionGroup a = some group ∧ PartlyRequested current requested group
  lost : ∀ group, PartlyRequested current requested group → groupMembers output group = []
  together : ∀ group, groupMembers output group <:+: output
  order : output.Pairwise fun a b =>
    blockStart requested a < blockStart requested b ∨
      attachmentBlock a = attachmentBlock b ∧ requested.idxOf a < requested.idxOf b
  again : normalizeAttachments current output = output

private theorem keepsGroups_normalizeAttachments {current requested : List Attachment}
    (hapart : NamesApart requested) :
    KeepsGroups current requested (normalizeAttachments current requested) := by
  have hmem : ∀ a, a ∈ normalizeAttachments current requested ↔
      a ∈ requested ∧ leftOut current requested a = false :=
    fun a => mem_normalizeAttachments hapart
  have hgather := @normalizeAttachments_eq_gather current requested hapart
  have hkept : ∀ a ∈ requested, a ∈ normalizeAttachments current requested ↔
      ¬∃ group, motionGroup a = some group ∧ PartlyRequested current requested group := by
    intro a ha
    rw [hmem, ← leftOut_iff, Bool.not_eq_true, and_iff_right ha]
  have hlost : ∀ group, PartlyRequested current requested group →
      groupMembers (normalizeAttachments current requested) group = [] := by
    intro group hpart
    rw [List.eq_nil_iff_forall_not_mem]
    intro a ha
    rcases mem_groupMembers.mp ha with ⟨hout, hgroup⟩
    exact (hkept a ((hmem a).mp hout).1).mp hout ⟨group, hgroup, hpart⟩
  refine ⟨?_, fun a ha => ((hmem a).mp ha).1, hkept, hlost, ?_, ?_, ?_⟩
  · rw [hgather]
    exact nodup_gather.filter _
  · intro group
    rw [groupMembers_eq_filter, hgather, ← gather_keep]
    exact block_infix_gather _
  · rw [hgather]
    exact pairwise_gather.filter _
  · -- What is left is gathered, and no group of it is partly requested.
    have hout : gather attachmentBlock (normalizeAttachments current requested) =
        normalizeAttachments current requested := by
      rw [hgather, ← gather_keep, gather_gather]
    rw [normalizeAttachments_eq_gather (hapart.mono fun a ha => ((hmem a).mp ha).1), hout,
      List.filter_eq_self]
    intro a ha
    rw [Bool.not_eq_true', ← Bool.not_eq_true, leftOut_iff]
    rintro ⟨group, hgroup, hseveral, b, hb, hnot⟩
    have hwhole : ¬PartlyRequested current requested group := by
      intro hpart
      exact (hkept a ((hmem a).mp ha).1).mp ha ⟨group, hgroup, hpart⟩
    refine hwhole ⟨hseveral, b, hb, fun c hc => ?_⟩
    rcases mem_groupMembers.mp hc with ⟨hrequested, hsame⟩
    refine hnot c (mem_groupMembers.mpr ⟨(hkept c hrequested).mpr ?_, hsame⟩)
    rintro ⟨group', hgroup', hpart⟩
    cases Option.some.inj (hsame.symm.trans hgroup')
    exact hwhole hpart

namespace MemoService

variable {svc : MemoService} {db db' : Tables}

/-- The rows that a request resolves to have names of their own. -/
theorem namesApart_requested {user : User} {requests : List AttachmentMessage}
    {requested : List Attachment}
    (h : svc.requestedAttachments user requests db = (.ok requested, db')) :
    NamesApart requested := by
  intro a ha b hb
  exact db.eq_of_attachmentUID_eq (mem_of_requestedAttachments h a ha)
    (mem_of_requestedAttachments h b hb)

/-- A request that is accepted resolves to attachments of which it keeps the groups. -/
theorem normalize_keeps_groups {user : User} {current output : List Attachment}
    {requests : List AttachmentMessage}
    (h : svc.normalizeMemoAttachmentRequest user current requests db = (.ok output, db')) :
    ∃ requested, svc.requestedAttachments user requests db = (.ok requested, db') ∧
      KeepsGroups current requested output ∧
      ∀ requests', svc.requestedAttachments user requests' db' = (.ok output, db') →
        svc.normalizeMemoAttachmentRequest user current requests' db' = (.ok output, db') := by
  rcases Effect.ok_of_bind h with ⟨requested, t, hrequested, hnormalized⟩
  cases hnormalized
  have hkeeps := @keepsGroups_normalizeAttachments current _ (namesApart_requested hrequested)
  refine ⟨requested, hrequested, hkeeps, fun requests' hagain => ?_⟩
  refine (Effect.bind_of_ok hagain).trans ?_
  rw [hkeeps.again]
  rfl

/-- A note and two motion photos. -/
def photos : Tables :=
  Tables.ofMemos [] []
    [{ ID := 1, UID := "still", CreatorID := 1, Payload := { MotionMedia := some { GroupId := "g" } } },
      { ID := 2, UID := "note", CreatorID := 1 },
      { ID := 3, UID := "video", CreatorID := 1,
        Payload := { MotionMedia := some { GroupId := "g" } } },
      { ID := 4, UID := "frame", CreatorID := 1,
        Payload := { MotionMedia := some { GroupId := "f" } } },
      { ID := 5, UID := "clip", CreatorID := 1,
        Payload := { MotionMedia := some { GroupId := "f" } } }] 0

theorem normalize_keeps_groups_example :
    ∃ requested output, output.map Attachment.UID = ["video", "still", "note"] ∧
      (MemoService.plain.requestedAttachments { ID := 1, Username := "ada" }
        [{ Name := "attachments/video" }, { Name := "attachments/clip" },
          { Name := "attachments/note" }, { Name := "attachments/still" }] photos).1 =
        .ok requested ∧
      KeepsGroups (photos.attachments.filter (·.ID != 3)) requested output := by
  have hrun : (MemoService.plain.normalizeMemoAttachmentRequest { ID := 1, Username := "ada" }
      (photos.attachments.filter (·.ID != 3))
      [{ Name := "attachments/video" }, { Name := "attachments/clip" },
        { Name := "attachments/note" }, { Name := "attachments/still" }] photos).1 =
      .ok [{ ID := 3, UID := "video", CreatorID := 1,
             Payload := { MotionMedia := some { GroupId := "g" } } },
           { ID := 1, UID := "still", CreatorID := 1,
             Payload := { MotionMedia := some { GroupId := "g" } } },
           { ID := 2, UID := "note", CreatorID := 1 }] := by decide +kernel
  rcases normalize_keeps_groups (Effect.eq_of_fst hrun) with ⟨requested, hrequested, hkeeps, -⟩
  exact ⟨requested, _, rfl, congrArg Prod.fst hrequested, hkeeps⟩

end MemoService

end Api
end MemosNote
