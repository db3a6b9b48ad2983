import MemosNote.Api.MemoMessage
import MemosNote.Library.Keys

/-!
# The visual items of attachments

The client shows images, videos and motion photos as items.  The two parts of a live photo are one
item, which is identified by their group; other items are identified by the name of their
attachment.  Of two items with one identifier the first is shown.

Main results:

- Theorem {lit}`partitioned_iff`: when every attachment is shown in exactly one item.
- Theorem {lit}`countLogicalAttachmentItems_eq_iff`: when the items are counted correctly.
-/

namespace MemosNote
namespace Web

open Library Store
open Api (AttachmentMessage)

/-! ## Attachments -/

/-- A text starts with another. -/
def startsWith (s start : String) : Bool :=
  start.toList.isPrefixOf s.toList

/-- A text contains another. -/
def includes (s part : String) : Bool :=
  s.toList.tails.any fun rest => part.toList.isPrefixOf rest

/-- Where the file is: elsewhere, or on the server. -/
def getAttachmentUrl (origin : String) (attachment : AttachmentMessage) : String :=
  if attachment.ExternalLink ≠ "" then attachment.ExternalLink
  else origin ++ "/file/" ++ attachment.Name ++ "/" ++ attachment.Filename

/-- Where the thumbnail is. -/
def getAttachmentThumbnailUrl (origin : String) (attachment : AttachmentMessage) : String :=
  origin ++ "/file/" ++ attachment.Name ++ "/" ++ attachment.Filename ++ "?thumbnail=true"

/-- Where the clip of a motion photo is. -/
def getAttachmentMotionClipUrl (origin : String) (attachment : AttachmentMessage) : String :=
  origin ++ "/file/" ++ attachment.Name ++ "/" ++ attachment.Filename ++ "?motion=true"

/-- The media types of a program for images, which no browser shows. -/
def isPSD (t : String) : Bool :=
  t = "image/vnd.adobe.photoshop" || t = "image/x-photoshop" || t = "image/photoshop"

/-- Images for the editor of photographs are not shown. -/
def isImage (t : String) : Bool :=
  startsWith t "image/" && !isPSD t

/-- The media types of notes, which no browser plays. -/
def isMidiFile (mimeType : String) : Bool :=
  mimeType = "audio/midi" || mimeType = "audio/mid" || mimeType = "audio/x-midi" ||
    mimeType = "application/x-midi"

/-- The group of a media type. -/
def getAttachmentType (attachment : AttachmentMessage) : String :=
  let type := attachment.MediaType
  if isImage type then "image/*"
  else if startsWith type "video" then "video/*"
  else if startsWith type "audio" && !isMidiFile type then "audio/*"
  else if startsWith type "text" then "text/*"
  else if startsWith type "application/epub+zip" then "application/epub+zip"
  else if startsWith type "application/pdf" then "application/pdf"
  else if includes type "word" then "application/msword"
  else if includes type "excel" then "application/msexcel"
  else if startsWith type "application/zip" then "application/zip"
  else if startsWith type "application/x-java-archive" then "application/x-java-archive"
  else "application/octet-stream"

/-- The group of an attachment; an empty group is none. -/
def getAttachmentMotionGroupId (attachment : AttachmentMessage) : Option String :=
  (attachment.MotionMedia.map MotionMedia.GroupId).filter (· ≠ "")

/-- The still of a live photo. -/
def isAppleLivePhotoStill (attachment : AttachmentMessage) : Bool :=
  attachment.MotionMedia.any fun media => media.Family = .APPLE_LIVE_PHOTO && media.Role = .STILL

/-- The video of a live photo. -/
def isAppleLivePhotoVideo (attachment : AttachmentMessage) : Bool :=
  attachment.MotionMedia.any fun media => media.Family = .APPLE_LIVE_PHOTO && media.Role = .VIDEO

/-- One file with both the still and the video. -/
def isAndroidMotionContainer (attachment : AttachmentMessage) : Bool :=
  attachment.MotionMedia.any fun media =>
    media.Family = .ANDROID_MOTION_PHOTO && media.Role = .CONTAINER && media.HasEmbeddedVideo

/-- A part of a motion photo. -/
def isMotionAttachment (attachment : AttachmentMessage) : Bool :=
  isAppleLivePhotoStill attachment || isAppleLivePhotoVideo attachment ||
    isAndroidMotionContainer attachment

/-! ## Items -/

/-- How an item is shown. -/
inductive VisualKind where
  | image
  | video
  | motion
deriving DecidableEq, Repr

/-- What a preview shows: an image or a video with a source, or a motion photo. -/
structure PreviewMediaItem where
  id : String
  filename : String
  kind : VisualKind
  sourceUrl : Option String := none
  posterUrl : String
  motionUrl : Option String := none
  presentationTimestampUs : Option ℤ := none
deriving DecidableEq, Repr

/-- An item of the gallery, with the names of its attachments. -/
structure AttachmentVisualItem where
  id : String
  kind : VisualKind
  filename : String
  posterUrl : String
  sourceUrl : String
  attachmentNames : List String
  attachments : List AttachmentMessage
  previewItem : PreviewMediaItem
  mimeType : String
deriving DecidableEq, Repr

section Build

variable (origin : String)

/-- An image or video that stands for itself. -/
def buildSingleAttachmentItem (attachment : AttachmentMessage) : AttachmentVisualItem :=
  let attachmentType := getAttachmentType attachment
  let sourceUrl := getAttachmentUrl origin attachment
  let posterUrl :=
    if attachmentType = "image/*" then getAttachmentThumbnailUrl origin attachment else sourceUrl
  let kind := if attachmentType = "video/*" then VisualKind.video else VisualKind.image
  { id := attachment.Name
    kind := kind
    filename := attachment.Filename
    posterUrl := posterUrl
    sourceUrl := sourceUrl
    attachmentNames := [attachment.Name]
    attachments := [attachment]
    previewItem := {
      id := attachment.Name
      kind := kind
      sourceUrl := some sourceUrl
      posterUrl := posterUrl
      filename := attachment.Filename }
    mimeType := attachment.MediaType }

/-- A live photo, made of its two attachments. -/
def buildAppleMotionItem (still video : AttachmentMessage) : AttachmentVisualItem :=
  let sourceUrl := getAttachmentUrl origin video
  let posterUrl := getAttachmentThumbnailUrl origin still
  let id := (getAttachmentMotionGroupId still).getD still.Name
  { id := id
    kind := .motion
    filename := still.Filename
    posterUrl := posterUrl
    sourceUrl := sourceUrl
    attachmentNames := [still.Name, video.Name]
    attachments := [still, video]
    previewItem := {
      id := id
      kind := .motion
      posterUrl := posterUrl
      motionUrl := some sourceUrl
      filename := still.Filename }
    mimeType := still.MediaType }

/-- A motion photo in one file. -/
def buildAndroidMotionItem (attachment : AttachmentMessage) : AttachmentVisualItem :=
  { id := attachment.Name
    kind := .motion
    filename := attachment.Filename
    posterUrl := getAttachmentThumbnailUrl origin attachment
    sourceUrl := getAttachmentMotionClipUrl origin attachment
    attachmentNames := [attachment.Name]
    attachments := [attachment]
    previewItem := {
      id := attachment.Name
      kind := .motion
      motionUrl := some (getAttachmentMotionClipUrl origin attachment)
      posterUrl := getAttachmentThumbnailUrl origin attachment
      filename := attachment.Filename
      presentationTimestampUs := attachment.MotionMedia.map MotionMedia.PresentationTimestampUs }
    mimeType := attachment.MediaType }

/-- The attachments of a group. -/
def attachmentsByGroup (attachments : List AttachmentMessage) (groupId : String) :
    List AttachmentMessage :=
  attachments.filter fun a => getAttachmentMotionGroupId a = some groupId

/-- The still and the video of a group that has nothing else. -/
def livePhoto (attachments : List AttachmentMessage) (groupId : String) :
    Option (AttachmentMessage × AttachmentMessage) :=
  let group := attachmentsByGroup attachments groupId
  match group.find? isAppleLivePhotoStill, group.find? isAppleLivePhotoVideo with
  | some still, some video => if group.length = 2 then some (still, video) else none
  | _, _ => none

/-- The items of the attachments from one on, behind groups that were consumed. -/
def visualItems (attachments : List AttachmentMessage) :
    List String → List AttachmentMessage → List AttachmentVisualItem
  | _, [] => []
  | consumedGroups, attachment :: rest =>
      if isAndroidMotionContainer attachment then
        buildAndroidMotionItem origin attachment :: visualItems attachments consumedGroups rest
      else
        match getAttachmentMotionGroupId attachment with
        | none =>
            buildSingleAttachmentItem origin attachment ::
              visualItems attachments consumedGroups rest
        | some groupId =>
            if groupId ∈ consumedGroups then visualItems attachments consumedGroups rest
            else
              match livePhoto attachments groupId with
              | some (still, video) =>
                  buildAppleMotionItem origin still video ::
                    visualItems attachments (groupId :: consumedGroups) rest
              | none =>
                  buildSingleAttachmentItem origin attachment ::
                    (((attachmentsByGroup attachments groupId).filter
                        fun member => member.Name ≠ attachment.Name).map
                      (buildSingleAttachmentItem origin) ++
                    visualItems attachments (groupId :: consumedGroups) rest)

/-- The items without those whose identifier was seen. -/
def dedupeVisualItems (items : List AttachmentVisualItem) : List AttachmentVisualItem :=
  firsts AttachmentVisualItem.id [] items

/-- The items of the gallery. -/
def buildAttachmentVisualItems (attachments : List AttachmentMessage) :
    List AttachmentVisualItem :=
  dedupeVisualItems (visualItems origin attachments [] attachments)

/-- An attachment that is shown. -/
def isVisual (attachment : AttachmentMessage) : Bool :=
  getAttachmentType attachment = "image/*" || getAttachmentType attachment = "video/*" ||
    isMotionAttachment attachment

/-- The number that is shown: items of the gallery, and other attachments one by one. -/
def countLogicalAttachmentItems (attachments : List AttachmentMessage) : ℕ :=
  let visualAttachments := attachments.filter isVisual
  let visualNames := visualAttachments.map AttachmentMessage.Name
  let visualCount := (buildAttachmentVisualItems origin visualAttachments).length
  let nonVisualCount := (attachments.filter fun a => a.Name ∉ visualNames).length
  visualCount + nonVisualCount

end Build

/-! ## Live photos -/

/-- An attachment is a part of a live photo that is shown as one item. -/
def Paired (attachments : List AttachmentMessage) (a : AttachmentMessage) : Prop :=
  ∃ groupId pair, getAttachmentMotionGroupId a = some groupId ∧
    livePhoto attachments groupId = some pair

/-- No group of a live photo has the name of an attachment that is shown by itself. -/
def GroupsApart (attachments : List AttachmentMessage) : Prop :=
  ∀ groupId pair, livePhoto attachments groupId = some pair →
    ∀ a ∈ attachments, a.Name = groupId → Paired attachments a

/-- The items have all attachments, each exactly once. -/
def Partitioned (attachments : List AttachmentMessage) (items : List AttachmentVisualItem) :
    Prop :=
  (items.flatMap AttachmentVisualItem.attachments).Perm attachments

section Items

variable {origin : String} {attachments : List AttachmentMessage} {groupId : String}

theorem mem_attachmentsByGroup {a : AttachmentMessage} :
    a ∈ attachmentsByGroup attachments groupId ↔
      a ∈ attachments ∧ getAttachmentMotionGroupId a = some groupId := by
  simp [attachmentsByGroup]

/-- A still is neither a video nor a container, and a video is no container. -/
theorem motion_parts {a : AttachmentMessage} :
    (isAppleLivePhotoStill a = true →
      isAppleLivePhotoVideo a = false ∧ isAndroidMotionContainer a = false) ∧
    (isAppleLivePhotoVideo a = true → isAndroidMotionContainer a = false) := by
  cases hmedia : a.MotionMedia with
  | none => simp [isAppleLivePhotoStill, isAppleLivePhotoVideo, hmedia]
  | some media =>
      constructor
      · intro h
        simp only [isAppleLivePhotoStill, hmedia, Option.any_some, Bool.and_eq_true,
          decide_eq_true_eq] at h
        simp [isAppleLivePhotoVideo, isAndroidMotionContainer, hmedia, h.1, h.2]
      · intro h
        simp only [isAppleLivePhotoVideo, hmedia, Option.any_some, Bool.and_eq_true,
          decide_eq_true_eq] at h
        simp [isAndroidMotionContainer, hmedia, h.1]

/-- What a live photo is: the two attachments of a group. -/
structure LivePhoto (attachments : List AttachmentMessage) (groupId : String)
    (still video : AttachmentMessage) : Prop where
  still_mem : still ∈ attachments
  video_mem : video ∈ attachments
  still_group : getAttachmentMotionGroupId still = some groupId
  video_group : getAttachmentMotionGroupId video = some groupId
  isStill : isAppleLivePhotoStill still = true
  isVideo : isAppleLivePhotoVideo video = true
  members : ∀ a ∈ attachments, getAttachmentMotionGroupId a = some groupId → a = still ∨ a = video

theorem livePhoto_some {still video : AttachmentMessage}
    (h : livePhoto attachments groupId = some (still, video)) :
    LivePhoto attachments groupId still video := by
  rw [livePhoto] at h
  split at h
  · rename_i still' video' hstill hvideo
    split_ifs at h with hlength
    rcases Prod.mk.inj (Option.some.inj h) with ⟨rfl, rfl⟩
    have hs := mem_attachmentsByGroup.mp (List.mem_of_find?_eq_some hstill)
    have hv := mem_attachmentsByGroup.mp (List.mem_of_find?_eq_some hvideo)
    have hisStill := List.find?_some hstill
    have hisVideo := List.find?_some hvideo
    refine ⟨hs.1, hv.1, hs.2, hv.2, hisStill, hisVideo, fun a ha hgroup => ?_⟩
    have hmem := mem_attachmentsByGroup.mpr ⟨ha, hgroup⟩
    have hsmem := List.mem_of_find?_eq_some hstill
    have hvmem := List.mem_of_find?_eq_some hvideo
    have hne : still' ≠ video' := by
      rintro rfl
      rw [(motion_parts.1 hisStill).1] at hisVideo
      cases hisVideo
    -- A group of two that has both has no third.
    rcases List.length_eq_two.mp hlength with ⟨x, y, hxy⟩
    rw [hxy] at hmem hsmem hvmem
    simp only [List.mem_cons, List.not_mem_nil, or_false] at hmem hsmem hvmem
    rcases hsmem with rfl | rfl <;> rcases hvmem with rfl | rfl
    · exact absurd rfl hne
    · exact hmem
    · exact hmem.symm
    · exact absurd rfl hne
  · cases h

/-- A container is no part of a live photo. -/
theorem not_paired_of_android {a : AttachmentMessage} (ha : a ∈ attachments)
    (h : isAndroidMotionContainer a = true) : ¬ Paired attachments a := by
  rintro ⟨groupId, pair, hgroup, hpair⟩
  have hsome : livePhoto attachments groupId = some (pair.1, pair.2) := hpair
  have hphoto := livePhoto_some hsome
  rcases hphoto.members a ha hgroup with rfl | rfl
  · rw [(motion_parts.1 hphoto.isStill).2] at h
    cases h
  · rw [motion_parts.2 hphoto.isVideo] at h
    cases h

/-! ## What the items are -/

/-- An item is of one attachment by itself, or of a live photo. -/
def ItemOf (attachments : List AttachmentMessage) (item : AttachmentVisualItem) : Prop :=
  (∃ a ∈ attachments, ¬ Paired attachments a ∧ item.id = a.Name ∧ item.attachments = [a]) ∨
    ∃ groupId still video, livePhoto attachments groupId = some (still, video) ∧
      item.id = groupId ∧ item.attachments = [still, video]

theorem itemOf_single {a : AttachmentMessage} (ha : a ∈ attachments)
    (h : ¬ Paired attachments a) : ItemOf attachments (buildSingleAttachmentItem origin a) :=
  Or.inl ⟨a, ha, h, rfl, rfl⟩

theorem itemOf_visualItems {consumedGroups : List String} {rest : List AttachmentMessage}
    (hrest : ∀ a ∈ rest, a ∈ attachments) :
    ∀ item ∈ visualItems origin attachments consumedGroups rest, ItemOf attachments item := by
  induction rest generalizing consumedGroups with
  | nil => exact fun item hitem => absurd hitem List.not_mem_nil
  | cons a rest ih =>
      have ha := hrest a (by simp)
      have ih' := fun consumed => @ih consumed fun b hb => hrest b (by simp [hb])
      intro item hitem
      rw [visualItems] at hitem
      split at hitem
      · rename_i handroid
        rcases List.mem_cons.mp hitem with rfl | hitem
        · exact Or.inl ⟨a, ha, not_paired_of_android ha handroid, rfl, rfl⟩
        · exact ih' _ item hitem
      · split at hitem
        · rename_i hgroup
          rcases List.mem_cons.mp hitem with rfl | hitem
          · refine itemOf_single ha ?_
            rintro ⟨groupId, pair, hgroup', -⟩
            rw [hgroup] at hgroup'
            cases hgroup'
          · exact ih' _ item hitem
        · rename_i groupId hgroup
          split at hitem
          · exact ih' _ item hitem
          · split at hitem
            · rename_i still video hpair
              rcases List.mem_cons.mp hitem with rfl | hitem
              · have hstill := (livePhoto_some hpair).still_group
                exact Or.inr ⟨groupId, still, video, hpair, by simp [buildAppleMotionItem, hstill],
                  rfl⟩
              · exact ih' _ item hitem
            · rename_i hpair
              have hnot : ∀ b, getAttachmentMotionGroupId b = some groupId →
                  ¬ Paired attachments b := by
                rintro b hb ⟨groupId', pair, hb', hpair'⟩
                rcases Option.some.inj (hb.symm.trans hb') with rfl
                rw [hpair] at hpair'
                cases hpair'
              rcases List.mem_cons.mp hitem with rfl | hitem
              · exact itemOf_single ha (hnot a hgroup)
              · rcases List.mem_append.mp hitem with hitem | hitem
                · rcases List.mem_map.mp hitem with ⟨b, hb, rfl⟩
                  have hmember := mem_attachmentsByGroup.mp (List.mem_of_mem_filter hb)
                  exact itemOf_single hmember.1 (hnot b hmember.2)
                · exact ih' _ item hitem

/-- Every attachment whose group was not consumed is in an item. -/
theorem exists_visualItem (hnames : (attachments.map AttachmentMessage.Name).Nodup)
    {consumedGroups : List String} {rest : List AttachmentMessage}
    (hrest : ∀ a ∈ rest, a ∈ attachments) {a : AttachmentMessage} (ha : a ∈ rest)
    (hfree : isAndroidMotionContainer a = true ∨
      ∀ groupId ∈ getAttachmentMotionGroupId a, groupId ∉ consumedGroups) :
    ∃ item ∈ visualItems origin attachments consumedGroups rest, a ∈ item.attachments := by
  induction rest generalizing consumedGroups with
  | nil => cases ha
  | cons b rest ih =>
      have ih' := fun consumed => @ih consumed fun c hc => hrest c (by simp [hc])
      -- What is in an item of the rest is in an item.
      have hlater : ∀ consumed,
          (∀ item ∈ visualItems origin attachments consumed rest,
            item ∈ visualItems origin attachments consumedGroups (b :: rest)) → a ∈ rest →
          (isAndroidMotionContainer a = true ∨
            ∀ groupId ∈ getAttachmentMotionGroupId a, groupId ∉ consumed) →
          ∃ item ∈ visualItems origin attachments consumedGroups (b :: rest),
            a ∈ item.attachments := by
        intro consumed hsub hmem hfree'
        rcases ih' consumed hmem hfree' with ⟨item, hitem, hin⟩
        exact ⟨item, hsub item hitem, hin⟩
      by_cases handroid : isAndroidMotionContainer b = true
      · rcases List.mem_cons.mp ha with rfl | hmem
        · exact ⟨buildAndroidMotionItem origin a, by simp [visualItems, handroid], by
            simp [buildAndroidMotionItem]⟩
        · exact hlater consumedGroups (by simp +contextual [visualItems, handroid]) hmem hfree
      · cases hgroup : getAttachmentMotionGroupId b with
        | none =>
            rcases List.mem_cons.mp ha with rfl | hmem
            · exact ⟨buildSingleAttachmentItem origin a, by simp [visualItems, handroid, hgroup], by
                simp [buildSingleAttachmentItem]⟩
            · exact hlater consumedGroups (by simp +contextual [visualItems, handroid, hgroup])
                hmem hfree
        | some groupId =>
            by_cases hconsumed : groupId ∈ consumedGroups
            · rcases List.mem_cons.mp ha with rfl | hmem
              · rcases hfree with hfree | hfree
                · exact absurd hfree handroid
                · exact absurd hconsumed (hfree groupId hgroup)
              · exact hlater consumedGroups
                  (by simp +contextual [visualItems, handroid, hgroup, hconsumed]) hmem hfree
            · -- All members of the group are in the items that are built here.
              by_cases hmember : getAttachmentMotionGroupId a = some groupId
              · have hmemGroup := mem_attachmentsByGroup.mpr ⟨hrest a ha, hmember⟩
                cases hpair : livePhoto attachments groupId with
                | some pair =>
                    have hphoto := livePhoto_some
                      (show livePhoto attachments groupId = some (pair.1, pair.2) from hpair)
                    refine ⟨buildAppleMotionItem origin pair.1 pair.2,
                      by simp [visualItems, handroid, hgroup, hconsumed, hpair], ?_⟩
                    rcases hphoto.members a (hrest a ha) hmember with rfl | rfl <;>
                      simp [buildAppleMotionItem]
                | none =>
                    refine ⟨buildSingleAttachmentItem origin a, ?_, by
                      simp [buildSingleAttachmentItem]⟩
                    by_cases hname : a.Name = b.Name
                    · have heq : a = b := List.inj_on_of_nodup_map hnames (hrest a ha)
                        (hrest b (by simp)) hname
                      simp [visualItems, handroid, hgroup, hconsumed, hpair, heq]
                    · have hmem : buildSingleAttachmentItem origin a ∈
                          ((attachmentsByGroup attachments groupId).filter
                            fun member => member.Name ≠ b.Name).map
                              (buildSingleAttachmentItem origin) :=
                        List.mem_map_of_mem (List.mem_filter.mpr ⟨hmemGroup, by simpa using hname⟩)
                      simp only [visualItems, handroid, hgroup, hconsumed, hpair, if_false]
                      exact List.mem_cons_of_mem _ (List.mem_append_left _ hmem)
              · have hmem : a ∈ rest := by
                  rcases List.mem_cons.mp ha with rfl | hmem
                  · exact absurd hgroup hmember
                  · exact hmem
                refine hlater (groupId :: consumedGroups) ?_ hmem ?_
                · intro item hitem
                  simp only [visualItems, handroid, hgroup, hconsumed, if_false]
                  cases livePhoto attachments groupId with
                  | some pair => exact List.mem_cons_of_mem _ hitem
                  | none => exact List.mem_cons_of_mem _ (List.mem_append_right _ hitem)
                · refine hfree.imp_right fun h id hid hmem => ?_
                  rcases List.mem_cons.mp hmem with rfl | hmem
                  · exact hmember hid
                  · exact h id hid hmem

/-! ## When the items have all attachments -/

variable (hnames : (attachments.map AttachmentMessage.Name).Nodup)

/-- Items with a common attachment have one identifier. -/
theorem ItemOf.id_eq {i j : AttachmentVisualItem} (hi : ItemOf attachments i)
    (hj : ItemOf attachments j) {a : AttachmentMessage} (ha : a ∈ i.attachments)
    (ha' : a ∈ j.attachments) : i.id = j.id := by
  have hpaired : ∀ {groupId : String} {still video : AttachmentMessage},
      livePhoto attachments groupId = some (still, video) → a ∈ [still, video] →
        getAttachmentMotionGroupId a = some groupId ∧ Paired attachments a := by
    intro groupId still video hpair hmem
    have hphoto := livePhoto_some hpair
    simp only [List.mem_cons, List.not_mem_nil, or_false] at hmem
    rcases hmem with rfl | rfl
    · exact ⟨hphoto.still_group, groupId, _, hphoto.still_group, hpair⟩
    · exact ⟨hphoto.video_group, groupId, _, hphoto.video_group, hpair⟩
  rcases hi with ⟨b, hb, hnot, hid, hattachments⟩ | ⟨g, still, video, hpair, hid, hattachments⟩
  · rw [hattachments, List.mem_singleton] at ha
    rcases hj with ⟨c, hc, hnot', hid', hattachments'⟩ | ⟨g', s', v', hpair', hid', hattachments'⟩
    · rw [hattachments', List.mem_singleton] at ha'
      rw [hid, hid', ← ha, ← ha']
    · rw [hattachments'] at ha'
      rw [ha] at hpaired
      rw [ha] at ha'
      exact absurd (hpaired hpair' ha').2 hnot
  · rw [hattachments] at ha
    rcases hj with ⟨c, hc, hnot', hid', hattachments'⟩ | ⟨g', s', v', hpair', hid', hattachments'⟩
    · rw [hattachments', List.mem_singleton] at ha'
      rw [ha'] at hpaired ha
      exact absurd (hpaired hpair ha).2 hnot'
    · rw [hattachments'] at ha'
      have hgroup := (hpaired hpair ha).1.symm.trans (hpaired hpair' ha').1
      rw [hid, hid', Option.some.inj hgroup]

include hnames in
/-- Where no group has the name of an attachment by itself, the identifier tells the attachments. -/
theorem ItemOf.attachments_eq {i j : AttachmentVisualItem} (hi : ItemOf attachments i)
    (hj : ItemOf attachments j) (happart : GroupsApart attachments) (h : i.id = j.id) :
    i.attachments = j.attachments := by
  rcases hi with ⟨b, hb, hnot, hid, hattachments⟩ | ⟨g, still, video, hpair, hid, hattachments⟩
  · rcases hj with ⟨c, hc, -, hid', hattachments'⟩ | ⟨g', s', v', hpair', hid', -⟩
    · have heq : b = c := List.inj_on_of_nodup_map hnames hb hc (hid.symm.trans (h.trans hid'))
      rw [hattachments, hattachments', heq]
    · exact absurd (happart g' _ hpair' b hb (hid.symm.trans (h.trans hid'))) hnot
  · rcases hj with ⟨c, hc, hnot', hid', -⟩ | ⟨g', s', v', hpair', hid', hattachments'⟩
    · exact absurd (happart g _ hpair c hc (hid'.symm.trans (h.symm.trans hid))) hnot'
    · rw [← hid, h, hid', hpair', Option.some.injEq, Prod.mk.injEq] at hpair
      rw [hattachments, hattachments', hpair.1, hpair.2]

theorem itemOf_of_mem {item : AttachmentVisualItem}
    (h : item ∈ buildAttachmentVisualItems origin attachments) : ItemOf attachments item :=
  itemOf_visualItems (fun _ ha => ha) item (mem_of_mem_firsts h).1

/-- The attachments of the items are attachments, none of them twice. -/
theorem nodup_items :
    ((buildAttachmentVisualItems origin attachments).flatMap
      AttachmentVisualItem.attachments).Nodup := by
  rw [List.nodup_flatMap]
  constructor
  · intro item hitem
    rcases itemOf_of_mem hitem with ⟨a, -, -, -, hattachments⟩ | ⟨g, s, v, hpair, -, hattachments⟩
    · rw [hattachments]
      exact List.nodup_singleton a
    · have hphoto := livePhoto_some hpair
      have hne : s ≠ v := by
        rintro rfl
        have hvideo := hphoto.isVideo
        rw [(motion_parts.1 hphoto.isStill).1] at hvideo
        cases hvideo
      rw [hattachments]
      simpa using hne
  · have hids := @nodup_firsts _ _ _ AttachmentVisualItem.id []
      (visualItems origin attachments [] attachments)
    have hpairwise := List.pairwise_map.mp hids
    refine hpairwise.imp_of_mem fun {i j} hi hj hne a ha ha' => ?_
    exact hne ((itemOf_of_mem hi).id_eq (itemOf_of_mem hj) ha ha')

include hnames in
/-- Every attachment is in exactly one item if and only if no group of a live photo has the name of
an attachment that is shown by itself. -/
theorem partitioned_iff :
    Partitioned attachments (buildAttachmentVisualItems origin attachments) ↔
      GroupsApart attachments := by
  have hnodup : attachments.Nodup := List.Nodup.of_map _ hnames
  have hraw : ∀ a ∈ attachments, ∃ item ∈ visualItems origin attachments [] attachments,
      a ∈ item.attachments := fun a ha =>
    exists_visualItem hnames (fun _ hb => hb) ha (Or.inr fun _ _ => List.not_mem_nil)
  constructor
  · -- Two raw items with one identifier cannot both be shown.
    intro hall groupId pair hpair a ha hname
    by_contra hnot
    have hphoto := livePhoto_some (show livePhoto attachments groupId = some (pair.1, pair.2) from
      hpair)
    have hshown : ∀ b ∈ attachments, ∃ item ∈ buildAttachmentVisualItems origin attachments,
        b ∈ item.attachments := by
      intro b hb
      exact List.mem_flatMap.mp (hall.mem_iff.mpr hb)
    rcases hshown a ha with ⟨i, hi, hai⟩
    rcases hshown pair.1 hphoto.still_mem with ⟨j, hj, hsj⟩
    have hitem : ItemOf attachments (buildSingleAttachmentItem origin a) := itemOf_single ha hnot
    have hphotoItem : ItemOf attachments (buildAppleMotionItem origin pair.1 pair.2) :=
      Or.inr ⟨groupId, pair.1, pair.2, hpair, by
        simp [buildAppleMotionItem, hphoto.still_group], rfl⟩
    have hiid : i.id = a.Name := (itemOf_of_mem hi).id_eq hitem hai (by
      simp [buildSingleAttachmentItem])
    have hjid : j.id = groupId := by
      have hid := (itemOf_of_mem hj).id_eq hphotoItem hsj (by simp [buildAppleMotionItem])
      rw [hid]
      simp [buildAppleMotionItem, hphoto.still_group]
    have hids := @nodup_firsts _ _ _ AttachmentVisualItem.id []
      (visualItems origin attachments [] attachments)
    have hij : i = j := List.inj_on_of_nodup_map hids hi hj (by rw [hiid, hjid, hname])
    -- The item of the live photo would hold the attachment.
    rcases itemOf_of_mem hi with ⟨b, hb, hnotb, -, hattachments⟩ | ⟨g, s, v, hp, -, hattachments⟩
    · rw [hij] at hattachments
      rw [hattachments, List.mem_singleton] at hsj
      exact hnotb ⟨groupId, pair, hsj ▸ hphoto.still_group, hpair⟩
    · rw [hattachments] at hai
      have hp' := livePhoto_some hp
      simp only [List.mem_cons, List.not_mem_nil, or_false] at hai
      rcases hai with rfl | rfl
      · exact hnot ⟨g, _, hp'.still_group, hp⟩
      · exact hnot ⟨g, _, hp'.video_group, hp⟩
  · intro happart
    rw [Partitioned, List.perm_ext_iff_of_nodup nodup_items hnodup]
    intro a
    constructor
    · intro h
      rcases List.mem_flatMap.mp h with ⟨item, hitem, hmem⟩
      rcases itemOf_of_mem hitem with ⟨b, hb, -, -, hattachments⟩ | ⟨g, s, v, hp, -, hattachments⟩
      · rw [hattachments, List.mem_singleton] at hmem
        exact hmem ▸ hb
      · have hphoto := livePhoto_some hp
        rw [hattachments] at hmem
        simp only [List.mem_cons, List.not_mem_nil, or_false] at hmem
        rcases hmem with rfl | rfl
        · exact hphoto.still_mem
        · exact hphoto.video_mem
    · intro ha
      rcases hraw a ha with ⟨item, hitem, hmem⟩
      rcases @exists_mem_firsts _ _ _ AttachmentVisualItem.id [] _ _ hitem
        List.not_mem_nil with ⟨shown, hshown, hid⟩
      have heq := (itemOf_of_mem hshown).attachments_eq hnames
        (itemOf_visualItems (fun _ hb => hb) item hitem) happart hid
      exact List.mem_flatMap.mpr ⟨shown, hshown, heq ▸ hmem⟩

/-! ## Counting -/

/-- The items are counted correctly if and only if no attachment that is not shown has the name of
one that is. -/
theorem countLogicalAttachmentItems_eq_iff :
    countLogicalAttachmentItems origin attachments =
        (buildAttachmentVisualItems origin (attachments.filter isVisual)).length +
          (attachments.filter fun a => !isVisual a).length ↔
      ∀ a ∈ attachments, ∀ b ∈ attachments, isVisual a = true → isVisual b = false →
        a.Name ≠ b.Name := by
  have hnames : (attachments.filter fun a =>
        a.Name ∉ (attachments.filter isVisual).map AttachmentMessage.Name) =
      (attachments.filter fun a => !isVisual a).filter fun a =>
        a.Name ∉ (attachments.filter isVisual).map AttachmentMessage.Name := by
    rw [List.filter_filter]
    refine List.filter_congr fun a ha => ?_
    by_cases hvisual : isVisual a = true
    · have hmem : a.Name ∈ (attachments.filter isVisual).map AttachmentMessage.Name :=
        List.mem_map_of_mem (List.mem_filter.mpr ⟨ha, hvisual⟩)
      simp [hvisual, hmem]
    · simp [hvisual]
  rw [countLogicalAttachmentItems, Nat.add_left_cancel_iff, hnames,
    List.length_filter_eq_length_iff]
  constructor
  · intro h a ha b hb hvisual hnot hname
    have hnotMem := h b (List.mem_filter.mpr ⟨hb, by simp [hnot]⟩)
    rw [decide_eq_true_eq] at hnotMem
    exact hnotMem (hname ▸ List.mem_map_of_mem (List.mem_filter.mpr ⟨ha, hvisual⟩))
  · intro h b hb
    rcases List.mem_filter.mp hb with ⟨hb, hnot⟩
    rw [decide_eq_true_eq]
    intro hmem
    rcases List.mem_map.mp hmem with ⟨a, ha, hname⟩
    rcases List.mem_filter.mp ha with ⟨ha, hvisual⟩
    exact h a ha b hb hvisual (by simpa using hnot) hname

end Items

/-- No attachment that is not shown has the name of one that is. -/
def NamesApart (attachments : List AttachmentMessage) : Prop :=
  ∀ a ∈ attachments, ∀ b ∈ attachments, isVisual a = true → isVisual b = false → a.Name ≠ b.Name

/-- The items of a list are a partition, and the items of another list are counted correctly,
exactly when the groups of the one and the names of the other are apart. -/
theorem visualItems_iff (origin : String) {visual : List AttachmentMessage}
    (hnames : (visual.map AttachmentMessage.Name).Nodup) (attachments : List AttachmentMessage) :
    (Partitioned visual (buildAttachmentVisualItems origin visual) ↔ GroupsApart visual) ∧
      (countLogicalAttachmentItems origin attachments =
          (buildAttachmentVisualItems origin (attachments.filter isVisual)).length +
            (attachments.filter fun a => !isVisual a).length ↔ NamesApart attachments) :=
  ⟨partitioned_iff hnames, countLogicalAttachmentItems_eq_iff⟩

/-- The two parts of a live photo of a group. -/
def livePhotoOf (groupId : String) : List AttachmentMessage :=
  [{ Name := "attachments/s"
     MediaType := "image/heic"
     MotionMedia := some { Family := .APPLE_LIVE_PHOTO, Role := .STILL, GroupId := groupId } },
    { Name := "attachments/v"
      MediaType := "video/quicktime"
      MotionMedia := some { Family := .APPLE_LIVE_PHOTO, Role := .VIDEO, GroupId := groupId } }]

theorem visualItems_iff_livePhoto :
    (Partitioned (livePhotoOf "g") (buildAttachmentVisualItems "" (livePhotoOf "g")) ↔
        GroupsApart (livePhotoOf "g")) ∧
      (countLogicalAttachmentItems "" (livePhotoOf "g") =
          (buildAttachmentVisualItems "" ((livePhotoOf "g").filter isVisual)).length +
            ((livePhotoOf "g").filter fun a => !isVisual a).length ↔
        NamesApart (livePhotoOf "g")) :=
  visualItems_iff "" (by decide) (livePhotoOf "g")

/-- An image that the group of a live photo is named after is not shown. -/
theorem image_not_shown :
    ¬∀ (origin : String) (visual : List AttachmentMessage),
      (visual.map AttachmentMessage.Name).Nodup →
        Partitioned visual (buildAttachmentVisualItems origin visual) := by
  intro h
  have hall := h "" (livePhotoOf "attachments/i" ++
    [{ Name := "attachments/i", MediaType := "image/png" }]) (by decide)
  have hlength := hall.length_eq
  revert hlength
  decide

end Web
end MemosNote
