import MemosNote.Library.Collect
import MemosNote.Store.MemoStore
import MemosNote.Store.InstanceSettings

/-!
# Signing the links of attachments in S3

The runner visits the attachments in S3 batch by batch and updates those whose link expires soon.
An update leaves the time by which the attachments are ordered.

Main results:

- Theorem {lit}`batches_of_scan`: the batches are pages, each of its own sorting.
- Theorem {lit}`visitsAll_iff`: when the batches show every attachment in S3.
-/

namespace MemosNote
namespace Runner

open Library Library.Page Store

/-- What the runner calls: the clock, when it looks at an attachment and when it updates it, S3, and
the store, whose update may fail. -/
structure PresignEngine where
  checkedAt : Attachment → ℤ
  signedAt : Attachment → ℤ
  newClient : StorageS3Config → Bool
  presignGetObject : StorageS3Config → String → Option String
  updates : Attachment → Bool

/-- An engine that gets no client. -/
def PresignEngine.offline : PresignEngine where
  checkedAt _ := 0
  signedAt _ := 0
  newClient _ := false
  presignGetObject _ _ := none
  updates _ := true

def batchSize : ℕ :=
  100

/-- Four days; a link expires after five. -/
def presignedFor : ℤ :=
  4 * 24 * 60 * 60

/-- The link of an attachment is signed, unless it is valid for long enough or something fails. -/
def presign (setting : InstanceStorageSetting) (engine : PresignEngine) (db : Tables)
    (a : Attachment) : Tables :=
  match a.Payload.S3Object with
  | none => db
  | some object =>
      if object.LastPresignedTime.any fun last => engine.checkedAt a < last + presignedFor then db
      else
        match object.S3Config <|> setting.S3Config with
        | none => db
        | some config =>
            if engine.newClient config then
              match engine.presignGetObject config object.Key with
              | none => db
              | some url =>
                  if engine.updates a then
                    db.updateAttachment {
                      ID := a.ID
                      Reference := some url
                      Payload := some { a.Payload with
                        S3Object := some { object with
                          S3Config := some config
                          LastPresignedTime := some (engine.signedAt a) } } }
                  else db
            else db

/-- Where the loop is: the number of the batch, the offset and the tables. -/
structure PresignState where
  number : ℕ := 0
  offset : ℕ := 0
  db : Tables

/-- A round of the loop yields its batch. -/
def CheckAndPresign (store : StoreEngine) (setting : InstanceStorageSetting)
    (orders : ℕ → AttachmentOrder) (engines : ℕ → PresignEngine) (s : PresignState) :
    Option (List Attachment × Option PresignState) :=
  match ({ store with attachmentOrder := orders s.number }.listAttachments {
      StorageType := some .S3
      Limit := some batchSize
      Offset := some s.offset } s.db).1 with
  | .error _ => none
  | .ok attachments =>
      if attachments = [] then some ([], none)
      else some (attachments, some {
        number := s.number + 1
        offset := s.offset + attachments.length
        db := attachments.foldl (presign setting (engines s.number)) s.db })

def s3Attachments (db : Tables) : List Attachment :=
  db.attachments.filter fun a => a.StorageType = .S3

/-- The loop ends, and it has visited every attachment that was in S3 when it started, whatever the
orders are and whatever the updates do. -/
def VisitsAll (store : StoreEngine) (setting : InstanceStorageSetting) (db : Tables) : Prop :=
  ∀ (orders : ℕ → AttachmentOrder) (engines : ℕ → PresignEngine), ∃ turns batches,
    collect (CheckAndPresign store setting orders engines) turns { db := db } = some batches ∧
      ∀ a ∈ s3Attachments db, a.ID ∈ batches.flatten.map Attachment.ID

/-! ## What an update leaves -/

variable {store : StoreEngine} {setting : InstanceStorageSetting} {db : Tables}
  {orders : ℕ → AttachmentOrder} {engines : ℕ → PresignEngine}

/-- What the order of the batches depends on. -/
def stamp (a : Attachment) : ℤ × ℤ :=
  (a.ID, a.UpdatedTs)

/-- The stamps of the attachments in S3. -/
def stamps (db : Tables) : List (ℤ × ℤ) :=
  (s3Attachments db).map stamp

private theorem stamps_updateAttachment (db : Tables) {update : UpdateAttachment}
    (h : update.UpdatedTs = none) : stamps (db.updateAttachment update) = stamps db := by
  have htype : (fun a : Attachment => decide (a.StorageType = .S3)) ∘ update.onRow =
      fun a => decide (a.StorageType = .S3) := by
    funext a
    rw [Function.comp_apply, UpdateAttachment.onRow]
    split_ifs <;> rfl
  have hstamp : stamp ∘ update.onRow = stamp := by
    funext a
    rw [Function.comp_apply, UpdateAttachment.onRow]
    split_ifs
    · rw [stamp, UpdateAttachment.assign, h]
      rfl
    · rfl
  have hrows : s3Attachments (db.updateAttachment update) =
      (s3Attachments db).map update.onRow := by
    rw [s3Attachments, Tables.updateAttachment, List.filter_map, htype]
    rfl
  rw [stamps, hrows, List.map_map, hstamp]
  rfl

/-- An attachment is left, or updated without a new time. -/
theorem presign_cases (setting : InstanceStorageSetting) (engine : PresignEngine) (db : Tables)
    (a : Attachment) : presign setting engine db a = db ∨
      (∃ config, engine.newClient config = true) ∧
        ∃ update : UpdateAttachment, update.UpdatedTs = none ∧
          presign setting engine db a = db.updateAttachment update := by
  rw [presign]
  split
  · exact Or.inl rfl
  · split
    · exact Or.inl rfl
    · split
      · exact Or.inl rfl
      · split
        · rename_i config hconfig hclient
          split
          · exact Or.inl rfl
          · split
            · exact Or.inr ⟨⟨config, hclient⟩, _, rfl, rfl⟩
            · exact Or.inl rfl
        · exact Or.inl rfl

private theorem stamps_presign (setting : InstanceStorageSetting) (engine : PresignEngine)
    (db : Tables)
    (a : Attachment) : stamps (presign setting engine db a) = stamps db := by
  rcases presign_cases setting engine db a with hsame | ⟨-, update, htime, hupdate⟩
  · rw [hsame]
  · rw [hupdate]
    exact stamps_updateAttachment db htime

private theorem stamps_foldl (setting : InstanceStorageSetting) (engine : PresignEngine)
    (db : Tables)
    (batch : List Attachment) :
    stamps (batch.foldl (presign setting engine) db) = stamps db := by
  induction batch generalizing db with
  | nil => rfl
  | cons a batch ih =>
      rw [List.foldl_cons, ih]
      exact stamps_presign setting engine db a

/-- Without a client nothing is updated. -/
theorem foldl_offline (setting : InstanceStorageSetting) (db : Tables) (batch : List Attachment) :
    batch.foldl (presign setting .offline) db = db := by
  have hone (a : Attachment) : presign setting .offline db a = db := by
    rcases presign_cases setting .offline db a with hsame | ⟨⟨config, hclient⟩, -⟩
    · exact hsame
    · cases hclient
  induction batch with
  | nil => rfl
  | cons a batch ih => rw [List.foldl_cons, hone, ih]

/-! ## Rounds -/

/-- The offset stops at the end, where a page is empty. -/
theorem page_min {α : Type} {k size n : ℕ} {list : List α} (h : list.length = n) :
    page (min (k * size) n) size list = page (k * size) size list := by
  by_cases hk : k * size ≤ n
  · rw [Nat.min_eq_left hk]
  · rw [Nat.min_eq_right (by omega), page, page, List.drop_eq_nil_of_le (by omega),
      List.drop_eq_nil_of_le (by omega)]

/-- The batch of a round. -/
def batchAt (orders : ℕ → AttachmentOrder) (s : PresignState) : List Attachment :=
  page s.offset batchSize ((orders s.number).sort (s3Attachments s.db))

theorem CheckAndPresign_eq (s : PresignState) :
    CheckAndPresign store setting orders engines s =
      if batchAt orders s = [] then some ([], none)
      else some (batchAt orders s, some {
        number := s.number + 1
        offset := s.offset + (batchAt orders s).length
        db := (batchAt orders s).foldl (presign setting (engines s.number)) s.db }) := by
  have hlist : { store with attachmentOrder := orders s.number }.listAttachments {
      StorageType := some .S3
      Limit := some batchSize
      Offset := some s.offset } s.db = (.ok (batchAt orders s), s.db) := by
    rw [listAttachments_page rfl rfl rfl]
    simp [FindAttachment.matchesAttachment, batchAt, s3Attachments]
  rw [CheckAndPresign, hlist]

/-- The rounds of the loop, with the stamps of the attachments as they were. -/
theorem rounds_stamps (store : StoreEngine) (setting : InstanceStorageSetting) (db : Tables)
    (orders : ℕ → AttachmentOrder) (engines : ℕ → PresignEngine) :
    Rounds (CheckAndPresign store setting orders engines)
      (fun k s => s.number = k ∧ s.offset = min (k * batchSize) (stamps db).length ∧
        stamps s.db = stamps db)
      (fun k batch => ∃ list, Sorting Prod.snd (stamps db) list ∧
        batch.map stamp = page (k * batchSize) batchSize list)
      (((stamps db).length + 99) / 100) := by
  have hbatch {k : ℕ} {s : PresignState} (hs : s.number = k ∧
      s.offset = min (k * batchSize) (stamps db).length ∧ stamps s.db = stamps db) :
      ∃ list, Sorting Prod.snd (stamps db) list ∧
        (batchAt orders s).map stamp = page (k * batchSize) batchSize list ∧
        (batchAt orders s).length = min batchSize ((stamps db).length - k * batchSize) := by
    rcases hs with ⟨-, hoffset, hstamps⟩
    have hsorted := (orders s.number).sorting (s3Attachments s.db)
    have hlist : Sorting Prod.snd (stamps db)
        (((orders s.number).sort (s3Attachments s.db)).map stamp) := by
      rw [← hstamps]
      exact ⟨hsorted.perm.map stamp, List.pairwise_map.mpr hsorted.sorted⟩
    refine ⟨_, hlist, ?_, ?_⟩
    · rw [← page_min hlist.perm.length_eq, ← hoffset, batchAt, page, page, List.map_take,
        List.map_drop]
    · have hlength := hlist.perm.length_eq
      rw [List.length_map] at hlength
      rw [batchAt, length_page, hlength, hoffset]
      omega
  constructor
  · intro k s hk hs
    rcases hbatch hs with ⟨list, hsorted, hpage, hlength⟩
    have hbefore : k * batchSize < (stamps db).length := by
      rw [batchSize]
      omega
    have hsome : batchAt orders s ≠ [] := by
      rw [← List.length_pos_iff, hlength]
      have hpos : 0 < batchSize := by decide
      omega
    refine ⟨_, _, (CheckAndPresign_eq s).trans (if_neg hsome), ⟨list, hsorted, hpage⟩, ?_, ?_, ?_⟩
    · exact congrArg Nat.succ hs.1
    · dsimp only
      rw [hlength, hs.2.1, Nat.succ_mul]
      omega
    · exact (stamps_foldl setting _ s.db _).trans hs.2.2
  · intro s hs
    rcases hbatch hs with ⟨list, hsorted, hpage, hlength⟩
    have hnone : batchAt orders s = [] := by
      rw [← List.length_eq_zero_iff, hlength, batchSize]
      omega
    rw [hnone] at hpage
    exact ⟨[], (CheckAndPresign_eq s).trans (if_pos hnone), list, hsorted, hpage⟩

/-- The batches are pages, each of its own sorting of the stamps. -/
theorem batches_of_scan (store : StoreEngine) (setting : InstanceStorageSetting) (db : Tables)
    (orders : ℕ → AttachmentOrder) (engines : ℕ → PresignEngine) :
    ∃ turns batches lists, collect (CheckAndPresign store setting orders engines) turns
        { db := db } = some batches ∧ (∀ i, Sorting Prod.snd (stamps db) (lists i)) ∧
      batches.flatten.map stamp =
        (pages batchSize lists (((stamps db).length + 99) / 100 + 1)).flatten := by
  have hoffset : 0 = min (0 * batchSize) (stamps db).length := by
    rw [Nat.zero_mul, Nat.zero_min]
  rcases collect_of_rounds (rounds_stamps store setting db orders engines)
    (s := { db := db }) ⟨rfl, hoffset, rfl⟩ with ⟨batches, hbatches, hlength, hyields⟩
  have hlist (i : ℕ) : ∃ list, Sorting Prod.snd (stamps db) list ∧
      ∀ batch, batches[i]? = some batch → batch.map stamp = page (i * batchSize) batchSize list := by
    cases hget : batches[i]? with
    | none => exact ⟨_, sorting_insertionSort Prod.snd (stamps db), fun _ h => by cases h⟩
    | some batch =>
        rcases hyields i batch hget with ⟨list, hsorted, hpage⟩
        refine ⟨list, hsorted, fun other hother => ?_⟩
        rcases Option.some.inj hother with rfl
        exact hpage
  choose lists hsorted hpages using hlist
  refine ⟨_, batches, lists, hbatches, hsorted, ?_⟩
  rw [List.map_flatten]
  refine congrArg List.flatten (List.ext_getElem ?_ fun i hi hi' => ?_)
  · rw [List.length_map, hlength, pages, List.length_map, List.length_range]
  · rw [List.getElem_map, hpages i _ (List.getElem?_eq_getElem _)]
    simp [pages]

/-- Without a client the batches are pages of the attachments as they are. -/
theorem batches_offline (store : StoreEngine) (setting : InstanceStorageSetting) (db : Tables)
    (orders : ℕ → AttachmentOrder) :
    ∃ turns, collect (CheckAndPresign store setting orders fun _ => .offline) turns { db := db } =
      some (pages batchSize (fun i => (orders i).sort (s3Attachments db))
        (((s3Attachments db).length + 99) / 100 + 1)) := by
  have hlength (i : ℕ) : ((orders i).sort (s3Attachments db)).length = (s3Attachments db).length :=
    ((orders i).perm _).length_eq
  have hrounds : Rounds (CheckAndPresign store setting orders fun _ => .offline)
      (fun k s => s = ⟨k, min (k * batchSize) (s3Attachments db).length, db⟩)
      (fun k batch => batch =
        page (k * batchSize) batchSize ((orders k).sort (s3Attachments db)))
      (((s3Attachments db).length + 99) / 100) := by
    constructor
    · rintro k s hk rfl
      have hbatch : batchAt orders ⟨k, min (k * batchSize) (s3Attachments db).length, db⟩ =
          page (k * batchSize) batchSize ((orders k).sort (s3Attachments db)) :=
        page_min (hlength k)
      have hbefore : k * batchSize < (s3Attachments db).length := by
        rw [batchSize]
        omega
      have hsome : page (k * batchSize) batchSize ((orders k).sort (s3Attachments db)) ≠ [] := by
        rw [← List.length_pos_iff, length_page, hlength]
        have hpos : 0 < batchSize := by decide
        omega
      refine ⟨_, _, (CheckAndPresign_eq _).trans ?_, rfl, rfl⟩
      rw [hbatch, if_neg hsome, foldl_offline, length_page, hlength]
      have hoffset : min (k * batchSize) (s3Attachments db).length +
          min batchSize ((s3Attachments db).length - k * batchSize) =
          min ((k + 1) * batchSize) (s3Attachments db).length := by
        rw [Nat.succ_mul]
        omega
      rw [hoffset]
    · rintro s rfl
      have hbatch : batchAt orders ⟨((s3Attachments db).length + 99) / 100,
          min (((s3Attachments db).length + 99) / 100 * batchSize) (s3Attachments db).length, db⟩ =
          page (((s3Attachments db).length + 99) / 100 * batchSize) batchSize
            ((orders (((s3Attachments db).length + 99) / 100)).sort (s3Attachments db)) :=
        page_min (hlength _)
      have hnone : page (((s3Attachments db).length + 99) / 100 * batchSize) batchSize
          ((orders (((s3Attachments db).length + 99) / 100)).sort (s3Attachments db)) = [] := by
        rw [← List.length_eq_zero_iff, length_page, hlength, batchSize]
        omega
      refine ⟨[], (CheckAndPresign_eq _).trans ?_, hnone.symm⟩
      rw [hbatch, if_pos hnone]
  have hstart : (⟨0, 0, db⟩ : PresignState) =
      ⟨0, min (0 * batchSize) (s3Attachments db).length, db⟩ := by
    rw [Nat.zero_mul, Nat.zero_min]
  exact ⟨_, collect_eq_map hrounds hstart⟩

private theorem nodup_s3Attachments (db : Tables) : (s3Attachments db).Nodup :=
  (List.Nodup.of_map _ db.attachmentIDs_nodup).filter _

/-- Every attachment in S3 is visited in all runs if and only if no attachments of one time are in
two batches. -/
theorem visitsAll_iff : VisitsAll store setting db ↔
    ¬Cut Attachment.UpdatedTs batchSize (s3Attachments db) := by
  constructor
  · intro hvisits hcut
    rcases exists_pages_repeat hcut with ⟨lists, hlists, hrepeat⟩
    rcases exists_order hlists with ⟨orders, horders⟩
    rcases hvisits orders fun _ => .offline with ⟨turns, batches, hbatches, hall⟩
    rcases batches_offline store setting db orders with ⟨turns', hbatches'⟩
    simp only [horders] at hbatches'
    rw [collect_unique hbatches hbatches'] at hall
    refine hrepeat (((s3Attachments db).length + 99) / 100 + 1) ?_
      (nodup_pages (nodup_s3Attachments db) hlists fun a ha => ?_)
    · rw [batchSize]
      omega
    · rcases List.mem_map.mp (hall a ha) with ⟨b, hb, hid⟩
      have hrow : b ∈ s3Attachments db := by
        rcases List.mem_flatten.mp hb with ⟨batch, hbatch, hmem⟩
        rcases List.mem_map.mp hbatch with ⟨i, -, rfl⟩
        exact (hlists i).perm.mem_iff.mp (List.mem_of_mem_drop (List.mem_of_mem_take hmem))
      have hsame : b = a := List.inj_on_of_nodup_map db.attachmentIDs_nodup
        (List.mem_of_mem_filter hrow) (List.mem_of_mem_filter ha) hid
      rw [← hsame]
      exact hb
  · intro hcut orders engines
    rcases batches_of_scan store setting db orders engines with
      ⟨turns, batches, lists, hbatches, hsorted, hflatten⟩
    refine ⟨turns, batches, hbatches, fun a ha => ?_⟩
    have hsame : Cut Prod.snd batchSize (stamps db) ↔
        Cut Attachment.UpdatedTs batchSize (s3Attachments db) := cut_map (f := stamp)
    have hcut' : ¬Cut Prod.snd batchSize (stamps db) := fun h => hcut (hsame.mp h)
    have hperm := pages_perm (n := ((stamps db).length + 99) / 100 + 1) hcut' hsorted (by
      rw [batchSize]
      omega)
    rw [← hflatten] at hperm
    rcases List.mem_map.mp (hperm.mem_iff.mpr (List.mem_map_of_mem ha)) with ⟨b, hb, hstamp⟩
    exact List.mem_map.mpr ⟨b, hb, congrArg Prod.fst hstamp⟩

end Runner
end MemosNote
