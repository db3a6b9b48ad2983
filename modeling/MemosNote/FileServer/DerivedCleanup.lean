import Mathlib.Data.List.Nodup
import MemosNote.FileServer.DerivedFiles
import MemosNote.Store.MemoStore

/-!
# Derived files of deleted attachments

A deletion removes the derived files that it knows by their names.  A thumbnail has another name, so
it stays in every run; a clip is removed if the deletion gets that far, and if it is not made
afterwards.

Main results:

- Theorem {lit}`thumbnail_stays`: what no deletion removes.
- Theorem {lit}`tidy_step`: what an orderly step keeps.
- Theorem {lit}`noDerivedFile_of_run`: after an orderly run nothing is left of what was deleted.
- Theorem {lit}`thumbnail_is_left`: a thumbnail that is left.
-/

namespace MemosNote
namespace FileServer

open Library Store

/-- The rows that the database can hold. -/
structure AttachmentTable where
  rows : List Attachment
  ids : (rows.map Attachment.ID).Nodup
  uids : ∀ a ∈ rows, UIDMatcher a.UID = true

/-- A server that has derived nothing yet. -/
def Server.start (table : AttachmentTable) : Server where
  attachments := table.rows

/-- Nothing that was made from an attachment is left when its deletion has succeeded, once no
request for it is in flight. -/
def Server.NoDerivedFile (s : Server) : Prop :=
  ∀ id ∈ s.deleted, (∀ entry ∈ s.requests, entry.2.attachment.ID ≠ id) →
    ∀ file ∈ s.files, file.source.ID ≠ id

/-- What is stored of the attachment is deleted, by a deletion that has succeeded or goes on. -/
def Server.Passed (s : Server) (id : ℤ) : Prop :=
  id ∈ s.deleted ∨ ∃ entry ∈ s.deletions, entry.2.storageDone = true ∧ entry.2.attachment.ID = id

/-- No file is made from an attachment after what is stored of it is deleted; when that is deleted,
there is no thumbnail of it, and if there is a clip, it can be removed. -/
def Server.Orderly (s : Server) : FileStep → Prop
  | .generate number image => image ≠ none →
      ∀ a, s.requestIn number .thumbnailGeneration = some a → ¬s.Passed a.ID
  | .extract number original written => writtenClip original written ≠ none →
      ∀ a, s.requestIn number .clipExtraction = some a → ¬s.Passed a.ID
  | .deleteStorage number answers => ∀ a, s.deletionIn number false = some a →
      (a.StorageType = .LOCAL → Removable a answers) →
        s.hasFile (getThumbnailPath a) = false ∧
          (s.hasFile (getMotionPath a) = true → Removable a answers ∧ answers.clipRemoved = true)
  | _ => True

/-! ## Rows in use -/

variable {table : AttachmentTable} {s s' t : Server}

/-- Everything is about rows of the table. -/
structure Known (table : AttachmentTable) (s : Server) : Prop where
  attachments : ∀ a ∈ s.attachments, a ∈ table.rows
  requests : ∀ entry ∈ s.requests, entry.2.attachment ∈ table.rows
  deletions : ∀ entry ∈ s.deletions, entry.2.attachment ∈ table.rows

private theorem AttachmentTable.eq_of_id {a b : Attachment} (ha : a ∈ table.rows)
    (hb : b ∈ table.rows)
    (h : a.ID = b.ID) : a = b :=
  List.inj_on_of_nodup_map table.ids ha hb h

/-- A request in a phase is one of the requests. -/
theorem mem_requestIn {number : ℕ} {phase : Phase} {a : Attachment}
    (h : s.requestIn number phase = some a) : (number, ⟨a, phase⟩) ∈ s.requests := by
  rcases Option.bind_eq_some_iff.mp h with ⟨request, hlookup, hphase⟩
  split_ifs at hphase with hsame
  rcases Option.some.inj hphase with rfl
  have hmem := mem_of_lookup hlookup
  rw [← hsame]
  exact hmem

/-- A deletion in a phase is one of the deletions. -/
theorem mem_deletionIn {number : ℕ} {storageDone : Bool} {a : Attachment}
    (h : s.deletionIn number storageDone = some a) : (number, ⟨a, storageDone⟩) ∈ s.deletions := by
  rcases Option.bind_eq_some_iff.mp h with ⟨deletion, hlookup, hdone⟩
  split_ifs at hdone with hsame
  rcases Option.some.inj hdone with rfl
  have hmem := mem_of_lookup hlookup
  rw [← hsame]
  exact hmem

/-! ## Steps that leave the files and the deletions -/

/-- Only the requests change, and these are about the same attachments or about rows. -/
structure Calm (s t : Server) : Prop where
  attachments : t.attachments = s.attachments
  files : t.files = s.files
  deletions : t.deletions = s.deletions
  deleted : t.deleted = s.deleted
  requests : ∀ entry ∈ t.requests, entry.2.attachment ∈ s.attachments ∨
    ∃ old ∈ s.requests, old.2.attachment = entry.2.attachment

namespace Calm

variable {number : ℕ} {a : Attachment} {phase : Phase}

theorem refl (s : Server) : Calm s s :=
  ⟨rfl, rfl, rfl, rfl, fun entry hentry => Or.inr ⟨entry, hentry, rfl⟩⟩

/-- The end of a request changes no file. -/
theorem finish (s : Server) (number : ℕ) : Calm s (s.finish number) :=
  ⟨rfl, rfl, rfl, rfl, fun entry hentry => Or.inr ⟨entry, of_mem_takeOut hentry, rfl⟩⟩

/-- A request that goes on changes no file. -/
theorem advance (h : (number, ⟨a, phase⟩) ∈ s.requests) (next : Phase) :
    Calm s (s.advance number a next) := by
  refine ⟨rfl, rfl, rfl, rfl, fun entry hentry => Or.inr ?_⟩
  rcases of_mem_replaceAt hentry with rfl | hold
  · exact ⟨_, h, rfl⟩
  · exact ⟨entry, hold, rfl⟩

/-- A new request changes no file. -/
theorem begin (s : Server) (uid : String) (wantThumbnail wantMotion allowed : Bool) :
    Calm s (s.begin uid wantThumbnail wantMotion allowed) := by
  rw [Server.begin]
  split
  · exact refl s
  · rename_i a hfound
    split_ifs
    · split
      · exact refl s
      · refine ⟨rfl, rfl, rfl, rfl, fun entry hentry => ?_⟩
        rcases List.mem_append.mp hentry with hold | hnew
        · exact Or.inr ⟨entry, hold, rfl⟩
        · rw [List.mem_singleton.mp hnew]
          exact Or.inl (List.mem_of_find?_eq_some hfound)
    · exact refl s

/-- A look-up changes no file. -/
theorem lookupCached (h : (number, ⟨a, phase⟩) ∈ s.requests) (path : CachePath) (read : CacheRead)
    (next : Phase) : Calm s (s.lookupCached number a path read next) := by
  cases read with
  | noFolder => exact finish s number
  | unreadable => exact advance h next
  | readable =>
      rw [Server.lookupCached]
      split_ifs
      · exact finish s number
      · exact advance h next

/-- A look into the original changes no file. -/
theorem probeThumbnail (h : (number, ⟨a, phase⟩) ∈ s.requests) (original : Option (List UInt8)) :
    Calm s (s.probeThumbnail number a original) := by
  rw [Server.probeThumbnail]
  split
  · exact advance h .thumbnailWaiting
  · exact finish s number

end Calm

/-- What a step does: it makes a file, goes on with a deletion, or is calm. -/
inductive Does (s : Server) : FileStep → Server → Prop where
  | calm {e : FileStep} {t : Server} (hcalm : Calm s t) : Does s e t
  | generate {number : ℕ} {image : Option (List UInt8)} {a : Attachment}
      (ha : s.requestIn number .thumbnailGeneration = some a) :
      Does s (.generate number image) (s.derive number a (getThumbnailPath a) image)
  | extract {number : ℕ} {original : Option (List UInt8)} {written : Option ℕ} {a : Attachment}
      (ha : s.requestIn number .clipExtraction = some a) :
      Does s (.extract number original written)
        (s.derive number a (getMotionPath a) (writtenClip original written))
  | delete {id : ℤ} : Does s (.delete id) (s.beginDeletion id)
  | deleteStorage {number : ℕ} {answers : StorageAnswers} {a : Attachment}
      (ha : s.deletionIn number false = some a) :
      Does s (.deleteStorage number answers) (s.deleteStorage number a answers)
  | deleteRow {number : ℕ} {succeeds : Bool} {a : Attachment}
      (ha : s.deletionIn number true = some a) :
      Does s (.deleteRow number succeeds) (s.deleteRow number a succeeds)

/-- What a step does. -/
theorem does_of_step {e : FileStep} (h : s.step e = some t) : Does s e t := by
  cases e with
  | request uid wantThumbnail wantMotion allowed =>
      rcases Option.some.inj h with rfl
      exact .calm (Calm.begin s uid wantThumbnail wantMotion allowed)
  | lookup number read =>
      rw [Server.step] at h
      split at h
      · rename_i a ha
        rcases Option.some.inj h with rfl
        exact .calm (Calm.lookupCached (mem_requestIn ha) _ read _)
      · rcases Option.map_eq_some_iff.mp h with ⟨a, ha, rfl⟩
        exact .calm (Calm.lookupCached (mem_requestIn ha) _ read _)
  | probe number original =>
      rcases Option.map_eq_some_iff.mp h with ⟨a, ha, rfl⟩
      exact .calm (Calm.probeThumbnail (mem_requestIn ha) original)
  | acquire number readable =>
      rcases Option.bind_eq_some_iff.mp h with ⟨a, ha, hacquired⟩
      rw [Server.acquire] at hacquired
      split_ifs at hacquired
      all_goals
        rcases Option.some.inj hacquired with rfl
        exact .calm (Calm.lookupCached (mem_requestIn ha) _ _ _)
  | cancel number =>
      rcases Option.map_eq_some_iff.mp h with ⟨a, -, rfl⟩
      exact .calm (Calm.finish s number)
  | generate number image =>
      rcases Option.map_eq_some_iff.mp h with ⟨a, ha, rfl⟩
      exact .generate ha
  | extract number original written =>
      rcases Option.map_eq_some_iff.mp h with ⟨a, ha, rfl⟩
      exact .extract ha
  | delete id =>
      rcases Option.some.inj h with rfl
      exact .delete
  | deleteStorage number answers =>
      rcases Option.map_eq_some_iff.mp h with ⟨a, ha, rfl⟩
      exact .deleteStorage ha
  | deleteRow number succeeds =>
      rcases Option.map_eq_some_iff.mp h with ⟨a, ha, rfl⟩
      exact .deleteRow ha

/-! ## Rows stay rows -/

/-- Steps that change no file keep to known attachments. -/
theorem known_of_calm (hknown : Known table s) (hcalm : Calm s t) : Known table t where
  attachments := by
    rw [hcalm.attachments]
    exact hknown.attachments
  requests entry hentry := by
    rcases hcalm.requests entry hentry with hrow | ⟨old, hold, hsame⟩
    · exact hknown.attachments _ hrow
    · rw [← hsame]
      exact hknown.requests old hold
  deletions := by
    rw [hcalm.deletions]
    exact hknown.deletions

theorem known_finishDeletion (hknown : Known table s) (number : ℕ) :
    Known table (s.finishDeletion number) :=
  ⟨hknown.attachments, hknown.requests, fun entry h => hknown.deletions entry (of_mem_takeOut h)⟩

theorem known_advanceDeletion {number : ℕ} {a : Attachment} (hknown : Known table s)
    (ha : a ∈ table.rows) : Known table (s.advanceDeletion number a) := by
  refine ⟨hknown.attachments, hknown.requests, fun entry h => ?_⟩
  rcases of_mem_replaceAt h with rfl | hold
  · exact ha
  · exact hknown.deletions entry hold

/-- The files do not matter for the rows. -/
theorem known_of_same (hknown : Known table s) (hattachments : t.attachments = s.attachments)
    (hrequests : t.requests = s.requests) (hdeletions : t.deletions = s.deletions) :
    Known table t := by
  refine ⟨?_, ?_, ?_⟩
  · rw [hattachments]
    exact hknown.attachments
  · rw [hrequests]
    exact hknown.requests
  · rw [hdeletions]
    exact hknown.deletions

theorem known_deleteAttachmentDerivedCaches (hknown : Known table s) (a : Attachment)
    (answers : StorageAnswers) : Known table (s.deleteAttachmentDerivedCaches a answers) := by
  rw [Server.deleteAttachmentDerivedCaches]
  split_ifs <;> exact known_of_same hknown rfl rfl rfl

private theorem known_derive (hknown : Known table s) (number : ℕ) (a : Attachment)
    (path : CachePath)
    (content : Option (List UInt8)) : Known table (s.derive number a path content) := by
  cases content with
  | none => exact known_of_calm hknown (Calm.finish s number)
  | some content =>
      refine known_of_calm ?_ (Calm.finish (s.writeFile path content a) number)
      exact known_of_same hknown rfl rfl rfl

/-- Every step keeps to known attachments. -/
theorem known_does {e : FileStep} (hknown : Known table s) (hdoes : Does s e t) :
    Known table t := by
  cases hdoes with
  | calm hcalm => exact known_of_calm hknown hcalm
  | generate ha | extract ha => exact known_derive hknown _ _ _ _
  | @delete id =>
      rw [Server.beginDeletion]
      split
      · exact hknown
      · rename_i a hfound
        refine ⟨hknown.attachments, hknown.requests, fun entry hentry => ?_⟩
        rcases List.mem_append.mp hentry with hold | hnew
        · exact hknown.deletions entry hold
        · rw [List.mem_singleton.mp hnew]
          exact hknown.attachments a (List.mem_of_find?_eq_some hfound)
  | @deleteStorage number answers a ha =>
      have hrow := hknown.deletions _ (mem_deletionIn ha)
      rw [Server.deleteStorage]
      split
      · exact known_advanceDeletion (known_deleteAttachmentDerivedCaches hknown a answers) hrow
      · split_ifs
        · exact known_finishDeletion hknown number
        · exact known_advanceDeletion hknown hrow
  | @deleteRow number succeeds a ha =>
      have hfinished := known_finishDeletion hknown number
      rw [Server.deleteRow]
      split_ifs
      · exact ⟨fun b hb => hfinished.attachments b (List.mem_filter.mp hb).1, hfinished.requests,
          hfinished.deletions⟩
      · exact hfinished

private theorem known_start (table : AttachmentTable) : Known table (.start table) :=
  ⟨fun _ h => h, fun _ h => absurd h List.not_mem_nil, fun _ h => absurd h List.not_mem_nil⟩

/-! ## What no deletion removes -/

/-- There is one dot in the name that a deletion knows, and there are two in that of a thumbnail. -/
theorem thumbnail_name_ne {a b : Attachment} (hb : UIDMatcher b.UID = true) :
    getThumbnailPath a ≠ ⟨thumbnailCacheFolder, b.UID ++ ".jpeg"⟩ := by
  intro h
  have hnames := congrArg (fun path => path.file.toList.count '.') h
  simp only [getThumbnailPath, String.toList_append, List.count_append] at hnames
  have hnone : b.UID.toList.count '.' = 0 := by
    refine List.count_eq_zero.mpr fun hdot => ?_
    simp only [UIDMatcher, Bool.and_eq_true, List.all_eq_true] at hb
    exact absurd (hb.1.1.2 '.' hdot) (by decide)
  have hthumbnail : ".v2.jpeg".toList.count '.' = 2 := by decide
  have hknown : ".jpeg".toList.count '.' = 1 := by decide
  omega

/-- A file is there under its path. -/
theorem hasFile_iff {path : CachePath} :
    s.hasFile path = true ↔ ∃ file ∈ s.files, file.path = path := by
  simp [Server.hasFile]

/-- Other files stay. -/
theorem hasFile_removeFile {path other : CachePath} (h : s.hasFile path = true)
    (hne : path ≠ other) : (s.removeFile other).hasFile path = true := by
  rcases hasFile_iff.mp h with ⟨file, hfile, hpath⟩
  refine hasFile_iff.mpr ⟨file, List.mem_filter.mpr ⟨hfile, ?_⟩, hpath⟩
  rw [hpath]
  exact decide_eq_true hne

private theorem hasFile_writeFile {path other : CachePath} (h : s.hasFile path = true)
    (content : List UInt8) (a : Attachment) :
    (s.writeFile other content a).hasFile path = true := by
  by_cases hsame : path = other
  · exact hasFile_iff.mpr ⟨_, List.mem_append_right _ List.mem_cons_self, hsame.symm⟩
  · rcases hasFile_iff.mp (hasFile_removeFile h hsame) with ⟨file, hfile, hpath⟩
    exact hasFile_iff.mpr ⟨file, List.mem_append_left _ hfile, hpath⟩

private theorem hasThumbnail_deleteAttachmentDerivedCaches {a b : Attachment}
    (h : s.hasFile (getThumbnailPath a) = true) (hb : UIDMatcher b.UID = true)
    (answers : StorageAnswers) :
    (s.deleteAttachmentDerivedCaches b answers).hasFile (getThumbnailPath a) = true := by
  have hfolders : ThumbnailCacheFolder ≠ motionCacheFolder := by decide
  have hclip : getThumbnailPath a ≠ ⟨motionCacheFolder, b.UID ++ ".mp4"⟩ :=
    fun hsame => hfolders (congrArg CachePath.folder hsame)
  rw [Server.deleteAttachmentDerivedCaches]
  split_ifs
  · exact hasFile_removeFile (hasFile_removeFile h (thumbnail_name_ne hb)) hclip
  · exact hasFile_removeFile h hclip
  · exact hasFile_removeFile h (thumbnail_name_ne hb)
  · exact h

/-- There is a thumbnail of an attachment, on a server with rows of the table. -/
structure HasThumbnail (table : AttachmentTable) (a : Attachment) (s : Server) : Prop where
  known : Known table s
  file : s.hasFile (getThumbnailPath a) = true

private theorem hasThumbnail_step {e : FileStep} {a : Attachment} (hhas : HasThumbnail table a s)
    (hstep : s.step e = some t) : HasThumbnail table a t := by
  have h := hhas.file
  have hdoes := does_of_step hstep
  refine ⟨known_does hhas.known hdoes, ?_⟩
  have hderive (number : ℕ) (b : Attachment) (path : CachePath) (content : Option (List UInt8)) :
      (s.derive number b path content).hasFile (getThumbnailPath a) = true := by
    cases content with
    | none => exact h
    | some content => exact hasFile_writeFile h content b
  cases hdoes with
  | calm hcalm =>
      rw [Server.hasFile, hcalm.files]
      exact h
  | generate | extract => exact hderive _ _ _ _
  | delete =>
      rw [Server.beginDeletion]
      split <;> exact h
  | @deleteStorage number answers b hb =>
      have hrow := table.uids b (hhas.known.deletions _ (mem_deletionIn hb))
      rw [Server.deleteStorage]
      split
      · exact hasThumbnail_deleteAttachmentDerivedCaches h hrow answers
      · split_ifs <;> exact h
  | deleteRow =>
      rw [Server.deleteRow]
      split_ifs <;> exact h

/-- A thumbnail stays, whatever is deleted. -/
theorem thumbnail_stays {steps : List FileStep} {a : Attachment} (hhas : HasThumbnail table a s)
    (hrun : FreeRun Server.step s steps t) : HasThumbnail table a t :=
  hrun.invariant (fun _ _ _ hs _ hstep => hasThumbnail_step hs hstep) hhas

/-! ## Orderly runs -/

/-- Every file has a name that the file server gave it, and none is from an attachment that is
deleted. -/
structure Tidy (table : AttachmentTable) (s : Server) : Prop where
  known : Known table s
  source : ∀ file ∈ s.files, file.source ∈ table.rows
  path : ∀ file ∈ s.files,
    file.path = getThumbnailPath file.source ∨ file.path = getMotionPath file.source
  gone : ∀ file ∈ s.files, ¬s.Passed file.source.ID

/-- No file is new, and where a deletion got further, nothing is left. -/
theorem tidy_of_subset (htidy : Tidy table s) (hknown : Known table t)
    (hfiles : ∀ file ∈ t.files, file ∈ s.files)
    (hpassed : ∀ id, t.Passed id → s.Passed id ∨ ∀ file ∈ t.files, file.source.ID ≠ id) :
    Tidy table t where
  known := hknown
  source file hfile := htidy.source file (hfiles file hfile)
  path file hfile := htidy.path file (hfiles file hfile)
  gone file hfile hgone := by
    rcases hpassed _ hgone with hbefore | hnone
    · exact htidy.gone file (hfiles file hfile) hbefore
    · exact hnone file hfile rfl

/-- Steps that change no file keep the order. -/
theorem tidy_of_calm (htidy : Tidy table s) (hcalm : Calm s t) : Tidy table t := by
  refine tidy_of_subset htidy (known_of_calm htidy.known hcalm) ?_ ?_
  · rw [hcalm.files]
    exact fun _ h => h
  · intro id hpassed
    rw [Server.Passed, hcalm.deleted, hcalm.deletions] at hpassed
    exact Or.inl hpassed

private theorem tidy_writeFile {a : Attachment} {path : CachePath} (htidy : Tidy table s)
    (hrow : a ∈ table.rows) (hpath : path = getThumbnailPath a ∨ path = getMotionPath a)
    (hpassed : ¬s.Passed a.ID) (content : List UInt8) :
    Tidy table (s.writeFile path content a) := by
  have hfile {file : CachedFile} (h : file ∈ (s.writeFile path content a).files) :
      file ∈ s.files ∨ file = ⟨path, content, a⟩ := by
    rcases List.mem_append.mp h with hold | hnew
    · exact Or.inl (List.mem_filter.mp hold).1
    · exact Or.inr (List.mem_singleton.mp hnew)
  refine ⟨known_of_same htidy.known rfl rfl rfl, fun file h => ?_, fun file h => ?_,
    fun file h => ?_⟩
  · rcases hfile h with hold | rfl
    · exact htidy.source file hold
    · exact hrow
  · rcases hfile h with hold | rfl
    · exact htidy.path file hold
    · exact hpath
  · rcases hfile h with hold | rfl
    · exact htidy.gone file hold
    · exact hpassed

/-- A file that is made for an attachment that still has its row keeps the order. -/
theorem tidy_derive {number : ℕ} {a : Attachment} {path : CachePath}
    {content : Option (List UInt8)} (htidy : Tidy table s) (hrow : a ∈ table.rows)
    (hpath : path = getThumbnailPath a ∨ path = getMotionPath a)
    (hpassed : content ≠ none → ¬s.Passed a.ID) : Tidy table (s.derive number a path content) := by
  cases content with
  | none => exact tidy_of_calm htidy (Calm.finish s number)
  | some content =>
      have hwritten := tidy_writeFile htidy hrow hpath (hpassed nofun) content
      exact tidy_of_calm hwritten (Calm.finish _ number)

/-- A deletion that got further, with nothing left of its attachment. -/
theorem tidy_advanceDeletion {number : ℕ} {a : Attachment} (htidy : Tidy table s)
    (hrow : a ∈ table.rows) (hnone : ∀ file ∈ s.files, file.source.ID ≠ a.ID) :
    Tidy table (s.advanceDeletion number a) := by
  refine tidy_of_subset htidy (known_advanceDeletion htidy.known hrow) (fun _ h => h) ?_
  rintro id (hdeleted | ⟨entry, hentry, hdone, hid⟩)
  · exact Or.inl (Or.inl hdeleted)
  · rcases of_mem_replaceAt hentry with rfl | hold
    · rw [← hid]
      exact Or.inr hnone
    · exact Or.inl (Or.inr ⟨entry, hold, hdone, hid⟩)

/-- The end of a deletion keeps the order. -/
theorem tidy_finishDeletion (htidy : Tidy table s) (number : ℕ) :
    Tidy table (s.finishDeletion number) := by
  refine tidy_of_subset htidy (known_finishDeletion htidy.known number) (fun _ h => h) ?_
  rintro id (hdeleted | ⟨entry, hentry, hdone, hid⟩)
  · exact Or.inl (Or.inl hdeleted)
  · exact Or.inl (Or.inr ⟨entry, of_mem_takeOut hentry, hdone, hid⟩)

/-- What is left after the removal of the derived files. -/
theorem mem_of_mem_deleteAttachmentDerivedCaches {a : Attachment} {answers : StorageAnswers}
    {file : CachedFile} (h : file ∈ (s.deleteAttachmentDerivedCaches a answers).files) :
    file ∈ s.files ∧ (answers.clipRemoved = true → file.path ≠ getMotionPath a) := by
  have hremoved {t : Server} {path : CachePath} (h : file ∈ (t.removeFile path).files) :
      file ∈ t.files ∧ file.path ≠ path := by
    rcases List.mem_filter.mp h with ⟨hold, hne⟩
    exact ⟨hold, of_decide_eq_true hne⟩
  rw [Server.deleteAttachmentDerivedCaches] at h
  split_ifs at h with hclip hthumbnail hthumbnail
  · exact ⟨(hremoved (hremoved h).1).1, fun _ => (hremoved h).2⟩
  · exact ⟨(hremoved h).1, fun _ => (hremoved h).2⟩
  · exact ⟨(hremoved h).1, fun hyes => absurd hyes hclip⟩
  · exact ⟨h, fun hyes => absurd hyes hclip⟩

private theorem tidy_deleteAttachmentDerivedCaches (htidy : Tidy table s) (a : Attachment)
    (answers : StorageAnswers) : Tidy table (s.deleteAttachmentDerivedCaches a answers) := by
  refine tidy_of_subset htidy (known_deleteAttachmentDerivedCaches htidy.known a answers)
    (fun file h => (mem_of_mem_deleteAttachmentDerivedCaches h).1) fun id hpassed => Or.inl ?_
  rw [Server.deleteAttachmentDerivedCaches] at hpassed
  split_ifs at hpassed <;> exact hpassed

/-- A file of an attachment is the thumbnail or the clip. -/
theorem hasFile_of_source {a : Attachment} {file : CachedFile} (htidy : Tidy table s)
    (hrow : a ∈ table.rows) (hfile : file ∈ s.files) (hid : file.source.ID = a.ID) :
    file.path = getThumbnailPath a ∧ s.hasFile (getThumbnailPath a) = true ∨
      file.path = getMotionPath a ∧ s.hasFile (getMotionPath a) = true := by
  have hsource := AttachmentTable.eq_of_id (htidy.source file hfile) hrow hid
  rw [← hsource]
  rcases htidy.path file hfile with hpath | hpath
  · exact Or.inl ⟨hpath, hasFile_iff.mpr ⟨file, hfile, hpath⟩⟩
  · exact Or.inr ⟨hpath, hasFile_iff.mpr ⟨file, hfile, hpath⟩⟩

private theorem tidy_deleteStorage {number : ℕ} {a : Attachment} {answers : StorageAnswers}
    (htidy : Tidy table s) (hdeletion : s.deletionIn number false = some a)
    (horderly : s.Orderly (.deleteStorage number answers)) :
    Tidy table (s.deleteStorage number a answers) := by
  have hrow := htidy.known.deletions _ (mem_deletionIn hdeletion)
  have hfiles := horderly a hdeletion
  rw [Server.deleteStorage]
  cases hstorage : deleteAttachmentStorageImpl a answers with
  | ok done =>
      rcases hfiles fun _ => deleteAttachmentStorageImpl_ok_iff.mp hstorage with
        ⟨hthumbnail, hclip⟩
      refine tidy_advanceDeletion (tidy_deleteAttachmentDerivedCaches htidy a answers) hrow
        fun file hfile hid => ?_
      rcases mem_of_mem_deleteAttachmentDerivedCaches hfile with ⟨hold, hremoved⟩
      rcases hasFile_of_source htidy hrow hold hid with ⟨-, hhas⟩ | ⟨hpath, hhas⟩
      · rw [hthumbnail] at hhas
        cases hhas
      · exact hremoved (hclip hhas).2 hpath
  | error err =>
      have hnot : ¬Removable a answers := by
        intro hremovable
        rw [deleteAttachmentStorageImpl_ok_iff.mpr hremovable] at hstorage
        cases hstorage
      dsimp only
      split_ifs with hlocal
      · exact tidy_finishDeletion htidy number
      · rcases hfiles fun h => absurd h hlocal with ⟨hthumbnail, hclip⟩
        refine tidy_advanceDeletion htidy hrow fun file hfile hid => ?_
        rcases hasFile_of_source htidy hrow hfile hid with ⟨-, hhas⟩ | ⟨-, hhas⟩
        · rw [hthumbnail] at hhas
          cases hhas
        · exact hnot (hclip hhas).1

/-- An orderly step leaves nothing of an attachment whose deletion got to the row. -/
theorem tidy_step {e : FileStep} (htidy : Tidy table s) (horderly : s.Orderly e)
    (hstep : s.step e = some t) : Tidy table t := by
  cases does_of_step hstep with
  | calm hcalm => exact tidy_of_calm htidy hcalm
  | generate ha =>
      exact tidy_derive htidy (htidy.known.requests _ (mem_requestIn ha)) (Or.inl rfl)
        fun himage => horderly himage _ ha
  | extract ha =>
      exact tidy_derive htidy (htidy.known.requests _ (mem_requestIn ha)) (Or.inr rfl)
        fun hwritten => horderly hwritten _ ha
  | @delete id =>
      refine tidy_of_subset htidy (known_does htidy.known .delete) ?_ ?_
      · rw [Server.beginDeletion]
        split <;> exact fun _ h => h
      · intro id' hpassed
        rw [Server.beginDeletion] at hpassed
        split at hpassed
        · exact Or.inl hpassed
        · rcases hpassed with hdeleted | ⟨entry, hentry, hdone, hid⟩
          · exact Or.inl (Or.inl hdeleted)
          · rcases List.mem_append.mp hentry with hold | hnew
            · exact Or.inl (Or.inr ⟨entry, hold, hdone, hid⟩)
            · rw [List.mem_singleton.mp hnew] at hdone
              cases hdone
  | deleteStorage ha => exact tidy_deleteStorage htidy ha horderly
  | @deleteRow number succeeds a ha =>
      have hfinished := tidy_finishDeletion htidy number
      cases succeeds with
      | false => exact hfinished
      | true =>
          refine tidy_of_subset htidy (known_does htidy.known (.deleteRow ha)) (fun _ h => h) ?_
          rintro id (hdeleted | ⟨entry, hentry, hdone, hid⟩)
          · rcases List.mem_append.mp hdeleted with hold | hnew
            · exact Or.inl (Or.inl hold)
            · rw [List.mem_singleton.mp hnew]
              exact Or.inl (Or.inr ⟨_, mem_deletionIn ha, rfl, rfl⟩)
          · exact Or.inl (Or.inr ⟨entry, of_mem_takeOut hentry, hdone, hid⟩)

private theorem tidy_start (table : AttachmentTable) : Tidy table (.start table) where
  known := known_start table
  source _ h := absurd h List.not_mem_nil
  path _ h := absurd h List.not_mem_nil
  gone _ h := absurd h List.not_mem_nil

/-- After an orderly run, of any requests and deletions, no file is left of an attachment whose
deletion has succeeded. -/
theorem noDerivedFile_of_run {steps : List FileStep}
    (hrun : Run Server.step Server.Orderly (.start table) steps s) : s.NoDerivedFile := by
  have htidy : Tidy table s :=
    hrun.invariant (fun _ _ _ hs horderly hstep => tidy_step hs horderly hstep) (tidy_start table)
  intro id hdeleted _ file hfile hid
  exact htidy.gone file hfile (Or.inl (hid ▸ hdeleted))

/-- A motion photo in the data directory. -/
def motionPhoto : Attachment where
  ID := 1
  UID := "motion-photo"
  CreatorID := 1
  MediaType := "image/jpeg"
  StorageType := .LOCAL
  Payload := { MotionMedia := some { Family := .ANDROID_MOTION_PHOTO, HasEmbeddedVideo := true } }

def photoTable : AttachmentTable where
  rows := [motionPhoto]
  ids := List.nodup_singleton motionPhoto.ID
  uids a ha := by
    rw [List.mem_singleton.mp ha]
    decide

/-- The beginning of a picture, a marker, and a video of one box. -/
def photoBytes : List UInt8 :=
  [0xff, 0xd8] ++ asciiBytes "MicroVideo=1" ++ [0, 0, 0, 12] ++ asciiBytes "ftypisom"

/-- The clip is made, and the attachment is deleted. -/
def clipThenDeletion : List FileStep :=
  [.request "motion-photo" false true true, .lookup 0 .readable,
    .extract 0 (some photoBytes) (some 12), .delete 1, .deleteStorage 1 {}, .deleteRow 1 true]

theorem noDerivedFile_of_run_clipThenDeletion :
    writtenClip (some photoBytes) (some 12) ≠ none ∧
      ∃ s, Run Server.step Server.Orderly (.start photoTable) clipThenDeletion s ∧
        1 ∈ s.deleted ∧ s.NoDerivedFile := by
  refine ⟨by decide, ?_⟩
  have hrun : ∃ s, Run Server.step Server.Orderly (.start photoTable) clipThenDeletion s ∧
      1 ∈ s.deleted := by
    refine ⟨_, .cons trivial rfl (.cons trivial rfl (.cons ?_ rfl (.cons trivial rfl
      (.cons ?_ rfl (.cons trivial rfl (.nil _)))))), List.mem_cons_self⟩
    · rintro - a - (hdeleted | ⟨entry, hentry, -⟩)
      · cases hdeleted
      · cases hentry
    · intro a ha _
      rcases Option.some.inj ha with rfl
      exact ⟨rfl, fun _ => ⟨deleteAttachmentStorageImpl_ok_iff.mp rfl, rfl⟩⟩
  rcases hrun with ⟨s, hrun, hdeleted⟩
  exact ⟨s, hrun, hdeleted, noDerivedFile_of_run hrun⟩

/-- The thumbnail is made, and the attachment is deleted. -/
def thumbnailThenDeletion : List FileStep :=
  [.request "motion-photo" true false true, .lookup 0 .readable, .probe 0 (some photoBytes),
    .acquire 0 true, .generate 0 (some [0xff, 0xd8]), .delete 1, .deleteStorage 1 {},
    .deleteRow 1 true]

/-- The thumbnail is left, although every answer to the deletion is as it should be. -/
theorem thumbnail_is_left :
    ¬∀ (table : AttachmentTable) (steps : List FileStep) (s : Server),
      FreeRun Server.step (.start table) steps s → s.NoDerivedFile := by
  intro h
  have hleft := h photoTable thumbnailThenDeletion _ (Run.of_exec rfl) 1 List.mem_cons_self
    (fun entry hentry => absurd hentry List.not_mem_nil)
  exact hleft ⟨getThumbnailPath motionPhoto, [0xff, 0xd8], motionPhoto⟩ List.mem_cons_self rfl

end FileServer
end MemosNote
