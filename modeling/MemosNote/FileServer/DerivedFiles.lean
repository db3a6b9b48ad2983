import MemosNote.Library.Keys
import MemosNote.Library.Run
import MemosNote.MotionPhoto.Detection
import MemosNote.Store.InstanceSettings

/-!
# Files derived from attachments

The file server keeps thumbnails and motion clips in two cache directories.  A request looks for the
file it needs, and makes it if there is none; the deletion of an attachment removes what is stored of
it, and files that are named after it, before its row.  Requests and deletions go on side by side.

Main results:

- Definition {lit}`Server.step`: what requests and deletions do to the rows and to the files.
- Theorem {lit}`deleteAttachmentStorageImpl_ok_iff`: when the derived files are reached.
-/

namespace MemosNote
namespace FileServer

open Library Store MotionPhoto

/-! ## Paths -/

/-- A path below the data directory. -/
structure CachePath where
  folder : String
  file : String
deriving DecidableEq, Repr

/-- The folder of the thumbnails. -/
def ThumbnailCacheFolder : String :=
  ".thumbnail_cache"

/-- The folder of the extracted clips. -/
def MotionCacheFolder : String :=
  ".motion_cache"

/-- Where the file server keeps a thumbnail. -/
def getThumbnailPath (a : Attachment) : CachePath :=
  ⟨ThumbnailCacheFolder, a.UID ++ ".v2.jpeg"⟩

/-- Where the file server keeps a motion clip. -/
def getMotionPath (a : Attachment) : CachePath :=
  ⟨MotionCacheFolder, a.UID ++ ".mp4"⟩

/-- The folder of the thumbnails, as the store names it. -/
def thumbnailCacheFolder : String :=
  ".thumbnail_cache"

/-- The folder of the motion clips, as the store names it. -/
def motionCacheFolder : String :=
  ".motion_cache"

/-! ## Which requests need a derived file -/

/-- Where a request is that needs a derived file. -/
inductive Phase where
  | clipLookup
  | clipExtraction
  | thumbnailLookup
  | thumbnailProbe
  | thumbnailWaiting
  | thumbnailGeneration
deriving DecidableEq, Repr

/-- The image types of which thumbnails are made. -/
def thumbnailSupportedTypes : List String :=
  ["image/png", "image/jpeg", "image/jpg", "image/heic", "image/heif", "image/webp"]

/-- Whether a file is a video or a sound. -/
def isMediaType (mimeType : String) : Bool :=
  "video/".toList.isPrefixOf mimeType.toList || "audio/".toList.isPrefixOf mimeType.toList

/-- Only a motion photo with its video inside has a clip to look for. -/
def serveMotionClip (a : Attachment) : Option Phase :=
  match a.Payload.MotionMedia with
  | none => none
  | some motionMedia =>
      if motionMedia.Family ≠ .ANDROID_MOTION_PHOTO || !motionMedia.HasEmbeddedVideo then none
      else some .clipLookup

/-- Only an image has a thumbnail to look for. -/
def serveStaticFile (a : Attachment) (wantThumbnail : Bool) : Option Phase :=
  if wantThumbnail && a.MediaType ∈ thumbnailSupportedTypes then some .thumbnailLookup else none

/-- How a request goes on that may see the attachment; the other ones are over. -/
def serveAttachmentFile (a : Attachment) (wantThumbnail wantMotion : Bool) : Option Phase :=
  if wantMotion then serveMotionClip a
  else if isMediaType a.MediaType then none
  else serveStaticFile a wantThumbnail

/-! ## Thumbnails and clips -/

/-- How many bytes are searched for color data. -/
def thumbnailMetadataProbeSize : ℕ :=
  1048576

/-- How many thumbnails are made at a time. -/
def maxConcurrentThumbnails : ℕ :=
  3

/-- The bytes of a text in ASCII. -/
def asciiBytes (text : String) : List UInt8 :=
  text.toList.map fun c => c.toNat.toUInt8

/-- The text in lower case, as far as ASCII letters come from it; two other letters become ASCII. -/
def lowerText : List UInt8 → List UInt8
  | [] => []
  | 0xc4 :: 0xb0 :: rest => 0x69 :: lowerText rest
  | 0xe2 :: 0x84 :: 0xaa :: rest => 0x6b :: lowerText rest
  | b :: rest => (lowercase b.toNat).toUInt8 :: lowerText rest

/-- Whether a text occurs in the data. -/
def containsText (data : List UInt8) (marker : String) : Bool :=
  data.tails.any fun rest => (asciiBytes marker).isPrefixOf rest

/-- Whether the data speaks of colors that a thumbnail would lose. -/
def hasThumbnailSensitiveMetadata (mimeType : String) (data : List UInt8) : Bool :=
  if mimeType = "image/heic" || mimeType = "image/heif" then true
  else
    ["ICC_PROFILE", "iCCP", "ICCP", "cICP", "mDCv", "cLLi"].any (containsText data) ||
      ["hdrgm:", "hdr gain map", "hdrgainmap", "gainmap", "ultrahdr", "adobe:hdrgainmap",
        "aux:hdr", "auxiliaryimagetype", "display p3", "display-p3", "rec.2020", "bt.2020",
        "arib-std-b67", "smpte st 2084"].any (containsText (lowerText data))

/-- Whether the original is served; it may be that it cannot be read. -/
def shouldUseOriginalForThumbnail (a : Attachment) (original : Option (List UInt8)) :
    Option Bool :=
  if a.MediaType = "image/heic" || a.MediaType = "image/heif" then some true
  else if a.MediaType ≠ "image/jpeg" && a.MediaType ≠ "image/jpg" && a.MediaType ≠ "image/png" &&
      a.MediaType ≠ "image/webp" then some false
  else original.map fun data =>
    hasThumbnailSensitiveMetadata a.MediaType (data.take thumbnailMetadataProbeSize)

/-- The video in the original, if that is read and there is one. -/
def extractedVideo (original : Option (List UInt8)) : Option (List UInt8) :=
  ((original.bind ExtractVideo).map Prod.fst).filter fun video => video ≠ []

/-- What is in the file of a clip: as many bytes of the video as are written once it is open. -/
def writtenClip (original : Option (List UInt8)) (written : Option ℕ) : Option (List UInt8) :=
  (extractedVideo original).bind fun video => written.map fun n => video.take n

/-! ## Deleting what is stored -/

/-- What the systems answer to a deletion: whether the local file is removed or missing, what the
setting of the instance is if it can be read, whether the object is deleted, and whether the derived
files are removed. -/
structure StorageAnswers where
  failpoint : Bool := false
  localRemoved : Bool := true
  instanceSetting : Option InstanceStorageSetting := some {}
  s3Client : Bool := true
  s3Deleted : Bool := true
  thumbnailRemoved : Bool := true
  clipRemoved : Bool := true
deriving DecidableEq, Repr

/-- The configuration with which an object is deleted. -/
def s3ConfigOf (object : S3Object) (answers : StorageAnswers) : Except String StorageS3Config :=
  match object.S3Config with
  | some config => .ok config
  | none =>
      match answers.instanceSetting with
      | none => .error "failed to get instance storage setting"
      | some setting =>
          match setting.S3Config with
          | none => .error "S3 config is not found"
          | some config => .ok config

/-- What is done in front of the derived files; the errors are without those they wrap. -/
def deleteAttachmentStorageImpl (a : Attachment) (answers : StorageAnswers) : Except String Unit :=
  if answers.failpoint then .error "delete attachment storage failpoint"
  else if a.StorageType = .LOCAL then
    if answers.localRemoved then .ok () else .error "failed to delete local file"
  else if a.StorageType = .S3 then
    match a.Payload.S3Object with
    | none => .error "No s3 object found"
    | some object =>
        match s3ConfigOf object answers with
        | .error err => .error err
        | .ok _ =>
            if answers.s3Client then
              if answers.s3Deleted then .ok () else .error "Failed to delete s3 object"
            else .error "Failed to create s3 client"
  else .ok ()

/-- What is stored of an attachment can be removed. -/
structure Removable (a : Attachment) (answers : StorageAnswers) : Prop where
  failpoint : answers.failpoint = false
  localFile : a.StorageType = .LOCAL → answers.localRemoved = true
  object : a.StorageType = .S3 → ∃ object, a.Payload.S3Object = some object ∧
    (object.S3Config ≠ none ∨
      ∃ setting, answers.instanceSetting = some setting ∧ setting.S3Config ≠ none) ∧
    answers.s3Client = true ∧ answers.s3Deleted = true

/-! ## The server -/

/-- A file in a cache directory, with the attachment it was made from. -/
structure CachedFile where
  path : CachePath
  content : List UInt8
  source : Attachment
deriving DecidableEq, Repr

/-- A request with the row that it read. -/
structure FileRequest where
  attachment : Attachment
  phase : Phase
deriving DecidableEq, Repr

/-- A deletion with the row that it read. -/
structure Deletion where
  attachment : Attachment
  storageDone : Bool := false
deriving DecidableEq, Repr

/-- The rows, the files, the requests and deletions that are not over, by their numbers, and the
attachments whose deletion has succeeded. -/
structure Server where
  attachments : List Attachment
  files : List CachedFile := []
  requests : List (ℕ × FileRequest) := []
  deletions : List (ℕ × Deletion) := []
  deleted : List ℤ := []
  next : ℕ := 0
deriving DecidableEq, Repr

/-- How a file is looked for: its folder cannot be made, the file cannot be read, or can be read if
it is there. -/
inductive CacheRead where
  | noFolder
  | unreadable
  | readable
deriving DecidableEq, Repr

/-- The steps, with what comes from outside: whether a request may see the attachment, the original
as far as it is read, and what reaches a file.  A request that waits may also be cancelled. -/
inductive FileStep where
  | request (uid : String) (wantThumbnail wantMotion allowed : Bool)
  | lookup (number : ℕ) (read : CacheRead)
  | probe (number : ℕ) (original : Option (List UInt8))
  | acquire (number : ℕ) (readable : Bool)
  | cancel (number : ℕ)
  | generate (number : ℕ) (image : Option (List UInt8))
  | extract (number : ℕ) (original : Option (List UInt8)) (written : Option ℕ)
  | delete (id : ℤ)
  | deleteStorage (number : ℕ) (answers : StorageAnswers)
  | deleteRow (number : ℕ) (succeeds : Bool)
deriving DecidableEq, Repr

namespace Server

/-- Whether a cached file is there. -/
def hasFile (s : Server) (path : CachePath) : Bool :=
  s.files.any fun file => file.path = path

/-- Write a cached file, with the attachment that it was made from. -/
def writeFile (s : Server) (path : CachePath) (content : List UInt8) (a : Attachment) : Server :=
  { s with files := s.files.filter (fun file => file.path ≠ path) ++ [⟨path, content, a⟩] }

/-- Remove a cached file. -/
def removeFile (s : Server) (path : CachePath) : Server :=
  { s with files := s.files.filter fun file => file.path ≠ path }

/-- What a deletion removes; removing either file may fail. -/
def deleteAttachmentDerivedCaches (s : Server) (a : Attachment) (answers : StorageAnswers) :
    Server :=
  let s := if answers.thumbnailRemoved then s.removeFile ⟨thumbnailCacheFolder, a.UID ++ ".jpeg"⟩
    else s
  if answers.clipRemoved then s.removeFile ⟨motionCacheFolder, a.UID ++ ".mp4"⟩ else s

/-- The request is answered. -/
def finish (s : Server) (number : ℕ) : Server :=
  { s with requests := takeOut number s.requests }

/-- Bring a request to its next phase. -/
def advance (s : Server) (number : ℕ) (a : Attachment) (phase : Phase) : Server :=
  { s with requests := replaceAt number ⟨a, phase⟩ s.requests }

/-- The deletion is over. -/
def finishDeletion (s : Server) (number : ℕ) : Server :=
  { s with deletions := takeOut number s.deletions }

/-- Bring a deletion to its second part. -/
def advanceDeletion (s : Server) (number : ℕ) (a : Attachment) : Server :=
  { s with deletions := replaceAt number ⟨a, true⟩ s.deletions }

/-- A request arrives, and looks up the attachment. -/
def begin (s : Server) (uid : String) (wantThumbnail wantMotion allowed : Bool) : Server :=
  match s.attachments.find? fun a => a.UID = uid with
  | none => s
  | some a =>
      if allowed then
        match serveAttachmentFile a wantThumbnail wantMotion with
        | none => s
        | some phase =>
            { s with requests := s.requests ++ [(s.next, ⟨a, phase⟩)], next := s.next + 1 }
      else s

/-- Look for the cached file: it is served, or has to be made. -/
def lookupCached (s : Server) (number : ℕ) (a : Attachment) (path : CachePath) (read : CacheRead)
    (phase : Phase) : Server :=
  match read with
  | .noFolder => s.finish number
  | .unreadable => s.advance number a phase
  | .readable => if s.hasFile path then s.finish number else s.advance number a phase

/-- Look into the original, which may be served in the place of a thumbnail. -/
def probeThumbnail (s : Server) (number : ℕ) (a : Attachment) (original : Option (List UInt8)) :
    Server :=
  match shouldUseOriginalForThumbnail a original with
  | some false => s.advance number a .thumbnailWaiting
  | _ => s.finish number

/-- The thumbnails that are being generated. -/
def generating (s : Server) : ℕ :=
  s.requests.countP fun entry => entry.2.phase = .thumbnailGeneration

/-- Wait for a free place, and look for the file again. -/
def acquire (s : Server) (number : ℕ) (a : Attachment) (readable : Bool) : Option Server :=
  if s.generating < maxConcurrentThumbnails then
    some (s.lookupCached number a (getThumbnailPath a) (if readable then .readable else .unreadable)
      .thumbnailGeneration)
  else none

/-- The file is made, if there is something to make it from and it can be opened. -/
def derive (s : Server) (number : ℕ) (a : Attachment) (path : CachePath)
    (content : Option (List UInt8)) : Server :=
  match content with
  | none => s.finish number
  | some content => (s.writeFile path content a).finish number

/-- A deletion arrives, and looks up the attachment. -/
def beginDeletion (s : Server) (id : ℤ) : Server :=
  match s.attachments.find? fun a => a.ID = id with
  | none => s
  | some a => { s with deletions := s.deletions ++ [(s.next, ⟨a, false⟩)], next := s.next + 1 }

/-- An error is returned for a local file only. -/
def deleteStorage (s : Server) (number : ℕ) (a : Attachment) (answers : StorageAnswers) : Server :=
  match deleteAttachmentStorageImpl a answers with
  | .ok _ => (s.deleteAttachmentDerivedCaches a answers).advanceDeletion number a
  | .error _ =>
      if a.StorageType = .LOCAL then s.finishDeletion number else s.advanceDeletion number a

/-- The row is deleted, or the deletion fails. -/
def deleteRow (s : Server) (number : ℕ) (a : Attachment) (succeeds : Bool) : Server :=
  if succeeds then
    { s.finishDeletion number with
      attachments := s.attachments.filter fun b => b.ID ≠ a.ID
      deleted := s.deleted ++ [a.ID] }
  else s.finishDeletion number

/-- The request with a number, in one of the phases. -/
def requestIn (s : Server) (number : ℕ) (phase : Phase) : Option Attachment :=
  (s.requests.lookup number).bind fun request =>
    if request.phase = phase then some request.attachment else none

/-- The deletion with a number, before or after what is stored is deleted. -/
def deletionIn (s : Server) (number : ℕ) (storageDone : Bool) : Option Attachment :=
  (s.deletions.lookup number).bind fun deletion =>
    if deletion.storageDone = storageDone then some deletion.attachment else none

/-- One step of the server; some are not possible in every state. -/
def step (s : Server) : FileStep → Option Server
  | .request uid wantThumbnail wantMotion allowed =>
      some (s.begin uid wantThumbnail wantMotion allowed)
  | .lookup number read =>
      match s.requestIn number .clipLookup with
      | some a => some (s.lookupCached number a (getMotionPath a) read .clipExtraction)
      | none =>
          (s.requestIn number .thumbnailLookup).map fun a =>
            s.lookupCached number a (getThumbnailPath a) read .thumbnailProbe
  | .probe number original =>
      (s.requestIn number .thumbnailProbe).map fun a => s.probeThumbnail number a original
  | .acquire number readable =>
      (s.requestIn number .thumbnailWaiting).bind fun a => s.acquire number a readable
  | .cancel number => (s.requestIn number .thumbnailWaiting).map fun _ => s.finish number
  | .generate number image =>
      (s.requestIn number .thumbnailGeneration).map fun a =>
        s.derive number a (getThumbnailPath a) image
  | .extract number original written =>
      (s.requestIn number .clipExtraction).map fun a =>
        s.derive number a (getMotionPath a) (writtenClip original written)
  | .delete id => some (s.beginDeletion id)
  | .deleteStorage number answers =>
      (s.deletionIn number false).map fun a => s.deleteStorage number a answers
  | .deleteRow number succeeds =>
      (s.deletionIn number true).map fun a => s.deleteRow number a succeeds

end Server

/-! ## Spec lemmas -/

theorem s3ConfigOf_ok_iff {object : S3Object} {answers : StorageAnswers} :
    (∃ config, s3ConfigOf object answers = .ok config) ↔ object.S3Config ≠ none ∨
      ∃ setting, answers.instanceSetting = some setting ∧ setting.S3Config ≠ none := by
  rw [s3ConfigOf]
  cases hobject : object.S3Config with
  | some config => simp
  | none =>
      cases hsetting : answers.instanceSetting with
      | none => simp
      | some setting =>
          dsimp only
          cases hconfig : setting.S3Config with
          | none => simp [hconfig]
          | some config => simp [hconfig]

/-- The derived files are reached if and only if what is stored can be removed. -/
theorem deleteAttachmentStorageImpl_ok_iff {a : Attachment} {answers : StorageAnswers} :
    deleteAttachmentStorageImpl a answers = .ok () ↔ Removable a answers := by
  rw [deleteAttachmentStorageImpl]
  by_cases hfail : answers.failpoint = true
  · rw [if_pos hfail]
    constructor
    · intro h
      cases h
    · intro h
      rw [h.failpoint] at hfail
      cases hfail
  rw [if_neg hfail]
  have hfail' : answers.failpoint = false := Bool.eq_false_iff.mpr hfail
  by_cases hlocal : a.StorageType = .LOCAL
  · rw [if_pos hlocal]
    have hother : a.StorageType ≠ .S3 := by
      rw [hlocal]
      exact nofun
    cases hremoved : answers.localRemoved with
    | true => exact ⟨fun _ => ⟨hfail', fun _ => hremoved, fun h => absurd h hother⟩, fun _ => rfl⟩
    | false =>
        constructor
        · intro h
          cases h
        · intro h
          have hyes := h.localFile hlocal
          rw [hremoved] at hyes
          cases hyes
  rw [if_neg hlocal]
  by_cases hs3 : a.StorageType = .S3
  · rw [if_pos hs3]
    constructor
    · intro h
      refine ⟨hfail', fun h => absurd h hlocal, fun _ => ?_⟩
      split at h
      · cases h
      · rename_i object hobject
        split at h
        · cases h
        · rename_i config hconfig
          split_ifs at h with hclient hdeleted
          exact ⟨object, hobject, s3ConfigOf_ok_iff.mp ⟨config, hconfig⟩, hclient, hdeleted⟩
    · intro h
      rcases h.object hs3 with ⟨object, hobject, hconfig, hclient, hdeleted⟩
      rcases s3ConfigOf_ok_iff.mpr hconfig with ⟨config, hconfig⟩
      simp only [hobject, hconfig, hclient, hdeleted, if_true]
  · rw [if_neg hs3]
    exact ⟨fun _ => ⟨hfail', fun h => absurd h hlocal, fun h => absurd h hs3⟩, fun _ => rfl⟩

end FileServer
end MemosNote
