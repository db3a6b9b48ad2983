import MemosNote.Api.MemoReading
import MemosNote.Runner.S3Presign

/-!
# Pages of attachments

The attachments of a user are listed page by page, and the attachments in S3 are visited batch by
batch to sign their links again.  Both go by offsets, and the database orders attachments by their
times only, so it may return attachments of one time in another order for each page.

Main results:

- Theorem {lit}`listsAll_iff`: when the pages show every attachment of the user once.
- Theorem {lit}`visitsAll_iff`: when the batches show every attachment in S3.
- Theorem {lit}`attachment_pages_iff`: both.
-/

namespace MemosNote
namespace Api

open Library Library.Page Store

/-! ## Listing attachments -/

structure ListAttachmentsRequest where
  PageSize : ℤ := 0
  PageToken : String := ""
  Filter : String := ""
deriving DecidableEq, Repr

structure ListAttachmentsResponse where
  Attachments : List AttachmentMessage := []
  NextPageToken : String := ""
  TotalSize : ℤ := 0
deriving DecidableEq, Repr

/-- The service of one request: the store, the user who asks, and the compiler of filters. -/
structure AttachmentService where
  engine : StoreEngine
  currentUser : Except String (Option User)
  compileToStatement : String → Except String Unit

/-- The size of the pages, for a requested one. -/
def attachmentPageSize (pageSize : ℤ) : ℕ :=
  if pageSize ≤ 0 then 50 else if 1000 < pageSize then 1000 else pageSize.toNat

/-- White space in front of a number that is scanned. -/
def isScanSpace (c : Char) : Bool :=
  let n := c.toNat
  n = 0x09 || 0x0b ≤ n && n ≤ 0x0d || n = 0x20 || n = 0x85 || n = 0xa0 || n = 0x1680 ||
    0x2000 ≤ n && n ≤ 0x200a || n = 0x2028 || n = 0x2029 || n = 0x202f || n = 0x205f || n = 0x3000

def scanDigits (text : List Char) : Option ℕ :=
  let digits := text.takeWhile Char.isDigit
  if digits = [] then none else some (Nat.ofDigitChars 10 digits 0)

/-- The number that a token begins with; no table has so many rows that it overflows. -/
def scanOffset (token : String) : Option ℤ :=
  match token.toList.dropWhile isScanSpace with
  | '-' :: rest => (scanDigits rest).map fun n => -(n : ℤ)
  | '+' :: rest => (scanDigits rest).map Int.ofNat
  | rest => (scanDigits rest).map Int.ofNat

namespace AttachmentService

variable (svc : AttachmentService)

def validateAttachmentFilter (filter : String) : Except String Unit :=
  if filter = "" then .error "filter cannot be empty"
  else (svc.compileToStatement filter).mapError ("failed to compile filter: " ++ ·)

def parseOffset (token : String) : Except Failure ℤ :=
  if token = "" then .ok 0
  else
    match scanOffset token with
    | none => .error (.status .InvalidArgument "invalid page token")
    | some offset => .ok offset

def ListAttachments (request : ListAttachmentsRequest) : ApiM ListAttachmentsResponse := do
  let user ← Effect.ofExcept (svc.currentUser.mapError fun err =>
    .status .Internal ("failed to get current user: " ++ err))
  match user with
  | none => Effect.fail (.status .Unauthenticated "user not authenticated")
  | some user => do
      let pageSize := attachmentPageSize request.PageSize
      let offset ← Effect.ofExcept (parseOffset request.PageToken)
      if request.Filter ≠ "" then
        Effect.ofExcept ((svc.validateAttachmentFilter request.Filter).mapError fun err =>
          .status .InvalidArgument ("invalid filter: " ++ err))
      let attachments ← withStatus .Internal ("failed to list attachments: " ++ ·)
        (svc.engine.listAttachments {
          CreatorID := some user.ID
          Limit := some pageSize
          Offset := some offset
          Filters := if request.Filter = "" then [] else [request.Filter] })
      Effect.read fun db =>
        { Attachments := attachments.map (convertAttachmentFromStore db)
          TotalSize := attachments.length
          NextPageToken :=
            if attachments.length = pageSize then toString (offset + pageSize) else "" }

/-- The service of a later request; the database may order attachments of one time anew. -/
def ordered (order : AttachmentOrder) : AttachmentService :=
  { svc with engine := { svc.engine with attachmentOrder := order } }

/-- A client asks for a page, and for the next one if there is a token. -/
def followToken (orders : ℕ → AttachmentOrder) (pageSize : ℤ) (db : Tables) (s : ℕ × String) :
    Option (List AttachmentMessage × Option (ℕ × String)) :=
  match ((svc.ordered (orders s.1)).ListAttachments
      { PageSize := pageSize, PageToken := s.2 } db).1 with
  | .error _ => none
  | .ok response => some (response.Attachments,
      if response.NextPageToken = "" then none else some (s.1 + 1, response.NextPageToken))

end AttachmentService

/-! ## Tokens -/

private theorem isScanSpace_of_isDigit {c : Char} (h : c.isDigit = true) :
    isScanSpace c = false := by
  have hrange : 48 ≤ c.toNat ∧ c.toNat ≤ 57 := by
    simp only [Char.isDigit, Bool.and_eq_true, decide_eq_true_eq, UInt32.le_iff_toNat_le] at h
    exact h
  simp only [isScanSpace, Bool.or_eq_false_iff, Bool.and_eq_false_iff, decide_eq_false_iff_not]
  omega

/-- The number in a token is scanned. -/
theorem scanOffset_toString (n : ℕ) : scanOffset (toString n) = some (n : ℤ) := by
  have hlist : (toString n).toList = Nat.toDigits 10 n := by simp
  have hdigit : ∀ c ∈ Nat.toDigits 10 n, c.isDigit = true := fun c hc =>
    Nat.isDigit_of_mem_toDigits (by decide) (by decide) hc
  have hsome : Nat.toDigits 10 n ≠ [] := Nat.toDigits_ne_nil
  have hscan : scanDigits (Nat.toDigits 10 n) = some n := by
    rw [scanDigits, List.takeWhile_eq_self_iff.mpr hdigit, if_neg hsome,
      Nat.ofDigitChars_ten_toDigits]
  rw [scanOffset, hlist]
  generalize Nat.toDigits 10 n = digits at hdigit hsome hscan
  cases digits with
  | nil => exact absurd rfl hsome
  | cons c rest =>
      have hc := hdigit c List.mem_cons_self
      rw [List.dropWhile_cons_of_neg (by rw [isScanSpace_of_isDigit hc]; exact nofun)]
      have hminus : c ≠ '-' := by
        rintro rfl
        exact absurd hc (by decide)
      have hplus : c ≠ '+' := by
        rintro rfl
        exact absurd hc (by decide)
      split
      · rename_i heq
        exact absurd (List.cons.inj heq).1 hminus
      · rename_i heq
        exact absurd (List.cons.inj heq).1 hplus
      · rw [hscan]
        rfl

namespace AttachmentService

variable {svc : AttachmentService} {user : User} {db : Tables}

theorem toString_ne_empty (n : ℕ) : toString (n : ℤ) ≠ "" := by
  intro h
  have hscan := scanOffset_toString n
  have hnone : scanOffset "" = none := by decide
  rw [show toString n = "" from h, hnone] at hscan
  cases hscan

private theorem parseOffset_toString (n : ℕ) : parseOffset (toString (n : ℤ)) = .ok (n : ℤ) := by
  rw [parseOffset, if_neg (toString_ne_empty n),
    show scanOffset (toString (n : ℤ)) = some (n : ℤ) from scanOffset_toString n]

/-- The attachments that a user has created. -/
def userAttachments (user : User) (db : Tables) : List Attachment :=
  db.attachments.filter fun a => a.CreatorID = user.ID

/-- The attachments of a page. -/
def attachmentsAt (svc : AttachmentService) (user : User) (pageSize : ℤ) (db : Tables)
    (offset : ℕ) : List Attachment :=
  page offset (attachmentPageSize pageSize)
    (svc.engine.attachmentOrder.sort (userAttachments user db))

private theorem ListAttachments_eq (huser : svc.currentUser = .ok (some user)) {token : String}
    {offset : ℕ} (htoken : parseOffset token = .ok (offset : ℤ)) (pageSize : ℤ) (db : Tables) :
    svc.ListAttachments { PageSize := pageSize, PageToken := token } db =
      (.ok {
        Attachments := (svc.attachmentsAt user pageSize db offset).map (convertAttachmentFromStore db)
        TotalSize := (svc.attachmentsAt user pageSize db offset).length
        NextPageToken :=
          if (svc.attachmentsAt user pageSize db offset).length = attachmentPageSize pageSize then
            toString ((offset : ℤ) + attachmentPageSize pageSize)
          else "" }, db) := by
  have hlist : svc.engine.listAttachments {
      CreatorID := some user.ID
      Limit := some (attachmentPageSize pageSize)
      Offset := some offset
      Filters := [] } db = (.ok (svc.attachmentsAt user pageSize db offset), db) := by
    rw [listAttachments_page rfl rfl rfl]
    simp [FindAttachment.matchesAttachment, attachmentsAt, userAttachments]
  rw [ListAttachments, huser, htoken]
  simp only [Except.mapError, Effect.ofExcept, Effect.pure_bind, ne_eq, not_true_eq_false, if_false,
    if_true]
  have hpage : withStatus .Internal (fun err => "failed to list attachments: " ++ err)
      (svc.engine.listAttachments {
        CreatorID := some user.ID
        Limit := some (attachmentPageSize pageSize)
        Offset := some offset }) db = (.ok (svc.attachmentsAt user pageSize db offset), db) := by
    rw [withStatus, Effect.mapError, hlist]
    rfl
  rw [Effect.bind_of_ok hpage]
  rfl

/-! ## Following the tokens -/

/-- The token of a page. -/
def tokenAt (size k : ℕ) : String :=
  if k = 0 then "" else toString ((k * size : ℕ) : ℤ)

private theorem parseOffset_tokenAt (size k : ℕ) :
    parseOffset (tokenAt size k) = .ok ((k * size : ℕ) : ℤ) := by
  rw [tokenAt]
  split_ifs with hk
  · rw [hk, Nat.zero_mul]
    rfl
  · exact parseOffset_toString (k * size)

theorem attachmentPageSize_pos (pageSize : ℤ) : 0 < attachmentPageSize pageSize := by
  rw [attachmentPageSize]
  split_ifs <;> omega

/-- The pages that a client gets, with the orders of the database. -/
def pagesOf (user : User) (pageSize : ℤ) (db : Tables) (orders : ℕ → AttachmentOrder) :
    List (List Attachment) :=
  pages (attachmentPageSize pageSize) (fun i => (orders i).sort (userAttachments user db))
    ((userAttachments user db).length / attachmentPageSize pageSize + 1)

theorem followToken_eq (huser : svc.currentUser = .ok (some user)) (orders : ℕ → AttachmentOrder)
    (pageSize : ℤ) (db : Tables) (k : ℕ) :
    svc.followToken orders pageSize db (k, tokenAt (attachmentPageSize pageSize) k) =
      some ((page (k * attachmentPageSize pageSize) (attachmentPageSize pageSize)
          ((orders k).sort (userAttachments user db))).map (convertAttachmentFromStore db),
        if (k + 1) * attachmentPageSize pageSize ≤ (userAttachments user db).length then
          some (k + 1, tokenAt (attachmentPageSize pageSize) (k + 1))
        else none) := by
  have hresponse := @ListAttachments_eq (svc.ordered (orders k)) user huser _ _
    (parseOffset_tokenAt (attachmentPageSize pageSize) k) pageSize db
  have hlength := ((orders k).perm (userAttachments user db)).length_eq
  have hpos := attachmentPageSize_pos pageSize
  have hfull : (page (k * attachmentPageSize pageSize) (attachmentPageSize pageSize)
      ((orders k).sort (userAttachments user db))).length = attachmentPageSize pageSize ↔
      (k + 1) * attachmentPageSize pageSize ≤ (userAttachments user db).length := by
    rw [length_page, hlength, Nat.succ_mul]
    omega
  have htoken : toString (((k * attachmentPageSize pageSize : ℕ) : ℤ) + attachmentPageSize pageSize) =
      tokenAt (attachmentPageSize pageSize) (k + 1) := by
    rw [tokenAt, if_neg (Nat.succ_ne_zero k), Nat.succ_mul, Int.natCast_add]
  have hsome : tokenAt (attachmentPageSize pageSize) (k + 1) ≠ "" := by
    rw [tokenAt, if_neg (Nat.succ_ne_zero k)]
    exact toString_ne_empty _
  have hat : (svc.ordered (orders k)).attachmentsAt user pageSize db
      (k * attachmentPageSize pageSize) = page (k * attachmentPageSize pageSize)
        (attachmentPageSize pageSize) ((orders k).sort (userAttachments user db)) := rfl
  rw [followToken, hresponse, hat, htoken]
  dsimp only
  by_cases hnext : (k + 1) * attachmentPageSize pageSize ≤ (userAttachments user db).length
  · rw [if_pos (hfull.mpr hnext), if_neg hsome, if_pos hnext]
  · rw [if_neg fun h => hnext (hfull.mp h), if_pos rfl, if_neg hnext]

/-- Following the tokens ends, and shows every attachment of the user exactly once, whatever the
orders are. -/
def ListsAll (svc : AttachmentService) (user : User) (pageSize : ℤ) (db : Tables) : Prop :=
  ∀ orders : ℕ → AttachmentOrder, ∃ turns responses,
    collect (svc.followToken orders pageSize db) turns (0, "") = some responses ∧
      responses.flatten.Perm ((userAttachments user db).map (convertAttachmentFromStore db))

/-- Following the tokens shows the pages. -/
theorem collect_pagesOf (huser : svc.currentUser = .ok (some user)) (orders : ℕ → AttachmentOrder)
    (pageSize : ℤ) (db : Tables) :
    ∃ turns, collect (svc.followToken orders pageSize db) turns (0, "") =
      some ((pagesOf user pageSize db orders).map
        (List.map (convertAttachmentFromStore db))) := by
  have hpos := attachmentPageSize_pos pageSize
  have hrounds : Rounds (svc.followToken orders pageSize db)
      (fun k s => s = (k, tokenAt (attachmentPageSize pageSize) k))
      (fun k attachments => attachments =
        (page (k * attachmentPageSize pageSize) (attachmentPageSize pageSize)
          ((orders k).sort (userAttachments user db))).map (convertAttachmentFromStore db))
      ((userAttachments user db).length / attachmentPageSize pageSize) := by
    constructor
    · rintro k s hk rfl
      have hnext := (Nat.le_div_iff_mul_le hpos).mp (Nat.succ_le_of_lt hk)
      exact ⟨_, _, (followToken_eq huser orders pageSize db k).trans (by rw [if_pos hnext]), rfl, rfl⟩
    · rintro s rfl
      have hlast : ¬((userAttachments user db).length / attachmentPageSize pageSize + 1) *
          attachmentPageSize pageSize ≤ (userAttachments user db).length :=
        Nat.not_le.mpr ((Nat.div_lt_iff_lt_mul hpos).mp (Nat.lt_succ_self _))
      exact ⟨_, (followToken_eq huser orders pageSize db _).trans (by rw [if_neg hlast]), rfl⟩
  refine ⟨_, (collect_eq_map hrounds rfl).trans ?_⟩
  rw [pagesOf, pages, List.map_map]
  rfl

private theorem nodup_userAttachments (user : User) (db : Tables) :
    (userAttachments user db).Nodup :=
  (List.Nodup.of_map _ db.attachmentUIDs_nodup).filter _

/-- The messages of different attachments have different names. -/
theorem nodup_messages (user : User) (db : Tables) :
    ((userAttachments user db).map (convertAttachmentFromStore db)).Nodup := by
  refine List.Nodup.map_on (fun a ha b hb hsame => ?_) (nodup_userAttachments user db)
  have hname := congrArg AttachmentMessage.Name hsame
  exact List.inj_on_of_nodup_map db.attachmentUIDs_nodup (List.mem_of_mem_filter ha)
    (List.mem_of_mem_filter hb) ((String.append_right_inj attachmentNamePrefix).mp hname)

/-- The pages show every attachment once, whatever the orders are, if and only if no attachments of
one time are on two pages. -/
theorem listsAll_iff (huser : svc.currentUser = .ok (some user)) {pageSize : ℤ} :
    svc.ListsAll user pageSize db ↔
      ¬Cut Attachment.UpdatedTs (attachmentPageSize pageSize) (userAttachments user db) := by
  have hcount : (userAttachments user db).length ≤
      ((userAttachments user db).length / attachmentPageSize pageSize + 1) *
        attachmentPageSize pageSize :=
    ((Nat.div_lt_iff_lt_mul (attachmentPageSize_pos pageSize)).mp (Nat.lt_succ_self _)).le
  constructor
  · intro hlists hcut
    rcases exists_pages_repeat hcut with ⟨lists, hsorted, hrepeat⟩
    rcases exists_order hsorted with ⟨orders, horders⟩
    rcases hlists orders with ⟨turns, responses, hresponses, hperm⟩
    rcases collect_pagesOf huser orders pageSize db with ⟨turns', hpages⟩
    rw [collect_unique hresponses hpages, ← List.map_flatten] at hperm
    have hnodup := List.Nodup.of_map _ (hperm.nodup_iff.mpr (nodup_messages user db))
    simp only [pagesOf, horders] at hnodup
    exact hrepeat _ hcount hnodup
  · intro hcut orders
    rcases collect_pagesOf huser orders pageSize db with ⟨turns, hpages⟩
    refine ⟨turns, _, hpages, ?_⟩
    rw [← List.map_flatten]
    exact (pages_perm hcut (fun i => (orders i).sorting (userAttachments user db)) hcount).map _

end AttachmentService

/-! ## Both scans -/

open AttachmentService Runner

/-- Both scans lose nothing if and only if attachments of one time are never on two pages. -/
theorem attachment_pages_iff (svc : AttachmentService) (user : User) (pageSize : ℤ)
    (setting : InstanceStorageSetting) (db : Tables)
    (huser : svc.currentUser = .ok (some user)) :
    svc.ListsAll user pageSize db ∧ VisitsAll svc.engine setting db ↔
      ¬Cut Attachment.UpdatedTs (attachmentPageSize pageSize) (userAttachments user db) ∧
        ¬Cut Attachment.UpdatedTs batchSize (s3Attachments db) :=
  and_congr (listsAll_iff huser) visitsAll_iff

/-- Photos in S3, with their times. -/
def photosAt (times : ℕ → ℤ) (n : ℕ) : Tables where
  users := [{ ID := 1, Username := "ada" }]
  attachments := (List.range n).map fun i : ℕ =>
    { ID := i, UID := toString i, CreatorID := 1, UpdatedTs := times i, StorageType := .S3 }
  inboxes := []
  memoSequence := n
  memoSequence_nonneg := Int.natCast_nonneg n
  memoIDs := fun memo hmemo => absurd hmemo List.not_mem_nil
  memoIDs_nodup := List.nodup_nil
  memoUIDs_nodup := List.nodup_nil
  memoRelations_nodup := List.nodup_nil
  attachmentIDs_nodup := by
    rw [List.map_map]
    exact List.nodup_range.map fun i j h => Int.ofNat.inj h
  attachmentUIDs_nodup := by
    rw [List.map_map]
    refine List.nodup_range.map fun i j h => ?_
    have hscan := congrArg scanOffset h
    dsimp only [Function.comp_apply] at hscan
    rw [scanOffset_toString, scanOffset_toString] at hscan
    exact Int.ofNat.inj (Option.some.inj hscan)
  inboxIDs_nodup := List.nodup_nil

def photoService : AttachmentService where
  engine := .plain
  currentUser := .ok (some { ID := 1, Username := "ada" })
  compileToStatement _ := .ok ()

theorem attachment_pages_iff_distinctTimes :
    photoService.ListsAll { ID := 1, Username := "ada" } 0 (photosAt (fun i => i) 101) ∧
      VisitsAll photoService.engine {} (photosAt (fun i => i) 101) := by
  have htimes : ((photosAt (fun i => i) 101).attachments.map Attachment.UpdatedTs).Nodup := by
    rw [photosAt, List.map_map]
    exact List.nodup_range.map fun i j h => Int.ofNat.inj h
  exact (attachment_pages_iff photoService { ID := 1, Username := "ada" } 0 {}
    (photosAt (fun i => i) 101) rfl).mpr
    ⟨not_cut_of_nodup (htimes.sublist (List.filter_sublist.map _)),
      not_cut_of_nodup (htimes.sublist (List.filter_sublist.map _))⟩

/-- Of 101 photos of one time, the 50th and the 51st may change places between pages, the 100th and
the 101st between batches. -/
theorem tiedAttachments_not_listed :
    ¬photoService.ListsAll { ID := 1, Username := "ada" } 0 (photosAt (fun _ => 7) 101) ∧
      ¬VisitsAll photoService.engine {} (photosAt (fun _ => 7) 101) := by
  constructor
  · exact fun h => (listsAll_iff rfl).mp h ⟨7, 1, by decide +kernel, by decide +kernel⟩
  · exact fun h => visitsAll_iff.mp h ⟨7, 1, by decide +kernel, by decide +kernel⟩

end Api
end MemosNote
