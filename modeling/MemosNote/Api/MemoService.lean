import MemosNote.Api.Shortcut
import MemosNote.Store.MemoStore

/-!
# The memo service

What the operations of the memo service share: its errors, resource names, the current user.

Main results:

- Theorem {lit}`requireMemo_ok`, Theorem {lit}`requireOwnMemo_ok`: what was found and checked
  before an operation goes on.
-/

namespace MemosNote
namespace Api

open Library Store

/-! ## Errors -/

inductive StatusCode where
  | Unknown
  | InvalidArgument
  | NotFound
  | AlreadyExists
  | PermissionDenied
  | Unauthenticated
  | Internal
deriving DecidableEq, Repr

/-- The name of a code in the text of an error. -/
def StatusCode.text : StatusCode → String
  | Unknown => "Unknown"
  | InvalidArgument => "InvalidArgument"
  | NotFound => "NotFound"
  | AlreadyExists => "AlreadyExists"
  | PermissionDenied => "PermissionDenied"
  | Unauthenticated => "Unauthenticated"
  | Internal => "Internal"

/-- How an operation fails: with a status, or by a panic. -/
inductive Failure where
  | status (code : StatusCode) (message : String)
  | panic (message : String)
deriving DecidableEq, Repr

/-- A wrapped error keeps its code. -/
def Failure.wrap (context : String) : Failure → Failure
  | status .Unknown message => status .Unknown (context ++ ": " ++ message)
  | status code message =>
      status code (context ++ ": rpc error: code = " ++ code.text ++ " desc = " ++ message)
  | panic message => panic message

/-- A failure that is due to the request: an error that blames it, or a panic. -/
def Failure.Rejects : Failure → Prop
  | status code _ => code = .InvalidArgument ∨ code = .PermissionDenied ∨ code = .NotFound
  | panic _ => True

@[simp]
theorem Failure.rejects_wrap (context : String) (failure : Failure) :
    (failure.wrap context).Rejects ↔ failure.Rejects := by
  cases failure with
  | status code message => cases code <;> exact Iff.rfl
  | panic message => exact Iff.rfl

abbrev ApiM :=
  Effect Failure Tables

/-- An operation of the store whose error gets a status. -/
def withStatus {α : Type} (code : StatusCode) (message : String → String) (x : StoreM α) : ApiM α :=
  x.mapError fun err => .status code (message err)

/-- An operation of the store whose error is not passed on. -/
def internally {α : Type} (message : String) (x : StoreM α) : ApiM α :=
  withStatus .Internal (fun _ => message) x

/-! ## The service -/

/-- What is extracted from the content of a memo. -/
structure ExtractedData where
  Tags : List String
  Mentions : List String
  Property : Option MemoProperty
deriving DecidableEq, Repr

/-- The service of one request: the store, the markdown parser, the content length limit,
Go's quoting of texts, the user accesses, the authenticated user and the next identifier. -/
structure MemoService where
  engine : StoreEngine
  extractAll : String → Except String ExtractedData
  generateSnippet : String → Except String String
  contentLengthLimit : Except String ℕ
  quote : String → String
  getUserByID : ℤ → Except String (Option User)
  contextUserID : ℤ
  uuid : String

/-- A service for a request of the user with identifier 1, over the plain store. -/
def MemoService.plain : MemoService where
  engine := .plain
  extractAll _ := .ok ⟨[], [], none⟩
  generateSnippet content := .ok content
  contentLengthLimit := .ok 8192
  quote text := "\"" ++ text ++ "\""
  getUserByID id := .ok (some { ID := id, Username := "ada" })
  contextUserID := 1
  uuid := "u"

def memoNamePrefix : String :=
  "memos/"

def attachmentNamePrefix : String :=
  "attachments/"

def isSuperUser (user : User) : Bool :=
  user.Role = .ADMIN

def canModifyMemo (user : User) (memo : Memo) : Bool :=
  memo.CreatorID = user.ID || isSuperUser user

namespace MemoService

variable (svc : MemoService)

/-- The token of a resource name with one prefix. -/
def getNameParentToken (name tokenPrefix : String) : Except String String :=
  match splitName name with
  | [collection, token] =>
      if collection ++ "/" ≠ tokenPrefix then
        .error ("invalid prefix " ++ svc.quote tokenPrefix ++ " in request " ++ svc.quote name)
      else if token = "" then
        .error ("invalid request " ++ svc.quote name ++ " with empty prefix " ++
          svc.quote tokenPrefix)
      else .ok token
  | _ => .error ("invalid request " ++ svc.quote name)

def extractMemoUIDFromName (name : String) : Except String String :=
  svc.getNameParentToken name memoNamePrefix

def extractAttachmentUIDFromName (name : String) : Except String String :=
  svc.getNameParentToken name attachmentNamePrefix

/-- The authenticated user, unless there is none or the user is archived. -/
def fetchCurrentUser : Except String (Option User) :=
  if svc.contextUserID = 0 then .ok none
  else
    match svc.getUserByID svc.contextUserID with
    | .error err => .error err
    | .ok none => .error ("user " ++ toString svc.contextUserID ++ " not found")
    | .ok (some user) => .ok (if user.RowStatus = .ARCHIVED then none else some user)

/-- The authenticated user, who must exist. -/
def requireUser (failed : String) : Except Failure User :=
  match svc.fetchCurrentUser with
  | .error _ => .error (.status .Internal failed)
  | .ok none => .error (.status .Unauthenticated "user not authenticated")
  | .ok (some user) => .ok user

/-- The identifier in the name of a memo. -/
def memoUIDOfName (name : String) : ApiM String :=
  Effect.ofExcept ((svc.extractMemoUIDFromName name).mapError fun err =>
    .status .InvalidArgument ("invalid memo name: " ++ err))

/-- A memo, which must exist; the error of the query is turned by {lit}`queryFailed`. -/
def findMemo (memoUID : String) (queryFailed : String → Failure) : ApiM FoundMemo := do
  let memo ← (svc.engine.getMemo { UID := some memoUID }).mapError queryFailed
  match memo with
  | none => Effect.fail (.status .NotFound "memo not found")
  | some memo => pure memo

/-- A memo that the current user may change. -/
def findOwnMemo (memoUID : String) (queryFailed : String → Failure) (userFailed : String) :
    ApiM (FoundMemo × User) := do
  let memo ← svc.findMemo memoUID queryFailed
  let user ← Effect.ofExcept (svc.requireUser userFailed)
  if canModifyMemo user memo.toMemo then pure (memo, user)
  else Effect.fail (.status .PermissionDenied "permission denied")

/-- The memo of a name, which must exist. -/
def requireMemo (name : String) (queryFailed : String → Failure) : ApiM FoundMemo := do
  let memoUID ← svc.memoUIDOfName name
  svc.findMemo memoUID queryFailed

/-- The memo of a name, which the current user may change. -/
def requireOwnMemo (name : String) (queryFailed : String → Failure) (userFailed : String) :
    ApiM (FoundMemo × User) := do
  let memoUID ← svc.memoUIDOfName name
  svc.findOwnMemo memoUID queryFailed userFailed

/-! ## What the shared parts do -/

variable {svc}

/-- The identifier in the name of a memo is its identifier. -/
theorem extractMemoUIDFromName_buildMemoName {uid : String} (h : UIDMatcher uid = true) :
    svc.extractMemoUIDFromName (buildMemoName uid) = .ok uid := by
  have hmatches := h
  simp only [UIDMatcher, Bool.and_eq_true, decide_eq_true_eq, List.all_eq_true,
    Bool.or_eq_true] at hmatches
  have hflat : '/' ∉ uid.toList := fun hslash => absurd (hmatches.1.1.2 _ hslash) (by decide)
  have hname : uid ≠ "" := by
    rintro rfl
    exact absurd hmatches.1.1.1.1 (by simp)
  have hsplit : splitName (buildMemoName uid) = ["memos", uid] := by
    have htoList : (buildMemoName uid).toList = "memos".toList ++ '/' :: uid.toList := by
      simp [buildMemoName]
    rw [splitName, htoList, List.splitOn_append_cons_self_of_not_mem (by decide),
      List.splitOn_eq_singleton hflat]
    simp
  rw [extractMemoUIDFromName, getNameParentToken, hsplit]
  simp [memoNamePrefix, hname]

/-- The name that an identifier was extracted from. -/
theorem eq_of_extractMemoUIDFromName {name uid : String}
    (h : svc.extractMemoUIDFromName name = .ok uid) : name = buildMemoName uid := by
  rw [extractMemoUIDFromName, getNameParentToken] at h
  split at h
  · rename_i collection token hsplit
    split at h
    · cases h
    · rename_i hstart
      split at h
      · cases h
      · cases h
        have hcollection : collection = "memos" := by
          apply (String.append_left_inj "/").mp
          simpa [memoNamePrefix] using hstart
        have hlists : name.toList.splitOn '/' = ["memos".toList, uid.toList] := by
          have hmapped := congrArg (List.map String.toList) hsplit
          rw [splitName, hcollection, List.map_map] at hmapped
          simpa [Function.comp_def] using hmapped
        have hjoin : ['/'].intercalate (name.toList.splitOn '/') = name.toList :=
          List.intercalate_splitOn '/'
        rw [hlists] at hjoin
        apply String.toList_inj.mp
        rw [← hjoin]
        simp [buildMemoName, List.intercalate]
  · cases h

theorem memoUIDOfName_ok {name uid : String} {db db' : Tables}
    (h : svc.memoUIDOfName name db = (.ok uid, db')) :
    db' = db ∧ svc.extractMemoUIDFromName name = .ok uid := by
  rw [memoUIDOfName] at h
  cases hextract : svc.extractMemoUIDFromName name with
  | error err =>
      rw [hextract] at h
      cases h
  | ok memoUID =>
      rw [hextract] at h
      cases h
      exact ⟨rfl, rfl⟩

/-- Finding a memo changes nothing. -/
theorem findMemo_ok {memoUID : String} {queryFailed : String → Failure} {db db' : Tables}
    {memo : FoundMemo} (h : svc.findMemo memoUID queryFailed db = (.ok memo, db')) :
    db' = db ∧ memo.UID = memoUID ∧ memo.toMemo ∈ db.memos ∧ memo ∈ db.joinMemo memo.toMemo := by
  rw [findMemo] at h
  obtain ⟨found, t, hget, hfound⟩ := Effect.ok_of_bind h
  have hget' := Effect.ok_of_mapError hget
  cases found with
  | none => cases hfound
  | some row =>
      obtain ⟨hrow, rfl⟩ := Prod.mk.inj hfound
      obtain rfl := Except.ok.inj hrow
      obtain ⟨rfl, hmem, huid, hjoined⟩ := StoreEngine.mem_of_getMemo_uid hget'
      exact ⟨rfl, huid, hmem, hjoined⟩

theorem findOwnMemo_ok {memoUID : String} {queryFailed : String → Failure} {userFailed : String}
    {db db' : Tables} {memo : FoundMemo} {user : User}
    (h : svc.findOwnMemo memoUID queryFailed userFailed db = (.ok (memo, user), db')) :
    db' = db ∧ memo.UID = memoUID ∧ memo.toMemo ∈ db.memos ∧ memo ∈ db.joinMemo memo.toMemo ∧
      svc.requireUser userFailed = .ok user ∧ canModifyMemo user memo.toMemo = true := by
  rw [findOwnMemo] at h
  obtain ⟨found, t, hfound, hrest⟩ := Effect.ok_of_bind h
  obtain ⟨u, t', huser, hcheck⟩ := Effect.ok_of_bind hrest
  cases hrequire : svc.requireUser userFailed with
  | error err =>
      rw [hrequire] at huser
      cases huser
  | ok v =>
      rw [hrequire] at huser
      obtain ⟨hv, rfl⟩ := Prod.mk.inj huser
      obtain rfl := Except.ok.inj hv
      split at hcheck
      · rename_i hmodify
        obtain ⟨hpair, rfl⟩ := Prod.mk.inj hcheck
        obtain ⟨rfl, rfl⟩ := Prod.mk.inj (Except.ok.inj hpair)
        obtain ⟨rfl, huid, hmem, hjoined⟩ := findMemo_ok hfound
        exact ⟨rfl, huid, hmem, hjoined, rfl, hmodify⟩
      · cases hcheck

theorem requireMemo_ok {name : String} {queryFailed : String → Failure} {db db' : Tables}
    {memo : FoundMemo} (h : svc.requireMemo name queryFailed db = (.ok memo, db')) :
    db' = db ∧ svc.extractMemoUIDFromName name = .ok memo.UID ∧ memo.toMemo ∈ db.memos ∧
      memo ∈ db.joinMemo memo.toMemo := by
  obtain ⟨memoUID, t, hname, hfind⟩ := Effect.ok_of_bind h
  obtain ⟨rfl, hextract⟩ := memoUIDOfName_ok hname
  obtain ⟨rfl, rfl, hmem, hjoined⟩ := findMemo_ok hfind
  exact ⟨rfl, hextract, hmem, hjoined⟩

theorem requireOwnMemo_ok {name : String} {queryFailed : String → Failure} {userFailed : String}
    {db db' : Tables} {memo : FoundMemo} {user : User}
    (h : svc.requireOwnMemo name queryFailed userFailed db = (.ok (memo, user), db')) :
    db' = db ∧ svc.extractMemoUIDFromName name = .ok memo.UID ∧ memo.toMemo ∈ db.memos ∧
      memo ∈ db.joinMemo memo.toMemo ∧ svc.requireUser userFailed = .ok user ∧
      canModifyMemo user memo.toMemo = true := by
  obtain ⟨memoUID, t, hname, hfind⟩ := Effect.ok_of_bind h
  obtain ⟨rfl, hextract⟩ := memoUIDOfName_ok hname
  obtain ⟨rfl, rfl, hmem, hjoined, huser, hmodify⟩ := findOwnMemo_ok hfind
  exact ⟨rfl, hextract, hmem, hjoined, huser, hmodify⟩

variable {P : Tables → Prop}

theorem findMemo_keeps (memoUID : String) (queryFailed : String → Failure) :
    Effect.Keeps P (svc.findMemo memoUID queryFailed) := by
  refine ((StoreEngine.getMemo_keeps _).mapError _).bind fun found => ?_
  cases found with
  | none => exact Effect.Keeps.fail _
  | some memo => exact Effect.Keeps.pure _

theorem requireMemo_keeps (name : String) (queryFailed : String → Failure) :
    Effect.Keeps P (svc.requireMemo name queryFailed) :=
  (Effect.Keeps.ofExcept _).bind fun _ => findMemo_keeps _ _

theorem findOwnMemo_keeps (memoUID : String) (queryFailed : String → Failure)
    (userFailed : String) : Effect.Keeps P (svc.findOwnMemo memoUID queryFailed userFailed) := by
  refine (findMemo_keeps _ _).bind fun memo => (Effect.Keeps.ofExcept _).bind fun user => ?_
  split
  · exact Effect.Keeps.pure _
  · exact Effect.Keeps.fail _

theorem requireOwnMemo_keeps (name : String) (queryFailed : String → Failure)
    (userFailed : String) : Effect.Keeps P (svc.requireOwnMemo name queryFailed userFailed) :=
  (Effect.Keeps.ofExcept _).bind fun _ => findOwnMemo_keeps _ _ _

end MemoService

end Api
end MemosNote
