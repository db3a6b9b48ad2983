import MemosNote.Api.MemoMessage
import MemosNote.Library.Interleaving
import MemosNote.Store.Accounts
import MemosNote.Store.InstanceSettings

/-!
# The server that creates accounts

Requests run concurrently in one server process.  Each takes its steps at the database, at the
lock of the store and at the sources of settings, hashes and random texts one at a time; any
number of other requests take theirs in between.

Main results:

- Definition {lit}`Server.acts`: what each step answers and does.
- Definition {lit}`CreateUserIfNoUsers`: the creation of the first user under the lock.
-/

namespace MemosNote
namespace Api

open Library Store

/-! ## Messages of users -/

/-- The role of a message. -/
inductive RoleMessage where
  | ROLE_UNSPECIFIED
  | ADMIN
  | USER
deriving DecidableEq, Repr

/-- The role as it is stored. -/
def convertUserRoleToStore : RoleMessage → Role
  | .ADMIN => .ADMIN
  | _ => .USER

/-- The role as the API shows it. -/
def convertUserRoleFromStore : Role → RoleMessage
  | .ADMIN => .ADMIN
  | .USER => .USER

/-- A user in a request or an answer. -/
structure UserMessage where
  Name : String := ""
  Role : RoleMessage := .ROLE_UNSPECIFIED
  Username : String := ""
  Email : String := ""
  DisplayName : String := ""
  AvatarUrl : String := ""
  Description : String := ""
  Password : String := ""
  State : StateMessage := .STATE_UNSPECIFIED
  CreateTime : Option Timestamp := none
  UpdateTime : Option Timestamp := none
deriving DecidableEq, Repr

/-- The resource name of a user. -/
def BuildUserName (username : String) : String :=
  userNamePrefix ++ username

/-- The address is shown to administrators and to the user. -/
def canViewerAccessUserEmail (viewer : Option User) (user : User) : Bool :=
  viewer.any fun v => v.Role = .ADMIN || v.ID = user.ID

/-- The type and the data of an image in a data URI: neither is empty or reaches beyond the
first line, and the type is as long as possible. -/
def extractImageInfo (dataURI : String) : Option (String × String) :=
  let scheme := "data:".toList
  let marker := ";base64,".toList
  if scheme.isPrefixOf dataURI.toList then
    let line := (dataURI.toList.drop scheme.length).takeWhile (· ≠ '\n')
    ((List.range line.length).reverse.find? fun n =>
      0 < n && marker.isPrefixOf (line.drop n) && n + marker.length < line.length).map fun n =>
        (String.ofList (line.take n), String.ofList (line.drop (n + marker.length)))
  else none

/-- A user as the viewer is shown him. -/
def convertUserFromStore (user : User) (viewer : Option User) : UserMessage where
  Name := BuildUserName user.Username
  State := convertStateFromStore user.RowStatus
  CreateTime := some { Seconds := user.CreatedTs }
  UpdateTime := some { Seconds := user.UpdatedTs }
  Role := convertUserRoleFromStore user.Role
  Username := user.Username
  DisplayName := user.Nickname
  Description := user.Description
  Email := if canViewerAccessUserEmail viewer user then user.Email else ""
  AvatarUrl :=
    if user.AvatarURL ≠ "" ∧ (extractImageInfo user.AvatarURL).isSome then
      "/file/" ++ BuildUserName user.Username ++ "/avatar"
    else user.AvatarURL

example : extractImageInfo "data:image/png;base64,iVBO" = some ("image/png", "iVBO") := by
  decide +kernel

/-! ## Names and passwords -/

/-- A name that could be taken for an identifier. -/
def isNumericUsername (username : String) : Bool :=
  username ≠ "" && username.toList.all Char.isDigit

/-- A new name has the form of a UID and is no number. -/
def validateWritableUsername (quote : String → String) (username : String) : Except String Unit :=
  if username = "" || isNumericUsername username || !UIDMatcher username then
    .error ("invalid username " ++ quote username)
  else .ok ()

/-- A password is not empty. -/
def validatePassword (password : String) : Except String Unit :=
  if password = "" then .error "password must not be empty" else .ok ()

/-! ## The server -/

/-- An atomic step of a request. -/
inductive AccountAction where
  | currentUser
  | listUsers (find : FindUser)
  | getUser (id : ℤ)
  | createUser (create : User)
  | deleteUser (id : ℤ)
  | getUserIdentity (find : FindUserIdentity)
  | createUserIdentity (create : UserIdentity)
  | getInstanceGeneralSetting
  | randomString (length : ℕ)
  | genUUID
  | generateFromPassword (password : String)
  | lock
  | unlock
deriving DecidableEq, Repr

/-- What an action of the store answers. -/
@[reducible]
def AccountAction.Answer : AccountAction → Type
  | currentUser => Option User
  | listUsers _ => Except String (List User)
  | getUser _ => Except String (Option User)
  | createUser _ => Except String User
  | deleteUser _ => Except String Unit
  | getUserIdentity _ => Except String (Option UserIdentity)
  | createUserIdentity _ => Except String UserIdentity
  | getInstanceGeneralSetting => Except String InstanceGeneralSetting
  | randomString _ => Except String String
  | genUUID => String
  | generateFromPassword _ => Except String String
  | lock => Unit
  | unlock => Unit

/-- A request, as a process. -/
abbrev AccountM : Type → Type :=
  Process AccountAction AccountAction.Answer

/-- A request that may fail with a status. -/
abbrev AccountApiM : Type → Type :=
  ExceptT Failure AccountM

/-- The tables, the request that holds the lock, and, for the statements only, the request that
created each user. -/
structure Server (ι : Type) where
  accounts : Accounts
  userCreateMu : Option ι := none
  creator : ℤ → Option ι := fun _ => none

namespace Server

variable {ι : Type}

/-- A user that a request may be authenticated as: no request of the run has created the user, or
the user has been linked to an external identity, as users are before a request returns them. -/
def Established (s : Server ι) (user : User) : Prop :=
  user ∈ s.accounts.users ∧
    (s.creator user.ID = none ∨ ∃ identity ∈ s.accounts.identities, identity.UserID = user.ID)

/-- What a step of request {lit}`p` answers and does.  Accesses to the database may fail, except
the deletion of a user; settings, hashes and random texts are whatever their sources answer. -/
def acts (engine : UserSearch) (p : ι) (s : Server ι) :
    (a : AccountAction) → a.Answer → Server ι → Prop
  | .currentUser, user, s' => s' = s ∧ ∀ u ∈ user, s.Established u
  | .listUsers find, result, s' =>
      s' = s ∧ ∀ users, result = .ok users → s.accounts.listUsers engine find = some users
  | .getUser id, result, s' => s' = s ∧ ∀ user, result = .ok user → s.accounts.getUser id = user
  | .createUser create, result, s' =>
      (∃ now user accounts', s.accounts.createUser now create = .ok (user, accounts') ∧
        result = .ok user ∧
        s' = { s with accounts := accounts', creator := Function.update s.creator user.ID (some p) }) ∨
      (∃ err, result = .error err) ∧ s' = s
  | .deleteUser id, result, s' =>
      result = .ok () ∧ s' = { s with accounts := s.accounts.deleteUser id }
  | .getUserIdentity find, result, s' =>
      s' = s ∧ ∀ identity, result = .ok identity → s.accounts.getUserIdentity find = identity
  | .createUserIdentity create, result, s' =>
      (∃ now identity accounts', s.accounts.createUserIdentity now create =
          .ok (identity, accounts') ∧
        result = .ok identity ∧ s' = { s with accounts := accounts' }) ∨
      (∃ err, result = .error err) ∧ s' = s
  | .lock, _, s' => s.userCreateMu = none ∧ s' = { s with userCreateMu := some p }
  | .unlock, _, s' => s.userCreateMu ≠ none ∧ s' = { s with userCreateMu := none }
  | .getInstanceGeneralSetting, _, s' => s' = s
  | .randomString _, _, s' => s' = s
  | .genUUID, _, s' => s' = s
  | .generateFromPassword _, _, s' => s' = s

/-- A server whose accesses never fail: its clock stands, its settings allow everything, a hash is
the password, and random texts are numbered like the users. -/
def respond (engine : UserSearch) (p : ι) (s : Server ι) :
    (a : AccountAction) → Option (a.Answer × Server ι)
  | .currentUser => some (none, s)
  | .listUsers find => (s.accounts.listUsers engine find).map fun users => (.ok users, s)
  | .getUser id => some (.ok (s.accounts.getUser id), s)
  | .createUser create =>
      match s.accounts.createUser 0 create with
      | .ok (user, accounts) => some (.ok user,
          { s with accounts := accounts, creator := Function.update s.creator user.ID (some p) })
      | .error err => some (.error err, s)
  | .deleteUser id => some (.ok (), { s with accounts := s.accounts.deleteUser id })
  | .getUserIdentity find => some (.ok (s.accounts.getUserIdentity find), s)
  | .createUserIdentity create =>
      match s.accounts.createUserIdentity 0 create with
      | .ok (identity, accounts) => some (.ok identity, { s with accounts := accounts })
      | .error err => some (.error err, s)
  | .lock =>
      match s.userCreateMu with
      | none => some ((), { s with userCreateMu := some p })
      | some _ => none
  | .unlock =>
      match s.userCreateMu with
      | none => none
      | some _ => some ((), { s with userCreateMu := none })
  | .getInstanceGeneralSetting => some (.ok {}, s)
  | .randomString _ => some (.ok "random", s)
  | .genUUID => some ("u" ++ toString s.accounts.userSequence, s)
  | .generateFromPassword password => some (.ok password, s)

/-- Its answers are answers of the server. -/
theorem acts_of_respond {engine : UserSearch} (p : ι) {s s' : Server ι} {a : AccountAction}
    {r : a.Answer} (h : s.respond engine p a = some (r, s')) : s.acts engine p a r s' := by
  cases a with
  | currentUser =>
      cases h
      exact ⟨rfl, fun _ hmem => nomatch hmem⟩
  | listUsers find =>
      rcases Option.map_eq_some_iff.mp h with ⟨users, hlist, heq⟩
      cases heq
      refine ⟨rfl, fun users' hok => ?_⟩
      cases hok
      exact hlist
  | getUser id =>
      cases h
      refine ⟨rfl, fun user hok => ?_⟩
      cases hok
      rfl
  | createUser create =>
      rw [respond] at h
      cases hcreate : s.accounts.createUser 0 create with
      | error err =>
          rw [hcreate] at h
          cases h
          exact .inr ⟨⟨err, rfl⟩, rfl⟩
      | ok created =>
          rw [hcreate] at h
          cases h
          exact .inl ⟨0, created.1, created.2, hcreate, rfl, rfl⟩
  | deleteUser id =>
      cases h
      exact ⟨rfl, rfl⟩
  | getUserIdentity find =>
      cases h
      refine ⟨rfl, fun identity hok => ?_⟩
      cases hok
      rfl
  | createUserIdentity create =>
      rw [respond] at h
      cases hcreate : s.accounts.createUserIdentity 0 create with
      | error err =>
          rw [hcreate] at h
          cases h
          exact .inr ⟨⟨err, rfl⟩, rfl⟩
      | ok created =>
          rw [hcreate] at h
          cases h
          exact .inl ⟨0, created.1, created.2, hcreate, rfl, rfl⟩
  | lock =>
      rw [respond] at h
      split at h
      · cases h
        exact ⟨by assumption, rfl⟩
      · cases h
  | unlock =>
      rw [respond] at h
      split at h
      · cases h
      · rename_i q hholder
        cases h
        refine ⟨?_, rfl⟩
        rw [hholder]
        simp
  | getInstanceGeneralSetting =>
      cases h
      rfl
  | randomString _ =>
      cases h
      rfl
  | genUUID =>
      cases h
      rfl
  | generateFromPassword _ =>
      cases h
      rfl

/-- What a schedule of requests leads to is reachable. -/
theorem reaches_play [DecidableEq ι] {α : Type} (engine : UserSearch) (schedule : List ι)
    (pool : Pool ι AccountAction AccountAction.Answer α (Server ι)) :
    Pool.Reaches (Server.acts engine) pool (pool.play (Server.respond engine) schedule) := by
  have hrespond : ∀ (p : ι) (s : Server ι) (a : AccountAction) (r : a.Answer) (s' : Server ι),
      respond engine p s a = some (r, s') → acts engine p s a r s' :=
    fun p _ _ _ _ h => acts_of_respond p h
  exact Pool.reaches_play hrespond schedule pool

end Server

/-! ## Steps of requests -/

/-- One step of a request. -/
def take (action : AccountAction) : AccountM action.Answer :=
  Process.perform action

/-- A step whose error becomes a status. -/
def withStatusCode {α : Type} (code : StatusCode) (message : String → String)
    (x : AccountM (Except String α)) : AccountApiM α :=
  Process.call (fun err => .status code (message err)) x

/-- What the store does under the lock. -/
def createIfEmpty (create : User) : AccountM (Except String (Option User)) :=
  ExceptT.run (m := AccountM) (do
    let users ← ExceptT.mk (take (.listUsers { Limit := some 1 }))
    if users.length > 0 then pure none
    else
      let user ← ExceptT.mk (take (.createUser create))
      pure (some user))

/-- Create a user only when there are no users.  The lock is released on every way out. -/
def CreateUserIfNoUsers (create : User) : AccountM (Except String (Option User)) := do
  take .lock
  let result ← createIfEmpty create
  take .unlock
  pure result

end Api
end MemosNote
