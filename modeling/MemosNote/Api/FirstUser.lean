import MemosNote.Api.AccountServer
import MemosNote.Store.Cache

/-!
# The first user

The first user of an instance becomes its administrator.  Requests that create users run
concurrently; the store creates the first user under a lock, and every other user is created only
after one exists.

Main results:

- Theorem {lit}`createUser_obeys`: an unauthenticated request appends an administrator only to an
  empty table, under the lock, and an ordinary user only to a table that is not empty.
- Theorem {lit}`first_user_admin`: from an empty table, whatever the order of the steps, there is at
  most one administrator, and the earliest user is one.
-/

namespace MemosNote
namespace Api

open Library Store

/-! ## The request -/

structure CreateUserRequest where
  User : Option UserMessage := none
  ValidateOnly : Bool := false
deriving DecidableEq, Repr

/-- Registration is allowed, also with a password. -/
def checkRegistration (setting : InstanceGeneralSetting) : Except Failure Unit :=
  if setting.DisallowUserRegistration then
    .error (.status .PermissionDenied "user registration is not allowed")
  else if setting.DisallowPasswordAuth then
    .error (.status .PermissionDenied "password signup is not allowed")
  else .ok ()

/-- The user to create, with a role and a hash. -/
def UserMessage.toCreate (given : UserMessage) (role : Store.Role) (passwordHash : String) :
    User where
  ID := 0
  Username := given.Username
  Role := role
  Email := given.Email
  Nickname := given.DisplayName
  PasswordHash := passwordHash

/-- What follows once the role is known. -/
def createUserWithRole (request : CreateUserRequest) (given : UserMessage) (roleToAssign : Role) :
    AccountApiM UserMessage := do
  if request.ValidateOnly then
    pure {
      Username := given.Username
      Email := given.Email
      DisplayName := given.DisplayName
      Role := convertUserRoleFromStore roleToAssign }
  else
    let passwordHash ← withStatusCode .Internal ("failed to generate password hash: " ++ ·)
      (take (.generateFromPassword given.Password))
    let user ← withStatusCode .Internal ("failed to create user: " ++ ·)
      (take (.createUser (given.toCreate roleToAssign passwordHash)))
    pure (convertUserFromStore user (some user))

/-- An ordinary user registers. -/
def register (request : CreateUserRequest) (given : UserMessage) : AccountApiM UserMessage := do
  let instanceGeneralSetting ← withStatusCode .Internal
    ("failed to get instance general setting, error: " ++ ·) (take .getInstanceGeneralSetting)
  match checkRegistration instanceGeneralSetting with
  | .error failure => throw failure
  | .ok () => createUserWithRole request given .USER

/-- The first user is created, unless another request has been faster. -/
def createFirst (request : CreateUserRequest) (given : UserMessage) : AccountApiM UserMessage := do
  let passwordHash ← withStatusCode .Internal ("failed to generate password hash: " ++ ·)
    (take (.generateFromPassword given.Password))
  let created ← withStatusCode .Internal ("failed to create first user: " ++ ·)
    (CreateUserIfNoUsers (given.toCreate .ADMIN passwordHash))
  match created with
  | some user => pure (convertUserFromStore user (some user))
  | none => register request given

/-- Create a user; the current user is absent when the request is not authenticated. -/
def CreateUser (quote : String → String) (currentUser : Option User)
    (request : CreateUserRequest) : AccountApiM UserMessage :=
  match request.User with
  | none => throw (.status .InvalidArgument "user is required")
  | some given =>
      match validateWritableUsername quote given.Username with
      | .error _ => throw (.status .InvalidArgument ("invalid username: " ++ given.Username))
      | .ok () =>
          match validatePassword given.Password with
          | .error err => throw (.status .InvalidArgument err)
          | .ok () =>
              if currentUser.any fun user => user.Role = .ADMIN then
                createUserWithRole request given
                  (if given.Role = .ROLE_UNSPECIFIED then .USER
                    else convertUserRoleToStore given.Role)
              else do
                let allUsers ← withStatusCode .Internal ("failed to list users: " ++ ·)
                  (take (.listUsers { Limit := some 1 }))
                if allUsers.length = 0 then
                  if request.ValidateOnly then createUserWithRole request given .ADMIN
                  else createFirst request given
                else register request given

/-! ## The discipline of the requests -/

/-- The earliest user is the administrator, and no other user is one. -/
def OneAdmin (users : List User) : Prop :=
  ∀ first rest, users = first :: rest → first.Role = .ADMIN ∧ ∀ user ∈ rest, user.Role = .USER

theorem OneAdmin.first {user : User} (hrole : user.Role = .ADMIN) : OneAdmin [user] := by
  intro first rest h
  cases h
  exact ⟨hrole, fun user hmem => nomatch hmem⟩

theorem OneAdmin.append {users : List User} {user : User} (h : OneAdmin users)
    (hne : users ≠ []) (hrole : user.Role = .USER) : OneAdmin (users ++ [user]) := by
  intro first rest happend
  cases users with
  | nil => exact absurd rfl hne
  | cons u us =>
      rcases List.cons_eq_cons.mp happend with ⟨rfl, rfl⟩
      rcases h u us rfl with ⟨hfirst, hrest⟩
      refine ⟨hfirst, fun v hv => ?_⟩
      rcases List.mem_append.mp hv with hv | hv
      · exact hrest v hv
      · rw [List.mem_singleton.mp hv]
        exact hrole

private theorem OneAdmin.count_le {users : List User} (h : OneAdmin users) :
    (users.filter (·.Role = .ADMIN)).length ≤ 1 := by
  cases users with
  | nil => exact Nat.zero_le 1
  | cons first rest =>
      have hrest : rest.filter (·.Role = .ADMIN) = [] := by
        refine List.filter_eq_nil_iff.mpr fun user hmem => ?_
        simp [(h first rest rfl).2 user hmem]
      rw [List.filter_cons, hrest]
      split
      · exact le_refl 1
      · exact Nat.zero_le 1

section

variable {ι : Type}

/-- The first user is appended only under the lock, and a lock is released only by the request
that holds it. -/
def setupDiscipline (ι : Type) : Discipline ι (Server ι) where
  Invariant s := OneAdmin s.accounts.users
  Guarantee p s s' :=
    (s'.accounts.users = s.accounts.users ∨
      ∃ user, s'.accounts.users = s.accounts.users ++ [user] ∧
        (s.accounts.users = [] → s.userCreateMu = some p)) ∧
    ∀ q, q ≠ p → s.userCreateMu = some q → s'.userCreateMu = some q
  guarantee_refl _ _ := ⟨.inl rfl, fun _ _ h => h⟩

/-- Some user exists. -/
def HasUsers (s : Server ι) : Prop :=
  s.accounts.users ≠ []

/-- The request holds the lock. -/
def HoldsLock (p : ι) (s : Server ι) : Prop :=
  s.userCreateMu = some p

/-- The request holds the lock, and no user exists. -/
def HoldsEmpty (p : ι) (s : Server ι) : Prop :=
  HoldsLock p s ∧ s.accounts.users = []

variable {p : ι}

theorem stable_hasUsers : (setupDiscipline ι).Stable p HasUsers := by
  intro q s s' hq hinv hguarantee hs
  rcases hguarantee.1 with hsame | ⟨user, happend, -⟩
  · rw [HasUsers, hsame]
    exact hs
  · rw [HasUsers, happend]
    simp

theorem stable_holdsLock : (setupDiscipline ι).Stable p (HoldsLock p) :=
  fun _ _ _ hq _ hguarantee hs => hguarantee.2 p (Ne.symm hq) hs

private theorem stable_holdsEmpty : (setupDiscipline ι).Stable p (HoldsEmpty p) := by
  intro q s s' hq hinv hguarantee hs
  refine ⟨stable_holdsLock q s s' hq hinv hguarantee hs.1, ?_⟩
  rcases hguarantee.1 with hsame | ⟨user, -, hlock⟩
  · rw [hsame]
    exact hs.2
  · have hholder : some p = some q := hs.1.symm.trans (hlock hs.2)
    exact absurd (Option.some.inj hholder).symm hq

end

/-! ## The steps of a request -/

section

variable {ι : Type} {engine : UserSearch} {p : ι}

/-- An ordinary user is created only once a user exists. -/
theorem obeys_createUser {create : User} (hrole : create.Role = .USER) :
    (take (.createUser create)).Obeys (Server.acts engine) (setupDiscipline ι) p
      (fun _ _ => True) HasUsers := by
  refine Process.Obeys.perform (fun _ => Discipline.stable_true) fun r s s' hinv hs hact => ?_
  rcases hact with ⟨now, user, accounts', hcreate, -, rfl⟩ | ⟨-, rfl⟩
  · rcases Accounts.createUser_ok hcreate with ⟨huser, husers, -, -⟩
    refine ⟨?_, ⟨.inr ⟨user, husers, fun h => absurd h hs⟩, fun _ _ h => h⟩, trivial⟩
    change OneAdmin accounts'.users
    rw [husers]
    exact OneAdmin.append hinv hs (by rw [huser]; exact hrole)
  · exact ⟨hinv, (setupDiscipline ι).guarantee_refl p s', trivial⟩

/-- The administrator is created only under the lock, when no user exists. -/
theorem obeys_createFirstUser {create : User} (hrole : create.Role = .ADMIN) :
    (take (.createUser create)).Obeys (Server.acts engine) (setupDiscipline ι) p
      (fun _ => HoldsLock p) (HoldsEmpty p) := by
  refine Process.Obeys.perform (fun _ => stable_holdsLock) fun r s s' hinv hs hact => ?_
  rcases hact with ⟨now, user, accounts', hcreate, -, rfl⟩ | ⟨-, rfl⟩
  · rcases Accounts.createUser_ok hcreate with ⟨huser, husers, -, -⟩
    refine ⟨?_, ⟨.inr ⟨user, husers, fun _ => hs.1⟩, fun _ _ h => h⟩, hs.1⟩
    change OneAdmin accounts'.users
    rw [husers, hs.2]
    exact OneAdmin.first (by rw [huser]; exact hrole)
  · exact ⟨hinv, (setupDiscipline ι).guarantee_refl p s', hs.1⟩

/-- Users were found, if the query answered with any. -/
def Found : Except String (List User) → Server ι → Prop
  | .ok (_ :: _), s => HasUsers s
  | _, _ => True

private theorem stable_found (result : Except String (List User)) :
    (setupDiscipline ι).Stable p (Found result) := by
  cases result with
  | error _ => exact Discipline.stable_true
  | ok users =>
      cases users with
      | nil => exact Discipline.stable_true
      | cons _ _ => exact stable_hasUsers

/-- A query for one user finds none only when there are none. -/
theorem found_of_listUsers {s : Server ι} {result : Except String (List User)}
    (h : ∀ users, result = .ok users → s.accounts.listUsers engine { Limit := some 1 } = some users) :
    Found result s := by
  cases result with
  | error _ => exact trivial
  | ok users =>
      cases users with
      | nil => exact trivial
      | cons user users =>
          intro hnone
          have hempty := (Accounts.listUsers_limitOne (h _ rfl)).mpr hnone
          cases hempty

private theorem obeys_listUsers :
    (take (.listUsers { Limit := some 1 })).Obeys (Server.acts engine) (setupDiscipline ι) p
      Found fun _ => True :=
  Process.Obeys.observe (fun _ _ _ hact => hact.1) stable_found
    fun _ _ _ _ hact => found_of_listUsers hact.2

/-- What the store's answer says: without an error and without a new user, there are users. -/
def Answered : Except String (Option User) → Server ι → Prop
  | .ok none, s => HasUsers s
  | _, _ => True

private theorem stable_answered (result : Except String (Option User)) :
    (setupDiscipline ι).Stable p (Answered result) := by
  cases result with
  | error _ => exact Discipline.stable_true
  | ok user =>
      cases user with
      | none => exact stable_hasUsers
      | some _ => exact Discipline.stable_true

/-- Under the lock, users were found, or there are none until the request creates one. -/
def FoundLocked (p : ι) : Except String (List User) → Server ι → Prop
  | .ok [], s => HoldsEmpty p s
  | .ok (_ :: _), s => HoldsLock p s ∧ HasUsers s
  | .error _, s => HoldsLock p s

private theorem stable_foundLocked (result : Except String (List User)) :
    (setupDiscipline ι).Stable p (FoundLocked p result) := by
  cases result with
  | error _ => exact stable_holdsLock
  | ok users =>
      cases users with
      | nil => exact stable_holdsEmpty
      | cons _ _ => exact stable_holdsLock.and stable_hasUsers

/-- The query of the store, under the lock. -/
theorem obeys_listUsers_locked :
    (take (.listUsers { Limit := some 1 })).Obeys (Server.acts engine) (setupDiscipline ι) p
      (FoundLocked p) (HoldsLock p) := by
  refine Process.Obeys.observe (fun _ _ _ hact => hact.1) stable_foundLocked
    fun result s _ hs hact => ?_
  have hfound := found_of_listUsers hact.2
  cases result with
  | error _ => exact hs
  | ok users =>
      cases users with
      | nil => exact ⟨hs, (Accounts.listUsers_limitOne (hact.2 _ rfl)).mp rfl⟩
      | cons _ _ => exact ⟨hs, hfound⟩

/-- Under the lock, the first user is created, or there are users. -/
theorem obeys_createIfEmpty {create : User} (hrole : create.Role = .ADMIN) :
    (createIfEmpty create).Obeys (Server.acts engine) (setupDiscipline ι) p
      (fun result s => HoldsLock p s ∧ Answered result s) (HoldsLock p) := by
  refine obeys_listUsers_locked.bind fun result => ?_
  cases result with
  | error _ => exact fun s _ hs => ⟨hs, trivial⟩
  | ok users =>
      cases users with
      | cons _ _ => exact fun s _ hs => hs
      | nil =>
          refine (obeys_createFirstUser hrole).bind fun result => ?_
          cases result with
          | error _ => exact fun s _ hs => ⟨hs, trivial⟩
          | ok user => exact fun s _ hs => ⟨hs, trivial⟩

private theorem obeys_lock :
    (take .lock).Obeys (Server.acts engine) (setupDiscipline ι) p (fun _ => HoldsLock p)
      fun _ => True := by
  refine Process.Obeys.perform (fun _ => stable_holdsLock) fun _ s s' hinv _ hact => ?_
  rcases hact with ⟨hfree, rfl⟩
  refine ⟨hinv, ⟨.inl rfl, fun q _ hq => ?_⟩, rfl⟩
  rw [hfree] at hq
  cases hq

private theorem obeys_unlock (result : Except String (Option User)) :
    (take .unlock).Obeys (Server.acts engine) (setupDiscipline ι) p (fun _ => Answered result)
      fun s => HoldsLock p s ∧ Answered result s := by
  refine Process.Obeys.perform (fun _ => stable_answered result) fun _ s s' hinv hs hact => ?_
  rcases hact with ⟨-, rfl⟩
  refine ⟨hinv, ⟨.inl rfl, fun q hq hholder => ?_⟩, ?_⟩
  · exact absurd (Option.some.inj (hholder.symm.trans hs.1)) hq
  · cases result with
    | error _ => exact trivial
    | ok user =>
        cases user with
        | none => exact hs.2
        | some _ => exact trivial

/-- The store creates the first user, or finds that there are users. -/
theorem obeys_createUserIfNoUsers {create : User} (hrole : create.Role = .ADMIN) :
    (CreateUserIfNoUsers create).Obeys (Server.acts engine) (setupDiscipline ι) p
      Answered fun _ => True :=
  obeys_lock.bind fun _ => (obeys_createIfEmpty hrole).bind fun result =>
    (obeys_unlock result).bind fun _ => Process.Obeys.pure fun _ _ hs => hs

/-! ## The request -/

/-- Nothing is promised of the answer to a request. -/
def AnyAnswer (_ : Except Failure UserMessage) (_ : Server ι) : Prop :=
  True

/-- A step of a request, whose error ends the request. -/
theorem obeys_step {α : Type} {x : AccountM (Except String α)} {code : StatusCode}
    {message : String → String} {f : α → AccountApiM UserMessage}
    {mid : Except String α → Server ι → Prop} {pre : Server ι → Prop}
    (hx : x.Obeys (Server.acts engine) (setupDiscipline ι) p mid pre)
    (hf : ∀ a, Process.Obeys (Server.acts engine) (setupDiscipline ι) p AnyAnswer (f a).run
      (mid (.ok a))) :
    Process.Obeys (Server.acts engine) (setupDiscipline ι) p AnyAnswer
      (withStatusCode code message x >>= f).run pre := by
  refine Process.Obeys.call (hx.imp fun result s hs => ?_) hf
  cases result with
  | error _ => exact trivial
  | ok a => exact hs

/-- A step that only reads a source keeps what was found. -/
theorem obeys_source {a : AccountAction} {pre : Server ι → Prop}
    (hread : ∀ s r s', Server.acts engine p s a r s' → s' = s)
    (hstable : (setupDiscipline ι).Stable p pre) :
    (take a).Obeys (Server.acts engine) (setupDiscipline ι) p (fun _ => pre) pre :=
  Process.Obeys.observe hread (fun _ => hstable) fun _ _ _ hs _ => hs

private theorem obeys_createUserWithRole {request : CreateUserRequest} {given : UserMessage} :
    Process.Obeys (Server.acts engine) (setupDiscipline ι) p AnyAnswer
      (createUserWithRole request given .USER).run HasUsers := by
  rw [createUserWithRole]
  split
  · exact Process.Obeys.pureExcept fun _ _ _ => trivial
  · have hhash : (take (.generateFromPassword given.Password)).Obeys (Server.acts engine)
        (setupDiscipline ι) p (fun _ => HasUsers) HasUsers :=
      obeys_source (fun _ _ _ hact => hact) stable_hasUsers
    exact obeys_step hhash fun _ => obeys_step (obeys_createUser rfl) fun _ =>
      Process.Obeys.pureExcept fun _ _ _ => trivial

theorem obeys_register {request : CreateUserRequest} {given : UserMessage} :
    Process.Obeys (Server.acts engine) (setupDiscipline ι) p AnyAnswer
      (register request given).run HasUsers := by
  have hsetting : (take .getInstanceGeneralSetting).Obeys (Server.acts engine)
      (setupDiscipline ι) p (fun _ => HasUsers) HasUsers :=
    obeys_source (fun _ _ _ hact => hact) stable_hasUsers
  refine obeys_step hsetting fun setting => ?_
  cases checkRegistration setting with
  | error _ => exact Process.Obeys.throw fun _ _ _ => trivial
  | ok _ => exact obeys_createUserWithRole

/-- A request that has found no users creates the first one or registers. -/
theorem obeys_createFirst {request : CreateUserRequest} {given : UserMessage} :
    Process.Obeys (Server.acts engine) (setupDiscipline ι) p AnyAnswer
      (createFirst request given).run fun _ => True := by
  have hhash : (take (.generateFromPassword given.Password)).Obeys (Server.acts engine)
      (setupDiscipline ι) p (fun _ _ => True) fun _ => True :=
    obeys_source (fun _ _ _ hact => hact) Discipline.stable_true
  refine obeys_step hhash fun _ => obeys_step (obeys_createUserIfNoUsers rfl) fun created => ?_
  cases created with
  | some user => exact Process.Obeys.pureExcept fun _ _ _ => trivial
  | none => exact obeys_register

/-- An unauthenticated request appends an administrator only to an empty table, under the lock, and
an ordinary user only to a table that is not empty. -/
theorem createUser_obeys (quote : String → String) (request : CreateUserRequest) :
    Process.Obeys (Server.acts engine) (setupDiscipline ι) p AnyAnswer
      (CreateUser quote none request).run fun _ => True := by
  rw [CreateUser]
  split
  · exact Process.Obeys.throw fun _ _ _ => trivial
  · split
    · exact Process.Obeys.throw fun _ _ _ => trivial
    · split
      · exact Process.Obeys.throw fun _ _ _ => trivial
      · refine obeys_step obeys_listUsers fun users => ?_
        cases users with
        | cons _ _ => exact obeys_register
        | nil =>
            rw [List.length_nil, if_pos rfl]
            split
            · rename_i hvalidate
              rw [createUserWithRole, if_pos hvalidate]
              exact Process.Obeys.pureExcept fun _ _ _ => trivial
            · exact obeys_createFirst

/-! ## Any interleaving -/

/-- From a table without users, whatever requests run and in whatever order they take their steps,
there is at most one administrator, and the user with the least identifier is one. -/
theorem first_user_admin [DecidableEq ι] (engine : UserSearch) (quote : String → String)
    (requests : ι → CreateUserRequest) {accounts : Accounts} (hempty : accounts.users = [])
    {pool : Pool ι AccountAction AccountAction.Answer (Except Failure UserMessage) (Server ι)}
    (hreach : Pool.Reaches (Server.acts engine)
      ⟨fun p => (CreateUser quote none (requests p)).run, { accounts := accounts }⟩ pool) :
    (pool.state.accounts.users.filter (·.Role = .ADMIN)).length ≤ 1 ∧
      ∀ user ∈ pool.state.accounts.users,
        (∀ other ∈ pool.state.accounts.users, user.ID ≤ other.ID) → user.Role = .ADMIN := by
  have hstart : Pool.Sound (Server.acts engine) (setupDiscipline ι) (fun _ => AnyAnswer)
      ⟨fun p => (CreateUser quote none (requests p)).run, { accounts := accounts }⟩ := by
    refine ⟨?_, fun p => ⟨fun _ => True, Discipline.stable_true, trivial,
      createUser_obeys quote (requests p)⟩⟩
    intro first rest h
    cases hempty.symm.trans h
  have hadmin : OneAdmin pool.state.accounts.users :=
    (Pool.obeys_of_reaches hstart hreach).invariant
  refine ⟨hadmin.count_le, fun user hmem hleast => ?_⟩
  have hsorted := pool.state.accounts.userIDs
  cases husers : pool.state.accounts.users with
  | nil =>
      rw [husers] at hmem
      cases hmem
  | cons first rest =>
      rw [husers] at hmem hleast hsorted
      rcases List.mem_cons.mp hmem with rfl | hrest
      · exact (hadmin user rest husers).1
      · have hlater := List.rel_of_pairwise_cons hsorted hrest
        have hfirst := hleast first List.mem_cons_self
        omega

end

/-- Two visitors create the first user at once. -/
def visitors (first : Bool) : CreateUserRequest where
  User := some { Username := if first then "ada" else "bob", Password := "secret" }

/-- Both find no users before either takes the lock. -/
def visitorsPool :
    Pool Bool AccountAction AccountAction.Answer (Except Failure UserMessage) (Server Bool) :=
  Pool.play (Server.respond noSearch)
    [true, false, true, false, true, false, true, true, true, false, false, false, false, false,
      false]
    ⟨fun p => (CreateUser id none (visitors p)).run, { accounts := .empty }⟩

theorem first_user_admin_example :
    visitorsPool.state.accounts.users.map User.Role = [.ADMIN, .USER] ∧
      (visitorsPool.state.accounts.users.filter (·.Role = .ADMIN)).length ≤ 1 ∧
      ∀ user ∈ visitorsPool.state.accounts.users,
        (∀ other ∈ visitorsPool.state.accounts.users, user.ID ≤ other.ID) → user.Role = .ADMIN :=
  ⟨by decide +kernel, first_user_admin noSearch id visitors rfl (Server.reaches_play noSearch _ _)⟩

end Api
end MemosNote
