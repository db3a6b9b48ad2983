import MemosNote.Api.AccountServer
import MemosNote.Store.Cache

/-!
# Single sign-on

A sign-in with an external identity returns the linked user, links the identity to the current
user, or creates a user and links it.  A call that loses the race for the link deletes the user it
has created and returns the winner's.

Main results:

- Theorem {lit}`resolveSSOUser_obeys`: a call deletes only users of its own without a link, and
  links only its own user or an established one.
- Theorem {lit}`one_link`: in any interleaving of calls with one external identity, all that succeed
  return the same user, whose link is the only one, and no other created user remains.
-/

namespace MemosNote
namespace Api

open Library Store

/-! ## The calls -/

/-- What an identity provider tells about the user of an external identity. -/
structure IdentityProviderUserInfo where
  Identifier : String
  DisplayName : String := ""
  Email : String := ""
  AvatarURL : String := ""
deriving DecidableEq, Repr

/-- The messages of the drivers when a unique key is taken. -/
def isUniqueConstraintViolation (err : String) : Bool :=
  "UNIQUE constraint failed".toList <:+: err.toList || "duplicate key".toList <:+: err.toList ||
    "Duplicate entry".toList <:+: err.toList

def deriveSSOUsername (quote : String → String) : AccountM (Except String String) := do
  let username ← take .genUUID
  match validateWritableUsername quote username with
  | .error err => pure (.error ("generated UUID did not satisfy username constraints: " ++ err))
  | .ok () => pure (.ok username)

/-- The user of an external identity. -/
def getLinkedSSOUser (provider externUID : String) : AccountApiM (Option User) := do
  let identity ← withStatusCode .Internal ("failed to get user identity, error: " ++ ·)
    (take (.getUserIdentity { Provider := some provider, ExternUID := some externUID }))
  match identity with
  | none => pure none
  | some identity =>
      let user ← withStatusCode .Internal ("failed to get user, error: " ++ ·)
        (take (.getUser identity.UserID))
      match user with
      | none =>
          throw (.status .Internal ("linked user " ++ toString identity.UserID ++
            " not found for identity " ++ toString identity.ID))
      | some user => pure (some user)

def linkedToAnotherUser : Failure :=
  .status .AlreadyExists "identity provider account is already linked to another user"

def linkedToAnotherAccount : Failure :=
  .status .AlreadyExists
    "identity provider is already linked to another external account for this user"

def noWinningRow : Failure :=
  .status .Internal "user identity conflict reported but no winning row found"

/-- The link that the current user has at the provider decides, if there is one. -/
def existingLink (currentUser : User) (externUID : String) (missing : AccountApiM User) :
    Option UserIdentity → AccountApiM User
  | some existing =>
      if existing.ExternUID = externUID then pure currentUser else throw linkedToAnotherAccount
  | none => missing

/-- The link was taken: the winner must be the current user. -/
def rebindSSOIdentity (currentUser : User) (provider externUID : String) : AccountApiM User := do
  let winner ← getLinkedSSOUser provider externUID
  match winner with
  | some winner =>
      if winner.ID ≠ currentUser.ID then throw linkedToAnotherUser else pure currentUser
  | none =>
      let existing ← withStatusCode .Internal
        ("failed to reload linked identity after race, error: " ++ ·)
        (take (.getUserIdentity { UserID := some currentUser.ID, Provider := some provider }))
      existingLink currentUser externUID (throw noWinningRow) existing

/-- Link an external identity to the current user. -/
def bindSSOIdentityToUser (currentUser : User) (provider externUID : String) :
    AccountApiM User := do
  let existing ← withStatusCode .Internal
    ("failed to get existing linked identity, error: " ++ ·)
    (take (.getUserIdentity { UserID := some currentUser.ID, Provider := some provider }))
  existingLink currentUser externUID (do
    let result ← ExceptT.lift (take (.createUserIdentity
      { ID := 0, UserID := currentUser.ID, Provider := provider, ExternUID := externUID }))
    match result with
    | .ok _ => pure currentUser
    | .error err =>
        if isUniqueConstraintViolation err then rebindSSOIdentity currentUser provider externUID
        else throw (.status .Internal ("failed to create user identity, error: " ++ err)))
    existing

/-- The user of the winning link, after a race. -/
def winnerOfRace (provider externUID : String) : AccountApiM User := do
  let winner ← withStatusCode .Internal
    ("failed to reload user identity after race, error: " ++ ·)
    (take (.getUserIdentity { Provider := some provider, ExternUID := some externUID }))
  match winner with
  | none => throw noWinningRow
  | some winner =>
      let winnerUser ← withStatusCode .Internal ("failed to get user after race, error: " ++ ·)
        (take (.getUser winner.UserID))
      match winnerUser with
      | none =>
          throw (.status .Internal ("linked user " ++ toString winner.UserID ++
            " not found after race"))
      | some winnerUser => pure winnerUser

/-- Link an external identity to the user created for it; without a link the user is deleted. -/
def linkSSOUser (user : User) (provider externUID : String) : AccountApiM User := do
  let result ← ExceptT.lift (take (.createUserIdentity
    { ID := 0, UserID := user.ID, Provider := provider, ExternUID := externUID }))
  match result with
  | .ok _ => pure user
  | .error err =>
      let _ ← ExceptT.lift (take (.deleteUser user.ID))
      if isUniqueConstraintViolation err then winnerOfRace provider externUID
      else throw (.status .Internal ("failed to create user identity, error: " ++ err))

/-- Create a user for an external identity that has none. -/
def createSSOUser (quote : String → String) (provider : String)
    (userInfo : IdentityProviderUserInfo) : AccountApiM User := do
  let instanceGeneralSetting ← withStatusCode .Internal
    ("failed to get instance general setting, error: " ++ ·) (take .getInstanceGeneralSetting)
  if instanceGeneralSetting.DisallowUserRegistration then
    throw (.status .PermissionDenied "user registration is not allowed")
  else
    let password ← withStatusCode .Internal ("failed to generate random password, error: " ++ ·)
      (take (.randomString 20))
    let passwordHash ← withStatusCode .Internal ("failed to generate password hash, error: " ++ ·)
      (take (.generateFromPassword password))
    let username ← withStatusCode .Internal ("failed to derive username, error: " ++ ·)
      (deriveSSOUsername quote)
    let user ← withStatusCode .Internal ("failed to create user, error: " ++ ·)
      (take (.createUser {
        ID := 0
        Username := username
        Role := .USER
        Nickname := userInfo.DisplayName
        Email := userInfo.Email
        AvatarURL := userInfo.AvatarURL
        PasswordHash := passwordHash }))
    linkSSOUser user provider userInfo.Identifier

/-- The local user of an external identity. -/
def resolveSSOUser (quote : String → String) (currentUser : Option User) (provider : String)
    (userInfo : IdentityProviderUserInfo) : AccountApiM User := do
  let user ← getLinkedSSOUser provider userInfo.Identifier
  match user with
  | some user =>
      if currentUser.any fun current => current.ID ≠ user.ID then throw linkedToAnotherUser
      else pure user
  | none =>
      match currentUser with
      | some currentUser => bindSSOIdentityToUser currentUser provider userInfo.Identifier
      | none => createSSOUser quote provider userInfo

/-- A call, by whoever is authenticated then. -/
def ssoCall (quote : String → String) (provider : String) (userInfo : IdentityProviderUserInfo) :
    AccountApiM User := do
  let currentUser ← ExceptT.lift (take .currentUser)
  resolveSSOUser quote currentUser provider userInfo

/-! ## The discipline of the calls -/

section

variable {ι : Type} {provider externUID : String}

/-- The external identity is linked to the user. -/
def Linked (provider externUID : String) (user : User) (s : Server ι) : Prop :=
  ∃ identity ∈ s.accounts.identities, identity.Provider = provider ∧
    identity.ExternUID = externUID ∧ identity.UserID = user.ID

/-- The external identity is linked to the user, who exists. -/
def Resolved (provider externUID : String) (user : User) (s : Server ι) : Prop :=
  user ∈ s.accounts.users ∧ Linked provider externUID user s

/-- Identifiers beyond the assigned ones occur nowhere. -/
structure FreshAbove (s : Server ι) : Prop where
  identities : ∀ identity ∈ s.accounts.identities, identity.UserID ≤ s.accounts.userSequence
  creator : ∀ id, s.accounts.userSequence < id → s.creator id = none

/-- What a call may do: it deletes only users of its own without a link, creates users in its own
name, and links a user of its own, one that no call has created, or one that has a link. -/
structure CallGuarantee (p : ι) (s s' : Server ι) : Prop where
  identities_kept : ∀ identity ∈ s.accounts.identities, identity ∈ s'.accounts.identities
  identities_new : ∀ identity ∈ s'.accounts.identities, identity ∈ s.accounts.identities ∨
    s.creator identity.UserID = none ∨ s.creator identity.UserID = some p ∨
      ∃ other ∈ s.accounts.identities, other.UserID = identity.UserID
  users_kept : ∀ user ∈ s.accounts.users, user ∈ s'.accounts.users ∨
    s.creator user.ID = some p ∧ ∀ identity ∈ s.accounts.identities, identity.UserID ≠ user.ID
  users_new : ∀ user ∈ s'.accounts.users, user ∈ s.accounts.users ∨ s'.creator user.ID = some p
  creator_kept : ∀ id, id ≤ s.accounts.userSequence → s'.creator id = s.creator id

/-- A call may leave the server as it is. -/
theorem CallGuarantee.refl (p : ι) (s : Server ι) : CallGuarantee p s s where
  identities_kept _ h := h
  identities_new _ h := .inl h
  users_kept _ h := .inl h
  users_new _ h := .inl h
  creator_kept _ _ := rfl

def loginDiscipline (ι : Type) : Discipline ι (Server ι) where
  Invariant := FreshAbove
  Guarantee := CallGuarantee
  guarantee_refl := CallGuarantee.refl

/-- The call has no user of its own. -/
def NoneCreated (p : ι) (s : Server ι) : Prop :=
  ∀ user ∈ s.accounts.users, s.creator user.ID ≠ some p

/-- The only user of the call, if any. -/
def OnlyCreated (p : ι) (user : User) (s : Server ι) : Prop :=
  ∀ other ∈ s.accounts.users, s.creator other.ID = some p → other = user

/-- The call has created the user, who has no link yet. -/
structure Provisional (p : ι) (user : User) (s : Server ι) : Prop where
  mem : user ∈ s.accounts.users
  creator : s.creator user.ID = some p
  unlinked : ∀ identity ∈ s.accounts.identities, identity.UserID ≠ user.ID
  only : OnlyCreated p user s

variable {p : ι}

/-- No other call creates for this one. -/
theorem stable_noneCreated : (loginDiscipline ι).Stable p (NoneCreated p) := by
  intro q s s' hq hinv hguarantee hs user huser hcreator
  rcases hguarantee.users_new user huser with hold | hnew
  · rw [hguarantee.creator_kept _ (s.accounts.userIDs_le user hold)] at hcreator
    exact hs user hold hcreator
  · exact hq (Option.some.inj (hnew.symm.trans hcreator))

/-- No other call adds to what this one created. -/
theorem stable_onlyCreated (user : User) :
    (loginDiscipline ι).Stable p (OnlyCreated p user) := by
  intro q s s' hq hinv hguarantee hs other hother hcreator
  rcases hguarantee.users_new other hother with hold | hnew
  · rw [hguarantee.creator_kept _ (s.accounts.userIDs_le other hold)] at hcreator
    exact hs other hold hcreator
  · exact absurd (Option.some.inj (hnew.symm.trans hcreator)) hq

/-- No other call touches a provisional user. -/
theorem stable_provisional (user : User) :
    (loginDiscipline ι).Stable p (Provisional p user) := by
  intro q s s' hq hinv hguarantee hs
  have hcreator := hguarantee.creator_kept _ (s.accounts.userIDs_le user hs.mem)
  have hother : s.creator user.ID ≠ some q := by
    rw [hs.creator]
    exact fun h => hq (Option.some.inj h).symm
  refine ⟨?_, hcreator.trans hs.creator, ?_, stable_onlyCreated user q s s' hq hinv hguarantee hs.only⟩
  · rcases hguarantee.users_kept user hs.mem with hkept | ⟨hown, -⟩
    · exact hkept
    · exact absurd hown hother
  · intro identity hmem heq
    rcases hguarantee.identities_new identity hmem with hold | hnone | hown | ⟨other, hold, hsame⟩
    · exact hs.unlinked identity hold heq
    · rw [heq, hs.creator] at hnone
      cases hnone
    · rw [heq] at hown
      exact hother hown
    · exact hs.unlinked other hold (hsame.trans heq)

/-- A user with a link is not deleted. -/
theorem user_kept {q : ι} {s s' : Server ι} {user : User} (hguarantee : CallGuarantee q s s')
    (huser : user ∈ s.accounts.users)
    (hlink : ∃ identity ∈ s.accounts.identities, identity.UserID = user.ID) :
    user ∈ s'.accounts.users := by
  rcases hguarantee.users_kept user huser with hkept | ⟨-, hunlinked⟩
  · exact hkept
  · rcases hlink with ⟨identity, hmem, heq⟩
    exact absurd heq (hunlinked identity hmem)

/-- A link stays. -/
theorem stable_resolved (user : User) :
    (loginDiscipline ι).Stable p (Resolved provider externUID user) := by
  intro q s s' hq hinv hguarantee hs
  rcases hs with ⟨hmem, identity, hidentity, hprovider, hlogin, huser⟩
  exact ⟨user_kept hguarantee hmem ⟨identity, hidentity, huser⟩, identity,
    hguarantee.identities_kept identity hidentity, hprovider, hlogin, huser⟩

/-- An established user stays one. -/
theorem stable_established (user : User) :
    (loginDiscipline ι).Stable p fun s => s.Established user := by
  intro q s s' hq hinv hguarantee hs
  rcases hs with ⟨hmem, hnone | hlink⟩
  · have hcreator := hguarantee.creator_kept _ (s.accounts.userIDs_le user hmem)
    refine ⟨?_, .inl (hcreator.trans hnone)⟩
    rcases hguarantee.users_kept user hmem with hkept | ⟨hown, -⟩
    · exact hkept
    · rw [hnone] at hown
      cases hown
  · rcases hlink with ⟨identity, hidentity, huser⟩
    exact ⟨user_kept hguarantee hmem ⟨identity, hidentity, huser⟩,
      .inr ⟨identity, hguarantee.identities_kept identity hidentity, huser⟩⟩

private theorem stable_identity (identity : UserIdentity) :
    (loginDiscipline ι).Stable p fun s => identity ∈ s.accounts.identities :=
  fun _ _ _ _ _ hguarantee hs => hguarantee.identities_kept identity hs

/-! ## Reading steps -/

variable {engine : UserSearch}

/-- What a call establishes at its end: its result is the linked user, and a user of its own remains
only as its result. -/
structure CallEnd (provider externUID : String) (p : ι) (result : Except Failure User)
    (s : Server ι) : Prop where
  resolved : ∀ user, result = .ok user → Resolved provider externUID user s
  own : ∀ user ∈ s.accounts.users, s.creator user.ID = some p → result = .ok user

/-- A failed call has created nothing. -/
theorem callEnd_error {failure : Failure} {s : Server ι} (h : NoneCreated p s) :
    CallEnd provider externUID p (.error failure) s :=
  ⟨fun _ hok => (nomatch hok), fun user hmem hcreator => absurd hcreator (h user hmem)⟩

/-- A successful call has created at most the user that it answers, who holds the link. -/
theorem callEnd_ok {user : User} {s : Server ι} (honly : OnlyCreated p user s)
    (hresolved : Resolved provider externUID user s) :
    CallEnd provider externUID p (.ok user) s := by
  refine ⟨fun user' hok => ?_, fun user' hmem hcreator => ?_⟩
  · cases hok
    exact hresolved
  · rw [honly user' hmem hcreator]

theorem NoneCreated.only {s : Server ι} (h : NoneCreated p s) (user : User) :
    OnlyCreated p user s :=
  fun other hmem hcreator => absurd hcreator (h other hmem)

/-- A step of a call without a user of its own. -/
theorem obeys_loginStep {α β : Type} {x : AccountM (Except String α)} {code : StatusCode}
    {message : String → String} {f : α → AccountApiM β} {mid : α → Server ι → Prop}
    {post : Except Failure β → Server ι → Prop} {pre : Server ι → Prop}
    (hpost : ∀ failure s, NoneCreated p s → post (.error failure) s)
    (hx : x.Obeys (Server.acts engine) (loginDiscipline ι) p
      (fun result s => NoneCreated p s ∧ ∀ a, result = .ok a → mid a s) pre)
    (hf : ∀ a, Process.Obeys (Server.acts engine) (loginDiscipline ι) p post (f a).run
      fun s => NoneCreated p s ∧ mid a s) :
    Process.Obeys (Server.acts engine) (loginDiscipline ι) p post
      (withStatusCode code message x >>= f).run pre := by
  refine Process.Obeys.call (hx.imp fun result s hs => ?_) hf
  cases result with
  | error err => exact hpost _ s hs.1
  | ok a => exact ⟨hs.1, hs.2 a rfl⟩

/-- A part of a call without a user of its own. -/
theorem obeys_loginPart {α β : Type} {x : AccountApiM α} {f : α → AccountApiM β}
    {mid : α → Server ι → Prop} {post : Except Failure β → Server ι → Prop}
    {pre : Server ι → Prop}
    (hpost : ∀ failure s, NoneCreated p s → post (.error failure) s)
    (hx : Process.Obeys (Server.acts engine) (loginDiscipline ι) p
      (fun result s => NoneCreated p s ∧ ∀ a, result = .ok a → mid a s) x.run pre)
    (hf : ∀ a, Process.Obeys (Server.acts engine) (loginDiscipline ι) p post (f a).run
      fun s => NoneCreated p s ∧ mid a s) :
    Process.Obeys (Server.acts engine) (loginDiscipline ι) p post (x >>= f).run pre := by
  refine Process.Obeys.bindExcept (hx.imp fun result s hs => ?_) hf
  cases result with
  | error failure => exact hpost failure s hs.1
  | ok a => exact ⟨hs.1, hs.2 a rfl⟩

/-- A step that only reads a source. -/
theorem obeys_loginSource {a : AccountAction} {pre : Server ι → Prop}
    (hread : ∀ s r s', Server.acts engine p s a r s' → s' = s)
    (hstable : (loginDiscipline ι).Stable p pre) :
    (take a).Obeys (Server.acts engine) (loginDiscipline ι) p (fun _ => pre) pre :=
  Process.Obeys.observe hread (fun _ => hstable) fun _ _ _ hs _ => hs

/-- An identity that a query finds stays. -/
theorem obeys_getUserIdentity {find : FindUserIdentity} {P : Server ι → Prop}
    (hP : (loginDiscipline ι).Stable p P) :
    (take (.getUserIdentity find)).Obeys (Server.acts engine) (loginDiscipline ι) p
      (fun result s => NoneCreated p s ∧ ∀ found, result = .ok found → P s ∧
        ∀ identity ∈ found, identity ∈ s.accounts.identities ∧
          find.matchesIdentity identity = true)
      fun s => NoneCreated p s ∧ P s := by
  refine Process.Obeys.observe (fun _ _ _ hact => hact.1) (fun result => ?_)
    fun result s _ hs hact => ⟨hs.1, fun found hok => ⟨hs.2, fun identity hmem => ?_⟩⟩
  · refine stable_noneCreated.and (Discipline.stable_forall fun found => (hP.and ?_).imp)
    refine Discipline.stable_forall fun identity => Discipline.Stable.imp ?_
    exact (stable_identity identity).and Discipline.stable_const
  · have hfound := hact.2 found hok
    rw [Option.mem_def.mp hmem] at hfound
    exact Accounts.getUserIdentity_some hfound

/-- The user of a found identity is the linked one. -/
theorem obeys_getUser {identity : UserIdentity} {P : Server ι → Prop}
    (hprovider : identity.Provider = provider) (hlogin : identity.ExternUID = externUID)
    (hP : (loginDiscipline ι).Stable p P) :
    (take (.getUser identity.UserID)).Obeys (Server.acts engine) (loginDiscipline ι) p
      (fun result s => NoneCreated p s ∧ ∀ found, result = .ok found → P s ∧
        ∀ user ∈ found, Resolved provider externUID user s)
      fun s => NoneCreated p s ∧ P s ∧ identity ∈ s.accounts.identities := by
  refine Process.Obeys.observe (fun _ _ _ hact => hact.1) (fun result => ?_)
    fun result s _ hs hact => ⟨hs.1, fun found hok => ⟨hs.2.1, fun user hmem => ?_⟩⟩
  · refine stable_noneCreated.and (Discipline.stable_forall fun found => (hP.and ?_).imp)
    exact Discipline.stable_forall fun user => (stable_resolved user).imp
  · have hfound := hact.2 found hok
    rw [Option.mem_def.mp hmem] at hfound
    rcases Accounts.getUser_some hfound with ⟨huser, hid⟩
    exact ⟨huser, identity, hs.2.2, hprovider, hlogin, hid.symm⟩

/-- A query for the external identity finds only its link. -/
theorem matches_externUID {identity : UserIdentity}
    (h : FindUserIdentity.matchesIdentity
      { Provider := some provider, ExternUID := some externUID } identity = true) :
    identity.Provider = provider ∧ identity.ExternUID = externUID := by
  simp only [FindUserIdentity.matchesIdentity, Option.all_none, Option.all_some, Bool.true_and,
    Bool.and_eq_true, beq_iff_eq] at h
  exact ⟨h.1.symm, h.2.symm⟩

/-- A query for the link of a user at a provider finds only that. -/
theorem matches_provider {identity : UserIdentity} {userID : ℤ}
    (h : FindUserIdentity.matchesIdentity
      { UserID := some userID, Provider := some provider } identity = true) :
    identity.UserID = userID ∧ identity.Provider = provider := by
  simp only [FindUserIdentity.matchesIdentity, Option.all_none, Option.all_some, Bool.true_and,
    Bool.and_eq_true, beq_iff_eq, Bool.and_true] at h
  exact ⟨h.1.symm, h.2.symm⟩

/-- The look at the link keeps to the discipline. -/
theorem obeys_getLinkedSSOUser {P : Server ι → Prop} (hP : (loginDiscipline ι).Stable p P) :
    Process.Obeys (Server.acts engine) (loginDiscipline ι) p
      (fun result s => NoneCreated p s ∧ ∀ found, result = .ok found → P s ∧
        ∀ user ∈ found, Resolved provider externUID user s)
      (getLinkedSSOUser provider externUID).run fun s => NoneCreated p s ∧ P s := by
  have herror : ∀ (failure : Failure) (s : Server ι), NoneCreated p s → NoneCreated p s ∧
      ∀ found, (Except.error failure : Except Failure (Option User)) = .ok found → P s ∧
        ∀ user ∈ found, Resolved provider externUID user s :=
    fun failure s h => ⟨h, fun found hok => nomatch hok⟩
  refine obeys_loginStep herror (obeys_getUserIdentity hP) fun found => ?_
  cases found with
  | none =>
      refine Process.Obeys.pureExcept fun s _ hs => ⟨hs.1, fun found hok => ?_⟩
      cases hok
      exact ⟨hs.2.1, fun user hmem => nomatch hmem⟩
  | some identity =>
      refine Process.Obeys.assuming (fun s _ hs => matches_externUID (hs.2.2 identity rfl).2)
        fun hmatch => ?_
      refine obeys_loginStep herror ((obeys_getUser hmatch.1 hmatch.2 hP).weaken fun s _ hs =>
        ⟨hs.1, hs.2.1, (hs.2.2 identity rfl).1⟩) fun user => ?_
      cases user with
      | none => exact Process.Obeys.throw fun s _ hs => herror _ s hs.1
      | some user =>
          refine Process.Obeys.pureExcept fun s _ hs => ⟨hs.1, fun found hok => ?_⟩
          cases hok
          exact hs.2

/-! ## Writing steps -/

/-- A new user is provisional. -/
theorem obeys_createProvisional {create : User} :
    (take (.createUser create)).Obeys (Server.acts engine) (loginDiscipline ι) p
      (fun result s => match result with
        | .ok user => Provisional p user s
        | .error _ => NoneCreated p s) (NoneCreated p) := by
  refine Process.Obeys.perform (fun result => ?_) fun result s s' hinv hs hact => ?_
  · cases result with
    | ok user => exact stable_provisional user
    | error _ => exact stable_noneCreated
  · rcases hact with ⟨now, user, accounts', hcreate, rfl, rfl⟩ | ⟨⟨err, rfl⟩, rfl⟩
    · rcases Accounts.createUser_ok hcreate with ⟨huser, husers, hidentities, hsequence⟩
      have hid : user.ID = s.accounts.userSequence + 1 := by
        rw [huser]
        rfl
      have hold : ∀ id, id ≤ s.accounts.userSequence →
          Function.update s.creator user.ID (some p) id = s.creator id :=
        fun id hle => Function.update_of_ne (by omega) _ _
      have hnew : Function.update s.creator user.ID (some p) user.ID = some p :=
        Function.update_self _ _ _
      refine ⟨⟨?_, ?_⟩, ⟨?_, ?_, ?_, ?_, hold⟩, ?_⟩
      · intro identity hmem
        have hle := hinv.identities identity (hidentities ▸ hmem)
        change identity.UserID ≤ accounts'.userSequence
        omega
      · intro id hlt
        change accounts'.userSequence < id at hlt
        change Function.update s.creator user.ID (some p) id = none
        rw [Function.update_of_ne (by omega)]
        exact hinv.creator id (by omega)
      · intro identity hmem
        change identity ∈ accounts'.identities
        rwa [hidentities]
      · intro identity hmem
        exact .inl (hidentities ▸ hmem)
      · intro other hmem
        refine .inl ?_
        change other ∈ accounts'.users
        rw [husers]
        exact List.mem_append_left _ hmem
      · intro other hmem
        change other ∈ accounts'.users at hmem
        rw [husers] at hmem
        rcases List.mem_append.mp hmem with hmem | hmem
        · exact .inl hmem
        · rw [List.mem_singleton.mp hmem]
          exact .inr hnew
      · refine ⟨?_, hnew, ?_, ?_⟩
        · change user ∈ accounts'.users
          rw [husers]
          simp
        · intro identity hmem
          have hle := hinv.identities identity (hidentities ▸ hmem)
          omega
        · intro other hmem hcreator
          change other ∈ accounts'.users at hmem
          rw [husers] at hmem
          rcases List.mem_append.mp hmem with hmem | hmem
          · have hcreator' := (hold _ (s.accounts.userIDs_le other hmem)).symm.trans hcreator
            exact absurd hcreator' (hs other hmem)
          · exact List.mem_singleton.mp hmem
    · exact ⟨hinv, CallGuarantee.refl p s', hs⟩

/-- A link of a user that the call may link. -/
theorem obeys_createUserIdentity {user : User} {P : Server ι → Prop}
    (hP : (loginDiscipline ι).Stable p P)
    (hkeeps : ∀ s accounts', accounts'.users = s.accounts.users → P s →
      OnlyCreated p user { s with accounts := accounts' })
    (hmem : ∀ s, P s → user ∈ s.accounts.users)
    (hmay : ∀ s, P s → s.creator user.ID = none ∨ s.creator user.ID = some p ∨
      ∃ other ∈ s.accounts.identities, other.UserID = user.ID) :
    (take (.createUserIdentity
      { ID := 0, UserID := user.ID, Provider := provider, ExternUID := externUID })).Obeys
      (Server.acts engine) (loginDiscipline ι) p
      (fun result s => match result with
        | .ok _ => OnlyCreated p user s ∧ Resolved provider externUID user s
        | .error _ => P s) P := by
  refine Process.Obeys.perform (fun result => ?_) fun result s s' hinv hs hact => ?_
  · cases result with
    | ok _ => exact (stable_onlyCreated user).and (stable_resolved user)
    | error _ => exact hP
  · rcases hact with ⟨now, identity, accounts', hcreate, rfl, rfl⟩ | ⟨⟨err, rfl⟩, rfl⟩
    · rcases Accounts.createUserIdentity_ok hcreate with ⟨hidentity, hidentities, husers, hsequence⟩
      have hnew : identity ∈ accounts'.identities := by
        rw [hidentities]
        simp
      have hcases : ∀ i ∈ accounts'.identities, i ∈ s.accounts.identities ∨ i = identity := by
        intro i hi
        rw [hidentities] at hi
        simpa using hi
      refine ⟨⟨?_, ?_⟩, ⟨?_, ?_, ?_, ?_, fun _ _ => rfl⟩, hkeeps s accounts' husers hs, ?_⟩
      · intro i hi
        change i.UserID ≤ accounts'.userSequence
        rw [hsequence]
        rcases hcases i hi with hi | rfl
        · exact hinv.identities i hi
        · rw [hidentity]
          exact s.accounts.userIDs_le user (hmem s hs)
      · intro id hlt
        exact hinv.creator id (hsequence ▸ hlt)
      · intro i hi
        change i ∈ accounts'.identities
        rw [hidentities]
        exact List.mem_append_left _ hi
      · intro i hi
        rcases hcases i hi with hi | rfl
        · exact .inl hi
        · rw [hidentity]
          exact .inr (hmay s hs)
      · intro u hu
        exact .inl (husers ▸ hu)
      · intro u hu
        exact .inl (husers ▸ hu)
      · refine ⟨husers ▸ hmem s hs, identity, hnew, ?_⟩
        rw [hidentity]
        exact ⟨rfl, rfl, rfl⟩
    · exact ⟨hinv, CallGuarantee.refl p s', hs⟩

/-- The user of a call that has lost the race is deleted. -/
theorem obeys_deleteProvisional {user : User} :
    (take (.deleteUser user.ID)).Obeys (Server.acts engine) (loginDiscipline ι) p
      (fun _ => NoneCreated p) (Provisional p user) := by
  refine Process.Obeys.perform (fun _ => stable_noneCreated) fun result s s' hinv hs hact => ?_
  rcases hact with ⟨-, rfl⟩
  refine ⟨⟨?_, hinv.creator⟩, ⟨?_, ?_, ?_, ?_, fun _ _ => rfl⟩, ?_⟩
  · intro identity hmem
    exact hinv.identities identity (Accounts.mem_identities_deleteUser.mp hmem).1
  · intro identity hmem
    exact Accounts.mem_identities_deleteUser.mpr ⟨hmem, hs.unlinked identity hmem⟩
  · intro identity hmem
    exact .inl (Accounts.mem_identities_deleteUser.mp hmem).1
  · intro other hmem
    by_cases hid : other.ID = user.ID
    · rw [hid]
      exact .inr ⟨hs.creator, hs.unlinked⟩
    · exact .inl (Accounts.mem_users_deleteUser.mpr ⟨hmem, hid⟩)
  · intro other hmem
    exact .inl (Accounts.mem_users_deleteUser.mp hmem).1
  · intro other hmem hcreator
    rcases Accounts.mem_users_deleteUser.mp hmem with ⟨hold, hid⟩
    exact hid (congrArg User.ID (hs.only other hold hcreator))

/-! ## The calls -/

private theorem obeys_winnerOfRace :
    Process.Obeys (Server.acts engine) (loginDiscipline ι) p (CallEnd provider externUID p)
      (winnerOfRace provider externUID).run (NoneCreated p) := by
  refine obeys_loginStep (fun _ _ => callEnd_error)
    ((obeys_getUserIdentity Discipline.stable_true).weaken fun s _ hs => ⟨hs, trivial⟩)
    fun winner => ?_
  cases winner with
  | none => exact Process.Obeys.throw fun s _ hs => callEnd_error hs.1
  | some identity =>
      refine Process.Obeys.assuming (fun s _ hs => matches_externUID (hs.2.2 identity rfl).2)
        fun hmatch => ?_
      refine obeys_loginStep (fun _ _ => callEnd_error)
        ((obeys_getUser hmatch.1 hmatch.2 Discipline.stable_true).weaken fun s _ hs =>
          ⟨hs.1, hs.2.1, (hs.2.2 identity rfl).1⟩) fun user => ?_
      cases user with
      | none => exact Process.Obeys.throw fun s _ hs => callEnd_error hs.1
      | some user =>
          refine Process.Obeys.pureExcept fun s _ hs => ?_
          exact callEnd_ok (hs.1.only user) (hs.2.2 user rfl)

private theorem obeys_linkSSOUser (user : User) :
    Process.Obeys (Server.acts engine) (loginDiscipline ι) p (CallEnd provider externUID p)
      (linkSSOUser user provider externUID).run (Provisional p user) := by
  refine Process.Obeys.lift (obeys_createUserIdentity (stable_provisional user)
    (fun s accounts' husers hs other hmem hcreator => hs.only other (husers ▸ hmem) hcreator)
    (fun _ hs => hs.mem) (fun _ hs => .inr (.inl hs.creator))) fun result => ?_
  cases result with
  | ok _ => exact Process.Obeys.pureExcept fun s _ hs => callEnd_ok hs.1 hs.2
  | error err =>
      refine Process.Obeys.lift obeys_deleteProvisional fun _ => ?_
      split
      · exact obeys_winnerOfRace
      · exact Process.Obeys.throw fun s _ hs => callEnd_error hs

/-- A name from the source of random texts. -/
theorem obeys_deriveSSOUsername {quote : String → String} :
    (deriveSSOUsername quote).Obeys (Server.acts engine) (loginDiscipline ι) p
      (fun _ => NoneCreated p) (NoneCreated p) := by
  have huuid : (take .genUUID).Obeys (Server.acts engine) (loginDiscipline ι) p
      (fun _ => NoneCreated p) (NoneCreated p) :=
    obeys_loginSource (fun _ _ _ hact => hact) stable_noneCreated
  refine huuid.bind fun username => ?_
  split
  · exact Process.Obeys.pure fun _ _ hs => hs
  · exact Process.Obeys.pure fun _ _ hs => hs

/-- A step that keeps a call without a user of its own. -/
theorem obeys_loginSourceStep {α β : Type} {x : AccountM (Except String α)} {code : StatusCode}
    {message : String → String} {f : α → AccountApiM β} {post : Except Failure β → Server ι → Prop}
    (hpost : ∀ failure s, NoneCreated p s → post (.error failure) s)
    (hx : x.Obeys (Server.acts engine) (loginDiscipline ι) p (fun _ => NoneCreated p)
      (NoneCreated p))
    (hf : ∀ a, Process.Obeys (Server.acts engine) (loginDiscipline ι) p post (f a).run
      (NoneCreated p)) :
    Process.Obeys (Server.acts engine) (loginDiscipline ι) p post
      (withStatusCode code message x >>= f).run (NoneCreated p) :=
  obeys_loginStep hpost (hx.imp fun _ _ hs => ⟨hs, fun _ _ => trivial⟩) fun a =>
    (hf a).weaken fun _ _ hs => hs.1

private theorem obeys_createSSOUser {quote : String → String} (userInfo : IdentityProviderUserInfo)
    :
    Process.Obeys (Server.acts engine) (loginDiscipline ι) p
      (CallEnd provider userInfo.Identifier p) (createSSOUser quote provider userInfo).run
      (NoneCreated p) := by
  have herror : ∀ (failure : Failure) (s : Server ι), NoneCreated p s →
      CallEnd provider userInfo.Identifier p (.error failure) s := fun _ _ => callEnd_error
  refine obeys_loginSourceStep herror
    (obeys_loginSource (fun _ _ _ hact => hact) stable_noneCreated) fun setting => ?_
  split
  · exact Process.Obeys.throw fun s _ hs => callEnd_error hs
  · refine obeys_loginSourceStep herror
      (obeys_loginSource (fun _ _ _ hact => hact) stable_noneCreated) fun password => ?_
    refine obeys_loginSourceStep herror
      (obeys_loginSource (fun _ _ _ hact => hact) stable_noneCreated) fun passwordHash => ?_
    refine obeys_loginSourceStep herror obeys_deriveSSOUsername fun username => ?_
    refine Process.Obeys.call (obeys_createProvisional.imp fun result s hs => ?_)
      fun user => obeys_linkSSOUser user
    cases result with
    | ok user => exact hs
    | error _ => exact callEnd_error hs

/-- The current user of a call, who stays. -/
def Current (p : ι) (currentUser : User) (s : Server ι) : Prop :=
  NoneCreated p s ∧ s.Established currentUser

private theorem stable_current (currentUser : User) :
    (loginDiscipline ι).Stable p (Current p currentUser) :=
  stable_noneCreated.and (stable_established currentUser)

/-- The current user has the link. -/
theorem callEnd_current {currentUser : User} {identity : UserIdentity} {s : Server ι}
    (hcurrent : Current p currentUser s) (hmem : identity ∈ s.accounts.identities)
    (huser : identity.UserID = currentUser.ID) (hprovider : identity.Provider = provider)
    (hlogin : identity.ExternUID = externUID) :
    CallEnd provider externUID p (.ok currentUser) s :=
  callEnd_ok (hcurrent.1.only currentUser)
    ⟨hcurrent.2.1, identity, hmem, hprovider, hlogin, huser⟩

/-- The way over an existing link keeps to the discipline. -/
theorem obeys_existingLink {currentUser : User} {missing : AccountApiM User}
    (found : Option UserIdentity)
    (hmissing : Process.Obeys (Server.acts engine) (loginDiscipline ι) p
      (CallEnd provider externUID p) missing.run (Current p currentUser)) :
    Process.Obeys (Server.acts engine) (loginDiscipline ι) p (CallEnd provider externUID p)
      (existingLink currentUser externUID missing found).run
      fun s => NoneCreated p s ∧ s.Established currentUser ∧ ∀ identity ∈ found,
        identity ∈ s.accounts.identities ∧ FindUserIdentity.matchesIdentity
          { UserID := some currentUser.ID, Provider := some provider } identity = true := by
  cases found with
  | none => exact hmissing.weaken fun s _ hs => ⟨hs.1, hs.2.1⟩
  | some identity =>
      rw [existingLink]
      split
      · rename_i hlogin
        refine Process.Obeys.pureExcept fun s _ hs => ?_
        rcases hs.2.2 identity rfl with ⟨hmem, hmatch⟩
        rcases matches_provider hmatch with ⟨huser, hprovider⟩
        exact callEnd_current ⟨hs.1, hs.2.1⟩ hmem huser hprovider hlogin
      · exact Process.Obeys.throw fun s _ hs => callEnd_error hs.1

private theorem obeys_rebindSSOIdentity (currentUser : User) :
    Process.Obeys (Server.acts engine) (loginDiscipline ι) p (CallEnd provider externUID p)
      (rebindSSOIdentity currentUser provider externUID).run (Current p currentUser) := by
  refine obeys_loginPart (fun _ _ => callEnd_error)
    (obeys_getLinkedSSOUser (stable_established currentUser)) fun winner => ?_
  cases winner with
  | some winner =>
      dsimp only
      split
      · exact Process.Obeys.throw fun s _ hs => callEnd_error hs.1
      · rename_i hid
        refine Process.Obeys.pureExcept fun s _ hs => ?_
        rcases hs.2.2 winner rfl with ⟨hwinner, hlinked⟩
        have hsame := s.accounts.eq_of_userID_eq hwinner hs.2.1.1 (not_not.mp hid)
        rw [← hsame]
        exact callEnd_ok (hs.1.only winner) ⟨hwinner, hlinked⟩
  | none =>
      refine obeys_loginStep (fun _ _ => callEnd_error)
        ((obeys_getUserIdentity (stable_established currentUser)).weaken fun s _ hs =>
          ⟨hs.1, hs.2.1⟩) fun existing => ?_
      exact obeys_existingLink existing (Process.Obeys.throw fun s _ hs => callEnd_error hs.1)

private theorem obeys_bindSSOIdentityToUser (currentUser : User) :
    Process.Obeys (Server.acts engine) (loginDiscipline ι) p (CallEnd provider externUID p)
      (bindSSOIdentityToUser currentUser provider externUID).run (Current p currentUser) := by
  refine obeys_loginStep (fun _ _ => callEnd_error)
    (obeys_getUserIdentity (stable_established currentUser)) fun existing =>
      obeys_existingLink existing ?_
  refine Process.Obeys.lift (obeys_createUserIdentity (stable_current currentUser)
    (fun s accounts' husers hs other hmem hcreator =>
      absurd hcreator (hs.1 other (husers ▸ hmem)))
    (fun _ hs => hs.2.1) (fun _ hs => hs.2.2.imp_right .inr)) fun result => ?_
  cases result with
  | ok _ => exact Process.Obeys.pureExcept fun s _ hs => callEnd_ok hs.1 hs.2
  | error err =>
      dsimp only
      split
      · exact obeys_rebindSSOIdentity currentUser
      · exact Process.Obeys.throw fun s _ hs => callEnd_error hs.1

/-- Whoever is authenticated stays. -/
theorem stable_authenticated (currentUser : Option User) :
    (loginDiscipline ι).Stable p fun s => ∀ user ∈ currentUser, s.Established user :=
  Discipline.stable_forall fun user => (stable_established user).imp

/-- A call deletes only users of its own without a link, links only its own user or an established
one, and ends with the linked user or without a user of its own. -/
theorem resolveSSOUser_obeys (quote : String → String) (currentUser : Option User)
    (userInfo : IdentityProviderUserInfo) :
    Process.Obeys (Server.acts engine) (loginDiscipline ι) p
      (CallEnd provider userInfo.Identifier p)
      (resolveSSOUser quote currentUser provider userInfo).run
      fun s => NoneCreated p s ∧ ∀ user ∈ currentUser, s.Established user := by
  refine obeys_loginPart (fun _ _ => callEnd_error)
    (obeys_getLinkedSSOUser (stable_authenticated currentUser)) fun found => ?_
  cases found with
  | some user =>
      dsimp only
      split
      · exact Process.Obeys.throw fun s _ hs => callEnd_error hs.1
      · refine Process.Obeys.pureExcept fun s _ hs => ?_
        exact callEnd_ok (hs.1.only user) (hs.2.2 user rfl)
  | none =>
      cases currentUser with
      | none => exact (obeys_createSSOUser userInfo).weaken fun s _ hs => hs.1
      | some currentUser =>
          exact (obeys_bindSSOIdentityToUser currentUser).weaken fun s _ hs =>
            ⟨hs.1, hs.2.1 currentUser rfl⟩

private theorem ssoCall_obeys (quote : String → String) (userInfo : IdentityProviderUserInfo) :
    Process.Obeys (Server.acts engine) (loginDiscipline ι) p
      (CallEnd provider userInfo.Identifier p) (ssoCall quote provider userInfo).run
      (NoneCreated p) := by
  have huser : (take .currentUser).Obeys (Server.acts engine) (loginDiscipline ι) p
      (fun currentUser s => NoneCreated p s ∧ ∀ user ∈ currentUser, s.Established user)
      (NoneCreated p) :=
    Process.Obeys.observe (fun _ _ _ hact => hact.1)
      (fun currentUser => stable_noneCreated.and (stable_authenticated currentUser))
      fun _ _ _ hs hact => ⟨hs, hact.2⟩
  exact Process.Obeys.lift huser fun currentUser => resolveSSOUser_obeys quote currentUser userInfo

/-! ## Any interleaving -/

/-- The identities of an external account. -/
def linksOf (provider externUID : String) (s : Server ι) : List UserIdentity :=
  s.accounts.listUserIdentities { Provider := some provider, ExternUID := some externUID }

/-- An external account has at most one identity. -/
theorem linksOf_length_le (s : Server ι) : (linksOf provider externUID s).length ≤ 1 := by
  have hnodup : (linksOf provider externUID s).Nodup :=
    (List.Nodup.of_map _ s.accounts.externUIDs_nodup).sublist List.filter_sublist
  have hsame : ∀ i ∈ linksOf provider externUID s, ∀ j ∈ linksOf provider externUID s, i = j := by
    intro i hi j hj
    rcases List.mem_filter.mp hi with ⟨hi, hmatch⟩
    rcases List.mem_filter.mp hj with ⟨hj, hmatch'⟩
    rcases matches_externUID hmatch with ⟨hprovider, hlogin⟩
    rcases matches_externUID hmatch' with ⟨hprovider', hlogin'⟩
    exact s.accounts.eq_of_externUID_eq hi hj (hprovider.trans hprovider'.symm)
      (hlogin.trans hlogin'.symm)
  match hlinks : linksOf provider externUID s with
  | [] => simp
  | [_] => simp
  | i :: j :: rest =>
      rw [hlinks] at hnodup hsame
      have heq := hsame i (by simp) j (by simp)
      simp [heq] at hnodup

/-- A link is the only identity of the external account. -/
theorem linksOf_eq {user : User} {s : Server ι} (h : Linked provider externUID user s) :
    (linksOf provider externUID s).map UserIdentity.UserID = [user.ID] := by
  rcases h with ⟨identity, hmem, hprovider, hlogin, huser⟩
  have hlink : identity ∈ linksOf provider externUID s := by
    refine List.mem_filter.mpr ⟨hmem, ?_⟩
    simp [FindUserIdentity.matchesIdentity, hprovider, hlogin]
  have hle : (linksOf provider externUID s).length ≤ 1 := linksOf_length_le s
  match hlinks : linksOf provider externUID s with
  | [] =>
      rw [hlinks] at hlink
      cases hlink
  | [link] =>
      rw [hlinks] at hlink
      rw [List.map_singleton, ← List.mem_singleton.mp hlink, huser]
  | i :: j :: rest =>
      rw [hlinks] at hle
      simp at hle

/-- One external identity, one user: the calls that succeed return the same user, whose link is the
only one of the external account, and a user created by a finished call remains only as the result
of that call. -/
structure OneLink (provider externUID : String)
    (pool : Pool ι AccountAction AccountAction.Answer (Except Failure User) (Server ι)) : Prop where
  same : ∀ p q u v, pool.threads p = .done (.ok u) → pool.threads q = .done (.ok v) → u = v
  atMostOne : (linksOf provider externUID pool.state).length ≤ 1
  linked : ∀ p u, pool.threads p = .done (.ok u) →
    (linksOf provider externUID pool.state).map UserIdentity.UserID = [u.ID]
  losers : ∀ p result, pool.threads p = .done result → ∀ user ∈ pool.state.accounts.users,
    pool.state.creator user.ID = some p → result = .ok user

/-- In any interleaving of calls with one external identity, over any accounts whose identities
belong to users that have been created, there is one link. -/
theorem one_link [DecidableEq ι] (engine : UserSearch) (quote : String → String)
    (provider externUID : String) (userInfo : ι → IdentityProviderUserInfo)
    (hlogin : ∀ p, (userInfo p).Identifier = externUID) {accounts : Accounts}
    (hcreated : ∀ identity ∈ accounts.identities, identity.UserID ≤ accounts.userSequence)
    {pool : Pool ι AccountAction AccountAction.Answer (Except Failure User) (Server ι)}
    (hreach : Pool.Reaches (Server.acts engine)
      ⟨fun p => (ssoCall quote provider (userInfo p)).run, { accounts := accounts }⟩ pool) :
    OneLink provider externUID pool := by
  have hstart : Pool.Sound (Server.acts engine) (loginDiscipline ι) (CallEnd provider externUID)
      ⟨fun p => (ssoCall quote provider (userInfo p)).run, { accounts := accounts }⟩ := by
    refine ⟨⟨hcreated, fun _ _ => rfl⟩, fun p => ⟨NoneCreated p, stable_noneCreated, ?_, ?_⟩⟩
    · intro user _ hcreator
      cases hcreator
    · rw [← hlogin p]
      exact ssoCall_obeys quote (userInfo p)
  have hsound := Pool.obeys_of_reaches hstart hreach
  have hresolved : ∀ p u, pool.threads p = .done (.ok u) →
      Resolved provider externUID u pool.state :=
    fun p u hdone => (Pool.of_finished hsound hdone).resolved u rfl
  refine ⟨fun p q u v hu hv => ?_, linksOf_length_le _, fun p u hdone => ?_, ?_⟩
  · have hlinksU := linksOf_eq (hresolved p u hu).2
    have hlinksV := linksOf_eq (hresolved q v hv).2
    have hid : u.ID = v.ID := by simpa using hlinksU.symm.trans hlinksV
    exact pool.state.accounts.eq_of_userID_eq (hresolved p u hu).1 (hresolved q v hv).1 hid
  · exact linksOf_eq (hresolved p u hdone).2
  · intro p result hdone user hmem hcreator
    exact (Pool.of_finished hsound hdone).own user hmem hcreator

end

/-- Two first sign-ins at once: both create a user before either is linked, and the first to have
created one loses. -/
def signInRace :
    Pool Bool AccountAction AccountAction.Answer (Except Failure User) (Server Bool) :=
  Pool.play (Server.respond noSearch)
    (List.replicate 7 true ++ List.replicate 8 false ++ List.replicate 4 true)
    ⟨fun _ => (ssoCall id "idp" { Identifier := "ada" }).run, { accounts := .empty }⟩

theorem one_link_example :
    signInRace.state.accounts.users.map User.ID = [2] ∧ signInRace.state.creator 1 = some true ∧
      OneLink "idp" "ada" signInRace :=
  ⟨by decide +kernel, by decide +kernel,
    one_link noSearch id "idp" "ada" (fun _ => { Identifier := "ada" }) (fun _ => rfl)
      (List.forall_mem_nil _) (Server.reaches_play noSearch _ _)⟩

end Api
end MemosNote
