import MemosNote.Store.DeleteUser

/-!
# Accounts and their external identities

The tables {lit}`user` and {lit}`user_identity` as those who create accounts see them: rows in the
order of their creation, with the uniqueness constraints of both tables.

Main results:

- Structure {lit}`Accounts`: the two tables with their keys unique.
- Theorem {lit}`Accounts.listUsers_limitOne`: a query for one user is empty only when there are no
  users.
- Theorem {lit}`Accounts.deleteUser_tables`: a deletion does to the two tables what it does to them
  among all tables.
-/

namespace MemosNote
namespace Store

/-- The conditions of a query for identities. -/
structure FindUserIdentity where
  ID : Option ℤ := none
  UserID : Option ℤ := none
  Provider : Option String := none
  ExternUID : Option String := none
deriving DecidableEq, Repr

def FindUserIdentity.matchesIdentity (find : FindUserIdentity) (identity : UserIdentity) : Bool :=
  find.ID.all (· == identity.ID) && find.UserID.all (· == identity.UserID) &&
    find.Provider.all (· == identity.Provider) && find.ExternUID.all (· == identity.ExternUID)

/-- The two tables, in the order of creation.  Identifiers are never assigned again. -/
structure Accounts where
  users : List User := []
  identities : List UserIdentity := []
  userSequence : ℤ := 0
  identitySequence : ℤ := 0
  userIDs : users.Pairwise fun u v => u.ID < v.ID := by decide
  userIDs_le : ∀ user ∈ users, user.ID ≤ userSequence := by decide
  usernames_nodup : (users.map User.Username).Nodup := by decide
  externUIDs_nodup : (identities.map fun i => (i.Provider, i.ExternUID)).Nodup := by decide
  providers_nodup : (identities.map fun i => (i.UserID, i.Provider)).Nodup := by decide

namespace Accounts

/-- No accounts. -/
def empty : Accounts := {}

variable (accounts : Accounts)

theorem userIDs_nodup : (accounts.users.map User.ID).Nodup := by
  rw [List.Nodup, List.pairwise_map]
  exact accounts.userIDs.imp fun h => ne_of_lt h

/-- Users with one identifier are one. -/
theorem eq_of_userID_eq {u v : User} (hu : u ∈ accounts.users) (hv : v ∈ accounts.users)
    (h : u.ID = v.ID) : u = v :=
  List.inj_on_of_nodup_map accounts.userIDs_nodup hu hv h

/-- Identities of one external account are one. -/
theorem eq_of_externUID_eq {i j : UserIdentity} (hi : i ∈ accounts.identities)
    (hj : j ∈ accounts.identities) (hprovider : i.Provider = j.Provider)
    (hlogin : i.ExternUID = j.ExternUID) : i = j :=
  List.inj_on_of_nodup_map accounts.externUIDs_nodup hi hj (by rw [hprovider, hlogin])

/-! ## Queries -/

/-- The table of users, for its queries. -/
def database : Database Empty where
  users := accounts.users
  userSettings := []
  users_nodup := accounts.userIDs_nodup
  userSettings_nodup := List.nodup_nil

def listUsers (engine : UserSearch) (find : FindUser) : Option (List User) :=
  accounts.database.listUsers engine find

/-- The user with an identifier. -/
def getUser (id : ℤ) : Option User :=
  accounts.database.user? id

def listUserIdentities (find : FindUserIdentity) : List UserIdentity :=
  accounts.identities.filter find.matchesIdentity

/-- The first identity that matches. -/
def getUserIdentity (find : FindUserIdentity) : Option UserIdentity :=
  (accounts.listUserIdentities find).head?

variable {accounts}

theorem getUser_some {id : ℤ} {user : User} (h : accounts.getUser id = some user) :
    user ∈ accounts.users ∧ user.ID = id :=
  ⟨List.mem_of_find?_eq_some h, Database.ID_of_user? h⟩

theorem getUserIdentity_some {find : FindUserIdentity} {identity : UserIdentity}
    (h : accounts.getUserIdentity find = some identity) :
    identity ∈ accounts.identities ∧ find.matchesIdentity identity = true :=
  List.mem_filter.mp (List.mem_of_head? h)

/-- A query for one user is empty only when there are no users. -/
theorem listUsers_limitOne {engine : UserSearch} {users : List User}
    (h : accounts.listUsers engine { Limit := some 1 } = some users) :
    users = [] ↔ accounts.users = [] := by
  have hmatches : ∀ user, FindUser.matchesUser engine { Limit := some 1 } user = true := by
    intro user
    simp [FindUser.matchesUser]
  have hall : accounts.users.filter (FindUser.matchesUser engine { Limit := some 1 }) =
      accounts.users := List.filter_eq_self.mpr fun user _ => hmatches user
  have husers : (accounts.users.insertionSort
      fun a b => FindUser.precedes engine { Limit := some 1 } a b).take 1 = users := by
    have h' := h
    simp only [listUsers, Database.listUsers, database, hall] at h'
    simpa using h'
  have hlength := congrArg List.length husers
  rw [List.length_take, List.length_insertionSort] at hlength
  rw [← List.length_eq_zero_iff, ← List.length_eq_zero_iff]
  omega

/-! ## Writes -/

/-- The row of a new user. -/
def newUser (accounts : Accounts) (now : ℤ) (create : User) : User where
  ID := accounts.userSequence + 1
  RowStatus := .NORMAL
  CreatedTs := now
  UpdatedTs := now
  Username := create.Username
  Role := create.Role
  Email := create.Email
  Nickname := create.Nickname
  PasswordHash := create.PasswordHash
  AvatarURL := create.AvatarURL
  Description := ""

def createUser (now : ℤ) (create : User) (accounts : Accounts) :
    Except String (User × Accounts) :=
  if hname : create.Username ∈ accounts.users.map User.Username then
    .error "UNIQUE constraint failed: user.username"
  else
    .ok (accounts.newUser now create,
      { accounts with
        users := accounts.users ++ [accounts.newUser now create]
        userSequence := accounts.userSequence + 1
        userIDs := by
          rw [List.pairwise_append]
          refine ⟨accounts.userIDs, List.pairwise_singleton _ _, fun u hu v hv => ?_⟩
          rw [List.mem_singleton.mp hv]
          exact Int.lt_add_one_iff.mpr (accounts.userIDs_le u hu)
        userIDs_le := by
          intro u hu
          rcases List.mem_append.mp hu with hu | hu
          · exact (accounts.userIDs_le u hu).trans (by omega)
          · rw [List.mem_singleton.mp hu]
            exact le_refl _
        usernames_nodup := by
          rw [List.map_append, List.nodup_append]
          refine ⟨accounts.usernames_nodup, List.nodup_singleton _, ?_⟩
          intro name hmem name' hmem' heq
          rw [heq, List.mem_singleton.mp hmem'] at hmem
          exact hname hmem })

/-- The row of a new identity. -/
def newIdentity (accounts : Accounts) (now : ℤ) (create : UserIdentity) : UserIdentity where
  ID := accounts.identitySequence + 1
  UserID := create.UserID
  Provider := create.Provider
  ExternUID := create.ExternUID
  CreatedTs := now
  UpdatedTs := now

def createUserIdentity (now : ℤ) (create : UserIdentity) (accounts : Accounts) :
    Except String (UserIdentity × Accounts) :=
  if hlogin : (create.Provider, create.ExternUID) ∈
      accounts.identities.map fun i => (i.Provider, i.ExternUID) then
    .error "UNIQUE constraint failed: user_identity.provider, user_identity.extern_uid"
  else if hprovider : (create.UserID, create.Provider) ∈
      accounts.identities.map fun i => (i.UserID, i.Provider) then
    .error "UNIQUE constraint failed: user_identity.user_id, user_identity.provider"
  else
    .ok (accounts.newIdentity now create,
      { accounts with
        identities := accounts.identities ++ [accounts.newIdentity now create]
        identitySequence := accounts.identitySequence + 1
        externUIDs_nodup := by
          rw [List.map_append, List.nodup_append]
          refine ⟨accounts.externUIDs_nodup, List.nodup_singleton _, ?_⟩
          intro key hmem key' hmem' heq
          rw [heq, List.mem_singleton.mp hmem'] at hmem
          exact hlogin hmem
        providers_nodup := by
          rw [List.map_append, List.nodup_append]
          refine ⟨accounts.providers_nodup, List.nodup_singleton _, ?_⟩
          intro key hmem key' hmem' heq
          rw [heq, List.mem_singleton.mp hmem'] at hmem
          exact hprovider hmem })

/-- The user and the identities of the user are gone. -/
def deleteUser (id : ℤ) (accounts : Accounts) : Accounts where
  users := accounts.users.filter (·.ID ≠ id)
  identities := accounts.identities.filter (·.UserID ≠ id)
  userSequence := accounts.userSequence
  identitySequence := accounts.identitySequence
  userIDs := accounts.userIDs.sublist List.filter_sublist
  userIDs_le := fun u hu => accounts.userIDs_le u (List.mem_of_mem_filter hu)
  usernames_nodup := accounts.usernames_nodup.sublist (List.filter_sublist.map _)
  externUIDs_nodup := accounts.externUIDs_nodup.sublist (List.filter_sublist.map _)
  providers_nodup := accounts.providers_nodup.sublist (List.filter_sublist.map _)

/-- A new user is appended, with an identifier that no user has had. -/
theorem createUser_ok {now : ℤ} {create user : User} {accounts' : Accounts}
    (h : accounts.createUser now create = .ok (user, accounts')) :
    user = accounts.newUser now create ∧ accounts'.users = accounts.users ++ [user] ∧
      accounts'.identities = accounts.identities ∧
      accounts'.userSequence = accounts.userSequence + 1 := by
  rw [createUser] at h
  split at h
  · cases h
  · cases h
    exact ⟨rfl, rfl, rfl, rfl⟩

/-- A new identity is appended. -/
theorem createUserIdentity_ok {now : ℤ} {create identity : UserIdentity} {accounts' : Accounts}
    (h : accounts.createUserIdentity now create = .ok (identity, accounts')) :
    identity = accounts.newIdentity now create ∧
      accounts'.identities = accounts.identities ++ [identity] ∧
      accounts'.users = accounts.users ∧ accounts'.userSequence = accounts.userSequence := by
  rw [createUserIdentity] at h
  split at h
  · cases h
  · split at h
    · cases h
    · cases h
      exact ⟨rfl, rfl, rfl, rfl⟩

theorem mem_users_deleteUser {id : ℤ} {user : User} :
    user ∈ (accounts.deleteUser id).users ↔ user ∈ accounts.users ∧ user.ID ≠ id := by
  simp [deleteUser]

theorem mem_identities_deleteUser {id : ℤ} {identity : UserIdentity} :
    identity ∈ (accounts.deleteUser id).identities ↔
      identity ∈ accounts.identities ∧ identity.UserID ≠ id := by
  simp [deleteUser]

/-- A deletion does to the two tables what it does to them among all tables. -/
theorem deleteUser_tables {failpoint : Bool} {db db' : Tables} {id : ℤ}
    {result : DeleteUserResult} (h : DeleteUser failpoint db id = .ok (result, db'))
    (husers : db.users = accounts.users) (hidentities : db.userIdentities = accounts.identities) :
    db'.users = (accounts.deleteUser id).users ∧
      db'.userIdentities = (accounts.deleteUser id).identities := by
  rcases exists_targets_of_ok h with ⟨targets, -, rfl⟩
  have hkept : ∀ x : ℤ, (∀ key ∈ [x], key ∉ [id]) ↔ x ≠ id := by simp
  dsimp only [Tables.deleteUserTargetsTx, Tables.deleteUserRowTx, Tables.deleteMemosTx,
    Tables.deleteMemoRelationsTx, Tables.deleteUserSettingsTx, Tables.deleteUserIdentitiesTx,
    Tables.deleteInboxesByIDsTx, Tables.deleteMemoSharesTx, Tables.deleteReactionsByCreatorTx,
    Tables.deleteAttachmentsByIDsTx, Tables.deleteReactionsByContentIDsTx, deleteUser]
  rw [husers, hidentities, deleteIn, deleteIn]
  simp only [hkept, ne_eq, and_self]

end Accounts

end Store
end MemosNote
