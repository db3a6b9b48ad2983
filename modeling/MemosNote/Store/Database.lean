import Mathlib.Data.Int.Notation
import Mathlib.Data.List.Sort

/-!
# Users and user settings in the database

The rows of the tables {lit}`user` and {lit}`user_setting` and the driver's accesses to them.
The value of a setting is kept decoded; its type is a parameter.

Main results:

- Structure {lit}`Database`: the two tables with their keys unique.
- Theorem {lit}`head?_listUsers_id`, Theorem {lit}`head?_listUserSettings_key`: a query by
  key answers with the row of that key.
- Theorems {lit}`user?_updateUser`, {lit}`user?_deleteUser`, {lit}`userSetting?_deleteUser`,
  {lit}`userSetting?_upsertUserSetting`: what a write changes.
-/

namespace MemosNote
namespace Store

inductive RowStatus where
  | NORMAL
  | ARCHIVED
deriving DecidableEq, Repr

inductive Role where
  | ADMIN
  | USER
deriving DecidableEq, Repr

/-- A row of the table {lit}`user`. -/
structure User where
  ID : ℤ
  RowStatus : RowStatus := .NORMAL
  CreatedTs : ℤ := 0
  UpdatedTs : ℤ := 0
  Username : String
  Role : Role := .USER
  Email : String := ""
  Nickname : String := ""
  PasswordHash : String := ""
  AvatarURL : String := ""
  Description : String := ""
deriving DecidableEq, Repr

/-- The changes of an update; {lit}`Password` is never written by the driver. -/
structure UpdateUser where
  ID : ℤ
  UpdatedTs : Option ℤ := none
  RowStatus : Option RowStatus := none
  Username : Option String := none
  Role : Option Role := none
  Email : Option String := none
  Nickname : Option String := none
  Password : Option String := none
  AvatarURL : Option String := none
  PasswordHash : Option String := none
  Description : Option String := none
deriving DecidableEq, Repr

structure FindUser where
  ID : Option ℤ := none
  IDList : List ℤ := []
  UsernameList : List String := []
  RowStatus : Option RowStatus := none
  Username : Option String := none
  Role : Option Role := none
  Email : Option String := none
  Nickname : Option String := none
  Search : Option String := none
  Filters : List String := []
  Limit : Option ℕ := none
deriving DecidableEq, Repr

/-- The keys of user settings; a stored key the code does not know reads as the first. -/
inductive SettingKey where
  | KEY_UNSPECIFIED
  | GENERAL
  | SHORTCUTS
  | WEBHOOKS
  | REFRESH_TOKENS
  | PERSONAL_ACCESS_TOKENS
  | TAGS
deriving DecidableEq, Repr

/-- A row of the table {lit}`user_setting`. -/
structure UserSetting (V : Type) where
  UserID : ℤ
  Key : SettingKey
  Value : V
deriving DecidableEq, Repr

structure FindUserSetting where
  UserID : Option ℤ := none
  Key : SettingKey := .KEY_UNSPECIFIED
deriving DecidableEq, Repr

/-- The text search over users: which queries are blank, whether a row matches, and how
well. -/
structure UserSearch where
  isBlank : String → Bool
  isMatch : String → User → Bool
  rank : String → User → ℕ

/-- The two tables; their primary and unique keys hold. -/
structure Database (V : Type) where
  users : List User
  userSettings : List (UserSetting V)
  users_nodup : (users.map User.ID).Nodup
  userSettings_nodup : (userSettings.map fun s => (s.UserID, s.Key)).Nodup

namespace UpdateUser

/-- The assignments of the statement, on one row. -/
def assign (update : UpdateUser) (user : User) : User where
  ID := user.ID
  RowStatus := update.RowStatus.getD user.RowStatus
  CreatedTs := user.CreatedTs
  UpdatedTs := update.UpdatedTs.getD user.UpdatedTs
  Username := update.Username.getD user.Username
  Role := update.Role.getD user.Role
  Email := update.Email.getD user.Email
  Nickname := update.Nickname.getD user.Nickname
  PasswordHash := update.PasswordHash.getD user.PasswordHash
  AvatarURL := update.AvatarURL.getD user.AvatarURL
  Description := update.Description.getD user.Description

/-- The statement assigns something; with an empty list of assignments it is malformed. -/
def assigns (update : UpdateUser) : Bool :=
  update.UpdatedTs.isSome || update.RowStatus.isSome || update.Username.isSome ||
    update.Email.isSome || update.Nickname.isSome || update.AvatarURL.isSome ||
    update.PasswordHash.isSome || update.Description.isSome || update.Role.isSome

end UpdateUser

namespace FindUser

/-- The conditions of the query. -/
def matchesUser (engine : UserSearch) (find : FindUser) (user : User) : Bool :=
  find.ID.all (· == user.ID) &&
  (find.IDList.isEmpty || find.IDList.contains user.ID) &&
  (find.UsernameList.isEmpty || find.UsernameList.contains user.Username) &&
  find.RowStatus.all (· == user.RowStatus) &&
  find.Username.all (· == user.Username) &&
  find.Role.all (· == user.Role) &&
  find.Email.all (· == user.Email) &&
  find.Nickname.all (· == user.Nickname) &&
  find.Search.all fun search => engine.isBlank search || engine.isMatch search user

/-- Newest first, a normal row before an archived one. -/
def newer (a b : User) : Bool :=
  b.CreatedTs < a.CreatedTs ||
    (a.CreatedTs == b.CreatedTs && (a.RowStatus == .NORMAL || b.RowStatus == .ARCHIVED))

/-- The order of the query's rows: of a search, the best first and short names before long
ones. -/
def precedes (engine : UserSearch) (find : FindUser) (a b : User) : Bool :=
  match find.Search.filter fun search => !engine.isBlank search with
  | some search =>
      let rank := fun u : User => (engine.rank search u, u.Username.length)
      (rank a).1 < (rank b).1 ||
        ((rank a).1 == (rank b).1 &&
          ((rank a).2 < (rank b).2 || ((rank a).2 == (rank b).2 && newer a b)))
  | none => newer a b

end FindUser

namespace Database

variable {V : Type}

/-! ## Queries -/

/-- The row of a user. -/
def user? (d : Database V) (id : ℤ) : Option User :=
  d.users.find? (·.ID = id)

/-- The row of a user's setting. -/
def userSetting? (d : Database V) (userID : ℤ) (key : SettingKey) : Option (UserSetting V) :=
  d.userSettings.find? fun s => s.UserID = userID ∧ s.Key = key

/-- The driver's {lit}`ListUsers`; filters are not supported. -/
def listUsers (engine : UserSearch) (find : FindUser) (d : Database V) : Option (List User) :=
  if find.Filters ≠ [] then none
  else
    let rows := (d.users.filter (find.matchesUser engine)).insertionSort
      fun a b => find.precedes engine a b
    some (match find.Limit with
      | some limit => rows.take limit
      | none => rows)

/-- The driver's {lit}`ListUserSettings`. -/
def listUserSettings (find : FindUserSetting) (d : Database V) : List (UserSetting V) :=
  d.userSettings.filter fun s =>
    (find.Key == .KEY_UNSPECIFIED || s.Key == find.Key) && find.UserID.all (· == s.UserID)

/-! ## Writes -/

private theorem map_ID_assign (update : UpdateUser) (users : List User) :
    (users.map fun u => if u.ID = update.ID then update.assign u else u).map User.ID =
      users.map User.ID := by
  rw [List.map_map]
  refine List.map_congr_left fun u _ => ?_
  by_cases hu : u.ID = update.ID <;> simp [hu, UpdateUser.assign]

/-- The driver's {lit}`UpdateUser`: it fails without an assignment, without the row, or when
another user has the new name. -/
def updateUser (update : UpdateUser) (d : Database V) : Option (User × Database V) :=
  let taken := update.Username.any fun name =>
    d.users.any fun u => u.ID ≠ update.ID && u.Username == name
  if !update.assigns || taken then none
  else (d.user? update.ID).map fun user =>
    (update.assign user,
      { d with
        users := d.users.map fun u => if u.ID = update.ID then update.assign u else u
        users_nodup := by rw [map_ID_assign]; exact d.users_nodup })

/-- The driver's {lit}`DeleteUser`: the row and the settings of the user, with the keys of the
latter. -/
def deleteUser (id : ℤ) (d : Database V) : List SettingKey × Database V :=
  ((d.userSettings.filter (·.UserID = id)).map UserSetting.Key,
    { users := d.users.filter (·.ID ≠ id)
      userSettings := d.userSettings.filter (·.UserID ≠ id)
      users_nodup := d.users_nodup.sublist (List.filter_sublist.map _)
      userSettings_nodup := d.userSettings_nodup.sublist (List.filter_sublist.map _) })

/-- The rows of a table after an upsert. -/
def upserted (upsert : UserSetting V) : List (UserSetting V) → List (UserSetting V)
  | [] => [upsert]
  | s :: settings =>
      if s.UserID = upsert.UserID ∧ s.Key = upsert.Key then upsert :: settings
      else s :: upserted upsert settings

private theorem mem_keys_upserted (upsert : UserSetting V) (settings : List (UserSetting V))
    (k : ℤ × SettingKey) :
    k ∈ (upserted upsert settings).map (fun s => (s.UserID, s.Key)) ↔
      k ∈ settings.map (fun s => (s.UserID, s.Key)) ∨ k = (upsert.UserID, upsert.Key) := by
  induction settings with
  | nil => simp [upserted]
  | cons s settings ih =>
      unfold upserted
      by_cases hs : s.UserID = upsert.UserID ∧ s.Key = upsert.Key
      · rw [if_pos hs, List.map_cons, List.map_cons, hs.1, hs.2]
        simp only [List.mem_cons]
        tauto
      · rw [if_neg hs, List.map_cons, List.map_cons, List.mem_cons, List.mem_cons, ih, or_assoc]

private theorem nodup_upserted (upsert : UserSetting V) (settings : List (UserSetting V))
    (h : (settings.map fun s => (s.UserID, s.Key)).Nodup) :
    ((upserted upsert settings).map fun s => (s.UserID, s.Key)).Nodup := by
  induction settings with
  | nil => simp [upserted]
  | cons s settings ih =>
      rw [List.map_cons, List.nodup_cons] at h
      unfold upserted
      by_cases hs : s.UserID = upsert.UserID ∧ s.Key = upsert.Key
      · rw [if_pos hs, List.map_cons, List.nodup_cons, ← hs.1, ← hs.2]
        exact h
      · rw [if_neg hs, List.map_cons, List.nodup_cons, mem_keys_upserted]
        refine ⟨?_, ih h.2⟩
        rintro (hmem | heq)
        · exact h.1 hmem
        · exact hs (Prod.mk.inj heq)

/-- The driver's {lit}`UpsertUserSetting`. -/
def upsertUserSetting (upsert : UserSetting V) (d : Database V) : Database V :=
  { d with
    userSettings := upserted upsert d.userSettings
    userSettings_nodup := nodup_upserted upsert _ d.userSettings_nodup }

/-! ## What the queries answer -/

theorem ID_of_user? {d : Database V} {id : ℤ} {user : User} (h : d.user? id = some user) :
    user.ID = id := by
  simpa using List.find?_some h

theorem key_of_userSetting? {d : Database V} {userID : ℤ} {key : SettingKey} {s : UserSetting V}
    (h : d.userSetting? userID key = some s) : s.UserID = userID ∧ s.Key = key := by
  simpa using List.find?_some h

private theorem find?_ID (users : List User) (h : (users.map User.ID).Nodup) (id : ℤ) :
    users.filter (·.ID = id) = (users.find? (·.ID = id)).toList := by
  induction users with
  | nil => rfl
  | cons u users ih =>
      rw [List.map_cons, List.nodup_cons] at h
      by_cases hu : u.ID = id
      · have hnone : users.filter (·.ID = id) = [] := by
          refine List.filter_eq_nil_iff.mpr fun u' hu' heq => h.1 ?_
          rw [hu, ← of_decide_eq_true heq]
          exact List.mem_map_of_mem hu'
        rw [List.filter_cons_of_pos (by simpa using hu), hnone,
          List.find?_cons_of_pos (by simpa using hu)]
        rfl
      · rw [List.filter_cons_of_neg (by simpa using hu),
          List.find?_cons_of_neg (by simpa using hu)]
        exact ih h.2

/-- A query by identifier answers with the row of that user. -/
theorem listUsers_id (engine : UserSearch) (d : Database V) (id : ℤ) :
    d.listUsers engine { ID := some id } = some (d.user? id).toList := by
  have hmatches : (FindUser.matchesUser engine { ID := some id }) = fun u => decide (u.ID = id) := by
    funext u
    simp [FindUser.matchesUser, Bool.beq_eq_decide_eq, eq_comm]
  unfold listUsers
  simp only [hmatches, ne_eq, not_true_eq_false, if_false]
  rw [find?_ID d.users d.users_nodup id]
  cases hrow : d.user? id <;> rw [user?] at hrow <;> rw [hrow] <;> rfl

private theorem find?_key (settings : List (UserSetting V))
    (h : (settings.map fun s => (s.UserID, s.Key)).Nodup) (userID : ℤ) (key : SettingKey) :
    settings.filter (fun s => s.UserID = userID ∧ s.Key = key) =
      (settings.find? fun s => s.UserID = userID ∧ s.Key = key).toList := by
  induction settings with
  | nil => rfl
  | cons s settings ih =>
      rw [List.map_cons, List.nodup_cons] at h
      by_cases hs : s.UserID = userID ∧ s.Key = key
      · have hnone : settings.filter (fun s => s.UserID = userID ∧ s.Key = key) = [] := by
          refine List.filter_eq_nil_iff.mpr fun s' hs' heq => h.1 ?_
          obtain ⟨hid, hkey⟩ := of_decide_eq_true heq
          rw [hs.1, hs.2, ← hid, ← hkey]
          exact List.mem_map_of_mem hs'
        rw [List.filter_cons_of_pos (by simpa using hs), hnone,
          List.find?_cons_of_pos (by simpa using hs)]
        rfl
      · rw [List.filter_cons_of_neg (by simpa using hs),
          List.find?_cons_of_neg (by simpa using hs)]
        exact ih h.2

/-- A query by user and key answers with the row of that setting. -/
theorem listUserSettings_key (d : Database V) (userID : ℤ) {key : SettingKey}
    (hkey : key ≠ .KEY_UNSPECIFIED) :
    d.listUserSettings { UserID := some userID, Key := key } =
      (d.userSetting? userID key).toList := by
  rw [userSetting?, ← find?_key d.userSettings d.userSettings_nodup userID key]
  unfold listUserSettings
  refine List.filter_congr fun s _ => ?_
  have hunspecified : (key == SettingKey.KEY_UNSPECIFIED) = false := by simpa using hkey
  rw [hunspecified, Bool.eq_iff_iff]
  simp only [Bool.false_or, Option.all_some, Bool.and_eq_true, beq_iff_eq, decide_eq_true_eq]
  rw [and_comm, eq_comm]

/-! ## What the writes change -/

/-- A successful update assigns to the row of the user and leaves every other row alone. -/
theorem updateUser_cases {update : UpdateUser} {d d' : Database V} {user : User}
    (h : d.updateUser update = some (user, d')) :
    ∃ old, d.user? update.ID = some old ∧ user = update.assign old ∧
      d'.users = (d.users.map fun u => if u.ID = update.ID then update.assign u else u) ∧
      d'.userSettings = d.userSettings := by
  simp only [updateUser] at h
  split at h
  · exact absurd h (by simp)
  · obtain ⟨old, hold, heq⟩ := Option.map_eq_some_iff.mp h
    obtain ⟨rfl, rfl⟩ := Prod.mk.inj heq
    exact ⟨old, hold, rfl, rfl, rfl⟩

theorem user?_updateUser {update : UpdateUser} {d d' : Database V} {user : User}
    (h : d.updateUser update = some (user, d')) (id : ℤ) (hid : id ≠ update.ID) :
    d'.user? id = d.user? id := by
  obtain ⟨old, -, -, husers, -⟩ := updateUser_cases h
  unfold user?
  rw [husers]
  induction d.users with
  | nil => rfl
  | cons u users ih =>
      by_cases hu : u.ID = update.ID
      · have hne' : ¬u.ID = id := fun heq => hid (heq ▸ hu)
        have hne : ¬(update.assign u).ID = id := hne'
        rw [List.map_cons, if_pos hu, List.find?_cons_of_neg (by simpa using hne),
          List.find?_cons_of_neg (by simpa using hne')]
        exact ih
      · rw [List.map_cons, if_neg hu, List.find?_cons, List.find?_cons, ih]

theorem userSetting?_updateUser {update : UpdateUser} {d d' : Database V} {user : User}
    (h : d.updateUser update = some (user, d')) (userID : ℤ) (key : SettingKey) :
    d'.userSetting? userID key = d.userSetting? userID key := by
  obtain ⟨old, -, -, -, hsettings⟩ := updateUser_cases h
  unfold userSetting?
  rw [hsettings]

theorem ID_updateUser {update : UpdateUser} {d d' : Database V} {user : User}
    (h : d.updateUser update = some (user, d')) : user.ID = update.ID := by
  obtain ⟨old, hold, rfl, -, -⟩ := updateUser_cases h
  change old.ID = update.ID
  exact ID_of_user? hold

theorem find?_filter_of_imp {α : Type} (p q : α → Bool) (xs : List α)
    (h : ∀ x, p x → q x) : (xs.filter q).find? p = xs.find? p := by
  rw [List.find?_filter]
  congr 1
  funext x
  cases hp : p x with
  | false => simp
  | true => simp [h x hp]

theorem user?_deleteUser (d : Database V) {id id' : ℤ} (hid : id' ≠ id) :
    (d.deleteUser id).2.user? id' = d.user? id' := by
  refine find?_filter_of_imp _ _ _ fun u hu => ?_
  have hu' : u.ID = id' := of_decide_eq_true hu
  simpa [hu'] using hid

theorem userSetting?_deleteUser (d : Database V) {id userID : ℤ} (hid : userID ≠ id)
    (key : SettingKey) :
    (d.deleteUser id).2.userSetting? userID key = d.userSetting? userID key := by
  refine find?_filter_of_imp _ _ _ fun s hs => ?_
  have hs' := (of_decide_eq_true hs).1
  simpa [hs'] using hid

/-- A setting that a deletion removes is among its keys. -/
theorem mem_keys_deleteUser (d : Database V) {id : ℤ} {key : SettingKey}
    (h : (d.deleteUser id).2.userSetting? id key ≠ d.userSetting? id key) :
    key ∈ (d.deleteUser id).1 := by
  cases hold : d.userSetting? id key with
  | some s =>
      have hs := key_of_userSetting? hold
      refine List.mem_map.mpr ⟨s, List.mem_filter.mpr ⟨List.mem_of_find?_eq_some hold, ?_⟩, hs.2⟩
      exact decide_eq_true hs.1
  | none =>
      refine absurd ?_ (hold ▸ h)
      refine List.find?_eq_none.mpr fun s hs => ?_
      exact List.find?_eq_none.mp hold s (List.mem_filter.mp hs).1

theorem userSetting?_upsertUserSetting (d : Database V) (upsert : UserSetting V) {userID : ℤ}
    {key : SettingKey} (hne : (userID, key) ≠ (upsert.UserID, upsert.Key)) :
    (d.upsertUserSetting upsert).userSetting? userID key = d.userSetting? userID key := by
  unfold userSetting? upsertUserSetting
  dsimp only
  have hupsert : ¬(upsert.UserID = userID ∧ upsert.Key = key) := by
    rintro ⟨rfl, rfl⟩
    exact hne rfl
  induction d.userSettings with
  | nil => simp [upserted, hupsert]
  | cons s settings ih =>
      unfold upserted
      by_cases hs : s.UserID = upsert.UserID ∧ s.Key = upsert.Key
      · have hs' : ¬(s.UserID = userID ∧ s.Key = key) := by rw [hs.1, hs.2]; exact hupsert
        rw [if_pos hs, List.find?_cons_of_neg (by simpa using hupsert),
          List.find?_cons_of_neg (by simpa using hs')]
      · rw [if_neg hs, List.find?_cons, List.find?_cons, ih]

end Database

end Store
end MemosNote
