import Mathlib
import MemosNote.Library.CacheAside
import MemosNote.Store.Database

/-!
# The caches of users and user settings

The store keeps a cache of users by identifier and a cache of user settings by user and
key beside the database.  Every operation accesses the database in one step and the
caches in further steps, entry by entry.

Main results:

- Theorem {lit}`cacheClient_lawful`: distinct entities have distinct cache keys, and every
  write is followed by an access to the cache entry of what it wrote.
- Theorem {lit}`cached_reads_fresh`: while every cache entry that is set is the stored row, no
  read answers with a row older than a write completed before it.
- Theorem {lit}`cached_read_stale`: a reader that sets the row it read after an update serves
  the old row from the cache.
-/

namespace MemosNote
namespace Store

open Library

/-! ## Cache keys -/

def userCacheKey (userID : ℤ) : String :=
  toString userID

def getUserSettingCacheKey (userID : ℤ) (key : String) : String :=
  toString userID ++ "-" ++ key

/-- The name of a setting key. -/
def SettingKey.string : SettingKey → String
  | KEY_UNSPECIFIED => "KEY_UNSPECIFIED"
  | GENERAL => "GENERAL"
  | SHORTCUTS => "SHORTCUTS"
  | WEBHOOKS => "WEBHOOKS"
  | REFRESH_TOKENS => "REFRESH_TOKENS"
  | PERSONAL_ACCESS_TOKENS => "PERSONAL_ACCESS_TOKENS"
  | TAGS => "TAGS"

/-- An entry of one of the two caches. -/
inductive CacheKey where
  | userCache (key : String)
  | userSettingCache (key : String)
deriving DecidableEq, Repr

/-- What is cached: the row of a user or of a setting. -/
inductive Entity where
  | user (userID : ℤ)
  | userSetting (userID : ℤ) (key : SettingKey)
deriving DecidableEq, Repr

def Entity.cacheKey : Entity → CacheKey
  | user userID => .userCache (userCacheKey userID)
  | userSetting userID key => .userSettingCache (getUserSettingCacheKey userID key.string)

private theorem userCacheKey_injective : Function.Injective userCacheKey := by
  intro a b h
  exact Int.repr_injective h

private theorem SettingKey.string_injective : Function.Injective SettingKey.string := by
  intro a b h
  cases a <;> cases b <;> first | rfl | exact absurd h (by decide)

theorem SettingKey.dash_notMem_string (key : SettingKey) : '-' ∉ key.string.toList := by
  cases key <;> decide

/-- The first occurrence of a separator splits a list in one way. -/
theorem append_cons_inj {α : Type} {a : α} {x y z w : List α} (hx : a ∉ x) (hz : a ∉ z)
    (h : x ++ a :: y = z ++ a :: w) : x = z ∧ y = w := by
  rcases List.append_eq_append_iff.mp h with ⟨as, rfl, hy⟩ | ⟨as, rfl, hw⟩
  · cases as with
    | nil => exact ⟨(List.append_nil x).symm, (List.cons.inj hy).2⟩
    | cons b as => exact absurd (by rw [(List.cons.inj hy).1]; simp) hz
  · cases as with
    | nil => exact ⟨List.append_nil z, (List.cons.inj hw).2.symm⟩
    | cons b as => exact absurd (by rw [(List.cons.inj hw).1]; simp) hx

/-- The name of a setting key has no dash, so the last dash of a cache key ends the
identifier. -/
theorem getUserSettingCacheKey_inj {a b : ℤ} {k l : SettingKey}
    (h : getUserSettingCacheKey a k.string = getUserSettingCacheKey b l.string) :
    a = b ∧ k = l := by
  have hlist : (toString a).toList ++ '-' :: k.string.toList =
      (toString b).toList ++ '-' :: l.string.toList := by
    have htoList := congrArg String.toList h
    simp only [getUserSettingCacheKey, String.toList_append, List.append_assoc] at htoList
    exact htoList
  have hreverse := congrArg List.reverse hlist
  simp only [List.reverse_append, List.reverse_cons, List.append_assoc, List.singleton_append]
    at hreverse
  obtain ⟨hkey, hid⟩ := append_cons_inj (mt List.mem_reverse.mp k.dash_notMem_string)
    (mt List.mem_reverse.mp l.dash_notMem_string) hreverse
  constructor
  · exact Int.repr_injective (String.toList_injective (List.reverse_injective hid))
  · exact SettingKey.string_injective (String.toList_injective (List.reverse_injective hkey))

theorem Entity.cacheKey_injective : Function.Injective Entity.cacheKey := by
  intro a b h
  cases a with
  | user userID =>
      cases b with
      | user userID' => rw [userCacheKey_injective (CacheKey.userCache.inj h)]
      | userSetting userID' key' => exact absurd h (by simp [Entity.cacheKey])
  | userSetting userID key =>
      cases b with
      | user userID' => exact absurd h (by simp [Entity.cacheKey])
      | userSetting userID' key' =>
          obtain ⟨rfl, rfl⟩ := getUserSettingCacheKey_inj (CacheKey.userSettingCache.inj h)
          rfl

/-! ## Operations -/

/-- A cached value. -/
inductive Row (V : Type) where
  | user (user : User)
  | userSetting (userSetting : UserSetting V)
deriving DecidableEq, Repr

/-- The operations on users and settings. -/
inductive StoreOp (V : Type) where
  | getUser (find : FindUser)
  | listUsers (find : FindUser)
  | updateUser (update : UpdateUser)
  | deleteUser (id : ℤ)
  | getUserSetting (find : FindUserSetting)
  | listUserSettings (find : FindUserSetting)
  | upsertUserSetting (upsert : UserSetting V)
deriving DecidableEq, Repr

section

variable {V : Type} (engine : UserSearch)

/-- The stored row of an entity. -/
def Database.row? (d : Database V) : Entity → Option (Row V)
  | .user userID => (d.user? userID).map .user
  | .userSetting userID key => (d.userSetting? userID key).map .userSetting

def setUser (user : User) : CacheAction Entity (Row V) :=
  .set (.user user.ID) (.user user)

def setUserSetting (s : UserSetting V) : CacheAction Entity (Row V) :=
  .set (.userSetting s.UserID s.Key) (.userSetting s)

/-- The cached entity that an operation looks up first. -/
def StoreOp.asks : StoreOp V → Option Entity
  | getUser find => find.ID.map .user
  | getUserSetting find => find.UserID.map (.userSetting · find.Key)
  | _ => none

/-- The entity whose row an operation answers: a read by identifier, or by user and key. -/
def StoreOp.observes : StoreOp V → Option Entity
  | getUser find => if find = { ID := find.ID } then find.ID.map .user else none
  | getUserSetting find =>
      if find.Key = .KEY_UNSPECIFIED then none else find.UserID.map (.userSetting · find.Key)
  | _ => none

/-- {lit}`ListUsers` sets the cache entry of every row. -/
def accessListUsers (find : FindUser) (d : Database V) : Access (Database V) Entity (Row V) where
  database := d
  actions := ((d.listUsers engine find).getD []).map setUser

/-- {lit}`GetUser` lists, and sets the entry of the first row once more. -/
def accessGetUser (find : FindUser) (d : Database V) : Access (Database V) Entity (Row V) :=
  match ((d.listUsers engine find).getD []).head? with
  | none => accessListUsers engine find d
  | some user =>
      { database := d
        actions := (accessListUsers engine find d).actions ++ [setUser user]
        result := some (.user user) }

/-- {lit}`UpdateUser` sets the entry of the new row. -/
def accessUpdateUser (update : UpdateUser) (d : Database V) :
    Access (Database V) Entity (Row V) :=
  match d.updateUser update with
  | none => { database := d }
  | some (user, d') =>
      { database := d', written := [.user user.ID], actions := [setUser user] }

/-- {lit}`DeleteUser` deletes the entries of the user and of the settings it removed. -/
def accessDeleteUser (id : ℤ) (d : Database V) : Access (Database V) Entity (Row V) :=
  let (keys, d') := d.deleteUser id
  let entities := .user id :: keys.map (Entity.userSetting id)
  { database := d', written := entities, actions := entities.map .delete }

/-- {lit}`ListUserSettings` skips the rows with an unknown key. -/
def knownUserSettings (find : FindUserSetting) (d : Database V) : List (UserSetting V) :=
  (d.listUserSettings find).filter (·.Key ≠ .KEY_UNSPECIFIED)

/-- {lit}`ListUserSettings` sets the cache entry of every row with a known key. -/
def accessListUserSettings (find : FindUserSetting) (d : Database V) :
    Access (Database V) Entity (Row V) where
  database := d
  actions := (knownUserSettings find d).map setUserSetting

/-- {lit}`GetUserSetting` lists; a single row is the answer, and its entry is set once more. -/
def accessGetUserSetting (find : FindUserSetting) (d : Database V) :
    Access (Database V) Entity (Row V) :=
  match knownUserSettings find d with
  | [userSetting] =>
      { database := d
        actions := (accessListUserSettings find d).actions ++ [setUserSetting userSetting]
        result := some (.userSetting userSetting) }
  | _ => accessListUserSettings find d

/-- {lit}`UpsertUserSetting` refuses an unknown key and sets the entry of the new row. -/
def accessUpsertUserSetting (upsert : UserSetting V) (d : Database V) :
    Access (Database V) Entity (Row V) :=
  if upsert.Key = .KEY_UNSPECIFIED then { database := d }
  else
    { database := d.upsertUserSetting upsert
      written := [.userSetting upsert.UserID upsert.Key]
      actions := [setUserSetting upsert] }

def StoreOp.access : StoreOp V → Database V → Access (Database V) Entity (Row V)
  | getUser find => accessGetUser engine find
  | listUsers find => accessListUsers engine find
  | updateUser update => accessUpdateUser update
  | deleteUser id => accessDeleteUser id
  | getUserSetting find => accessGetUserSetting find
  | listUserSettings find => accessListUserSettings find
  | upsertUserSetting upsert => accessUpsertUserSetting upsert

/-- The store as a client of its caches. -/
def cacheClient (V : Type) :
    CacheClient (Database V) Entity CacheKey (Row V) (StoreOp V) where
  lookup := Database.row?
  cacheKey := Entity.cacheKey
  asks := StoreOp.asks
  observes := StoreOp.observes
  access := StoreOp.access engine

/-! ## The laws -/

private theorem Database.row?_user (d : Database V) (userID : ℤ) :
    d.row? (.user userID) = (d.user? userID).map .user := rfl

private theorem Database.row?_userSetting (d : Database V) (userID : ℤ) (key : SettingKey) :
    d.row? (.userSetting userID key) = (d.userSetting? userID key).map .userSetting := rfl

theorem row?_ne_user {d d' : Database V} {userID : ℤ}
    (h : d'.row? (.user userID) ≠ d.row? (.user userID)) : d'.user? userID ≠ d.user? userID :=
  fun heq => h (by rw [Database.row?, Database.row?, heq])

theorem row?_ne_userSetting {d d' : Database V} {userID : ℤ} {key : SettingKey}
    (h : d'.row? (.userSetting userID key) ≠ d.row? (.userSetting userID key)) :
    d'.userSetting? userID key ≠ d.userSetting? userID key :=
  fun heq => h (by rw [Database.row?, Database.row?, heq])

/-- The reads leave the database as it is. -/
theorem database_accessGetUser (find : FindUser) (d : Database V) :
    (accessGetUser engine find d).database = d := by
  unfold accessGetUser
  split <;> rfl

private theorem written_accessGetUser (find : FindUser) (d : Database V) :
    (accessGetUser engine find d).written = [] := by
  unfold accessGetUser
  split <;> rfl

theorem database_accessGetUserSetting (find : FindUserSetting) (d : Database V) :
    (accessGetUserSetting find d).database = d := by
  unfold accessGetUserSetting
  split <;> rfl

private theorem written_accessGetUserSetting (find : FindUserSetting) (d : Database V) :
    (accessGetUserSetting find d).written = [] := by
  unfold accessGetUserSetting
  split <;> rfl

/-- An update writes the row of its user only. -/
theorem written_accessUpdateUser (update : UpdateUser) (d : Database V) (k : Entity)
    (hk : (accessUpdateUser update d).database.row? k ≠ d.row? k) :
    k ∈ (accessUpdateUser update d).written := by
  unfold accessUpdateUser at hk ⊢
  cases h : d.updateUser update with
  | none => simp [h] at hk
  | some result =>
      obtain ⟨user, d'⟩ := result
      simp only [h] at hk
      simp only [List.mem_singleton]
      cases k with
      | user userID =>
          rw [Database.ID_updateUser h]
          by_contra hne
          exact row?_ne_user hk
            (Database.user?_updateUser h userID fun heq => hne (congrArg Entity.user heq))
      | userSetting userID key =>
          exact absurd (Database.userSetting?_updateUser h userID key) (row?_ne_userSetting hk)

/-- A deletion writes the row of its user and the settings it removes. -/
theorem written_accessDeleteUser (id : ℤ) (d : Database V) (k : Entity)
    (hk : (accessDeleteUser id d).database.row? k ≠ d.row? k) :
    k ∈ (accessDeleteUser id d).written := by
  change k ∈ Entity.user id :: (d.deleteUser id).1.map (Entity.userSetting id)
  change (d.deleteUser id).2.row? k ≠ d.row? k at hk
  cases k with
  | user userID =>
      by_cases hid : userID = id
      · exact hid ▸ List.mem_cons_self
      · exact absurd (d.user?_deleteUser hid) (row?_ne_user hk)
  | userSetting userID key =>
      by_cases hid : userID = id
      · subst hid
        exact List.mem_cons_of_mem _ (List.mem_map_of_mem
          (d.mem_keys_deleteUser (row?_ne_userSetting hk)))
      · exact absurd (d.userSetting?_deleteUser hid key) (row?_ne_userSetting hk)

/-- An upsert writes the row of its setting only. -/
theorem written_accessUpsertUserSetting (upsert : UserSetting V) (d : Database V) (k : Entity)
    (hk : (accessUpsertUserSetting upsert d).database.row? k ≠ d.row? k) :
    k ∈ (accessUpsertUserSetting upsert d).written := by
  unfold accessUpsertUserSetting at hk ⊢
  split at hk
  · exact absurd rfl hk
  · rename_i hkey
    rw [if_neg hkey, List.mem_singleton]
    cases k with
    | user userID => exact absurd rfl hk
    | userSetting userID key =>
        by_contra hne
        refine row?_ne_userSetting hk (d.userSetting?_upsertUserSetting upsert fun heq => hne ?_)
        rw [(Prod.mk.inj heq).1, (Prod.mk.inj heq).2]

/-- A read by identifier answers with the row of the user. -/
theorem result_accessGetUser (d : Database V) (id : ℤ) :
    (accessGetUser engine { ID := some id } d).result = d.row? (.user id) := by
  unfold accessGetUser
  rw [d.listUsers_id engine id, Database.row?_user]
  cases d.user? id <;> simp [accessListUsers]

/-- A read by user and key answers with the row of the setting. -/
theorem result_accessGetUserSetting (d : Database V) (userID : ℤ) {key : SettingKey}
    (hkey : key ≠ .KEY_UNSPECIFIED) :
    (accessGetUserSetting { UserID := some userID, Key := key } d).result =
      d.row? (.userSetting userID key) := by
  have hknown : knownUserSettings { UserID := some userID, Key := key } d =
      (d.userSetting? userID key).toList := by
    rw [knownUserSettings, d.listUserSettings_key userID hkey]
    refine List.filter_eq_self.mpr fun s hs => ?_
    rw [(Database.key_of_userSetting? (Option.mem_toList.mp hs)).2]
    simpa using hkey
  unfold accessGetUserSetting
  rw [hknown, Database.row?_userSetting]
  cases d.userSetting? userID key <;> simp [accessListUserSettings]

/-- The store obeys the laws of a store with a cache. -/
theorem cacheClient_lawful (V : Type) : (cacheClient engine V).Lawful where
  cacheKey_injective := Entity.cacheKey_injective
  written_of_lookup_ne op d k hk := by
    cases op with
    | getUser find =>
        refine absurd ?_ hk
        exact congrArg (Database.row? · k) (database_accessGetUser engine find d)
    | listUsers find => exact absurd rfl hk
    | updateUser update => exact written_accessUpdateUser update d k hk
    | deleteUser id => exact written_accessDeleteUser id d k hk
    | getUserSetting find =>
        refine absurd ?_ hk
        exact congrArg (Database.row? · k) (database_accessGetUserSetting find d)
    | listUserSettings find => exact absurd rfl hk
    | upsertUserSetting upsert => exact written_accessUpsertUserSetting upsert d k hk
  action_of_written op d k hk := by
    cases op with
    | getUser find =>
        exact absurd ((written_accessGetUser engine find d) ▸ hk) List.not_mem_nil
    | listUsers find => exact absurd hk List.not_mem_nil
    | updateUser update =>
        change k ∈ (accessUpdateUser update d).written at hk
        change ∃ a ∈ (accessUpdateUser update d).actions, a.entity = k
        unfold accessUpdateUser at hk ⊢
        cases h : d.updateUser update with
        | none => simp [h] at hk
        | some result =>
            simp only [h, List.mem_singleton] at hk
            exact ⟨setUser result.1, List.mem_singleton_self _, hk.symm⟩
    | deleteUser id => exact ⟨.delete k, List.mem_map_of_mem hk, rfl⟩
    | getUserSetting find =>
        exact absurd ((written_accessGetUserSetting find d) ▸ hk) List.not_mem_nil
    | listUserSettings find => exact absurd hk List.not_mem_nil
    | upsertUserSetting upsert =>
        change k ∈ (accessUpsertUserSetting upsert d).written at hk
        change ∃ a ∈ (accessUpsertUserSetting upsert d).actions, a.entity = k
        unfold accessUpsertUserSetting at hk ⊢
        split at hk
        · exact absurd hk List.not_mem_nil
        · rename_i hkey
          rw [if_neg hkey]
          exact ⟨setUserSetting upsert, List.mem_singleton_self _, (List.mem_singleton.mp hk).symm⟩
  result_eq op d k hk := by
    cases op with
    | getUser find =>
        change (if find = { ID := find.ID } then find.ID.map Entity.user else none) = some k at hk
        split at hk
        · rename_i hfind
          obtain ⟨id, hid, rfl⟩ := Option.map_eq_some_iff.mp hk
          rw [hid] at hfind
          change (accessGetUser engine find d).result =
            (accessGetUser engine find d).database.row? (.user id)
          rw [database_accessGetUser, hfind]
          exact result_accessGetUser engine d id
        · exact absurd hk (by simp)
    | getUserSetting find =>
        obtain ⟨userID, key⟩ := find
        change (if key = .KEY_UNSPECIFIED then none
          else userID.map (Entity.userSetting · key)) = some k at hk
        split at hk
        · exact absurd hk (by simp)
        · rename_i hkey
          obtain ⟨id, rfl, rfl⟩ := Option.map_eq_some_iff.mp hk
          change (accessGetUserSetting _ d).result =
            (accessGetUserSetting _ d).database.row? (.userSetting id key)
          rw [database_accessGetUserSetting]
          exact result_accessGetUserSetting d id hkey
    | listUsers find => exact absurd hk (by simp [cacheClient, StoreOp.observes])
    | updateUser update => exact absurd hk (by simp [cacheClient, StoreOp.observes])
    | deleteUser id => exact absurd hk (by simp [cacheClient, StoreOp.observes])
    | listUserSettings find => exact absurd hk (by simp [cacheClient, StoreOp.observes])
    | upsertUserSetting upsert => exact absurd hk (by simp [cacheClient, StoreOp.observes])

/-! ## Runs -/

/-- The store with its caches, and the operations under way. -/
abbrev CachedStore (V : Type) :=
  CacheAside (Database V) Entity CacheKey (Row V) (StoreOp V)

/-- The store after a start: empty caches. -/
def CachedStore.initial (d : Database V) : CachedStore V :=
  { database := d, cached := fun _ => none }

/-- In every run in which each cache entry that is set is the stored row at that moment, for
any number of operations and whatever the database holds at the start, no read by
identifier, or by user and key, answers with a row older than a write that had completed
when the read started. -/
theorem cached_reads_fresh (d : Database V) (events : List (CacheEvent CacheKey (StoreOp V)))
    (s : CachedStore V)
    (hrun : Run (CacheAside.step (cacheClient engine V)) (CacheAside.Current (cacheClient engine V))
      (CachedStore.initial d) events s) :
    s.Fresh (cacheClient engine V) := by
  refine CacheAside.reads_fresh (cacheClient_lawful engine V) hrun ?_
  exact CacheAside.coherent_initial fun k v hv => absurd hv (by simp)

end

/-- A search that matches nothing; no query here has a text. -/
def noSearch : UserSearch where
  isBlank := fun _ => true
  isMatch := fun _ _ => false
  rank := fun _ _ => 0

/-- A database with one user. -/
def oneUser : Database String where
  users := [{ ID := 1, Username := "ada" }]
  userSettings := []
  users_nodup := by decide
  userSettings_nodup := by decide

/-- The update that archives the user. -/
def archiveUser : StoreOp String :=
  .updateUser { ID := 1, RowStatus := some .ARCHIVED }

/-- The user is read, archived and read again, one operation after the other. -/
theorem cached_reads_fresh_example :
    ∃ s, FreeRun (CacheAside.step (cacheClient noSearch String)) (CachedStore.initial oneUser)
      [.start 0 (.getUser { ID := some 1 }), .access 0, .act 0, .act 0, .finish 0,
        .start 1 archiveUser, .access 1, .act 1, .finish 1,
        .start 2 (.getUser { ID := some 1 })] s ∧
      s.Fresh (cacheClient noSearch String) := by
  obtain ⟨s, hrun⟩ : ∃ s, Run (CacheAside.step (cacheClient noSearch String))
      (CacheAside.Current (cacheClient noSearch String)) (CachedStore.initial oneUser)
      [.start 0 (.getUser { ID := some 1 }), .access 0, .act 0, .act 0, .finish 0,
        .start 1 archiveUser, .access 1, .act 1, .finish 1,
        .start 2 (.getUser { ID := some 1 })] s := by
    refine ⟨_, .cons trivial rfl (.cons trivial rfl (.cons ?_ rfl (.cons ?_ rfl (.cons trivial rfl
      (.cons trivial rfl (.cons trivial rfl (.cons ?_ rfl (.cons trivial rfl
        (.cons trivial rfl (.nil _))))))))))⟩
    · rintro k v actions writes answer ⟨⟩
      rfl
    · rintro k v actions writes answer ⟨⟩
      rfl
    · rintro k v actions writes answer ⟨⟩
      rfl
  exact ⟨s, hrun.mono fun _ _ _ => trivial, cached_reads_fresh noSearch oneUser _ s hrun⟩

/-- A read fetches the row of a user, the user is archived, and the read then sets the row
it fetched: the next read is served the row of before, from the cache. -/
theorem cached_read_stale :
    ∃ s, FreeRun (CacheAside.step (cacheClient noSearch String)) (CachedStore.initial oneUser)
      [.start 0 (.getUser { ID := some 1 }), .access 0,
        .start 1 archiveUser, .access 1, .act 1, .finish 1,
        .act 0, .act 0, .finish 0, .start 2 (.getUser { ID := some 1 })] s ∧
      s.cached (.userCache "1") = some (.user { ID := 1, Username := "ada" }) ∧
      (s.database.user? 1).map User.RowStatus = some .ARCHIVED ∧
      ¬s.Fresh (cacheClient noSearch String) := by
  refine ⟨_, .cons trivial rfl (.cons trivial rfl (.cons trivial rfl (.cons trivial rfl
    (.cons trivial rfl (.cons trivial rfl (.cons trivial rfl (.cons trivial rfl
      (.cons trivial rfl (.cons trivial rfl (.nil _)))))))))), rfl, rfl, fun h => ?_⟩
  have hread := h ⟨.user 1, 1, some (.user { ID := 1, Username := "ada" })⟩ List.mem_cons_self
  revert hread
  unfold CacheAside.NotOlder
  decide

end Store
end MemosNote
