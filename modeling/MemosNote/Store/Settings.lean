import Mathlib.Data.List.GetD
import MemosNote.Store.Database
import MemosNote.Store.Tokens

/-!
# User settings as shared objects

The cache of user settings holds pointers.  {lit}`GetUserSetting` hands out the cached
object, so an operation that assigns to its fields changes what every later read is
served, whether or not the operation goes on to store the change.

The state has the database, the objects, and for every setting the address of its
cached object.

Main results:

- Theorem {lit}`getUserSetting_cases`: what a read answers and what it leaves.
- Theorem {lit}`atomicOnError_editUserSetting`: an operation that edits the object it read
  is atomic on error exactly when each edit that fails leaves the object as it was.
- Theorem {lit}`atomicOnError_updateUserWebhook`, Theorem
  {lit}`atomicOnError_updatePATLastUsed` and others: the same for each operation.
-/

namespace MemosNote
namespace Store

/-! ## Values -/

/-- A shortcut to a filter. -/
structure Shortcut where
  Id : String
  Title : String
  Filter : String
deriving DecidableEq, Repr

/-- An address that is told of changes. -/
structure Webhook where
  Id : String
  Title : String
  Url : String
  SigningSecret : String
deriving DecidableEq, Repr

/-- The value of a setting; those that no operation here takes apart are texts. -/
inductive SettingValue where
  | general (text : String)
  | shortcuts (shortcuts : List Shortcut)
  | webhooks (webhooks : List Webhook)
  | refreshTokens (refreshTokens : List RefreshToken)
  | personalAccessTokens (tokens : List PersonalAccessToken)
  | tags (text : String)
deriving DecidableEq, Repr

namespace SettingValue

/-- The key of the setting. -/
def key : SettingValue → SettingKey
  | general _ => .GENERAL
  | shortcuts _ => .SHORTCUTS
  | webhooks _ => .WEBHOOKS
  | refreshTokens _ => .REFRESH_TOKENS
  | personalAccessTokens _ => .PERSONAL_ACCESS_TOKENS
  | tags _ => .TAGS

/-- The shortcuts, if the setting holds any. -/
def getShortcuts : SettingValue → List Shortcut
  | shortcuts list => list
  | _ => []

/-- The webhooks, if the setting holds any. -/
def getWebhooks : SettingValue → List Webhook
  | webhooks list => list
  | _ => []

/-- The tokens, if the setting holds any. -/
def getPersonalAccessTokens : SettingValue → List PersonalAccessToken
  | personalAccessTokens list => list
  | _ => []

theorem shortcuts_getShortcuts {v : SettingValue} (h : v.key = .SHORTCUTS) :
    v = .shortcuts v.getShortcuts := by
  cases v with
  | shortcuts list => rfl
  | _ => simp [key] at h

private theorem webhooks_getWebhooks {v : SettingValue} (h : v.key = .WEBHOOKS) :
    v = .webhooks v.getWebhooks := by
  cases v with
  | webhooks list => rfl
  | _ => simp [key] at h

private theorem personalAccessTokens_getPersonalAccessTokens {v : SettingValue}
    (h : v.key = .PERSONAL_ACCESS_TOKENS) :
    v = .personalAccessTokens v.getPersonalAccessTokens := by
  cases v with
  | personalAccessTokens list => rfl
  | _ => simp [key] at h

end SettingValue

/-- The codes of the errors here; an error that is passed on as it is has the first. -/
inductive Code where
  | Unknown
  | InvalidArgument
  | NotFound
  | PermissionDenied
  | Internal
deriving DecidableEq, Repr

/-- The status of a failed request. -/
structure Status where
  code : Code
  message : String
deriving DecidableEq, Repr

/-- How the driver answers during one operation: the errors of its query and of its upsert,
if they fail. -/
structure Driver where
  queryError : Option String := none
  upsertError : Option String := none
deriving DecidableEq, Repr

/-! ## The store -/

/-- The rows, the objects, and the address of each cached object. -/
structure SettingStore where
  database : ℤ → SettingKey → Option SettingValue
  objects : List SettingValue
  cached : ℤ → SettingKey → Option ℕ

namespace SettingStore

/-- The object at an address; no operation follows an address that was not handed out. -/
def object (s : SettingStore) (address : ℕ) : SettingValue :=
  s.objects.getD address (.general "")

/-- Assign to the fields of an object. -/
def setObject (s : SettingStore) (address : ℕ) (value : SettingValue) : SettingStore :=
  { s with objects := s.objects.set address value }

/-- Put a new object into the cache. -/
def setCache (s : SettingStore) (userID : ℤ) (value : SettingValue) : SettingStore :=
  { s with
    objects := s.objects ++ [value]
    cached := fun u k =>
      if u = userID ∧ k = value.key then some s.objects.length else s.cached u k }

/-- {lit}`GetUserSetting` by user and key: the address of the cached object, or of a new one
with the row's value. -/
def getUserSetting (driver : Driver) (userID : ℤ) (key : SettingKey) (s : SettingStore) :
    Except String (Option ℕ) × SettingStore :=
  match s.cached userID key with
  | some address => (.ok (some address), s)
  | none =>
      match driver.queryError with
      | some err => (.error err, s)
      | none =>
          match s.database userID key with
          | none => (.ok none, s)
          | some value => (.ok (some s.objects.length), s.setCache userID value)

/-- {lit}`UpsertUserSetting`: store the value and cache a new object with it. -/
def upsertUserSetting (driver : Driver) (userID : ℤ) (value : SettingValue) (s : SettingStore) :
    Except String SettingValue × SettingStore :=
  match driver.upsertError with
  | some err => (.error err, s)
  | none =>
      (.ok value,
        { s with
          database := fun u k =>
            if u = userID ∧ k = value.key then some value else s.database u k }.setCache
          userID value)

/-! ## Operations that edit a setting -/

/-- What an operation does with the object it read: the fields it leaves in the object, and
the value it then upserts, or the error it returns before. -/
structure Edit where
  object : SettingValue
  outcome : Except Status SettingValue

/-- Read a setting, edit it, and upsert the outcome. -/
def editUserSetting (driver : Driver) (userID : ℤ) (key : SettingKey)
    (absent : Except Status SettingValue) (edit : SettingValue → Edit)
    (upsertFailed : String → Status) (s : SettingStore) :
    Except Status SettingValue × SettingStore :=
  match getUserSetting driver userID key s with
  | (.error err, s) => (.error ⟨.Unknown, err⟩, s)
  | (.ok none, s) => upsertOutcome absent s
  | (.ok (some address), s) =>
      upsertOutcome (edit (s.object address)).outcome
        (s.setObject address (edit (s.object address)).object)
where
  upsertOutcome (outcome : Except Status SettingValue) (s : SettingStore) :
      Except Status SettingValue × SettingStore :=
    match outcome with
    | .error status => (.error status, s)
    | .ok value =>
        match upsertUserSetting driver userID value s with
        | (.error err, s) => (.error (upsertFailed err), s)
        | (.ok value, s) => (.ok value, s)

/-- An operation that builds a new list and leaves the object alone. -/
def Edit.copy (old new : SettingValue) : Edit where
  object := old
  outcome := .ok new

/-- An operation that changes the object and upserts what it has become. -/
def Edit.inPlace (new : SettingValue) : Edit where
  object := new
  outcome := .ok new

/-- The list of {lit}`AddUserWebhook`: every webhook with the identifier is replaced, or the
webhook is appended. -/
def addedWebhook (webhook : Webhook) (webhooks : List Webhook) : List Webhook :=
  let updated := webhooks.map fun existing =>
    if existing.Id = webhook.Id then webhook else existing
  if webhooks.any (·.Id = webhook.Id) then updated else updated ++ [webhook]

/-- The list of {lit}`UpdateUserWebhook`: the first webhook with the identifier is replaced. -/
def updatedWebhook (webhook : Webhook) : List Webhook → List Webhook
  | [] => []
  | existing :: webhooks =>
      if existing.Id = webhook.Id then webhook :: webhooks
      else existing :: updatedWebhook webhook webhooks

/-- Add a webhook to the list. -/
def addUserWebhook (driver : Driver) (userID : ℤ) (webhook : Webhook) (s : SettingStore) :
    Except Status SettingValue × SettingStore :=
  editUserSetting driver userID .WEBHOOKS (.ok (.webhooks (addedWebhook webhook [])))
    (fun value => .copy value (.webhooks (addedWebhook webhook value.getWebhooks)))
    (fun err => ⟨.Unknown, err⟩) s

/-- Take a webhook out of the list. -/
def removeUserWebhook (driver : Driver) (userID : ℤ) (webhookID : String) (s : SettingStore) :
    Except Status SettingValue × SettingStore :=
  editUserSetting driver userID .WEBHOOKS (.ok (.webhooks []))
    (fun value => .copy value (.webhooks (value.getWebhooks.filter fun webhook =>
      webhookID ≠ webhook.Id)))
    (fun err => ⟨.Unknown, err⟩) s

/-- The element of the cached slice is overwritten before the upsert. -/
def updateUserWebhook (driver : Driver) (userID : ℤ) (webhook : Webhook) (s : SettingStore) :
    Except Status SettingValue × SettingStore :=
  editUserSetting driver userID .WEBHOOKS (.ok (.webhooks []))
    (fun value => .inPlace (.webhooks (updatedWebhook webhook value.getWebhooks)))
    (fun err => ⟨.Unknown, err⟩) s

/-- Add a token to the list. -/
def addUserPersonalAccessToken (driver : Driver) (userID : ℤ) (token : PersonalAccessToken)
    (s : SettingStore) : Except Status SettingValue × SettingStore :=
  editUserSetting driver userID .PERSONAL_ACCESS_TOKENS
    (.ok (.personalAccessTokens (Store.addUserPersonalAccessToken token [])))
    (fun value => .copy value
      (.personalAccessTokens (Store.addUserPersonalAccessToken token value.getPersonalAccessTokens)))
    (fun err => ⟨.Unknown, err⟩) s

/-- Take a token out of the list. -/
def removeUserPersonalAccessToken (driver : Driver) (userID : ℤ) (tokenID : String)
    (s : SettingStore) : Except Status SettingValue × SettingStore :=
  editUserSetting driver userID .PERSONAL_ACCESS_TOKENS (.ok (.personalAccessTokens []))
    (fun value => .copy value (.personalAccessTokens
      (Store.removeUserPersonalAccessToken tokenID value.getPersonalAccessTokens)))
    (fun err => ⟨.Unknown, err⟩) s

/-- The token object is assigned to before the upsert. -/
def updatePATLastUsed (driver : Driver) (userID : ℤ) (tokenID : String) (lastUsed : ℤ)
    (s : SettingStore) : Except Status SettingValue × SettingStore :=
  editUserSetting driver userID .PERSONAL_ACCESS_TOKENS (.ok (.personalAccessTokens []))
    (fun value => .inPlace (.personalAccessTokens
      (Store.updatePATLastUsed tokenID lastUsed value.getPersonalAccessTokens)))
    (fun err => ⟨.Unknown, err⟩) s

/-! ## What a read is served -/

/-- The value a read of a setting is served: of the cached object, or else of the row. -/
def served (s : SettingStore) (userID : ℤ) (key : SettingKey) : Option SettingValue :=
  match s.cached userID key with
  | some address => some (s.object address)
  | none => s.database userID key

/-- The cache agrees with the rows, no two settings share an object, and a row has a value
of its key. -/
structure Consistent (s : SettingStore) : Prop where
  cached_stored : ∀ {u k a}, s.cached u k = some a →
    a < s.objects.length ∧ s.database u k = some (s.object a)
  cached_inj : ∀ {u u' k k' a}, s.cached u k = some a → s.cached u' k' = some a →
    u = u' ∧ k = k'
  key_eq : ∀ {u k v}, s.database u k = some v → v.key = k

/-- Every read is served what it was served before, from the cache and from the rows. -/
def Unchanged (s s' : SettingStore) : Prop :=
  ∀ userID key, s'.served userID key = s.served userID key ∧
    s'.database userID key = s.database userID key

/-- An operation that returns an error leaves every read as it was. -/
def AtomicOnError {α : Type} (op : SettingStore → Except Status α × SettingStore)
    (s : SettingStore) : Prop :=
  ∀ status, (op s).1 = .error status → s.Unchanged (op s).2

/-- The value an operation reads: the row's, unless the query fails. -/
def readable (s : SettingStore) (driver : Driver) (userID : ℤ) (key : SettingKey) :
    Option SettingValue :=
  if (s.cached userID key).isSome || driver.queryError.isNone then s.database userID key else none

/-- An edit fails before its upsert, or at it. -/
def Edit.Fails (driver : Driver) (e : Edit) : Prop :=
  (∃ status, e.outcome = .error status) ∨ driver.upsertError ≠ none

/-! ## Reads -/

variable {s : SettingStore}

theorem Unchanged.refl (s : SettingStore) : s.Unchanged s :=
  fun _ _ => ⟨rfl, rfl⟩

theorem Unchanged.trans {s s' s'' : SettingStore} (h : s.Unchanged s') (h' : s'.Unchanged s'') :
    s.Unchanged s'' :=
  fun u k => ⟨(h' u k).1.trans (h u k).1, (h' u k).2.trans (h u k).2⟩

theorem Unchanged.symm {s s' : SettingStore} (h : s.Unchanged s') : s'.Unchanged s :=
  fun u k => ⟨(h u k).1.symm, (h u k).2.symm⟩

/-- With a consistent cache a read is served the row. -/
theorem Consistent.served_eq (hs : s.Consistent) (userID : ℤ) (key : SettingKey) :
    s.served userID key = s.database userID key := by
  unfold served
  cases hcached : s.cached userID key with
  | none => rfl
  | some a => exact (hs.cached_stored hcached).2.symm

theorem Consistent.unchanged {s' : SettingStore} (hs : s.Consistent) (hs' : s'.Consistent)
    (hdatabase : s'.database = s.database) : s.Unchanged s' := by
  intro u k
  rw [hs.served_eq, hs'.served_eq, hdatabase]
  exact ⟨rfl, rfl⟩

private theorem object_setCache_lt (userID : ℤ) (value : SettingValue) {a : ℕ}
    (ha : a < s.objects.length) : (s.setCache userID value).object a = s.object a := by
  unfold object setCache
  rw [List.getD_append _ _ _ _ ha]

theorem object_setCache_new (userID : ℤ) (value : SettingValue) :
    (s.setCache userID value).object s.objects.length = value := by
  unfold object setCache
  rw [List.getD_append_right _ _ _ _ (le_refl _)]
  simp

/-- Caching a new object with the value of the row keeps the cache consistent. -/
theorem Consistent.setCache (hs : s.Consistent) {userID : ℤ} {value : SettingValue}
    (hrow : s.database userID value.key = some value) : (s.setCache userID value).Consistent := by
  have hlength : (s.setCache userID value).objects.length = s.objects.length + 1 := by
    simp [SettingStore.setCache]
  have hcases : ∀ {u k a}, (s.setCache userID value).cached u k = some a →
      (u = userID ∧ k = value.key ∧ a = s.objects.length) ∨ s.cached u k = some a := by
    intro u k a h
    by_cases huk : u = userID ∧ k = value.key
    · exact .inl ⟨huk.1, huk.2, by simpa [SettingStore.setCache, huk] using h.symm⟩
    · exact .inr (by simpa [SettingStore.setCache, huk] using h)
  constructor
  · intro u k a h
    rcases hcases h with ⟨rfl, rfl, rfl⟩ | h
    · rw [object_setCache_new, hlength]
      exact ⟨Nat.lt_succ_self _, hrow⟩
    · obtain ⟨ha, hstored⟩ := hs.cached_stored h
      rw [object_setCache_lt _ _ ha, hlength]
      exact ⟨Nat.lt_succ_of_lt ha, hstored⟩
  · intro u u' k k' a h h'
    rcases hcases h with ⟨rfl, rfl, rfl⟩ | hold
    · rcases hcases h' with ⟨rfl, rfl, -⟩ | hold'
      · exact ⟨rfl, rfl⟩
      · exact absurd (hs.cached_stored hold').1 (Nat.lt_irrefl _)
    · rcases hcases h' with ⟨rfl, rfl, rfl⟩ | hold'
      · exact absurd (hs.cached_stored hold).1 (Nat.lt_irrefl _)
      · exact hs.cached_inj hold hold'
  · exact hs.key_eq

theorem Consistent.key_of_readable (hs : s.Consistent) {driver : Driver} {userID : ℤ}
    {key : SettingKey} {value : SettingValue}
    (h : s.readable driver userID key = some value) : value.key = key := by
  unfold readable at h
  split at h
  · exact hs.key_eq h
  · exact absurd h (by simp)

/-- A read that reaches a row hands out the cached object, with the value of the row, and
changes nothing that a read is served. -/
theorem getUserSetting_of_readable (hs : s.Consistent) {driver : Driver} {userID : ℤ}
    {key : SettingKey} {value : SettingValue}
    (h : s.readable driver userID key = some value) :
    ∃ a s', getUserSetting driver userID key s = (.ok (some a), s') ∧ s'.object a = value ∧
      s'.cached userID key = some a ∧ s'.Consistent ∧ s.Unchanged s' := by
  unfold readable at h
  unfold getUserSetting
  cases hcached : s.cached userID key with
  | some a =>
      obtain ⟨-, hstored⟩ := hs.cached_stored hcached
      simp only [hcached, Option.isSome_some, Bool.true_or, if_true] at h
      refine ⟨a, s, rfl, ?_, hcached, hs, .refl s⟩
      exact Option.some.inj (hstored.symm.trans h)
  | none =>
      cases hquery : driver.queryError with
      | some err => simp [hcached, hquery] at h
      | none =>
          have hrow : s.database userID key = some value := by simpa [hcached, hquery] using h
          have hkey : value.key = key := hs.key_eq hrow
          subst hkey
          have hconsistent := hs.setCache hrow
          refine ⟨s.objects.length, s.setCache userID value, ?_, object_setCache_new _ _, ?_,
            hconsistent, hs.unchanged hconsistent rfl⟩
          · simp only [hrow]
          · simp [SettingStore.setCache]

/-- A read that reaches no row leaves the store as it is. -/
theorem getUserSetting_of_not_readable (hs : s.Consistent) {driver : Driver} {userID : ℤ}
    {key : SettingKey} (h : s.readable driver userID key = none) :
    getUserSetting driver userID key s = (.ok none, s) ∨
      ∃ err, getUserSetting driver userID key s = (.error err, s) := by
  unfold readable at h
  unfold getUserSetting
  cases hcached : s.cached userID key with
  | some a =>
      obtain ⟨-, hstored⟩ := hs.cached_stored hcached
      simp [hcached, hstored] at h
  | none =>
      cases hquery : driver.queryError with
      | some err => exact .inr ⟨err, rfl⟩
      | none =>
          have hrow : s.database userID key = none := by simpa [hcached, hquery] using h
          exact .inl (by simp only [hrow])

/-! ## Edits -/

/-- Assigning to the cached object changes what a read is served, unless the fields keep
their values. -/
theorem unchanged_setObject_iff (hs : s.Consistent) {userID : ℤ} {key : SettingKey} {a : ℕ}
    (ha : s.cached userID key = some a) (value : SettingValue) :
    s.Unchanged (s.setObject a value) ↔ value = s.object a := by
  obtain ⟨hlt, -⟩ := hs.cached_stored ha
  constructor
  · intro h
    have hserved := (h userID key).1
    unfold served at hserved
    simp only [setObject, ha, Option.some.injEq] at hserved
    rw [← hserved]
    simp [object, List.getD, hlt]
  · intro h
    have hset : s.setObject a value = s := by
      rw [h, setObject, object, List.getD_eq_getElem _ _ hlt, List.set_getElem_self]
    rw [hset]
    exact .refl s

theorem upsertOutcome_error {driver : Driver} {userID : ℤ} {upsertFailed : String → Status}
    {outcome : Except Status SettingValue} {status : Status}
    (h : (editUserSetting.upsertOutcome driver userID upsertFailed outcome s).1 = .error status) :
    (editUserSetting.upsertOutcome driver userID upsertFailed outcome s).2 = s := by
  unfold editUserSetting.upsertOutcome at h ⊢
  cases outcome with
  | error _ => rfl
  | ok value =>
      unfold upsertUserSetting at h ⊢
      cases hupsert : driver.upsertError with
      | some err => rfl
      | none => simp [hupsert] at h

theorem upsertOutcome_error_iff {driver : Driver} {userID : ℤ} {upsertFailed : String → Status}
    {object : SettingValue} {outcome : Except Status SettingValue} :
    (∃ status,
      (editUserSetting.upsertOutcome driver userID upsertFailed outcome s).1 = .error status) ↔
      (Edit.mk object outcome).Fails driver := by
  unfold editUserSetting.upsertOutcome Edit.Fails upsertUserSetting
  cases outcome with
  | error status => simp
  | ok value => cases hupsert : driver.upsertError <;> simp

/-- An operation that edits the object it read is atomic on error exactly when each edit
that fails leaves the object as it was. -/
theorem atomicOnError_editUserSetting (hs : s.Consistent) (driver : Driver) (userID : ℤ)
    (key : SettingKey) (absent : Except Status SettingValue) (edit : SettingValue → Edit)
    (upsertFailed : String → Status) :
    AtomicOnError (editUserSetting driver userID key absent edit upsertFailed) s ↔
      ∀ value, s.readable driver userID key = some value → (edit value).Fails driver →
        (edit value).object = value := by
  unfold AtomicOnError editUserSetting
  cases hread : s.readable driver userID key with
  | none =>
      simp only [reduceCtorEq, false_implies, implies_true, iff_true]
      rcases getUserSetting_of_not_readable hs hread with hget | ⟨err, hget⟩
      · intro status h
        rw [hget] at h ⊢
        rw [upsertOutcome_error h]
        exact .refl s
      · intro status h
        rw [hget]
        exact .refl s
  | some value =>
      obtain ⟨a, s', hget, rfl, ha, hs', hsame⟩ := getUserSetting_of_readable hs hread
      simp only [hget, Option.some.injEq, forall_eq']
      have hset := unchanged_setObject_iff hs' ha (edit (s'.object a)).object
      constructor
      · intro h hfails
        obtain ⟨status, hstatus⟩ := upsertOutcome_error_iff.mpr hfails
        have hunchanged := h status hstatus
        rw [upsertOutcome_error hstatus] at hunchanged
        exact hset.mp (hsame.symm.trans hunchanged)
      · intro h status hstatus
        rw [upsertOutcome_error hstatus]
        exact hsame.trans (hset.mpr (h (upsertOutcome_error_iff.mp ⟨status, hstatus⟩)))

/-! ## The operations -/

/-- An operation that builds a new list is atomic on error. -/
theorem atomicOnError_copy (hs : s.Consistent) (driver : Driver) (userID : ℤ) (key : SettingKey)
    (absent : Except Status SettingValue) (new : SettingValue → SettingValue)
    (upsertFailed : String → Status) :
    AtomicOnError
      (editUserSetting driver userID key absent (fun value => .copy value (new value))
        upsertFailed) s :=
  (atomicOnError_editUserSetting hs driver userID key absent _ upsertFailed).mpr
    fun _ _ _ => rfl

theorem fails_inPlace_iff (driver : Driver) (new : SettingValue) :
    (Edit.inPlace new).Fails driver ↔ driver.upsertError ≠ none := by
  simp [Edit.Fails, Edit.inPlace]

private theorem updatedWebhook_eq_self_iff (webhook : Webhook) (webhooks : List Webhook) :
    updatedWebhook webhook webhooks = webhooks ↔
      ∀ existing, webhooks.find? (·.Id = webhook.Id) = some existing → existing = webhook := by
  induction webhooks with
  | nil => simp [updatedWebhook]
  | cons existing webhooks ih =>
      unfold updatedWebhook
      by_cases hid : existing.Id = webhook.Id
      · rw [if_pos hid, List.find?_cons_of_pos (by simpa using hid)]
        simp [eq_comm]
      · rw [if_neg hid, List.find?_cons_of_neg (by simpa using hid), ← ih]
        simp

private theorem updatePATLastUsed_eq_self_iff (tokenID : String) (lastUsed : ℤ)
    (tokens : List PersonalAccessToken) :
    Store.updatePATLastUsed tokenID lastUsed tokens = tokens ↔
      ∀ token, tokens.find? (·.tokenId = tokenID) = some token →
        token.lastUsedAt = some lastUsed := by
  induction tokens with
  | nil => simp [Store.updatePATLastUsed]
  | cons token tokens ih =>
      unfold Store.updatePATLastUsed
      by_cases hid : token.tokenId = tokenID
      · rw [if_pos hid, List.find?_cons_of_pos (by simpa using hid)]
        obtain ⟨id, lastUsedAt⟩ := token
        simp [eq_comm]
      · rw [if_neg hid, List.find?_cons_of_neg (by simpa using hid), ← ih]
        simp

/-- The webhook update is atomic on error unless its upsert fails and the webhook it
overwrites is another one. -/
theorem atomicOnError_updateUserWebhook (hs : s.Consistent) (driver : Driver) (userID : ℤ)
    (webhook : Webhook) :
    AtomicOnError (updateUserWebhook driver userID webhook) s ↔
      ∀ value, s.readable driver userID .WEBHOOKS = some value → driver.upsertError ≠ none →
        ∀ existing, value.getWebhooks.find? (·.Id = webhook.Id) = some existing →
          existing = webhook := by
  unfold updateUserWebhook
  rw [atomicOnError_editUserSetting hs]
  refine forall₂_congr fun value hread => ?_
  rw [fails_inPlace_iff, ← updatedWebhook_eq_self_iff]
  have hvalue := SettingValue.webhooks_getWebhooks (hs.key_of_readable hread)
  constructor
  · intro h hfails
    have hobject := h hfails
    rw [hvalue] at hobject
    simpa [Edit.inPlace, SettingValue.getWebhooks] using hobject
  · intro h hfails
    rw [hvalue]
    simpa [Edit.inPlace, SettingValue.getWebhooks] using h hfails

/-- The last-used update is atomic on error unless its upsert fails and the token had
another time. -/
theorem atomicOnError_updatePATLastUsed (hs : s.Consistent) (driver : Driver) (userID : ℤ)
    (tokenID : String) (lastUsed : ℤ) :
    AtomicOnError (updatePATLastUsed driver userID tokenID lastUsed) s ↔
      ∀ value, s.readable driver userID .PERSONAL_ACCESS_TOKENS = some value →
        driver.upsertError ≠ none →
        ∀ token, value.getPersonalAccessTokens.find? (·.tokenId = tokenID) = some token →
          token.lastUsedAt = some lastUsed := by
  unfold updatePATLastUsed
  rw [atomicOnError_editUserSetting hs]
  refine forall₂_congr fun value hread => ?_
  rw [fails_inPlace_iff, ← updatePATLastUsed_eq_self_iff]
  have hvalue := SettingValue.personalAccessTokens_getPersonalAccessTokens
    (hs.key_of_readable hread)
  constructor
  · intro h hfails
    have hobject := h hfails
    rw [hvalue] at hobject
    simpa [Edit.inPlace, SettingValue.getPersonalAccessTokens] using hobject
  · intro h hfails
    rw [hvalue]
    simpa [Edit.inPlace, SettingValue.getPersonalAccessTokens] using h hfails

end SettingStore

end Store
end MemosNote
