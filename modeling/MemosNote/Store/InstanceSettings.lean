import Mathlib.Logic.Function.Basic
import MemosNote.Library.Effect
import MemosNote.Store.Tables

/-!
# Instance settings

The settings of the instance, one row for each key, and the cache in front of them.  The text of a
row is kept decoded; a text that cannot be decoded is kept as the error of its decoding.

Main results:

- Theorem {lit}`InstanceSettings.getWithDefaults_ok`: a read answers with the stored message, its
  defaults filled in, and changes no row.
- Theorem {lit}`InstanceSettings.upsert_rows`: an upsert writes the row of its key only.
- Theorem {lit}`InstanceSettings.Reached.coherent`: what is cached agrees with the rows.
-/

namespace MemosNote
namespace Store

open Library

/-! ## Messages -/

/-- The keys of the instance settings. -/
inductive InstanceSettingKey where
  | INSTANCE_SETTING_KEY_UNSPECIFIED
  | BASIC
  | GENERAL
  | STORAGE
  | MEMO_RELATED
  | TAGS
  | NOTIFICATION
  | AI
deriving DecidableEq, Repr

namespace InstanceSettingKey

/-- The name of a key. -/
def text : InstanceSettingKey → String
  | INSTANCE_SETTING_KEY_UNSPECIFIED => "INSTANCE_SETTING_KEY_UNSPECIFIED"
  | BASIC => "BASIC"
  | GENERAL => "GENERAL"
  | STORAGE => "STORAGE"
  | MEMO_RELATED => "MEMO_RELATED"
  | TAGS => "TAGS"
  | NOTIFICATION => "NOTIFICATION"
  | AI => "AI"

/-- The key of a name; a name of no key reads as the first. -/
def ofText (name : String) : InstanceSettingKey :=
  ([BASIC, GENERAL, STORAGE, MEMO_RELATED, TAGS, NOTIFICATION, AI].find? (·.text = name)).getD
    INSTANCE_SETTING_KEY_UNSPECIFIED

@[simp]
theorem ofText_text (k : InstanceSettingKey) : ofText k.text = k := by
  cases k <;> decide

end InstanceSettingKey

/-- The secret of the instance and the version of its schema. -/
structure InstanceBasicSetting where
  SecretKey : String := ""
  SchemaVersion : String := ""
deriving DecidableEq, Repr

/-- Title, description and logo of the instance. -/
structure InstanceCustomProfile where
  Title : String := ""
  Description : String := ""
  LogoUrl : String := ""
deriving DecidableEq, Repr

/-- Registration, sign-in by password, additional texts, and the profile. -/
structure InstanceGeneralSetting where
  DisallowUserRegistration : Bool := false
  DisallowPasswordAuth : Bool := false
  AdditionalScript : String := ""
  AdditionalStyle : String := ""
  CustomProfile : Option InstanceCustomProfile := none
  WeekStartDayOffset : ℤ := 0
  DisallowChangeUsername : Bool := false
  DisallowChangeNickname : Bool := false
deriving DecidableEq, Repr

/-- The type of a storage; a message may carry a number that is none of them. -/
inductive StorageType where
  | STORAGE_TYPE_UNSPECIFIED
  | DATABASE
  | LOCAL
  | S3
  | unrecognized (number : ℤ)
deriving DecidableEq, Repr

/-- Where files are kept, and how large they may be. -/
structure InstanceStorageSetting where
  StorageType : StorageType := .STORAGE_TYPE_UNSPECIFIED
  FilepathTemplate : String := ""
  UploadSizeLimitMb : ℤ := 0
  S3Config : Option StorageS3Config := none
deriving DecidableEq, Repr

/-- The length of memos, and the reactions to them. -/
structure InstanceMemoRelatedSetting where
  ContentLengthLimit : ℤ := 0
  EnableDoubleClickEdit : Bool := false
  Reactions : List String := []
deriving DecidableEq, Repr

/-- A color; its components are kept as the bits of their floats. -/
structure Color where
  Red : ℕ := 0
  Green : ℕ := 0
  Blue : ℕ := 0
  Alpha : Option ℕ := none
deriving DecidableEq, Repr

/-- How a tag is shown. -/
structure InstanceTagMetadata where
  BackgroundColor : Option Color := none
  BlurContent : Bool := false
deriving DecidableEq, Repr

/-- The metadata of tags; the keys of the map are unique. -/
structure InstanceTagsSetting where
  Tags : List (String × InstanceTagMetadata) := []
  tags_nodup : (Tags.map Prod.fst).Nodup := by decide
deriving DecidableEq, Repr

/-- The account from which messages are sent. -/
structure EmailSetting where
  Enabled : Bool := false
  SmtpHost : String := ""
  SmtpPort : ℤ := 0
  SmtpUsername : String := ""
  SmtpPassword : String := ""
  FromEmail : String := ""
  FromName : String := ""
  ReplyTo : String := ""
  UseTls : Bool := false
  UseSsl : Bool := false
deriving DecidableEq, Repr

/-- The setting on notifications. -/
structure InstanceNotificationSetting where
  Email : Option EmailSetting := none
deriving DecidableEq, Repr

/-- The kinds of providers; a message may hold a number that has no name. -/
inductive AIProviderType where
  | AI_PROVIDER_TYPE_UNSPECIFIED
  | OPENAI
  | GEMINI
  | unrecognized (number : ℤ)
deriving DecidableEq, Repr

/-- A provider with the key of its account. -/
structure AIProviderConfig where
  Id : String := ""
  Title : String := ""
  ProviderType : AIProviderType := .AI_PROVIDER_TYPE_UNSPECIFIED
  Endpoint : String := ""
  ApiKey : String := ""
deriving DecidableEq, Repr

/-- The provider of the transcription, and what it is told. -/
structure TranscriptionConfig where
  ProviderId : String := ""
  Model : String := ""
  Language : String := ""
  Prompt : String := ""
deriving DecidableEq, Repr

/-- The providers, and the configuration of the transcription. -/
structure InstanceAISetting where
  Providers : List AIProviderConfig := []
  Transcription : Option TranscriptionConfig := none
deriving DecidableEq, Repr

/-- The message of a key. -/
@[reducible]
def Payload : InstanceSettingKey → Type
  | .INSTANCE_SETTING_KEY_UNSPECIFIED => Unit
  | .BASIC => InstanceBasicSetting
  | .GENERAL => InstanceGeneralSetting
  | .STORAGE => InstanceStorageSetting
  | .MEMO_RELATED => InstanceMemoRelatedSetting
  | .TAGS => InstanceTagsSetting
  | .NOTIFICATION => InstanceNotificationSetting
  | .AI => InstanceAISetting

/-- The message without fields. -/
def emptyPayload : (k : InstanceSettingKey) → Payload k
  | .INSTANCE_SETTING_KEY_UNSPECIFIED => ()
  | .BASIC => {}
  | .GENERAL => {}
  | .STORAGE => {}
  | .MEMO_RELATED => {}
  | .TAGS => {}
  | .NOTIFICATION => {}
  | .AI => {}

/-- A setting: its key, and a value that need not be one of that key. -/
structure InstanceSetting where
  Key : InstanceSettingKey
  Value : Σ k, Option (Payload k)

/-- The value of a setting, if it is one of the given key. -/
def InstanceSetting.get (setting : InstanceSetting) (k : InstanceSettingKey) :
    Option (Payload k) :=
  if h : setting.Value.1 = k then h ▸ setting.Value.2 else none

@[simp]
theorem InstanceSetting.get_self (key k : InstanceSettingKey) (value : Option (Payload k)) :
    (InstanceSetting.mk key ⟨k, value⟩).get k = value := by
  simp [InstanceSetting.get]

/-! ## Defaults -/

/-- The length of memos that is allowed by default. -/
def DefaultContentLengthLimit : ℤ :=
  8 * 1024

/-- The reactions that are offered by default. -/
def DefaultReactions : List String :=
  ["👍", "👎", "❤️", "🎉", "😄", "😕", "😢", "😡"]

/-- Files are kept on the local disk by default. -/
def defaultInstanceStorageType : StorageType :=
  .LOCAL

/-- The size of uploads that is allowed by default. -/
def defaultInstanceUploadSizeLimitMb : ℤ :=
  30

/-- The path of a file by default. -/
def defaultInstanceFilepathTemplate : String :=
  "assets/{timestamp}_{uuid}_{filename}"

/-- What a read fills in. -/
def withDefaults : (k : InstanceSettingKey) → Payload k → Payload k
  | .STORAGE, setting =>
      { setting with
        StorageType :=
          if setting.StorageType = .STORAGE_TYPE_UNSPECIFIED then defaultInstanceStorageType
          else setting.StorageType
        UploadSizeLimitMb :=
          if setting.UploadSizeLimitMb = 0 then defaultInstanceUploadSizeLimitMb
          else setting.UploadSizeLimitMb
        FilepathTemplate :=
          if setting.FilepathTemplate = "" then defaultInstanceFilepathTemplate
          else setting.FilepathTemplate }
  | .MEMO_RELATED, setting =>
      { setting with
        ContentLengthLimit :=
          if setting.ContentLengthLimit < DefaultContentLengthLimit then DefaultContentLengthLimit
          else setting.ContentLengthLimit
        Reactions := if setting.Reactions = [] then DefaultReactions else setting.Reactions }
  | .NOTIFICATION, setting => { setting with Email := some (setting.Email.getD {}) }
  | _, setting => setting

/-- Filling in is final. -/
@[simp]
theorem withDefaults_withDefaults (k : InstanceSettingKey) (p : Payload k) :
    withDefaults k (withDefaults k p) = withDefaults k p := by
  cases k with
  | STORAGE =>
      simp only [withDefaults, defaultInstanceStorageType, defaultInstanceUploadSizeLimitMb,
        defaultInstanceFilepathTemplate]
      congr 1
      · split <;> simp_all
      · split <;> simp_all
      · split <;> simp_all
  | MEMO_RELATED =>
      simp only [withDefaults]
      congr 1
      · split <;> simp_all
      · split <;> simp_all [DefaultReactions]
  | NOTIFICATION => rfl
  | _ => rfl

/-- What a read would fill in is there. -/
def Complete : (k : InstanceSettingKey) → Payload k → Prop
  | .STORAGE, setting =>
      setting.StorageType ≠ .STORAGE_TYPE_UNSPECIFIED ∧ setting.UploadSizeLimitMb ≠ 0 ∧
        setting.FilepathTemplate ≠ ""
  | .MEMO_RELATED, setting =>
      DefaultContentLengthLimit ≤ setting.ContentLengthLimit ∧ setting.Reactions ≠ []
  | .NOTIFICATION, setting => setting.Email ≠ none
  | _, _ => True

theorem withDefaults_eq_iff (k : InstanceSettingKey) (p : Payload k) :
    withDefaults k p = p ↔ Complete k p := by
  cases k with
  | STORAGE =>
      rcases p with ⟨storageType, template, limit, config⟩
      simp only [withDefaults, Complete, InstanceStorageSetting.mk.injEq, and_true,
        defaultInstanceStorageType, defaultInstanceUploadSizeLimitMb,
        defaultInstanceFilepathTemplate]
      constructor
      · intro h
        rcases h with ⟨htype, htemplate, hlimit⟩
        refine ⟨?_, ?_, ?_⟩
        · rintro rfl
          simp at htype
        · rintro rfl
          simp at hlimit
        · rintro rfl
          simp at htemplate
      · intro h
        rcases h with ⟨htype, hlimit, htemplate⟩
        exact ⟨if_neg htype, if_neg htemplate, if_neg hlimit⟩
  | MEMO_RELATED =>
      rcases p with ⟨limit, doubleClick, reactions⟩
      simp only [withDefaults, Complete, InstanceMemoRelatedSetting.mk.injEq, true_and]
      constructor
      · intro h
        rcases h with ⟨hlimit, hreactions⟩
        constructor
        · by_contra hsmall
          rw [if_pos (by omega)] at hlimit
          omega
        · rintro rfl
          simp [DefaultReactions] at hreactions
      · intro h
        exact ⟨if_neg (by omega), if_neg h.2⟩
  | NOTIFICATION =>
      rcases p with ⟨email⟩
      cases email <;> simp [withDefaults, Complete]
  | _ => simp [withDefaults, Complete]

/-! ## The store -/

/-- The rows and the cache. -/
structure InstanceSettings where
  rows : (k : InstanceSettingKey) → Option (Except String (Payload k)) := fun _ => none
  cache : (k : InstanceSettingKey) → Option (Payload k) := fun _ => none

namespace InstanceSettings

/-- The persisted message of a key; without a row it is empty. -/
def persisted (s : InstanceSettings) (k : InstanceSettingKey) : Except String (Payload k) :=
  (s.rows k).getD (.ok (emptyPayload k))

/-- What is cached is what a read of the row finds, possibly with its defaults filled in. -/
def Coherent (s : InstanceSettings) : Prop :=
  ∀ k m, s.cache k = some m → ∃ p, s.persisted k = .ok p ∧ withDefaults k m = withDefaults k p

/-- Put a payload into the cache. -/
def setCache (k : InstanceSettingKey) (m : Payload k) (s : InstanceSettings) : InstanceSettings :=
  { s with cache := Function.update s.cache k (some m) }

/-- The message of a key, from the cache or else from its row. -/
def GetInstanceSetting (k : InstanceSettingKey) :
    Effect String InstanceSettings (Option (Payload k)) := fun s =>
  match s.cache k with
  | some m => (.ok (some m), s)
  | none =>
      match s.rows k with
      | none => (.ok none, s)
      | some (.error err) => (.error ("Failed to convert instance setting: " ++ err), s)
      | some (.ok p) => (.ok (some p), s.setCache k p)

/-- A read that fills in the defaults and caches the result. -/
def getWithDefaults (k : InstanceSettingKey) (context : String) :
    Effect String InstanceSettings (Payload k) := do
  let instanceSetting ← (GetInstanceSetting k).mapError fun err => context ++ ": " ++ err
  let setting := withDefaults k (instanceSetting.getD (emptyPayload k))
  Effect.update (setCache k setting)
  pure setting

/-- The basic setting, with its defaults. -/
def GetInstanceBasicSetting : Effect String InstanceSettings InstanceBasicSetting :=
  getWithDefaults .BASIC "failed to get instance basic setting"

/-- The general setting, with its defaults. -/
def GetInstanceGeneralSetting : Effect String InstanceSettings InstanceGeneralSetting :=
  getWithDefaults .GENERAL "failed to get instance general setting"

/-- The setting on memos, with its defaults; the error text names another setting. -/
def GetInstanceMemoRelatedSetting : Effect String InstanceSettings InstanceMemoRelatedSetting :=
  getWithDefaults .MEMO_RELATED "failed to get instance general setting"

/-- The setting on tags, with its defaults. -/
def GetInstanceTagsSetting : Effect String InstanceSettings InstanceTagsSetting :=
  getWithDefaults .TAGS "failed to get instance tags setting"

/-- The setting on notifications, with its defaults. -/
def GetInstanceNotificationSetting : Effect String InstanceSettings InstanceNotificationSetting :=
  getWithDefaults .NOTIFICATION "failed to get instance notification setting"

/-- The AI setting, with its defaults. -/
def GetInstanceAISetting : Effect String InstanceSettings InstanceAISetting :=
  getWithDefaults .AI "failed to get instance AI setting"

/-- The storage setting, with its defaults. -/
def GetInstanceStorageSetting : Effect String InstanceSettings InstanceStorageSetting :=
  getWithDefaults .STORAGE "failed to get instance storage setting"

/-- Write the row of a key.  An absent message is written like one without fields. -/
def UpsertInstanceSetting (upsert : InstanceSetting) :
    Effect String InstanceSettings InstanceSetting := fun s =>
  match upsert.Key with
  | .INSTANCE_SETTING_KEY_UNSPECIFIED =>
      (.error ("unsupported instance setting key: " ++ upsert.Key.text), s)
  | k =>
      let p := (upsert.get k).getD (emptyPayload k)
      (.ok ⟨k, k, some p⟩,
        { rows := Function.update s.rows k (some (.ok p))
          cache := Function.update s.cache k (some p) })

/-! ## What the operations do -/

variable {s : InstanceSettings} {k : InstanceSettingKey}

@[simp]
theorem persisted_setCache (k' : InstanceSettingKey) (m : Payload k') :
    (s.setCache k' m).persisted k = s.persisted k :=
  rfl

/-- A message may be cached that equals the persisted one, up to defaults. -/
theorem Coherent.setCache (h : s.Coherent) {m p : Payload k} (hp : s.persisted k = .ok p)
    (hm : withDefaults k m = withDefaults k p) : (s.setCache k m).Coherent := by
  intro k' m' hcached
  by_cases hk : k' = k
  · subst hk
    have hsame : m = m' := by simpa [InstanceSettings.setCache] using hcached
    subst hsame
    exact ⟨p, hp, hm⟩
  · have hold : s.cache k' = some m' := by
      simpa [InstanceSettings.setCache, Function.update_of_ne hk] using hcached
    exact h k' m' hold

theorem getInstanceSetting_ok (h : s.Coherent) {p : Payload k} (hp : s.persisted k = .ok p) :
    ∃ found s', GetInstanceSetting k s = (.ok found, s') ∧ s'.rows = s.rows ∧ s'.Coherent ∧
      withDefaults k (found.getD (emptyPayload k)) = withDefaults k p := by
  rw [GetInstanceSetting]
  cases hcache : s.cache k with
  | some m =>
      rcases h k m hcache with ⟨p', hp', hm⟩
      rw [hp] at hp'
      cases hp'
      exact ⟨some m, s, rfl, rfl, h, hm⟩
  | none =>
      have hrow := hp
      rw [persisted] at hrow
      cases hstored : s.rows k with
      | none =>
          rw [hstored] at hrow
          cases hrow
          exact ⟨none, s, rfl, rfl, h, rfl⟩
      | some row =>
          rw [hstored] at hrow
          cases hrow
          exact ⟨some p, s.setCache k p, rfl, rfl, h.setCache hp rfl, rfl⟩

/-- A read answers with the stored message, its defaults filled in, caches the answer and changes
no row. -/
theorem getWithDefaults_ok (h : s.Coherent) {p : Payload k} (hp : s.persisted k = .ok p)
    (context : String) :
    ∃ s', getWithDefaults k context s = (.ok (withDefaults k p), s') ∧ s'.rows = s.rows ∧
      s'.Coherent ∧ s'.cache k = some (withDefaults k p) := by
  rcases getInstanceSetting_ok h hp with ⟨found, s₁, hfound, hrows, hcoherent, hdefaults⟩
  have hmapped : ((GetInstanceSetting k).mapError fun err => context ++ ": " ++ err) s =
      (.ok found, s₁) := by
    rw [Effect.mapError, hfound]
    rfl
  have hp₁ : s₁.persisted k = .ok p := by rw [persisted, hrows, ← persisted, hp]
  refine ⟨s₁.setCache k (withDefaults k p), ?_, hrows,
    hcoherent.setCache hp₁ (withDefaults_withDefaults k p), by simp [setCache]⟩
  rw [getWithDefaults, Effect.bind_of_ok hmapped, hdefaults]
  rfl

/-- A row that cannot be decoded cannot be read. -/
theorem getInstanceSetting_error (h : s.Coherent) {err : String}
    (hp : s.persisted k = .error err) :
    GetInstanceSetting k s = (.error ("Failed to convert instance setting: " ++ err), s) := by
  have hcache : s.cache k = none := by
    cases hcached : s.cache k with
    | none => rfl
    | some m =>
        rcases h k m hcached with ⟨p, hok, -⟩
        rw [hp] at hok
        cases hok
  have hrow : s.rows k = some (.error err) := by
    rw [persisted] at hp
    cases hstored : s.rows k with
    | none =>
        rw [hstored] at hp
        cases hp
    | some row =>
        rw [hstored] at hp
        exact congrArg some hp
  rw [GetInstanceSetting, hcache, hrow]

theorem getWithDefaults_error (h : s.Coherent) {err : String} (hp : s.persisted k = .error err)
    (context : String) : getWithDefaults k context s =
      (.error (context ++ ": " ++ ("Failed to convert instance setting: " ++ err)), s) := by
  have hmapped : ((GetInstanceSetting k).mapError fun err => context ++ ": " ++ err) s =
      (.error (context ++ ": " ++ ("Failed to convert instance setting: " ++ err)), s) := by
    rw [Effect.mapError, getInstanceSetting_error h hp]
    rfl
  exact Effect.bind_of_error hmapped

/-- A read of a cached message changes nothing. -/
theorem getInstanceSetting_cached {m : Payload k} (h : s.cache k = some m) :
    GetInstanceSetting k s = (.ok (some m), s) := by
  rw [GetInstanceSetting, h]

/-- An upsert writes the row of its key only. -/
theorem upsert_rows {upsert : InstanceSetting}
    (hkey : upsert.Key ≠ .INSTANCE_SETTING_KEY_UNSPECIFIED) :
    ∃ setting, UpsertInstanceSetting upsert s = (.ok setting,
      { rows := Function.update s.rows upsert.Key
          (some (.ok ((upsert.get upsert.Key).getD (emptyPayload upsert.Key))))
        cache := Function.update s.cache upsert.Key
          (some ((upsert.get upsert.Key).getD (emptyPayload upsert.Key))) }) := by
  rcases upsert with ⟨key, value⟩
  cases key with
  | INSTANCE_SETTING_KEY_UNSPECIFIED => exact absurd rfl hkey
  | _ => exact ⟨_, rfl⟩

/-! ## Reached states -/

/-- The cache forgets a message. -/
def evict (k : InstanceSettingKey) (s : InstanceSettings) : InstanceSettings :=
  { s with cache := Function.update s.cache k none }

/-- The states that reads and upserts lead to from any rows and an empty cache; the cache may
forget at any time. -/
inductive Reached : InstanceSettings → Prop
  | start (rows : (k : InstanceSettingKey) → Option (Except String (Payload k))) :
      Reached { rows := rows }
  | get {s : InstanceSettings} (k : InstanceSettingKey) (h : Reached s) :
      Reached (GetInstanceSetting k s).2
  | getWithDefaults {s : InstanceSettings} (k : InstanceSettingKey) (context : String)
      (h : Reached s) : Reached (getWithDefaults k context s).2
  | upsert {s : InstanceSettings} (setting : InstanceSetting) (h : Reached s) :
      Reached (UpsertInstanceSetting setting s).2
  | evict {s : InstanceSettings} (k : InstanceSettingKey) (h : Reached s) : Reached (s.evict k)

theorem Coherent.evict (h : s.Coherent) : (s.evict k).Coherent := by
  intro k' m hcached
  have hne : k' ≠ k := by
    rintro rfl
    simp [InstanceSettings.evict] at hcached
  have hold : s.cache k' = some m := by
    simpa [InstanceSettings.evict, Function.update_of_ne hne] using hcached
  exact h k' m hold

theorem Coherent.get (h : s.Coherent) : (GetInstanceSetting k s).2.Coherent := by
  cases hp : s.persisted k with
  | ok p =>
      rcases getInstanceSetting_ok h hp with ⟨found, s', hget, -, hcoherent, -⟩
      rw [hget]
      exact hcoherent
  | error err =>
      rw [getInstanceSetting_error h hp]
      exact h

theorem Coherent.getWithDefaults (h : s.Coherent) (context : String) :
    (InstanceSettings.getWithDefaults k context s).2.Coherent := by
  cases hp : s.persisted k with
  | ok p =>
      rcases getWithDefaults_ok h hp context with ⟨s', hget, -, hcoherent, -⟩
      rw [hget]
      exact hcoherent
  | error err =>
      rw [getWithDefaults_error h hp context]
      exact h

theorem Coherent.upsert (h : s.Coherent) (setting : InstanceSetting) :
    (UpsertInstanceSetting setting s).2.Coherent := by
  by_cases hkey : setting.Key = .INSTANCE_SETTING_KEY_UNSPECIFIED
  · rw [UpsertInstanceSetting, hkey]
    exact h
  · rcases upsert_rows (s := s) hkey with ⟨stored, hupsert⟩
    rw [hupsert]
    intro k m hcached
    by_cases hk : k = setting.Key
    · subst hk
      have hsame : (setting.get setting.Key).getD (emptyPayload setting.Key) = m := by
        simpa using hcached
      exact ⟨m, by simp [persisted, hsame], rfl⟩
    · have hold : s.cache k = some m := by
        simpa [Function.update_of_ne hk] using hcached
      rcases h k m hold with ⟨p, hp, hm⟩
      refine ⟨p, ?_, hm⟩
      simpa [persisted, Function.update_of_ne hk] using hp

/-- In every reached state the cache is coherent. -/
theorem Reached.coherent (h : Reached s) : s.Coherent := by
  induction h with
  | start rows =>
      intro k m hcached
      cases hcached
  | get k _ ih => exact ih.get
  | getWithDefaults k context _ ih => exact ih.getWithDefaults context
  | upsert setting _ ih => exact ih.upsert setting
  | evict k _ ih => exact ih.evict

end InstanceSettings

end Store
end MemosNote
