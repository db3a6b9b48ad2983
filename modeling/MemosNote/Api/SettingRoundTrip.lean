import MemosNote.Api.AIProviders

/-!
# Sending back a setting

An administrator reads a setting and writes back what was read.

Main results:

- Theorem {lit}`InstanceService.getInstanceSetting_ok`: an administrator reads the stored message
  with its defaults filled in and without its credentials.
- Theorem {lit}`InstanceService.read_back_kept_iff`: exactly when the persisted setting stays as it
  was.
-/

namespace MemosNote
namespace Api

open Library Store

/-! ## What is read -/

namespace InstanceService

variable {svc : InstanceService} {s : InstanceSettings} {k : InstanceSettingKey}

theorem extract_name (svc : InstanceService) (k : InstanceSettingKey) :
    svc.ExtractInstanceSettingKeyFromName (instanceSettingNamePrefix ++ k.text) = .ok k.text := by
  have hstart : instanceSettingNamePrefix.toList.isPrefixOf
      (instanceSettingNamePrefix ++ k.text).toList = true := by cases k <;> decide
  have hrest : String.ofList ((instanceSettingNamePrefix ++ k.text).toList.drop
      instanceSettingNamePrefix.length) = k.text := by cases k <;> decide
  have hne : k.text ≠ "" := by cases k <;> decide
  have hslash : '/' ∉ k.text.toList := by cases k <;> decide
  rw [ExtractInstanceSettingKeyFromName, if_pos hstart]
  simp only [hrest]
  rw [if_neg hne, if_neg hslash]

theorem getInstanceSetting_name (svc : InstanceService) (k : InstanceSettingKey) :
    svc.GetInstanceSetting (instanceSettingNamePrefix ++ k.text) =
      svc.getInstanceSettingByKey k := by
  rw [GetInstanceSetting, extract_name]
  simp only [Except.mapError, Effect.ofExcept, Effect.pure_bind, InstanceSettingKey.ofText_text]

/-- The reading of a supported key caches its message with the defaults filled in. -/
theorem readSetting_ok (hk : k ≠ .INSTANCE_SETTING_KEY_UNSPECIFIED) (h : s.Coherent)
    {p : Payload k} (hp : s.persisted k = .ok p) :
    ∃ s', readSetting k s = (.ok (), s') ∧ s'.rows = s.rows ∧ s'.Coherent ∧
      s'.cache k = some (withDefaults k p) := by
  have hread : ∀ context, ∃ s', (do
      let _ ← (InstanceSettings.getWithDefaults k context).mapError fun err =>
        Failure.status .Internal ("failed to get instance setting: " ++ err)
      pure () : Effect Failure InstanceSettings Unit) s = (.ok (), s') ∧ s'.rows = s.rows ∧
        s'.Coherent ∧ s'.cache k = some (withDefaults k p) := by
    intro context
    rcases InstanceSettings.getWithDefaults_ok h hp context with ⟨s', hget, hrest⟩
    refine ⟨s', ?_, hrest⟩
    have hmapped : ((InstanceSettings.getWithDefaults k context).mapError fun err =>
        Failure.status .Internal ("failed to get instance setting: " ++ err)) s =
        (.ok (withDefaults k p), s') := by
      rw [Effect.mapError, hget]
      rfl
    rw [Effect.bind_of_ok hmapped]
    rfl
  cases k with
  | INSTANCE_SETTING_KEY_UNSPECIFIED => exact absurd rfl hk
  | _ => exact hread _

/-- A row that cannot be decoded cannot be read. -/
theorem readSetting_error (h : s.Coherent) {err : String} (hp : s.persisted k = .error err) :
    ∃ failure, readSetting k s = (.error failure, s) := by
  have hread : ∀ context, ∃ failure, (do
      let _ ← (InstanceSettings.getWithDefaults k context).mapError fun err =>
        Failure.status .Internal ("failed to get instance setting: " ++ err)
      pure () : Effect Failure InstanceSettings Unit) s = (.error failure, s) := by
    intro context
    have hmapped : ((InstanceSettings.getWithDefaults k context).mapError fun err =>
        Failure.status .Internal ("failed to get instance setting: " ++ err)) s =
        (.error (.status .Internal ("failed to get instance setting: " ++ (context ++ ": " ++
          ("Failed to convert instance setting: " ++ err)))), s) := by
      rw [Effect.mapError, InstanceSettings.getWithDefaults_error h hp context]
      rfl
    exact ⟨_, Effect.bind_of_error hmapped⟩
  cases k with
  | INSTANCE_SETTING_KEY_UNSPECIFIED => exact ⟨_, rfl⟩
  | _ => exact hread _

/-- The current user is an administrator. -/
def Administers (svc : InstanceService) : Prop :=
  ∃ user, svc.fetchCurrentUser = .ok (some user) ∧ user.Role = .ADMIN

theorem requireInstanceAdmin_ok (hadmin : svc.Administers) :
    ∃ user, svc.requireInstanceAdmin = .ok user := by
  rcases hadmin with ⟨user, hfetch, hrole⟩
  refine ⟨user, ?_⟩
  rw [requireInstanceAdmin, hfetch]
  simp [hrole]

/-- What an administrator reads of a message. -/
def shown (k : InstanceSettingKey) (m : Payload k) : InstanceSettingMessage :=
  convertInstanceSettingFromStore { Key := k, Value := ⟨k, some m⟩ }

/-- An administrator reads the stored message with its defaults filled in. -/
theorem getInstanceSetting_ok (hadmin : svc.Administers)
    (hk : k ≠ .INSTANCE_SETTING_KEY_UNSPECIFIED) (h : s.Coherent) {p : Payload k}
    (hp : s.persisted k = .ok p) :
    ∃ s', svc.GetInstanceSetting (instanceSettingNamePrefix ++ k.text) s =
        (.ok (shown k (withDefaults k p)), s') ∧ s'.rows = s.rows ∧ s'.Coherent := by
  rcases readSetting_ok hk h hp with ⟨s', hread, hrows, hcoherent, hcache⟩
  refine ⟨s', ?_, hrows, hcoherent⟩
  have hcached : ((InstanceSettings.GetInstanceSetting k).mapError fun err =>
      Failure.status .Internal ("failed to get instance setting: " ++ err)) s' =
      (.ok (some (withDefaults k p)), s') := by
    rw [Effect.mapError, InstanceSettings.getInstanceSetting_cached hcache]
    rfl
  rcases requireInstanceAdmin_ok hadmin with ⟨user, hrequire⟩
  rcases hadmin with ⟨user', hfetch, hrole⟩
  rw [getInstanceSetting_name, getInstanceSettingByKey, Effect.bind_of_ok hread,
    Effect.bind_of_ok hcached]
  simp only [hrequire, hfetch, hrole, if_true, Effect.ofExcept, Effect.pure_bind]
  split
  · rfl
  · split <;> rfl

/-- What cannot be decoded, and an unsupported key, cannot be read. -/
theorem getInstanceSetting_error
    (hfail : k = .INSTANCE_SETTING_KEY_UNSPECIFIED ∨ s.Coherent ∧ ∃ err, s.persisted k = .error err) :
    ∃ failure s', svc.GetInstanceSetting (instanceSettingNamePrefix ++ k.text) s =
      (.error failure, s') := by
  have hread : ∃ failure, readSetting k s = (.error failure, s) := by
    rcases hfail with rfl | ⟨hcoherent, err, herr⟩
    · exact ⟨_, rfl⟩
    · exact readSetting_error hcoherent herr
  rcases hread with ⟨failure, hread⟩
  refine ⟨failure, s, ?_⟩
  rw [getInstanceSetting_name, getInstanceSettingByKey]
  exact Effect.bind_of_error hread

/-! ## What is written -/

theorem keyOfName_name (svc : InstanceService) (k : InstanceSettingKey) :
    svc.keyOfName (instanceSettingNamePrefix ++ k.text) = k := by
  rw [keyOfName, extract_name]
  exact InstanceSettingKey.ofText_text k

/-- The message that a write stores of what was read, before credentials are taken over. -/
def sentBack (k : InstanceSettingKey) (m : Payload k) : Option (Payload k) :=
  (convertPayloadFromStore k m).map (convertPayloadToStore k)

/-- What was read of a key that can be written is converted back to a message of that key. -/
theorem convert_shown (svc : InstanceService) (hk : k ≠ .INSTANCE_SETTING_KEY_UNSPECIFIED)
    (hbasic : k ≠ .BASIC) (m : Payload k) :
    svc.convertInstanceSettingToStore (shown k m) = { Key := k, Value := ⟨k, sentBack k m⟩ } := by
  have hkey : svc.keyOfName (shown k m).Name = k := keyOfName_name svc k
  rw [convertInstanceSettingToStore, hkey]
  cases k with
  | INSTANCE_SETTING_KEY_UNSPECIFIED => exact absurd rfl hk
  | BASIC => exact absurd rfl hbasic
  | _ => rfl

/-- Of the basic settings nothing is read, and nothing is converted back. -/
theorem convert_shown_basic (svc : InstanceService) (m : InstanceBasicSetting) :
    svc.convertInstanceSettingToStore (shown .BASIC m) =
      { Key := .BASIC, Value := ⟨.GENERAL, none⟩ } := by
  have hkey : svc.keyOfName (shown .BASIC m).Name = .BASIC := keyOfName_name svc .BASIC
  rw [convertInstanceSettingToStore, hkey]
  rfl

theorem validate_shown (svc : InstanceService) (hk : k ≠ .TAGS) (m : Payload k) :
    svc.validateInstanceSetting (shown k m) = .ok () := by
  have hname : svc.ExtractInstanceSettingKeyFromName (shown k m).Name = .ok k.text :=
    extract_name svc k
  have htext : k.text ≠ InstanceSettingKey.TAGS.text := by
    intro heq
    have := congrArg InstanceSettingKey.ofText heq
    simp only [InstanceSettingKey.ofText_text] at this
    exact hk this
  rw [validateInstanceSetting, hname]
  exact if_pos htext

/-- A write that fails before the upsert leaves the rows. -/
theorem rows_of_failed {message : InstanceSettingMessage} {s' : InstanceSettings}
    {failure : Failure}
    (hfailed : svc.preserveCredentials (svc.convertInstanceSettingToStore message) s =
      (.error failure, s')) (hrows : s'.rows = s.rows) :
    (svc.UpdateInstanceSetting (some message) s).2.rows = s.rows := by
  rw [UpdateInstanceSetting]
  cases svc.requireInstanceAdmin with
  | error failure => rfl
  | ok user =>
      rw [Effect.ofExcept, Effect.pure_bind]
      cases hvalid : svc.validateInstanceSetting message with
      | error err => rfl
      | ok _ =>
          simp only [Except.mapError, Effect.ofExcept, Effect.pure_bind]
          rw [Effect.bind_of_error hfailed]
          exact hrows

/-- A write that is checked and completed stores its message. -/
theorem persisted_of_written (hadmin : svc.Administers) {message : InstanceSettingMessage}
    {update : InstanceSetting} {s' : InstanceSettings}
    (hvalid : svc.validateInstanceSetting message = .ok ())
    (hpreserved : svc.preserveCredentials (svc.convertInstanceSettingToStore message) s =
      (.ok update, s'))
    (hkey : update.Key ≠ .INSTANCE_SETTING_KEY_UNSPECIFIED) :
    (svc.UpdateInstanceSetting (some message) s).2.persisted update.Key =
      .ok ((update.get update.Key).getD (emptyPayload update.Key)) := by
  rcases requireInstanceAdmin_ok hadmin with ⟨user, hrequire⟩
  rcases InstanceSettings.upsert_rows (s := s') hkey with ⟨setting, hupsert⟩
  have hmapped : ((InstanceSettings.UpsertInstanceSetting update).mapError fun err =>
      Failure.status .Internal ("failed to upsert instance setting: " ++ err)) s' =
      (.ok setting, (InstanceSettings.UpsertInstanceSetting update s').2) := by
    rw [Effect.mapError, hupsert]
    rfl
  rw [UpdateInstanceSetting, hrequire]
  simp only [hvalid, Except.mapError, Effect.ofExcept, Effect.pure_bind]
  rw [Effect.bind_of_ok hpreserved, Effect.bind_of_ok hmapped, hupsert]
  simp [InstanceSettings.persisted]

/-- A message without credentials comes back as it was read. -/
theorem sentBack_general (m : InstanceGeneralSetting) : sentBack .GENERAL m = some m := by
  rcases m with ⟨_, _, _, _, profile, _, _, _⟩
  cases profile <;> rfl

private theorem sentBack_tags (m : InstanceTagsSetting) : sentBack .TAGS m = some m := by
  rcases m with ⟨tags, hnodup⟩
  simp only [sentBack, convertPayloadFromStore, convertPayloadToStore, Option.map_some,
    convertInstanceTagsSettingFromStore, convertInstanceTagsSettingToStore, convertTags,
    List.map_map]
  congr 2
  exact List.map_id tags

/-- The secret of the storage is taken over from the stored setting. -/
theorem preserveAccessKeySecret_ok {m : InstanceStorageSetting} {s' : InstanceSettings}
    (hread : InstanceSettings.GetInstanceStorageSetting s = (.ok m, s')) :
    ∃ t, preserveAccessKeySecret (convertInstanceStorageSettingToStore
      (convertInstanceStorageSettingFromStore m)) s = (.ok m, t) := by
  rcases m with ⟨storageType, template, limit, config⟩
  cases config with
  | none => exact ⟨s, rfl⟩
  | some config =>
      refine ⟨s', ?_⟩
      rw [preserveAccessKeySecret]
      simp only [convertInstanceStorageSettingToStore, convertInstanceStorageSettingFromStore,
        Option.map_some, ne_eq, not_true_eq_false, if_false, Effect.attempt_bind, hread]
      rfl

private theorem sameSMTPConnectionIdentity_redacted (email : EmailSetting) :
    sameSMTPConnectionIdentity { email with SmtpPassword := "" } email = true := by
  simp [sameSMTPConnectionIdentity]

/-- The password of the mail server is taken over from the stored setting. -/
theorem preserveSmtpPassword_ok {email : EmailSetting} {s' : InstanceSettings}
    (hread : InstanceSettings.GetInstanceNotificationSetting s = (.ok ⟨some email⟩, s')) :
    preserveSmtpPassword (convertInstanceNotificationSettingToStore
      (convertInstanceNotificationSettingFromStore ⟨some email⟩)) s = (.ok ⟨some email⟩, s') := by
  have hstored : storedPassword ⟨some { email with SmtpPassword := "" }⟩
      { email with SmtpPassword := "" } (.ok ⟨some email⟩) = .ok ⟨some email⟩ := by
    simp [storedPassword, sameSMTPConnectionIdentity_redacted]
  rw [preserveSmtpPassword]
  simp only [convertInstanceNotificationSettingToStore, convertInstanceNotificationSettingFromStore,
    Option.map_some, ne_eq, not_true_eq_false, if_false, Effect.attempt_bind, hread, hstored]
  rfl

/-- What is sent back of a key other than those of the basic settings and of the AI is stored with
its defaults filled in. -/
theorem persisted_of_sentBack (hadmin : svc.Administers) (h : s.Coherent) {p : Payload k}
    (hp : s.persisted k = .ok p) (hk : k ≠ .INSTANCE_SETTING_KEY_UNSPECIFIED) (hbasic : k ≠ .BASIC)
    (hai : k ≠ .AI) :
    (svc.UpdateInstanceSetting (some (shown k (withDefaults k p))) s).2.persisted k =
      .ok (withDefaults k p) := by
  have hconvert := convert_shown svc hk hbasic (withDefaults k p)
  have hwritten : ∀ t, svc.validateInstanceSetting (shown k (withDefaults k p)) = .ok () →
      svc.preserveCredentials (svc.convertInstanceSettingToStore (shown k (withDefaults k p))) s =
        (.ok { Key := k, Value := ⟨k, some (withDefaults k p)⟩ }, t) →
      (svc.UpdateInstanceSetting (some (shown k (withDefaults k p))) s).2.persisted k =
        .ok (withDefaults k p) := by
    intro t hvalid hpreserved
    have hpersisted := persisted_of_written hadmin hvalid hpreserved hk
    simpa using hpersisted
  cases k with
  | INSTANCE_SETTING_KEY_UNSPECIFIED => exact absurd rfl hk
  | BASIC => exact absurd rfl hbasic
  | AI => exact absurd rfl hai
  | GENERAL =>
      refine hwritten s (validate_shown svc (by decide) _) ?_
      rw [hconvert, sentBack_general]
      rfl
  | MEMO_RELATED =>
      refine hwritten s (validate_shown svc (by decide) _) ?_
      rw [hconvert]
      rfl
  | TAGS =>
      cases hvalid : svc.validateInstanceSetting (shown .TAGS (withDefaults .TAGS p)) with
      | ok _ =>
          refine hwritten s hvalid ?_
          rw [hconvert, sentBack_tags]
          rfl
      | error err =>
          -- Tags that are not valid are not written.
          have hrows : (svc.UpdateInstanceSetting
              (some (shown .TAGS (withDefaults .TAGS p))) s).2 = s := by
            rcases requireInstanceAdmin_ok hadmin with ⟨user, hrequire⟩
            rw [UpdateInstanceSetting, hrequire]
            simp only [hvalid, Except.mapError, Effect.ofExcept, Effect.pure_bind]
            rfl
          rw [hrows]
          exact hp
  | STORAGE =>
      rcases InstanceSettings.getWithDefaults_ok h hp "failed to get instance storage setting" with
        ⟨s', hread, -⟩
      rcases preserveAccessKeySecret_ok hread with ⟨t, hsecret⟩
      refine hwritten t (validate_shown svc (by decide) _) ?_
      rw [hconvert]
      exact Effect.bind_of_ok hsecret
  | NOTIFICATION =>
      rcases InstanceSettings.getWithDefaults_ok h hp
        "failed to get instance notification setting" with ⟨s', hread, -⟩
      refine hwritten s' (validate_shown svc (by decide) _) ?_
      rw [hconvert]
      exact Effect.bind_of_ok (preserveSmtpPassword_ok hread)

/-! ## Sending back what was read -/

private theorem sentBack_ai (p : InstanceAISetting) :
    sentBack .AI p = some { p with Providers := p.Providers.map withoutKey } := by
  rcases p with ⟨providers, transcription⟩
  simp only [sentBack, convertPayloadFromStore, convertPayloadToStore, Option.map_some,
    convertInstanceAISettingFromStore, convertInstanceAISettingToStore, List.map_map,
    Option.map_map]
  congr 2
  cases transcription <;> rfl

/-- Of the basic settings nothing is left. -/
theorem persisted_of_sentBack_basic (hadmin : svc.Administers) (p : InstanceBasicSetting) :
    (svc.UpdateInstanceSetting (some (shown .BASIC p)) s).2.persisted .BASIC = .ok {} := by
  have hpreserved : svc.preserveCredentials (svc.convertInstanceSettingToStore (shown .BASIC p)) s =
      (.ok { Key := .BASIC, Value := ⟨.GENERAL, none⟩ }, s) := by
    rw [convert_shown_basic]
    rfl
  exact persisted_of_written hadmin (validate_shown svc (by decide) p) hpreserved (by decide)

/-- The stored transcription stays in the cache as it is if it is trimmed. -/
theorem shareTranscription_self {existing setting : InstanceAISetting}
    (hcache : s.cache .AI = some existing)
    (htrimmed : setting.Transcription = none →
      existing.Transcription.map trimTranscription = existing.Transcription) :
    shareTranscription existing setting s = (.ok (), s) := by
  rw [shareTranscription]
  by_cases hnone : setting.Transcription.isNone
  · rw [if_pos hnone, Effect.update_apply, htrimmed (Option.isNone_iff_eq_none.mp hnone),
      InstanceSettings.setCache, ← hcache, Function.update_eq_self]
  · rw [if_neg hnone]
    rfl

/-- The AI settings that are sent back are checked against the stored ones. -/
theorem preserveCredentials_ai (svc : InstanceService) (h : s.Coherent) {p : InstanceAISetting}
    (hp : s.persisted .AI = .ok p) :
    ∃ s', s'.rows = s.rows ∧
      svc.preserveCredentials (svc.convertInstanceSettingToStore (shown .AI p)) s =
        (((svc.prepareAISetting p { p with Providers := p.Providers.map withoutKey }).mapError
          fun err => .status .InvalidArgument ("invalid AI setting: " ++ err)).map
            fun ai => { Key := .AI, Value := ⟨.AI, some ai⟩ }, s') := by
  rcases InstanceSettings.getWithDefaults_ok h hp "failed to get instance AI setting" with
    ⟨s', hread, hrows, -, hcache⟩
  refine ⟨s', hrows, ?_⟩
  have hexisting : (InstanceSettings.GetInstanceAISetting.mapError fun err =>
      Failure.status .InvalidArgument ("invalid AI setting: " ++
        ("failed to get existing AI setting: " ++ err))) s = (.ok p, s') := by
    rw [Effect.mapError, InstanceSettings.GetInstanceAISetting, hread]
    rfl
  have hupdate : ∀ result, svc.prepareAISetting p
        { p with Providers := p.Providers.map withoutKey } = result →
      svc.prepareInstanceAISettingForUpdate
        (some { p with Providers := p.Providers.map withoutKey }) s =
        (result.mapError fun err => .status .InvalidArgument ("invalid AI setting: " ++ err), s') := by
    intro result hresult
    rw [prepareInstanceAISettingForUpdate]
    refine (Effect.bind_of_ok hexisting).trans ?_
    rw [← hresult, prepareAISetting]
    cases svc.prepareProviders p [] (p.Providers.map withoutKey) with
    | error err => rfl
    | ok providers =>
        have hshared : shareTranscription p
            { p with Providers := p.Providers.map withoutKey } s' = (.ok (), s') := by
          apply shareTranscription_self hcache
          intro hnone
          exact (congrArg (Option.map trimTranscription) hnone).trans hnone.symm
        refine (Effect.bind_of_ok hshared).trans ?_
        have hchecked (r : Except String InstanceAISetting) :
            (Effect.ofExcept (r.mapError fun err =>
              Failure.status .InvalidArgument ("invalid AI setting: " ++ err)) :
                Effect Failure InstanceSettings InstanceAISetting) s' =
              (r.mapError fun err => .status .InvalidArgument ("invalid AI setting: " ++ err), s') := by
          cases r <;> rfl
        exact hchecked _
  have hconvert := convert_shown svc (k := .AI) (by decide) (by decide) p
  rw [sentBack_ai] at hconvert
  rw [hconvert]
  cases hresult : svc.prepareAISetting p { p with Providers := p.Providers.map withoutKey } with
  | ok ai => exact Effect.bind_of_ok (hupdate _ hresult)
  | error err => exact Effect.bind_of_error (hupdate _ hresult)

/-- AI settings that are accepted are stored as a write leaves them. -/
theorem persisted_of_accepted (hadmin : svc.Administers) (hids : svc.MakesIds) (h : s.Coherent)
    {p : InstanceAISetting} (hp : s.persisted .AI = .ok p) (haccepted : AcceptedAI p) :
    (svc.UpdateInstanceSetting (some (shown .AI p)) s).2.persisted .AI = .ok (normalizeAI p) := by
  rcases preserveCredentials_ai svc h hp with ⟨s', -, hpreserved⟩
  rw [(prepareAISetting_iff hids).mpr ⟨haccepted, rfl⟩, Except.mapError, Except.map] at hpreserved
  have hvalid : svc.validateInstanceSetting (shown .AI p) = .ok () :=
    validate_shown svc (by decide) p
  have hpersisted := persisted_of_written hadmin hvalid hpreserved (by simp)
  simpa using hpersisted

/-- AI settings that are not accepted stay. -/
theorem persisted_of_rejected (hids : svc.MakesIds) (h : s.Coherent)
    {p : InstanceAISetting} (hp : s.persisted .AI = .ok p) (hrejected : ¬ AcceptedAI p) :
    (svc.UpdateInstanceSetting (some (shown .AI p)) s).2.persisted .AI = .ok p := by
  rcases preserveCredentials_ai svc h hp with ⟨s', hrows, hpreserved⟩
  cases hresult : svc.prepareAISetting p { p with Providers := p.Providers.map withoutKey } with
  | ok ai => exact absurd ((prepareAISetting_iff hids).mp hresult).1 hrejected
  | error err =>
      rw [hresult, Except.mapError, Except.map] at hpreserved
      have hunchanged := rows_of_failed hpreserved hrows
      rw [InstanceSettings.persisted, hunchanged, ← InstanceSettings.persisted]
      exact hp

/-- A stored message that stays as it is when it is read and sent back. -/
def Kept : (k : InstanceSettingKey) → Payload k → Prop
  | .BASIC, p => p = {}
  | .AI, p => AcceptedAI p → NormalAI p
  | k, p => Complete k p

theorem kept_iff (hbasic : k ≠ .BASIC) (hai : k ≠ .AI) {p : Payload k} :
    Kept k p ↔ Complete k p := by
  cases k with
  | BASIC => exact absurd rfl hbasic
  | AI => exact absurd rfl hai
  | _ => rfl

/-- Whoever reads a setting and sends it back leaves what is persisted. -/
def ReadBackKeeps (svc : InstanceService) (k : InstanceSettingKey) (s : InstanceSettings) : Prop :=
  ∀ object s', svc.GetInstanceSetting (instanceSettingNamePrefix ++ k.text) s = (.ok object, s') →
    (svc.UpdateInstanceSetting (some object) s').2.persisted k = s.persisted k

/-- Exactly the kept messages stay when an administrator reads them and sends them back. -/
theorem read_back_kept_iff (hadmin : svc.Administers) (hids : svc.MakesIds) (h : s.Reached) :
    ReadBackKeeps svc k s ↔ ∀ p, s.persisted k = .ok p → Kept k p := by
  have hcoherent := h.coherent
  have hvacuous : (k = .INSTANCE_SETTING_KEY_UNSPECIFIED ∨
      s.Coherent ∧ ∃ err, s.persisted k = .error err) → ReadBackKeeps svc k s := by
    intro hfail object s' hread
    have hread' : ∃ failure s'', svc.GetInstanceSetting (instanceSettingNamePrefix ++ k.text) s =
        (.error failure, s'') := getInstanceSetting_error hfail
    rcases hread' with ⟨failure, s'', hfailed⟩
    rw [hfailed] at hread
    cases hread
  cases hp : s.persisted k with
  | error err =>
      constructor
      · intro _ p hok
        cases hok
      · intro _
        exact hvacuous (.inr ⟨hcoherent, err, hp⟩)
  | ok p =>
      by_cases hk : k = .INSTANCE_SETTING_KEY_UNSPECIFIED
      · subst hk
        exact ⟨fun _ _ _ => trivial, fun _ => hvacuous (.inl rfl)⟩
      rcases getInstanceSetting_ok hadmin hk hcoherent hp with ⟨s', hread, hrows, hcoherent'⟩
      have hp' : s'.persisted k = .ok p := by
        rw [InstanceSettings.persisted, hrows, ← InstanceSettings.persisted, hp]
      -- Only one object is read, so the property is about one write.
      have hwrite : ReadBackKeeps svc k s ↔
          (svc.UpdateInstanceSetting (some (shown k (withDefaults k p))) s').2.persisted k =
            .ok p := by
        rw [ReadBackKeeps, hread, hp]
        constructor
        · intro hkeeps
          exact hkeeps _ _ rfl
        · intro hkeeps object s'' hsame
          cases hsame
          exact hkeeps
      have hkept : (∀ q, Except.ok (ε := String) p = .ok q → Kept k q) ↔ Kept k p := by
        constructor
        · intro hall
          exact hall p rfl
        · intro hkeep q hsame
          cases hsame
          exact hkeep
      rw [hwrite, hkept]
      by_cases hbasic : k = .BASIC
      · subst hbasic
        rw [persisted_of_sentBack_basic hadmin, Except.ok.injEq, Kept, eq_comm]
      by_cases hai : k = .AI
      · subst hai
        rw [show withDefaults .AI p = p from rfl]
        by_cases haccepted : AcceptedAI p
        · rw [persisted_of_accepted hadmin hids hcoherent' hp' haccepted, Except.ok.injEq,
            normalizeAI_eq_iff haccepted]
          exact ⟨fun hnormal _ => hnormal, fun hnormal => hnormal haccepted⟩
        · rw [persisted_of_rejected hids hcoherent' hp' haccepted]
          exact ⟨fun _ h => absurd h haccepted, fun _ => rfl⟩
      rw [persisted_of_sentBack hadmin hcoherent' hp' hk hbasic hai, Except.ok.injEq,
        withDefaults_eq_iff, kept_iff hbasic hai]

/-- The credentials of a stored message. -/
def credentials : (k : InstanceSettingKey) → Payload k → List String
  | .STORAGE, p => p.S3Config.toList.map (·.AccessKeySecret)
  | .NOTIFICATION, p => [(p.Email.getD {}).SmtpPassword]
  | .AI, p => p.Providers.map (·.ApiKey)
  | _, _ => []

private theorem credentials_withDefaults (k : InstanceSettingKey) (p : Payload k) :
    credentials k (withDefaults k p) = credentials k p := by
  cases k <;> rfl

private theorem credentials_normalizeAI (p : InstanceAISetting) :
    credentials .AI (normalizeAI p) = credentials .AI p := by
  simp only [credentials, normalizeAI, List.map_map]
  rfl

/-- What a stored message becomes when it is read and sent back. -/
def Settles : (k : InstanceSettingKey) → Payload k → Payload k → Prop
  | .AI, p, q => AcceptedAI p ∧ q = normalizeAI p ∨ ¬ AcceptedAI p ∧ q = p
  | k, p, q => q = withDefaults k p

theorem settles_iff (hai : k ≠ .AI) {p q : Payload k} :
    Settles k p q ↔ q = withDefaults k p := by
  cases k with
  | AI => exact absurd rfl hai
  | _ => rfl

private theorem Settles.credentials_eq {p q : Payload k} (h : Settles k p q) :
    credentials k q = credentials k p := by
  by_cases hai : k = .AI
  · subst hai
    rcases h with ⟨-, rfl⟩ | ⟨-, rfl⟩
    · exact credentials_normalizeAI p
    · rfl
  · rw [(settles_iff hai).mp h, credentials_withDefaults]

private theorem Settles.eq_of_kept (hbasic : k ≠ .BASIC) {p q : Payload k} (h : Settles k p q)
    (hkept : Kept k p) : q = p := by
  by_cases hai : k = .AI
  · subst hai
    rcases h with ⟨haccepted, rfl⟩ | ⟨-, rfl⟩
    · exact (normalizeAI_eq_iff haccepted).mpr (hkept haccepted)
    · rfl
  · rw [(settles_iff hai).mp h]
    exact (withDefaults_eq_iff k p).mpr ((kept_iff hbasic hai).mp hkept)

/-- What is read and sent back, of a key other than that of the basic settings, is stored with its
defaults filled in and, of the AI, trimmed.  The credentials stay, and so does a kept message. -/
theorem read_back_settles (hadmin : svc.Administers) (hids : svc.MakesIds) (h : s.Reached)
    (hbasic : k ≠ .BASIC) {object : InstanceSettingMessage} {s' : InstanceSettings}
    (hread : svc.GetInstanceSetting (instanceSettingNamePrefix ++ k.text) s =
      (.ok object, s')) :
    ∃ p q, s.persisted k = .ok p ∧
      (svc.UpdateInstanceSetting (some object) s').2.persisted k = .ok q ∧
      Settles k p q ∧ credentials k q = credentials k p ∧ (Kept k p → q = p) := by
  have hcoherent := h.coherent
  have hfail : ¬ (k = .INSTANCE_SETTING_KEY_UNSPECIFIED ∨
      s.Coherent ∧ ∃ err, s.persisted k = .error err) := by
    intro hfail
    have hread' : ∃ failure s'', svc.GetInstanceSetting (instanceSettingNamePrefix ++ k.text) s =
        (.error failure, s'') := getInstanceSetting_error hfail
    rcases hread' with ⟨failure, s'', hfailed⟩
    rw [hfailed] at hread
    cases hread
  rw [not_or] at hfail
  cases hp : s.persisted k with
  | error err => exact absurd ⟨hcoherent, err, hp⟩ hfail.2
  | ok p =>
      rcases getInstanceSetting_ok hadmin hfail.1 hcoherent hp with
        ⟨s'', hshown, hrows, hcoherent'⟩
      rw [hshown] at hread
      cases hread
      have hp' : s'.persisted k = .ok p := by
        rw [InstanceSettings.persisted, hrows, ← InstanceSettings.persisted, hp]
      have hsettles : ∃ q, (svc.UpdateInstanceSetting
          (some (shown k (withDefaults k p))) s').2.persisted k = .ok q ∧ Settles k p q := by
        by_cases hai : k = .AI
        · subst hai
          by_cases haccepted : AcceptedAI p
          · exact ⟨_, persisted_of_accepted hadmin hids hcoherent' hp' haccepted,
              .inl ⟨haccepted, rfl⟩⟩
          · exact ⟨_, persisted_of_rejected hids hcoherent' hp' haccepted, .inr ⟨haccepted, rfl⟩⟩
        · exact ⟨_, persisted_of_sentBack hadmin hcoherent' hp' hfail.1 hbasic hai,
            (settles_iff hai).mpr rfl⟩
      rcases hsettles with ⟨q, hq, hsettles⟩
      exact ⟨p, q, rfl, hq, hsettles, hsettles.credentials_eq, hsettles.eq_of_kept hbasic⟩

/-- A service for a request of an administrator. -/
def plain : InstanceService :=
  { MemoService.plain with
    getUserByID := fun id => .ok (some { ID := id, Username := "ada", Role := .ADMIN })
    regexpCompile := fun _ => .ok ()
    shortuuid := fun _ => "KwSysDpxcBU9FNhGkn2dCf" }

/-- The settings of an instance after its first start. -/
def started : InstanceSettings where
  rows := Function.update (fun _ => none) .BASIC
    (some (.ok { SecretKey := "4f2b", SchemaVersion := "0.28.0" }))

theorem plain_administers : plain.Administers :=
  ⟨{ ID := 1, Username := "ada", Role := .ADMIN }, by decide, rfl⟩

theorem plain_makesIds : plain.MakesIds := by
  intro n
  have hid : plain.shortuuid n = "KwSysDpxcBU9FNhGkn2dCf" := rfl
  rw [hid]
  exact ⟨by decide, by decide⟩

/-- A stored bucket with its secret, without a path template and an upload limit. -/
def bucket : Payload .STORAGE where
  StorageType := .S3
  S3Config := some
    { AccessKeyId := "AKIA7", AccessKeySecret := "wJalrXUtn", Endpoint := "https://s3.local",
      Region := "eu", Bucket := "memos" }

/-- The settings of an instance that stores its attachments in the bucket. -/
def storing : InstanceSettings where
  rows := Function.update started.rows .STORAGE (some (.ok bucket))

/-- The settings after an administrator has read the bucket. -/
def bucketRead : InstanceSettings :=
  (storing.setCache .STORAGE bucket).setCache .STORAGE (withDefaults .STORAGE bucket)

private theorem storing_reads :
    plain.GetInstanceSetting (instanceSettingNamePrefix ++ InstanceSettingKey.STORAGE.text)
      storing = (.ok (shown .STORAGE (withDefaults .STORAGE bucket)), bucketRead) := by
  rfl

theorem read_back_settles_example :
    ∃ p q, storing.persisted .STORAGE = .ok p ∧
      (plain.UpdateInstanceSetting (some (shown .STORAGE (withDefaults .STORAGE bucket)))
        bucketRead).2.persisted .STORAGE = .ok q ∧
      Settles .STORAGE p q ∧ credentials .STORAGE q = credentials .STORAGE p ∧
      (Kept .STORAGE p → q = p) :=
  read_back_settles plain_administers plain_makesIds (.start _) (by decide) storing_reads

/-- Settings for memos without a row are stored with the defaults that were read, and the key of the
instance is lost with its basic settings. -/
theorem read_back_changes :
    ¬ ReadBackKeeps plain .MEMO_RELATED started ∧ ¬ ReadBackKeeps plain .BASIC started := by
  have hreached : started.Reached := .start _
  have hmemo : started.persisted .MEMO_RELATED = .ok {} := by
    simp [InstanceSettings.persisted, started, emptyPayload]
  have hbasic : started.persisted .BASIC =
      .ok { SecretKey := "4f2b", SchemaVersion := "0.28.0" } := by
    simp [InstanceSettings.persisted, started]
  rw [read_back_kept_iff plain_administers plain_makesIds hreached,
    read_back_kept_iff plain_administers plain_makesIds hreached]
  constructor
  · intro hkept
    have hcomplete := hkept _ hmemo
    exact hcomplete.2 rfl
  · intro hkept
    have hempty := hkept _ hbasic
    simp [Kept] at hempty

end InstanceService

end Api
end MemosNote
