import MemosNote.Api.SettingRoundTrip

/-!
# The AI settings over a sequence of requests

Administrators write the settings again and again, with any requests, while settings are read and
the cache forgets.

Main results:

- Theorem {lit}`InstanceService.storedAI_valid`: the stored AI settings always have providers with
  an identifier of their own and a key, and a transcription with one of them or none; and a write
  that fails leaves what is read.
-/

namespace MemosNote
namespace Api

open Library Store

namespace InstanceService

/-! ## Writes that the database may refuse -/

/-- A write up to the upsert. -/
def prepareUpdate (svc : InstanceService) (request : Option InstanceSettingMessage) :
    Effect Failure InstanceSettings InstanceSetting := do
  let _ ← Effect.ofExcept svc.requireInstanceAdmin
  match request with
  | none => Effect.fail (.panic "invalid memory address or nil pointer dereference")
  | some setting =>
      Effect.ofExcept ((svc.validateInstanceSetting setting).mapError fun err =>
        .status .InvalidArgument ("invalid instance setting: " ++ err))
      svc.preserveCredentials (svc.convertInstanceSettingToStore setting)

/-- The upsert of a write, which the database may refuse with an error. -/
def upsertUnless (refusal : Option String) (update : InstanceSetting) :
    Effect Failure InstanceSettings InstanceSetting :=
  Effect.mapError (fun err => .status .Internal ("failed to upsert instance setting: " ++ err))
    (refusal.elim (InstanceSettings.UpsertInstanceSetting update) fun err =>
      Effect.fail ("Failed to upsert instance setting: " ++ err))

/-- A write whose upsert the database may refuse. -/
def updateUnless (svc : InstanceService) (refusal : Option String)
    (request : Option InstanceSettingMessage) :
    Effect Failure InstanceSettings InstanceSettingMessage := do
  let update ← svc.prepareUpdate request
  let instanceSetting ← upsertUnless refusal update
  pure (convertInstanceSettingFromStore instanceSetting)

/-- A request about settings, or the cache forgets a message. -/
inductive SettingEvent where
  | update (svc : InstanceService) (request : Option InstanceSettingMessage)
      (refusal : Option String)
  | get (svc : InstanceService) (name : String)
  | evict (k : InstanceSettingKey)

def SettingEvent.run : SettingEvent → InstanceSettings → InstanceSettings
  | update svc request refusal, s => (svc.updateUnless refusal request s).2
  | get svc name, s => (svc.GetInstanceSetting name s).2
  | evict k, s => s.evict k

variable {svc : InstanceService} {s : InstanceSettings}

/-! ## What a write accepts -/

/-- AI settings as writes leave them. -/
structure ValidAI (setting : InstanceAISetting) : Prop where
  ids_nodup : (setting.Providers.map AIProviderConfig.Id).Nodup
  ids_ne : ∀ provider ∈ setting.Providers, provider.Id ≠ ""
  keys_ne : ∀ provider ∈ setting.Providers, provider.ApiKey ≠ ""
  transcription_known : ∀ config ∈ setting.Transcription, config.ProviderId = "" ∨
    config.ProviderId ∈ setting.Providers.map AIProviderConfig.Id
  transcription_trimmed : ∀ config ∈ setting.Transcription, trimTranscription config = config

private theorem ValidAI.map_trimTranscription {setting : InstanceAISetting} (h : ValidAI setting) :
    setting.Transcription.map trimTranscription = setting.Transcription := by
  have htrimmed := h.transcription_trimmed
  cases htranscription : setting.Transcription with
  | none => rfl
  | some config => exact congrArg some (htrimmed config htranscription)

private theorem prepareProvider_valid (hids : svc.MakesIds) {existing : InstanceAISetting}
    {seenIDs : List String} {provider prepared : AIProviderConfig}
    (h : svc.prepareProvider existing seenIDs provider = .ok prepared) :
    prepared.Id ∉ seenIDs ∧ prepared.Id ≠ "" ∧ prepared.ApiKey ≠ "" := by
  have hid : (if trimSpace provider.Id = "" then svc.shortuuid seenIDs.length
      else trimSpace provider.Id) = svc.preparedId seenIDs provider := rfl
  simp only [prepareProvider, hid, guard_ok] at h
  rcases h with ⟨hseen, -, -, hkey, hprepared⟩
  rw [← Except.ok.inj hprepared]
  -- The fields are read off first: the unifier would unfold the identifier instead.
  dsimp only
  exact ⟨hseen, (preparedId_trimmed hids seenIDs provider).2, hkey⟩

private theorem prepareProviders_valid (hids : svc.MakesIds) {existing : InstanceAISetting}
    {seenIDs : List String} {providers prepared : List AIProviderConfig}
    (h : svc.prepareProviders existing seenIDs providers = .ok prepared) :
    (prepared.map AIProviderConfig.Id).Nodup ∧ ∀ provider ∈ prepared,
      provider.Id ∉ seenIDs ∧ provider.Id ≠ "" ∧ provider.ApiKey ≠ "" := by
  induction providers generalizing seenIDs prepared with
  | nil =>
      rcases Except.ok.inj h with rfl
      exact ⟨List.nodup_nil, fun _ hmem => absurd hmem List.not_mem_nil⟩
  | cons provider providers ih =>
      rw [prepareProviders] at h
      cases hfirst : svc.prepareProvider existing seenIDs provider with
      | error err =>
          rw [hfirst] at h
          cases h
      | ok first =>
          cases hrest : svc.prepareProviders existing (seenIDs ++ [first.Id]) providers with
          | error err =>
              simp only [hfirst, hrest, bind, Except.bind] at h
              cases h
          | ok rest =>
              simp only [hfirst, hrest, bind, Except.bind, pure, Except.pure] at h
              rcases Except.ok.inj h with rfl
              rcases ih hrest with ⟨hnodup, hothers⟩
              constructor
              · rw [List.map_cons, List.nodup_cons]
                refine ⟨?_, hnodup⟩
                intro hmem
                rcases List.mem_map.mp hmem with ⟨other, hother, hsame⟩
                apply (hothers other hother).1
                rw [hsame]
                exact List.mem_append_right _ (List.mem_singleton.mpr rfl)
              · intro other hother
                rcases List.mem_cons.mp hother with rfl | hother
                · exact prepareProvider_valid hids hfirst
                · rcases hothers other hother with ⟨hseen, hrest⟩
                  exact ⟨fun hmem => hseen (List.mem_append_left _ hmem), hrest⟩

/-- Trimming twice is trimming once. -/
theorem trimTranscription_trimTranscription (config : TranscriptionConfig) :
    trimTranscription (trimTranscription config) = trimTranscription config := by
  simp only [trimTranscription, trimSpace_trimSpace]

private theorem preparePersistedTranscriptionConfig_valid
    {existing setting result : InstanceAISetting}
    (h : svc.preparePersistedTranscriptionConfig existing setting = .ok result) :
    result.Providers = setting.Providers ∧
      (∀ config ∈ result.Transcription, config.ProviderId = "" ∨
        config.ProviderId ∈ setting.Providers.map AIProviderConfig.Id) ∧
      ∀ config ∈ result.Transcription, trimTranscription config = config := by
  rw [preparePersistedTranscriptionConfig.eq_def] at h
  cases hconfig : setting.Transcription.or existing.Transcription with
  | none =>
      rw [hconfig] at h
      rcases Except.ok.inj h with rfl
      have hnone : setting.Transcription = none := (Option.or_eq_none_iff.mp hconfig).1
      rw [hnone]
      exact ⟨rfl, by simp, by simp⟩
  | some config =>
      rw [hconfig] at h
      dsimp only at h
      rw [guard_ok] at h
      rcases h with ⟨hknown, hchecks⟩
      have hchecked {checks : Except String Unit} {x : Except String InstanceAISetting}
          (hx : (checks >>= fun _ => x) = .ok result) : x = .ok result := by
        cases checks with
        | error err => cases hx
        | ok _ => exact hx
      have hresult := hchecked (hchecked (hchecked hchecks))
      rcases Except.ok.inj hresult with rfl
      refine ⟨rfl, ?_, ?_⟩
      · intro config' hconfig'
        rcases Option.some.inj hconfig' with rfl
        by_cases hempty : (trimTranscription config).ProviderId = ""
        · exact Or.inl hempty
        · right
          simpa [hempty] using hknown
      · intro config' hconfig'
        rcases Option.some.inj hconfig' with rfl
        exact trimTranscription_trimTranscription config

/-! ## What reads and writes leave -/

/-- The messages are read from some rows. -/
def ReadsRows (rows : (k : InstanceSettingKey) → Option (Except String (Payload k)))
    (s : InstanceSettings) : Prop :=
  s.rows = rows ∧ s.Coherent

variable {rows : (k : InstanceSettingKey) → Option (Except String (Payload k))}

private theorem keeps_getInstanceSetting (k : InstanceSettingKey) :
    Effect.Keeps (ReadsRows rows) (InstanceSettings.GetInstanceSetting k) := by
  rintro s ⟨hrows, hcoherent⟩
  refine ⟨?_, hcoherent.get⟩
  cases hp : s.persisted k with
  | ok p =>
      rcases InstanceSettings.getInstanceSetting_ok hcoherent hp with ⟨found, s', hget, hsame, -⟩
      rw [hget]
      exact hsame.trans hrows
  | error err =>
      rw [InstanceSettings.getInstanceSetting_error hcoherent hp]
      exact hrows

theorem keeps_getWithDefaults (k : InstanceSettingKey) (context : String) :
    Effect.Keeps (ReadsRows rows) (InstanceSettings.getWithDefaults k context) := by
  rintro s ⟨hrows, hcoherent⟩
  refine ⟨?_, hcoherent.getWithDefaults context⟩
  cases hp : s.persisted k with
  | ok p =>
      rcases InstanceSettings.getWithDefaults_ok hcoherent hp context with ⟨s', hget, hsame, -⟩
      rw [hget]
      exact hsame.trans hrows
  | error err =>
      rw [InstanceSettings.getWithDefaults_error hcoherent hp context]
      exact hrows

private theorem keeps_preserveSmtpPassword (notif : InstanceNotificationSetting) :
    Effect.Keeps (ReadsRows rows) (preserveSmtpPassword notif) := by
  rw [preserveSmtpPassword.eq_def]
  cases notif.Email with
  | none => exact .pure notif
  | some email =>
      dsimp only
      split_ifs
      · exact .pure notif
      · exact .bind (.attempt (keeps_getWithDefaults _ _)) fun existing => .ofExcept _

private theorem keeps_preserveAccessKeySecret (storage : InstanceStorageSetting) :
    Effect.Keeps (ReadsRows rows) (preserveAccessKeySecret storage) := by
  rw [preserveAccessKeySecret.eq_def]
  cases storage.S3Config with
  | none => exact .pure storage
  | some config =>
      dsimp only
      split_ifs
      · exact .pure storage
      · exact .bind (.attempt (keeps_getWithDefaults _ _)) fun existing => .pure _

/-- A state whose stored AI settings are valid. -/
def KeepsAI (s : InstanceSettings) : Prop :=
  s.Coherent ∧ ∃ p, s.persisted .AI = .ok p ∧ ValidAI p

private theorem prepareAISetting_valid (hids : svc.MakesIds)
    {existing setting ai : InstanceAISetting}
    (h : svc.prepareAISetting existing setting = .ok ai) : ValidAI ai := by
  rw [prepareAISetting] at h
  cases hproviders : svc.prepareProviders existing [] setting.Providers with
  | error err =>
      rw [hproviders] at h
      cases h
  | ok providers =>
      rw [hproviders] at h
      rcases prepareProviders_valid hids hproviders with ⟨hnodup, hall⟩
      rcases preparePersistedTranscriptionConfig_valid h with ⟨hsame, hknown, htrimmed⟩
      constructor
      · rw [hsame]
        exact hnodup
      · rw [hsame]
        exact fun provider hmem => (hall provider hmem).2.1
      · rw [hsame]
        exact fun provider hmem => (hall provider hmem).2.2
      · rw [hsame]
        exact hknown
      · exact htrimmed

/-- AI settings are checked against the stored ones, and nothing is changed. -/
theorem prepareInstanceAISettingForUpdate_eq (hcoherent : s.Coherent) {p : InstanceAISetting}
    (hp : s.persisted .AI = .ok p) (hvalid : ValidAI p) (setting : InstanceAISetting) :
    ReadsRows s.rows (svc.prepareInstanceAISettingForUpdate (some setting) s).2 ∧
      (svc.prepareInstanceAISettingForUpdate (some setting) s).1 =
        (svc.prepareAISetting p setting).mapError fun err =>
          .status .InvalidArgument ("invalid AI setting: " ++ err) := by
  rcases InstanceSettings.getWithDefaults_ok hcoherent hp
    "failed to get instance AI setting" with ⟨s', hread, hrows, hcoherent', hcache⟩
  have hexisting : (InstanceSettings.GetInstanceAISetting.mapError fun err =>
      Failure.status .InvalidArgument ("invalid AI setting: " ++
        ("failed to get existing AI setting: " ++ err))) s = (.ok p, s') := by
    rw [Effect.mapError, InstanceSettings.GetInstanceAISetting, hread]
    rfl
  have hshared : shareTranscription p setting s' = (.ok (), s') :=
    shareTranscription_self hcache fun _ => hvalid.map_trimTranscription
  rw [prepareInstanceAISettingForUpdate.eq_def]
  dsimp only
  rw [Effect.bind_of_ok hexisting, prepareAISetting]
  cases svc.prepareProviders p [] setting.Providers with
  | error err => exact ⟨⟨hrows, hcoherent'⟩, rfl⟩
  | ok providers =>
      rw [Except.mapError.eq_def, Effect.ofExcept, Effect.pure_bind, Effect.bind_of_ok hshared]
      have hchecked (r : Except String InstanceAISetting) :
          (Effect.ofExcept (r.mapError fun err =>
            Failure.status .InvalidArgument ("invalid AI setting: " ++ err)) :
              Effect Failure InstanceSettings InstanceAISetting) s' =
            (r.mapError fun err =>
              .status .InvalidArgument ("invalid AI setting: " ++ err), s') := by
        cases r <;> rfl
      rw [hchecked]
      exact ⟨⟨hrows, hcoherent'⟩, rfl⟩

/-- The settings that a write prepares are valid, and nothing is changed. -/
theorem prepareInstanceAISettingForUpdate_ok (hids : svc.MakesIds) (hs : KeepsAI s)
    (setting : Option InstanceAISetting) :
    ReadsRows s.rows (svc.prepareInstanceAISettingForUpdate setting s).2 ∧
      ∀ ai, (svc.prepareInstanceAISettingForUpdate setting s).1 = .ok ai → ValidAI ai := by
  rcases hs with ⟨hcoherent, p, hp, hvalid⟩
  cases setting with
  | none => exact ⟨⟨rfl, hcoherent⟩, fun _ h => Effect.elim_error_ok h⟩
  | some setting =>
      rcases prepareInstanceAISettingForUpdate_eq hcoherent hp hvalid setting with ⟨hreads, hresult⟩
      refine ⟨hreads, fun ai h => ?_⟩
      rw [hresult] at h
      cases hprepared : svc.prepareAISetting p setting with
      | error err =>
          rw [hprepared] at h
          cases h
      | ok ai' =>
          rw [hprepared] at h
          rcases Except.ok.inj h with rfl
          exact prepareAISetting_valid hids hprepared

/-- What a write takes from the stored setting changes nothing, and AI settings are valid then. -/
theorem preserveCredentials_valid (hids : svc.MakesIds) (hs : KeepsAI s)
    (update : InstanceSetting) :
    ReadsRows s.rows (svc.preserveCredentials update s).2 ∧
      ∀ result, (svc.preserveCredentials update s).1 = .ok result → result.Key = .AI →
        ∃ ai, result.get .AI = some ai ∧ ValidAI ai := by
  have hreads : ReadsRows s.rows s := ⟨rfl, hs.1⟩
  rcases update with ⟨key, value⟩
  rw [preserveCredentials.eq_def]
  cases key with
  | AI =>
      have hprepared := prepareInstanceAISettingForUpdate_ok hids hs ((⟨.AI, value⟩ :
        InstanceSetting).get .AI)
      rcases hrun : svc.prepareInstanceAISettingForUpdate ((⟨.AI, value⟩ : InstanceSetting).get .AI)
        s with ⟨result, s'⟩
      rw [hrun] at hprepared
      dsimp only
      cases result with
      | error failure =>
          rw [Effect.bind_of_error hrun]
          exact ⟨hprepared.1, fun _ h => Effect.elim_error_ok h⟩
      | ok ai =>
          rw [Effect.bind_of_ok hrun]
          refine ⟨hprepared.1, fun result hresult _ => ?_⟩
          rcases Except.ok.inj hresult with rfl
          exact ⟨ai, InstanceSetting.get_self .AI .AI (some ai), hprepared.2 ai rfl⟩
  | NOTIFICATION =>
      dsimp only
      cases (⟨.NOTIFICATION, value⟩ : InstanceSetting).get .NOTIFICATION with
      | none =>
          refine ⟨hreads, fun result hresult hkey => ?_⟩
          rcases Except.ok.inj hresult with rfl
          cases hkey
      | some notif =>
          refine ⟨Effect.Keeps.bind (keeps_preserveSmtpPassword notif) (fun _ => .pure _) s hreads,
            fun result hresult hkey => ?_⟩
          rcases Effect.ok_of_bind (Effect.eq_of_fst hresult) with ⟨_, _, -, hpure⟩
          rcases Except.ok.inj (Prod.mk.inj hpure).1 with rfl
          cases hkey
  | STORAGE =>
      dsimp only
      cases (⟨.STORAGE, value⟩ : InstanceSetting).get .STORAGE with
      | none =>
          refine ⟨hreads, fun result hresult hkey => ?_⟩
          rcases Except.ok.inj hresult with rfl
          cases hkey
      | some storage =>
          refine ⟨Effect.Keeps.bind (keeps_preserveAccessKeySecret storage) (fun _ => .pure _) s
            hreads, fun result hresult hkey => ?_⟩
          rcases Effect.ok_of_bind (Effect.eq_of_fst hresult) with ⟨_, _, -, hpure⟩
          rcases Except.ok.inj (Prod.mk.inj hpure).1 with rfl
          cases hkey
  | _ =>
      refine ⟨hreads, fun result hresult hkey => ?_⟩
      rcases Except.ok.inj hresult with rfl
      cases hkey

/-- Up to the upsert a write changes nothing, and AI settings to be stored are valid. -/
theorem prepareUpdate_ok (hids : svc.MakesIds) (hs : KeepsAI s)
    (request : Option InstanceSettingMessage) :
    ReadsRows s.rows (svc.prepareUpdate request s).2 ∧
      ∀ update, (svc.prepareUpdate request s).1 = .ok update → update.Key = .AI →
        ∃ ai, update.get .AI = some ai ∧ ValidAI ai := by
  have hcoherent := hs.1
  rw [prepareUpdate.eq_def]
  cases svc.requireInstanceAdmin with
  | error failure => exact ⟨⟨rfl, hcoherent⟩, fun _ h => Effect.elim_error_ok h⟩
  | ok user =>
      cases request with
      | none => exact ⟨⟨rfl, hcoherent⟩, fun _ h => Effect.elim_error_ok h⟩
      | some message =>
          rw [Effect.ofExcept, Effect.pure_bind]
          dsimp only
          cases svc.validateInstanceSetting message with
          | error err => exact ⟨⟨rfl, hcoherent⟩, fun _ h => Effect.elim_error_ok h⟩
          | ok _ =>
              exact preserveCredentials_valid hids hs _

theorem KeepsAI.of_reads {s' : InstanceSettings} (hs : KeepsAI s) (h : ReadsRows s.rows s') :
    KeepsAI s' := by
  rcases hs with ⟨-, p, hp, hvalid⟩
  refine ⟨h.2, p, ?_, hvalid⟩
  rw [InstanceSettings.persisted, h.1, ← InstanceSettings.persisted]
  exact hp

/-- The upsert of valid settings. -/
theorem KeepsAI.upsert (hs : KeepsAI s) {update : InstanceSetting}
    (hvalid : update.Key = .AI → ∃ ai, update.get .AI = some ai ∧ ValidAI ai) :
    KeepsAI (InstanceSettings.UpsertInstanceSetting update s).2 := by
  refine ⟨hs.1.upsert update, ?_⟩
  rcases hs with ⟨-, p, hp, hstored⟩
  by_cases hkey : update.Key = .INSTANCE_SETTING_KEY_UNSPECIFIED
  · rw [InstanceSettings.UpsertInstanceSetting, hkey]
    exact ⟨p, hp, hstored⟩
  · rcases InstanceSettings.upsert_rows (s := s) hkey with ⟨setting, hupsert⟩
    rw [hupsert]
    by_cases hai : update.Key = .AI
    · rcases hvalid hai with ⟨ai, hget, hvalid⟩
      refine ⟨ai, ?_, hvalid⟩
      rcases update with ⟨key, value⟩
      rcases hai with rfl
      simp only [InstanceSettings.persisted, Function.update_self, Option.getD_some, hget]
    · refine ⟨p, ?_, hstored⟩
      simpa only [InstanceSettings.persisted, Function.update_of_ne (Ne.symm hai)] using hp

/-- An upsert that fails changes nothing. -/
theorem upsert_failed {update : InstanceSetting} {err : String} {s' : InstanceSettings}
    (h : InstanceSettings.UpsertInstanceSetting update s = (.error err, s')) : s' = s := by
  by_cases hkey : update.Key = .INSTANCE_SETTING_KEY_UNSPECIFIED
  · rw [InstanceSettings.UpsertInstanceSetting, hkey] at h
    exact (Prod.mk.inj h).2.symm
  · rcases InstanceSettings.upsert_rows (s := s) hkey with ⟨setting, hupsert⟩
    rw [hupsert] at h
    cases h

/-- A write keeps the stored AI settings valid, and if it fails it changes no row. -/
theorem updateUnless_ok (hids : svc.MakesIds) (hs : KeepsAI s) (refusal : Option String)
    (request : Option InstanceSettingMessage) :
    KeepsAI (svc.updateUnless refusal request s).2 ∧
      ∀ failure, (svc.updateUnless refusal request s).1 = .error failure →
        ReadsRows s.rows (svc.updateUnless refusal request s).2 := by
  rcases prepareUpdate_ok hids hs request with ⟨hreads, hvalid⟩
  rw [updateUnless]
  rcases hrun : svc.prepareUpdate request s with ⟨result, s'⟩
  rw [hrun] at hreads hvalid
  have hs' := hs.of_reads hreads
  cases result with
  | error failure =>
      rw [Effect.bind_of_error hrun]
      exact ⟨hs', fun _ _ => hreads⟩
  | ok update =>
      rw [Effect.bind_of_ok hrun]
      cases refusal with
      | some err => exact ⟨hs', fun _ _ => hreads⟩
      | none =>
          have hupserted := hs'.upsert (hvalid update rfl)
          rcases hupsert : InstanceSettings.UpsertInstanceSetting update s' with ⟨stored, t⟩
          rw [hupsert] at hupserted
          cases stored with
          | error err =>
              have hmapped : upsertUnless none update s' =
                  (.error (.status .Internal ("failed to upsert instance setting: " ++ err)),
                    t) := by
                rw [upsertUnless, Effect.mapError, Option.elim_none, hupsert]
                rfl
              rw [Effect.bind_of_error hmapped, upsert_failed hupsert]
              exact ⟨hs', fun _ _ => hreads⟩
          | ok setting =>
              have hmapped : upsertUnless none update s' = (.ok setting, t) := by
                rw [upsertUnless, Effect.mapError, Option.elim_none, hupsert]
                rfl
              rw [Effect.bind_of_ok hmapped]
              exact ⟨hupserted, fun _ h => Effect.elim_error_ok h.symm⟩

/-! ## What is read -/

section Answers

variable {s' : InstanceSettings}

theorem getWithDefaults_same (h : s.Coherent) (h' : ReadsRows s.rows s') (k : InstanceSettingKey)
    (context : String) : (InstanceSettings.getWithDefaults k context s').1 =
      (InstanceSettings.getWithDefaults k context s).1 := by
  have hpersisted : s'.persisted k = s.persisted k := by
    rw [InstanceSettings.persisted, h'.1, ← InstanceSettings.persisted]
  cases hp : s.persisted k with
  | ok p =>
      rcases InstanceSettings.getWithDefaults_ok h hp context with ⟨t, hget, -⟩
      rcases InstanceSettings.getWithDefaults_ok h'.2 (hpersisted.trans hp) context with
        ⟨t', hget', -⟩
      rw [hget, hget']
  | error err =>
      rw [InstanceSettings.getWithDefaults_error h hp context,
        InstanceSettings.getWithDefaults_error h'.2 (hpersisted.trans hp) context]

private theorem readSetting_same (h : s.Coherent) (h' : ReadsRows s.rows s')
    (k : InstanceSettingKey) :
    (readSetting k s').1 = (readSetting k s).1 := by
  have hread (context : String) : ((do
      let _ ← (InstanceSettings.getWithDefaults k context).mapError fun err =>
        Failure.status .Internal ("failed to get instance setting: " ++ err)
      pure () : Effect Failure InstanceSettings Unit) s').1 = ((do
      let _ ← (InstanceSettings.getWithDefaults k context).mapError fun err =>
        Failure.status .Internal ("failed to get instance setting: " ++ err)
      pure () : Effect Failure InstanceSettings Unit) s).1 :=
    Effect.fst_bind_congr (congrArg (Except.mapError _) (getWithDefaults_same h h' k context))
      fun _ _ => rfl
  cases k with
  | INSTANCE_SETTING_KEY_UNSPECIFIED => rfl
  | _ => exact hread _

/-- What is read of a setting depends on the rows alone. -/
theorem getInstanceSetting_same (svc : InstanceService) (h : s.Coherent)
    (h' : ReadsRows s.rows s') (name : String) :
    (svc.GetInstanceSetting name s').1 = (svc.GetInstanceSetting name s).1 := by
  rw [GetInstanceSetting]
  cases svc.ExtractInstanceSettingKeyFromName name with
  | error err => rfl
  | ok text =>
      have hkey (k : InstanceSettingKey) :
          (svc.getInstanceSettingByKey k s').1 = (svc.getInstanceSettingByKey k s).1 := by
        rw [getInstanceSettingByKey]
        apply Effect.fst_bind_congr (readSetting_same h h' k)
        intro _ hok
        have hpersisted : s'.persisted k = s.persisted k := by
          rw [InstanceSettings.persisted, h'.1, ← InstanceSettings.persisted]
        by_cases hk : k = .INSTANCE_SETTING_KEY_UNSPECIFIED
        · rcases hk with rfl
          cases hok
        cases hp : s.persisted k with
        | error err =>
            rcases readSetting_error h hp with ⟨failure, hread⟩
            rw [hread] at hok
            cases hok
        | ok p =>
            rcases readSetting_ok hk h hp with ⟨t, hread, -, -, hcache⟩
            rcases readSetting_ok hk h'.2 (hpersisted.trans hp) with ⟨t', hread', -, -, hcache'⟩
            rw [hread, hread']
            apply Effect.fst_bind_congr
            · rw [Effect.mapError, Effect.mapError,
                InstanceSettings.getInstanceSetting_cached hcache,
                InstanceSettings.getInstanceSetting_cached hcache']
            · intro found _
              cases found with
              | none => rfl
              | some m =>
                  dsimp only
                  split_ifs
                  · cases svc.requireInstanceAdmin <;> rfl
                  · rcases svc.fetchCurrentUser with err | user
                    · rfl
                    · cases user <;> rfl
                  · rfl
      exact hkey _

private theorem keeps_readSetting (k : InstanceSettingKey) :
    Effect.Keeps (ReadsRows rows) (readSetting k) := by
  have hread (context : String) : Effect.Keeps (ReadsRows rows) (do
      let _ ← (InstanceSettings.getWithDefaults k context).mapError fun err =>
        Failure.status .Internal ("failed to get instance setting: " ++ err)
      pure () : Effect Failure InstanceSettings Unit) :=
    .bind (.mapError (keeps_getWithDefaults k context) _) fun _ => .pure ()
  cases k with
  | INSTANCE_SETTING_KEY_UNSPECIFIED => exact .fail _
  | _ => exact hread _

/-- A read changes no row. -/
theorem keeps_GetInstanceSetting (svc : InstanceService) (name : String) :
    Effect.Keeps (ReadsRows rows) (svc.GetInstanceSetting name) := by
  rw [GetInstanceSetting]
  refine .bind (.ofExcept _) fun text => ?_
  rw [getInstanceSettingByKey]
  refine .bind (keeps_readSetting _) fun _ => .bind (.mapError (keeps_getInstanceSetting _) _) ?_
  intro found
  cases found with
  | none => exact .fail _
  | some p =>
      dsimp only
      split_ifs
      · exact .bind (.ofExcept _) fun _ => .pure _
      · rcases svc.fetchCurrentUser with err | user
        · exact .fail _
        · cases user with
          | none => exact .fail _
          | some user => exact .pure _
      · exact .pure _

private theorem preserveSmtpPassword_same (h : s.Coherent) (h' : ReadsRows s.rows s')
    (notif : InstanceNotificationSetting) :
    (preserveSmtpPassword notif s').1 = (preserveSmtpPassword notif s).1 := by
  rw [preserveSmtpPassword.eq_def]
  cases notif.Email with
  | none => rfl
  | some email =>
      dsimp only
      split_ifs
      · rfl
      · apply Effect.fst_bind_congr (congrArg Except.ok (getWithDefaults_same h h' _ _))
        intro existing _
        cases storedPassword notif email existing <;> rfl

private theorem preserveAccessKeySecret_same (h : s.Coherent) (h' : ReadsRows s.rows s')
    (storage : InstanceStorageSetting) :
    (preserveAccessKeySecret storage s').1 = (preserveAccessKeySecret storage s).1 := by
  rw [preserveAccessKeySecret.eq_def]
  cases storage.S3Config with
  | none => rfl
  | some config =>
      dsimp only
      split_ifs
      · rfl
      · exact Effect.fst_bind_congr (congrArg Except.ok (getWithDefaults_same h h' _ _))
          fun _ _ => rfl

private theorem preserveCredentials_same (svc : InstanceService) (hs : KeepsAI s)
    (h' : ReadsRows s.rows s') (update : InstanceSetting) :
    (svc.preserveCredentials update s').1 = (svc.preserveCredentials update s).1 := by
  have hs' := hs.of_reads h'
  rcases hs with ⟨hcoherent, p, hp, hvalid⟩
  have hp' : s'.persisted .AI = .ok p := by
    rw [InstanceSettings.persisted, h'.1, ← InstanceSettings.persisted]
    exact hp
  rcases update with ⟨key, value⟩
  rw [preserveCredentials.eq_def]
  cases key with
  | AI =>
      dsimp only
      cases (⟨.AI, value⟩ : InstanceSetting).get .AI with
      | none => rfl
      | some setting =>
          apply Effect.fst_bind_congr
          · rw [(prepareInstanceAISettingForUpdate_eq hcoherent hp hvalid setting).2,
              (prepareInstanceAISettingForUpdate_eq hs'.1 hp' hvalid setting).2]
          · exact fun _ _ => rfl
  | NOTIFICATION =>
      dsimp only
      cases (⟨.NOTIFICATION, value⟩ : InstanceSetting).get .NOTIFICATION with
      | none => rfl
      | some notif =>
          exact Effect.fst_bind_congr (preserveSmtpPassword_same hcoherent h' notif)
            fun _ _ => rfl
  | STORAGE =>
      dsimp only
      cases (⟨.STORAGE, value⟩ : InstanceSetting).get .STORAGE with
      | none => rfl
      | some storage =>
          exact Effect.fst_bind_congr (preserveAccessKeySecret_same hcoherent h' storage)
            fun _ _ => rfl
  | _ => rfl

private theorem prepareUpdate_same (svc : InstanceService) (hs : KeepsAI s)
    (h' : ReadsRows s.rows s')
    (request : Option InstanceSettingMessage) :
    (svc.prepareUpdate request s').1 = (svc.prepareUpdate request s).1 := by
  rw [prepareUpdate.eq_def]
  cases svc.requireInstanceAdmin with
  | error failure => rfl
  | ok user =>
      cases request with
      | none => rfl
      | some message =>
          rw [Effect.ofExcept, Effect.pure_bind]
          dsimp only
          cases svc.validateInstanceSetting message with
          | error err => rfl
          | ok _ => exact preserveCredentials_same svc hs h' _

private theorem upsert_same (hrows : s'.rows = s.rows) (update : InstanceSetting) :
    (InstanceSettings.UpsertInstanceSetting update s').2.rows =
      (InstanceSettings.UpsertInstanceSetting update s).2.rows := by
  rcases update with ⟨key, value⟩
  cases key <;> simp [InstanceSettings.UpsertInstanceSetting, hrows]

/-- The rows that a write leaves depend on the rows alone. -/
theorem updateUnless_same (hids : svc.MakesIds) (hs : KeepsAI s) (h' : ReadsRows s.rows s')
    (refusal : Option String) (request : Option InstanceSettingMessage) :
    ReadsRows (svc.updateUnless refusal request s).2.rows
      (svc.updateUnless refusal request s').2 := by
  refine ⟨?_, (updateUnless_ok hids (hs.of_reads h') refusal request).1.1⟩
  have hresult := prepareUpdate_same svc hs h' request
  have hreads := (prepareUpdate_ok hids hs request).1
  have hreads' := (prepareUpdate_ok hids (hs.of_reads h') request).1
  have hrows := hreads'.1.trans (h'.1.trans hreads.1.symm)
  rw [updateUnless]
  rcases hrun : svc.prepareUpdate request s with ⟨result, t⟩
  rcases hrun' : svc.prepareUpdate request s' with ⟨result', t'⟩
  rw [hrun, hrun'] at hresult hrows
  rcases hresult with rfl
  cases result' with
  | error failure =>
      rw [Effect.bind_of_error hrun, Effect.bind_of_error hrun']
      exact hrows
  | ok update =>
      rw [Effect.bind_of_ok hrun, Effect.bind_of_ok hrun']
      cases refusal with
      | some err => exact hrows
      | none =>
          rw [Effect.snd_bind_pure, Effect.snd_bind_pure]
          exact upsert_same hrows update

end Answers

/-! ## Sequences of requests -/

/-- The service of a request makes proper identifiers. -/
def SettingEvent.MakesIds : SettingEvent → Prop
  | update svc _ _ => svc.MakesIds
  | _ => True

/-- The settings after a sequence of requests. -/
def afterEvents (events : List SettingEvent) (s : InstanceSettings) : InstanceSettings :=
  events.foldl (fun s event => event.run s) s

theorem keepsAI_run {event : SettingEvent} (hids : event.MakesIds) (hs : KeepsAI s) :
    KeepsAI (event.run s) := by
  cases event with
  | update svc request refusal => exact (updateUnless_ok hids hs refusal request).1
  | get svc name => exact hs.of_reads (keeps_GetInstanceSetting svc name s ⟨rfl, hs.1⟩)
  | evict k => exact hs.of_reads ⟨rfl, hs.1.evict⟩

private theorem readsRows_run {event : SettingEvent} {s' : InstanceSettings} (hids : event.MakesIds)
    (hs : KeepsAI s) (h' : ReadsRows s.rows s') :
    ReadsRows (event.run s).rows (event.run s') := by
  cases event with
  | update svc request refusal => exact updateUnless_same hids hs h' refusal request
  | get svc name =>
      rw [SettingEvent.run, SettingEvent.run,
        (keeps_GetInstanceSetting svc name s ⟨rfl, hs.1⟩).1]
      exact keeps_GetInstanceSetting svc name s' h'
  | evict k => exact ⟨h'.1, h'.2.evict⟩

theorem keepsAI_afterEvents {events : List SettingEvent}
    (hids : ∀ event ∈ events, event.MakesIds) (hs : KeepsAI s) :
    KeepsAI (afterEvents events s) := by
  induction events generalizing s with
  | nil => exact hs
  | cons event events ih =>
      exact ih (fun e he => hids e (List.mem_cons_of_mem event he))
        (keepsAI_run (hids event List.mem_cons_self) hs)

private theorem readsRows_afterEvents {events : List SettingEvent} {s' : InstanceSettings}
    (hids : ∀ event ∈ events, event.MakesIds) (hs : KeepsAI s) (h' : ReadsRows s.rows s') :
    ReadsRows (afterEvents events s).rows (afterEvents events s') := by
  induction events generalizing s s' with
  | nil => exact h'
  | cons event events ih =>
      have hevent := hids event List.mem_cons_self
      exact ih (fun e he => hids e (List.mem_cons_of_mem event he)) (keepsAI_run hevent hs)
        (readsRows_run hevent hs h')

/-- After any requests the stored AI settings have providers with an identifier of their own and a
key, and a transcription with one of them or none; and after a write that fails, whatever is
requested later, reads answer as if it had not been. -/
theorem storedAI_valid {rows : (k : InstanceSettingKey) → Option (Except String (Payload k))}
    (hstart : ∀ row ∈ rows .AI, ∃ p, row = .ok p ∧ ValidAI p) {events : List SettingEvent}
    (hids : ∀ event ∈ events, event.MakesIds) :
    (∃ p, (afterEvents events { rows := rows }).persisted .AI = .ok p ∧ ValidAI p) ∧
      ∀ {svc : InstanceService}, svc.MakesIds → ∀ refusal request failure failed,
        svc.updateUnless refusal request (afterEvents events { rows := rows }) =
          (.error failure, failed) →
        ∀ later : List SettingEvent, (∀ event ∈ later, event.MakesIds) →
          ∀ (reader : InstanceService) (name : String),
            (reader.GetInstanceSetting name (afterEvents later failed)).1 =
              (reader.GetInstanceSetting name
                (afterEvents later (afterEvents events { rows := rows }))).1 := by
  have hempty : ValidAI {} := ⟨List.nodup_nil, by simp, by simp, by simp, by simp⟩
  have hinitial : KeepsAI { rows := rows } := by
    refine ⟨(InstanceSettings.Reached.start rows).coherent, ?_⟩
    cases hrow : rows .AI with
    | none => exact ⟨{}, by simp [InstanceSettings.persisted, hrow, emptyPayload], hempty⟩
    | some row =>
        rcases hstart row hrow with ⟨p, rfl, hvalid⟩
        exact ⟨p, by simp [InstanceSettings.persisted, hrow], hvalid⟩
  have hs := keepsAI_afterEvents hids hinitial
  refine ⟨hs.2, ?_⟩
  intro svc hmakes refusal request failure failed hfailed later hlater reader name
  have hreads := (updateUnless_ok hmakes hs refusal request).2 failure (congrArg Prod.fst hfailed)
  rw [hfailed] at hreads
  exact getInstanceSetting_same reader (keepsAI_afterEvents hlater hs).1
    (readsRows_afterEvents hlater hs hreads) name

/-- A request to store one provider. -/
def aiRequest (id apiKey : String) : SettingEvent :=
  .update plain (some {
    Name := "instance/settings/AI"
    Value := some ⟨.AI, {
      Providers := [
        { Id := id, Title := "OpenAI", ProviderType := .OPENAI, ApiKey := apiKey }] }⟩ })
    none

theorem storedAI_valid_keyless :
    (∃ p, (afterEvents [aiRequest "" "sk-1"] {}).persisted .AI = .ok p ∧ ValidAI p) ∧
      ∃ failure failed, plain.updateUnless none (some {
          Name := "instance/settings/AI"
          Value := some ⟨.AI, {
            Providers := [{ Id := "b", Title := "OpenAI", ProviderType := .OPENAI }] }⟩ })
          (afterEvents [aiRequest "" "sk-1"] {}) = (.error failure, failed) ∧
        (plain.GetInstanceSetting "instance/settings/AI" failed).1 =
          (plain.GetInstanceSetting "instance/settings/AI"
            (afterEvents [aiRequest "" "sk-1"] {})).1 := by
  have hids : ∀ event ∈ [aiRequest "" "sk-1"], event.MakesIds := by
    intro event hevent
    rcases List.mem_singleton.mp hevent with rfl
    exact plain_makesIds
  have hstart : ∀ row ∈ (none : Option (Except String (Payload .AI))),
      ∃ p, row = .ok p ∧ ValidAI p := by simp
  have hstored := @storedAI_valid (fun _ => none) hstart _ hids
  have hfailed : ∃ failure failed, plain.updateUnless none (some {
      Name := "instance/settings/AI"
      Value := some ⟨.AI, {
        Providers := [{ Id := "b", Title := "OpenAI", ProviderType := .OPENAI }] }⟩ })
      (afterEvents [aiRequest "" "sk-1"] {}) = (.error failure, failed) :=
    ⟨_, _, rfl⟩
  rcases hfailed with ⟨failure, failed, hfailed⟩
  refine ⟨hstored.1, failure, failed, hfailed, ?_⟩
  exact hstored.2 plain_makesIds none _ failure failed hfailed []
    (fun _ h => absurd h List.not_mem_nil) plain _

end InstanceService

end Api
end MemosNote
