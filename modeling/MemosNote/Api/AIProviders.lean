import Mathlib.Data.List.DropRight
import Mathlib.Data.List.Forall2
import Mathlib.Data.List.Perm.Subperm
import MemosNote.Api.InstanceService
import MemosNote.Library.Traverse

/-!
# AI providers that are sent back

What a write of the AI settings makes of the stored providers when they are sent back without their
keys.

Main results:

- Theorem {lit}`InstanceService.prepareProviders_ok`: the providers that are accepted, and what is
  made of them.
- Theorem {lit}`InstanceService.prepareAISetting_iff`: the stored AI settings that are accepted, and
  what is made of them.
- Theorem {lit}`InstanceService.normalizeAI_eq_iff`: when they are left as they are.
-/

namespace MemosNote
namespace Api

open Library Store

/-! ## Trimming, checks and related lists -/

theorem trimSpace_trimSpace (text : String) : trimSpace (trimSpace text) = trimSpace text := by
  have hstart : ∀ l : List Char, (l.dropWhile Filter.isSpace).rdropWhile Filter.isSpace <+:
      l.dropWhile Filter.isSpace := fun l => List.rdropWhile_prefix _ _
  have hfront : ∀ l : List Char,
      ((l.dropWhile Filter.isSpace).rdropWhile Filter.isSpace).dropWhile Filter.isSpace =
        (l.dropWhile Filter.isSpace).rdropWhile Filter.isSpace := by
    intro l
    rw [List.dropWhile_eq_self_iff]
    intro hlength hspace
    rcases hstart l with ⟨rest, hrest⟩
    have hlong : 0 < (l.dropWhile Filter.isSpace).length := by
      rw [← hrest, List.length_append]
      omega
    have hself := List.dropWhile_eq_self_iff.mp
      (List.dropWhile_idempotent (p := Filter.isSpace) l) hlong
    apply hself
    have hhead : (l.dropWhile Filter.isSpace)[0] =
        ((l.dropWhile Filter.isSpace).rdropWhile Filter.isSpace)[0] := by
      have := List.IsPrefix.getElem (hstart l) hlength
      exact this.symm
    rw [hhead]
    exact hspace
  have hback : ∀ l : List Char, (l.rdropWhile Filter.isSpace).rdropWhile Filter.isSpace =
      l.rdropWhile Filter.isSpace := fun l => List.rdropWhile_idempotent _ _
  have htrim : ∀ l : List Char, trimSpace (String.ofList l) =
      String.ofList ((l.dropWhile Filter.isSpace).rdropWhile Filter.isSpace) := by
    intro l
    rw [trimSpace, String.toList_ofList]
    rfl
  have htext : trimSpace text =
      String.ofList ((text.toList.dropWhile Filter.isSpace).rdropWhile Filter.isSpace) := rfl
  rw [htext, htrim, hfront, hback]

/-- A check that fails ends the computation. -/
theorem guard_ok {ε α : Type} {c : Prop} [Decidable c] {e : ε} {f : Unit → Except ε α}
    {x : Except ε α} {a : α} :
    (if c then (throw e >>= f) else x) = .ok a ↔ ¬ c ∧ x = .ok a := by
  by_cases hc : c
  · rw [if_pos hc]
    constructor
    · intro h
      cases h
    · intro h
      exact absurd hc h.1
  · rw [if_neg hc]
    exact ⟨fun h => ⟨hc, h⟩, fun h => h.2⟩

private theorem eq_map_of_related {α β : Type} {R : α → β → Prop} {f : α → β} {as : List α}
    {bs : List β}
    (h : List.Forall₂ R as bs) (hf : ∀ a ∈ as, ∀ b, R a b → b = f a) : bs = as.map f := by
  induction h with
  | nil => rfl
  | @cons a b as bs hab _ ih =>
      rw [List.map_cons, hf a (by simp) b hab, ih fun a' ha' => hf a' (by simp [ha'])]

namespace InstanceService

variable {svc : InstanceService}

/-! ## Accepted and normal settings -/

/-- A stored provider as a write leaves it. -/
def normalizeProvider (provider : AIProviderConfig) : AIProviderConfig :=
  { provider with
    Title := trimSpace provider.Title
    Endpoint :=
      if trimSpace provider.Endpoint = "" then defaultEndpoint provider.ProviderType
      else trimSpace provider.Endpoint }

/-- A normalized provider has its own identifier and key. -/
private theorem normalizeProvider_own (provider : AIProviderConfig) :
    { normalizeProvider provider with Id := provider.Id, ApiKey := provider.ApiKey } =
      normalizeProvider provider := by
  simp only [normalizeProvider]

/-- Stored AI settings as a write leaves them. -/
def normalizeAI (setting : InstanceAISetting) : InstanceAISetting where
  Providers := setting.Providers.map normalizeProvider
  Transcription := setting.Transcription.map trimTranscription

/-- A stored provider that a write accepts. -/
structure AcceptedProvider (provider : AIProviderConfig) : Prop where
  id_trimmed : trimSpace provider.Id = provider.Id
  id_ne : provider.Id ≠ ""
  title_ne : trimSpace provider.Title ≠ ""
  type_supported : supportedProviderType provider.ProviderType = true
  key_ne : provider.ApiKey ≠ ""

/-- A transcription that a write accepts beside the given providers. -/
structure AcceptedTranscription (providers : List AIProviderConfig) (config : TranscriptionConfig) :
    Prop where
  provider_known : trimSpace config.ProviderId ≠ "" →
    trimSpace config.ProviderId ∈ providers.map (·.Id)
  model_short : (trimSpace config.Model).utf8ByteSize ≤ maxTranscriptionConfigModelLength
  language_short : (trimSpace config.Language).utf8ByteSize ≤ maxTranscriptionConfigLanguageLength
  prompt_short : (trimSpace config.Prompt).utf8ByteSize ≤ maxTranscriptionConfigPromptLength

/-- Stored AI settings that a write accepts when they are sent back. -/
structure AcceptedAI (setting : InstanceAISetting) : Prop where
  providers : ∀ provider ∈ setting.Providers, AcceptedProvider provider
  ids_nodup : (setting.Providers.map (·.Id)).Nodup
  transcription : ∀ config, setting.Transcription = some config →
    AcceptedTranscription setting.Providers config

/-- A provider as it is sent back: without its key. -/
def withoutKey (provider : AIProviderConfig) : AIProviderConfig :=
  { provider with ApiKey := "" }

/-- The identifier a write gives a provider. -/
def preparedId (svc : InstanceService) (seenIDs : List String) (provider : AIProviderConfig) :
    String :=
  if trimSpace provider.Id = "" then svc.shortuuid seenIDs.length else trimSpace provider.Id

/-- Identifiers are made without blanks around them and are not empty. -/
def MakesIds (svc : InstanceService) : Prop :=
  ∀ n, trimSpace (svc.shortuuid n) = svc.shortuuid n ∧ svc.shortuuid n ≠ ""

theorem preparedId_trimmed (hids : svc.MakesIds) (seenIDs : List String)
    (provider : AIProviderConfig) :
    trimSpace (svc.preparedId seenIDs provider) = svc.preparedId seenIDs provider ∧
      svc.preparedId seenIDs provider ≠ "" := by
  rw [preparedId]
  split
  · exact hids seenIDs.length
  · next hne => exact ⟨trimSpace_trimSpace provider.Id, hne⟩

/-- What a write makes of a provider that was sent back without its key. -/
theorem prepareProvider_withoutKey (svc : InstanceService) (existing : InstanceAISetting)
    (seenIDs : List String) (provider prepared : AIProviderConfig) :
    svc.prepareProvider existing seenIDs (withoutKey provider) = .ok prepared ↔
      svc.preparedId seenIDs provider ∉ seenIDs ∧ trimSpace provider.Title ≠ "" ∧
        supportedProviderType provider.ProviderType = true ∧
        ∃ stored, existingProvider existing (svc.preparedId seenIDs provider) = some stored ∧
          stored.ApiKey ≠ "" ∧
          prepared = { normalizeProvider provider with
            Id := svc.preparedId seenIDs provider
            ApiKey := stored.ApiKey } := by
  have hid : (if trimSpace (withoutKey provider).Id = "" then svc.shortuuid seenIDs.length
      else trimSpace (withoutKey provider).Id) = svc.preparedId seenIDs provider := rfl
  simp only [prepareProvider, hid, guard_ok]
  cases hstored : existingProvider existing (svc.preparedId seenIDs provider) with
  | none => simp [withoutKey]
  | some stored =>
      simp only [withoutKey, normalizeProvider, Option.map_some, Option.getD_some, if_true,
        Option.some.injEq, exists_eq_left']
      constructor
      · intro h
        rcases h with ⟨hseen, htitle, htype, hkey, hprepared⟩
        exact ⟨hseen, htitle, by simpa using htype, hkey, (Except.ok.inj hprepared).symm⟩
      · intro h
        rcases h with ⟨hseen, htitle, htype, hkey, rfl⟩
        exact ⟨hseen, htitle, by simpa using htype, hkey, rfl⟩

theorem existingProvider_some {existing : InstanceAISetting} {id : String}
    {stored : AIProviderConfig} (h : existingProvider existing id = some stored) :
    stored ∈ existing.Providers ∧ stored.Id = id := by
  rw [existingProvider] at h
  have hfound := List.find?_some h
  simp only [ne_eq, decide_not, Bool.and_eq_true, decide_eq_true_eq] at hfound
  exact ⟨List.mem_reverse.mp (List.mem_of_find?_eq_some h), hfound.2⟩

/-- With one provider for each identifier, a provider is found under its own. -/
theorem existingProvider_self {existing : InstanceAISetting}
    (hnodup : (existing.Providers.map (·.Id)).Nodup) {provider : AIProviderConfig}
    (hmem : provider ∈ existing.Providers) (hne : provider.Id ≠ "") :
    existingProvider existing provider.Id = some provider := by
  cases hfound : existingProvider existing provider.Id with
  | none =>
      rw [existingProvider, List.find?_eq_none] at hfound
      have hno := hfound provider (List.mem_reverse.mpr hmem)
      simp [hne] at hno
  | some stored =>
      rcases existingProvider_some hfound with ⟨hstored, hid⟩
      rw [List.inj_on_of_nodup_map hnodup hstored hmem hid]

/-- A provider that was sent back without its key, and what a write made of it. -/
structure PreparedFrom (existing : InstanceAISetting) (provider prepared : AIProviderConfig) :
    Prop where
  id_eq : trimSpace provider.Id ≠ "" → prepared.Id = trimSpace provider.Id
  id_trimmed : trimSpace prepared.Id = prepared.Id
  id_ne : prepared.Id ≠ ""
  title_ne : trimSpace provider.Title ≠ ""
  type_supported : supportedProviderType provider.ProviderType = true
  stored : ∃ stored ∈ existing.Providers, stored.Id = prepared.Id ∧ stored.ApiKey ≠ "" ∧
    prepared = { normalizeProvider provider with Id := prepared.Id, ApiKey := stored.ApiKey }

/-- What a write makes of providers that were sent back without their keys. -/
theorem prepareProviders_withoutKey (hids : svc.MakesIds) {existing : InstanceAISetting}
    {seenIDs : List String} {providers prepared : List AIProviderConfig}
    (h : svc.prepareProviders existing seenIDs (providers.map withoutKey) = .ok prepared) :
    List.Forall₂ (PreparedFrom existing) providers prepared ∧
      (prepared.map (·.Id)).Nodup ∧ ∀ provider ∈ prepared, provider.Id ∉ seenIDs := by
  induction providers generalizing seenIDs prepared with
  | nil =>
      cases h
      exact ⟨.nil, List.nodup_nil, by simp⟩
  | cons provider providers ih =>
      rw [List.map_cons, prepareProviders] at h
      cases hfirst : svc.prepareProvider existing seenIDs (withoutKey provider) with
      | error err =>
          rw [hfirst] at h
          cases h
      | ok first =>
          rw [hfirst] at h
          cases hrest : svc.prepareProviders existing (seenIDs ++ [first.Id])
            (providers.map withoutKey) with
          | error err =>
              simp only [hrest, bind, Except.bind] at h
              cases h
          | ok rest =>
              simp only [hrest, bind, Except.bind, pure, Except.pure] at h
              cases h
              rcases ih hrest with ⟨hforall, hnodup, hfresh⟩
              rcases (prepareProvider_withoutKey svc existing seenIDs provider first).mp hfirst with
                ⟨hseen, htitle, htype, stored, hstored, hkey, hprepared⟩
              rcases existingProvider_some hstored with ⟨hmem, hid⟩
              rcases preparedId_trimmed hids seenIDs provider with ⟨htrimmed, hne⟩
              have hfirstID : first.Id = svc.preparedId seenIDs provider := by rw [hprepared]
              rw [← hfirstID] at hseen hid htrimmed hne hprepared
              have hpreparedFrom : PreparedFrom existing provider first := by
                refine ⟨?_, htrimmed, hne, htitle, htype, stored, hmem, hid, hkey, hprepared⟩
                intro hprovider
                rw [hfirstID]
                exact if_neg hprovider
              refine ⟨.cons hpreparedFrom hforall, List.nodup_cons.mpr ⟨?_, hnodup⟩, ?_⟩
              · intro hin
                rcases List.mem_map.mp hin with ⟨other, hother, hsame⟩
                apply hfresh other hother
                rw [hsame]
                simp
              · intro other hother
                rcases List.mem_cons.mp hother with rfl | hother
                · exact hseen
                · intro hin
                  exact hfresh other hother (List.mem_append_left _ hin)

/-- Providers that a write accepts when they are sent back, and what it makes of them. -/
theorem prepareProviders_ok (hids : svc.MakesIds) {setting : InstanceAISetting}
    {prepared : List AIProviderConfig}
    (h : svc.prepareProviders setting [] (setting.Providers.map withoutKey) = .ok prepared) :
    (∀ provider ∈ setting.Providers, AcceptedProvider provider) ∧
      (setting.Providers.map (·.Id)).Nodup ∧ prepared = setting.Providers.map normalizeProvider := by
  rcases prepareProviders_withoutKey hids h with ⟨hforall, hnodup, -⟩
  -- The identifiers are among the stored ones, and there are as many of them.
  have hknown : prepared.map (·.Id) ⊆ setting.Providers.map (·.Id) := by
    intro id hid
    rcases List.mem_map.mp hid with ⟨result, hresult, rfl⟩
    rcases Traverse.exists_left hforall _ hresult with ⟨provider, -, hfrom⟩
    rcases hfrom.stored with ⟨stored, hstored, hid, -⟩
    exact List.mem_map.mpr ⟨stored, hstored, hid⟩
  have hperm : (prepared.map (·.Id)).Perm (setting.Providers.map (·.Id)) := by
    apply (List.subperm_of_subset hnodup hknown).perm_of_length_le
    rw [List.length_map, List.length_map, hforall.length_eq]
  have hstoredNodup : (setting.Providers.map (·.Id)).Nodup := hperm.nodup_iff.mp hnodup
  have hids : ∀ provider ∈ setting.Providers,
      trimSpace provider.Id = provider.Id ∧ provider.Id ≠ "" := by
    intro provider hprovider
    have hid : provider.Id ∈ prepared.map (·.Id) :=
      hperm.mem_iff.mpr (List.mem_map_of_mem hprovider)
    rcases List.mem_map.mp hid with ⟨result, hresult, hsame⟩
    rcases Traverse.exists_left hforall _ hresult with ⟨_, -, hfrom⟩
    rw [← hsame]
    exact ⟨hfrom.id_trimmed, hfrom.id_ne⟩
  -- So every provider has kept its identifier and was given its own key.
  have hsame : ∀ provider ∈ setting.Providers, ∀ result, PreparedFrom setting provider result →
      AcceptedProvider provider ∧ result = normalizeProvider provider := by
    intro provider hprovider result hfrom
    rcases hids provider hprovider with ⟨htrimmed, hne⟩
    have hid : result.Id = provider.Id := by
      rw [hfrom.id_eq (by rwa [htrimmed]), htrimmed]
    rcases hfrom.stored with ⟨stored, hstored, hstoredId, hkey, hresult⟩
    have hself : stored = provider :=
      List.inj_on_of_nodup_map hstoredNodup hstored hprovider (hstoredId.trans hid)
    subst hself
    refine ⟨⟨htrimmed, hne, hfrom.title_ne, hfrom.type_supported, hkey⟩, ?_⟩
    rw [hresult, hid, normalizeProvider_own]
  refine ⟨?_, hstoredNodup,
    eq_map_of_related hforall fun provider hprovider result hfrom =>
      (hsame provider hprovider result hfrom).2⟩
  intro provider hprovider
  rcases Traverse.exists_right hforall _ hprovider with ⟨result, -, hfrom⟩
  exact (hsame provider hprovider result hfrom).1

/-- Accepted providers are prepared, one after the other. -/
theorem prepareProviders_accepted (svc : InstanceService) {setting : InstanceAISetting}
    (h : AcceptedAI setting) {before after : List AIProviderConfig}
    (hsplit : setting.Providers = before ++ after) :
    svc.prepareProviders setting (before.map (·.Id)) (after.map withoutKey) =
      .ok (after.map normalizeProvider) := by
  induction after generalizing before with
  | nil => rfl
  | cons provider after ih =>
      have hmem : provider ∈ setting.Providers := by
        rw [hsplit]
        simp
      have haccepted := h.providers provider hmem
      have hid : svc.preparedId (before.map (·.Id)) provider = provider.Id := by
        rw [preparedId, haccepted.id_trimmed, if_neg haccepted.id_ne]
      have hfresh : provider.Id ∉ before.map (·.Id) := by
        intro hseen
        have hnodup := h.ids_nodup
        rw [hsplit, List.map_append, List.map_cons] at hnodup
        exact (List.nodup_append.mp hnodup).2.2 _ hseen _ (by simp) rfl
      have hfirst : svc.prepareProvider setting (before.map (·.Id)) (withoutKey provider) =
          .ok (normalizeProvider provider) := by
        rw [prepareProvider_withoutKey, hid]
        exact ⟨hfresh, haccepted.title_ne, haccepted.type_supported, provider,
          existingProvider_self h.ids_nodup hmem haccepted.id_ne, haccepted.key_ne,
          (normalizeProvider_own provider).symm⟩
      have hnext : setting.Providers = (before ++ [provider]) ++ after := by simp [hsplit]
      have hrest := ih hnext
      rw [List.map_append] at hrest
      rw [List.map_cons, prepareProviders, hfirst]
      simp only [bind, Except.bind, pure, Except.pure]
      rw [show (before.map (·.Id) ++ [(normalizeProvider provider).Id]) =
        before.map (·.Id) ++ [provider].map (·.Id) from rfl, hrest]
      rfl

theorem checkLength_ok {what text : String} {max : ℕ} :
    checkLength what max text = .ok () ↔ text.utf8ByteSize ≤ max := by
  rw [checkLength]
  split
  · next hlong =>
    constructor
    · intro h
      cases h
    · intro h
      omega
  · next hshort => exact ⟨fun _ => by omega, fun _ => rfl⟩

/-- The transcription that a write keeps. -/
theorem preparePersistedTranscriptionConfig_ok (svc : InstanceService)
    {existing setting result : InstanceAISetting}
    (hsame : setting.Transcription = existing.Transcription) :
    svc.preparePersistedTranscriptionConfig existing setting = .ok result ↔
      (∀ config, setting.Transcription = some config →
        AcceptedTranscription setting.Providers config) ∧
      result = { setting with Transcription := setting.Transcription.map trimTranscription } := by
  rw [preparePersistedTranscriptionConfig, ← hsame, Option.or_self]
  rcases setting with ⟨providers, transcription⟩
  cases transcription with
  | none =>
      constructor
      · intro h
        cases h
        exact ⟨by simp, rfl⟩
      · intro h
        rw [h.2]
        rfl
  | some config =>
      have hchecked : ∀ {checks : Except String Unit} {x : Except String InstanceAISetting},
          (checks >>= fun _ => x) = .ok result ↔ checks = .ok () ∧ x = .ok result := by
        intro checks x
        cases checks with
        | error err => simp [bind, Except.bind]
        | ok _ => simp [bind, Except.bind]
      dsimp only
      rw [guard_ok, hchecked, hchecked, hchecked, checkLength_ok, checkLength_ok, checkLength_ok]
      have hknown : ¬ ((trimTranscription config).ProviderId ≠ "" &&
          !providers.any fun p => p.Id = (trimTranscription config).ProviderId) = true ↔
          ((trimTranscription config).ProviderId ≠ "" →
            (trimTranscription config).ProviderId ∈ providers.map (·.Id)) := by
        simp [List.mem_map]
      rw [hknown]
      constructor
      · intro h
        rcases h with ⟨hprovider, hmodel, hlanguage, hprompt, hresult⟩
        cases hresult
        refine ⟨?_, rfl⟩
        intro config' hconfig
        cases hconfig
        exact ⟨hprovider, hmodel, hlanguage, hprompt⟩
      · intro h
        rcases h with ⟨haccepted, rfl⟩
        have hconfig := haccepted config rfl
        exact ⟨hconfig.provider_known, hconfig.model_short, hconfig.language_short,
          hconfig.prompt_short, rfl⟩

/-- The AI settings that a write accepts when they are sent back, and what it makes of them. -/
theorem prepareAISetting_iff (hids : svc.MakesIds) {setting result : InstanceAISetting} :
    svc.prepareAISetting setting
        { setting with Providers := setting.Providers.map withoutKey } = .ok result ↔
      AcceptedAI setting ∧ result = normalizeAI setting := by
  have hnormalized : (setting.Providers.map normalizeProvider).map (·.Id) =
      setting.Providers.map (·.Id) := by
    rw [List.map_map]
    rfl
  have htranscription : ∀ config,
      AcceptedTranscription (setting.Providers.map normalizeProvider) config ↔
        AcceptedTranscription setting.Providers config := by
    intro config
    constructor
    · intro h
      exact ⟨fun hne => hnormalized ▸ h.provider_known hne, h.model_short, h.language_short,
        h.prompt_short⟩
    · intro h
      exact ⟨fun hne => hnormalized ▸ h.provider_known hne, h.model_short, h.language_short,
        h.prompt_short⟩
  have hrest : ∀ {prepared : List AIProviderConfig},
      svc.prepareProviders setting [] (setting.Providers.map withoutKey) = .ok prepared →
      (svc.prepareAISetting setting
          { setting with Providers := setting.Providers.map withoutKey } = .ok result ↔
        svc.preparePersistedTranscriptionConfig setting { setting with Providers := prepared } =
          .ok result) := by
    intro prepared hprepared
    rw [prepareAISetting]
    simp only [hprepared, bind, Except.bind]
  constructor
  · intro h
    cases hprepared : svc.prepareProviders setting [] (setting.Providers.map withoutKey) with
    | error err =>
        rw [prepareAISetting] at h
        simp only [hprepared, bind, Except.bind] at h
        cases h
    | ok prepared =>
        rcases prepareProviders_ok hids hprepared with ⟨hproviders, hnodup, rfl⟩
        rcases (preparePersistedTranscriptionConfig_ok svc rfl).mp ((hrest hprepared).mp h) with
          ⟨hconfig, hresult⟩
        exact ⟨⟨hproviders, hnodup, fun config hsome => (htranscription config).mp
          (hconfig config hsome)⟩, hresult⟩
  · intro h
    rcases h with ⟨haccepted, rfl⟩
    have hall : setting.Providers = [] ++ setting.Providers := rfl
    have hprepared := prepareProviders_accepted svc haccepted hall
    apply (hrest hprepared).mpr
    apply (preparePersistedTranscriptionConfig_ok svc rfl).mpr
    exact ⟨fun config hsome => (htranscription config).mpr (haccepted.transcription config hsome),
      rfl⟩

/-- A stored provider that a write leaves as it is. -/
structure NormalProvider (provider : AIProviderConfig) : Prop where
  title_trimmed : trimSpace provider.Title = provider.Title
  endpoint_trimmed : trimSpace provider.Endpoint = provider.Endpoint
  endpoint_ne : provider.Endpoint ≠ ""

/-- A stored transcription that a write leaves as it is. -/
structure NormalTranscription (config : TranscriptionConfig) : Prop where
  provider_trimmed : trimSpace config.ProviderId = config.ProviderId
  model_trimmed : trimSpace config.Model = config.Model
  language_trimmed : trimSpace config.Language = config.Language
  prompt_trimmed : trimSpace config.Prompt = config.Prompt

/-- Stored AI settings that a write leaves as they are. -/
structure NormalAI (setting : InstanceAISetting) : Prop where
  providers : ∀ provider ∈ setting.Providers, NormalProvider provider
  transcription : ∀ config, setting.Transcription = some config → NormalTranscription config

theorem normalizeProvider_eq_iff {provider : AIProviderConfig}
    (htype : supportedProviderType provider.ProviderType = true) :
    normalizeProvider provider = provider ↔ NormalProvider provider := by
  have hdefault : defaultEndpoint provider.ProviderType ≠ "" := by
    rcases provider with ⟨_, _, providerType, _, _⟩
    cases providerType <;> simp_all [supportedProviderType, defaultEndpoint]
  constructor
  · intro h
    rw [normalizeProvider] at h
    have htitle := congrArg AIProviderConfig.Title h
    have hendpoint := congrArg AIProviderConfig.Endpoint h
    dsimp only at htitle hendpoint
    by_cases hempty : trimSpace provider.Endpoint = ""
    · -- A default endpoint has no blanks around it.
      rw [if_pos hempty] at hendpoint
      have htrimmed : trimSpace (defaultEndpoint provider.ProviderType) =
          defaultEndpoint provider.ProviderType := by
        cases provider.ProviderType with
        | unrecognized number => exact (by decide : trimSpace "" = "")
        | _ => decide
      rw [hendpoint, hempty] at htrimmed
      rw [← htrimmed] at hendpoint
      exact absurd hendpoint hdefault
    · rw [if_neg hempty] at hendpoint
      exact ⟨htitle, hendpoint, hendpoint ▸ hempty⟩
  · intro h
    rw [normalizeProvider, h.title_trimmed, h.endpoint_trimmed, if_neg h.endpoint_ne]

private theorem trimTranscription_eq_iff {config : TranscriptionConfig} :
    trimTranscription config = config ↔ NormalTranscription config := by
  constructor
  · intro h
    exact ⟨congrArg (·.ProviderId) h, congrArg (·.Model) h, congrArg (·.Language) h,
      congrArg (·.Prompt) h⟩
  · intro h
    rw [trimTranscription, h.provider_trimmed, h.model_trimmed, h.language_trimmed,
      h.prompt_trimmed]

theorem normalizeAI_eq_iff {setting : InstanceAISetting} (h : AcceptedAI setting) :
    normalizeAI setting = setting ↔ NormalAI setting := by
  have hproviders : setting.Providers.map normalizeProvider = setting.Providers ↔
      ∀ provider ∈ setting.Providers, NormalProvider provider := by
    constructor
    · intro hmap provider hprovider
      rw [← normalizeProvider_eq_iff (h.providers provider hprovider).type_supported]
      exact List.map_inj_left.mp (hmap.trans (List.map_id _).symm) provider hprovider
    · intro hnormal
      rw [List.map_congr_left fun provider hprovider =>
        (normalizeProvider_eq_iff (h.providers provider hprovider).type_supported).mpr
          (hnormal provider hprovider)]
      exact List.map_id _
  have htranscription : setting.Transcription.map trimTranscription = setting.Transcription ↔
      ∀ config, setting.Transcription = some config → NormalTranscription config := by
    cases setting.Transcription with
    | none => simp
    | some config => simp [trimTranscription_eq_iff]
  constructor
  · intro hnormal
    exact ⟨hproviders.mp (congrArg (·.Providers) hnormal),
      htranscription.mp (congrArg (·.Transcription) hnormal)⟩
  · intro hnormal
    rw [normalizeAI, hproviders.mpr hnormal.providers, htranscription.mpr hnormal.transcription]

end InstanceService

end Api
end MemosNote
