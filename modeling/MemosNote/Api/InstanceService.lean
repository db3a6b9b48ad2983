import MemosNote.Api.MemoWrites
import MemosNote.Store.InstanceSettings

/-!
# Instance settings of the service

Administrators read and write the settings of the instance.  A read leaves out credentials, and a
write takes those it is not given from the stored setting.
-/

namespace MemosNote
namespace Api

open Library Store

/-! ## Messages -/

/-- A provider as it is read and written; the key is only written, the last two are only read.
The hint is kept as its bytes. -/
structure AIProviderConfigMessage where
  Id : String := ""
  Title : String := ""
  ProviderType : AIProviderType := .AI_PROVIDER_TYPE_UNSPECIFIED
  Endpoint : String := ""
  ApiKey : String := ""
  ApiKeySet : Bool := false
  ApiKeyHint : List UInt8 := []
deriving DecidableEq

/-- The AI setting of the API: providers without their keys, and the transcription. -/
structure AISettingMessage where
  Providers : List AIProviderConfigMessage := []
  Transcription : Option TranscriptionConfig := none
deriving DecidableEq

/-- The message of a key that the service reads and writes; basic settings have none.  Messages
other than that of the AI have the fields of the stored ones. -/
@[reducible]
def ApiPayload : InstanceSettingKey → Type
  | .INSTANCE_SETTING_KEY_UNSPECIFIED => Empty
  | .BASIC => Empty
  | .GENERAL => InstanceGeneralSetting
  | .STORAGE => InstanceStorageSetting
  | .MEMO_RELATED => InstanceMemoRelatedSetting
  | .TAGS => InstanceTagsSetting
  | .NOTIFICATION => InstanceNotificationSetting
  | .AI => AISettingMessage

/-- An instance setting of the API: its resource name and one of the payloads. -/
structure InstanceSettingMessage where
  Name : String
  Value : Option (Σ k, ApiPayload k)

/-- The value of a message, if it is one of the given key. -/
def InstanceSettingMessage.get (message : InstanceSettingMessage) (k : InstanceSettingKey) :
    Option (ApiPayload k) :=
  match message.Value with
  | some ⟨k', value⟩ => if h : k' = k then some (h ▸ value) else none
  | none => none

@[simp]
theorem InstanceSettingMessage.get_self (name : String) (k : InstanceSettingKey)
    (value : ApiPayload k) : (InstanceSettingMessage.mk name (some ⟨k, value⟩)).get k = value := by
  simp [InstanceSettingMessage.get]

/-! ## Conversions -/

/-- The general setting as the API shows it. -/
def convertInstanceGeneralSettingFromStore (setting : InstanceGeneralSetting) :
    InstanceGeneralSetting where
  DisallowUserRegistration := setting.DisallowUserRegistration
  DisallowPasswordAuth := setting.DisallowPasswordAuth
  AdditionalScript := setting.AdditionalScript
  AdditionalStyle := setting.AdditionalStyle
  WeekStartDayOffset := setting.WeekStartDayOffset
  DisallowChangeUsername := setting.DisallowChangeUsername
  DisallowChangeNickname := setting.DisallowChangeNickname
  CustomProfile := setting.CustomProfile.map fun profile =>
    { Title := profile.Title, Description := profile.Description, LogoUrl := profile.LogoUrl }

/-- The general setting as the store keeps it. -/
def convertInstanceGeneralSettingToStore (setting : InstanceGeneralSetting) :
    InstanceGeneralSetting where
  DisallowUserRegistration := setting.DisallowUserRegistration
  DisallowPasswordAuth := setting.DisallowPasswordAuth
  AdditionalScript := setting.AdditionalScript
  AdditionalStyle := setting.AdditionalStyle
  WeekStartDayOffset := setting.WeekStartDayOffset
  DisallowChangeUsername := setting.DisallowChangeUsername
  DisallowChangeNickname := setting.DisallowChangeNickname
  CustomProfile := setting.CustomProfile.map fun profile =>
    { Title := profile.Title, Description := profile.Description, LogoUrl := profile.LogoUrl }

/-- The storage setting as the API shows it, without the secret of the S3 account. -/
def convertInstanceStorageSettingFromStore (settingpb : InstanceStorageSetting) :
    InstanceStorageSetting where
  StorageType := settingpb.StorageType
  FilepathTemplate := settingpb.FilepathTemplate
  UploadSizeLimitMb := settingpb.UploadSizeLimitMb
  S3Config := settingpb.S3Config.map fun config =>
    -- The secret is only written.
    { AccessKeyId := config.AccessKeyId
      Endpoint := config.Endpoint
      Region := config.Region
      Bucket := config.Bucket
      UsePathStyle := config.UsePathStyle
      InsecureSkipTlsVerify := config.InsecureSkipTlsVerify }

/-- The storage setting as the store keeps it. -/
def convertInstanceStorageSettingToStore (setting : InstanceStorageSetting) :
    InstanceStorageSetting where
  StorageType := setting.StorageType
  FilepathTemplate := setting.FilepathTemplate
  UploadSizeLimitMb := setting.UploadSizeLimitMb
  S3Config := setting.S3Config.map fun config =>
    { AccessKeyId := config.AccessKeyId
      AccessKeySecret := config.AccessKeySecret
      Endpoint := config.Endpoint
      Region := config.Region
      Bucket := config.Bucket
      UsePathStyle := config.UsePathStyle
      InsecureSkipTlsVerify := config.InsecureSkipTlsVerify }

/-- The setting on memos as the API shows it. -/
def convertInstanceMemoRelatedSettingFromStore (setting : InstanceMemoRelatedSetting) :
    InstanceMemoRelatedSetting where
  ContentLengthLimit := setting.ContentLengthLimit
  EnableDoubleClickEdit := setting.EnableDoubleClickEdit
  Reactions := setting.Reactions

/-- The setting on memos as the store keeps it. -/
def convertInstanceMemoRelatedSettingToStore (setting : InstanceMemoRelatedSetting) :
    InstanceMemoRelatedSetting where
  ContentLengthLimit := setting.ContentLengthLimit
  EnableDoubleClickEdit := setting.EnableDoubleClickEdit
  Reactions := setting.Reactions

/-- Convert the metadata of every tag. -/
def convertTags (convert : InstanceTagMetadata → InstanceTagMetadata)
    (setting : InstanceTagsSetting) : InstanceTagsSetting where
  Tags := setting.Tags.map fun tag => (tag.1, convert tag.2)
  tags_nodup := by
    rw [List.map_map]
    exact setting.tags_nodup

/-- The setting on tags as the API shows it. -/
def convertInstanceTagsSettingFromStore : InstanceTagsSetting → InstanceTagsSetting :=
  convertTags fun metadata =>
    { BackgroundColor := metadata.BackgroundColor, BlurContent := metadata.BlurContent }

/-- The setting on tags as the store keeps it. -/
def convertInstanceTagsSettingToStore : InstanceTagsSetting → InstanceTagsSetting :=
  convertTags fun metadata =>
    { BackgroundColor := metadata.BackgroundColor, BlurContent := metadata.BlurContent }

/-- The setting on notifications as the API shows it, without the password. -/
def convertInstanceNotificationSettingFromStore (setting : InstanceNotificationSetting) :
    InstanceNotificationSetting where
  Email := setting.Email.map fun email =>
    -- The password is only written.
    { Enabled := email.Enabled
      SmtpHost := email.SmtpHost
      SmtpPort := email.SmtpPort
      SmtpUsername := email.SmtpUsername
      FromEmail := email.FromEmail
      FromName := email.FromName
      ReplyTo := email.ReplyTo
      UseTls := email.UseTls
      UseSsl := email.UseSsl }

/-- The setting on notifications as the store keeps it. -/
def convertInstanceNotificationSettingToStore (setting : InstanceNotificationSetting) :
    InstanceNotificationSetting where
  Email := setting.Email.map fun email =>
    { Enabled := email.Enabled
      SmtpHost := email.SmtpHost
      SmtpPort := email.SmtpPort
      SmtpUsername := email.SmtpUsername
      SmtpPassword := email.SmtpPassword
      FromEmail := email.FromEmail
      FromName := email.FromName
      ReplyTo := email.ReplyTo
      UseTls := email.UseTls
      UseSsl := email.UseSsl }

/-- The ends of a long key, and nothing of a short one. -/
def maskAPIKey (apiKey : String) : List UInt8 :=
  let bytes := apiKey.toUTF8.toList
  let dots := "...".toUTF8.toList
  if bytes = [] then []
  else if bytes.length ≤ 8 then dots
  else bytes.take 4 ++ dots ++ bytes.drop (bytes.length - 4)

/-- The configuration of the transcription as the API shows it. -/
def convertTranscriptionConfigFromStore (setting : TranscriptionConfig) : TranscriptionConfig where
  ProviderId := setting.ProviderId
  Model := setting.Model
  Language := setting.Language
  Prompt := setting.Prompt

/-- The configuration of the transcription as the store keeps it. -/
def convertTranscriptionConfigToStore (setting : TranscriptionConfig) : TranscriptionConfig where
  ProviderId := setting.ProviderId
  Model := setting.Model
  Language := setting.Language
  Prompt := setting.Prompt

/-- The AI setting as the API shows it: of each key whether there is one, and a hint at it. -/
def convertInstanceAISettingFromStore (setting : InstanceAISetting) : AISettingMessage where
  Providers := setting.Providers.map fun provider =>
    { Id := provider.Id
      Title := provider.Title
      ProviderType := provider.ProviderType
      Endpoint := provider.Endpoint
      ApiKeySet := provider.ApiKey ≠ ""
      ApiKeyHint := maskAPIKey provider.ApiKey }
  Transcription := setting.Transcription.map convertTranscriptionConfigFromStore

/-- The AI setting as the store keeps it. -/
def convertInstanceAISettingToStore (setting : AISettingMessage) : InstanceAISetting where
  Providers := setting.Providers.map fun provider =>
    { Id := provider.Id
      Title := provider.Title
      ProviderType := provider.ProviderType
      Endpoint := provider.Endpoint
      ApiKey := provider.ApiKey }
  Transcription := setting.Transcription.map convertTranscriptionConfigToStore

/-- What a read shows of a stored message. -/
def convertPayloadFromStore : (k : InstanceSettingKey) → Payload k → Option (ApiPayload k)
  | .GENERAL, setting => some (convertInstanceGeneralSettingFromStore setting)
  | .STORAGE, setting => some (convertInstanceStorageSettingFromStore setting)
  | .MEMO_RELATED, setting => some (convertInstanceMemoRelatedSettingFromStore setting)
  | .TAGS, setting => some (convertInstanceTagsSettingFromStore setting)
  | .NOTIFICATION, setting => some (convertInstanceNotificationSettingFromStore setting)
  | .AI, setting => some (convertInstanceAISettingFromStore setting)
  | .BASIC, _ => none
  | .INSTANCE_SETTING_KEY_UNSPECIFIED, _ => none

/-- The stored message of a written one. -/
def convertPayloadToStore : (k : InstanceSettingKey) → ApiPayload k → Payload k
  | .GENERAL, setting => convertInstanceGeneralSettingToStore setting
  | .STORAGE, setting => convertInstanceStorageSettingToStore setting
  | .MEMO_RELATED, setting => convertInstanceMemoRelatedSettingToStore setting
  | .TAGS, setting => convertInstanceTagsSettingToStore setting
  | .NOTIFICATION, setting => convertInstanceNotificationSettingToStore setting
  | .AI, setting => convertInstanceAISettingToStore setting
  | .BASIC, setting => nomatch setting
  | .INSTANCE_SETTING_KEY_UNSPECIFIED, setting => nomatch setting

/-- What the resource names of the instance settings start with. -/
def instanceSettingNamePrefix : String :=
  "instance/settings/"

/-- A stored setting as the API shows it, under its resource name. -/
def convertInstanceSettingFromStore (setting : InstanceSetting) : InstanceSettingMessage where
  Name := instanceSettingNamePrefix ++ setting.Key.text
  Value :=
    match setting.Value with
    | ⟨k, value⟩ => (value.bind (convertPayloadFromStore k)).map fun payload => ⟨k, payload⟩

/-! ## The service -/

/-- A service that also checks patterns and makes identifiers. -/
structure InstanceService extends MemoService where
  regexpCompile : String → Except String Unit
  shortuuid : ℕ → String

namespace InstanceService

variable (svc : InstanceService)

/-- The key in a resource name, which may neither be empty nor hold a slash. -/
def ExtractInstanceSettingKeyFromName (name : String) : Except String String :=
  if instanceSettingNamePrefix.toList.isPrefixOf name.toList then
    let settingKey := String.ofList (name.toList.drop instanceSettingNamePrefix.length)
    if settingKey = "" then
      .error ("invalid instance setting name: empty setting key in " ++ svc.quote name)
    else if '/' ∈ settingKey.toList then
      .error ("invalid instance setting name: setting key cannot contain '/' in " ++ svc.quote name)
    else .ok settingKey
  else
    .error ("invalid instance setting name: expected prefix " ++
      svc.quote instanceSettingNamePrefix ++ ", got " ++ svc.quote name)

/-- The key of a name; a malformed name has none. -/
def keyOfName (name : String) : InstanceSettingKey :=
  match svc.ExtractInstanceSettingKeyFromName name with
  | .ok text => .ofText text
  | .error _ => .ofText ""

/-- A value of another key than the written one is dropped; basic settings are given the value of
general ones. -/
def convertInstanceSettingToStore (setting : InstanceSettingMessage) : InstanceSetting :=
  let key := svc.keyOfName setting.Name
  let valueKey := match key with
    | .INSTANCE_SETTING_KEY_UNSPECIFIED => .GENERAL
    | .BASIC => .GENERAL
    | k => k
  { Key := key
    Value := ⟨valueKey, (setting.get valueKey).map (convertPayloadToStore valueKey)⟩ }

/-! ## Checks -/

/-- A finite float between 0 and 1, given by its bits: those of the floats from 0 to 1 are in
order, and minus zero is not below zero. -/
def validateInstanceColorComponent (name : String) (bits : ℕ) : Except String Unit :=
  if 0x7f800000 ≤ bits % 0x80000000 then .error (name ++ " must be a finite number")
  else if bits ≤ 0x3f800000 ∨ bits = 0x80000000 then .ok ()
  else .error (name ++ " must be between 0 and 1")

/-- Every component of a color, and the alpha value if there is one, is checked. -/
def validateInstanceColor (color : Color) : Except String Unit := do
  validateInstanceColorComponent "red" color.Red
  validateInstanceColorComponent "green" color.Green
  validateInstanceColorComponent "blue" color.Blue
  match color.Alpha with
  | some alpha => validateInstanceColorComponent "alpha" alpha
  | none => pure ()

/-- One entry of the map of tags; an entry always has metadata. -/
def validateTag (tag : String × InstanceTagMetadata) : Except String Unit := do
  if trimSpace tag.1 = "" then throw "tag key cannot be empty"
  (svc.regexpCompile tag.1).mapError fun err =>
    "tag key " ++ svc.quote tag.1 ++ " is not a valid regex pattern: " ++ err
  match tag.2.BackgroundColor with
  | some color => (validateInstanceColor color).mapError fun err =>
      "background_color for " ++ svc.quote tag.1 ++ ": " ++ err
  | none => pure ()

/-- The setting on tags is there and each of its tags is valid. -/
def validateInstanceTagsSetting : Option InstanceTagsSetting → Except String Unit
  | none => .error "tags setting is required"
  | some setting => setting.Tags.forM svc.validateTag

/-- Only the setting on tags is checked here. -/
def validateInstanceSetting (setting : InstanceSettingMessage) : Except String Unit := do
  let key ← svc.ExtractInstanceSettingKeyFromName setting.Name
  if key ≠ InstanceSettingKey.TAGS.text then pure ()
  else svc.validateInstanceTagsSetting (setting.get .TAGS)

/-- Only an administrator. -/
def requireInstanceAdmin : Except Failure User :=
  match svc.fetchCurrentUser with
  | .error err => .error (.status .Internal ("failed to get current user: " ++ err))
  | .ok none => .error (.status .Unauthenticated "user not authenticated")
  | .ok (some user) =>
      if user.Role ≠ .ADMIN then .error (.status .PermissionDenied "permission denied")
      else .ok user

/-! ## Reading -/

open InstanceSettings (GetInstanceBasicSetting GetInstanceGeneralSetting
  GetInstanceMemoRelatedSetting GetInstanceStorageSetting GetInstanceTagsSetting
  GetInstanceNotificationSetting GetInstanceAISetting UpsertInstanceSetting)

/-- Read the setting of a key, so that its defaults are cached. -/
def readSetting (k : InstanceSettingKey) : Effect Failure InstanceSettings Unit :=
  let read {α : Type} (x : Effect String InstanceSettings α) :
      Effect Failure InstanceSettings Unit := do
    let _ ← x.mapError fun err => .status .Internal ("failed to get instance setting: " ++ err)
    pure ()
  match k with
  | .BASIC => read GetInstanceBasicSetting
  | .GENERAL => read GetInstanceGeneralSetting
  | .MEMO_RELATED => read GetInstanceMemoRelatedSetting
  | .STORAGE => read GetInstanceStorageSetting
  | .TAGS => read GetInstanceTagsSetting
  | .NOTIFICATION => read GetInstanceNotificationSetting
  | .AI => read GetInstanceAISetting
  | .INSTANCE_SETTING_KEY_UNSPECIFIED =>
      Effect.fail (.status .InvalidArgument ("unsupported instance setting key: " ++ k.text))

/-- Others than administrators see of the transcription only its provider. -/
def redactTranscription (message : InstanceSettingMessage) : InstanceSettingMessage :=
  match message.Value with
  | some ⟨.AI, ai⟩ =>
      { message with
        Value := some ⟨.AI, { ai with
          Transcription := ai.Transcription.map fun config =>
            { ProviderId := config.ProviderId } }⟩ }
  | _ => message

/-- Read the setting of a key.  Storage and notifications are for administrators, the AI for
users. -/
def getInstanceSettingByKey (k : InstanceSettingKey) :
    Effect Failure InstanceSettings InstanceSettingMessage := do
  readSetting k
  let found ← (InstanceSettings.GetInstanceSetting k).mapError fun err =>
    Failure.status .Internal ("failed to get instance setting: " ++ err)
  match found with
  | none => Effect.fail (.status .NotFound "instance setting not found")
  | some p =>
      let result := convertInstanceSettingFromStore { Key := k, Value := ⟨k, some p⟩ }
      if k = .STORAGE ∨ k = .NOTIFICATION then
        let _ ← Effect.ofExcept svc.requireInstanceAdmin
        pure result
      else if k = .AI then
        match svc.fetchCurrentUser with
        | .error err => Effect.fail (.status .Internal ("failed to get current user: " ++ err))
        | .ok none => Effect.fail (.status .Unauthenticated "user not authenticated")
        | .ok (some user) =>
            pure (if user.Role = .ADMIN then result else redactTranscription result)
      else pure result

/-- The request for one setting by its resource name. -/
def GetInstanceSetting (name : String) :
    Effect Failure InstanceSettings InstanceSettingMessage := do
  let keyString ← Effect.ofExcept ((svc.ExtractInstanceSettingKeyFromName name).mapError fun err =>
    .status .InvalidArgument ("invalid instance setting name: " ++ err))
  svc.getInstanceSettingByKey (InstanceSettingKey.ofText keyString)

/-! ## Writing -/

/-- Whether two settings talk to the same account of the same server. -/
def sameSMTPConnectionIdentity (setting existing : EmailSetting) : Bool :=
  trimSpace setting.SmtpHost = trimSpace existing.SmtpHost &&
    setting.SmtpPort = existing.SmtpPort &&
    trimSpace setting.SmtpUsername = trimSpace existing.SmtpUsername &&
    setting.UseTls = existing.UseTls && setting.UseSsl = existing.UseSsl

/-- The refusal of a setting that would carry a stored password to another server. -/
def smtpPasswordRequired : Failure :=
  .status .InvalidArgument
    "smtp password is required when changing SMTP host, port, username, or encryption settings"

/-- The password of the stored setting, if that could be read and has a mail server. -/
def storedPassword (notif : InstanceNotificationSetting) (email : EmailSetting) :
    Except String InstanceNotificationSetting → Except Failure InstanceNotificationSetting
  | .ok { Email := some existing } =>
      if existing.SmtpPassword ≠ "" && !sameSMTPConnectionIdentity email existing then
        .error smtpPasswordRequired
      else .ok { Email := some { email with SmtpPassword := existing.SmtpPassword } }
  | _ => .ok notif

/-- A setting without a password takes over the stored one, for the same server only. -/
def preserveSmtpPassword (notif : InstanceNotificationSetting) :
    Effect Failure InstanceSettings InstanceNotificationSetting :=
  match notif.Email with
  | none => pure notif
  | some email =>
      if email.SmtpPassword ≠ "" then pure notif
      else do
        let existing ← Effect.attempt GetInstanceNotificationSetting
        Effect.ofExcept (storedPassword notif email existing)

/-- The secret of the stored setting, if that could be read and has a configuration. -/
def storedSecret (storage : InstanceStorageSetting) (config : StorageS3Config) :
    Except String InstanceStorageSetting → InstanceStorageSetting
  | .ok { S3Config := some existing, .. } =>
      { storage with
        S3Config := some { config with AccessKeySecret := existing.AccessKeySecret } }
  | _ => storage

/-- A setting without the secret of its S3 account takes over the stored one. -/
def preserveAccessKeySecret (storage : InstanceStorageSetting) :
    Effect Failure InstanceSettings InstanceStorageSetting :=
  match storage.S3Config with
  | none => pure storage
  | some config =>
      if config.AccessKeySecret ≠ "" then pure storage
      else do
        let existing ← Effect.attempt GetInstanceStorageSetting
        pure (storedSecret storage config existing)

/-- The provider types that a setting may name. -/
def supportedProviderType (providerType : AIProviderType) : Bool :=
  providerType = .OPENAI || providerType = .GEMINI

/-- The endpoint of a provider that has none. -/
def defaultEndpoint : AIProviderType → String
  | .OPENAI => "https://api.openai.com/v1"
  | .GEMINI => "https://generativelanguage.googleapis.com/v1beta"
  | _ => ""

/-- The stored provider with an identifier; of several the last. -/
def existingProvider (existing : InstanceAISetting) (id : String) : Option AIProviderConfig :=
  existing.Providers.reverse.find? fun provider => provider.Id ≠ "" && provider.Id = id

/-- One provider of a write, after those with the seen identifiers. -/
def prepareProvider (existing : InstanceAISetting) (seenIDs : List String)
    (provider : AIProviderConfig) : Except String AIProviderConfig := do
  let trimmed := trimSpace provider.Id
  let id := if trimmed = "" then svc.shortuuid seenIDs.length else trimmed
  if id ∈ seenIDs then throw ("duplicate provider ID " ++ svc.quote id)
  let title := trimSpace provider.Title
  if title = "" then throw "provider title is required"
  if !supportedProviderType provider.ProviderType then
    throw ("provider " ++ svc.quote id ++ " has unsupported type")
  let endpoint := trimSpace provider.Endpoint
  let apiKey :=
    if provider.ApiKey = "" then ((existingProvider existing id).map (·.ApiKey)).getD ""
    else provider.ApiKey
  if apiKey = "" then throw ("provider " ++ svc.quote id ++ " API key is required")
  pure {
    Id := id
    Title := title
    ProviderType := provider.ProviderType
    Endpoint := if endpoint = "" then defaultEndpoint provider.ProviderType else endpoint
    ApiKey := apiKey }

/-- The providers in order, each checked against those before it. -/
def prepareProviders (existing : InstanceAISetting) :
    List String → List AIProviderConfig → Except String (List AIProviderConfig)
  | _, [] => pure []
  | seenIDs, provider :: providers => do
      let prepared ← svc.prepareProvider existing seenIDs provider
      let rest ← prepareProviders existing (seenIDs ++ [prepared.Id]) providers
      pure (prepared :: rest)

/-- The greatest length of the name of a model. -/
def maxTranscriptionConfigModelLength : ℕ :=
  256

/-- The greatest length of the name of a language. -/
def maxTranscriptionConfigLanguageLength : ℕ :=
  32

/-- The greatest length of a prompt. -/
def maxTranscriptionConfigPromptLength : ℕ :=
  4096

/-- The error of a text that is longer, in bytes, than allowed. -/
def checkLength (what : String) (max : ℕ) (text : String) : Except String Unit :=
  if text.utf8ByteSize > max then
    .error ("transcription " ++ what ++ " is too long; maximum length is " ++ toString max ++
      " characters")
  else .ok ()

/-- The configuration with the space around its texts taken off. -/
def trimTranscription (config : TranscriptionConfig) : TranscriptionConfig where
  ProviderId := trimSpace config.ProviderId
  Model := trimSpace config.Model
  Language := trimSpace config.Language
  Prompt := trimSpace config.Prompt

/-- The transcription of a write, or the stored one. -/
def preparePersistedTranscriptionConfig (existing setting : InstanceAISetting) :
    Except String InstanceAISetting :=
  match setting.Transcription.or existing.Transcription with
  | none => pure setting
  | some config => do
      let config := trimTranscription config
      if config.ProviderId ≠ "" && !setting.Providers.any fun p => p.Id = config.ProviderId then
        throw ("transcription provider_id " ++ svc.quote config.ProviderId ++
          " does not reference any configured provider")
      checkLength "model" maxTranscriptionConfigModelLength config.Model
      checkLength "language" maxTranscriptionConfigLanguageLength config.Language
      checkLength "prompt" maxTranscriptionConfigPromptLength config.Prompt
      pure { setting with Transcription := some config }

/-- The setting of a write, checked against the stored one. -/
def prepareAISetting (existing setting : InstanceAISetting) : Except String InstanceAISetting := do
  let providers ← svc.prepareProviders existing [] setting.Providers
  svc.preparePersistedTranscriptionConfig existing { setting with Providers := providers }

/-- A transcription that is left out is the stored one, which is shared with the cache and trimmed
there, too. -/
def shareTranscription (existing setting : InstanceAISetting) :
    Effect Failure InstanceSettings Unit :=
  if setting.Transcription.isNone then
    Effect.update (InstanceSettings.setCache .AI { existing with
      Transcription := existing.Transcription.map trimTranscription })
  else pure ()

/-- The AI setting to be stored: checked, trimmed, and with the stored keys kept. -/
def prepareInstanceAISettingForUpdate (setting : Option InstanceAISetting) :
    Effect Failure InstanceSettings InstanceAISetting :=
  let invalid : String → Failure := fun err =>
    .status .InvalidArgument ("invalid AI setting: " ++ err)
  match setting with
  | none => Effect.fail (invalid "AI setting is required")
  | some setting => do
      let existing ← GetInstanceAISetting.mapError fun err =>
        invalid ("failed to get existing AI setting: " ++ err)
      let providers ← Effect.ofExcept
        ((svc.prepareProviders existing [] setting.Providers).mapError invalid)
      shareTranscription existing setting
      Effect.ofExcept ((svc.preparePersistedTranscriptionConfig existing
        { setting with Providers := providers }).mapError invalid)

/-- What a write is not given is taken from the stored setting. -/
def preserveCredentials (update : InstanceSetting) :
    Effect Failure InstanceSettings InstanceSetting :=
  match update.Key with
  | .NOTIFICATION =>
      match update.get .NOTIFICATION with
      | none => pure update
      | some notif => do
          let notif ← preserveSmtpPassword notif
          pure { update with Value := ⟨.NOTIFICATION, some notif⟩ }
  | .STORAGE =>
      match update.get .STORAGE with
      | none => pure update
      | some storage => do
          let storage ← preserveAccessKeySecret storage
          pure { update with Value := ⟨.STORAGE, some storage⟩ }
  | .AI => do
      let ai ← svc.prepareInstanceAISettingForUpdate (update.get .AI)
      pure { update with Value := ⟨.AI, some ai⟩ }
  | _ => pure update

/-- Write a setting; the update mask is ignored. -/
def UpdateInstanceSetting (request : Option InstanceSettingMessage) :
    Effect Failure InstanceSettings InstanceSettingMessage := do
  let _ ← Effect.ofExcept svc.requireInstanceAdmin
  match request with
  | none => Effect.fail (.panic "invalid memory address or nil pointer dereference")
  | some setting =>
      Effect.ofExcept ((svc.validateInstanceSetting setting).mapError fun err =>
        .status .InvalidArgument ("invalid instance setting: " ++ err))
      let update ← svc.preserveCredentials (svc.convertInstanceSettingToStore setting)
      let instanceSetting ← (UpsertInstanceSetting update).mapError fun err =>
        Failure.status .Internal ("failed to upsert instance setting: " ++ err)
      pure (convertInstanceSettingFromStore instanceSetting)

end InstanceService

end Api
end MemosNote
