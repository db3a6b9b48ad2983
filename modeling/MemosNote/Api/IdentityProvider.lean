import MemosNote.Api.MemoWrites

/-!
# Identity providers

Administrators create, update and delete the providers of single sign-on.  The configuration of an
OAuth2 provider is stored as a JSON text; messages and their parts may be absent.

Main results:

- Theorem {lit}`IdpReachable.usable`: the stored configurations can be read and have a field
  mapping.
-/

namespace MemosNote
namespace Api

open Library Store

/-! ## Messages -/

/-- The type of a provider.  Another number of the protocol has no name. -/
inductive ProviderType where
  | TYPE_UNSPECIFIED
  | OAUTH2
  | unknown (number : ℤ)
deriving DecidableEq, Repr

/-- The conversion of a type by its name, which a number without a name loses. -/
def convertProviderType : ProviderType → ProviderType
  | .OAUTH2 => .OAUTH2
  | _ => .TYPE_UNSPECIFIED

/-- Under which names the provider gives the data of an account. -/
structure FieldMapping where
  Identifier : String := ""
  DisplayName : String := ""
  Email : String := ""
  AvatarUrl : String := ""
deriving DecidableEq, Repr

/-- What the server needs to sign in by the provider. -/
structure OAuth2Config where
  ClientId : String := ""
  ClientSecret : String := ""
  AuthUrl : String := ""
  TokenUrl : String := ""
  UserInfoUrl : String := ""
  Scopes : List String := []
  FieldMapping : Option FieldMapping := none
deriving DecidableEq, Repr

/-- A configuration, whose kind may be left out. -/
abbrev IdentityProviderConfig :=
  Option OAuth2Config

/-- A provider of the API. -/
structure IdentityProviderMessage where
  Name : String := ""
  Title : String := ""
  IdpType : ProviderType := .TYPE_UNSPECIFIED
  IdentifierFilter : String := ""
  Config : Option IdentityProviderConfig := none
deriving DecidableEq, Repr

/-- A provider of the store. -/
structure IdentityProvider where
  Id : ℤ := 0
  Uid : String
  Name : String
  IdpType : ProviderType
  IdentifierFilter : String
  Config : Option IdentityProviderConfig
deriving DecidableEq, Repr

/-- The kind of a configuration, without a check that there is one. -/
def getOauth2Config (config : Option IdentityProviderConfig) : Option OAuth2Config :=
  config.join

/-! ## The store -/

/-- A row of the table of providers. -/
structure IdpRow where
  ID : ℤ
  UID : String
  Name : String
  IdpType : ProviderType
  IdentifierFilter : String
  Config : String
deriving DecidableEq, Repr

/-- The table of providers and the last identifier it gave. -/
structure IdpTable where
  rows : List IdpRow
  sequence : ℤ
  ids_le : ∀ row ∈ rows, row.ID ≤ sequence
  ids_nodup : (rows.map IdpRow.ID).Nodup
  uids_nodup : (rows.map IdpRow.UID).Nodup

namespace IdpTable

/-- The table before the first provider. -/
def empty : IdpTable where
  rows := []
  sequence := 0
  ids_le := by simp
  ids_nodup := by simp
  uids_nodup := by simp

/-- The table with one more provider, which gets the next identifier. -/
def insert (table : IdpTable) (row : ℤ → IdpRow) (hid : ∀ id, (row id).ID = id)
    (huid : ∀ id, (row id).UID ∉ table.rows.map IdpRow.UID) : IdpTable where
  rows := table.rows ++ [row (table.sequence + 1)]
  sequence := table.sequence + 1
  ids_le := by
    intro r hr
    rcases List.mem_append.mp hr with hr | hr
    · have := table.ids_le r hr
      omega
    · rw [List.mem_singleton.mp hr, hid]
  ids_nodup := by
    rw [List.map_append, List.map_singleton, hid]
    refine List.nodup_append.mpr ⟨table.ids_nodup, List.nodup_singleton _, ?_⟩
    intro id hmem id' hmem' heq
    rcases List.mem_map.mp hmem with ⟨r, hr, rfl⟩
    have := table.ids_le r hr
    have hnew := List.mem_singleton.mp hmem'
    omega
  uids_nodup := by
    rw [List.map_append, List.map_singleton]
    refine List.nodup_append.mpr ⟨table.uids_nodup, List.nodup_singleton _, ?_⟩
    intro uid hmem uid' hmem' heq
    rw [List.mem_singleton.mp hmem'] at heq
    exact huid _ (heq ▸ hmem)

/-- The table with rows that keep their identifiers and names. -/
def mapRows (table : IdpTable) (f : IdpRow → IdpRow) (hid : ∀ row, (f row).ID = row.ID)
    (huid : ∀ row, (f row).UID = row.UID) : IdpTable where
  rows := table.rows.map f
  sequence := table.sequence
  ids_le := by
    intro r hr
    rcases List.mem_map.mp hr with ⟨row, hrow, rfl⟩
    rw [hid]
    exact table.ids_le row hrow
  ids_nodup := by
    rw [List.map_map, show IdpRow.ID ∘ f = IdpRow.ID from funext hid]
    exact table.ids_nodup
  uids_nodup := by
    rw [List.map_map, show IdpRow.UID ∘ f = IdpRow.UID from funext huid]
    exact table.uids_nodup

/-- The table with the rows that satisfy a condition. -/
def filterRows (table : IdpTable) (p : IdpRow → Bool) : IdpTable where
  rows := table.rows.filter p
  sequence := table.sequence
  ids_le := fun row hrow => table.ids_le row (List.mem_filter.mp hrow).1
  ids_nodup := table.ids_nodup.sublist (List.filter_sublist.map _)
  uids_nodup := table.uids_nodup.sublist (List.filter_sublist.map _)

end IdpTable

/-- The JSON texts of OAuth2 configurations. -/
structure OAuth2Json where
  marshal : OAuth2Config → Except String String
  unmarshal : String → Except String OAuth2Config
  unmarshal_marshal : ∀ {config : OAuth2Config} {raw : String},
    marshal config = .ok raw → unmarshal raw = .ok config

/-- The fields of a stored provider to be changed. -/
structure UpdateIdentityProviderV1 where
  ID : ℤ
  IdpType : ProviderType
  Name : Option String := none
  IdentifierFilter : Option String := none
  Config : Option IdentityProviderConfig := none
deriving DecidableEq, Repr

/-- A request on the table of providers. -/
abbrev IdpM :=
  Effect Failure IdpTable

/-- An error of the store has no status of its own. -/
def storeFailure (err : String) : Failure :=
  .status .Unknown err

namespace OAuth2Json

variable (json : OAuth2Json)

/-- The configuration as it is stored. -/
def convertIdentityProviderConfigToRaw (idpType : ProviderType)
    (config : Option IdentityProviderConfig) : Except Failure String :=
  if idpType = .OAUTH2 then
    -- A configuration that is left out is written like an empty one.
    (json.marshal ((getOauth2Config config).getD {})).mapError fun err =>
      storeFailure ("Failed to marshal OAuth2Config: " ++ err)
  else .ok ""

/-- A stored provider with its configuration read. -/
def convertIdentityProviderFromRaw (row : IdpRow) : Except Failure IdentityProvider :=
  if row.IdpType = .OAUTH2 then
    match json.unmarshal row.Config with
    | .error err => .error (storeFailure ("Failed to unmarshal OAuth2Config: " ++ err))
    | .ok oauth2Config =>
        .ok ⟨row.ID, row.UID, row.Name, row.IdpType, row.IdentifierFilter,
          some (some oauth2Config)⟩
  else .ok ⟨row.ID, row.UID, row.Name, row.IdpType, row.IdentifierFilter, some none⟩

/-- The row of a new provider. -/
def newRow (create : IdentityProvider) (config : String) (id : ℤ) : IdpRow :=
  ⟨id, create.Uid, create.Name, create.IdpType, create.IdentifierFilter, config⟩

/-- The statement that inserts a provider with a new name. -/
def insertProvider (create : IdentityProvider) (config : String) : IdpM IdpRow := fun table =>
  if huid : create.Uid ∈ table.rows.map IdpRow.UID then
    (.error (storeFailure "UNIQUE constraint failed: idp.uid"), table)
  else
    (.ok (newRow create config (table.sequence + 1)),
      table.insert (newRow create config) (fun _ => rfl) fun _ => huid)

/-- Insert a provider, and read it back. -/
def createIdentityProvider (create : IdentityProvider) : IdpM IdentityProvider := do
  let config ← Effect.ofExcept
    (json.convertIdentityProviderConfigToRaw create.IdpType create.Config)
  let row ← insertProvider create config
  Effect.ofExcept (json.convertIdentityProviderFromRaw row)

/-- The provider of a name. -/
def getIdentityProvider (uid : String) : IdpM (Option IdentityProvider) := do
  let table ← Effect.read id
  let list ← Effect.ofExcept
    ((table.rows.filter fun row => row.UID = uid).mapM json.convertIdentityProviderFromRaw)
  match list with
  | [] => pure none
  | [provider] => pure (some provider)
  -- The error names the identifier of the query, which a query for a name leaves out.
  | _ => Effect.fail nilPointer

/-- The assignments of an update, on the row with its identifier. -/
def updateRow (update : UpdateIdentityProviderV1) (config : Option String) (row : IdpRow) : IdpRow :=
  if row.ID = update.ID then
    { row with
      Name := update.Name.getD row.Name
      IdentifierFilter := update.IdentifierFilter.getD row.IdentifierFilter
      Config := config.getD row.Config }
  else row

@[simp]
theorem updateRow_ID (update : UpdateIdentityProviderV1) (config : Option String) (row : IdpRow) :
    (updateRow update config row).ID = row.ID := by
  rw [updateRow]
  split <;> rfl

@[simp]
theorem updateRow_UID (update : UpdateIdentityProviderV1) (config : Option String) (row : IdpRow) :
    (updateRow update config row).UID = row.UID := by
  rw [updateRow]
  split <;> rfl

@[simp]
theorem updateRow_IdpType (update : UpdateIdentityProviderV1) (config : Option String)
    (row : IdpRow) : (updateRow update config row).IdpType = row.IdpType := by
  rw [updateRow]
  split <;> rfl

/-- The new configuration of an update, if it has one. -/
def updatedConfig (update : UpdateIdentityProviderV1) : Except Failure (Option String) :=
  match update.Config with
  | none => .ok none
  | some config =>
      (json.convertIdentityProviderConfigToRaw update.IdpType (some config)).map some

/-- The statement of an update; one without assignments is no statement. -/
def updateProvider (update : UpdateIdentityProviderV1) (config : Option String) : IdpM Unit :=
  if update.Name = none ∧ update.IdentifierFilter = none ∧ config = none then
    Effect.fail (storeFailure "syntax error")
  else Effect.update fun table =>
    table.mapRows (updateRow update config) (updateRow_ID update config)
      (updateRow_UID update config)

/-- Update a provider, and read it back. -/
def updateIdentityProvider (update : UpdateIdentityProviderV1) : IdpM IdentityProvider := do
  let config ← Effect.ofExcept (json.updatedConfig update)
  updateProvider update config
  let table ← Effect.read id
  match table.rows.find? fun row => row.ID = update.ID with
  | none => Effect.fail (storeFailure "sql: no rows in result set")
  | some row => Effect.ofExcept (json.convertIdentityProviderFromRaw row)

end OAuth2Json

/-- The statement that deletes a provider. -/
def deleteProvider (id : ℤ) : IdpM Unit :=
  Effect.update fun table => table.filterRows fun row => row.ID ≠ id

/-! ## Conversions -/

/-- What the resource names of providers start with. -/
def identityProviderNamePrefix : String :=
  "identity-providers/"

/-- A part of a message that is used without a check. -/
def checked {α : Type} : Option α → Except Failure α
  | none => .error nilPointer
  | some a => .ok a

/-- A configuration with its field mapping, both used without a check. -/
def checkedConfig (config : Option OAuth2Config) : Except Failure (OAuth2Config × FieldMapping) := do
  let oauth2Config ← checked config
  let mapping ← checked oauth2Config.FieldMapping
  pure (oauth2Config, mapping)

/-- The configuration of the API as the store keeps it, checked. -/
def convertIdentityProviderConfigToStore (idpType : ProviderType)
    (config : Option IdentityProviderConfig) : Except Failure (Option IdentityProviderConfig) :=
  if idpType = .OAUTH2 then do
    let (oauth2Config, mapping) ← checkedConfig (getOauth2Config config)
    pure (some (some { oauth2Config with FieldMapping := some mapping }))
  else pure none

/-- The provider of a message that is used without a check. -/
def convertIdentityProviderToStore (message : Option IdentityProviderMessage) (uid : String) :
    Except Failure IdentityProvider := do
  let message ← checked message
  let config ← convertIdentityProviderConfigToStore message.IdpType message.Config
  pure {
    Uid := uid
    Name := message.Title
    IdpType := convertProviderType message.IdpType
    IdentifierFilter := message.IdentifierFilter
    Config := config }

/-- The message of a provider; the client secret is never shown. -/
def convertIdentityProviderFromStore (provider : IdentityProvider) :
    Except Failure IdentityProviderMessage := do
  let config ←
    if provider.IdpType = .OAUTH2 then do
      let (oauth2Config, mapping) ← checkedConfig (getOauth2Config provider.Config)
      pure (some (some { oauth2Config with ClientSecret := "", FieldMapping := some mapping }))
    else pure none
  pure {
    Name := identityProviderNamePrefix ++ provider.Uid
    Title := provider.Name
    IdpType := convertProviderType provider.IdpType
    IdentifierFilter := provider.IdentifierFilter
    Config := config }

/-! ## Endpoints -/

/-- The failure of an operation of the store, passed on; a panic stays one. -/
def Failure.internal (message : String) : Failure → Failure
  | status _ err => status .Internal (message ++ ": " ++ err)
  | panic err => panic err

/-- A failure of the store as an internal one. -/
def idpInternally {α : Type} (message : String) (x : IdpM α) : IdpM α :=
  x.mapError (Failure.internal message)

/-- The request to create a provider. -/
structure CreateIdentityProviderRequest where
  IdentityProvider : Option IdentityProviderMessage
  IdentityProviderId : String := ""
deriving DecidableEq, Repr

/-- The request to update the fields of a mask. -/
structure UpdateIdentityProviderRequest where
  IdentityProvider : Option IdentityProviderMessage
  UpdateMask : Option (List String)
deriving DecidableEq, Repr

namespace MemoService

variable (svc : MemoService) (json : OAuth2Json)

/-- Only an administrator changes providers. -/
def requireAdmin : Except Failure User :=
  match svc.fetchCurrentUser with
  | .error err => .error (.status .Internal ("failed to get user: " ++ err))
  | .ok none => .error (.status .Unauthenticated "user not authenticated")
  | .ok (some user) =>
      if isSuperUser user then .ok user
      else .error (.status .PermissionDenied "permission denied")

/-- The UID in a resource name. -/
def extractIdentityProviderUIDFromName (name : String) : Except String String :=
  svc.getNameParentToken name identityProviderNamePrefix

/-- The UID in a resource name, or the refusal of the request. -/
def identityProviderUIDOfName (name : String) : Except Failure String :=
  (svc.extractIdentityProviderUIDFromName name).mapError fun err =>
    .status .InvalidArgument ("invalid identity provider name: " ++ err)

/-- An administrator creates a provider. -/
def createIdentityProvider (request : CreateIdentityProviderRequest) :
    IdpM IdentityProviderMessage := do
  let _ ← Effect.ofExcept svc.requireAdmin
  let idpUID ← Effect.ofExcept (validateAndGenerateUID svc.uuid request.IdentityProviderId)
  let create ← Effect.ofExcept (convertIdentityProviderToStore request.IdentityProvider idpUID)
  let provider ← idpInternally "failed to create identity provider, error"
    (json.createIdentityProvider create)
  Effect.ofExcept (convertIdentityProviderFromStore provider)

/-- One path of a mask; other paths are ignored. -/
def updateProviderPath (message : IdentityProviderMessage) (update : UpdateIdentityProviderV1)
    (path : String) : Except Failure UpdateIdentityProviderV1 :=
  if path = "title" then .ok { update with Name := some message.Title }
  else if path = "identifier_filter" then
    .ok { update with IdentifierFilter := some message.IdentifierFilter }
  else if path = "config" then do
    let config ← convertIdentityProviderConfigToStore message.IdpType message.Config
    pure { update with Config := config }
  else .ok update

/-- An empty client secret stands for the one that is stored. -/
def preserveSecret (existing : IdentityProvider) (update : UpdateIdentityProviderV1) :
    UpdateIdentityProviderV1 :=
  match update.Config with
  | some (some oauth2Config) =>
      if oauth2Config.ClientSecret = "" then
        match getOauth2Config existing.Config with
        | some existingConfig =>
            { update with
              Config := some (some { oauth2Config with
                ClientSecret := existingConfig.ClientSecret }) }
        | none => update
      else update
  | _ => update

/-- An administrator updates a provider. -/
def updateIdentityProvider (request : UpdateIdentityProviderRequest) :
    IdpM IdentityProviderMessage := do
  let _ ← Effect.ofExcept svc.requireAdmin
  match request.UpdateMask with
  | none | some [] => Effect.fail (.status .InvalidArgument "update_mask is required")
  | some paths => do
      let message ← Effect.ofExcept (checked request.IdentityProvider)
      let uid ← Effect.ofExcept (svc.identityProviderUIDOfName message.Name)
      let existing ← idpInternally "failed to get identity provider, error"
        (json.getIdentityProvider uid)
      match existing with
      | none => Effect.fail (.status .NotFound "identity provider not found")
      | some existing => do
          let update ← Effect.ofExcept (paths.foldlM (updateProviderPath message)
            { ID := existing.Id, IdpType := convertProviderType message.IdpType })
          let provider ← idpInternally "failed to update identity provider, error"
            (json.updateIdentityProvider (preserveSecret existing update))
          Effect.ofExcept (convertIdentityProviderFromStore provider)

/-- An administrator deletes a provider. -/
def deleteIdentityProvider (name : String) : IdpM Unit := do
  let _ ← Effect.ofExcept svc.requireAdmin
  let uid ← Effect.ofExcept (svc.identityProviderUIDOfName name)
  let existing ← idpInternally "failed to check identity provider existence"
    (json.getIdentityProvider uid)
  match existing with
  | none => Effect.fail (.status .NotFound "identity provider not found")
  | some existing =>
      idpInternally "failed to delete identity provider, error"
        (deleteProvider existing.Id)

end MemoService

/-! ## Usable configurations -/

/-- A configuration is there, and so is its field mapping. -/
def HasMapping (config : Option IdentityProviderConfig) : Prop :=
  ∃ oauth2Config mapping, config = some (some oauth2Config) ∧
    oauth2Config.FieldMapping = some mapping

/-- An OAuth2 provider has a configuration with a field mapping. -/
def UsableConfig (idpType : ProviderType) (config : Option IdentityProviderConfig) : Prop :=
  idpType = .OAUTH2 → HasMapping config

/-- The stored configuration of a provider can be read, and it can be used. -/
def UsableRow (json : OAuth2Json) (row : IdpRow) : Prop :=
  row.IdpType = .OAUTH2 → ∃ oauth2Config, json.unmarshal row.Config = .ok oauth2Config ∧
    HasMapping (some (some oauth2Config))

/-- All stored configurations can be used. -/
def UsableTable (json : OAuth2Json) (table : IdpTable) : Prop :=
  ∀ row ∈ table.rows, UsableRow json row

/-- A configuration of an update is a usable one of an OAuth2 provider. -/
def UsableUpdate (update : UpdateIdentityProviderV1) : Prop :=
  update.Config ≠ none → update.IdpType = .OAUTH2 ∧ HasMapping update.Config

/-- The use of a configuration without a check succeeds, or it panics. -/
theorem checkedConfig_cases (config : Option IdentityProviderConfig) :
    (∃ c m, config = some (some c) ∧ c.FieldMapping = some m ∧
      checkedConfig (getOauth2Config config) = .ok (c, m)) ∨
    (¬ HasMapping config ∧ checkedConfig (getOauth2Config config) = .error nilPointer) := by
  have habsent : ∀ config : Option IdentityProviderConfig, getOauth2Config config = none →
      ¬ HasMapping config ∧ checkedConfig (getOauth2Config config) = .error nilPointer := by
    intro config hnone
    refine ⟨?_, by rw [hnone]; rfl⟩
    intro h
    rcases h with ⟨c, m, rfl, -⟩
    cases hnone
  cases config with
  | none => exact .inr (habsent none rfl)
  | some config =>
      cases config with
      | none => exact .inr (habsent (some none) rfl)
      | some c =>
          have hrun : checkedConfig (getOauth2Config (some (some c))) = (do
              let mapping ← checked c.FieldMapping
              pure (c, mapping) : Except Failure (OAuth2Config × FieldMapping)) := rfl
          cases hmapping : c.FieldMapping with
          | none =>
              right
              rw [hrun, hmapping]
              refine ⟨?_, rfl⟩
              intro h
              rcases h with ⟨c', m, hc, hm⟩
              cases hc
              rw [hmapping] at hm
              cases hm
          | some m =>
              left
              rw [hrun, hmapping]
              exact ⟨c, m, rfl, hmapping, rfl⟩

/-- The conversion of a configuration gives a usable one, or it panics. -/
theorem convertConfig_cases (idpType : ProviderType) (config : Option IdentityProviderConfig) :
    (UsableConfig idpType config ∧ ∃ stored,
      convertIdentityProviderConfigToStore idpType config = .ok stored ∧
        (idpType = .OAUTH2 ↔ stored ≠ none) ∧ (stored ≠ none → HasMapping stored)) ∨
    (¬ UsableConfig idpType config ∧
      convertIdentityProviderConfigToStore idpType config = .error nilPointer) := by
  rw [convertIdentityProviderConfigToStore]
  by_cases htype : idpType = .OAUTH2
  · rw [if_pos htype]
    rcases checkedConfig_cases config with ⟨c, m, hconfig, hmapping, hrun⟩ | ⟨hnot, hrun⟩
    · left
      rw [hrun]
      exact ⟨fun _ => ⟨c, m, hconfig, hmapping⟩, _, rfl, by simp [htype],
        fun _ => ⟨_, m, rfl, rfl⟩⟩
    · right
      rw [hrun]
      exact ⟨fun husable => hnot (husable htype), rfl⟩
  · rw [if_neg htype]
    left
    exact ⟨fun h => absurd h htype, none, rfl, by simp [htype], fun h => absurd rfl h⟩

theorem convertProviderType_eq_iff (idpType : ProviderType) :
    convertProviderType idpType = .OAUTH2 ↔ idpType = .OAUTH2 := by
  cases idpType <;> simp [convertProviderType]

/-- The provider of a message is usable. -/
theorem convertIdentityProviderToStore_ok {message : Option IdentityProviderMessage} {uid : String}
    {provider : IdentityProvider}
    (h : convertIdentityProviderToStore message uid = .ok provider) :
    provider.Uid = uid ∧ UsableConfig provider.IdpType provider.Config := by
  cases message with
  | none => cases h
  | some message =>
      have hprovider : convertIdentityProviderToStore (some message) uid = (do
          let config ← convertIdentityProviderConfigToStore message.IdpType message.Config
          pure {
            Uid := uid
            Name := message.Title
            IdpType := convertProviderType message.IdpType
            IdentifierFilter := message.IdentifierFilter
            Config := config }) := rfl
      rcases convertConfig_cases message.IdpType message.Config with
        ⟨-, stored, hrun, htype, hmapping⟩ | ⟨-, hrun⟩
      · rw [hprovider, hrun] at h
        cases h
        refine ⟨rfl, fun hconverted => hmapping (htype.mp ?_)⟩
        exact (convertProviderType_eq_iff _).mp hconverted
      · rw [hprovider, hrun] at h
        cases h

namespace OAuth2Json

variable {json : OAuth2Json}

/-- The text of a usable configuration is usable. -/
theorem usable_of_raw {idpType : ProviderType} {config : Option IdentityProviderConfig}
    {raw : String} (hmapping : idpType = .OAUTH2 → HasMapping config)
    (h : json.convertIdentityProviderConfigToRaw idpType config = .ok raw)
    (htype : idpType = .OAUTH2) :
    ∃ oauth2Config, json.unmarshal raw = .ok oauth2Config ∧
      HasMapping (some (some oauth2Config)) := by
  rcases hmapping htype with ⟨c, m, rfl, hm⟩
  rw [convertIdentityProviderConfigToRaw, if_pos htype] at h
  cases hmarshal : json.marshal c with
  | error err =>
      rw [show (getOauth2Config (some (some c))).getD {} = c from rfl, hmarshal] at h
      cases h
  | ok text =>
      rw [show (getOauth2Config (some (some c))).getD {} = c from rfl, hmarshal] at h
      cases h
      exact ⟨c, json.unmarshal_marshal hmarshal, c, m, rfl, hm⟩

theorem createIdentityProvider_keeps {create : IdentityProvider}
    (husable : UsableConfig create.IdpType create.Config) :
    Effect.Keeps (UsableTable json) (json.createIdentityProvider create) := by
  refine Effect.Keeps.ofExcept_bind fun config hconfig => ?_
  refine Effect.Keeps.bind ?_ fun row => Effect.Keeps.ofExcept _
  intro table htable
  rw [insertProvider]
  split
  · exact htable
  · intro row hrow
    rcases List.mem_append.mp hrow with hrow | hrow
    · exact htable row hrow
    · rw [List.mem_singleton.mp hrow]
      exact usable_of_raw husable hconfig

theorem getIdentityProvider_keeps {P : IdpTable → Prop} (uid : String) :
    Effect.Keeps P (json.getIdentityProvider uid) := by
  refine (Effect.Keeps.read _).bind fun table => (Effect.Keeps.ofExcept _).bind fun list => ?_
  split
  · exact Effect.Keeps.pure _
  · exact Effect.Keeps.pure _
  · exact Effect.Keeps.fail _

/-- A new configuration of an update is usable. -/
theorem updatedConfig_ok {update : UpdateIdentityProviderV1} {config : Option String}
    (husable : UsableUpdate update) (h : json.updatedConfig update = .ok config) :
    ∀ raw ∈ config, ∃ oauth2Config, json.unmarshal raw = .ok oauth2Config ∧
      HasMapping (some (some oauth2Config)) := by
  intro raw hraw
  rw [updatedConfig] at h
  cases hconfig : update.Config with
  | none =>
      rw [hconfig] at h
      cases h
      cases hraw
  | some new =>
      rw [hconfig] at h
      rcases husable (by simp [hconfig]) with ⟨htype, hmapping⟩
      rw [hconfig] at hmapping
      dsimp only at h
      cases hnew : json.convertIdentityProviderConfigToRaw update.IdpType (some new) with
      | error err =>
          rw [hnew] at h
          cases h
      | ok text =>
          rw [hnew] at h
          cases h
          cases hraw
          exact usable_of_raw (fun _ => hmapping) hnew htype

theorem updateIdentityProvider_keeps {update : UpdateIdentityProviderV1}
    (husable : UsableUpdate update) :
    Effect.Keeps (UsableTable json) (json.updateIdentityProvider update) := by
  refine Effect.Keeps.ofExcept_bind fun config hconfig => ?_
  refine Effect.Keeps.bind ?_ fun _ => (Effect.Keeps.read _).bind fun table => ?_
  · rw [updateProvider]
    split
    · exact Effect.Keeps.fail _
    · refine Effect.Keeps.update fun table htable row hrow => ?_
      rcases List.mem_map.mp hrow with ⟨old, hold, rfl⟩
      intro htype
      rw [updateRow_IdpType] at htype
      have hkept := htable old hold htype
      rw [updateRow]
      split
      · cases config with
        | none => exact hkept
        | some raw => exact updatedConfig_ok husable hconfig raw rfl
      · exact hkept
  · split
    · exact Effect.Keeps.fail _
    · exact Effect.Keeps.ofExcept _

end OAuth2Json

/-! ## Reachable tables -/

namespace MemoService

variable {svc : MemoService} {json : OAuth2Json}

/-- The paths of a mask collect a usable update, or one of them panics. -/
theorem updateProviderPaths_cases (message : IdentityProviderMessage) (paths : List String)
    (update : UpdateIdentityProviderV1)
    (htype : update.IdpType = convertProviderType message.IdpType) (husable : UsableUpdate update) :
    (("config" ∈ paths → UsableConfig message.IdpType message.Config) ∧ ∃ collected,
      paths.foldlM (updateProviderPath message) update = .ok collected ∧
        collected.ID = update.ID ∧ UsableUpdate collected) ∨
    (("config" ∈ paths ∧ ¬ UsableConfig message.IdpType message.Config) ∧
      paths.foldlM (updateProviderPath message) update = .error nilPointer) := by
  induction paths generalizing update with
  | nil => exact .inl ⟨by simp, update, rfl, rfl, husable⟩
  | cons path paths ih =>
      rw [List.foldlM_cons]
      by_cases htitle : path = "title"
      · have hmem : "config" ∈ path :: paths ↔ "config" ∈ paths := by simp [htitle]
        rw [updateProviderPath, if_pos htitle, hmem]
        exact ih { update with Name := some message.Title } htype husable
      by_cases hfilter : path = "identifier_filter"
      · have hmem : "config" ∈ path :: paths ↔ "config" ∈ paths := by simp [hfilter]
        rw [updateProviderPath, if_neg htitle, if_pos hfilter, hmem]
        exact ih { update with IdentifierFilter := some message.IdentifierFilter } htype husable
      by_cases hconfig : path = "config"
      · rw [updateProviderPath, if_neg htitle, if_neg hfilter, if_pos hconfig]
        rcases convertConfig_cases message.IdpType message.Config with
          ⟨hok, stored, hrun, hstored, hmapping⟩ | ⟨hnot, hrun⟩
        · rw [hrun]
          have hnew : UsableUpdate { update with Config := stored } := by
            intro hne
            refine ⟨?_, hmapping hne⟩
            rw [htype]
            exact (convertProviderType_eq_iff _).mpr (hstored.mpr hne)
          rcases ih { update with Config := stored } htype hnew with ⟨-, hrest⟩ | ⟨hrest, -⟩
          · exact .inl ⟨fun _ => hok, hrest⟩
          · exact absurd hok hrest.2
        · rw [hrun]
          exact .inr ⟨⟨by simp [hconfig], hnot⟩, rfl⟩
      · have hmem : "config" ∈ path :: paths ↔ "config" ∈ paths := by
          rw [List.mem_cons]
          exact or_iff_right fun h => hconfig h.symm
        rw [updateProviderPath, if_neg htitle, if_neg hfilter, if_neg hconfig, hmem]
        exact ih update htype husable

theorem usableUpdate_preserveSecret {existing : IdentityProvider}
    {update : UpdateIdentityProviderV1} (h : UsableUpdate update) :
    UsableUpdate (preserveSecret existing update) := by
  rw [preserveSecret]
  split
  · rename_i oauth2Config hconfig
    split
    · split
      · intro _
        rcases h (by simp [hconfig]) with ⟨htype, c, m, hc, hm⟩
        rw [hconfig] at hc
        cases hc
        exact ⟨htype, _, m, rfl, hm⟩
      · exact h
    · exact h
  · exact h

theorem createIdentityProvider_keeps (request : CreateIdentityProviderRequest) :
    Effect.Keeps (UsableTable json) (svc.createIdentityProvider json request) := by
  refine (Effect.Keeps.ofExcept _).bind fun _ => (Effect.Keeps.ofExcept _).bind fun uid => ?_
  refine Effect.Keeps.ofExcept_bind fun create hcreate => ?_
  have husable := (convertIdentityProviderToStore_ok hcreate).2
  exact ((OAuth2Json.createIdentityProvider_keeps husable).mapError _).bind fun _ =>
    Effect.Keeps.ofExcept _

theorem updateIdentityProvider_keeps (request : UpdateIdentityProviderRequest) :
    Effect.Keeps (UsableTable json) (svc.updateIdentityProvider json request) := by
  refine (Effect.Keeps.ofExcept _).bind fun _ => ?_
  split
  · exact Effect.Keeps.fail _
  · exact Effect.Keeps.fail _
  · rename_i paths _ _
    refine (Effect.Keeps.ofExcept _).bind fun message => ?_
    refine (Effect.Keeps.ofExcept _).bind fun uid => ?_
    refine ((OAuth2Json.getIdentityProvider_keeps uid).mapError _).bind fun existing => ?_
    split
    · exact Effect.Keeps.fail _
    · rename_i existing
      refine Effect.Keeps.ofExcept_bind fun update hupdate => ?_
      have husable : UsableUpdate update := by
        rcases updateProviderPaths_cases message paths
          { ID := existing.Id, IdpType := convertProviderType message.IdpType } rfl
          (fun h => absurd rfl h) with ⟨-, collected, hrun, -, hcollected⟩ | ⟨-, hrun⟩
        · rw [hrun] at hupdate
          cases hupdate
          exact hcollected
        · rw [hrun] at hupdate
          cases hupdate
      exact ((OAuth2Json.updateIdentityProvider_keeps
        (usableUpdate_preserveSecret husable)).mapError _).bind fun _ => Effect.Keeps.ofExcept _

private theorem deleteIdentityProvider_keeps (name : String) :
    Effect.Keeps (UsableTable json) (svc.deleteIdentityProvider json name) := by
  refine (Effect.Keeps.ofExcept _).bind fun _ => (Effect.Keeps.ofExcept _).bind fun uid => ?_
  refine ((OAuth2Json.getIdentityProvider_keeps uid).mapError _).bind fun existing => ?_
  split
  · exact Effect.Keeps.fail _
  · refine Effect.Keeps.mapError (Effect.Keeps.update fun table htable row hrow => ?_) _
    exact htable row (List.mem_filter.mp hrow).1

end MemoService

/-- The tables that requests lead to, each by a service of its own. -/
inductive IdpReachable (json : OAuth2Json) : IdpTable → Prop where
  | empty : IdpReachable json .empty
  | create {table : IdpTable} (svc : MemoService) (request : CreateIdentityProviderRequest) :
      IdpReachable json table → IdpReachable json (svc.createIdentityProvider json request table).2
  | update {table : IdpTable} (svc : MemoService) (request : UpdateIdentityProviderRequest) :
      IdpReachable json table → IdpReachable json (svc.updateIdentityProvider json request table).2
  | delete {table : IdpTable} (svc : MemoService) (name : String) :
      IdpReachable json table → IdpReachable json (svc.deleteIdentityProvider json name table).2

/-- The stored configurations of a reachable table can be used. -/
theorem IdpReachable.usable {json : OAuth2Json} {table : IdpTable} (h : IdpReachable json table) :
    UsableTable json table := by
  induction h with
  | empty =>
      intro row hrow
      cases hrow
  | create svc request _ ih => exact MemoService.createIdentityProvider_keeps request _ ih
  | update svc request _ ih => exact MemoService.updateIdentityProvider_keeps request _ ih
  | delete svc name _ ih => exact MemoService.deleteIdentityProvider_keeps name _ ih

end Api
end MemosNote
