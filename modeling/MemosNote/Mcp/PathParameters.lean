import MemosNote.Library.PathTemplate
import MemosNote.Library.SearchParams
import MemosNote.Library.Traverse
import Mathlib.Data.List.DropRight

/-!
# Paths of tool calls

A tool call fills the path template of its operation with escaped arguments.  The operations of the
interface share their segments, and some slots are followed by a verb.

Main results:

- Theorem {lit}`substitutePathParameters_iff`: when a path is built and which path it is.
- Theorem {lit}`substitutePathParameters_own`: the path of a tool call fits the template of its own
  operation and of no other one with the same method.
-/

namespace MemosNote
namespace Mcp

open Library PathTemplate PercentEncoding Traverse

/-! ## Operations -/

/-- The methods of the operations. -/
inductive Method where
  | get
  | post
  | patch
  | delete
  deriving DecidableEq

/-- Where a parameter stands. -/
inductive Location where
  | path
  | query
  deriving DecidableEq

/-- A parameter of an operation. -/
structure OpenAPIParameter where
  name : String
  location : Location

/-- An operation, with the parts of its path between slashes. -/
structure OpenAPIOperation where
  operationID : String
  method : Method
  parts : List String
  parameters : List OpenAPIParameter

/-- The path with its slots. -/
def OpenAPIOperation.path (operation : OpenAPIOperation) : List Char :=
  operation.parts.flatMap fun part => '/' :: part.toList

/-- The operations of the interface description. -/
def openAPIOperations : List OpenAPIOperation :=
  [⟨"AIService_Transcribe", .post, ["api", "v1", "ai:transcribe"], []⟩,
   ⟨"AttachmentService_ListAttachments", .get, ["api", "v1", "attachments"],
     [⟨"pageSize", .query⟩, ⟨"pageToken", .query⟩, ⟨"filter", .query⟩, ⟨"orderBy", .query⟩]⟩,
   ⟨"AttachmentService_CreateAttachment", .post, ["api", "v1", "attachments"],
     [⟨"attachmentId", .query⟩]⟩,
   ⟨"AttachmentService_GetAttachment", .get, ["api", "v1", "attachments", "{attachment}"],
     [⟨"attachment", .path⟩]⟩,
   ⟨"AttachmentService_DeleteAttachment", .delete, ["api", "v1", "attachments", "{attachment}"],
     [⟨"attachment", .path⟩]⟩,
   ⟨"AttachmentService_UpdateAttachment", .patch, ["api", "v1", "attachments", "{attachment}"],
     [⟨"attachment", .path⟩, ⟨"updateMask", .query⟩]⟩,
   ⟨"AttachmentService_BatchDeleteAttachments", .post, ["api", "v1", "attachments:batchDelete"],
     []⟩,
   ⟨"AuthService_GetCurrentUser", .get, ["api", "v1", "auth", "me"], []⟩,
   ⟨"AuthService_RefreshToken", .post, ["api", "v1", "auth", "refresh"], []⟩,
   ⟨"AuthService_SignIn", .post, ["api", "v1", "auth", "signin"], []⟩,
   ⟨"AuthService_SignOut", .post, ["api", "v1", "auth", "signout"], []⟩,
   ⟨"IdentityProviderService_ListIdentityProviders", .get, ["api", "v1", "identity-providers"],
     []⟩,
   ⟨"IdentityProviderService_CreateIdentityProvider", .post, ["api", "v1", "identity-providers"],
     [⟨"identityProviderId", .query⟩]⟩,
   ⟨"IdentityProviderService_GetIdentityProvider", .get,
     ["api", "v1", "identity-providers", "{identity-provider}"], [⟨"identity-provider", .path⟩]⟩,
   ⟨"IdentityProviderService_DeleteIdentityProvider", .delete,
     ["api", "v1", "identity-providers", "{identity-provider}"], [⟨"identity-provider", .path⟩]⟩,
   ⟨"IdentityProviderService_UpdateIdentityProvider", .patch,
     ["api", "v1", "identity-providers", "{identity-provider}"],
     [⟨"identity-provider", .path⟩, ⟨"updateMask", .query⟩]⟩,
   ⟨"InstanceService_GetInstanceProfile", .get, ["api", "v1", "instance", "profile"], []⟩,
   ⟨"InstanceService_TestInstanceEmailSetting", .post,
     ["api", "v1", "instance", "settings", "notification:testEmail"], []⟩,
   ⟨"InstanceService_BatchGetInstanceSettings", .post,
     ["api", "v1", "instance", "settings:batchGet"], []⟩,
   ⟨"InstanceService_GetInstanceStats", .get, ["api", "v1", "instance", "stats"], []⟩,
   ⟨"InstanceService_GetInstanceSetting", .get, ["api", "v1", "instance", "{instance}", "*"],
     [⟨"instance", .path⟩]⟩,
   ⟨"InstanceService_UpdateInstanceSetting", .patch, ["api", "v1", "instance", "{instance}", "*"],
     [⟨"instance", .path⟩, ⟨"updateMask", .query⟩]⟩,
   ⟨"MemoService_ListMemos", .get, ["api", "v1", "memos"],
     [⟨"pageSize", .query⟩, ⟨"pageToken", .query⟩, ⟨"state", .query⟩, ⟨"orderBy", .query⟩,
      ⟨"filter", .query⟩, ⟨"showDeleted", .query⟩]⟩,
   ⟨"MemoService_CreateMemo", .post, ["api", "v1", "memos"], [⟨"memoId", .query⟩]⟩,
   ⟨"MemoService_GetLinkMetadata", .get, ["api", "v1", "memos", "-", "linkMetadata"],
     [⟨"url", .query⟩]⟩,
   ⟨"MemoService_BatchGetLinkMetadata", .post,
     ["api", "v1", "memos", "-", "linkMetadata:batchGet"], []⟩,
   ⟨"MemoService_GetMemo", .get, ["api", "v1", "memos", "{memo}"], [⟨"memo", .path⟩]⟩,
   ⟨"MemoService_DeleteMemo", .delete, ["api", "v1", "memos", "{memo}"],
     [⟨"memo", .path⟩, ⟨"force", .query⟩]⟩,
   ⟨"MemoService_UpdateMemo", .patch, ["api", "v1", "memos", "{memo}"],
     [⟨"memo", .path⟩, ⟨"updateMask", .query⟩]⟩,
   ⟨"MemoService_ListMemoAttachments", .get, ["api", "v1", "memos", "{memo}", "attachments"],
     [⟨"memo", .path⟩, ⟨"pageSize", .query⟩, ⟨"pageToken", .query⟩]⟩,
   ⟨"MemoService_SetMemoAttachments", .patch, ["api", "v1", "memos", "{memo}", "attachments"],
     [⟨"memo", .path⟩]⟩,
   ⟨"MemoService_ListMemoComments", .get, ["api", "v1", "memos", "{memo}", "comments"],
     [⟨"memo", .path⟩, ⟨"pageSize", .query⟩, ⟨"pageToken", .query⟩, ⟨"orderBy", .query⟩]⟩,
   ⟨"MemoService_CreateMemoComment", .post, ["api", "v1", "memos", "{memo}", "comments"],
     [⟨"memo", .path⟩, ⟨"commentId", .query⟩]⟩,
   ⟨"MemoService_ListMemoReactions", .get, ["api", "v1", "memos", "{memo}", "reactions"],
     [⟨"memo", .path⟩, ⟨"pageSize", .query⟩, ⟨"pageToken", .query⟩]⟩,
   ⟨"MemoService_UpsertMemoReaction", .post, ["api", "v1", "memos", "{memo}", "reactions"],
     [⟨"memo", .path⟩]⟩,
   ⟨"MemoService_DeleteMemoReaction", .delete,
     ["api", "v1", "memos", "{memo}", "reactions", "{reaction}"],
     [⟨"memo", .path⟩, ⟨"reaction", .path⟩]⟩,
   ⟨"MemoService_ListMemoRelations", .get, ["api", "v1", "memos", "{memo}", "relations"],
     [⟨"memo", .path⟩, ⟨"pageSize", .query⟩, ⟨"pageToken", .query⟩]⟩,
   ⟨"MemoService_SetMemoRelations", .patch, ["api", "v1", "memos", "{memo}", "relations"],
     [⟨"memo", .path⟩]⟩,
   ⟨"MemoService_ListMemoShares", .get, ["api", "v1", "memos", "{memo}", "shares"],
     [⟨"memo", .path⟩]⟩,
   ⟨"MemoService_CreateMemoShare", .post, ["api", "v1", "memos", "{memo}", "shares"],
     [⟨"memo", .path⟩]⟩,
   ⟨"MemoService_DeleteMemoShare", .delete, ["api", "v1", "memos", "{memo}", "shares", "{share}"],
     [⟨"memo", .path⟩, ⟨"share", .path⟩]⟩,
   ⟨"MemoService_GetMemoByShare", .get, ["api", "v1", "shares", "{shareId}"],
     [⟨"shareId", .path⟩]⟩,
   ⟨"UserService_ListUsers", .get, ["api", "v1", "users"],
     [⟨"pageSize", .query⟩, ⟨"pageToken", .query⟩, ⟨"filter", .query⟩, ⟨"showDeleted", .query⟩]⟩,
   ⟨"UserService_CreateUser", .post, ["api", "v1", "users"],
     [⟨"userId", .query⟩, ⟨"validateOnly", .query⟩, ⟨"requestId", .query⟩]⟩,
   ⟨"UserService_GetUser", .get, ["api", "v1", "users", "{user}"],
     [⟨"user", .path⟩, ⟨"readMask", .query⟩]⟩,
   ⟨"UserService_DeleteUser", .delete, ["api", "v1", "users", "{user}"],
     [⟨"user", .path⟩, ⟨"force", .query⟩]⟩,
   ⟨"UserService_UpdateUser", .patch, ["api", "v1", "users", "{user}"],
     [⟨"user", .path⟩, ⟨"updateMask", .query⟩, ⟨"allowMissing", .query⟩]⟩,
   ⟨"UserService_ListLinkedIdentities", .get,
     ["api", "v1", "users", "{user}", "linkedIdentities"], [⟨"user", .path⟩]⟩,
   ⟨"UserService_CreateLinkedIdentity", .post,
     ["api", "v1", "users", "{user}", "linkedIdentities"], [⟨"user", .path⟩]⟩,
   ⟨"UserService_GetLinkedIdentity", .get,
     ["api", "v1", "users", "{user}", "linkedIdentities", "{linkedIdentity}"],
     [⟨"user", .path⟩, ⟨"linkedIdentity", .path⟩]⟩,
   ⟨"UserService_DeleteLinkedIdentity", .delete,
     ["api", "v1", "users", "{user}", "linkedIdentities", "{linkedIdentity}"],
     [⟨"user", .path⟩, ⟨"linkedIdentity", .path⟩]⟩,
   ⟨"UserService_ListUserNotifications", .get, ["api", "v1", "users", "{user}", "notifications"],
     [⟨"user", .path⟩, ⟨"pageSize", .query⟩, ⟨"pageToken", .query⟩, ⟨"filter", .query⟩]⟩,
   ⟨"UserService_DeleteUserNotification", .delete,
     ["api", "v1", "users", "{user}", "notifications", "{notification}"],
     [⟨"user", .path⟩, ⟨"notification", .path⟩]⟩,
   ⟨"UserService_UpdateUserNotification", .patch,
     ["api", "v1", "users", "{user}", "notifications", "{notification}"],
     [⟨"user", .path⟩, ⟨"notification", .path⟩, ⟨"updateMask", .query⟩]⟩,
   ⟨"UserService_ListPersonalAccessTokens", .get,
     ["api", "v1", "users", "{user}", "personalAccessTokens"],
     [⟨"user", .path⟩, ⟨"pageSize", .query⟩, ⟨"pageToken", .query⟩]⟩,
   ⟨"UserService_CreatePersonalAccessToken", .post,
     ["api", "v1", "users", "{user}", "personalAccessTokens"], [⟨"user", .path⟩]⟩,
   ⟨"UserService_DeletePersonalAccessToken", .delete,
     ["api", "v1", "users", "{user}", "personalAccessTokens", "{personalAccessToken}"],
     [⟨"user", .path⟩, ⟨"personalAccessToken", .path⟩]⟩,
   ⟨"UserService_ListUserSettings", .get, ["api", "v1", "users", "{user}", "settings"],
     [⟨"user", .path⟩, ⟨"pageSize", .query⟩, ⟨"pageToken", .query⟩]⟩,
   ⟨"UserService_GetUserSetting", .get, ["api", "v1", "users", "{user}", "settings", "{setting}"],
     [⟨"user", .path⟩, ⟨"setting", .path⟩]⟩,
   ⟨"UserService_UpdateUserSetting", .patch,
     ["api", "v1", "users", "{user}", "settings", "{setting}"],
     [⟨"user", .path⟩, ⟨"setting", .path⟩, ⟨"updateMask", .query⟩]⟩,
   ⟨"ShortcutService_ListShortcuts", .get, ["api", "v1", "users", "{user}", "shortcuts"],
     [⟨"user", .path⟩]⟩,
   ⟨"ShortcutService_CreateShortcut", .post, ["api", "v1", "users", "{user}", "shortcuts"],
     [⟨"user", .path⟩, ⟨"validateOnly", .query⟩]⟩,
   ⟨"ShortcutService_GetShortcut", .get,
     ["api", "v1", "users", "{user}", "shortcuts", "{shortcut}"],
     [⟨"user", .path⟩, ⟨"shortcut", .path⟩]⟩,
   ⟨"ShortcutService_DeleteShortcut", .delete,
     ["api", "v1", "users", "{user}", "shortcuts", "{shortcut}"],
     [⟨"user", .path⟩, ⟨"shortcut", .path⟩]⟩,
   ⟨"ShortcutService_UpdateShortcut", .patch,
     ["api", "v1", "users", "{user}", "shortcuts", "{shortcut}"],
     [⟨"user", .path⟩, ⟨"shortcut", .path⟩, ⟨"updateMask", .query⟩]⟩,
   ⟨"UserService_ListUserWebhooks", .get, ["api", "v1", "users", "{user}", "webhooks"],
     [⟨"user", .path⟩]⟩,
   ⟨"UserService_CreateUserWebhook", .post, ["api", "v1", "users", "{user}", "webhooks"],
     [⟨"user", .path⟩]⟩,
   ⟨"UserService_DeleteUserWebhook", .delete,
     ["api", "v1", "users", "{user}", "webhooks", "{webhook}"],
     [⟨"user", .path⟩, ⟨"webhook", .path⟩]⟩,
   ⟨"UserService_UpdateUserWebhook", .patch,
     ["api", "v1", "users", "{user}", "webhooks", "{webhook}"],
     [⟨"user", .path⟩, ⟨"webhook", .path⟩, ⟨"updateMask", .query⟩]⟩,
   ⟨"UserService_GetUserWebhookSigningSecret", .get,
     ["api", "v1", "users", "{user}", "webhooks", "{webhook}:getSigningSecret"],
     [⟨"user", .path⟩, ⟨"webhook", .path⟩]⟩,
   ⟨"UserService_GetUserStats", .get, ["api", "v1", "users", "{user}:getStats"],
     [⟨"user", .path⟩]⟩,
   ⟨"UserService_BatchGetUsers", .post, ["api", "v1", "users:batchGet"], []⟩,
   ⟨"UserService_ListAllUserStats", .get, ["api", "v1", "users:stats"],
     [⟨"state", .query⟩, ⟨"filter", .query⟩]⟩]

/-- The operations that are offered as tools. -/
def curatedOperationIDs : List String :=
  ["MemoService_ListMemos", "MemoService_CreateMemo", "MemoService_GetMemo",
   "MemoService_UpdateMemo", "MemoService_DeleteMemo", "MemoService_ListMemoComments",
   "MemoService_CreateMemoComment", "MemoService_ListMemoAttachments",
   "MemoService_SetMemoAttachments", "MemoService_ListMemoReactions",
   "MemoService_UpsertMemoReaction", "MemoService_DeleteMemoReaction",
   "MemoService_ListMemoRelations", "MemoService_SetMemoRelations",
   "AttachmentService_ListAttachments", "AttachmentService_GetAttachment",
   "AttachmentService_DeleteAttachment", "ShortcutService_ListShortcuts",
   "AuthService_GetCurrentUser"]

/-- The operations that become tools. -/
def buildCuratedTools (registry : List OpenAPIOperation) :
    Except String (List OpenAPIOperation) :=
  curatedOperationIDs.mapM fun operationID =>
    match registry.find? (·.operationID == operationID) with
    | some operation => .ok operation
    | none => .error s!"curated OpenAPI operation {operationID.quote} not found"

/-! ## Arguments -/

/-- An argument.  A floating-point number is given by its shortest decimal text and a value of
another kind by its JSON text, if it has one. -/
inductive ArgValue where
  | null
  | string (s : List Char)
  | bool (b : Bool)
  | int (n : ℤ)
  | float (text : List Char)
  | other (json : Option (List Char))

/-- The arguments of a call, by name. -/
abbrev Arguments :=
  List (String × ArgValue)

/-- An argument as text. -/
def valueToString : ArgValue → List Char
  | .null => "null".toList
  | .string s => s
  | .bool b => (if b then "true" else "false").toList
  | .int n => (toString n).toList
  | .float text => text
  | .other none => []
  | .other (some data) => (data.dropWhile (· == '"')).rdropWhile (· == '"')

/-- The characters that stand for themselves in a path segment. -/
def keepInSegment (c : Char) : Bool :=
  ('a' ≤ c && c ≤ 'z') || ('A' ≤ c && c ≤ 'Z') || ('0' ≤ c && c ≤ '9') ||
    "-_.~$&+:=@".toList.contains c

/-- A text escaped for one segment of a path. -/
def PathEscape (text : List Char) : List Char :=
  encode keepInSegment text

/-- The text of an argument that a path can be built with. -/
def pathArgument (arguments : Arguments) (name : String) : Option (List Char) :=
  match arguments.lookup name with
  | none => none
  | some .null => none
  | some value => if valueToString value = [] then none else some (valueToString value)

/-- The parameters in order, each put into its slot. -/
def substituteParameters (arguments : Arguments) :
    List OpenAPIParameter → List Char → Except String (List Char)
  | [], path => .ok path
  | parameter :: parameters, path =>
      if parameter.location ≠ .path then substituteParameters arguments parameters path
      else
        match pathArgument arguments parameter.name with
        | none => .error s!"missing required path parameter \"{parameter.name}\""
        | some text =>
            substituteParameters arguments parameters
              (replaceAll (slotText parameter.name.toList) (PathEscape text) path)

/-- The path of a call. -/
def substitutePathParameters (operation : OpenAPIOperation) (arguments : Arguments) :
    Except String (List Char) :=
  substituteParameters arguments operation.parameters operation.path

/-! ## Built paths -/

/-- The parameters that stand in the path. -/
def OpenAPIOperation.pathParameters (operation : OpenAPIOperation) : List OpenAPIParameter :=
  operation.parameters.filter (·.location == .path)

/-- A parameter has an argument, and this is its escaped text. -/
def Escaped (arguments : Arguments) (parameter : OpenAPIParameter)
    (pair : List Char × List Char) : Prop :=
  ∃ text, pathArgument arguments parameter.name = some text ∧
    pair = (parameter.name.toList, PathEscape text)

private theorem substituteParameters_iff (arguments : Arguments)
    (parameters : List OpenAPIParameter)
    (path result : List Char) : substituteParameters arguments parameters path = .ok result ↔
      ∃ pairs, List.Forall₂ (Escaped arguments) (parameters.filter (·.location == .path)) pairs ∧
        result = pairs.foldl (fun text pair => replaceAll (slotText pair.1) pair.2 text) path := by
  induction parameters generalizing path with
  | nil =>
      constructor
      · intro h
        cases h
        exact ⟨[], .nil, rfl⟩
      · rintro ⟨pairs, hpairs, rfl⟩
        cases hpairs
        rfl
  | cons parameter parameters ih =>
      rw [substituteParameters]
      by_cases hpath : parameter.location = .path
      · have hfilter : (parameter :: parameters).filter (·.location == .path) =
            parameter :: parameters.filter (·.location == .path) :=
          List.filter_cons_of_pos (beq_iff_eq.mpr hpath)
        rw [if_neg (not_not.mpr hpath), hfilter]
        constructor
        · intro h
          cases harg : pathArgument arguments parameter.name with
          | none =>
              rw [harg] at h
              cases h
          | some text =>
              rw [harg] at h
              rcases (ih _).mp h with ⟨pairs, hpairs, hresult⟩
              exact ⟨_ :: pairs, hpairs.cons ⟨text, harg, rfl⟩, hresult⟩
        · rintro ⟨pairs, hpairs, hresult⟩
          rcases List.forall₂_cons_left_iff.mp hpairs with ⟨_, rest, ⟨text, harg, rfl⟩, hrest, rfl⟩
          rw [harg]
          exact (ih _).mpr ⟨rest, hrest, hresult⟩
      · have hfilter : (parameter :: parameters).filter (·.location == .path) =
            parameters.filter (·.location == .path) :=
          List.filter_cons_of_neg fun h => hpath (beq_iff_eq.mp h)
        rw [if_pos hpath, hfilter, ih]

/-- A path is built exactly when every path parameter has an argument, by filling in the escaped
texts of the arguments. -/
theorem substitutePathParameters_iff (operation : OpenAPIOperation) (arguments : Arguments)
    (path : List Char) : substitutePathParameters operation arguments = .ok path ↔
      ∃ pairs, List.Forall₂ (Escaped arguments) operation.pathParameters pairs ∧
        path = pairs.foldl (fun text pair => replaceAll (slotText pair.1) pair.2 text)
          operation.path :=
  substituteParameters_iff arguments operation.parameters operation.path path

private theorem map_fst_of_escaped {arguments : Arguments} {parameters : List OpenAPIParameter}
    {pairs : List (List Char × List Char)}
    (h : List.Forall₂ (Escaped arguments) parameters pairs) :
    pairs.map Prod.fst = parameters.map (·.name.toList) := by
  induction h with
  | nil => rfl
  | cons hpair _ ih =>
      rcases hpair with ⟨text, -, rfl⟩
      rw [List.map_cons, List.map_cons, ih]

/-- Escaping leaves no slash and no brace. -/
theorem notMem_PathEscape {symbol : Char} (hkeep : keepInSegment symbol = false)
    (hpercent : symbol ≠ '%') (hdigit : symbol ∉ "0123456789ABCDEF".toList) (text : List Char) :
    symbol ∉ PathEscape text := by
  intro h
  rcases List.mem_flatMap.mp h with ⟨c, -, hc⟩
  exact SearchParams.notMem_encodeChar hkeep hpercent hdigit c hc

private theorem decode_PathEscape (text : List Char) : decode (PathEscape text) = some text :=
  decode_encode (by decide) text

/-! ## Templates of the interface -/

/-- What stands between the slashes. -/
def pieces (path : List Char) : List (List Char) :=
  path.splitOn '/'

/-- The path as the router reads it. -/
def OpenAPIOperation.template (operation : OpenAPIOperation) : List Segment :=
  (pieces operation.path).map Segment.parse

/-- The router takes a path for this operation. -/
def OpenAPIOperation.accepts (operation : OpenAPIOperation) (path : List Char) : Bool :=
  fits operation.template (pieces path)

/-- The names of the slots. -/
def OpenAPIOperation.pathNames (operation : OpenAPIOperation) : List (List Char) :=
  operation.pathParameters.map (·.name.toList)

/-- The slots of the path are path parameters, and braces stand nowhere else. -/
def OpenAPIOperation.wellFormed (operation : OpenAPIOperation) : Bool :=
  operation.template.map Segment.render == pieces operation.path &&
    operation.template.all (fun s => s.plain && s.bound operation.pathNames) &&
    operation.pathNames.all fun name => !name.contains '}'

/-- The paths of the operation are not those of another operation with the same method. -/
def OpenAPIOperation.standsAlone (operation : OpenAPIOperation) : Bool :=
  openAPIOperations.all fun other =>
    other.method != operation.method || other.path == operation.path ||
      apart other.template operation.template

theorem curated_checks : (curatedOperationIDs.all fun operationID =>
    (openAPIOperations.find? (·.operationID == operationID)).any fun operation =>
      operation.wellFormed && operation.standsAlone) = true := by
  decide +kernel

/-- Every operation of a tool is found. -/
theorem buildCuratedTools_ok : ∃ operations, buildCuratedTools openAPIOperations = .ok operations ∧
    ∀ operationID ∈ curatedOperationIDs, ∃ operation ∈ operations,
      openAPIOperations.find? (·.operationID == operationID) = some operation := by
  have hfound : ∀ operationID ∈ curatedOperationIDs, ∃ operation,
      openAPIOperations.find? (·.operationID == operationID) = some operation := by
    intro operationID hid
    have hcheck := List.all_eq_true.mp curated_checks operationID hid
    rcases (Option.any_eq_true _ _).mp hcheck with ⟨operation, hfind, -⟩
    exact ⟨operation, hfind⟩
  rcases exists_forall₂ hfound with ⟨operations, hall⟩
  refine ⟨operations, mapM_ok_iff.mpr (hall.imp fun operationID operation h => ?_),
    exists_right hall⟩
  rw [h]

/-- The operations of the tools are well formed, and no other path is like theirs. -/
theorem curated_spec {operations : List OpenAPIOperation}
    (hbuild : buildCuratedTools openAPIOperations = .ok operations) {operation : OpenAPIOperation}
    (h : operation ∈ operations) : operation.wellFormed = true ∧ operation.standsAlone = true := by
  rcases exists_left (mapM_ok_iff.mp hbuild) operation h with ⟨operationID, hid, hfound⟩
  have hchecks := List.all_eq_true.mp curated_checks operationID hid
  cases hfind : openAPIOperations.find? (·.operationID == operationID) with
  | none =>
      rw [hfind] at hfound
      cases hfound
  | some found =>
      rw [hfind] at hfound hchecks
      cases hfound
      exact (Bool.and_eq_true _ _).mp hchecks

/-- A piece of a path is what its segment of the template says, with a slot filled by the escaped
text of its argument. -/
def FilledBy (arguments : Arguments) (s : Segment) (piece : List Char) : Prop :=
  match s with
  | .literal text => piece = text
  | .slot name suffix => ∃ value escaped, arguments.lookup (String.ofList name) = some value ∧
      piece = escaped ++ suffix ∧ decode escaped = some (valueToString value)
  | .star => piece = ['*']

private theorem pathArgument_eq_some {arguments : Arguments} {name : String} {text : List Char}
    (h : pathArgument arguments name = some text) :
    ∃ value, arguments.lookup name = some value ∧ text = valueToString value := by
  unfold pathArgument at h
  split at h
  · cases h
  · cases h
  · rename_i value _ hlookup
    split_ifs at h
    cases h
    exact ⟨value, hlookup, rfl⟩

private theorem filledBy_filled {arguments : Arguments} {parameters : List OpenAPIParameter}
    {pairs : List (List Char × List Char)}
    (hpairs : List.Forall₂ (Escaped arguments) parameters pairs) {s : Segment}
    (h : s.bound (pairs.map Prod.fst) = true) : FilledBy arguments s (s.filled pairs) := by
  cases s with
  | literal text => exact Segment.filled_literal pairs text
  | star => rfl
  | slot name suffix =>
      rcases exists_lookup h with ⟨escaped, hescaped⟩
      rcases exists_left hpairs _ (mem_of_lookup hescaped) with ⟨parameter, -, text, harg, hpair⟩
      rcases pathArgument_eq_some harg with ⟨value, hvalue, rfl⟩
      cases hpair
      refine ⟨value, PathEscape (valueToString value), ?_, Segment.filled_slot hescaped suffix,
        decode_PathEscape _⟩
      rw [String.ofList_toList]
      exact hvalue

/-- The pieces of a path built for an operation whose slots are path parameters. -/
theorem pieces_of_substituted {operation : OpenAPIOperation} (hop : operation.wellFormed = true)
    {arguments : Arguments} {path : List Char}
    (h : substitutePathParameters operation arguments = .ok path) :
    List.Forall₂ (FilledBy arguments) operation.template (pieces path) ∧
      operation.accepts path = true := by
  rcases (substitutePathParameters_iff operation arguments path).mp h with ⟨pairs, hpairs, rfl⟩
  rw [OpenAPIOperation.wellFormed, Bool.and_eq_true, Bool.and_eq_true] at hop
  rcases hop with ⟨⟨hrender, htemplate⟩, hnames⟩
  have hrender := beq_iff_eq.mp hrender
  have hplain : ∀ s ∈ operation.template, s.plain = true := fun s hs =>
    ((Bool.and_eq_true _ _).mp (List.all_eq_true.mp htemplate s hs)).1
  have hbound : ∀ s ∈ operation.template, s.bound (pairs.map Prod.fst) = true := by
    intro s hs
    rw [map_fst_of_escaped hpairs]
    exact ((Bool.and_eq_true _ _).mp (List.all_eq_true.mp htemplate s hs)).2
  have hpair : ∀ pair ∈ pairs, '}' ∉ pair.1 ∧ '{' ∉ pair.2 ∧ '/' ∉ pair.2 := by
    intro pair hmem
    rcases exists_left hpairs pair hmem with ⟨parameter, hparameter, text, -, rfl⟩
    have hname := List.all_eq_true.mp hnames _ (List.mem_map_of_mem hparameter)
    refine ⟨?_, notMem_PathEscape (by decide) (by decide) (by decide) text,
      notMem_PathEscape (by decide) (by decide) (by decide) text⟩
    simpa using hname
  have hpath : operation.path = ['/'].intercalate (operation.template.map Segment.render) := by
    rw [hrender]
    exact (List.intercalate_splitOn '/').symm
  have hne : operation.template ≠ [] := fun h =>
    List.splitOn_ne_nil '/' operation.path (List.map_eq_nil_iff.mp h)
  have hsplit : pieces (pairs.foldl
      (fun text pair => replaceAll (slotText pair.1) pair.2 text) operation.path) =
        operation.template.map (Segment.filled pairs) := by
    rw [hpath, foldl_replaceAll_path (fun pair hmem => ⟨(hpair pair hmem).1, (hpair pair hmem).2.1⟩)
      hplain]
    exact splitOn_filled (fun pair hmem => (hpair pair hmem).2.2) hne hplain hbound
  rw [OpenAPIOperation.accepts, hsplit]
  refine ⟨?_, fits_filled hbound⟩
  rw [List.forall₂_map_right_iff, List.forall₂_same]
  exact fun s hs => filledBy_filled hpairs (hbound s hs)

/-- The path of a tool call has the pieces of the operation's template, with the escaped arguments
in the slots.  It fits no other template with the method of the operation. -/
theorem substitutePathParameters_own {operations : List OpenAPIOperation}
    (hbuild : buildCuratedTools openAPIOperations = .ok operations) {operation : OpenAPIOperation}
    (hmem : operation ∈ operations) {arguments : Arguments} {path : List Char}
    (h : substitutePathParameters operation arguments = .ok path) :
    (pieces path).length = (pieces operation.path).length ∧
      List.Forall₂ (FilledBy arguments) operation.template (pieces path) ∧
      ∀ other ∈ openAPIOperations, other.method = operation.method →
        (other.accepts path = true ↔ other.path = operation.path) := by
  rcases curated_spec hbuild hmem with ⟨hformed, halone⟩
  rcases pieces_of_substituted hformed h with ⟨hfilled, haccepts⟩
  refine ⟨?_, hfilled, ?_⟩
  · rw [← hfilled.length_eq, OpenAPIOperation.template, List.length_map]
  · intro other hother hmethod
    have hcheck := List.all_eq_true.mp halone other hother
    rw [Bool.or_eq_true, Bool.or_eq_true, bne_iff_ne, beq_iff_eq] at hcheck
    constructor
    · intro hfits
      rcases hcheck with (hne | hpath) | hapart
      · exact absurd hmethod hne
      · exact hpath
      · rw [OpenAPIOperation.accepts, not_fits_of_apart hapart haccepts] at hfits
        cases hfits
    · intro hpath
      rw [OpenAPIOperation.accepts, OpenAPIOperation.template, hpath]
      exact haccepts

/-- A slash in an argument stays in its segment. -/
theorem substitutePathParameters_own_slash :
    ∃ operation path, substitutePathParameters operation [("memo", .string "a/b".toList)] =
        .ok path ∧ path = "/api/v1/memos/a%2Fb".toList ∧
      (pieces path).length = (pieces operation.path).length ∧
      List.Forall₂ (FilledBy [("memo", .string "a/b".toList)]) operation.template (pieces path) ∧
      ∀ other ∈ openAPIOperations, other.method = operation.method →
        (other.accepts path = true ↔ other.path = operation.path) := by
  rcases buildCuratedTools_ok with ⟨operations, hbuild, hall⟩
  rcases hall "MemoService_GetMemo" (by decide) with ⟨operation, hmem, hfind⟩
  have hoperation : operation = ⟨"MemoService_GetMemo", .get, ["api", "v1", "memos", "{memo}"],
      [⟨"memo", .path⟩]⟩ := Option.some_inj.mp (hfind.symm.trans rfl)
  have hpath : substitutePathParameters operation [("memo", .string "a/b".toList)] =
      .ok "/api/v1/memos/a%2Fb".toList := by
    rw [hoperation]
    rfl
  exact ⟨operation, _, hpath, rfl, substitutePathParameters_own hbuild hmem hpath⟩

end Mcp
end MemosNote
