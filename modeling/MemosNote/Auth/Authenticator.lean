import MemosNote.Api.MemoService
import MemosNote.Scheduler.Cron
import MemosNote.Store.Tokens

/-!
# Who a request comes from

A request is authenticated by a signed access token, by a personal access token or, where files are
served, by the refresh token in its cookie.  Over Connect, requests that are not public go on only
when they are authenticated.  The gateway asks the same only of requests whose context names the
method.

Main results:

- Definition {lit}`Authenticate`, Definition {lit}`AuthenticateToUser`: the authentication of API
  requests and of requests for files.
- Definition {lit}`WrapUnary`, Definition {lit}`gatewayAuthMiddleware`: the gates before the
  procedures.
- Theorem {lit}`Authenticate_some`, Theorem {lit}`AuthenticateToUser_some`: what the requests of a
  user carry.
-/

namespace MemosNote
namespace Auth

open Library Store
open Api (StatusCode Failure)
open MemosNote.Scheduler (Fields)
open MemosNote.Filter (isSpace)

/-! ## Tokens -/

/-- Who issues the tokens. -/
def Issuer : String :=
  "memos"

/-- What access tokens are for. -/
def AccessTokenAudienceName : String :=
  "user.access-token"

/-- What refresh tokens are for. -/
def RefreshTokenAudienceName : String :=
  "user.refresh-token"

/-- The cookie of the refresh token. -/
def RefreshTokenCookieName : String :=
  "memos_refresh"

/-- What personal access tokens start with. -/
def PersonalAccessTokenPrefix : String :=
  "memos_pat_"

/-- The lifetime of an access token: fifteen minutes, in seconds. -/
def AccessTokenDuration : ℤ :=
  15 * 60

/-- The claims of signed tokens; refresh tokens carry an identifier, access tokens what is known of
the user. -/
structure TokenClaims where
  TokenType : String
  Role : String := ""
  Status : String := ""
  Username : String := ""
  TokenID : String := ""
  Issuer : String
  Audience : List String
  Subject : String
  IssuedAt : ℤ
  ExpiresAt : Option ℤ
deriving DecidableEq, Repr

/-- The library for signed tokens with the key of the server: signing, the claims of a token whose
signature, method and key identifier are in order, and the check of claims against an issuer, an
audience and the time, which a token that has expired does not pass. -/
structure JWT where
  SignedString : TokenClaims → String
  parse : String → Except String TokenClaims
  validate : String → String → ℤ → TokenClaims → Except String Unit
  validate_ok : ∀ {issuer audience now claims}, validate issuer audience now claims = .ok () →
    ∀ e ∈ claims.ExpiresAt, now < e

namespace JWT

variable (jwt : JWT)

/-- Parse and validate a token of one of the two types. -/
def parseToken (audience type : String) (now : ℤ) (tokenString : String) :
    Except String TokenClaims := do
  let claims ← jwt.parse tokenString
  jwt.validate Issuer audience now claims
  if claims.TokenType = type then pure claims
  else throw ("invalid token type: expected " ++ type ++ " token")

/-- The claims of an access token. -/
def ParseAccessTokenV2 : ℤ → String → Except String TokenClaims :=
  jwt.parseToken AccessTokenAudienceName "access"

/-- The claims of a refresh token. -/
def ParseRefreshToken : ℤ → String → Except String TokenClaims :=
  jwt.parseToken RefreshTokenAudienceName "refresh"

end JWT

/-- The role of a user in a token. -/
def roleString : Role → String
  | .ADMIN => "ADMIN"
  | .USER => "USER"

/-- The state of a user in a token. -/
def statusString : RowStatus → String
  | .NORMAL => "NORMAL"
  | .ARCHIVED => "ARCHIVED"

/-- The claims of {lit}`GenerateAccessTokenV2`. -/
def accessTokenClaims (user : User) (now : ℤ) : TokenClaims where
  TokenType := "access"
  Role := roleString user.Role
  Status := statusString user.RowStatus
  Username := user.Username
  Issuer := Issuer
  Audience := [AccessTokenAudienceName]
  Subject := toString user.ID
  IssuedAt := now
  ExpiresAt := some (now + AccessTokenDuration)

/-- The claims of {lit}`GenerateRefreshToken`; the lifetime is that of the stored token. -/
def refreshTokenClaims (user : User) (tokenID : String) (now duration : ℤ) : TokenClaims where
  TokenType := "refresh"
  TokenID := tokenID
  Issuer := Issuer
  Audience := [RefreshTokenAudienceName]
  Subject := toString user.ID
  IssuedAt := now
  ExpiresAt := some (now + duration)

/-- A number of 32 bits in decimal. -/
def ConvertStringToInt32 (quote : String → String) (src : String) : Except String ℤ :=
  let (negative, digits) := splitSign src.toList
  let context := "strconv.ParseInt: parsing " ++ quote src ++ ": "
  if digits = [] ∨ ¬ digits.all Char.isDigit then .error (context ++ "invalid syntax")
  else
    let value : ℤ := if negative then -(Nat.ofDigitChars 10 digits 0 : ℤ)
      else Nat.ofDigitChars 10 digits 0
    if -2147483648 ≤ value ∧ value ≤ 2147483647 then .ok value
    else .error (context ++ "value out of range")

/-! ## Headers -/

/-- The token of an {lit}`Authorization` header, empty if there is none. -/
def ExtractBearerToken (authHeader : String) : String :=
  match Fields authHeader with
  | [scheme, token] =>
      if (String.ofList scheme).toLower = "bearer" then String.ofList token else ""
  | _ => ""

/-- The characters of a token in a header. -/
def isTokenChar (c : Char) : Bool :=
  c.isAlphanum || c ∈ "!#$%&'*+-.^_`|~".toList

/-- Without white space of a header at the ends. -/
def trimString (text : List Char) : List Char :=
  let blank := fun c : Char => c ∈ [' ', '\t', '\n', '\r']
  ((text.dropWhile blank).reverse.dropWhile blank).reverse

/-- The value of a cookie, without quotes around it. -/
def parseCookieValue (raw : List Char) : Option String :=
  let value := if 1 < raw.length ∧ raw.head? = some '"' ∧ raw.getLast? = some '"' then
      raw.tail.dropLast
    else raw
  if value.all fun c => 32 ≤ c.toNat && c.toNat < 127 && c ∉ ['"', ';', '\\'] then
    some (String.ofList value)
  else none

/-- The value of the first cookie with a name. -/
def findCookie (name : String) (line : List Char) : Option String :=
  (splitAll ';' line).findSome? fun part =>
    let pair := trimString part
    let key := trimString (pair.takeWhile (· ≠ '='))
    if key ≠ [] ∧ key.all isTokenChar ∧ String.ofList key = name then
      parseCookieValue ((pair.dropWhile (· ≠ '=')).drop 1)
    else none

/-- The refresh token of a {lit}`Cookie` header, empty if there is none. -/
def ExtractRefreshTokenFromCookie (cookieHeader : String) : String :=
  (findCookie RefreshTokenCookieName cookieHeader.toList).getD ""

/-! ## Authentication -/

/-- A stored personal access token with what its checks read. -/
structure StoredPAT where
  tokenId : String
  tokenHash : String
  expiresAt : Option ℤ := none
  lastUsedAt : Option ℤ := none
deriving DecidableEq, Repr

/-- What authentication reads of the store. -/
structure AuthStore where
  GetUser : ℤ → Except String (Option User)
  GetUserByPATHash : String → Except String (User × StoredPAT)
  GetUserRefreshTokenByID : ℤ → String → Except String (Option RefreshToken)

/-- What an access token says of its user. -/
structure UserClaims where
  UserID : ℤ
  Username : String
  Role : String
  Status : String
deriving DecidableEq, Repr

/-- Who sends the request, and by which token. -/
structure AuthResult where
  User : Option User := none
  Claims : Option UserClaims := none
  AccessToken : String
deriving DecidableEq, Repr

/-- The store, the libraries and the time. -/
structure Authenticator where
  store : AuthStore
  jwt : JWT
  quote : String → String
  HashPersonalAccessToken : String → String
  now : ℤ

/-- The error with its context. -/
def wrap {α : Type} (message : String) (result : Except String α) : Except String α :=
  result.mapError fun err => message ++ ": " ++ err

namespace Authenticator

variable (a : Authenticator)

/-- A signed access token; the store is not asked. -/
def AuthenticateByAccessTokenV2 (accessToken : String) : Except String UserClaims := do
  let claims ← wrap "invalid access token" (a.jwt.ParseAccessTokenV2 a.now accessToken)
  let userID ← wrap "invalid user ID in token" (ConvertStringToInt32 a.quote claims.Subject)
  pure {
    UserID := userID
    Username := claims.Username
    Role := claims.Role
    Status := claims.Status }

/-- A signed refresh token that is stored, has not expired, and whose user is active. -/
def AuthenticateByRefreshToken (refreshToken : String) : Except String (User × String) := do
  let claims ← wrap "invalid refresh token" (a.jwt.ParseRefreshToken a.now refreshToken)
  let userID ← wrap "invalid user ID in token" (ConvertStringToInt32 a.quote claims.Subject)
  let token ← wrap "failed to get refresh token"
    (a.store.GetUserRefreshTokenByID userID claims.TokenID)
  match token with
  | none => throw "refresh token revoked"
  | some token =>
      if token.expiresAt.any (· < a.now) then throw "refresh token expired"
      let user ← wrap "failed to get user" (a.store.GetUser userID)
      match user with
      | none => throw "user not found"
      | some user =>
          if user.RowStatus = .ARCHIVED then throw "user is archived"
          pure (user, claims.TokenID)

/-- A personal access token, found by its hash. -/
def AuthenticateByPAT (token : String) : Except String (User × StoredPAT) :=
  if !PersonalAccessTokenPrefix.isPrefixOf token then throw "invalid PAT format"
  else do
    let (user, pat) ← wrap "invalid PAT"
      (a.store.GetUserByPATHash (a.HashPersonalAccessToken token))
    if pat.expiresAt.any (· < a.now) then throw "PAT expired"
    if user.RowStatus = .ARCHIVED then throw "user is archived"
    pure (user, pat)

/-- The user of a request for a file: none without credentials. -/
def AuthenticateToUser (authHeader cookieHeader : String) : Except String (Option User) :=
  let token := ExtractBearerToken authHeader
  let fallback : Except String (Option User) :=
    let refreshToken := ExtractRefreshTokenFromCookie cookieHeader
    if refreshToken ≠ "" then
      (a.AuthenticateByRefreshToken refreshToken).map fun found => some found.1
    else .ok none
  if token = "" then fallback
  else if !PersonalAccessTokenPrefix.isPrefixOf token then
    match a.AuthenticateByAccessTokenV2 token with
    | .error _ => fallback
    | .ok claims =>
        match a.store.GetUser claims.UserID with
        | .error err => .error err
        | .ok none => .ok none
        | .ok (some user) => if user.RowStatus = .ARCHIVED then .ok none else .ok (some user)
  else
    match a.AuthenticateByPAT token with
    | .error _ => fallback
    | .ok (user, _) => .ok (some user)

/-- The result for an API request: none without valid credentials. -/
def Authenticate (authHeader : String) : Option AuthResult :=
  let token := ExtractBearerToken authHeader
  if token ≠ "" ∧ !PersonalAccessTokenPrefix.isPrefixOf token then
    match a.AuthenticateByAccessTokenV2 token with
    | .error _ => none
    | .ok claims =>
        match a.store.GetUser claims.UserID with
        | .error _ | .ok none => none
        | .ok (some user) =>
            if user.RowStatus = .ARCHIVED then none
            else some { Claims := some claims, AccessToken := token }
  else if token ≠ "" then
    match a.AuthenticateByPAT token with
    | .error _ => none
    | .ok (user, _) => some { User := some user, AccessToken := token }
  else none

end Authenticator

/-! ## The gate -/

/-- The API procedures that need no authentication. -/
def PublicMethods : List String :=
  ["/memos.api.v1.AuthService/SignIn",
    "/memos.api.v1.AuthService/RefreshToken",
    "/memos.api.v1.InstanceService/GetInstanceProfile",
    "/memos.api.v1.InstanceService/GetInstanceSetting",
    "/memos.api.v1.InstanceService/BatchGetInstanceSettings",
    "/memos.api.v1.UserService/CreateUser",
    "/memos.api.v1.UserService/GetUser",
    "/memos.api.v1.UserService/BatchGetUsers",
    "/memos.api.v1.UserService/GetUserAvatar",
    "/memos.api.v1.UserService/GetUserStats",
    "/memos.api.v1.UserService/ListAllUserStats",
    "/memos.api.v1.IdentityProviderService/ListIdentityProviders",
    "/memos.api.v1.MemoService/GetMemo",
    "/memos.api.v1.MemoService/ListMemos",
    "/memos.api.v1.MemoService/ListMemoComments",
    "/memos.api.v1.MemoService/GetLinkMetadata",
    "/memos.api.v1.MemoService/BatchGetLinkMetadata",
    "/memos.api.v1.MemoService/GetMemoByShare"]

/-- The procedures that need no user. -/
def IsPublicMethod (procedure : String) : Bool :=
  procedure ∈ PublicMethods

/-- What the context of a request holds. -/
structure RequestContext where
  UserID : ℤ := 0
  AccessToken : String := ""
  UserClaims : Option UserClaims := none
deriving DecidableEq, Repr

/-- The user becomes the current one. -/
def SetUserInContext (ctx : RequestContext) (user : User) (accessToken : String) : RequestContext :=
  let ctx := { ctx with UserID := user.ID }
  if accessToken ≠ "" then { ctx with AccessToken := accessToken } else ctx

/-- The result becomes part of the context. -/
def ApplyToContext (ctx : RequestContext) : Option AuthResult → RequestContext
  | none => ctx
  | some result =>
      match result.Claims, result.User with
      | some claims, _ => { ctx with UserClaims := some claims, UserID := claims.UserID }
      | none, some user => SetUserInContext ctx user result.AccessToken
      | none, none => ctx

/-- The interceptor before a procedure: the context that the procedure runs with. -/
def Authenticator.WrapUnary (a : Authenticator) (procedure authHeader : String) :
    Except Failure RequestContext :=
  let result := a.Authenticate authHeader
  if result.isNone ∧ !IsPublicMethod procedure then
    .error (.status .Unauthenticated "authentication required")
  else .ok (ApplyToContext {} result)

/-- The middleware before a handler of the gateway, which refuses a request only if the context
names a method that is not public. -/
def Authenticator.gatewayAuthMiddleware (a : Authenticator) (rpcMethod : Option String)
    (authHeader : String) : Except (ℕ × String) RequestContext :=
  let result := a.Authenticate authHeader
  if result.isNone ∧ rpcMethod.any fun method => !IsPublicMethod method then
    .error (401, "\x7b\"code\": 16, \"message\": \"authentication required\"\x7d")
  else .ok (ApplyToContext {} result)

/-- A request comes by Connect, or by the gateway, where its context may name the method. -/
inductive Entrance where
  | connect
  | gateway (rpcMethod : Option String)
deriving DecidableEq, Repr

/-- The context that a procedure runs with, if the request is let in. -/
def Authenticator.enter (a : Authenticator) (entrance : Entrance) (procedure authHeader : String) :
    Option RequestContext :=
  match entrance with
  | .connect => (a.WrapUnary procedure authHeader).toOption
  | .gateway rpcMethod => (a.gatewayAuthMiddleware rpcMethod authHeader).toOption

/-! ## What is accepted -/

private theorem splitSign_toDigits (n : ℕ) :
    splitSign (Nat.toDigits 10 n) = (false, Nat.toDigits 10 n) := by
  have hdigit : ∀ c ∈ Nat.toDigits 10 n, c.isDigit = true := fun c hc =>
    Nat.isDigit_of_mem_toDigits (by decide) (by decide) hc
  generalize Nat.toDigits 10 n = digits at hdigit
  cases digits with
  | nil => rfl
  | cons c rest =>
      have hc := hdigit c List.mem_cons_self
      unfold splitSign
      split
      · rename_i heq
        rw [(List.cons.inj heq).1] at hc
        exact absurd hc (by decide)
      · rename_i heq
        rw [(List.cons.inj heq).1] at hc
        exact absurd hc (by decide)
      · rfl

/-- The sign and the digits of the decimal text of a number. -/
theorem splitSign_toString (id : ℤ) :
    splitSign (toString id).toList = (decide (id < 0), Nat.toDigits 10 id.natAbs) := by
  cases id with
  | ofNat n =>
      have htext : (toString (Int.ofNat n)).toList = Nat.toDigits 10 n := by
        change (toString n).toList = _
        simp
      rw [htext, splitSign_toDigits]
      simp
  | negSucc n =>
      have htext : (toString (Int.negSucc n)).toList = '-' :: Nat.toDigits 10 (n + 1) := by
        change ("-" ++ toString (n + 1)).toList = _
        simp
      rw [htext]
      simp [splitSign, Int.negSucc_lt_zero]

/-- The decimal text of a number stands for it. -/
theorem ConvertStringToInt32_toString {quote : String → String} {id value : ℤ}
    (h : ConvertStringToInt32 quote (toString id) = .ok value) : value = id := by
  rw [ConvertStringToInt32, splitSign_toString] at h
  dsimp only at h
  split at h
  · cases h
  · rw [Nat.ofDigitChars_ten_toDigits] at h
    by_cases hneg : id < 0
    · simp only [decide_eq_true hneg, if_true] at h
      split at h
      · rw [← Except.ok.inj h]
        omega
      · cases h
    · simp only [decide_eq_false hneg, Bool.false_eq_true, if_false] at h
      split at h
      · rw [← Except.ok.inj h]
        omega
      · cases h

/-- A step of a sequence that completes. -/
theorem ok_of_bind {α β : Type} {x : Except String α} {f : α → Except String β} {b : β}
    (h : (x >>= f) = .ok b) : ∃ a, x = .ok a ∧ f a = .ok b := by
  cases x with
  | error err => cases h
  | ok value => exact ⟨value, rfl, h⟩

theorem ok_of_wrap {α : Type} {message : String} {x : Except String α} {value : α}
    (h : wrap message x = .ok value) : x = .ok value := by
  cases x with
  | error err => cases h
  | ok found => exact h

/-- A token that is parsed was signed, has not expired and is of its type. -/
theorem JWT.parseToken_ok {jwt : JWT} {audience type token : String} {now : ℤ}
    {claims : TokenClaims} (h : jwt.parseToken audience type now token = .ok claims) :
    jwt.parse token = .ok claims ∧ claims.TokenType = type ∧ ∀ e ∈ claims.ExpiresAt, now < e := by
  rw [JWT.parseToken] at h
  rcases ok_of_bind h with ⟨found, hparse, hrest⟩
  rcases ok_of_bind hrest with ⟨_, hvalid, htype⟩
  split at htype
  · rename_i hsame
    rcases Except.ok.inj htype
    exact ⟨hparse, hsame, jwt.validate_ok hvalid⟩
  · cases htype

namespace Authenticator

variable {a : Authenticator}

/-- A signed token of a type that has not expired, for a user who is stored and not archived. -/
structure Signed (a : Authenticator) (type token : String) (user : User) (claims : TokenClaims) :
    Prop where
  parse : a.jwt.parse token = .ok claims
  type : claims.TokenType = type
  expiresAt : ∀ e ∈ claims.ExpiresAt, a.now < e
  found : ∃ id, ConvertStringToInt32 a.quote claims.Subject = .ok id ∧
    a.store.GetUser id = .ok (some user)
  active : user.RowStatus ≠ .ARCHIVED

/-- A personal access token that is stored and has not expired, of a user who is not archived. -/
structure HoldsPAT (a : Authenticator) (token : String) (user : User) (pat : StoredPAT) : Prop where
  stored : a.store.GetUserByPATHash (a.HashPersonalAccessToken token) = .ok (user, pat)
  expiresAt : ∀ e ∈ pat.expiresAt, a.now ≤ e
  active : user.RowStatus ≠ .ARCHIVED

theorem AuthenticateByPAT_ok {token : String} {user : User} {pat : StoredPAT}
    (h : a.AuthenticateByPAT token = .ok (user, pat)) : a.HoldsPAT token user pat := by
  rw [AuthenticateByPAT] at h
  split at h
  · cases h
  · rcases ok_of_bind h with ⟨⟨owner, found⟩, hstored, hrest⟩
    dsimp only at hrest
    split at hrest
    · cases hrest
    · rename_i hexpired
      split at hrest
      · cases hrest
      · rename_i hactive
        rcases Prod.mk.inj (Except.ok.inj hrest) with ⟨rfl, rfl⟩
        refine ⟨ok_of_wrap hstored, fun e he => ?_, hactive⟩
        by_contra hlt
        refine hexpired ?_
        rw [Option.mem_def.mp he]
        simpa using Int.not_le.mp hlt

theorem AuthenticateByAccessTokenV2_ok {token : String} {userClaims : UserClaims}
    (h : a.AuthenticateByAccessTokenV2 token = .ok userClaims) : ∃ claims,
      a.jwt.parse token = .ok claims ∧ claims.TokenType = "access" ∧
        (∀ e ∈ claims.ExpiresAt, a.now < e) ∧
        ConvertStringToInt32 a.quote claims.Subject = .ok userClaims.UserID := by
  rcases ok_of_bind h with ⟨claims, hparse, hrest⟩
  rcases ok_of_bind hrest with ⟨id, hid, hlast⟩
  rcases Except.ok.inj hlast
  rcases JWT.parseToken_ok (ok_of_wrap hparse) with ⟨hclaims, htype, hexpires⟩
  exact ⟨claims, hclaims, htype, hexpires, ok_of_wrap hid⟩

theorem AuthenticateByRefreshToken_ok {token tokenID : String} {user : User}
    (h : a.AuthenticateByRefreshToken token = .ok (user, tokenID)) :
    ∃ claims, a.Signed "refresh" token user claims := by
  rcases ok_of_bind h with ⟨claims, hparse, hrest⟩
  rcases ok_of_bind hrest with ⟨id, hid, hstored⟩
  rcases ok_of_bind hstored with ⟨stored, -, hfound⟩
  cases stored with
  | none => cases hfound
  | some stored =>
      dsimp only at hfound
      split at hfound
      · cases hfound
      · rcases ok_of_bind hfound with ⟨found, huser, hlast⟩
        cases found with
        | none => cases hlast
        | some found =>
            dsimp only at hlast
            split at hlast
            · cases hlast
            · rename_i hactive
              rcases (Prod.mk.inj (Except.ok.inj hlast)).1
              rcases JWT.parseToken_ok (ok_of_wrap hparse) with ⟨hclaims, htype, hexpires⟩
              exact ⟨claims, hclaims, htype, hexpires, ⟨id, ok_of_wrap hid, ok_of_wrap huser⟩,
                hactive⟩

/-- The credential of an API request that is authenticated. -/
theorem Authenticate_some {authHeader : String} {result : AuthResult}
    (h : a.Authenticate authHeader = some result) : ∃ user,
      ((∃ claims, a.Signed "access" (ExtractBearerToken authHeader) user claims ∧
          a.store.GetUser (ApplyToContext {} (some result)).UserID = .ok (some user)) ∨
        ∃ pat, a.HoldsPAT (ExtractBearerToken authHeader) user pat ∧
          (ApplyToContext {} (some result)).UserID = user.ID) := by
  rw [Authenticate] at h
  split at h
  · cases hclaims : a.AuthenticateByAccessTokenV2 (ExtractBearerToken authHeader) with
    | error err =>
        rw [hclaims] at h
        cases h
    | ok claims =>
        rw [hclaims] at h
        dsimp only at h
        rcases AuthenticateByAccessTokenV2_ok hclaims with ⟨found, hparse, htype, hexpires, hid⟩
        rcases hget : a.store.GetUser claims.UserID with err | _ | user
        · rw [hget] at h
          cases h
        · rw [hget] at h
          cases h
        · rw [hget] at h
          dsimp only at h
          split at h
          · cases h
          · rename_i hactive
            rcases Option.some.inj h
            exact ⟨user, .inl ⟨found, ⟨hparse, htype, hexpires, ⟨_, hid, hget⟩, hactive⟩, hget⟩⟩
  · split at h
    · rcases hpat : a.AuthenticateByPAT (ExtractBearerToken authHeader) with err | ⟨user, pat⟩
      · rw [hpat] at h
        cases h
      · rw [hpat] at h
        rcases Option.some.inj h
        refine ⟨user, .inr ⟨pat, AuthenticateByPAT_ok hpat, ?_⟩⟩
        rw [ApplyToContext]
        dsimp only
        rw [SetUserInContext]
        split <;> rfl
    · cases h

/-- The credential of a request for a file that comes from a user. -/
theorem AuthenticateToUser_some {authHeader cookieHeader : String} {user : User}
    (h : a.AuthenticateToUser authHeader cookieHeader = .ok (some user)) :
    (∃ claims, a.Signed "access" (ExtractBearerToken authHeader) user claims) ∨
      (∃ pat, a.HoldsPAT (ExtractBearerToken authHeader) user pat) ∨
      ∃ claims, a.Signed "refresh" (ExtractRefreshTokenFromCookie cookieHeader) user claims := by
  -- The cookie is asked when the header has no valid token.
  have hfallback : (if ExtractRefreshTokenFromCookie cookieHeader ≠ "" then
      (a.AuthenticateByRefreshToken (ExtractRefreshTokenFromCookie cookieHeader)).map
        fun found => some found.1
      else .ok none) = .ok (some user) →
      ∃ claims, a.Signed "refresh" (ExtractRefreshTokenFromCookie cookieHeader) user claims := by
    intro hcookie
    split at hcookie
    · rcases hfound : a.AuthenticateByRefreshToken (ExtractRefreshTokenFromCookie cookieHeader) with
        err | ⟨found, tokenID⟩
      · rw [hfound] at hcookie
        cases hcookie
      · rw [hfound] at hcookie
        rcases Option.some.inj (Except.ok.inj hcookie)
        exact AuthenticateByRefreshToken_ok hfound
    · cases hcookie
  rw [AuthenticateToUser] at h
  split at h
  · exact .inr (.inr (hfallback h))
  · split at h
    · cases hclaims : a.AuthenticateByAccessTokenV2 (ExtractBearerToken authHeader) with
      | error err =>
          rw [hclaims] at h
          exact .inr (.inr (hfallback h))
      | ok claims =>
          rw [hclaims] at h
          dsimp only at h
          rcases AuthenticateByAccessTokenV2_ok hclaims with ⟨found, hparse, htype, hexpires, hid⟩
          rcases hget : a.store.GetUser claims.UserID with err | _ | stored
          · rw [hget] at h
            cases h
          · rw [hget] at h
            cases h
          · rw [hget] at h
            dsimp only at h
            split at h
            · cases h
            · rename_i hactive
              rcases Option.some.inj (Except.ok.inj h)
              exact .inl ⟨found, hparse, htype, hexpires, ⟨_, hid, hget⟩, hactive⟩
    · rcases hpat : a.AuthenticateByPAT (ExtractBearerToken authHeader) with err | ⟨owner, pat⟩
      · rw [hpat] at h
        exact .inr (.inr (hfallback h))
      · rw [hpat] at h
        rcases Option.some.inj (Except.ok.inj h)
        exact .inr (.inl ⟨pat, AuthenticateByPAT_ok hpat⟩)

/-- A procedure that is not public runs only for a request that is authenticated. -/
theorem WrapUnary_ok {procedure authHeader : String} {ctx : RequestContext}
    (hprocedure : IsPublicMethod procedure = false)
    (h : a.WrapUnary procedure authHeader = .ok ctx) : ∃ result,
      a.Authenticate authHeader = some result ∧ ctx = ApplyToContext {} (some result) := by
  rw [WrapUnary] at h
  cases hresult : a.Authenticate authHeader with
  | none =>
      rw [hresult, hprocedure] at h
      cases h
  | some result =>
      rw [hresult] at h
      exact ⟨result, rfl, (Except.ok.inj h).symm⟩

/-- A request without credentials runs behind the gateway unless its context names a method that is
not public. -/
theorem gatewayAuthMiddleware_ok_iff {rpcMethod : Option String} {authHeader : String}
    {ctx : RequestContext} :
    a.gatewayAuthMiddleware rpcMethod authHeader = .ok ctx ↔
      ((a.Authenticate authHeader).isSome = true ∨
        ∀ method ∈ rpcMethod, IsPublicMethod method = true) ∧
      ctx = ApplyToContext {} (a.Authenticate authHeader) := by
  have hrefused : ((a.Authenticate authHeader).isNone = true ∧
      (rpcMethod.any fun method => !IsPublicMethod method) = true) ↔
      ¬ ((a.Authenticate authHeader).isSome = true ∨
        ∀ method ∈ rpcMethod, IsPublicMethod method = true) := by
    cases a.Authenticate authHeader <;> cases rpcMethod <;> simp
  rw [gatewayAuthMiddleware]
  split
  · rename_i hnone
    constructor
    · intro h
      cases h
    · intro h
      exact absurd h.1 (hrefused.mp hnone)
  · rename_i hsome
    rw [hrefused, not_not] at hsome
    constructor
    · intro h
      exact ⟨hsome, (Except.ok.inj h).symm⟩
    · intro h
      rw [h.2]

/-- Every entrance leaves the context of the authentication. -/
theorem enter_some {entrance : Entrance} {procedure authHeader : String} {ctx : RequestContext}
    (h : a.enter entrance procedure authHeader = some ctx) :
    ctx = ApplyToContext {} (a.Authenticate authHeader) := by
  cases entrance with
  | connect =>
      rw [enter, WrapUnary] at h
      split at h
      · cases h
      · exact (Option.some.inj h).symm
  | gateway rpcMethod =>
      rw [enter] at h
      cases hgate : a.gatewayAuthMiddleware rpcMethod authHeader with
      | error err =>
          rw [hgate] at h
          cases h
      | ok found =>
          rw [hgate] at h
          rcases Option.some.inj h
          exact (gatewayAuthMiddleware_ok_iff.mp hgate).2

end Authenticator

end Auth
end MemosNote
