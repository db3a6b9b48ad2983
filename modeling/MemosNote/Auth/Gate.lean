import MemosNote.Auth.Authenticator
import MemosNote.Auth.RefreshRotation

/-!
# Credentials and the gates

Users sign in, renew their tokens, and create and delete personal access tokens, whose list is
changed by a read and an upsert.  Administrators archive and delete users.  All this goes on while
requests present credentials.

Main results:

- Structure {lit}`SiteInv` and Theorem {lit}`siteInv_step`: where every signed token and every
  stored personal access token come from.
- Theorem {lit}`requests_authenticated`: whoever gets past the gates as a user is one, has signed in
  and presents a credential that still counts.
-/

namespace MemosNote
namespace Auth

open Library Store
open Api (StatusCode Failure MemoService)

/-- The libraries for tokens, quoted texts and hashes. -/
structure Libraries where
  jwt : JWT
  quote : String → String
  HashPersonalAccessToken : String → String

/-! ## Operations on personal access tokens -/

/-- The operations on the list of a user. -/
inductive PATOp where
  | addUserPersonalAccessToken (pat : StoredPAT)
  | removeUserPersonalAccessToken (tokenID : String)
  | updatePATLastUsed (tokenID : String) (lastUsed : ℤ)
deriving DecidableEq, Repr

/-- The list with a new time for the first token with an identifier. -/
def withLastUsed (tokenID : String) (lastUsed : ℤ) : List StoredPAT → List StoredPAT
  | [] => []
  | pat :: pats =>
      if pat.tokenId = tokenID then { pat with lastUsedAt := some lastUsed } :: pats
      else pat :: withLastUsed tokenID lastUsed pats

/-- The list that an operation upserts. -/
def PATOp.apply : PATOp → List StoredPAT → List StoredPAT
  | addUserPersonalAccessToken pat => addToken pat
  | removeUserPersonalAccessToken tokenID => removeToken StoredPAT.tokenId tokenID
  | updatePATLastUsed tokenID lastUsed => withLastUsed tokenID lastUsed

/-- A token keeps its identifier and its hash when it has been used. -/
theorem mem_withLastUsed {tokenID : String} {lastUsed : ℤ} {pats : List StoredPAT} {pat : StoredPAT}
    (h : pat ∈ withLastUsed tokenID lastUsed pats) :
    ∃ old ∈ pats, old.tokenId = pat.tokenId ∧ old.tokenHash = pat.tokenHash := by
  induction pats with
  | nil => cases h
  | cons first pats ih =>
      rw [withLastUsed] at h
      split at h
      · rcases List.mem_cons.mp h with rfl | h
        · exact ⟨first, List.mem_cons_self, rfl, rfl⟩
        · exact ⟨pat, List.mem_cons_of_mem _ h, rfl, rfl⟩
      · rcases List.mem_cons.mp h with rfl | h
        · exact ⟨pat, List.mem_cons_self, rfl, rfl⟩
        · rcases ih h with ⟨old, hold, hsame⟩
          exact ⟨old, List.mem_cons_of_mem _ hold, hsame⟩

/-- What an upserted list holds: a new token, or one that was there and is not removed. -/
theorem PATOp.mem_apply {op : PATOp} {pats : List StoredPAT} {pat : StoredPAT}
    (h : pat ∈ op.apply pats) :
    op = .addUserPersonalAccessToken pat ∨
      op ≠ .removeUserPersonalAccessToken pat.tokenId ∧
        ∃ old ∈ pats, old.tokenId = pat.tokenId ∧ old.tokenHash = pat.tokenHash := by
  cases op with
  | addUserPersonalAccessToken new =>
      rcases List.mem_append.mp h with h | h
      · exact .inr ⟨by simp, pat, h, rfl, rfl⟩
      · rw [List.mem_singleton.mp h]
        exact .inl rfl
  | removeUserPersonalAccessToken tokenID =>
      rcases List.mem_filter.mp h with ⟨hmem, hne⟩
      refine .inr ⟨fun hop => ?_, pat, hmem, rfl, rfl⟩
      exact of_decide_eq_true hne (PATOp.removeUserPersonalAccessToken.inj hop).symm
  | updatePATLastUsed tokenID lastUsed =>
      exact .inr ⟨by simp, mem_withLastUsed h⟩

/-! ## The site -/

/-- The tables with what authentication needs, the operations on tokens under way, and a ghost
history: what was signed, who has signed in, which personal access tokens were created for whom and
which were revoked. -/
structure Site where
  now : ℤ
  db : Database (List StoredPAT)
  userSequence : ℤ
  refreshTokens : ℤ → List RefreshToken := fun _ => []
  pending : ℕ → Option (ℤ × PATOp × List StoredPAT) := fun _ => none
  signed : List TokenClaims := []
  signedIn : List ℤ := []
  tokenIDs : List String := []
  created : List (ℤ × String × String) := []
  revoked : List (ℤ × String) := []

/-- What happens; requests come with their headers. -/
inductive SiteEvent where
  | tick (seconds : ℕ)
  | createUser (create : User)
  | updateUser (update : UpdateUser)
  | deleteUser (id : ℤ)
  | signIn (id : ℤ) (tokenID : String)
  | refresh (refreshToken tokenID : String)
  /-- The list of refresh tokens of a user changes in any way. -/
  | setRefreshTokens (id : ℤ) (tokens : List RefreshToken)
  | createPAT (p : ℕ) (entrance : Entrance) (authHeader : String) (userID : ℤ) (token tokenID : String)
      (expiresAt : Option ℤ)
  | deletePAT (p : ℕ) (entrance : Entrance) (authHeader : String) (userID : ℤ) (tokenID : String)
  | usePAT (p : ℕ) (userID : ℤ) (tokenID : String)
  /-- The upsert of an operation that has read the list. -/
  | upsert (p : ℕ)

/-- Only the user, or an administrator where they are allowed. -/
def authorizeUserResourceAccess (svc : MemoService) (userID : ℤ) (allowAdmin : Bool) :
    Except Failure User :=
  match svc.fetchCurrentUser with
  | .error err => .error (.status .Internal ("failed to get current user: " ++ err))
  | .ok none => .error (.status .Unauthenticated "user not authenticated")
  | .ok (some currentUser) =>
      if currentUser.ID = userID ∨ allowAdmin ∧ currentUser.Role = .ADMIN then .ok currentUser
      else .error (.status .PermissionDenied "permission denied")

namespace Site

variable (lib : Libraries) (base : MemoService) (s : Site)

/-- The personal access tokens of a user. -/
def pats (id : ℤ) : List StoredPAT :=
  (s.db.userSetting? id .PERSONAL_ACCESS_TOKENS).elim [] UserSetting.Value

/-- The first row with a token of the hash, its first such token and its user. -/
def GetUserByPATHash (tokenHash : String) : Except String (User × StoredPAT) :=
  let holds := fun row : UserSetting (List StoredPAT) =>
    row.Key = .PERSONAL_ACCESS_TOKENS ∧ ∃ pat ∈ row.Value, pat.tokenHash = tokenHash
  match s.db.userSettings.find? fun row => holds row with
  | none => .error "sql: no rows in result set"
  | some row =>
      match row.Value.find? fun pat => pat.tokenHash = tokenHash with
      | none => .error "PAT not found"
      | some pat =>
          match s.db.user? row.UserID with
          | none => .error "user not found for PAT"
          | some user => .ok (user, pat)

def store : AuthStore where
  GetUser id := .ok (s.db.user? id)
  GetUserByPATHash := s.GetUserByPATHash
  GetUserRefreshTokenByID id tokenID :=
    .ok ((s.refreshTokens id).find? fun token => token.tokenId = tokenID)

def authenticator : Authenticator where
  store := s.store
  jwt := lib.jwt
  quote := lib.quote
  HashPersonalAccessToken := lib.HashPersonalAccessToken
  now := s.now

/-- The service of a procedure that runs with a context. -/
def service (ctx : RequestContext) : MemoService :=
  { base with contextUserID := ctx.UserID, getUserByID := s.store.GetUser }

/-- A request for a resource of a user is let in and is allowed. -/
def allows (entrance : Entrance) (procedure authHeader : String) (userID : ℤ) : Bool :=
  ((s.authenticator lib).enter entrance procedure authHeader).any fun ctx =>
    (authorizeUserResourceAccess (s.service base ctx) userID false).isOk

/-- The signed tokens of a new session. -/
def sign (user : User) (tokenID : String) : List TokenClaims :=
  [accessTokenClaims user s.now, refreshTokenClaims user tokenID s.now refreshTokenDuration]

/-- Read the list of a user for an operation. -/
def begin (p : ℕ) (userID : ℤ) (op : PATOp) : Option Site :=
  if (s.pending p).isSome then none
  else some { s with pending := Function.update s.pending p (some (userID, op, s.pats userID)) }

/-- The identifiers of the tokens of a list that an operation leaves out. -/
def dropped (op : PATOp) (seen : List StoredPAT) : List String :=
  (seen.filter fun pat => op = .removeUserPersonalAccessToken pat.tokenId).map StoredPAT.tokenId

def step : SiteEvent → Option Site
  | .tick seconds => some { s with now := s.now + seconds }
  | .createUser create =>
      let user := { create with ID := s.userSequence + 1, RowStatus := .NORMAL }
      if h : user.ID ∉ s.db.users.map User.ID ∧ user.Username ∉ s.db.users.map User.Username then
        some { s with
          userSequence := s.userSequence + 1
          db := { s.db with
            users := s.db.users ++ [user]
            users_nodup := by
              rw [List.map_append, List.nodup_append]
              refine ⟨s.db.users_nodup, List.nodup_singleton _, fun a ha b hb => ?_⟩
              rintro rfl
              exact h.1 (List.mem_singleton.mp hb ▸ ha) } }
      else none
  | .updateUser update => (s.db.updateUser update).map fun result => { s with db := result.2 }
  | .deleteUser id =>
      some { s with
        db := (s.db.deleteUser id).2
        refreshTokens := Function.update s.refreshTokens id []
        revoked := s.revoked ++ (s.pats id).map fun pat => (id, pat.tokenId) }
  | .signIn id tokenID =>
      match s.db.user? id with
      | none => none
      | some user =>
          if user.RowStatus = .ARCHIVED then none
          else some { s with
            signed := s.signed ++ s.sign user tokenID
            signedIn := s.signedIn ++ [user.ID] }
  | .refresh refreshToken tokenID =>
      match (s.authenticator lib).AuthenticateByRefreshToken refreshToken with
      | .error _ => none
      | .ok (user, _) => some { s with signed := s.signed ++ s.sign user tokenID }
  | .setRefreshTokens id tokens =>
      some { s with refreshTokens := Function.update s.refreshTokens id tokens }
  | .createPAT p entrance authHeader userID token tokenID expiresAt =>
      if s.allows lib base entrance "/memos.api.v1.UserService/CreatePersonalAccessToken" authHeader
          userID = true ∧ tokenID ∉ s.tokenIDs then
        (s.begin p userID (.addUserPersonalAccessToken {
          tokenId := tokenID
          tokenHash := lib.HashPersonalAccessToken token
          expiresAt := expiresAt })).map fun t =>
            { t with
              tokenIDs := t.tokenIDs ++ [tokenID]
              created := t.created ++ [(userID, tokenID, token)] }
      else none
  | .deletePAT p entrance authHeader userID tokenID =>
      if s.allows lib base entrance "/memos.api.v1.UserService/DeletePersonalAccessToken" authHeader
          userID = true then
        s.begin p userID (.removeUserPersonalAccessToken tokenID)
      else none
  | .usePAT p userID tokenID => s.begin p userID (.updatePATLastUsed tokenID s.now)
  | .upsert p =>
      match s.pending p with
      | none => none
      | some (userID, op, seen) =>
          some { s with
            db := s.db.upsertUserSetting ⟨userID, .PERSONAL_ACCESS_TOKENS, op.apply seen⟩
            pending := Function.update s.pending p none
            revoked := s.revoked ++ (dropped op seen).map fun tokenID => (userID, tokenID) }

/-- A token with a valid signature was signed by the server. -/
def Unforged (token : String) : Prop :=
  ∀ claims, lib.jwt.parse token = .ok claims → claims ∈ s.signed

/-- Nobody forges a signature, and upserts go over the list that they have read. -/
def Trusted : SiteEvent → Prop
  | .refresh refreshToken _ => s.Unforged lib refreshToken
  | .createPAT _ _ authHeader _ _ _ _ => s.Unforged lib (ExtractBearerToken authHeader)
  | .deletePAT _ _ authHeader _ _ => s.Unforged lib (ExtractBearerToken authHeader)
  | .upsert p => ∀ userID op seen, s.pending p = some (userID, op, seen) → seen = s.pats userID
  | _ => True

/-! ## What the site knows -/

/-- A user has a personal access token. -/
def Stored (userID : ℤ) (pat : StoredPAT) : Prop :=
  ∃ row ∈ s.db.userSettings, row.UserID = userID ∧ pat ∈ row.Value

/-- The user has signed in and created the token. -/
def Origin (userID : ℤ) (pat : StoredPAT) : Prop :=
  userID ∈ s.signedIn ∧ ∃ token, (userID, pat.tokenId, token) ∈ s.created ∧
    pat.tokenHash = lib.HashPersonalAccessToken token

end Site

/-- Where signed tokens and stored personal access tokens come from. -/
structure SiteInv (lib : Libraries) (s : Site) : Prop where
  sequence : 0 ≤ s.userSequence
  ids : ∀ user ∈ s.db.users, 0 < user.ID ∧ user.ID ≤ s.userSequence
  signed : ∀ claims ∈ s.signed, ∃ id ∈ s.signedIn, claims.Subject = toString id ∧
    claims.IssuedAt ≤ s.now ∧ (claims.TokenType = "access" →
      claims.ExpiresAt = some (claims.IssuedAt + AccessTokenDuration))
  keys : ∀ row ∈ s.db.userSettings, row.Key = .PERSONAL_ACCESS_TOKENS
  stored : ∀ userID pat, s.Stored userID pat →
    s.Origin lib userID pat ∧ (userID, pat.tokenId) ∉ s.revoked
  adding : ∀ p userID pat seen,
    s.pending p = some (userID, .addUserPersonalAccessToken pat, seen) →
      s.Origin lib userID pat ∧ (userID, pat.tokenId) ∉ s.revoked ∧
        ∀ owner other, s.Stored owner other → other.tokenId ≠ pat.tokenId
  adding_inj : ∀ p q userID owner pat other seen seen',
    s.pending p = some (userID, .addUserPersonalAccessToken pat, seen) →
      s.pending q = some (owner, .addUserPersonalAccessToken other, seen') →
        pat.tokenId = other.tokenId → p = q
  created : ∀ entry ∈ s.created, entry.2.1 ∈ s.tokenIDs
  revoked : ∀ entry ∈ s.revoked, entry.2 ∈ s.tokenIDs

/-- Who is let in with a token: a user who is stored and not archived and has signed in.  The token
was signed for the user and has not expired, or the user has created it and it is not revoked. -/
structure Accepted (lib : Libraries) (s : Site) (token : String) (user : User) : Prop where
  stored : s.db.user? user.ID = some user
  active : user.RowStatus ≠ .ARCHIVED
  signedIn : user.ID ∈ s.signedIn
  credential :
    (∃ claims ∈ s.signed, lib.jwt.parse token = .ok claims ∧ claims.Subject = toString user.ID ∧
      claims.IssuedAt ≤ s.now ∧ s.now < claims.IssuedAt + AccessTokenDuration) ∨
    ∃ tokenID created, (user.ID, tokenID, created) ∈ s.created ∧
      lib.HashPersonalAccessToken token = lib.HashPersonalAccessToken created ∧
      (user.ID, tokenID) ∉ s.revoked

section

variable {lib : Libraries} {base : MemoService} {s t : Site}

/-- A signed token names its user. -/
theorem SiteInv.of_signed (h : SiteInv lib s) {type token : String} {user : User}
    {claims : TokenClaims} (hsigned : (s.authenticator lib).Signed type token user claims)
    (hunforged : s.Unforged lib token) :
    s.db.user? user.ID = some user ∧ user.ID ∈ s.signedIn ∧ claims ∈ s.signed ∧
      claims.Subject = toString user.ID := by
  have hmem := hunforged claims hsigned.parse
  rcases h.signed claims hmem with ⟨id, hid, hsubject, -⟩
  rcases hsigned.found with ⟨value, hvalue, hget⟩
  rw [hsubject] at hvalue
  rcases ConvertStringToInt32_toString hvalue
  have hrow : s.db.user? id = some user := Except.ok.inj hget
  rcases Database.ID_of_user? hrow
  exact ⟨hrow, hid, hmem, hsubject⟩

theorem SiteInv.accepted_of_signed (h : SiteInv lib s) {token : String} {user : User}
    {claims : TokenClaims} (hsigned : (s.authenticator lib).Signed "access" token user claims)
    (hunforged : s.Unforged lib token) : Accepted lib s token user := by
  rcases h.of_signed hsigned hunforged with ⟨hrow, hin, hmem, hsubject⟩
  rcases h.signed claims hmem with ⟨-, -, -, hissued, hexpires⟩
  have hlater := hsigned.expiresAt _ (hexpires hsigned.type)
  exact ⟨hrow, hsigned.active, hin,
    .inl ⟨claims, hmem, hsigned.parse, hsubject, hissued, hlater⟩⟩

theorem SiteInv.accepted_of_holdsPAT (h : SiteInv lib s) {token : String} {user : User}
    {pat : StoredPAT} (hholds : (s.authenticator lib).HoldsPAT token user pat) :
    Accepted lib s token user := by
  have hstored : s.GetUserByPATHash (lib.HashPersonalAccessToken token) = .ok (user, pat) :=
    hholds.stored
  rw [Site.GetUserByPATHash] at hstored
  dsimp only at hstored
  split at hstored
  · cases hstored
  · rename_i row hrow
    split at hstored
    · cases hstored
    · rename_i found hfound
      split at hstored
      · cases hstored
      · rename_i owner howner
        rcases Prod.mk.inj (Except.ok.inj hstored) with ⟨rfl, rfl⟩
        have hID := Database.ID_of_user? howner
        have hhash : found.tokenHash = lib.HashPersonalAccessToken token := by
          simpa using List.find?_some hfound
        have hkept := h.stored owner.ID found
          ⟨row, List.mem_of_find?_eq_some hrow, hID.symm, List.mem_of_find?_eq_some hfound⟩
        rcases hkept with ⟨⟨hin, created, hcreated, hcreatedHash⟩, hrevoked⟩
        refine ⟨hID ▸ howner, hholds.active, hin, .inr ⟨_, created, hcreated, ?_, hrevoked⟩⟩
        exact hhash.symm.trans hcreatedHash

/-- A request that is authenticated comes from a user who is let in with its token. -/
theorem SiteInv.accepted (h : SiteInv lib s) (base : MemoService) {authHeader : String}
    {result : AuthResult} (hunforged : s.Unforged lib (ExtractBearerToken authHeader))
    (hresult : (s.authenticator lib).Authenticate authHeader = some result) :
    ∃ user, Accepted lib s (ExtractBearerToken authHeader) user ∧
      user.ID = (ApplyToContext {} (some result)).UserID ∧
      (s.service base (ApplyToContext {} (some result))).fetchCurrentUser = .ok (some user) := by
  have haccepted : ∃ user, Accepted lib s (ExtractBearerToken authHeader) user ∧
      user.ID = (ApplyToContext {} (some result)).UserID := by
    rcases Authenticator.Authenticate_some hresult with
      ⟨user, ⟨claims, hsigned, hget⟩ | ⟨pat, hholds, hid⟩⟩
    · have hrow : s.db.user? (ApplyToContext {} (some result)).UserID = some user :=
        Except.ok.inj hget
      exact ⟨user, h.accepted_of_signed hsigned hunforged, Database.ID_of_user? hrow⟩
    · exact ⟨user, h.accepted_of_holdsPAT hholds, hid.symm⟩
  rcases haccepted with ⟨user, haccept, hid⟩
  refine ⟨user, haccept, hid, ?_⟩
  have hpos := (h.ids user (List.mem_of_find?_eq_some haccept.stored)).1
  have hget : (s.service base (ApplyToContext {} (some result))).getUserByID user.ID =
      .ok (some user) := by
    change Except.ok (s.db.user? user.ID) = _
    rw [haccept.stored]
  have hcontext : (s.service base (ApplyToContext {} (some result))).contextUserID = user.ID :=
    hid.symm
  rw [MemoService.fetchCurrentUser, hcontext, if_neg hpos.ne', hget]
  dsimp only
  rw [if_neg haccept.active]

/-- A request that is allowed for a user comes from one who has signed in. -/
theorem SiteInv.signedIn_of_allows (h : SiteInv lib s) {entrance : Entrance}
    {procedure authHeader : String} {userID : ℤ}
    (hunforged : s.Unforged lib (ExtractBearerToken authHeader))
    (hallows : s.allows lib base entrance procedure authHeader userID = true) :
    userID ∈ s.signedIn := by
  rcases (Option.any_eq_true _ _).mp hallows with ⟨ctx, henter, hauthorized⟩
  have hctx := Authenticator.enter_some henter
  cases hresult : (s.authenticator lib).Authenticate authHeader with
  | none =>
      -- Without credentials there is no current user.
      rw [hctx, hresult] at hauthorized
      cases hauthorized
  | some result =>
      rcases h.accepted base hunforged hresult with ⟨user, haccept, -, hfetch⟩
      rw [hctx, hresult, authorizeUserResourceAccess, hfetch] at hauthorized
      dsimp only at hauthorized
      split at hauthorized
      · rename_i hsame
        have hid : user.ID = userID := by simpa using hsame
        exact hid ▸ haccept.signedIn
      · cases hauthorized

/-! ## Steps -/

theorem Site.Origin.mono {userID : ℤ} {pat pat' : StoredPAT} (h : s.Origin lib userID pat)
    (hid : pat.tokenId = pat'.tokenId) (hhash : pat.tokenHash = pat'.tokenHash)
    (hsignedIn : s.signedIn ⊆ t.signedIn) (hcreated : s.created ⊆ t.created) :
    t.Origin lib userID pat' := by
  rcases h with ⟨hin, token, hmem, hsame⟩
  exact ⟨hsignedIn hin, token, hid ▸ hcreated hmem, hhash ▸ hsame⟩

/-- A row after an upsert is the new one, or has another key. -/
theorem mem_upserted {V : Type} {upsert row : UserSetting V} {rows : List (UserSetting V)}
    (hnodup : (rows.map fun r => (r.UserID, r.Key)).Nodup)
    (h : row ∈ Database.upserted upsert rows) :
    row = upsert ∨ row ∈ rows ∧ (row.UserID, row.Key) ≠ (upsert.UserID, upsert.Key) := by
  induction rows with
  | nil => exact .inl (List.mem_singleton.mp h)
  | cons first rows ih =>
      rw [List.map_cons, List.nodup_cons] at hnodup
      rw [Database.upserted] at h
      split at h
      · rename_i hkey
        rcases List.mem_cons.mp h with h | h
        · exact .inl h
        · refine .inr ⟨List.mem_cons_of_mem _ h, fun heq => hnodup.1 ?_⟩
          rw [hkey.1, hkey.2, ← heq]
          exact List.mem_map_of_mem h
      · rename_i hkey
        rcases List.mem_cons.mp h with rfl | h
        · refine .inr ⟨List.mem_cons_self, fun heq => hkey ?_⟩
          exact Prod.mk.inj heq
        · exact (ih hnodup.2 h).imp_right fun hold => ⟨List.mem_cons_of_mem _ hold.1, hold.2⟩

theorem Site.stored_of_mem_pats {userID : ℤ} {pat : StoredPAT} (h : pat ∈ s.pats userID) :
    s.Stored userID pat := by
  rw [Site.pats] at h
  cases hrow : s.db.userSetting? userID .PERSONAL_ACCESS_TOKENS with
  | none =>
      rw [hrow] at h
      cases h
  | some row =>
      rw [hrow] at h
      exact ⟨row, List.mem_of_find?_eq_some hrow, (Database.key_of_userSetting? hrow).1, h⟩

/-- A site with other users, another time or more tokens signed for users who have signed in. -/
theorem SiteInv.of_same (h : SiteInv lib s) (hsequence : s.userSequence ≤ t.userSequence)
    (hids : ∀ user ∈ t.db.users, 0 < user.ID ∧ user.ID ≤ t.userSequence)
    (hsigned : ∀ claims ∈ t.signed, ∃ id ∈ t.signedIn, claims.Subject = toString id ∧
      claims.IssuedAt ≤ t.now ∧ (claims.TokenType = "access" →
        claims.ExpiresAt = some (claims.IssuedAt + AccessTokenDuration)))
    (hsettings : t.db.userSettings = s.db.userSettings) (hpending : t.pending = s.pending)
    (hsignedIn : s.signedIn ⊆ t.signedIn) (htokenIDs : t.tokenIDs = s.tokenIDs)
    (hcreated : t.created = s.created) (hrevoked : t.revoked = s.revoked) : SiteInv lib t := by
  have hstored : ∀ userID pat, t.Stored userID pat → s.Stored userID pat := by
    rintro userID pat ⟨row, hrow, hholds⟩
    exact ⟨row, hsettings ▸ hrow, hholds⟩
  have horigin : ∀ {userID pat}, s.Origin lib userID pat → t.Origin lib userID pat :=
    fun horigin => horigin.mono rfl rfl hsignedIn (hcreated ▸ List.Subset.refl _)
  constructor
  · exact h.sequence.trans hsequence
  · exact hids
  · exact hsigned
  · rw [hsettings]
    exact h.keys
  · intro userID pat hpat
    rw [hrevoked]
    exact (h.stored userID pat (hstored _ _ hpat)).imp_left horigin
  · intro p userID pat seen hp
    rw [hpending] at hp
    rw [hrevoked]
    rcases h.adding p userID pat seen hp with ⟨hfrom, hnot, hother⟩
    exact ⟨horigin hfrom, hnot, fun owner other hpat => hother owner other (hstored _ _ hpat)⟩
  · rw [hpending]
    exact h.adding_inj
  · rw [hcreated, htokenIDs]
    exact h.created
  · rw [hrevoked, htokenIDs]
    exact h.revoked

/-- The tokens of a new session are signed for its user. -/
theorem SiteInv.sign (h : SiteInv lib s) {user : User} {tokenID : String} {signedIn : List ℤ}
    (hin : user.ID ∈ signedIn) (hgrows : s.signedIn ⊆ signedIn) :
    ∀ claims ∈ s.signed ++ s.sign user tokenID, ∃ id ∈ signedIn, claims.Subject = toString id ∧
      claims.IssuedAt ≤ s.now ∧ (claims.TokenType = "access" →
        claims.ExpiresAt = some (claims.IssuedAt + AccessTokenDuration)) := by
  intro claims hclaims
  rcases List.mem_append.mp hclaims with hold | hnew
  · rcases h.signed claims hold with ⟨id, hid, hrest⟩
    exact ⟨id, hgrows hid, hrest⟩
  · rcases List.mem_cons.mp hnew with rfl | hnew
    · exact ⟨user.ID, hin, rfl, le_refl _, fun _ => rfl⟩
    · have hrefresh : (refreshTokenClaims user tokenID s.now refreshTokenDuration).TokenType ≠
          "access" := by simp [refreshTokenClaims]
      rw [List.mem_singleton.mp hnew]
      exact ⟨user.ID, hin, rfl, le_refl _, fun htype => absurd htype hrefresh⟩

/-- The rows of users after an update keep their identifiers. -/
theorem SiteInv.ids_updateUser (h : SiteInv lib s) {update : UpdateUser} {user : User}
    {db : Database (List StoredPAT)} (hupdate : s.db.updateUser update = some (user, db)) :
    ∀ row ∈ db.users, 0 < row.ID ∧ row.ID ≤ s.userSequence := by
  rcases Database.updateUser_cases hupdate with ⟨old, -, -, husers, -⟩
  rw [husers]
  intro row hrow
  rcases List.mem_map.mp hrow with ⟨before, hbefore, rfl⟩
  split
  · exact h.ids before hbefore
  · exact h.ids before hbefore

theorem SiteInv.deleteUser (h : SiteInv lib s) (id : ℤ) :
    SiteInv lib { s with
      db := (s.db.deleteUser id).2
      refreshTokens := Function.update s.refreshTokens id []
      revoked := s.revoked ++ (s.pats id).map fun pat => (id, pat.tokenId) } := by
  have hstored : ∀ userID pat, (∃ row ∈ (s.db.deleteUser id).2.userSettings,
      row.UserID = userID ∧ pat ∈ row.Value) → userID ≠ id ∧ s.Stored userID pat := by
    rintro userID pat ⟨row, hrow, rfl, hpat⟩
    rcases List.mem_filter.mp hrow with ⟨hmem, hne⟩
    exact ⟨of_decide_eq_true hne, row, hmem, rfl, hpat⟩
  constructor
  · exact h.sequence
  · exact fun user huser => h.ids user (List.mem_filter.mp huser).1
  · exact h.signed
  · exact fun row hrow => h.keys row (List.mem_filter.mp hrow).1
  · intro userID pat hpat
    rcases hstored userID pat hpat with ⟨hne, hold⟩
    refine ⟨(h.stored userID pat hold).1, fun hmem => ?_⟩
    rcases List.mem_append.mp hmem with hmem | hmem
    · exact (h.stored userID pat hold).2 hmem
    · rcases List.mem_map.mp hmem with ⟨_, -, heq⟩
      exact hne (Prod.mk.inj heq).1.symm
  · intro p userID pat seen hp
    rcases h.adding p userID pat seen hp with ⟨hfrom, hnot, hother⟩
    refine ⟨hfrom, fun hmem => ?_, fun owner other hpat => hother owner other (hstored _ _ hpat).2⟩
    rcases List.mem_append.mp hmem with hmem | hmem
    · exact hnot hmem
    · rcases List.mem_map.mp hmem with ⟨other, hpat, heq⟩
      exact hother id other (Site.stored_of_mem_pats hpat) (Prod.mk.inj heq).2
  · exact h.adding_inj
  · exact h.created
  · intro entry hentry
    rcases List.mem_append.mp hentry with hentry | hentry
    · exact h.revoked entry hentry
    · rcases List.mem_map.mp hentry with ⟨pat, hpat, rfl⟩
      rcases (h.stored id pat (Site.stored_of_mem_pats hpat)).1.2 with ⟨token, hcreated, -⟩
      exact h.created _ hcreated

/-- What is under way after one operation has begun or ended. -/
theorem pending_of_update {pending : ℕ → Option (ℤ × PATOp × List StoredPAT)} {p q : ℕ}
    {entry : Option (ℤ × PATOp × List StoredPAT)} {found : ℤ × PATOp × List StoredPAT}
    (h : Function.update pending p entry q = some found) :
    q = p ∧ entry = some found ∨ q ≠ p ∧ pending q = some found := by
  by_cases hqp : q = p
  · rw [hqp, Function.update_self] at h
    exact .inl ⟨hqp, h⟩
  · rw [Function.update_of_ne hqp] at h
    exact .inr ⟨hqp, h⟩

/-- An operation that adds nothing reads the list. -/
theorem SiteInv.begin (h : SiteInv lib s) {p : ℕ} {userID : ℤ} {op : PATOp}
    (hop : ∀ pat, op ≠ .addUserPersonalAccessToken pat) (hbegin : s.begin p userID op = some t) :
    SiteInv lib t := by
  rw [Site.begin] at hbegin
  split at hbegin
  · cases hbegin
  · rcases Option.some.inj hbegin
    have hpending : ∀ {q owner pat seen}, Function.update s.pending p
        (some (userID, op, s.pats userID)) q =
          some (owner, .addUserPersonalAccessToken pat, seen) →
        s.pending q = some (owner, .addUserPersonalAccessToken pat, seen) := by
      intro q owner pat seen hq
      rcases pending_of_update hq with ⟨-, hq⟩ | ⟨-, hq⟩
      · exact absurd (Prod.mk.inj (Prod.mk.inj (Option.some.inj hq)).2).1 (hop pat)
      · exact hq
    constructor
    · exact h.sequence
    · exact h.ids
    · exact h.signed
    · exact h.keys
    · exact h.stored
    · exact fun q owner pat seen hq => h.adding q owner pat seen (hpending hq)
    · exact fun q r owner owner' pat other seen seen' hq hr =>
        h.adding_inj q r owner owner' pat other seen seen' (hpending hq) (hpending hr)
    · exact h.created
    · exact h.revoked

/-- A new token, whose identifier is drawn anew, is going to be added. -/
theorem SiteInv.createPAT (h : SiteInv lib s) {p : ℕ} {userID : ℤ} {token tokenID : String}
    {expiresAt : Option ℤ} (hin : userID ∈ s.signedIn) (hfresh : tokenID ∉ s.tokenIDs)
    (hbegin : s.begin p userID (.addUserPersonalAccessToken {
      tokenId := tokenID
      tokenHash := lib.HashPersonalAccessToken token
      expiresAt := expiresAt }) = some t) :
    SiteInv lib { t with
      tokenIDs := t.tokenIDs ++ [tokenID]
      created := t.created ++ [(userID, tokenID, token)] } := by
  rw [Site.begin] at hbegin
  split at hbegin
  · cases hbegin
  · rcases Option.some.inj hbegin
    have hold : ∀ {owner pat}, s.Origin lib owner pat → pat.tokenId ∈ s.tokenIDs := by
      rintro owner pat ⟨-, created, hcreated, -⟩
      exact h.created _ hcreated
    have hgrows : s.created ⊆ s.created ++ [(userID, tokenID, token)] :=
      List.subset_append_left _ _
    constructor
    · exact h.sequence
    · exact h.ids
    · exact h.signed
    · exact h.keys
    · exact fun owner pat hpat => (h.stored owner pat hpat).imp_left fun horigin =>
        horigin.mono rfl rfl (List.Subset.refl _) hgrows
    · intro q owner pat seen hq
      rcases pending_of_update hq with ⟨-, hq⟩ | ⟨-, hq⟩
      · rcases Prod.mk.inj (Option.some.inj hq) with ⟨rfl, hrest⟩
        rcases PATOp.addUserPersonalAccessToken.inj (Prod.mk.inj hrest).1
        refine ⟨⟨hin, token, List.mem_append_right _ (List.mem_singleton_self _), rfl⟩,
          fun hmem => hfresh (h.revoked _ hmem), fun other stored hstored heq => hfresh ?_⟩
        have hid : stored.tokenId = tokenID := heq
        exact hid ▸ hold (h.stored other stored hstored).1
      · rcases h.adding q owner pat seen hq with ⟨hfrom, hrest⟩
        exact ⟨hfrom.mono rfl rfl (List.Subset.refl _) hgrows, hrest⟩
    · intro q r owner owner' pat other seen seen' hq hr heq
      rcases pending_of_update hq with ⟨hqp, hq⟩ | ⟨-, hq⟩
      · rcases pending_of_update hr with ⟨hrp, -⟩ | ⟨-, hr⟩
        · rw [hqp, hrp]
        · rcases PATOp.addUserPersonalAccessToken.inj
            (Prod.mk.inj (Prod.mk.inj (Option.some.inj hq)).2).1
          have hid : tokenID = other.tokenId := heq
          exact absurd (hid ▸ hold (h.adding r owner' other seen' hr).1) hfresh
      · rcases pending_of_update hr with ⟨-, hr⟩ | ⟨-, hr⟩
        · rcases PATOp.addUserPersonalAccessToken.inj
            (Prod.mk.inj (Prod.mk.inj (Option.some.inj hr)).2).1
          have hid : pat.tokenId = tokenID := heq
          exact absurd (hid ▸ hold (h.adding q owner pat seen hq).1) hfresh
        · exact h.adding_inj q r owner owner' pat other seen seen' hq hr heq
    · intro entry hentry
      rcases List.mem_append.mp hentry with hentry | hentry
      · exact List.mem_append_left _ (h.created entry hentry)
      · rw [List.mem_singleton.mp hentry]
        exact List.mem_append_right _ (List.mem_singleton_self _)
    · exact fun entry hentry => List.mem_append_left _ (h.revoked entry hentry)

theorem Site.mem_dropped {op : PATOp} {seen : List StoredPAT} {tokenID : String}
    (h : tokenID ∈ Site.dropped op seen) :
    op = .removeUserPersonalAccessToken tokenID ∧ ∃ pat ∈ seen, pat.tokenId = tokenID := by
  rcases List.mem_map.mp h with ⟨pat, hpat, rfl⟩
  rcases List.mem_filter.mp hpat with ⟨hmem, hop⟩
  exact ⟨of_decide_eq_true hop, pat, hmem, rfl⟩

/-- An upsert over the list that was read. -/
theorem SiteInv.upsert (h : SiteInv lib s) {p : ℕ} {userID : ℤ} {op : PATOp}
    (hp : s.pending p = some (userID, op, s.pats userID)) :
    SiteInv lib { s with
      db := s.db.upsertUserSetting ⟨userID, .PERSONAL_ACCESS_TOKENS, op.apply (s.pats userID)⟩
      pending := Function.update s.pending p none
      revoked := s.revoked ++
        (Site.dropped op (s.pats userID)).map fun tokenID => (userID, tokenID) } := by
  have hpending : ∀ {q owner pat seen}, Function.update s.pending p none q =
      some (owner, .addUserPersonalAccessToken pat, seen) →
      q ≠ p ∧ s.pending q = some (owner, .addUserPersonalAccessToken pat, seen) := by
    intro q owner pat seen hq
    rcases pending_of_update hq with ⟨-, hq⟩ | hq
    · cases hq
    · exact hq
  -- A token of the new rows is one that was being added, or was stored and is not dropped.
  have hstored : ∀ owner pat, (∃ row ∈ (s.db.upsertUserSetting
      ⟨userID, .PERSONAL_ACCESS_TOKENS, op.apply (s.pats userID)⟩).userSettings,
        row.UserID = owner ∧ pat ∈ row.Value) →
      (owner = userID ∧ op = .addUserPersonalAccessToken pat) ∨
        (owner = userID → op ≠ .removeUserPersonalAccessToken pat.tokenId) ∧
          ∃ old, s.Stored owner old ∧ old.tokenId = pat.tokenId ∧
            old.tokenHash = pat.tokenHash := by
    rintro owner pat ⟨row, hrow, rfl, hpat⟩
    rcases mem_upserted s.db.userSettings_nodup hrow with rfl | ⟨hmem, hkey⟩
    · rcases PATOp.mem_apply hpat with hadd | ⟨hkept, old, hold, hsame⟩
      · exact .inl ⟨rfl, hadd⟩
      · exact .inr ⟨fun _ => hkept, old, Site.stored_of_mem_pats hold, hsame⟩
    · refine .inr ⟨fun howner => absurd ?_ hkey, pat, ⟨row, hmem, rfl, hpat⟩, rfl, rfl⟩
      rw [howner, h.keys row hmem]
  constructor
  · exact h.sequence
  · exact h.ids
  · exact h.signed
  · intro row hrow
    rcases mem_upserted s.db.userSettings_nodup hrow with rfl | ⟨hmem, -⟩
    · rfl
    · exact h.keys row hmem
  · intro owner pat hpat
    rcases hstored owner pat hpat with ⟨rfl, hadd⟩ | ⟨hkept, old, hold, hid, hhash⟩
    · rcases h.adding p owner pat _ (hadd ▸ hp) with ⟨hfrom, hnot, -⟩
      refine ⟨hfrom, fun hmem => ?_⟩
      rcases List.mem_append.mp hmem with hmem | hmem
      · exact hnot hmem
      · rcases List.mem_map.mp hmem with ⟨tokenID, hdropped, -⟩
        have hremove := (Site.mem_dropped hdropped).1
        rw [hadd] at hremove
        cases hremove
    · rcases h.stored owner old hold with ⟨hfrom, hnot⟩
      refine ⟨hfrom.mono hid hhash (List.Subset.refl _) (List.Subset.refl _), fun hmem => ?_⟩
      rcases List.mem_append.mp hmem with hmem | hmem
      · exact hnot (hid ▸ hmem)
      · rcases List.mem_map.mp hmem with ⟨tokenID, hdropped, heq⟩
        rcases Prod.mk.inj heq with ⟨howner, htoken⟩
        exact hkept howner.symm (htoken ▸ (Site.mem_dropped hdropped).1)
  · intro q owner pat seen hq
    rcases hpending hq with ⟨hqp, hq⟩
    rcases h.adding q owner pat seen hq with ⟨hfrom, hnot, hother⟩
    refine ⟨hfrom, fun hmem => ?_, fun owner' other hpat heq => ?_⟩
    · rcases List.mem_append.mp hmem with hmem | hmem
      · exact hnot hmem
      · rcases List.mem_map.mp hmem with ⟨tokenID, hdropped, htoken⟩
        rcases (Site.mem_dropped hdropped).2 with ⟨old, hold, hid⟩
        exact hother userID old (Site.stored_of_mem_pats hold)
          (hid.trans (Prod.mk.inj htoken).2)
    · rcases hstored owner' other hpat with ⟨-, hadd⟩ | ⟨-, old, hold, hid, -⟩
      · rw [hadd] at hp
        exact hqp (h.adding_inj q p owner userID pat other seen _ hq hp heq.symm)
      · exact hother owner' old hold (hid.trans heq)
  · exact fun q r owner owner' pat other seen seen' hq hr =>
      h.adding_inj q r owner owner' pat other seen seen' (hpending hq).2 (hpending hr).2
  · exact h.created
  · intro entry hentry
    rcases List.mem_append.mp hentry with hentry | hentry
    · exact h.revoked entry hentry
    · rcases List.mem_map.mp hentry with ⟨tokenID, hdropped, rfl⟩
      rcases (Site.mem_dropped hdropped).2 with ⟨pat, hpat, rfl⟩
      rcases (h.stored userID pat (Site.stored_of_mem_pats hpat)).1.2 with ⟨token, hcreated, -⟩
      exact h.created _ hcreated

/-- What a trusted step keeps. -/
theorem siteInv_step (s : Site) (e : SiteEvent) (t : Site) (h : SiteInv lib s)
    (htrusted : s.Trusted lib e) (hstep : s.step lib base e = some t) : SiteInv lib t := by
  have hsubset : ∀ {list : List ℤ}, list ⊆ list := fun {list} => List.Subset.refl list
  cases e with
  | tick seconds =>
      rcases Option.some.inj hstep
      refine h.of_same (le_refl _) h.ids (fun claims hclaims => ?_) rfl rfl hsubset rfl rfl rfl
      rcases h.signed claims hclaims with ⟨id, hid, hsubject, hissued, hexpires⟩
      exact ⟨id, hid, hsubject, by dsimp only; omega, hexpires⟩
  | createUser create =>
      rw [Site.step] at hstep
      dsimp only at hstep
      split at hstep
      · rcases Option.some.inj hstep
        have hsequence := h.sequence
        refine h.of_same (by dsimp only; omega) (fun user huser => ?_) h.signed rfl rfl hsubset rfl
          rfl rfl
        rcases List.mem_append.mp huser with huser | huser
        · have hids := h.ids user huser
          dsimp only
          omega
        · rw [List.mem_singleton.mp huser]
          dsimp only
          omega
      · cases hstep
  | updateUser update =>
      rcases Option.map_eq_some_iff.mp hstep with ⟨⟨user, db⟩, hupdate, rfl⟩
      rcases Database.updateUser_cases hupdate with ⟨-, -, -, -, hsettings⟩
      exact h.of_same (le_refl _) (h.ids_updateUser hupdate) h.signed hsettings rfl hsubset rfl rfl
        rfl
  | deleteUser id =>
      rcases Option.some.inj hstep
      exact h.deleteUser id
  | signIn id tokenID =>
      rw [Site.step] at hstep
      split at hstep
      · cases hstep
      · rename_i user huser
        split at hstep
        · cases hstep
        · rcases Option.some.inj hstep
          have hgrows := List.subset_append_left s.signedIn [user.ID]
          exact h.of_same (le_refl _) h.ids
            (h.sign (List.mem_append_right _ (List.mem_singleton_self _)) hgrows) rfl rfl hgrows rfl
            rfl rfl
  | refresh refreshToken tokenID =>
      rw [Site.step] at hstep
      split at hstep
      · cases hstep
      · rename_i user oldID hvalid
        rcases Option.some.inj hstep
        rcases Authenticator.AuthenticateByRefreshToken_ok hvalid with ⟨claims, hsigned⟩
        have hin := (h.of_signed hsigned htrusted).2.1
        exact h.of_same (le_refl _) h.ids (h.sign hin hsubset) rfl rfl hsubset rfl rfl rfl
  | setRefreshTokens id tokens =>
      rcases Option.some.inj hstep
      exact h.of_same (le_refl _) h.ids h.signed rfl rfl hsubset rfl rfl rfl
  | createPAT p entrance authHeader userID token tokenID expiresAt =>
      rw [Site.step] at hstep
      split at hstep
      · rename_i hallows
        rcases Option.map_eq_some_iff.mp hstep with ⟨u, hbegin, rfl⟩
        have hin := h.signedIn_of_allows htrusted hallows.1
        exact h.createPAT hin hallows.2 hbegin
      · cases hstep
  | deletePAT p entrance authHeader userID tokenID =>
      rw [Site.step] at hstep
      split at hstep
      · exact h.begin (fun pat => by simp) hstep
      · cases hstep
  | usePAT p userID tokenID => exact h.begin (fun pat => by simp) hstep
  | upsert p =>
      rw [Site.step] at hstep
      cases hp : s.pending p with
      | none =>
          rw [hp] at hstep
          cases hstep
      | some found =>
          obtain ⟨userID, op, seen⟩ := found
          rw [hp] at hstep
          rcases Option.some.inj hstep
          have hseen : seen = s.pats userID := htrusted userID op seen hp
          rw [hseen] at hp ⊢
          exact h.upsert hp

/-- Nothing is signed and there are no personal access tokens yet. -/
structure Site.Fresh (s : Site) : Prop where
  sequence : 0 ≤ s.userSequence
  ids : ∀ user ∈ s.db.users, 0 < user.ID ∧ user.ID ≤ s.userSequence
  signed : s.signed = []
  userSettings : s.db.userSettings = []
  pending : ∀ p, s.pending p = none
  created : s.created = []
  revoked : s.revoked = []

private theorem siteInv_fresh (h : s.Fresh) : SiteInv lib s where
  sequence := h.sequence
  ids := h.ids
  signed := by
    rw [h.signed]
    exact fun claims hclaims => absurd hclaims List.not_mem_nil
  keys := by
    rw [h.userSettings]
    exact fun row hrow => absurd hrow List.not_mem_nil
  stored := by
    rintro userID pat ⟨row, hrow, -⟩
    rw [h.userSettings] at hrow
    exact absurd hrow List.not_mem_nil
  adding := fun p userID pat seen hp => by
    rw [h.pending p] at hp
    cases hp
  adding_inj := fun p q userID owner pat other seen seen' hp => by
    rw [h.pending p] at hp
    cases hp
  created := by
    rw [h.created]
    exact fun entry hentry => absurd hentry List.not_mem_nil
  revoked := by
    rw [h.revoked]
    exact fun entry hentry => absurd hentry List.not_mem_nil

/-- **The gates.**  In every run in which nobody forges a signature and every upsert of a list of
personal access tokens goes over the list that was read, whoever runs a procedure that is not public
over Connect is a stored user who is not archived and has signed in, and the token of the request
was signed for this user and has not expired, or was created by this user and is not revoked.
Behind the gateway a procedure runs for such a user or for none; for none it runs unless the context
of the request names a method that is not public.  Files are served to such users as well, who may
also show the refresh token that was signed for them. -/
theorem requests_authenticated {events : List SiteEvent} (hfresh : s.Fresh)
    (hrun : Run (Site.step lib base) (Site.Trusted lib) s events t) :
    (∀ procedure authHeader ctx, IsPublicMethod procedure = false →
      t.Unforged lib (ExtractBearerToken authHeader) →
      (t.authenticator lib).WrapUnary procedure authHeader = .ok ctx →
      ∃ user, Accepted lib t (ExtractBearerToken authHeader) user ∧ user.ID = ctx.UserID ∧
        (t.service base ctx).fetchCurrentUser = .ok (some user)) ∧
    (∀ rpcMethod authHeader, t.Unforged lib (ExtractBearerToken authHeader) →
      match (t.authenticator lib).gatewayAuthMiddleware rpcMethod authHeader with
      | .ok ctx => (∃ user, Accepted lib t (ExtractBearerToken authHeader) user ∧
            user.ID = ctx.UserID ∧ (t.service base ctx).fetchCurrentUser = .ok (some user)) ∨
          (t.service base ctx).fetchCurrentUser = .ok none ∧
            ∀ method ∈ rpcMethod, IsPublicMethod method = true
      | .error _ => ∃ method ∈ rpcMethod, IsPublicMethod method = false) ∧
    ∀ authHeader cookieHeader user, t.Unforged lib (ExtractBearerToken authHeader) →
      t.Unforged lib (ExtractRefreshTokenFromCookie cookieHeader) →
      (t.authenticator lib).AuthenticateToUser authHeader cookieHeader = .ok (some user) →
      Accepted lib t (ExtractBearerToken authHeader) user ∨
        t.db.user? user.ID = some user ∧ user.RowStatus ≠ .ARCHIVED ∧ user.ID ∈ t.signedIn ∧
          ∃ claims ∈ t.signed, lib.jwt.parse (ExtractRefreshTokenFromCookie cookieHeader) =
            .ok claims ∧ claims.Subject = toString user.ID ∧ claims.TokenType = "refresh" := by
  have h : SiteInv lib t := hrun.invariant siteInv_step (siteInv_fresh hfresh)
  refine ⟨?_, ?_, ?_⟩
  · intro procedure authHeader ctx hprocedure hunforged hctx
    rcases Authenticator.WrapUnary_ok hprocedure hctx with ⟨result, hresult, rfl⟩
    exact h.accepted base hunforged hresult
  · intro rpcMethod authHeader hunforged
    split
    · rename_i ctx hctx
      rcases Authenticator.gatewayAuthMiddleware_ok_iff.mp hctx with ⟨hlet, rfl⟩
      cases hresult : (t.authenticator lib).Authenticate authHeader with
      | none =>
          rw [hresult] at hlet
          exact .inr ⟨rfl, hlet.resolve_left (by simp)⟩
      | some result => exact .inl (h.accepted base hunforged hresult)
    · rename_i err herr
      by_contra hpublic
      have hpass : ∀ method ∈ rpcMethod, IsPublicMethod method = true := by
        intro method hmethod
        by_contra hmember
        exact hpublic ⟨method, hmethod, Bool.eq_false_iff.mpr hmember⟩
      have hok : (t.authenticator lib).gatewayAuthMiddleware rpcMethod authHeader = .ok _ :=
        Authenticator.gatewayAuthMiddleware_ok_iff.mpr ⟨.inr hpass, rfl⟩
      rw [herr] at hok
      cases hok
  · intro authHeader cookieHeader user hbearer hcookie huser
    rcases Authenticator.AuthenticateToUser_some huser with
      ⟨claims, hsigned⟩ | ⟨pat, hholds⟩ | ⟨claims, hsigned⟩
    · exact .inl (h.accepted_of_signed hsigned hbearer)
    · exact .inl (h.accepted_of_holdsPAT hholds)
    · rcases h.of_signed hsigned hcookie with ⟨hrow, hin, hmem, hsubject⟩
      exact .inr ⟨hrow, hsigned.active, hin, claims, hmem, hsigned.parse, hsubject, hsigned.type⟩

end

/-! ## One user -/

def ada : User where
  ID := 1
  Username := "ada"

/-- The checks of a library for signed tokens. -/
def validateClaims (issuer audience : String) (now : ℤ) (claims : TokenClaims) :
    Except String Unit :=
  if claims.ExpiresAt.any (· ≤ now) then .error "token has invalid claims: token is expired"
  else if audience ∉ claims.Audience then
    .error "token has invalid claims: token has invalid audience"
  else if claims.Issuer ≠ issuer then .error "token has invalid claims: token has invalid issuer"
  else .ok ()

private theorem validateClaims_ok {issuer audience : String} {now : ℤ} {claims : TokenClaims}
    (h : validateClaims issuer audience now claims = .ok ()) : ∀ e ∈ claims.ExpiresAt, now < e := by
  rw [validateClaims] at h
  split at h
  · cases h
  · rename_i hexpired
    intro e he
    by_contra hle
    refine hexpired ?_
    rw [Option.mem_def.mp he]
    simpa using Int.not_lt.mp hle

/-- Libraries that know one signed token. -/
def adaLibraries : Libraries where
  jwt := {
    SignedString := fun _ => "t"
    parse := fun token => if token = "t" then .ok (accessTokenClaims ada 0)
      else .error "token is malformed"
    validate := validateClaims
    validate_ok := validateClaims_ok }
  quote := fun text => text
  HashPersonalAccessToken := fun token => token

private theorem adaUsers_nodup : ([ada].map User.ID).Nodup := by
  simp

private theorem adaSettings_nodup : (([] : List (UserSetting (List StoredPAT))).map
    fun row => (row.UserID, row.Key)).Nodup := by
  simp

def adaSite : Site where
  now := 0
  db := {
    users := [ada]
    userSettings := []
    users_nodup := adaUsers_nodup
    userSettings_nodup := adaSettings_nodup }
  userSequence := 1

/-- Ada signs in and creates a token. -/
def adaEvents : List SiteEvent :=
  [.signIn 1 "r", .createPAT 0 .connect "Bearer t" 1 "memos_pat_k" "i" none, .upsert 0]

private theorem adaSite_fresh : adaSite.Fresh where
  sequence := by decide
  ids := by decide
  signed := rfl
  userSettings := rfl
  pending := fun p => rfl
  created := rfl
  revoked := rfl

/-- The site after the sign-in. -/
def adaSignedIn : Site :=
  { adaSite with signed := adaSite.sign ada "r", signedIn := [1] }

theorem unforged_of_signed {t : Site} (h : t.signed = adaSignedIn.signed) (token : String) :
    t.Unforged adaLibraries token := by
  intro claims hclaims
  have hparse : (if token = "t" then Except.ok (accessTokenClaims ada 0)
      else .error "token is malformed") = .ok claims := hclaims
  split at hparse
  · rw [← Except.ok.inj hparse, h]
    exact List.mem_cons_self
  · cases hparse

private theorem exists_adaRun : ∃ t, Run (Site.step adaLibraries MemoService.plain)
    (Site.Trusted adaLibraries) adaSite adaEvents t ∧ t.signed = adaSignedIn.signed ∧
      ∃ ctx, (t.authenticator adaLibraries).WrapUnary "/memos.api.v1.MemoService/CreateMemo"
        "Bearer memos_pat_k" = .ok ctx := by
  have hsteps : ((adaSignedIn.step adaLibraries .plain
      (.createPAT 0 .connect "Bearer t" 1 "memos_pat_k" "i" none)).any fun u =>
        ((u.pending 0).all fun op => op.2.2 = u.pats op.1) &&
          (u.step adaLibraries .plain (.upsert 0)).any fun t =>
            t.signed = adaSignedIn.signed && ((t.authenticator adaLibraries).WrapUnary
              "/memos.api.v1.MemoService/CreateMemo" "Bearer memos_pat_k").isOk) = true := by
    decide +kernel
  rcases (Option.any_eq_true _ _).mp hsteps with ⟨u, hcreate, hrest⟩
  rw [Bool.and_eq_true] at hrest
  rcases (Option.any_eq_true _ _).mp hrest.2 with ⟨t, hupsert, hlast⟩
  rw [Bool.and_eq_true, decide_eq_true_eq] at hlast
  refine ⟨t, .cons trivial rfl (.cons ?_ hcreate (.cons ?_ hupsert (.nil _))), hlast.1, ?_⟩
  · exact unforged_of_signed rfl _
  · intro userID op seen hpending
    simpa [hpending] using hrest.1
  · cases hctx : (t.authenticator adaLibraries).WrapUnary "/memos.api.v1.MemoService/CreateMemo"
      "Bearer memos_pat_k" with
    | error failure =>
        rw [hctx] at hlast
        cases hlast.2
    | ok ctx => exact ⟨ctx, rfl⟩

/-- The token that Ada has created is accepted as that of a user. -/
theorem requests_authenticated_ada : ∃ t ctx user,
    Run (Site.step adaLibraries MemoService.plain) (Site.Trusted adaLibraries) adaSite adaEvents t ∧
      Accepted adaLibraries t (ExtractBearerToken "Bearer memos_pat_k") user ∧
      user.ID = ctx.UserID ∧
      (t.service MemoService.plain ctx).fetchCurrentUser = .ok (some user) := by
  rcases exists_adaRun with ⟨t, hrun, hsigned, ctx, hctx⟩
  have hprocedure : IsPublicMethod "/memos.api.v1.MemoService/CreateMemo" = false := by
    decide +kernel
  rcases (requests_authenticated adaSite_fresh hrun).1 _ _ ctx hprocedure
    (unforged_of_signed hsigned _) hctx with ⟨user, haccepted, hid, hcurrent⟩
  exact ⟨t, ctx, user, hrun, haccepted, hid, hcurrent⟩

end Auth
end MemosNote
