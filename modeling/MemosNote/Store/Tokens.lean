import Mathlib.Data.Int.Notation
import MemosNote.Library.Register

/-!
# Token lists of a user

Refresh tokens and personal access tokens are kept as two lists in the settings of a
user.  Every operation reads one whole list and upserts its modification, so each
list is a register that any number of operations update in two atomic steps.

Main results:

- Theorem {lit}`tokens_survive`: in a run in which every operation upserts over the list
  it read, each list agrees with the last completed operation on every token.
- Theorem {lit}`tokens_lost`: without that condition a revoked token comes back.
-/

namespace MemosNote
namespace Store

open Library

/-- A stored refresh token; times are in seconds. -/
structure RefreshToken where
  tokenId : String
  expiresAt : Option ℤ := none
deriving DecidableEq, Repr

/-- A stored personal access token. -/
structure PersonalAccessToken where
  tokenId : String
  lastUsedAt : Option ℤ := none
deriving DecidableEq, Repr

/-! ## The modifications of a token list -/

section

variable {τ : Type} (tokenId : τ → String)

/-- Append a token. -/
def addToken (token : τ) (tokens : List τ) : List τ :=
  tokens ++ [token]

/-- Drop every token with the given identifier. -/
def removeToken (tokenID : String) (tokens : List τ) : List τ :=
  tokens.filter fun token => tokenId token ≠ tokenID

theorem mem_ids_addToken (token : τ) (tokens : List τ) (t : String) :
    t ∈ (addToken token tokens).map tokenId ↔ t ∈ tokens.map tokenId ∨ t = tokenId token := by
  simp [addToken]

theorem mem_ids_removeToken (tokenID : String) (tokens : List τ) (t : String) :
    t ∈ (removeToken tokenId tokenID tokens).map tokenId ↔
      t ∈ tokens.map tokenId ∧ t ≠ tokenID := by
  simp only [removeToken, List.mem_map, List.mem_filter, decide_eq_true_eq]
  constructor
  · rintro ⟨token, ⟨hmem, hne⟩, rfl⟩
    exact ⟨⟨token, hmem, rfl⟩, hne⟩
  · rintro ⟨⟨token, hmem, rfl⟩, hne⟩
    exact ⟨token, ⟨hmem, hne⟩, rfl⟩

end

/-- The list that {lit}`AddUserRefreshToken` upserts. -/
def addUserRefreshToken : RefreshToken → List RefreshToken → List RefreshToken :=
  addToken

/-- The list that {lit}`RemoveUserRefreshToken` upserts. -/
def removeUserRefreshToken : String → List RefreshToken → List RefreshToken :=
  removeToken RefreshToken.tokenId

/-- The list that {lit}`AddUserPersonalAccessToken` upserts. -/
def addUserPersonalAccessToken :
    PersonalAccessToken → List PersonalAccessToken → List PersonalAccessToken :=
  addToken

/-- The list that {lit}`RemoveUserPersonalAccessToken` upserts. -/
def removeUserPersonalAccessToken : String → List PersonalAccessToken → List PersonalAccessToken :=
  removeToken PersonalAccessToken.tokenId

/-- The list that {lit}`UpdatePATLastUsed` upserts: the first token with the identifier
gets the new time. -/
def updatePATLastUsed (tokenID : String) (lastUsed : ℤ) :
    List PersonalAccessToken → List PersonalAccessToken
  | [] => []
  | token :: tokens =>
      if token.tokenId = tokenID then { token with lastUsedAt := some lastUsed } :: tokens
      else token :: updatePATLastUsed tokenID lastUsed tokens

/-- The last-used update changes no identifier. -/
theorem ids_updatePATLastUsed (tokenID : String) (lastUsed : ℤ)
    (tokens : List PersonalAccessToken) :
    (updatePATLastUsed tokenID lastUsed tokens).map PersonalAccessToken.tokenId =
      tokens.map PersonalAccessToken.tokenId := by
  induction tokens with
  | nil => rfl
  | cons token tokens ih =>
      unfold updatePATLastUsed
      split
      · rfl
      · rw [List.map_cons, List.map_cons, ih]

/-! ## Operations -/

/-- The operations on the refresh tokens. -/
inductive RefreshTokenOp where
  | addUserRefreshToken (token : RefreshToken)
  | removeUserRefreshToken (tokenID : String)
deriving DecidableEq, Repr

/-- The operations on the personal access tokens. -/
inductive PersonalAccessTokenOp where
  | addUserPersonalAccessToken (token : PersonalAccessToken)
  | removeUserPersonalAccessToken (tokenID : String)
  | updatePATLastUsed (tokenID : String) (lastUsed : ℤ)
deriving DecidableEq, Repr

namespace RefreshTokenOp

def apply : RefreshTokenOp → List RefreshToken → List RefreshToken
  | addUserRefreshToken token => Store.addUserRefreshToken token
  | removeUserRefreshToken tokenID => Store.removeUserRefreshToken tokenID

/-- What an operation does to a token identifier: adds it, removes it, or neither. -/
def effect : RefreshTokenOp → String → Option Bool
  | addUserRefreshToken token, t => if t = token.tokenId then some true else none
  | removeUserRefreshToken tokenID, t => if t = tokenID then some false else none

theorem mem_apply_iff (op : RefreshTokenOp) (tokens : List RefreshToken) (t : String) :
    t ∈ (op.apply tokens).map RefreshToken.tokenId ↔
      match op.effect t with
      | some present => present = true
      | none => t ∈ tokens.map RefreshToken.tokenId := by
  cases op with
  | addUserRefreshToken token =>
      rw [apply, Store.addUserRefreshToken, mem_ids_addToken]
      by_cases ht : t = token.tokenId <;> simp [effect, ht]
  | removeUserRefreshToken tokenID =>
      rw [apply, Store.removeUserRefreshToken, mem_ids_removeToken]
      by_cases ht : t = tokenID <;> simp [effect, ht]

end RefreshTokenOp

namespace PersonalAccessTokenOp

def apply : PersonalAccessTokenOp → List PersonalAccessToken → List PersonalAccessToken
  | addUserPersonalAccessToken token => Store.addUserPersonalAccessToken token
  | removeUserPersonalAccessToken tokenID => Store.removeUserPersonalAccessToken tokenID
  | updatePATLastUsed tokenID lastUsed => Store.updatePATLastUsed tokenID lastUsed

/-- What an operation does to a token identifier: adds it, removes it, or neither. -/
def effect : PersonalAccessTokenOp → String → Option Bool
  | addUserPersonalAccessToken token, t => if t = token.tokenId then some true else none
  | removeUserPersonalAccessToken tokenID, t => if t = tokenID then some false else none
  | updatePATLastUsed _ _, _ => none

theorem mem_apply_iff (op : PersonalAccessTokenOp) (tokens : List PersonalAccessToken)
    (t : String) :
    t ∈ (op.apply tokens).map PersonalAccessToken.tokenId ↔
      match op.effect t with
      | some present => present = true
      | none => t ∈ tokens.map PersonalAccessToken.tokenId := by
  cases op with
  | addUserPersonalAccessToken token =>
      rw [apply, Store.addUserPersonalAccessToken, mem_ids_addToken]
      by_cases ht : t = token.tokenId <;> simp [effect, ht]
  | removeUserPersonalAccessToken tokenID =>
      rw [apply, Store.removeUserPersonalAccessToken, mem_ids_removeToken]
      by_cases ht : t = tokenID <;> simp [effect, ht]
  | updatePATLastUsed tokenID lastUsed =>
      rw [apply, ids_updatePATLastUsed]
      simp [effect]

end PersonalAccessTokenOp

/-! ## Runs of one user -/

/-- The token lists of one user, with the operations under way on each. -/
structure TokenStore where
  refreshTokens : Register (List RefreshToken) RefreshTokenOp
  personalAccessTokens : Register (List PersonalAccessToken) PersonalAccessTokenOp

/-- The store with the given lists, nothing under way. -/
def TokenStore.initial (refreshTokens : List RefreshToken)
    (personalAccessTokens : List PersonalAccessToken) : TokenStore where
  refreshTokens := { value := refreshTokens }
  personalAccessTokens := { value := personalAccessTokens }

/-- An atomic step on one of the lists. -/
inductive TokenEvent where
  | refreshToken (e : RegisterEvent RefreshTokenOp)
  | personalAccessToken (e : RegisterEvent PersonalAccessTokenOp)

namespace TokenStore

def step (s : TokenStore) : TokenEvent → Option TokenStore
  | .refreshToken e =>
      (s.refreshTokens.step RefreshTokenOp.apply e).map fun r => { s with refreshTokens := r }
  | .personalAccessToken e =>
      (s.personalAccessTokens.step PersonalAccessTokenOp.apply e).map fun r =>
        { s with personalAccessTokens := r }

/-- An upsert goes over the list that its operation read. -/
def Unchanged (s : TokenStore) : TokenEvent → Prop
  | .refreshToken e => s.refreshTokens.Unchanged e
  | .personalAccessToken e => s.personalAccessTokens.Unchanged e

/-- A list agrees with the completed operations on every token: a token whose last completed
operation removed it is not stored, and one whose last completed operation added it is. -/
def Agrees {S Op : Type} (ids : S → List String) (effect : Op → String → Option Bool)
    (r : Register S Op) : Prop :=
  ∀ t, (lastEffect effect r.log t = some false → t ∉ ids r.value) ∧
    (lastEffect effect r.log t = some true → t ∈ ids r.value)

/-- Both lists agree with the completed operations. -/
def Survives (s : TokenStore) : Prop :=
  Agrees (List.map RefreshToken.tokenId) RefreshTokenOp.effect s.refreshTokens ∧
    Agrees (List.map PersonalAccessToken.tokenId) PersonalAccessTokenOp.effect
      s.personalAccessTokens

private theorem agrees_of_serial {S Op : Type} {apply : Op → S → S} {ids : S → List String}
    {effect : Op → String → Option Bool}
    (happly : ∀ op s t, t ∈ ids (apply op s) ↔
      match effect op t with
      | some present => present = true
      | none => t ∈ ids s)
    {init : S} {r : Register S Op} (h : r.Serial apply init) : Agrees ids effect r := by
  intro t
  have hmem := mem_foldl_iff apply effect (fun t s => t ∈ ids s) happly init r.log t
  rw [show r.value = r.log.foldl (fun s op => apply op s) init from h]
  constructor
  · intro hlast
    rw [hmem, hlast]
    simp
  · intro hlast
    rw [hmem, hlast]

/-- Both lists are serial executions of their completed operations. -/
def Serial (refreshTokens : List RefreshToken) (personalAccessTokens : List PersonalAccessToken)
    (s : TokenStore) : Prop :=
  s.refreshTokens.Serial RefreshTokenOp.apply refreshTokens ∧
    s.personalAccessTokens.Serial PersonalAccessTokenOp.apply personalAccessTokens

/-- A step whose upsert goes over the list it read keeps both lists serial. -/
theorem step_serial {refreshTokens : List RefreshToken}
    {personalAccessTokens : List PersonalAccessToken} (s : TokenStore) (e : TokenEvent)
    (s' : TokenStore) (hserial : s.Serial refreshTokens personalAccessTokens)
    (hunchanged : s.Unchanged e) (hstep : s.step e = some s') :
    s'.Serial refreshTokens personalAccessTokens := by
  cases e with
  | refreshToken e =>
      obtain ⟨r, hr, rfl⟩ := Option.map_eq_some_iff.mp hstep
      exact ⟨Register.step_serial _ hserial.1 hunchanged hr, hserial.2⟩
  | personalAccessToken e =>
      obtain ⟨r, hr, rfl⟩ := Option.map_eq_some_iff.mp hstep
      exact ⟨hserial.1, Register.step_serial _ hserial.2 hunchanged hr⟩

end TokenStore

/-- In every run in which each operation upserts over the list it read, for any number of
operations and whatever lists the user starts with, no removed token is stored again and
no added token is lost. -/
theorem tokens_survive (refreshTokens : List RefreshToken)
    (personalAccessTokens : List PersonalAccessToken) (events : List TokenEvent)
    (s : TokenStore)
    (hrun : Run TokenStore.step TokenStore.Unchanged
      (TokenStore.initial refreshTokens personalAccessTokens) events s) :
    s.Survives := by
  have hserial : s.Serial refreshTokens personalAccessTokens :=
    hrun.invariant TokenStore.step_serial ⟨rfl, rfl⟩
  exact ⟨TokenStore.agrees_of_serial (fun op s t => op.mem_apply_iff s t) hserial.1,
    TokenStore.agrees_of_serial (fun op s t => op.mem_apply_iff s t) hserial.2⟩

/-- One operation after the other: a token is added and then used. -/
theorem tokens_survive_example :
    ∃ s, FreeRun TokenStore.step (TokenStore.initial [] [])
      [.personalAccessToken (.read 0 (.addUserPersonalAccessToken ⟨"t", none⟩)),
        .personalAccessToken (.write 0),
        .personalAccessToken (.read 1 (.updatePATLastUsed "t" 7)),
        .personalAccessToken (.write 1)] s ∧ s.Survives := by
  obtain ⟨s, hrun⟩ : ∃ s, Run TokenStore.step TokenStore.Unchanged (TokenStore.initial [] [])
      [.personalAccessToken (.read 0 (.addUserPersonalAccessToken ⟨"t", none⟩)),
        .personalAccessToken (.write 0),
        .personalAccessToken (.read 1 (.updatePATLastUsed "t" 7)),
        .personalAccessToken (.write 1)] s := by
    refine ⟨_, .cons trivial rfl (.cons ?_ rfl (.cons trivial rfl (.cons ?_ rfl (.nil _))))⟩
    · rintro op seen ⟨⟩
      rfl
    · rintro op seen ⟨⟩
      rfl
  exact ⟨s, hrun.mono fun _ _ _ => trivial, tokens_survive [] [] _ s hrun⟩

/-- The last-used update of a request reads the list before a revocation and upserts after
it: the revoked token is stored again. -/
theorem tokens_lost :
    ∃ s, FreeRun TokenStore.step (TokenStore.initial [] [⟨"t", none⟩])
      [.personalAccessToken (.read 0 (.updatePATLastUsed "t" 7)),
        .personalAccessToken (.read 1 (.removeUserPersonalAccessToken "t")),
        .personalAccessToken (.write 1),
        .personalAccessToken (.write 0)] s ∧
      lastEffect PersonalAccessTokenOp.effect s.personalAccessTokens.log "t" = some false ∧
      s.personalAccessTokens.value = [⟨"t", some 7⟩] ∧ ¬ s.Survives := by
  refine ⟨_, .cons trivial rfl (.cons trivial rfl (.cons trivial rfl (.cons trivial rfl
    (.nil _)))), by decide, by decide, fun h => ?_⟩
  exact (h.2 "t").1 (by decide) (by decide)

end Store
end MemosNote
