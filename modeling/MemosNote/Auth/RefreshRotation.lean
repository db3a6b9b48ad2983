import MemosNote.Store.Database
import MemosNote.Store.Tokens

/-!
# Refresh-token rotation

A refresh request validates the presented token against the stored list and its user, adds a new
token and removes the presented one; a failure to add ends it, a failure to remove is only logged.
A sign-in adds a token, a sign-out removes one.  Each list change is a read and an upsert of the
whole list, so a refresh request takes five atomic steps and the others two, and the steps of
different requests interleave.

Main results:

- Structure {lit}`RotationInv` and Theorem {lit}`rotationInv_step`: the invariant that
  one guarded step preserves.
- Theorem {lit}`rotation_single_use`: in a run in which upserts go over the list they read, no
  removal fails and an exchange still finds its token when it removes it, tokens are single-use.
- Theorem {lit}`rotation_not_single_use`: two overlapping exchanges of one token succeed, and so do
  two exchanges one after the other if the first one's removal fails.
-/

namespace MemosNote
namespace Auth

open Library Store

/-- The lifetime of a refresh token: thirty days, in seconds. -/
def refreshTokenDuration : ℤ :=
  30 * 24 * 60 * 60

/-- How far a request has come. -/
inductive Phase where
  | idle
  /-- The presented token was valid. -/
  | validated (old : String)
  /-- Inside {lit}`AddUserRefreshToken`, the list is read; a sign-in has no old token. -/
  | adding (old : Option String) (token : RefreshToken) (seen : List RefreshToken)
  /-- The new token is stored. -/
  | added (old : String)
  /-- Inside {lit}`RemoveUserRefreshToken`, the list is read. -/
  | removing (old : String) (seen : List RefreshToken)
  /-- Inside the removal of a sign-out, the list is read. -/
  | signingOut (tokenID : String) (seen : List RefreshToken)

/-- The atomic steps; a step of a request names it.  The store may fail in every access. -/
inductive RotationEvent (ι : Type) where
  | tick (seconds : ℕ)
  /-- The user is archived, restored or deleted. -/
  | setUser (user : Option RowStatus)
  | validate (p : ι) (tokenID : String)
  | validateFail (p : ι)
  | addRead (p : ι) (newTokenID : String)
  | addWrite (p : ι)
  | addFail (p : ι)
  | removeRead (p : ι)
  | removeWrite (p : ι)
  | removeFail (p : ι)
  | signInRead (p : ι) (newTokenID : String)
  | signOutRead (p : ι) (tokenID : String)
  | signOutWrite (p : ι)
  | signOutFail (p : ι)

/-- The user, the stored list, the clock and the requests under way, with ghost lists of the
identifiers in use, the tokens presented in successful exchanges, the tokens that requests
have stored, and the identifiers removed by sign-outs. -/
structure Rotation (ι : Type) where
  now : ℤ
  /-- The state of the user; a deleted user has none. -/
  user : Option RowStatus
  tokens : List RefreshToken
  phase : ι → Phase
  issued : List String
  exchanged : List String
  renewed : List RefreshToken
  signedOut : List String

namespace Rotation

variable {ι : Type}

/-- A user with stored tokens and no request under way. -/
def initial (now : ℤ) (user : Option RowStatus) (tokens : List RefreshToken) : Rotation ι where
  now := now
  user := user
  tokens := tokens
  phase := fun _ => .idle
  issued := tokens.map RefreshToken.tokenId
  exchanged := []
  renewed := []
  signedOut := []

/-- The stored token with an identifier. -/
def getUserRefreshTokenByID (s : Rotation ι) (tokenID : String) : Option RefreshToken :=
  s.tokens.find? fun token => token.tokenId == tokenID

/-- Whether a token has expired; a token without expiry never does. -/
def expired (s : Rotation ι) (token : RefreshToken) : Bool :=
  token.expiresAt.any fun expiresAt => decide (expiresAt < s.now)

/-- Whether the presented token is stored and has not expired, and its user exists and is not
archived. -/
def authenticates (s : Rotation ι) (tokenID : String) : Bool :=
  ((s.getUserRefreshTokenByID tokenID).any fun token => !s.expired token) &&
    s.user == some .NORMAL

/-- Rotation is single-use: no token was exchanged twice, an exchanged token does not
validate, and a token stored by a request validates until it is exchanged, signed out or
expired, while its user exists and is not archived. -/
structure SingleUse (s : Rotation ι) : Prop where
  once : s.exchanged.Nodup
  old_invalid : ∀ old ∈ s.exchanged, s.authenticates old = false
  new_valid : s.user = some .NORMAL → ∀ token ∈ s.renewed, token.tokenId ∉ s.exchanged →
    token.tokenId ∉ s.signedOut → s.expired token = false → s.authenticates token.tokenId = true

variable [DecidableEq ι]

/-- Set the phase of a request. -/
def setPhase (s : Rotation ι) (p : ι) (phase : Phase) : Rotation ι :=
  { s with phase := Function.update s.phase p phase }

/-- The state after a new token is drawn and the list is read. -/
def drawn (s : Rotation ι) (p : ι) (old : Option String) (newTokenID : String) : Rotation ι :=
  { s.setPhase p (.adding old ⟨newTokenID, some (s.now + refreshTokenDuration)⟩ s.tokens) with
    issued := s.issued ++ [newTokenID] }

/-- Draw an identifier that does not occur yet for a new token, and read the list. -/
def drawToken (s : Rotation ι) (p : ι) (old : Option String) (newTokenID : String) :
    Option (Rotation ι) :=
  if newTokenID ∈ s.issued then none else some (s.drawn p old newTokenID)

/-- One atomic step.  A failed validation ends the request, and so does a failure to add the new
token; a failure to remove the old one does not keep the exchange from succeeding. -/
def step (s : Rotation ι) : RotationEvent ι → Option (Rotation ι)
  | .tick seconds => some { s with now := s.now + seconds }
  | .setUser user =>
      match s.user with
      | none => none
      | some _ => some { s with user := user, tokens := if user.isSome then s.tokens else [] }
  | .validate p tokenID =>
      match s.phase p with
      | .idle => some (if s.authenticates tokenID then s.setPhase p (.validated tokenID) else s)
      | _ => none
  | .validateFail p =>
      match s.phase p with
      | .idle => some s
      | _ => none
  | .addRead p newTokenID =>
      match s.phase p with
      | .validated old => s.drawToken p (some old) newTokenID
      | _ => none
  | .addWrite p =>
      match s.phase p with
      | .adding old token seen =>
          some { s.setPhase p (old.elim .idle .added) with
            tokens := addUserRefreshToken token seen
            renewed := s.renewed ++ [token] }
      | _ => none
  | .addFail p =>
      match s.phase p with
      | .validated _ | .adding _ _ _ => some (s.setPhase p .idle)
      | _ => none
  | .removeRead p =>
      match s.phase p with
      | .added old => some (s.setPhase p (.removing old s.tokens))
      | _ => none
  | .removeWrite p =>
      match s.phase p with
      | .removing old seen =>
          some { s.setPhase p .idle with
            tokens := removeUserRefreshToken old seen
            exchanged := s.exchanged ++ [old] }
      | _ => none
  | .removeFail p =>
      match s.phase p with
      | .added old | .removing old _ =>
          some { s.setPhase p .idle with exchanged := s.exchanged ++ [old] }
      | _ => none
  | .signInRead p newTokenID =>
      match s.phase p, s.user with
      | .idle, some .NORMAL => s.drawToken p none newTokenID
      | _, _ => none
  | .signOutRead p tokenID =>
      match s.phase p with
      | .idle => some (s.setPhase p (.signingOut tokenID s.tokens))
      | _ => none
  | .signOutWrite p =>
      match s.phase p with
      | .signingOut tokenID seen =>
          some { s.setPhase p .idle with
            tokens := removeUserRefreshToken tokenID seen
            signedOut := s.signedOut ++ [tokenID] }
      | _ => none
  | .signOutFail p =>
      match s.phase p with
      | .signingOut _ _ => some (s.setPhase p .idle)
      | _ => none

/-- An upsert goes over the list that was read, no removal of a presented token fails, and one
that succeeds finds the token still stored. -/
def Undisturbed (s : Rotation ι) : RotationEvent ι → Prop
  | .addWrite p => ∀ old token seen, s.phase p = .adding old token seen → seen = s.tokens
  | .removeWrite p => ∀ old seen, s.phase p = .removing old seen →
      seen = s.tokens ∧ old ∈ s.tokens.map RefreshToken.tokenId
  | .removeFail _ => False
  | .signOutWrite p => ∀ tokenID seen, s.phase p = .signingOut tokenID seen → seen = s.tokens
  | _ => True

@[simp]
theorem phase_setPhase_self (s : Rotation ι) (p : ι) (phase : Phase) :
    (s.setPhase p phase).phase p = phase :=
  Function.update_self ..

theorem phase_setPhase_of_ne {p q : ι} (h : q ≠ p) (s : Rotation ι) (phase : Phase) :
    (s.setPhase p phase).phase q = s.phase q :=
  Function.update_of_ne h ..

/-! ## What a step does -/

variable {s t : Rotation ι}

/-- What a step finds and does. -/
inductive Does (s : Rotation ι) : RotationEvent ι → Rotation ι → Prop where
  | tick (seconds : ℕ) : Does s (.tick seconds) { s with now := s.now + seconds }
  | setUser {user : Option RowStatus} (hexists : s.user.isSome) :
      Does s (.setUser user)
        { s with user := user, tokens := if user.isSome then s.tokens else [] }
  | accepted {p : ι} {tokenID : String} (hp : s.phase p = .idle)
      (hvalid : s.authenticates tokenID = true) :
      Does s (.validate p tokenID) (s.setPhase p (.validated tokenID))
  | rejected {p : ι} {tokenID : String} (hp : s.phase p = .idle)
      (hinvalid : s.authenticates tokenID = false) : Does s (.validate p tokenID) s
  | validateFail {p : ι} (hp : s.phase p = .idle) : Does s (.validateFail p) s
  | addRead {p : ι} {old newTokenID : String} (hp : s.phase p = .validated old)
      (hfresh : newTokenID ∉ s.issued) :
      Does s (.addRead p newTokenID) (s.drawn p (some old) newTokenID)
  | addWrite {p : ι} {old : Option String} {token : RefreshToken} {seen : List RefreshToken}
      (hp : s.phase p = .adding old token seen) :
      Does s (.addWrite p) { s.setPhase p (old.elim .idle .added) with
        tokens := addUserRefreshToken token seen
        renewed := s.renewed ++ [token] }
  | addFail {p : ι} (hp : (∃ old, s.phase p = .validated old) ∨
      ∃ old token seen, s.phase p = .adding old token seen) :
      Does s (.addFail p) (s.setPhase p .idle)
  | removeRead {p : ι} {old : String} (hp : s.phase p = .added old) :
      Does s (.removeRead p) (s.setPhase p (.removing old s.tokens))
  | removeWrite {p : ι} {old : String} {seen : List RefreshToken}
      (hp : s.phase p = .removing old seen) :
      Does s (.removeWrite p) { s.setPhase p .idle with
        tokens := removeUserRefreshToken old seen
        exchanged := s.exchanged ++ [old] }
  | removeFail {p : ι} {old : String}
      (hp : s.phase p = .added old ∨ ∃ seen, s.phase p = .removing old seen) :
      Does s (.removeFail p) { s.setPhase p .idle with exchanged := s.exchanged ++ [old] }
  | signInRead {p : ι} {newTokenID : String} (hp : s.phase p = .idle)
      (huser : s.user = some .NORMAL) (hfresh : newTokenID ∉ s.issued) :
      Does s (.signInRead p newTokenID) (s.drawn p none newTokenID)
  | signOutRead {p : ι} {tokenID : String} (hp : s.phase p = .idle) :
      Does s (.signOutRead p tokenID) (s.setPhase p (.signingOut tokenID s.tokens))
  | signOutWrite {p : ι} {tokenID : String} {seen : List RefreshToken}
      (hp : s.phase p = .signingOut tokenID seen) :
      Does s (.signOutWrite p) { s.setPhase p .idle with
        tokens := removeUserRefreshToken tokenID seen
        signedOut := s.signedOut ++ [tokenID] }
  | signOutFail {p : ι} {tokenID : String} {seen : List RefreshToken}
      (hp : s.phase p = .signingOut tokenID seen) :
      Does s (.signOutFail p) (s.setPhase p .idle)

theorem drawToken_some {p : ι} {old : Option String} {newTokenID : String}
    (h : s.drawToken p old newTokenID = some t) :
    newTokenID ∉ s.issued ∧ s.drawn p old newTokenID = t := by
  rw [drawToken] at h
  split at h
  · cases h
  · rename_i hfresh
    exact ⟨hfresh, Option.some.inj h⟩

theorem does_of_step {e : RotationEvent ι} (hstep : s.step e = some t) : s.Does e t := by
  cases e with
  | tick seconds =>
      cases hstep
      exact .tick seconds
  | setUser user =>
      simp only [step] at hstep
      split at hstep <;> try contradiction
      rename_i status huser
      cases hstep
      exact .setUser (by rw [huser]; rfl)
  | validate p tokenID =>
      simp only [step] at hstep
      split at hstep <;> try contradiction
      rename_i hp
      cases hstep
      split
      · rename_i hvalid
        exact .accepted hp hvalid
      · rename_i hinvalid
        exact .rejected hp (Bool.eq_false_iff.mpr hinvalid)
  | validateFail p =>
      simp only [step] at hstep
      split at hstep <;> try contradiction
      rename_i hp
      cases hstep
      exact .validateFail hp
  | addRead p newTokenID =>
      simp only [step] at hstep
      split at hstep <;> try contradiction
      rename_i old hp
      rcases drawToken_some hstep with ⟨hfresh, rfl⟩
      exact .addRead hp hfresh
  | addWrite p =>
      simp only [step] at hstep
      split at hstep <;> try contradiction
      rename_i old token seen hp
      cases hstep
      exact .addWrite hp
  | addFail p =>
      simp only [step] at hstep
      split at hstep <;> try contradiction
      · rename_i old hp
        cases hstep
        exact .addFail (Or.inl ⟨old, hp⟩)
      · rename_i old token seen hp
        cases hstep
        exact .addFail (Or.inr ⟨old, token, seen, hp⟩)
  | removeRead p =>
      simp only [step] at hstep
      split at hstep <;> try contradiction
      rename_i old hp
      cases hstep
      exact .removeRead hp
  | removeWrite p =>
      simp only [step] at hstep
      split at hstep <;> try contradiction
      rename_i old seen hp
      cases hstep
      exact .removeWrite hp
  | removeFail p =>
      simp only [step] at hstep
      split at hstep <;> try contradiction
      · rename_i old hp
        cases hstep
        exact .removeFail (Or.inl hp)
      · rename_i old seen hp
        cases hstep
        exact .removeFail (Or.inr ⟨seen, hp⟩)
  | signInRead p newTokenID =>
      simp only [step] at hstep
      split at hstep <;> try contradiction
      rename_i hp huser
      rcases drawToken_some hstep with ⟨hfresh, rfl⟩
      exact .signInRead hp huser hfresh
  | signOutRead p tokenID =>
      simp only [step] at hstep
      split at hstep <;> try contradiction
      rename_i hp
      cases hstep
      exact .signOutRead hp
  | signOutWrite p =>
      simp only [step] at hstep
      split at hstep <;> try contradiction
      rename_i tokenID seen hp
      cases hstep
      exact .signOutWrite hp
  | signOutFail p =>
      simp only [step] at hstep
      split at hstep <;> try contradiction
      rename_i tokenID seen hp
      cases hstep
      exact .signOutFail hp

end Rotation

open Rotation

/-! ## The invariant -/

section

variable {ι : Type}

/-- What holds in every state of an undisturbed run. -/
structure RotationInv (s : Rotation ι) : Prop where
  stored_issued : ∀ token ∈ s.tokens, token.tokenId ∈ s.issued
  exchanged_issued : ∀ old ∈ s.exchanged, old ∈ s.issued
  exchanged_gone : ∀ token ∈ s.tokens, token.tokenId ∉ s.exchanged
  once : s.exchanged.Nodup
  renewed_issued : ∀ token ∈ s.renewed, token.tokenId ∈ s.issued
  renewed_stored : s.user.isSome → ∀ token ∈ s.renewed, token.tokenId ∉ s.exchanged →
    token.tokenId ∉ s.signedOut → token ∈ s.tokens
  renewed_unique : ∀ token ∈ s.renewed, ∀ other ∈ s.tokens,
    other.tokenId = token.tokenId → other = token
  adding_issued : ∀ p old token seen, s.phase p = .adding old token seen →
    token.tokenId ∈ s.issued
  adding_absent : ∀ p old token seen, s.phase p = .adding old token seen →
    (∀ other ∈ s.tokens, other.tokenId ≠ token.tokenId) ∧ token.tokenId ∉ s.exchanged ∧
      ∀ other ∈ s.renewed, other.tokenId ≠ token.tokenId
  adding_distinct : ∀ p q old old' token token' seen seen', p ≠ q →
    s.phase p = .adding old token seen → s.phase q = .adding old' token' seen' →
      token.tokenId ≠ token'.tokenId

theorem rotationInv_initial (now : ℤ) (user : Option RowStatus) (tokens : List RefreshToken) :
    RotationInv (Rotation.initial now user tokens : Rotation ι) := by
  have hissued : ∀ token ∈ tokens, token.tokenId ∈ tokens.map RefreshToken.tokenId :=
    fun token htoken => List.mem_map_of_mem htoken
  constructor <;> simp_all [Rotation.initial]

/-- The removal of a token leaves the tokens with other identifiers. -/
theorem mem_removed {tokens : List RefreshToken} {tokenID : String} {token : RefreshToken} :
    token ∈ removeUserRefreshToken tokenID tokens ↔ token ∈ tokens ∧ token.tokenId ≠ tokenID := by
  simp [removeUserRefreshToken, removeToken]

/-- The deletion of the user, or another change of the state of the user, keeps the invariant. -/
theorem RotationInv.setUser {s : Rotation ι} (h : RotationInv s) (hexists : s.user.isSome)
    (user : Option RowStatus) :
    RotationInv { s with user := user, tokens := if user.isSome then s.tokens else [] } := by
  have hsub : ∀ t ∈ (if user.isSome then s.tokens else []), t ∈ s.tokens := by
    intro t ht
    split at ht
    · exact ht
    · exact absurd ht List.not_mem_nil
  refine { h with
    stored_issued := fun t ht => h.stored_issued t (hsub t ht)
    exchanged_gone := fun t ht => h.exchanged_gone t (hsub t ht)
    renewed_stored := fun huser t ht hnex hnso => ?_
    renewed_unique := fun t ht other hother => h.renewed_unique t ht other (hsub other hother)
    adding_absent := fun p old token seen hp => ?_ }
  · rw [if_pos huser]
    exact h.renewed_stored hexists t ht hnex hnso
  · obtain ⟨ha, he, hr⟩ := h.adding_absent p old token seen hp
    exact ⟨fun other hother => ha other (hsub other hother), he, hr⟩

variable [DecidableEq ι]

/-- Changing the phase of a request to one that adds no token keeps the invariant. -/
theorem RotationInv.setPhase {s : Rotation ι} (h : RotationInv s) (p : ι) {phase : Phase}
    (hphase : ∀ old token seen, phase ≠ .adding old token seen) :
    RotationInv (s.setPhase p phase) := by
  have hadding : ∀ q old token seen, (s.setPhase p phase).phase q = .adding old token seen →
      s.phase q = .adding old token seen := by
    intro q old token seen hq
    by_cases hqp : q = p
    · subst hqp
      simp only [Rotation.setPhase, Function.update_self] at hq
      exact absurd hq (hphase old token seen)
    · simpa [Rotation.setPhase, hqp] using hq
  refine { h with adding_issued := ?_, adding_absent := ?_, adding_distinct := ?_ }
  · intro q old token seen hq
    exact h.adding_issued q old token seen (hadding q old token seen hq)
  · intro q old token seen hq
    exact h.adding_absent q old token seen (hadding q old token seen hq)
  · intro q q' old old' token token' seen seen' hne hq hq'
    exact h.adding_distinct q q' old old' token token' seen seen' hne (hadding _ _ _ _ hq)
      (hadding _ _ _ _ hq')

/-- Drawing a new identifier and reading the list keeps the invariant. -/
theorem rotationInv_drawn {s : Rotation ι} (h : RotationInv s) (p : ι) (old : Option String)
    {newTokenID : String} (hfresh : newTokenID ∉ s.issued) :
    RotationInv (s.drawn p old newTokenID) := by
  set added : RefreshToken := ⟨newTokenID, some (s.now + refreshTokenDuration)⟩ with hadded
  have hold : ∀ {t : String}, t ∈ s.issued → t ∈ s.issued ++ [newTokenID] := fun ht =>
    List.mem_append_left _ ht
  have hne : ∀ {t : String}, t ∈ s.issued → t ≠ newTokenID := fun ht heq => hfresh (heq ▸ ht)
  -- a request that is adding either is the one at hand or was adding before
  have hadding : ∀ q old' token seen,
      (s.setPhase p (.adding old added s.tokens)).phase q = .adding old' token seen →
      (q = p ∧ token = added) ∨ (q ≠ p ∧ s.phase q = .adding old' token seen) := by
    intro q old' token seen hq
    by_cases hqp : q = p
    · subst hqp
      simp only [Rotation.setPhase, Function.update_self, Phase.adding.injEq] at hq
      exact .inl ⟨rfl, hq.2.1.symm⟩
    · exact .inr ⟨hqp, by simpa [Rotation.setPhase, hqp] using hq⟩
  constructor
  · exact fun token htoken => hold (h.stored_issued token htoken)
  · exact fun o ho => hold (h.exchanged_issued o ho)
  · exact h.exchanged_gone
  · exact h.once
  · exact fun token htoken => hold (h.renewed_issued token htoken)
  · exact h.renewed_stored
  · exact h.renewed_unique
  · intro q old' token seen hq
    rcases hadding q old' token seen hq with ⟨-, rfl⟩ | ⟨-, hq⟩
    · exact List.mem_append_right _ (List.mem_singleton_self _)
    · exact hold (h.adding_issued q old' token seen hq)
  · intro q old' token seen hq
    rcases hadding q old' token seen hq with ⟨-, rfl⟩ | ⟨-, hq⟩
    · exact ⟨fun other hother => hne (h.stored_issued other hother),
        fun hmem => hfresh (h.exchanged_issued _ hmem),
        fun other hother => hne (h.renewed_issued other hother)⟩
    · exact h.adding_absent q old' token seen hq
  · intro q q' o o' token token' seen seen' hqq hq hq'
    rcases hadding q o token seen hq with ⟨hqp, rfl⟩ | ⟨-, hq⟩
    · rcases hadding q' o' token' seen' hq' with ⟨hqp', -⟩ | ⟨-, hq'⟩
      · exact absurd (hqp.trans hqp'.symm) hqq
      · exact (hne (h.adding_issued q' o' token' seen' hq')).symm
    · rcases hadding q' o' token' seen' hq' with ⟨-, rfl⟩ | ⟨-, hq'⟩
      · exact hne (h.adding_issued q o token seen hq)
      · exact h.adding_distinct q q' o o' token token' seen seen' hqq hq hq'

/-- Storing the new token keeps the invariant. -/
theorem rotationInv_addWrite {s : Rotation ι} (h : RotationInv s) {p : ι} {old : Option String}
    {token : RefreshToken} (hp : s.phase p = .adding old token s.tokens) :
    RotationInv { s.setPhase p (old.elim .idle .added) with
      tokens := addUserRefreshToken token s.tokens
      renewed := s.renewed ++ [token] } := by
  obtain ⟨habsent, hexchanged, hrenewed⟩ := h.adding_absent p old token s.tokens hp
  have hissued := h.adding_issued p old token s.tokens hp
  have hdone : ∀ old' token' seen, (old.elim Phase.idle .added) ≠ .adding old' token' seen := by
    cases old <;> simp
  have hphase : RotationInv (s.setPhase p (old.elim .idle .added)) := h.setPhase p hdone
  have hadding : ∀ q old' token' seen, (s.setPhase p (old.elim .idle .added)).phase q =
      .adding old' token' seen → q ≠ p ∧ s.phase q = .adding old' token' seen := by
    intro q old' token' seen hq
    by_cases hqp : q = p
    · subst hqp
      simp only [Rotation.setPhase, Function.update_self] at hq
      exact absurd hq (hdone _ _ _)
    · exact ⟨hqp, by simpa [Rotation.setPhase, hqp] using hq⟩
  have hmem : ∀ t, t ∈ addUserRefreshToken token s.tokens ↔ t ∈ s.tokens ∨ t = token := by
    simp [addUserRefreshToken, addToken]
  have hmem' : ∀ t, t ∈ s.renewed ++ [token] ↔ t ∈ s.renewed ∨ t = token := by simp
  constructor
  · intro t ht
    rcases (hmem t).mp ht with ht | rfl
    · exact h.stored_issued t ht
    · exact hissued
  · exact h.exchanged_issued
  · intro t ht
    rcases (hmem t).mp ht with ht | rfl
    · exact h.exchanged_gone t ht
    · exact hexchanged
  · exact h.once
  · intro t ht
    rcases (hmem' t).mp ht with ht | rfl
    · exact h.renewed_issued t ht
    · exact hissued
  · intro huser t ht hnex hnso
    rcases (hmem' t).mp ht with ht | rfl
    · exact (hmem t).mpr (.inl (h.renewed_stored huser t ht hnex hnso))
    · exact (hmem t).mpr (.inr rfl)
  · intro t ht other hother heq
    rcases (hmem' t).mp ht with hold | rfl
    · rcases (hmem other).mp hother with hstored | rfl
      · exact h.renewed_unique t hold other hstored heq
      · exact absurd heq.symm (hrenewed t hold)
    · rcases (hmem other).mp hother with hstored | rfl
      · exact absurd heq (habsent other hstored)
      · rfl
  · exact hphase.adding_issued
  · intro q old' token' seen hq
    obtain ⟨hqp, hq⟩ := hadding q old' token' seen hq
    obtain ⟨ha, he, hr⟩ := h.adding_absent q old' token' seen hq
    have hdistinct := h.adding_distinct p q old old' token token' _ _ (Ne.symm hqp) hp hq
    refine ⟨fun other hother => ?_, he, fun other hother => ?_⟩
    · rcases (hmem other).mp hother with hother | rfl
      · exact ha other hother
      · exact hdistinct
    · rcases (hmem' other).mp hother with hother | rfl
      · exact hr other hother
      · exact hdistinct
  · exact hphase.adding_distinct

/-- Removing the presented token, while it is still stored, keeps the invariant. -/
theorem rotationInv_removeWrite {s : Rotation ι} (h : RotationInv s) (p : ι) {old : String}
    (hstored : old ∈ s.tokens.map RefreshToken.tokenId) :
    RotationInv { s.setPhase p .idle with
      tokens := removeUserRefreshToken old s.tokens
      exchanged := s.exchanged ++ [old] } := by
  have hphase : RotationInv (s.setPhase p .idle) := h.setPhase p (by simp)
  obtain ⟨presented, hpresented, rfl⟩ := List.mem_map.mp hstored
  have hnew : presented.tokenId ∉ s.exchanged := h.exchanged_gone presented hpresented
  have hmem : ∀ t, t ∈ s.exchanged ++ [presented.tokenId] ↔
      t ∈ s.exchanged ∨ t = presented.tokenId := by simp
  constructor
  · exact fun t ht => h.stored_issued t (mem_removed.mp ht).1
  · intro o ho
    rcases (hmem o).mp ho with ho | rfl
    · exact h.exchanged_issued o ho
    · exact h.stored_issued presented hpresented
  · intro t ht hex
    obtain ⟨ht, hne⟩ := mem_removed.mp ht
    rcases (hmem _).mp hex with hex | heq
    · exact h.exchanged_gone t ht hex
    · exact hne heq
  · refine List.nodup_append.mpr ⟨h.once, by simp, fun a ha b hb => ?_⟩
    rw [List.mem_singleton.mp hb]
    exact fun heq => hnew (heq ▸ ha)
  · exact h.renewed_issued
  · intro huser t ht hnex hnso
    have hold := fun hex => hnex ((hmem _).mpr (.inl hex))
    have hne := fun heq => hnex ((hmem _).mpr (.inr heq))
    exact mem_removed.mpr ⟨h.renewed_stored huser t ht hold hnso, hne⟩
  · exact fun t ht other hother => h.renewed_unique t ht other (mem_removed.mp hother).1
  · exact hphase.adding_issued
  · intro q old' token seen hq
    obtain ⟨ha, he, hr⟩ := hphase.adding_absent q old' token seen hq
    refine ⟨fun other hother => ha other (mem_removed.mp hother).1, fun hex => ?_, hr⟩
    rcases (hmem _).mp hex with hex | heq
    · exact he hex
    · exact ha presented hpresented heq.symm
  · exact hphase.adding_distinct

/-- Removing a token at sign-out keeps the invariant. -/
theorem rotationInv_signOutWrite {s : Rotation ι} (h : RotationInv s) (p : ι) (tokenID : String) :
    RotationInv { s.setPhase p .idle with
      tokens := removeUserRefreshToken tokenID s.tokens
      signedOut := s.signedOut ++ [tokenID] } := by
  have hphase : RotationInv (s.setPhase p .idle) := h.setPhase p (by simp)
  refine { hphase with
    stored_issued := fun t ht => h.stored_issued t (mem_removed.mp ht).1
    exchanged_gone := fun t ht => h.exchanged_gone t (mem_removed.mp ht).1
    renewed_stored := ?_
    renewed_unique := fun t ht other hother => h.renewed_unique t ht other (mem_removed.mp hother).1
    adding_absent := ?_ }
  · intro huser t ht hnex hnso
    have hold := fun hso => hnso (List.mem_append_left _ hso)
    have hne : t.tokenId ≠ tokenID := fun heq =>
      hnso (List.mem_append_right _ (List.mem_singleton.mpr heq))
    exact mem_removed.mpr ⟨h.renewed_stored huser t ht hnex hold, hne⟩
  · intro q old' token seen hq
    obtain ⟨ha, he, hr⟩ := hphase.adding_absent q old' token seen hq
    exact ⟨fun other hother => ha other (mem_removed.mp hother).1, he, hr⟩

/-- One undisturbed step keeps the invariant. -/
theorem rotationInv_step (s : Rotation ι) (e : RotationEvent ι) (s' : Rotation ι)
    (h : RotationInv s) (hguard : s.Undisturbed e) (hstep : s.step e = some s') :
    RotationInv s' := by
  cases does_of_step hstep with
  | tick seconds => exact { h with }
  | setUser hexists => exact h.setUser hexists _
  | accepted hp hvalid => exact h.setPhase _ (by simp)
  | rejected => exact h
  | validateFail => exact h
  | addRead hp hfresh => exact rotationInv_drawn h _ _ hfresh
  | @addWrite p old token seen hp =>
      have hseen := hguard old token seen hp
      subst hseen
      exact rotationInv_addWrite h hp
  | addFail => exact h.setPhase _ (by simp)
  | removeRead => exact h.setPhase _ (by simp)
  | @removeWrite p old seen hp =>
      obtain ⟨hseen, hstored⟩ := hguard old seen hp
      subst hseen
      exact rotationInv_removeWrite h p hstored
  | removeFail => exact hguard.elim
  | signInRead hp huser hfresh => exact rotationInv_drawn h _ _ hfresh
  | signOutRead => exact h.setPhase _ (by simp)
  | @signOutWrite p tokenID seen hp =>
      have hseen := hguard tokenID seen hp
      subst hseen
      exact rotationInv_signOutWrite h p tokenID
  | signOutFail => exact h.setPhase _ (by simp)

omit [DecidableEq ι] in
/-- The invariant makes tokens single-use. -/
theorem RotationInv.singleUse {s : Rotation ι} (h : RotationInv s) : s.SingleUse := by
  refine ⟨h.once, fun old hold => ?_, fun huser token htoken hnex hnso hexpired => ?_⟩
  · have hnone : s.getUserRefreshTokenByID old = none := by
      rw [getUserRefreshTokenByID, List.find?_eq_none]
      intro token htoken heq
      exact h.exchanged_gone token htoken (by simpa using (beq_iff_eq.mp heq) ▸ hold)
    simp [authenticates, hnone]
  · have hstored := h.renewed_stored (by rw [huser]; rfl) token htoken hnex hnso
    have hfind : s.getUserRefreshTokenByID token.tokenId = some token := by
      cases hfound : s.getUserRefreshTokenByID token.tokenId with
      | none =>
          have hall := List.find?_eq_none.mp hfound token hstored
          simp at hall
      | some other =>
          have hid := List.find?_some hfound
          have hmem := List.mem_of_find?_eq_some hfound
          rw [h.renewed_unique token htoken other hmem (by simpa using hid)]
    simp [authenticates, hfind, hexpired, huser]

end

/-- In every run of refresh, sign-in and sign-out requests of one user, who may be archived,
restored or deleted meanwhile, in which upserts go over the list they read, no removal of a
presented token fails and one that succeeds finds the token still stored: every token is
exchanged at most once, an exchanged token never validates again, and a token that a request
stored validates until it is exchanged, signed out or expired, while the user is active. -/
theorem rotation_single_use {ι : Type} [DecidableEq ι] (now : ℤ) (user : Option RowStatus)
    (tokens : List RefreshToken) (events : List (RotationEvent ι)) (s : Rotation ι)
    (hrun : Run Rotation.step Rotation.Undisturbed (Rotation.initial now user tokens) events s) :
    s.SingleUse :=
  (hrun.invariant rotationInv_step (rotationInv_initial now user tokens)).singleUse

/-- Two overlapping exchanges of one token: both validate it before either removes it. -/
def overlappingExchanges : List (RotationEvent ℕ) :=
  [.validate 0 "a", .validate 1 "a", .addRead 0 "b", .addWrite 0, .removeRead 0, .removeWrite 0,
    .addRead 1 "c", .addWrite 1, .removeRead 1, .removeWrite 1]

/-- Two exchanges of one token, one after the other: the first one's removal fails. -/
def exchangesAfterFailure : List (RotationEvent ℕ) :=
  [.validate 0 "a", .addRead 0 "b", .addWrite 0, .removeRead 0, .removeFail 0,
    .validate 1 "a", .addRead 1 "c", .addWrite 1, .removeRead 1, .removeWrite 1]

/-- Two exchanges of one token succeed, and both new tokens validate. -/
def ExchangedTwice (events : List (RotationEvent ℕ)) : Prop :=
  ∃ s, FreeRun Rotation.step (Rotation.initial 0 (some .NORMAL) [⟨"a", none⟩]) events s ∧
    s.exchanged = ["a", "a"] ∧ s.authenticates "b" = true ∧ s.authenticates "c" = true ∧
      ¬ s.SingleUse

/-- Exchanges that overlap, or of which the first fails to remove the token, are not single-use. -/
theorem rotation_not_single_use :
    ExchangedTwice overlappingExchanges ∧ ExchangedTwice exchangesAfterFailure := by
  constructor
  · exact ⟨_, Run.of_exec rfl, by decide, by decide, by decide,
      fun h => absurd h.once (by decide)⟩
  · exact ⟨_, Run.of_exec rfl, by decide, by decide, by decide,
      fun h => absurd h.once (by decide)⟩

/-- One exchange after the other, each of the token the previous one issued; the user signs in
again and out. -/
theorem rotation_single_use_example :
    ∃ s, FreeRun Rotation.step (Rotation.initial 0 (some .NORMAL) [⟨"a", none⟩])
      [.validate 0 "a", .addRead 0 "b", .addWrite 0, .removeRead 0, .removeWrite 0,
        .signInRead 2 "c", .addWrite 2, .tick 60, .signOutRead 1 "b", .signOutWrite 1] s ∧
      s.SingleUse := by
  obtain ⟨s, hrun⟩ : ∃ s, Run Rotation.step Rotation.Undisturbed
      (Rotation.initial 0 (some .NORMAL) [⟨"a", none⟩])
      [.validate 0 "a", .addRead 0 "b", .addWrite 0, .removeRead 0, .removeWrite 0,
        .signInRead 2 "c", .addWrite 2, .tick 60, .signOutRead 1 "b", .signOutWrite 1] s := by
    refine ⟨_, .cons trivial rfl (.cons trivial rfl (.cons ?_ rfl (.cons trivial rfl
      (.cons ?_ rfl (.cons trivial rfl (.cons ?_ rfl (.cons trivial rfl (.cons trivial rfl
        (.cons ?_ rfl (.nil _))))))))))⟩
    · rintro old token seen ⟨⟩
      rfl
    · rintro old seen ⟨⟩
      exact ⟨rfl, by decide⟩
    · rintro old token seen ⟨⟩
      rfl
    · rintro tokenID seen ⟨⟩
      rfl
  exact ⟨s, hrun.mono fun _ _ _ => trivial,
    rotation_single_use 0 (some .NORMAL) [⟨"a", none⟩] _ s hrun⟩

end Auth
end MemosNote
