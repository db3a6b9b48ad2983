import Mathlib.Data.Int.Notation
import Mathlib.Logic.Function.Basic
import MemosNote.Library.Run

/-!
# Refreshing access tokens in a tab

The requests of a tab run interleaved, each up to its next {lit}`await`.  A request whose token has
expired waits for a refresh before it is sent, and one that is rejected waits for a refresh and is
sent once more.  All of them go through one manager, which hands out the refresh that is under way.

Main results:

- Theorem {lit}`tabInv_step`: what every step of the tab keeps.
- Theorem {lit}`refresh_single_flight`: refreshes do not overlap, a request is sent at most twice,
  and whoever waits for a refresh can go on when it is answered.
-/

namespace MemosNote
namespace Web

open Library

/-- How far a refresh has come; its cleanup runs after the answer is handled and before anyone
who waits goes on. -/
inductive RefreshCall where
  | sent
  | answered (ok : Bool)
  | settled (ok : Bool)
deriving DecidableEq, Repr

/-- How a request is answered. -/
inductive Response where
  | ok
  | unauthenticated
  | failed
deriving DecidableEq, Repr

/-- How far a request has come. -/
inductive RequestPhase where
  | idle
  /-- It waits for a refresh before it is sent; if that fails, it goes with the old token. -/
  | refreshing (call : ℕ) (token : Option String) (isRetryAttempt : Bool)
  | sent (token : Option String) (isRetryAttempt : Bool)
  /-- It was rejected and waits for a refresh. -/
  | retrying (call : ℕ)
  | resent (token : String)
  | done (ok : Bool)
deriving DecidableEq, Repr

/-- The clock in milliseconds, and the token in memory and in the storage. -/
structure Tokens where
  now : ℤ
  accessToken : Option String := none
  tokenExpiresAt : Option ℤ := none
  storedToken : Option String := none
  storedExpires : Option ℤ := none

/-- The tokens, the refresh manager, the refreshes so far, the requests, and a log of what was
sent. -/
structure Tab extends Tokens where
  isRefreshing : Bool := false
  refreshPromise : Option ℕ := none
  started : ℕ := 0
  calls : ℕ → RefreshCall := fun _ => .settled false
  phase : ℕ → RequestPhase := fun _ => .idle
  log : List (ℕ × Option String) := []

/-- What happens in a tab: a request begins or goes on, the page or the live connection asks for a
refresh, a response or the answer to a refresh arrives, another tab tells its token or writes the
storage. -/
inductive TabEvent where
  | tick (milliseconds : ℕ)
  | begin (r : ℕ) (isRetryAttempt : Bool)
  | gotToken (r : ℕ)
  | respond (r : ℕ) (response : Response) (redirects : Bool)
  | retry (r : ℕ) (redirects : Bool)
  | focus
  | initializeSession
  | refreshAccessToken
  | answer (n : ℕ) (response : Option (String × Option ℤ))
  | cleanUp (n : ℕ)
  | broadcast (token : String) (expiresAt : ℤ)
  | storage (token : Option String) (expiresAt : Option ℤ)
  | signIn (token : String) (expiresAt : Option ℤ)
  | signOut

/-- How long before its end a token is refreshed for a request. -/
def REQUEST_TOKEN_EXPIRY_BUFFER_MS : ℤ :=
  30 * 1000

/-- How long before its end a token is refreshed on focus. -/
def FOCUS_TOKEN_EXPIRY_BUFFER_MS : ℤ :=
  2 * 60 * 1000

/-! ## The token -/

namespace Tokens

variable (s : Tokens)

/-- A text that is there and is not empty. -/
def truthy (text : Option String) : Option String :=
  text.filter (· ≠ "")

/-- Take the token from the storage if there is none in memory, unless it has expired. -/
def loadToken : Tokens :=
  match truthy s.accessToken, truthy s.storedToken, s.storedExpires with
  | none, some token, some expiresAt =>
      if s.now < expiresAt then
        { s with accessToken := some token, tokenExpiresAt := some expiresAt }
      else s
  | _, _, _ => s

/-- The token, taken over from the storage. -/
def getAccessToken : Option String :=
  truthy s.loadToken.accessToken

/-- A new token. -/
def setAccessToken (token : String) (expiresAt : Option ℤ) : Tokens :=
  { s with
    accessToken := some token
    tokenExpiresAt := expiresAt
    storedToken := if token ≠ "" ∧ expiresAt.isSome then some token else none
    storedExpires := if token ≠ "" then expiresAt else none }

/-- The token ends within the buffer. -/
def isTokenExpired (bufferMs : ℤ) : Bool :=
  match s.tokenExpiresAt with
  | none => true
  | some expiresAt => expiresAt - bufferMs ≤ s.now

/-- There is a token, in the tab or in the storage. -/
def hasStoredToken : Bool :=
  (truthy s.accessToken).isSome || (truthy s.storedToken).isSome

/-- The tab and the storage forget the token. -/
def clearAccessToken : Tokens where
  now := s.now

/-- On a page that needs a user, a failure leads to the page for signing in. -/
def redirectOnAuthFailure (redirects : Bool) : Tokens :=
  if redirects then s.clearAccessToken else s

end Tokens

namespace Tab

variable (s : Tab)

/-- The tab with other tokens. -/
def withTokens (tokens : Tokens) : Tab :=
  { s with toTokens := tokens }

/-- The tab after its token was asked for. -/
def load : Tab :=
  s.withTokens s.loadToken

/-! ## The refresh manager -/

/-- The refresh to wait for: the one under way, or else a new one. -/
def awaited : ℕ :=
  match s.isRefreshing, s.refreshPromise with
  | true, some n => n
  | _, _ => s.started

/-- A refresh is sent unless one is under way. -/
def refresh : Tab :=
  match s.isRefreshing, s.refreshPromise with
  | true, some _ => s
  | _, _ =>
      { s with
        isRefreshing := true
        refreshPromise := some s.started
        started := s.started + 1
        calls := Function.update s.calls s.started .sent }

/-! ## The requests -/

/-- Bring a request to a phase. -/
def setPhase (r : ℕ) (phase : RequestPhase) : Tab :=
  { s with phase := Function.update s.phase r phase }

/-- Send a request with its token. -/
def send (r : ℕ) (token : Option String) (phase : RequestPhase) : Tab :=
  { s.setPhase r phase with log := s.log ++ [(r, token)] }

/-- Wait for a refresh. -/
def await (r : ℕ) (phase : ℕ → RequestPhase) : Tab :=
  s.refresh.setPhase r (phase s.awaited)

/-- The token of a new request, refreshed first if it expires soon. -/
def begin (r : ℕ) (isRetryAttempt : Bool) : Tab :=
  match s.getAccessToken with
  | none =>
      if s.loadToken.hasStoredToken then
        s.load.await r fun n => .refreshing n none isRetryAttempt
      else s.load.send r none (.sent none isRetryAttempt)
  | some token =>
      if s.loadToken.isTokenExpired REQUEST_TOKEN_EXPIRY_BUFFER_MS then
        s.load.await r fun n => .refreshing n (some token) isRetryAttempt
      else s.load.send r (some token) (.sent (some token) isRetryAttempt)

/-- One step of the tab. -/
def step : TabEvent → Option Tab
  | .tick milliseconds => some { s with now := s.now + milliseconds }
  | .begin r isRetryAttempt =>
      match s.phase r with
      | .idle => some (s.begin r isRetryAttempt)
      | _ => none
  | .gotToken r =>
      match s.phase r with
      | .refreshing n token isRetryAttempt =>
          match s.calls n with
          | .settled true =>
              let newToken := s.getAccessToken.or token
              some (s.load.send r newToken (.sent newToken isRetryAttempt))
          | .settled false => some (s.send r token (.sent token isRetryAttempt))
          | _ => none
      | _ => none
  | .respond r response redirects =>
      match s.phase r with
      | .sent _ isRetryAttempt =>
          match response with
          | .ok => some (s.setPhase r (.done true))
          | .failed => some (s.setPhase r (.done false))
          | .unauthenticated =>
              if isRetryAttempt then some (s.setPhase r (.done false))
              else some (s.await r .retrying)
      | .resent _ =>
          match response with
          | .ok => some (s.setPhase r (.done true))
          | _ => some ((s.withTokens (s.redirectOnAuthFailure redirects)).setPhase r (.done false))
      | _ => none
  | .retry r redirects =>
      match s.phase r with
      | .retrying n =>
          match s.calls n with
          | .settled true =>
              match s.getAccessToken with
              | some token => some (s.load.send r (some token) (.resent token))
              | none =>
                  some ((s.withTokens (s.loadToken.redirectOnAuthFailure redirects)).setPhase r
                    (.done false))
          | .settled false =>
              some ((s.withTokens (s.redirectOnAuthFailure redirects)).setPhase r (.done false))
          | _ => none
      | _ => none
  | .focus =>
      some (if s.hasStoredToken && s.isTokenExpired FOCUS_TOKEN_EXPIRY_BUFFER_MS then s.refresh
        else s)
  | .initializeSession => some (if s.getAccessToken.isSome then s.load else s.load.refresh)
  | .refreshAccessToken => some s.refresh
  | .answer n response =>
      match s.calls n, response with
      | .sent, some (token, expiresAt) =>
          if token = "" then some { s with calls := Function.update s.calls n (.answered false) }
          else
            some { s.withTokens (s.setAccessToken token expiresAt) with
              calls := Function.update s.calls n (.answered true) }
      | .sent, none => some { s with calls := Function.update s.calls n (.answered false) }
      | _, _ => none
  | .cleanUp n =>
      match s.calls n with
      | .answered ok =>
          some { s with
            isRefreshing := false
            refreshPromise := none
            calls := Function.update s.calls n (.settled ok) }
      | _ => none
  | .broadcast token expiresAt =>
      some (if token = "" then s
        else { s with accessToken := some token, tokenExpiresAt := some expiresAt })
  | .storage token expiresAt => some { s with storedToken := token, storedExpires := expiresAt }
  | .signIn token expiresAt => some (s.withTokens (s.setAccessToken token expiresAt))
  | .signOut => some (s.withTokens s.clearAccessToken)

end Tab

/-- The refresh that a request waits for. -/
def RequestPhase.waitsFor : RequestPhase → Option ℕ
  | refreshing n _ _ => some n
  | retrying n => some n
  | _ => none

/-- How often a request may have been sent. -/
def RequestPhase.sends : RequestPhase → ℕ
  | idle => 0
  | refreshing _ _ _ => 0
  | sent _ _ => 1
  | retrying _ => 1
  | resent _ => 2
  | done _ => 2

/-- How often a request was sent. -/
def Tab.sentTimes (s : Tab) (r : ℕ) : ℕ :=
  s.log.countP fun entry => entry.1 = r

/-! ## What a step does -/

/-- What a step does to the refreshes and the requests. -/
inductive Tab.Move (s : Tab) : TabEvent → Tab → Prop where
  | tokens {e : TabEvent} (tokens : Tokens) : Move s e (s.withTokens tokens)
  | refresh {e : TabEvent} (tokens : Tokens) : Move s e (s.withTokens tokens).refresh
  | stop {e : TabEvent} (tokens : Tokens) {r : ℕ} {phase : RequestPhase}
      (hwaits : phase.waitsFor = none) (hsends : (s.phase r).sends ≤ phase.sends) :
      Move s e ((s.withTokens tokens).setPhase r phase)
  | await {e : TabEvent} (tokens : Tokens) {r : ℕ} {phase : ℕ → RequestPhase}
      (hwaits : ∀ n, (phase n).waitsFor = some n)
      (hsends : ∀ n, (s.phase r).sends ≤ (phase n).sends) :
      Move s e ((s.withTokens tokens).await r phase)
  | send {e : TabEvent} (tokens : Tokens) {r : ℕ} {token : Option String} {phase : RequestPhase}
      (hwaits : phase.waitsFor = none) (hsends : (s.phase r).sends + 1 ≤ phase.sends)
      (hresent : 1 < phase.sends → ∃ n, (s.phase r).waitsFor = some n ∧ s.calls n = .settled true) :
      Move s e ((s.withTokens tokens).send r token phase)
  | answered {n : ℕ} {response : Option (String × Option ℤ)} (tokens : Tokens) {ok : Bool}
      (hn : s.calls n = .sent) :
      Move s (.answer n response)
        { s.withTokens tokens with calls := Function.update s.calls n (.answered ok) }
  | cleanUp {e : TabEvent} {n : ℕ} {ok : Bool} (hn : s.calls n = .answered ok) :
      Move s e { s with
        isRefreshing := false
        refreshPromise := none
        calls := Function.update s.calls n (.settled ok) }

namespace Tab

variable {s t : Tab}

/-- A new request is sent or waits. -/
theorem move_begin {r : ℕ} (hr : s.phase r = .idle) (isRetryAttempt : Bool) :
    s.Move (.begin r isRetryAttempt) (s.begin r isRetryAttempt) := by
  have hnone : (s.phase r).sends = 0 := congrArg RequestPhase.sends hr
  have hsend (token : Option String) : s.Move (.begin r isRetryAttempt)
      (s.load.send r token (.sent token isRetryAttempt)) :=
    .send _ rfl (by rw [hnone]; exact Nat.le_refl 1) fun hlt => absurd hlt (Nat.lt_irrefl 1)
  have hawait (token : Option String) : s.Move (.begin r isRetryAttempt)
      (s.load.await r fun n => .refreshing n token isRetryAttempt) :=
    .await _ (fun _ => rfl) fun _ => Nat.le_of_eq hnone
  rw [Tab.begin]
  split
  · split
    · exact hawait none
    · exact hsend none
  · split
    · exact hawait _
    · exact hsend _

theorem move_of_step {e : TabEvent} (hstep : s.step e = some t) : s.Move e t := by
  cases e with
  | tick milliseconds =>
      cases hstep
      exact .tokens _
  | begin r isRetryAttempt =>
      simp only [step] at hstep
      split at hstep <;> try contradiction
      rename_i hr
      cases hstep
      exact move_begin hr isRetryAttempt
  | gotToken r =>
      simp only [step] at hstep
      split at hstep <;> try contradiction
      rename_i n token isRetryAttempt hr
      have hnone : (s.phase r).sends + 1 ≤ 1 := by rw [hr]; exact Nat.le_refl 1
      split at hstep <;> try contradiction
      · cases hstep
        exact .send _ rfl hnone fun hlt => absurd hlt (Nat.lt_irrefl 1)
      · cases hstep
        exact .send s.toTokens rfl hnone fun hlt => absurd hlt (Nat.lt_irrefl 1)
  | respond r response redirects =>
      simp only [step] at hstep
      split at hstep <;> try contradiction
      · rename_i token isRetryAttempt hr
        have hdone (ok : Bool) : (s.phase r).sends ≤ (RequestPhase.done ok).sends := by
          rw [hr]
          exact Nat.le_succ 1
        split at hstep
        · cases hstep
          exact .stop s.toTokens rfl (hdone true)
        · cases hstep
          exact .stop s.toTokens rfl (hdone false)
        · split at hstep
          · cases hstep
            exact .stop s.toTokens rfl (hdone false)
          · cases hstep
            exact .await s.toTokens (fun _ => rfl) fun _ => by rw [hr]; exact Nat.le_refl 1
      · rename_i token hr
        have hdone (ok : Bool) : (s.phase r).sends ≤ (RequestPhase.done ok).sends := by
          rw [hr]
          exact Nat.le_refl 2
        split at hstep
        · cases hstep
          exact .stop s.toTokens rfl (hdone true)
        · cases hstep
          exact .stop _ rfl (hdone false)
  | retry r redirects =>
      simp only [step] at hstep
      split at hstep <;> try contradiction
      rename_i n hr
      have hone : (s.phase r).sends = 1 := congrArg RequestPhase.sends hr
      have hdone : (s.phase r).sends ≤ (RequestPhase.done false).sends := by
        rw [hone]
        exact Nat.le_succ 1
      split at hstep <;> try contradiction
      · rename_i hsettled
        split at hstep
        · cases hstep
          exact .send _ rfl (Nat.succ_le_succ (Nat.le_of_eq hone)) fun _ =>
            ⟨n, by rw [hr]; rfl, hsettled⟩
        · cases hstep
          exact .stop _ rfl hdone
      · cases hstep
        exact .stop _ rfl hdone
  | focus =>
      cases hstep
      split
      · exact .refresh s.toTokens
      · exact .tokens s.toTokens
  | initializeSession =>
      cases hstep
      split
      · exact .tokens _
      · exact .refresh _
  | refreshAccessToken =>
      cases hstep
      exact .refresh s.toTokens
  | answer n response =>
      simp only [step] at hstep
      split at hstep <;> try contradiction
      · rename_i hn
        split at hstep
        · cases hstep
          exact .answered s.toTokens hn
        · cases hstep
          exact .answered _ hn
      · rename_i hn
        cases hstep
        exact .answered s.toTokens hn
  | cleanUp n =>
      simp only [step] at hstep
      split at hstep <;> try contradiction
      rename_i ok hn
      cases hstep
      exact .cleanUp hn
  | broadcast token expiresAt =>
      cases hstep
      split
      · exact .tokens s.toTokens
      · exact .tokens _
  | storage token expiresAt =>
      cases hstep
      exact .tokens _
  | signIn token expiresAt =>
      cases hstep
      exact .tokens _
  | signOut =>
      cases hstep
      exact .tokens _

end Tab

/-! ## The invariant -/

/-- All refreshes but the one under way are settled, and requests wait for refreshes only. -/
structure TabInv (s : Tab) : Prop where
  refreshing : s.isRefreshing = s.refreshPromise.isSome
  current : ∀ n, s.refreshPromise = some n → n < s.started ∧ ∀ ok, s.calls n ≠ .settled ok
  settled : ∀ n, s.refreshPromise ≠ some n → ∃ ok, s.calls n = .settled ok
  waits : ∀ r n, (s.phase r).waitsFor = some n → n < s.started
  sends : ∀ r, s.sentTimes r ≤ (s.phase r).sends
  resent : ∀ r, 1 < s.sentTimes r → ∃ n < s.started, s.calls n = .settled true

variable {s t : Tab}

theorem TabInv.withTokens (h : TabInv s) (tokens : Tokens) : TabInv (s.withTokens tokens) :=
  ⟨h.refreshing, h.current, h.settled, h.waits, h.sends, h.resent⟩

theorem TabInv.load (h : TabInv s) : TabInv s.load :=
  h.withTokens _

@[simp]
theorem Tab.setPhase_self (s : Tab) (r : ℕ) (phase : RequestPhase) :
    (s.setPhase r phase).phase r = phase :=
  Function.update_self ..

theorem Tab.setPhase_of_ne {r q : ℕ} (h : q ≠ r) (phase : RequestPhase) :
    (s.setPhase r phase).phase q = s.phase q :=
  Function.update_of_ne h _ _

/-- A request goes on without being sent. -/
theorem TabInv.setPhase (h : TabInv s) {r : ℕ} {phase : RequestPhase}
    (hwaits : ∀ n, phase.waitsFor = some n → n < s.started)
    (hsends : s.sentTimes r ≤ phase.sends) : TabInv (s.setPhase r phase) := by
  refine ⟨h.refreshing, h.current, h.settled, fun q n hq => ?_, fun q => ?_, h.resent⟩
  · by_cases hqr : q = r
    · subst hqr
      rw [Tab.setPhase_self] at hq
      exact hwaits n hq
    · rw [Tab.setPhase_of_ne hqr] at hq
      exact h.waits q n hq
  · by_cases hqr : q = r
    · subst hqr
      rw [Tab.setPhase_self]
      exact hsends
    · rw [Tab.setPhase_of_ne hqr]
      exact h.sends q

theorem sentTimes_send (s : Tab) (r q : ℕ) (token : Option String) (phase : RequestPhase) :
    (s.send r token phase).sentTimes q = s.sentTimes q + if r = q then 1 else 0 := by
  simp [Tab.send, Tab.sentTimes, List.countP_append, List.countP_cons]

/-- A request is sent. -/
theorem TabInv.send (h : TabInv s) {r : ℕ} {token : Option String} {phase : RequestPhase}
    (hwaits : phase.waitsFor = none) (hsends : s.sentTimes r + 1 ≤ phase.sends)
    (hresent : 1 < phase.sends → ∃ n < s.started, s.calls n = .settled true) :
    TabInv (s.send r token phase) := by
  have hphase : TabInv (s.setPhase r phase) := h.setPhase
    (fun n hn => absurd (hn.symm.trans hwaits) (Option.some_ne_none n)) (by omega)
  refine ⟨h.refreshing, h.current, h.settled, hphase.waits, fun q => ?_, fun q hq => ?_⟩
  · have hsame : (s.send r token phase).phase q = (s.setPhase r phase).phase q := rfl
    rw [sentTimes_send, hsame]
    by_cases hqr : r = q
    · subst hqr
      rw [if_pos rfl, Tab.setPhase_self]
      exact hsends
    · rw [if_neg hqr]
      exact hphase.sends q
  · rw [sentTimes_send] at hq
    by_cases hqr : r = q
    · subst hqr
      rw [if_pos rfl] at hq
      exact hresent (by omega)
    · rw [if_neg hqr] at hq
      exact h.resent q hq

/-- The manager hands out the refresh under way, or a new one. -/
theorem Tab.refresh_cases (h : TabInv s) :
    (∃ n, s.refreshPromise = some n ∧ s.refresh = s ∧ s.awaited = n) ∨
      (s.refreshPromise = none ∧ s.awaited = s.started ∧ s.refresh = { s with
        isRefreshing := true
        refreshPromise := some s.started
        started := s.started + 1
        calls := Function.update s.calls s.started .sent }) := by
  have hmanager := h.refreshing
  rw [Tab.refresh, Tab.awaited]
  cases hpromise : s.refreshPromise with
  | none =>
      rw [hpromise] at hmanager
      right
      rw [hmanager]
      exact ⟨rfl, rfl, rfl⟩
  | some n =>
      rw [hpromise] at hmanager
      left
      rw [hmanager]
      exact ⟨n, rfl, rfl, rfl⟩

theorem TabInv.refresh (h : TabInv s) : TabInv s.refresh := by
  rcases Tab.refresh_cases h with ⟨n, -, hsame, -⟩ | ⟨hnone, -, hnew⟩
  · rw [hsame]
    exact h
  · rw [hnew]
    have hold {n : ℕ} (hn : n < s.started) :
        Function.update s.calls s.started RefreshCall.sent n = s.calls n :=
      Function.update_of_ne (Nat.ne_of_lt hn) _ _
    refine ⟨rfl, fun n hn => ?_, fun n hn => ?_, fun r n hr => ?_, h.sends, fun r hr => ?_⟩
    · rcases Option.some.inj hn with rfl
      refine ⟨Nat.lt_succ_self _, fun ok => ?_⟩
      dsimp only
      rw [Function.update_self]
      exact RefreshCall.noConfusion
    · have hne : n ≠ s.started := fun heq => hn (congrArg some heq.symm)
      dsimp only
      rw [Function.update_of_ne hne]
      exact h.settled n (by rw [hnone]; exact (Option.some_ne_none n).symm)
    · exact Nat.lt_succ_of_lt (h.waits r n hr)
    · rcases h.resent r hr with ⟨n, hn, hok⟩
      exact ⟨n, Nat.lt_succ_of_lt hn, (hold hn).trans hok⟩

private theorem awaited_lt (h : TabInv s) : s.awaited < s.refresh.started := by
  rcases Tab.refresh_cases h with ⟨n, hpromise, hsame, hawaited⟩ | ⟨-, hawaited, hnew⟩
  · rw [hsame, hawaited]
    exact (h.current n hpromise).1
  · rw [hnew, hawaited]
    exact Nat.lt_succ_self _

private theorem sentTimes_refresh (s : Tab) (r : ℕ) : s.refresh.sentTimes r = s.sentTimes r := by
  rw [Tab.refresh]
  split <;> rfl

/-- A request waits for a refresh. -/
theorem TabInv.await (h : TabInv s) {r : ℕ} {phase : ℕ → RequestPhase}
    (hwaits : ∀ n, (phase n).waitsFor = some n) (hsends : ∀ n, s.sentTimes r ≤ (phase n).sends) :
    TabInv (s.await r phase) := by
  refine h.refresh.setPhase (fun n hn => ?_) ?_
  · rw [hwaits] at hn
    rcases Option.some.inj hn with rfl
    exact awaited_lt h
  · rw [sentTimes_refresh]
    exact hsends _

/-- The refresh under way is answered. -/
theorem TabInv.answered (h : TabInv s) {n : ℕ} (hn : s.calls n = .sent) (ok : Bool) :
    TabInv { s with calls := Function.update s.calls n (.answered ok) } := by
  have hcurrent : s.refreshPromise = some n := by
    by_contra hne
    rcases h.settled n hne with ⟨ok, hsettled⟩
    rw [hn] at hsettled
    cases hsettled
  have hold {m : ℕ} (hm : s.calls m ≠ .sent) :
      Function.update s.calls n (RefreshCall.answered ok) m = s.calls m := by
    refine Function.update_of_ne ?_ _ _
    rintro rfl
    exact hm hn
  refine ⟨h.refreshing, fun m hm => ?_, fun m hm => ?_, h.waits, h.sends, fun r hr => ?_⟩
  · rcases Option.some.inj (hcurrent.symm.trans hm) with rfl
    refine ⟨(h.current n hcurrent).1, fun ok' => ?_⟩
    dsimp only
    rw [Function.update_self]
    exact RefreshCall.noConfusion
  · rcases h.settled m hm with ⟨ok', hsettled⟩
    refine ⟨ok', (hold ?_).trans hsettled⟩
    rw [hsettled]
    exact RefreshCall.noConfusion
  · rcases h.resent r hr with ⟨m, hm, hok⟩
    refine ⟨m, hm, (hold ?_).trans hok⟩
    rw [hok]
    exact RefreshCall.noConfusion

/-- The manager is free for a new refresh. -/
theorem TabInv.cleanUp (h : TabInv s) {n : ℕ} {ok : Bool} (hn : s.calls n = .answered ok) :
    TabInv { s with
      isRefreshing := false
      refreshPromise := none
      calls := Function.update s.calls n (.settled ok) } := by
  refine ⟨rfl, fun m hm => absurd hm (Option.some_ne_none m).symm, fun m _ => ?_, h.waits, h.sends,
    fun r hr => ?_⟩
  · by_cases hmn : m = n
    · subst hmn
      exact ⟨ok, Function.update_self ..⟩
    · have hcurrent : s.refreshPromise = some n := by
        by_contra hne
        rcases h.settled n hne with ⟨ok', hsettled⟩
        rw [hn] at hsettled
        cases hsettled
      rcases h.settled m (fun hm => hmn (Option.some.inj (hm.symm.trans hcurrent))) with
        ⟨ok', hsettled⟩
      exact ⟨ok', (Function.update_of_ne hmn _ _).trans hsettled⟩
  · rcases h.resent r hr with ⟨m, hm, hok⟩
    refine ⟨m, hm, (Function.update_of_ne ?_ _ _).trans hok⟩
    rintro rfl
    rw [hn] at hok
    cases hok

/-- One step of the tab keeps the invariant. -/
theorem tabInv_step (s : Tab) (e : TabEvent) (t : Tab) (h : TabInv s) (hstep : s.step e = some t) :
    TabInv t := by
  cases Tab.move_of_step hstep with
  | tokens tokens => exact h.withTokens tokens
  | refresh tokens => exact (h.withTokens tokens).refresh
  | stop tokens hwaits hsends =>
      exact (h.withTokens tokens).setPhase
        (fun n hn => absurd (hn.symm.trans hwaits) (Option.some_ne_none n))
        (Nat.le_trans (h.sends _) hsends)
  | await tokens hwaits hsends =>
      exact (h.withTokens tokens).await hwaits fun n => Nat.le_trans (h.sends _) (hsends n)
  | send tokens hwaits hsends hresent =>
      refine (h.withTokens tokens).send hwaits
        (Nat.le_trans (Nat.succ_le_succ (h.sends _)) hsends) fun htwice => ?_
      rcases hresent htwice with ⟨n, hn, hsettled⟩
      exact ⟨n, h.waits _ n hn, hsettled⟩
  | answered tokens hn => exact (h.answered hn _).withTokens tokens
  | cleanUp hn => exact h.cleanUp hn

/-- What happens to the refreshes that were started before, and to new ones. -/
structure Tab.Grows (s t : Tab) : Prop where
  started : s.started ≤ t.started
  sent : ∀ n < s.started, t.calls n = .sent ↔ s.calls n = .sent
  fresh : ∀ n, s.started ≤ n → n < t.started → t.calls n = .sent

theorem Tab.Grows.refl (s : Tab) : s.Grows s :=
  ⟨Nat.le_refl _, fun _ _ => Iff.rfl, fun _ hle hlt => absurd hlt (Nat.not_lt.mpr hle)⟩

theorem TabInv.grows_refresh (h : TabInv s) : s.Grows s.refresh := by
  rcases Tab.refresh_cases h with ⟨n, -, hsame, -⟩ | ⟨-, -, hnew⟩
  · rw [hsame]
    exact Tab.Grows.refl s
  · rw [hnew]
    refine ⟨Nat.le_succ _, fun n hn => ?_, fun n hle hlt => ?_⟩
    · dsimp only
      rw [Function.update_of_ne (Nat.ne_of_lt hn)]
    · have hnew : n = s.started := Nat.le_antisymm (Nat.le_of_lt_succ hlt) hle
      rw [hnew]
      exact Function.update_self ..

/-- A refresh is under way until it is answered. -/
theorem TabInv.grows_step (h : TabInv s) {e : TabEvent}
    (hanswer : ∀ n response, e ≠ .answer n response) (hstep : s.step e = some t) : s.Grows t := by
  have hkept := Tab.Grows.refl s
  cases Tab.move_of_step hstep with
  | tokens tokens => exact ⟨hkept.started, hkept.sent, hkept.fresh⟩
  | refresh tokens =>
      have hrefresh := (h.withTokens tokens).grows_refresh
      exact ⟨hrefresh.started, hrefresh.sent, hrefresh.fresh⟩
  | stop tokens => exact ⟨hkept.started, hkept.sent, hkept.fresh⟩
  | await tokens =>
      have hrefresh := (h.withTokens tokens).grows_refresh
      exact ⟨hrefresh.started, hrefresh.sent, hrefresh.fresh⟩
  | send tokens => exact ⟨hkept.started, hkept.sent, hkept.fresh⟩
  | answered tokens => exact absurd rfl (hanswer _ _)
  | @cleanUp _ n ok hn =>
      refine ⟨Nat.le_refl _, fun m _ => ?_, fun m hle hlt => absurd hlt (Nat.not_lt.mpr hle)⟩
      dsimp only
      by_cases hmn : m = n
      · subst hmn
        simp [hn]
      · rw [Function.update_of_ne hmn]

/-- The answer to a refresh. -/
theorem Tab.step_answer {n : ℕ} {response : Option (String × Option ℤ)}
    (hstep : s.step (.answer n response) = some t) : s.calls n = .sent ∧
      t.started = s.started ∧ ∃ ok, t.calls = Function.update s.calls n (.answered ok) := by
  simp only [Tab.step] at hstep
  split at hstep <;> try contradiction
  · rename_i hn
    split at hstep
    · cases hstep
      exact ⟨hn, rfl, false, rfl⟩
    · cases hstep
      exact ⟨hn, rfl, true, rfl⟩
  · rename_i hn
    cases hstep
    exact ⟨hn, rfl, false, rfl⟩

/-! ## Runs -/

/-- A tab that was opened, with what the storage holds. -/
def Tab.initial (now : ℤ) (storedToken : Option String) (storedExpires : Option ℤ) : Tab where
  now := now
  storedToken := storedToken
  storedExpires := storedExpires

theorem tabInv_initial (now : ℤ) (storedToken : Option String) (storedExpires : Option ℤ) :
    TabInv (Tab.initial now storedToken storedExpires) := by
  refine ⟨rfl, fun n hn => absurd hn (Option.some_ne_none n).symm, fun n _ => ⟨false, rfl⟩,
    fun r n hr => absurd hr (Option.some_ne_none n).symm, fun r => Nat.le_refl 0, fun r hr => ?_⟩
  exact absurd hr (Nat.not_lt_zero 1)

/-- What a request or the manager does by itself. -/
def TabEvent.Internal : TabEvent → Prop
  | cleanUp _ => True
  | gotToken _ => True
  | retry _ _ => True
  | _ => False

/-- Refreshes do not overlap, a request is sent at most twice, and twice only after a refresh has
succeeded, and whoever waits for a refresh goes on once it is answered. -/
structure SingleFlight (s : Tab) : Prop where
  alone : ∀ n m, (∀ ok, s.calls n ≠ .settled ok) → (∀ ok, s.calls m ≠ .settled ok) → n = m
  twice : ∀ r, s.sentTimes r ≤ 2
  resent : ∀ r, 1 < s.sentTimes r → ∃ n < s.started, s.calls n = .settled true
  goesOn : ∀ r n, (s.phase r).waitsFor = some n → s.calls n ≠ .sent →
    ∃ events t, (∀ e ∈ events, e.Internal) ∧ FreeRun Tab.step s events t ∧
      (t.phase r).waitsFor = none

/-- A request whose refresh is settled goes on. -/
theorem exists_goesOn {r n : ℕ} {ok : Bool} (hr : (s.phase r).waitsFor = some n)
    (hn : s.calls n = .settled ok) :
    ∃ e t, e.Internal ∧ s.step e = some t ∧ (t.phase r).waitsFor = none := by
  cases hphase : s.phase r with
  | refreshing n' token isRetryAttempt =>
      rw [hphase] at hr
      rcases Option.some.inj hr with rfl
      refine ⟨.gotToken r, ?_⟩
      cases ok with
      | true =>
          refine ⟨_, trivial, by simp only [Tab.step, hphase, hn]; rfl, ?_⟩
          exact congrArg RequestPhase.waitsFor (Tab.setPhase_self ..)
      | false =>
          refine ⟨_, trivial, by simp only [Tab.step, hphase, hn]; rfl, ?_⟩
          exact congrArg RequestPhase.waitsFor (Tab.setPhase_self ..)
  | retrying n' =>
      rw [hphase] at hr
      rcases Option.some.inj hr with rfl
      refine ⟨.retry r false, ?_⟩
      cases ok with
      | true =>
          cases htoken : s.getAccessToken with
          | some token =>
              refine ⟨_, trivial, by simp only [Tab.step, hphase, hn, htoken]; rfl, ?_⟩
              exact congrArg RequestPhase.waitsFor (Tab.setPhase_self ..)
          | none =>
              refine ⟨_, trivial, by simp only [Tab.step, hphase, hn, htoken]; rfl, ?_⟩
              exact congrArg RequestPhase.waitsFor (Tab.setPhase_self ..)
      | false =>
          refine ⟨_, trivial, by simp only [Tab.step, hphase, hn]; rfl, ?_⟩
          exact congrArg RequestPhase.waitsFor (Tab.setPhase_self ..)
  | idle =>
      rw [hphase] at hr
      cases hr
  | sent token isRetryAttempt =>
      rw [hphase] at hr
      cases hr
  | resent token =>
      rw [hphase] at hr
      cases hr
  | done ok =>
      rw [hphase] at hr
      cases hr

theorem TabInv.singleFlight (h : TabInv s) : SingleFlight s := by
  have hcurrent {n : ℕ} (hn : ∀ ok, s.calls n ≠ .settled ok) : s.refreshPromise = some n := by
    by_contra hne
    rcases h.settled n hne with ⟨ok, hsettled⟩
    exact hn ok hsettled
  refine ⟨fun n m hn hm => ?_, fun r => ?_, h.resent, fun r n hr hn => ?_⟩
  · exact Option.some.inj ((hcurrent hn).symm.trans (hcurrent hm))
  · have hsends := h.sends r
    cases hphase : s.phase r <;> rw [hphase, RequestPhase.sends] at hsends <;> omega
  · cases hcall : s.calls n with
    | sent => exact absurd hcall hn
    | settled ok =>
        rcases exists_goesOn hr hcall with ⟨e, t, he, hstep, ht⟩
        refine ⟨[e], t, fun e' he' => ?_, .cons trivial hstep (.nil t), ht⟩
        rcases List.mem_singleton.mp he' with rfl
        exact he
    | answered ok =>
        have hclean : s.step (.cleanUp n) = some { s with
            isRefreshing := false
            refreshPromise := none
            calls := Function.update s.calls n (.settled ok) } := by
          simp only [Tab.step, hcall]
        rcases @exists_goesOn { s with
            isRefreshing := false
            refreshPromise := none
            calls := Function.update s.calls n (.settled ok) } r n ok hr
            (Function.update_self ..) with ⟨e, t, he, hstep, ht⟩
        refine ⟨[.cleanUp n, e], t, fun e' he' => ?_,
          .cons trivial hclean (.cons trivial hstep (.nil t)), ht⟩
        rcases List.mem_pair.mp he' with rfl | rfl
        · trivial
        · exact he

/-- In every run of a tab, in whichever order its requests take their steps, refreshes do not
overlap, no request is sent more than twice, and none waits forever. -/
theorem refresh_single_flight {now : ℤ} {storedToken : Option String} {storedExpires : Option ℤ}
    {events : List TabEvent} {s : Tab}
    (hrun : FreeRun Tab.step (Tab.initial now storedToken storedExpires) events s) :
    SingleFlight s :=
  (hrun.invariant (fun s e t h _ => tabInv_step s e t h)
    (tabInv_initial now storedToken storedExpires)).singleFlight

/-- Two requests with an expired token wait for one refresh, and one of them is sent again. -/
def expiredRequests : List TabEvent :=
  [.begin 0 false, .begin 1 false, .answer 0 (some ("b", some 900000)), .cleanUp 0, .gotToken 1,
    .gotToken 0, .respond 0 .unauthenticated true, .answer 1 (some ("c", some 900000)), .cleanUp 1,
    .retry 0 true, .respond 0 .ok true]

theorem refresh_single_flight_expired : ∃ s,
    FreeRun Tab.step (Tab.initial 0 (some "a") (some 0)) expiredRequests s ∧
      s.log = [(1, some "b"), (0, some "b"), (0, some "c")] ∧ SingleFlight s := by
  have hrun : ∃ s, FreeRun Tab.step (Tab.initial 0 (some "a") (some 0)) expiredRequests s ∧
      s.log = [(1, some "b"), (0, some "b"), (0, some "c")] :=
    ⟨_, .cons trivial rfl (.cons trivial rfl (.cons trivial rfl (.cons trivial rfl
      (.cons trivial rfl (.cons trivial rfl (.cons trivial rfl (.cons trivial rfl
        (.cons trivial rfl (.cons trivial rfl (.cons trivial rfl (.nil _))))))))))), rfl⟩
  rcases hrun with ⟨s, hrun, hlog⟩
  exact ⟨s, hrun, hlog, refresh_single_flight hrun⟩

end Web
end MemosNote
