import MemosNote.Auth.SerialRotation
import MemosNote.Web.TokenRefresh

/-!
# A session kept alive by refreshes

A tab sends its refreshes with the cookie of the session, and the server exchanges the token in the
cookie for a new one in several steps, between which the tab goes on.  Signing in stores a token and
sets the cookie, signing out removes the token in the cookie and clears it.  The tab has one refresh
under way at most, so its exchanges come one after the other.

Main results:

- Theorem {lit}`sessionInv_step`: the server is serial when signing in and out overlaps with nothing
  and the tab gives up no refresh that the server may still work on.
- Theorem {lit}`session_single_use`: then tokens are single-use.
- Theorem {lit}`session_kept`: if also no answer to an exchange is lost, the cookie of a user who is
  signed in holds a stored token, and a refresh finds its token stored.
-/

namespace MemosNote
namespace Auth

open Library Store Web Rotation

/-! ## The tab and the server -/

/-- A request of the tab: a refresh, or a request to sign in or out. -/
inductive Request where
  | refresh (n : ℕ)
  | sign (k : ℕ)
deriving DecidableEq, Repr

/-- What the server does with a refresh. -/
inductive Handling where
  | waiting
  /-- An exchange, with the identifier of the new token once that is drawn. -/
  | working (newTokenID : Option String)
  | exchanged (newTokenID : String)
  | failed
deriving DecidableEq, Repr

/-- How far a request to sign in or out has come. -/
inductive SignRequest where
  | idle
  | signingIn (newTokenID : String)
  | signedIn (newTokenID : String)
  | signingOut (tokenID : String)
  | signedOut
  | done
deriving DecidableEq, Repr

/-- A tab and the tokens of its user on the server; the cookie of the session and those that the
refreshes were sent with, as identifiers of tokens.  Whether the user has signed out since the last
sign-in is remembered. -/
structure Session where
  tab : Tab
  server : Rotation Request
  cookie : Option String
  presented : ℕ → Option String := fun _ => none
  handled : ℕ → Handling := fun _ => .waiting
  signs : ℕ → SignRequest := fun _ => .idle
  signedIn : Bool := true

/-- A step of the tab or of the server; the answer to a refresh arrives or is lost; the user signs
out, and the answer to a request to sign in or out arrives or is lost. -/
inductive SessionEvent where
  | tab (e : TabEvent)
  | serve (e : RotationEvent Request)
  | answer (n : ℕ) (accessToken : String) (expiresAt : Option ℤ)
  | reject (n : ℕ)
  | lose (n : ℕ)
  | signOut (k : ℕ) (identified : Bool)
  | answerSign (k : ℕ)
  | loseSign (k : ℕ)

/-- The exchange ends. -/
def Handling.finish : Handling → Handling
  | working (some newTokenID) => exchanged newTokenID
  | handling => handling

/-- The sign-in ends, also if its token could not be stored. -/
def SignRequest.finish : SignRequest → SignRequest
  | signingIn newTokenID => signedIn newTokenID
  | request => request

namespace Session

variable (s : Session)

/-- The refresh was started and the server has not seen it. -/
def sentWaiting (n : ℕ) : Bool :=
  decide (n < s.tab.started) && s.handled n == .waiting

/-- Whether a step of the server is one for a request that was sent. -/
def admits : RotationEvent Request → Bool
  | .validate (.refresh n) tokenID => s.sentWaiting n && s.presented n == some tokenID
  | .validateFail (.refresh n) => s.sentWaiting n
  | .validate (.sign _) _ | .validateFail (.sign _) => false
  | .signInRead (.sign k) _ => s.signs k == .idle
  | .signInRead (.refresh _) _ => false
  | .signOutRead (.sign k) tokenID => s.signs k == .signingOut tokenID
  | .signOutRead (.refresh _) _ => false
  | _ => true

/-- What a step of the server makes of the refreshes. -/
def handling : RotationEvent Request → ℕ → Handling
  | .validate (.refresh n) tokenID =>
      Function.update s.handled n
        (if s.server.authenticates tokenID then .working none else .failed)
  | .validateFail (.refresh n) => Function.update s.handled n .failed
  | .addRead (.refresh n) newTokenID => Function.update s.handled n (.working (some newTokenID))
  | .addFail (.refresh n) => Function.update s.handled n .failed
  | .removeWrite (.refresh n) | .removeFail (.refresh n) =>
      Function.update s.handled n (s.handled n).finish
  | _ => s.handled

/-- What a step of the server makes of the requests to sign in and out. -/
def signing : RotationEvent Request → ℕ → SignRequest
  | .signInRead (.sign k) newTokenID => Function.update s.signs k (.signingIn newTokenID)
  | .addWrite (.sign k) | .addFail (.sign k) => Function.update s.signs k (s.signs k).finish
  | .signOutWrite (.sign k) | .signOutFail (.sign k) => Function.update s.signs k .signedOut
  | _ => s.signs

/-- The session after a step of the server. -/
def served (e : RotationEvent Request) (server : Rotation Request) : Session :=
  { s with server := server, handled := s.handling e, signs := s.signing e }

/-- A refresh that a step of the tab starts is sent with the cookie. -/
def withTab (tab : Tab) : Session :=
  { s with
    tab := tab
    presented := fun n => if n < s.tab.started then s.presented n else s.cookie }

/-- A request to sign in or out has been answered, or its answer was lost. -/
def finishSign (k : ℕ) : Session :=
  { s with signs := Function.update s.signs k .done }

/-- One step.  Without a cookie, or for a caller that is not identified, signing out removes
nothing. -/
def step : SessionEvent → Option Session
  | .tab e =>
      match e with
      | .answer _ _ => none
      | e => (s.tab.step e).map s.withTab
  | .serve e => if s.admits e then (s.server.step e).map (s.served e) else none
  | .answer n accessToken expiresAt =>
      match s.handled n with
      | .exchanged newTokenID =>
          (s.tab.step (.answer n (some (accessToken, expiresAt)))).map fun tab =>
            { s.withTab tab with cookie := some newTokenID }
      | _ => none
  | .reject n =>
      match s.handled n with
      | .failed => (s.tab.step (.answer n none)).map s.withTab
      | _ => none
  | .lose n => (s.tab.step (.answer n none)).map s.withTab
  | .signOut k identified =>
      match s.signs k with
      | .idle =>
          some { s with
            signs := Function.update s.signs k
              (match s.cookie, identified with
              | some tokenID, true => .signingOut tokenID
              | _, _ => .signedOut)
            signedIn := false }
      | _ => none
  | .answerSign k =>
      match s.signs k with
      | .signedIn newTokenID =>
          some { s.finishSign k with cookie := some newTokenID, signedIn := true }
      | .signedOut => some { s.finishSign k with cookie := none }
      | _ => none
  | .loseSign k =>
      match s.signs k with
      | .idle | .done => none
      | _ => some (s.finishSign k)

/-- A request that was sent and not answered. -/
def UnderWay : Request → Prop
  | .refresh n => s.tab.calls n = .sent
  | .sign k => s.signs k ≠ .idle ∧ s.signs k ≠ .done

/-- No request is under way. -/
def Rest : Prop :=
  ∀ p, ¬s.UnderWay p

/-- The server works on a request. -/
def Working : Request → Prop
  | .refresh n => ∃ newTokenID, s.handled n = .working newTokenID
  | .sign k => (∃ newTokenID, s.signs k = .signingIn newTokenID) ∨
      ∃ tokenID, s.signs k = .signingOut tokenID

/-- Signing in or out overlaps with no other request, the tab gives up no request that the server
may still work on, the user is not deleted during a request, and no removal of a presented token
fails. -/
def Separate : SessionEvent → Prop
  | .tab e => ∀ tab, s.tab.step e = some tab → tab.started ≠ s.tab.started →
      ∀ k, ¬s.UnderWay (.sign k)
  | .serve (.signInRead _ _) => s.Rest
  | .serve (.setUser none) => s.server.Quiet
  | .serve (.removeFail _) => False
  | .lose n => s.handled n ≠ .waiting ∧ ¬s.Working (.refresh n)
  | .signOut _ _ => s.Rest
  | .loseSign k => ¬s.Working (.sign k)
  | _ => True

/-- Moreover no answer to an exchange is lost, and a sign-in does not fail to store its token. -/
def NoneLost : SessionEvent → Prop
  | .serve (.addFail (.sign _)) => False
  | .lose n => s.handled n = .failed
  | e => s.Separate e

/-- A tab that was opened, with a session. -/
def initial (tab : Tab) (now : ℤ) (user : Option RowStatus) (tokens : List RefreshToken)
    (cookie : Option String) : Session where
  tab := tab
  server := Rotation.initial now user tokens
  cookie := cookie

/-- A run that loses nothing separates its requests. -/
theorem separate_of_noneLost (s : Session) (e : SessionEvent) (h : s.NoneLost e) :
    s.Separate e := by
  cases e with
  | lose n =>
      have hfailed : s.handled n = .failed := h
      refine ⟨by rw [hfailed]; exact Handling.noConfusion, ?_⟩
      rintro ⟨newTokenID, hworking⟩
      rw [hfailed] at hworking
      cases hworking
  | serve e =>
      cases e with
      | addFail p =>
          cases p with
          | refresh n => trivial
          | sign k => exact h.elim
      | _ => exact h
  | _ => exact h

end Session

/-! ## One request at a time -/

variable {s t : Session}

/-- What the session knows of a request in each phase. -/
inductive Busy (s : Session) : Request → Phase → Prop where
  | idle {p : Request} : Busy s p .idle
  | validated {n : ℕ} {old : String} (h : s.handled n = .working none) :
      Busy s (.refresh n) (.validated old)
  | adding {n : ℕ} {old : String} {token : RefreshToken} {seen : List RefreshToken}
      (h : s.handled n = .working (some token.tokenId)) :
      Busy s (.refresh n) (.adding (some old) token seen)
  | added {n : ℕ} {old new : String} (h : s.handled n = .working (some new)) :
      Busy s (.refresh n) (.added old)
  | removing {n : ℕ} {old new : String} {seen : List RefreshToken}
      (h : s.handled n = .working (some new)) : Busy s (.refresh n) (.removing old seen)
  | signingIn {k : ℕ} {token : RefreshToken} {seen : List RefreshToken}
      (h : s.signs k = .signingIn token.tokenId) : Busy s (.sign k) (.adding none token seen)
  | signingOut {k : ℕ} {tokenID : String} {seen : List RefreshToken}
      (h : s.signs k = .signingOut tokenID) : Busy s (.sign k) (.signingOut tokenID seen)

/-- A request in a phase of the server is under way. -/
theorem Busy.working {p : Request} {phase : Phase} (h : Busy s p phase) (hphase : phase ≠ .idle) :
    s.Working p := by
  cases h with
  | idle => exact absurd rfl hphase
  | validated h | adding h | added h | removing h => exact ⟨_, h⟩
  | signingIn h => exact Or.inl ⟨_, h⟩
  | signingOut h => exact Or.inr ⟨_, h⟩

/-- A request in a phase stays in it while what is known of it stays. -/
theorem Busy.congr {p : Request} {phase : Phase} (h : Busy s p phase)
    (hhandled : ∀ n, p = .refresh n → t.handled n = s.handled n)
    (hsigns : ∀ k, p = .sign k → t.signs k = s.signs k) : Busy t p phase := by
  cases h with
  | idle => exact .idle
  | validated h => exact .validated ((hhandled _ rfl).trans h)
  | adding h => exact .adding ((hhandled _ rfl).trans h)
  | added h => exact .added ((hhandled _ rfl).trans h)
  | removing h => exact .removing ((hhandled _ rfl).trans h)
  | signingIn h => exact .signingIn ((hsigns _ rfl).trans h)
  | signingOut h => exact .signingOut ((hsigns _ rfl).trans h)

/-- One request is under way at most, and the server works on no other. -/
structure SessionInv (s : Session) : Prop where
  tab : TabInv s.tab
  rotation : RotationInv s.server
  orderly : s.server.Orderly
  alone : ∀ p q, s.UnderWay p → s.UnderWay q → p = q
  busy : ∀ p, Busy s p (s.server.phase p)
  pending : ∀ n < s.tab.started, s.handled n = .waiting ∨ s.Working (.refresh n) →
    s.tab.calls n = .sent
  unseen : ∀ n, s.tab.started ≤ n → s.handled n = .waiting

/-- A refresh under way was started, and it is the only one. -/
theorem lt_started {tab : Tab} (h : TabInv tab) {n : ℕ} (hn : tab.calls n = .sent) :
    n < tab.started := by
  by_contra hlt
  have hnone : tab.refreshPromise ≠ some n := fun heq => hlt (h.current n heq).1
  rcases h.settled n hnone with ⟨ok, hsettled⟩
  rw [hn] at hsettled
  cases hsettled

/-- At most one refresh is sent. -/
theorem eq_of_sent {tab : Tab} (h : TabInv tab) {n m : ℕ} (hn : tab.calls n = .sent)
    (hm : tab.calls m = .sent) : n = m := by
  have hpending {k : ℕ} (hk : tab.calls k = .sent) (ok : Bool) : tab.calls k ≠ .settled ok := by
    rw [hk]
    exact RefreshCall.noConfusion
  exact h.singleFlight.alone n m (hpending hn) (hpending hm)

/-- What the server works on is under way. -/
theorem SessionInv.underWay (h : SessionInv s) {p : Request} (hp : s.Working p) :
    s.UnderWay p := by
  cases p with
  | refresh n =>
      refine h.pending n ?_ (Or.inr hp)
      by_contra hlt
      have hwaiting := h.unseen n (Nat.not_lt.mp hlt)
      rcases hp with ⟨newTokenID, hworking⟩
      rw [hwaiting] at hworking
      cases hworking
  | sign k =>
      rcases hp with ⟨newTokenID, hp⟩ | ⟨tokenID, hp⟩
      · exact ⟨by rw [hp]; exact SignRequest.noConfusion, by rw [hp]; exact SignRequest.noConfusion⟩
      · exact ⟨by rw [hp]; exact SignRequest.noConfusion, by rw [hp]; exact SignRequest.noConfusion⟩

/-- While nothing else is under way than a request that the server has not begun, it is quiet. -/
theorem SessionInv.quiet (h : SessionInv s) {p : Request} (hp : s.server.phase p = .idle)
    (hothers : ∀ q, s.UnderWay q → q = p) : s.server.Quiet := by
  intro q
  by_contra hq
  have hqp := hothers q (h.underWay ((h.busy q).working hq))
  rw [hqp] at hq
  exact hq hp

/-- A refresh that waits for its answer is sent. -/
theorem sent_of_sentWaiting (h : SessionInv s) {n : ℕ} (hn : s.sentWaiting n = true) :
    s.handled n = .waiting ∧ s.tab.calls n = .sent := by
  rcases Bool.and_eq_true_iff.mp hn with ⟨hlt, hwaiting⟩
  have hwaiting := beq_iff_eq.mp hwaiting
  exact ⟨hwaiting, h.pending n (of_decide_eq_true hlt) (Or.inl hwaiting)⟩

/-- The server is serial. -/
theorem SessionInv.serial (h : SessionInv s) {e : RotationEvent Request}
    {server : Rotation Request} (hadmits : s.admits e = true)
    (hguard : s.Separate (.serve e)) (hstep : s.server.step e = some server) :
    s.server.Serial e := by
  cases Rotation.does_of_step hstep with
  | @setUser user =>
      cases user with
      | none => exact hguard
      | some status => trivial
  | removeFail => exact hguard
  | @accepted p tokenID hp | @rejected p tokenID hp =>
      cases p with
      | sign k => cases hadmits
      | refresh n =>
          have hsent := (sent_of_sentWaiting h (Bool.and_eq_true_iff.mp hadmits).1).2
          exact h.quiet hp fun q hq => h.alone q _ hq hsent
  | @signInRead p newTokenID hp =>
      cases p with
      | refresh n => cases hadmits
      | sign k => exact h.quiet hp fun q hq => absurd hq (hguard q)
  | @signOutRead p tokenID hp =>
      cases p with
      | refresh n => cases hadmits
      | sign k =>
          have hsign : s.signs k = .signingOut tokenID := beq_iff_eq.mp hadmits
          exact h.quiet hp fun q hq => h.alone q _ hq (h.underWay (Or.inr ⟨tokenID, hsign⟩))
  | _ => trivial

/-! ## Steps of the server -/

/-- An event of another request leaves a refresh where it is. -/
theorem handling_of_ne {e : RotationEvent Request} {n : ℕ} (he : e.request? ≠ some (.refresh n)) :
    s.handling e n = s.handled n := by
  have hother {m : ℕ} {handling : Handling} (hm : e.request? = some (.refresh m)) :
      Function.update s.handled m handling n = s.handled n := by
    refine Function.update_of_ne ?_ _ _
    rintro rfl
    exact he hm
  cases e with
  | validate p _ | validateFail p | addRead p _ | addFail p | removeWrite p | removeFail p =>
      cases p with
      | refresh m => exact hother rfl
      | sign k => rfl
  | _ => rfl

/-- An event of another request leaves a sign-in where it is. -/
theorem signing_of_ne {e : RotationEvent Request} {k : ℕ} (he : e.request? ≠ some (.sign k)) :
    s.signing e k = s.signs k := by
  have hother {j : ℕ} {request : SignRequest} (hj : e.request? = some (.sign j)) :
      Function.update s.signs j request k = s.signs k := by
    refine Function.update_of_ne ?_ _ _
    rintro rfl
    exact he hj
  cases e with
  | signInRead p _ | addWrite p | addFail p | signOutWrite p | signOutFail p =>
      cases p with
      | refresh n => rfl
      | sign j => exact hother rfl
  | _ => rfl

/-- The server works on what is under way, or it begins with a sign-in. -/
theorem SessionInv.request_underWay (h : SessionInv s) {e : RotationEvent Request}
    {server : Rotation Request} (hadmits : s.admits e = true) (hdoes : s.server.Does e server)
    {p : Request} (hp : e.request? = some p) :
    s.UnderWay p ∨ ∃ newTokenID, e = .signInRead p newTokenID := by
  have hbusy {old : Phase} (hphase : s.server.phase p = old) (hne : old ≠ .idle) : s.UnderWay p :=
    h.underWay ((h.busy p).working (hphase ▸ hne))
  cases hdoes with
  | tick | setUser => cases hp
  | accepted | rejected =>
      cases hp
      cases p with
      | refresh n => exact Or.inl (sent_of_sentWaiting h (Bool.and_eq_true_iff.mp hadmits).1).2
      | sign k => cases hadmits
  | validateFail =>
      cases hp
      cases p with
      | refresh n => exact Or.inl (sent_of_sentWaiting h hadmits).2
      | sign k => cases hadmits
  | signInRead =>
      cases hp
      exact Or.inr ⟨_, rfl⟩
  | @signOutRead _ tokenID =>
      cases hp
      cases p with
      | refresh n => cases hadmits
      | sign k => exact Or.inl (h.underWay (Or.inr ⟨tokenID, beq_iff_eq.mp hadmits⟩))
  | addFail hphase =>
      cases hp
      rcases hphase with ⟨old, hphase⟩ | ⟨old, token, seen, hphase⟩
      · exact Or.inl (hbusy hphase Phase.noConfusion)
      · exact Or.inl (hbusy hphase Phase.noConfusion)
  | removeFail hphase =>
      cases hp
      rcases hphase with hphase | ⟨seen, hphase⟩
      · exact Or.inl (hbusy hphase Phase.noConfusion)
      · exact Or.inl (hbusy hphase Phase.noConfusion)
  | addRead hphase | addWrite hphase | removeRead hphase | removeWrite hphase
  | signOutWrite hphase | signOutFail hphase =>
      cases hp
      exact Or.inl (hbusy hphase Phase.noConfusion)

/-- What is known of the request that the server takes a step for. -/
theorem SessionInv.busy_served (h : SessionInv s) {e : RotationEvent Request}
    {server : Rotation Request} (hadmits : s.admits e = true) (hdoes : s.server.Does e server)
    {p : Request} (hp : e.request? = some p) : Busy (s.served e server) p (server.phase p) := by
  have hbusy := h.busy p
  cases hdoes with
  | tick | setUser => cases hp
  | accepted hphase hvalid =>
      cases hp
      rw [phase_setPhase_self]
      cases p with
      | sign k => cases hadmits
      | refresh n =>
          refine .validated ?_
          simp only [Session.served, Session.handling, Function.update_self, hvalid, if_true]
  | rejected hphase =>
      cases hp
      rw [hphase]
      exact .idle
  | validateFail hphase =>
      cases hp
      rw [hphase]
      exact .idle
  | addRead hphase =>
      cases hp
      rw [hphase] at hbusy
      cases hbusy
      rw [drawn, phase_setPhase_self]
      exact .adding (Function.update_self ..)
  | addWrite hphase =>
      cases hp
      rw [hphase] at hbusy
      rw [phase_setPhase_self]
      cases hbusy with
      | adding hhandled => exact .added hhandled
      | signingIn => exact .idle
  | addFail =>
      cases hp
      rw [phase_setPhase_self]
      exact .idle
  | removeRead hphase =>
      cases hp
      rw [hphase] at hbusy
      rw [phase_setPhase_self]
      cases hbusy with
      | added hhandled => exact .removing hhandled
  | removeWrite | removeFail | signOutWrite | signOutFail =>
      cases hp
      rw [phase_setPhase_self]
      exact .idle
  | signInRead =>
      cases hp
      rw [drawn, phase_setPhase_self]
      cases p with
      | refresh n => cases hadmits
      | sign k => exact .signingIn (Function.update_self ..)
  | signOutRead =>
      cases hp
      rw [phase_setPhase_self]
      cases p with
      | refresh n => cases hadmits
      | sign k => exact .signingOut (beq_iff_eq.mp hadmits)

/-- What is under way after a step of the server was so before, or is a new sign-in. -/
theorem SessionInv.underWay_served (h : SessionInv s) {e : RotationEvent Request}
    {server : Rotation Request} (hadmits : s.admits e = true) (hdoes : s.server.Does e server)
    {q : Request} (hq : (s.served e server).UnderWay q) :
    s.UnderWay q ∨ ∃ newTokenID, e = .signInRead q newTokenID := by
  by_cases hrequest : e.request? = some q
  · exact h.request_underWay hadmits hdoes hrequest
  · left
    cases q with
    | refresh n => exact hq
    | sign k =>
        have hsame : (s.served e server).signs k = s.signs k := signing_of_ne hrequest
        rw [Session.UnderWay, hsame] at hq
        exact hq

/-- A step of the server keeps the invariant. -/
theorem SessionInv.served (h : SessionInv s) {e : RotationEvent Request}
    {server : Rotation Request} (hadmits : s.admits e = true) (hguard : s.Separate (.serve e))
    (hstep : s.server.step e = some server) : SessionInv (s.served e server) := by
  have hserial := h.serial hadmits hguard hstep
  have hdoes := does_of_step hstep
  constructor
  · exact h.tab
  · exact rotationInv_step _ _ _ h.rotation (h.orderly.undisturbed hserial) hstep
  · exact orderly_step _ _ _ h.orderly hserial hstep
  · intro p q hp hq
    rcases h.underWay_served hadmits hdoes hp with hp' | ⟨_, rfl⟩
    · rcases h.underWay_served hadmits hdoes hq with hq' | ⟨_, rfl⟩
      · exact h.alone p q hp' hq'
      · exact absurd hp' (hguard p)
    · rcases h.underWay_served hadmits hdoes hq with hq' | ⟨_, heq⟩
      · exact absurd hq' (hguard q)
      · cases heq
        rfl
  · intro p
    by_cases hp : e.request? = some p
    · exact h.busy_served hadmits hdoes hp
    · have hphase : server.phase p = s.server.phase p := hdoes.phase_eq hp
      change Busy _ p (server.phase p)
      rw [hphase]
      refine (h.busy p).congr ?_ ?_
      · rintro n rfl
        exact handling_of_ne hp
      · rintro k rfl
        exact signing_of_ne hp
  · intro n hn hpending
    by_cases hrequest : e.request? = some (.refresh n)
    · rcases h.request_underWay hadmits hdoes hrequest with hsent | ⟨_, rfl⟩
      · exact hsent
      · cases hadmits
    · have hsame : (s.served e server).handled n = s.handled n := handling_of_ne hrequest
      rw [Session.Working, hsame] at hpending
      exact h.pending n hn hpending
  · intro n hn
    have hrequest : e.request? ≠ some (.refresh n) := by
      intro hrequest
      rcases h.request_underWay hadmits hdoes hrequest with hsent | ⟨_, rfl⟩
      · exact Nat.not_lt.mpr hn (lt_started h.tab hsent)
      · cases hadmits
    exact (handling_of_ne hrequest).trans (h.unseen n hn)

/-! ## Steps of the tab -/

/-- A step of the tab that answers no refresh. -/
theorem SessionInv.withTab (h : SessionInv s) {e : TabEvent} {tab : Tab}
    (hanswer : ∀ n response, e ≠ .answer n response) (hguard : s.Separate (.tab e))
    (hstep : s.tab.step e = some tab) : SessionInv (s.withTab tab) := by
  have htab := tabInv_step _ _ _ h.tab hstep
  have hgrows := h.tab.grows_step hanswer hstep
  -- A refresh that this step starts meets no request to sign in or out.
  have hsign {n k : ℕ} (hn : tab.calls n = .sent) (hk : s.UnderWay (.sign k)) : False := by
    by_cases hlt : n < s.tab.started
    · have hsent := (hgrows.sent n hlt).mp hn
      cases h.alone (.refresh n) (.sign k) hsent hk
    · have hstarted : tab.started ≠ s.tab.started := by
        intro hsame
        exact hlt (hsame ▸ lt_started htab hn)
      exact hguard tab hstep hstarted k hk
  constructor
  · exact htab
  · exact h.rotation
  · exact h.orderly
  · intro p q hp hq
    cases p with
    | refresh n =>
        cases q with
        | refresh m => rw [eq_of_sent htab hp hq]
        | sign k => exact (hsign hp hq).elim
    | sign j =>
        cases q with
        | refresh m => exact (hsign hq hp).elim
        | sign k => exact h.alone _ _ hp hq
  · exact fun p => (h.busy p).congr (fun _ _ => rfl) fun _ _ => rfl
  · intro n hn hpending
    by_cases hlt : n < s.tab.started
    · exact (hgrows.sent n hlt).mpr (h.pending n hlt hpending)
    · exact hgrows.fresh n (Nat.not_lt.mp hlt) hn
  · exact fun n hn => h.unseen n (Nat.le_trans hgrows.started hn)

/-- A refresh that the server does not work on is answered. -/
theorem SessionInv.answer (h : SessionInv s) {n : ℕ} {response : Option (String × Option ℤ)}
    {tab : Tab} (hstep : s.tab.step (.answer n response) = some tab)
    (hseen : s.handled n ≠ .waiting) (hdone : ¬s.Working (.refresh n))
    (cookie : Option String) : SessionInv { s.withTab tab with cookie := cookie } := by
  rcases Tab.step_answer hstep with ⟨hn, hstarted, ok, hcalls⟩
  have hsent {m : ℕ} (hm : tab.calls m = .sent) : s.tab.calls m = .sent := by
    rw [hcalls] at hm
    by_cases hmn : m = n
    · rw [hmn, Function.update_self] at hm
      cases hm
    · rwa [Function.update_of_ne hmn] at hm
  have hunder {p : Request}
      (hp : Session.UnderWay { s.withTab tab with cookie := cookie } p) : s.UnderWay p := by
    cases p with
    | refresh m => exact hsent hp
    | sign k => exact hp
  constructor
  · exact tabInv_step _ _ _ h.tab hstep
  · exact h.rotation
  · exact h.orderly
  · exact fun p q hp hq => h.alone p q (hunder hp) (hunder hq)
  · exact fun p => (h.busy p).congr (fun _ _ => rfl) fun _ _ => rfl
  · intro m hm hpending
    have hmn : m ≠ n := by
      rintro rfl
      rcases hpending with hwaiting | hworking
      · exact hseen hwaiting
      · exact hdone hworking
    have hold := h.pending m (hstarted ▸ hm) hpending
    change tab.calls m = .sent
    rwa [hcalls, Function.update_of_ne hmn]
  · exact fun m hm => h.unseen m (hstarted ▸ hm)

/-! ## Signing in and out -/

/-- A request to sign in or out that the server does not work on goes on. -/
theorem SessionInv.setSign (h : SessionInv s) {k : ℕ} {request : SignRequest}
    (hdone : ¬s.Working (.sign k)) (halone : request = .done ∨ s.Rest) (cookie : Option String)
    (signedIn : Bool) : SessionInv { s with
      signs := Function.update s.signs k request
      cookie := cookie
      signedIn := signedIn } := by
  have hother {j : ℕ} (hj : j ≠ k) : Function.update s.signs k request j = s.signs j :=
    Function.update_of_ne hj ..
  constructor
  · exact h.tab
  · exact h.rotation
  · exact h.orderly
  · intro p q hp hq
    have hunder {p : Request} (hp : Session.UnderWay { s with
        signs := Function.update s.signs k request
        cookie := cookie
        signedIn := signedIn } p) : s.UnderWay p ∨ p = .sign k ∧ request ≠ .done := by
      cases p with
      | refresh n => exact Or.inl hp
      | sign j =>
          rw [Session.UnderWay] at hp
          dsimp only at hp
          by_cases hj : j = k
          · subst hj
            rw [Function.update_self] at hp
            exact Or.inr ⟨rfl, hp.2⟩
          · rw [hother hj] at hp
            exact Or.inl hp
    rcases hunder hp with hp' | ⟨rfl, hne⟩
    · rcases hunder hq with hq' | ⟨rfl, hne⟩
      · exact h.alone p q hp' hq'
      · exact absurd hp' (halone.resolve_left hne p)
    · rcases hunder hq with hq' | ⟨rfl, -⟩
      · exact absurd hq' (halone.resolve_left hne q)
      · rfl
  · intro p
    by_cases hp : p = .sign k
    · subst hp
      have hidle : s.server.phase (.sign k) = .idle := by
        by_contra hbusy
        exact hdone ((h.busy _).working hbusy)
      change Busy _ _ (s.server.phase (.sign k))
      rw [hidle]
      exact .idle
    · refine (h.busy p).congr (fun _ _ => rfl) ?_
      rintro j rfl
      exact hother fun hj => hp (congrArg Request.sign hj)
  · exact h.pending
  · exact h.unseen

/-- One step keeps the invariant. -/
theorem sessionInv_step (s : Session) (e : SessionEvent) (t : Session) (h : SessionInv s)
    (hguard : s.Separate e) (hstep : s.step e = some t) : SessionInv t := by
  cases e with
  | tab e =>
      simp only [Session.step] at hstep
      split at hstep <;> try contradiction
      rename_i hanswer
      rcases Option.map_eq_some_iff.mp hstep with ⟨tab, htab, rfl⟩
      exact h.withTab hanswer hguard htab
  | serve e =>
      simp only [Session.step] at hstep
      split at hstep <;> try contradiction
      rename_i hadmits
      rcases Option.map_eq_some_iff.mp hstep with ⟨server, hserver, rfl⟩
      exact h.served hadmits hguard hserver
  | answer n accessToken expiresAt =>
      simp only [Session.step] at hstep
      split at hstep <;> try contradiction
      rename_i newTokenID hhandled
      rcases Option.map_eq_some_iff.mp hstep with ⟨tab, htab, rfl⟩
      refine h.answer htab (by rw [hhandled]; exact Handling.noConfusion) ?_ _
      rintro ⟨new, hworking⟩
      rw [hhandled] at hworking
      cases hworking
  | reject n =>
      simp only [Session.step] at hstep
      split at hstep <;> try contradiction
      rename_i hhandled
      rcases Option.map_eq_some_iff.mp hstep with ⟨tab, htab, rfl⟩
      refine h.answer htab (by rw [hhandled]; exact Handling.noConfusion) ?_ _
      rintro ⟨new, hworking⟩
      rw [hhandled] at hworking
      cases hworking
  | lose n =>
      rcases Option.map_eq_some_iff.mp hstep with ⟨tab, htab, rfl⟩
      exact h.answer htab hguard.1 hguard.2 _
  | signOut k identified =>
      simp only [Session.step] at hstep
      split at hstep <;> try contradiction
      rename_i hidle
      cases hstep
      refine h.setSign ?_ (Or.inr hguard) _ _
      rintro (⟨new, hworking⟩ | ⟨tokenID, hworking⟩)
      · rw [hidle] at hworking
        cases hworking
      · rw [hidle] at hworking
        cases hworking
  | answerSign k =>
      have hdone {request : SignRequest} (hsign : s.signs k = request)
          (hin : ∀ new, request ≠ .signingIn new) (hout : ∀ id, request ≠ .signingOut id) :
          ¬s.Working (.sign k) := by
        rintro (⟨new, hworking⟩ | ⟨tokenID, hworking⟩)
        · exact hin new (hsign.symm.trans hworking)
        · exact hout tokenID (hsign.symm.trans hworking)
      simp only [Session.step] at hstep
      split at hstep <;> try contradiction
      · rename_i newTokenID hsign
        cases hstep
        exact h.setSign (hdone hsign nofun nofun) (Or.inl rfl) _ _
      · rename_i hsign
        cases hstep
        exact h.setSign (hdone hsign nofun nofun) (Or.inl rfl) _ _
  | loseSign k =>
      simp only [Session.step] at hstep
      split at hstep <;> try contradiction
      cases hstep
      exact h.setSign hguard (Or.inl rfl) _ _

/-- The invariant holds at the start. -/
theorem sessionInv_initial {tab : Tab} (h : TabInv tab) (hnone : tab.started = 0) (now : ℤ)
    (user : Option RowStatus) (tokens : List RefreshToken) (cookie : Option String) :
    SessionInv (Session.initial tab now user tokens cookie) := by
  have hquiet : (Session.initial tab now user tokens cookie).server.Quiet := fun _ => rfl
  refine ⟨h, rotationInv_initial now user tokens, orderly_of_quiet hquiet, fun p q hp hq => ?_,
    fun p => .idle, fun n hn => ?_, fun n _ => rfl⟩
  · have hnot {p : Request} : ¬(Session.initial tab now user tokens cookie).UnderWay p := by
      cases p with
      | refresh n =>
          intro hsent
          have hlt := lt_started h hsent
          rw [hnone] at hlt
          exact absurd hlt (Nat.not_lt_zero n)
      | sign k => exact fun hsign => hsign.1 rfl
    exact absurd hp hnot
  · rw [Session.initial, hnone] at hn
    exact absurd hn (Nat.not_lt_zero n)

/-! ## The cookie -/

/-- The token that a request in a phase has presented. -/
def Phase.presented : Phase → Option String
  | idle => none
  | validated old => some old
  | adding old _ _ => old
  | added old => some old
  | removing old _ => some old
  | signingOut _ _ => none

/-- The new token of an exchange is stored. -/
def Phase.IsAdded : Phase → Prop
  | added _ => True
  | removing _ _ => True
  | _ => False

namespace Session

/-- The identifiers of the stored tokens. -/
def stored (s : Session) : List String :=
  s.server.tokens.map RefreshToken.tokenId

/-- The cookie of a user who is signed in holds a stored token. -/
def KeepsCookie (s : Session) : Prop :=
  s.signedIn = true → s.server.user.isSome → ∃ tokenID, s.cookie = some tokenID ∧ tokenID ∈ s.stored

/-- What is known of a refresh under way. -/
def RefreshKept (s : Session) (n : ℕ) : Handling → Prop
  | .waiting => s.presented n = s.cookie ∧ s.KeepsCookie
  | .working none => (s.server.phase (.refresh n)).presented = s.cookie
  | .working (some new) => (s.server.phase (.refresh n)).presented = s.cookie ∧
      s.cookie ≠ some new ∧ ((s.server.phase (.refresh n)).IsAdded → new ∈ s.stored)
  | .exchanged new => s.server.user.isSome → new ∈ s.stored
  | .failed => s.KeepsCookie

/-- What is known of a request to sign in or out. -/
def SignKept (s : Session) : SignRequest → Prop
  | .signingIn _ => s.KeepsCookie
  | .signedIn new => (s.server.user.isSome → new ∈ s.stored) ∧ s.KeepsCookie
  | .signingOut _ | .signedOut => s.signedIn = false
  | .idle | .done => True

def RequestKept (s : Session) : Request → Prop
  | .refresh n => s.RefreshKept n (s.handled n)
  | .sign k => s.SignKept (s.signs k)

end Session

/-- At rest the cookie holds a stored token, and each request under way will leave it so. -/
structure KeptInv (s : Session) : Prop where
  session : SessionInv s
  requests : ∀ p, s.UnderWay p → s.RequestKept p
  rest : s.Rest → s.KeepsCookie

/-- What the invariant says of a refresh under way. -/
theorem KeptInv.refresh (h : KeptInv s) {n : ℕ} {handling : Handling}
    (hhandled : s.handled n = handling) (hn : s.tab.calls n = .sent) :
    s.RefreshKept n handling :=
  hhandled ▸ h.requests (.refresh n) hn

/-- What the invariant says of a sign-in or sign-out under way. -/
theorem KeptInv.sign (h : KeptInv s) {k : ℕ} {request : SignRequest}
    (hsign : s.signs k = request) (hidle : request ≠ .idle) (hdone : request ≠ .done) :
    s.SignKept request :=
  hsign ▸ h.requests (.sign k) ⟨hsign ▸ hidle, hsign ▸ hdone⟩

/-- What the server works on is under way. -/
theorem KeptInv.working (h : KeptInv s) {n : ℕ} {new : Option String}
    (hhandled : s.handled n = .working new) : s.RefreshKept n (.working new) :=
  h.refresh hhandled (@SessionInv.underWay _ h.session (.refresh n) ⟨new, hhandled⟩)

/-- A token that was presented is stored until it is removed. -/
theorem SessionInv.mem_stored (h : SessionInv s) {p : Request} {old : String}
    (hold : (s.server.phase p).presented = some old) : old ∈ s.stored := by
  have horder := h.orderly.inOrder p
  cases hphase : s.server.phase p with
  | idle | signingOut tokenID seen =>
      rw [hphase] at hold
      cases hold
  | validated id | added id =>
      rw [hphase] at hold horder
      cases hold
      exact horder
  | adding id token seen =>
      rw [hphase] at hold horder
      exact horder.2 old hold
  | removing id seen =>
      rw [hphase] at hold horder
      cases hold
      exact horder.2

/-- A refresh that the server takes a step for is kept. -/
theorem KeptInv.refresh_served (h : KeptInv s) {e : RotationEvent Request}
    {server : Rotation Request} (hadmits : s.admits e = true)
    (hguard : s.Separate (.serve e)) (hdoes : s.server.Does e server) {n : ℕ}
    (hn : e.request? = some (.refresh n)) :
    (s.served e server).RefreshKept n ((s.served e server).handled n) := by
  have hbusy := h.session.busy (.refresh n)
  have horder := h.session.orderly.inOrder (.refresh n)
  have hself (handling : Handling) : Function.update s.handled n handling n = handling :=
    Function.update_self ..
  cases hdoes with
  | tick | setUser => cases hn
  | @accepted p tokenID hphase hvalid =>
      cases hn
      rcases Bool.and_eq_true_iff.mp hadmits with ⟨hwaiting, hpresented⟩
      rcases sent_of_sentWaiting h.session hwaiting with ⟨hhandled, hsent⟩
      have hold := (h.refresh hhandled hsent).1
      simp only [Session.served, Session.handling, hself, hvalid, if_true, Session.RefreshKept,
        phase_setPhase_self, ← hold, beq_iff_eq.mp hpresented, Phase.presented]
  | rejected hphase hinvalid =>
      cases hn
      rcases sent_of_sentWaiting h.session (Bool.and_eq_true_iff.mp hadmits).1 with
        ⟨hhandled, hsent⟩
      simp only [Session.served, Session.handling, hself, hinvalid, Bool.false_eq_true, if_false]
      exact (h.refresh hhandled hsent).2
  | validateFail =>
      cases hn
      rcases sent_of_sentWaiting h.session hadmits with ⟨hhandled, hsent⟩
      simp only [Session.served, Session.handling, hself]
      exact (h.refresh hhandled hsent).2
  | @addRead p old newTokenID hphase hfresh =>
      cases hn
      rw [hphase] at hbusy horder
      cases hbusy with
      | validated hhandled =>
          have hcookie : some old = s.cookie := by
            have hkept : (s.server.phase (.refresh n)).presented = s.cookie := h.working hhandled
            rwa [hphase] at hkept
          simp only [Session.served, Session.handling, hself]
          refine ⟨?_, ?_, ?_⟩
          · rw [drawn, phase_setPhase_self]
            exact hcookie
          · intro hsame
            cases hcookie.trans hsame
            rcases List.mem_map.mp horder with ⟨token, htoken, hid⟩
            exact hfresh (hid ▸ h.session.rotation.stored_issued token htoken)
          · intro hadded
            rw [drawn, phase_setPhase_self] at hadded
            exact hadded.elim
  | @addWrite p old token seen hphase =>
      cases hn
      rw [hphase] at hbusy horder
      cases hbusy with
      | adding hhandled =>
          rcases h.working hhandled with ⟨hpresented, hne, -⟩
          rw [hphase] at hpresented
          simp only [Session.served, Session.handling, hhandled]
          refine ⟨?_, hne, fun _ => ?_⟩
          · rw [phase_setPhase_self]
            exact hpresented
          · exact List.mem_map.mpr ⟨token, List.mem_append_right _ (List.mem_singleton_self _), rfl⟩
  | addFail hphase =>
      cases hn
      simp only [Session.served, Session.handling, hself]
      intro _ _
      have hkept : ∃ old, (s.server.phase (.refresh n)).presented = some old ∧
          (s.server.phase (.refresh n)).presented = s.cookie := by
        rcases hphase with ⟨old, hphase⟩ | ⟨old, token, seen, hphase⟩
        · rw [hphase] at hbusy
          cases hbusy with
          | validated hhandled => exact ⟨old, by rw [hphase]; rfl, h.working hhandled⟩
        · rw [hphase] at hbusy
          cases hbusy with
          | adding hhandled => exact ⟨_, by rw [hphase]; rfl, (h.working hhandled).1⟩
      rcases hkept with ⟨old, hold, hcookie⟩
      exact ⟨old, hcookie.symm.trans hold, h.session.mem_stored hold⟩
  | @removeRead p old hphase =>
      cases hn
      rw [hphase] at hbusy
      cases hbusy with
      | added hhandled =>
          rcases h.working hhandled with ⟨hpresented, hne, hadded⟩
          rw [hphase] at hpresented hadded
          simp only [Session.served, Session.handling, hhandled]
          refine ⟨?_, hne, fun _ => hadded trivial⟩
          rw [phase_setPhase_self]
          exact hpresented
  | @removeWrite p old seen hphase =>
      cases hn
      rw [hphase] at hbusy horder
      cases hbusy with
      | removing hhandled =>
          rcases h.working hhandled with ⟨hpresented, hne, hadded⟩
          rw [hphase] at hpresented hadded
          simp only [Session.served, Session.handling, hself, hhandled, Handling.finish]
          intro _
          rcases List.mem_map.mp (hadded trivial) with ⟨token, htoken, hid⟩
          refine List.mem_map.mpr ⟨token, mem_removed.mpr ⟨?_, ?_⟩, hid⟩
          · rw [horder.1]
            exact htoken
          · rintro rfl
            exact hne (hpresented.symm.trans (congrArg some hid))
  | removeFail => exact hguard.elim
  | signInRead | signOutRead =>
      cases hn
      cases hadmits
  | signOutWrite hphase | signOutFail hphase =>
      cases hn
      rw [hphase] at hbusy
      cases hbusy

/-- A request to sign in or out that the server takes a step for is kept. -/
theorem KeptInv.sign_served (h : KeptInv s) {e : RotationEvent Request}
    {server : Rotation Request} (hadmits : s.admits e = true) (hguard : s.NoneLost (.serve e))
    (hdoes : s.server.Does e server) {k : ℕ} (hk : e.request? = some (.sign k)) :
    (s.served e server).SignKept ((s.served e server).signs k) := by
  have hbusy := h.session.busy (.sign k)
  have horder := h.session.orderly.inOrder (.sign k)
  have hself (request : SignRequest) : Function.update s.signs k request k = request :=
    Function.update_self ..
  cases hdoes with
  | tick | setUser => cases hk
  | accepted | rejected | validateFail =>
      cases hk
      cases hadmits
  | addRead hphase | removeRead hphase | removeWrite hphase =>
      cases hk
      rw [hphase] at hbusy
      cases hbusy
  | removeFail => exact hguard.elim
  | addFail =>
      cases hk
      exact hguard.elim
  | @addWrite p old token seen hphase =>
      cases hk
      rw [hphase] at hbusy horder
      cases hbusy with
      | signingIn hsign =>
          have hstored {tokenID : String} (hid : tokenID ∈ s.stored ∨ tokenID = token.tokenId) :
              tokenID ∈ (addUserRefreshToken token seen).map RefreshToken.tokenId := by
            rw [horder.1, addUserRefreshToken, addToken, List.map_append, List.mem_append]
            exact hid.imp_right List.mem_singleton.mpr
          have hkeeps : s.KeepsCookie :=
            h.sign hsign SignRequest.noConfusion SignRequest.noConfusion
          simp only [Session.served, Session.signing, hself, hsign, SignRequest.finish]
          refine ⟨fun _ => hstored (Or.inr rfl), fun hsigned huser => ?_⟩
          rcases hkeeps hsigned huser with ⟨id, hcookie, hid⟩
          exact ⟨id, hcookie, hstored (Or.inl hid)⟩
  | signInRead =>
      cases hk
      simp only [Session.served, Session.signing, hself]
      exact h.rest hguard
  | @signOutRead p tokenID =>
      cases hk
      have hsign : s.signs k = .signingOut tokenID := beq_iff_eq.mp hadmits
      simp only [Session.served, Session.signing, hsign]
      exact h.sign hsign SignRequest.noConfusion SignRequest.noConfusion
  | signOutWrite hphase | signOutFail hphase =>
      cases hk
      rw [hphase] at hbusy
      cases hbusy with
      | signingOut hsign =>
          simp only [Session.served, Session.signing, hself]
          exact h.sign hsign SignRequest.noConfusion SignRequest.noConfusion

/-- A request to sign in or out stays under way while the server works on it. -/
theorem underWay_signing {k : ℕ} (h : s.UnderWay (.sign k)) (e : RotationEvent Request) :
    s.signing e k ≠ .idle ∧ s.signing e k ≠ .done := by
  have hfinish : (s.signs k).finish ≠ .idle ∧ (s.signs k).finish ≠ .done := by
    rcases h with ⟨hidle, hdone⟩
    cases hsign : s.signs k with
    | idle => exact absurd hsign hidle
    | done => exact absurd hsign hdone
    | signingIn | signedIn | signingOut | signedOut => exact ⟨nofun, nofun⟩
  by_cases hk : e.request? = some (.sign k)
  · cases e with
    | addWrite p | addFail p =>
        cases hk
        simpa only [Session.signing, Function.update_self] using hfinish
    | signInRead p | signOutWrite p | signOutFail p =>
        cases hk
        simp [Session.signing]
    | tick | setUser => cases hk
    | _ =>
        cases hk
        exact h
  · rw [signing_of_ne hk]
    exact h

/-- A request that the server takes a step for is under way after it. -/
theorem SessionInv.underWay_after (h : SessionInv s) {e : RotationEvent Request}
    {server : Rotation Request} (hadmits : s.admits e = true) (hdoes : s.server.Does e server)
    {p : Request} (hp : e.request? = some p) : (s.served e server).UnderWay p := by
  rcases h.request_underWay hadmits hdoes hp with hunder | ⟨newTokenID, rfl⟩
  · cases p with
    | refresh n => exact hunder
    | sign k => exact underWay_signing hunder e
  · cases p with
    | refresh n => cases hadmits
    | sign k => simp [Session.UnderWay, Session.served, Session.signing]

/-- Archiving and restoring leave the cookie and the tokens. -/
theorem keepsCookie_setUser {user : Option RowStatus} (h : s.KeepsCookie)
    (hexists : s.server.user.isSome) : (s.served (.setUser user) { s.server with
      user := user
      tokens := if user.isSome then s.server.tokens else [] }).KeepsCookie := by
  intro hsigned huser
  have huser : user.isSome := huser
  rcases h hsigned hexists with ⟨tokenID, hcookie, hstored⟩
  refine ⟨tokenID, hcookie, ?_⟩
  rw [Session.stored, Session.served, if_pos huser]
  exact hstored

/-- What is known of a request stays when the state of the user changes. -/
theorem requestKept_setUser {user : Option RowStatus} {p : Request} (h : s.RequestKept p)
    (hexists : s.server.user.isSome) (hguard : s.Separate (.serve (.setUser user))) :
    (s.served (.setUser user) { s.server with
      user := user
      tokens := if user.isSome then s.server.tokens else [] }).RequestKept p := by
  have hstored {new : String} (hnew : s.server.user.isSome → new ∈ s.stored)
      (huser : user.isSome) :
      new ∈ (if user.isSome then s.server.tokens else []).map RefreshToken.tokenId := by
    rw [if_pos huser]
    exact hnew hexists
  cases p with
  | refresh n =>
      change s.RefreshKept n (s.handled n) at h
      change Session.RefreshKept _ n (s.handled n)
      cases hhandled : s.handled n with
      | waiting =>
          rw [hhandled] at h
          exact ⟨h.1, keepsCookie_setUser h.2 hexists⟩
      | working new =>
          rw [hhandled] at h
          cases new with
          | none => exact h
          | some new =>
              refine ⟨h.1, h.2.1, fun hadded => ?_⟩
              cases user with
              | some status => exact h.2.2 hadded
              | none =>
                  have hidle : s.server.phase (.refresh n) = .idle := hguard _
                  change (s.server.phase (.refresh n)).IsAdded at hadded
                  rw [hidle] at hadded
                  exact hadded.elim
      | exchanged new =>
          rw [hhandled] at h
          exact hstored h
      | failed =>
          rw [hhandled] at h
          exact keepsCookie_setUser h hexists
  | sign k =>
      change s.SignKept (s.signs k) at h
      change Session.SignKept _ (s.signs k)
      cases hsign : s.signs k with
      | signingIn new =>
          rw [hsign] at h
          exact keepsCookie_setUser h hexists
      | signedIn new =>
          rw [hsign] at h
          exact ⟨hstored h.1, keepsCookie_setUser h.2 hexists⟩
      | signingOut tokenID | signedOut =>
          rw [hsign] at h
          exact h
      | idle | done => trivial

/-- A step of the server keeps the cookie. -/
theorem KeptInv.served (h : KeptInv s) {e : RotationEvent Request} {server : Rotation Request}
    (hadmits : s.admits e = true) (hguard : s.NoneLost (.serve e))
    (hstep : s.server.step e = some server) : KeptInv (s.served e server) := by
  have hseparate := s.separate_of_noneLost _ hguard
  have hsession := h.session.served hadmits hseparate hstep
  have hdoes := does_of_step hstep
  cases hrequest : e.request? with
  | none =>
      cases hdoes with
      | tick seconds =>
          refine ⟨hsession, fun p hp => ?_, h.rest⟩
          cases p with
          | refresh n => exact h.requests (.refresh n) hp
          | sign k => exact h.requests (.sign k) hp
      | setUser hexists =>
          refine ⟨hsession, fun p hp => ?_,
            fun hrest => keepsCookie_setUser (h.rest hrest) hexists⟩
          cases p with
          | refresh n => exact requestKept_setUser (h.requests (.refresh n) hp) hexists hseparate
          | sign k => exact requestKept_setUser (h.requests (.sign k) hp) hexists hseparate
      | _ => cases hrequest
  | some p =>
      have hunder := h.session.underWay_after hadmits hdoes hrequest
      refine ⟨hsession, fun q hq => ?_, fun hrest => absurd hunder (hrest p)⟩
      cases hsession.alone p q hunder hq
      cases p with
      | refresh n => exact h.refresh_served hadmits hseparate hdoes hrequest
      | sign k => exact h.sign_served hadmits hguard hdoes hrequest

/-- A step of the tab that answers no refresh keeps the cookie. -/
theorem KeptInv.withTab (h : KeptInv s) {e : TabEvent} {tab : Tab}
    (hanswer : ∀ n response, e ≠ .answer n response) (hguard : s.Separate (.tab e))
    (hstep : s.tab.step e = some tab) : KeptInv (s.withTab tab) := by
  have hsession := h.session.withTab hanswer hguard hstep
  have hgrows := h.session.tab.grows_step hanswer hstep
  have hunder {p : Request} (hp : s.UnderWay p) : (s.withTab tab).UnderWay p := by
    cases p with
    | refresh n => exact (hgrows.sent n (lt_started h.session.tab hp)).mpr hp
    | sign k => exact hp
  refine ⟨hsession, fun p hp => ?_, fun hrest => h.rest fun p hp => hrest p (hunder hp)⟩
  cases p with
  | sign k => exact h.requests (.sign k) hp
  | refresh n =>
      by_cases hlt : n < s.tab.started
      · have hkept := h.requests (.refresh n) ((hgrows.sent n hlt).mp hp)
        change s.RefreshKept n (s.handled n) at hkept
        change Session.RefreshKept _ n (s.handled n)
        cases hhandled : s.handled n with
        | waiting =>
            rw [hhandled] at hkept
            exact ⟨(if_pos hlt).trans hkept.1, hkept.2⟩
        | working new =>
            rw [hhandled] at hkept
            cases new with
            | none => exact hkept
            | some new => exact hkept
        | exchanged new | failed =>
            rw [hhandled] at hkept
            exact hkept
      · -- The refresh is a new one, and nothing was under way when it started.
        have hwaiting := h.session.unseen n (Nat.not_lt.mp hlt)
        have hrest : s.Rest := by
          intro q hq
          cases hsession.alone _ _ hp (hunder hq)
          exact hlt (lt_started h.session.tab hq)
        change Session.RefreshKept _ n (s.handled n)
        rw [hwaiting]
        exact ⟨if_neg hlt, h.rest hrest⟩

/-- Nothing is under way after the answer to a refresh, and the cookie is kept. -/
theorem KeptInv.answer (h : KeptInv s) {n : ℕ} {response : Option (String × Option ℤ)}
    {tab : Tab} (hstep : s.tab.step (.answer n response) = some tab)
    (hseen : s.handled n ≠ .waiting) (hdone : ¬s.Working (.refresh n)) {cookie : Option String}
    (hkeeps : Session.KeepsCookie { s.withTab tab with cookie := cookie }) :
    KeptInv { s.withTab tab with cookie := cookie } := by
  rcases Tab.step_answer hstep with ⟨hn, -, ok, hcalls⟩
  refine ⟨h.session.answer hstep hseen hdone cookie, fun p hp => ?_, fun _ => hkeeps⟩
  cases p with
  | refresh m =>
      have hm : tab.calls m = .sent := hp
      rw [hcalls] at hm
      by_cases hmn : m = n
      · rw [hmn, Function.update_self] at hm
        cases hm
      · rw [Function.update_of_ne hmn] at hm
        exact absurd (eq_of_sent h.session.tab hm hn) hmn
  | sign k => cases h.session.alone (.refresh n) (.sign k) hn hp

/-- A request to sign in or out ends, or begins at rest. -/
theorem KeptInv.setSign (h : KeptInv s) {k : ℕ} {request : SignRequest}
    (hdone : ¬s.Working (.sign k)) {cookie : Option String} {signedIn : Bool}
    (halone : request = .done ∧ s.UnderWay (.sign k) ∨
      s.Rest ∧ ∀ t : Session, t.signedIn = signedIn → t.SignKept request)
    (hkeeps : Session.KeepsCookie { s with cookie := cookie, signedIn := signedIn }) :
    KeptInv { s with
      signs := Function.update s.signs k request
      cookie := cookie
      signedIn := signedIn } := by
  refine ⟨h.session.setSign hdone (halone.imp And.left And.left) cookie signedIn, fun p hp => ?_,
    fun _ => hkeeps⟩
  by_cases hpk : p = .sign k
  · subst hpk
    change Session.SignKept _ (Function.update s.signs k request k)
    rw [Function.update_self]
    rcases halone with ⟨rfl, -⟩ | ⟨-, hkept⟩
    · trivial
    · exact hkept _ rfl
  · -- Another request was under way before.
    have hunder : s.UnderWay p := by
      cases p with
      | refresh n => exact hp
      | sign j =>
          have hsame : Function.update s.signs k request j = s.signs j :=
            Function.update_of_ne (fun hj => hpk (congrArg Request.sign hj)) ..
          rw [Session.UnderWay] at hp
          dsimp only at hp
          rwa [hsame] at hp
    rcases halone with ⟨-, hsign⟩ | ⟨hrest, -⟩
    · exact absurd (h.session.alone _ _ hunder hsign) hpk
    · exact absurd hunder (hrest p)

/-- One step that loses no session keeps the cookie. -/
theorem keptInv_step (s : Session) (e : SessionEvent) (t : Session) (h : KeptInv s)
    (hguard : s.NoneLost e) (hstep : s.step e = some t) : KeptInv t := by
  have hfailed {n : ℕ} {tab : Tab} (hhandled : s.handled n = .failed)
      (htab : s.tab.step (.answer n none) = some tab) : KeptInv (s.withTab tab) := by
    refine @KeptInv.answer s h n none tab htab (by rw [hhandled]; exact Handling.noConfusion) ?_
      s.cookie (h.refresh hhandled (Tab.step_answer htab).1)
    rintro ⟨new, hworking⟩
    rw [hhandled] at hworking
    cases hworking
  have hdone {k : ℕ} {request : SignRequest} (hsign : s.signs k = request)
      (hin : ∀ new, request ≠ .signingIn new) (hout : ∀ id, request ≠ .signingOut id) :
      ¬s.Working (.sign k) := by
    rintro (⟨new, hworking⟩ | ⟨tokenID, hworking⟩)
    · exact hin new (hsign.symm.trans hworking)
    · exact hout tokenID (hsign.symm.trans hworking)
  cases e with
  | tab e =>
      simp only [Session.step] at hstep
      split at hstep <;> try contradiction
      rename_i hanswer
      rcases Option.map_eq_some_iff.mp hstep with ⟨tab, htab, rfl⟩
      exact h.withTab hanswer hguard htab
  | serve e =>
      simp only [Session.step] at hstep
      split at hstep <;> try contradiction
      rename_i hadmits
      rcases Option.map_eq_some_iff.mp hstep with ⟨server, hserver, rfl⟩
      exact h.served hadmits hguard hserver
  | answer n accessToken expiresAt =>
      simp only [Session.step] at hstep
      split at hstep <;> try contradiction
      rename_i newTokenID hhandled
      rcases Option.map_eq_some_iff.mp hstep with ⟨tab, htab, rfl⟩
      have hnew : s.server.user.isSome → newTokenID ∈ s.stored :=
        h.refresh hhandled (Tab.step_answer htab).1
      refine h.answer htab (by rw [hhandled]; exact Handling.noConfusion) ?_
        fun _ huser => ⟨newTokenID, rfl, hnew huser⟩
      rintro ⟨new, hworking⟩
      rw [hhandled] at hworking
      cases hworking
  | reject n =>
      simp only [Session.step] at hstep
      split at hstep <;> try contradiction
      rename_i hhandled
      rcases Option.map_eq_some_iff.mp hstep with ⟨tab, htab, rfl⟩
      exact hfailed hhandled htab
  | lose n =>
      rcases Option.map_eq_some_iff.mp hstep with ⟨tab, htab, rfl⟩
      exact hfailed hguard htab
  | signOut k identified =>
      simp only [Session.step] at hstep
      split at hstep <;> try contradiction
      rename_i hidle
      cases hstep
      refine h.setSign (hdone hidle nofun nofun) (Or.inr ⟨hguard, fun t ht => ?_⟩)
        fun hsigned => absurd hsigned Bool.false_ne_true
      split
      · exact ht
      · exact ht
  | answerSign k =>
      simp only [Session.step] at hstep
      split at hstep <;> try contradiction
      · rename_i newTokenID hsign
        cases hstep
        have hkept := h.sign hsign SignRequest.noConfusion SignRequest.noConfusion
        refine h.setSign (hdone hsign nofun nofun) (Or.inl ⟨rfl, ?_⟩)
          fun _ huser => ⟨newTokenID, rfl, hkept.1 huser⟩
        exact ⟨by rw [hsign]; exact SignRequest.noConfusion,
          by rw [hsign]; exact SignRequest.noConfusion⟩
      · rename_i hsign
        cases hstep
        have hout : s.signedIn = false :=
          h.sign hsign SignRequest.noConfusion SignRequest.noConfusion
        refine h.setSign (hdone hsign nofun nofun) (Or.inl ⟨rfl, ?_⟩)
          fun hsigned => absurd (hout.symm.trans hsigned) Bool.false_ne_true
        exact ⟨by rw [hsign]; exact SignRequest.noConfusion,
          by rw [hsign]; exact SignRequest.noConfusion⟩
  | loseSign k =>
      simp only [Session.step] at hstep
      split at hstep <;> try contradiction
      rename_i hidle hended
      cases hstep
      have hkept := h.requests (.sign k) ⟨hidle, hended⟩
      refine h.setSign hguard (Or.inl ⟨rfl, hidle, hended⟩) ?_
      have hkept : s.SignKept (s.signs k) := hkept
      cases hsign : s.signs k with
      | idle => exact absurd hsign hidle
      | done => exact absurd hsign hended
      | signingIn new => exact absurd (Or.inl ⟨new, hsign⟩) hguard
      | signingOut tokenID => exact absurd (Or.inr ⟨tokenID, hsign⟩) hguard
      | signedIn new =>
          rw [hsign] at hkept
          exact hkept.2
      | signedOut =>
          rw [hsign] at hkept
          exact fun hsigned => absurd (hkept.symm.trans hsigned) Bool.false_ne_true

/-! ## Runs -/

/-- While the user is signed in, the cookie at rest holds a stored token; a refresh that the server
has not seen was sent with a stored token, and is accepted if the user is active and the token has
not expired. -/
structure Kept (s : Session) : Prop where
  cookie : s.signedIn = true → s.server.user.isSome → s.Rest →
    ∃ tokenID, s.cookie = some tokenID ∧ tokenID ∈ s.stored
  accepted : s.signedIn = true → s.server.user = some .NORMAL →
    ∀ n, s.tab.calls n = .sent → s.handled n = .waiting →
      ∃ token ∈ s.server.tokens, s.presented n = some token.tokenId ∧
        s.server.authenticates token.tokenId = !s.server.expired token

/-- The invariant gives that the session is kept. -/
theorem KeptInv.kept (h : KeptInv s) : Kept s := by
  refine ⟨fun hsigned huser hrest => h.rest hrest hsigned huser,
    fun hsigned huser n hn hwaiting => ?_⟩
  rcases h.refresh hwaiting hn with ⟨hpresented, hkeeps⟩
  rcases hkeeps hsigned (by rw [huser]; rfl) with ⟨tokenID, hcookie, hstored⟩
  cases hfind : s.server.getUserRefreshTokenByID tokenID with
  | none =>
      rcases List.mem_map.mp hstored with ⟨token, htoken, rfl⟩
      rw [getUserRefreshTokenByID] at hfind
      exact absurd (beq_self_eq_true _) (List.find?_eq_none.mp hfind token htoken)
  | some token =>
      have hfound := hfind
      rw [getUserRefreshTokenByID] at hfound
      have hid : token.tokenId = tokenID := by simpa using List.find?_some hfound
      refine ⟨token, List.mem_of_find?_eq_some hfound, ?_, ?_⟩
      · rw [hpresented, hcookie, hid]
      · rw [hid, authenticates, hfind, huser]
        simp

/-- In every run of a tab with the server in which signing in and out overlaps with nothing and the
tab gives up no refresh that the server may still work on, tokens are single-use. -/
theorem session_single_use {now serverNow : ℤ} {storedToken : Option String}
    {storedExpires : Option ℤ} {user : Option RowStatus} {tokens : List RefreshToken}
    {cookie : Option String} {events : List SessionEvent} {s : Session}
    (hrun : Run Session.step Session.Separate (Session.initial
      (.initial now storedToken storedExpires) serverNow user tokens cookie) events s) :
    s.server.SingleUse :=
  (hrun.invariant sessionInv_step (sessionInv_initial (tabInv_initial now storedToken storedExpires)
    rfl serverNow user tokens cookie)).rotation.singleUse

/-- In every such run in which moreover no answer to an exchange is lost and no sign-in fails to
store its token, the session is kept. -/
theorem session_kept {now serverNow : ℤ} {storedToken : Option String}
    {storedExpires : Option ℤ} {user : Option RowStatus} {tokens : List RefreshToken}
    {cookie : String} {events : List SessionEvent} {s : Session}
    (hcookie : cookie ∈ tokens.map RefreshToken.tokenId)
    (hrun : Run Session.step Session.NoneLost (Session.initial
      (.initial now storedToken storedExpires) serverNow user tokens (some cookie)) events s) :
    Kept s := by
  have htab := tabInv_initial now storedToken storedExpires
  have hstart := sessionInv_initial htab rfl serverNow user tokens (some cookie)
  have hinitial : KeptInv (Session.initial (.initial now storedToken storedExpires) serverNow user
      tokens (some cookie)) := by
    refine ⟨hstart, fun p hp => ?_, fun _ _ _ => ⟨cookie, rfl, hcookie⟩⟩
    cases p with
    | refresh n => cases hp
    | sign k => exact absurd rfl hp.1
  exact (hrun.invariant keptInv_step hinitial).kept

/-- Two requests with an expired token wait for one exchange, and the user signs out and in. -/
def expiredSession : List SessionEvent :=
  [.tab (.begin 0 false), .tab (.begin 1 false), .serve (.validate (.refresh 0) "r"),
    .serve (.addRead (.refresh 0) "s"), .serve (.addWrite (.refresh 0)),
    .serve (.removeRead (.refresh 0)), .serve (.removeWrite (.refresh 0)),
    .answer 0 "b" (some 900000), .tab (.cleanUp 0), .tab (.gotToken 1), .tab (.gotToken 0),
    .signOut 0 true, .serve (.signOutRead (.sign 0) "s"), .serve (.signOutWrite (.sign 0)),
    .answerSign 0, .serve (.signInRead (.sign 1) "t"), .serve (.addWrite (.sign 1)), .answerSign 1]

theorem exists_expiredSession : ∃ s, Run Session.step Session.NoneLost
    (Session.initial (.initial 0 (some "a") (some 0)) 0 (some .NORMAL) [⟨"r", some 100⟩]
      (some "r")) expiredSession s ∧ s.server.exchanged = ["r"] ∧ s.server.signedOut = ["s"] ∧
        s.cookie = some "t" := by
  have hsigns {s : Session} (h : ∀ k, s.signs k = .idle) (k : ℕ) : ¬s.UnderWay (.sign k) :=
    fun hk => hk.1 (h k)
  refine ⟨_, .cons ?_ rfl (.cons ?_ rfl (.cons trivial rfl (.cons trivial rfl (.cons trivial rfl
    (.cons trivial rfl (.cons trivial rfl (.cons trivial rfl (.cons ?_ rfl (.cons ?_ rfl
      (.cons ?_ rfl (.cons ?_ rfl (.cons trivial rfl (.cons trivial rfl (.cons trivial rfl
        (.cons ?_ rfl (.cons trivial rfl (.cons trivial rfl (.nil _)))))))))))))))))), rfl, rfl, rfl⟩
  · exact fun _ _ _ => hsigns fun _ => rfl
  · exact fun _ _ _ => hsigns fun _ => rfl
  · exact fun _ _ _ => hsigns fun _ => rfl
  · exact fun _ _ _ => hsigns fun _ => rfl
  · exact fun _ _ _ => hsigns fun _ => rfl
  · rintro (n | k) hp
    · cases n with
      | zero => cases hp
      | succ n => cases hp
    · exact hp.1 rfl
  · rintro (n | k) hp
    · cases n with
      | zero => cases hp
      | succ n => cases hp
    · cases k with
      | zero => exact hp.2 rfl
      | succ k => exact hp.1 rfl

theorem session_single_use_expired : ∃ s : Session,
    s.server.exchanged = ["r"] ∧ s.server.signedOut = ["s"] ∧ s.server.SingleUse := by
  rcases exists_expiredSession with ⟨s, hrun, hexchanged, hsignedOut, -⟩
  exact ⟨s, hexchanged, hsignedOut,
    session_single_use (hrun.mono fun s e => s.separate_of_noneLost e)⟩

theorem session_kept_expired : ∃ s : Session, s.cookie = some "t" ∧ Kept s := by
  rcases exists_expiredSession with ⟨s, hrun, -, -, hcookie⟩
  exact ⟨s, hcookie, session_kept List.mem_cons_self hrun⟩

end Auth
end MemosNote
