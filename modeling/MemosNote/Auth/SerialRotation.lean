import MemosNote.Auth.RefreshRotation

/-!
# Requests one after the other

The server may work on one request at a time.  Then every list is written over the list as it is
stored, and the token that an exchange removes is still there.

Main results:

- Structure {lit}`Rotation.Orderly` and Theorem {lit}`orderly_step`: what a serial step keeps.
- Theorem {lit}`Rotation.Orderly.undisturbed`: a serial step is undisturbed.
-/

namespace MemosNote
namespace Auth

open Library Store

/-- The list was read as it is stored, and the presented token is in it. -/
def Phase.InOrder (tokens : List RefreshToken) : Phase → Prop
  | idle => True
  | validated old => old ∈ tokens.map RefreshToken.tokenId
  | adding old _ seen => seen = tokens ∧ ∀ id ∈ old, id ∈ tokens.map RefreshToken.tokenId
  | added old => old ∈ tokens.map RefreshToken.tokenId
  | removing old seen => seen = tokens ∧ old ∈ tokens.map RefreshToken.tokenId
  | signingOut _ seen => seen = tokens

section

variable {ι : Type}

/-- The request that a step names. -/
def RotationEvent.request? : RotationEvent ι → Option ι
  | tick _ => none
  | setUser _ => none
  | validate p _ => some p
  | validateFail p => some p
  | addRead p _ => some p
  | addWrite p => some p
  | addFail p => some p
  | removeRead p => some p
  | removeWrite p => some p
  | removeFail p => some p
  | signInRead p _ => some p
  | signOutRead p _ => some p
  | signOutWrite p => some p
  | signOutFail p => some p

namespace Rotation

/-- The server works on no request. -/
def Quiet (s : Rotation ι) : Prop :=
  ∀ p, s.phase p = .idle

/-- The server starts on a request, or deletes the user, while it works on no other request, and no
removal of a presented token fails. -/
def Serial (s : Rotation ι) : RotationEvent ι → Prop
  | .setUser none => s.Quiet
  | .validate _ _ => s.Quiet
  | .signInRead _ _ => s.Quiet
  | .signOutRead _ _ => s.Quiet
  | .removeFail _ => False
  | _ => True

/-- The server works on one request at most, over the list as it is stored. -/
structure Orderly (s : Rotation ι) : Prop where
  alone : ∀ p q, s.phase p ≠ .idle → s.phase q ≠ .idle → p = q
  inOrder : ∀ p, (s.phase p).InOrder s.tokens

variable {s t : Rotation ι}

/-- A token that validates is stored. -/
theorem mem_of_authenticates {tokenID : String} (h : s.authenticates tokenID = true) :
    tokenID ∈ s.tokens.map RefreshToken.tokenId := by
  have hfound := (Bool.and_eq_true_iff.mp h).1
  cases hfind : s.getUserRefreshTokenByID tokenID with
  | none =>
      rw [hfind] at hfound
      cases hfound
  | some token =>
      rw [getUserRefreshTokenByID] at hfind
      have hid := List.find?_some hfind
      exact List.mem_map.mpr ⟨token, List.mem_of_find?_eq_some hfind, beq_iff_eq.mp hid⟩

theorem orderly_of_quiet (h : s.Quiet) : s.Orderly := by
  refine ⟨fun p _ hp => absurd (h p) hp, fun p => ?_⟩
  rw [h p]
  trivial

private theorem Orderly.others_idle (h : s.Orderly) {p q : ι} (hp : s.phase p ≠ .idle) (hqp : q ≠ p)
    :
    s.phase q = .idle := by
  by_contra hq
  exact hqp (h.alone q p hq hp)

/-- Only one request is worked on after a step, and it is in order. -/
theorem orderly_of_one {p : ι} (hothers : ∀ q, q ≠ p → t.phase q = .idle)
    (hp : (t.phase p).InOrder t.tokens) : t.Orderly := by
  constructor
  · intro q r hq hr
    have hqp : q = p := by
      by_contra hne
      exact hq (hothers q hne)
    have hrp : r = p := by
      by_contra hne
      exact hr (hothers r hne)
    exact hqp.trans hrp.symm
  · intro q
    by_cases hqp : q = p
    · rw [hqp]
      exact hp
    · rw [hothers q hqp]
      trivial

/-- A serial step goes over the list as it is stored. -/
theorem Orderly.undisturbed (h : s.Orderly) {e : RotationEvent ι} (hserial : s.Serial e) :
    s.Undisturbed e := by
  cases e with
  | addWrite p =>
      intro old token seen hp
      have horder := h.inOrder p
      rw [hp] at horder
      exact horder.1
  | removeWrite p =>
      intro old seen hp
      have horder := h.inOrder p
      rw [hp] at horder
      exact horder
  | removeFail p => exact hserial.elim
  | signOutWrite p =>
      intro tokenID seen hp
      have horder := h.inOrder p
      rw [hp] at horder
      exact horder
  | _ => trivial

variable [DecidableEq ι]

/-- A step changes the phase of its request only. -/
theorem Does.phase_eq {e : RotationEvent ι} (h : s.Does e t) {q : ι}
    (hq : e.request? ≠ some q) : t.phase q = s.phase q := by
  have hother {p : ι} (hp : RotationEvent.request? e = some p) : q ≠ p :=
    fun heq => hq (heq ▸ hp)
  cases h with
  | tick | setUser | rejected | validateFail => rfl
  | _ => exact phase_setPhase_of_ne (hother rfl) s _

/-- In a serial step that changes anything the server works on no other request. -/
theorem Orderly.others_idle_of_does (h : s.Orderly) {e : RotationEvent ι} (hserial : s.Serial e)
    (hdoes : s.Does e t) {p q : ι} (hp : e.request? = some p) (hqp : q ≠ p) :
    t = s ∨ s.phase q = .idle := by
  have hbusy {old : Phase} (hphase : s.phase p = old) (hne : old ≠ .idle) :
      t = s ∨ s.phase q = .idle :=
    Or.inr (h.others_idle (hphase ▸ hne) hqp)
  cases hdoes with
  | tick | setUser => cases hp
  | accepted | signInRead | signOutRead => exact Or.inr (hserial q)
  | rejected | validateFail => exact Or.inl rfl
  | addFail hphase =>
      cases hp
      rcases hphase with ⟨old, hphase⟩ | ⟨old, token, seen, hphase⟩
      · exact hbusy hphase Phase.noConfusion
      · exact hbusy hphase Phase.noConfusion
  | removeFail hphase =>
      cases hp
      rcases hphase with hphase | ⟨seen, hphase⟩
      · exact hbusy hphase Phase.noConfusion
      · exact hbusy hphase Phase.noConfusion
  | addRead hphase | addWrite hphase | removeRead hphase | removeWrite hphase
  | signOutWrite hphase | signOutFail hphase =>
      cases hp
      exact hbusy hphase Phase.noConfusion

/-- Every serial step keeps the order. -/
theorem orderly_step (s : Rotation ι) (e : RotationEvent ι) (t : Rotation ι) (h : s.Orderly)
    (hserial : s.Serial e) (hstep : s.step e = some t) : t.Orderly := by
  have hdoes := does_of_step hstep
  have hone {p : ι} (hp : e.request? = some p) (horder : (t.phase p).InOrder t.tokens) :
      t.Orderly := by
    by_cases hsame : t = s
    · exact hsame ▸ h
    refine orderly_of_one (fun q hqp => ?_) horder
    rw [hdoes.phase_eq fun hq => hqp (Option.some.inj (hq.symm.trans hp))]
    exact (h.others_idle_of_does hserial hdoes hp hqp).resolve_left hsame
  cases hdoes with
  | tick seconds => exact ⟨h.alone, h.inOrder⟩
  | @setUser user hexists =>
      cases user with
      | none => exact orderly_of_quiet hserial
      | some status => exact ⟨h.alone, h.inOrder⟩
  | accepted hp hvalid =>
      refine hone rfl ?_
      rw [phase_setPhase_self]
      exact mem_of_authenticates hvalid
  | rejected => exact h
  | validateFail => exact h
  | @addRead p old newTokenID hp =>
      refine hone rfl ?_
      have horder := h.inOrder p
      rw [hp] at horder
      rw [drawn, phase_setPhase_self]
      exact ⟨rfl, fun id hid => Option.some.inj hid ▸ horder⟩
  | @addWrite p old token seen hp =>
      refine hone rfl ?_
      have horder := h.inOrder p
      rw [hp] at horder
      rw [phase_setPhase_self]
      cases old with
      | none => trivial
      | some old =>
          have hold := horder.2 old rfl
          simp only [Option.elim_some, Phase.InOrder, addUserRefreshToken, addToken, horder.1,
            List.map_append, List.mem_append]
          exact Or.inl hold
  | addFail =>
      refine hone rfl ?_
      rw [phase_setPhase_self]
      trivial
  | @removeRead p old hp =>
      refine hone rfl ?_
      have horder := h.inOrder p
      rw [hp] at horder
      rw [phase_setPhase_self]
      exact ⟨rfl, horder⟩
  | removeWrite | signOutWrite | signOutFail =>
      refine hone rfl ?_
      rw [phase_setPhase_self]
      trivial
  | removeFail => exact hserial.elim
  | signInRead =>
      refine hone rfl ?_
      rw [drawn, phase_setPhase_self]
      exact ⟨rfl, fun id hid => by cases hid⟩
  | signOutRead =>
      refine hone rfl ?_
      rw [phase_setPhase_self]
      exact rfl

end Rotation

end

end Auth
end MemosNote
