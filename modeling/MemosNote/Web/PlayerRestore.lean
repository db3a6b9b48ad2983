import MemosNote.Library.Keys
import MemosNote.Web.MusicPlayer

/-!
# Restoring the player

When the player is mounted, one effect asks for the cookie and restores the saved state when the
answer is there, and another effect saves the state.  Whatever the order, the player ends in the
state that is in the storage when the answer arrives, and that is the saved one only if nothing
else was saved before.

Main results:

- Theorem {lit}`restored_of_run`: where a player ends that is mounted.
- Theorem {lit}`restore_iff`: when that is the saved state.
- Theorem {lit}`saved_state_is_erased`: the order in which effects run.
-/

namespace MemosNote
namespace Web

open Library

/-- A player that is rendered for the first time. -/
def mounted (saved : PlayerState) (cookie : Option String) : Page where
  storage := ⟨cookie, some saved⟩

/-- The effects run, or the request for the cookie is answered. -/
def IsMountStep (s : Page) : PlayerStep → Prop
  | .loadEffect | .saveEffect | .urlEffect => True
  | .arrive number _ => s.requests.lookup number = some .cookie
  | _ => False

instance (s : Page) (e : PlayerStep) : Decidable (IsMountStep s e) :=
  match e with
  | .loadEffect | .saveEffect | .urlEffect => isTrue trivial
  | .arrive number _ => inferInstanceAs (Decidable (s.requests.lookup number = some .cookie))
  | .select _ | .poll _ | .logout => isFalse id

/-- The state is saved before the first answer. -/
def savesFirst : List PlayerStep → Bool
  | [] => false
  | .saveEffect :: _ => true
  | .arrive _ _ :: _ => false
  | _ :: steps => savesFirst steps

/-- The effect that loads the state has run, and its request is answered. -/
def Page.Loaded (s : Page) : Prop :=
  s.loadDue = false ∧ ∀ entry ∈ s.requests, entry.2 ≠ .cookie

/-- Nothing is loaded yet, and this state is in the storage. -/
structure Waiting (q : PlayerState) (s : Page) : Prop where
  player : s.player = {}
  stored : s.storage.memos_player_state = some q
  request : s.loadDue = true ∧ (∀ entry ∈ s.requests, entry.2 ≠ .cookie) ∨
    s.loadDue = false ∧ ∃ number, (number, PlayerRequest.cookie) ∈ s.requests ∧
      ∀ entry ∈ s.requests, entry.2 = .cookie → entry.1 = number

/-- This state is loaded and in the storage. -/
structure Restored (q : PlayerState) (s : Page) : Prop where
  player : s.player = q
  stored : s.storage.memos_player_state = some q
  loaded : s.Loaded

/-! ## Steps -/

variable {s s' : Page} {q : PlayerState}

/-- What is stored of the player stays, and requests are sent that are not for the cookie. -/
structure KeepsStored (s t : Page) : Prop where
  stored : t.storage.memos_player_state = s.storage.memos_player_state
  loadDue : t.loadDue = s.loadDue
  requests : ∃ more, t.requests = s.requests ++ more ∧ ∀ entry ∈ more, entry.2 ≠ .cookie

namespace KeepsStored

theorem of_same {t : Page} (hstored : t.storage.memos_player_state = s.storage.memos_player_state)
    (hload : t.loadDue = s.loadDue) (hrequests : t.requests = s.requests) : KeepsStored s t :=
  ⟨hstored, hload, [], by rw [hrequests, List.append_nil],
    fun entry h => absurd h List.not_mem_nil⟩

theorem trans {t u : Page} (h : KeepsStored s t) (h' : KeepsStored t u) : KeepsStored s u := by
  rcases h.requests with ⟨more, hmore, hother⟩
  rcases h'.requests with ⟨more', hmore', hother'⟩
  refine ⟨h'.stored.trans h.stored, h'.loadDue.trans h.loadDue, more ++ more', ?_, ?_⟩
  · rw [hmore', hmore, List.append_assoc]
  · intro entry hentry
    rcases List.mem_append.mp hentry with hentry | hentry
    · exact hother entry hentry
    · exact hother' entry hentry

theorem fetchNetease (s : Page) {request : PlayerRequest} (h : request ≠ .cookie) :
    KeepsStored s (s.fetchNetease request) := by
  refine ⟨rfl, rfl, [(s.sent, request)], rfl, fun entry hentry => ?_⟩
  rw [List.mem_singleton.mp hentry]
  exact h

theorem sends {t : Page} (h : KeepsStored s t) {request : PlayerRequest} (hr : request ≠ .cookie) :
    KeepsStored s (t.fetchNetease request) :=
  h.trans (fetchNetease t hr)

theorem expire (s : Page) (response : PlayerResponse) : KeepsStored s (s.expire response) := by
  rw [Page.expire]
  split
  · rw [Page.handleLogoutNetease]
    refine sends ?_ ?_
    · exact of_same rfl rfl rfl
    · exact nofun
  · exact of_same rfl rfl rfl

theorem urlEffect (s : Page) : KeepsStored s s.urlEffect := by
  rw [Page.urlEffect]
  dsimp only
  split
  · exact of_same rfl rfl rfl
  · split_ifs
    · exact of_same rfl rfl rfl
    · refine sends ?_ ?_
      · exact of_same rfl rfl rfl
      · exact nofun
    · exact of_same rfl rfl rfl

end KeepsStored

theorem player_urlEffect (s : Page) : s.urlEffect.player = s.player := by
  rw [Page.urlEffect]
  dsimp only
  split
  · rfl
  · split_ifs <;> rfl

private theorem restorePlayer_of_stored (h : s.storage.memos_player_state = some q) :
    s.restorePlayer = { s with player := q, saveDue := true, urlDue := true } := by
  rw [Page.restorePlayer, h]

/-- Whatever the answer is, the stored state is loaded. -/
theorem initPlayer_spec (response : PlayerResponse) (h : s.storage.memos_player_state = some q) :
    (s.initPlayer response).player = q ∧ KeepsStored s (s.initPlayer response) := by
  -- The session is taken over in front of the saved state.
  have hsession : ∀ t : Page, KeepsStored s t →
      t.restorePlayer.player = q ∧ KeepsStored s t.restorePlayer := by
    intro t ht
    rw [restorePlayer_of_stored (ht.stored.trans h)]
    exact ⟨rfl, ht.trans (KeepsStored.of_same rfl rfl rfl)⟩
  rw [Page.initPlayer]
  apply hsession
  dsimp only
  generalize response.fetchedCookie = fetched
  by_cases hfetched : fetched = ""
  · rw [if_pos hfetched, if_pos hfetched]
    split_ifs
    · exact KeepsStored.of_same rfl rfl rfl
    · rw [Page.loadNeteasePlaylists]
      refine KeepsStored.sends ?_ ?_
      · exact KeepsStored.of_same rfl rfl rfl
      · exact nofun
  · rw [if_neg hfetched, if_neg hfetched, if_neg hfetched, Page.loadNeteasePlaylists]
    refine KeepsStored.sends ?_ ?_
    · exact KeepsStored.of_same rfl rfl rfl
    · exact nofun

/-! ## Runs -/

theorem noCookie_append {requests more : List (ℕ × PlayerRequest)}
    (h : ∀ entry ∈ requests, entry.2 ≠ .cookie) (hmore : ∀ entry ∈ more, entry.2 ≠ .cookie) :
    ∀ entry ∈ requests ++ more, entry.2 ≠ .cookie := by
  intro entry hentry
  rcases List.mem_append.mp hentry with hentry | hentry
  · exact h entry hentry
  · exact hmore entry hentry

private theorem waiting_urlEffect (h : Waiting q s) : Waiting q s.urlEffect := by
  have hkeeps := KeepsStored.urlEffect s
  rcases hkeeps.requests with ⟨more, hmore, hother⟩
  refine ⟨(player_urlEffect s).trans h.player, hkeeps.stored.trans h.stored, ?_⟩
  rw [hkeeps.loadDue, hmore]
  rcases h.request with ⟨hdue, hnone⟩ | ⟨hdue, number, hmem, hunique⟩
  · exact Or.inl ⟨hdue, noCookie_append hnone hother⟩
  · refine Or.inr ⟨hdue, number, List.mem_append_left _ hmem, fun entry hentry hcookie => ?_⟩
    rcases List.mem_append.mp hentry with hentry | hentry
    · exact hunique entry hentry hcookie
    · exact absurd hcookie (hother entry hentry)

private theorem waiting_loadEffect (h : Waiting q s) (hstep : s.step .loadEffect = some s') :
    Waiting q s' := by
  rw [Page.step] at hstep
  split_ifs at hstep with hdue
  rcases Option.some.inj hstep with rfl
  rcases h.request with ⟨-, hnone⟩ | ⟨hdone, -⟩
  · refine ⟨h.player, h.stored, Or.inr ⟨rfl, s.sent, ?_, fun entry hentry hcookie => ?_⟩⟩
    · exact List.mem_append_right _ List.mem_cons_self
    · rcases List.mem_append.mp hentry with hentry | hentry
      · exact absurd hcookie (hnone entry hentry)
      · rw [List.mem_singleton.mp hentry]
  · rw [hdone] at hdue
    cases hdue

private theorem waiting_saveEffect (h : Waiting q s) : Waiting {} s.saveEffect :=
  ⟨h.player, by rw [← h.player]; rfl, h.request⟩

/-- The answer arrives. -/
theorem restored_of_arrive {number : ℕ} {response : PlayerResponse} (h : Waiting q s)
    (hcookie : s.requests.lookup number = some .cookie)
    (hstep : s.step (.arrive number response) = some s') : Restored q s' := by
  rw [Page.step, hcookie, Option.map_some] at hstep
  rcases Option.some.inj hstep with rfl
  have hmem := mem_of_lookup hcookie
  have hexpired := KeepsStored.expire (s.receive number) response
  rcases initPlayer_spec response (hexpired.stored.trans h.stored) with ⟨hplayer, hkeeps⟩
  have hall := hexpired.trans hkeeps
  rcases hall.requests with ⟨more, hmore, hother⟩
  refine ⟨hplayer, hall.stored.trans h.stored, ?_, ?_⟩
  · rcases h.request with ⟨-, hnone⟩ | ⟨hdue, -⟩
    · exact absurd rfl (hnone _ hmem)
    · exact hall.loadDue.trans hdue
  · rcases h.request with ⟨-, hnone⟩ | ⟨-, n, hn, hunique⟩
    · exact absurd rfl (hnone _ hmem)
    · have hnumber : number = n := hunique _ hmem rfl
      change ∀ entry ∈ (((s.receive number).expire response).initPlayer response).requests,
        entry.2 ≠ .cookie
      rw [hmore]
      refine noCookie_append (fun _ hentry hsame => ?_) hother
      rcases List.mem_filter.mp hentry with ⟨hbefore, hkept⟩
      have hsameNumber := hunique _ hbefore hsame
      rw [← hnumber] at hsameNumber
      simp [hsameNumber] at hkept

private theorem restored_step {e : PlayerStep} (h : Restored q s) (hmount : IsMountStep s e)
    (hstep : s.step e = some s') : Restored q s' := by
  cases e with
  | loadEffect =>
      rw [Page.step, h.loaded.1] at hstep
      cases hstep
  | saveEffect =>
      rw [Page.step] at hstep
      split_ifs at hstep
      rcases Option.some.inj hstep with rfl
      exact ⟨h.player, congrArg some h.player, h.loaded⟩
  | urlEffect =>
      rw [Page.step] at hstep
      split_ifs at hstep
      rcases Option.some.inj hstep with rfl
      have hkeeps := KeepsStored.urlEffect s
      rcases hkeeps.requests with ⟨more, hmore, hother⟩
      refine ⟨(player_urlEffect s).trans h.player, hkeeps.stored.trans h.stored,
        hkeeps.loadDue.trans h.loaded.1, ?_⟩
      rw [hmore]
      exact noCookie_append h.loaded.2 hother
  | arrive number response =>
      exact absurd rfl (h.loaded.2 _ (mem_of_lookup hmount))
  | select | poll | logout => exact hmount.elim

private theorem restored_run {steps : List PlayerStep} (hrun : Run Page.step IsMountStep s steps s')
    (h : Restored q s) : Restored q s' :=
  hrun.invariant (fun _ _ _ hs hmount hstep => restored_step hs hmount hstep) h

/-- A player that is mounted ends in the state that is stored when the answer arrives. -/
theorem restored_of_run {steps : List PlayerStep} (hrun : Run Page.step IsMountStep s steps s')
    (h : Waiting q s) (hloaded : s'.Loaded) :
    Restored (if savesFirst steps then {} else q) s' := by
  induction hrun generalizing q with
  | nil s =>
      rcases h.request with ⟨hdue, -⟩ | ⟨-, number, hmem, -⟩
      · rw [hloaded.1] at hdue
        cases hdue
      · exact absurd rfl (hloaded.2 _ hmem)
  | @cons s s₁ s' e steps hmount hstep hrest ih =>
      cases e with
      | loadEffect => exact ih (waiting_loadEffect h hstep) hloaded
      | saveEffect =>
          rw [Page.step] at hstep
          split_ifs at hstep
          rcases Option.some.inj hstep with rfl
          have hafter := ih (waiting_saveEffect h) hloaded
          rw [ite_self] at hafter
          exact hafter
      | urlEffect =>
          rw [Page.step] at hstep
          split_ifs at hstep
          rcases Option.some.inj hstep with rfl
          exact ih (waiting_urlEffect h) hloaded
      | arrive number response =>
          exact restored_run hrest (restored_of_arrive h hmount hstep)
      | select | poll | logout => exact hmount.elim

private theorem waiting_mounted (saved : PlayerState) (cookie : Option String) :
    Waiting saved (mounted saved cookie) where
  player := rfl
  stored := rfl
  request := Or.inl ⟨rfl, fun _ h => absurd h List.not_mem_nil⟩

/-- Once the cookie is fetched, the player has the saved state, and so has the storage, if and only
if the saved state is the first one of every player, or nothing is saved before the answer. -/
theorem restore_iff {saved : PlayerState} {cookie : Option String} {steps : List PlayerStep}
    (hrun : Run Page.step IsMountStep (mounted saved cookie) steps s) (hloaded : s.Loaded) :
    s.player = saved ∧ s.storage.memos_player_state = some saved ↔
      saved = {} ∨ savesFirst steps = false := by
  have hrestored := restored_of_run hrun (waiting_mounted saved cookie) hloaded
  rw [hrestored.player, hrestored.stored]
  cases savesFirst steps with
  | false => simp
  | true => simp [eq_comm]

/-- A playlist of one track that plays loudly. -/
def savedPlayer : PlayerState where
  playlist := [{ id := "186016", name := "Sunny Day", artist := "Jay", isNetease := true }]
  currentTrackIndex := 0
  volume := 1

/-- The answer arrives before the state is saved. -/
def earlyAnswer : List PlayerStep :=
  [.loadEffect, .arrive 0 (.cookie "MUSIC_U=1"), .saveEffect, .urlEffect]

theorem restore_iff_earlyAnswer :
    ∃ s, Run Page.step IsMountStep (mounted savedPlayer none) earlyAnswer s ∧
      s.player = savedPlayer ∧ s.storage.memos_player_state = some savedPlayer := by
  have hrun : ∃ s, Run Page.step IsMountStep (mounted savedPlayer none) earlyAnswer s ∧
      s.Loaded :=
    ⟨_, Run.of_exec rfl, rfl, by decide⟩
  rcases hrun with ⟨s, hrun, hloaded⟩
  exact ⟨s, hrun, (restore_iff hrun hloaded).mpr (Or.inr rfl)⟩

/-- The effects of the first rendering, the answer, and the effects of the next one. -/
def mountSteps : List PlayerStep :=
  [.loadEffect, .saveEffect, .urlEffect, .arrive 0 .networkError, .saveEffect, .urlEffect]

/-- The effects of the first rendering erase the saved state. -/
theorem saved_state_is_erased :
    ¬∀ (saved : PlayerState) (cookie : Option String) (steps : List PlayerStep) (s : Page),
      Run Page.step IsMountStep (mounted saved cookie) steps s → s.Loaded → s.saveDue = false →
        s.player = saved ∧ s.storage.memos_player_state = some saved := by
  have hrun : ∃ s, Run Page.step IsMountStep (mounted savedPlayer none) mountSteps s ∧
      s.Loaded ∧ s.saveDue = false ∧ s.player.playlist = [] :=
    ⟨_, Run.of_exec rfl, ⟨rfl, by decide⟩, rfl, rfl⟩
  rcases hrun with ⟨s, hrun, hloaded, hsaved, hempty⟩
  intro h
  have hsame := (h _ _ _ _ hrun hloaded hsaved).1
  rw [hsame] at hempty
  cases hempty

end Web
end MemosNote
