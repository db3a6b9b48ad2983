import Mathlib.Data.List.Perm.Basic
import Mathlib.Logic.Function.Basic
import MemosNote.Api.SSEEvent
import MemosNote.Library.Channel
import MemosNote.Library.Run

/-!
# The hub of change events

Clients subscribe to a hub and receive from their channels the events that are broadcast while
they are registered.  Each operation holds the mutex of the hub, so that it is one step; a client
receives without the mutex, between the steps.

Main results:

- Theorem {lit}`step_ok`: no step panics.
- Theorem {lit}`hub_safe`: channels, clients and the closed flag agree in every reachable state,
  and what a client gets is what was broadcast to it, in order, less what was dropped.
-/

namespace MemosNote
namespace Api

open Library Store

/-! ## The operations -/

structure SSEClient where
  events : Channel (List Char) 32
  userID : ℤ
  role : Role

/-- Whether a client may receive an event. -/
def SSEClient.canReceive (c : SSEClient) (event : SSEEvent) : Bool :=
  if event.Visibility = "PRIVATE" then c.userID = event.CreatorID ∨ c.role = .ADMIN
  else event.Visibility = "PUBLIC" ∨ event.Visibility = "PROTECTED" ∨ event.Visibility = ""

/-- The hub, with every client that has been made; a client is known by its number. -/
structure SSEHub where
  made : ℕ
  client : ℕ → SSEClient
  clients : List ℕ
  closed : Bool

namespace SSEHub

def NewSSEHub : SSEHub where
  made := 0
  client _ := ⟨.make, 0, .USER⟩
  clients := []
  closed := false

/-- The hub with another channel of a client. -/
def withEvents (h : SSEHub) (c : ℕ) (events : Channel (List Char) 32) : SSEHub :=
  { h with client := Function.update h.client c { h.client c with events } }

/-- A new client; after the hub was closed its channel is closed at once. -/
def Subscribe (h : SSEHub) (userID : ℤ) (role : Role) : Except Panic SSEHub :=
  let c := h.made
  let h := { h with
    made := c + 1
    client := Function.update h.client c ⟨.make, userID, role⟩ }
  if h.closed then (h.client c).events.close.map (h.withEvents c)
  else .ok { h with clients := h.clients ++ [c] }

/-- Remove a client from the map and close its channel. -/
def remove (h : SSEHub) (c : ℕ) : Except Panic SSEHub :=
  (h.client c).events.close.map fun events =>
    { h with clients := h.clients.filter (· ≠ c) }.withEvents c events

def Unsubscribe (h : SSEHub) (c : ℕ) : Except Panic SSEHub :=
  if c ∈ h.clients then h.remove c else .ok h

/-- Remove the clients in the order in which the map yields them. -/
def removeAll (h : SSEHub) : List ℕ → Except Panic SSEHub
  | [] => .ok h
  | c :: order => (h.remove c).bind fun h => removeAll h order

def Close (h : SSEHub) (order : List ℕ) : Except Panic SSEHub :=
  if h.closed then .ok h else { h with closed := true }.removeAll order

/-- Offer an event to a client that may receive it. -/
def offer (h : SSEHub) (event : SSEEvent) (c : ℕ) : Except Panic SSEHub :=
  if (h.client c).canReceive event then
    ((h.client c).events.offer event.JSON).map (h.withEvents c)
  else .ok h

/-- Offer an event to the clients in the order in which the map yields them. -/
def offerAll (h : SSEHub) (event : SSEEvent) : List ℕ → Except Panic SSEHub
  | [] => .ok h
  | c :: order => (h.offer event c).bind fun h => offerAll h event order

def Broadcast (h : SSEHub) (event : SSEEvent) (order : List ℕ) : Except Panic SSEHub :=
  if event.JSON.length = 0 then .ok h else h.offerAll event order

end SSEHub

/-- What the parties do. -/
inductive HubLabel where
  | subscribe (userID : ℤ) (role : Role)
  | unsubscribe (c : ℕ)
  | close (order : List ℕ)
  | broadcast (event : SSEEvent) (order : List ℕ)
  | receive (c : ℕ)
deriving DecidableEq, Repr

namespace HubLabel

/-- A client was made before it is used, and a map yields each key once. -/
def Enabled (h : SSEHub) : HubLabel → Prop
  | subscribe _ _ => True
  | unsubscribe c => c < h.made
  | close order => order.Perm h.clients
  | broadcast _ order => order.Perm h.clients
  | receive c => c < h.made

instance (h : SSEHub) (l : HubLabel) : Decidable (l.Enabled h) := by
  cases l <;> unfold Enabled <;> infer_instance

/-- What happens, or a panic. -/
def run (h : SSEHub) : HubLabel → Except Panic SSEHub
  | subscribe userID role => h.Subscribe userID role
  | unsubscribe c => h.Unsubscribe c
  | close order => h.Close order
  | broadcast event order => h.Broadcast event order
  | receive c => .ok (h.withEvents c (h.client c).events.receive)

end HubLabel

/-! ## What an operation does -/

namespace SSEHub

theorem client_withEvents (h : SSEHub) (c d : ℕ) (events : Channel (List Char) 32) :
    (h.withEvents c events).client d =
      if d = c then { h.client d with events } else h.client d := by
  by_cases hd : d = c
  · subst hd
    rw [if_pos rfl]
    exact Function.update_self ..
  · rw [if_neg hd]
    exact Function.update_of_ne hd ..

/-- The map, the channels and the closed flag agree. -/
structure Consistent (h : SSEHub) : Prop where
  nodup : h.clients.Nodup
  made : ∀ c ∈ h.clients, c < h.made
  open_iff : ∀ c < h.made, (h.client c).events.closed = false ↔ c ∈ h.clients
  shut : h.closed = true → h.clients = []

private theorem consistent_NewSSEHub : NewSSEHub.Consistent where
  nodup := List.nodup_nil
  made _ hc := absurd hc List.not_mem_nil
  open_iff _ hc := absurd hc (Nat.not_lt_zero _)
  shut _ := rfl

theorem Consistent.open_of_mem {h : SSEHub} (hh : h.Consistent) {c : ℕ} (hc : c ∈ h.clients) :
    (h.client c).events.closed = false :=
  (hh.open_iff c (hh.made c hc)).mpr hc

/-- Open channels of different clients are closed without a panic. -/
theorem removeAll_ok {h : SSEHub} {order : List ℕ} (hnodup : order.Nodup)
    (hopen : ∀ c ∈ order, (h.client c).events.closed = false) :
    ∃ h', h.removeAll order = .ok h' ∧ h'.made = h.made ∧ h'.closed = h.closed ∧
      h'.clients = h.clients.filter (· ∉ order) ∧
      ∀ d, h'.client d =
        if d ∈ order then { h.client d with events := (h.client d).events.shut }
        else h.client d := by
  induction order generalizing h with
  | nil => exact ⟨h, rfl, rfl, rfl, by simp, fun d => by simp⟩
  | cons c order ih =>
      rw [List.nodup_cons] at hnodup
      let h₁ := { h with clients := h.clients.filter (· ≠ c) }.withEvents c
        (h.client c).events.shut
      have hremove : h.remove c = .ok h₁ := by
        rw [remove, Channel.close_of_open (hopen c List.mem_cons_self)]
        rfl
      have hclient : ∀ d, h₁.client d =
          if d = c then { h.client d with events := (h.client c).events.shut }
          else h.client d :=
        fun d => client_withEvents _ c d _
      have hopen₁ : ∀ d ∈ order, (h₁.client d).events.closed = false := by
        intro d hd
        have hdc : d ≠ c := fun he => hnodup.1 (he ▸ hd)
        rw [hclient, if_neg hdc]
        exact hopen d (List.mem_cons_of_mem c hd)
      rcases ih hnodup.2 hopen₁ with ⟨h', hall, hmade, hclosed, hclients, hclient'⟩
      refine ⟨h', ?_, hmade, hclosed, ?_, ?_⟩
      · rw [removeAll, hremove]
        exact hall
      · rw [hclients]
        change (h.clients.filter (· ≠ c)).filter (· ∉ order) = _
        rw [List.filter_filter]
        congr 1
        funext d
        simp [not_or, Bool.and_comm]
      · intro d
        rw [hclient', hclient]
        by_cases hdc : d = c
        · subst hdc
          simp [hnodup.1]
        · simp [hdc]

/-- An event is offered to open channels without a panic. -/
theorem offerAll_ok {h : SSEHub} {event : SSEEvent} {order : List ℕ} (hnodup : order.Nodup)
    (hopen : ∀ c ∈ order, (h.client c).events.closed = false) :
    ∃ h', h.offerAll event order = .ok h' ∧ h'.made = h.made ∧ h'.closed = h.closed ∧
      h'.clients = h.clients ∧
      ∀ d, h'.client d =
        if d ∈ order ∧ (h.client d).canReceive event = true then
          { h.client d with events := (h.client d).events.push event.JSON }
        else h.client d := by
  induction order generalizing h with
  | nil => exact ⟨h, rfl, rfl, rfl, rfl, fun d => by simp⟩
  | cons c order ih =>
      rw [List.nodup_cons] at hnodup
      have hoffer : ∃ h₁, h.offer event c = .ok h₁ ∧ h₁.made = h.made ∧ h₁.closed = h.closed ∧
          h₁.clients = h.clients ∧ ∀ d, h₁.client d =
            if d = c ∧ (h.client d).canReceive event = true then
              { h.client d with events := (h.client d).events.push event.JSON }
            else h.client d := by
        unfold offer
        by_cases hreceive : (h.client c).canReceive event = true
        · rw [if_pos hreceive, Channel.offer_of_open (hopen c List.mem_cons_self)]
          refine ⟨_, rfl, rfl, rfl, rfl, fun d => ?_⟩
          rw [client_withEvents]
          by_cases hdc : d = c
          · subst hdc
            simp [hreceive]
          · simp [hdc]
        · rw [if_neg hreceive]
          refine ⟨_, rfl, rfl, rfl, rfl, fun d => ?_⟩
          by_cases hdc : d = c
          · subst hdc
            simp [hreceive]
          · simp [hdc]
      rcases hoffer with ⟨h₁, hoffer, hmade₁, hclosed₁, hclients₁, hclient₁⟩
      have hsame : ∀ d ∈ order, h₁.client d = h.client d := by
        intro d hd
        have hdc : d ≠ c := fun he => hnodup.1 (he ▸ hd)
        rw [hclient₁, if_neg (by tauto)]
      have hopen₁ : ∀ d ∈ order, (h₁.client d).events.closed = false := by
        intro d hd
        rw [hsame d hd]
        exact hopen d (List.mem_cons_of_mem c hd)
      rcases ih hnodup.2 hopen₁ with ⟨h', hall, hmade, hclosed, hclients, hclient'⟩
      refine ⟨h', ?_, hmade.trans hmade₁, hclosed.trans hclosed₁, hclients.trans hclients₁, ?_⟩
      · rw [offerAll, hoffer]
        exact hall
      · intro d
        rw [hclient']
        by_cases hd : d ∈ order
        · rw [hsame d hd]
          simp [hd]
        · have hclient := hclient₁ d
          simp only [hd, false_and, if_false, List.mem_cons, or_false]
          exact hclient

/-- What the channels contain after an operation: new messages at the end, or less. -/
def Extends (h h' : SSEHub) (added : ℕ → List (List Char)) : Prop :=
  ∀ d, List.Sublist (h'.client d).events.history ((h.client d).events.history ++ added d)

theorem Extends.of_history {h h' : SSEHub} {added : ℕ → List (List Char)}
    (hsame : ∀ d, (h'.client d).events.history = (h.client d).events.history) :
    Extends h h' added := by
  intro d
  rw [hsame]
  exact List.sublist_append_left _ _

private theorem Subscribe_ok {h : SSEHub} (hh : h.Consistent) (userID : ℤ) (role : Role) :
    ∃ h', h.Subscribe userID role = .ok h' ∧ h'.Consistent ∧ h'.closed = h.closed ∧
      Extends h h' fun _ => [] := by
  let hnew : SSEHub := { h with
    made := h.made + 1
    client := Function.update h.client h.made ⟨.make, userID, role⟩ }
  have hself : hnew.client h.made = ⟨.make, userID, role⟩ := Function.update_self ..
  have hother : ∀ d, d ≠ h.made → hnew.client d = h.client d :=
    fun d hd => Function.update_of_ne hd ..
  have hfresh : h.made ∉ h.clients := fun hmem => Nat.lt_irrefl _ (hh.made _ hmem)
  by_cases hclosed : h.closed = true
  · have hempty := hh.shut hclosed
    have hclient : ∀ d, (hnew.withEvents h.made Channel.make.shut).client d =
        if d = h.made then ⟨Channel.make.shut, userID, role⟩ else h.client d := by
      intro d
      rw [client_withEvents]
      by_cases hd : d = h.made
      · rw [if_pos hd, if_pos hd, hd, hself]
      · rw [if_neg hd, if_neg hd, hother d hd]
    refine ⟨hnew.withEvents h.made Channel.make.shut, ?_, ⟨?_, ?_, ?_, ?_⟩, rfl, ?_⟩
    · change (if h.closed = true then (hnew.client h.made).events.close.map
        (hnew.withEvents h.made) else _) = _
      rw [if_pos hclosed, hself]
      rfl
    · exact hh.nodup
    · intro c hc
      exact Nat.lt_succ_of_lt (hh.made c hc)
    · intro c hc
      change _ ↔ c ∈ h.clients
      rw [hclient]
      by_cases hd : c = h.made
      · subst hd
        simp [hfresh, Channel.shut]
      · rw [if_neg hd]
        exact hh.open_iff c (Nat.lt_of_le_of_ne (Nat.le_of_lt_succ hc) hd)
    · exact fun _ => hempty
    · intro d
      rw [hclient]
      by_cases hd : d = h.made
      · rw [if_pos hd]
        exact List.nil_sublist _
      · rw [if_neg hd, List.append_nil]
  · refine ⟨{ hnew with clients := h.clients ++ [h.made] }, ?_, ⟨?_, ?_, ?_, ?_⟩, rfl, ?_⟩
    · change (if h.closed = true then _ else Except.ok _) = _
      rw [if_neg hclosed]
    · rw [List.nodup_append]
      exact ⟨hh.nodup, List.nodup_singleton _, by
        intro a ha b hb hab
        rw [List.mem_singleton] at hb
        exact hfresh (hb ▸ hab ▸ ha)⟩
    · intro c hc
      rcases List.mem_append.mp hc with hc | hc
      · exact Nat.lt_succ_of_lt (hh.made c hc)
      · rw [List.mem_singleton.mp hc]
        exact Nat.lt_succ_self _
    · intro c hc
      change (hnew.client c).events.closed = false ↔ c ∈ h.clients ++ [h.made]
      by_cases hd : c = h.made
      · subst hd
        rw [hself]
        simp [Channel.make]
      · rw [hother c hd]
        have hiff := hh.open_iff c (Nat.lt_of_le_of_ne (Nat.le_of_lt_succ hc) hd)
        simp [hiff, hd]
    · exact fun h' => absurd h' hclosed
    · intro d
      change List.Sublist (hnew.client d).events.history _
      by_cases hd : d = h.made
      · rw [hd, hself]
        exact List.nil_sublist _
      · rw [hother d hd, List.append_nil]

/-- Closing the channels of clients that leave the map. -/
theorem removeAll_consistent {h : SSEHub} (hh : h.Consistent) {closed : Bool} {order : List ℕ}
    (hnodup : order.Nodup) (hmem : ∀ c ∈ order, c ∈ h.clients)
    (hshut : closed = true → ∀ c ∈ h.clients, c ∈ order) :
    ∃ h', { h with closed }.removeAll order = .ok h' ∧ h'.Consistent ∧ h'.closed = closed ∧
      Extends h h' fun _ => [] := by
  have hopen : ∀ c ∈ order, (({ h with closed } : SSEHub).client c).events.closed = false :=
    fun c hc => hh.open_of_mem (hmem c hc)
  rcases removeAll_ok hnodup hopen with ⟨h', hall, hmade, hclosed, hclients, hclient⟩
  refine ⟨h', hall, ⟨?_, ?_, ?_, ?_⟩, hclosed, ?_⟩
  · rw [hclients]
    exact hh.nodup.filter _
  · intro c hc
    rw [hclients] at hc
    rw [hmade]
    exact hh.made c (List.mem_of_mem_filter hc)
  · intro c hc
    rw [hmade] at hc
    rw [hclient, hclients, List.mem_filter]
    by_cases hd : c ∈ order
    · simp [hd, Channel.shut]
    · rw [if_neg hd]
      simp [hd, hh.open_iff c hc]
  · intro htrue
    rw [hclosed] at htrue
    rw [hclients, List.filter_eq_nil_iff]
    intro c hc
    simpa using hshut htrue c hc
  · apply Extends.of_history
    intro d
    rw [hclient]
    by_cases hd : d ∈ order
    · rw [if_pos hd, Channel.history_shut]
    · rw [if_neg hd]

private theorem Unsubscribe_ok {h : SSEHub} (hh : h.Consistent) (c : ℕ) :
    ∃ h', h.Unsubscribe c = .ok h' ∧ h'.Consistent ∧ h'.closed = h.closed ∧
      Extends h h' fun _ => [] := by
  unfold Unsubscribe
  by_cases hc : c ∈ h.clients
  · rw [if_pos hc]
    have hshut : h.closed = true → ∀ d ∈ h.clients, d ∈ [c] := by
      intro hclosed
      rw [hh.shut hclosed] at hc
      exact absurd hc List.not_mem_nil
    have hmem : ∀ d ∈ [c], d ∈ h.clients := by simpa using hc
    rcases removeAll_consistent hh (List.nodup_singleton c) hmem hshut with ⟨h', hall, hrest⟩
    refine ⟨h', ?_, hrest⟩
    have hone : h.removeAll [c] = h.remove c := by
      rw [removeAll]
      cases h.remove c <;> rfl
    rw [← hone]
    exact hall
  · rw [if_neg hc]
    exact ⟨h, rfl, hh, rfl, .of_history fun _ => rfl⟩

private theorem Close_ok {h : SSEHub} (hh : h.Consistent) {order : List ℕ}
    (horder : order.Perm h.clients) :
    ∃ h', h.Close order = .ok h' ∧ h'.Consistent ∧ h'.closed = true ∧
      Extends h h' fun _ => [] := by
  unfold Close
  by_cases hclosed : h.closed = true
  · rw [if_pos hclosed]
    exact ⟨h, rfl, hh, hclosed, .of_history fun _ => rfl⟩
  · rw [if_neg hclosed]
    exact removeAll_consistent hh (horder.nodup_iff.mpr hh.nodup) (fun c hc => horder.mem_iff.mp hc)
      fun _ c hc => horder.mem_iff.mpr hc

/-- A broadcast adds its event for the registered clients that may receive it. -/
theorem Broadcast_ok {h : SSEHub} (hh : h.Consistent) (event : SSEEvent) {order : List ℕ}
    (horder : order.Perm h.clients) :
    ∃ h', h.Broadcast event order = .ok h' ∧ h'.Consistent ∧ h'.closed = h.closed ∧
      Extends h h' fun d =>
        if d ∈ h.clients ∧ (h.client d).canReceive event = true then [event.JSON] else [] := by
  have hdata : ¬event.JSON.length = 0 := Nat.succ_ne_zero _
  have hopen : ∀ c ∈ order, (h.client c).events.closed = false :=
    fun c hc => hh.open_of_mem (horder.mem_iff.mp hc)
  rcases @offerAll_ok h event order (horder.nodup_iff.mpr hh.nodup) hopen with
    ⟨h', hall, hmade, hclosed, hclients, hclient⟩
  refine ⟨h', ?_, ⟨?_, ?_, ?_, ?_⟩, hclosed, ?_⟩
  · rw [Broadcast, if_neg hdata, hall]
  · rw [hclients]
    exact hh.nodup
  · rw [hclients, hmade]
    exact hh.made
  · intro c hc
    rw [hmade] at hc
    rw [hclients, ← hh.open_iff c hc, hclient]
    split
    · rw [Channel.closed_push]
    · rfl
  · rw [hclients, hclosed]
    exact hh.shut
  · intro d
    beta_reduce
    by_cases hd : d ∈ h.clients ∧ (h.client d).canReceive event = true
    · rw [hclient, if_pos ⟨horder.mem_iff.mpr hd.1, hd.2⟩, if_pos hd]
      exact Channel.history_push_sublist _ _
    · have horder' : ¬(d ∈ order ∧ (h.client d).canReceive event = true) :=
        fun h' => hd ⟨horder.mem_iff.mp h'.1, h'.2⟩
      rw [hclient, if_neg horder', if_neg hd, List.append_nil]

end SSEHub

/-! ## Runs -/

/-- What is broadcast to a client in a step: it is registered and may receive the event. -/
def HubLabel.broadcastTo (c : ℕ) (h : SSEHub) : HubLabel → List SSEEvent
  | broadcast event _ =>
      if c ∈ h.clients ∧ (h.client c).canReceive event = true then [event] else []
  | _ => []

/-- No step panics, and every step keeps the hub consistent. -/
theorem step_ok {h : SSEHub} (hh : h.Consistent) {l : HubLabel} (hl : l.Enabled h) :
    ∃ h', l.run h = .ok h' ∧ h'.Consistent ∧
      ((∃ order, l = .close order) ∨ h.closed = true → h'.closed = true) ∧
      SSEHub.Extends h h' fun c => (l.broadcastTo c h).map SSEEvent.JSON := by
  cases l with
  | subscribe userID role =>
      rcases SSEHub.Subscribe_ok hh userID role with ⟨h', hrun, hh', hclosed, hextends⟩
      exact ⟨h', hrun, hh', by simp [hclosed], hextends⟩
  | unsubscribe c =>
      rcases SSEHub.Unsubscribe_ok hh c with ⟨h', hrun, hh', hclosed, hextends⟩
      exact ⟨h', hrun, hh', by simp [hclosed], hextends⟩
  | close order =>
      rcases SSEHub.Close_ok hh hl with ⟨h', hrun, hh', hclosed, hextends⟩
      exact ⟨h', hrun, hh', fun _ => hclosed, hextends⟩
  | broadcast event order =>
      rcases SSEHub.Broadcast_ok hh event hl with ⟨h', hrun, hh', hclosed, hextends⟩
      refine ⟨h', hrun, hh', by simp [hclosed], fun c => ?_⟩
      have hc := hextends c
      have hadded : (HubLabel.broadcast event order).broadcastTo c h =
          if c ∈ h.clients ∧ (h.client c).canReceive event = true then [event] else [] := rfl
      beta_reduce at hc ⊢
      rw [hadded]
      by_cases hmay : c ∈ h.clients ∧ (h.client c).canReceive event = true
      · rw [if_pos hmay] at hc
        rw [if_pos hmay]
        exact hc
      · rw [if_neg hmay] at hc
        rw [if_neg hmay]
        exact hc
  | receive c =>
      have hclient : ∀ d, ((h.withEvents c (h.client c).events.receive).client d).events =
          if d = c then (h.client d).events.receive else (h.client d).events := by
        intro d
        rw [SSEHub.client_withEvents]
        by_cases hd : d = c
        · subst hd
          rw [if_pos rfl, if_pos rfl]
        · rw [if_neg hd, if_neg hd]
      refine ⟨_, rfl, ⟨hh.nodup, hh.made, ?_, hh.shut⟩, ?_, .of_history fun d => ?_⟩
      · intro d hd
        rw [hclient]
        change _ ↔ d ∈ h.clients
        rw [← hh.open_iff d hd]
        split
        · rw [Channel.closed_receive]
        · rfl
      · rintro (⟨order, ho⟩ | hclosed)
        · cases ho
        · exact hclosed
      · rw [hclient]
        split
        · rw [Channel.history_receive]
        · rfl

/-- The step of the hub, as one that may not happen. -/
def hubStep (h : SSEHub) (l : HubLabel) : Option SSEHub :=
  (l.run h).toOption

/-- Everything broadcast to a client along a run: while it is registered, what it may receive. -/
def broadcastTo (c : ℕ) : SSEHub → List HubLabel → List SSEEvent
  | _, [] => []
  | h, l :: ls => l.broadcastTo c h ++ (hubStep h l).elim [] fun h' => broadcastTo c h' ls

private theorem run_ok {h h' : SSEHub} {ls : List HubLabel} (hh : h.Consistent)
    (hrun : Run hubStep (fun h l => l.Enabled h) h ls h') :
    h'.Consistent ∧ ((∃ order, .close order ∈ ls) ∨ h.closed = true → h'.closed = true) ∧
      SSEHub.Extends h h' fun c => (broadcastTo c h ls).map SSEEvent.JSON := by
  induction hrun with
  | nil h =>
      refine ⟨hh, ?_, .of_history fun _ => rfl⟩
      rintro (⟨order, ho⟩ | hclosed)
      · exact absurd ho List.not_mem_nil
      · exact hclosed
  | @cons h h₁ h' l ls hl hstep _ ih =>
      rcases step_ok hh hl with ⟨h₂, hrun, hh₁, hclosed, hextends⟩
      have hsame : hubStep h l = some h₂ := by
        rw [hubStep, hrun]
        rfl
      rw [hsame] at hstep
      cases hstep
      rcases ih hh₁ with ⟨hh', hclosed', hextends'⟩
      refine ⟨hh', ?_, fun c => ?_⟩
      · rintro (⟨order, ho⟩ | hclosed₀)
        · rcases List.mem_cons.mp ho with ho | ho
          · exact hclosed' (.inr (hclosed (.inl ⟨order, ho.symm⟩)))
          · exact hclosed' (.inl ⟨order, ho⟩)
        · exact hclosed' (.inr (hclosed (.inr hclosed₀)))
      · have hlater := hextends' c
        have hfirst := (hextends c).append_right ((broadcastTo c h₁ ls).map SSEEvent.JSON)
        have hall := hlater.trans hfirst
        rw [List.append_assoc, ← List.map_append] at hall
        beta_reduce
        rw [broadcastTo, hsame]
        exact hall

/-- In every reachable state no step panics, the channel of a client is closed exactly when it is
not registered, and after a close none is.  What a client has received or has in its buffer was
broadcast to it, in this order. -/
theorem hub_safe {ls : List HubLabel} {h : SSEHub}
    (hrun : Run hubStep (fun h l => l.Enabled h) SSEHub.NewSSEHub ls h) :
    (∀ l : HubLabel, l.Enabled h → ∃ h', l.run h = .ok h') ∧
      (∀ c < h.made, (h.client c).events.closed = true ↔ c ∉ h.clients) ∧
      ((∃ order, .close order ∈ ls) → h.clients = []) ∧
      ∀ c, List.Sublist ((h.client c).events.received ++ (h.client c).events.buffer)
        ((broadcastTo c SSEHub.NewSSEHub ls).map SSEEvent.JSON) := by
  rcases run_ok SSEHub.consistent_NewSSEHub hrun with ⟨hh, hclosed, hextends⟩
  refine ⟨?_, ?_, ?_, hextends⟩
  · intro l hl
    rcases step_ok hh hl with ⟨h', hstep, -⟩
    exact ⟨h', hstep⟩
  · intro c hc
    rw [← hh.open_iff c hc, Bool.not_eq_false]
  · exact fun hclose => hh.shut (hclosed (.inl hclose))

/-- A client gets an event and the hub is closed; a later client is never registered. -/
theorem hub_safe_closed :
    ∃ h, Run hubStep (fun h l => l.Enabled h) SSEHub.NewSSEHub
        [.subscribe 1 .USER, .broadcast ⟨.SSEEventMemoCreated, "memos/1", "", "PUBLIC", 2⟩ [0],
          .receive 0, .close [0], .subscribe 2 .USER, .unsubscribe 0] h ∧
      h.clients = [] := by
  have hrun : ∃ h, Run hubStep (fun h l => l.Enabled h) SSEHub.NewSSEHub
      [.subscribe 1 .USER, .broadcast ⟨.SSEEventMemoCreated, "memos/1", "", "PUBLIC", 2⟩ [0],
        .receive 0, .close [0], .subscribe 2 .USER, .unsubscribe 0] h := by
    refine ⟨_, .cons trivial rfl (.cons ?_ rfl (.cons ?_ rfl (.cons ?_ rfl
      (.cons trivial rfl (.cons ?_ rfl (.nil _))))))⟩
    · exact List.Perm.refl _
    · exact Nat.zero_lt_one
    · exact List.Perm.refl _
    · exact Nat.zero_lt_two
  rcases hrun with ⟨h, hrun⟩
  exact ⟨h, hrun, (hub_safe hrun).2.2.1 ⟨[0], by simp⟩⟩

end Api
end MemosNote
