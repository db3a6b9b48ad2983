import MemosNote.Web.PlayerRestore

/-!
# Responses that overtake the user

The handlers of responses install what they get, whatever the user did in between.  Beside the page,
a history keeps which selections succeeded and when the session ended.  While no response of an
ended session installs anything, and no tracks replace those of a later selection, the page shows
what the user selected last, and nothing of an ended session.

Main results:

- Theorem {lit}`good_step`: what a step keeps whose response is in time.
- Theorem {lit}`responses_in_time`: what the page shows after a run of such steps.
- Theorem {lit}`responses_overtake`: responses that come too late.
-/

namespace MemosNote
namespace Web

open Library

/-! ## The history of a page -/

/-- What happened to a page: its first playlist, or none since the session ended; how many requests
had been sent when the session ended; whether there was no login since then; and the selections
whose tracks arrived, by the numbers of their requests. -/
structure PlayerHistory where
  base : List Track
  logoutAt : ℕ := 0
  loggedOut : Bool := false
  succeeded : List (ℕ × List Track) := []
deriving DecidableEq, Repr

namespace PlayerHistory

def logout (h : PlayerHistory) (sent : ℕ) : PlayerHistory :=
  { h with base := [], logoutAt := sent, loggedOut := true }

/-- A login is one that was polled for after the last logout. -/
def answered (h : PlayerHistory) (number : ℕ) : PlayerRequest → PlayerResponse → PlayerHistory
  | .qrCheck _, .qr code _ =>
      if code = 803 ∧ h.logoutAt ≤ number then { h with loggedOut := false } else h
  | .tracks _ _, .tracks tracks =>
      { h with succeeded := h.succeeded ++ [(number, tracks.map trackOf)] }
  | _, _ => h

def expire (h : PlayerHistory) (sent : ℕ) (response : PlayerResponse) : PlayerHistory :=
  if response.expires then h.logout sent else h

def record (h : PlayerHistory) (s : Page) : PlayerStep → PlayerHistory
  | .logout => h.logout s.sent
  | .arrive number response =>
      match s.requests.lookup number with
      | none => h
      | some request => (h.expire s.sent response).answered number request response
  | _ => h

/-- The playlist is that of the most recent selection that succeeded since the session ended, or the
first one if there is none. -/
def Shows (h : PlayerHistory) (playlist : List Track) : Prop :=
  (∃ number, (number, playlist) ∈ h.succeeded ∧ h.logoutAt ≤ number ∧
      ∀ entry ∈ h.succeeded, h.logoutAt ≤ entry.1 → entry.1 ≤ number) ∨
    (∀ entry ∈ h.succeeded, entry.1 < h.logoutAt) ∧ playlist = h.base

end PlayerHistory

/-- A page with its history. -/
structure PlayerRun where
  page : Page
  history : PlayerHistory

namespace PlayerRun

/-- A page that is mounted, with nothing in flight. -/
def start (s : Page) : PlayerRun :=
  ⟨s, { base := s.player.playlist }⟩

def step (r : PlayerRun) (e : PlayerStep) : Option PlayerRun :=
  (r.page.step e).map fun page => ⟨page, r.history.record r.page e⟩

/-- After a logout a response installs only what was asked for since then, and tracks belong to the
latest selection that succeeded. -/
def InTime (r : PlayerRun) : PlayerStep → Prop
  | .arrive number response =>
      match r.page.requests.lookup number, response with
      | some (.tracks _ _), .tracks _ =>
          r.history.logoutAt ≤ number ∧ ∀ entry ∈ r.history.succeeded, entry.1 ≤ number
      | some (.playlists _), .playlists _ =>
          r.history.loggedOut = true → r.history.logoutAt ≤ number
      | some (.qrCheck _), .qr code _ =>
          code = 803 → r.history.loggedOut = true → r.history.logoutAt ≤ number
      | _, _ => True
  | _ => True

end PlayerRun

/-- Nothing of a session is in the player or in the storage; what is saved of the player follows its
state. -/
structure NothingInstalled (s : Page) : Prop where
  cookie : s.neteaseCookie = none
  playlists : s.neteasePlaylists = []
  playlist : s.player.playlist = []
  storedCookie : s.storage.memos_netease_cookie = none
  storedPlaylist : s.saveDue = false →
    ∀ state, s.storage.memos_player_state = some state → state.playlist = []

/-! ## The invariant -/

/-- The request is sent with a cookie of the session. -/
def PlayerRequest.needsSession : PlayerRequest → Bool
  | tracks _ _ | playlists _ => true
  | _ => false

/-- The page agrees with its history, and after a logout nothing is asked for with a cookie. -/
structure Good (r : PlayerRun) : Prop where
  shows : r.history.Shows r.page.player.playlist
  sent : ∀ entry ∈ r.page.requests, entry.1 < r.page.sent
  answered : ∀ entry ∈ r.history.succeeded, entry.1 < r.page.sent
  logoutAt : r.history.logoutAt ≤ r.page.sent
  loadDue : r.page.loadDue = false
  noCookie : ∀ entry ∈ r.page.requests, entry.2 ≠ .cookie
  nothing : r.history.loggedOut = true → NothingInstalled r.page
  noSession : r.history.loggedOut = true → ∀ entry ∈ r.page.requests,
    r.history.logoutAt ≤ entry.1 → entry.2.needsSession = false

/-- What the user sees stays, and what is asked for with a cookie is asked for within a session. -/
structure Quiet (s t : Page) : Prop where
  playlist : t.player.playlist = s.player.playlist
  cookie : t.neteaseCookie = s.neteaseCookie
  playlists : t.neteasePlaylists = s.neteasePlaylists
  storage : t.storage = s.storage
  saveDue : t.saveDue = s.saveDue
  loadDue : t.loadDue = s.loadDue
  sent : s.sent ≤ t.sent
  requests : ∀ entry ∈ t.requests, entry ∈ s.requests ∨
    entry.1 < t.sent ∧ entry.2 ≠ .cookie ∧
      (entry.2.needsSession = true → s.neteaseCookie ≠ none)

variable {s t : Page} {h : PlayerHistory}

theorem good_of_quiet (hgood : Good ⟨s, h⟩) (hquiet : Quiet s t) : Good ⟨t, h⟩ where
  shows := by
    have hshows := hgood.shows
    dsimp only at hshows ⊢
    rw [hquiet.playlist]
    exact hshows
  sent entry hentry := by
    rcases hquiet.requests entry hentry with hold | ⟨hnew, -⟩
    · exact Nat.lt_of_lt_of_le (hgood.sent entry hold) hquiet.sent
    · exact hnew
  answered entry hentry := Nat.lt_of_lt_of_le (hgood.answered entry hentry) hquiet.sent
  logoutAt := Nat.le_trans hgood.logoutAt hquiet.sent
  loadDue := hquiet.loadDue.trans hgood.loadDue
  noCookie entry hentry := by
    rcases hquiet.requests entry hentry with hold | ⟨-, hother, -⟩
    · exact hgood.noCookie entry hold
    · exact hother
  nothing hout := by
    have hnothing := hgood.nothing hout
    constructor
    · exact hquiet.cookie.trans hnothing.cookie
    · exact hquiet.playlists.trans hnothing.playlists
    · exact hquiet.playlist.trans hnothing.playlist
    · rw [hquiet.storage]
      exact hnothing.storedCookie
    · rw [hquiet.saveDue, hquiet.storage]
      exact hnothing.storedPlaylist
  noSession hout entry hentry hnumber := by
    rcases hquiet.requests entry hentry with hold | ⟨-, -, hsession⟩
    · exact hgood.noSession hout entry hold hnumber
    · have hnone := (hgood.nothing hout).cookie
      cases hneeds : entry.2.needsSession with
      | false => rfl
      | true => exact absurd hnone (hsession hneeds)

namespace Quiet

theorem of_same (hplayer : t.player.playlist = s.player.playlist)
    (hcookie : t.neteaseCookie = s.neteaseCookie)
    (hplaylists : t.neteasePlaylists = s.neteasePlaylists) (hstorage : t.storage = s.storage)
    (hdue : t.saveDue = s.saveDue ∧ t.loadDue = s.loadDue) (hsent : t.sent = s.sent)
    (hrequests : ∀ entry ∈ t.requests, entry ∈ s.requests) : Quiet s t :=
  ⟨hplayer, hcookie, hplaylists, hstorage, hdue.1, hdue.2, Nat.le_of_eq hsent.symm,
    fun entry hentry => Or.inl (hrequests entry hentry)⟩

theorem sends {request : PlayerRequest} (hquiet : Quiet s t) (hother : request ≠ .cookie)
    (hsession : request.needsSession = true → s.neteaseCookie ≠ none) :
    Quiet s (t.fetchNetease request) where
  playlist := hquiet.playlist
  cookie := hquiet.cookie
  playlists := hquiet.playlists
  storage := hquiet.storage
  saveDue := hquiet.saveDue
  loadDue := hquiet.loadDue
  sent := Nat.le_succ_of_le hquiet.sent
  requests entry hentry := by
    rcases List.mem_append.mp hentry with hentry | hentry
    · rcases hquiet.requests entry hentry with hold | ⟨hnew, hrest⟩
      · exact Or.inl hold
      · exact Or.inr ⟨Nat.lt_succ_of_lt hnew, hrest⟩
    · rw [List.mem_singleton.mp hentry]
      exact Or.inr ⟨Nat.lt_succ_self t.sent, hother, hsession⟩

theorem receive (s : Page) (number : ℕ) : Quiet s (s.receive number) :=
  of_same rfl rfl rfl rfl ⟨rfl, rfl⟩ rfl fun _ hentry => (List.mem_filter.mp hentry).1

theorem urlEffect (s : Page) : Quiet s s.urlEffect := by
  rw [Page.urlEffect]
  dsimp only
  split
  · exact of_same rfl rfl rfl rfl ⟨rfl, rfl⟩ rfl fun _ hentry => hentry
  · split_ifs
    · exact of_same rfl rfl rfl rfl ⟨rfl, rfl⟩ rfl fun _ hentry => hentry
    · refine sends ?_ ?_ ?_
      · exact of_same rfl rfl rfl rfl ⟨rfl, rfl⟩ rfl fun _ hentry => hentry
      · intro h
        cases h
      · intro h
        cases h
    · exact of_same rfl rfl rfl rfl ⟨rfl, rfl⟩ rfl fun _ hentry => hentry

/-- Tracks are asked for with a cookie only. -/
theorem select (s : Page) (playlistId : String) : Quiet s (s.select playlistId) := by
  rw [Page.select]
  split_ifs
  · exact of_same rfl rfl rfl rfl ⟨rfl, rfl⟩ rfl fun _ hentry => hentry
  · rw [Page.loadPlaylistTracks]
    dsimp only
    split_ifs with hcookie
    · exact of_same rfl rfl rfl rfl ⟨rfl, rfl⟩ rfl fun _ hentry => hentry
    · refine sends ?_ ?_ ?_
      · exact of_same rfl rfl rfl rfl ⟨rfl, rfl⟩ rfl fun _ hentry => hentry
      · intro h
        cases h
      · intro _ hnone
        exact hcookie (by rw [hnone, Option.getD_none])

theorem poll (s : Page) (key : String) : Quiet s (s.fetchNetease (.qrCheck key)) := by
  refine sends ?_ ?_ ?_
  · exact of_same rfl rfl rfl rfl ⟨rfl, rfl⟩ rfl fun _ hentry => hentry
  · intro h
    cases h
  · intro h
    cases h

theorem resolveUrl (s : Page) (effect : ℕ) (url : String) : Quiet s (s.resolveUrl effect url) := by
  rw [Page.resolveUrl]
  split_ifs <;> exact of_same rfl rfl rfl rfl ⟨rfl, rfl⟩ rfl fun _ hentry => hentry

/-- A poll that is no login only shows its code. -/
theorem checkQrStatus (s : Page) {code : ℕ} (hcode : code ≠ 803) (cookie : String) :
    Quiet s (s.checkQrStatus code cookie) := by
  rw [Page.checkQrStatus, if_neg hcode]
  split_ifs <;> exact of_same rfl rfl rfl rfl ⟨rfl, rfl⟩ rfl fun _ hentry => hentry

end Quiet

/-! ## Steps -/

/-- A logout clears the page, and what was asked for before is late from now on. -/
theorem good_logout (hgood : Good ⟨s, h⟩) : Good ⟨s.handleLogoutNetease, h.logout s.sent⟩ where
  shows := Or.inr ⟨hgood.answered, rfl⟩
  sent entry hentry := by
    rcases List.mem_append.mp hentry with hentry | hentry
    · exact Nat.lt_succ_of_lt (hgood.sent entry hentry)
    · rw [List.mem_singleton.mp hentry]
      exact Nat.lt_succ_self s.sent
  answered entry hentry := Nat.lt_succ_of_lt (hgood.answered entry hentry)
  logoutAt := Nat.le_succ s.sent
  loadDue := hgood.loadDue
  noCookie entry hentry := by
    rcases List.mem_append.mp hentry with hentry | hentry
    · exact hgood.noCookie entry hentry
    · rw [List.mem_singleton.mp hentry]
      exact nofun
  nothing _ := ⟨rfl, rfl, rfl, rfl, nofun⟩
  noSession _ entry hentry hnumber := by
    rcases List.mem_append.mp hentry with hentry | hentry
    · exact absurd (hgood.sent entry hentry) (Nat.not_lt.mpr hnumber)
    · rw [List.mem_singleton.mp hentry]
      rfl

private theorem good_saveEffect (hgood : Good ⟨s, h⟩) : Good ⟨s.saveEffect, h⟩ where
  shows := hgood.shows
  sent := hgood.sent
  answered := hgood.answered
  logoutAt := hgood.logoutAt
  loadDue := hgood.loadDue
  noCookie := hgood.noCookie
  nothing hout := by
    have hnothing := hgood.nothing hout
    refine ⟨hnothing.cookie, hnothing.playlists, hnothing.playlist, hnothing.storedCookie, ?_⟩
    intro _ state hstate
    rw [← Option.some.inj hstate]
    exact hnothing.playlist
  noSession := hgood.noSession

private theorem good_expire (hgood : Good ⟨s, h⟩) (response : PlayerResponse) :
    Good ⟨s.expire response, h.expire s.sent response⟩ := by
  rw [Page.expire, PlayerHistory.expire]
  split_ifs
  · exact good_logout hgood
  · exact hgood

/-- A login that was polled for in time. -/
theorem good_login (hgood : Good ⟨s, h⟩) (cookie : String) :
    Good ⟨s.checkQrStatus 803 cookie, { h with loggedOut := false }⟩ where
  shows := hgood.shows
  sent entry hentry := by
    rcases List.mem_append.mp hentry with hentry | hentry
    · exact Nat.lt_succ_of_lt (hgood.sent entry hentry)
    · rw [List.mem_singleton.mp hentry]
      exact Nat.lt_succ_self s.sent
  answered entry hentry := Nat.lt_succ_of_lt (hgood.answered entry hentry)
  logoutAt := Nat.le_succ_of_le hgood.logoutAt
  loadDue := hgood.loadDue
  noCookie entry hentry := by
    rcases List.mem_append.mp hentry with hentry | hentry
    · exact hgood.noCookie entry hentry
    · rw [List.mem_singleton.mp hentry]
      exact nofun
  nothing := nofun
  noSession := nofun

/-- Tracks of the latest selection that succeeded. -/
theorem good_installTracks {number : ℕ} (hgood : Good ⟨s, h⟩) (hin : h.loggedOut = false)
    (hsent : number < s.sent) (hsession : h.logoutAt ≤ number)
    (hlatest : ∀ entry ∈ h.succeeded, entry.1 ≤ number) (tracks : List NeteaseTrack) :
    Good ⟨s.installTracks tracks,
      { h with succeeded := h.succeeded ++ [(number, tracks.map trackOf)] }⟩ where
  shows := by
    refine Or.inl ⟨number, ?_, hsession, fun entry hentry _ => ?_⟩
    · exact List.mem_append_right _ List.mem_cons_self
    · rcases List.mem_append.mp hentry with hentry | hentry
      · exact hlatest entry hentry
      · exact Nat.le_of_eq (congrArg Prod.fst (List.mem_singleton.mp hentry))
  sent := hgood.sent
  answered entry hentry := by
    rcases List.mem_append.mp hentry with hentry | hentry
    · exact hgood.answered entry hentry
    · rw [List.mem_singleton.mp hentry]
      exact hsent
  logoutAt := hgood.logoutAt
  loadDue := hgood.loadDue
  noCookie := hgood.noCookie
  nothing hout := by
    rw [hin] at hout
    cases hout
  noSession hout := by
    rw [hin] at hout
    cases hout

private theorem good_installPlaylists (hgood : Good ⟨s, h⟩) (hin : h.loggedOut = false)
    (playlists : List NeteasePlaylist) : Good ⟨{ s with neteasePlaylists := playlists }, h⟩ where
  shows := hgood.shows
  sent := hgood.sent
  answered := hgood.answered
  logoutAt := hgood.logoutAt
  loadDue := hgood.loadDue
  noCookie := hgood.noCookie
  nothing hout := by
    rw [hin] at hout
    cases hout
  noSession hout := by
    rw [hin] at hout
    cases hout

private theorem good_arrive {number : ℕ} {request : PlayerRequest} {response : PlayerResponse}
    (hgood : Good ⟨s, h⟩) (hlookup : s.requests.lookup number = some request)
    (hintime : PlayerRun.InTime ⟨s, h⟩ (.arrive number response)) :
    Good ⟨((s.receive number).expire response).answered request response,
      (h.expire s.sent response).answered number request response⟩ := by
  have hmem := mem_of_lookup hlookup
  have hreceived := good_of_quiet hgood (Quiet.receive s number)
  have hexpired := good_expire hreceived response
  unfold PlayerRun.InTime at hintime
  dsimp only at hintime
  rw [hlookup] at hintime
  -- What is asked for with a cookie, and in time, is asked for in this session.
  have hsession (hneeds : request.needsSession = true)
      (hnumber : h.loggedOut = true → h.logoutAt ≤ number) : h.loggedOut = false := by
    cases hout : h.loggedOut with
    | false => rfl
    | true =>
        have hno := hgood.noSession hout _ hmem (hnumber hout)
        rw [hneeds] at hno
        cases hno
  cases request with
  | cookie => exact absurd rfl (hgood.noCookie _ hmem)
  | qrCheck key =>
      cases response with
      | qr code cookie =>
          by_cases hcode : code = 803
          · subst hcode
            have hlogin : h.answered number (.qrCheck key) (.qr 803 cookie) =
                { h with loggedOut := false } := by
              rw [PlayerHistory.answered]
              split_ifs with hnumber
              · rfl
              · cases hout : h.loggedOut with
                | false => rw [← hout]
                | true => exact absurd ⟨rfl, hintime rfl hout⟩ hnumber
            have hafter := good_login hreceived cookie
            rw [← hlogin] at hafter
            exact hafter
          · have hsame : h.answered number (.qrCheck key) (.qr code cookie) = h :=
              if_neg fun hlogin => hcode hlogin.1
            have hafter := good_of_quiet hreceived
              (Quiet.checkQrStatus (s.receive number) hcode cookie)
            rw [← hsame] at hafter
            exact hafter
      | _ => exact hexpired
  | playlists cookie =>
      cases response with
      | playlists playlists =>
          exact good_installPlaylists hreceived (hsession rfl hintime) playlists
      | _ => exact hexpired
  | tracks playlistId cookie =>
      cases response with
      | tracks tracks =>
          rcases hintime with ⟨hnumber, hlatest⟩
          exact good_installTracks hreceived (hsession rfl fun _ => hnumber)
            (hgood.sent _ hmem) hnumber hlatest tracks
      | _ => exact hexpired
  | songUrl songId cookie effect =>
      cases response with
      | _ => exact good_of_quiet hexpired (Quiet.resolveUrl _ effect _)
  | logout =>
      cases response with
      | _ => exact hexpired

/-- A step whose response is in time keeps the page in agreement with its history. -/
theorem good_step {r r' : PlayerRun} {e : PlayerStep} (hgood : Good r) (hintime : r.InTime e)
    (hstep : r.step e = some r') : Good r' := by
  rcases r with ⟨s, h⟩
  rw [PlayerRun.step] at hstep
  rcases Option.map_eq_some_iff.mp hstep with ⟨t, ht, rfl⟩
  cases e with
  | loadEffect =>
      rw [Page.step, hgood.loadDue] at ht
      cases ht
  | saveEffect =>
      rw [Page.step] at ht
      split_ifs at ht
      rcases Option.some.inj ht with rfl
      exact good_saveEffect hgood
  | urlEffect =>
      rw [Page.step] at ht
      split_ifs at ht
      rcases Option.some.inj ht with rfl
      exact good_of_quiet hgood (Quiet.urlEffect s)
  | select playlistId =>
      rcases Option.some.inj ht with rfl
      exact good_of_quiet hgood (Quiet.select s playlistId)
  | poll key =>
      rcases Option.some.inj ht with rfl
      exact good_of_quiet hgood (Quiet.poll s key)
  | logout =>
      rcases Option.some.inj ht with rfl
      exact good_logout hgood
  | arrive number response =>
      rw [Page.step] at ht
      rcases Option.map_eq_some_iff.mp ht with ⟨request, hlookup, rfl⟩
      have hafter := good_arrive hgood hlookup hintime
      rw [PlayerHistory.record]
      dsimp only
      rw [hlookup]
      exact hafter

/-! ## Runs -/

private theorem good_start (hloaded : s.loadDue = false) (hnone : s.requests = []) :
    Good (.start s) where
  shows := Or.inr ⟨fun entry hentry => absurd hentry List.not_mem_nil, rfl⟩
  sent entry hentry := by
    change entry ∈ s.requests at hentry
    rw [hnone] at hentry
    cases hentry
  answered entry hentry := absurd hentry List.not_mem_nil
  logoutAt := Nat.zero_le _
  loadDue := hloaded
  noCookie entry hentry := by
    change entry ∈ s.requests at hentry
    rw [hnone] at hentry
    cases hentry
  nothing := nofun
  noSession := nofun

/-- While every response is in time, the page shows the playlist of the most recent selection that
succeeded once all of them have arrived, and after a logout with no later login nothing of the
session is installed. -/
theorem responses_in_time {steps : List PlayerStep} {r : PlayerRun} (hloaded : s.loadDue = false)
    (hnone : s.requests = []) (hrun : Run PlayerRun.step PlayerRun.InTime (.start s) steps r) :
    (r.page.requests = [] → r.history.Shows r.page.player.playlist) ∧
      (r.history.loggedOut = true → NothingInstalled r.page) := by
  have hgood := hrun.invariant (fun _ _ _ hr hintime hstep => good_step hr hintime hstep)
    (good_start hloaded hnone)
  exact ⟨fun _ => hgood.shows, hgood.nothing⟩

/-- A page with a cookie, where nothing is shown. -/
def loggedInPage : Page where
  neteaseCookie := some "MUSIC_U=1"
  storage := ⟨some "MUSIC_U=1", some {}⟩
  loadDue := false
  saveDue := false
  urlDue := false

def sunnyDay : NeteaseTrack := ⟨186016, "Sunny Day", some ["Jay"], none⟩

def rainbow : NeteaseTrack := ⟨185809, "Rainbow", some ["Jay"], none⟩

/-- Two selections that are answered in their order, and a logout. -/
def answeredInOrder : List PlayerStep :=
  [.select "1", .select "2", .arrive 0 (.tracks [sunnyDay]), .arrive 1 (.tracks [rainbow]),
    .logout, .arrive 2 .other]

theorem responses_in_time_answeredInOrder :
    ∃ r, Run PlayerRun.step PlayerRun.InTime (.start loggedInPage) answeredInOrder r ∧
      NothingInstalled r.page := by
  have hrun : ∃ r, Run PlayerRun.step PlayerRun.InTime (.start loggedInPage) answeredInOrder r ∧
      r.history.loggedOut = true := by
    refine ⟨_, .cons trivial rfl (.cons trivial rfl (.cons ?_ rfl (.cons ?_ rfl
      (.cons trivial rfl (.cons trivial rfl (.nil _)))))), rfl⟩
    · exact ⟨Nat.zero_le 0, nofun⟩
    · exact ⟨Nat.zero_le 1, by decide⟩
  rcases hrun with ⟨r, hrun, hout⟩
  exact ⟨r, hrun, (responses_in_time rfl rfl hrun).2 hout⟩

/-- The first of two selections is answered last. -/
def answeredLate : List PlayerStep :=
  [.select "1", .select "2", .arrive 1 (.tracks [rainbow]), .arrive 0 (.tracks [sunnyDay])]

/-- A selection is answered after the logout. -/
def answeredAfterLogout : List PlayerStep :=
  [.select "1", .logout, .arrive 1 .other, .arrive 0 (.tracks [sunnyDay])]

/-- Tracks replace those of a later selection, and they are installed after a logout. -/
theorem responses_overtake :
    (¬∀ (s : Page) (steps : List PlayerStep) (r : PlayerRun), s.loadDue = false →
      s.requests = [] → FreeRun PlayerRun.step (.start s) steps r → r.page.requests = [] →
        r.history.Shows r.page.player.playlist) ∧
    ¬∀ (s : Page) (steps : List PlayerStep) (r : PlayerRun), s.loadDue = false →
      s.requests = [] → FreeRun PlayerRun.step (.start s) steps r → r.page.requests = [] →
        r.history.loggedOut = true → NothingInstalled r.page := by
  constructor
  · intro h
    have hshows := h loggedInPage answeredLate _ rfl rfl (Run.of_exec rfl) rfl
    rcases hshows with ⟨number, hmem, -, hlatest⟩ | ⟨hnone, -⟩
    · have hone := hlatest (1, [trackOf rainbow]) List.mem_cons_self (Nat.zero_le 1)
      have hzero : number = 0 := by
        rcases List.mem_cons.mp hmem with hentry | hmem
        · have hsame : [trackOf sunnyDay] = [trackOf rainbow] := congrArg Prod.snd hentry
          exact absurd hsame (by decide)
        · exact congrArg Prod.fst (List.mem_singleton.mp hmem)
      omega
    · exact absurd (hnone (1, [trackOf rainbow]) List.mem_cons_self) (Nat.not_lt_zero 1)
  · intro h
    have hnothing := h loggedInPage answeredAfterLogout _ rfl rfl (Run.of_exec rfl) rfl rfl
    exact absurd hnothing.playlist (by decide)

end Web
end MemosNote
