import MemosNote.Library.Run
import Mathlib.Data.Int.Notation

/-!
# The music player

The player keeps its state, its session at the music service and what it saves in the storage of the
browser.  Its requests are answered later, in any order, by handlers that change the state.

Main results:

- Definition {lit}`Page.step`: what effects, the user and responses do.
-/

namespace MemosNote
namespace Web

open Library

/-! ## The state of the page -/

/-- A track of the player. -/
structure Track where
  id : String
  name : String
  artist : String
  coverUrl : String := ""
  url : String := ""
  isNetease : Bool
deriving DecidableEq, Repr

/-- A playlist of the account. -/
structure NeteasePlaylist where
  id : String
  name : String
  trackCount : ℕ
deriving DecidableEq, Repr

/-- A track in the answer of the service. -/
structure NeteaseTrack where
  id : ℕ
  name : String
  ar : Option (List String)
  picUrl : Option String
deriving DecidableEq, Repr

/-- What is played after a track. -/
inductive PlayMode where
  | list
  | single
  | shuffle
deriving DecidableEq, Repr

/-- What is saved of the player. -/
structure PlayerState where
  playlist : List Track := []
  currentTrackIndex : ℤ := -1
  volume : Rat := 1 / 2
  isMuted : Bool := false
  playMode : PlayMode := .list
deriving DecidableEq, Repr

/-- What the page keeps in the storage of the browser. -/
structure PlayerStorage where
  memos_netease_cookie : Option String := none
  memos_player_state : Option PlayerState := none
deriving DecidableEq, Repr

/-- A request with what its handler remembers; a request for a song remembers its effect. -/
inductive PlayerRequest where
  | cookie
  | qrCheck (key : String)
  | playlists (cookie : String)
  | tracks (playlistId cookie : String)
  | songUrl (songId cookie : String) (effect : ℕ)
  | logout
deriving DecidableEq, Repr

/-- A response, or that there is none.  The session has expired if the body says so, or if an error
is about the cookie. -/
inductive PlayerResponse where
  | networkError
  | httpError (aboutCookie : Bool)
  | expired
  | cookie (cookie : String)
  | qr (code : ℕ) (cookie : String)
  | playlists (playlist : List NeteasePlaylist)
  | tracks (tracks : List NeteaseTrack)
  | songUrl (url : String)
  | other
deriving DecidableEq, Repr

/-- The state of the page: of the effects that run after the first rendering, which are due, and of
the requests, which are not answered yet, by their numbers. -/
structure Page where
  player : PlayerState := {}
  isPlaying : Bool := false
  resolvedUrl : String := ""
  neteaseCookie : Option String := none
  neteasePlaylists : List NeteasePlaylist := []
  selectedPlaylistId : String := ""
  qrCodeStatus : ℕ := 0
  showLoginModal : Bool := false
  storage : PlayerStorage := {}
  loadDue : Bool := true
  saveDue : Bool := true
  urlDue : Bool := true
  urlEffects : ℕ := 0
  requests : List (ℕ × PlayerRequest) := []
  sent : ℕ := 0
deriving DecidableEq, Repr

/-- What can happen on the page. -/
inductive PlayerStep where
  | loadEffect
  | saveEffect
  | urlEffect
  | select (playlistId : String)
  | poll (key : String)
  | logout
  | arrive (number : ℕ) (response : PlayerResponse)
deriving DecidableEq, Repr

/-! ## The handlers -/

/-- The answer says that the session has ended. -/
def PlayerResponse.expires : PlayerResponse → Bool
  | httpError aboutCookie => aboutCookie
  | expired => true
  | _ => false

/-- The cookie of an answer, which may be empty. -/
def PlayerResponse.fetchedCookie : PlayerResponse → String
  | .cookie fetched => fetched
  | _ => ""

/-- A track of a playlist of the music service. -/
def trackOf (t : NeteaseTrack) : Track where
  id := toString t.id
  name := t.name
  artist :=
    let names := (t.ar.map fun artists => ", ".intercalate artists).getD ""
    if names = "" then "Unknown" else names
  coverUrl := t.picUrl.getD ""
  isNetease := true

namespace Page

/-- Send a request. -/
def fetchNetease (s : Page) (request : PlayerRequest) : Page :=
  { s with requests := s.requests ++ [(s.sent, request)], sent := s.sent + 1 }

/-- Forget the session, and tell the server. -/
def handleLogoutNetease (s : Page) : Page :=
  fetchNetease
    { s with
      neteaseCookie := none
      neteasePlaylists := []
      player := { s.player with playlist := [], currentTrackIndex := -1 }
      isPlaying := false
      resolvedUrl := ""
      storage := { s.storage with memos_netease_cookie := none }
      saveDue := true
      urlDue := true } .logout

/-- Ask for the playlists of the account. -/
def loadNeteasePlaylists (s : Page) (cookie : String) : Page :=
  s.fetchNetease (.playlists cookie)

/-- Ask for the tracks of a playlist, if there is a session. -/
def loadPlaylistTracks (s : Page) (playlistId : String) : Page :=
  let cookie := s.neteaseCookie.getD ""
  if cookie = "" then s else s.fetchNetease (.tracks playlistId cookie)

/-- The saved state becomes the state of the player. -/
def restorePlayer (s : Page) : Page :=
  match s.storage.memos_player_state with
  | none => s
  | some state => { s with player := state, saveDue := true, urlDue := true }

/-- A session was found or opened. -/
def installCookie (s : Page) (cookie : String) : Page :=
  { s with neteaseCookie := some cookie, urlDue := true }

/-- What follows the request for the cookie; without an answer there is the one in the storage. -/
def initPlayer (s : Page) (response : PlayerResponse) : Page :=
  let fetched := response.fetchedCookie
  let s := if fetched = "" then s
    else { s with storage := { s.storage with memos_netease_cookie := some fetched } }
  let cookie := if fetched = "" then s.storage.memos_netease_cookie.getD "" else fetched
  restorePlayer (if cookie = "" then s else (s.installCookie cookie).loadNeteasePlaylists cookie)

/-- The answer on the code that the user scans; 803 opens a session. -/
def checkQrStatus (s : Page) (code : ℕ) (cookie : String) : Page :=
  if code = 803 then
    { (s.installCookie cookie).loadNeteasePlaylists cookie with
      qrCodeStatus := 803
      storage := { s.storage with memos_netease_cookie := some cookie }
      showLoginModal := false }
  else if code = 802 ∨ code = 801 ∨ code = 800 then { s with qrCodeStatus := code }
  else s

/-- The tracks of an answer become the playlist. -/
def installTracks (s : Page) (tracks : List NeteaseTrack) : Page :=
  { s with
    player := { s.player with
      playlist := tracks.map trackOf
      currentTrackIndex := if tracks = [] then s.player.currentTrackIndex else 0 }
    isPlaying := if tracks = [] then s.isPlaying else true
    saveDue := true
    urlDue := true }

/-- The answer for a song; an effect that is over ignores it. -/
def resolveUrl (s : Page) (effect : ℕ) (url : String) : Page :=
  if effect ≠ s.urlEffects then s
  else if url = "" then { s with resolvedUrl := "", isPlaying := false }
  else { s with resolvedUrl := url }

/-- What the handler of a request does with the response. -/
def answered (s : Page) : PlayerRequest → PlayerResponse → Page
  | .cookie, response => s.initPlayer response
  | .qrCheck _, .qr code cookie => s.checkQrStatus code cookie
  | .playlists _, .playlists playlist => { s with neteasePlaylists := playlist }
  | .tracks _ _, .tracks tracks => s.installTracks tracks
  | .songUrl _ _ effect, .songUrl url => s.resolveUrl effect url
  | .songUrl _ _ effect, _ => s.resolveUrl effect ""
  | _, _ => s

/-- The response is looked at before the handler. -/
def expire (s : Page) (response : PlayerResponse) : Page :=
  if response.expires then s.handleLogoutNetease else s

/-! ## The effects -/

/-- The state of the player is stored. -/
def saveEffect (s : Page) : Page :=
  { s with
    storage := { s.storage with memos_player_state := some s.player }
    saveDue := false }

/-- The track at the current place. -/
def currentTrack (s : Page) : Option Track :=
  if s.player.currentTrackIndex < 0 then none
  else s.player.playlist[s.player.currentTrackIndex.toNat]?

/-- The current track has changed: ask for its address, or stop. -/
def urlEffect (s : Page) : Page :=
  let s := { s with urlDue := false, urlEffects := s.urlEffects + 1 }
  match s.currentTrack with
  | none => { s with resolvedUrl := "", isPlaying := false }
  | some track =>
      if track.isNetease then
        let cookie := s.neteaseCookie.getD ""
        if cookie = "" then { s with resolvedUrl := "", isPlaying := false }
        else s.fetchNetease (.songUrl track.id cookie s.urlEffects)
      else { s with resolvedUrl := track.url }

/-- The user selects a playlist. -/
def select (s : Page) (playlistId : String) : Page :=
  let s := { s with selectedPlaylistId := playlistId }
  if playlistId = "" then s else s.loadPlaylistTracks playlistId

/-- A request that is answered. -/
def receive (s : Page) (number : ℕ) : Page :=
  { s with requests := s.requests.filter fun entry => entry.1 ≠ number }

/-- One event of the page; an effect runs when it is due. -/
def step (s : Page) : PlayerStep → Option Page
  | .loadEffect => if s.loadDue then some (fetchNetease { s with loadDue := false } .cookie) else none
  | .saveEffect => if s.saveDue then some s.saveEffect else none
  | .urlEffect => if s.urlDue then some s.urlEffect else none
  | .select playlistId => some (s.select playlistId)
  | .poll key => some (s.fetchNetease (.qrCheck key))
  | .logout => some s.handleLogoutNetease
  | .arrive number response =>
      (s.requests.lookup number).map fun request =>
        ((s.receive number).expire response).answered request response

end Page

end Web
end MemosNote
