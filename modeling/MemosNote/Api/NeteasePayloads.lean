import MemosNote.Library.JsonGrammar
import MemosNote.Library.Utf8Boundaries

/-!
# Payloads with a pasted parameter

Three routes of the music proxy paste a query parameter into a JSON text.  The text is that of the
intended object if the parameter is valid UTF-8 without quotes, backslashes and control characters,
and only then.

Main results:

- Theorem {lit}`encodes_iff`: when an object with a pasted parameter is the intended one.
- Theorem {lit}`payloads_encode`: the condition for each of the routes.
- Theorem {lit}`quote_in_key`: a quote in the key breaks the payload.
-/

namespace MemosNote
namespace Api

open Library
open Library.JsonObject
open Library.JsonGrammar
open Library.Utf8

/-! ## The routes -/

/-- A response instead of a request to the music service. -/
structure NeteaseError where
  status : ℕ
  error : String
deriving DecidableEq, Repr

/-- A request to the music service before it is encrypted. -/
structure NeteaseRequest where
  endpoint : String
  payload : List UInt8
  cookie : List UInt8

/-- The payload that asks for the state of a code. -/
def qrCheckPayload (key : List UInt8) : List UInt8 :=
  encode "\x7b\"key\":\"".toList ++ key ++ encode "\",\"type\":1\x7d".toList

/-- The payload that asks for the tracks of a playlist. -/
def playlistTracksPayload (playlistID : List UInt8) : List UInt8 :=
  encode "\x7b\"id\":\"".toList ++ playlistID ++ encode "\",\"n\":1000,\"s\":8\x7d".toList

/-- The payload that asks for the address of a song. -/
def songURLPayload (songID : List UInt8) : List UInt8 :=
  encode "\x7b\"ids\":\"[".toList ++ songID ++
    encode "]\",\"level\":\"standard\",\"encodeType\":\"mp3\"\x7d".toList

/-- The request for the state of a code. -/
def qrCheck (key : List UInt8) : Except NeteaseError NeteaseRequest :=
  if key = [] then .error ⟨400, "key is required"⟩
  else .ok ⟨"/weapi/login/qrcode/client/login", qrCheckPayload key, []⟩

/-- The request for the tracks of a playlist. -/
def playlistTracks (playlistID cookie : List UInt8) : Except NeteaseError NeteaseRequest :=
  if playlistID = [] then .error ⟨400, "playlist_id is required"⟩
  else if cookie = [] then .error ⟨400, "cookie is required"⟩
  else .ok ⟨"/weapi/v6/playlist/detail", playlistTracksPayload playlistID, cookie⟩

/-- The request for the address of a song. -/
def songURL (songID cookie : List UInt8) : Except NeteaseError NeteaseRequest :=
  if songID = [] then .error ⟨400, "song_id is required"⟩
  else if cookie = [] then .error ⟨400, "cookie is required"⟩
  else .ok ⟨"/weapi/song/enhance/player/url/v1", songURLPayload songID, cookie⟩

/-! ## The intended objects -/

/-- What the payload should say of a code. -/
def qrCheckMembers (key : List Char) : List (List Char × JsonValue) :=
  [("key".toList, .text key), ("type".toList, .number 1)]

/-- What the payload should say of a playlist. -/
def playlistTracksMembers (playlistID : List Char) : List (List Char × JsonValue) :=
  [("id".toList, .text playlistID), ("n".toList, .number 1000), ("s".toList, .number 8)]

/-- What the payload should say of a song. -/
def songURLMembers (songID : List Char) : List (List Char × JsonValue) :=
  [("ids".toList, .text ('[' :: (songID ++ [']']))), ("level".toList, .text "standard".toList),
    ("encodeType".toList, .text "mp3".toList)]

/-- The payload is a JSON text of an object with these members, in any order. -/
def Encodes (payload parameter : List UInt8)
    (members : List Char → List (List Char × JsonValue)) : Prop :=
  ∃ s text values, parameter = encode s ∧ payload = encode text ∧ Denotes text (.object values) ∧
    values.Perm (members s)

/-- The parameter is a text without quotes, backslashes and control characters. -/
def PlainText (parameter : List UInt8) : Prop :=
  ∃ s, parameter = encode s ∧ ∀ c ∈ s, PlainChar c

/-! ## Pasted parameters -/

/-- A payload with the parameter behind some text and in front of some text. -/
structure PayloadTemplate where
  front : List Char
  back : List Char
  key : List Char
  opening : List Char
  closing : List Char
  more : List Char
  constants : List (List Char × JsonValue)

namespace PayloadTemplate

/-- The text of a template around the parameter. -/
def payload (t : PayloadTemplate) (parameter : List UInt8) : List UInt8 :=
  encode t.front ++ parameter ++ encode t.back

/-- The members that the template stands for. -/
def members (t : PayloadTemplate) (s : List Char) : List (List Char × JsonValue) :=
  (t.key, .text (t.opening ++ s ++ t.closing)) :: t.constants

/-- The parameter stands in the string of the first member, and constant members follow. -/
structure WellFormed (t : PayloadTemplate) : Prop where
  pasted : ∀ s, t.front ++ s ++ t.back = pastedText t.key (t.opening ++ s ++ t.closing) t.more
  key : ∀ c ∈ t.key, PlainChar c
  opening : ∀ c ∈ t.opening, PlainChar c
  closing : ∀ c ∈ t.closing, PlainChar c
  constants : ∃ fuel text, takeSymbol ',' t.more = some text ∧
    takeMembers (fuel + 1) text = some (t.constants, [])
  others : ∀ member ∈ t.constants, member.1 ≠ t.key
  ends : ∀ units after, takeUnits t.more = some (units, after) →
    takeSymbol ',' after = none ∧ takeSymbol '}' after = none

end PayloadTemplate

/-- A pasted parameter gives the intended object if and only if it is plain. -/
theorem encodes_iff {t : PayloadTemplate} (h : t.WellFormed) (parameter : List UInt8) :
    Encodes (t.payload parameter) parameter t.members ↔ PlainText parameter := by
  have hbytes (s : List Char) : t.payload (encode s) =
      encode (pastedText t.key (t.opening ++ s ++ t.closing) t.more) := by
    rw [PayloadTemplate.payload, ← encode_append, ← encode_append, h.pasted]
  constructor
  · intro hencodes
    rcases hencodes with ⟨s, text, values, rfl, htext, hdenotes, hperm⟩
    rw [hbytes] at htext
    rw [← encode_injective htext] at hdenotes
    rcases plain_of_denotes_pasted h.key h.ends hdenotes with ⟨v, rest, rfl, hplain⟩
    have hv : v = .text (t.opening ++ s ++ t.closing) := by
      rcases List.mem_cons.mp (hperm.subset List.mem_cons_self) with hfirst | hconstant
      · exact (Prod.mk.inj hfirst).2
      · exact absurd rfl (h.others _ hconstant)
    refine ⟨s, rfl, fun c hc => hplain hv c ?_⟩
    exact List.mem_append_left _ (List.mem_append_right _ hc)
  · intro hplain
    rcases hplain with ⟨s, rfl, hplain⟩
    rcases h.constants with ⟨fuel, text, hmore, hconstants⟩
    have hvalue : ∀ c ∈ t.opening ++ s ++ t.closing, PlainChar c := by
      intro c hc
      rcases List.mem_append.mp hc with hc | hc
      · rcases List.mem_append.mp hc with hc | hc
        · exact h.opening c hc
        · exact hplain c hc
      · exact h.closing c hc
    exact ⟨s, _, _, rfl, hbytes s, denotes_pasted h.key hvalue hmore hconstants, List.Perm.refl _⟩

/-! ## The payloads of the routes -/

/-- The template for a code. -/
def qrCheckTemplate : PayloadTemplate where
  front := ['{', '"', 'k', 'e', 'y', '"', ':', '"']
  back := ['"', ',', '"', 't', 'y', 'p', 'e', '"', ':', '1', '}']
  key := ['k', 'e', 'y']
  opening := []
  closing := []
  more := [',', '"', 't', 'y', 'p', 'e', '"', ':', '1', '}']
  constants := [(['t', 'y', 'p', 'e'], .number 1)]

/-- The template for a playlist. -/
def playlistTracksTemplate : PayloadTemplate where
  front := ['{', '"', 'i', 'd', '"', ':', '"']
  back := ['"', ',', '"', 'n', '"', ':', '1', '0', '0', '0', ',', '"', 's', '"', ':', '8', '}']
  key := ['i', 'd']
  opening := []
  closing := []
  more := [',', '"', 'n', '"', ':', '1', '0', '0', '0', ',', '"', 's', '"', ':', '8', '}']
  constants := [(['n'], .number 1000), (['s'], .number 8)]

/-- The template for a song. -/
def songURLTemplate : PayloadTemplate where
  front := ['{', '"', 'i', 'd', 's', '"', ':', '"', '[']
  back := [']', '"', ',', '"', 'l', 'e', 'v', 'e', 'l', '"', ':', '"', 's', 't', 'a', 'n', 'd', 'a',
    'r', 'd', '"', ',', '"', 'e', 'n', 'c', 'o', 'd', 'e', 'T', 'y', 'p', 'e', '"', ':', '"', 'm',
    'p', '3', '"', '}']
  key := ['i', 'd', 's']
  opening := ['[']
  closing := [']']
  more := [',', '"', 'l', 'e', 'v', 'e', 'l', '"', ':', '"', 's', 't', 'a', 'n', 'd', 'a', 'r', 'd',
    '"', ',', '"', 'e', 'n', 'c', 'o', 'd', 'e', 'T', 'y', 'p', 'e', '"', ':', '"', 'm', 'p', '3',
    '"', '}']
  constants := [(['l', 'e', 'v', 'e', 'l'], .text ['s', 't', 'a', 'n', 'd', 'a', 'r', 'd']),
    (['e', 'n', 'c', 'o', 'd', 'e', 'T', 'y', 'p', 'e'], .text ['m', 'p', '3'])]

theorem plain_of_all {s : List Char} (h : (s.all fun c => decide (PlainChar c)) = true) :
    ∀ c ∈ s, PlainChar c :=
  fun c hc => of_decide_eq_true (List.all_eq_true.mp h c hc)

private theorem wellFormed_qrCheckTemplate : qrCheckTemplate.WellFormed where
  pasted s := by simp [qrCheckTemplate, pastedText]
  key := plain_of_all rfl
  opening := plain_of_all rfl
  closing := plain_of_all rfl
  constants := ⟨1, _, rfl, rfl⟩
  others := by simp [qrCheckTemplate]
  ends units after h := by
    rcases Option.some.inj h with ⟨rfl, rfl⟩
    exact ⟨rfl, rfl⟩

private theorem wellFormed_playlistTracksTemplate : playlistTracksTemplate.WellFormed where
  pasted s := by simp [playlistTracksTemplate, pastedText]
  key := plain_of_all rfl
  opening := plain_of_all rfl
  closing := plain_of_all rfl
  constants := ⟨2, _, rfl, rfl⟩
  others := by simp [playlistTracksTemplate]
  ends units after h := by
    rcases Option.some.inj h with ⟨rfl, rfl⟩
    exact ⟨rfl, rfl⟩

private theorem wellFormed_songURLTemplate : songURLTemplate.WellFormed where
  pasted s := by simp [songURLTemplate, pastedText]
  key := plain_of_all rfl
  opening := plain_of_all rfl
  closing := plain_of_all rfl
  constants := ⟨2, _, rfl, rfl⟩
  others := by simp [songURLTemplate]
  ends units after h := by
    rcases Option.some.inj h with ⟨rfl, rfl⟩
    exact ⟨rfl, rfl⟩

theorem qrCheckPayload_encodes (key : List UInt8) :
    Encodes (qrCheckPayload key) key qrCheckMembers ↔ PlainText key := by
  have hmembers : qrCheckTemplate.members = qrCheckMembers := by
    funext s
    rw [PayloadTemplate.members, qrCheckTemplate, List.append_nil]
    rfl
  rw [← encodes_iff wellFormed_qrCheckTemplate, hmembers]
  rfl

private theorem playlistTracksPayload_encodes (playlistID : List UInt8) :
    Encodes (playlistTracksPayload playlistID) playlistID playlistTracksMembers ↔
      PlainText playlistID := by
  have hmembers : playlistTracksTemplate.members = playlistTracksMembers := by
    funext s
    rw [PayloadTemplate.members, playlistTracksTemplate, List.append_nil]
    rfl
  rw [← encodes_iff wellFormed_playlistTracksTemplate, hmembers]
  rfl

private theorem songURLPayload_encodes (songID : List UInt8) :
    Encodes (songURLPayload songID) songID songURLMembers ↔ PlainText songID :=
  encodes_iff wellFormed_songURLTemplate songID

theorem plainText_nil : PlainText [] :=
  ⟨[], rfl, fun _ hc => absurd hc List.not_mem_nil⟩

/-- Every payload that a route encrypts is the intended object if and only if its parameter is
plain. -/
theorem payloads_encode (key playlistID songID cookie : List UInt8) :
    ((∀ request, qrCheck key = .ok request → Encodes request.payload key qrCheckMembers) ↔
        PlainText key) ∧
      ((∀ request, playlistTracks playlistID cookie = .ok request →
          Encodes request.payload playlistID playlistTracksMembers) ↔
        cookie = [] ∨ PlainText playlistID) ∧
      ((∀ request, songURL songID cookie = .ok request →
          Encodes request.payload songID songURLMembers) ↔
        cookie = [] ∨ PlainText songID) := by
  refine ⟨?_, ?_, ?_⟩
  · rw [qrCheck]
    split
    · rename_i hkey
      simp [hkey, plainText_nil]
    · simp [qrCheckPayload_encodes]
  · rw [playlistTracks]
    split
    · rename_i hid
      simp [hid, plainText_nil]
    · split
      · rename_i hcookie
        simp [hcookie]
      · rename_i hcookie
        simp [hcookie, playlistTracksPayload_encodes]
  · rw [songURL]
    split
    · rename_i hid
      simp [hid, plainText_nil]
    · split
      · rename_i hcookie
        simp [hcookie]
      · rename_i hcookie
        simp [hcookie, songURLPayload_encodes]

/-- A quote in the key ends the string of its member. -/
theorem quote_in_key :
    ¬∀ (key : List UInt8) (request : NeteaseRequest), qrCheck key = .ok request →
      Encodes request.payload key qrCheckMembers := by
  intro h
  have hencodes : Encodes (qrCheckPayload (encode ['"'])) (encode ['"']) qrCheckMembers :=
    h (encode ['"']) _ rfl
  rcases (qrCheckPayload_encodes _).mp hencodes with ⟨s, hs, hplain⟩
  rcases encode_injective hs with rfl
  exact (hplain '"' List.mem_cons_self).1 rfl

end Api
end MemosNote
