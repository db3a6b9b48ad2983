import MemosNote.Api.SSEEvent
import MemosNote.Library.Frames
import MemosNote.Library.Utf8

/-!
# The stream of change events

The server writes each event and each heartbeat as a frame that an empty line ends.  The client
decodes the bytes as they arrive, cuts the text at empty lines and parses the data lines.

Main results:

- Theorem {lit}`handled_readStream`: every event is handled once, in order, and nothing else is,
  however the bytes are cut.
- Theorem {lit}`handled_isPrefix`: a connection that ends early has handled the first events.
-/

namespace MemosNote
namespace Web

open Library Library.JsonObject Api

/-! ## The server -/

/-- What the handler writes after the first comment. -/
inductive SSEWrite where
  | event (e : SSEEvent)
  | heartbeat
deriving DecidableEq, Repr

namespace SSEWrite

/-- A frame without the empty line. -/
def body : SSEWrite → List Char
  | event e => "data: ".toList ++ e.JSON
  | heartbeat => ": heartbeat".toList

/-- The event of a frame. -/
def event? : SSEWrite → Option SSEEvent
  | event e => some e
  | heartbeat => none

end SSEWrite

/-- The text of a response. -/
def sseText (writes : List SSEWrite) : List Char :=
  (": connected".toList :: writes.map SSEWrite.body).flatMap (· ++ ['\n', '\n'])

/-- The bytes of a response. -/
def handleSSE (writes : List SSEWrite) : List UInt8 :=
  Utf8.encode (sseText writes)

/-! ## The client -/

/-- The members of an event that its handler looks at; a missing parent is {lit}`undefined`. -/
structure SSEChangeEvent where
  type : Option String
  name : Option String
  parent : Option String
deriving DecidableEq, Repr

namespace SSEChangeEvent

/-- The members of a parsed object. -/
def ofMembers (members : List (String × String)) : SSEChangeEvent where
  type := members.lookup "type"
  name := members.lookup "name"
  parent := members.lookup "parent"

/-- An event of the server; no parent is an empty one. -/
def ofEvent (e : SSEEvent) : SSEChangeEvent where
  type := some e.EventType.text
  name := some e.Name
  parent := if e.Parent = "" then none else some e.Parent

end SSEChangeEvent

/-- White space and line terminators, as {lit}`trim` removes them. -/
def IsSpace (c : Char) : Prop :=
  c.toNat ∈ [0x09, 0x0a, 0x0b, 0x0c, 0x0d, 0x20, 0xa0, 0x1680, 0x2000, 0x2001, 0x2002, 0x2003,
    0x2004, 0x2005, 0x2006, 0x2007, 0x2008, 0x2009, 0x200a, 0x2028, 0x2029, 0x202f, 0x205f,
    0x3000, 0xfeff]

instance : DecidablePred IsSpace :=
  fun c => inferInstanceAs (Decidable (c.toNat ∈ _))

/-- What a line is handled as; malformed JSON is ignored. -/
def handledLine (line : List Char) : Option SSEChangeEvent :=
  if "data: ".toList <+: line then (parseObject (line.drop 6)).map SSEChangeEvent.ofMembers
  else none

/-- What a message is handled as. -/
def handledMessage (message : List Char) : List SSEChangeEvent :=
  if message.all fun c => IsSpace c then []
  else (message.splitOn '\n').filterMap handledLine

/-- The reader between two chunks. -/
structure StreamReader where
  decoder : Utf8.TextDecoder := {}
  buffer : List Char := []
  handled : List SSEChangeEvent := []

namespace StreamReader

/-- A chunk. -/
def read (s : StreamReader) (value : List UInt8) : StreamReader where
  decoder := (s.decoder.decode value).1
  buffer := Frames.remainder '\n' '\n' (s.buffer ++ (s.decoder.decode value).2)
  handled := s.handled ++
    (Frames.complete '\n' '\n' (s.buffer ++ (s.decoder.decode value).2)).flatMap handledMessage

/-- The chunks up to the end of the stream; what is left in the buffer is lost. -/
def readAll (s : StreamReader) : List (List UInt8) → StreamReader
  | [] => s
  | value :: values => readAll (s.read value) values

end StreamReader

/-- All that is handled of a stream. -/
def handledOf (chunks : List (List UInt8)) : List SSEChangeEvent :=
  (({} : StreamReader).readAll chunks).handled

/-! ## Chunks -/

private theorem readAll_handled (s : StreamReader) (r : Frames.Reader Char)
    (hbuffer : s.buffer = r.buffer) (hhandled : s.handled = r.pieces.flatMap handledMessage)
    (chunks : List (List UInt8)) :
    (s.readAll chunks).handled =
      (r.feedAll '\n' '\n' (s.decoder.decodeAll chunks)).pieces.flatMap handledMessage := by
  induction chunks generalizing s r with
  | nil => exact hhandled
  | cons value values ih =>
      apply ih
      · rw [StreamReader.read, Frames.Reader.feed, hbuffer]
      · rw [StreamReader.read, Frames.Reader.feed, hhandled, hbuffer, List.flatMap_append]

/-- What is handled of an encoded text, however it is cut. -/
theorem handledOf_encode (text : List Char) {chunks : List (List UInt8)}
    (h : chunks.flatten = Utf8.encode text) :
    handledOf chunks =
      (Frames.complete '\n' '\n' (Utf8.dropMark text)).flatMap handledMessage := by
  rw [handledOf, readAll_handled {} {} rfl rfl, Frames.Reader.feedAll_pieces,
    Utf8.TextDecoder.flatten_decodeAll_encode text h]

private theorem readAll_concat (s : StreamReader) (chunks : List (List UInt8)) (value : List UInt8)
    :
    s.readAll (chunks ++ [value]) = (s.readAll chunks).read value := by
  induction chunks generalizing s with
  | nil => rfl
  | cons first chunks ih => exact ih (s.read first)

/-! ## Frames -/

theorem newline_notMem_body (w : SSEWrite) : '\n' ∉ w.body := by
  cases w with
  | event e =>
      intro h
      rcases List.mem_append.mp h with h | h
      · exact absurd h (by decide)
      · exact newline_notMem_JSON e h
  | heartbeat => decide

private theorem ofMembers_JSON (e : SSEEvent) :
    SSEChangeEvent.ofMembers (e.members.reverse ++ [("type", e.EventType.text)]) =
      SSEChangeEvent.ofEvent e := by
  unfold SSEEvent.members SSEChangeEvent.ofEvent
  by_cases hparent : e.Parent = ""
  · rw [if_pos hparent, if_pos hparent]
    rfl
  · rw [if_neg hparent, if_neg hparent]
    rfl

/-- A frame is handled as its event. -/
theorem handledMessage_body (w : SSEWrite) :
    handledMessage w.body = (w.event?.map SSEChangeEvent.ofEvent).toList := by
  have hspace : ¬w.body.all fun c => IsSpace c := by
    intro h
    rw [List.all_eq_true] at h
    cases w with
    | event e => exact absurd (h 'd' (List.mem_append_left _ (by decide))) (by decide)
    | heartbeat => exact absurd (h ':' List.mem_cons_self) (by decide)
  have hline : w.body.splitOn '\n' = [w.body] := List.splitOn_eq_singleton (newline_notMem_body w)
  have hhandled : handledLine w.body = w.event?.map SSEChangeEvent.ofEvent := by
    cases w with
    | event e =>
        have hdata : "data: ".toList <+: (SSEWrite.event e).body := List.prefix_append _ _
        have hjson : (SSEWrite.event e).body.drop 6 = e.JSON := rfl
        rw [handledLine, if_pos hdata, hjson, parseObject_JSON, Option.map_some, ofMembers_JSON]
        rfl
    | heartbeat => rfl
  rw [handledMessage, if_neg hspace, hline, List.filterMap_cons, hhandled]
  cases w <;> rfl

private theorem complete_sseText (writes : List SSEWrite) :
    Frames.complete '\n' '\n' (sseText writes) =
      ": connected".toList :: writes.map SSEWrite.body := by
  apply Frames.complete_frames
  intro body hbody
  rcases List.mem_cons.mp hbody with rfl | hbody
  · decide
  · rcases List.mem_map.mp hbody with ⟨w, -, rfl⟩
    exact newline_notMem_body w

/-! ## Streams -/

/-- Every event is handled once, in order, and nothing else is, however the bytes are cut. -/
theorem handled_readStream (writes : List SSEWrite) (chunks : List (List UInt8))
    (h : chunks.flatten = handleSSE writes) :
    handledOf chunks = (writes.filterMap SSEWrite.event?).map SSEChangeEvent.ofEvent := by
  have hmark : Utf8.dropMark (sseText writes) = sseText writes := rfl
  have hfirst : handledMessage ": connected".toList = [] := by
    have hspace : ¬": connected".toList.all fun c => IsSpace c := by
      intro h
      exact absurd (List.all_eq_true.mp h ':' List.mem_cons_self) (by decide)
    rw [handledMessage, if_neg hspace]
    rfl
  rw [handledOf_encode _ h, hmark, complete_sseText, List.flatMap_cons, hfirst, List.nil_append]
  clear h hmark
  induction writes with
  | nil => rfl
  | cons w writes ih =>
      rw [List.map_cons, List.flatMap_cons, ih, handledMessage_body]
      cases w <;> rfl

private theorem flatten_cut (m k : ℕ) (bytes : List UInt8) :
    [bytes.take m, (bytes.drop m).take k, bytes.drop (m + k)].flatten = bytes := by
  have hrest : bytes.drop (m + k) = (bytes.drop m).drop k := List.drop_drop.symm
  rw [hrest, List.flatten_cons, List.flatten_cons, List.flatten_singleton, List.take_append_drop,
    List.take_append_drop]

/-- A character of two bytes and an empty line, each cut in the middle. -/
theorem handled_readStream_cut :
    let writes := [.event ⟨.SSEEventMemoUpdated, "memos/é", "", "PUBLIC", 1⟩, .heartbeat]
    let bytes := handleSSE writes
    handledOf [bytes.take 57, (bytes.drop 57).take 4, bytes.drop 61] =
      [⟨some "memo.updated", some "memos/é", none⟩] := by
  intro writes bytes
  exact handled_readStream writes _ (flatten_cut 57 4 bytes)

/-- A connection that ends early has handled the first events. -/
theorem handled_isPrefix (writes : List SSEWrite) (chunks : List (List UInt8))
    (h : chunks.flatten <+: handleSSE writes) :
    handledOf chunks <+: (writes.filterMap SSEWrite.event?).map SSEChangeEvent.ofEvent := by
  rcases h with ⟨rest, hrest⟩
  have hall : (chunks ++ [rest]).flatten = handleSSE writes := by
    rw [List.flatten_append, List.flatten_singleton, hrest]
  rw [← handled_readStream writes _ hall, handledOf, handledOf, readAll_concat]
  exact List.prefix_append _ _

end Web
end MemosNote
