import Mathlib.Data.List.Infix
import Mathlib.Data.Nat.Notation

/-!
# Buffered channels

A channel holds a bounded number of messages.  Sending on a closed channel and closing a closed
channel panic; an offer to a full channel is dropped.

Main results:

- Theorem {lit}`Channel.offer_of_open`, Theorem {lit}`Channel.close_of_open`: an open channel does
  not panic.
- Theorem {lit}`Channel.history_receive`: receiving does not change the history.
-/

namespace MemosNote
namespace Library

/-- Why a process dies. -/
inductive Panic where
  | sendOnClosedChannel
  | closeOfClosedChannel
deriving DecidableEq, Repr

/-- A channel, with the messages taken from it so far. -/
structure Channel (α : Type) (capacity : ℕ) where
  closed : Bool
  buffer : List α
  received : List α
  fits : buffer.length ≤ capacity

namespace Channel

variable {α : Type} {capacity : ℕ}

/-- A new channel. -/
def make : Channel α capacity :=
  ⟨false, [], [], Nat.zero_le capacity⟩

/-- Everything that was put into a channel. -/
def history (ch : Channel α capacity) : List α :=
  ch.received ++ ch.buffer

/-- A message that is dropped when the channel is full. -/
def push (a : α) (ch : Channel α capacity) : Channel α capacity :=
  if h : ch.buffer.length < capacity then
    ⟨ch.closed, ch.buffer ++ [a], ch.received, List.length_append ▸ h⟩
  else ch

/-- A send with a default case. -/
def offer (a : α) (ch : Channel α capacity) : Except Panic (Channel α capacity) :=
  if ch.closed then .error .sendOnClosedChannel else .ok (ch.push a)

/-- A channel that takes no more messages; those in the buffer can still be received. -/
def shut (ch : Channel α capacity) : Channel α capacity :=
  ⟨true, ch.buffer, ch.received, ch.fits⟩

def close (ch : Channel α capacity) : Except Panic (Channel α capacity) :=
  if ch.closed then .error .closeOfClosedChannel else .ok ch.shut

/-- Take the first message, if there is one. -/
def receive (ch : Channel α capacity) : Channel α capacity :=
  ⟨ch.closed, ch.buffer.tail, ch.received ++ ch.buffer.head?.toList,
    (List.length_tail ▸ Nat.sub_le _ 1).trans ch.fits⟩

theorem offer_of_open {ch : Channel α capacity} (h : ch.closed = false) (a : α) :
    ch.offer a = .ok (ch.push a) := by
  rw [offer, h]
  rfl

theorem close_of_open {ch : Channel α capacity} (h : ch.closed = false) :
    ch.close = .ok ch.shut := by
  rw [close, h]
  rfl

@[simp]
theorem closed_push (a : α) (ch : Channel α capacity) : (ch.push a).closed = ch.closed := by
  unfold push
  split <;> rfl

@[simp]
theorem closed_receive (ch : Channel α capacity) : ch.receive.closed = ch.closed :=
  rfl

@[simp]
theorem history_shut (ch : Channel α capacity) : ch.shut.history = ch.history :=
  rfl

/-- Receiving does not change the history. -/
@[simp]
theorem history_receive (ch : Channel α capacity) : ch.receive.history = ch.history := by
  change (ch.received ++ ch.buffer.head?.toList) ++ ch.buffer.tail = ch.received ++ ch.buffer
  cases ch.buffer <;> simp

/-- A message is added to the history, or dropped. -/
theorem history_push_sublist (a : α) (ch : Channel α capacity) :
    List.Sublist (ch.push a).history (ch.history ++ [a]) := by
  unfold push
  split
  · simp [history]
  · exact List.sublist_append_left _ _

end Channel

end Library
end MemosNote
