import MemosNote.Api.MemoService

/-!
# The messages of the memo service

The fields of a memo that requests carry, and their conversions to the store.
-/

namespace MemosNote
namespace Api

open Library Store

/-- A time of the protocol; nanoseconds may lie outside of a second. -/
structure Timestamp where
  Seconds : ℤ
  Nanos : ℤ := 0
deriving DecidableEq, Repr

namespace Timestamp

/-- Seconds since the epoch. -/
def unix (t : Timestamp) : ℤ :=
  t.Seconds + t.Nanos / 1000000000

/-- Between the years 1 and 9999, with nanoseconds within a second. -/
def isValid (t : Timestamp) : Bool :=
  -62135596800 ≤ t.Seconds && t.Seconds ≤ 253402300799 && 0 ≤ t.Nanos && t.Nanos < 1000000000

end Timestamp

/-- The visibility of a message. -/
inductive VisibilityMessage where
  | VISIBILITY_UNSPECIFIED
  | PRIVATE
  | PROTECTED
  | PUBLIC
deriving DecidableEq, Repr

def convertVisibilityToStore : VisibilityMessage → Visibility
  | .PROTECTED => .Protected
  | .PUBLIC => .Public
  | _ => .Private

def convertVisibilityFromStore : Visibility → VisibilityMessage
  | .Private => .PRIVATE
  | .Protected => .PROTECTED
  | .Public => .PUBLIC

@[simp]
theorem convertVisibilityToStore_fromStore (visibility : Visibility) :
    convertVisibilityToStore (convertVisibilityFromStore visibility) = visibility := by
  cases visibility <;> rfl

/-- The state of a message. -/
inductive StateMessage where
  | STATE_UNSPECIFIED
  | NORMAL
  | ARCHIVED
deriving DecidableEq, Repr

def convertStateToStore : StateMessage → RowStatus
  | .ARCHIVED => .ARCHIVED
  | _ => .NORMAL

def convertStateFromStore : RowStatus → StateMessage
  | .NORMAL => .NORMAL
  | .ARCHIVED => .ARCHIVED

/-- The type of a relation in a message. -/
inductive RelationTypeMessage where
  | TYPE_UNSPECIFIED
  | REFERENCE
  | COMMENT
deriving DecidableEq, Repr

def convertMemoRelationTypeToStore : RelationTypeMessage → MemoRelationType
  | .COMMENT => .Comment
  | _ => .Reference

def convertMemoRelationTypeFromStore : MemoRelationType → RelationTypeMessage
  | .Reference => .REFERENCE
  | .Comment => .COMMENT

/-- A memo of a relation in a message. -/
structure RelationMemo where
  Name : String
  Snippet : String := ""
deriving DecidableEq, Repr

/-- A relation of a message.  Both memos may be absent. -/
structure RelationMessage where
  Memo : Option RelationMemo := none
  RelatedMemo : Option RelationMemo
  RelationType : RelationTypeMessage := .TYPE_UNSPECIFIED
deriving DecidableEq, Repr

/-- An attachment of a message, without its content. -/
structure AttachmentMessage where
  Name : String
  CreateTime : Option Timestamp := none
  Filename : String := ""
  ExternalLink : String := ""
  MediaType : String := ""
  Size : ℤ := 0
  Memo : Option String := none
  MotionMedia : Option MotionMedia := none
deriving DecidableEq, Repr

/-- A memo of a message.  Left out is what no request reads: the creator, the reactions and what
is derived from the content. -/
structure MemoMessage where
  Name : String := ""
  State : StateMessage := .STATE_UNSPECIFIED
  CreateTime : Option Timestamp := none
  UpdateTime : Option Timestamp := none
  Content : String := ""
  Visibility : VisibilityMessage := .VISIBILITY_UNSPECIFIED
  Pinned : Bool := false
  Attachments : List AttachmentMessage := []
  Relations : List RelationMessage := []
  Location : Option Location := none
deriving DecidableEq, Repr

/-- What a dereferenced null pointer panics with. -/
def nilPointer : Failure :=
  .panic "runtime error: invalid memory address or nil pointer dereference"

/-- A field of a message that is dereferenced without a check. -/
def dereference {α : Type} : Option α → ApiM α
  | none => Effect.fail nilPointer
  | some a => pure a

theorem dereference_some_bind {α β : Type} (a : α) (f : α → ApiM β) :
    (dereference (some a) >>= f) = f a :=
  rfl

end Api
end MemosNote
