import MemosNote.Api.MemoService
import MemosNote.Store.MemoShares

/-!
# Who gets the file of an attachment

The file server checks who asks for the file of an attachment.  The token of a share stands in for a
user.

Main results:

- Theorem {lit}`checkAttachmentPermission_linked_iff`: who gets the file of an attachment that is
  linked to a memo.
-/

namespace MemosNote
namespace FileServer

open Library Store Api

/-- An error with the code of its response. -/
structure HTTPError where
  code : ℕ
  message : String
deriving DecidableEq, Repr

/-- The file server during a request: the store, the user whom the headers authenticate, and the
token of a share, which may be empty. -/
structure AttachmentRequest where
  engine : StoreEngine
  currentUser : Except String (Option User)
  shareToken : String := ""

namespace AttachmentRequest

variable (req : AttachmentRequest)

def getCurrentUser : Effect HTTPError Tables User :=
  match req.currentUser with
  | .error _ => Effect.fail ⟨500, "failed to get current user"⟩
  | .ok none => Effect.fail ⟨401, "unauthorized access"⟩
  | .ok (some user) => pure user

/-- The token is the one of a share of the memo that has not expired. -/
def sharedBy (memoID : ℤ) (db : Tables) : Bool :=
  req.shareToken ≠ "" &&
    match (getMemoShare { UID := some req.shareToken } db).1 with
    | .ok (some ms) => !isMemoShareExpired req.engine.now ms && ms.MemoID = memoID
    | _ => false

def checkAttachmentPermission (attachment : Attachment) : Effect HTTPError Tables Unit :=
  match attachment.MemoID with
  | none => do
      let user ← req.getCurrentUser
      if user.ID ≠ attachment.CreatorID ∧ user.Role ≠ .ADMIN then
        Effect.fail ⟨403, "forbidden access"⟩
      else pure ()
  | some memoID => do
      let found ← (req.engine.getMemo { ID := some memoID }).mapError fun _ =>
        (⟨500, "failed to find memo"⟩ : HTTPError)
      match found with
      | none => Effect.fail ⟨404, "memo not found"⟩
      | some memo => do
          let db ← Effect.read id
          if memo.Visibility = .Public ∨ req.sharedBy memo.ID db = true then pure ()
          else do
            let user ← req.getCurrentUser
            if memo.Visibility = .Private ∧ user.ID ≠ memo.CreatorID ∧ user.Role ≠ .ADMIN then
              Effect.fail ⟨403, "forbidden access"⟩
            else pure ()

variable {req} {db : Tables}

/-- The token is the one of a share of the memo in the table. -/
theorem mem_of_sharedBy {memoID : ℤ} (h : req.sharedBy memoID db = true) :
    ∃ ms ∈ db.memoShares, ms.UID = req.shareToken ∧ isMemoShareExpired req.engine.now ms = false ∧
      ms.MemoID = memoID := by
  rw [sharedBy, Bool.and_eq_true] at h
  cases hfind : db.memoShares.find?
      ({ UID := some req.shareToken } : FindMemoShare).matchesShare with
  | none =>
      simp only [getMemoShare, Effect.read, hfind] at h
      cases h.2
  | some ms =>
      simp only [getMemoShare, Effect.read, hfind, Bool.and_eq_true, Bool.not_eq_true',
        decide_eq_true_eq] at h
      rcases find_memoShare hfind with ⟨hmem, huid⟩
      exact ⟨ms, hmem, huid, h.2.1, h.2.2⟩

/-- Who gets the file of an attachment that is linked to a memo: everybody if the memo is public,
who has the token of a share of the memo, and a user who is an administrator, or the creator, or
whom the memo is not private for. -/
theorem checkAttachmentPermission_linked_iff {attachment : Attachment} {memo : Memo}
    (hmemo : memo ∈ db.memos) (hlinked : attachment.MemoID = some memo.ID) :
    (req.checkAttachmentPermission attachment db).1 = .ok () ↔
      (memo.Visibility = .Public ∨ req.sharedBy memo.ID db = true) ∨
        ∃ user, req.currentUser = .ok (some user) ∧
          (memo.Visibility = .Private → user.ID = memo.CreatorID ∨ user.Role = .ADMIN) := by
  rcases @StoreEngine.getMemo_id req.engine db memo hmemo with ⟨row, hget, hrow⟩
  have hfound : (req.engine.getMemo { ID := some memo.ID }).mapError
      (fun _ => (⟨500, "failed to find memo"⟩ : HTTPError)) db = (.ok (some row), db) := by
    rw [Effect.mapError, hget]
    rfl
  rw [checkAttachmentPermission, hlinked]
  dsimp only
  rw [Effect.bind_of_ok hfound]
  simp only [Effect.read_bind, id, hrow]
  by_cases hopen : memo.Visibility = .Public ∨ req.sharedBy memo.ID db = true
  · rw [if_pos hopen]
    exact ⟨fun _ => Or.inl hopen, fun _ => rfl⟩
  · rw [if_neg hopen, or_iff_right hopen, getCurrentUser]
    cases hcurrent : req.currentUser with
    | error err => simp [Effect.fail, bind]
    | ok found =>
        cases found with
        | none => simp [Effect.fail, bind]
        | some user =>
            simp only [Effect.pure_bind, Except.ok.injEq, Option.some.injEq, exists_eq_left']
            split_ifs with hforbidden
            · simp only [Effect.fail, reduceCtorEq, false_iff]
              intro hallowed
              rcases hallowed hforbidden.1 with hcreator | hadmin
              · exact hforbidden.2.1 hcreator
              · exact hforbidden.2.2 hadmin
            · refine iff_of_true rfl fun hprivate => ?_
              by_contra hnot
              rw [not_or] at hnot
              exact hforbidden ⟨hprivate, hnot⟩

end AttachmentRequest

end FileServer
end MemosNote
