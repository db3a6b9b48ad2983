import MemosNote.Api.IdentityProvider
import MemosNote.Api.LinkEndpoints

/-!
# Null dereferences

Parts of a request may be absent, and a name may be the name of nothing.  Some endpoints use what
they were given, or what a query found, without a check, and then they panic.

Main results:

- Theorem {lit}`setMemoRelations_panics_iff`, Theorem {lit}`listMemoRelations_panics_iff`, Theorem
  {lit}`createIdentityProvider_panics_iff`, Theorem {lit}`updateIdentityProvider_panics_iff`: the
  requests on which one endpoint panics.
- Theorem {lit}`request_no_panic_iff`: the requests that the endpoints answer without a panic.
-/

namespace MemosNote
namespace Api

open Library Store

/-! ## Panics -/

def Failure.IsPanic : Failure → Prop
  | status _ _ => False
  | panic _ => True

/-- The operation ends in a panic. -/
def Panics {S α : Type} (x : Effect Failure S α) (s : S) : Prop :=
  Effect.FailsWith Failure.IsPanic x s

section

variable {S α β : Type} {x : Effect Failure S α} {s : S}

/-- A sequence panics in its first part or in what follows. -/
theorem panics_bind {f : α → Effect Failure S β} :
    Panics (x >>= f) s ↔ Panics x s ∨ ∃ a t, x s = (.ok a, t) ∧ Panics (f a) t :=
  Effect.failsWith_bind

/-- After a part that does not panic, only the rest may. -/
theorem panics_bind_of_not {f : α → Effect Failure S β} (h : ¬ Panics x s) :
    Panics (x >>= f) s ↔ ∃ a t, x s = (.ok a, t) ∧ Panics (f a) t := by
  rw [panics_bind]
  exact or_iff_right h

/-- A sequence whose first part succeeds panics in what follows. -/
theorem panics_bind_of_ok {f : α → Effect Failure S β} {a : α} {t : S} (h : x s = (.ok a, t)) :
    Panics (x >>= f) s ↔ Panics (f a) t := by
  unfold Panics Effect.FailsWith
  rw [Effect.bind_of_ok h]

@[simp]
theorem not_panics_pure {a : α} : ¬ Panics (pure a : Effect Failure S α) s :=
  Effect.failsWith_pure

@[simp]
theorem panics_fail {failure : Failure} :
    Panics (Effect.fail failure : Effect Failure S α) s ↔ failure.IsPanic :=
  Effect.failsWith_fail

/-- A pure step panics with its error. -/
theorem panics_ofExcept {r : Except Failure α} :
    Panics (Effect.ofExcept r : Effect Failure S α) s ↔ ∃ e, r = .error e ∧ e.IsPanic :=
  Effect.failsWith_ofExcept

/-- A wrapped error is a panic only if it was one. -/
theorem panics_mapError_internal {message : String} :
    Panics (x.mapError (Failure.internal message)) s ↔ Panics x s := by
  unfold Panics
  rw [Effect.failsWith_mapError]
  have heq : (fun e => Failure.IsPanic (Failure.internal message e)) = Failure.IsPanic := by
    funext e
    cases e <;> rfl
  rw [heq]

private theorem panics_mapError_replace {message : String} :
    Panics (x.mapError (Failure.replace message)) s ↔ Panics x s := by
  unfold Panics
  rw [Effect.failsWith_mapError]
  have heq : (fun e => Failure.IsPanic (Failure.replace message e)) = Failure.IsPanic := by
    funext e
    cases e <;> rfl
  rw [heq]

end

variable {α : Type} {db : Tables}

/-- An error that gets a status is no panic. -/
theorem not_panics_withStatus {code : StatusCode} {message : String → String} {x : StoreM α} :
    ¬ Panics (withStatus code message x) db := by
  intro h
  rcases Effect.failsWith_mapError.mp h with ⟨e, t, -, hpanic⟩
  exact hpanic

theorem not_panics_mapStatus {r : Except String α} {code : StatusCode} {message : String → String} :
    ¬ Panics (Effect.ofExcept (r.mapError fun err => .status code (message err)) : ApiM α) db := by
  intro h
  rcases panics_ofExcept.mp h with ⟨e, hr, hpanic⟩
  cases r with
  | ok a => cases hr
  | error err =>
      cases hr
      exact hpanic

@[simp]
theorem panics_dereference {a : Option α} : Panics (dereference a) db ↔ a = none := by
  cases a with
  | none => simp [dereference, nilPointer, Failure.IsPanic]
  | some a => simp [dereference]

/-! ## Setting relations -/

/-- A relation that is skipped: of the memo to itself, or of a comment. -/
def Skipped (memoUID : String) (relation : RelationMessage) (related : RelationMemo) : Prop :=
  buildMemoName memoUID = related.Name ∨ relation.RelationType = .COMMENT

/-- A relation has a related memo; unless it is skipped, or the name is no name of a memo, there is
a memo of that name. -/
def HarmlessRelation (svc : MemoService) (memoUID : String) (db : Tables)
    (relation : RelationMessage) : Prop :=
  ∃ related, relation.RelatedMemo = some related ∧ (Skipped memoUID relation related ∨
    ∀ uid, svc.extractMemoUIDFromName related.Name = .ok uid → ∃ m ∈ db.memos, m.UID = uid)

/-- A relation is skipped, or has the name of a memo. -/
def WellNamed (svc : MemoService) (memoUID : String) (relation : RelationMessage) : Prop :=
  ∀ related, relation.RelatedMemo = some related → Skipped memoUID relation related ∨
    ∃ uid, svc.extractMemoUIDFromName related.Name = .ok uid

/-- The relations up to the first that is not well named are harmless. -/
def HarmlessRelations (svc : MemoService) (memoUID : String) (db : Tables) :
    List RelationMessage → Prop
  | [] => True
  | relation :: rest =>
      HarmlessRelation svc memoUID db relation ∧
        (WellNamed svc memoUID relation → HarmlessRelations svc memoUID db rest)

namespace MemoService

variable {svc : MemoService}

/-- A relation panics, is rejected, or is set or skipped. -/
theorem relationTarget_cases (memoUID : String) (relation : RelationMessage) :
    (¬ HarmlessRelation svc memoUID db relation ∧
      svc.relationTarget memoUID db.memos relation = .error nilPointer) ∨
    (HarmlessRelation svc memoUID db relation ∧ ¬ WellNamed svc memoUID relation ∧
      ∃ code message,
        svc.relationTarget memoUID db.memos relation = .error (.status code message)) ∨
    (HarmlessRelation svc memoUID db relation ∧ WellNamed svc memoUID relation ∧
      ∃ target, svc.relationTarget memoUID db.memos relation = .ok target) := by
  rw [relationTarget]
  cases hrelated : relation.RelatedMemo with
  | none =>
      left
      refine ⟨?_, rfl⟩
      intro h
      rcases h with ⟨related, hsome, -⟩
      rw [hrelated] at hsome
      cases hsome
  | some related =>
      have hgiven : ∀ related', relation.RelatedMemo = some related' → related' = related := by
        intro related' h
        rw [hrelated] at h
        cases h
        rfl
      dsimp only
      by_cases hself : buildMemoName memoUID = related.Name
      · rw [if_pos hself]
        refine .inr (.inr ⟨⟨related, hrelated, .inl (.inl hself)⟩, ?_, none, rfl⟩)
        intro related' h
        rw [hgiven related' h]
        exact .inl (.inl hself)
      rw [if_neg hself]
      by_cases hcomment : relation.RelationType = .COMMENT
      · rw [if_pos hcomment]
        refine .inr (.inr ⟨⟨related, hrelated, .inl (.inr hcomment)⟩, ?_, none, rfl⟩)
        intro related' _
        exact .inl (.inr hcomment)
      rw [if_neg hcomment]
      have hnotSkipped : ¬ Skipped memoUID relation related := fun h => h.elim hself hcomment
      cases hextract : svc.extractMemoUIDFromName related.Name with
      | error err =>
          right
          left
          refine ⟨⟨related, hrelated, .inr fun uid h => ?_⟩, ?_, _, _, rfl⟩
          · rw [hextract] at h
            cases h
          · intro h
            rcases h related hrelated with hskipped | ⟨uid, huid⟩
            · exact hnotSkipped hskipped
            · rw [hextract] at huid
              cases huid
      | ok uid =>
          dsimp only
          have hnamed : WellNamed svc memoUID relation := by
            intro related' h
            rw [hgiven related' h]
            exact .inr ⟨uid, hextract⟩
          cases hfind : db.memos.find? fun m => m.UID = uid with
          | none =>
              left
              refine ⟨?_, rfl⟩
              intro h
              rcases h with ⟨related', hsome, hharmless⟩
              rw [hgiven related' hsome] at hharmless
              rcases hharmless with hskipped | hexists
              · exact hnotSkipped hskipped
              · rcases hexists uid hextract with ⟨m, hm, huid⟩
                exact absurd huid (by simpa using List.find?_eq_none.mp hfind m hm)
          | some m =>
              have hm := List.mem_of_find?_eq_some hfind
              have huid : m.UID = uid := by simpa using List.find?_some hfind
              refine .inr (.inr ⟨⟨related, hrelated, .inr fun uid' h => ?_⟩, hnamed, _, rfl⟩)
              rw [hextract] at h
              cases h
              exact ⟨m, hm, huid⟩

/-- The relations of a request panic at the first that is not harmless. -/
theorem relationTargets_panics_iff (memoUID : String) (relations : List RelationMessage) :
    (∃ e, (svc.relationTargets memoUID db.memos relations).2 = .error e ∧ e.IsPanic) ↔
      ¬ HarmlessRelations svc memoUID db relations := by
  induction relations with
  | nil => simp [relationTargets, HarmlessRelations]
  | cons relation rest ih =>
      rw [relationTargets, HarmlessRelations]
      rcases @relationTarget_cases db svc memoUID relation with
        ⟨hnot, hrun⟩ | ⟨hharmless, hnot, code, message, hrun⟩ | ⟨hharmless, hnamed, target, hrun⟩
      · rw [hrun]
        exact ⟨fun _ h => hnot h.1, fun _ => ⟨nilPointer, rfl, trivial⟩⟩
      · rw [hrun]
        constructor
        · intro h
          rcases h with ⟨e, he, hpanic⟩
          cases he
          exact absurd hpanic id
        · intro h
          exact absurd ⟨hharmless, fun hnamed => absurd hnamed hnot⟩ h
      · rw [hrun]
        have hrest : (HarmlessRelation svc memoUID db relation ∧
            (WellNamed svc memoUID relation → HarmlessRelations svc memoUID db rest)) ↔
              HarmlessRelations svc memoUID db rest :=
          ⟨fun h => h.2 hnamed, fun h => ⟨hharmless, fun _ => h⟩⟩
        rw [hrest, ← ih]
        cases target with
        | none => exact Iff.rfl
        | some id => exact Iff.rfl

/-- Setting relations panics exactly where one that the loop comes to is not harmless. -/
theorem setMemoRelationsInternal_panics_iff (memo : Memo) (relations : List RelationMessage) :
    Panics (svc.setMemoRelationsInternal memo relations) db ↔
      ¬ HarmlessRelations svc memo.UID db relations := by
  rw [← relationTargets_panics_iff]
  have hrun := @setMemoRelationsInternal_eq svc db memo relations
  constructor
  · intro h
    rcases h with ⟨e, t, hfails, hpanic⟩
    rw [hrun] at hfails
    exact ⟨e, (Prod.mk.inj hfails).1, hpanic⟩
  · intro h
    rcases h with ⟨e, he, hpanic⟩
    rw [he] at hrun
    exact ⟨e, _, hrun, hpanic⟩

private theorem not_panics_memoForLinks (name : String) : ¬ Panics (svc.memoForLinks name) db := by
  intro h
  rcases panics_bind.mp h with hpanic | ⟨user, t, -, hrest⟩
  · rcases panics_ofExcept.mp hpanic with ⟨e, he, hpanic⟩
    rw [linkingUser] at he
    split at he <;> cases he <;> exact hpanic
  · rcases panics_bind.mp hrest with hpanic | ⟨memo, t', -, hcheck⟩
    · rcases panics_bind.mp hpanic with hpanic | ⟨uid, t', -, hfind⟩
      · exact not_panics_mapStatus hpanic
      · rcases panics_bind.mp hfind with hpanic | ⟨found, t'', -, hfound⟩
        · rcases Effect.failsWith_mapError.mp hpanic with ⟨e, u, -, hpanic⟩
          exact hpanic
        · cases found with
          | none => exact panics_fail.mp hfound
          | some memo => exact not_panics_pure hfound
    · split at hcheck
      · exact not_panics_pure hcheck
      · exact panics_fail.mp hcheck

/-- A memo that exists and that the user may change is found. -/
theorem memoForLinks_of {name : String} {user : User} {memo : Memo}
    (huser : svc.linkingUser = .ok user) (hname : svc.extractMemoUIDFromName name = .ok memo.UID)
    (hmemo : memo ∈ db.memos) (hmodify : canModifyMemo user memo = true) :
    ∃ row : FoundMemo, row.toMemo = memo ∧ svc.memoForLinks name db = (.ok (user, row), db) := by
  rcases getMemo_uid_eq svc.engine db memo.UID with ⟨found, hget, hfind⟩
  cases found with
  | none =>
      have hnone := List.find?_eq_none.mp hfind.symm memo hmemo
      simp at hnone
  | some row =>
      have hrow : row.toMemo ∈ db.memos := List.mem_of_find?_eq_some hfind.symm
      have huid : row.UID = memo.UID := by simpa using List.find?_some hfind.symm
      have heq : row.toMemo = memo := db.eq_of_memoUID_eq hrow hmemo huid
      refine ⟨row, heq, ?_⟩
      have hmemoUID : svc.memoUIDOfName name db = (.ok memo.UID, db) := by
        rw [memoUIDOfName, hname]
        rfl
      have hfound : svc.findMemo memo.UID (fun _ => .status .Internal "failed to get memo") db =
          (.ok row, db) := by
        have hmapped : (svc.engine.getMemo { UID := some memo.UID }).mapError
            (fun _ => Failure.status .Internal "failed to get memo") db = (.ok (some row), db) := by
          rw [Effect.mapError, hget]
          rfl
        rw [findMemo, Effect.bind_of_ok hmapped]
        rfl
      have hrequire : svc.requireMemo name (fun _ => .status .Internal "failed to get memo") db =
          (.ok row, db) := by
        rw [requireMemo, Effect.bind_of_ok hmemoUID, hfound]
      have hlinking : (Effect.ofExcept svc.linkingUser : ApiM User) db = (.ok user, db) := by
        rw [huser]
        rfl
      rw [memoForLinks, Effect.bind_of_ok hlinking, Effect.bind_of_ok hrequire, heq, if_pos hmodify]
      rfl

private theorem not_panics_finishLinks (memoID : ℤ) : ¬ Panics (svc.finishLinks memoID) db := by
  intro h
  rcases panics_bind.mp h with hpanic | ⟨_, t, -, hrest⟩
  · exact not_panics_withStatus hpanic
  · rcases panics_bind.mp hrest with hpanic | ⟨_, t', -, hpure⟩
    · exact not_panics_withStatus hpanic
    · exact not_panics_pure hpure

/-- Setting relations panics on a memo that the user may change, when a relation that is reached
lacks its related memo or has the name of a memo that does not exist. -/
theorem setMemoRelations_panics_iff (request : SetMemoRelationsRequest) :
    Panics (svc.setMemoRelations request) db ↔ ∃ user memo, svc.linkingUser = .ok user ∧
      svc.extractMemoUIDFromName request.Name = .ok memo.UID ∧ memo ∈ db.memos ∧
        canModifyMemo user memo = true ∧
          ¬ HarmlessRelations svc memo.UID db request.Relations := by
  rw [setMemoRelations]
  constructor
  · intro h
    rcases (panics_bind_of_not (not_panics_memoForLinks request.Name)).mp h with
      ⟨⟨user, row⟩, t, hfound, hrest⟩
    rcases memoForLinks_ok hfound with ⟨rfl, huser, hname, hmem, hmodify⟩
    rcases panics_bind.mp hrest with hpanic | ⟨_, t', -, hfinish⟩
    · exact ⟨user, row.toMemo, huser, hname, hmem, hmodify,
        (setMemoRelationsInternal_panics_iff _ _).mp hpanic⟩
    · exact absurd hfinish (not_panics_finishLinks _)
  · intro h
    rcases h with ⟨user, memo, huser, hname, hmem, hmodify, hnot⟩
    rcases memoForLinks_of huser hname hmem hmodify with ⟨row, rfl, hrun⟩
    rw [panics_bind_of_ok hrun]
    exact panics_bind.mpr (.inl ((setMemoRelationsInternal_panics_iff _ _).mpr hnot))

/-! ## Listing relations -/

/-- Showing one end of a relation panics only where its memo is not there. -/
theorem relationEnd_panics (failed snippetFailed : String) (memoID : ℤ) :
    Panics (svc.relationEnd failed snippetFailed memoID) db → ∀ m ∈ db.memos, m.ID ≠ memoID := by
  intro h m hm hid
  rcases (panics_bind_of_not not_panics_withStatus).mp h with ⟨found, t, hget, hrest⟩
  rcases StoreEngine.getMemo_id hm with ⟨row, hrow, -⟩
  have hfound := Effect.ok_of_mapError hget
  rw [← hid, hrow] at hfound
  cases hfound
  rw [dereference_some_bind] at hrest
  rcases panics_bind.mp hrest with hpanic | ⟨_, t', -, hpure⟩
  · exact not_panics_mapStatus hpanic
  · exact not_panics_pure hpure

/-- Showing a relation changes nothing. -/
theorem relationEnd_keeps {P : Tables → Prop} (failed snippetFailed : String) (memoID : ℤ) :
    Effect.Keeps P (svc.relationEnd failed snippetFailed memoID) :=
  ((StoreEngine.getMemo_keeps _).mapError _).bind fun found =>
    (dereference_keeps found).bind fun _ => (Effect.Keeps.ofExcept _).bind fun _ =>
      Effect.Keeps.pure _

/-- Relations whose memos exist are converted without a panic. -/
theorem not_panics_convertMemoRelations {list : List MemoRelation}
    (h : ∀ r ∈ list, (∃ m ∈ db.memos, m.ID = r.MemoID) ∧ ∃ m ∈ db.memos, m.ID = r.RelatedMemoID) :
    ¬ Panics (svc.convertMemoRelationsFromStore list) db := by
  induction list with
  | nil => exact not_panics_pure
  | cons r rest ih =>
      have hone : ¬ Panics ((svc.convertMemoRelationFromStore r).mapError
          (Failure.replace "failed to convert memo relation")) db := by
        rw [panics_mapError_replace]
        intro hpanic
        rcases h r List.mem_cons_self with ⟨⟨m, hm, hid⟩, m', hm', hid'⟩
        rcases panics_bind.mp hpanic with hpanic | ⟨memo, t, hmemo, hrest⟩
        · exact relationEnd_panics _ _ _ hpanic m hm hid
        · rcases Effect.eq_of_ok_of_keeps (fun s => relationEnd_keeps _ _ _) hmemo with rfl
          rcases panics_bind.mp hrest with hpanic | ⟨_, t', -, hpure⟩
          · exact relationEnd_panics _ _ _ hpanic m' hm' hid'
          · exact not_panics_pure hpure
      intro hpanic
      rcases (panics_bind_of_not hone).mp hpanic with ⟨relation, t, hfirst, hrest⟩
      have hsame : t = db := Effect.eq_of_ok_of_keeps (fun s => Effect.Keeps.mapError
        ((relationEnd_keeps _ _ _).bind fun _ => (relationEnd_keeps _ _ _).bind fun _ =>
          Effect.Keeps.pure _) _) hfirst
      rw [hsame] at hrest
      rcases panics_bind.mp hrest with hpanic | ⟨_, t', -, hpure⟩
      · exact ih (fun r' hr' => h r' (List.mem_cons_of_mem r hr')) hpanic
      · exact not_panics_pure hpure

/-- A query with a filter lists relations whose memos exist. -/
theorem not_panics_listConvertedRelations {failed memoFilter : String} {find : FindMemoRelation}
    (hfilter : find.MemoFilter = some memoFilter) :
    ¬ Panics (svc.listConvertedRelations failed find) db := by
  intro h
  rcases (panics_bind_of_not not_panics_withStatus).mp h with ⟨list, t, hlist, hrest⟩
  have hrun := Effect.ok_of_mapError hlist
  rcases Effect.eq_of_ok_of_keeps (fun s => StoreEngine.listMemoRelations_keeps find) hrun with rfl
  exact not_panics_convertMemoRelations (fun r hr => mem_listMemoRelations hfilter hrun hr) hrest

/-- Showing relations changes nothing. -/
theorem convertMemoRelations_keeps {P : Tables → Prop} (list : List MemoRelation) :
    Effect.Keeps P (svc.convertMemoRelationsFromStore list) := by
  induction list with
  | nil => exact Effect.Keeps.pure _
  | cons r rest ih =>
      refine (Effect.Keeps.mapError ?_ _).bind fun _ => ih.bind fun _ => Effect.Keeps.pure _
      exact (relationEnd_keeps _ _ _).bind fun _ => (relationEnd_keeps _ _ _).bind fun _ =>
        Effect.Keeps.pure _

/-- Listing relations panics on the name of a memo that does not exist. -/
theorem listMemoRelations_panics_iff (name : String) :
    Panics (svc.listMemoRelations name) db ↔
      ∃ uid, svc.extractMemoUIDFromName name = .ok uid ∧ (∀ m ∈ db.memos, m.UID ≠ uid) ∧
        ∃ currentUser, svc.fetchCurrentUser = .ok currentUser := by
  have hname : ¬ Panics (svc.memoUIDOfName name) db := not_panics_mapStatus
  have hrest : ∀ (memo : FoundMemo) (memoFilter : String),
      ¬ Panics (do
        let outgoing ← svc.listConvertedRelations "failed to list memo relations"
          { MemoID := some memo.ID, MemoFilter := some memoFilter }
        let incoming ← svc.listConvertedRelations "failed to list related memo relations"
          { RelatedMemoID := some memo.ID, MemoFilter := some memoFilter }
        pure (outgoing ++ incoming) : ApiM (List RelationMessage)) db := by
    intro memo memoFilter hpanic
    rcases (panics_bind_of_not (not_panics_listConvertedRelations rfl)).mp hpanic with
      ⟨outgoing, t, hfirst, hpanic⟩
    have hsame : t = db := Effect.eq_of_ok_of_keeps (fun s =>
      ((StoreEngine.listMemoRelations_keeps _).mapError _).bind fun list =>
        convertMemoRelations_keeps list) hfirst
    rw [hsame] at hpanic
    rcases (panics_bind_of_not (not_panics_listConvertedRelations rfl)).mp hpanic with
      ⟨incoming, t', -, hpure⟩
    exact not_panics_pure hpure
  rw [listMemoRelations]
  constructor
  · intro h
    rcases (panics_bind_of_not hname).mp h with ⟨uid, t, huid, hafterName⟩
    rcases memoUIDOfName_ok huid with ⟨rfl, hextract⟩
    rcases (panics_bind_of_not not_panics_withStatus).mp hafterName with
      ⟨found, t', hget, hafterGet⟩
    rcases getMemo_uid_eq svc.engine t uid with ⟨found', hget', hfind⟩
    have hfound := Effect.ok_of_mapError hget
    rw [hget'] at hfound
    cases hfound
    rcases (panics_bind_of_not not_panics_mapStatus).mp hafterGet with
      ⟨currentUser, t'', huser, hafterUser⟩
    rcases Effect.ok_of_ofExcept huser with ⟨hcurrent, rfl⟩
    cases found with
    | none =>
        refine ⟨uid, hextract, fun m hm => ?_, currentUser, ?_⟩
        · simpa using List.find?_eq_none.mp hfind.symm m hm
        · cases hfetch : svc.fetchCurrentUser with
          | error err =>
              rw [hfetch] at hcurrent
              cases hcurrent
          | ok user =>
              rw [hfetch] at hcurrent
              cases hcurrent
              rfl
    | some memo =>
        dsimp only at hafterUser
        rw [dereference_some_bind] at hafterUser
        exact absurd hafterUser (hrest memo _)
  · intro h
    rcases h with ⟨uid, hextract, hnone, currentUser, hcurrent⟩
    have huid : svc.memoUIDOfName name db = (.ok uid, db) := by
      rw [memoUIDOfName, hextract]
      rfl
    have hget : internally "failed to get memo" (svc.engine.getMemo { UID := some uid }) db =
        (.ok none, db) := by
      rw [internally, withStatus, Effect.mapError, StoreEngine.getMemo_uid_none_iff.mpr hnone]
      rfl
    have huser : (Effect.ofExcept (svc.fetchCurrentUser.mapError fun _ =>
        .status .Internal "failed to get user") : ApiM (Option User)) db =
          (.ok currentUser, db) := by
      rw [hcurrent]
      rfl
    rw [panics_bind_of_ok huid, panics_bind_of_ok hget, panics_bind_of_ok huser]
    exact panics_bind.mpr (.inl (panics_dereference.mpr rfl))

end MemoService

/-! ## Identity providers -/

section

variable {β : Type} {table : IdpTable}

/-- Storing a configuration does not panic. -/
theorem not_panics_rawConfig {json : OAuth2Json} {idpType : ProviderType}
    {config : Option IdentityProviderConfig} {e : Failure}
    (h : json.convertIdentityProviderConfigToRaw idpType config = .error e) : ¬ e.IsPanic := by
  rw [OAuth2Json.convertIdentityProviderConfigToRaw] at h
  split at h
  · cases hmarshal : json.marshal ((getOauth2Config config).getD {}) with
    | ok raw =>
        rw [hmarshal] at h
        cases h
    | error err =>
        rw [hmarshal] at h
        cases h
        exact id
  · cases h

/-- A stored row is read without a panic. -/
theorem not_panics_fromRaw {json : OAuth2Json} {row : IdpRow} {e : Failure}
    (h : json.convertIdentityProviderFromRaw row = .error e) : ¬ e.IsPanic := by
  rw [OAuth2Json.convertIdentityProviderFromRaw] at h
  split at h
  · split at h
    · cases h
      exact id
    · cases h
  · cases h

/-- A usable row is read, and its configuration is usable. -/
theorem fromRaw_of_usable {json : OAuth2Json} {row : IdpRow} (h : UsableRow json row) :
    ∃ provider, json.convertIdentityProviderFromRaw row = .ok provider ∧ provider.Id = row.ID ∧
      UsableConfig provider.IdpType provider.Config := by
  rw [OAuth2Json.convertIdentityProviderFromRaw]
  by_cases htype : row.IdpType = .OAUTH2
  · rw [if_pos htype]
    rcases h htype with ⟨oauth2Config, hunmarshal, hmapping⟩
    rw [hunmarshal]
    exact ⟨_, rfl, rfl, fun _ => hmapping⟩
  · rw [if_neg htype]
    exact ⟨_, rfl, rfl, fun h => absurd h htype⟩

/-- The message of a usable provider is built; the one of another provider panics. -/
theorem fromStore_of_usable {provider : IdentityProvider}
    (h : UsableConfig provider.IdpType provider.Config) :
    ¬ Panics (Effect.ofExcept (convertIdentityProviderFromStore provider) : IdpM _) table := by
  intro hpanic
  rcases panics_ofExcept.mp hpanic with ⟨e, he, -⟩
  rw [convertIdentityProviderFromStore] at he
  by_cases htype : provider.IdpType = .OAUTH2
  · rcases checkedConfig_cases provider.Config with ⟨c, m, -, -, hrun⟩ | ⟨hnot, -⟩
    · rw [if_pos htype, hrun] at he
      cases he
    · exact hnot (h htype)
  · rw [if_neg htype] at he
    cases he

/-- The provider of a message is usable, or its conversion panics. -/
theorem toStore_cases (message : Option IdentityProviderMessage) (uid : String) :
    ((∃ given, message = some given ∧ UsableConfig given.IdpType given.Config) ∧
      ∃ provider, convertIdentityProviderToStore message uid = .ok provider) ∨
    ((¬ ∃ given, message = some given ∧ UsableConfig given.IdpType given.Config) ∧
      convertIdentityProviderToStore message uid = .error nilPointer) := by
  cases message with
  | none => exact .inr ⟨by simp, rfl⟩
  | some given =>
      have hrun : convertIdentityProviderToStore (some given) uid = (do
          let config ← convertIdentityProviderConfigToStore given.IdpType given.Config
          pure {
            Uid := uid
            Name := given.Title
            IdpType := convertProviderType given.IdpType
            IdentifierFilter := given.IdentifierFilter
            Config := config }) := rfl
      rcases convertConfig_cases given.IdpType given.Config with
        ⟨husable, stored, hstored, -, -⟩ | ⟨hnot, hfails⟩
      · left
        rw [hrun, hstored]
        exact ⟨⟨given, rfl, husable⟩, _, rfl⟩
      · right
        rw [hrun, hfails]
        refine ⟨?_, rfl⟩
        intro h
        rcases h with ⟨given', heq, husable⟩
        cases heq
        exact hnot husable

namespace MemoService

variable {svc : MemoService} {json : OAuth2Json}

theorem not_panics_requireAdmin :
    ¬ Panics (Effect.ofExcept svc.requireAdmin : IdpM User) table := by
  intro h
  rcases panics_ofExcept.mp h with ⟨e, he, hpanic⟩
  rw [requireAdmin] at he
  split at he
  · cases he
    exact hpanic
  · cases he
    exact hpanic
  · split at he
    · cases he
    · cases he
      exact hpanic

private theorem not_panics_validateUID (provided : String) :
    ¬ Panics (Effect.ofExcept (validateAndGenerateUID svc.uuid provided) : IdpM String) table := by
  intro h
  rcases panics_ofExcept.mp h with ⟨e, he, hpanic⟩
  rw [validateAndGenerateUID] at he
  split at he
  · cases he
  · split at he
    · cases he
    · cases he
      exact hpanic

/-- The insertion of a usable provider and the message of the new row do not panic. -/
theorem not_panics_insertProvider {create : IdentityProvider}
    (husable : UsableConfig create.IdpType create.Config) :
    ¬ Panics (do
      let provider ← idpInternally "failed to create identity provider, error"
        (json.createIdentityProvider create)
      Effect.ofExcept (convertIdentityProviderFromStore provider) :
        IdpM IdentityProviderMessage) table := by
  intro h
  rcases panics_bind.mp h with hpanic | ⟨provider, t, hcreate, hmessage⟩
  · rcases panics_bind.mp (panics_mapError_internal.mp hpanic) with hpanic | ⟨config, t, -, hrest⟩
    · rcases panics_ofExcept.mp hpanic with ⟨e, he, hpanic⟩
      exact not_panics_rawConfig he hpanic
    · rcases panics_bind.mp hrest with hpanic | ⟨row, t', -, hread⟩
      · rcases hpanic with ⟨e, t', hinsert, hpanic⟩
        rw [OAuth2Json.insertProvider] at hinsert
        split at hinsert <;> cases hinsert
        exact hpanic
      · rcases panics_ofExcept.mp hread with ⟨e, he, hpanic⟩
        exact not_panics_fromRaw he hpanic
  · rcases Effect.ok_of_bind (Effect.ok_of_mapError hcreate) with ⟨config, t', hconfig, hrest⟩
    rcases Effect.ok_of_ofExcept hconfig with ⟨hraw, rfl⟩
    rcases Effect.ok_of_bind hrest with ⟨row, t'', hinsert, hread⟩
    rcases Effect.ok_of_ofExcept hread with ⟨hrow, rfl⟩
    have hnew : row = OAuth2Json.newRow create config (t'.sequence + 1) := by
      rw [OAuth2Json.insertProvider] at hinsert
      split at hinsert <;> cases hinsert
      rfl
    have hrowUsable : UsableRow json row := by
      rw [hnew]
      exact OAuth2Json.usable_of_raw husable hraw
    rcases fromRaw_of_usable hrowUsable with ⟨provider', hprovider, -, hconfigUsable⟩
    rw [hrow] at hprovider
    cases hprovider
    exact fromStore_of_usable hconfigUsable hmessage

/-- Creating a provider panics for an administrator whose request lacks the provider, or the
configuration of an OAuth2 provider, or its field mapping. -/
theorem createIdentityProvider_panics_iff (request : CreateIdentityProviderRequest) :
    Panics (svc.createIdentityProvider json request) table ↔
      ∃ user uid, svc.requireAdmin = .ok user ∧
        validateAndGenerateUID svc.uuid request.IdentityProviderId = .ok uid ∧
          ¬ ∃ given, request.IdentityProvider = some given ∧
            UsableConfig given.IdpType given.Config := by
  rw [createIdentityProvider]
  constructor
  · intro h
    rcases (panics_bind_of_not not_panics_requireAdmin).mp h with ⟨user, t, huser, hafterUser⟩
    rcases Effect.ok_of_ofExcept huser with ⟨hadmin, rfl⟩
    rcases (panics_bind_of_not (not_panics_validateUID _)).mp hafterUser with
      ⟨uid, t', huid, hafterUID⟩
    rcases Effect.ok_of_ofExcept huid with ⟨hvalid, rfl⟩
    refine ⟨user, uid, hadmin, hvalid, ?_⟩
    intro hgiven
    rcases toStore_cases request.IdentityProvider uid with ⟨-, create, hcreate⟩ | ⟨hnot, -⟩
    · rw [hcreate] at hafterUID
      exact not_panics_insertProvider (convertIdentityProviderToStore_ok hcreate).2 hafterUID
    · exact hnot hgiven
  · intro h
    rcases h with ⟨user, uid, hadmin, hvalid, hnot⟩
    rcases toStore_cases request.IdentityProvider uid with ⟨hgiven, -⟩ | ⟨-, hfails⟩
    · exact absurd hgiven hnot
    · rw [hadmin, hvalid]
      refine panics_bind.mpr (.inr ⟨user, table, rfl, ?_⟩)
      refine panics_bind.mpr (.inr ⟨uid, table, rfl, ?_⟩)
      exact panics_bind.mpr (.inl (panics_ofExcept.mpr ⟨nilPointer, hfails, trivial⟩))

/-- The provider of a name is found, and so is at most one. -/
theorem getIdentityProvider_eq (h : UsableTable json table) (uid : String) :
    ∃ found : Option IdentityProvider, json.getIdentityProvider uid table = (.ok found, table) ∧
      (found ≠ none ↔ ∃ row ∈ table.rows, row.UID = uid) := by
  rw [OAuth2Json.getIdentityProvider, Effect.read_bind, id]
  have hmem : ∀ row, row ∈ table.rows.filter (fun row => row.UID = uid) ↔
      row ∈ table.rows ∧ row.UID = uid := fun row => by simp [List.mem_filter]
  cases hrows : table.rows.filter fun row => row.UID = uid with
  | nil =>
      refine ⟨none, rfl, by simp, ?_⟩
      intro hex
      rcases hex with ⟨row, hrow, huid⟩
      have hin := (hmem row).mpr ⟨hrow, huid⟩
      rw [hrows] at hin
      cases hin
  | cons row rest =>
      have hin := (hmem row).mp (hrows ▸ List.mem_cons_self)
      cases rest with
      | nil =>
          rcases fromRaw_of_usable (h row hin.1) with ⟨provider, hprovider, -, -⟩
          refine ⟨some provider, ?_, by simpa using ⟨row, hin.1, hin.2⟩⟩
          rw [List.mapM_cons, hprovider]
          rfl
      | cons row' rest =>
          -- Two rows of one name contradict the uniqueness of the names.
          have hin' := (hmem row').mp (by rw [hrows]; simp)
          have hnodup := table.uids_nodup.sublist
            ((List.filter_sublist (p := fun row => row.UID = uid)).map IdpRow.UID)
          rw [hrows, List.map_cons, List.map_cons, hin.2, hin'.2] at hnodup
          simp at hnodup

/-- A usable update and the message of the updated row do not panic. -/
theorem not_panics_updateProvider (htable : UsableTable json table)
    {update : UpdateIdentityProviderV1} (husable : UsableUpdate update) :
    ¬ Panics (do
      let provider ← idpInternally "failed to update identity provider, error"
        (json.updateIdentityProvider update)
      Effect.ofExcept (convertIdentityProviderFromStore provider) :
        IdpM IdentityProviderMessage) table := by
  intro h
  rcases panics_bind.mp h with hpanic | ⟨provider, t, hupdate, hmessage⟩
  · rcases panics_bind.mp (panics_mapError_internal.mp hpanic) with hpanic | ⟨config, t, -, hrest⟩
    · rcases panics_ofExcept.mp hpanic with ⟨e, he, hpanic⟩
      rw [OAuth2Json.updatedConfig] at he
      split at he
      · cases he
      · rename_i config _
        cases hraw : json.convertIdentityProviderConfigToRaw update.IdpType (some config) with
        | ok raw =>
            rw [hraw] at he
            cases he
        | error err =>
            rw [hraw] at he
            cases he
            exact not_panics_rawConfig hraw hpanic
    · rcases panics_bind.mp hrest with hpanic | ⟨_, t', -, hread⟩
      · rw [OAuth2Json.updateProvider] at hpanic
        split at hpanic
        · exact panics_fail.mp hpanic
        · rcases hpanic with ⟨e, t', hrun, -⟩
          cases hrun
      · rcases panics_bind.mp hread with hpanic | ⟨rows, t'', hrows, hfound⟩
        · rcases hpanic with ⟨e, t'', hrun, -⟩
          cases hrun
        · split at hfound
          · exact panics_fail.mp hfound
          · rcases panics_ofExcept.mp hfound with ⟨e, he, hpanic⟩
            exact not_panics_fromRaw he hpanic
  · have hstore := Effect.ok_of_mapError hupdate
    have hkept := OAuth2Json.updateIdentityProvider_keeps husable table htable
    rw [hstore] at hkept
    rcases Effect.ok_of_bind hstore with ⟨config, t', -, hrest⟩
    rcases Effect.ok_of_bind hrest with ⟨_, t'', -, hread⟩
    rcases Effect.ok_of_bind hread with ⟨rows, u, hrows, hfound⟩
    cases hrows
    cases hfind : (id t'').rows.find? fun row => row.ID = update.ID with
    | none =>
        rw [hfind] at hfound
        cases hfound
    | some row =>
        rw [hfind] at hfound
        rcases Effect.ok_of_ofExcept hfound with ⟨hrow, rfl⟩
        rcases fromRaw_of_usable (hkept row (List.mem_of_find?_eq_some hfind)) with
          ⟨provider', hprovider, -, hconfigUsable⟩
        rw [hrow] at hprovider
        cases hprovider
        exact fromStore_of_usable hconfigUsable hmessage

private theorem not_panics_identityProviderUIDOfName (name : String) :
    ¬ Panics (Effect.ofExcept (svc.identityProviderUIDOfName name) : IdpM String) table := by
  intro h
  rcases panics_ofExcept.mp h with ⟨e, he, hpanic⟩
  rw [identityProviderUIDOfName] at he
  cases hextract : svc.extractIdentityProviderUIDFromName name with
  | ok uid =>
      rw [hextract] at he
      cases he
  | error err =>
      rw [hextract] at he
      cases he
      exact hpanic

private theorem identityProviderUIDOfName_ok {name uid : String}
    (h : svc.identityProviderUIDOfName name = .ok uid) :
    svc.extractIdentityProviderUIDFromName name = .ok uid := by
  rw [identityProviderUIDOfName] at h
  cases hextract : svc.extractIdentityProviderUIDFromName name with
  | ok uid' =>
      rw [hextract] at h
      cases h
      rfl
  | error err =>
      rw [hextract] at h
      cases h

/-- Updating a provider panics for an administrator whose request lacks the provider, or asks for
the configuration of an OAuth2 provider without giving it and its field mapping. -/
theorem updateIdentityProvider_panics_iff (htable : UsableTable json table)
    (request : UpdateIdentityProviderRequest) :
    Panics (svc.updateIdentityProvider json request) table ↔
      ∃ user paths, svc.requireAdmin = .ok user ∧ request.UpdateMask = some paths ∧ paths ≠ [] ∧
        ∀ given, request.IdentityProvider = some given →
          ∃ uid, svc.extractIdentityProviderUIDFromName given.Name = .ok uid ∧
            (∃ row ∈ table.rows, row.UID = uid) ∧ "config" ∈ paths ∧
              ¬ UsableConfig given.IdpType given.Config := by
  rw [updateIdentityProvider]
  constructor
  · intro h
    rcases (panics_bind_of_not not_panics_requireAdmin).mp h with ⟨user, t, huser, hafterUser⟩
    rcases Effect.ok_of_ofExcept huser with ⟨hadmin, rfl⟩
    cases hmask : request.UpdateMask with
    | none =>
        rw [hmask] at hafterUser
        exact absurd hafterUser (by simp [Failure.IsPanic])
    | some paths =>
        rw [hmask] at hafterUser
        cases paths with
        | nil => exact absurd hafterUser (by simp [Failure.IsPanic])
        | cons path paths =>
          refine ⟨user, path :: paths, hadmin, rfl, by simp, ?_⟩
          intro given hgiven
          rw [hgiven] at hafterUser
          rcases (panics_bind_of_not not_panics_pure).mp hafterUser with
            ⟨given', t', hchecked, hafterGiven⟩
          cases hchecked
          rcases (panics_bind_of_not (not_panics_identityProviderUIDOfName _)).mp hafterGiven with
            ⟨uid, t', huid, hafterUID⟩
          rcases Effect.ok_of_ofExcept huid with ⟨hname, rfl⟩
          rcases getIdentityProvider_eq htable uid with ⟨found, hget, hfound⟩
          have hinternal : idpInternally "failed to get identity provider, error"
              (json.getIdentityProvider uid) t' = (.ok found, t') := by
            rw [idpInternally, Effect.mapError, hget]
            rfl
          rw [panics_bind_of_ok hinternal] at hafterUID
          cases found with
          | none => exact absurd hafterUID (by simp [Failure.IsPanic])
          | some existing =>
              refine ⟨uid, identityProviderUIDOfName_ok hname, hfound.mp (by simp), ?_⟩
              dsimp only at hafterUID
              rcases updateProviderPaths_cases given (path :: paths)
                { ID := existing.Id, IdpType := convertProviderType given.IdpType } rfl
                (fun h => absurd rfl h) with ⟨-, collected, hrun, -, hcollected⟩ | ⟨hnot, -⟩
              · rw [hrun] at hafterUID
                exact absurd hafterUID
                  (not_panics_updateProvider htable (usableUpdate_preserveSecret hcollected))
              · exact hnot
  · intro h
    rcases h with ⟨user, paths, hadmin, hmask, hne, hgiven⟩
    rw [hadmin, hmask]
    refine panics_bind.mpr (.inr ⟨user, table, rfl, ?_⟩)
    cases paths with
    | nil => exact absurd rfl hne
    | cons path paths =>
        cases hmessage : request.IdentityProvider with
        | none => exact panics_bind.mpr (.inl (panics_ofExcept.mpr ⟨nilPointer, rfl, trivial⟩))
        | some given =>
            rcases hgiven given hmessage with ⟨uid, hname, hrow, hconfig, hnot⟩
            rcases getIdentityProvider_eq htable uid with ⟨found, hget, hfound⟩
            have hinternal : idpInternally "failed to get identity provider, error"
                (json.getIdentityProvider uid) table = (.ok found, table) := by
              rw [idpInternally, Effect.mapError, hget]
              rfl
            have huid : (Effect.ofExcept (svc.identityProviderUIDOfName given.Name) : IdpM String)
                table = (.ok uid, table) := by
              rw [identityProviderUIDOfName, hname]
              rfl
            refine panics_bind.mpr (.inr ⟨given, table, rfl, ?_⟩)
            rw [panics_bind_of_ok huid, panics_bind_of_ok hinternal]
            cases found with
            | none => exact absurd (hfound.mpr hrow) (by simp)
            | some existing =>
                dsimp only
                rcases updateProviderPaths_cases given (path :: paths)
                  { ID := existing.Id, IdpType := convertProviderType given.IdpType } rfl
                  (fun h => absurd rfl h) with ⟨husable, -⟩ | ⟨-, hfails⟩
                · exact absurd (husable hconfig) hnot
                · exact panics_bind.mpr (.inl (panics_ofExcept.mpr ⟨nilPointer, hfails, trivial⟩))

end MemoService

end

/-! ## The endpoints together -/

/-- A request to one of the endpoints. -/
inductive EndpointRequest where
  | setMemoRelations (request : SetMemoRelationsRequest)
  | listMemoRelations (name : String)
  | createIdentityProvider (request : CreateIdentityProviderRequest)
  | updateIdentityProvider (request : UpdateIdentityProviderRequest)

namespace EndpointRequest

variable (svc : MemoService) (json : OAuth2Json) (db : Tables) (table : IdpTable)

/-- The endpoint of the request panics. -/
def EndsInPanic : EndpointRequest → Prop
  | setMemoRelations request => Panics (svc.setMemoRelations request) db
  | listMemoRelations name => Panics (svc.listMemoRelations name) db
  | createIdentityProvider request => Panics (svc.createIdentityProvider json request) table
  | updateIdentityProvider request => Panics (svc.updateIdentityProvider json request) table

/-- What the endpoint uses without a check is there, once the request has passed the checks that
are made before. -/
def Complete : EndpointRequest → Prop
  | setMemoRelations request =>
      ∀ user memo, svc.linkingUser = .ok user →
        svc.extractMemoUIDFromName request.Name = .ok memo.UID → memo ∈ db.memos →
          canModifyMemo user memo = true → HarmlessRelations svc memo.UID db request.Relations
  | listMemoRelations name =>
      ∀ uid, svc.extractMemoUIDFromName name = .ok uid → (∃ m ∈ db.memos, m.UID = uid) ∨
        ∀ currentUser, svc.fetchCurrentUser ≠ .ok currentUser
  | createIdentityProvider request =>
      ∀ user uid, svc.requireAdmin = .ok user →
        validateAndGenerateUID svc.uuid request.IdentityProviderId = .ok uid →
          ∃ given, request.IdentityProvider = some given ∧
            UsableConfig given.IdpType given.Config
  | updateIdentityProvider request =>
      ∀ user paths, svc.requireAdmin = .ok user → request.UpdateMask = some paths → paths ≠ [] →
        ∃ given, request.IdentityProvider = some given ∧
          ∀ uid, svc.extractIdentityProviderUIDFromName given.Name = .ok uid →
            (∃ row ∈ table.rows, row.UID = uid) → "config" ∈ paths →
              UsableConfig given.IdpType given.Config

/-- An endpoint answers a request with a value or an error exactly when the request is complete. -/
theorem request_no_panic_iff (request : EndpointRequest) (hreachable : IdpReachable json table) :
    ¬ request.EndsInPanic svc json db table ↔ request.Complete svc db table := by
  cases request with
  | setMemoRelations request =>
      rw [EndsInPanic, Complete, MemoService.setMemoRelations_panics_iff]
      constructor
      · intro h user memo huser hname hmem hmodify
        by_contra hnot
        exact h ⟨user, memo, huser, hname, hmem, hmodify, hnot⟩
      · intro h hex
        rcases hex with ⟨user, memo, huser, hname, hmem, hmodify, hnot⟩
        exact hnot (h user memo huser hname hmem hmodify)
  | listMemoRelations name =>
      rw [EndsInPanic, Complete, MemoService.listMemoRelations_panics_iff]
      constructor
      · intro h uid hname
        by_contra hnot
        rw [not_or] at hnot
        refine hnot.2 fun currentUser huser => h ⟨uid, hname, ?_, currentUser, huser⟩
        intro m hm huid
        exact hnot.1 ⟨m, hm, huid⟩
      · intro h hex
        rcases hex with ⟨uid, hname, hnone, currentUser, huser⟩
        rcases h uid hname with ⟨m, hm, huid⟩ | hfails
        · exact hnone m hm huid
        · exact hfails currentUser huser
  | createIdentityProvider request =>
      rw [EndsInPanic, Complete, MemoService.createIdentityProvider_panics_iff]
      constructor
      · intro h user uid hadmin hvalid
        by_contra hnot
        exact h ⟨user, uid, hadmin, hvalid, hnot⟩
      · intro h hex
        rcases hex with ⟨user, uid, hadmin, hvalid, hnot⟩
        exact hnot (h user uid hadmin hvalid)
  | updateIdentityProvider request =>
      rw [EndsInPanic, Complete,
        MemoService.updateIdentityProvider_panics_iff hreachable.usable]
      constructor
      · intro h user paths hadmin hmask hne
        by_contra hnot
        refine h ⟨user, paths, hadmin, hmask, hne, fun given hgiven => ?_⟩
        by_contra hcomplete
        refine hnot ⟨given, hgiven, fun uid hname hrow hconfig => ?_⟩
        by_contra husable
        exact hcomplete ⟨uid, hname, hrow, hconfig, husable⟩
      · intro h hex
        rcases hex with ⟨user, paths, hadmin, hmask, hne, hlacks⟩
        rcases h user paths hadmin hmask hne with ⟨given, hgiven, hcomplete⟩
        rcases hlacks given hgiven with ⟨uid, hname, hrow, hconfig, hnot⟩
        exact hnot (hcomplete uid hname hrow hconfig)

end EndpointRequest

/-! ## Examples -/

/-- A configuration with a field mapping. -/
def sampleConfig : OAuth2Config where
  ClientId := "memos"
  FieldMapping := some { Identifier := "login" }

/-- The JSON text of one configuration. -/
def sampleJson : OAuth2Json where
  marshal config :=
    if config = sampleConfig then
      .ok "\x7b\"clientId\":\"memos\",\"fieldMapping\":\x7b\"identifier\":\"login\"\x7d\x7d"
    else .error "unsupported"
  unmarshal raw :=
    if raw = "\x7b\"clientId\":\"memos\",\"fieldMapping\":\x7b\"identifier\":\"login\"\x7d\x7d" then
      .ok sampleConfig
    else .error "unsupported"
  unmarshal_marshal := by
    intro config raw h
    split at h
    · rename_i hconfig
      cases h
      rw [hconfig]
      rfl
    · cases h

/-- A service for a request of an administrator. -/
def adminService : MemoService :=
  { MemoService.plain with getUserByID := fun id => .ok (some
      { ID := id, Username := "ada", Role := .ADMIN }) }

theorem request_no_panic_example :
    ¬ (EndpointRequest.createIdentityProvider
        { IdentityProvider := some { IdpType := .OAUTH2, Config := some (some sampleConfig) }
        }).EndsInPanic adminService sampleJson (Tables.ofMemos [] [] [] 0) .empty ↔
      (EndpointRequest.createIdentityProvider
        { IdentityProvider := some { IdpType := .OAUTH2, Config := some (some sampleConfig) }
        }).Complete adminService (Tables.ofMemos [] [] [] 0) .empty :=
  EndpointRequest.request_no_panic_iff adminService sampleJson (Tables.ofMemos [] [] [] 0) .empty
    (.createIdentityProvider
      { IdentityProvider := some { IdpType := .OAUTH2, Config := some (some sampleConfig) } })
    .empty

/-- One memo, of the user with identifier 1. -/
def oneMemo : Tables :=
  Tables.ofMemos [{ ID := 1, UID := "m", CreatorID := 1 }] [] [] 1

/-- A relation to a memo that does not exist, a relation without a related memo, the relations of a
memo that does not exist, a provider that is left out, an OAuth2 provider without a configuration,
and an update without a provider: each request panics. -/
theorem requests_panic :
    (adminService.setMemoRelations
        ⟨"memos/m", [{ RelatedMemo := some { Name := "memos/gone" } }]⟩ oneMemo).1 =
          .error nilPointer ∧
      (adminService.setMemoRelations ⟨"memos/m", [{ RelatedMemo := none }]⟩ oneMemo).1 =
        .error nilPointer ∧
      (adminService.listMemoRelations "memos/gone" oneMemo).1 = .error nilPointer ∧
      (adminService.createIdentityProvider sampleJson { IdentityProvider := none } .empty).1 =
        .error nilPointer ∧
      (adminService.createIdentityProvider sampleJson
        { IdentityProvider := some { IdpType := .OAUTH2 } } .empty).1 = .error nilPointer ∧
      (adminService.updateIdentityProvider sampleJson
        { IdentityProvider := none, UpdateMask := some ["title"] } .empty).1 =
          .error nilPointer := by
  refine ⟨?_, ?_, ?_, ?_, ?_, ?_⟩ <;> decide +kernel

end Api
end MemosNote
