import MemosNote.Api.UpdateAtomicity

/-!
# What an update of a memo does

An update that succeeds writes the fields of its mask, and sets the attachments and the references
if they are in it.

Main results:

- Theorem {lit}`updatePaths_collected`: what the paths of a mask collect.
- Theorem {lit}`updateMemo_writes`: the row after an update.
-/

namespace MemosNote
namespace Store
namespace Tables

variable {db : Tables}

/-- The memos that a memo comments on, as a query for it shows them; none for a memo that comments
on none. -/
def parentUIDs (db : Tables) (memoID : ℤ) : List (Option String) :=
  match db.commentRelations memoID with
  | [] => [none]
  | relations => relations.map fun r => db.memoUID? r.RelatedMemoID

theorem joinMemo_eq (memo : Memo) :
    db.joinMemo memo = (db.parentUIDs memo.ID).map fun parentUID => ⟨memo, parentUID⟩ := by
  rw [joinMemo, parentUIDs]
  cases db.commentRelations memo.ID with
  | nil => rfl
  | cons r rest => simp

/-- The joined rows of a name are those of the memo with the name. -/
theorem filter_joined {memo : Memo} (hmemo : memo ∈ db.memos) :
    (db.memos.flatMap db.joinMemo).filter (fun row => row.UID = memo.UID) = db.joinMemo memo := by
  rcases List.append_of_mem hmemo with ⟨before, after, hsplit⟩
  have hnodup := db.memoUIDs_nodup
  rw [hsplit, List.map_append, List.map_cons, List.nodup_middle] at hnodup
  -- No other memo has the name.
  have hother : ∀ list : List Memo, (∀ m ∈ list, m.UID ≠ memo.UID) →
      (list.flatMap db.joinMemo).filter (fun row => row.UID = memo.UID) = [] := by
    intro list hlist
    rw [List.filter_eq_nil_iff]
    intro row hrow
    rcases List.mem_flatMap.mp hrow with ⟨m, hm, hjoined⟩
    have htoMemo := toMemo_of_mem_joinMemo hjoined
    simpa [htoMemo] using hlist m hm
  have hself : (db.joinMemo memo).filter (fun row => row.UID = memo.UID) = db.joinMemo memo := by
    rw [List.filter_eq_self]
    intro row hrow
    simp [toMemo_of_mem_joinMemo hrow]
  have hnot := (List.nodup_cons.mp hnodup).1
  rw [hsplit, List.flatMap_append, List.flatMap_cons, List.filter_append, List.filter_append, hself,
    hother before, hother after, List.append_nil, List.nil_append]
  · intro m hm huid
    exact hnot (huid ▸ List.mem_append_right _ (List.mem_map_of_mem hm))
  · intro m hm huid
    exact hnot (huid ▸ List.mem_append_left _ (List.mem_map_of_mem hm))

end Tables

namespace StoreEngine

/-- The memo of a name, with the first memo that it comments on. -/
theorem getMemo_joined {engine : StoreEngine} {db : Tables} {memo : Memo} (hmemo : memo ∈ db.memos) :
    engine.getMemo { UID := some memo.UID } db =
      (.ok ((db.parentUIDs memo.ID).map fun parentUID => (⟨memo, parentUID⟩ : FoundMemo)).head?,
        db) := by
  rw [getMemo_eq rfl, ← Tables.joinMemo_eq]
  have hmatches : ∀ row : FoundMemo, (({ UID := some memo.UID } : FindMemo).matchesMemo row &&
      ([] : List (Tables → Memo → Bool)).all fun f => f db row.toMemo) =
        decide (row.UID = memo.UID) := by
    intro row
    rw [List.all_nil, Bool.and_true, Bool.eq_iff_iff, matchesMemo_uid, decide_eq_true_eq]
  have hsorted : ({ UID := some memo.UID } : FindMemo).orderBy (db.joinMemo memo) =
      db.joinMemo memo := by
    apply List.Pairwise.insertionSort_eq
    apply List.pairwise_of_forall_mem_list
    intro a ha b hb
    rw [Tables.toMemo_of_mem_joinMemo ha, Tables.toMemo_of_mem_joinMemo hb]
  have hproject : ({ UID := some memo.UID } : FindMemo).project = id := by
    funext row
    rfl
  rw [Tables.selectMemos]
  simp only [hmatches, Tables.filter_joined hmemo, hsorted, limitRows, hproject, List.map_id]

end StoreEngine
end Store

namespace Api

open Library Store

namespace MemoService

variable {svc : MemoService} {db db' : Tables}

/-! ## The row -/

/-- What the paths of a mask have collected since a state. -/
structure Collects (message : MemoMessage) (now : ℤ) (stored : Option Visibility)
    (paths : List String) (st st' : UpdateState) : Prop where
  content : st'.update.Content =
    if "content" ∈ paths then some message.Content else st.update.Content
  visibility : st'.update.Visibility =
    if "visibility" ∈ paths then stored else st.update.Visibility
  visibility_found : "visibility" ∈ paths → stored ≠ none
  updatedTs : st'.update.UpdatedTs =
    if "update_time" ∈ paths then some (message.UpdateTime.elim now Timestamp.unix)
    else st.update.UpdatedTs
  location : st'.memo.Payload.Location =
    if "location" ∈ paths then message.Location else st.memo.Payload.Location
  payload : ∀ payload : MemoPayload,
    (st.update.Payload.getD payload).Location = st.memo.Payload.Location →
      (st'.update.Payload.getD payload).Location = st'.memo.Payload.Location

variable {user : User} {message : MemoMessage} {memo : FoundMemo} {st st' : UpdateState}

theorem Collects.refl (now : ℤ) (stored : Option Visibility) (st : UpdateState) :
    Collects message now stored [] st st where
  content := by simp
  visibility := by simp
  visibility_found := fun h => absurd h (by simp)
  updatedTs := by simp
  location := by simp
  payload := fun _ h => h

theorem Collects.cons {now : ℤ} {stored : Option Visibility} {path : String}
    {rest : List String} {st'' : UpdateState}
    (h : Collects message now stored [path] st st')
    (hrest : Collects message now stored rest st' st'') :
    Collects message now stored (path :: rest) st st'' where
  content := by
    rw [hrest.content, h.content]
    by_cases hmem : "content" ∈ rest <;> simp [hmem]
  visibility := by
    rw [hrest.visibility, h.visibility]
    by_cases hmem : "visibility" ∈ rest <;> simp [hmem]
  visibility_found := fun hmem => by
    rcases List.mem_cons.mp hmem with hpath | hmem
    · exact h.visibility_found (by simp [hpath])
    · exact hrest.visibility_found hmem
  updatedTs := by
    rw [hrest.updatedTs, h.updatedTs]
    by_cases hmem : "update_time" ∈ rest <;> simp [hmem]
  location := by
    rw [hrest.location, h.location]
    by_cases hmem : "location" ∈ rest <;> simp [hmem]
  payload := fun payload hpayload => hrest.payload payload (h.payload payload hpayload)

/-- A path that collects none of these. -/
theorem Collects.of_other {now : ℤ} {stored : Option Visibility} {path : String}
    (hpath : path ∉ ["content", "visibility", "update_time", "location"])
    (hmemo : st'.memo = st.memo) (hcontent : st'.update.Content = st.update.Content)
    (hvisibility : st'.update.Visibility = st.update.Visibility)
    (htime : st'.update.UpdatedTs = st.update.UpdatedTs)
    (hpayload : st'.update.Payload = st.update.Payload) :
    Collects message now stored [path] st st' := by
  simp only [List.mem_cons, List.not_mem_nil, or_false, not_or] at hpath
  refine ⟨?_, ?_, fun hmem => ?_, ?_, ?_, ?_⟩
  · rw [hcontent, if_neg (by simpa using Ne.symm hpath.1)]
  · rw [hvisibility, if_neg (by simpa using Ne.symm hpath.2.1)]
  · exact absurd (List.mem_singleton.mp hmem).symm hpath.2.1
  · rw [htime, if_neg (by simpa using Ne.symm hpath.2.2.1)]
  · rw [hmemo, if_neg (by simpa using Ne.symm hpath.2.2.2)]
  · intro payload h
    rw [hpayload, hmemo]
    exact h

/-- What one path collects. -/
theorem updatePath_collected {path : String} (hparent : st.memo.ParentUID = memo.ParentUID)
    (h : svc.updatePath user message path st db = (.ok st', db')) :
    Collects message svc.engine.now
      (storedVisibility message.Visibility memo.ParentUID db.memos) [path] st st' := by
  by_cases hattachments : path = "attachments"
  · rw [hattachments, updatePath_attachments] at h
    rcases Effect.ok_of_bind h with ⟨_, t, -, hlast⟩
    cases hlast
    rw [hattachments]
    exact .of_other (by simp) rfl rfl rfl rfl rfl
  by_cases hrelations : path = "relations"
  · rw [hrelations, updatePath_relations] at h
    rcases Effect.ok_of_bind h with ⟨_, t, -, hlast⟩
    cases hlast
    rw [hrelations]
    exact .of_other (by simp) rfl rfl rfl rfl rfl
  rw [updatePath] at h
  by_cases hcontent : path = "content"
  · rw [if_pos hcontent] at h
    rcases Effect.ok_of_ofExcept h with ⟨hupdate, -⟩
    rcases updateContent_ok hupdate with ⟨data, -, hmemo, hcollected⟩
    rw [hcontent]
    refine ⟨?_, ?_, fun hmem => absurd hmem (by simp), ?_, ?_, fun payload _ => ?_⟩
    · simp [hcollected]
    · simp [hcollected]
    · simp [hcollected]
    · simp [hmemo]
    · simp [hmemo, hcollected]
  rw [if_neg hcontent] at h
  by_cases hvisibility : path = "visibility"
  · rw [if_pos hvisibility] at h
    have hrun := @updatedVisibility_eq svc message st.memo db
    rw [hparent] at hrun
    cases hstored : storedVisibility message.Visibility memo.ParentUID db.memos with
    | none =>
        rw [hstored] at hrun
        rw [Effect.bind_of_error hrun] at h
        cases h
    | some visibility =>
        rw [hstored] at hrun
        rw [Effect.bind_of_ok hrun] at h
        cases h
        rw [hvisibility]
        exact ⟨by simp, by simp, by simp, by simp, by simp, fun _ hpayload => hpayload⟩
  rw [if_neg hvisibility] at h
  by_cases htime : path = "update_time"
  · rw [htime] at h ⊢
    simp only [String.reduceEq, if_false, if_true] at h
    cases h
    exact ⟨by simp, by simp, by simp, by simp, by simp, fun _ hpayload => hpayload⟩
  by_cases hlocation : path = "location"
  · rw [hlocation] at h ⊢
    simp only [String.reduceEq, if_false, if_true] at h
    cases h
    refine ⟨?_, ?_, ?_, ?_, ?_, fun payload _ => ?_⟩
    all_goals simp [updateLocation]
  -- The rest collects other fields, or nothing.
  have hother : path ∉ ["content", "visibility", "update_time", "location"] := by
    simp [hcontent, hvisibility, htime, hlocation]
  rw [if_neg htime, if_neg hlocation, if_neg hattachments, if_neg hrelations] at h
  split_ifs at h
  all_goals first
    | cases h
      exact .of_other hother rfl rfl rfl rfl rfl
    | cases h

/-- What the paths of a mask collect. -/
theorem updatePaths_collected {paths : List String} (hst : st.Of memo)
    (h : svc.updatePaths user message paths st db = (.ok st', db')) :
    Collects message svc.engine.now
      (storedVisibility message.Visibility memo.ParentUID db.memos) paths st st' := by
  induction paths generalizing st db with
  | nil =>
      cases h
      exact .refl _ _ _
  | cons path rest ih =>
      rw [updatePaths] at h
      rcases Effect.ok_of_bind h with ⟨st₁, t, hpath, hrest⟩
      rcases (updatePath_memos hst path db.memos).ok rfl hpath with ⟨hmemos, hst₁⟩
      have hcollects := ih hst₁ hrest
      rw [hmemos] at hcollects
      exact (updatePath_collected hst.parent hpath).cons hcollects

/-- What an update writes of the row of its memo. -/
structure Written (message : MemoMessage) (now : ℤ) (paths : List String) (memo : FoundMemo)
    (memos : List Memo) (row : Memo) : Prop where
  content : row.Content = if "content" ∈ paths then message.Content else memo.Content
  visibility : some row.Visibility =
    if "visibility" ∈ paths then storedVisibility message.Visibility memo.ParentUID memos
    else some memo.Visibility
  updatedTs : row.UpdatedTs =
    if "update_time" ∈ paths then message.UpdateTime.elim now Timestamp.unix else memo.UpdatedTs
  location : row.Payload.Location =
    if "location" ∈ paths then message.Location else memo.Payload.Location

theorem writeUpdate_ok {answer : MemoMessage} (h : svc.writeUpdate st db = (.ok answer, db')) :
    db' = db.updateMemo st.update := by
  have hwrite : internally "failed to update memo" (StoreEngine.updateMemo st.update) db =
      (.ok (), db.updateMemo st.update) := rfl
  rw [writeUpdate, Effect.bind_of_ok hwrite] at h
  rcases Effect.ok_of_read_bind (fun s => (StoreEngine.getMemo_keeps _).mapError _) h with
    ⟨found, -, hfound⟩
  rcases Effect.ok_of_read_bind (fun s => dereference_keeps found) hfound with ⟨memo, -, hmessage⟩
  exact Effect.eq_of_ok_of_keeps (fun s => (buildUpdatedMemoState_keeps _).mapError _) hmessage

/-- An update that succeeds has found its memo, performed its paths and written what they have
collected. -/
theorem updateMemo_ok {request : UpdateMemoRequest} {answer : MemoMessage}
    (h : svc.updateMemo request db = (.ok answer, db')) :
    ∃ message ∈ request.Memo, ∃ paths ∈ request.UpdateMask, ∃ memo user st t,
      svc.updatedMemo message db = (.ok (memo, user), db) ∧
        svc.updatePaths user message paths ⟨memo, { ID := memo.ID }⟩ db = (.ok st, t) ∧
        db' = t.updateMemo st.update := by
  cases hmemo : request.Memo with
  | none =>
      rw [updateMemo, hmemo] at h
      cases h
  | some message =>
      cases hmask : request.UpdateMask with
      | none =>
          rw [updateMemo, hmemo, dereference_some_bind, hmask] at h
          rcases Effect.ok_of_bind h with ⟨_, t, -, hfail⟩
          cases hfail
      | some paths =>
          cases paths with
          | nil =>
              rw [updateMemo, hmemo, dereference_some_bind, hmask] at h
              rcases Effect.ok_of_bind h with ⟨_, t, -, hfail⟩
              cases hfail
          | cons path paths =>
              rw [updateMemo_eq hmemo hmask] at h
              rcases Effect.ok_of_read_bind (fun s => updatedMemo_keeps message) h with
                ⟨found, hfound, hrest⟩
              rcases Effect.ok_of_bind hrest with ⟨st, t, hpaths, hwrite⟩
              exact ⟨message, rfl, path :: paths, rfl, found.1, found.2, st, t, hfound, hpaths,
                writeUpdate_ok hwrite⟩

/-- The row of the memo after an update. -/
theorem updateMemo_writes {paths : List String} {t : Tables} (hmemo : memo.toMemo ∈ db.memos)
    (hpaths : svc.updatePaths user message paths ⟨memo, { ID := memo.ID }⟩ db = (.ok st, t)) :
    st.update.assign memo.toMemo ∈ (t.updateMemo st.update).memos ∧
      Written message svc.engine.now paths memo db.memos (st.update.assign memo.toMemo) := by
  have hstart : UpdateState.Of memo ⟨memo, { ID := memo.ID }⟩ := ⟨rfl, rfl, rfl, rfl⟩
  rcases (updatePaths_memos hstart paths db.memos).ok rfl hpaths with ⟨hmemos, hst⟩
  have hcollects := updatePaths_collected hstart hpaths
  constructor
  · have hrow : st.update.onRow memo.toMemo ∈ (t.updateMemo st.update).memos := by
      rw [← hmemos] at hmemo
      exact List.mem_map_of_mem hmemo
    rw [UpdateMemo.onRow, if_pos hst.updateID.symm] at hrow
    exact hrow
  · refine ⟨?_, ?_, ?_, ?_⟩
    · rw [UpdateMemo.assign, hcollects.content]
      split <;> rfl
    · rw [UpdateMemo.assign, hcollects.visibility]
      split
      · rename_i hmem
        cases hstored : storedVisibility message.Visibility memo.ParentUID db.memos with
        | none => exact absurd hstored (hcollects.visibility_found hmem)
        | some visibility => rfl
      · rfl
    · rw [UpdateMemo.assign, hcollects.updatedTs]
      split <;> rfl
    · exact (hcollects.payload memo.Payload rfl).trans hcollects.location

end MemoService

end Api
end MemosNote
