import MemosNote.Api.MemoWrites
import MemosNote.Library.Run

/-!
# The payload of a memo and its content

The tags and the properties of a memo are derived from its content.  Updates of the content write
both; updates of the location and the rebuild of payloads write the payload of the row that they
have read, with the tags and the properties of the content of that time.

Main results:

- Theorem {lit}`updatePaths_eq_collect`: an update of content and location is read, then written.
- Theorem {lit}`createMemo_derived`: a new memo has the payload of its content.
- Theorem {lit}`payload_derived`: the payload stays derived while no payload of another content
  is written.
-/

namespace MemosNote
namespace Api

open Library Store

/-- The paths of a mask that write the content or the payload. -/
inductive PayloadPath where
  | content
  | location
deriving DecidableEq, Repr

def PayloadPath.text : PayloadPath → String
  | content => "content"
  | location => "location"

namespace MemoService

variable (svc : MemoService)

/-- What the paths collect, from the row that was read. -/
def collect (message : MemoMessage) : List PayloadPath → UpdateState →
    Except Failure UpdateState
  | [], st => .ok st
  | .content :: paths, st =>
      match svc.updateContent message st with
      | .error failure => .error failure
      | .ok st' => collect message paths st'
  | .location :: paths, st => collect message paths (updateLocation message st)

variable {svc}

/-- An update of content and location reads nothing but its row before it writes. -/
theorem updatePaths_eq_collect (user : User) (message : MemoMessage) (paths : List PayloadPath)
    (st : UpdateState) :
    svc.updatePaths user message (paths.map PayloadPath.text) st =
      Effect.ofExcept (svc.collect message paths st) := by
  induction paths generalizing st with
  | nil => rfl
  | cons path paths ih =>
      cases path with
      | content =>
          have hpath : svc.updatePath user message "content" st =
              Effect.ofExcept (svc.updateContent message st) := if_pos rfl
          rw [List.map_cons, updatePaths, PayloadPath.text, hpath, collect]
          cases hcontent : svc.updateContent message st with
          | error failure => rfl
          | ok st' => exact ih st'
      | location =>
          have hpath : svc.updatePath user message "location" st =
              pure (updateLocation message st) := by
            simp [updatePath]
          rw [List.map_cons, updatePaths, PayloadPath.text, hpath, collect]
          exact ih (updateLocation message st)

end MemoService

/-! ## Derived payloads -/

/-- The tags and the properties of a memo are those of its content. -/
def Derived (extractAll : String → Except String ExtractedData) (memo : Memo) : Prop :=
  ∃ data, extractAll memo.Content = .ok data ∧ memo.Payload.Tags = data.Tags ∧
    memo.Payload.Property = data.Property

/-- Two contents have the same tags and the same properties. -/
def SameMetadata (extractAll : String → Except String ExtractedData) (content content' : String) :
    Prop :=
  ∀ data data', extractAll content = .ok data → extractAll content' = .ok data' →
    data.Tags = data'.Tags ∧ data.Property = data'.Property

theorem SameMetadata.refl {extractAll : String → Except String ExtractedData} (content : String) :
    SameMetadata extractAll content content := by
  intro data data' hdata hdata'
  obtain rfl := Except.ok.inj (hdata.symm.trans hdata')
  exact ⟨rfl, rfl⟩

/-- What an update has collected from a row: a payload derived from the content that it writes,
or that it has read. -/
structure DerivedUpdate (extractAll : String → Except String ExtractedData) (content : String)
    (st : MemoService.UpdateState) : Prop where
  derived : Derived extractAll st.memo.toMemo
  content : st.memo.Content = st.update.Content.getD content
  payload : ∀ payload ∈ st.update.Payload, payload = st.memo.Payload
  written : st.update.Payload = none → st.update.Content = none

section

variable {svc : MemoService}

private theorem collect_derived {message : MemoMessage} {paths : List PayloadPath}
    {content : String}
    {st st' : MemoService.UpdateState} (hst : DerivedUpdate svc.extractAll content st)
    (h : svc.collect message paths st = .ok st') : DerivedUpdate svc.extractAll content st' := by
  induction paths generalizing st with
  | nil =>
      obtain rfl := Except.ok.inj h
      exact hst
  | cons path paths ih =>
      cases path with
      | content =>
          rw [MemoService.collect] at h
          cases hcontent : svc.updateContent message st with
          | error failure =>
              rw [hcontent] at h
              cases h
          | ok next =>
              rw [hcontent] at h
              refine ih ?_ h
              obtain ⟨data, hdata, hmemo, hupdate⟩ := MemoService.updateContent_ok hcontent
              constructor
              · rw [hmemo]
                exact ⟨data, hdata, rfl, rfl⟩
              · rw [hmemo, hupdate]
                rfl
              · rw [hmemo, hupdate]
                rintro _ ⟨⟩
                rfl
              · rw [hupdate]
                intro hnone
                cases hnone
      | location =>
          refine ih ?_ h
          constructor
          · exact hst.derived
          · exact hst.content
          · rintro _ ⟨⟩
            rfl
          · intro hnone
            cases hnone

/-- A new memo has the payload of its content. -/
theorem createMemo_derived {request : MemoService.CreateMemoRequest} {db db' : Tables} {memo : Memo}
    (h : svc.createMemo request db = (.ok memo, db')) : Derived svc.extractAll memo := by
  rw [MemoService.createMemo] at h
  obtain ⟨user, t1, huser, h1⟩ := Effect.ok_of_bind h
  obtain ⟨memoUID, t2, huid, h2⟩ := Effect.ok_of_bind h1
  obtain ⟨message, t3, hmessage, h3⟩ := Effect.ok_of_bind h2
  obtain ⟨_, t4, hlimit, h4⟩ := Effect.ok_of_bind h3
  obtain ⟨payload, t5, hpayload, h5⟩ := Effect.ok_of_bind h4
  obtain ⟨created, t6, hcreate, h6⟩ := Effect.ok_of_bind h5
  obtain ⟨_, t7, hfinish, h7⟩ := Effect.ok_of_bind h6
  obtain rfl := Except.ok.inj (Prod.mk.inj h7).1
  have hrebuilt := (Effect.ok_of_ofExcept hpayload).1
  rw [MemoService.rebuildMemoPayload] at hrebuilt
  cases hdata : svc.extractAll message.Content with
  | error err =>
      rw [hdata] at hrebuilt
      cases hrebuilt
  | ok data =>
      rw [hdata] at hrebuilt
      obtain rfl := Except.ok.inj hrebuilt
      obtain rfl := StoreEngine.createMemo_ok (Effect.ok_of_mapError hcreate)
      exact ⟨data, hdata, rfl, rfl⟩

end

/-! ## Operations in flight -/

/-- An operation that has read its row: the content it read and the update it is to write. -/
structure Pending where
  content : String
  update : UpdateMemo
deriving DecidableEq, Repr

/-- An operation on the payload of a memo: a request to update its content or its location, or
the rebuild of its payload. -/
inductive PayloadOperation where
  | update (svc : MemoService) (message : MemoMessage) (paths : List PayloadPath)
  | rebuild (svc : MemoService)

namespace PayloadOperation

variable (extractAll : String → Except String ExtractedData)

/-- What an operation is to write, if anything, from the row that it reads.  All operations
extract the same from a content. -/
def read (row : Memo) : PayloadOperation → Option Pending
  | update svc message paths =>
      match { svc with extractAll := extractAll }.collect message paths
          ⟨⟨row, none⟩, { ID := row.ID }⟩ with
      | .error _ => none
      | .ok st => some ⟨row.Content, st.update⟩
  | rebuild svc =>
      match { svc with extractAll := extractAll }.rebuildMemoPayload row with
      | .error _ => none
      | .ok payload => some ⟨row.Content, { ID := row.ID, Payload := some payload }⟩

end PayloadOperation

/-- The row of a memo and the operations on it that have not written yet. -/
structure PayloadState where
  row : Memo
  pending : List Pending
deriving DecidableEq, Repr

inductive PayloadStep where
  | read (operation : PayloadOperation)
  | write (n : ℕ)

section

variable (extractAll : String → Except String ExtractedData)

/-- An operation reads the row, or one that has read it writes it. -/
def payloadStep (s : PayloadState) : PayloadStep → Option PayloadState
  | .read operation =>
      match operation.read extractAll s.row with
      | none => some s
      | some p => some { s with pending := s.pending ++ [p] }
  | .write n =>
      match s.pending[n]? with
      | none => none
      | some p => some { row := p.update.assign s.row, pending := s.pending.eraseIdx n }

/-- A payload that is written without a content is of the stored content, or of one with the same
tags and properties. -/
def PayloadFresh (s : PayloadState) : PayloadStep → Prop
  | .read _ => True
  | .write n => ∀ p ∈ s.pending[n]?, p.update.Content = none →
      SameMetadata extractAll p.content s.row.Content

/-- A pending payload is derived from the content that is written with it, or was read. -/
def PendingDerived (p : Pending) : Prop :=
  match p.update.Payload with
  | none => p.update.Content = none
  | some payload => ∃ data, extractAll (p.update.Content.getD p.content) = .ok data ∧
      payload.Tags = data.Tags ∧ payload.Property = data.Property

/-- The stored payload and all pending ones are derived. -/
structure AllDerived (s : PayloadState) : Prop where
  row : Derived extractAll s.row
  pending : ∀ p ∈ s.pending, PendingDerived extractAll p

end

section

variable {extractAll : String → Except String ExtractedData}

private theorem read_derived {row : Memo} (hrow : Derived extractAll row)
    {operation : PayloadOperation}
    {p : Pending} (h : operation.read extractAll row = some p) : PendingDerived extractAll p := by
  cases operation with
  | update svc message paths =>
      rw [PayloadOperation.read] at h
      split at h
      · cases h
      · rename_i st hst
        obtain rfl := Option.some.inj h
        have hstart : DerivedUpdate { svc with extractAll := extractAll }.extractAll row.Content
            ⟨⟨row, none⟩, { ID := row.ID }⟩ :=
          ⟨hrow, rfl, fun _ hnone => (Option.not_mem_none _ hnone).elim, fun _ => rfl⟩
        have hend := collect_derived hstart hst
        rw [PendingDerived]
        cases hpayload : st.update.Payload with
        | none => exact hend.written hpayload
        | some payload =>
            obtain ⟨data, hdata, htags, hproperty⟩ := hend.derived
            rw [hend.content] at hdata
            rw [hend.payload payload hpayload]
            exact ⟨data, hdata, htags, hproperty⟩
  | rebuild svc =>
      rw [PayloadOperation.read] at h
      split at h
      · cases h
      · rename_i payload hpayload
        obtain rfl := Option.some.inj h
        rw [MemoService.rebuildMemoPayload] at hpayload
        split at hpayload
        · cases hpayload
        · rename_i data hdata
          obtain rfl := Except.ok.inj hpayload
          exact ⟨data, hdata, rfl, rfl⟩

/-- A write of a fresh payload leaves a derived payload. -/
theorem assign_derived {row : Memo} (hrow : Derived extractAll row) {p : Pending}
    (hp : PendingDerived extractAll p)
    (hfresh : p.update.Content = none → SameMetadata extractAll p.content row.Content) :
    Derived extractAll (p.update.assign row) := by
  rw [PendingDerived] at hp
  cases hpayload : p.update.Payload with
  | none =>
      rw [hpayload] at hp
      obtain ⟨data, hdata, htags, hproperty⟩ := hrow
      refine ⟨data, ?_, ?_, ?_⟩
      · rw [UpdateMemo.assign, hp]
        exact hdata
      · rw [UpdateMemo.assign, hpayload]
        exact htags
      · rw [UpdateMemo.assign, hpayload]
        exact hproperty
  | some payload =>
      rw [hpayload] at hp
      obtain ⟨data, hdata, htags, hproperty⟩ := hp
      cases hcontent : p.update.Content with
      | none =>
          rw [hcontent] at hdata
          obtain ⟨stored, hstored, -⟩ := hrow
          have hsame := hfresh hcontent data stored hdata hstored
          refine ⟨stored, ?_, ?_, ?_⟩
          · rw [UpdateMemo.assign, hcontent]
            exact hstored
          · rw [UpdateMemo.assign, hpayload]
            exact htags.trans hsame.1
          · rw [UpdateMemo.assign, hpayload]
            exact hproperty.trans hsame.2
      | some content =>
          rw [hcontent] at hdata
          refine ⟨data, ?_, ?_, ?_⟩
          · rw [UpdateMemo.assign, hcontent]
            exact hdata
          · rw [UpdateMemo.assign, hpayload]
            exact htags
          · rw [UpdateMemo.assign, hpayload]
            exact hproperty

private theorem payloadStep_derived {s s' : PayloadState} {step : PayloadStep}
    (hs : AllDerived extractAll s) (hfresh : PayloadFresh extractAll s step)
    (h : payloadStep extractAll s step = some s') : AllDerived extractAll s' := by
  cases step with
  | read operation =>
      rw [payloadStep] at h
      split at h
      · obtain rfl := Option.some.inj h
        exact hs
      · rename_i p hread
        obtain rfl := Option.some.inj h
        refine ⟨hs.row, fun q hq => ?_⟩
        rcases List.mem_append.mp hq with hq | hq
        · exact hs.pending q hq
        · rw [List.mem_singleton.mp hq]
          exact read_derived hs.row hread
  | write n =>
      rw [payloadStep] at h
      split at h
      · cases h
      · rename_i p hp
        obtain rfl := Option.some.inj h
        refine ⟨?_, fun q hq => hs.pending q (List.mem_of_mem_eraseIdx hq)⟩
        exact assign_derived hs.row (hs.pending p (List.mem_of_getElem? hp)) (hfresh p hp)

/-- In every run of requests and rebuilds in which no payload of another content is written
without its content, the tags and the properties of the memo are those of its content. -/
theorem payload_derived {s s' : PayloadState} {steps : List PayloadStep}
    (hrow : Derived extractAll s.row) (hidle : s.pending = [])
    (hrun : Run (payloadStep extractAll) (PayloadFresh extractAll) s steps s') :
    Derived extractAll s'.row := by
  have hstart : AllDerived extractAll s :=
    ⟨hrow, fun p hp => by
      rw [hidle] at hp
      exact (List.not_mem_nil hp).elim⟩
  exact (hrun.invariant (fun _ _ _ hs hfresh hstep => payloadStep_derived hs hfresh hstep)
    hstart).row

end

/-- The tag of one content. -/
def tagOfWork (content : String) : Except String ExtractedData :=
  .ok ⟨if content = "#work" then ["work"] else [], [], some {}⟩

/-- A memo without tags. -/
def untagged : PayloadState where
  row := { ID := 1, UID := "m", CreatorID := 1, Payload := { Property := some {} } }
  pending := []

/-- An update of the content, and one of the location. -/
def contentOperation : PayloadOperation :=
  .update .plain { Content := "#work" } [.content]

def locationOperation : PayloadOperation :=
  .update .plain { Location := some ⟨"home", 0, 0⟩ } [.location]

/-- The memo with the payload of its new content. -/
def tagged : Memo :=
  { untagged.row with
    Content := "#work"
    Payload := { Property := some {}, Tags := ["work"], Location := some ⟨"home", 0, 0⟩ } }

theorem payload_derived_example : Derived tagOfWork tagged := by
  refine @payload_derived tagOfWork untagged ⟨tagged, []⟩
    [.read contentOperation, .write 0, .read locationOperation, .write 0]
    ⟨⟨[], [], some {}⟩, rfl, rfl, rfl⟩ rfl
    (.cons trivial rfl (.cons ?_ rfl (.cons trivial rfl (.cons ?_ rfl (.nil _)))))
  · rintro p ⟨⟩ hnone
    cases hnone
  · rintro p ⟨⟩ -
    exact SameMetadata.refl "#work"

/-- Both operations read the memo; the update of the location writes last, with the tags of the
content before. -/
theorem payload_of_another_content :
    FreeRun (payloadStep tagOfWork) untagged
      [.read locationOperation, .read contentOperation, .write 1, .write 0]
      ⟨{ tagged with Payload := { tagged.Payload with Tags := [] } }, []⟩ ∧
    ¬ Derived tagOfWork { tagged with Payload := { tagged.Payload with Tags := [] } } := by
  refine ⟨.cons trivial rfl (.cons trivial rfl (.cons trivial rfl (.cons trivial rfl (.nil _)))), ?_⟩
  rintro ⟨data, hdata, htags, -⟩
  obtain rfl := Except.ok.inj hdata
  simp [tagged] at htags

end Api
end MemosNote
