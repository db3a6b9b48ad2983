import Mathlib.Data.List.Chain
import MemosNote.Api.LinkRepetition

/-!
# Attachments in the order of a request

The order of the attachments of a memo is kept in their times.  A request reads the clock once for
each attachment, and the list of the attachments is sorted by time and cut.

Main results:

- Theorem {lit}`perm_of_links`: the attachments of a memo that has what is requested.
- Theorem {lit}`set_attachments_establishes_iff`: exactly when these are the attachments of the
  request, in its order.
-/

namespace MemosNote
namespace Api

open Library Store

/-! ## Sorting by time -/

/-- Rows of different times are sorted in one way. -/
theorem sort_eq_of_lt (order : AttachmentOrder) {rows list : List Attachment}
    (hperm : rows.Perm list) (hlist : list.Pairwise fun a b => b.UpdatedTs < a.UpdatedTs) :
    order.sort rows = list := by
  have hapart : ∀ a ∈ list, ∀ b ∈ list,
      b.UpdatedTs < a.UpdatedTs ∨ a.UpdatedTs < b.UpdatedTs ∨ a = b := by
    intro a ha b hb
    rw [List.pairwise_iff_getElem] at hlist
    rcases List.getElem_of_mem ha with ⟨i, hi, rfl⟩
    rcases List.getElem_of_mem hb with ⟨j, hj, rfl⟩
    rcases Nat.lt_trichotomy i j with h | h | h
    · exact .inl (hlist i j hi hj h)
    · subst h
      exact .inr (.inr rfl)
    · exact .inr (.inl (hlist j i hj hi h))
  have hsorted := (order.perm rows).trans hperm
  refine List.Perm.eq_of_pairwise ?_ (order.sorted rows) (hlist.imp fun h => le_of_lt h) hsorted
  intro a b ha hb hle hle'
  rcases hapart a (hsorted.mem_iff.mp ha) b hb with h | h | h
  · omega
  · omega
  · exact h

/-- A list in which two neighbours have changed places. -/
theorem pairwise_swap {before after : List Attachment} {a b : Attachment}
    (h : (before ++ a :: b :: after).Pairwise fun a b => b.UpdatedTs ≤ a.UpdatedTs)
    (hab : a.UpdatedTs ≤ b.UpdatedTs) :
    (before ++ b :: a :: after).Pairwise fun a b => b.UpdatedTs ≤ a.UpdatedTs := by
  rcases List.pairwise_append.mp h with ⟨hbefore, hrest, hacross⟩
  rcases List.pairwise_cons.mp hrest with ⟨ha, hrest⟩
  rcases List.pairwise_cons.mp hrest with ⟨hb, hafter⟩
  refine List.pairwise_append.mpr ⟨hbefore, ?_, fun c hc d hd => hacross c hc d ?_⟩
  · refine List.pairwise_cons.mpr ⟨fun c hc => ?_, List.pairwise_cons.mpr ⟨?_, hafter⟩⟩
    · rcases List.mem_cons.mp hc with rfl | hc
      · exact hab
      · exact hb c hc
    · exact fun c hc => ha c (List.mem_cons_of_mem b hc)
  · exact (List.Perm.swap a b after).mem_iff.mp hd

/-- Rows come back as a list in every order of the database exactly when their times decrease. -/
theorem sort_eq_iff {rows list : List Attachment} (hperm : rows.Perm list) (hnodup : list.Nodup) :
    (∀ order : AttachmentOrder, order.sort rows = list) ↔
      list.IsChain fun a b => b.UpdatedTs < a.UpdatedTs := by
  constructor
  · intro h
    rw [List.isChain_iff_forall_rel_of_append_cons_cons]
    intro a b before after hsplit
    have hsorted := AttachmentOrder.stored.sorted rows
    rw [h, hsplit] at hsorted
    by_contra hnot
    -- Neighbours of one time may change places.
    have hswap := pairwise_swap hsorted (by omega)
    have hperm' : rows.Perm (before ++ b :: a :: after) := by
      rw [hsplit] at hperm
      exact hperm.trans ((List.Perm.swap b a after).append_left before)
    have hother : (orderOfList _ hswap).sort rows = before ++ b :: a :: after := if_pos hperm'
    have hsame := List.append_cancel_left (hother.symm.trans ((h _).trans hsplit))
    rw [hsplit] at hnodup
    have hdistinct := (List.nodup_cons.mp (List.nodup_append.mp hnodup).2.1).1
    rw [List.cons.injEq] at hsame
    exact hdistinct (hsame.1 ▸ List.mem_cons_self)
  · intro h order
    have htrans : Trans (fun a b : Attachment => b.UpdatedTs < a.UpdatedTs)
        (fun a b : Attachment => b.UpdatedTs < a.UpdatedTs)
        (fun a b : Attachment => b.UpdatedTs < a.UpdatedTs) := ⟨fun h h' => lt_trans h' h⟩
    exact sort_eq_of_lt order hperm (List.isChain_iff_pairwise.mp h)

namespace MemoService

variable (svc : MemoService)

/-- A request that sets attachments, with readings of the clock. -/
def setMemoAttachmentsAt (clock : ℕ → ℤ) (request : SetMemoAttachmentsRequest) : ApiM Unit :=
  (svc.withClock clock).setMemoAttachments request

/-- Private memos are for their creators and administrators, protected ones for all users. -/
def checkAttachmentsAccess (memo : Memo) : Except Failure Unit :=
  if memo.Visibility = .Public then .ok ()
  else
    match svc.fetchCurrentUser with
    | .error err => .error (.status .Internal ("failed to get user: " ++ err))
    | .ok none => .error (.status .Unauthenticated "user not authenticated")
    | .ok (some user) =>
        if memo.Visibility = .Private ∧ memo.CreatorID ≠ user.ID ∧ !isSuperUser user then
          .error (.status .PermissionDenied "permission denied")
        else .ok ()

def listMemoAttachments (name : String) : ApiM (List AttachmentMessage) := do
  let memo ← svc.requireMemo name fun err => .status .Internal ("failed to get memo: " ++ err)
  Effect.ofExcept (svc.checkAttachmentsAccess memo.toMemo)
  let attachments ← withStatus .Internal (fun err => "failed to list attachments: " ++ err)
    (svc.engine.listAttachments { MemoID := some memo.ID })
  Effect.read fun db => attachments.map (convertAttachmentFromStore db)

variable {svc} {memoID : ℤ} {db : Tables}

/-! ## What is listed after a request -/

variable {db' : Tables}

/-- A user who may change a memo may list its attachments. -/
theorem listMemoAttachments_eq {name : String} {user : User} {memo : FoundMemo} {t : Tables}
    (hmemos : SameMemos db db') (hfound : svc.memoForLinks name db = (.ok (user, memo), t))
    (now : ℤ) (order : AttachmentOrder) :
    (svc.later now order).listMemoAttachments name db' =
      (.ok (((order.sort (attachmentsOf memo.ID db')).take 100).map
        (convertAttachmentFromStore db')), db') := by
  rcases memoForLinks_ok hfound with ⟨-, huser, hname, hmem, hmodify⟩
  rcases @SameMemos.requireMemo svc now order db db' hmemos name memo.toMemo hmem hname
    (fun err => .status .Internal ("failed to get memo: " ++ err)) with
    ⟨found, time, hrequire, hrow, -⟩
  have hid : found.ID = memo.ID := by rw [hrow]
  have hcreator : found.CreatorID = memo.CreatorID := by rw [hrow]
  have hfetch : (svc.later now order).fetchCurrentUser = .ok (some user) := by
    have hsame : (svc.later now order).fetchCurrentUser = svc.fetchCurrentUser := rfl
    rw [linkingUser] at huser
    rw [hsame]
    cases hcurrent : svc.fetchCurrentUser with
    | error err =>
        rw [hcurrent] at huser
        cases huser
    | ok current =>
        rw [hcurrent] at huser
        cases current with
        | none => cases huser
        | some user' =>
            cases huser
            rfl
  have haccess : (svc.later now order).checkAttachmentsAccess found.toMemo = .ok () := by
    rw [checkAttachmentsAccess, hfetch]
    by_cases hpublic : found.Visibility = .Public
    · rw [if_pos hpublic]
    · rw [if_neg hpublic]
      refine if_neg ?_
      rintro ⟨-, hother, hordinary⟩
      rw [hcreator] at hother
      simp only [canModifyMemo, Bool.or_eq_true, decide_eq_true_eq] at hmodify
      rcases hmodify with hown | hsuper
      · exact hother hown
      · simp [hsuper] at hordinary
  have hlist : withStatus .Internal (fun err => "failed to list attachments: " ++ err)
      ((svc.later now order).engine.listAttachments { MemoID := some found.ID }) db' =
        (.ok ((order.sort (attachmentsOf memo.ID db')).take 100), db') := by
    rw [withStatus, Effect.mapError, StoreEngine.listAttachments_memo, hid]
    rfl
  rw [listMemoAttachments, Effect.bind_of_ok hrequire, haccess, Effect.ofExcept, Effect.pure_bind,
    Effect.bind_of_ok hlist]
  rfl

/-! ## Requests that are established -/

/-- The memo has the attachments of a list, and they are listed in its order at any later time, in
whichever order the database returns attachments of one time. -/
structure Establishes (svc : MemoService) (name : String) (memoID : ℤ)
    (normalized : List Attachment) (db' : Tables) : Prop where
  links : ∀ id, id ∈ (attachmentsOf memoID db').map Attachment.ID ↔
    id ∈ normalized.map Attachment.ID
  listing : ∀ now order, ∃ list,
    (svc.later now order).listMemoAttachments name db' = (.ok list, db') ∧
      list.map AttachmentMessage.Name = normalized.map fun a => attachmentNamePrefix ++ a.UID

/-- Lists with the same images are equal where the map is injective. -/
theorem eq_of_map_eq {α β : Type} {g : α → β} {list list' : List α}
    (h : list.map g = list'.map g) (hinj : ∀ a ∈ list, ∀ b ∈ list', g a = g b → a = b) :
    list = list' := by
  induction list generalizing list' with
  | nil => exact (List.map_eq_nil_iff.mp h.symm).symm
  | cons a list ih =>
      cases list' with
      | nil => cases h
      | cons b list' =>
          rw [List.map_cons, List.map_cons, List.cons.injEq] at h
          rw [hinj a List.mem_cons_self b List.mem_cons_self h.1, ih h.2 fun c hc d hd =>
            hinj c (List.mem_cons_of_mem a hc) d (List.mem_cons_of_mem b hd)]

section

variable {normalized : List Attachment}

/-- The times of a request decrease along it exactly when the clock does not go back. -/
theorem isChain_linkRow_iff (hnodup : (normalized.map Attachment.ID).Nodup) :
    ((normalized.map (linkRow svc.linkTime memoID (normalized.map Attachment.ID))).IsChain
      fun a b => b.UpdatedTs < a.UpdatedTs) ↔
      ∀ i, i + 1 < normalized.length →
        svc.engine.linkClock i ≤ svc.engine.linkClock (i + 1) := by
  rw [List.isChain_map, ← List.isChain_reverse, List.isChain_iff_getElem]
  constructor
  · intro h i hi
    have hlt := h i (by rw [List.length_reverse]; exact hi)
    rw [updatedTs_linkRow hnodup, updatedTs_linkRow hnodup] at hlt
    simp only [linkTime] at hlt
    omega
  · intro h i hi
    rw [updatedTs_linkRow hnodup, updatedTs_linkRow hnodup]
    have hle := h i (by rw [List.length_reverse] at hi; exact hi)
    simp only [linkTime]
    omega

/-- A memo has what is requested exactly when all that was not listed is requested. -/
theorem links_iff (hmem : ∀ a ∈ normalized, a ∈ db.attachments)
    (hnodup : (normalized.map Attachment.ID).Nodup) :
    (∀ id, id ∈ (attachmentsOf memoID (svc.withAttachments memoID db normalized)).map
      Attachment.ID ↔ id ∈ normalized.map Attachment.ID) ↔
      ∀ a ∈ attachmentsOf memoID db, a ∉ svc.engine.listedAttachments db memoID →
        a ∈ normalized := by
  have hafter := @mem_attachmentsOf_withAttachments svc memoID db normalized hmem hnodup
  constructor
  · intro h a ha hunlisted
    rcases mem_attachmentsOf.mp ha with ⟨harow, hlinked⟩
    rw [← mem_of_mem_ids hmem harow, ← h]
    exact List.mem_map.mpr ⟨_, hafter.mpr ⟨a, harow, fun hlisted => absurd hlisted hunlisted,
      .inr hlinked, rfl⟩, linkRow_ID⟩
  · intro h id
    constructor
    · intro hid
      rcases List.mem_map.mp hid with ⟨c, hc, rfl⟩
      rcases hafter.mp hc with ⟨a, ha, hkept, hlinked, rfl⟩
      rw [linkRow_ID, mem_of_mem_ids hmem ha]
      rcases hlinked with hrequested | hlinked
      · exact hrequested
      · by_cases hlisted : a ∈ svc.engine.listedAttachments db memoID
        · exact hkept hlisted
        · exact h a (mem_attachmentsOf.mpr ⟨ha, hlinked⟩) hlisted
    · intro hid
      rcases List.mem_map.mp hid with ⟨a, ha, rfl⟩
      exact List.mem_map.mpr ⟨_, hafter.mpr ⟨a, hmem a ha, fun _ => ha, .inl ha, rfl⟩, linkRow_ID⟩

/-- The attachments of a memo that has what is requested are those of the request. -/
theorem perm_of_links (hmem : ∀ a ∈ normalized, a ∈ db.attachments)
    (hnodup : (normalized.map Attachment.ID).Nodup)
    (h : ∀ a ∈ attachmentsOf memoID db, a ∉ svc.engine.listedAttachments db memoID →
      a ∈ normalized) :
    (attachmentsOf memoID (svc.withAttachments memoID db normalized)).Perm
      (normalized.map (linkRow svc.linkTime memoID (normalized.map Attachment.ID))) := by
  have hafter := @mem_attachmentsOf_withAttachments svc memoID db normalized hmem hnodup
  have hids : ((normalized.map (linkRow svc.linkTime memoID (normalized.map Attachment.ID))).map
      Attachment.ID).Nodup := by
    have hsame : (normalized.map (linkRow svc.linkTime memoID (normalized.map Attachment.ID))).map
        Attachment.ID = normalized.map Attachment.ID := by
      rw [List.map_map]
      exact List.map_congr_left fun a _ => linkRow_ID
    rw [hsame]
    exact hnodup
  have hrows := (svc.withAttachments memoID db normalized).attachmentIDs_nodup
  have hattached : (attachmentsOf memoID
      (svc.withAttachments memoID db normalized)).Nodup := hrows.of_map.filter _
  refine (List.perm_ext_iff_of_nodup hattached hids.of_map).mpr fun c => ?_
  rw [hafter, List.mem_map]
  constructor
  · intro hc
    rcases hc with ⟨a, ha, hkept, hlinked, rfl⟩
    refine ⟨a, ?_, rfl⟩
    rcases hlinked with hrequested | hlinked
    · exact hrequested
    · by_cases hlisted : a ∈ svc.engine.listedAttachments db memoID
      · exact hkept hlisted
      · exact h a (mem_attachmentsOf.mpr ⟨ha, hlinked⟩) hlisted
  · intro hc
    rcases hc with ⟨a, ha, rfl⟩
    exact ⟨a, hmem a ha, fun _ => ha, .inl ha, rfl⟩

end

/-- The attachments that a request gives a memo, in the order of the request. -/
def normalizedRequest (svc : MemoService) (memoID : ℤ) (db : Tables)
    (request : SetMemoAttachmentsRequest) : List Attachment :=
  normalizeAttachments (svc.engine.listedAttachments db memoID)
    (svc.requestedRows db request.Attachments)

/-- What is asked of the state, the request and the clock: attachments that are not among the first
hundred are requested, at most a hundred are, and the clock does not go back. -/
structure Establishable (svc : MemoService) (clock : ℕ → ℤ) (memoID : ℤ) (db : Tables)
    (request : SetMemoAttachmentsRequest) : Prop where
  unlisted : ∀ a ∈ attachmentsOf memoID db, a ∉ svc.engine.listedAttachments db memoID →
    a ∈ svc.normalizedRequest memoID db request
  few : (svc.normalizedRequest memoID db request).length ≤ 100
  forward : ∀ i, i + 1 < (svc.normalizedRequest memoID db request).length →
    clock i ≤ clock (i + 1)

/-- A list is returned in its order at every later time exactly when it is short and its times
decrease. -/
theorem listing_iff {name : String} {user : User} {memo : FoundMemo} {t : Tables}
    (hmemos : SameMemos db db') (hfound : svc.memoForLinks name db = (.ok (user, memo), t))
    {list normalized : List Attachment} (hperm : (attachmentsOf memo.ID db').Perm list)
    (huid : list.map Attachment.UID = normalized.map Attachment.UID) :
    (∀ now order, ∃ messages,
      (svc.later now order).listMemoAttachments name db' = (.ok messages, db') ∧
        messages.map AttachmentMessage.Name =
          normalized.map fun a => attachmentNamePrefix ++ a.UID) ↔
      normalized.length ≤ 100 ∧ list.IsChain fun a b => b.UpdatedTs < a.UpdatedTs := by
  have hlength : list.length = normalized.length := by
    have hboth := congrArg List.length huid
    rw [List.length_map, List.length_map] at hboth
    exact hboth
  have hnames : ∀ rows : List Attachment,
      (rows.map (convertAttachmentFromStore db')).map AttachmentMessage.Name =
        (rows.map Attachment.UID).map (attachmentNamePrefix ++ ·) := by
    intro rows
    rw [List.map_map, List.map_map]
    rfl
  have hnormalized : (normalized.map fun a => attachmentNamePrefix ++ a.UID) =
      (list.map Attachment.UID).map (attachmentNamePrefix ++ ·) := by
    rw [huid, List.map_map]
    rfl
  have hrows : ∀ a ∈ list, a ∈ db'.attachments :=
    fun a ha => (mem_attachmentsOf.mp (hperm.mem_iff.mpr ha)).1
  have hnodup : list.Nodup := hperm.nodup_iff.mp (db'.attachmentIDs_nodup.of_map.filter _)
  constructor
  · intro h
    have hlisted : ∀ order : AttachmentOrder,
        ((order.sort (attachmentsOf memo.ID db')).take 100).map Attachment.UID =
          list.map Attachment.UID := by
      intro order
      rcases h svc.engine.now order with ⟨messages, hrun, hmessages⟩
      rw [listMemoAttachments_eq hmemos hfound] at hrun
      cases hrun
      rw [hnames, hnormalized] at hmessages
      refine eq_of_map_eq hmessages fun _ _ _ _ hsame => ?_
      exact (String.append_right_inj attachmentNamePrefix).mp hsame
    have hfew : list.length ≤ 100 := by
      have hcut := congrArg List.length (hlisted .stored)
      rw [List.length_map, List.length_map, List.length_take] at hcut
      omega
    refine ⟨by omega, (sort_eq_iff hperm hnodup).mp fun order => ?_⟩
    have hsorted := (order.perm (attachmentsOf memo.ID db')).trans hperm
    have hwhole := hlisted order
    rw [List.take_of_length_le (by rw [hsorted.length_eq]; exact hfew)] at hwhole
    refine eq_of_map_eq hwhole fun a ha b hb hsame => ?_
    exact db'.eq_of_attachmentUID_eq (hrows a (hsorted.mem_iff.mp ha)) (hrows b hb) hsame
  · intro h now order
    rcases h with ⟨hfew, hchain⟩
    refine ⟨_, listMemoAttachments_eq hmemos hfound now order, ?_⟩
    rw [(sort_eq_iff hperm hnodup).mpr hchain, List.take_of_length_le (by omega), hnames,
      hnormalized]

/-- What a completed request has done, and when it is established. -/
theorem establishes_iff {request : SetMemoAttachmentsRequest} {memo : Memo}
    (hmemo : memo ∈ db.memos)
    (hname : svc.extractMemoUIDFromName request.Name = .ok memo.UID)
    (h : svc.setMemoAttachments request db = (.ok (), db')) :
    svc.Establishes request.Name memo.ID (svc.normalizedRequest memo.ID db request) db' ↔
      svc.Establishable svc.engine.linkClock memo.ID db request := by
  rcases setMemoAttachments_ok h with
    ⟨user, found, hfound, hfoundMem, hfoundName, -, hdb', -⟩
  have hsame : found.toMemo = memo :=
    db.eq_of_memoUID_eq hfoundMem hmemo (Except.ok.inj (hfoundName.symm.trans hname))
  have hid : found.ID = memo.ID := by rw [hsame]
  have hrows : ∀ a ∈ svc.requestedRows db request.Attachments, a ∈ db.attachments :=
    fun a ha => mem_of_mem_requestedRows ha
  have hmem : ∀ a ∈ svc.normalizedRequest memo.ID db request, a ∈ db.attachments :=
    fun a ha => hrows a ((mem_normalizeAttachments_of_rows hrows).mp ha).1
  have hnodup : ((svc.normalizedRequest memo.ID db request).map Attachment.ID).Nodup :=
    nodup_ids_of_rows hrows _
  rw [hid, tablesAfter, ← normalizedRequest] at hdb'
  have hattachments : attachmentsOf memo.ID db' = attachmentsOf memo.ID
      (svc.withAttachments memo.ID db (svc.normalizedRequest memo.ID db request)) := by
    rw [hdb']
    rfl
  have hmemos : SameMemos db db' := by
    rw [hdb']
    exact (sameButTimes_tablesAfter svc _ _ _).memos.trans (SameMemos.touch _ _ _)
  have huid : ((svc.normalizedRequest memo.ID db request).map (linkRow svc.linkTime memo.ID
      ((svc.normalizedRequest memo.ID db request).map Attachment.ID))).map Attachment.UID =
        (svc.normalizedRequest memo.ID db request).map Attachment.UID := by
    rw [List.map_map]
    exact List.map_congr_left fun a _ => linkRow_UID
  have hlisting : ∀ hperm : (attachmentsOf found.ID db').Perm _, _ ↔ _ :=
    fun hperm => @listing_iff svc db db' _ _ _ _ hmemos hfound _ _ hperm huid
  constructor
  · intro hestablished
    have hunlisted := (links_iff hmem hnodup).mp (hattachments ▸ hestablished.links)
    have hperm := @perm_of_links svc memo.ID db _ hmem hnodup hunlisted
    rw [← hattachments, ← hid] at hperm
    rcases (hlisting (hid ▸ hperm)).mp hestablished.listing with ⟨hfew, hchain⟩
    exact ⟨hunlisted, hfew, (isChain_linkRow_iff hnodup).mp hchain⟩
  · intro hestablishable
    have hperm := @perm_of_links svc memo.ID db _ hmem hnodup hestablishable.unlisted
    rw [← hattachments] at hperm
    refine ⟨hattachments ▸ (links_iff hmem hnodup).mpr hestablishable.unlisted, ?_⟩
    exact (hlisting (hid ▸ hperm)).mpr ⟨hestablishable.few,
      (isChain_linkRow_iff hnodup).mpr hestablishable.forward⟩

/-- A request that has completed is established exactly when it is establishable. -/
theorem set_attachments_establishes_iff (svc : MemoService) (clock : ℕ → ℤ)
    (request : SetMemoAttachmentsRequest) {db db' : Tables} {memo : Memo} (hmemo : memo ∈ db.memos)
    (hname : svc.extractMemoUIDFromName request.Name = .ok memo.UID)
    (h : svc.setMemoAttachmentsAt clock request db = (.ok (), db')) :
    svc.Establishes request.Name memo.ID (svc.normalizedRequest memo.ID db request) db' ↔
      svc.Establishable clock memo.ID db request := by
  have hiff := @establishes_iff (svc.withClock clock) db db' request memo hmemo hname h
  constructor
  · intro hestablishes
    have hestablishable := hiff.mp ⟨hestablishes.links, hestablishes.listing⟩
    exact ⟨hestablishable.unlisted, hestablishable.few, hestablishable.forward⟩
  · intro hestablishable
    have hestablishes := hiff.mpr
      ⟨hestablishable.unlisted, hestablishable.few, hestablishable.forward⟩
    exact ⟨hestablishes.links, hestablishes.listing⟩

/-- An attachment of the first memo, with a name of its own. -/
def numbered (i : ℕ) : Attachment :=
  { ID := i, UID := String.ofList (List.replicate i 'a'), CreatorID := 1, MemoID := some 1 }

private theorem numberedIDs_nodup (n : ℕ) :
    (((List.range n).map numbered).map Attachment.ID).Nodup := by
  rw [List.map_map]
  exact List.nodup_range.map fun i j h => Int.ofNat.inj h

private theorem numberedUIDs_nodup (n : ℕ) :
    (((List.range n).map numbered).map Attachment.UID).Nodup := by
  rw [List.map_map]
  refine List.nodup_range.map fun i j h => ?_
  have hlength := congrArg (fun uid : String => uid.toList.length) h
  simpa [numbered] using hlength

/-- The memo of such attachments. -/
def crowdedMemo : Memo :=
  { ID := 1, UID := "m", CreatorID := 1 }

private theorem crowded_valid (n : ℕ) :
    (0 : ℤ) ≤ 1 ∧ (∀ memo ∈ [crowdedMemo], 0 < memo.ID ∧ memo.ID ≤ 1) ∧
      ([crowdedMemo].map Memo.ID).Nodup ∧ ([crowdedMemo].map Memo.UID).Nodup ∧
      ([] : List MemoRelation).Nodup ∧
      (((List.range n).map numbered).map Attachment.ID).Nodup ∧
      (((List.range n).map numbered).map Attachment.UID).Nodup :=
  ⟨by decide, by decide, by decide, by decide, List.nodup_nil, numberedIDs_nodup n,
    numberedUIDs_nodup n⟩

/-- A memo with a number of attachments. -/
def crowded (n : ℕ) : Tables :=
  { Tables.ofMemos [crowdedMemo] [] ((List.range n).map numbered) 1 (crowded_valid n) with
    users := [{ ID := 1, Username := "ada" }] }

/-- A request for two attachments of a memo, or for none. -/
def twoOfThem : SetMemoAttachmentsRequest :=
  { Name := "memos/m", Attachments := [{ Name := "attachments/a" }, { Name := "attachments/aa" }] }

theorem set_attachments_establishes_iff_example :
    MemoService.plain.Establishes "memos/m" 1
      (MemoService.plain.normalizedRequest 1 (crowded 4) twoOfThem)
      (MemoService.plain.setMemoAttachmentsAt (fun i => 7 * i) twoOfThem (crowded 4)).2 := by
  have hrun : (MemoService.plain.setMemoAttachmentsAt (fun i => 7 * i) twoOfThem (crowded 4)).1 =
      .ok () := by decide +kernel
  have hmemo : { ID := 1, UID := "m", CreatorID := 1 : Memo } ∈ (crowded 4).memos :=
    List.mem_singleton.mpr rfl
  refine (set_attachments_establishes_iff MemoService.plain (fun i => 7 * i) twoOfThem hmemo
    (by decide +kernel) (Effect.eq_of_fst hrun)).mpr ⟨?_, by decide +kernel, fun i _ => by omega⟩
  decide +kernel

/-- A request for no attachments deletes the first hundred. -/
theorem set_attachments_not_established :
    ∃ db', MemoService.plain.setMemoAttachmentsAt (fun _ => 0)
        { Name := "memos/m", Attachments := [] } (crowded 101) = (.ok (), db') ∧
      ¬MemoService.plain.Establishes "memos/m" 1
        (MemoService.plain.normalizedRequest 1 (crowded 101)
          { Name := "memos/m", Attachments := [] }) db' := by
  have hrun : (MemoService.plain.setMemoAttachmentsAt (fun _ => 0)
      { Name := "memos/m", Attachments := [] } (crowded 101)).1 = .ok () := by decide +kernel
  refine ⟨_, Effect.eq_of_fst hrun, fun hestablished => ?_⟩
  have hmemo : { ID := 1, UID := "m", CreatorID := 1 : Memo } ∈ (crowded 101).memos :=
    List.mem_singleton.mpr rfl
  have hunlisted := ((establishes_iff hmemo (by decide +kernel) (Effect.eq_of_fst hrun)).mp
    hestablished).unlisted
  have hlisted : attachmentsOf 1 (crowded 101) ⊆
      MemoService.plain.engine.listedAttachments (crowded 101) 1 := by
    intro a ha
    by_contra hnot
    cases hunlisted a ha hnot
  have hnodup : (attachmentsOf 1 (crowded 101)).Nodup :=
    (crowded 101).attachmentIDs_nodup.of_map.filter _
  have hle := (List.subperm_of_subset hnodup hlisted).length_le
  have hcut : (MemoService.plain.engine.listedAttachments (crowded 101) 1).length ≤ 100 :=
    List.length_take_le _ _
  have hall : (attachmentsOf 1 (crowded 101)).length = 101 := by
    have hself : attachmentsOf 1 (crowded 101) = (List.range 101).map numbered := by
      refine List.filter_eq_self.mpr fun a ha => ?_
      rcases List.mem_map.mp ha with ⟨i, -, rfl⟩
      rfl
    rw [hself, List.length_map, List.length_range]
  omega

end MemoService

end Api
end MemosNote
