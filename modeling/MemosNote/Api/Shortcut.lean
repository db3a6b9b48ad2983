import Mathlib.Data.List.TakeWhile
import MemosNote.Filter.Engine
import MemosNote.Store.Settings

/-!
# Shortcuts of a user

The service creates, updates and deletes the shortcuts of a user, which are the elements
of one user setting.  Each operation checks the request, reads the setting, edits the
object it read and upserts it.

Main results:

- Theorem {lit}`applyMask_eq`: which fields the update mask has assigned when it stops.
- Theorem {lit}`updateMatching_eq_self_iff`: when a stopped update has changed nothing.
- Theorem {lit}`setting_operations_atomic_iff`: for every operation on user settings, the
  exact condition under which its errors leave the settings as they were.
- Theorem {lit}`update_shortcut_not_atomic`: a rejected update changes what is served.
-/

namespace MemosNote
namespace Api

open Store

/-- The service of one request: the filter engine, the name of the database driver, Go's
quoting of texts, the user accesses, the authenticated identifier, the next identifier
and the driver's answers. -/
structure ShortcutService where
  engine : Filter.Engine
  profileDriver : String
  quote : String → String
  getUserByUsername : String → Except String (Option User)
  getUserByID : ℤ → Except String (Option User)
  contextUserID : ℤ
  uuid : String
  driver : Driver

/-- A shortcut as the interface shows it. -/
structure ShortcutMessage where
  Name : String
  Title : String
  Filter : String
deriving DecidableEq, Repr

/-- The request to create a shortcut. -/
structure CreateShortcutRequest where
  Parent : String
  Shortcut : ShortcutMessage
  ValidateOnly : Bool := false
deriving DecidableEq, Repr

/-- The request to update the fields of a mask. -/
structure UpdateShortcutRequest where
  Shortcut : ShortcutMessage
  UpdateMask : Option (List String)
deriving DecidableEq, Repr

/-- The request to delete a shortcut. -/
structure DeleteShortcutRequest where
  Name : String
deriving DecidableEq, Repr

/-! ## Names and permissions -/

/-- What the resource names of users start with. -/
def userNamePrefix : String := "users/"

/-- The parts of a resource name. -/
def splitName (name : String) : List String :=
  (name.toList.splitOn '/').map String.ofList

/-- The canonical resource name of a user. -/
def buildUserName (username : String) : String :=
  userNamePrefix ++ username

/-- The resource name of a shortcut. -/
def constructShortcutName (username shortcutID : String) : String :=
  buildUserName username ++ "/shortcuts/" ++ shortcutID

namespace ShortcutService

variable (svc : ShortcutService)

/-- The user name in a resource name. -/
def parseUsernameFromName (name : String) : Except String String :=
  match splitName name with
  | [collection, username] =>
      if collection ++ "/" ≠ userNamePrefix then
        .error ("invalid prefix " ++ svc.quote userNamePrefix ++ " in request " ++ svc.quote name)
      else if username = "" then
        .error ("invalid request " ++ svc.quote name ++ " with empty prefix " ++
          svc.quote userNamePrefix)
      else .ok username
  | _ => .error ("invalid request " ++ svc.quote name)

/-- The user of a resource name, if there is one. -/
def resolveUserByName (name : String) : Except String (Option User) := do
  let username ← svc.parseUsernameFromName name
  match svc.getUserByUsername username with
  | .error err => .error ("resolve user by name: GetUser failed: " ++ err)
  | .ok user => .ok user

/-- The user and the identifier in the resource name of a shortcut. -/
def extractUserAndShortcutIDFromName (name : String) : Except String (User × String) :=
  match splitName name with
  | ["users", username, "shortcuts", shortcutID] => do
      match ← svc.resolveUserByName (buildUserName username) with
      | none => .error ("user not found: " ++ username)
      | some user =>
          if shortcutID = "" then .error ("empty shortcut ID in name: " ++ name)
          else .ok (user, shortcutID)
  | _ => .error ("invalid shortcut name format: " ++ name)

/-- The authenticated user, unless there is none or the user is archived. -/
def fetchCurrentUser : Except String (Option User) :=
  if svc.contextUserID = 0 then .ok none
  else
    match svc.getUserByID svc.contextUserID with
    | .error err => .error err
    | .ok none => .error ("user " ++ toString svc.contextUserID ++ " not found")
    | .ok (some user) => .ok (if user.RowStatus = .ARCHIVED then none else some user)

/-- Only the owner of the shortcuts may go on. -/
def authorizeOwner (userID : ℤ) : Except Status Unit :=
  match svc.fetchCurrentUser with
  | .error err => .error ⟨.Internal, "failed to get current user: " ++ err⟩
  | .ok none => .error ⟨.PermissionDenied, "permission denied"⟩
  | .ok (some current) =>
      if current.ID ≠ userID then .error ⟨.PermissionDenied, "permission denied"⟩ else .ok ()

/-- The user and the shortcut that a name refers to, for their owner. -/
def admitShortcut (name : String) : Except Status (User × String) :=
  match svc.extractUserAndShortcutIDFromName name with
  | .error err => .error ⟨.InvalidArgument, "invalid shortcut name: " ++ err⟩
  | .ok (user, shortcutID) => do
      svc.authorizeOwner user.ID
      pure (user, shortcutID)

/-- The dialect that filters are compiled for. -/
def dialect : Filter.DialectName :=
  if svc.profileDriver = "mysql" then .mysql
  else if svc.profileDriver = "postgres" then .postgres
  else .sqlite

/-- A filter is not empty, and compiles. -/
def validateFilter (filter : String) : Except String Unit :=
  if filter = "" then .error "filter cannot be empty"
  else
    match svc.engine.compileToStatement filter svc.dialect 0 with
    | .error err => .error ("failed to compile filter: " ++ err)
    | .ok _ => .ok ()

/-! ## Creating -/

/-- The checks before the store is read. -/
def admitCreate (request : CreateShortcutRequest) : Except Status User :=
  match svc.resolveUserByName request.Parent with
  | .error err => .error ⟨.InvalidArgument, "invalid user name: " ++ err⟩
  | .ok none => .error ⟨.NotFound, "user not found"⟩
  | .ok (some user) => do
      svc.authorizeOwner user.ID
      if request.Shortcut.Title = "" then throw ⟨.InvalidArgument, "title is required"⟩
      match svc.validateFilter request.Shortcut.Filter with
      | .error err => throw ⟨.InvalidArgument, "invalid filter: " ++ err⟩
      | .ok _ => pure user

/-- The failure of an upsert. -/
def upsertFailed (err : String) : Status :=
  ⟨.Internal, "failed to upsert user setting: " ++ err⟩

/-- Turn what an operation stored into its response. -/
def respond {α : Type} (response : SettingValue → α)
    (op : SettingStore → Except Status SettingValue × SettingStore) (s : SettingStore) :
    Except Status α × SettingStore :=
  ((op s).1.map response, (op s).2)

/-- The message for a stored shortcut. -/
def shortcutMessage (user : User) (shortcut : Shortcut) : ShortcutMessage where
  Name := constructShortcutName user.Username shortcut.Id
  Title := shortcut.Title
  Filter := shortcut.Filter

/-- The shortcut of a request, under a drawn identifier. -/
def newShortcut (request : CreateShortcutRequest) : Shortcut where
  Id := svc.uuid
  Title := request.Shortcut.Title
  Filter := request.Shortcut.Filter

/-- The new shortcut is appended to the list of the object that was read. -/
def createEdit (shortcut : Shortcut) (value : SettingValue) : SettingStore.Edit :=
  .inPlace (.shortcuts (value.getShortcuts ++ [shortcut]))

/-- A user creates a shortcut of his own. -/
def createShortcut (request : CreateShortcutRequest) (s : SettingStore) :
    Except Status ShortcutMessage × SettingStore :=
  match svc.admitCreate request with
  | .error status => (.error status, s)
  | .ok user =>
      if request.ValidateOnly then
        (.ok (shortcutMessage user (svc.newShortcut request)), s)
      else
        respond (fun _ => shortcutMessage user (svc.newShortcut request))
          (SettingStore.editUserSetting svc.driver user.ID .SHORTCUTS
            (.ok (.shortcuts [svc.newShortcut request])) (createEdit (svc.newShortcut request))
            upsertFailed) s

/-! ## Updating -/

/-- The loop over the mask: each path is checked and then assigned. -/
def applyMask (patch : ShortcutMessage) : List String → Shortcut → Except Status Unit × Shortcut
  | [], shortcut => (.ok (), shortcut)
  | field :: paths, shortcut =>
      if field = "title" then
        if patch.Title = "" then (.error ⟨.InvalidArgument, "title is required"⟩, shortcut)
        else applyMask patch paths { shortcut with Title := patch.Title }
      else if field = "filter" then
        match svc.validateFilter patch.Filter with
        | .error err => (.error ⟨.InvalidArgument, "invalid filter: " ++ err⟩, shortcut)
        | .ok _ => applyMask patch paths { shortcut with Filter := patch.Filter }
      else applyMask patch paths shortcut

/-- The loop over the shortcuts: it stops at the first error and leaves the rest. -/
def updateMatching (patch : ShortcutMessage) (paths : List String) (shortcutID : String) :
    List Shortcut → Except Status Unit × List Shortcut
  | [] => (.ok (), [])
  | shortcut :: shortcuts =>
      if shortcut.Id = shortcutID then
        match svc.applyMask patch paths shortcut with
        | (.error status, shortcut) => (.error status, shortcut :: shortcuts)
        | (.ok _, shortcut) =>
            let (outcome, shortcuts) := updateMatching patch paths shortcutID shortcuts
            (outcome, shortcut :: shortcuts)
      else
        let (outcome, shortcuts) := updateMatching patch paths shortcutID shortcuts
        (outcome, shortcut :: shortcuts)

/-- What the update does to the object that was read. -/
def updateEdit (patch : ShortcutMessage) (paths : List String) (shortcutID : String)
    (value : SettingValue) : SettingStore.Edit :=
  match svc.updateMatching patch paths shortcutID value.getShortcuts with
  | (.error status, shortcuts) => ⟨.shortcuts shortcuts, .error status⟩
  | (.ok _, shortcuts) =>
      if shortcuts.any (·.Id = shortcutID) then .inPlace (.shortcuts shortcuts)
      else ⟨.shortcuts shortcuts, .error ⟨.NotFound, "shortcut not found"⟩⟩

/-- The checks before the store is read. -/
def admitUpdate (request : UpdateShortcutRequest) : Except Status (User × String × List String) :=
  match svc.admitShortcut request.Shortcut.Name with
  | .error status => .error status
  | .ok (user, shortcutID) =>
      match request.UpdateMask with
      | none | some [] => .error ⟨.InvalidArgument, "update mask is required"⟩
      | some paths => .ok (user, shortcutID, paths)

/-- The last shortcut with the identifier; the message of a missing one is empty. -/
def updateResponse (user : User) (shortcutID : String) (value : SettingValue) :
    ShortcutMessage :=
  shortcutMessage user
    ((value.getShortcuts.filter (·.Id = shortcutID)).getLast?.getD ⟨"", "", ""⟩)

/-- A user updates a shortcut of his own. -/
def updateShortcut (request : UpdateShortcutRequest) (s : SettingStore) :
    Except Status ShortcutMessage × SettingStore :=
  match svc.admitUpdate request with
  | .error status => (.error status, s)
  | .ok (user, shortcutID, paths) =>
      respond (updateResponse user shortcutID)
        (SettingStore.editUserSetting svc.driver user.ID .SHORTCUTS
          (.error ⟨.NotFound, "shortcut not found"⟩)
          (svc.updateEdit request.Shortcut paths shortcutID) (fun err => ⟨.Unknown, err⟩)) s

/-! ## Deleting -/

/-- What the deletion does to the object that was read. -/
def deleteEdit (shortcutID : String) (value : SettingValue) : SettingStore.Edit :=
  if value.getShortcuts.any (·.Id = shortcutID) then
    .inPlace (.shortcuts (value.getShortcuts.filter (·.Id ≠ shortcutID)))
  else ⟨value, .error ⟨.NotFound, "shortcut not found"⟩⟩

/-- A user deletes a shortcut of his own. -/
def deleteShortcut (request : DeleteShortcutRequest) (s : SettingStore) :
    Except Status Unit × SettingStore :=
  match svc.admitShortcut request.Name with
  | .error status => (.error status, s)
  | .ok (user, shortcutID) =>
      respond (fun _ => ())
        (SettingStore.editUserSetting svc.driver user.ID .SHORTCUTS
          (.error ⟨.NotFound, "shortcut not found"⟩) (deleteEdit shortcutID) upsertFailed) s

/-! ## What an update assigns -/

/-- The check of a mask path fails. -/
def rejects (patch : ShortcutMessage) (field : String) : Bool :=
  (field == "title" && patch.Title == "") ||
    (field == "filter" && (svc.validateFilter patch.Filter).toOption.isNone)

/-- The paths before the first one whose check fails. -/
def acceptedPaths (patch : ShortcutMessage) (paths : List String) : List String :=
  paths.takeWhile fun field => !svc.rejects patch field

/-- The shortcut has the values that the paths assign. -/
def Holds (patch : ShortcutMessage) (paths : List String) (shortcut : Shortcut) : Prop :=
  ("title" ∈ paths → shortcut.Title = patch.Title) ∧
    ("filter" ∈ paths → shortcut.Filter = patch.Filter)

/-- Assign the fields that the paths name. -/
def assignPaths (patch : ShortcutMessage) (paths : List String) (shortcut : Shortcut) :
    Shortcut where
  Id := shortcut.Id
  Title := if "title" ∈ paths then patch.Title else shortcut.Title
  Filter := if "filter" ∈ paths then patch.Filter else shortcut.Filter

private theorem assignPaths_eq_self_iff (patch : ShortcutMessage) (paths : List String)
    (shortcut : Shortcut) :
    assignPaths patch paths shortcut = shortcut ↔ Holds patch paths shortcut := by
  obtain ⟨id, title, filter⟩ := shortcut
  by_cases htitle : "title" ∈ paths <;> by_cases hfilter : "filter" ∈ paths <;>
    simp [assignPaths, Holds, htitle, hfilter, eq_comm]

private theorem assignPaths_cons_title (patch : ShortcutMessage) (paths : List String)
    (shortcut : Shortcut) :
    assignPaths patch ("title" :: paths) shortcut =
      assignPaths patch paths { shortcut with Title := patch.Title } := by
  simp [assignPaths]

private theorem assignPaths_cons_filter (patch : ShortcutMessage) (paths : List String)
    (shortcut : Shortcut) :
    assignPaths patch ("filter" :: paths) shortcut =
      assignPaths patch paths { shortcut with Filter := patch.Filter } := by
  simp [assignPaths]

private theorem assignPaths_cons_other (patch : ShortcutMessage) {field : String}
    (paths : List String)
    (shortcut : Shortcut) (htitle : field ≠ "title") (hfilter : field ≠ "filter") :
    assignPaths patch (field :: paths) shortcut = assignPaths patch paths shortcut := by
  simp [assignPaths, htitle.symm, hfilter.symm]

/-- The loop over the mask fails exactly when a path is rejected, and has then assigned the
paths before it. -/
theorem applyMask_eq (patch : ShortcutMessage) (paths : List String) (shortcut : Shortcut) :
    ((∃ status, (svc.applyMask patch paths shortcut).1 = .error status) ↔
      paths.any (svc.rejects patch)) ∧
    (svc.applyMask patch paths shortcut).2 =
      assignPaths patch (svc.acceptedPaths patch paths) shortcut := by
  induction paths generalizing shortcut with
  | nil => simp [applyMask, acceptedPaths, assignPaths]
  | cons field paths ih =>
      unfold applyMask acceptedPaths
      rw [List.any_cons, List.takeWhile_cons]
      by_cases htitle : field = "title"
      · subst htitle
        rw [if_pos rfl]
        by_cases hempty : patch.Title = ""
        · have hrejects : svc.rejects patch "title" = true := by simp [rejects, hempty]
          simp [hempty, hrejects, assignPaths]
        · have hrejects : svc.rejects patch "title" = false := by simp [rejects, hempty]
          simp only [hempty, if_false, hrejects, Bool.false_or, Bool.not_false, if_true]
          rw [assignPaths_cons_title]
          exact ih _
      · rw [if_neg htitle]
        by_cases hfilter : field = "filter"
        · subst hfilter
          rw [if_pos rfl]
          cases hvalid : svc.validateFilter patch.Filter with
          | error err =>
              have hrejects : svc.rejects patch "filter" = true := by
                simp [rejects, hvalid, Except.toOption]
              simp [hrejects, assignPaths]
          | ok _ =>
              have hrejects : svc.rejects patch "filter" = false := by
                simp [rejects, hvalid, Except.toOption]
              simp only [hrejects, Bool.false_or, Bool.not_false, if_true]
              rw [assignPaths_cons_filter]
              exact ih _
        · have hrejects : svc.rejects patch field = false := by simp [rejects, htitle, hfilter]
          simp only [hfilter, if_false, hrejects, Bool.false_or, Bool.not_false, if_true]
          rw [assignPaths_cons_other patch _ _ htitle hfilter]
          exact ih _

/-- The loop over the shortcuts fails exactly when a path is rejected and there is a shortcut
to apply it to. -/
theorem updateMatching_error_iff (patch : ShortcutMessage) (paths : List String)
    (shortcutID : String) (shortcuts : List Shortcut) :
    (∃ status, (svc.updateMatching patch paths shortcutID shortcuts).1 = .error status) ↔
      paths.any (svc.rejects patch) ∧ ∃ shortcut ∈ shortcuts, shortcut.Id = shortcutID := by
  induction shortcuts with
  | nil => simp [updateMatching]
  | cons shortcut shortcuts ih =>
      unfold updateMatching
      by_cases hid : shortcut.Id = shortcutID
      · rw [if_pos hid]
        have hmask := (svc.applyMask_eq patch paths shortcut).1
        cases happly : svc.applyMask patch paths shortcut with
        | mk outcome shortcut' =>
            rw [happly] at hmask
            cases outcome with
            | error status => simpa [hid] using hmask
            | ok _ =>
                have hany : paths.any (svc.rejects patch) = false := by
                  simpa using hmask.symm
                simp only [hany, Bool.false_eq_true, false_and, iff_false] at ih ⊢
                exact ih
      · rw [if_neg hid]
        simp only [List.mem_cons, exists_eq_or_imp, hid, false_or]
        exact ih

/-- The loop over the shortcuts has changed nothing when it stops: after a rejected path, the
first shortcut already held what the paths before it assign; else all of them did. -/
theorem updateMatching_eq_self_iff (patch : ShortcutMessage) (paths : List String)
    (shortcutID : String) (shortcuts : List Shortcut) :
    (svc.updateMatching patch paths shortcutID shortcuts).2 = shortcuts ↔
      if paths.any (svc.rejects patch) then
        ∀ shortcut, shortcuts.find? (·.Id = shortcutID) = some shortcut →
          Holds patch (svc.acceptedPaths patch paths) shortcut
      else ∀ shortcut ∈ shortcuts, shortcut.Id = shortcutID → Holds patch paths shortcut := by
  induction shortcuts with
  | nil => simp [updateMatching]
  | cons shortcut shortcuts ih =>
      unfold updateMatching
      by_cases hid : shortcut.Id = shortcutID
      · rw [if_pos hid]
        obtain ⟨hfails, hassigned⟩ := svc.applyMask_eq patch paths shortcut
        cases happly : svc.applyMask patch paths shortcut with
        | mk outcome shortcut' =>
            rw [happly] at hfails hassigned
            have hshortcut : shortcut' = shortcut ↔
                Holds patch (svc.acceptedPaths patch paths) shortcut := by
              rw [← assignPaths_eq_self_iff, ← hassigned]
            cases outcome with
            | error status =>
                have hany : paths.any (svc.rejects patch) = true := hfails.mp ⟨status, rfl⟩
                simp [hany, hid, hshortcut]
            | ok _ =>
                have hany : paths.any (svc.rejects patch) = false := by
                  simpa using hfails.symm
                have haccepted : svc.acceptedPaths patch paths = paths := by
                  refine List.takeWhile_eq_self_iff.mpr fun field hfield => ?_
                  rw [List.any_eq_false] at hany
                  simpa using hany field hfield
                rw [haccepted] at hshortcut
                simp only [hany, Bool.false_eq_true, if_false] at ih ⊢
                simp [hid, hshortcut, ih]
      · rw [if_neg hid]
        simp [hid, ih]

/-! ## Errors of the shortcut operations -/

open SettingStore

variable {svc} {s : SettingStore}

/-- The response of an operation does not matter for what its errors leave. -/
theorem atomicOnError_respond {α : Type} (response : SettingValue → α)
    (op : SettingStore → Except Status SettingValue × SettingStore) :
    AtomicOnError (respond response op) s ↔ AtomicOnError op s := by
  unfold AtomicOnError respond
  refine forall_congr' fun status => ?_
  cases (op s).1 <;> simp [Except.map]

/-- An operation that is refused leaves the store as it is. -/
theorem atomicOnError_of_snd_eq {α : Type} {op : SettingStore → Except Status α × SettingStore}
    (h : (op s).2 = s) : AtomicOnError op s := by
  intro status _
  rw [h]
  exact .refl s

theorem atomicOnError_congr {α : Type} {op op' : SettingStore → Except Status α × SettingStore}
    (h : op s = op' s) : AtomicOnError op s ↔ AtomicOnError op' s := by
  unfold AtomicOnError
  rw [h]

/-- A creation is atomic on error unless it reaches the upsert with a stored list, and the
upsert fails. -/
theorem atomicOnError_createShortcut (hs : s.Consistent) (request : CreateShortcutRequest) :
    AtomicOnError (svc.createShortcut request) s ↔
      ∀ user, svc.admitCreate request = .ok user → request.ValidateOnly = false →
        (s.readable svc.driver user.ID .SHORTCUTS).isSome → svc.driver.upsertError = none := by
  cases hadmit : svc.admitCreate request with
  | error status =>
      have hsame : (svc.createShortcut request s).2 = s := by rw [createShortcut, hadmit]
      simp [atomicOnError_of_snd_eq hsame]
  | ok user =>
      cases hvalidate : request.ValidateOnly with
      | true =>
          have hsame : (svc.createShortcut request s).2 = s := by
            simp [createShortcut, hadmit, hvalidate]
          simp [atomicOnError_of_snd_eq hsame]
      | false =>
          have hop : svc.createShortcut request s =
              respond (fun _ => shortcutMessage user (svc.newShortcut request))
                (editUserSetting svc.driver user.ID .SHORTCUTS
                  (.ok (.shortcuts [svc.newShortcut request]))
                  (createEdit (svc.newShortcut request)) upsertFailed) s := by
            simp [createShortcut, hadmit, hvalidate]
          rw [atomicOnError_congr hop, atomicOnError_respond, atomicOnError_editUserSetting hs]
          simp only [createEdit, fails_inPlace_iff, Except.ok.injEq, forall_eq', forall_const]
          cases hread : s.readable svc.driver user.ID .SHORTCUTS with
          | none => simp
          | some value =>
              have hvalue := SettingValue.shortcuts_getShortcuts (hs.key_of_readable hread)
              rw [hvalue]
              simp [Edit.inPlace, SettingValue.getShortcuts]

/-- The identifiers stay, so an update finds the shortcut in the list it leaves exactly when
it was in the list it read. -/
theorem any_updateMatching (svc : ShortcutService) (patch : ShortcutMessage) (paths : List String)
    (shortcutID : String) (shortcuts : List Shortcut) :
    (svc.updateMatching patch paths shortcutID shortcuts).2.any (·.Id = shortcutID) =
      shortcuts.any (·.Id = shortcutID) := by
  induction shortcuts with
  | nil => rfl
  | cons shortcut shortcuts ih =>
      unfold updateMatching
      by_cases hid : shortcut.Id = shortcutID
      · rw [if_pos hid]
        have hassigned := (svc.applyMask_eq patch paths shortcut).2
        cases happly : svc.applyMask patch paths shortcut with
        | mk outcome shortcut' =>
            rw [happly] at hassigned
            have hid' : shortcut'.Id = shortcutID := (congrArg Shortcut.Id hassigned).trans hid
            cases outcome <;> simp [hid, hid']
      · rw [if_neg hid]
        simp [hid, ih]

/-- What an update that fails has changed. -/
theorem updateEdit_spares_iff {patch : ShortcutMessage} {paths : List String}
    {shortcutID : String} {value : SettingValue} (hkey : value.key = .SHORTCUTS) :
    ((svc.updateEdit patch paths shortcutID value).Fails svc.driver →
      (svc.updateEdit patch paths shortcutID value).object = value) ↔
    if paths.any (svc.rejects patch) then
      ∀ shortcut, value.getShortcuts.find? (·.Id = shortcutID) = some shortcut →
        Holds patch (svc.acceptedPaths patch paths) shortcut
    else svc.driver.upsertError ≠ none → ∀ shortcut ∈ value.getShortcuts,
      shortcut.Id = shortcutID → Holds patch paths shortcut := by
  have hself := svc.updateMatching_eq_self_iff patch paths shortcutID value.getShortcuts
  have herror := svc.updateMatching_error_iff patch paths shortcutID value.getShortcuts
  have hany := svc.any_updateMatching patch paths shortcutID value.getShortcuts
  have hobject : ∀ list, SettingValue.shortcuts list = value ↔ list = value.getShortcuts := by
    intro list
    rw [SettingValue.shortcuts_getShortcuts hkey]
    simp [SettingValue.getShortcuts]
  unfold updateEdit
  cases hupdate : svc.updateMatching patch paths shortcutID value.getShortcuts with
  | mk outcome shortcuts =>
      rw [hupdate] at hself herror hany
      cases outcome with
      | error status =>
          obtain ⟨hrejects, -⟩ := herror.mp ⟨status, rfl⟩
          simp only [hrejects, if_true] at hself ⊢
          rw [← hself, ← hobject]
          simp [Edit.Fails]
      | ok _ =>
          by_cases hfound : shortcuts.any (·.Id = shortcutID) = true
          · have hrejects : paths.any (svc.rejects patch) = false := by
              by_contra hne
              have hexists : ∃ shortcut ∈ value.getShortcuts, shortcut.Id = shortcutID := by
                rw [hany] at hfound
                simpa using hfound
              obtain ⟨status, hstatus⟩ := herror.mpr ⟨by simpa using hne, hexists⟩
              simp at hstatus
            simp only [hrejects, hfound, Bool.false_eq_true, if_false, if_true] at hself ⊢
            rw [fails_inPlace_iff, ← hself, ← hobject]
            rfl
          · have hnone : ∀ shortcut ∈ value.getShortcuts, ¬shortcut.Id = shortcutID := by
              rw [hany] at hfound
              simpa using hfound
            have hsame : shortcuts = value.getShortcuts := by
              refine hself.mpr ?_
              split
              · intro shortcut hshortcut
                exact absurd (by simpa using List.find?_some hshortcut)
                  (hnone shortcut (List.mem_of_find?_eq_some hshortcut))
              · exact fun shortcut hmem hid => absurd hid (hnone shortcut hmem)
            simp only [hfound, Bool.false_eq_true, if_false]
            refine iff_of_true (fun _ => (hobject shortcuts).mpr hsame) ?_
            have hspared := hself.mp hsame
            split at hspared <;> rename_i hrejects
            · rw [if_pos hrejects]
              exact hspared
            · rw [if_neg hrejects]
              exact fun _ => hspared

/-- What a deletion that fails has changed. -/
theorem deleteEdit_spares_iff {shortcutID : String} {value : SettingValue}
    (hkey : value.key = .SHORTCUTS) :
    ((deleteEdit shortcutID value).Fails svc.driver →
      (deleteEdit shortcutID value).object = value) ↔
    ((∃ shortcut ∈ value.getShortcuts, shortcut.Id = shortcutID) →
      svc.driver.upsertError = none) := by
  unfold deleteEdit
  by_cases hfound : value.getShortcuts.any (·.Id = shortcutID) = true
  · have hexists : ∃ shortcut ∈ value.getShortcuts, shortcut.Id = shortcutID := by
      simpa using hfound
    have hchanged : (Edit.inPlace (.shortcuts
        (value.getShortcuts.filter (·.Id ≠ shortcutID)))).object ≠ value := by
      rw [SettingValue.shortcuts_getShortcuts hkey]
      simpa [Edit.inPlace, SettingValue.getShortcuts] using hexists
    rw [if_pos hfound, fails_inPlace_iff]
    constructor
    · intro h _
      by_contra hne
      exact hchanged (h hne)
    · exact fun h hfails => absurd (h hexists) hfails
  · have hnone : ¬∃ shortcut ∈ value.getShortcuts, shortcut.Id = shortcutID := by
      simpa using hfound
    rw [if_neg hfound]
    exact ⟨fun _ h => absurd h hnone, fun _ _ => rfl⟩

/-- An update is atomic on error unless the loop over the mask has assigned another value
before it was stopped, or before the upsert failed. -/
theorem atomicOnError_updateShortcut (hs : s.Consistent) (request : UpdateShortcutRequest) :
    AtomicOnError (svc.updateShortcut request) s ↔
      ∀ user shortcutID paths, svc.admitUpdate request = .ok (user, shortcutID, paths) →
        ∀ value, s.readable svc.driver user.ID .SHORTCUTS = some value →
          if paths.any (svc.rejects request.Shortcut) then
            ∀ shortcut, value.getShortcuts.find? (·.Id = shortcutID) = some shortcut →
              Holds request.Shortcut (svc.acceptedPaths request.Shortcut paths) shortcut
          else svc.driver.upsertError ≠ none → ∀ shortcut ∈ value.getShortcuts,
            shortcut.Id = shortcutID → Holds request.Shortcut paths shortcut := by
  cases hadmit : svc.admitUpdate request with
  | error status =>
      have hsame : (svc.updateShortcut request s).2 = s := by rw [updateShortcut, hadmit]
      simp [atomicOnError_of_snd_eq hsame]
  | ok admitted =>
      obtain ⟨user, shortcutID, paths⟩ := admitted
      have hop : svc.updateShortcut request s = respond (updateResponse user shortcutID)
          (editUserSetting svc.driver user.ID .SHORTCUTS
            (.error ⟨.NotFound, "shortcut not found"⟩)
            (svc.updateEdit request.Shortcut paths shortcutID)
            (fun err => ⟨.Unknown, err⟩)) s := by
        rw [updateShortcut, hadmit]
      rw [atomicOnError_congr hop, atomicOnError_respond, atomicOnError_editUserSetting hs]
      constructor
      · rintro h user' shortcutID' paths' ⟨⟩ value hread
        exact (updateEdit_spares_iff (hs.key_of_readable hread)).mp (h value hread)
      · intro h value hread
        exact (updateEdit_spares_iff (hs.key_of_readable hread)).mpr
          (h user shortcutID paths rfl value hread)

/-- A deletion is atomic on error unless it reaches the upsert, and the upsert fails. -/
theorem atomicOnError_deleteShortcut (hs : s.Consistent) (request : DeleteShortcutRequest) :
    AtomicOnError (svc.deleteShortcut request) s ↔
      ∀ user shortcutID, svc.admitShortcut request.Name = .ok (user, shortcutID) →
        ∀ value, s.readable svc.driver user.ID .SHORTCUTS = some value →
          (∃ shortcut ∈ value.getShortcuts, shortcut.Id = shortcutID) →
            svc.driver.upsertError = none := by
  cases hadmit : svc.admitShortcut request.Name with
  | error status =>
      have hsame : (svc.deleteShortcut request s).2 = s := by rw [deleteShortcut, hadmit]
      simp [atomicOnError_of_snd_eq hsame]
  | ok admitted =>
      obtain ⟨user, shortcutID⟩ := admitted
      have hop : svc.deleteShortcut request s = respond (fun _ => ())
          (editUserSetting svc.driver user.ID .SHORTCUTS
            (.error ⟨.NotFound, "shortcut not found"⟩) (deleteEdit shortcutID)
            upsertFailed) s := by
        rw [deleteShortcut, hadmit]
      rw [atomicOnError_congr hop, atomicOnError_respond, atomicOnError_editUserSetting hs]
      constructor
      · rintro h user' shortcutID' ⟨⟩ value hread
        exact (deleteEdit_spares_iff (hs.key_of_readable hread)).mp (h value hread)
      · intro h value hread
        exact (deleteEdit_spares_iff (hs.key_of_readable hread)).mpr
          (h user shortcutID rfl value hread)

end ShortcutService

/-! ## All operations on user settings -/

open ShortcutService SettingStore

/-- The operations that change a user setting and can fail on the way. -/
inductive SettingRequest where
  | createShortcut (request : CreateShortcutRequest)
  | updateShortcut (request : UpdateShortcutRequest)
  | deleteShortcut (request : DeleteShortcutRequest)
  | addUserWebhook (userID : ℤ) (webhook : Webhook)
  | removeUserWebhook (userID : ℤ) (webhookID : String)
  | updateUserWebhook (userID : ℤ) (webhook : Webhook)
  | addUserPersonalAccessToken (userID : ℤ) (token : PersonalAccessToken)
  | removeUserPersonalAccessToken (userID : ℤ) (tokenID : String)
  | updatePATLastUsed (userID : ℤ) (tokenID : String) (lastUsed : ℤ)
deriving DecidableEq, Repr

namespace SettingRequest

variable (svc : ShortcutService)

/-- Every error of the operation leaves what later reads are served, from the cache and from
the database, as it was. -/
def Atomic (s : SettingStore) : SettingRequest → Prop
  | createShortcut request => AtomicOnError (svc.createShortcut request) s
  | updateShortcut request => AtomicOnError (svc.updateShortcut request) s
  | deleteShortcut request => AtomicOnError (svc.deleteShortcut request) s
  | addUserWebhook userID webhook =>
      AtomicOnError (SettingStore.addUserWebhook svc.driver userID webhook) s
  | removeUserWebhook userID webhookID =>
      AtomicOnError (SettingStore.removeUserWebhook svc.driver userID webhookID) s
  | updateUserWebhook userID webhook =>
      AtomicOnError (SettingStore.updateUserWebhook svc.driver userID webhook) s
  | addUserPersonalAccessToken userID token =>
      AtomicOnError (SettingStore.addUserPersonalAccessToken svc.driver userID token) s
  | removeUserPersonalAccessToken userID tokenID =>
      AtomicOnError (SettingStore.removeUserPersonalAccessToken svc.driver userID tokenID) s
  | updatePATLastUsed userID tokenID lastUsed =>
      AtomicOnError (SettingStore.updatePATLastUsed svc.driver userID tokenID lastUsed) s

/-- The operation does not fail once it has put another value into the object it read: a
creation or a deletion that reaches the upsert is stored; an update is stored, or the
fields it has assigned before its error had these values already. -/
def Spares (s : SettingStore) : SettingRequest → Prop
  | createShortcut request =>
      ∀ user, svc.admitCreate request = .ok user → request.ValidateOnly = false →
        (s.readable svc.driver user.ID .SHORTCUTS).isSome → svc.driver.upsertError = none
  | updateShortcut request =>
      ∀ user shortcutID paths, svc.admitUpdate request = .ok (user, shortcutID, paths) →
        ∀ value, s.readable svc.driver user.ID .SHORTCUTS = some value →
          if paths.any (svc.rejects request.Shortcut) then
            ∀ shortcut, value.getShortcuts.find? (·.Id = shortcutID) = some shortcut →
              Holds request.Shortcut (svc.acceptedPaths request.Shortcut paths) shortcut
          else svc.driver.upsertError ≠ none → ∀ shortcut ∈ value.getShortcuts,
            shortcut.Id = shortcutID → Holds request.Shortcut paths shortcut
  | deleteShortcut request =>
      ∀ user shortcutID, svc.admitShortcut request.Name = .ok (user, shortcutID) →
        ∀ value, s.readable svc.driver user.ID .SHORTCUTS = some value →
          (∃ shortcut ∈ value.getShortcuts, shortcut.Id = shortcutID) →
            svc.driver.upsertError = none
  | updateUserWebhook userID webhook =>
      ∀ value, s.readable svc.driver userID .WEBHOOKS = some value →
        svc.driver.upsertError ≠ none →
        ∀ existing, value.getWebhooks.find? (·.Id = webhook.Id) = some existing →
          existing = webhook
  | updatePATLastUsed userID tokenID lastUsed =>
      ∀ value, s.readable svc.driver userID .PERSONAL_ACCESS_TOKENS = some value →
        svc.driver.upsertError ≠ none →
        ∀ token, value.getPersonalAccessTokens.find? (·.tokenId = tokenID) = some token →
          token.lastUsedAt = some lastUsed
  | addUserWebhook _ _ | removeUserWebhook _ _ | addUserPersonalAccessToken _ _
  | removeUserPersonalAccessToken _ _ => True

end SettingRequest

/-- For every operation on user settings, every stored state, every cache consistent with it,
every request and every answer of the driver: the errors of the operation leave every
setting as it was exactly when the operation does not fail after it has put another value
into the cached object. -/
theorem setting_operations_atomic_iff (svc : ShortcutService) (s : SettingStore)
    (hs : s.Consistent) (request : SettingRequest) :
    request.Atomic svc s ↔ request.Spares svc s := by
  cases request with
  | createShortcut request => exact atomicOnError_createShortcut hs request
  | updateShortcut request => exact atomicOnError_updateShortcut hs request
  | deleteShortcut request => exact atomicOnError_deleteShortcut hs request
  | addUserWebhook userID webhook =>
      exact iff_of_true (atomicOnError_copy hs _ _ _ _ _ _) trivial
  | removeUserWebhook userID webhookID =>
      exact iff_of_true (atomicOnError_copy hs _ _ _ _ _ _) trivial
  | updateUserWebhook userID webhook => exact atomicOnError_updateUserWebhook hs _ userID webhook
  | addUserPersonalAccessToken userID token =>
      exact iff_of_true (atomicOnError_copy hs _ _ _ _ _ _) trivial
  | removeUserPersonalAccessToken userID tokenID =>
      exact iff_of_true (atomicOnError_copy hs _ _ _ _ _ _) trivial
  | updatePATLastUsed userID tokenID lastUsed =>
      exact atomicOnError_updatePATLastUsed hs _ userID tokenID lastUsed

/-- The requests of one user, with an engine that accepts no filter. -/
def adaService : ShortcutService where
  engine := {
    context := {
      schema := Filter.newSchema
      now := 0
      parseTimestamp := fun _ => .error "no timestamp"
      parseDuration := fun _ => .error "no duration" }
    check := fun _ => .error "no such identifier" }
  profileDriver := "sqlite"
  quote := fun text => "\"" ++ text ++ "\""
  getUserByUsername := fun name =>
    .ok (if name = "ada" then some { ID := 1, Username := "ada" } else none)
  getUserByID := fun id => .ok (if id = 1 then some { ID := 1, Username := "ada" } else none)
  contextUserID := 1
  uuid := "b"
  driver := {}

/-- One stored shortcut and an empty cache. -/
def oneShortcut : SettingStore where
  database := fun userID key =>
    if userID = 1 ∧ key = .SHORTCUTS then some (.shortcuts [⟨"a", "old", "pinned"⟩]) else none
  objects := []
  cached := fun _ _ => none

theorem consistent_oneShortcut : oneShortcut.Consistent where
  cached_stored h := absurd h (by simp [oneShortcut])
  cached_inj h := absurd h (by simp [oneShortcut])
  key_eq := by
    intro u k v h
    unfold oneShortcut at h
    by_cases huk : u = 1 ∧ k = .SHORTCUTS
    · simp only [huk, and_self, if_true, Option.some.injEq] at h
      rw [← h, huk.2]
      rfl
    · simp [huk] at h

/-- A new title and a filter that is not accepted. -/
def badFilterRequest : UpdateShortcutRequest where
  Shortcut := ⟨"users/ada/shortcuts/a", "new", "x"⟩
  UpdateMask := some ["title", "filter"]

/-- The condition at a request that only assigns a title. -/
theorem setting_operations_atomic_iff_example :
    oneShortcut.Consistent ∧
      ((SettingRequest.updateShortcut ⟨⟨"users/ada/shortcuts/a", "new", "x"⟩, some ["title"]⟩).Atomic
          adaService oneShortcut ↔
        (SettingRequest.updateShortcut ⟨⟨"users/ada/shortcuts/a", "new", "x"⟩,
          some ["title"]⟩).Spares adaService oneShortcut) :=
  ⟨consistent_oneShortcut, setting_operations_atomic_iff adaService oneShortcut
    consistent_oneShortcut _⟩

/-- The update is refused because of its filter, the row keeps the old title, and every later
read is served the new one from the cache. -/
theorem update_shortcut_not_atomic :
    oneShortcut.Consistent ∧
      (adaService.updateShortcut badFilterRequest oneShortcut).1 =
        .error ⟨.InvalidArgument,
          "invalid filter: failed to compile filter: failed to compile filter: no such identifier"⟩ ∧
      (adaService.updateShortcut badFilterRequest oneShortcut).2.served 1 .SHORTCUTS =
        some (.shortcuts [⟨"a", "new", "pinned"⟩]) ∧
      (adaService.updateShortcut badFilterRequest oneShortcut).2.database 1 .SHORTCUTS =
        some (.shortcuts [⟨"a", "old", "pinned"⟩]) ∧
      ¬(SettingRequest.updateShortcut badFilterRequest).Atomic adaService oneShortcut := by
  refine ⟨consistent_oneShortcut, rfl, rfl, rfl, fun h => ?_⟩
  have hserved := (h _ rfl 1 .SHORTCUTS).1
  exact absurd hserved (by decide)

end Api
end MemosNote
