import Mathlib.Order.Bounds.Basic
import MemosNote.Store.MigrationFiles

/-!
# The migrator

The migrator brings a database to the latest schema version.  It is a program of database
actions: the statements of a transaction become durable together, at the commit, and the
schema version is recorded by an upsert of its own.

Main results:

- Theorem {lit}`applyFiles_eq`: readable files are selected by their versions and executed
  in the given order.
- Theorem {lit}`migration_order_iff`: when exactly the selected files are applied, in
  increasing version order, up to the greatest version.
-/

namespace MemosNote
namespace Store

open Library

/-! ## The database -/

/-- A script that the migrator executes. -/
inductive Script where
  | latest
  | migration (filePath : String)
  | seed (filename : String)
deriving DecidableEq, Repr

/-- What the migrator reads of a database, and the scripts whose execution is committed. -/
structure SchemaState where
  initialized : Bool
  schemaVersion : String
  history : List Script
deriving DecidableEq, Repr

/-- The effect of a script. -/
def SchemaState.apply (db : SchemaState) (script : Script) : SchemaState where
  initialized := db.initialized || script = .latest
  schemaVersion := db.schemaVersion
  history := db.history ++ [script]

/-- A connection: the durable database, and the one an open transaction sees. -/
structure Session where
  durable : SchemaState
  working : Option SchemaState := none
deriving DecidableEq, Repr

/-- The database actions of the migrator. -/
inductive DbAction where
  | isInitialized
  | begin
  | execute (script : Script)
  | commit
  | getInstanceBasicSetting
  | upsertInstanceSetting (schemaVersion : String)
deriving DecidableEq, Repr

/-- The type of an answer. -/
abbrev DbAction.Answer : DbAction → Type
  | isInitialized => Bool
  | getInstanceBasicSetting => String
  | _ => Unit

/-- Which scripts a database accepts, given the scripts it has executed before. -/
structure ScriptEngine where
  accepts : List Script → Script → Bool
  /-- The seed inserts rows with fixed keys, so it is accepted once. -/
  seed_once : ∀ history filename, .seed filename ∈ history →
    accepts history (.seed filename) = false

/-- The database performs an action. -/
def ScriptEngine.step (engine : ScriptEngine) :
    (a : DbAction) → Session → Except String a.Answer × Session
  | .isInitialized, s => (.ok s.durable.initialized, s)
  | .begin, s => (.ok (), { s with working := some s.durable })
  | .execute script, s =>
      match s.working with
      | some db =>
          if engine.accepts db.history script then
            (.ok (), { s with working := some (db.apply script) })
          else (.error "statement rejected", s)
      | none => (.error "no transaction", s)
  | .commit, s =>
      match s.working with
      | some db => (.ok (), ⟨db, none⟩)
      | none => (.error "no transaction", s)
  | .getInstanceBasicSetting, s => (.ok s.durable.schemaVersion, s)
  | .upsertInstanceSetting schemaVersion, s =>
      (.ok (), { s with durable := { s.durable with schemaVersion } })

/-! ## The programs -/

/-- A program of database actions. -/
abbrev MigrateM := Program DbAction DbAction.Answer

open Program

/-- Whether the database has its tables. -/
def isInitialized : MigrateM Bool :=
  wrap "failed to check if database is initialized" (perform DbAction.isInitialized)

/-- The recorded schema version, empty if there is none. -/
def getSchemaVersion : MigrateM String :=
  wrap "failed to get instance basic setting" (perform DbAction.getInstanceBasicSetting)

def beginTx : MigrateM Unit :=
  wrap "failed to start transaction" (perform DbAction.begin)

/-- Execute a script in the open transaction. -/
def execute (script : Script) : MigrateM Unit :=
  wrap "failed to execute statement" (perform (DbAction.execute script))

def commitTx (context : String) : MigrateM Unit :=
  wrap context (perform DbAction.commit)

/-- Record the schema version. -/
def updateCurrentSchemaVersion (schemaVersion : String) : MigrateM Unit := do
  let _ ← getSchemaVersion
  wrap "failed to upsert instance setting"
    (perform (DbAction.upsertInstanceSetting schemaVersion))

def executeMigration (filePath : String) : MigrateM Unit :=
  (execute (.migration filePath)).mapError fun e =>
    "failed to execute migration " ++ filePath ++ ": " ++ e ++ ": " ++ e

/-- The message for an installation that is too old. -/
def tooOldMessage (schemaVersion currentVersion : String) : String :=
  "Your Memos installation is too old to upgrade directly.\n\n" ++
    "Your current version: " ++ schemaVersion ++ "\n" ++
    "Target version: " ++ currentVersion ++ "\n" ++
    "Minimum required: v0.22.0 (May 2024)\n\n" ++
    "Upgrade path:\n" ++
    "1. First upgrade to v0.25.3: https://github.com/usememos/memos/releases/tag/v0.25.3\n" ++
    "2. Start the server and verify it works\n" ++
    "3. Then upgrade to the latest version\n\n" ++
    "This is required because schema version tracking was moved from migration_history\n" ++
    "to system_setting in v0.22.0. The intermediate upgrade handles this migration safely."

/-- The oldest version that can be upgraded. -/
def minimumVersion : Version :=
  ⟨0, 22, 0⟩

/-- The order in which files are visited. -/
def sortPaths (filePaths : List String) : List String :=
  filePaths.insertionSort (· ≤ ·)

/-- The seed file. -/
def seedFile : String :=
  "seed/sqlite/01__dump.sql"

section

variable (semver : Semver) (driver : String) (filePaths : List String) (depth : ℕ)

/-- The version of the available schema. -/
def currentSchemaVersion : MigrateM String :=
  wrap "failed to get current schema version" (lift (GetCurrentSchemaVersion semver filePaths depth))

/-- Reject an installation that is too old to be upgraded. -/
def checkMinimumUpgradeVersion : MigrateM Unit := do
  let schemaVersion ← getSchemaVersion
  let tooOld := tooOldMessage schemaVersion
    ((GetCurrentSchemaVersion semver filePaths depth).toOption.getD "")
  if !isVersionEmpty schemaVersion &&
      IsVersionGreaterOrEqualThan semver schemaVersion minimumVersion.text then
    pure ()
  else if isVersionEmpty schemaVersion then
    let initialized ← isInitialized
    if initialized then fail tooOld else pure ()
  else fail tooOld

/-- Create the latest schema and record its version. -/
def createLatestSchema : MigrateM Unit := do
  beginTx
  (execute .latest).mapError
    ("failed to execute SQL file migration/" ++ driver ++ "/" ++ LatestSchemaFileName ++ ", err " ++ ·)
  commitTx "failed to commit transaction"
  let schemaVersion ← currentSchemaVersion semver filePaths depth
  (updateCurrentSchemaVersion schemaVersion).wrap "failed to update current schema version"

/-- Create a new database, and check that an old one can be upgraded. -/
def preMigrate : MigrateM Unit := do
  let initialized ← isInitialized
  if !initialized then createLatestSchema semver driver filePaths depth
  checkMinimumUpgradeVersion semver filePaths depth

/-- Execute the files whose versions are selected. -/
def applyFiles (currentSchemaVersion targetSchemaVersion : String) : List String → MigrateM Unit
  | [] => pure ()
  | filePath :: rest => do
      let fileSchemaVersion ← wrap "failed to get schema version of migrate script"
        (lift (getSchemaVersionOfMigrateScript semver filePaths depth filePath))
      if shouldApplyMigration semver fileSchemaVersion currentSchemaVersion targetSchemaVersion then
        executeMigration filePath
      applyFiles currentSchemaVersion targetSchemaVersion rest

/-- Apply the migrations between two versions in one transaction, and record the target. -/
def applyMigrations (currentSchemaVersion targetSchemaVersion : String) : MigrateM Unit := do
  beginTx
  applyFiles semver filePaths depth currentSchemaVersion targetSchemaVersion (sortPaths filePaths)
  commitTx "failed to commit migration transaction"
  (updateCurrentSchemaVersion targetSchemaVersion).wrap "failed to update current schema version"

/-- Insert the demo data; only SQLite has a seed. -/
def seed : MigrateM Unit := do
  if driver ≠ "sqlite" then pure ()
  else
    beginTx
    (execute (.seed seedFile)).wrap ("seed error: " ++ seedFile)
    perform DbAction.commit

/-- In demo mode the database is seeded. -/
def seedDemo (demo : Bool) : MigrateM Unit :=
  if demo then (seed driver).wrap "failed to seed" else pure ()

/-- Migrate a database that passed the check. -/
def migrateChecked (demo : Bool) : MigrateM Unit := do
  let schemaVersion ← getSchemaVersion
  let target ← currentSchemaVersion semver filePaths depth
  if !isVersionEmpty schemaVersion && IsVersionGreaterThan semver schemaVersion target then
    fail ("cannot downgrade schema version from " ++ schemaVersion ++ " to " ++ target)
  else
    if isVersionEmpty schemaVersion || IsVersionGreaterThan semver target schemaVersion then
      (applyMigrations semver filePaths depth schemaVersion target).wrap
        "failed to apply migrations"
    seedDemo driver demo

/-- Migrate the database to the latest schema. -/
def Migrate (demo : Bool) : MigrateM Unit := do
  (preMigrate semver driver filePaths depth).wrap "failed to pre-migrate"
  migrateChecked semver driver filePaths depth demo

end

/-! ## The files that are applied -/

/-- Execute migrations one after the other. -/
def executeAll : List String → MigrateM Unit
  | [] => pure ()
  | filePath :: rest => do
      executeMigration filePath
      executeAll rest

/-- Execute the given migrations in one transaction, and record the version they lead to. -/
def applyAll (paths : List String) (targetSchemaVersion : String) : MigrateM Unit := do
  beginTx
  executeAll paths
  commitTx "failed to commit migration transaction"
  (updateCurrentSchemaVersion targetSchemaVersion).wrap "failed to update current schema version"

/-- The selected files whose version can be represented. -/
def MigrationFile.Applied (current : Option Version) (target : Version) (f : MigrationFile) :
    Prop :=
  ¬ f.Overflows ∧ f.Selected current target

instance (current : Option Version) (target : Version) (f : MigrationFile) :
    Decidable (f.Applied current target) :=
  inferInstanceAs (Decidable (_ ∧ _))

/-- The files in the order of their paths. -/
def inPathOrder (driver : String) (files : List MigrationFile) : List MigrationFile :=
  files.insertionSort fun f g => f.path driver ≤ g.path driver

section

variable (semver : Semver) (driver : String) (depth : ℕ) (current : Option Version)
  (target : Version)

private theorem sortPaths_filePaths (files : List MigrationFile) :
    sortPaths (filePaths driver files) = filePaths driver (inPathOrder driver files) :=
  (List.map_insertionSort _ _ (MigrationFile.path driver) files fun _ _ _ _ => Iff.rfl).symm

/-- Readable files are selected by their versions and executed in the given order. -/
theorem applyFiles_eq (paths : List String) {files : List MigrationFile} (h : Readable files) :
    applyFiles semver paths depth (schemaText current) target.text (filePaths driver files) =
      executeAll (filePaths driver (files.filter fun f => f.Applied current target)) := by
  induction files with
  | nil => rfl
  | cons f files ih =>
      have hf := h f (by simp)
      have hrest := ih fun g hg => h g (by simp [hg])
      have hversion : getSchemaVersionOfMigrateScript semver paths depth (f.path driver) =
          .ok f.versionText := by
        rw [getSchemaVersionOfMigrateScript, MigrationFile.schemaVersionOfPath_path,
          if_neg hf.1, if_pos hf.2]
      have happlied := f.shouldApply_iff semver current target
      have hstep : applyFiles semver paths depth (schemaText current) target.text
          (filePaths driver (f :: files)) =
            (wrap "failed to get schema version of migrate script"
              (lift (getSchemaVersionOfMigrateScript semver paths depth (f.path driver)))) >>=
              fun fileVersion =>
                (if shouldApplyMigration semver fileVersion (schemaText current) target.text then
                  executeMigration (f.path driver) else pure ()) >>= fun _ =>
                    applyFiles semver paths depth (schemaText current) target.text
                      (filePaths driver files) := by
        rw [filePaths, List.map_cons, applyFiles]
        congr 1
        funext fileVersion
        split <;> rfl
      rw [hstep, hversion, hrest]
      by_cases hyes : f.Applied current target
      · have hshould := happlied.mpr hyes
        rw [List.filter_cons_of_pos (by simpa using hyes)]
        simp only [lift, wrap, mapError, done_bind, hshould, if_true]
        rfl
      · have hshould : ¬ shouldApplyMigration semver f.versionText (schemaText current)
            target.text = true := fun hyes' => hyes (happlied.mp hyes')
        rw [List.filter_cons_of_neg (by simpa using hyes)]
        simp only [lift, wrap, mapError, done_bind, hshould]
        rfl

/-- The migrations of readable files. -/
theorem applyMigrations_eq {files : List MigrationFile} (h : Readable files) :
    applyMigrations semver (filePaths driver files) depth (schemaText current) target.text =
      applyAll (filePaths driver ((inPathOrder driver files).filter
        fun f => f.Applied current target)) target.text := by
  have hsorted : Readable (inPathOrder driver files) := fun f hf =>
    h f ((List.mem_insertionSort _).mp hf)
  rw [applyMigrations, sortPaths_filePaths, applyFiles_eq semver driver depth current target _ hsorted]
  rfl

end

/-! ## Running the migrations -/

/-- The database after some migrations. -/
def SchemaState.migrated (db : SchemaState) (paths : List String) : SchemaState where
  initialized := db.initialized
  schemaVersion := db.schemaVersion
  history := db.history ++ paths.map .migration

section

variable (engine : ScriptEngine)

@[simp]
theorem run_isInitialized (s : Session) :
    run engine.step isInitialized s = (.ok s.durable.initialized, s) :=
  rfl

@[simp]
theorem run_getSchemaVersion (s : Session) :
    run engine.step getSchemaVersion s = (.ok s.durable.schemaVersion, s) :=
  rfl

@[simp]
theorem run_beginTx (d : SchemaState) (w : Option SchemaState) :
    run engine.step beginTx ⟨d, w⟩ = (.ok (), ⟨d, some d⟩) :=
  rfl

@[simp]
theorem run_commitTx (context : String) (d w : SchemaState) :
    run engine.step (commitTx context) ⟨d, some w⟩ = (.ok (), ⟨w, none⟩) :=
  rfl

@[simp]
theorem run_updateCurrentSchemaVersion (context schemaVersion : String) (d : SchemaState)
    (w : Option SchemaState) :
    run engine.step ((updateCurrentSchemaVersion schemaVersion).wrap context) ⟨d, w⟩ =
      (.ok (), ⟨{ d with schemaVersion }, w⟩) :=
  rfl

theorem run_execute (script : Script) (d w : SchemaState) :
    run engine.step (execute script) ⟨d, some w⟩ =
      if engine.accepts w.history script then (.ok (), ⟨d, some (w.apply script)⟩)
      else (.error "failed to execute statement: statement rejected", ⟨d, some w⟩) := by
  have hstep : engine.step (.execute script) ⟨d, some w⟩ =
      if engine.accepts w.history script then (.ok (), ⟨d, some (w.apply script)⟩)
      else (.error "statement rejected", ⟨d, some w⟩) := rfl
  have hrun : run engine.step (execute script) ⟨d, some w⟩ =
      ((engine.step (.execute script) ⟨d, some w⟩).1.mapError
        fun message => "failed to execute statement" ++ ": " ++ message,
        (engine.step (.execute script) ⟨d, some w⟩).2) := by
    refine (run_mapError _ _ _).trans ?_
    exact congrArg
      (fun x : Except String Unit × Session => (x.1.mapError
        fun message => "failed to execute statement" ++ ": " ++ message, x.2))
      (run_perform (DbAction.execute script) _)
  rw [hrun, hstep]
  split <;> rfl

theorem run_executeMigration_ok {filePath : String} {d w : SchemaState} {s : Session}
    (h : run engine.step (executeMigration filePath) ⟨d, some w⟩ = (.ok (), s)) :
    s = ⟨d, some (w.apply (.migration filePath))⟩ := by
  rw [executeMigration, run_mapError_ok_iff, run_execute] at h
  split at h
  · simp only [Prod.mk.injEq, true_and] at h
    exact h.symm
  · simp at h

theorem apply_migration (db : SchemaState) (filePath : String) :
    db.apply (.migration filePath) = db.migrated [filePath] := by
  simp [SchemaState.apply, SchemaState.migrated]

theorem migrated_migrated (db : SchemaState) (paths more : List String) :
    (db.migrated paths).migrated more = db.migrated (paths ++ more) := by
  simp [SchemaState.migrated]

/-- Migrations that complete are recorded in the open transaction. -/
theorem run_executeAll_ok {paths : List String} {d w : SchemaState} {s : Session}
    (h : run engine.step (executeAll paths) ⟨d, some w⟩ = (.ok (), s)) :
    s = ⟨d, some (w.migrated paths)⟩ := by
  induction paths generalizing w with
  | nil =>
      simp only [executeAll, run_pure, Prod.mk.injEq, true_and] at h
      rw [← h]
      simp [SchemaState.migrated]
  | cons filePath paths ih =>
      obtain ⟨_, t, hfirst, hrest⟩ := ok_of_run_bind h
      rw [run_executeMigration_ok engine hfirst, apply_migration] at hrest
      rw [ih hrest, migrated_migrated]
      rfl

/-- Migrations that complete are durable, under the version they lead to. -/
theorem run_applyAll_ok {paths : List String} {target : String} {d : SchemaState} {s : Session}
    (h : run engine.step (applyAll paths target) ⟨d, none⟩ = (.ok (), s)) :
    s = ⟨{ d.migrated paths with schemaVersion := target }, none⟩ := by
  rw [applyAll, run_bind_ok (run_beginTx engine d none)] at h
  obtain ⟨_, t, hall, h⟩ := ok_of_run_bind h
  obtain rfl := run_executeAll_ok engine hall
  rw [run_bind_ok (run_commitTx engine _ d _), run_updateCurrentSchemaVersion] at h
  exact (Prod.mk.inj h).2.symm

/-- An engine that accepts every script, and the seed once. -/
def ScriptEngine.permissive : ScriptEngine where
  accepts history script :=
    match script with
    | .seed filename => .seed filename ∉ history
    | _ => true
  seed_once history filename h := by simp [h]

private theorem run_executeAll_permissive (paths : List String) (d w : SchemaState) :
    run ScriptEngine.permissive.step (executeAll paths) ⟨d, some w⟩ =
      (.ok (), ⟨d, some (w.migrated paths)⟩) := by
  induction paths generalizing w with
  | nil => simp [executeAll, SchemaState.migrated]
  | cons filePath paths ih =>
      have hfirst : run ScriptEngine.permissive.step (executeMigration filePath) ⟨d, some w⟩ =
          (.ok (), ⟨d, some (w.migrated [filePath])⟩) := by
        rw [executeMigration, run_mapError_ok_iff, run_execute, apply_migration]
        rfl
      rw [executeAll, run_bind_ok hfirst, ih, migrated_migrated]
      rfl

theorem run_applyAll_permissive (paths : List String) (target : String) (d : SchemaState) :
    run ScriptEngine.permissive.step (applyAll paths target) ⟨d, none⟩ =
      (.ok (), ⟨{ d.migrated paths with schemaVersion := target }, none⟩) := by
  rw [applyAll, run_bind_ok (run_beginTx _ d none),
    run_bind_ok (run_executeAll_permissive paths d d), run_bind_ok (run_commitTx _ _ d _),
    run_updateCurrentSchemaVersion]

end

/-! ## Selection and order -/

/-- The greatest file version is computed, and exactly the selected files are applied, in
increasing version order: the migration runs as the execution of these files does, whatever
the database accepts. -/
def MigratesInOrder (semver : Semver) (driver : String) (current : Option Version)
    (target : Version) (files : List MigrationFile) : Prop :=
  (∀ v, IsGreatest {v | ∃ f ∈ files, f.version = v} v →
    ∃ depth, GetCurrentSchemaVersion semver (filePaths driver files) depth = .ok v.text) ∧
  ∃ depth, ∃ applied : List MigrationFile,
    applied.Perm (files.filter fun f => f.Selected current target) ∧
    applied.Pairwise (fun f g => f.version ≤ g.version) ∧
    ∀ (engine : ScriptEngine) (db : SchemaState),
      run engine.step
          (applyMigrations semver (filePaths driver files) depth (schemaText current) target.text)
          ⟨db, none⟩ =
        run engine.step (applyAll (filePaths driver applied) target.text) ⟨db, none⟩

/-- Every version can be read off its path; a version that overflows is neither selected nor
the greatest; and of two selected files the one with the smaller version has the smaller
path. -/
structure OrderedFiles (driver : String) (current : Option Version) (target : Version)
    (files : List MigrationFile) : Prop where
  readable : Readable files
  overflow : ∀ f ∈ files, f.Overflows →
    ¬ f.Selected current target ∧ ∃ g ∈ files, f.version < g.version
  order : ∀ f ∈ files, ∀ g ∈ files, f.Selected current target → g.Selected current target →
    f.version < g.version → f.path driver < g.path driver

section

variable {semver : Semver} {driver : String} {current : Option Version} {target : Version}
  {files : List MigrationFile}

private theorem exists_greatest_version (hne : files ≠ []) :
    ∃ f ∈ files, ∀ g ∈ files, g.version ≤ f.version := by
  induction files with
  | nil => contradiction
  | cons f files ih =>
      by_cases hnil : files = []
      · subst hnil
        exact ⟨f, by simp, by simp⟩
      · obtain ⟨g, hg, hmax⟩ := ih hnil
        rcases le_total f.version g.version with hle | hle
        · refine ⟨g, by simp [hg], ?_⟩
          rintro h (_ | ⟨_, hh⟩)
          · exact hle
          · exact hmax h hh
        · refine ⟨f, by simp, ?_⟩
          rintro h (_ | ⟨_, hh⟩)
          · exact le_rfl
          · exact (hmax h hh).trans hle

theorem zero_lt_version (f : MigrationFile) : Version.zero < f.version := by
  rw [Version.lt_iff]
  simp only [Version.zero, MigrationFile.version]
  omega

/-- The greatest version is the one computed, when it can be represented. -/
theorem greatestVersion_eq {f : MigrationFile} (hf : f ∈ files) (hoverflow : ¬ f.Overflows)
    (hmax : ∀ g ∈ files, g.version ≤ f.version) :
    greatestVersion .zero files = f.version := by
  have hle := (le_greatestVersion .zero files).2 f hf hoverflow
  rcases greatestVersion_mem .zero files with hzero | ⟨g, hg, -, heq⟩
  · rw [hzero] at hle
    exact absurd (zero_lt_version f) (not_lt.mpr hle)
  · exact le_antisymm (heq ▸ hmax g hg) hle

private theorem OrderedFiles.migratesInOrder (h : OrderedFiles driver current target files) :
    MigratesInOrder semver driver current target files := by
  constructor
  · rintro v ⟨⟨f, hf, rfl⟩, hmax⟩
    have hgreatest : ∀ g ∈ files, g.version ≤ f.version := fun g hg => hmax ⟨g, hg, rfl⟩
    have hoverflow : ¬ f.Overflows := by
      intro hover
      obtain ⟨g, hg, hlt⟩ := (h.overflow f hf hover).2
      exact absurd hlt (not_lt.mpr (hgreatest g hg))
    refine ⟨1, ?_⟩
    rw [GetCurrentSchemaVersion_eq semver driver h.readable, greatestVersion_eq hf hoverflow hgreatest]
  · have hfilter : files.filter (fun f => f.Applied current target) =
        files.filter (fun f => f.Selected current target) := by
      refine List.filter_congr fun f hf => ?_
      have hiff : f.Applied current target ↔ f.Selected current target :=
        ⟨fun ha => ha.2, fun hs => ⟨fun hover => (h.overflow f hf hover).1 hs, hs⟩⟩
      simp [hiff]
    refine ⟨0, (inPathOrder driver files).filter fun f => f.Applied current target, ?_, ?_, ?_⟩
    · rw [← hfilter]
      exact (List.perm_insertionSort _ files).filter _
    · have hsorted : (inPathOrder driver files).Pairwise
          fun f g => f.path driver ≤ g.path driver :=
        List.pairwise_insertionSort (fun f g : MigrationFile => f.path driver ≤ g.path driver) files
      refine (hsorted.filter _).imp_of_mem fun {f g} hf hg hle => ?_
      have hf' := List.mem_filter.mp hf
      have hg' := List.mem_filter.mp hg
      have hfs : f.Applied current target := by simpa using hf'.2
      have hgs : g.Applied current target := by simpa using hg'.2
      by_contra hnot
      have hlt := h.order g ((List.mem_insertionSort _).mp hg'.1) f
        ((List.mem_insertionSort _).mp hf'.1) hgs.2 hfs.2 (not_le.mp hnot)
      exact absurd hlt (not_lt.mpr hle)
    · intro engine db
      rw [applyMigrations_eq semver driver 0 current target h.readable]

/-- A version is only computed from readable files. -/
theorem MigratesInOrder.readable (h : MigratesInOrder semver driver current target files) :
    Readable files := by
  by_contra hunreadable
  have hne : files ≠ [] := by
    rintro rfl
    exact hunreadable (by simp [Readable])
  obtain ⟨f, hf, hmax⟩ := exists_greatest_version hne
  obtain ⟨depth, hok⟩ := h.1 f.version ⟨⟨f, hf, rfl⟩, by
    rintro _ ⟨g, hg, rfl⟩
    exact hmax g hg⟩
  exact GetCurrentSchemaVersion_ne_ok semver driver hunreadable depth _ hok

/-- The greatest version does not overflow: it is the one computed. -/
theorem MigratesInOrder.not_greatest_of_overflows
    (h : MigratesInOrder semver driver current target files) {f : MigrationFile} (hf : f ∈ files)
    (hoverflow : f.Overflows) : ∃ g ∈ files, f.version < g.version := by
  by_contra hnone
  have hmax : ∀ g ∈ files, g.version ≤ f.version := fun g hg =>
    not_lt.mp fun hlt => hnone ⟨g, hg, hlt⟩
  obtain ⟨depth, hok⟩ := h.1 f.version ⟨⟨f, hf, rfl⟩, by
    rintro _ ⟨g, hg, rfl⟩
    exact hmax g hg⟩
  have hcomputed : greatestVersion .zero files = f.version := by
    cases depth with
    | zero => cases hok
    | succ depth =>
        rw [GetCurrentSchemaVersion_eq semver driver h.readable] at hok
        exact Version.eq_of_text_eq semver (Except.ok.inj hok)
  rcases greatestVersion_mem .zero files with hzero | ⟨g, -, hg, heq⟩
  · rw [hzero] at hcomputed
    exact absurd (zero_lt_version f) (by rw [hcomputed]; exact lt_irrefl _)
  · have hpatch : f.patch + 1 = g.patch + 1 := congrArg Version.patch (hcomputed.symm.trans heq)
    exact hg ((Nat.succ_injective hpatch).symm.trans hoverflow)

/-- The paths executed are those of the applied files, in path order. -/
theorem executed_paths (h : Readable files) {depth : ℕ} {applied : List MigrationFile}
    (hrun : run ScriptEngine.permissive.step
        (applyMigrations semver (filePaths driver files) depth (schemaText current) target.text)
        ⟨⟨true, "", []⟩, none⟩ =
      run ScriptEngine.permissive.step (applyAll (filePaths driver applied) target.text)
        ⟨⟨true, "", []⟩, none⟩) :
    filePaths driver applied = filePaths driver ((inPathOrder driver files).filter
      fun f => f.Applied current target) := by
  rw [applyMigrations_eq semver driver depth current target h, run_applyAll_permissive,
    run_applyAll_permissive] at hrun
  have hhistory := congrArg (fun x => x.2.durable.history) hrun
  simp only [SchemaState.migrated, List.nil_append] at hhistory
  have hinj : Function.Injective Script.migration := fun a b hab => Script.migration.inj hab
  exact (List.map_injective_iff.mpr hinj hhistory).symm

/-- Files with one path have one version text. -/
theorem versionText_eq_of_path_eq {f g : MigrationFile} (hf : ¬ f.NamesLatest ∧ f.patch ≤ maxInt)
    (hg : ¬ g.NamesLatest ∧ g.patch ≤ maxInt) (h : f.path driver = g.path driver) :
    f.versionText = g.versionText := by
  have hread := f.schemaVersionOfPath_path (.error "") driver
  rw [h, MigrationFile.schemaVersionOfPath_path, if_neg hf.1, if_pos hf.2, if_neg hg.1,
    if_pos hg.2] at hread
  exact (Except.ok.inj hread).symm

/-- In a list that increases in both orders, the one follows the other. -/
theorem path_le_of_version_lt {l : List MigrationFile}
    (hversions : l.Pairwise fun f g => f.version ≤ g.version)
    (hpaths : l.Pairwise fun f g => f.path driver ≤ g.path driver) {f g : MigrationFile}
    (hf : f ∈ l) (hg : g ∈ l) (hlt : f.version < g.version) :
    f.path driver ≤ g.path driver := by
  obtain ⟨i, hi, rfl⟩ := List.mem_iff_getElem.mp hf
  obtain ⟨j, hj, rfl⟩ := List.mem_iff_getElem.mp hg
  rcases lt_trichotomy i j with hij | rfl | hji
  · exact List.pairwise_iff_getElem.mp hpaths i j hi hj hij
  · exact absurd hlt (lt_irrefl _)
  · exact absurd hlt (not_lt.mpr (List.pairwise_iff_getElem.mp hversions j i hj hi hji))

theorem MigratesInOrder.orderedFiles (h : MigratesInOrder semver driver current target files) :
    OrderedFiles driver current target files := by
  have hreadable := h.readable
  obtain ⟨depth, applied, hperm, hversions, hrun⟩ := h.2
  have hpaths := executed_paths hreadable (hrun .permissive ⟨true, "", []⟩)
  have hmem : ∀ {f}, f ∈ applied ↔ f ∈ files ∧ f.Selected current target := fun {f} => by
    rw [hperm.mem_iff, List.mem_filter]
    simp
  -- the executed paths increase, since files are visited in path order
  have hincreasing : applied.Pairwise fun f g => f.path driver ≤ g.path driver := by
    have hsorted : (inPathOrder driver files).Pairwise fun f g => f.path driver ≤ g.path driver :=
      List.pairwise_insertionSort (fun f g : MigrationFile => f.path driver ≤ g.path driver) files
    have hlist : (filePaths driver applied).Pairwise (· ≤ ·) := by
      rw [hpaths]
      exact List.pairwise_map.mpr (hsorted.filter _)
    exact List.pairwise_map.mp hlist
  have hrepresented : ∀ f ∈ files, f.Selected current target → ¬ f.Overflows := by
    -- a selected version that overflows is never executed
    intro f hf hselected hoverflow
    have hpath : f.path driver ∈ filePaths driver applied :=
      List.mem_map_of_mem (hmem.mpr ⟨hf, hselected⟩)
    rw [hpaths] at hpath
    obtain ⟨g, hg, heq⟩ := List.mem_map.mp hpath
    obtain ⟨hgfiles, hgapplied⟩ := List.mem_filter.mp hg
    have hgmem : g ∈ files := (List.mem_insertionSort _).mp hgfiles
    have hga : g.Applied current target := by simpa using hgapplied
    have htext := versionText_eq_of_path_eq (hreadable g hgmem) (hreadable f hf) heq
    have hgreater := (isVersionGreaterThan_iff semver g.version .zero).mpr (zero_lt_version g)
    rw [← MigrationFile.versionText_of_not_overflows hga.1, htext,
      MigrationFile.not_greater_of_overflows semver hoverflow] at hgreater
    exact Bool.false_ne_true hgreater
  refine ⟨hreadable, fun f hf hoverflow => ⟨fun hselected =>
    hrepresented f hf hselected hoverflow, h.not_greatest_of_overflows hf hoverflow⟩, ?_⟩
  intro f hf g hg hfs hgs hlt
  have hle := path_le_of_version_lt hversions hincreasing (hmem.mpr ⟨hf, hfs⟩)
    (hmem.mpr ⟨hg, hgs⟩) hlt
  refine lt_of_le_of_ne hle fun heq => ?_
  have htext := versionText_eq_of_path_eq (hreadable f hf) (hreadable g hg) heq
  rw [MigrationFile.versionText_of_not_overflows (hrepresented f hf hfs),
    MigrationFile.versionText_of_not_overflows (hrepresented g hg hgs)] at htext
  rw [Version.eq_of_text_eq semver htext] at hlt
  exact lt_irrefl _ hlt

/-- Migration selection and order.  The version computed is the greatest one, and exactly the
selected files are applied in increasing order, if and only if every version can be read, none
that matters overflows, and the paths of the selected files are ordered as their versions. -/
theorem migration_order_iff (semver : Semver) (driver : String) (current : Option Version)
    (target : Version) (files : List MigrationFile) :
    MigratesInOrder semver driver current target files ↔
      OrderedFiles driver current target files :=
  ⟨MigratesInOrder.orderedFiles, OrderedFiles.migratesInOrder⟩

/-- {lit}`0.99/00__a.sql`. -/
def earlierFile : MigrationFile where
  major := 0
  minor := 99
  digits := ['0', '0']
  description := "a"
  digits_ne := by decide
  digits_numeric := by simp
  description_flat := by decide

/-- {lit}`0.100/00__b.sql`: a greater version with a smaller path. -/
def laterFile : MigrationFile where
  major := 0
  minor := 100
  digits := ['0', '0']
  description := "b"
  digits_ne := by decide
  digits_numeric := by simp
  description_flat := by decide

/-- The two files are applied in the wrong order. -/
theorem migration_out_of_order :
    ¬ MigratesInOrder .byComponents "sqlite" (some ⟨0, 98, 1⟩) laterFile.version
      [earlierFile, laterFile] := by
  intro h
  have hlt := h.orderedFiles.order earlierFile (by simp) laterFile (by simp) (by decide) (by decide)
    (by decide)
  exact absurd hlt (by decide)

end

end Store
end MemosNote
