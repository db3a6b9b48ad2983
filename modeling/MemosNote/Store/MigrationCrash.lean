import Mathlib.Data.List.Count
import MemosNote.Store.Migrator

/-!
# Migrations that stop half-way

A migration may stop before any of its database actions.  A transaction that was not
committed leaves nothing behind, but the schema version is recorded only after the commit.

Main results:

- Theorems {lit}`stops_upgrade` and {lit}`stops_create`: the database that a stopped migration
  leaves.
- Theorem {lit}`migrate_again_iff`: migrating again completes the history exactly when every
  commit had been followed by the upsert of the schema version.
-/

namespace MemosNote
namespace Store

open Library Program

/-! ## Traces -/

/-- Every commit is followed by an upsert of the schema version. -/
def Recorded : List DbAction → Prop
  | [] => True
  | a :: rest => (a = .commit → ∃ v, DbAction.upsertInstanceSetting v ∈ rest) ∧ Recorded rest

/-- A trace without commits. -/
def Uncommitted (actions : List DbAction) : Prop :=
  .commit ∉ actions

/-- What commits nothing leaves nothing unrecorded. -/
theorem recorded_of_uncommitted {actions : List DbAction} (h : Uncommitted actions) :
    Recorded actions := by
  induction actions with
  | nil => trivial
  | cons a rest ih =>
      rw [Uncommitted, List.mem_cons, not_or] at h
      exact ⟨fun ha => absurd ha.symm h.1, ih h.2⟩

/-- Two recorded parts are recorded together. -/
theorem Recorded.append {before after : List DbAction} (hbefore : Recorded before)
    (hafter : Recorded after) : Recorded (before ++ after) := by
  induction before with
  | nil => exact hafter
  | cons a rest ih =>
      refine ⟨fun ha => ?_, ih hbefore.2⟩
      obtain ⟨v, hv⟩ := hbefore.1 ha
      exact ⟨v, List.mem_append_left _ hv⟩

/-- The second part of a recorded run is recorded. -/
theorem recorded_of_append {before after : List DbAction} (h : Recorded (before ++ after)) :
    Recorded after := by
  induction before with
  | nil => exact h
  | cons a rest ih => exact ih h.2

/-- A commit after which nothing is recorded. -/
theorem not_recorded {before after : List DbAction}
    (h : ∀ v, DbAction.upsertInstanceSetting v ∉ after) :
    ¬ Recorded (before ++ .commit :: after) := by
  intro hrecorded
  obtain ⟨v, hv⟩ := (recorded_of_append hrecorded).1 rfl
  exact h v hv

/-! ## Reading -/

/-- From a state, the program {lit}`p` only reads before it goes on as {lit}`q`. -/
structure Leads {α : Type} (engine : ScriptEngine) (s : Session) (p q : MigrateM α) : Prop where
  run : p.run engine.step s = q.run engine.step s
  trace : ∃ before, Uncommitted before ∧
    p.trace engine.step s = before ++ q.trace engine.step s
  stops : ∀ x ∈ p.stops engine.step s, ∃ before, Uncommitted before ∧
    ∃ y ∈ q.stops engine.step s, x = (before ++ y.1, y.2)

section

variable {engine : ScriptEngine} {α β : Type} {s : Session}

theorem uncommitted_append {before after : List DbAction} (hbefore : Uncommitted before)
    (hafter : Uncommitted after) : Uncommitted (before ++ after) := fun h =>
  (List.mem_append.mp h).elim hbefore hafter

theorem Leads.refl (p : MigrateM α) : Leads engine s p p where
  run := rfl
  trace := ⟨[], by simp [Uncommitted], rfl⟩
  stops x hx := ⟨[], by simp [Uncommitted], x, hx, rfl⟩

/-- A program leads to what a program that it leads to leads to. -/
theorem Leads.trans {p q r : MigrateM α} (hpq : Leads engine s p q) (hqr : Leads engine s q r) :
    Leads engine s p r where
  run := hpq.run.trans hqr.run
  trace := by
    obtain ⟨before, hbefore, heq⟩ := hpq.trace
    obtain ⟨between, hbetween, heq'⟩ := hqr.trace
    refine ⟨before ++ between, uncommitted_append hbefore hbetween, ?_⟩
    rw [heq, heq', List.append_assoc]
  stops := by
    intro x hx
    obtain ⟨before, hbefore, y, hy, rfl⟩ := hpq.stops x hx
    obtain ⟨between, hbetween, z, hz, rfl⟩ := hqr.stops y hy
    exact ⟨before ++ between, uncommitted_append hbefore hbetween, z, hz, by
      rw [List.append_assoc]⟩

/-- Leading goes through a wrapped error. -/
theorem Leads.wrap {p q : MigrateM α} (h : Leads engine s p q) (context : String) :
    Leads engine s (p.wrap context) (q.wrap context) where
  run := by
    refine (run_mapError _ p s).trans ?_
    rw [h.run]
    exact (run_mapError _ q s).symm
  trace := by
    rw [trace_wrap, trace_wrap]
    exact h.trace
  stops := by
    rw [stops_wrap, stops_wrap]
    exact h.stops

/-- Leading goes through the first part of a program. -/
theorem Leads.bind {p q : MigrateM α} (h : Leads engine s p q) (f : α → MigrateM β) :
    Leads engine s (p >>= f) (q >>= f) where
  run := by rw [run_bind, run_bind, h.run]
  trace := by
    obtain ⟨before, hbefore, heq⟩ := h.trace
    rcases hq : q.run engine.step s with ⟨result, t⟩
    cases result with
    | ok a =>
        refine ⟨before, hbefore, ?_⟩
        rw [trace_bind_ok hq, trace_bind_ok (h.run.trans hq), heq, List.append_assoc]
    | error message =>
        refine ⟨before, hbefore, ?_⟩
        rw [trace_bind_error hq, trace_bind_error (h.run.trans hq), heq]
  stops := by
    intro x hx
    rcases (mem_stops_bind _ _ _ _).mp hx with hx | ⟨a, t, hrun, y, hy, rfl⟩
    · obtain ⟨before, hbefore, y, hy, rfl⟩ := h.stops x hx
      exact ⟨before, hbefore, y, (mem_stops_bind _ _ _ _).mpr (.inl hy), rfl⟩
    · obtain ⟨before, hbefore, heq⟩ := h.trace
      refine ⟨before, hbefore, (q.trace engine.step s ++ y.1, y.2), ?_, ?_⟩
      · exact (mem_stops_bind _ _ _ _).mpr (.inr ⟨a, t, h.run.symm.trans hrun, y, hy, rfl⟩)
      · rw [heq, List.append_assoc]

/-- The look at the tables gives the answer and goes on. -/
theorem leads_isInitialized : Leads engine s isInitialized (pure s.durable.initialized) where
  run := rfl
  trace := ⟨[.isInitialized], by simp [Uncommitted], rfl⟩
  stops := by
    have hstops : isInitialized.stops engine.step s = [([], s), ([.isInitialized], s)] := rfl
    intro x hx
    rw [hstops, List.mem_pair] at hx
    rcases hx with rfl | rfl
    · exact ⟨[], by simp [Uncommitted], ([], s), by simp [pure, Program.stops], rfl⟩
    · exact ⟨[.isInitialized], by simp [Uncommitted], ([], s), by simp [pure, Program.stops], rfl⟩

/-- The look at the version gives the answer and goes on. -/
theorem leads_getSchemaVersion :
    Leads engine s getSchemaVersion (pure s.durable.schemaVersion) where
  run := rfl
  trace := ⟨[.getInstanceBasicSetting], by simp [Uncommitted], rfl⟩
  stops := by
    have hstops : getSchemaVersion.stops engine.step s =
        [([], s), ([.getInstanceBasicSetting], s)] := rfl
    intro x hx
    rw [hstops, List.mem_pair] at hx
    rcases hx with rfl | rfl
    · exact ⟨[], by simp [Uncommitted], ([], s), by simp [pure, Program.stops], rfl⟩
    · exact ⟨[.getInstanceBasicSetting], by simp [Uncommitted], ([], s),
        by simp [pure, Program.stops], rfl⟩

end

/-! ## Transactions -/

/-- The body of a transaction: it changes the working copy only. -/
structure Inside (engine : ScriptEngine) (body : MigrateM Unit) (d w w' : SchemaState) : Prop where
  run : body.run engine.step ⟨d, some w⟩ = (.ok (), ⟨d, some w'⟩)
  trace : Uncommitted (body.trace engine.step ⟨d, some w⟩)
  stops : ∀ x ∈ body.stops engine.step ⟨d, some w⟩, x.2.durable = d ∧ Uncommitted x.1

section

variable {engine : ScriptEngine} {d w w' : SchemaState}

/-- An accepted script acts within the transaction. -/
theorem inside_execute {script : Script} (rewrite : String → String)
    (h : engine.accepts w.history script = true) :
    Inside engine ((execute script).mapError rewrite) d w (w.apply script) where
  run := by rw [run_mapError_ok_iff, run_execute, if_pos h]
  trace := by
    have htrace : (execute script).trace engine.step ⟨d, some w⟩ = [.execute script] :=
      (trace_mapError _ _ _).trans (trace_perform _ _)
    rw [trace_mapError, htrace]
    simp [Uncommitted]
  stops := by
    have hstops : (execute script).stops engine.step ⟨d, some w⟩ =
        [([], ⟨d, some w⟩), ([.execute script], (engine.step (.execute script) ⟨d, some w⟩).2)] :=
      (stops_mapError _ _ _).trans (stops_perform _ _)
    have hstep : (engine.step (.execute script) ⟨d, some w⟩).2 = ⟨d, some (w.apply script)⟩ := by
      simp [ScriptEngine.step, h]
    intro x hx
    rw [stops_mapError, hstops, hstep, List.mem_pair] at hx
    rcases hx with rfl | rfl <;> simp [Uncommitted]

/-- Two parts of a transaction. -/
theorem Inside.bind {body next : MigrateM Unit} {w'' : SchemaState}
    (hbody : Inside engine body d w w') (hnext : Inside engine next d w' w'') :
    Inside engine (body >>= fun _ => next) d w w'' where
  run := by rw [run_bind_ok hbody.run, hnext.run]
  trace := by
    rw [trace_bind_ok hbody.run]
    exact uncommitted_append hbody.trace hnext.trace
  stops := by
    intro x hx
    rcases (mem_stops_bind _ _ _ _).mp hx with hx | ⟨_, t, hrun, y, hy, rfl⟩
    · exact hbody.stops x hx
    · rw [hbody.run] at hrun
      obtain rfl := (Prod.mk.inj hrun).2
      obtain ⟨hdurable, hun⟩ := hnext.stops y hy
      exact ⟨hdurable, uncommitted_append hbody.trace hun⟩

private theorem inside_executeAll {paths : List String} {s : Session}
    (h : (executeAll paths).run engine.step ⟨d, some w⟩ = (.ok (), s)) :
    Inside engine (executeAll paths) d w (w.migrated paths) := by
  induction paths generalizing w with
  | nil =>
      refine ⟨?_, by simp [executeAll, pure, Program.trace, Uncommitted], ?_⟩
      · simp [executeAll, SchemaState.migrated]
      · simp [executeAll, pure, Program.stops, Uncommitted]
  | cons filePath paths ih =>
      obtain ⟨_, t, hfirst, hrest⟩ := ok_of_run_bind h
      have haccepts : engine.accepts w.history (.migration filePath) = true := by
        by_contra hrejects
        rw [executeMigration, run_mapError_ok_iff, run_execute, if_neg hrejects] at hfirst
        simp at hfirst
      have hinside := inside_execute (d := d) (fun e =>
        "failed to execute migration " ++ filePath ++ ": " ++ e ++ ": " ++ e) haccepts
      rw [run_executeMigration_ok engine hfirst] at hrest
      have hboth := hinside.bind (ih hrest)
      rw [apply_migration, migrated_migrated] at hboth
      exact hboth

/-- Commit the transaction, and record the schema version after it. -/
theorem stops_commit_record {context context' schemaVersion : String} {x : List DbAction × Session}
    (hx : x ∈ (commitTx context >>= fun _ =>
      (updateCurrentSchemaVersion schemaVersion).wrap context').stops engine.step ⟨d, some w⟩) :
    x = ([], ⟨d, some w⟩) ∨
    (x.2.durable = w ∧ ∃ after, x.1 = .commit :: after ∧
      ∀ v, DbAction.upsertInstanceSetting v ∉ after) ∨
    (x.2.durable = { w with schemaVersion } ∧
      x.1 = [.commit, .getInstanceBasicSetting, .upsertInstanceSetting schemaVersion]) := by
  have hstops : (commitTx context >>= fun _ =>
      (updateCurrentSchemaVersion schemaVersion).wrap context').stops engine.step ⟨d, some w⟩ =
      [([], ⟨d, some w⟩), ([.commit], ⟨w, none⟩),
        ([.commit, .getInstanceBasicSetting], ⟨w, none⟩),
        ([.commit, .getInstanceBasicSetting, .upsertInstanceSetting schemaVersion],
          ⟨{ w with schemaVersion }, none⟩)] := rfl
  rw [hstops] at hx
  simp only [List.mem_cons, List.not_mem_nil, or_false] at hx
  rcases hx with rfl | rfl | rfl | rfl
  · exact .inl rfl
  · exact .inr (.inl ⟨rfl, [], rfl, by simp⟩)
  · exact .inr (.inl ⟨rfl, _, rfl, by simp⟩)
  · exact .inr (.inr ⟨rfl, rfl⟩)

/-- A transaction with its record stops before the commit, between the commit and the record,
or after both. -/
theorem stops_transaction {body : MigrateM Unit} {context context' schemaVersion : String}
    (hbody : Inside engine body d d w) {x : List DbAction × Session}
    (hx : x ∈ (beginTx >>= fun _ => body >>= fun _ => commitTx context >>= fun _ =>
      (updateCurrentSchemaVersion schemaVersion).wrap context').stops engine.step ⟨d, none⟩) :
    (x.2.durable = d ∧ Uncommitted x.1) ∨ (x.2.durable = w ∧ ¬ Recorded x.1) ∨
    (x.2.durable = { w with schemaVersion } ∧ Recorded x.1) := by
  have hbegin : beginTx.stops engine.step ⟨d, none⟩ = [([], ⟨d, none⟩), ([.begin], ⟨d, some d⟩)] :=
    rfl
  have htrace : beginTx.trace engine.step ⟨d, none⟩ = [.begin] := rfl
  rcases (mem_stops_bind _ _ _ _).mp hx with hx | ⟨_, t, hrun, y, hy, rfl⟩
  · rw [hbegin, List.mem_pair] at hx
    rcases hx with rfl | rfl <;> simp [Uncommitted]
  rw [run_beginTx] at hrun
  obtain rfl := (Prod.mk.inj hrun).2
  rw [htrace]
  have hopen : Uncommitted [.begin] := by simp [Uncommitted]
  rcases (mem_stops_bind _ _ _ _).mp hy with hy | ⟨_, t, hrun, z, hz, rfl⟩
  · obtain ⟨hdurable, hun⟩ := hbody.stops y hy
    exact .inl ⟨hdurable, uncommitted_append hopen hun⟩
  rw [hbody.run] at hrun
  obtain rfl := (Prod.mk.inj hrun).2
  have hbefore := uncommitted_append hopen hbody.trace
  rcases stops_commit_record hz with rfl | ⟨hdurable, after, hz, hnone⟩ | ⟨hdurable, hz⟩
  · rw [List.append_nil]
    exact .inl ⟨rfl, hbefore⟩
  · refine .inr (.inl ⟨hdurable, ?_⟩)
    rw [hz, ← List.append_assoc]
    exact not_recorded hnone
  · refine .inr (.inr ⟨hdurable, ?_⟩)
    rw [hz, ← List.append_assoc]
    refine (recorded_of_uncommitted hbefore).append ?_
    simp [Recorded]

/-- A transaction with its record, uninterrupted. -/
theorem run_transaction {body : MigrateM Unit} {context context' schemaVersion : String}
    (hbody : Inside engine body d d w) :
    (beginTx >>= fun _ => body >>= fun _ => commitTx context >>= fun _ =>
      (updateCurrentSchemaVersion schemaVersion).wrap context').run engine.step ⟨d, none⟩ =
      (.ok (), ⟨{ w with schemaVersion }, none⟩) := by
  rw [run_bind_ok (run_beginTx engine d none), run_bind_ok hbody.run,
    run_bind_ok (run_commitTx engine _ d _), run_updateCurrentSchemaVersion]

/-- A transaction that is followed by the upsert of the version is recorded. -/
theorem recorded_transaction {body : MigrateM Unit} {context context' schemaVersion : String}
    (hbody : Inside engine body d d w) :
    Recorded ((beginTx >>= fun _ => body >>= fun _ => commitTx context >>= fun _ =>
      (updateCurrentSchemaVersion schemaVersion).wrap context').trace engine.step ⟨d, none⟩) := by
  have hbegin : beginTx.trace engine.step ⟨d, none⟩ = [.begin] := rfl
  have hcommit : (commitTx context >>= fun _ =>
      (updateCurrentSchemaVersion schemaVersion).wrap context').trace engine.step ⟨d, some w⟩ =
      [.commit, .getInstanceBasicSetting, .upsertInstanceSetting schemaVersion] := rfl
  rw [trace_bind_ok (run_beginTx engine d none), trace_bind_ok hbody.run, hbegin, hcommit,
    ← List.append_assoc]
  have hopen : Uncommitted [.begin] := by simp [Uncommitted]
  refine (recorded_of_uncommitted (uncommitted_append hopen hbody.trace)).append ?_
  simp [Recorded]

end

/-! ## The seed -/

section

variable {engine : ScriptEngine} {driver : String} {demo : Bool} {d : SchemaState}

/-- The database after the seed, which only SQLite has and only the demo runs. -/
def SchemaState.seeded (db : SchemaState) (driver : String) (demo : Bool) : SchemaState :=
  if demo ∧ driver = "sqlite" then db.apply (.seed seedFile) else db

/-- Without the demo there is no seed. -/
theorem seedDemo_eq_pure (h : ¬ (demo ∧ driver = "sqlite")) : seedDemo driver demo = pure () := by
  rw [seedDemo]
  split
  · rename_i hdemo
    have hdriver : driver ≠ "sqlite" := fun heq => h ⟨hdemo, heq⟩
    rw [seed, if_pos hdriver]
    rfl
  · rfl

theorem seedDemo_eq (h : demo ∧ driver = "sqlite") :
    seedDemo driver demo = (beginTx >>= fun _ =>
      (execute (.seed seedFile)).wrap ("seed error: " ++ seedFile) >>= fun _ =>
        perform DbAction.commit).wrap "failed to seed" := by
  obtain ⟨rfl, rfl⟩ := h
  rfl

/-- A seed that completes was accepted. -/
theorem accepts_of_run_seedDemo (h : demo ∧ driver = "sqlite") {s : Session}
    (hrun : (seedDemo driver demo).run engine.step ⟨d, none⟩ = (.ok (), s)) :
    engine.accepts d.history (.seed seedFile) = true := by
  rw [seedDemo_eq h, run_wrap_ok_iff, run_bind_ok (run_beginTx engine d none)] at hrun
  obtain ⟨_, t, hexecute, -⟩ := ok_of_run_bind hrun
  rw [run_wrap_ok_iff, run_execute] at hexecute
  by_contra hrejects
  rw [if_neg hrejects] at hexecute
  simp at hexecute

/-- A seed that succeeds has seeded the database. -/
theorem run_seedDemo {s : Session}
    (hrun : (seedDemo driver demo).run engine.step ⟨d, none⟩ = (.ok (), s)) :
    s = ⟨d.seeded driver demo, none⟩ := by
  by_cases h : demo ∧ driver = "sqlite"
  · have hinside := inside_execute (d := d)
      (fun message => "seed error: " ++ seedFile ++ ": " ++ message)
      (accepts_of_run_seedDemo h hrun)
    have hexecute : ((execute (.seed seedFile)).wrap ("seed error: " ++ seedFile)).run engine.step
        ⟨d, some d⟩ = (.ok (), ⟨d, some (d.apply (.seed seedFile))⟩) := hinside.run
    rw [seedDemo_eq h, run_wrap_ok_iff, run_bind_ok (run_beginTx engine d none),
      run_bind_ok hexecute] at hrun
    rw [SchemaState.seeded, if_pos h]
    exact (Prod.mk.inj hrun).2.symm
  · rw [seedDemo_eq_pure h] at hrun
    rw [SchemaState.seeded, if_neg h]
    exact (Prod.mk.inj hrun).2.symm

/-- A seed that completes is rejected afterwards. -/
theorem run_seedDemo_again (h : demo ∧ driver = "sqlite")
    (hseeded : .seed seedFile ∈ d.history) (s : Session) :
    (seedDemo driver demo).run engine.step ⟨d, none⟩ ≠ (.ok (), s) := fun hrun => by
  have haccepts := accepts_of_run_seedDemo h hrun
  rw [engine.seed_once d.history seedFile hseeded] at haccepts
  exact Bool.false_ne_true haccepts

/-- The seed stops before its commit, which nothing records, or after it. -/
theorem stops_seedDemo {s : Session}
    (hrun : (seedDemo driver demo).run engine.step ⟨d, none⟩ = (.ok (), s))
    {x : List DbAction × Session} (hx : x ∈ (seedDemo driver demo).stops engine.step ⟨d, none⟩) :
    (x.2.durable = d ∧ Uncommitted x.1) ∨
    ((demo ∧ driver = "sqlite") ∧ x.2.durable = d.apply (.seed seedFile) ∧ ¬ Recorded x.1) := by
  by_cases h : demo ∧ driver = "sqlite"
  · have hinside := inside_execute (d := d)
      (fun message => "seed error: " ++ seedFile ++ ": " ++ message)
      (accepts_of_run_seedDemo h hrun)
    have hbegin : beginTx.stops engine.step ⟨d, none⟩ =
        [([], ⟨d, none⟩), ([.begin], ⟨d, some d⟩)] := rfl
    have htrace : beginTx.trace engine.step ⟨d, none⟩ = [.begin] := rfl
    have hopen : Uncommitted [.begin] := by simp [Uncommitted]
    rw [seedDemo_eq h, stops_wrap] at hx
    rcases (mem_stops_bind _ _ _ _).mp hx with hx | ⟨_, t, hrun, y, hy, rfl⟩
    · rw [hbegin, List.mem_pair] at hx
      rcases hx with rfl | rfl <;> simp [Uncommitted]
    rw [run_beginTx] at hrun
    obtain rfl := (Prod.mk.inj hrun).2
    rw [htrace]
    rcases (mem_stops_bind _ _ _ _).mp hy with hy | ⟨_, t, hrun, z, hz, rfl⟩
    · obtain ⟨hdurable, hun⟩ := hinside.stops y hy
      exact .inl ⟨hdurable, uncommitted_append hopen hun⟩
    obtain rfl := (Prod.mk.inj (hinside.run.symm.trans hrun)).2
    have hcommit : (perform DbAction.commit : MigrateM Unit).stops engine.step
        ⟨d, some (d.apply (.seed seedFile))⟩ = [([], ⟨d, some (d.apply (.seed seedFile))⟩),
          ([.commit], ⟨d.apply (.seed seedFile), none⟩)] := rfl
    have hbefore := uncommitted_append hopen hinside.trace
    rw [hcommit, List.mem_pair] at hz
    rcases hz with rfl | rfl
    · rw [List.append_nil]
      exact .inl ⟨rfl, hbefore⟩
    · refine .inr ⟨h, rfl, ?_⟩
      rw [← List.append_assoc]
      exact not_recorded (by simp)
  · rw [seedDemo_eq_pure h] at hx
    simp only [pure, Program.stops, List.mem_singleton] at hx
    rw [hx]
    exact .inl ⟨rfl, by simp [Uncommitted]⟩

end

/-! ## A database that is already initialized -/

section

variable {engine : ScriptEngine} {semver : Semver} {driver : String} {demo : Bool}
  {files : List MigrationFile} {depth : ℕ} {db : SchemaState}

/-- A recorded version that can be upgraded. -/
def canUpgrade (semver : Semver) (schemaVersion : String) : Bool :=
  !isVersionEmpty schemaVersion &&
    IsVersionGreaterOrEqualThan semver schemaVersion minimumVersion.text

/-- An installation can be upgraded from the smallest version on. -/
theorem canUpgrade_iff (v : Version) : canUpgrade semver v.text = true ↔ minimumVersion ≤ v := by
  rw [canUpgrade, Bool.and_eq_true, isVersionGreaterOrEqualThan_iff]
  refine ⟨fun h => h.2, fun h => ⟨?_, h⟩⟩
  have hnonzero : v.text ≠ defaultSchemaVersion := by
    intro heq
    have hzero : defaultSchemaVersion = Version.zero.text := by decide
    rw [hzero] at heq
    rw [Version.eq_of_text_eq semver heq] at h
    exact absurd h (by decide)
  simp [isVersionEmpty, v.text_ne_empty, hnonzero]

/-- A version to upgrade from is not empty. -/
theorem isVersionEmpty_of_canUpgrade {schemaVersion : String}
    (h : canUpgrade semver schemaVersion = true) : isVersionEmpty schemaVersion = false := by
  rw [canUpgrade, Bool.and_eq_true, Bool.not_eq_true'] at h
  exact h.1

/-- The check of an initialized database reads its version and passes or fails. -/
theorem leads_checkMinimumUpgradeVersion (hinit : db.initialized = true) (paths : List String) :
    ∃ message, Leads engine ⟨db, none⟩ (checkMinimumUpgradeVersion semver paths depth)
      (if canUpgrade semver db.schemaVersion then pure () else fail message) := by
  refine ⟨tooOldMessage db.schemaVersion
    ((GetCurrentSchemaVersion semver paths depth).toOption.getD ""), ?_⟩
  refine (leads_getSchemaVersion.bind _).trans ?_
  rw [pure_bind]
  by_cases hcan : canUpgrade semver db.schemaVersion = true
  · rw [if_pos hcan]
    rw [canUpgrade] at hcan
    simp only [hcan, if_true]
    exact Leads.refl _
  · rw [if_neg hcan]
    rw [canUpgrade] at hcan
    simp only [hcan]
    by_cases hempty : isVersionEmpty db.schemaVersion = true
    · simp only [hempty, if_true]
      refine (leads_isInitialized.bind _).trans ?_
      rw [pure_bind, hinit]
      exact Leads.refl _
    · simp only [hempty]
      exact Leads.refl _

/-- The migration of a database that has its tables. -/
def checkAndMigrate (semver : Semver) (driver : String) (paths : List String) (depth : ℕ)
    (demo : Bool) : MigrateM Unit := do
  (checkMinimumUpgradeVersion semver paths depth).wrap "failed to pre-migrate"
  migrateChecked semver driver paths depth demo

/-- On an initialized database the program comes to the check of the version. -/
theorem leads_checkAndMigrate (hinit : db.initialized = true) (paths : List String) :
    Leads engine ⟨db, none⟩ (Migrate semver driver paths depth demo)
      (checkAndMigrate semver driver paths depth demo) := by
  have hpre : Leads engine ⟨db, none⟩ (preMigrate semver driver paths depth)
      (checkMinimumUpgradeVersion semver paths depth) := by
    refine (leads_isInitialized.bind _).trans ?_
    rw [pure_bind, hinit]
    exact Leads.refl _
  exact (hpre.wrap _).bind _

/-- The target is the greatest version of the files. -/
theorem currentSchemaVersion_eq (h : Readable files) :
    currentSchemaVersion semver (filePaths driver files) (depth + 1) =
      pure (greatestVersion .zero files).text := by
  rw [currentSchemaVersion, GetCurrentSchemaVersion_eq semver driver h]
  rfl

/-- The paths of the files that lead from a version to the greatest one. -/
def appliedPaths (driver : String) (files : List MigrationFile) (v : Version) : List String :=
  filePaths driver ((inPathOrder driver files).filter
    fun f => f.Applied (some v) (greatestVersion .zero files))

/-- What is left to be done for a database that passed the check. -/
def upgrade (driver : String) (files : List MigrationFile) (demo : Bool) (v : Version) :
    MigrateM Unit := do
  if v < greatestVersion .zero files then
    (applyAll (appliedPaths driver files v) (greatestVersion .zero files).text).wrap
      "failed to apply migrations"
  seedDemo driver demo

/-- The migration of a checked database. -/
theorem leads_upgrade (h : Readable files) {v : Version} (hversion : db.schemaVersion = v.text)
    (hle : v ≤ greatestVersion .zero files) (hmin : minimumVersion ≤ v)
    (hinit : db.initialized = true) :
    Leads engine ⟨db, none⟩
      (checkAndMigrate semver driver (filePaths driver files) (depth + 1) demo)
      (upgrade driver files demo v) := by
  have hcan : canUpgrade semver v.text = true := (canUpgrade_iff v).mpr hmin
  obtain ⟨message, hcheck⟩ :=
    @leads_checkMinimumUpgradeVersion engine semver (depth + 1) db hinit (filePaths driver files)
  rw [hversion, if_pos hcan] at hcheck
  refine ((hcheck.wrap _).bind _).trans ?_
  refine (leads_getSchemaVersion.bind _).trans ?_
  rw [currentSchemaVersion_eq h, pure_bind, pure_bind, hversion]
  have hempty := isVersionEmpty_of_canUpgrade hcan
  have hdowngrade : IsVersionGreaterThan semver v.text (greatestVersion .zero files).text = false := by
    rw [← Bool.not_eq_true, isVersionGreaterThan_iff]
    exact not_lt.mpr hle
  rw [hempty, hdowngrade, upgrade]
  by_cases hlt : v < greatestVersion .zero files
  · have hgreater := (isVersionGreaterThan_iff semver (greatestVersion .zero files) v).mpr hlt
    have happly := applyMigrations_eq semver driver (depth + 1) (some v)
      (greatestVersion .zero files) h
    rw [schemaText] at happly
    rw [hgreater, if_pos hlt, happly]
    exact Leads.refl _
  · have hgreater : IsVersionGreaterThan semver (greatestVersion .zero files).text v.text =
        false := by
      rw [← Bool.not_eq_true, isVersionGreaterThan_iff]
      exact hlt
    rw [hgreater, if_neg hlt]
    exact Leads.refl _

/-- A migration that completes has passed its check. -/
theorem checked_of_run (h : Readable files) {current : Option Version}
    (hversion : db.schemaVersion = schemaText current) (hinit : db.initialized = true) {s : Session}
    (hrun : (checkAndMigrate semver driver (filePaths driver files) (depth + 1) demo).run engine.step
      ⟨db, none⟩ = (.ok (), s)) :
    ∃ v, current = some v ∧ minimumVersion ≤ v ∧ v ≤ greatestVersion .zero files := by
  obtain ⟨message, hcheck⟩ :=
    @leads_checkMinimumUpgradeVersion engine semver (depth + 1) db hinit (filePaths driver files)
  obtain ⟨_, t, hcheckRun, hrest⟩ := ok_of_run_bind hrun
  rw [run_wrap_ok_iff, hcheck.run] at hcheckRun
  have hcan : canUpgrade semver db.schemaVersion = true := by
    by_contra hcannot
    rw [if_neg hcannot] at hcheckRun
    simp at hcheckRun
  rw [if_pos hcan, run_pure] at hcheckRun
  obtain rfl := (Prod.mk.inj hcheckRun).2
  rw [hversion] at hcan
  cases current with
  | none => exact absurd hcan (by simp [canUpgrade, isVersionEmpty, schemaText])
  | some v =>
      rw [schemaText] at hversion hcan
      refine ⟨v, rfl, (canUpgrade_iff v).mp hcan, ?_⟩
      by_contra hgt
      have hempty := isVersionEmpty_of_canUpgrade hcan
      have hdowngrade := (isVersionGreaterThan_iff semver v (greatestVersion .zero files)).mpr
        (not_le.mp hgt)
      rw [migrateChecked, run_bind_ok (run_getSchemaVersion engine _), currentSchemaVersion_eq h,
        pure_bind] at hrest
      simp [hversion, hempty, hdowngrade] at hrest

/-- The database after the migrations from a version on. -/
def SchemaState.upgraded (db : SchemaState) (driver : String) (files : List MigrationFile)
    (v : Version) : SchemaState :=
  if v < greatestVersion .zero files then
    { db.migrated (appliedPaths driver files v) with
      schemaVersion := (greatestVersion .zero files).text }
  else db

/-- The applied migrations, uninterrupted and stopped. -/
theorem inside_of_run_upgrade {v : Version} {s : Session} (hlt : v < greatestVersion .zero files)
    (hrun : (upgrade driver files demo v).run engine.step ⟨db, none⟩ = (.ok (), s)) :
    Inside engine (executeAll (appliedPaths driver files v)) db db
      (db.migrated (appliedPaths driver files v)) := by
  rw [upgrade, if_pos hlt] at hrun
  obtain ⟨_, t, hfirst, -⟩ := ok_of_run_bind hrun
  rw [run_wrap_ok_iff, applyAll, run_bind_ok (run_beginTx engine db none)] at hfirst
  obtain ⟨_, t', hall, -⟩ := ok_of_run_bind hfirst
  exact inside_executeAll hall

/-- A completed upgrade has completed its seed after the migrations. -/
theorem run_upgrade {v : Version} {s : Session}
    (hrun : (upgrade driver files demo v).run engine.step ⟨db, none⟩ = (.ok (), s)) :
    (seedDemo driver demo).run engine.step ⟨db.upgraded driver files v, none⟩ = (.ok (), s) := by
  by_cases hlt : v < greatestVersion .zero files
  · have hinside := inside_of_run_upgrade hlt hrun
    rw [upgrade, if_pos hlt] at hrun
    obtain ⟨_, t, hfirst, hrest⟩ := ok_of_run_bind hrun
    rw [run_wrap_ok_iff] at hfirst
    obtain rfl := (Prod.mk.inj (hfirst.symm.trans (run_transaction hinside))).2
    rw [SchemaState.upgraded, if_pos hlt]
    exact hrest
  · rw [upgrade, if_neg hlt] at hrun
    rw [SchemaState.upgraded, if_neg hlt]
    exact hrun

/-- An upgrade stops with its database unchanged, migrated or completely recorded, or else after
the seed. -/
theorem stops_upgrade {v : Version} {s : Session}
    (hrun : (upgrade driver files demo v).run engine.step ⟨db, none⟩ = (.ok (), s))
    {x : List DbAction × Session}
    (hx : x ∈ (upgrade driver files demo v).stops engine.step ⟨db, none⟩) :
    ((x.2.durable = db ∨ x.2.durable = db.upgraded driver files v) ∧ Recorded x.1) ∨
    ((v < greatestVersion .zero files ∧
        x.2.durable = db.migrated (appliedPaths driver files v)) ∧ ¬ Recorded x.1) ∨
    (((demo ∧ driver = "sqlite") ∧
        x.2.durable = (db.upgraded driver files v).apply (.seed seedFile)) ∧ ¬ Recorded x.1) := by
  have hseed := run_upgrade hrun
  by_cases hlt : v < greatestVersion .zero files
  · have hinside := inside_of_run_upgrade hlt hrun
    rw [upgrade, if_pos hlt] at hx
    rw [SchemaState.upgraded, if_pos hlt] at hseed ⊢
    rcases (mem_stops_bind _ _ _ _).mp hx with hx | ⟨_, t, hfirst, y, hy, rfl⟩
    · rw [stops_wrap] at hx
      rcases stops_transaction hinside hx with ⟨hd, hun⟩ | ⟨hd, hnot⟩ | ⟨hd, hrec⟩
      · exact .inl ⟨.inl hd, recorded_of_uncommitted hun⟩
      · exact .inr (.inl ⟨⟨hlt, hd⟩, hnot⟩)
      · exact .inl ⟨.inr hd, hrec⟩
    · rw [run_wrap_ok_iff] at hfirst
      obtain rfl := (Prod.mk.inj (hfirst.symm.trans (run_transaction hinside))).2
      have hrecorded : Recorded (((applyAll (appliedPaths driver files v)
          (greatestVersion .zero files).text).wrap "failed to apply migrations").trace engine.step
            ⟨db, none⟩) := by
        rw [trace_wrap]
        exact recorded_transaction hinside
      rcases stops_seedDemo hseed hy with ⟨hd, hun⟩ | ⟨hdemo, hd, hnot⟩
      · exact .inl ⟨.inr hd, hrecorded.append (recorded_of_uncommitted hun)⟩
      · exact .inr (.inr ⟨⟨hdemo, hd⟩, fun h => hnot (recorded_of_append h)⟩)
  · rw [upgrade, if_neg hlt] at hx
    rw [SchemaState.upgraded, if_neg hlt] at hseed ⊢
    rcases stops_seedDemo hseed hx with ⟨hd, hun⟩ | ⟨hdemo, hd, hnot⟩
    · exact .inl ⟨.inl hd, recorded_of_uncommitted hun⟩
    · exact .inr (.inr ⟨⟨hdemo, hd⟩, hnot⟩)

end

/-! ## Migrating again -/

section

variable (engine : ScriptEngine) (semver : Semver) (driver : String) (files : List MigrationFile)
  (depth : ℕ) (demo : Bool) (start : SchemaState) (current : Option Version)

/-- Migrating the database that was left again succeeds, leaves the schema version at the
target, and completes a history in which each selected file occurs once; a database that was
created with the latest schema has executed none of them. -/
def MigratesAgain (left : SchemaState) : Prop :=
  ∃ s, (Migrate semver driver (filePaths driver files) depth demo).run engine.step ⟨left, none⟩ =
      (.ok (), s) ∧
    s.durable.schemaVersion = (greatestVersion .zero files).text ∧
    ∃ later, s.durable.history = start.history ++ later ∧
      ∀ f ∈ files, later.count (.migration (f.path driver)) =
        if start.initialized ∧ f.Selected current (greatestVersion .zero files) then 1 else 0

end

section

variable {engine : ScriptEngine} {semver : Semver} {driver : String} {files : List MigrationFile}
  {depth : ℕ} {demo : Bool} {start : SchemaState} {current : Option Version}

/-- A path is applied at most once in an upgrade. -/
theorem count_appliedPaths (hnodup : (filePaths driver files).Nodup) (v : Version)
    {f : MigrationFile} (hf : f ∈ files) :
    (appliedPaths driver files v).count (f.path driver) =
      if f.Applied (some v) (greatestVersion .zero files) then 1 else 0 := by
  have hperm : (appliedPaths driver files v).Perm
      (filePaths driver (files.filter fun f => f.Applied (some v) (greatestVersion .zero files))) :=
    ((List.perm_insertionSort _ files).filter _).map _
  have hsub : (filePaths driver
      (files.filter fun f => f.Applied (some v) (greatestVersion .zero files))).Nodup :=
    hnodup.sublist ((List.filter_sublist).map _)
  rw [hperm.count_eq, hsub.count]
  refine if_congr ?_ rfl rfl
  constructor
  · intro hmem
    obtain ⟨g, hg, heq⟩ := List.mem_map.mp hmem
    obtain ⟨hgfiles, happlied⟩ := List.mem_filter.mp hg
    rw [← List.inj_on_of_nodup_map hnodup hgfiles hf heq]
    simpa using happlied
  · intro happlied
    exact List.mem_map_of_mem (List.mem_filter.mpr ⟨hf, by simpa using happlied⟩)

/-- How often a migration occurs among the scripts. -/
theorem count_migrations (paths : List String) (path : String) :
    (paths.map Script.migration).count (.migration path) = paths.count path :=
  List.count_map_of_injective _ _ (fun _ _ h => Script.migration.inj h) _

/-- The history of a completed upgrade. -/
theorem history_upgraded (hnodup : (filePaths driver files).Nodup) (db : SchemaState)
    (v : Version) :
    ∃ later, ((db.upgraded driver files v).seeded driver demo).history = db.history ++ later ∧
      ∀ f ∈ files, later.count (.migration (f.path driver)) =
        if f.Applied (some v) (greatestVersion .zero files) then 1 else 0 := by
  have hupgraded : ∃ later, (db.upgraded driver files v).history = db.history ++ later ∧
      ∀ f ∈ files, later.count (.migration (f.path driver)) =
        if f.Applied (some v) (greatestVersion .zero files) then 1 else 0 := by
    by_cases hlt : v < greatestVersion .zero files
    · rw [SchemaState.upgraded, if_pos hlt]
      refine ⟨_, rfl, fun f hf => ?_⟩
      rw [count_migrations, count_appliedPaths hnodup v hf]
    · rw [SchemaState.upgraded, if_neg hlt]
      refine ⟨[], (List.append_nil _).symm, fun f hf => ?_⟩
      have hnone : ¬ f.Applied (some v) (greatestVersion .zero files) := fun h =>
        hlt (h.2.1.trans_le h.2.2)
      rw [if_neg hnone, List.count_nil]
  obtain ⟨later, hlater, hcount⟩ := hupgraded
  by_cases hdemo : demo ∧ driver = "sqlite"
  · rw [SchemaState.seeded, if_pos hdemo]
    refine ⟨later ++ [.seed seedFile], ?_, fun f hf => ?_⟩
    · rw [SchemaState.apply, hlater, List.append_assoc]
    · rw [List.count_append, hcount f hf]
      simp
  · rw [SchemaState.seeded, if_neg hdemo]
    exact ⟨later, hlater, hcount⟩

/-- A version is computed from readable files only, with a call stack. -/
theorem readable_of_run {s t : Session}
    (hrun : (migrateChecked semver driver (filePaths driver files) depth demo).run engine.step s =
      (.ok (), t)) : ∃ n, depth = n + 1 ∧ Readable files := by
  rw [migrateChecked, run_bind_ok (run_getSchemaVersion engine s)] at hrun
  obtain ⟨target, t', hversion, -⟩ := ok_of_run_bind hrun
  rw [currentSchemaVersion, run_wrap_ok_iff, run_lift] at hversion
  have hok := (Prod.mk.inj hversion).1
  cases depth with
  | zero => simp [GetCurrentSchemaVersion, throw, throwThe, MonadExceptOf.throw] at hok
  | succ n =>
      refine ⟨n, rfl, ?_⟩
      by_contra hunreadable
      exact GetCurrentSchemaVersion_ne_ok semver driver hunreadable _ _ hok

/-- A database that the migration checked: its version can be upgraded and is not too new. -/
structure Checked (files : List MigrationFile) (db : SchemaState) (v : Version) : Prop where
  initialized : db.initialized = true
  version : db.schemaVersion = v.text
  minimum : minimumVersion ≤ v
  le : v ≤ greatestVersion .zero files

/-- Executed migrations keep what was checked. -/
theorem Checked.migrated {db : SchemaState} {v : Version} (h : Checked files db v)
    (paths : List String) : Checked files (db.migrated paths) v :=
  ⟨h.initialized, h.version, h.minimum, h.le⟩

/-- An executed script keeps what was checked. -/
theorem Checked.apply {db : SchemaState} {v : Version} (h : Checked files db v) (script : Script) :
    Checked files (db.apply script) v :=
  ⟨by rw [SchemaState.apply, h.initialized, Bool.true_or], h.version, h.minimum, h.le⟩

/-- An upgraded database is at the greatest version. -/
theorem Checked.upgraded {db : SchemaState} {v : Version} (h : Checked files db v) :
    Checked files (db.upgraded driver files v) (greatestVersion .zero files) := by
  by_cases hlt : v < greatestVersion .zero files
  · rw [SchemaState.upgraded, if_pos hlt]
    exact ⟨h.initialized, rfl, h.minimum.trans h.le, le_rfl⟩
  · rw [SchemaState.upgraded, if_neg hlt]
    have heq : v = greatestVersion .zero files := le_antisymm h.le (not_lt.mp hlt)
    exact ⟨h.initialized, heq ▸ h.version, heq ▸ h.minimum, le_rfl⟩

/-- A checked database is upgraded. -/
theorem Checked.leads {db : SchemaState} {v : Version} (h : Checked files db v)
    (hreadable : Readable files) :
    Leads engine ⟨db, none⟩ (Migrate semver driver (filePaths driver files) (depth + 1) demo)
      (upgrade driver files demo v) :=
  (leads_checkAndMigrate h.initialized _).trans
    (leads_upgrade hreadable h.version h.le h.minimum h.initialized)

/-- Nothing is left to be done at the greatest version but the seed. -/
theorem upgrade_greatest :
    upgrade driver files demo (greatestVersion .zero files) = seedDemo driver demo := by
  rw [upgrade, if_neg (lt_irrefl _)]

variable {db : SchemaState} {v : Version} {s : Session}

/-- An upgraded database only runs the seed again. -/
theorem run_again_upgraded (hchecked : Checked files db v) (hreadable : Readable files)
    (hrun : (upgrade driver files demo v).run engine.step ⟨db, none⟩ = (.ok (), s)) :
    (Migrate semver driver (filePaths driver files) (depth + 1) demo).run engine.step
      ⟨db.upgraded driver files v, none⟩ = (.ok (), s) := by
  rw [(hchecked.upgraded.leads hreadable).run, upgrade_greatest]
  exact run_upgrade hrun

/-- A file leads to the greatest version. -/
theorem exists_applied (hmin : minimumVersion ≤ v) (hlt : v < greatestVersion .zero files) :
    ∃ f ∈ files, f.Applied (some v) (greatestVersion .zero files) := by
  rcases greatestVersion_mem .zero files with hzero | ⟨f, hf, hoverflow, heq⟩
  · rw [hzero] at hlt
    have habsurd := hmin.trans_lt hlt
    exact absurd habsurd (by decide)
  · refine ⟨f, hf, hoverflow, ?_, ?_⟩
    · rw [← heq]
      exact hlt
    · rw [heq]

/-- Committed migrations whose version was not recorded are executed twice. -/
theorem not_again_migrated (hchecked : Checked files db v) (hreadable : Readable files)
    (hnodup : (filePaths driver files).Nodup) (hlt : v < greatestVersion .zero files) :
    ¬ MigratesAgain engine semver driver files (depth + 1) demo db current
      (db.migrated (appliedPaths driver files v)) := by
  rintro ⟨s, hrun, -, later, hlater, hcount⟩
  have hmigrated := hchecked.migrated (appliedPaths driver files v)
  rw [(hmigrated.leads hreadable).run] at hrun
  obtain rfl := run_seedDemo (run_upgrade hrun)
  obtain ⟨second, hsecond, hcountSecond⟩ := @history_upgraded driver files demo hnodup
    (db.migrated (appliedPaths driver files v)) v
  obtain ⟨f, hf, happlied⟩ := exists_applied hchecked.minimum hlt
  have hfirst := count_appliedPaths hnodup v hf
  have htwice := hcountSecond f hf
  rw [if_pos happlied] at hfirst htwice
  have hhistory : db.history ++ ((appliedPaths driver files v).map .migration ++ second) =
      db.history ++ later := by
    rw [← hlater, hsecond, SchemaState.migrated, List.append_assoc]
  rw [← List.append_cancel_left hhistory] at hcount
  have honce := hcount f hf
  rw [List.count_append, count_migrations, hfirst, htwice] at honce
  split at honce <;> omega

private theorem mem_history_upgraded {script : Script} (h : script ∈ db.history) :
    script ∈ (db.upgraded driver files v).history := by
  rw [SchemaState.upgraded]
  split
  · exact List.mem_append_left _ h
  · exact h

/-- A database with a seed rejects the seed. -/
theorem not_again_seeded (hchecked : Checked files db v) (hreadable : Readable files)
    (hdemo : demo ∧ driver = "sqlite") :
    ¬ MigratesAgain engine semver driver files (depth + 1) demo start current
      (db.apply (.seed seedFile)) := by
  rintro ⟨s, hrun, -, -⟩
  rw [((hchecked.apply (.seed seedFile)).leads hreadable).run] at hrun
  refine run_seedDemo_again hdemo (mem_history_upgraded ?_) s (run_upgrade hrun)
  simp [SchemaState.apply]

/-- The migration of a checked database stops so that it can be completed exactly when every
commit is recorded and every selected file is applied. -/
theorem again_iff_of_checked (hchecked : Checked files start v) (hreadable : Readable files)
    (hnodup : (filePaths driver files).Nodup)
    (hrun : (upgrade driver files demo v).run engine.step ⟨start, none⟩ = (.ok (), s))
    {x : List DbAction × Session}
    (hx : x ∈ (upgrade driver files demo v).stops engine.step ⟨start, none⟩) :
    MigratesAgain engine semver driver files (depth + 1) demo start (some v) x.2.durable ↔
      Recorded x.1 ∧ ∀ f ∈ files, f.Selected (some v) (greatestVersion .zero files) →
        ¬ f.Overflows := by
  rcases stops_upgrade hrun hx with ⟨hd, hrecorded⟩ | ⟨⟨hlt, hd⟩, hnot⟩ | ⟨⟨hdemo, hd⟩, hnot⟩
  · have hagain : (Migrate semver driver (filePaths driver files) (depth + 1) demo).run engine.step
        ⟨x.2.durable, none⟩ = (.ok (), s) := by
      rcases hd with hd | hd
      · rw [hd, (hchecked.leads hreadable).run, hrun]
      · rw [hd]
        exact run_again_upgraded hchecked hreadable hrun
    obtain rfl := run_seedDemo (run_upgrade hrun)
    obtain ⟨later, hlater, hcount⟩ := @history_upgraded driver files demo hnodup start v
    have hversion : ((start.upgraded driver files v).seeded driver demo).schemaVersion =
        (greatestVersion .zero files).text := by
      rw [SchemaState.seeded]
      split
      · exact hchecked.upgraded.version
      · exact hchecked.upgraded.version
    have hiff : (∀ f ∈ files, later.count (.migration (f.path driver)) =
        if start.initialized ∧ f.Selected (some v) (greatestVersion .zero files) then 1 else 0) ↔
        ∀ f ∈ files, f.Selected (some v) (greatestVersion .zero files) → ¬ f.Overflows := by
      refine forall₂_congr fun f hf => ?_
      have happlied : f.Applied (some v) (greatestVersion .zero files) ↔
          ¬ f.Overflows ∧ f.Selected (some v) (greatestVersion .zero files) := Iff.rfl
      rw [hcount f hf]
      by_cases hselected : f.Selected (some v) (greatestVersion .zero files)
      · by_cases hoverflow : f.Overflows
        · simp [happlied, hselected, hoverflow, hchecked.initialized]
        · simp [happlied, hselected, hoverflow, hchecked.initialized]
      · simp [happlied, hselected]
    constructor
    · rintro ⟨s', hrun', -, later', hlater', hcount'⟩
      rw [hagain] at hrun'
      obtain rfl := (Prod.mk.inj hrun').2
      rw [hlater] at hlater'
      rw [← List.append_cancel_left hlater'] at hcount'
      exact ⟨hrecorded, hiff.mp hcount'⟩
    · rintro ⟨-, hnone⟩
      exact ⟨_, hagain, hversion, later, hlater, hiff.mpr hnone⟩
  · rw [hd]
    exact iff_of_false (not_again_migrated hchecked hreadable hnodup hlt) fun h => hnot h.1
  · rw [hd]
    exact iff_of_false (not_again_seeded hchecked.upgraded hreadable hdemo) fun h => hnot h.1

/-- The database created with the latest schema. -/
def SchemaState.created (db : SchemaState) (files : List MigrationFile) : SchemaState :=
  { db.apply .latest with schemaVersion := (greatestVersion .zero files).text }

/-- An empty database gets the latest schema in one transaction. -/
theorem createLatestSchema_eq (h : Readable files) :
    createLatestSchema semver driver (filePaths driver files) (depth + 1) =
      (beginTx >>= fun _ =>
        (execute .latest).mapError ("failed to execute SQL file migration/" ++ driver ++ "/" ++
          LatestSchemaFileName ++ ", err " ++ ·) >>= fun _ =>
        commitTx "failed to commit transaction" >>= fun _ =>
          (updateCurrentSchemaVersion (greatestVersion .zero files).text).wrap
            "failed to update current schema version") := by
  rw [createLatestSchema, currentSchemaVersion_eq h]
  rfl

/-- The migration of a database without tables creates them first. -/
theorem leads_create (hinit : start.initialized = false) (paths : List String) :
    Leads engine ⟨start, none⟩ (Migrate semver driver paths depth demo)
      ((createLatestSchema semver driver paths depth).wrap "failed to pre-migrate" >>= fun _ =>
        checkAndMigrate semver driver paths depth demo) := by
  have hpre : Leads engine ⟨start, none⟩ (preMigrate semver driver paths depth)
      (createLatestSchema semver driver paths depth >>= fun _ =>
        checkMinimumUpgradeVersion semver paths depth) := by
    refine (leads_isInitialized.bind _).trans ?_
    rw [pure_bind, hinit]
    exact Leads.refl _
  refine ((hpre.wrap _).bind _).trans ?_
  rw [Program.wrap, mapError_bind, bind_assoc]
  exact Leads.refl _

/-- The creation of the latest schema. -/
theorem inside_create (h : Readable files)
    (hrun : (createLatestSchema semver driver (filePaths driver files) (depth + 1)).run engine.step
      ⟨start, none⟩ = (.ok (), s)) :
    Inside engine ((execute .latest).mapError ("failed to execute SQL file migration/" ++ driver ++
      "/" ++ LatestSchemaFileName ++ ", err " ++ ·)) start start (start.apply .latest) := by
  rw [createLatestSchema_eq h, run_bind_ok (run_beginTx engine start none)] at hrun
  obtain ⟨_, t, hexecute, -⟩ := ok_of_run_bind hrun
  rw [run_mapError_ok_iff, run_execute] at hexecute
  refine inside_execute _ ?_
  by_contra hrejects
  rw [if_neg hrejects] at hexecute
  simp at hexecute

/-- A migration that completes has created the schema, checked it, and run the seed. -/
theorem created_of_run (hinit : start.initialized = false) (hreadable : Readable files)
    (hrun : (Migrate semver driver (filePaths driver files) (depth + 1) demo).run engine.step
      ⟨start, none⟩ = (.ok (), s)) :
    (createLatestSchema semver driver (filePaths driver files) (depth + 1)).run engine.step
        ⟨start, none⟩ = (.ok (), ⟨start.created files, none⟩) ∧
      Checked files (start.created files) (greatestVersion .zero files) ∧
      (seedDemo driver demo).run engine.step ⟨start.created files, none⟩ = (.ok (), s) := by
  rw [(leads_create hinit _).run] at hrun
  obtain ⟨_, t, hcreate, hrest⟩ := ok_of_run_bind hrun
  rw [run_wrap_ok_iff] at hcreate
  have hinside := inside_create hreadable hcreate
  have hwhole : (createLatestSchema semver driver (filePaths driver files) (depth + 1)).run
      engine.step ⟨start, none⟩ = (.ok (), ⟨start.created files, none⟩) := by
    rw [createLatestSchema_eq hreadable]
    exact run_transaction hinside
  obtain rfl := (Prod.mk.inj (hcreate.symm.trans hwhole)).2
  have hcreated : (start.created files).initialized = true := by
    simp [SchemaState.created, SchemaState.apply]
  have hversion : (start.created files).schemaVersion =
      schemaText (some (greatestVersion .zero files)) := rfl
  obtain ⟨v, hv, hmin, -⟩ := checked_of_run hreadable hversion hcreated hrest
  obtain rfl := Option.some.inj hv
  rw [(leads_upgrade hreadable hversion le_rfl hmin hcreated).run, upgrade_greatest] at hrest
  exact ⟨hwhole, ⟨hcreated, hversion, hmin, le_rfl⟩, hrest⟩

/-- The migration of a database without tables stops with the database unchanged, created or
completely recorded, or else after the seed. -/
theorem stops_create (hinit : start.initialized = false) (hreadable : Readable files)
    (hrun : (Migrate semver driver (filePaths driver files) (depth + 1) demo).run engine.step
      ⟨start, none⟩ = (.ok (), s)) {x : List DbAction × Session}
    (hx : x ∈ (Migrate semver driver (filePaths driver files) (depth + 1) demo).stops engine.step
      ⟨start, none⟩) :
    ((x.2.durable = start ∨ x.2.durable = start.created files) ∧ Recorded x.1) ∨
    (x.2.durable = start.apply .latest ∧ ¬ Recorded x.1) ∨
    (((demo ∧ driver = "sqlite") ∧
        x.2.durable = (start.created files).apply (.seed seedFile)) ∧ ¬ Recorded x.1) := by
  obtain ⟨hcreate, hchecked, hseed⟩ := created_of_run hinit hreadable hrun
  have hinside := inside_create hreadable hcreate
  obtain ⟨before, hbefore, y, hy, rfl⟩ := (leads_create hinit _).stops x hx
  have hstart : ∀ {actions}, Recorded actions → Recorded (before ++ actions) := fun h =>
    (recorded_of_uncommitted hbefore).append h
  rcases (mem_stops_bind _ _ _ _).mp hy with hy | ⟨_, t, hfirst, z, hz, rfl⟩
  · rw [stops_wrap, createLatestSchema_eq hreadable] at hy
    rcases stops_transaction hinside hy with ⟨hd, hun⟩ | ⟨hd, hnot⟩ | ⟨hd, hrecorded⟩
    · exact .inl ⟨.inl hd, hstart (recorded_of_uncommitted hun)⟩
    · exact .inr (.inl ⟨hd, fun h => hnot (recorded_of_append h)⟩)
    · exact .inl ⟨.inr hd, hstart hrecorded⟩
  · rw [run_wrap_ok_iff] at hfirst
    obtain rfl := (Prod.mk.inj (hfirst.symm.trans hcreate)).2
    have hrecorded : Recorded (((createLatestSchema semver driver (filePaths driver files)
        (depth + 1)).wrap "failed to pre-migrate").trace engine.step ⟨start, none⟩) := by
      rw [trace_wrap, createLatestSchema_eq hreadable]
      exact recorded_transaction hinside
    have hupgrade := @leads_upgrade engine semver driver demo files depth _ hreadable _
      hchecked.version hchecked.le hchecked.minimum hchecked.initialized
    obtain ⟨between, hbetween, w, hw, rfl⟩ := hupgrade.stops z hz
    rw [upgrade_greatest] at hw
    rcases stops_seedDemo hseed hw with ⟨hd, hun⟩ | ⟨hdemo, hd, hnot⟩
    · refine .inl ⟨.inr hd, hstart (hrecorded.append ?_)⟩
      exact recorded_of_uncommitted (uncommitted_append hbetween hun)
    · refine .inr (.inr ⟨⟨hdemo, hd⟩, fun h => hnot ?_⟩)
      exact recorded_of_append (recorded_of_append (recorded_of_append h))

/-- A created database whose version was not recorded is taken for one that is too old. -/
theorem not_again_created (hreadable : Readable files) (hversion : start.schemaVersion = "") :
    ¬ MigratesAgain engine semver driver files (depth + 1) demo start current
      (start.apply .latest) := by
  rintro ⟨s, hrun, -, -⟩
  have hinit : (start.apply .latest).initialized = true := by simp [SchemaState.apply]
  rw [(leads_checkAndMigrate hinit _).run] at hrun
  have hempty : (start.apply .latest).schemaVersion = schemaText none := hversion
  obtain ⟨v, hv, -⟩ := checked_of_run hreadable hempty hinit hrun
  cases hv

/-- The migration of a database without tables stops so that it can be completed exactly when
every commit is recorded. -/
theorem again_iff_of_fresh (hinit : start.initialized = false) (hversion : start.schemaVersion = "")
    (hreadable : Readable files)
    (hrun : (Migrate semver driver (filePaths driver files) (depth + 1) demo).run engine.step
      ⟨start, none⟩ = (.ok (), s)) {x : List DbAction × Session}
    (hx : x ∈ (Migrate semver driver (filePaths driver files) (depth + 1) demo).stops engine.step
      ⟨start, none⟩) :
    MigratesAgain engine semver driver files (depth + 1) demo start current x.2.durable ↔
      Recorded x.1 := by
  obtain ⟨-, hchecked, hseed⟩ := created_of_run hinit hreadable hrun
  rcases stops_create hinit hreadable hrun hx with ⟨hd, hrecorded⟩ | ⟨hd, hnot⟩ |
    ⟨⟨hdemo, hd⟩, hnot⟩
  · have hagain : (Migrate semver driver (filePaths driver files) (depth + 1) demo).run engine.step
        ⟨x.2.durable, none⟩ = (.ok (), s) := by
      rcases hd with hd | hd
      · rw [hd, hrun]
      · rw [hd, (hchecked.leads hreadable).run, upgrade_greatest]
        exact hseed
    obtain rfl := run_seedDemo hseed
    refine iff_of_true ⟨_, hagain, ?_, ?_⟩ hrecorded
    · rw [SchemaState.seeded]
      split <;> rfl
    · by_cases hdemo : demo ∧ driver = "sqlite"
      · rw [SchemaState.seeded, if_pos hdemo]
        refine ⟨[.latest, .seed seedFile], by simp [SchemaState.apply, SchemaState.created], ?_⟩
        simp [hinit]
      · rw [SchemaState.seeded, if_neg hdemo]
        refine ⟨[.latest], by simp [SchemaState.apply, SchemaState.created], ?_⟩
        simp [hinit]
  · rw [hd]
    exact iff_of_false (not_again_created hreadable hversion) hnot
  · rw [hd]
    exact iff_of_false (not_again_seeded hchecked hreadable hdemo) hnot

end

section

variable {engine : ScriptEngine} {semver : Semver} {driver : String} {files : List MigrationFile}
  {depth : ℕ} {start : SchemaState}

/-- The migration of a database without tables completes when it accepts the latest schema. -/
theorem run_fresh (hinit : start.initialized = false) (hreadable : Readable files)
    (haccepts : engine.accepts start.history .latest = true)
    (hmin : minimumVersion ≤ greatestVersion .zero files) :
    (Migrate semver driver (filePaths driver files) (depth + 1) false).run engine.step
      ⟨start, none⟩ = (.ok (), ⟨start.created files, none⟩) := by
  have hcreate : ((createLatestSchema semver driver (filePaths driver files) (depth + 1)).wrap
      "failed to pre-migrate").run engine.step ⟨start, none⟩ =
        (.ok (), ⟨start.created files, none⟩) := by
    rw [run_wrap_ok_iff, createLatestSchema_eq hreadable]
    exact run_transaction (inside_execute _ haccepts)
  have hcreated : (start.created files).initialized = true := by
    simp [SchemaState.created, SchemaState.apply]
  rw [(leads_create hinit _).run, run_bind_ok hcreate,
    (leads_upgrade hreadable rfl le_rfl hmin hcreated).run, upgrade_greatest]
  rfl

/-- It may stop when the schema was committed and its version was not recorded. -/
theorem stop_after_create (hinit : start.initialized = false) (hreadable : Readable files)
    (haccepts : engine.accepts start.history .latest = true) :
    ([.isInitialized, .begin, .execute .latest, .commit], ⟨start.apply .latest, none⟩) ∈
      (Migrate semver driver (filePaths driver files) (depth + 1) false).stops engine.step
        ⟨start, none⟩ := by
  have hinside := inside_execute (d := start)
    ("failed to execute SQL file migration/" ++ driver ++ "/" ++
      LatestSchemaFileName ++ ", err " ++ ·) haccepts
  have htrace : ((execute .latest).mapError ("failed to execute SQL file migration/" ++ driver ++
      "/" ++ LatestSchemaFileName ++ ", err " ++ ·)).trace engine.step ⟨start, some start⟩ =
        [.execute .latest] := (trace_mapError _ _ _).trans
          ((trace_mapError _ _ _).trans (trace_perform _ _))
  have hcommit : ([.begin, .execute .latest, .commit], ⟨start.apply .latest, none⟩) ∈
      (createLatestSchema semver driver (filePaths driver files) (depth + 1)).stops engine.step
        ⟨start, none⟩ := by
    rw [createLatestSchema_eq hreadable]
    refine (mem_stops_bind _ _ _ _).mpr (.inr ⟨(), _, run_beginTx engine start none,
      ([.execute .latest, .commit], ⟨start.apply .latest, none⟩), ?_, rfl⟩)
    refine (mem_stops_bind _ _ _ _).mpr (.inr ⟨(), _, hinside.run,
      ([.commit], ⟨start.apply .latest, none⟩), ?_, by rw [htrace]; rfl⟩)
    exact (mem_stops_bind _ _ _ _).mpr (.inl (by
      exact List.mem_cons_of_mem _ (List.mem_cons_self ..)))
  refine (mem_stops_bind _ _ _ _).mpr (.inl ?_)
  rw [stops_wrap]
  refine (mem_stops_bind _ _ _ _).mpr (.inr ⟨start.initialized, _, run_isInitialized engine _,
    ([.begin, .execute .latest, .commit], ⟨start.apply .latest, none⟩), ?_, rfl⟩)
  rw [hinit]
  exact (mem_stops_bind _ _ _ _).mpr (.inl hcommit)

end

/-- Crash safety.  When an uninterrupted migration completes, the database left by a migration
that stopped is completed by migrating again if and only if every commit performed by then was
followed by the upsert of the schema version, and no selected version overflows. -/
theorem migrate_again_iff {engine : ScriptEngine} {semver : Semver} {driver : String}
    {files : List MigrationFile} {depth : ℕ} {demo : Bool} {start : SchemaState}
    {current : Option Version} {s : Session} (hversion : start.schemaVersion = schemaText current)
    (hfresh : start.initialized = false → current = none)
    (hnodup : (filePaths driver files).Nodup)
    (hrun : (Migrate semver driver (filePaths driver files) depth demo).run engine.step
      ⟨start, none⟩ = (.ok (), s)) {x : List DbAction × Session}
    (hx : x ∈ (Migrate semver driver (filePaths driver files) depth demo).stops engine.step
      ⟨start, none⟩) :
    MigratesAgain engine semver driver files depth demo start current x.2.durable ↔
      Recorded x.1 ∧ (start.initialized → ∀ f ∈ files,
        f.Selected current (greatestVersion .zero files) → ¬ f.Overflows) := by
  obtain ⟨_, t, -, hchecked⟩ := ok_of_run_bind hrun
  obtain ⟨n, rfl, hreadable⟩ := readable_of_run hchecked
  cases hinit : start.initialized with
  | false =>
      have hempty : start.schemaVersion = "" := by rw [hversion, hfresh hinit, schemaText]
      rw [again_iff_of_fresh hinit hempty hreadable hrun hx]
      simp
  | true =>
      have hleads := @leads_checkAndMigrate engine semver driver demo (n + 1) start hinit
        (filePaths driver files)
      obtain ⟨v, rfl, hmin, hle⟩ := checked_of_run hreadable hversion hinit
        (hleads.run.symm.trans hrun)
      have hstart : Checked files start v := ⟨hinit, hversion, hmin, hle⟩
      have hupgrade := @Checked.leads engine semver driver files n demo start v hstart hreadable
      obtain ⟨before, hbefore, y, hy, rfl⟩ := hupgrade.stops x hx
      have hiff := @again_iff_of_checked engine semver driver files n demo start v s hstart hreadable
        hnodup (hupgrade.run.symm.trans hrun) _ hy
      have hrecorded : Recorded (before ++ y.1) ↔ Recorded y.1 :=
        ⟨recorded_of_append, fun h => (recorded_of_uncommitted hbefore).append h⟩
      rw [hiff, hrecorded]
      simp

/-- An empty SQLite database whose migration stopped after the latest schema was committed. -/
theorem migrate_again_iff_example :
    MigratesAgain .permissive .byComponents "sqlite" [laterFile] 1 false ⟨false, "", []⟩ none
        ⟨true, "", [.latest]⟩ ↔
      Recorded [.isInitialized, .begin, .execute .latest, .commit] ∧
        (false = true → ∀ f ∈ [laterFile],
          f.Selected none (greatestVersion .zero [laterFile]) → ¬ f.Overflows) :=
  @migrate_again_iff .permissive .byComponents "sqlite" [laterFile] 1 false ⟨false, "", []⟩ none _
    rfl (fun _ => rfl) (by decide) (run_fresh rfl (by decide) rfl (by decide)) _
    (stop_after_create rfl (by decide) rfl)

/-- The migration of an empty database, stopped between the commit of the latest schema and the
upsert of its version, cannot be completed. -/
theorem migration_not_crash_safe :
    (∃ s, (Migrate .byComponents "sqlite" (filePaths "sqlite" [laterFile]) 1 false).run
      ScriptEngine.permissive.step ⟨⟨false, "", []⟩, none⟩ = (.ok (), s)) ∧
    ∃ x ∈ (Migrate .byComponents "sqlite" (filePaths "sqlite" [laterFile]) 1 false).stops
        ScriptEngine.permissive.step ⟨⟨false, "", []⟩, none⟩,
      ¬ MigratesAgain .permissive .byComponents "sqlite" [laterFile] 1 false ⟨false, "", []⟩ none
        x.2.durable :=
  ⟨⟨_, run_fresh rfl (by decide) rfl (by decide)⟩, _, stop_after_create rfl (by decide) rfl,
    not_again_created (by decide) rfl⟩

end Store
end MemosNote
