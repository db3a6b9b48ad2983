import Mathlib.Data.List.Nodup
import MemosNote.Library.Run
import MemosNote.Scheduler.Cron

/-!
# The lifecycle of a scheduler

Jobs are registered, a scheduler is started and stopped, and each job of a running scheduler has a
loop that waits for its next time or runs its handler.  A call is made after the one before it has
returned; the loops take steps between the calls and while a call waits for them.

Main results:

- Theorem {lit}`startJobs_ok`: what a start does when every schedule parses.
- Theorem {lit}`Consistent.step`: what a proper step preserves.
- Theorem {lit}`lifecycle_of_proper`: what holds in every state of a run of proper steps.
-/

set_option linter.dupNamespace false

namespace MemosNote
namespace Scheduler

open Library

/-! ## Jobs -/

/-- A scheduled task, without the data that only its handler and its loop look at. -/
structure Job (H : Type) where
  Name : String
  Schedule : String
  Handler : Option H
deriving DecidableEq, Repr

def Job.Validate {H : Type} (job : Job H) : Except String Unit :=
  if job.Name = "" then .error "job name is required"
  else if job.Schedule = "" then .error "job schedule is required"
  else
    match ParseCronExpression job.Schedule with
    | .error err => .error ("invalid cron expression: " ++ err)
    | .ok _ => if job.Handler.isNone then .error "job handler is required" else .ok ()

/-- A job and the context of its loop, once it has one. -/
structure RegisteredJob (H : Type) where
  job : Job H
  cancelFn : Option ℕ := none
deriving DecidableEq, Repr

def RegisteredJob.name {H : Type} (rj : RegisteredJob H) : String :=
  rj.job.Name

/-- A loop waits for a time, or runs the handler of its job. -/
inductive LoopPhase
  | waiting
  | handling
deriving DecidableEq, Repr

/-- A live loop. -/
structure Loop where
  name : String
  context : ℕ
  schedule : Schedule
  phase : LoopPhase
deriving DecidableEq, Repr

/-! ## The scheduler -/

/-- A scheduler with its live loops, the number of contexts so far and those that are canceled. -/
structure Scheduler (H : Type) where
  jobs : List (RegisteredJob H) := []
  running : Bool := false
  stopChClosed : Bool := false
  wg : ℕ := 0
  loops : List Loop := []
  contexts : ℕ := 0
  canceled : List ℕ := []

namespace Scheduler

variable {H : Type}

/-- Add a job; {lit}`quote` is the quoting of names in errors. -/
def Register (quote : String → String) (s : Scheduler H) :
    Option (Job H) → Except String Unit × Scheduler H
  | none => (.error "job cannot be nil", s)
  | some job =>
      match job.Validate with
      | .error err => (.error ("invalid job: " ++ err), s)
      | .ok _ =>
          if job.Name ∈ s.jobs.map RegisteredJob.name then
            (.error ("job with name " ++ quote job.Name ++ " already registered"), s)
          else (.ok (), { s with jobs := s.jobs ++ [{ job := job }] })

/-- Start the loop of a job, with a context of its own. -/
def startLoop (s : Scheduler H) (name : String) (schedule : Schedule) : Scheduler H :=
  { s with
    jobs := s.jobs.map fun rj => if rj.name = name then { rj with cancelFn := some s.contexts } else rj
    loops := s.loops ++ [{ name := name, context := s.contexts, schedule, phase := .waiting }]
    wg := s.wg + 1
    contexts := s.contexts + 1 }

/-- Start the jobs in the order in which the map returns their names. -/
def startJobs (quote : String → String) : List String → Scheduler H → Except String Unit × Scheduler H
  | [], s => (.ok (), { s with running := true })
  | name :: names, s =>
      match s.jobs.find? fun rj => rj.name = name with
      | none => startJobs quote names s
      | some rj =>
          match ParseCronExpression rj.job.Schedule with
          | .error err =>
              (.error ("failed to parse schedule for job " ++ quote name ++ ": " ++ err), s)
          | .ok schedule => startJobs quote names (s.startLoop name schedule)

def Start (quote : String → String) (names : List String) (s : Scheduler H) :
    Except String Unit × Scheduler H :=
  if s.running then (.error "scheduler already running", s) else startJobs quote names s

/-- How far a stop gets before it waits. -/
inductive Stopped
  | notRunning
  | waits
  | panics
deriving DecidableEq, Repr

/-- The part of a stop before it waits: contexts are canceled and the channel is closed, which
panics when it is closed already. -/
def beginStop (s : Scheduler H) : Stopped × Scheduler H :=
  if s.running then
    let s := { s with running := false, canceled := s.canceled ++ s.jobs.filterMap (·.cancelFn) }
    if s.stopChClosed then (.panics, s) else (.waits, { s with stopChClosed := true })
  else (.notRunning, s)

/-- Change the phase of the loop with a context. -/
def setPhase (s : Scheduler H) (context : ℕ) (phase : LoopPhase) : Scheduler H :=
  { s with loops := s.loops.map fun loop =>
      if loop.context = context then { loop with phase := phase } else loop }

/-- End the loop with a context. -/
def endLoop (s : Scheduler H) (context : ℕ) : Scheduler H :=
  { s with
    loops := s.loops.eraseP fun loop => loop.context = context
    wg := s.wg - 1 }

/-- Whether a loop with a context is in a phase. -/
def inPhase (s : Scheduler H) (context : ℕ) (phase : LoopPhase) : Bool :=
  s.loops.any fun loop => loop.context = context && loop.phase = phase

end Scheduler

/-! ## Calls and loops -/

/-- A scheduler between and during calls.  A call of {lit}`Stop` may be waiting; {lit}`up` says that
a start has returned without an error and no stop has been called since, and {lit}`down` that a
stop has returned or a start has failed and none has succeeded since. -/
structure System (H : Type) where
  scheduler : Scheduler H := {}
  stopping : Bool := false
  panicked : Bool := false
  up : Bool := false
  down : Bool := false

/-- What happens next: a call, the end of the stop that waits, or a step of a loop. -/
inductive Event (H : Type)
  | register (job : Option (Job H))
  | start (names : List String)
  | stop
  | stopReturns
  | stopTimesOut
  | fires (context : ℕ)
  | returns (context : ℕ)
  | exits (context : ℕ)

namespace System

variable {H : Type}

/-- A call can be made when none is waiting. -/
def ready (s : System H) : Bool :=
  !s.stopping && !s.panicked

/-- One step, unless it is impossible.  A map returns the names of the jobs in any order, a timer
fires at any time, and a loop that waits exits once its context is canceled or the channel is
closed. -/
def step (quote : String → String) (s : System H) : Event H → Option (System H)
  | .register job =>
      if s.ready then some { s with scheduler := (s.scheduler.Register quote job).2 } else none
  | .start names =>
      if s.ready ∧ names.Perm (s.scheduler.jobs.map RegisteredJob.name) then
        match s.scheduler.Start quote names with
        | (.ok _, scheduler) => some { s with scheduler, up := true, down := false }
        | (.error _, scheduler) => some { s with scheduler, down := true }
      else none
  | .stop =>
      if s.ready then
        match s.scheduler.beginStop with
        | (.notRunning, scheduler) => some { s with scheduler, up := false, down := true }
        | (.waits, scheduler) => some { s with scheduler, stopping := true, up := false }
        | (.panics, scheduler) => some { s with scheduler, panicked := true, up := false }
      else none
  | .stopReturns =>
      if s.stopping ∧ s.scheduler.wg = 0 then some { s with stopping := false, down := true }
      else none
  | .stopTimesOut => if s.stopping then some { s with stopping := false, down := true } else none
  | .fires context =>
      if s.scheduler.inPhase context .waiting then
        some { s with scheduler := s.scheduler.setPhase context .handling }
      else none
  | .returns context =>
      if s.scheduler.inPhase context .handling then
        some { s with scheduler := s.scheduler.setPhase context .waiting }
      else none
  | .exits context =>
      if s.scheduler.inPhase context .waiting ∧
          (context ∈ s.scheduler.canceled ∨ s.scheduler.stopChClosed) then
        some { s with scheduler := s.scheduler.endLoop context }
      else none

/-- No call panics; after a start and until the next stop every job has one live loop; and after a
stop or a start that failed none is live. -/
structure Lifecycle (s : System H) : Prop where
  noPanic : s.panicked = false
  started : s.up = true → ∀ rj ∈ s.scheduler.jobs,
    (s.scheduler.loops.map Loop.name).count rj.name = 1
  ended : s.down = true → s.scheduler.loops = []

/-- The steps of a proper use.  No new job is registered while the scheduler runs; a scheduler with
jobs is started once, and not after a stop; a scheduler that was started after a stop is not
stopped; and no stop gives up while loops are live. -/
def Proper (quote : String → String) (s : System H) : Event H → Prop
  | .register job =>
      s.scheduler.running = true → (s.scheduler.Register quote job).1.isOk = false
  | .start _ =>
      s.scheduler.jobs = [] ∨ s.scheduler.running = false ∧ s.scheduler.stopChClosed = false
  | .stop => s.scheduler.running = true → s.scheduler.stopChClosed = false
  | .stopTimesOut => s.scheduler.loops = []
  | _ => True

end System

/-! ## What a start does -/

namespace Scheduler

variable {H : Type} {quote : String → String} {s : Scheduler H}

theorem map_name_startLoop {name : String} {schedule : Schedule} :
    (s.startLoop name schedule).jobs.map RegisteredJob.name = s.jobs.map RegisteredJob.name := by
  rw [startLoop, List.map_map]
  refine List.map_congr_left fun rj _ => ?_
  rw [Function.comp_apply]
  split <;> rfl

/-- Every job has a schedule that parses. -/
def Accepted (s : Scheduler H) : Prop :=
  ∀ rj ∈ s.jobs, (ParseCronExpression rj.job.Schedule).isOk = true

theorem Accepted.startLoop (h : s.Accepted) (name : String) (schedule : Schedule) :
    (s.startLoop name schedule).Accepted := by
  intro rj hrj
  rcases List.mem_map.mp hrj with ⟨rj', hrj', rfl⟩
  split
  · exact h rj' hrj'
  · exact h rj' hrj'

/-- The contexts of jobs have been created. -/
def Created (s : Scheduler H) : Prop :=
  ∀ rj ∈ s.jobs, ∀ context ∈ rj.cancelFn, context < s.contexts

theorem Created.startLoop (h : s.Created) (name : String) (schedule : Schedule) :
    (s.startLoop name schedule).Created := by
  intro rj hrj context hcontext
  rcases List.mem_map.mp hrj with ⟨rj', hrj', rfl⟩
  change context < s.contexts + 1
  split at hcontext
  · cases hcontext
    exact Nat.lt_succ_self _
  · exact Nat.lt_succ_of_lt (h rj' hrj' context hcontext)

/-- What starting some jobs leaves of the scheduler, and adds to it. -/
structure StartedFrom (s : Scheduler H) (names : List String) (s' : Scheduler H) : Prop where
  jobs : s'.jobs.map RegisteredJob.name = s.jobs.map RegisteredJob.name
  accepted : s.Accepted → s'.Accepted
  created : s.Created → s'.Created
  stopChClosed : s'.stopChClosed = s.stopChClosed
  canceled : s'.canceled = s.canceled
  contexts : s.contexts ≤ s'.contexts
  loops : ∃ loops, s'.loops = s.loops ++ loops ∧ loops.map Loop.name = names ∧
    ∀ loop ∈ loops, s.contexts ≤ loop.context
  wg : s'.wg = s.wg + names.length

/-- Every job is started when every schedule parses. -/
theorem startJobs_ok {names : List String} (haccepted : s.Accepted)
    (hnames : ∀ name ∈ names, name ∈ s.jobs.map RegisteredJob.name) :
    ∃ s', startJobs quote names s = (.ok (), s') ∧ s'.running = true ∧ StartedFrom s names s' := by
  induction names generalizing s with
  | nil =>
      exact ⟨{ s with running := true }, rfl, rfl, rfl, fun h => h, fun h => h, rfl, rfl,
        Nat.le_refl _, ⟨[], by simp⟩, rfl⟩
  | cons name names ih =>
      rcases List.mem_map.mp (hnames name List.mem_cons_self) with ⟨rj, hrj, hname⟩
      cases hfind : s.jobs.find? fun rj => rj.name = name with
      | none =>
          rw [List.find?_eq_none] at hfind
          exact absurd hname (by simpa using hfind rj hrj)
      | some found =>
          have hok := haccepted found (List.mem_of_find?_eq_some hfind)
          cases hparse : ParseCronExpression found.job.Schedule with
          | error err =>
              rw [hparse] at hok
              cases hok
          | ok schedule =>
              have hrest : ∀ name' ∈ names,
                  name' ∈ (s.startLoop name schedule).jobs.map RegisteredJob.name := by
                rw [map_name_startLoop]
                exact fun name' hname' => hnames name' (List.mem_cons_of_mem name hname')
              rcases ih (haccepted.startLoop name schedule) hrest with ⟨s', hrun, hrunning, hstarted⟩
              refine ⟨s', ?_, hrunning, ?_⟩
              · rw [startJobs, hfind]
                dsimp only
                rw [hparse]
                exact hrun
              · rcases hstarted.loops with ⟨loops, hloops, hmap, hcontexts⟩
                refine ⟨hstarted.jobs.trans map_name_startLoop,
                  fun h => hstarted.accepted (h.startLoop name schedule),
                  fun h => hstarted.created (h.startLoop name schedule), hstarted.stopChClosed,
                  hstarted.canceled, Nat.le_of_succ_le hstarted.contexts, ?_, ?_⟩
                · refine ⟨{ name := name, context := s.contexts, schedule, phase := .waiting } ::
                    loops, ?_, by rw [List.map_cons, hmap], ?_⟩
                  · rw [hloops, startLoop, List.append_assoc]
                    rfl
                  · intro loop hloop
                    rcases List.mem_cons.mp hloop with rfl | hloop
                    · exact Nat.le_refl _
                    · exact Nat.le_of_succ_le (hcontexts loop hloop)
                · rw [hstarted.wg, startLoop, List.length_cons]
                  dsimp only
                  omega

/-- A registration is rejected, or adds an accepted job of a new name. -/
theorem register_cases (job : Option (Job H)) :
    ((s.Register quote job).1.isOk = false ∧ (s.Register quote job).2 = s) ∨
      ∃ job', job = some job' ∧ (ParseCronExpression job'.Schedule).isOk = true ∧
        job'.Name ∉ s.jobs.map RegisteredJob.name ∧
        s.Register quote job = (.ok (), { s with jobs := s.jobs ++ [{ job := job' }] }) := by
  cases job with
  | none => exact .inl ⟨rfl, rfl⟩
  | some job =>
      rw [Register]
      cases hvalid : job.Validate with
      | error err => exact .inl ⟨rfl, rfl⟩
      | ok _ =>
          dsimp only
          by_cases hname : job.Name ∈ s.jobs.map RegisteredJob.name
          · rw [if_pos hname]
            exact .inl ⟨rfl, rfl⟩
          · rw [if_neg hname]
            refine .inr ⟨job, rfl, ?_, hname, rfl⟩
            rw [Job.Validate] at hvalid
            cases hparse : ParseCronExpression job.Schedule with
            | ok schedule => rfl
            | error err =>
                rw [hparse] at hvalid
                split at hvalid
                · cases hvalid
                · split at hvalid <;> cases hvalid

private theorem map_name_setPhase {context : ℕ} {phase : LoopPhase} :
    (s.setPhase context phase).loops.map Loop.name = s.loops.map Loop.name := by
  rw [setPhase, List.map_map]
  refine List.map_congr_left fun loop _ => ?_
  rw [Function.comp_apply]
  split <;> rfl

private theorem map_context_setPhase {context : ℕ} {phase : LoopPhase} :
    (s.setPhase context phase).loops.map Loop.context = s.loops.map Loop.context := by
  rw [setPhase, List.map_map]
  refine List.map_congr_left fun loop _ => ?_
  rw [Function.comp_apply]
  split <;> rfl

end Scheduler

/-! ## What a proper step preserves -/

namespace System

variable {H : Type} {quote : String → String} {s s' : System H}

/-- The invariant of proper use. -/
structure Consistent (s : System H) : Prop where
  noPanic : s.panicked = false
  names : (s.scheduler.jobs.map RegisteredJob.name).Nodup
  accepted : s.scheduler.Accepted
  wg : s.scheduler.wg = s.scheduler.loops.length
  canceled : ∀ context ∈ s.scheduler.canceled, context < s.scheduler.contexts
  created : s.scheduler.Created
  running : s.scheduler.running = true →
    s.stopping = false ∧
      (s.scheduler.loops.map Loop.name).Perm (s.scheduler.jobs.map RegisteredJob.name) ∧
      (∀ context ∈ s.scheduler.loops.map Loop.context, context ∉ s.scheduler.canceled) ∧
      (s.scheduler.jobs ≠ [] → s.scheduler.stopChClosed = false)
  idle : s.scheduler.running = false → s.stopping = false → s.scheduler.loops = []
  up : s.up = true → s.scheduler.running = true
  down : s.down = true → s.scheduler.loops = []

private theorem Consistent.lifecycle (h : s.Consistent) : s.Lifecycle := by
  refine ⟨h.noPanic, fun hup rj hrj => ?_, h.down⟩
  rcases h.running (h.up hup) with ⟨-, hperm, -, -⟩
  rw [hperm.count_eq]
  exact List.count_eq_one_of_mem h.names (List.mem_map_of_mem hrj)

theorem stopping_of_ready (h : s.ready = true) : s.stopping = false := by
  rw [ready, Bool.and_eq_true, Bool.not_eq_true'] at h
  exact h.1

theorem Consistent.register (h : s.Consistent) {job : Option (Job H)}
    (hproper : s.Proper quote (.register job))
    (hstep : s.step quote (.register job) = some s') : s'.Consistent := by
  rcases Option.ite_none_right_eq_some.mp hstep with ⟨-, hstep⟩
  cases hstep
  rcases @Scheduler.register_cases H quote s.scheduler job with
    ⟨-, hsame⟩ | ⟨job', rfl, haccepted, hnew, hadded⟩
  · rw [hsame]
    exact h
  · -- The scheduler does not run.
    have hidle : s.scheduler.running = false := by
      by_contra hrunning
      rw [Bool.not_eq_false] at hrunning
      have hrejected := hproper hrunning
      rw [hadded] at hrejected
      cases hrejected
    rw [hadded]
    refine ⟨h.noPanic, ?_, ?_, h.wg, h.canceled, ?_, ?_, h.idle, h.up, h.down⟩
    · rw [List.map_append, List.nodup_append]
      refine ⟨h.names, List.nodup_singleton _, ?_⟩
      rintro name hname name' hname' rfl
      rw [List.mem_singleton.mp hname'] at hname
      exact hnew hname
    · intro rj hrj
      rcases List.mem_append.mp hrj with hrj | hrj
      · exact h.accepted rj hrj
      · exact List.mem_singleton.mp hrj ▸ haccepted
    · intro rj hrj context hcontext
      rcases List.mem_append.mp hrj with hrj | hrj
      · exact h.created rj hrj context hcontext
      · rw [List.mem_singleton.mp hrj] at hcontext
        cases hcontext
    · intro hrunning
      exact absurd (hidle.symm.trans hrunning) (by decide)

theorem Consistent.start (h : s.Consistent) {names : List String}
    (hproper : s.Proper quote (.start names))
    (hstep : s.step quote (.start names) = some s') : s'.Consistent := by
  rcases Option.ite_none_right_eq_some.mp hstep with ⟨hready, hstep⟩
  rcases hready with ⟨hready, hperm⟩
  have hwaits := stopping_of_ready hready
  cases hrunning : s.scheduler.running with
  | true =>
      -- Nothing is live, since there is no job.
      have hnone : s.scheduler.jobs = [] := by
        rcases hproper with hnone | ⟨hidle, -⟩
        · exact hnone
        · exact absurd (hidle.symm.trans hrunning) (by decide)
      have hfails : s.scheduler.Start quote names =
          (.error "scheduler already running", s.scheduler) := by
        rw [Scheduler.Start, hrunning]
        rfl
      rw [hfails] at hstep
      cases hstep
      refine ⟨h.noPanic, h.names, h.accepted, h.wg, h.canceled, h.created, h.running, h.idle,
        h.up, fun _ => ?_⟩
      have hloops := (h.running hrunning).2.1
      rw [hnone, List.map_nil, List.perm_nil] at hloops
      exact List.map_eq_nil_iff.mp hloops
  | false =>
      have hloops := h.idle hrunning hwaits
      rcases @Scheduler.startJobs_ok H quote s.scheduler names h.accepted
        (fun name hname => hperm.mem_iff.mp hname) with ⟨started, hrun, hnow, hstarted⟩
      have hstart : s.scheduler.Start quote names = (.ok (), started) := by
        rw [Scheduler.Start, hrunning]
        exact hrun
      rw [hstart] at hstep
      cases hstep
      rcases hstarted.loops with ⟨loops, hadded, hmap, hcontexts⟩
      rw [hloops, List.nil_append] at hadded
      refine ⟨h.noPanic, ?_, hstarted.accepted h.accepted, ?_, ?_, hstarted.created h.created,
        ?_, ?_, fun _ => hnow, fun hdown => absurd hdown Bool.false_ne_true⟩
      · rw [hstarted.jobs]
        exact h.names
      · rw [hstarted.wg, h.wg, hloops, hadded, ← hmap, List.length_map]
        exact Nat.zero_add _
      · intro context hcontext
        rw [hstarted.canceled] at hcontext
        exact Nat.lt_of_lt_of_le (h.canceled context hcontext) hstarted.contexts
      · refine fun _ => ⟨hwaits, ?_, ?_, ?_⟩
        · rw [hadded, hmap, hstarted.jobs]
          exact hperm
        · intro context hcontext hcanceled
          rw [hadded] at hcontext
          rcases List.mem_map.mp hcontext with ⟨loop, hloop, rfl⟩
          rw [hstarted.canceled] at hcanceled
          have hold := h.canceled _ hcanceled
          have hnew := hcontexts loop hloop
          omega
        · intro hsome
          rw [hstarted.stopChClosed]
          rcases hproper with hnone | ⟨-, hopen⟩
          · have hjobs := hstarted.jobs
            rw [hnone, List.map_nil, List.map_eq_nil_iff] at hjobs
            exact absurd hjobs hsome
          · exact hopen
      · exact fun hidle => absurd (hidle.symm.trans hnow) (by decide)

theorem Consistent.stop (h : s.Consistent) (hproper : s.Proper quote .stop)
    (hstep : s.step quote .stop = some s') : s'.Consistent := by
  rcases Option.ite_none_right_eq_some.mp hstep with ⟨hready, hstep⟩
  have hwaits := stopping_of_ready hready
  cases hrunning : s.scheduler.running with
  | true =>
      have hopen := hproper hrunning
      simp only [Scheduler.beginStop, hrunning, hopen, if_true, Bool.false_eq_true,
        if_false] at hstep
      cases hstep
      refine ⟨h.noPanic, h.names, h.accepted, h.wg, ?_, h.created,
        fun hnow => absurd hnow Bool.false_ne_true, fun _ hidle => absurd hidle.symm Bool.false_ne_true,
        fun hup => absurd hup Bool.false_ne_true, h.down⟩
      intro context hcontext
      rcases List.mem_append.mp hcontext with hcontext | hcontext
      · exact h.canceled context hcontext
      · rcases List.mem_filterMap.mp hcontext with ⟨rj, hrj, hcancel⟩
        exact h.created rj hrj context hcancel
  | false =>
      simp only [Scheduler.beginStop, hrunning, Bool.false_eq_true, if_false] at hstep
      cases hstep
      exact ⟨h.noPanic, h.names, h.accepted, h.wg, h.canceled, h.created, h.running, h.idle,
        fun hup => absurd hup Bool.false_ne_true, fun _ => h.idle hrunning hwaits⟩

/-- A stop that waits returns when no loop is live. -/
theorem Consistent.returned (h : s.Consistent) (hstopping : s.stopping = true)
    (hloops : s.scheduler.loops = []) :
    Consistent { s with stopping := false, down := true } := by
  refine ⟨h.noPanic, h.names, h.accepted, h.wg, h.canceled, h.created, fun hrunning => ?_,
    fun _ _ => hloops, h.up, fun _ => hloops⟩
  exact absurd ((h.running hrunning).1.symm.trans hstopping) (by decide)

theorem Consistent.setPhase (h : s.Consistent) (context : ℕ) (phase : LoopPhase) :
    Consistent { s with scheduler := s.scheduler.setPhase context phase } := by
  have hempty : s.scheduler.loops = [] → (s.scheduler.setPhase context phase).loops = [] := by
    intro hloops
    rw [Scheduler.setPhase, hloops]
    rfl
  refine ⟨h.noPanic, h.names, h.accepted, ?_, h.canceled, h.created, fun hrunning => ?_,
    fun hidle hwaits => hempty (h.idle hidle hwaits), h.up, fun hdown => hempty (h.down hdown)⟩
  · rw [Scheduler.setPhase, List.length_map]
    exact h.wg
  · rcases h.running hrunning with ⟨hwaits, hperm, hlive, hopen⟩
    refine ⟨hwaits, ?_, ?_, hopen⟩
    · rw [Scheduler.map_name_setPhase]
      exact hperm
    · rw [Scheduler.map_context_setPhase]
      exact hlive

theorem Consistent.exits (h : s.Consistent) {context : ℕ}
    (hstep : s.step quote (.exits context) = some s') : s'.Consistent := by
  rcases Option.ite_none_right_eq_some.mp hstep with ⟨hexits, hstep⟩
  cases hstep
  rcases hexits with ⟨hwaiting, hended⟩
  rcases List.any_eq_true.mp hwaiting with ⟨loop, hloop, hphase⟩
  simp only [Bool.and_eq_true, decide_eq_true_eq] at hphase
  have hempty : s.scheduler.loops = [] → False := by
    intro hloops
    rw [hloops] at hloop
    cases hloop
  refine ⟨h.noPanic, h.names, h.accepted, ?_, h.canceled, h.created, fun hrunning => ?_,
    fun hidle hwaits => absurd (h.idle hidle hwaits) hempty, h.up,
    fun hdown => absurd (h.down hdown) hempty⟩
  · have hlength := List.length_eraseP_of_mem hloop (p := fun loop => loop.context = context)
      (by simpa using hphase.1)
    rw [Scheduler.endLoop, hlength, h.wg]
  · -- No loop of a running scheduler can exit.
    rcases h.running hrunning with ⟨-, hperm, hlive, hopen⟩
    have hjobs : s.scheduler.jobs ≠ [] := by
      intro hnone
      rw [hnone, List.map_nil, List.perm_nil, List.map_eq_nil_iff] at hperm
      exact hempty hperm
    have hcontext : context ∈ s.scheduler.loops.map Loop.context :=
      hphase.1 ▸ List.mem_map_of_mem hloop
    rcases hended with hcanceled | hclosed
    · exact absurd hcanceled (hlive context hcontext)
    · exact absurd ((hopen hjobs).symm.trans hclosed) (by decide)

/-- A proper step keeps the invariant. -/
theorem Consistent.step (h : s.Consistent) {e : Event H} (hproper : s.Proper quote e)
    (hstep : s.step quote e = some s') : s'.Consistent := by
  cases e with
  | register job => exact h.register hproper hstep
  | start names => exact h.start hproper hstep
  | stop => exact h.stop hproper hstep
  | stopReturns =>
      rcases Option.ite_none_right_eq_some.mp hstep with ⟨hdone, hstep⟩
      cases hstep
      refine h.returned hdone.1 (List.length_eq_zero_iff.mp ?_)
      rw [← h.wg]
      exact hdone.2
  | stopTimesOut =>
      rcases Option.ite_none_right_eq_some.mp hstep with ⟨hstopping, hstep⟩
      cases hstep
      exact h.returned hstopping hproper
  | fires context =>
      rcases Option.ite_none_right_eq_some.mp hstep with ⟨-, hstep⟩
      cases hstep
      exact h.setPhase context .handling
  | returns context =>
      rcases Option.ite_none_right_eq_some.mp hstep with ⟨-, hstep⟩
      cases hstep
      exact h.setPhase context .waiting
  | exits context => exact h.exits hstep

private theorem consistent_new : Consistent ({} : System H) where
  noPanic := rfl
  names := List.nodup_nil
  accepted := fun _ hrj => absurd hrj List.not_mem_nil
  wg := rfl
  canceled := fun _ hcontext => absurd hcontext List.not_mem_nil
  created := fun _ hrj => absurd hrj List.not_mem_nil
  running := fun hrunning => absurd hrunning Bool.false_ne_true
  idle := fun _ _ => rfl
  up := fun hup => absurd hup Bool.false_ne_true
  down := fun hdown => absurd hdown Bool.false_ne_true

/-- In every state that a new scheduler reaches by proper steps, no call has panicked, a started
scheduler has one live loop for each job, and a stopped one has none. -/
theorem lifecycle_of_proper (quote : String → String) (events : List (Event H))
    (h : Run (System.step quote) (Proper quote) {} events s) : s.Lifecycle :=
  (h.invariant (fun _ _ _ hs hproper hstep => hs.step hproper hstep) consistent_new).lifecycle

/-- A job of every minute. -/
def minutely : Job Unit where
  Name := "tick"
  Schedule := "* * * * *"
  Handler := some ()

/-- A registration, a start, a stop for which the loop ends, and the return of the stop. -/
def startAndStop : List (Event Unit) :=
  [.register (some minutely), .start ["tick"], .stop, .exits 0, .stopReturns]

theorem lifecycle_of_proper_example :
    ∃ s, Run (System.step id) (Proper id) {} startAndStop s ∧ s.Lifecycle := by
  have hrun : ∃ s, Run (System.step id) (Proper id) ({} : System Unit) startAndStop s := by
    refine ⟨_, .cons ?_ rfl (.cons ?_ rfl (.cons ?_ rfl (.cons trivial rfl (.cons trivial rfl
      (.nil _)))))⟩
    · exact fun hrunning => absurd hrunning Bool.false_ne_true
    · exact .inr ⟨rfl, rfl⟩
    · exact fun _ => rfl
  rcases hrun with ⟨s, hrun⟩
  exact ⟨s, hrun, lifecycle_of_proper id startAndStop hrun⟩

/-- A second stop after a second start closes the channel again. -/
theorem restart_panics :
    ∃ s, FreeRun (System.step id) ({} : System Unit) (startAndStop ++ [.start ["tick"], .stop]) s ∧
      ¬s.Lifecycle := by
  refine ⟨_, .cons trivial rfl (.cons trivial rfl (.cons trivial rfl (.cons trivial rfl
    (.cons trivial rfl (.cons trivial rfl (.cons trivial rfl (.nil _))))))), fun h => ?_⟩
  exact absurd h.noPanic (by decide +kernel)

end System

end Scheduler
end MemosNote
