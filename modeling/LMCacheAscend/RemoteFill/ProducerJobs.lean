import LMCacheAscend.Lib.Blocks
import LMCacheAscend.Lib.FifoPool
import LMCacheAscend.RemoteFill.Producer

/-!
# The ordered jobs of the coordinator

`submit_probe` and `submit_batch` of `remote_fill_coordinator.py` give a job its
window ids and queue it behind the last job of its request; `run` waits for that
one, creates the session if there is none, and sends the windows one by one
until one is not satisfied.  The executor has `workers` threads and starts the
queued jobs in the order of their submission.

A step of the machine is a submission, the start of the next job, the beginning
of a started job (its wait is over) or one of its windows.  The assumption on the
executor is that a `submit` that raises has not queued the job.  (It may have, if
no thread can be started; the engine then disables the request and submits
nothing more for it.)
-/

namespace RemoteFill

open Lib

/-- `submit_probe` without and with a source factory, and `submit_batch`. -/
inductive JobKind
  | probe
  | sourcedProbe
  | batch
deriving DecidableEq, Repr

structure ProducerJob (ρ : Type) where
  request : ρ
  kind : JobKind
  firstWindowId : Nat
  controlWindows : List (List ControlPage)
  previous : Option Nat
deriving DecidableEq, Repr

inductive JobOutcome
  /-- Every window is satisfied. -/
  | returned
  /-- The last window is not satisfied. -/
  | broken
  /-- The session was not viable. -/
  | skipped
  /-- An exception that the job takes. -/
  | failed
  /-- An exception that the job's future keeps. -/
  | raised
deriving DecidableEq, Repr

inductive JobPhase
  | queued
  /-- A worker is in `previous.result()`. -/
  | waiting
  | inWindow (offset : Nat)
  | done (outcome : JobOutcome)
deriving DecidableEq, Repr

/-- Started and not ended. -/
def JobPhase.running : JobPhase → Bool
  | .waiting => true
  | .inWindow _ => true
  | _ => false

def JobPhase.finished : JobPhase → Bool
  | .done _ => true
  | _ => false

structure JobEntry (ρ : Type) where
  job : ProducerJob ρ
  phase : JobPhase
deriving DecidableEq, Repr

/-- The fields of a `ProducerRequestState` that jobs use; `lastFuture` is the job's number. -/
structure RequestJobs where
  session : Option Session
  lastFuture : Option Nat
  nextWindowId : Nat
deriving DecidableEq, Repr

structure Coordinator (ρ : Type) where
  jobs : List (JobEntry ρ)
  started : Nat
  requests : ρ → RequestJobs

/-- How a submission goes on before and at `executor.submit`. -/
inductive Admission
  /-- Capacity, source plans or the executor are refused. -/
  | refused
  /-- `executor.submit` raises and has not queued the job. -/
  | notScheduled
  | scheduled
deriving DecidableEq, Repr

/-- What the decoder and the native layer do during one window. -/
structure WindowEnv where
  exec : Exec
  args : TransferArgs
  cached : Bool

inductive JobAction (ρ : Type)
  | submit (request : ρ) (kind : JobKind) (pages : List ControlPage) (maximum : Nat)
      (admission : Admission)
  /-- A worker takes the next queued job. -/
  | start
  /-- `previous.result()` returns or raises; `created` says whether `_create_session` returns. -/
  | begin (job : Nat) (created : Bool)
  | window (job : Nat) (env : WindowEnv)

section

variable {ρ : Type} [DecidableEq ρ] (cfg : ρ → SessionConfig) (generation : ρ → Int)
  (workers : Nat)

variable (s : Coordinator ρ)

def Coordinator.setRequest (r : ρ) (state : RequestJobs) : Coordinator ρ :=
  { s with requests := fun q => if q = r then state else s.requests q }

def Coordinator.setPhase (j : Nat) (phase : JobPhase) : Coordinator ρ :=
  { s with jobs := s.jobs.modify j fun e => { e with phase := phase } }

/-- `submit_probe` and `submit_batch`. -/
def Coordinator.submit (r : ρ) (kind : JobKind) (pages : List ControlPage) (maximum : Nat)
    (admission : Admission) : Coordinator ρ :=
  let state := s.requests r
  let controlWindows := slices maximum pages
  let numbered := { state with nextWindowId := state.nextWindowId + controlWindows.length }
  if (kind ≠ .batch ∧ pages = []) ∨ maximum = 0 then s
  else match admission with
    | .refused => s
    | .notScheduled => s.setRequest r numbered
    | .scheduled =>
      let entry : JobEntry ρ :=
        ⟨⟨r, kind, state.nextWindowId, controlWindows, state.lastFuture⟩, .queued⟩
      ({ s with jobs := s.jobs ++ [entry] } : Coordinator ρ).setRequest r
        { numbered with lastFuture := some s.jobs.length }

def Coordinator.runningJobs : Nat :=
  s.jobs.countP fun e => e.phase.running

/-- The next queued job, if a worker is free. -/
def Coordinator.start : Option (Coordinator ρ) :=
  if s.started < s.jobs.length ∧ s.runningJobs < workers then
    some { s.setPhase s.started .waiting with started := s.started + 1 }
  else none

def Coordinator.phase (s : Coordinator ρ) (j : Nat) : Option JobPhase := (s.jobs[j]?).map JobEntry.phase

/-- The session of the job's request, created if there is none and that is possible. -/
def Coordinator.ensureSession (r : ρ) (created : Bool) : Option Session :=
  match (s.requests r).session with
  | some session => some session
  | none => if created then some Session.new else none

/-- After the wait of a job. -/
def Coordinator.enter (j : Nat) (job : ProducerJob ρ) (created : Bool) : Coordinator ρ :=
  match s.ensureSession job.request created with
  | none => s.setPhase j (.done .failed)
  | some session =>
    let s := s.setRequest job.request
      { s.requests job.request with session := some session }
    if session.directViable = false then s.setPhase j (.done .skipped)
    else if job.controlWindows = [] then s.setPhase j (.done .returned)
    else s.setPhase j (.inWindow 0)

/-- `run` up to its windows; refused while the previous job has not ended. -/
def Coordinator.begin (j : Nat) (created : Bool) : Option (Coordinator ρ) :=
  match s.jobs[j]? with
  | some ⟨job, .waiting⟩ =>
    match job.previous with
    | none => some (s.enter j job created)
    | some p => match s.phase p with
      | some (.done .raised) => some (s.setPhase j (.done .raised))
      | some (.done _) => some (s.enter j job created)
      | _ => none
  | _ => none

/-- The window call of a job. -/
def windowProgram (r : ρ) (kind : JobKind) (env : WindowEnv) (window : Window) :
    SessionM WindowResult :=
  if kind = .probe then probeWindow (cfg r) env.exec window env.cached
  else transferWindow (cfg r) env.exec env.args window env.cached

/-- What the job does with the result of a window. -/
def afterWindow (job : ProducerJob ρ) (offset : Nat) :
    Except SessionError WindowResult → JobPhase
  | .ok result =>
    if result.directSatisfied = false then .done .broken
    else if offset + 1 < job.controlWindows.length then .inWindow (offset + 1)
    else .done .returned
  | .error (.fatal _) => .done .raised
  | .error (.base _) => .done .raised
  | .error _ => .done .failed

/-- The session after a window; an exception that the job takes gives up direct filling. -/
def windowSession (run : Except SessionError WindowResult × Session) : Session :=
  match run.1 with
  | .error (.fatal _) => run.2
  | .error (.base _) => run.2
  | .error _ => { run.2 with directViable := false }
  | .ok _ => callEnded run

/-- One window of a job. -/
def Coordinator.window (s : Coordinator ρ) (j : Nat) (env : WindowEnv) : Option (Coordinator ρ) :=
  match s.jobs[j]? with
  | some ⟨job, .inWindow offset⟩ =>
    match (s.requests job.request).session, job.controlWindows[offset]? with
    | some session, some pages =>
      let window : Window := ⟨job.firstWindowId + offset, generation job.request, pages⟩
      let run := windowProgram cfg job.request job.kind env window session
      some ((s.setRequest job.request
        { s.requests job.request with session := some (windowSession run) }).setPhase j
          (afterWindow job offset run.1))
    | _, _ => none
  | _ => none

def Coordinator.step : JobAction ρ → Option (Coordinator ρ)
  | .submit r kind pages maximum admission => some (s.submit r kind pages maximum admission)
  | .start => s.start workers
  | .begin j created => s.begin j created
  | .window j env => s.window cfg generation j env

def Coordinator.new : Coordinator ρ := ⟨[], 0, fun _ => ⟨none, none, 0⟩⟩

/-- Any order of submissions and of the pool's steps. -/
def jobMachine : Machine (Coordinator ρ) (JobAction ρ) where
  start s := s = Coordinator.new
  step s a := s.step cfg generation workers a

end

end RemoteFill
