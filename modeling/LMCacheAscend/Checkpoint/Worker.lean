import Mathlib.Data.List.Sort
import LMCacheAscend.Lib.Machine
import LMCacheAscend.Checkpoint.Capture

/-!
# The checkpoint worker

`CheckpointWorker` of `preemption_checkpoint.py` and its store thread as a
machine.  The main thread captures, seals, polls, cancels and closes; the
single store thread runs the sealed publications in order, and its steps are
the points where the two can meet: the check of `cancelled`, the install in the
local store, and the result of the future.  `cancel` forgets before it marks, so
it is two steps, and `poll` is one step for each job it looks at.

A manifest remembers the job that published it; `captured`, `released` and
`yielded` log for each job object its pages at capture, the pages `_release` gave
back and the statuses of its results.
-/

namespace Checkpoint

open Lib Function

inductive Status
  | captured
  | failed
  | ready
deriving DecidableEq, Repr

structure CheckpointResult where
  key : Identity
  status : Status
  end_ : Int
  reason : String
deriving DecidableEq, Repr

structure WorkerConfig (κ : Type) where
  chunkSize : Nat
  blockSize : Nat
  maxJobs : Nat
  timeout : Nat
  /-- `checkpoint_page_key`. -/
  pageKey : CaptureSpec → Nat → Int → Int → κ
  /-- The local store is a `CheckpointWritebackStore`, which has a `close`. -/
  writeback : Bool

structure Worker (κ : Type) where
  jobs : Dict Identity Nat
  objects : Nat → Option (CaptureJob κ)
  nextJob : Nat
  results : List CheckpointResult
  /-- Sealed publications in the order of their `submit`; the first one runs. -/
  queue : List (Nat × List Int)
  manifests : Dict Identity (LocalCheckpoint κ × Nat)
  /-- A `cancel` that has forgotten the offers and not yet marked the jobs. -/
  cancelling : Option (String × Option Int)
  captured : Nat → List Page
  released : Nat → List Page
  yielded : Nat → List Status

def Worker.init {κ : Type} : Worker κ :=
  { jobs := Dict.empty, objects := fun _ => none, nextJob := 0, results := [], queue := [],
    manifests := Dict.empty, cancelling := none, captured := fun _ => [],
    released := fun _ => [], yielded := fun _ => [] }

variable {κ : Type} (cfg : WorkerConfig κ)

/-! ## Job objects -/

variable (w : Worker κ) (job : CaptureJob κ) (key : Identity)

def Worker.setJob (j : Nat) (job : CaptureJob κ) : Worker κ :=
  { w with objects := update w.objects j (some job) }

/-- `self.results.append(...)` for the job `j`. -/
def Worker.yield (j : Nat) (r : CheckpointResult) : Worker κ :=
  { w with
    results := w.results ++ [r]
    yielded := update w.yielded j (w.yielded j ++ [r.status]) }

def Worker.addJob : Worker κ :=
  { w with
    jobs := w.jobs.set job.spec.key w.nextJob
    objects := update w.objects w.nextJob (some job)
    nextJob := w.nextJob + 1
    captured := update w.captured w.nextJob job.pages }

/-- `_release(job)` and `del self.jobs[key]`. -/
def Worker.retire (j : Nat) (job : CaptureJob κ) : Worker κ :=
  if job.quarantined then { w with jobs := w.jobs.pop key }
  else { w.setJob j job.clear with
    jobs := w.jobs.pop key
    released := update w.released j (w.released j ++ job.pages) }

/-- `forget` of the local store. -/
def Worker.forget (reqId : String) (generation : Option Int) : Worker κ :=
  { w with manifests :=
      (w.manifests.keys.filter (matchesIdentity reqId generation)).foldl Dict.pop w.manifests }

/-! ## The main thread -/

def errorText : PyError → String
  | .memoryError m | .valueError m | .overflowError m | .transferUnknown m | .exception m => m

/-- `capture`; it raises when the job is quarantined. -/
def Worker.capture (w : Worker κ) (env : CaptureEnv κ) (spec : CaptureSpec) (started : Nat) :
    Worker κ :=
  match w.jobs.get? spec.key with
  | some j => match w.objects j with
    | none => w
    | some job => w.yield j
        ⟨spec.key, if job.cancelled then .failed else .captured, job.capturedEnd,
          "duplicate generation"⟩
  | none =>
    match (Checkpoint.capture env cfg.chunkSize cfg.blockSize spec w.jobs.keys.length cfg.maxJobs
      started).1 with
    | .captured job =>
      (w.addJob job).yield w.nextJob ⟨spec.key, .captured, job.capturedEnd, ""⟩
    | .failed e => { w with results := w.results ++ [⟨spec.key, .failed, 0, errorText e⟩] }
    | .quarantined job => w.addJob job

/-- One job of the loop of `cancel`. -/
def Worker.markCancelled : Worker κ :=
  match w.jobs.get? key with
  | none => w
  | some j => match w.objects j with
    | none => w
    | some job =>
      let job := { job with cancelled := true }
      let w := w.setJob j job
      if job.quarantined then w
      else if job.future.isNone then w.retire key j job
      else w

def Worker.cancelMark (reqId : String) (generation : Option Int) : Worker κ :=
  (w.jobs.keys.filter (matchesIdentity reqId generation)).foldl Worker.markCancelled w

/-- `seal`: a frontier outside the capture cancels the job, else it is submitted. -/
def Worker.seal (w : Worker κ) (key : Identity) (tokens : List Int) : Worker κ :=
  match w.jobs.get? key with
  | none => w
  | some j => match w.objects j with
    | none => w
    | some job =>
      if job.cancelled ∨ job.future.isSome then w
      else if max job.spec.base job.spec.prefixEnd < tokens.length ∧
          tokens.length ≤ job.capturedEnd then
        { w.setJob j { job with future := some .pending } with queue := w.queue ++ [(j, tokens)] }
      else
        let w := (w.forget key.1 (some key.2)).cancelMark key.1 (some key.2)
        w.yield j ⟨key, .failed, 0, "invalid seal frontier"⟩

/-- The result of a finished publication, or the `forget` of a cancelled one. -/
def Worker.reportDone (j : Nat) (job : CaptureJob κ) (result : Except PyError Int) : Worker κ :=
  if job.cancelled then w.forget key.1 (some key.2)
  else match result with
    | .ok end_ => w.yield j ⟨key, .ready, end_, ""⟩
    | .error e => w.yield j ⟨key, .failed, 0, errorText e⟩

/-- `poll` at one job; `none` is a raise. -/
def Worker.pollJob (now : Nat) : Option (Worker κ) :=
  match w.jobs.get? key with
  | none => some w
  | some j => match w.objects j with
    | none => some w
    | some job =>
      if job.quarantined then none
      else match job.future with
        | some (.done (.error (.transferUnknown _))) => none
        | some (.done result) =>
          some ((w.reportDone key j job result).retire key j { job with future := none })
        | future =>
          if now - job.started > cfg.timeout ∧ job.cancelled = false then
            let job := { job with cancelled := true }
            let w := (w.setJob j job).yield j ⟨key, .failed, 0, "checkpoint deadline"⟩
            some (if future.isNone then w.retire key j job else w)
          else some w

/-- The end of `poll`: the results are handed over. -/
def Worker.drainResults : Worker κ := { w with results := [] }

/-- `close` up to its join of the store thread; its `poll` is the usual one. -/
def Worker.close : Worker κ :=
  let w := w.jobs.keys.foldl (fun w key =>
    (w.forget key.1 (some key.2)).cancelMark key.1 (some key.2)) w
  if cfg.writeback then { w with manifests := Dict.empty } else w

/-! ## The store thread -/

/-- The pages of a sealed manifest, in the order of `_publish_local`. -/
def publishedPages (end_ : Int) (group : Nat) : List (CheckpointPage κ) :=
  (if group = 0 then job.prefixSources else []) ++
    ((job.fragmentsOf group).filter fun f => f.start < end_).map fun f =>
      ⟨f.start, min f.end_ end_, cfg.pageKey job.spec group f.start f.end_⟩

def sealedManifest (tokens : List Int) : LocalCheckpoint κ :=
  let pages := fun group =>
    (publishedPages cfg job tokens.length group).insertionSort fun p q => p.start ≤ q.start
  { tokens := tokens, prefixEnd := job.spec.prefixEnd, groups := (pages 0, pages 1),
    identity := none, retentionId := none }

/-- How the next step of a publication ends. -/
inductive PublishStep
  /-- No exception; the writeback store may decline the offer. -/
  | ok (installs : Bool)
  | raised (e : PyError)

/-- The next step of the running publication. -/
def Worker.publishStep (r : PublishStep) : Option (Worker κ) :=
  match w.queue with
  | [] => none
  | (j, tokens) :: rest => match w.objects j with
    | none => none
    | some job =>
      match job.future, r with
      | some .pending, .ok _ =>
        if job.cancelled then
          some { w.setJob j { job with future := some (.done (.ok 0)) } with queue := rest }
        else some (w.setJob j { job with future := some .submitted })
      | some .submitted, .ok installs =>
        let w := w.setJob j { job with future := some .published }
        some (if installs then
          { w with manifests := w.manifests.set job.spec.key (sealedManifest cfg job tokens, j) }
          else w)
      | some .published, .ok _ =>
        some { w.setJob j { job with future := some (.done (.ok tokens.length)) } with
          queue := rest }
      | some .pending, .raised e | some .submitted, .raised e =>
        some { w.setJob j { job with future := some (.done (.error e)) } with queue := rest }
      | _, _ => none

/-! ## Machine -/

inductive WorkerAction (κ : Type)
  | capture (env : CaptureEnv κ) (spec : CaptureSpec) (started : Nat)
  | sealJob (key : Identity) (tokens : List Int)
  | pollJob (key : Identity) (now : Nat)
  | drainResults
  | cancelForget (reqId : String) (generation : Option Int)
  | cancelMark
  | close
  | publishStep (r : PublishStep)
  /-- The writeback store retires a restored generation by itself. -/
  | restoreForget (key : Identity)

def Worker.step : WorkerAction κ → Option (Worker κ)
  | .capture env spec started => some (w.capture cfg env spec started)
  | .sealJob key tokens => some (w.seal key tokens)
  | .pollJob key now => w.pollJob cfg key now
  | .drainResults => some w.drainResults
  | .cancelForget reqId generation =>
    some { w.forget reqId generation with cancelling := some (reqId, generation) }
  | .cancelMark => match w.cancelling with
    | none => none
    | some (reqId, generation) => some { w.cancelMark reqId generation with cancelling := none }
  | .close => some (w.close cfg)
  | .publishStep r => w.publishStep cfg r
  | .restoreForget key => some (w.forget key.1 (some key.2))

def workerMachine : Machine (Worker κ) (WorkerAction κ) where
  start w := w = Worker.init
  step := Worker.step cfg

end Checkpoint
