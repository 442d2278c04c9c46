import Mathlib.Data.List.Count
import Mathlib.Data.List.Dedup
import LMCacheAscend.Lib.Prog
import LMCacheAscend.Lib.Tiles
import LMCacheAscend.Checkpoint.LocalCheckpoint

/-!
# Checkpoint capture

`CheckpointWorker.capture` of `preemption_checkpoint.py` as a program over the
job it builds.  `CaptureEnv` answers its calls into the engine, indexed by the
number of calls made so far, so every pattern of allocation failures is an
environment.  `taken` and `released` log one entry per page reference that the
capture took and gave back; both loops carry the length of the range they walk
as fuel.

Every failure that is modelled is an `Exception`; native plans and timings,
which nothing here reads, are left out.
-/

namespace Checkpoint

open Lib

/-! ## Data -/

structure CaptureSpec where
  reqId : String
  generation : Int
  base : Int
  prefixEnd : Int
  end_ : Int
  residentStart : Int
  blocks : List Int × List Int

def CaptureSpec.key (spec : CaptureSpec) : Identity := (spec.reqId, spec.generation)

structure Fragment where
  start : Int
  end_ : Int
  page : Page
deriving DecidableEq, Repr

def Fragment.range (f : Fragment) : Int × Int := (f.start, f.end_)

/-- How the publication of a sealed job stands: queued, past its last look at
`cancelled`, or done with the frontier it returned or an exception. -/
inductive Future
  | pending
  | submitted
  | published
  | done (result : Except PyError Int)

structure CaptureJob (κ : Type) where
  spec : CaptureSpec
  fragments : Dict Nat (List Fragment)
  prefixSources : List (CheckpointPage κ)
  prefixOwners : List Page
  capturedEnd : Int
  future : Option Future
  cancelled : Bool
  started : Nat
  quarantined : Bool

def CaptureJob.new {κ : Type} (spec : CaptureSpec) (started : Nat) : CaptureJob κ :=
  { spec := spec, fragments := Dict.empty, prefixSources := [], prefixOwners := [],
    capturedEnd := 0, future := none, cancelled := false, started := started,
    quarantined := false }

/-- `job.fragments.get(group, [])`. -/
def CaptureJob.fragmentsOf {κ : Type} (job : CaptureJob κ) (group : Nat) : List Fragment :=
  (job.fragments.get? group).getD []

/-- The pages that `_release` gives back, in its order. -/
def CaptureJob.pages {κ : Type} (job : CaptureJob κ) : List Page :=
  job.fragments.entries.flatMap (fun e => e.2.map Fragment.page) ++ job.prefixOwners

/-- `job.fragments` and `job.prefix_owners` cleared. -/
def CaptureJob.clear {κ : Type} (job : CaptureJob κ) : CaptureJob κ :=
  { job with fragments := Dict.empty, prefixOwners := [] }

structure PrefixState (κ : Type) where
  cachedStarts : List Int
  cachedEnds : List Int
  cachedKeys : List (List κ)

/-- The answers of the engine, by the number of calls made before. -/
structure CaptureEnv (κ : Type) where
  frozen : Bool
  caches : List Nat
  prefixState : Option (PrefixState κ)
  writeback : Bool
  withoutLayer : κ → κ
  layerPagePrefix : Nat → κ → Except PyError (List Page × Nat)
  validatePage : Nat → Page → Except PyError Unit
  prepareAllocator : Nat → Except PyError Unit
  allocate : Nat → Nat → Int → Except PyError Page
  reclaim : Nat → Int → List Nat → Except PyError Bool
  pinnedSlots : Nat → Except PyError Unit
  prepareCapture : Nat → Except PyError Unit
  enqueueCapture : Nat → Except PyError Unit
  synchronize : Except PyError Unit
  finishCapture : Except PyError Unit

structure CaptureState (κ : Type) where
  job : CaptureJob κ
  candidate : List (Nat × Fragment)
  reclaimed : Bool
  reclaims : Nat
  plans : List Nat
  deviceWorkStarted : Bool
  calls : Nat
  taken : List Page
  released : List Page

variable {κ : Type}

def CaptureState.new (spec : CaptureSpec) (started : Nat) : CaptureState κ :=
  { job := CaptureJob.new spec started, candidate := [], reclaimed := false, reclaims := 0,
    plans := [], deviceWorkStarted := false, calls := 0, taken := [], released := [] }

abbrev CaptureM (κ : Type) := Prog PyError (CaptureState κ)

/-- A call into the engine. -/
def call {α : Type} (f : Nat → Except PyError α) : CaptureM κ α := do
  let s ← get
  modify fun s => { s with calls := s.calls + 1 }
  match f s.calls with
  | .ok a => pure a
  | .error e => throw e

/-- `raise` when a check fails. -/
def check (c : Prop) [Decidable c] (e : PyError) : CaptureM κ Unit := if c then pure () else throw e

/-! ## Prefix owners and source blocks -/

variable (env : CaptureEnv κ) (chunkSize blockSize : Nat) (spec : CaptureSpec)

/-- The `CheckpointPage`s of the cached prefix that reach past `prefix_end`; the
error is `zip(strict=True)`. -/
def prefixSources (p : PrefixState κ) : Except PyError (List (CheckpointPage κ)) :=
  let keys := p.cachedKeys.headD []
  if p.cachedStarts.length = p.cachedEnds.length ∧ p.cachedEnds.length = keys.length then
    .ok <| ((p.cachedStarts.zip (p.cachedEnds.zip keys)).filter fun e =>
      e.2.1 > spec.prefixEnd ∧ e.1 < spec.residentStart).map fun e =>
        ⟨e.1, min e.2.1 spec.residentStart, env.withoutLayer e.2.2⟩
  else .error (.valueError "zip() arguments have different lengths")

/-- The pages and the count of one prefix lookup become owners before the check. -/
def takePrefixOwner (source : CheckpointPage κ) : CaptureM κ Unit := do
  let (pages, count) ← call fun n => env.layerPagePrefix n source.key
  modify fun s => { s with
    taken := s.taken ++ pages
    job := { s.job with prefixOwners := s.job.prefixOwners ++ pages } }
  if count = 0 then pure () else match pages with
    | [] => throw (.exception "list index out of range")
    | page :: _ => call fun n => env.validatePage n page

def takePrefix : CaptureM κ Unit :=
  match env.prefixState with
  | none => pure ()
  | some p => if p.cachedKeys = [] then pure () else do
    let sources ← call fun _ => prefixSources env spec p
    modify fun s => { s with job := { s.job with prefixSources := sources } }
    if env.writeback then sources.forM (takePrefixOwner env) else pure ()

variable (group : Nat) (cursor : Int) (s : CaptureState κ)

def groupStart : Int := if group = 0 then spec.residentStart else spec.base

/-- The source blocks of a group include a released or null block. -/
def releasedBlocks : Bool :=
  let blocks := ofGroup spec.blocks group
  let start := groupStart spec group
  let stop := (spec.end_ + blockSize - 1) / blockSize
  stop > blocks.length || (start < spec.end_ &&
    ((blocks.take stop.toNat).drop (start / blockSize).toNat).any (· ≤ 0))

def checkBlocks : CaptureM κ Unit := do
  check (blockSize ≠ 0) (.exception "integer division or modulo by zero")
  check (¬ releasedBlocks blockSize spec group)
    (.valueError "Checkpoint source includes released/null blocks")

/-! ## Allocation -/

def allocateFragment (tokens : Int) : CaptureM κ Page := do
  check (0 < tokens ∧ tokens ≤ chunkSize) (.memoryError "Checkpoint fragment exceeds one chunk")
  let page ← call fun n => env.allocate n group tokens
  modify fun s => { s with taken := s.taken ++ [page] }
  pure page

/-- The groups whose reclaim needs no layout: `(group, 1)` without the candidate's. -/
def missingGroups (candidate : List (Nat × Fragment)) : List Nat :=
  [group, 1].dedup.filter fun g => g ∉ candidate.map Prod.fst

/-- One page of a group, after the capture's only reclaim if need be. -/
def allocateOrReclaim (start end_ : Int) : CaptureM κ Page :=
  tryCatch (allocateFragment env chunkSize group (end_ - start)) fun e =>
    match e with
    | .memoryError _ => do
      let s ← get
      if s.reclaimed then throw e else do
        modify fun s => { s with reclaimed := true, reclaims := s.reclaims + 1 }
        let freed ← call fun n => env.reclaim n (end_ - cursor) (missingGroups group s.candidate)
        if freed then allocateFragment env chunkSize group (end_ - start) else throw e
    | e => throw e

/-- The pages of `[cursor, end)` for the groups that reach into it. -/
def allocateGroup (end_ : Int) (group : Nat) : CaptureM κ Unit := do
  let start := if group = 0 then max cursor spec.residentStart else cursor
  if start ≥ end_ then pure () else do
    let page ← allocateOrReclaim env chunkSize group cursor start end_
    modify fun s => { s with candidate := s.candidate ++ [(group, ⟨start, end_, page⟩)] }

def CaptureState.releaseCandidate : CaptureState κ :=
  { s with released := s.released ++ s.candidate.map (·.2.page), candidate := [] }

/-- `job.fragments.setdefault(group, []).append(fragment)` over the candidate. -/
def CaptureState.commitCandidate : CaptureState κ :=
  let fragments := s.candidate.foldl
    (fun d e => d.set e.1 ((d.get? e.1).getD [] ++ [e.2])) s.job.fragments
  { s with job := { s.job with fragments := fragments }, candidate := [] }

/-- The pages of `[cursor, end)`, or `false` after a `MemoryError`. -/
def tryWindow (end_ : Int) : CaptureM κ Bool :=
  tryCatch (do [0, 1].forM (allocateGroup env chunkSize spec cursor end_); pure true) fun e => do
    modify CaptureState.releaseCandidate
    match e with
    | .memoryError _ => pure false
    | e => throw e

/-- `while end > cursor`: the inner loop, which halves `end` on a `MemoryError`;
its `end` when it leaves. -/
def allocateWindow (cursor : Int) : Nat → Int → CaptureM κ Int
  | 0, end_ => pure end_
  | fuel + 1, end_ =>
    if end_ > cursor then do
      let fits ← tryWindow env chunkSize spec cursor end_
      if fits then do
        modify CaptureState.commitCandidate
        pure end_
      else allocateWindow cursor fuel (cursor + (end_ - cursor) / 2)
    else pure end_

def windowEnd : Int :=
  min spec.end_ ((cursor / chunkSize + 1) * chunkSize)

/-- `while cursor < spec.end`: the cursor when it leaves. -/
def allocateWindows : Nat → Int → CaptureM κ Int
  | 0, cursor => pure cursor
  | fuel + 1, cursor =>
    if cursor < spec.end_ then do
      check (chunkSize ≠ 0) (.exception "integer division or modulo by zero")
      let desiredEnd := windowEnd chunkSize spec cursor
      let end_ ← allocateWindow env chunkSize spec cursor (desiredEnd - cursor).toNat desiredEnd
      let cursor := if end_ > cursor then end_ else cursor
      -- one smaller tail is kept, and bounds the work of failed allocations
      if end_ = desiredEnd then allocateWindows fuel cursor else pure cursor
    else pure cursor

/-! ## Device work -/

def int64Max : Int := 2 ^ 63 - 1

/-- `_checkpoint_slots`: the slot of every position of a validated range. -/
def checkpointSlots (blocks : List Int) (start end_ : Int) : Except PyError (List Int) :=
  let stop := ((end_ + blockSize - 1) / blockSize).toNat
  let ids := (blocks.take stop).drop (start / blockSize).toNat
  match ids.getLast? with
  | none => .error (.exception "index -1 is out of bounds")
  | some last =>
    let offset := (start % blockSize).toNat
    if (ids.dropLast.any fun i => i * blockSize + blockSize - 1 > int64Max) ∨
        last * blockSize + (end_ - 1) % blockSize > int64Max then
      .error (.overflowError "Checkpoint slot exceeds int64")
    else .ok <| ((ids.flatMap fun i => (List.range blockSize).map fun k : Nat => i * blockSize + (k : Int)).drop
      offset).take (end_ - start).toNat

def prepareGroup (e : Nat × List Fragment) : CaptureM κ Unit := do
  match e.2.head?, e.2.getLast? with
  | some first, some last => do
    let _ ← call fun _ =>
      checkpointSlots blockSize (ofGroup spec.blocks e.1) first.start last.end_
    call env.pinnedSlots
    modify fun s => { s with deviceWorkStarted := true }
    call env.prepareCapture
    modify fun s => { s with plans := s.plans ++ [e.1] }
  | _, _ => throw (.exception "list index out of range")

def deviceWork : CaptureM κ Unit := do
  let s ← get
  s.job.fragments.entries.forM (prepareGroup env blockSize spec)
  let s ← get
  s.plans.forM fun _ => call env.enqueueCapture
  check (s.plans ≠ []) (.exception "list index out of range")
  call fun _ => env.synchronize

/-! ## The capture -/

/-- The `try` body of `capture`. -/
def captureBody (jobCount maxJobs : Nat) : CaptureM κ Unit := do
  check (¬ env.frozen) (.valueError "checkpoint capture refused while cache is frozen")
  check (jobCount < maxJobs) (.valueError "checkpoint staging is busy")
  check (0 ∈ env.caches ∧ 1 ∈ env.caches ∧ ∀ g ∈ env.caches, g = 0 ∨ g = 1)
    (.valueError "checkpoint requires both KV groups")
  check ((0 ≤ spec.base ∧ spec.base ≤ spec.prefixEnd ∧ spec.prefixEnd ≤ spec.end_) ∧
    spec.base ≤ spec.residentStart ∧ spec.residentStart ≤ spec.end_)
    (.valueError "Invalid checkpoint frontiers")
  takePrefix env spec
  [0, 1].forM (checkBlocks blockSize spec)
  [0, 1].forM fun group =>
    if groupStart spec group < spec.end_ then call fun _ => env.prepareAllocator group else pure ()
  let cursor ← allocateWindows env chunkSize spec (spec.end_ - spec.base).toNat spec.base
  check (cursor > spec.prefixEnd) (.memoryError "Checkpoint CPU staging allocation refused")
  modify fun s => { s with job := { s.job with capturedEnd := cursor } }
  deviceWork env blockSize spec

/-- `_release`. -/
def CaptureState.releaseJob : CaptureState κ :=
  if s.job.quarantined then s
  else { s with released := s.released ++ s.job.pages, job := s.job.clear }

/-- How a capture of a generation that has no job ends.  `failed` has released the
job; `quarantined` keeps it and raises. -/
inductive CaptureOutcome (κ : Type)
  | captured (job : CaptureJob κ)
  | failed (reason : PyError)
  | quarantined (job : CaptureJob κ)

def capture (jobCount maxJobs started : Nat) : CaptureOutcome κ × CaptureState κ :=
  match captureBody env chunkSize blockSize spec jobCount maxJobs (CaptureState.new spec started) with
  | (.ok _, s) => (.captured s.job, s)
  | (.error e, s) =>
    if s.deviceWorkStarted ∧ env.finishCapture.isOk = false then
      let job := { s.job with quarantined := true }
      (.quarantined job, { s with job := job })
    else (.failed e, s.releaseJob)

end Checkpoint
