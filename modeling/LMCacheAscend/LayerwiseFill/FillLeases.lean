import LMCacheAscend.DirectStore.ControlPages
import LMCacheAscend.Lib.Ledger

/-!
# Leases of the layerwise CPU fill

`LayerwiseCPUFillLease` and the calls that make, hand over and release leases, for an engine
with `_force_layerwise_prefill_store`: `_queue_layerwise_cpu_fill`,
`submit_layerwise_prefill_fills`, `drop_direct_store_states`, `close_remote_fill_producer`, and
the callback of a future.  What a call outside the engine answers is given, with any exception.

The engine's thread runs one call at a time.  A future ends on a thread of its own, and runs
its callbacks there: they only touch leases that the engine has handed over, so they are steps
between the calls, or, for the future of a submission, in it before its callback is added.

Pages are their identities.  `refs` lists each `ref_count_up` and `ref_count_down`, `released`
each call of `release`; a `ref_count_down` is taken never to raise.
-/

namespace FillLeases

open Lib DirectStore

/-! ## State -/

abbrev PageId := Nat
abbrev LeaseId := Nat
abbrev FutureId := Nat

inductive FillError
  /-- `RemoteFillFatalError`. -/
  | fatal (message : String)
  | direct (e : DirectError)
  | keyError
  | attributeError
  | indexError
  | other (message : String)
deriving DecidableEq, Repr

/-- A lease, and for the proofs the pages it retained. -/
structure Lease where
  pages : List PageId
  retained : List PageId

inductive FutureEnd
  | cancelled
  | exception (e : FillError)
  | returned
deriving DecidableEq, Repr

/-- `isinstance(error, RemoteFillFatalError)`. -/
def FutureEnd.fatal : FutureEnd → Bool
  | .exception (.fatal _) => true
  | _ => false

/-- A future, and the leases of each of its `release_sources`. -/
structure FillFuture where
  ended : Option FutureEnd
  callbacks : List (List LeaseId)

/-- A `ProducerRequestState`. -/
structure RequestFill where
  handoff : Bool
  disabledReason : String
  lastFuture : Option FutureId

/-- The batches and leases of a request's groups. -/
abbrev FillGroups (H : Type) := Dict Nat (DirectPageBatch H × LeaseId)

structure FillState (H : Type) where
  leases : List Lease
  refs : Ledger PageId
  released : List LeaseId
  sources : Dict String (FillGroups H)
  /-- `_direct_store_states`, with the `remote_fill` of each. -/
  states : Dict String (Option RequestFill)
  futures : List FillFuture
  quarantine : List LeaseId

def FillState.new {H : Type} : FillState H :=
  ⟨[], Ledger.empty, [], Dict.empty, Dict.empty, [], []⟩

abbrev FillM (H : Type) := Prog FillError (FillState H)

section

variable {H : Type}

namespace FillState

variable (s : FillState H)

/-- A new object. -/
def allocate : FillState H := { s with leases := s.leases ++ [⟨[], []⟩] }

/-- `ref_count_up`, and the page is the lease's. -/
def retain (x : LeaseId) (page : PageId) : FillState H :=
  { s with
    leases := s.leases.modify x fun l => ⟨l.pages ++ [page], l.retained ++ [page]⟩
    refs := s.refs.take [page] }

/-- `release`. -/
def release (x : LeaseId) : FillState H :=
  { s with
    leases := s.leases.modify x fun l => ⟨[], l.retained⟩
    refs := s.refs.give (s.leases[x]?.elim [] Lease.pages)
    released := s.released ++ [x] }

def setFill (reqId : String) (fill : Option RequestFill) : FillState H :=
  { s with states := s.states.set reqId fill }

def setStates (states : Dict String (Option RequestFill)) : FillState H :=
  { s with states := states }

def groupsOf (reqId : String) : FillGroups H := (s.sources.get? reqId).getD Dict.empty

def setGroups (reqId : String) (groups : FillGroups H) : FillState H :=
  { s with sources := s.sources.set reqId groups }

def popSources (reqId : String) : FillState H := { s with sources := s.sources.pop reqId }

def clearSources : FillState H := { s with sources := Dict.empty }

def addCallback (f : FutureId) (held : List LeaseId) : FillState H :=
  { s with futures := s.futures.modify f fun r => { r with callbacks := r.callbacks ++ [held] } }

/-- The future has ended. -/
def endFuture (f : FutureId) (ended : FutureEnd) : FillState H :=
  { s with futures := s.futures.modify f fun r => { r with ended := some ended } }

def lastFuture (reqId : String) : Option FutureId :=
  ((s.states.get? reqId).bind id).bind RequestFill.lastFuture

end FillState

def release (x : LeaseId) : FillM H PUnit := modify fun s => s.release x

def releaseAll (xs : List LeaseId) : FillM H PUnit := xs.forM release

/-- The leases of a request's groups. -/
def FillGroups.leases (groups : FillGroups H) : List LeaseId := groups.entries.map fun e => e.2.2

/-- Update the `remote_fill` of a request. -/
def updateFill (reqId : String) (f : RequestFill → RequestFill) : FillM H PUnit :=
  modify fun s =>
    match s.states.get? reqId with
    | some (some fill) => s.setFill reqId (some (f fill))
    | _ => s

def disable (reqId reason : String) : FillM H PUnit :=
  updateFill reqId fun fill => { fill with disabledReason := reason }

/-! ## A new lease -/

/-- What the pages answer. -/
structure PageCalls where
  isValid : PageId → Except FillError Bool
  deviceType : PageId → Except FillError String
  refCountUp : PageId → Except FillError Unit
  dataPtr : PageId → Except FillError Nat
  layerDataPtr : PageId → Except FillError Nat
  getSize : PageId → Except FillError Nat
  isLayerPage : PageId → Bool

/-- `not page.is_valid() or page.raw_data.device.type != "cpu"`. -/
def PageCalls.refused (calls : PageCalls) (page : PageId) : Except FillError Bool := do
  let valid ← calls.isValid page
  if valid = false then pure true
  else do
    let device ← calls.deviceType page
    pure (device ≠ "cpu")

def retainPage (calls : PageCalls) (x : LeaseId) (page : PageId) : FillM H PUnit := do
  let refused ← call (calls.refused page)
  if refused then
    throw (.direct (.valueError "Layerwise RemoteFill needs valid CPU pages"))
  else do
    call (calls.refCountUp page)
    modify fun s => s.retain x page

/-- `LayerwiseCPUFillLease`. -/
def newLease (calls : PageCalls) (pages : List PageId) : FillM H LeaseId := do
  let s ← get
  let x := s.leases.length
  modify FillState.allocate
  tryCatch ((Dict.fromKeys pages).keys.forM (retainPage calls x)) fun e => do
    release x
    throw e
  pure x

/-! ## `_queue_layerwise_cpu_fill` -/

structure FillArgs (H : Type) where
  reqId : String
  kvGroup : Nat
  keys : List (CacheKey H)
  pages : List PageId
  starts : List Nat
  ends : List Nat

structure QueueCalls where
  directGroups : List Nat
  enabled : Bool
  /-- The configs of the request are a mapping with a handoff. -/
  configured : Bool
  /-- What `prepare_request` leaves and answers. -/
  handoff : Bool
  disabledReason : String
  prepared : Except FillError Bool
  perChunk : Bool
  fences : Except FillError (List Nat)
  pages : PageCalls

/-- `_remote_fill_prepare_request`. -/
def prepareRequest (env : QueueCalls) (reqId : String) : FillM H Bool := do
  let s ← get
  let fill := (s.states.get? reqId).bind id
  if env.enabled = false then pure false
  else if fill.isNone ∧ env.configured = false then pure false
  else do
    modify fun s => s.setFill reqId (some
      ⟨env.handoff, env.disabledReason, fill.bind RequestFill.lastFuture⟩)
    call env.prepared

/-- `zip(starts, ends, strict=True)`. -/
def strictZip (xs ys : List Nat) : Except FillError (List (Nat × Nat)) :=
  if xs.length = ys.length then .ok (xs.zip ys)
  else .error (.direct (.valueError "zip() arguments have different lengths"))

/-- The last of a list, as `xs[-1]`. -/
def lastOf (xs : List Nat) : Except FillError Nat :=
  match xs.getLast? with
  | some x => .ok x
  | none => .error .indexError

/-- The batch of the group's pages, one vector for each. -/
def cpuBatch (calls : PageCalls) (args : FillArgs H) (fences : List Nat) :
    Except FillError (DirectPageBatch H) := do
  let stores ← args.pages.mapM calls.dataPtr
  let ptrs ← args.pages.mapM calls.layerDataPtr
  let sizes ← args.pages.mapM calls.getSize
  let readyEvent ← lastOf fences
  let stop ← lastOf args.ends
  let ranges ← strictZip args.starts args.ends
  pure {
    reqId := args.reqId
    keys := args.keys
    ptrs := ptrs.map fun p => [p]
    sizes := sizes.map fun n => [n]
    owners := (Dict.fromKeys stores).keys
    readyEvent := some readyEvent
    groupEnds := Dict.empty.set args.kvGroup stop
    ranges := ranges
    readyEvents := fences }

/-- The part of `_queue_layerwise_cpu_fill` that has a lease. -/
def leaseGroup (env : QueueCalls) (args : FillArgs H) (fences : List Nat) : FillM H PUnit := do
  let x ← newLease env.pages args.pages
  tryCatch (do
      let batch ← call (cpuBatch env.pages args fences)
      modify fun s => s.setGroups args.reqId
        ((s.groupsOf args.reqId).set args.kvGroup (batch, x)))
    fun e => do
      release x
      throw e

/-- The part behind the checks. -/
def queueGroup (env : QueueCalls) (args : FillArgs H) (fences : List Nat) : FillM H PUnit := do
  modify fun s => s.setGroups args.reqId (s.groupsOf args.reqId)
  let s ← get
  if args.kvGroup ∈ (s.groupsOf args.reqId).keys then
    throw (.direct (.runtimeError "Duplicate CPU fill group in one prefill batch"))
  else leaseGroup env args fences

/-- `_queue_layerwise_cpu_fill`. -/
def queueLayerwiseCpuFill (env : QueueCalls) (args : FillArgs H) : FillM H PUnit := do
  if args.kvGroup ∉ env.directGroups then pure ⟨⟩
  else do
    modify fun s => s.setFill args.reqId ((s.states.get? args.reqId).getD none)
    let prepared ← prepareRequest env args.reqId
    if prepared = false ∨ env.disabledReason ≠ "" then pure ⟨⟩
    else if env.perChunk = false then disable args.reqId "banked_prefill_final_deferred"
    else do
      let fences ← call env.fences
      if fences = [] ∨ args.pages = [] ∨ ∃ p ∈ args.pages, env.pages.isLayerPage p = false then
        disable args.reqId "banked_prefill_source_unavailable"
      else queueGroup env args fences

/-! ## `submit_layerwise_prefill_fills` -/

/-- What `submit_batch` does: it raises, returns without a future (with the reason it leaves), or
has a new one, which may end before its callback is added. -/
inductive Submission
  | raised (e : FillError)
  | refused (reason : String)
  | submitted (ended : Option FutureEnd)

/-- The callback of a future that has ended. -/
def releaseSources (ended : FutureEnd) (held : List LeaseId) : FillM H PUnit :=
  if ended.fatal = true then modify fun s => { s with quarantine := s.quarantine ++ held }
  else releaseAll held

/-- `add_done_callback(release_sources)`. -/
def addDoneCallback (f : FutureId) (held : List LeaseId) : FillM H PUnit := do
  let s ← get
  modify fun s => s.addCallback f held
  match (s.futures[f]?).bind FillFuture.ended with
  | some ended => releaseSources ended held
  | none => pure ⟨⟩

/-- A future of the producer's executor, the last of the request. -/
def newFuture (reqId : String) (ended : Option FutureEnd) : FillM H PUnit := do
  let s ← get
  modify fun s => { s with futures := s.futures ++ [⟨ended, []⟩] }
  updateFill reqId fun fill => { fill with lastFuture := some s.futures.length }

/-- `_schedule_remote_fill_batch`. -/
def scheduleRemoteFillBatch (env : Submission) (reqId : String) : FillM H PUnit := do
  let s ← get
  match (s.states.get? reqId).bind id with
  | none => pure ⟨⟩
  | some fill =>
    if fill.handoff = false ∨ fill.disabledReason ≠ "" then pure ⟨⟩
    else match env with
      | .raised e => throw e
      | .refused reason => disable reqId reason
      | .submitted ended => newFuture reqId ended

structure SubmitCalls where
  directGroups : List Nat
  submission : Submission

/-- Raise `DirectError`s. -/
def liftDirect {α : Type} (r : Except DirectError α) : FillM H α := call (r.mapError .direct)

/-- The body of the `try`. -/
def submitBatches (env : SubmitCalls) (reqId : String) (groups : FillGroups H) :
    FillM H PUnit := do
  let batches := groups.entries.map fun e => e.2.1
  if (∃ g ∈ groups.keys, g ∉ env.directGroups) ∨ ∃ g ∈ env.directGroups, g ∉ groups.keys then
    disable reqId "banked_prefill_incomplete_groups"
  else if ∃ b ∈ batches, ∃ first ∈ batches.head?, b.ranges ≠ first.ranges then
    disable reqId "banked_prefill_unpaired_pages"
  else do
    let _ ← liftDirect (mergeDeferredRemoteFillBatches batches
      (Dict.fromKeys (batches.flatMap fun b => b.readyEvents)).keys)
    scheduleRemoteFillBatch env.submission reqId

/-- The `finally`. -/
def settleLeases (reqId : String) (previous : Option FutureId) (leases : List LeaseId) :
    FillM H PUnit := do
  let s ← get
  match s.lastFuture reqId with
  | none => releaseAll leases
  | some f =>
    if previous = some f then releaseAll leases
    else addDoneCallback f leases

/-- `submit_layerwise_prefill_fills` of one request. -/
def submitRequest (reqId : String) (env : SubmitCalls) : FillM H PUnit := do
  let s ← get
  let groups := s.groupsOf reqId
  modify fun s => s.popSources reqId
  if groups.entries = [] then pure ⟨⟩
  else match s.states.get? reqId with
    | none => throw .keyError
    | some none => throw .attributeError
    | some (some fill) =>
      finally_ (submitBatches env reqId groups)
        (settleLeases reqId fill.lastFuture groups.leases)

def submitLayerwisePrefillFills (reqs : List (String × SubmitCalls)) : FillM H PUnit :=
  reqs.forM fun r => submitRequest r.1 r.2

/-! ## `drop_direct_store_states` and `close` -/

structure DropCalls where
  /-- No future and no key of the request is pending. -/
  idle : Bool
  /-- `release` of the coordinator. -/
  released : Except FillError Bool

/-- Whether the direct state may go. -/
def releasable (env : DropCalls) (fill : Option RequestFill) : Except FillError Bool :=
  if fill.isSome then env.released else .ok env.idle

def dropRequest (reqId : String) (env : DropCalls) : FillM H PUnit := do
  let s ← get
  modify fun s => s.popSources reqId
  releaseAll (s.groupsOf reqId).leases
  match s.states.get? reqId with
  | none => pure ⟨⟩
  | some fill => do
    let ready ← call (releasable env fill)
    if ready then modify fun s => s.setStates (s.states.pop reqId)
    else pure ⟨⟩

def dropDirectStoreStates (reqs : List (String × DropCalls)) : FillM H PUnit :=
  reqs.forM fun r => dropRequest r.1 r.2

structure CloseCalls where
  polled : Except FillError Unit
  closed : Except FillError Unit
  /-- `wait_for_direct_stores`. -/
  waited : Except FillError Unit

def closeRemoteFillProducer (env : CloseCalls) : FillM H PUnit := do
  call env.polled
  call env.closed
  let s ← get
  s.sources.entries.forM fun e => releaseAll e.2.leases
  modify FillState.clearSources

/-- The part of `close` with the direct stores. -/
def closeEngine (env : CloseCalls) : FillM H PUnit := do
  closeRemoteFillProducer env
  call env.waited
  modify fun s => s.setStates Dict.empty

/-! ## Runs -/

inductive FillAction (H : Type)
  | queue (env : QueueCalls) (args : FillArgs H)
  | submit (reqs : List (String × SubmitCalls))
  | drop (reqs : List (String × DropCalls))
  | close (env : CloseCalls)
  /-- Another call makes the direct state of a request. -/
  | openState (reqId : String)
  /-- Another call prepares or disables the remote fill of a request. -/
  | prepare (reqId : String) (handoff : Bool) (reason : String)
  /-- Another call hands work of the request to the producer's executor. -/
  | produce (reqId : String)
  /-- A future ends and runs its callbacks. -/
  | complete (f : FutureId) (ended : FutureEnd)

/-- The callbacks of a future, in turn. -/
def completeFuture (f : FutureId) (ended : FutureEnd) : FillM H PUnit := do
  let s ← get
  modify fun s => s.endFuture f ended
  (s.futures[f]?.elim [] FillFuture.callbacks).forM (releaseSources ended)

def FillAction.prog : FillAction H → FillM H PUnit
  | .queue env args => queueLayerwiseCpuFill env args
  | .submit reqs => submitLayerwisePrefillFills reqs
  | .drop reqs => dropDirectStoreStates reqs
  | .close env => closeEngine env
  | .openState reqId => modify fun s => s.setFill reqId ((s.states.get? reqId).getD none)
  | .prepare reqId handoff reason =>
    modify fun s => s.setFill reqId (some ⟨handoff, reason, s.lastFuture reqId⟩)
  | .produce reqId => newFuture reqId none
  | .complete f ended => completeFuture f ended

/-- A future ends once. -/
def FillAction.Enabled (s : FillState H) : FillAction H → Prop
  | .complete f _ => (s.futures[f]?).map FillFuture.ended = some none
  | _ => True

instance (s : FillState H) (a : FillAction H) : Decidable (a.Enabled s) := by
  cases a with
  | complete f ended => exact inferInstanceAs (Decidable (_ = _))
  | _ => exact isTrue trivial

def fillMachine (H : Type) : Machine (FillState H) (FillAction H) where
  start s := s = FillState.new
  step s a := if a.Enabled s then some (a.prog s).2 else none

end

end FillLeases
