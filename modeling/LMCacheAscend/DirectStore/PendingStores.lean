import LMCacheAscend.Lib.Machine
import LMCacheAscend.Lib.Tally
import Mathlib.Data.Finset.Card

/-!
# Requests with pending stores

`_pending_store_reqs` counts what a request still has to store.  The engine's
thread counts a batch up before it puts it, a put future counts down in its
callback or in the wait that drains it, and a failed future counts down once
the wait has repaired it through the CPU.  The final section of a request and
its background `store` jobs count too.  `get_finished_stores` reports the
requests without an entry.

Futures end and callbacks run at any time between the steps of the engine's
thread.  Its steps in one request are in order (`Phase`), those in different
requests are not.  `countedDown` lists the futures that have counted down, and
`abandoned` those that a fatal wait has drained and not counted down.
-/

namespace PendingStores

open Lib Function

/-! ## States -/

inductive Outcome
  | ok
  /-- An exception, or cancelled. -/
  | failed
  /-- `NativeExternalPageTransferUnknownError`. -/
  | unknown
deriving DecidableEq, Repr

/-- Where the engine's thread is in a request; a failed future has its key strings. -/
inductive Phase
  | idle
  /-- `_submit_direct_page_batch`, before the put returns. -/
  | submitting (keys : Finset String)
  /-- The loop of `wait_for_direct_stores` over the futures. -/
  | draining (failed : List (Nat × Finset String))
  /-- The failed windows are stored through the CPU. -/
  | repairing (failed : List (Nat × Finset String))

/-- The fields of a `_DirectStoreRequestState` that count. -/
structure DirectState where
  futures : List Nat
  pendingKeys : Finset String

structure Engine where
  states : String → Option DirectState
  /-- `_pending_store_reqs`. -/
  pending : Dict String Nat
  /-- `_direct_completed_futures`. -/
  completed : Finset Nat
  /-- `_direct_retry_args`, as far as the key strings. -/
  retryArgs : Dict Nat (Finset String)
  deferredFinished : Finset String
  reportedFinished : Finset String
  phase : String → Phase
  finalOpen : String → Bool
  /-- The background jobs that are queued or running. -/
  storeJobs : List String
  /-- The requests of the futures, in the order of their puts. -/
  owners : List String
  outcome : Nat → Option Outcome
  /-- The callbacks that have not run. -/
  callbacks : Dict Nat (String × Finset String)
  countedDown : List Nat
  abandoned : List Nat

def Engine.new : Engine where
  states _ := none
  pending := Dict.empty
  completed := ∅
  retryArgs := Dict.empty
  deferredFinished := ∅
  reportedFinished := ∅
  phase _ := .idle
  finalOpen _ := false
  storeJobs := []
  owners := []
  outcome _ := none
  callbacks := Dict.empty
  countedDown := []
  abandoned := []

def DirectState.new : DirectState := ⟨[], ∅⟩

def Engine.futures (s : Engine) (reqId : String) : List Nat :=
  (s.states reqId).elim [] DirectState.futures

variable (s : Engine) (reqId : String) (keys : Finset String) (future : Nat)

def Engine.setState (state : Option DirectState) : Engine :=
  { s with states := update s.states reqId state }

def Engine.setPhase (phase : Phase) : Engine :=
  { s with phase := update s.phase reqId phase }

def Engine.countUp (s : Engine) (reqId : String) : Engine :=
  { s with pending := s.pending.countUp reqId }

def Engine.countDown (s : Engine) (reqId : String) : Engine :=
  { s with pending := s.pending.countDown reqId }

/-! ## Submissions -/

/-- `_submit_direct_page_batch` until the put. -/
def Engine.submit : Option Engine :=
  match s.phase reqId, s.finalOpen reqId with
  | .idle, false =>
    let state := (s.states reqId).getD DirectState.new
    some (((s.setState reqId (some { state with pendingKeys := state.pendingKeys ∪ keys })).countUp
      reqId).setPhase reqId (.submitting keys))
  | _, _ => none

/-- Forget the keys of a batch that has ended. -/
def Engine.discardKeys : Engine :=
  s.setState reqId ((s.states reqId).map fun state =>
    { state with pendingKeys := state.pendingKeys \ keys })

def Engine.putRaises : Option Engine :=
  match s.phase reqId with
  | .submitting keys => some (((s.discardKeys reqId keys).countDown reqId).setPhase reqId .idle)
  | _ => none

/-- The future of the put, with its arguments for a retry and its callback. -/
def Engine.putReturns : Option Engine :=
  match s.phase reqId with
  | .submitting keys =>
    let future := s.owners.length
    let state := (s.states reqId).getD DirectState.new
    some ({ s with
      owners := s.owners ++ [reqId]
      retryArgs := s.retryArgs.set future keys
      callbacks := s.callbacks.set future (reqId, keys) }.setState reqId
        (some { state with futures := state.futures ++ [future] }) |>.setPhase reqId .idle)
  | _ => none

/-! ## Completion -/

/-- The future ends. -/
def Engine.complete (outcome : Outcome) : Option Engine :=
  if future < s.owners.length ∧ s.outcome future = none then
    some { s with outcome := update s.outcome future (some outcome) }
  else none

/-- The future counts down. -/
def Engine.reap : Engine :=
  { (s.discardKeys reqId keys).countDown reqId with
    completed := insert future s.completed
    countedDown := s.countedDown ++ [future] }

/-- `_direct_store_done`. -/
def Engine.directStoreDone : Engine :=
  if future ∈ s.completed ∨ s.outcome future ≠ some .ok then s else s.reap reqId keys future

def Engine.callback : Option Engine :=
  match s.callbacks.get? future, s.outcome future with
  | some (reqId, keys), some _ =>
    some ({ s with callbacks := s.callbacks.pop future }.directStoreDone reqId keys future)
  | _, _ => none

/-! ## Waits -/

/-- `wait_for_direct_stores` comes to the request. -/
def Engine.beginWait : Option Engine :=
  match s.phase reqId, s.states reqId with
  | .idle, some _ => some (s.setPhase reqId (.draining []))
  | _, _ => none

/-- One turn of the loop over the futures; it goes on when the future has ended. -/
def Engine.drain : Option Engine :=
  match s.phase reqId, s.states reqId with
  | .draining failed, some state =>
    match state.futures with
    | [] => none
    | future :: futures =>
      let s' := s.setState reqId (some { state with futures := futures })
      match s.outcome future, s.retryArgs.get? future with
      | none, _ => none
      | some .unknown, _ =>
        some { s'.setPhase reqId .idle with
          abandoned := s.abandoned ++ failed.map Prod.fst ++ [future] }
      | some .ok, none => some s'
      | some .failed, none => some (s'.setPhase reqId .idle)
      | some .ok, some keys =>
        some ({ s' with retryArgs := s.retryArgs.pop future }.directStoreDone reqId keys future)
      | some .failed, some keys =>
        some ({ s' with retryArgs := s.retryArgs.pop future }.setPhase reqId
          (.draining (failed ++ [(future, keys)])))
  | _, _ => none

/-- After the last future. -/
def Engine.endDrain : Option Engine :=
  match s.phase reqId, s.futures reqId with
  | .draining [], [] => some (s.setPhase reqId .idle)
  | .draining (e :: failed), [] => some (s.setPhase reqId (.repairing (e :: failed)))
  | _, _ => none

/-- The `finally` of the repair; it does not matter whether the repair raises. -/
def Engine.endRepair : Option Engine :=
  match s.phase reqId with
  | .repairing failed =>
    some ((failed.foldl (fun s e => s.reap reqId e.2 e.1) s).setPhase reqId .idle)
  | _ => none

/-! ## The other users of the count -/

/-- The final section of `store_direct_prefill`, its waits are the request's. -/
def Engine.openFinal : Option Engine :=
  match s.phase reqId, s.finalOpen reqId with
  | .idle, false =>
    some ({ s with finalOpen := update s.finalOpen reqId true }.countUp reqId)
  | _, _ => none

def Engine.closeFinal : Option Engine :=
  match s.phase reqId, s.finalOpen reqId with
  | .idle, true =>
    some ({ s with finalOpen := update s.finalOpen reqId false }.countDown reqId)
  | _, _ => none

/-- `store` queues a background job. -/
def Engine.queueStore : Engine :=
  { s with storeJobs := s.storeJobs ++ [reqId] }.countUp reqId

/-- `_store_worker_loop` ends a job. -/
def Engine.endStore : Option Engine :=
  if reqId ∈ s.storeJobs then
    some ({ s with storeJobs := s.storeJobs.erase reqId }.countDown reqId)
  else none

/-- `drop_direct_store_states`; `released` is the answer of the remote fill. -/
def Engine.drop (released : Bool) : Option Engine :=
  match s.phase reqId, s.finalOpen reqId with
  | .idle, false =>
    match s.states reqId with
    | none => some s
    | some state =>
      if state.futures = [] ∧ state.pendingKeys = ∅ ∧ released then some (s.setState reqId none)
      else some s
  | _, _ => none

/-- `get_finished_stores`. -/
def Engine.getFinishedStores (finishedReqIds : Finset String) : Finset String × Engine :=
  let reported := s.reportedFinished ∩ finishedReqIds
  let ready := s.deferredFinished.filter (· ∉ s.pending.keys)
  let asked := finishedReqIds \ reported
  let result := ready ∪ asked.filter (· ∉ s.pending.keys)
  (result, { s with
    deferredFinished := (s.deferredFinished \ ready) ∪ asked.filter (· ∈ s.pending.keys)
    reportedFinished := reported ∪ result })

/-! ## Runs -/

inductive Action
  | submit (reqId : String) (keys : Finset String)
  | putRaises (reqId : String)
  | putReturns (reqId : String)
  | complete (future : Nat) (outcome : Outcome)
  | callback (future : Nat)
  | beginWait (reqId : String)
  | drain (reqId : String)
  | endDrain (reqId : String)
  | endRepair (reqId : String)
  | openFinal (reqId : String)
  | closeFinal (reqId : String)
  | queueStore (reqId : String)
  | endStore (reqId : String)
  | drop (reqId : String) (released : Bool)
  | poll (finishedReqIds : Finset String)

def step : Action → Option Engine
  | .submit reqId keys => s.submit reqId keys
  | .putRaises reqId => s.putRaises reqId
  | .putReturns reqId => s.putReturns reqId
  | .complete future outcome => s.complete future outcome
  | .callback future => s.callback future
  | .beginWait reqId => s.beginWait reqId
  | .drain reqId => s.drain reqId
  | .endDrain reqId => s.endDrain reqId
  | .endRepair reqId => s.endRepair reqId
  | .openFinal reqId => s.openFinal reqId
  | .closeFinal reqId => s.closeFinal reqId
  | .queueStore reqId => some (s.queueStore reqId)
  | .endStore reqId => s.endStore reqId
  | .drop reqId released => s.drop reqId released
  | .poll finishedReqIds => some (s.getFinishedStores finishedReqIds).2

/-- Any order of submissions, callbacks, waits, failures and reports. -/
def machine : Machine Engine Action := ⟨fun s => s = Engine.new, step⟩

end PendingStores
