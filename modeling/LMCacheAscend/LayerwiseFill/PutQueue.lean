import Mathlib.Data.Finset.Basic
import LMCacheAscend.Lib.Dict
import LMCacheAscend.Lib.Machine
import LMCacheAscend.Lib.Prog

/-!
# Layerwise put queue

`LayerwisePutQueue` of `layerwise_cpu_fill.py`.  The model thread runs one
operation at a time; the puts complete on threads of their own, between any two
looks of an operation at a future.  `schedule` lists what completes before each
look, so every interleaving is a schedule; a `wait` looks once, at its end, and
has timed out if a future is still not done.

Two logs beside the queue say what a request has to wait for: `put` has all the
futures that were added under a key, also those that are done, and `owned` those
added for a request, or put under a key when the request began to track it.
-/

namespace LayerwiseFill

open Lib Function

/-! ## Data -/

abbrev FutureId := Nat

inductive PutError
  | valueError (message : String)
  | timeoutError (message : String)
  | exception (message : String)
deriving DecidableEq, Repr

/-- How a future ended. -/
inductive Outcome
  | result
  | failed (error : PutError)
deriving DecidableEq, Repr

abbrev Batch := Nat × List FutureId

structure PutQueue (κ : Type) where
  maxBytes : Nat
  maxBatches : Nat
  pending : List Batch
  pendingBytes : Nat
  error : Option PutError
  requestFutures : Dict String (Finset FutureId)
  keyFutures : Dict κ (Finset FutureId)
  futures : FutureId → Option Outcome
  schedule : List (List (FutureId × Outcome))
  put : κ → Finset FutureId
  owned : String → Finset FutureId

/-- `__init__`. -/
def PutQueue.new {κ : Type} (maxBytes maxBatches timeout : Int) : Except PutError (PutQueue κ) :=
  if maxBytes ≤ 0 ∨ maxBatches ≤ 0 ∨ timeout < 0 then
    .error (.valueError "Layerwise put limits must be positive, timeout nonnegative")
  else
    .ok { maxBytes := maxBytes.toNat, maxBatches := maxBatches.toNat, pending := [],
          pendingBytes := 0, error := none, requestFutures := Dict.empty, keyFutures := Dict.empty,
          futures := fun _ => none, schedule := [], put := fun _ => ∅, owned := fun _ => ∅ }

/-! ## Futures -/

/-- A future ends once. -/
def complete (futures : FutureId → Option Outcome) (c : FutureId × Outcome) :
    FutureId → Option Outcome :=
  if (futures c.1).isNone then update futures c.1 (some c.2) else futures

section Queue

variable {κ : Type} [DecidableEq κ]

variable (q : PutQueue κ) (reqId : String)

/-- What completes until the next look. -/
def PutQueue.elapse : PutQueue κ :=
  match q.schedule with
  | [] => q
  | cs :: rest => { q with futures := cs.foldl complete q.futures, schedule := rest }

abbrev Put (κ : Type) := Prog PutError (PutQueue κ)

/-- `future.done()`, and `future.result()` if it is. -/
def look (future : FutureId) : Put κ Bool := do
  modify PutQueue.elapse
  let q ← get
  match q.futures future with
  | none => pure false
  | some .result => pure true
  | some (.failed error) => throw error

/-! ## Operations -/

/-- Whether every future of a batch is done, and those that are. -/
def lookAll : List FutureId → Put κ (Bool × List FutureId)
  | [] => pure (true, [])
  | future :: futures => do
    let done ← look future
    let rest ← lookAll futures
    pure (done && rest.1, if done then future :: rest.2 else rest.2)

/-- The batches that remain, and all futures that are completed. -/
def reap : List Batch → Put κ (List Batch × List FutureId)
  | [] => pure ([], [])
  | batch :: batches => do
    let (done, completed) ← lookAll batch.2
    let rest ← reap batches
    pure (if done then rest.1 else batch :: rest.1, completed ++ rest.2)

/-- `futures.difference_update(completed)`, and no entry for an empty set. -/
def withoutCompleted (completed : List FutureId) (futures : Finset FutureId) :
    Option (Finset FutureId) :=
  let futures := futures.filter (· ∉ completed)
  if futures = ∅ then none else some futures

def totalBytes (batches : List Batch) : Nat := (batches.map Prod.fst).sum

/-- `poll` where no error is latched. -/
def reapPending : Put κ Unit := do
  let q ← get
  let (remaining, completed) ← reap q.pending
  modify fun q => { q with pending := remaining, pendingBytes := totalBytes remaining }
  if completed = [] then pure ()
  else
    modify fun q => { q with requestFutures := q.requestFutures.updateValues (withoutCompleted completed),
                             keyFutures := q.keyFutures.updateValues (withoutCompleted completed) }

def poll : Put κ Unit := do
  let q ← get
  match q.error with
  | some error => throw error
  | none =>
    tryCatch reapPending fun error => do
      modify fun q => { q with error := some error }
      throw error

/-- `fail`. -/
def latch (error : PutError) : Put κ Unit :=
  modify fun q => if q.error.isNone then { q with error := some error } else q

/-- `wait(futures, timeout)`, and what follows a timeout. -/
def waitFor (futures : Finset FutureId) : Put κ Unit := do
  modify PutQueue.elapse
  let q ← get
  if ∀ future ∈ futures, (q.futures future).isSome = true then pure ()
  else
    let error := PutError.timeoutError "Layerwise CPU remote puts did not complete"
    modify fun q => { q with error := some error }
    throw error

/-- `_wait_first`. -/
def waitFirst : Put κ Unit := do
  let q ← get
  waitFor ((q.pending.head?.map Prod.snd).getD []).toFinset
  poll

/-- The loop of `reserve` and of `drain`, while `blocked`.  Each turn reaps the first batch, so
the batches that are pending at its start are turns enough. -/
def waitWhile (blocked : PutQueue κ → Bool) : Nat → Put κ Unit
  | 0 => pure ()
  | turns + 1 => do
    let q ← get
    if q.pending ≠ [] ∧ blocked q then do
      waitFirst
      waitWhile blocked turns
    else pure ()

def overLimit (size : Nat) (q : PutQueue κ) : Bool :=
  q.maxBatches ≤ q.pending.length || q.maxBytes < q.pendingBytes + size

def reserve (size : Nat) : Put κ Unit := do
  poll
  let q ← get
  waitWhile (overLimit size) q.pending.length

def drain : Put κ Unit := do
  poll
  let q ← get
  waitWhile (fun _ => true) q.pending.length
  poll

/-- `dependencies.setdefault(key, set()).update(futures)`. -/
def addFutures {α : Type} [DecidableEq α] (dependencies : Dict α (Finset FutureId)) (key : α)
    (futures : Finset FutureId) : Dict α (Finset FutureId) :=
  dependencies.set key ((dependencies.get? key).getD ∅ ∪ futures)

def PutQueue.add (size : Nat) (futures : List FutureId) (reqId : String) (keys : List κ) :
    PutQueue κ :=
  if futures = [] then q
  else
    { q with
      pending := q.pending ++ [(size, futures)],
      pendingBytes := q.pendingBytes + size,
      requestFutures :=
        if reqId ≠ "" then addFutures q.requestFutures reqId futures.toFinset else q.requestFutures,
      keyFutures := keys.foldl (fun d key => addFutures d key futures.toFinset) q.keyFutures }

/-- One key of `track_keys`. -/
def PutQueue.inherit (q : PutQueue κ) (key : κ) : PutQueue κ :=
  match q.keyFutures.get? key with
  | none => q
  | some futures =>
    if futures = ∅ then q
    else { q with requestFutures := addFutures q.requestFutures reqId futures }

def PutQueue.trackKeys (keys : List κ) : PutQueue κ :=
  if reqId = "" ∨ q.keyFutures.keys = [] then q else keys.foldl (PutQueue.inherit reqId) q

/-- The futures of `drain_requests`. -/
def PutQueue.futuresOf (reqIds : List String) : Finset FutureId :=
  reqIds.foldl (fun fs reqId => fs ∪ (q.requestFutures.get? reqId).getD ∅) ∅

/-- The wait of `drain_requests`, if there is anything to wait for. -/
def waitForAny (futures : Finset FutureId) : Put κ Unit :=
  if futures ≠ ∅ then waitFor futures else pure ()

def drainRequests (reqIds : List String) : Put κ Unit := do
  poll
  let q ← get
  waitForAny (q.futuresOf reqIds)
  poll

/-! ## Logs -/

def own {α : Type} [DecidableEq α] (owned : α → Finset FutureId) (key : α)
    (futures : Finset FutureId) : α → Finset FutureId :=
  update owned key (owned key ∪ futures)

def PutQueue.logAdd (futures : List FutureId) (reqId : String) (keys : List κ) : PutQueue κ :=
  { q with put := keys.foldl (fun put key => own put key futures.toFinset) q.put,
           owned := if reqId ≠ "" then own q.owned reqId futures.toFinset else q.owned }

def PutQueue.logTracked (keys : List κ) : PutQueue κ :=
  if reqId = "" then q
  else { q with owned := keys.foldl (fun owned key => own owned reqId (q.put key)) q.owned }

/-! ## Runs -/

inductive Action (κ : Type)
  | complete (future : FutureId) (outcome : Outcome)
  | poll (schedule : List (List (FutureId × Outcome)))
  | reserve (size : Nat) (schedule : List (List (FutureId × Outcome)))
  | add (size : Nat) (futures : List FutureId) (reqId : String) (keys : List κ)
  | trackKeys (reqId : String) (keys : List κ)
  | drainRequests (reqIds : List String) (schedule : List (List (FutureId × Outcome)))
  | drain (schedule : List (List (FutureId × Outcome)))
  | fail (error : PutError)

/-- The queue and the size that a `reserve` has returned for and no `add` has used. -/
structure Producer (κ : Type) where
  queue : PutQueue κ
  reserved : Option Nat

/-- An operation on a queue whose puts complete by `schedule`. -/
def PutQueue.run (schedule : List (List (FutureId × Outcome))) (op : Put κ Unit) :
    Except PutError Unit × PutQueue κ :=
  op { q with schedule := schedule }

def Producer.step (s : Producer κ) : Action κ → Producer κ
  | .complete future outcome =>
    { s with queue := { s.queue with futures := complete s.queue.futures (future, outcome) } }
  | .poll schedule => { s with queue := (s.queue.run schedule poll).2 }
  | .reserve size schedule =>
    let r := s.queue.run schedule (reserve size)
    { queue := r.2, reserved := if r.1.isOk then some size else s.reserved }
  | .add size futures reqId keys =>
    { queue := (s.queue.add size futures reqId keys).logAdd futures reqId keys, reserved := none }
  | .trackKeys reqId keys =>
    { s with queue := (s.queue.trackKeys reqId keys).logTracked reqId keys }
  | .drainRequests reqIds schedule =>
    { s with queue := (s.queue.run schedule (drainRequests reqIds)).2 }
  | .drain schedule => { s with queue := (s.queue.run schedule drain).2 }
  | .fail error => { s with queue := (s.queue.run [] (latch error)).2 }

def putMachine (κ : Type) [DecidableEq κ] (maxBytes maxBatches timeout : Int) :
    Machine (Producer κ) (Action κ) where
  start s := ∃ q, PutQueue.new maxBytes maxBatches timeout = .ok q ∧ s = ⟨q, none⟩
  step s a := some (s.step a)

end Queue

end LayerwiseFill
