import Mathlib.Data.List.Basic
import LMCacheAscend.Lib.Machine

/-!
# The shared sparse retrieve

Rank 0 runs `_retrieve_layer_head_token_wise_bootstrap_impl` and broadcasts its
handles, a passive rank runs `_retrieve_layer_head_token_wise_shared_passive`
and receives them: an envelope a layer, or one envelope with a compact batch and
a final status.  Both are generators; their ranks drive them with one sequence
of sends and closes, each at its own pace.

The model begins where the publication does: `Plan` holds the local variables
that the two preludes leave, and how rank 0's ended; a generator stands at its
first `yield`.  What raises in a resumption is an argument of its step.  An
envelope is received by its identity, which is that of the request and a layer.
-/

namespace SharedSparse

open Lib

/-! ## Requests -/

/-- What is sent into a generator. -/
inductive SparseRequest
  | dict (prepareOnly deferCommit : Bool)
  | tuple (length : Nat)
  | other
deriving DecidableEq, Repr

structure Flags where
  prepareOnly : Bool
  deferFinish : Bool
deriving DecidableEq, Repr

/-- `_shared_sparse_request`; a tuple of another length does not unpack. -/
def sharedSparseRequest : SparseRequest → Option Flags
  | .dict prepareOnly deferCommit => some ⟨prepareOnly, deferCommit⟩
  | .tuple length => if length = 3 ∨ length = 2 then some ⟨false, false⟩ else none
  | .other => some ⟨false, false⟩

inductive Drive
  | send (request : SparseRequest)
  | close
deriving DecidableEq, Repr

/-! ## Envelopes -/

/-- What names the request of an envelope. -/
structure Identity where
  requestId : String
  phase : String
  requestOrdinal : Nat
  kvGroup : Nat
deriving DecidableEq, Repr

inductive Status
  | ok
  | skipped
  | error
deriving DecidableEq, Repr

structure SharedHandleBatch where
  numChunks : Nat
  pages : Nat
deriving DecidableEq, Repr

structure SharedHandleEnvelope where
  identity : Identity
  layerId : Nat
  status : Status
  handles : Nat
  message : Option String
  batch : Option SharedHandleBatch
deriving DecidableEq, Repr

/-- `_SHARED_CPU_COMPACT_COMMIT_MESSAGE`. -/
def compactCommitMessage : String := "compact shared batch committed"

def requestPreflightMessage : String :=
  "Shared CPU sparse decode request preflight failed before any handle publication."

def noMemoryObjsMessage : String :=
  "Shared CPU sparse decode has no MemoryObjs to publish for required chunks."

def publicationMessage : String := "Shared CPU sparse decode rank0 handle publication failed."

def finalErrorMessage : String := "Compact shared batch failed before final commit."

def skippedMessage : String := "no sparse decode shared CPU cache chunks selected"

/-- The end of rank 0's prelude: it raises, or yields once because the engine is unhealthy, or
keeps the error of its preflight for the first request, or gets to the loop. -/
inductive Prelude
  | raises
  | unhealthy
  | preflightError (message : String)
  | reachesLoop
deriving DecidableEq, Repr

/-- What the preludes of the two generators leave.  A compact batch is made for publication only;
a list of layers holds the number of objects of each. -/
structure Plan where
  identity : Identity
  numLayers : Nat
  prelude : Prelude
  directGroup1Load : Bool
  useCachedRetrieve : Bool
  requiredChunks : Nat
  cachedPrefixChunks : Nat
  cachedHandleChunks : Nat
  cachedMemLayers : Option (List Nat)
  preResolved : Option (List Nat)
  publishMemObjs : List Nat
  compactHandleBatch : Option SharedHandleBatch
  missingChunks : Nat
  layers_pos : 0 < numLayers
  compact_publishes : compactHandleBatch.isSome → cachedHandleChunks < requiredChunks

namespace Plan

/-- `publish_shared_handles` of a shared retrieve on rank 0. -/
def publishSharedHandles (p : Plan) : Bool := p.cachedHandleChunks < p.requiredChunks

/-- `_shared_layerwise_error_envelope`. -/
def errorEnvelope (p : Plan) (layerId : Nat) (message : String) : SharedHandleEnvelope :=
  { identity := p.identity, layerId := layerId, status := .error, handles := 0,
    message := some message, batch := none }

/-- The handles of a layer. -/
def handleEnvelope (p : Plan) (layerId : Nat) : SharedHandleEnvelope :=
  let handles := p.publishMemObjs.getD layerId 0
  { identity := p.identity, layerId := layerId,
    status := if handles ≠ 0 then .ok else .skipped,
    handles := if p.compactHandleBatch.isSome then 0 else handles,
    message := if handles ≠ 0 then none else some skippedMessage,
    batch := if layerId = 0 then p.compactHandleBatch else none }

def commitEnvelope (p : Plan) : SharedHandleEnvelope :=
  { identity := p.identity, layerId := p.numLayers, status := .skipped, handles := 0,
    message := some compactCommitMessage, batch := none }

/-- The objects of a layer; `none` where rank 0 raises. -/
def memObjsLayer (p : Plan) (layerId : Nat) : Option Nat :=
  if p.directGroup1Load then some 0
  else match p.cachedMemLayers with
    | some rows => rows[layerId]?
    | none =>
      if p.useCachedRetrieve then some 0
      else match p.preResolved with
        | none => none
        | some rows => do
          let retrieved ← rows[layerId]?
          if retrieved = p.requiredChunks - p.cachedPrefixChunks then some retrieved else none

end Plan

/-! ## Rank 0 -/

/-- Where a generator yields: because the engine is unhealthy, before the error of the preflight,
at the top of a layer, after a layer that was only to be prepared, before a deferred finish, and at
the end. -/
inductive Yield
  | unhealthy
  | preflight
  | layer (layerId : Nat)
  | prepared (layerId : Nat)
  | deferred
  | final
deriving DecidableEq, Repr

/-- The places where rank 0 may raise by itself. -/
inductive Fault
  | source
  | publication
  | broadcast
  | errorBroadcast
  | dispatch
  | finish
  | commitBroadcast
  | commit
deriving DecidableEq, Repr

/-- What goes wrong in a resumption of rank 0, and `request_preflight_failed_elsewhere`. -/
structure Trouble where
  raises : List Fault
  failedElsewhere : Bool
deriving DecidableEq, Repr

/-- `point` is none when the generator has terminated. -/
structure Rank0 where
  point : Option Yield
  batchPublished : Bool
  finalAttempted : Bool
deriving DecidableEq, Repr

namespace Rank0

/-- What is broadcast by a resumption, and where it ends. -/
abbrev Outcome := List SharedHandleEnvelope × Rank0

variable (p : Plan) (t : Trouble)

variable (r : Rank0) (layerId : Nat)

def yields (y : Yield) : Outcome := ([], { r with point := some y })

/-- An exception, or the generator's exit: `attempt_compact_final_error`. -/
def ends : Outcome :=
  if r.batchPublished ∧ ¬ r.finalAttempted then
    (if .errorBroadcast ∈ t.raises then [] else [p.errorEnvelope p.numLayers finalErrorMessage],
      { r with point := none, finalAttempted := true })
  else ([], { r with point := none })

/-- An error envelope, unless the batch was published, and an exception. -/
def refuses (message : String) : Outcome :=
  let (after, r') := r.ends p t
  if r.batchPublished ∨ .errorBroadcast ∈ t.raises then (after, r')
  else (p.errorEnvelope layerId message :: after, r')

/-- `append.commit()` and the last `yield`. -/
def handOff : Outcome :=
  if .commit ∈ t.raises then r.ends p t else r.yields .final

/-- The final status of a compact batch. -/
def commit : Outcome :=
  match p.compactHandleBatch with
  | none => r.handOff p t
  | some _ =>
    let r' := { r with finalAttempted := true }
    if .commitBroadcast ∈ t.raises then r'.ends p t
    else
      let (after, r'') := r'.handOff p t
      (p.commitEnvelope :: after, r'')

/-- After the last layer. -/
def finish (r : Rank0) (deferFinish : Bool) : Outcome :=
  if .finish ∈ t.raises then r.ends p t
  else if deferFinish then r.yields .deferred
  else r.commit p t

/-- The load of a layer, and the next turn of the loop. -/
def dispatch (r : Rank0) (layerId : Nat) (deferFinish : Bool) : Outcome :=
  if p.directGroup1Load = false ∧ .dispatch ∈ t.raises then r.ends p t
  else if layerId + 1 < p.numLayers then r.yields (.layer (layerId + 1))
  else r.finish p t deferFinish

def prepareOrDispatch (flags : Flags) : Outcome :=
  if flags.prepareOnly then r.yields (.prepared layerId)
  else r.dispatch p t layerId flags.deferFinish

/-- The publication of a layer's handles, or of the compact batch. -/
def publish (flags : Flags) : Outcome :=
  if p.publishSharedHandles ∧ (p.compactHandleBatch = none ∨ layerId = 0) then
    if p.requiredChunks ≠ 0 ∧ p.publishMemObjs.getD layerId 0 = 0 then
      r.refuses p t layerId noMemoryObjsMessage
    else if .publication ∈ t.raises then r.refuses p t layerId publicationMessage
    else if .broadcast ∈ t.raises then r.ends p t
    else
      let r' := { r with batchPublished := r.batchPublished || p.compactHandleBatch.isSome }
      let (after, r'') := r'.prepareOrDispatch p t layerId flags
      (p.handleEnvelope layerId :: after, r'')
  else r.prepareOrDispatch p t layerId flags

/-- A turn of the loop up to its dispatch. -/
def layer (request : SparseRequest) : Outcome :=
  match sharedSparseRequest request with
  | none => r.ends p t
  | some flags =>
    if (p.useCachedRetrieve = false ∨ p.publishSharedHandles) ∧ t.failedElsewhere then
      r.refuses p t 0 requestPreflightMessage
    else if p.memObjsLayer layerId = none ∨ .source ∈ t.raises then r.ends p t
    else r.publish p t layerId flags

/-- After a layer that was only to be prepared. -/
def afterPrepare (request : SparseRequest) : Outcome :=
  match sharedSparseRequest request with
  | none => r.ends p t
  | some flags =>
    if flags.prepareOnly then r.ends p t else r.dispatch p t layerId flags.deferFinish

/-- The error of the preflight; it is broadcast outside the `try` block. -/
def preflight : Outcome :=
  match p.prelude with
  | .preflightError message =>
    (if .errorBroadcast ∈ t.raises then [] else [p.errorEnvelope 0 message],
      { r with point := none })
  | _ => ([], { r with point := none })

def resume (d : Drive) : Outcome :=
  match r.point, d with
  | none, _ => ([], r)
  | some .unhealthy, _ => ([], { r with point := none })
  | some .preflight, .send _ => r.preflight p t
  | some .preflight, .close => ([], { r with point := none })
  | some (.layer layerId), .send request => r.layer p t layerId request
  | some (.prepared layerId), .send request => r.afterPrepare p t layerId request
  | some .deferred, .send _ => r.commit p t
  | some .final, .send _ => r.ends p t
  | some _, .close => r.ends p t

end Rank0

/-! ## A passive rank -/

/-- The places where a passive rank may raise by itself. -/
inductive PassiveFault
  | validate
  | materialize
  | dispatch
  | finish
  | commit
deriving DecidableEq, Repr

/-- Where a passive rank stands: at a `yield`, in a receive (of a layer's envelope, of the final
status, or of the final status in its clean-up), or at its end. -/
inductive Place
  | yields (y : Yield)
  | awaitsLayer (layerId : Nat) (flags : Flags)
  | awaitsFinal
  | drains
  | ended
deriving DecidableEq, Repr

structure Passive where
  place : Place
  compactBatch : Option SharedHandleBatch
  finalAttempted : Bool
deriving DecidableEq, Repr

namespace Passive

variable (p : Plan) (t : List PassiveFault)

variable (q : Passive)

/-- An exception, or the generator's exit: the final status is drained. -/
def ends : Passive :=
  if q.compactBatch.isSome ∧ ¬ q.finalAttempted then
    { q with place := .drains, finalAttempted := true }
  else { q with place := .ended }

def handOff : Passive :=
  if .commit ∈ t then q.ends else { q with place := .yields .final }

def commit : Passive :=
  if q.compactBatch.isSome then { q with place := .awaitsFinal, finalAttempted := true }
  else q.handOff t

def finish (q : Passive) (deferFinish : Bool) : Passive :=
  if .finish ∈ t then q.ends
  else if deferFinish then { q with place := .yields .deferred }
  else q.commit t

def dispatch (q : Passive) (layerId : Nat) (deferFinish : Bool) : Passive :=
  if .dispatch ∈ t then q.ends
  else if layerId + 1 < p.numLayers then { q with place := .yields (.layer (layerId + 1)) }
  else q.finish t deferFinish

def prepareOrDispatch (layerId : Nat) (flags : Flags) : Passive :=
  if flags.prepareOnly then { q with place := .yields (.prepared layerId) }
  else q.dispatch p t layerId flags.deferFinish

/-- The views of a layer. -/
def materialize (q : Passive) (layerId : Nat) (flags : Flags) : Passive :=
  if .materialize ∈ t then q.ends else q.prepareOrDispatch p t layerId flags

/-- A turn of the loop up to its receive. -/
def layer (layerId : Nat) (request : SparseRequest) : Passive :=
  match sharedSparseRequest request with
  | none => q.ends
  | some flags =>
    if p.missingChunks = 0 then q.prepareOrDispatch p t layerId flags
    else match q.compactBatch with
      | none => { q with place := .awaitsLayer layerId flags }
      | some _ => q.materialize p t layerId flags

def afterPrepare (layerId : Nat) (request : SparseRequest) : Passive :=
  match sharedSparseRequest request with
  | none => q.ends
  | some flags =>
    if flags.prepareOnly then q.ends else q.dispatch p t layerId flags.deferFinish

def resume (d : Drive) : Passive :=
  match q.place, d with
  | .yields (.layer layerId), .send request => q.layer p t layerId request
  | .yields (.prepared layerId), .send request => q.afterPrepare p t layerId request
  | .yields .deferred, .send _ => q.commit t
  | .yields _, _ => q.ends
  | _, _ => q

/-- An envelope is received. -/
def receive (e : SharedHandleEnvelope) : Passive :=
  match q.place with
  | .awaitsLayer layerId flags =>
    if .validate ∈ t ∨ e.status ≠ .ok then q.ends
    else match e.batch with
      | some b => { q with compactBatch := some b }.materialize p t layerId flags
      | none =>
        if e.handles ≠ p.missingChunks then q.ends else q.materialize p t layerId flags
  | .awaitsFinal =>
    if .validate ∈ t ∨ e.status ≠ .skipped ∨ e.message ≠ some compactCommitMessage then q.ends
    else q.handOff t
  | .drains => { q with place := .ended }
  | _ => q

/-- The layer of the envelope for which a passive rank waits. -/
def awaited : Option Nat :=
  match q.place with
  | .awaitsLayer layerId _ => some layerId
  | .awaitsFinal => some p.numLayers
  | .drains => some p.numLayers
  | _ => none

def atYield : Bool :=
  match q.place with
  | .yields _ => true
  | _ => false

end Passive

/-! ## Joint runs -/

/-- The two generators, how much of the driven sequence each has had, and the envelopes: all that
rank 0 has broadcast, those that the passive rank has received, and those that it has not. -/
structure System where
  rank0 : Rank0
  taken0 : Nat
  passive : Passive
  takenPassive : Nat
  sent : List SharedHandleEnvelope
  consumed : List SharedHandleEnvelope
  mailbox : List SharedHandleEnvelope
deriving DecidableEq, Repr

/-- The first `yield` of rank 0. -/
def Prelude.point : Prelude → Option Yield
  | .raises => none
  | .unhealthy => some .unhealthy
  | .preflightError _ => some .preflight
  | .reachesLoop => some (.layer 0)

def System.init (p : Plan) : System :=
  { rank0 := ⟨p.prelude.point, false, false⟩,
    taken0 := 0, passive := ⟨.yields (.layer 0), none, false⟩, takenPassive := 0, sent := [],
    consumed := [], mailbox := [] }

inductive Action
  | rank0 (t : Trouble)
  | passive (t : List PassiveFault)
  | receive (t : List PassiveFault)
deriving DecidableEq, Repr

/-- The envelope of the request's layer. -/
def Plan.Matches (p : Plan) (layerId : Nat) (e : SharedHandleEnvelope) : Prop :=
  e.identity = p.identity ∧ e.layerId = layerId

instance (p : Plan) (layerId : Nat) (e : SharedHandleEnvelope) : Decidable (p.Matches layerId e) :=
  inferInstanceAs (Decidable (_ ∧ _))

def System.stepRank0 (p : Plan) (ds : List Drive) (s : System) (t : Trouble) : Option System := do
  let d ← ds[s.taken0]?
  if s.rank0.point = none then none
  else
    let (es, r) := s.rank0.resume p t d
    some { s with rank0 := r, taken0 := s.taken0 + 1, sent := s.sent ++ es,
                  mailbox := s.mailbox ++ es }

def System.stepPassive (p : Plan) (ds : List Drive) (s : System) (t : List PassiveFault) :
    Option System := do
  let d ← ds[s.takenPassive]?
  if s.passive.atYield then
    some { s with passive := s.passive.resume p t d, takenPassive := s.takenPassive + 1 }
  else none

/-- The passive rank receives the first envelope of the identity for which it waits. -/
def System.receive (p : Plan) (s : System) (t : List PassiveFault) : Option System := do
  let layerId ← s.passive.awaited p
  let e ← s.mailbox.find? fun e => p.Matches layerId e
  some { s with passive := s.passive.receive p t e, consumed := s.consumed ++ [e],
                mailbox := s.mailbox.erase e }

def System.step (p : Plan) (ds : List Drive) (s : System) : Action → Option System
  | .rank0 t => s.stepRank0 p ds t
  | .passive t => s.stepPassive p ds t
  | .receive t => s.receive p t

/-- The joint runs of the two generators under the sequence `ds`. -/
def collective (p : Plan) (ds : List Drive) : Machine System Action where
  start s := s = System.init p
  step := System.step p ds

/-! ## Settlement -/

/-- The passive rank waits for an envelope that is not there. -/
def System.Stranded (p : Plan) (s : System) : Prop :=
  ∃ layerId, s.passive.awaited p = some layerId ∧ ∀ e ∈ s.mailbox, ¬ p.Matches layerId e

def batches (es : List SharedHandleEnvelope) : List SharedHandleEnvelope :=
  es.filter fun e => e.batch.isSome

def finals (p : Plan) (es : List SharedHandleEnvelope) : List SharedHandleEnvelope :=
  es.filter fun e => e.layerId = p.numLayers

/-- When rank 0 has terminated, the passive rank does not wait for what will never be broadcast; a
compact batch that was broadcast then has one final status; and when the passive rank has ended
too, it has received both, each once. -/
structure System.Settled (p : Plan) (s : System) : Prop where
  waits : s.rank0.point = none → ¬ s.Stranded p
  sent : s.rank0.point = none → batches s.sent ≠ [] →
    ∃ b f, batches s.sent = [b] ∧ finals p s.sent = [f]
  consumed : s.rank0.point = none → s.passive.place = .ended → batches s.sent ≠ [] →
    batches s.consumed = batches s.sent ∧ finals p s.consumed = finals p s.sent

/-! ## When it holds -/

/-- Rank 0 gets through its prelude, or keeps the error of its preflight, and the ranks agree on
whether there is anything to publish. -/
structure Plan.Agreed (p : Plan) : Prop where
  raises : p.prelude ≠ .raises
  healthy : p.prelude ≠ .unhealthy
  publishes : p.publishSharedHandles = true ↔ p.missingChunks ≠ 0

/-- What may go wrong in a turn of rank 0 when there is something to publish: without a compact
batch, the load of a layer raises only in the last one, and a preflight fails elsewhere only before
the first one; and the objects of a layer are there, unless the batch was already published. -/
structure Covered (p : Plan) (layerId : Nat) (t : Trouble) : Prop where
  elsewhere : p.publishSharedHandles = true → t.failedElsewhere = true →
    p.compactHandleBatch.isSome ∨ layerId = 0
  source : p.publishSharedHandles = true → p.memObjsLayer layerId = none ∨ .source ∈ t.raises →
    p.compactHandleBatch.isSome ∧ layerId ≠ 0
  dispatch : p.publishSharedHandles = true → .dispatch ∈ t.raises →
    p.compactHandleBatch.isSome ∨ layerId + 1 = p.numLayers

/-- The layer of a `yield`. -/
def Yield.layerId? : Yield → Option Nat
  | .layer layerId => some layerId
  | .prepared layerId => some layerId
  | _ => none

/-- Every envelope that rank 0 makes is broadcast. -/
structure Trouble.Heard (t : Trouble) : Prop where
  envelope : .broadcast ∉ t.raises
  error : .errorBroadcast ∉ t.raises
  commit : .commitBroadcast ∉ t.raises

/-- The condition on a step; that the passive rank takes the envelope of a compact batch for valid
belongs to it. -/
def Safe (p : Plan) (s : System) : Action → Prop
  | .rank0 t => t.Heard ∧ ∀ layerId ∈ s.rank0.point.bind Yield.layerId?, Covered p layerId t
  | .passive _ => True
  | .receive t => p.compactHandleBatch.isSome → s.passive.compactBatch = none → .validate ∉ t

end SharedSparse
