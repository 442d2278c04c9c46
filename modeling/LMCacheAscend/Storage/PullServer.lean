import LMCacheAscend.Lib.Dict
import LMCacheAscend.Lib.Ledger
import LMCacheAscend.Lib.Machine

/-!
# Pull mode of the P2P server

The get protocol of `AscendP2PBackend`, on the side that serves it.  A step is
the code of one coroutine between two `await`s: a handler of
`_handle_batched_lookup_and_get` waits for the lookup, for the objects, or for a
push write; the done handler and a round of the sweep wait for nothing.

`pins` logs the pins of `contains(pin=True)` and the unpins, `refs` the
references that `batched_get_non_blocking` took and those given back.  That
function, when it returns, returns the objects of the hit keys, which are pinned
and so still there.
-/

namespace PullServer

open Lib

/-! ## Data -/

abbrev LookupId := String

abbrev MemoryObj := Nat

/-- A buffer uuid and a memory index. -/
abbrev BufferRef := String × Nat

structure LookupAndGetMsg where
  lookupId : LookupId
  pullMode : Bool
deriving DecidableEq, Repr

inductive Reply
  | notInitialized
  | serverError
  | found (numHitChunks : Nat) (remoteRefs : List BufferRef)
deriving DecidableEq, Repr

/-- A handler in progress, by the call that it waits for. -/
inductive Handler
  | looking (msg : LookupAndGetMsg)
  | getting (msg : LookupAndGetMsg) (hits : List MemoryObj)
  | writing (memObjs : List MemoryObj)
deriving DecidableEq, Repr

structure Server where
  pendingPullResources : Dict LookupId (Int × List MemoryObj)
  handlers : List Handler
  replies : List Reply
  pins : Ledger MemoryObj
  refs : Ledger MemoryObj

def Server.init : Server :=
  { pendingPullResources := Dict.empty, handlers := [], replies := [], pins := Ledger.empty,
    refs := Ledger.empty }

variable (s : Server)

/-- `release_memory_objects(mem_objs, unpin=True)`. -/
def Server.release (memObjs : List MemoryObj) : Server :=
  { s with pins := s.pins.give memObjs, refs := s.refs.give memObjs }

def Server.reply (r : Reply) : Server := { s with replies := s.replies ++ [r] }

/-! ## Handlers -/

/-- Up to the lookup; a receiver that is not known or a key that does not parse ends it. -/
def Server.request (msg : LookupAndGetMsg) (handlerExists parsed : Bool) : Server :=
  if !handlerExists then s.reply .notInitialized
  else if !parsed then s.reply .serverError
  else { s with handlers := s.handlers ++ [.looking msg] }

/-- `batched_async_contains` answers with the hit keys' objects, pinned, or raises. -/
def Server.contains (i : Nat) (hits : Option (List MemoryObj)) : Option Server :=
  match s.handlers[i]? with
  | some (.looking msg) =>
    match hits with
    | some hits =>
      some { s with handlers := s.handlers.set i (.getting msg hits), pins := s.pins.take hits }
    | none => some ({ s with handlers := s.handlers.eraseIdx i }.reply .serverError)
  | _ => none

/-- `batched_get_non_blocking` returns or raises; `prepared` answers for `get_local_buffer_refs`
or `build_channel_transfer_spec`, `none` where that raises. -/
def Server.get (i : Nat) (raised : Bool) (now : Int) (prepared : Option (List BufferRef)) :
    Option Server :=
  match s.handlers[i]? with
  | some (.getting msg hits) =>
    let ended := { s with handlers := s.handlers.eraseIdx i }
    -- `mem_objs` is still `None`, so the `finally` has nothing to release
    if raised then some (ended.reply .serverError)
    else
      let memObjs := hits
      let ended := { ended with refs := s.refs.take memObjs }
      if msg.pullMode then
        if memObjs ≠ [] then
          match prepared with
          | some remoteRefs =>
            some ({ ended with pendingPullResources :=
              s.pendingPullResources.set msg.lookupId (now, memObjs) }.reply
                (.found hits.length remoteRefs))
          | none => some ((ended.release memObjs).reply .serverError)
        else some ((ended.release memObjs).reply (.found hits.length []))
      else
        match prepared with
        | some _ => some { s with handlers := s.handlers.set i (.writing memObjs),
                                  refs := s.refs.take memObjs }
        | none => some ((ended.release memObjs).reply .serverError)
  | _ => none

/-- `async_batched_write` returned or raised; the `finally` releases. -/
def Server.written (i : Nat) (raised : Bool) : Option Server :=
  match s.handlers[i]? with
  | some (.writing memObjs) =>
    let ended := { s with handlers := s.handlers.eraseIdx i }
    some ((ended.release memObjs).reply
      (if raised then .serverError else .found memObjs.length []))
  | _ => none

/-! ## Done and the sweep -/

/-- `pending_pull_resources.pop(lookup_id, None)` and the release. -/
def Server.popPending (lookupId : LookupId) : Server :=
  match s.pendingPullResources.get? lookupId with
  | some entry =>
    { s with pendingPullResources := s.pendingPullResources.pop lookupId }.release entry.2
  | none => s

/-- `_handle_batched_lookup_and_get_done`. -/
def Server.handleDone (lookupId : LookupId) : Server := s.popPending lookupId

/-- A round of `_sweep_expired_pending_pull_resources`. -/
def Server.sweep (ttl now : Int) : Server :=
  let expiredIds := (s.pendingPullResources.entries.filter fun e => now - e.2.1 > ttl).map Prod.fst
  expiredIds.foldl Server.popPending s

/-! ## Steps -/

inductive Action
  | request (msg : LookupAndGetMsg) (handlerExists parsed : Bool)
  | contains (i : Nat) (hits : Option (List MemoryObj))
  | get (i : Nat) (raised : Bool) (now : Int) (prepared : Option (List BufferRef))
  | written (i : Nat) (raised : Bool)
  | done (lookupId : LookupId)
  | sweep (now : Int)

def Server.step (ttl : Int) (s : Server) : Action → Option Server
  | .request msg handlerExists parsed => some (s.request msg handlerExists parsed)
  | .contains i hits => s.contains i hits
  | .get i raised now prepared => s.get i raised now prepared
  | .written i raised => s.written i raised
  | .done lookupId => some (s.handleDone lookupId)
  | .sweep now => some (s.sweep ttl now)

def serverMachine (ttl : Int) : Machine Server Action where
  start s := s = Server.init
  step := Server.step ttl

/-! ## The client -/

/-- What `_send_lookup_request_with_retry` reads for one attempt. -/
inductive Answer
  | reply (r : Reply)
  | zmqError
  | exception
deriving DecidableEq, Repr

/-- `attempts` more attempts from the one numbered `k` on, each with its answer.  The message is
sent again, as it is, after a reply that the handler is not initialized and after a `ZMQError`.
The messages sent, and what the call returns. -/
def sendLookupRequestWithRetry (msg : LookupAndGetMsg) (answer : Nat → Answer) :
    Nat → Nat → List LookupAndGetMsg × Option Reply
  | 0, _ => ([], none)
  | attempts + 1, k =>
    let again := sendLookupRequestWithRetry msg answer attempts (k + 1)
    match answer k with
    | .reply .notInitialized => (msg :: again.1, again.2)
    | .reply r => ([msg], some r)
    | .zmqError => (msg :: again.1, again.2)
    | .exception => ([msg], none)

end PullServer
