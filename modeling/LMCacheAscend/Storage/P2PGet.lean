import LMCacheAscend.Lib.Ledger
import LMCacheAscend.Lib.Prog

/-!
# The get of a P2P client

`batched_get_non_blocking` of `AscendP2PBackend`, with `_allocate_memory_for_keys`,
`_send_lookup_request_with_retry`, `_handle_pull_mode_transfer` and `_send_done_signal`.  What
the calls answer is given: the allocator, the channel, the sockets, `_ensure_peer_connection` and
`_ensure_done_peer_connection`; a call may raise, also because the coroutine is cancelled, which
`except Exception` does not catch.

The object that is allocated for key `i` is `i`.  `released` lists each `ref_count_down` of
`release_memory_objects` and of `_cleanup_memory_objects`, which the base class has: it is taken to
release each of its objects once, as the name says.
-/

namespace P2PGet

open Lib

/-! ## Calls -/

inductive Exc
  | zmqError
  | exception
  | cancelled
deriving DecidableEq, Repr

inductive Reply
  /-- `REMOTE_XFER_HANDLER_NOT_INITIALIZED`. -/
  | notInitialized
  /-- Another `P2PErrorMsg`. -/
  | error
  | found (numHitChunks : Int) (remoteBufferUuids : List String) (remoteMemIndexes : List Nat)
  /-- A message without `num_hit_chunks`. -/
  | other
deriving DecidableEq, Repr

/-- One turn of the lookup loop. -/
structure LookupAttempt where
  /-- The peer's entry and its lock. -/
  enter : Except Exc Unit
  /-- `send`, `recv` and `decode`. -/
  exchange : Except Exc Reply
  /-- `_ensure_peer_connection` in the `try`. -/
  reconnect : Except Exc Unit
  /-- `_ensure_peer_connection` in the handler of a `ZMQError`. -/
  recover : Except Exc Unit

/-- One turn of the Done loop. -/
structure DoneAttempt where
  ensure : Except Exc Unit
  /-- `self.done_peer_sockets[target_peer_url]`, which another coroutine may have taken out, and its
  lock. -/
  enter : Except Exc Unit
  exchange : Except Exc Unit
  /-- `_ensure_done_peer_connection(force=True)` in the handler of a `ZMQError`. -/
  forced : Except Exc Unit

structure GetEnv where
  numKeys : Nat
  pullMode : Bool
  delayPull : Bool
  maxRetryCount : Nat
  /-- The peer of the lookup id is known and the transfer spec is as asserted. -/
  called : Except Exc Unit
  /-- Whether there is memory for a key. -/
  allocate : Nat → Except Exc Bool
  localBufferRefs : Except Exc Unit
  lookup : Nat → LookupAttempt
  read : Except Exc Unit
  done : Nat → DoneAttempt

/-! ## State -/

inductive Event
  | readStarted
  | readEnded
  | doneSent
deriving DecidableEq, Repr

structure GetState where
  allocated : List Nat
  released : List Nat
  log : List Event
deriving DecidableEq, Repr

def GetState.new : GetState := ⟨[], [], []⟩

inductive Object
  | buffer (idx : Nat)
  | proxy (idx : Nat) (remoteBufferUuid : String) (remoteMemIndex : Nat)
deriving DecidableEq, Repr

def Object.idx : Object → Nat
  | .buffer idx => idx
  | .proxy idx _ _ => idx

abbrev GetM := Prog Exc GetState

def emit (e : Event) : GetM PUnit := modify fun s => { s with log := s.log ++ [e] }

variable (env : GetEnv)

/-- The body of the `try`: the answer, or nothing if the loop goes on. -/
def LookupAttempt.tryBody (a : LookupAttempt) : Except Exc (Option Reply) := do
  let r ← a.exchange
  if r = .notInitialized then do
    a.reconnect
    pure none
  else pure (some r)

/-- A turn of the loop of `_send_lookup_request_with_retry`: nothing if it goes on, else what the
function returns. -/
def LookupAttempt.turn (a : LookupAttempt) : Except Exc (Option (Option Reply)) := do
  a.enter
  match a.tryBody with
  | .ok (some r) => pure (some (some r))
  | .ok none => pure none
  | .error .zmqError => do
    a.recover
    pure none
  | .error .exception => pure (some none)
  | .error .cancelled => throw .cancelled

end P2PGet
