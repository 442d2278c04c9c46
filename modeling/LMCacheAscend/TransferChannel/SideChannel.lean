import LMCacheAscend.Lib.Dict
import LMCacheAscend.Lib.Machine

/-!
# The side channels of the transfer channels

The four loops behind a REP socket (`_init_loop` and `_async_init_loop` of the
HCCL channel and of the base class) and what the HCCL channel does with a
request: an `HcclInitRequest` is accepted by a thread of its own, whose
connection is stored when `accept` returns; an `HcclMemRegRequest` imports the
client's handles into the connection that is stored then.

The loop, the threads and the channel's own `lazy_init_peer_connection`, which
writes to the same dictionaries, interleave step by step.
-/

namespace SideChannel

open Lib

/-! ## Messages -/

/-- `RemotePeerBufferHandle` and the handle that is imported. -/
structure MemHandle where
  uuid : String
  memHandle : Nat
  bufferPtr : Nat
  bufferSize : Nat
  pageSize : Nat
deriving DecidableEq, Repr

/-- A request of the side channel; `other` is a side message, or one that is not supported. -/
inductive Request
  | init (localId : String)
  | memReg (localId : String) (handles : List MemHandle)
  | other
deriving DecidableEq, Repr

inductive Reply
  | init
  | memReg
  | side
  | error
deriving DecidableEq, Repr

/-! ## The loops -/

inductive Loop
  | hcclSync
  | hcclAsync
  | baseSync
  | baseAsync
deriving DecidableEq, Repr

/-- The exceptions that a loop tells apart: `zmq.Again`, `ContextTerminated`,
`asyncio.TimeoutError`. -/
inductive Exc
  | again
  | contextTerminated
  | timeout
  | other
deriving DecidableEq, Repr

/-- The loop sends an error when its handler raises. -/
def Loop.answers : Loop → Exc → Bool
  | .hcclSync, _ => true
  | .hcclAsync, _ => false
  | .baseSync, .again => false
  | .baseSync, .contextTerminated => false
  | .baseSync, _ => true
  | .baseAsync, .timeout => false
  | .baseAsync, _ => true

/-- The loop ends when its handler raises. -/
def Loop.leaves : Loop → Exc → Bool
  | .baseSync, .contextTerminated => true
  | _, _ => false

def Loop.hccl : Loop → Bool
  | .hcclSync => true
  | .hcclAsync => true
  | _ => false

/-! ## State -/

/-- A connection: that of the `i`-th accept thread, or one of the channel's own. -/
inductive Conn
  | accepted (i : Nat)
  | connected (n : Nat)
deriving DecidableEq, Repr

/-- An accept thread: not running yet, in `accept`, or over. -/
inductive Accept
  | spawned
  | accepting
  | stored
  | failed
deriving DecidableEq, Repr

/-- Where the loop stands. -/
inductive Phase
  | receiving
  | handling (req : Request)
  /-- In `accept_started_event.wait`. -/
  | waiting (i : Nat)
  | importing (localId : String) (handles : List MemHandle) (conn : Conn)
      (imported : List (Conn × MemHandle)) (todo : List MemHandle)
  | replying (reply : Reply)
  | closed
deriving DecidableEq, Repr

inductive LoopEvent
  | recv (req : Request)
  | send (reply : Reply)
deriving DecidableEq, Repr

/-- How an `HcclMemRegRequest` ended: the thread of the client's latest `HcclInitRequest`, what was
imported where, and what is stored under the client now. -/
structure MemReg where
  localId : String
  handles : List MemHandle
  latest : Option Nat
  imported : List (Conn × MemHandle)
  remote : Option (List MemHandle)
  answered : Bool
deriving DecidableEq, Repr

/-- `inits` are the clients of the accept threads, in the order of their requests. -/
structure Channel where
  loop : Loop
  phase : Phase
  inits : List String
  accepts : Nat → Accept
  connHandles : Dict String Conn
  remoteIndexAddr : Dict String (List MemHandle)
  log : List LoopEvent
  memRegs : List MemReg

namespace Channel

variable (s : Channel)

def init (loop : Loop) : Channel :=
  { loop := loop, phase := .receiving, inits := [], accepts := fun _ => .spawned,
    connHandles := Dict.empty, remoteIndexAddr := Dict.empty, log := [], memRegs := [] }

variable (localId : String) (handles : List MemHandle)

/-- The accept thread of the client's latest `HcclInitRequest`. -/
def latest : Option Nat :=
  (List.range s.inits.length).reverse.find? fun i => s.inits[i]? = some localId

/-- A REP socket receives when all it has received is answered. -/
def ready : Bool :=
  match s.log.getLast? with
  | some (.recv _) => false
  | _ => true

/-- A client sends its handles when its `connect` has returned, and that is not before the accept
for it was started. -/
def sends : Request → Bool
  | .memReg localId _ => s.loop.hccl && match s.latest localId with
    | some i => s.accepts i ≠ .spawned
    | none => false
  | .init _ => s.loop.hccl
  | .other => true

/-! ## Steps -/

def record (imported : List (Conn × MemHandle)) (answered : Bool) : Channel :=
  { s with memRegs := s.memRegs ++ [⟨localId, handles, s.latest localId, imported,
      s.remoteIndexAddr.get? localId, answered⟩] }

/-- The request that was being served when the handler raised. -/
def abandoned : Channel :=
  match s.phase with
  | .handling (.memReg localId handles) => s.record localId handles [] false
  | .importing localId handles _ imported _ => s.record localId handles imported false
  | _ => s

/-- What the loop does with an exception of its handler. -/
def raised (e : Exc) : Channel :=
  if s.loop.answers e then { s.abandoned with phase := .replying .error }
  else if s.loop.leaves e then { s.abandoned with phase := .closed }
  else { s.abandoned with phase := .receiving }

/-- Part of the handler of an `HcclInitRequest`: the thread is started. -/
def startAccept : Channel :=
  { s with inits := s.inits ++ [localId], phase := .waiting s.inits.length }

def setAccept (i : Nat) (a : Accept) : Channel :=
  { s with accepts := Function.update s.accepts i a }

/-- `accept` returns, and its connection is stored. -/
def storeAccepted (i : Nat) (localId : String) : Channel :=
  { s.setAccept i .stored with connHandles := s.connHandles.set localId (.accepted i) }

/-- `conn_handles_dict[req.local_id]`, which may raise `KeyError`. -/
def lookup : Channel :=
  match s.connHandles.get? localId with
  | none => s.raised .other
  | some conn => { s with phase := .importing localId handles conn [] handles }

/-- `remote_index_addr_dict` takes the handles: a new list, or at the end of the old one. -/
def register (imported : List (Conn × MemHandle)) : Channel :=
  let handles' := match s.remoteIndexAddr.get? localId with
    | none => handles
    | some old => old ++ handles
  { ({ s with remoteIndexAddr := s.remoteIndexAddr.set localId handles' } : Channel).record localId
      handles imported true with phase := .replying .memReg }

end Channel

inductive Action
  | receive (req : Request)
  /-- The next step of the handler. -/
  | handle
  /-- The next step of the handler raises. -/
  | raises (e : Exc)
  | send
  | accepting (i : Nat)
  | accepted (i : Nat)
  | acceptFailed (i : Nat)
  /-- The channel's own `lazy_init_peer_connection` stores its connection, and its buffers. -/
  | connected (peerId : String) (n : Nat)
  | registered (peerId : String) (handles : List MemHandle)
deriving DecidableEq, Repr

namespace Channel

variable (s : Channel)

def receive (req : Request) : Option Channel :=
  if s.phase = .receiving ∧ s.ready ∧ s.sends req then
    some { s with phase := .handling req, log := s.log ++ [.recv req] }
  else none

/-- The next step of the handler. -/
def handle : Option Channel :=
  match s.phase with
  | .handling (.init localId) => some (s.startAccept localId)
  | .handling (.memReg localId handles) => some (s.lookup localId handles)
  | .handling .other => some { s with phase := .replying .side }
  | .waiting i =>
    if s.accepts i = .spawned then none else some { s with phase := .replying .init }
  | .importing localId handles _ imported [] => some (s.register localId handles imported)
  | .importing localId handles conn imported (h :: todo) =>
    some { s with phase := .importing localId handles conn (imported ++ [(conn, h)]) todo }
  | _ => none

/-- A wait for the accept thread raises `TimeoutError` only. -/
def raises (e : Exc) : Option Channel :=
  match s.phase with
  | .handling _ => some (s.raised e)
  | .waiting i => if s.accepts i = .spawned ∧ e = .timeout then some (s.raised e) else none
  | .importing _ _ _ _ (_ :: _) => some (s.raised e)
  | _ => none

def send : Option Channel :=
  match s.phase with
  | .replying reply => some { s with phase := .receiving, log := s.log ++ [.send reply] }
  | _ => none

def step : Action → Option Channel
  | .receive req => s.receive req
  | .handle => s.handle
  | .raises e => s.raises e
  | .send => s.send
  | .accepting i =>
    if i < s.inits.length ∧ s.accepts i = .spawned then some (s.setAccept i .accepting) else none
  | .accepted i =>
    match s.inits[i]? with
    | some localId =>
      if s.accepts i = .accepting then some (s.storeAccepted i localId) else none
    | none => none
  | .acceptFailed i =>
    if s.accepts i = .accepting then some (s.setAccept i .failed) else none
  | .connected peerId n =>
    some { s with connHandles := s.connHandles.set peerId (.connected n) }
  | .registered peerId handles =>
    some { s with remoteIndexAddr := s.remoteIndexAddr.set peerId handles }

end Channel

/-- The runs of a channel with one of the loops. -/
def channel (loop : Loop) : Machine Channel Action where
  start s := s = Channel.init loop
  step := Channel.step

/-! ## Replies -/

/-- Every request has its one reply before the next request. -/
def Alternates : List LoopEvent → Prop
  | [] => True
  | .recv _ :: .send _ :: rest => Alternates rest
  | _ => False

/-- The request was answered, all handles went into the connection of the client's latest
`HcclInitRequest`, and they are what is stored under the client. -/
structure MemReg.Agreed (m : MemReg) : Prop where
  answered : m.answered = true
  imported : ∃ i, m.latest = some i ∧ m.imported = m.handles.map fun h => (.accepted i, h)
  remote : m.remote = some m.handles

structure Channel.Agreed (s : Channel) : Prop where
  replies : s.phase = .receiving ∨ s.phase = .closed → Alternates s.log
  memRegs : ∀ m ∈ s.memRegs, m.Agreed

/-! ## When it holds -/

/-- What is stored under the client when it is looked up is the connection of its latest
`HcclInitRequest`; nothing is registered under it when its handles are; they are imported; and the
loop answers what else its handler raises. -/
def Safe (s : Channel) : Action → Prop
  | .handle => match s.phase with
    | .handling (.memReg localId _) =>
      ∃ i, s.latest localId = some i ∧ s.connHandles.get? localId = some (.accepted i)
    | .importing localId _ _ _ [] => (s.remoteIndexAddr.get? localId).getD [] = []
    | _ => True
  | .raises e => s.loop.answers e ∧ match s.phase with
    | .handling (.memReg _ _) => False
    | .importing .. => False
    | _ => True
  | _ => True

end SideChannel
