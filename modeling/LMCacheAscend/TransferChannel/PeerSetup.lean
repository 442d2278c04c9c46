import LMCacheAscend.Lib.Dict
import LMCacheAscend.Lib.Machine

/-!
# Setting up the peers of a transfer channel

What the HCCL, the HIXL and the hcomm one-sided channel do to their tables of
peers: `lazy_init_peer_connection` and its async form, the threads that the
side channel's init requests start, and the handlers of the requests that
exchange the buffers.  Each is a list of operations that a task works off, one
step at a time and each of which may raise; the tasks of a channel interleave.

A handshake has a number.  A connection and the handles of remote buffers
remember the handshake they come from, a communicator has a number of its own.
-/

namespace PeerSetup

open Lib

inductive Kind
  | hccl
  | hixl
  | oneSided
deriving DecidableEq, Repr

/-- `lazy_init_peer_connection`, or `async_lazy_init_peer_connection`. -/
inductive Form
  | sync
  | async
deriving DecidableEq, Repr

/-- `memHandles` is the number of handles that a communicator is bound to; the retries are
`_HCOMM_INIT_MAX_RETRIES` and `_HCOMM_PREPARE_MAX_RETRIES`. -/
structure Config where
  kind : Kind
  memHandles : Nat
  initRetries : Nat
  prepareRetries : Nat
deriving DecidableEq, Repr

/-! ## Operations -/

/-- What a client asks its peer. -/
inductive Ask
  | init
  | memReg
  | memInfo
  | ready
  | side
deriving DecidableEq, Repr

/-- `other` cannot be decoded. -/
inductive Reply
  | init
  | memReg
  | memInfo
  | ready (ok : Bool)
  | side
  | other
deriving DecidableEq, Repr

/-- The reply does not make the client raise. -/
def Ask.accepts : Ask → Reply → Bool
  | .init, .init => true
  | .memReg, .memReg => true
  | .memInfo, .memInfo => true
  | .side, .side => true
  -- a reply of another type is taken for a yes
  | .ready, .ready ok => ok
  | .ready, .side => false
  | .ready, .memReg => false
  | .ready, .other => false
  | .ready, _ => true
  | _, _ => false

/-- `k` is the number of communicators that may still be tried, `n` the number of memory handles
to go. -/
inductive Op
  | ask (a : Ask)
  | setDevice
  /-- The connection is made, or accepted. -/
  | connect
  | storeConn
  | lookupConn
  | importMem
  | storeBuffers
  | extendBuffers
  | popStale (form : Form)
  /-- `_destroy_peer_comm`. -/
  | destroyPeerComm (comm n : Nat)
  /-- `_init_comm_and_prepare`, and the peer's entry. -/
  | initComm (k : Nat)
  | bindMem (comm k n : Nat)
  | prepare (comm k tries : Nat)
  /-- `_cleanup_failed_comm`. -/
  | cleanupFailedComm (comm k n : Nat)
  | storePeer (comm : Nat)
deriving DecidableEq, Repr

/-- The communicator that an operation is about. -/
def Op.comm : Op → Option Nat
  | .destroyPeerComm c _ => some c
  | .bindMem c _ _ => some c
  | .prepare c _ _ => some c
  | .cleanupFailedComm c _ _ => some c
  | .storePeer c => some c
  | _ => none

variable (cfg : Config)

/-- The whole handshake of a client. -/
def handshake (form : Form) (side : Bool) : List Op :=
  (match cfg.kind with
  | .hccl => [.ask .init, .connect, .storeConn, .ask .memReg, .importMem, .storeBuffers]
  | .hixl => [.ask .init, .connect, .storeConn, .ask .ready, .ask .memInfo, .storeBuffers]
  | .oneSided => match form with
    | .sync => [.ask .init, .setDevice, .popStale .sync, .initComm cfg.initRetries, .ask .ready]
    | .async => [.ask .init, .popStale .async, .initComm cfg.initRetries, .ask .ready]) ++
  if side then [.ask .side] else []

/-- The thread that an init request starts; `stale` is the communicator of the entry that the
handler has popped. -/
def setupThread (stale : Option Nat) : List Op :=
  match cfg.kind with
  | .hccl => [.setDevice, .connect, .storeConn]
  | .hixl => [.setDevice, .connect, .storeConn]
  | .oneSided => .setDevice :: ((stale.map fun c => .destroyPeerComm c cfg.memHandles).toList ++
      [.initComm cfg.initRetries])

/-- The handler of an `HcclMemRegRequest`, or of a `HixlMemInfoRequest`. -/
def exchangeHandler : List Op :=
  match cfg.kind with
  | .hccl => [.lookupConn, .importMem, .extendBuffers]
  | .hixl => [.storeBuffers]
  | .oneSided => []

/-! ## State -/

inductive Role
  | client
  | thread
  | handler
deriving DecidableEq, Repr

/-- How far a task is with its peer: nothing stored, the connection (in the one-sided channel, the
entry) stored, the buffers stored beside it. -/
inductive Status
  | connecting
  | connected
  | exchanged
  | raised
deriving DecidableEq, Repr

def Status.over : Status → Bool
  | .exchanged => true
  | .raised => true
  | _ => false

/-- `fresh`: when a client's call began there was no entry of the peer. -/
structure Task where
  role : Role
  peer : String
  hs : Nat
  ops : List Op
  status : Status
  fresh : Bool
deriving DecidableEq, Repr

/-- `_PeerState`, with the handshakes of its communicator and of its buffers. -/
structure PeerState where
  comm : Nat
  commOf : Nat
  buffersOf : Nat
deriving DecidableEq, Repr

/-- `remotes` are the handshakes of other channels with this one whose buffers are not stored,
`failed` the peers whose latest call raised, and `raised` says for each call that raised whether
there was an entry of its peer then. -/
structure Channel where
  cfg : Config
  connHandles : Dict String Nat
  remoteBuffers : Dict String (List Nat)
  peers : Dict String PeerState
  tasks : List Task
  remotes : List (String × Nat)
  next : Nat
  comms : Nat
  destroyed : List Nat
  failed : List String
  raised : List (String × Bool)

namespace Channel

variable (s : Channel)

def init (cfg : Config) : Channel :=
  { cfg := cfg, connHandles := Dict.empty, remoteBuffers := Dict.empty, peers := Dict.empty,
    tasks := [], remotes := [], next := 0, comms := 0, destroyed := [], failed := [],
    raised := [] }

variable (peer : String) (i : Nat) (t : Task)

def remoteXferHandlerExists : Bool :=
  match s.cfg.kind with
  | .oneSided => (s.peers.get? peer).isSome
  | _ => (s.connHandles.get? peer).isSome

/-- What a call does: the one-sided channel trusts the entry that is there. -/
def lazyInitPeerConnection (form : Form) (side : Bool) : List Op :=
  if s.cfg.kind = .oneSided ∧ s.remoteXferHandlerExists peer then []
  else handshake s.cfg form side

/-! ## Steps -/

def setTask : Channel := { s with tasks := s.tasks.set i t }

def advance (ops : List Op) : Channel := s.setTask i { t with ops := ops }

/-- The task ends with an exception. -/
def raise : Channel :=
  match t.role with
  | .client =>
    { s.setTask i { t with ops := [], status := .raised } with
      failed := t.peer :: s.failed
      raised := s.raised ++ [(t.peer, s.remoteXferHandlerExists t.peer)] }
  | _ => s.setTask i { t with ops := [], status := .raised }

/-- The handshake is no longer one whose buffers are missing. -/
def settle (hs : Nat) : Channel :=
  { s with remotes := s.remotes.filter fun r => r ≠ (peer, hs) }

/-- The next operation of a task does what it should. -/
def exec (rest : List Op) : Op → Option Channel
  | .ask _ => none
  | .setDevice => some (s.advance i t rest)
  | .connect => some (s.advance i t rest)
  | .storeConn =>
    some { s.setTask i { t with ops := rest, status := .connected } with
      connHandles := s.connHandles.set t.peer t.hs }
  | .lookupConn =>
    if (s.connHandles.get? t.peer).isSome then some (s.advance i t rest) else none
  | .importMem => some (s.advance i t rest)
  | .storeBuffers =>
    some { (s.setTask i { t with ops := rest, status := .exchanged }).settle t.peer t.hs with
      remoteBuffers := s.remoteBuffers.set t.peer [t.hs] }
  | .extendBuffers =>
    some { (s.setTask i { t with ops := rest, status := .exchanged }).settle t.peer t.hs with
      remoteBuffers := s.remoteBuffers.set t.peer
        ((s.remoteBuffers.get? t.peer).getD [] ++ [t.hs]) }
  | .popStale form =>
    let stale := ((s.peers.get? t.peer).map fun p =>
      Op.destroyPeerComm p.comm s.cfg.memHandles).toList
    let ops := match form with
      | .sync => stale ++ rest
      | .async => .setDevice :: (stale ++ rest)
    some { s.advance i t ops with peers := s.peers.pop t.peer }
  | .destroyPeerComm c (n + 1) => some (s.advance i t (.destroyPeerComm c n :: rest))
  | .destroyPeerComm c 0 => some { s.advance i t rest with destroyed := s.destroyed ++ [c] }
  | .initComm 0 => none
  | .initComm (k + 1) =>
    some { s.advance i t (.bindMem s.comms k s.cfg.memHandles :: rest) with
      comms := s.comms + 1 }
  | .bindMem c k (n + 1) => some (s.advance i t (.bindMem c k n :: rest))
  | .bindMem c k 0 => some (s.advance i t (.prepare c k s.cfg.prepareRetries :: rest))
  | .prepare c _ (_ + 1) => some (s.advance i t (.storePeer c :: rest))
  | .prepare c k 0 => some (s.advance i t (.cleanupFailedComm c k s.cfg.memHandles :: rest))
  | .cleanupFailedComm c k (n + 1) => some (s.advance i t (.cleanupFailedComm c k n :: rest))
  | .cleanupFailedComm c k 0 =>
    some { s.advance i t (.initComm k :: rest) with destroyed := s.destroyed ++ [c] }
  | .storePeer c =>
    some { s.setTask i { t with ops := rest, status := .connected } with
      peers := s.peers.set t.peer ⟨c, t.hs, t.hs⟩ }

/-- The next operation of a task raises. -/
def fail (rest : List Op) : Op → Option Channel
  | .ask _ => some (s.raise i t)
  | .setDevice => some (s.raise i t)
  | .connect => some (s.raise i t)
  | .lookupConn => if (s.connHandles.get? t.peer).isSome then none else some (s.raise i t)
  | .importMem => some (s.raise i t)
  -- `_destroy_peer_comm` gives up and only warns
  | .destroyPeerComm _ _ => some (s.advance i t rest)
  | .initComm 0 => some (s.raise i t)
  | .initComm (k + 1) => some (s.advance i t (.initComm k :: rest))
  | .bindMem c k (_ + 1) => some (s.advance i t (.cleanupFailedComm c k s.cfg.memHandles :: rest))
  | .prepare c k (tries + 1) => some (s.advance i t (.prepare c k tries :: rest))
  -- `_cleanup_failed_comm` goes on with the next handle, and gives up only the communicator
  | .cleanupFailedComm c k (n + 1) => some (s.advance i t (.cleanupFailedComm c k n :: rest))
  | .cleanupFailedComm _ k 0 => some (s.advance i t (.initComm k :: rest))
  | _ => none

/-- The loop handles one request at a time. -/
def idle : Bool := s.tasks.all fun t => t.role ≠ .handler ∨ t.ops = []

/-- The next operation of the task `i`. -/
def head : Option (Task × Op × List Op) :=
  match s.tasks[i]? with
  | some t => match t.ops with
    | op :: rest => some (t, op, rest)
    | [] => none
  | none => none

end Channel

inductive Action
  | call (peer : String) (form : Form) (side : Bool)
  | initRequest (localId : String)
  /-- The buffers of a handshake that another channel began. -/
  | exchangeRequest (localId : String) (hs : Nat)
  /-- The other channel's call is over. -/
  | remoteEnds (localId : String) (hs : Nat)
  | run (i : Nat)
  | reply (i : Nat) (r : Reply)
  | fails (i : Nat)
deriving DecidableEq, Repr

namespace Channel

variable (s : Channel)

def call (peer : String) (form : Form) (side : Bool) : Channel :=
  match s.lazyInitPeerConnection peer form side with
  | [] => s
  | ops =>
    { s with tasks := s.tasks ++ [⟨.client, peer, s.next, ops, .connecting,
               !s.remoteXferHandlerExists peer⟩]
             next := s.next + 1
             failed := s.failed.filter fun p => p ≠ peer }

variable (localId : String)

/-- The communicator of the peer's entry, which the one-sided channel's handler pops. -/
def stale : Option Nat :=
  if s.cfg.kind = .oneSided then (s.peers.get? localId).map PeerState.comm else none

/-- The handler of an init request starts the thread. -/
def initRequest : Channel :=
  { s with tasks := s.tasks ++ [⟨.thread, localId, s.next, setupThread s.cfg (s.stale localId),
             .connecting, false⟩]
           peers := if s.cfg.kind = .oneSided then s.peers.pop localId else s.peers
           remotes := s.remotes ++ [(localId, s.next)]
           next := s.next + 1 }

def exchangeRequest (hs : Nat) : Channel :=
  { s with tasks := s.tasks ++ [⟨.handler, localId, hs, exchangeHandler s.cfg, .connecting,
             false⟩] }

local instance : LawfulBEq (String × Nat) := Prod.instLawfulBEq

def step : Action → Option Channel
  | .call peer form side => some (s.call peer form side)
  | .initRequest localId => if s.idle then some (s.initRequest localId) else none
  | .exchangeRequest localId hs =>
    if s.idle ∧ (localId, hs) ∈ s.remotes then some (s.exchangeRequest localId hs) else none
  | .remoteEnds localId hs =>
    if (localId, hs) ∈ s.remotes then some (s.settle localId hs) else none
  | .run i => match s.head i with
    | some (t, op, rest) => s.exec i t rest op
    | none => none
  | .reply i r => match s.head i with
    | some (t, .ask a, rest) => some (if a.accepts r then s.advance i t rest else s.raise i t)
    | _ => none
  | .fails i => match s.head i with
    | some (t, op, rest) => s.fail i t rest op
    | none => none

end Channel

/-- The runs of a channel. -/
def channel : Machine Channel Action where
  start s := s = Channel.init cfg
  step := Channel.step

/-! ## Owners and peers -/

/-- How often a task has a communicator in hand. -/
def Task.holds (t : Task) (c : Nat) : Nat := t.ops.countP fun op => op.comm = some c

namespace Channel

variable (s : Channel)

/-- The communicator is being set up, or as a stale one torn down, by a task; it is held by an
entry; or it was destroyed: how often this is so, all told. -/
def owners (c : Nat) : Nat :=
  (s.tasks.map fun t => t.holds c).sum + s.peers.weigh (fun e => if e.2.comm = c then 1 else 0) +
    s.destroyed.count c

/-- The connection is one of a handshake that goes on: a call of this channel, or one of another
channel whose buffers have not come. -/
def UnderWay (peer : String) (hs : Nat) : Prop :=
  (∃ t ∈ s.tasks, t.role = .client ∧ t.peer = peer ∧ t.hs = hs ∧ t.status.over = false) ∨
    (peer, hs) ∈ s.remotes

/-- The buffers stored under the peer come from the handshake. -/
def Exchanged (peer : String) (hs : Nat) : Prop :=
  ∃ l, s.remoteBuffers.get? peer = some l ∧ l ≠ [] ∧ ∀ x ∈ l, x = hs

/-- The peer has a connection and remote buffers of one handshake. -/
def Open (peer : String) : Prop :=
  match s.cfg.kind with
  | .oneSided => ∃ p, s.peers.get? peer = some p ∧ p.commOf = p.buffersOf
  | _ => ∃ hs, s.connHandles.get? peer = some hs ∧ s.Exchanged peer hs

/-- No peer is left half open. -/
structure Sound : Prop where
  absent : ∀ e ∈ s.raised, e.2 = false
  again : ∀ p ∈ s.failed, ∀ form side, s.lazyInitPeerConnection p form side =
    handshake s.cfg form side
  whole : ∀ p, s.remoteXferHandlerExists p = true → s.Open p ∨
    (s.cfg.kind ≠ .oneSided ∧ ∃ hs, s.connHandles.get? p = some hs ∧ s.UnderWay p hs)
  comms : ∀ c < s.comms, s.owners c = 1

/-! ## When it holds -/

/-- A client that raises has stored nothing, and began without an entry. -/
def MayRaise (t : Task) : Prop := t.role = .client → t.fresh = true ∧ t.status = .connecting

/-- No other call to the peer goes on. -/
def Alone (i : Nat) (peer : String) : Prop :=
  ∀ j t, s.tasks[j]? = some t → j ≠ i → t.role = .client → t.peer = peer → t.ops = []

/-- An entry is stored for a handshake that goes on, and no other; buffers are stored beside the
connection of their own handshake; no communicator is stored over another. -/
def StoresWell (i : Nat) (t : Task) : Op → Prop
  | .storeConn => s.Alone i t.peer ∧ (t.role ≠ .client → (t.peer, t.hs) ∈ s.remotes)
  | .storeBuffers => s.connHandles.get? t.peer = some t.hs
  | .extendBuffers => s.connHandles.get? t.peer = some t.hs ∧
      ∀ x ∈ (s.remoteBuffers.get? t.peer).getD [], x = t.hs
  | .storePeer _ => s.Alone i t.peer ∧ s.peers.get? t.peer = none ∧ t.peer ∉ s.failed
  | _ => True

/-- A communicator that is to be destroyed is. -/
def FailsWell (t : Task) (rest : List Op) : Op → Prop
  | .destroyPeerComm _ _ => False
  | .cleanupFailedComm _ _ 0 => False
  | .setDevice => MayRaise t ∧ ∀ op ∈ rest, op.comm = none
  | .initComm (_ + 1) => True
  | .bindMem .. => True
  | .prepare .. => True
  | .cleanupFailedComm _ _ (_ + 1) => True
  | _ => MayRaise t

end Channel

def Safe (s : Channel) : Action → Prop
  | .remoteEnds localId hs => s.connHandles.get? localId ≠ some hs
  | .run i => match s.head i with
    | some (t, op, _) => s.StoresWell i t op
    | none => True
  | .reply i r => match s.head i with
    | some (t, .ask a, _) => a.accepts r ∨ Channel.MayRaise t
    | _ => True
  | .fails i => match s.head i with
    | some (t, op, rest) => Channel.FailsWell t rest op
    | none => True
  | _ => True

end PeerSetup
