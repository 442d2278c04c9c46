import LMCacheAscend.Lib.Prog
import LMCacheAscend.Storage.PullPending
import LMCacheAscend.Storage.PushMode

/-!
# A put of the PD sender

`batched_submit_put_task` as a program, in push and in pull mode: the objects'
references are raised first and dropped on the branches that end a put.  `Sending`
is what the sender is told on the way: a call that raises is an `.error`.  The
wait of `_wait_for_backpressure` comes before any reference.

An exception after the references were raised keeps them: `Answered` are exactly
the puts that give back all but what is registered in `_pull_pending`.
-/

namespace SenderPut

open Lib List Option Dict

/-! ## Data -/

abbrev MemoryObj := PullSender.MemoryObj

abbrev PullId := PullSender.PullId

structure TransferSpec where
  receiverHost : String
  receiverInitPort : List Nat
  receiverAllocPort : List Nat
  reqId : String
  isLastPrefill : Bool

/-- `AscendAllocResponse`. -/
structure AllocResponse where
  alreadySentIndexes : List Nat
  remoteBufferUuids : List String
  remoteIndexes : List Nat
  allocFailed : Bool

structure PullReadyNotif where
  pullId : PullId
  keys : List PushMode.Key
  senderBufferUuids : List String
  senderMemIndexes : List Nat
  senderId : String
  senderDoneUrl : String
  fmt : Nat
  shape : PushMode.Shape
  dtype : String
  lastChunkToks : Nat

/-- What a put is told. -/
structure Sending where
  tpRank : Nat
  pullMode : Bool
  peerAllocBackoffTtl : Int
  senderDoneUrl : String
  /-- `uuid4().hex`. -/
  pullId : PullId
  /-- `time.monotonic()` at the backoff check, and when the answer was read. -/
  now : Int
  answeredAt : Int
  ensurePeerConnection : String → String → Nat → Nat → Except String Unit
  /-- `_get_remote_alloc_request`, of the base backend. -/
  getRemoteAllocRequest : List PushMode.Key → List MemoryObj → Except String PushMode.AllocRequest
  /-- `_remote_allocate`. -/
  remoteAllocate : String → PushMode.AllocRequest → Except String AllocResponse
  /-- `get_local_buffer_refs`. -/
  localBufferRefs : List MemoryObj → Except String (List String × List Nat)
  /-- The notification is sent, and the ack received and decoded. -/
  exchange : String → PullReadyNotif → Except String PullSender.PullReadyDoneAck
  batchedWrite : String → List (MemoryObj × String × Nat) → Except String Unit
  /-- The `PullDoneSignal` came before the pull was registered. -/
  earlyDone : Bool
  /-- The `ProxyNotif` is sent. -/
  proxySend : String → Except String Unit

structure SenderState where
  refs : Ledger MemoryObj
  peerAllocBackoff : Dict String Int
  pullPending : Dict PullId (Int × List MemoryObj)
  pinnedCount : Int
  earlyPullDone : Finset PullId

abbrev SenderM := Prog String SenderState

/-! ## The programs -/

section

/-- `ref_count_down` of each; `release_memory_objects`. -/
def dropRefs (objs : List MemoryObj) : SenderM Unit :=
  modify fun s => { s with refs := s.refs.give objs }

/-- `port[self.tp_rank]`. -/
def portOf (ports : List Nat) (tpRank : Nat) : Except String Nat :=
  match ports[tpRank]? with
  | some port => .ok port
  | none => .error "list index out of range"

variable (env : Sending)

/-- The ports of this rank and the connection; the receiver's id. -/
def connect (spec : TransferSpec) : Except String String := do
  let initPort ← portOf spec.receiverInitPort env.tpRank
  let allocPort ← portOf spec.receiverAllocPort env.tpRank
  let receiverId := spec.receiverHost ++ toString initPort
  env.ensurePeerConnection receiverId spec.receiverHost initPort allocPort
  return receiverId

variable (keys : List PushMode.Key)

/-- What a push asks the receiver. -/
def askPush (objs : List MemoryObj) (spec : TransferSpec) :
    Except String (String × AllocResponse) := do
  let receiverId ← connect env spec
  let req ← env.getRemoteAllocRequest keys objs
  let resp ← env.remoteAllocate receiverId req
  return (receiverId, resp)

/-- The `PullReadyNotif` of some objects. -/
def pullReadyNotif (objs : List MemoryObj) (refs : List String × List Nat) :
    Except String PullReadyNotif := do
  let req ← env.getRemoteAllocRequest keys objs
  return { pullId := env.pullId, keys := req.keys, senderBufferUuids := refs.1,
           senderMemIndexes := refs.2, senderId := env.senderDoneUrl,
           senderDoneUrl := env.senderDoneUrl, fmt := req.fmt.value, shape := req.shape,
           dtype := req.dtype, lastChunkToks := req.lastChunkToks }

/-- What a pull asks the receiver. -/
def askPull (objs : List MemoryObj) (spec : TransferSpec) :
    Except String (String × PullSender.PullReadyDoneAck) := do
  let receiverId ← connect env spec
  let refs ← env.localBufferRefs objs
  let notif ← pullReadyNotif env keys objs refs
  let ack ← env.exchange receiverId notif
  return (receiverId, ack)

/-- The circuit breaker of a peer. -/
def backedOff (receiverId : String) (s : SenderState) : Prop :=
  env.now < (s.peerAllocBackoff.get? receiverId).getD 0

instance (receiverId : String) (s : SenderState) : Decidable (backedOff env receiverId s) :=
  inferInstanceAs (Decidable (_ < _))

end

/-! ## What is held -/

section

variable {env : Sending} {s s' : SenderState} {l : List MemoryObj}

variable {objs : List MemoryObj}

@[simp] theorem wp_dropRefs {Q : Except String Unit → SenderState → Prop} :
    wp (dropRefs objs) Q s ↔ Q (.ok ()) { s with refs := s.refs.give objs } := Iff.rfl

/-- The objects of a put that the receiver does not have, from index `idx` on. -/
def unsent (alreadySent : List Nat) (objs : List MemoryObj) (idx : Nat) : List MemoryObj :=
  ((objs.zipIdx idx).filter fun e => e.2 ∉ alreadySent).map Prod.fst

variable (resp : AllocResponse)

/-- The remote pages from number `k` on are enough for some objects. -/
def Fits (k : Nat) (objs : List MemoryObj) : Prop :=
  k + objs.length ≤ resp.remoteBufferUuids.length ∧ k + objs.length ≤ resp.remoteIndexes.length

/-- The objects with their remote pages. -/
def paired (k : Nat) (objs : List MemoryObj) : List (MemoryObj × String × Nat) :=
  objs.zip ((resp.remoteBufferUuids.drop k).zip (resp.remoteIndexes.drop k))

/-- All that a put keeps are the objects it registered, one reference each. -/
def Kept (env : Sending) (l : List MemoryObj) (s s' : SenderState) : Prop :=
  ∃ pinned, s'.refs.Holds (l ++ pinned) ∧
    ((pinned = [] ∧ s'.pullPending = s.pullPending) ∨
      s'.pullPending = s.pullPending.set env.pullId (env.answeredAt, pinned))

theorem Kept.of_holds (h : s'.refs.Holds l) (hp : s'.pullPending = s.pullPending) :
    Kept env l s s' :=
  ⟨[], by rw [append_nil]; exact h, .inl ⟨rfl, hp⟩⟩

/-- The receiver answered a push, with pages enough for the objects it does not have, and their
write returned. -/
def PushAnswered (env : Sending) (keys : List PushMode.Key) (objs : List MemoryObj)
    (spec : TransferSpec) : Prop :=
  ∃ receiverId resp, askPush env keys objs spec = .ok (receiverId, resp) ∧
    (resp.allocFailed = true ∨ unsent resp.alreadySentIndexes objs 0 = [] ∨
      Fits resp 0 (unsent resp.alreadySentIndexes objs 0) ∧
        env.batchedWrite receiverId (paired resp 0 (unsent resp.alreadySentIndexes objs 0)) = .ok ())

def PullAnswered (env : Sending) (keys : List PushMode.Key) (objs : List MemoryObj)
    (spec : TransferSpec) : Prop :=
  ∃ answer, askPull env keys objs spec = .ok answer

/-- What becomes of a put depends on the answers it gets: there is nothing to send, it is not tried,
or everything that it asks for after the references were raised was given. -/
def Answered (env : Sending) (keys : List PushMode.Key) (objs : List MemoryObj) (spec : TransferSpec)
    (s : SenderState) : Prop :=
  objs = [] ∨ ∀ initPort, portOf spec.receiverInitPort env.tpRank = .ok initPort →
    backedOff env (spec.receiverHost ++ toString initPort) s ∨
      if env.pullMode then PullAnswered env keys objs spec else PushAnswered env keys objs spec

end

/-! ## Until the signal or the time limit -/

section

variable {cfg : PullSender.Config} {s s' : PullSender.Sender}

end

def SenderState.init : SenderState := ⟨.empty, Dict.empty, Dict.empty, 0, ∅⟩

end SenderPut
