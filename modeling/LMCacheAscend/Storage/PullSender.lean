import Mathlib.Data.Finset.Card
import LMCacheAscend.Lib.Dict
import LMCacheAscend.Lib.Ledger
import LMCacheAscend.Lib.Machine

/-!
# Pull mode of the PD sender

The pull bookkeeping of `AscendPDSenderMixin`.  A step is one region of
`_pull_pending_lock` or the code between two of them, so the main threads, the
done listener and its sweep follow each other in any order.  `calls` are the
calls of `_batched_submit_put_task_pull` in progress; `releasing` are the calls
of `release_memory_objects` made after a lock region; `refs` logs every
`ref_count_up` and `ref_count_down` of a pull.

`uuid4` gives each pull an id of its own: `used` are those given out.  Peer
backoff and the proxy notification, which read and write nothing of the above,
are left out.

The receiver's side is `handlePullEager`, for the acknowledgement and for
whether a `PullDoneSignal` follows it.
-/

namespace PullSender

open Lib

/-! ## Data -/

abbrev PullId := String

abbrev MemoryObj := Nat

structure PullReadyDoneAck where
  alreadySentIndexes : List Nat
  allocFailed : Bool
deriving DecidableEq, Repr

/-- Where a call of `_batched_submit_put_task_pull` stands: its objects referenced, its
`PullReadyNotif` sent, or its ack read and the objects already sent released. -/
inductive Call
  | pinned (objs : List MemoryObj)
  | notified (objs : List MemoryObj)
  | acked (pinnedObjs : List MemoryObj)
deriving DecidableEq, Repr

/-- The objects that a call still references. -/
def Call.objs : Call → List MemoryObj
  | .pinned objs => objs
  | .notified objs => objs
  | .acked objs => objs

/-- The notification was sent. -/
def Call.Sent : Call → Prop
  | .pinned _ => False
  | .notified _ => True
  | .acked _ => True

structure Config where
  ttl : Int
  hwm : Int

structure Sender where
  pullPending : Dict PullId (Int × List MemoryObj)
  pinnedCount : Int
  earlyPullDone : Finset PullId
  calls : Dict PullId Call
  expired : List PullId
  releasing : List (PullId × List MemoryObj)
  used : Finset PullId
  refs : Ledger (PullId × MemoryObj)

def Sender.init : Sender :=
  { pullPending := Dict.empty, pinnedCount := 0, earlyPullDone := ∅, calls := Dict.empty,
    expired := [], releasing := [], used := ∅, refs := Ledger.empty }

/-- The references of a pull to a list of objects. -/
def refsOf (pullId : PullId) (objs : List MemoryObj) : List (PullId × MemoryObj) :=
  objs.map (Prod.mk pullId)

/-! ## The main thread -/

variable (s : Sender) (cfg : Config)

/-- `_wait_for_backpressure` has returned: `ref_count_up` of every object. -/
def Sender.submit (pullId : PullId) (objs : List MemoryObj) : Option Sender :=
  if pullId ∉ s.used ∧ objs ≠ [] ∧ s.pinnedCount + objs.length ≤ cfg.hwm then
    some { s with used := insert pullId s.used, calls := s.calls.set pullId (.pinned objs),
                  refs := s.refs.take (refsOf pullId objs) }
  else none

def Sender.notify (pullId : PullId) : Option Sender :=
  match s.calls.get? pullId with
  | some (.pinned objs) => some { s with calls := s.calls.set pullId (.notified objs) }
  | _ => none

/-- The objects whose index is among `already_sent_indexes`, and the others. -/
def splitSent (alreadySent : List Nat) (objs : List MemoryObj) : List MemoryObj × List MemoryObj :=
  let sent := objs.zipIdx.partition fun e => e.2 ∈ alreadySent
  (sent.1.map Prod.fst, sent.2.map Prod.fst)

def Sender.ack (s : Sender) (pullId : PullId) (ack : PullReadyDoneAck) : Option Sender :=
  match s.calls.get? pullId with
  | some (.notified objs) =>
    if ack.allocFailed then
      some { s with calls := s.calls.pop pullId, refs := s.refs.give (refsOf pullId objs) }
    else
      let (sent, pinnedObjs) := splitSent ack.alreadySentIndexes objs
      some { s with calls := s.calls.set pullId (.acked pinnedObjs),
                    refs := s.refs.give (refsOf pullId sent) }
  | _ => none

/-- The lock region that ends a call. -/
def Sender.register (pullId : PullId) (now : Int) : Option Sender :=
  match s.calls.get? pullId with
  | some (.acked pinnedObjs) =>
    let s := { s with calls := s.calls.pop pullId }
    if pinnedObjs ≠ [] then
      if pullId ∈ s.earlyPullDone then
        some { s with earlyPullDone := s.earlyPullDone.erase pullId,
                      releasing := s.releasing ++ [(pullId, pinnedObjs)] }
      else
        some { s with pullPending := s.pullPending.set pullId (now, pinnedObjs),
                      pinnedCount := s.pinnedCount + pinnedObjs.length }
    else some { s with earlyPullDone := s.earlyPullDone.erase pullId }
  | _ => none

/-! ## The listener -/

/-- `_pull_pending.pop(pull_id, None)`, the count, and the release that follows. -/
def Sender.popPending (pullId : PullId) : Option Sender :=
  (s.pullPending.get? pullId).map fun entry =>
    { s with pullPending := s.pullPending.pop pullId,
             pinnedCount := s.pinnedCount - entry.2.length,
             releasing := s.releasing ++ [(pullId, entry.2)] }

/-- `_handle_pull_done`. -/
def Sender.handlePullDone (pullId : PullId) : Sender :=
  match s.popPending pullId with
  | some s' => s'
  | none => { s with earlyPullDone := insert pullId s.earlyPullDone }

/-- The scan of `_sweep_expired_pull_pending`. -/
def Sender.scan (now : Int) : Option Sender :=
  if s.expired = [] then
    some { s with expired :=
      (s.pullPending.entries.filter fun e => now - e.2.1 > cfg.ttl).map Prod.fst }
  else none

/-- Its next pull id. -/
def Sender.expire : Option Sender :=
  match s.expired with
  | [] => none
  | pullId :: rest =>
    let s := { s with expired := rest }
    some ((s.popPending pullId).getD s)

/-- A `release_memory_objects` outside the lock. -/
def Sender.release (i : Nat) : Option Sender :=
  (s.releasing[i]?).map fun e =>
    { s with releasing := s.releasing.eraseIdx i, refs := s.refs.give (refsOf e.1 e.2) }

/-! ## Steps -/

inductive Action
  | submit (pullId : PullId) (objs : List MemoryObj)
  | notify (pullId : PullId)
  | ack (pullId : PullId) (ack : PullReadyDoneAck)
  | register (pullId : PullId) (now : Int)
  | pullDone (pullId : PullId)
  | scan (now : Int)
  | expire
  | release (i : Nat)

def Sender.step (s : Sender) : Action → Option Sender
  | .submit pullId objs => s.submit cfg pullId objs
  | .notify pullId => s.notify pullId
  | .ack pullId ack => s.ack pullId ack
  | .register pullId now => s.register pullId now
  | .pullDone pullId => some (s.handlePullDone pullId)
  | .scan now => s.scan cfg now
  | .expire => s.expire
  | .release i => s.release i

def pullMachine : Machine Sender Action where
  start s := s = Sender.init
  step := Sender.step cfg

/-! ## The receiver -/

/-- `_partition_keys`: the indexes of the keys that are stored, and of the others. -/
def partitionKeys {κ : Type} (stored : κ → Bool) (keys : List κ) : List Nat × List Nat :=
  let parts := keys.zipIdx.partition fun e => stored e.1
  (parts.1.map Prod.snd, parts.2.map Prod.snd)

/-- `_handle_pull_eager`: the ack, and whether the callback that sends `PullDoneSignal` comes
with it.  `allocate` answers for a chunk. -/
def handlePullEager {κ : Type} (stored : κ → Bool) (allocate : Nat → Bool) (keys : List κ) :
    PullReadyDoneAck × Bool :=
  let (alreadySentIndexes, newIndexes) := partitionKeys stored keys
  if newIndexes.all allocate then (⟨alreadySentIndexes, false⟩, true)
  else (⟨alreadySentIndexes, true⟩, false)

end PullSender
