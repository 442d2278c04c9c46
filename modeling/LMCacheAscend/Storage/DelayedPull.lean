import LMCacheAscend.Storage.PushMode

/-!
# Delayed pulls on the receiver

`_handle_pull_delay` stores a proxy for each chunk that a sender offers and is
not there; the proxies of one notification share a transfer context.  The
engine gets objects from the store and hands a batch of them to the connector,
which marks the proxies of the batch as consumed and sends the Done of each of
their contexts (the `finally` block of `_remote_batched_to_gpu`).

The receiver's loop answers one notification at a time; its lookups, its puts
and the marks and Dones of the calls are steps of their own, so that every
interleaving of the threads is a run.  Reference counts and the reads and
scatters of a call are left out.
-/

namespace DelayedPull

open Lib PushMode Dict

/-! ## Data -/

structure PullReadyNotif where
  pullId : String
  keys : List Key
  senderBufferUuids : List String
  senderMemIndexes : List Nat
  senderId : String
  fmt : MemoryFormat
  shape : Shape
  lastChunkToks : Nat
deriving DecidableEq, Repr

/-- A `PDTransferContext`: where its Done goes. -/
structure TransferContext where
  senderId : String
  pullId : String
  numProxies : Nat
deriving DecidableEq, Repr

/-- A `ProxyMemoryObj` of a delayed pull; `ctx` is the place of its context among those created. -/
structure Proxy where
  ctx : Nat
  chunkIndex : Nat
  targetPeerUrl : String
  remoteBufferUuid : String
  remoteMemIndex : Nat
  shape : Shape
deriving DecidableEq, Repr

inductive MemoryObj
  | page (id : Nat)
  | proxy (p : Proxy)
deriving DecidableEq, Repr

def MemoryObj.proxy? : MemoryObj → Option Proxy
  | .page _ => none
  | .proxy p => some p

/-- A notification that is being answered. -/
structure Handler where
  msg : PullReadyNotif
  next : Nat
  alreadySent : List Nat
  newIndexes : List Nat
  ctx : Option Nat
  created : Nat
deriving DecidableEq, Repr

/-- The clean-up of a `_remote_batched_to_gpu`: the proxies to mark and the contexts to be done. -/
structure ConnectorCall where
  unmarked : List Proxy
  contexts : List Nat
deriving DecidableEq, Repr

/-- `held` are the objects that the engine has got from the store. -/
structure System where
  data : Dict Key MemoryObj
  contexts : List TransferContext
  handler : Option Handler
  held : List MemoryObj
  calls : List ConnectorCall
  consumed : List Proxy
  doneSent : List Nat

def System.init : System :=
  { data := Dict.empty, contexts := [], handler := none, held := [], calls := [], consumed := [],
    doneSent := [] }

/-! ## The store -/

variable (s : System) (objs : List MemoryObj)

/-- `_lookup`: a consumed proxy is evicted. -/
def System.lookup (key : Key) : System × Option MemoryObj :=
  match s.data.get? key with
  | none => (s, none)
  | some (.page id) => (s, some (.page id))
  | some (.proxy p) =>
    if p ∈ s.consumed then ({ s with data := s.data.pop key }, none) else (s, some (.proxy p))

def System.put (key : Key) (obj : MemoryObj) : System :=
  { s with data := s.data.set key obj }

/-! ## The receiver's loop -/

def System.notify (msg : PullReadyNotif) : Option System :=
  match s.handler with
  | some _ => none
  | none =>
    some { s with handler := some { msg := msg, next := 0, alreadySent := [], newIndexes := [],
                                    ctx := none, created := 0 } }

/-- One index of the loop of `_partition_keys`. -/
def System.partitionKey : Option System := do
  let h ← s.handler
  let key ← h.msg.keys[h.next]?
  match s.lookup key with
  | (s', some _) =>
    some { s' with handler := some { h with next := h.next + 1,
                                            alreadySent := h.alreadySent ++ [h.next] } }
  | (s', none) =>
    some { s' with handler := some { h with next := h.next + 1,
                                            newIndexes := h.newIndexes ++ [h.next] } }

/-- The transfer context, if there are new chunks. -/
def System.createContext : Option System := do
  let h ← s.handler
  if h.next = h.msg.keys.length ∧ h.newIndexes ≠ [] ∧ h.ctx = none then
    some { s with contexts := s.contexts ++ [⟨h.msg.senderId, h.msg.pullId, h.newIndexes.length⟩],
                  handler := some { h with ctx := some s.contexts.length } }
  else none

/-- The proxy of a new chunk. -/
def PullReadyNotif.proxy (msg : PullReadyNotif) (ctx proxySeq msgIdx : Nat) : Option Proxy := do
  let remoteBufferUuid ← msg.senderBufferUuids[msgIdx]?
  let remoteMemIndex ← msg.senderMemIndexes[msgIdx]?
  some { ctx := ctx, chunkIndex := proxySeq, targetPeerUrl := msg.senderId,
         remoteBufferUuid := remoteBufferUuid, remoteMemIndex := remoteMemIndex,
         shape := adjustLastChunkShape msg.shape msgIdx msg.keys.length msg.fmt
           msg.lastChunkToks }

/-- One turn of the loop over `new_indexes`. -/
def System.putProxy : Option System := do
  let h ← s.handler
  let ctx ← h.ctx
  let msgIdx ← h.newIndexes[h.created]?
  let key ← h.msg.keys[msgIdx]?
  let proxy ← h.msg.proxy ctx h.created msgIdx
  some { s.put key (.proxy proxy) with handler := some { h with created := h.created + 1 } }

/-- The answer, or what the handler raises. -/
def System.endHandler : Option System := do
  let _ ← s.handler
  some { s with handler := none }

/-! ## The engine -/

/-- `get_blocking` of the base class, taken to look the key up in `data`. -/
def System.get (s : System) (key : Key) : Option System := do
  let obj ← s.data.get? key
  some { s with held := s.held ++ [obj] }

def proxies : List Proxy := objs.filterMap MemoryObj.proxy?

/-- `transfer_contexts`. -/
def transferContexts : List Nat := ((proxies objs).map (·.ctx)).dedup

/-- `batched_to_gpu` of objects that the engine has got. -/
def System.toGpu : Option System :=
  if objs ⊆ s.held then
    some { s with calls := s.calls ++ [⟨proxies objs, transferContexts objs⟩] }
  else none

/-- `mark_consumed` of the next proxy of a call. -/
def System.mark (n : Nat) : Option System := do
  let call ← s.calls[n]?
  match call.unmarked with
  | [] => none
  | p :: rest =>
    some { s with consumed := s.consumed ++ [p],
                  calls := s.calls.set n { call with unmarked := rest } }

/-- `send_done_now` of the next context of a call whose proxies are all marked. -/
def System.sendDoneNow (n : Nat) : Option System := do
  let call ← s.calls[n]?
  match call.unmarked, call.contexts with
  | [], ctx :: rest =>
    some { s with doneSent := if ctx ∈ s.doneSent then s.doneSent else s.doneSent ++ [ctx],
                  calls := s.calls.set n { call with contexts := rest } }
  | _, _ => none

/-- The clean-up of a call raises. -/
def System.raise (n : Nat) : System := { s with calls := s.calls.eraseIdx n }

/-! ## Runs -/

inductive Action
  | notify (msg : PullReadyNotif)
  | partitionKey
  | createContext
  | putProxy
  | endHandler
  | contains (key : Key)
  | putPage (key : Key) (id : Nat)
  | remove (key : Key)
  | get (key : Key)
  | toGpu (objs : List MemoryObj)
  | mark (n : Nat)
  | sendDoneNow (n : Nat)
  | raise (n : Nat)
deriving DecidableEq, Repr

def System.step : Action → Option System
  | .notify msg => s.notify msg
  | .partitionKey => s.partitionKey
  | .createContext => s.createContext
  | .putProxy => s.putProxy
  | .endHandler => s.endHandler
  | .contains key => some (s.lookup key).1
  | .putPage key id => some (s.put key (.page id))
  | .remove key => some { s with data := s.data.pop key }
  | .get key => s.get key
  | .toGpu objs => s.toGpu objs
  | .mark n => s.mark n
  | .sendDoneNow n => s.sendDoneNow n
  | .raise n => some (s.raise n)

def delayMachine : Machine System Action where
  start s := s = System.init
  step := System.step

/-! ## When a context is done -/

/-- A proxy that was not consumed and can be got from the store. -/
def System.Retrievable (p : Proxy) : Prop :=
  p ∉ s.consumed ∧ ∃ key, s.data.get? key = some (.proxy p)

/-- No context is done while one of its proxies is still to be retrieved. -/
def System.DoneLast : Prop := ∀ p, s.Retrievable p → p.ctx ∉ s.doneSent

/-- The receiver's loop has still to store proxies of the context. -/
def System.Storing (ctx : Nat) : Prop :=
  ∃ h, s.handler = some h ∧ h.ctx = some ctx ∧ h.created < h.newIndexes.length

/-- A batch takes, of each of its contexts, all proxies that are still to be retrieved, and none
of them is still to be stored. -/
def Whole : Action → Prop
  | .toGpu objs => ∀ ctx ∈ transferContexts objs,
      (∀ p, s.Retrievable p → p.ctx = ctx → .proxy p ∈ objs) ∧ ¬ s.Storing ctx
  | _ => True

theorem retrievable_iff {s : System} {P : Proxy → Prop} : (∀ p, s.Retrievable p → P p) ↔
    ∀ e ∈ s.data.entries, ∀ p ∈ e.2.proxy?, p ∉ s.consumed → P p := by
  constructor
  · rintro h ⟨key, obj⟩ he p hp hnot
    cases obj with
    | page id => cases hp
    | proxy q =>
      cases hp
      exact h p ⟨hnot, key, mem_entries.1 he⟩
  · rintro h p ⟨hnot, key, hkey⟩
    exact h (key, .proxy p) (mem_entries.2 hkey) p rfl hnot

instance (s : System) (ctx : Nat) : Decidable (s.Storing ctx) :=
  inferInstanceAs (Decidable (∃ h ∈ s.handler, h.ctx = some ctx ∧
    h.created < h.newIndexes.length))

instance (s : System) : ∀ a : Action, Decidable (Whole s a)
  | .toGpu objs =>
    decidable_of_iff (∀ ctx ∈ transferContexts objs,
      (∀ e ∈ s.data.entries, ∀ p ∈ e.2.proxy?, p ∉ s.consumed → p.ctx = ctx → .proxy p ∈ objs) ∧
        ¬ s.Storing ctx)
      (forall₂_congr fun _ _ => and_congr_left fun _ => retrievable_iff.symm)
  | .notify _ => instDecidableTrue
  | .partitionKey => instDecidableTrue
  | .createContext => instDecidableTrue
  | .putProxy => instDecidableTrue
  | .endHandler => instDecidableTrue
  | .contains _ => instDecidableTrue
  | .putPage _ _ => instDecidableTrue
  | .remove _ => instDecidableTrue
  | .get _ => instDecidableTrue
  | .mark _ => instDecidableTrue
  | .sendDoneNow _ => instDecidableTrue
  | .raise _ => instDecidableTrue

end DelayedPull
