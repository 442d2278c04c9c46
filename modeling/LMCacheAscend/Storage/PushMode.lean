import LMCacheAscend.Lib.Dict
import LMCacheAscend.Lib.Machine

/-!
# Push mode of the PD backend

`_batched_submit_put_task_push` on the senders and `_allocate_and_put` on the
receiver.  A sender asks for pages, waits for the answer and writes the objects
that the receiver does not have.  The receiver answers one request at a time
(`_mem_alloc_loop`); a step is one of its lookups, one allocation with the `put`
that follows, or the answer.  A batched write is one step an object, in any
order: a call that fails part of the way has no further steps.

`mem` holds what has been written to a page since it was last allocated, with
the key it was written for.  Reference counts, the backoff of a peer and the
proxy notification read and write nothing of the above.
-/

namespace PushMode

open Lib

/-! ## Data -/

abbrev Key := String

abbrev Bytes := List Nat

abbrev Shape := List Nat

/-- A buffer's UUID and an index into it. -/
abbrev Page := String × Nat

/-- A `MemoryFormat` and its `token_dim()`. -/
structure MemoryFormat where
  value : Nat
  tokenDim : Nat
deriving DecidableEq, Repr

structure Meta where
  shape : Shape
  dtype : String
  fmt : MemoryFormat
deriving DecidableEq, Repr

/-- An object of a sender. -/
structure MemoryObj where
  layout : Meta
  bytes : Bytes
deriving DecidableEq, Repr

/-- An object of the receiver's store. -/
structure Stored where
  page : Page
  layout : Meta
deriving DecidableEq, Repr

structure AllocRequest where
  keys : List Key
  fmt : MemoryFormat
  shape : Shape
  dtype : String
  lastChunkToks : Nat
deriving DecidableEq, Repr

/-- What `_allocate_and_put` keeps of an allocation: `allocated_keys` and the reference. -/
structure Slot where
  idx : Nat
  key : Key
  page : Page
deriving DecidableEq, Repr

/-- A request that the receiver is answering, and the objects with which its sender waits. -/
structure Call where
  objs : List MemoryObj
  req : AllocRequest
  next : Nat
  alreadySent : List Nat
  newIndexes : List Nat
  allocated : List Slot
deriving DecidableEq, Repr

/-- An entry of `mem_objs_to_send`, `send_buffer_uuids` and `send_mem_indexes`, and its key. -/
structure Send where
  idx : Nat
  key : Key
  obj : MemoryObj
  page : Page
deriving DecidableEq, Repr

/-- A write, with what was then stored under the key of its object. -/
structure Write where
  send : Send
  stored : Option Stored
deriving DecidableEq, Repr

/-- A `batched_write`. -/
structure Transfer where
  keys : List Key
  objs : List MemoryObj
  alreadySent : List Nat
  todo : List Send
  written : List Write
deriving DecidableEq, Repr

/-- A key reported as already sent, and what was in the page stored under it. -/
structure Report where
  key : Key
  content : Option (Key × Bytes)
deriving DecidableEq, Repr

structure System where
  data : Dict Key Stored
  mem : Dict Page (Key × Bytes)
  call : Option Call
  transfers : List Transfer
  orphans : List Key
  reports : List Report

def System.init : System :=
  { data := Dict.empty, mem := Dict.empty, call := none, transfers := [], orphans := [],
    reports := [] }

/-! ## The sender -/

/-- The shape of a chunk with another number of tokens. -/
def Meta.withTokens (m : Meta) (toks : Nat) : Meta :=
  { m with shape := m.shape.set m.fmt.tokenDim toks }

/-- The objects of a put: chunks of one shape, of which the last has its own number of tokens. -/
def chunks (full : Meta) (lastToks : Nat) (payloads : List Bytes) : List MemoryObj :=
  payloads.mapIdx fun idx bytes =>
    ⟨if idx + 1 = payloads.length then full.withTokens lastToks else full, bytes⟩

/-- A request has the keys, the format, shape and type of the first object, and the tokens of the
last. -/
structure AllocRequest.Describes (req : AllocRequest) (keys : List Key) (objs : List MemoryObj) :
    Prop where
  keys : req.keys = keys
  first : ∃ first, objs.head? = some first ∧
    first.layout = { shape := req.shape, dtype := req.dtype, fmt := req.fmt }
  last : ∃ last, objs.getLast? = some last ∧
    last.layout.shape[req.fmt.tokenDim]? = some req.lastChunkToks

/-- The loop that leaves out the objects already sent. -/
def toSend (alreadySent : List Nat) (remote : List Page) :
    List (Key × MemoryObj) → Nat → Nat → Option (List Send)
  | [], _, _ => some []
  | (key, obj) :: rest, idx, toSendIdx =>
    if idx ∈ alreadySent then toSend alreadySent remote rest (idx + 1) toSendIdx
    else do
      let page ← remote[toSendIdx]?
      let sends ← toSend alreadySent remote rest (idx + 1) (toSendIdx + 1)
      some (⟨idx, key, obj, page⟩ :: sends)

/-- `_get_remote_alloc_request`, of the base backend. -/
abbrev GetRequest := List Key → List MemoryObj → Option AllocRequest

variable (s : System) (getRemoteAllocRequest : GetRequest)

/-- A sender's request reaches the receiver, which is waiting for one. -/
def System.request (s : System) (keys : List Key) (full : Meta) (lastToks : Nat)
    (payloads : List Bytes) : Option System :=
  match s.call with
  | some _ => none
  | none =>
    if keys.length = payloads.length then do
      let objs := chunks full lastToks payloads
      let req ← getRemoteAllocRequest keys objs
      some { s with call := some { objs := objs, req := req, next := 0, alreadySent := [],
                                   newIndexes := [], allocated := [] } }
    else none

/-- One object of a batched write. -/
def System.write (t n : Nat) : Option System := do
  let transfer ← s.transfers[t]?
  let send ← transfer.todo[n]?
  let transfer' := { transfer with todo := transfer.todo.eraseIdx n,
                                   written := transfer.written ++ [⟨send, s.data.get? send.key⟩] }
  some { s with mem := s.mem.set send.page (send.key, send.obj.bytes),
                transfers := s.transfers.set t transfer' }

/-! ## The receiver -/

/-- `adjust_last_chunk_shape`. -/
def adjustLastChunkShape (shape : Shape) (idx totalAllocs : Nat) (fmt : MemoryFormat)
    (lastChunkToks : Nat) : Shape :=
  if idx + 1 = totalAllocs then shape.set fmt.tokenDim lastChunkToks else shape

/-- What `_allocate_and_put` allocates for an index. -/
def AllocRequest.layout (req : AllocRequest) (idx : Nat) : Meta :=
  { shape := adjustLastChunkShape req.shape idx req.keys.length req.fmt req.lastChunkToks,
    dtype := req.dtype, fmt := req.fmt }

/-- One index of the loop of `_partition_keys`. -/
def System.lookup : Option System := do
  let c ← s.call
  let key ← c.req.keys[c.next]?
  match s.data.get? key with
  | some e =>
    some { s with call := some { c with next := c.next + 1,
                                        alreadySent := c.alreadySent ++ [c.next] },
                  reports := s.reports ++ [⟨key, s.mem.get? e.page⟩] }
  | none =>
    some { s with call := some { c with next := c.next + 1,
                                        newIndexes := c.newIndexes ++ [c.next] } }

local instance : LawfulBEq (Key × Nat) := Prod.instLawfulBEq

/-- One index of the loop over `new_indexes`; the allocator hands out no stored page. -/
def System.allocate (page : Page) : Option System := do
  let c ← s.call
  let idx ← c.newIndexes[c.allocated.length]?
  let key ← c.req.keys[idx]?
  if c.next = c.req.keys.length ∧ page ∉ s.data.entries.map (·.2.page) then
    some { s with data := s.data.set key ⟨page, c.req.layout idx⟩,
                  mem := s.mem.pop page,
                  call := some { c with allocated := c.allocated ++ [⟨idx, key, page⟩] } }
  else none

/-- `allocate_with_retry` gives up: what was stored goes, and `alloc_failed` is answered. -/
def System.allocFailed : Option System := do
  let c ← s.call
  if c.next = c.req.keys.length ∧ c.allocated.length < c.newIndexes.length then
    some { s with data := c.allocated.foldl (fun d slot => d.pop slot.key) s.data, call := none }
  else none

/-- The handler raises: the answer is empty, and what was stored stays. -/
def System.handlerRaises : Option System := do
  let c ← s.call
  some { s with call := none, orphans := s.orphans ++ c.allocated.map (·.key) }

/-- The answer, on which the sender starts its batched write. -/
def System.reply : Option System := do
  let c ← s.call
  if c.next = c.req.keys.length ∧ c.allocated.length = c.newIndexes.length then do
    let todo ← toSend c.alreadySent (c.allocated.map (·.page)) (c.req.keys.zip c.objs) 0 0
    some { s with call := none,
                  transfers := s.transfers ++
                    [⟨c.req.keys, c.objs, c.alreadySent, todo, []⟩] }
  else none

/-- Another thread takes a key out of the store. -/
def System.remove (key : Key) : System :=
  { s with data := s.data.pop key, orphans := s.orphans.filter (· ≠ key) }

/-! ## Runs -/

inductive Action
  | request (keys : List Key) (full : Meta) (lastToks : Nat) (payloads : List Bytes)
  | lookup
  | allocate (page : Page)
  | allocFailed
  | handlerRaises
  | reply
  | write (t n : Nat)
  | remove (key : Key)
deriving DecidableEq, Repr

def System.step (s : System) : Action → Option System
  | .request keys full lastToks payloads =>
    s.request getRemoteAllocRequest keys full lastToks payloads
  | .lookup => s.lookup
  | .allocate page => s.allocate page
  | .allocFailed => s.allocFailed
  | .handlerRaises => s.handlerRaises
  | .reply => s.reply
  | .write t n => s.write t n
  | .remove key => some (s.remove key)

def pushMachine : Machine System Action where
  start s := s = System.init
  step := System.step getRemoteAllocRequest

/-! ## Placement -/

/-- The writes of a transfer: each is of an object not already sent, under its own key, to the page
stored under that key with the object's layout, and no object has two. -/
structure Transfer.Placed (t : Transfer) : Prop where
  once : (t.written.map (·.send.idx)).Nodup
  page : ∀ w ∈ t.written, w.send.idx ∉ t.alreadySent ∧
    t.keys[w.send.idx]? = some w.send.key ∧ t.objs[w.send.idx]? = some w.send.obj ∧
    w.stored = some ⟨w.send.page, w.send.obj.layout⟩
  every : t.todo = [] → ∀ i < t.objs.length, i ∉ t.alreadySent →
    ∃ w ∈ t.written, w.send.idx = i

/-- The page has been written with an object of its key. -/
def Report.Written (r : Report) : Prop := ∃ bytes, r.content = some (r.key, bytes)

/-- The keys that wait for a write: of the request being answered and of the batched writes. -/
def System.awaiting : List Key :=
  (s.call.elim [] fun c => c.allocated.map (·.key)) ++
    s.transfers.flatMap fun t => t.todo.map (·.key)

/-- The keys stored without a write: those that wait for one, and those that a handler that raised
left behind. -/
def System.unwritten : List Key := s.awaiting ++ s.orphans

/-- The key of the next lookup. -/
def System.nextKey : Option Key := s.call.bind fun c => c.req.keys[c.next]?

/-- A request has each key once, a lookup is of no key stored without a write, and no key that
waits for a write is taken out. -/
def Settled : Action → Prop
  | .request keys _ _ _ => keys.Nodup
  | .lookup => ∀ key ∈ s.nextKey, key ∉ s.unwritten
  | .remove key => key ∉ s.awaiting
  | _ => True

instance (s : System) : ∀ a : Action, Decidable (Settled s a)
  | .request keys .. => inferInstanceAs (Decidable keys.Nodup)
  | .lookup => inferInstanceAs (Decidable (∀ key ∈ s.nextKey, key ∉ s.unwritten))
  | .remove key => inferInstanceAs (Decidable (key ∉ s.awaiting))
  | .allocate _ => instDecidableTrue
  | .allocFailed => instDecidableTrue
  | .handlerRaises => instDecidableTrue
  | .reply => instDecidableTrue
  | .write .. => instDecidableTrue

end PushMode
