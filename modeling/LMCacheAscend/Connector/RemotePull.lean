import LMCacheAscend.Lib.Blocks
import LMCacheAscend.Lib.Prog
import LMCacheAscend.Lib.Streams

/-!
# The ping-pong pull of remote objects

`_remote_batched_to_gpu` reads the objects of a remote peer into two pools of
buffers in turn and scatters each micro-batch into the KV cache while the next
one is read.  The reads are put on the channel's transport stream with an event,
or made by the host when the channel cannot submit them; the scatters are put on
the load stream.  The model writes down the commands that the host issues
(`Lib.Cmd`); when they run is the device's choice (`Lib.Schedule`).

A command may raise, before it took effect or after (`Env`).  The proxies of a
call belong to one backend and share its channel; each has a key and so an
object of its own, named by its place among the proxies of the call.
-/

namespace RemotePull

open Lib List

/-! ## Objects -/

/-- What a `ProxyMemoryObj` says of its remote object. -/
structure Proxy where
  ctx : Nat
  targetPeerUrl : String
  remoteBufferUuid : String
  remoteMemIndex : Nat
deriving DecidableEq, Repr

/-- A memory object of a batch; `P` is what is known of a proxy. -/
inductive MemoryObj (P : Type)
  | proxy (p : P)
  | plain (id : Nat)
deriving DecidableEq, Repr

/-- An object and the tokens that it is for. -/
structure Item (P : Type) where
  obj : MemoryObj P
  start : Nat
  stop : Nat
deriving DecidableEq, Repr

structure ProxyItemOf (P : Type) where
  idx : Nat
  proxy : P
  start : Nat
  stop : Nat
deriving DecidableEq, Repr

abbrev ProxyItem := ProxyItemOf Proxy

/-- A buffer of `pool_a` or of `pool_b` (`true`). -/
structure Buffer where
  pool : Bool
  idx : Nat
deriving DecidableEq, Repr

/-- A proxy with its backing object. -/
structure Backed where
  item : ProxyItem
  buffer : Buffer
deriving DecidableEq, Repr

/-- One object of a batched read. -/
structure Transfer where
  item : Nat
  receiverId : String
  bufferUuid : String
  memIndex : Nat
  buffer : Buffer
deriving DecidableEq, Repr

/-- A channel with `submit_batched_read` and a transport stream, or one without. -/
inductive Channel
  | submits
  | synchronous
deriving DecidableEq, Repr

/-- The allocator of a transfer context. -/
structure Allocator where
  alignBytes : Nat
  bufferSize : Nat
deriving DecidableEq, Repr

/-- Both backends give their contexts an allocator. -/
structure Call where
  items : List (Item Proxy)
  channel : Channel
  allocator : Allocator
deriving DecidableEq, Repr

section

variable {P : Type}

def Item.proxy? (item : Item P) : Option (P × Nat × Nat) :=
  match item.obj with
  | .proxy p => some (p, item.start, item.stop)
  | .plain _ => none

def Item.plain? (item : Item P) : Option (Nat × Nat × Nat) :=
  match item.obj with
  | .proxy _ => none
  | .plain id => some (id, item.start, item.stop)

def proxyItems (items : List (Item P)) : List (ProxyItemOf P) :=
  (items.filterMap Item.proxy?).mapIdx fun idx e => ⟨idx, e.1, e.2.1, e.2.2⟩

end

/-- `max_pipeline_depth`; four without an allocator. -/
def maxPipelineDepth : Option Allocator → Nat
  | none => 4
  | some a => max (a.bufferSize / (a.alignBytes * 2)) 1

def Call.depth (c : Call) : Nat := maxPipelineDepth (some c.allocator)

def Call.microBatches (c : Call) : List (List ProxyItem) := slices c.depth (proxyItems c.items)

/-! ## Commands -/

inductive Stream
  | transport
  | load
deriving DecidableEq, Repr

/-- The event of a read, or one of `pool_scatter_events`. -/
inductive Event
  | read (batch : Nat)
  | scatter (pool : Bool)
deriving DecidableEq, Repr

inductive Op
  | allocate (pool : Bool)
  | read (transfers : List Transfer)
  | scatter (item start stop : Nat) (buffer : Buffer)
  | scatterPlain (id start stop : Nat)
  | release (pool : Bool)
  | done (ctx : Nat)
deriving DecidableEq, Repr

abbrev Command := Cmd Stream Event Op

inductive Answer
  | returns
  | raisesBefore
  | raisesAfter
deriving DecidableEq, Repr

/-- Whether an operation raises after those issued so far. -/
abbrev EnvOf (O : Type) := List O → O → Answer

/-- What a call leaves behind: the operations it issued, its pools, the proxies marked consumed,
and the contexts whose Done was sent. -/
structure PullOf (O : Type) where
  trace : List O
  pools : Bool → Option (List Buffer)
  consumed : List Nat
  doneSent : List Nat

inductive Raised
  | command
  | index
  | assertion (message : String)
  | attribute
deriving DecidableEq, Repr

section

variable {O : Type}

def PullOf.init (doneSent : List Nat) : PullOf O :=
  { trace := [], pools := fun _ => none, consumed := [], doneSent := doneSent }

def PullOf.push (s : PullOf O) (op : O) : PullOf O := { s with trace := s.trace ++ [op] }

def emit (env : EnvOf O) (op : O) : Prog Raised (PullOf O) PUnit := do
  let s ← get
  match env s.trace op with
  | .returns => modify fun s => s.push op
  | .raisesBefore => throw .command
  | .raisesAfter => do
    modify fun s => s.push op
    throw .command

def onlyIf (c : Prop) [Decidable c] (p : Prog Raised (PullOf O) PUnit) :
    Prog Raised (PullOf O) PUnit :=
  if c then p else pure ⟨⟩

theorem preserves_onlyIf {R : PullOf O → PullOf O → Prop} [IsPreorder (PullOf O) R] {q : Prop}
    [Decidable q] {p : Prog Raised (PullOf O) PUnit} (hp : q → Preserves R p) :
    Preserves R (onlyIf q p) := by
  unfold onlyIf
  split
  · next h => exact hp h
  · exact .pure _

/-- `allocate_buffers`, issued as `op`; without memory it raises and there is no pool. -/
def allocateBuffers (env : EnvOf O) (op : O) (pool : Bool) (count : Nat) :
    Prog Raised (PullOf O) (List Buffer) := do
  let s ← get
  match env s.trace op with
  | .returns => do
    let buffers := (range count).map (Buffer.mk pool)
    modify fun s => { s.push op with
      pools := fun b => if b = pool then some buffers else s.pools b }
    pure buffers
  | _ => throw .command

/-- `release_buffers` of a pool that was allocated. -/
def releasePool (env : EnvOf O) (op : O) (pool : Bool) : Prog Raised (PullOf O) PUnit := do
  let s ← get
  onlyIf ((s.pools pool).isSome) (emit env op)

/-- `send_done_now`: once for a context; what sending raises is caught. -/
def sendDoneNow (op : Nat → O) (ctx : Nat) : Prog Raised (PullOf O) PUnit := do
  let s ← get
  onlyIf (ctx ∉ s.doneSent)
    (modify fun s => { s.push (op ctx) with doneSent := s.doneSent ++ [ctx] })

end

abbrev Env := EnvOf Command

abbrev Pull := PullOf Command

abbrev PullM := Prog Raised Pull

/-! ## The pipeline -/

/-- `proxy.set_backing_obj(pool[i])` for each proxy of the batch. -/
def setBackingObjs (pool : List Buffer) (batch : List ProxyItem) : PullM (List Backed) :=
  if batch.length ≤ pool.length then pure (batch.zipWith Backed.mk pool) else throw .index

/-- `_collect_batch_read_args`: the receiver of the spec is the first proxy's. -/
def collectBatchReadArgs (batch : List Backed) : List Transfer :=
  match batch with
  | [] => []
  | first :: _ => batch.map fun b =>
    ⟨b.item.idx, first.item.proxy.targetPeerUrl, b.item.proxy.remoteBufferUuid,
      b.item.proxy.remoteMemIndex, b.buffer⟩

/-- `submit_resolve_batch`; the event of a submitted read. -/
def submitResolveBatch (env : Env) (channel : Channel) (batchIdx : Nat) (batch : List Backed) :
    PullM (Option Event) :=
  match channel with
  | .submits => do
    emit env (.launch .transport (.read (collectBatchReadArgs batch)))
    emit env (.record (.read batchIdx) .transport)
    pure (some (.read batchIdx))
  | .synchronous => do
    emit env (.call (.read (collectBatchReadArgs batch)))
    pure none

/-- `_scatter_proxy_batch`. -/
def scatterProxyBatch (env : Env) (batch : List Backed) (event : Option Event) :
    PullM PUnit := do
  match event with
  | some e => emit env (.wait .load e)
  | none => pure ⟨⟩
  batch.forM fun b =>
    emit env (.launch .load (.scatter b.item.idx b.item.start b.item.stop b.buffer))

/-- The loop over the micro-batches and the drain. -/
def pingPong (env : Env) (channel : Channel) (pools : Bool → List Buffer) :
    List (List ProxyItem) → Nat → Bool → (Bool → Bool) → Option (List Backed × Option Event) →
    PullM PUnit
  | [], _, _, _, none => pure ⟨⟩
  | [], _, _, _, some (prevBatch, prevReadEvent) => scatterProxyBatch env prevBatch prevReadEvent
  | batch :: rest, batchIdx, currentPool, recorded, prev => do
    onlyIf (recorded currentPool = true ∧ channel = .submits)
      (emit env (.wait .transport (.scatter currentPool)))
    let backed ← setBackingObjs (pools currentPool) batch
    let curReadEvent ← submitResolveBatch env channel batchIdx backed
    match prev with
    | some (prevBatch, prevReadEvent) => do
      scatterProxyBatch env prevBatch prevReadEvent
      emit env (.record (.scatter !currentPool) .load)
      pingPong env channel pools rest (batchIdx + 1) (!currentPool)
        (fun b => if b = !currentPool then true else recorded b) (some (backed, curReadEvent))
    | none =>
      pingPong env channel pools rest (batchIdx + 1) (!currentPool) recorded
        (some (backed, curReadEvent))

/-- The `try` block. -/
def pullProxies (env : Env) (c : Call) : PullM PUnit := do
  let poolSize := min c.depth (proxyItems c.items).length
  let poolA ← allocateBuffers env (.call (.allocate false)) false poolSize
  let poolB ← allocateBuffers env (.call (.allocate true)) true poolSize
  pingPong env c.channel (fun b => if b then poolB else poolA) c.microBatches 0 false
    (fun _ => false) none

/-! ## The clean-up -/

def contexts (c : Call) : List Nat := ((proxyItems c.items).map (·.proxy.ctx)).dedup

/-- The `finally` block. -/
def cleanUp (env : Env) (c : Call) : PullM PUnit := do
  emit env (.sync .load)
  releasePool env (.call (.release false)) false
  releasePool env (.call (.release true)) true
  modify fun s => { s with consumed := s.consumed ++ (proxyItems c.items).map (·.idx) }
  (contexts c).forM (sendDoneNow fun ctx => .call (.done ctx))

def caught (p : PullM PUnit) : PullM (Option Raised) :=
  tryCatch (do p; pure none) fun e => pure (some e)

def reraise : Option Raised → PullM PUnit
  | some e => throw e
  | none => pure ⟨⟩

/-- `_remote_batched_to_gpu`. -/
def remoteBatchedToGpu (env : Env) (c : Call) : PullM PUnit := do
  onlyIf (proxyItems c.items ≠ []) do
    let raised ← caught (pullProxies env c)
    cleanUp env c
    reraise raised
  (c.items.filterMap Item.plain?).forM fun e =>
    emit env (.launch .load (.scatterPlain e.1 e.2.1 e.2.2))

/-! ## One operation -/

section

variable {O : Type} {env : EnvOf O} {op : O} {s : PullOf O}

theorem wp_emit {Q : Except Raised PUnit → PullOf O → Prop}
    (hok : Q (.ok ⟨⟩) (s.push op))
    (hbefore : env s.trace op = .raisesBefore → Q (.error .command) s)
    (hafter : env s.trace op = .raisesAfter → Q (.error .command) (s.push op)) :
    wp (emit env op) Q s := by
  unfold emit
  rw [wp_get_bind]
  cases hanswer : env s.trace op with
  | returns => exact hok
  | raisesBefore => exact hbefore hanswer
  | raisesAfter => exact hafter hanswer

theorem wp_emit_returns {Q : Except Raised PUnit → PullOf O → Prop}
    (h : env s.trace op = .returns) : wp (emit env op) Q s ↔ Q (.ok ⟨⟩) (s.push op) := by
  unfold emit
  rw [wp_get_bind, h]
  rfl

theorem wp_allocateBuffers {pool : Bool} {count : Nat}
    {Q : Except Raised (List Buffer) → PullOf O → Prop}
    (hreturns : ∀ f, env s.trace op = .returns →
      Q (.ok ((range count).map (Buffer.mk pool))) { s.push op with pools := f })
    (hraises : env s.trace op ≠ .returns → Q (.error .command) s) :
    wp (allocateBuffers env op pool count) Q s := by
  unfold allocateBuffers
  rw [wp_get_bind]
  cases hanswer : env s.trace op with
  | returns => exact hreturns _ hanswer
  | raisesBefore | raisesAfter => exact hraises fun h => nomatch hanswer.symm.trans h

end

end RemotePull
