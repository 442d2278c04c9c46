import LMCacheAscend.Lib.Prog
import LMCacheAscend.StoreLayer.Lists

/-!
# `store_layer`

The generator `store_layer` of `cache_engine.py` as a program.  A suspension
point is an event of its run; what its caller does there, and what the
allocators, the storage and the connector answer, are given with the call
(`Env`), so a call may be closed at any suspension point and any other step may
raise.  The events of a run are logged.

The references that a prefill request keeps for itself, the frontiers and the
diagnostics have no part here.  What closing the connector's generator raises is
swallowed.
-/

namespace StoreLayer

open Lib List

/-! ## Data -/

inductive Exc
  | generatorExit
  | stopIteration
  | assertionError
  | indexError
  | typeError (message : String)
  | valueError (message : String)
  | runtimeError (message : String)
  | exception (message : String)
deriving DecidableEq, Repr

/-- What is put of a chunk of the batch: its object, and the layers that are in it. -/
structure PutItem where
  obj : MemoryObj
  chunk : Nat
  layers : List Nat
deriving DecidableEq, Repr

/-- What the connector has done with a layer: it has submitted its copies, or says that it has read
its device source. -/
inductive Copy
  | launch (layer : Nat)
  | sourceDone (layer : Nat)
deriving DecidableEq, Repr

inductive Event
  /-- A suspension point; the last one delivers the result. -/
  | suspend (result : Bool)
  | alloc (obj : MemoryObj)
  /-- `ref_count_down`. -/
  | release (obj : MemoryObj)
  /-- The storage takes over the objects. -/
  | put (items : List PutItem)
  | copy (c : Copy)
deriving DecidableEq, Repr

/-- What the connector's generator yields. -/
inductive Report
  | nothing
  | layer (layer : Nat)
  | other
deriving DecidableEq, Repr

/-- One resumption of the connector's generator. -/
inductive Resumption
  | yields (copies : List Copy) (report : Report)
  | raises (copies : List Copy) (e : Exc)

abbrev Answer := Except Exc (Option Nat)

/-- A chunk `(start, end, key)` of the plan, with what is answered for it: whether it is stored
already, and how many objects an allocation returns. -/
structure Candidate where
  start : Nat
  stop : Nat
  chunkHash : Nat
  stored : Except Exc Bool
  page : Answer
  storedLegacy : Except Exc Bool
  flat : Answer
  shapes : List Answer

/-- The engine: `forceLayerwise` is `_force_layerwise_prefill_store`, which is the connector's
`_layerwise_prefill_dma` for layerwise stores; `pageStore` says that layers are merged into pages,
which is a page-first layout (`pageFirst`). -/
structure Config where
  forceLayerwise : Bool
  pageFirst : Bool
  pageStore : Bool
  merged : pageStore = true → pageFirst = true
  mixedIndexer : Bool
  asyncSupported : Bool
  mooncakeRemote : Bool
  remoteStore : Bool
  chunkSize : Nat

/-- A call, and all that is answered in it; `resume` has what the caller does at each suspension
point. -/
structure Env where
  deferredPut : Bool
  windowedSave : Bool
  groupWanted : Bool
  healthy : Bool
  passive : Bool
  frozen : Bool
  engineLayers : Nat
  connectorLayers : Option Nat
  detectedLayers : Option Nat
  kvcaches : Option Nat
  resume : Nat → Except Exc Unit
  plan : Except Exc (List Candidate)
  bulk : Answer
  prepare : Except Exc Unit
  groupStore : Except Exc Unit
  generator : List Resumption
  tensors : Nat → Except Exc Unit
  putLayer : Nat → Except Exc Unit
  fences : Except Exc Unit
  reserve : Except Exc Unit
  fill : Except Exc Unit
  putPages : Except Exc Unit
  putFlat : Except Exc Unit

/-- `pending` is `pending_store_release`, `generator` is what is left of the connector's generator,
and `lists` are those of the result. -/
structure Run where
  events : List Event
  nextId : Nat
  pending : List MemoryObj
  generator : List Resumption
  lists : CacheLists

def Run.init : Run :=
  { events := [], nextId := 0, pending := [], generator := [], lists := CacheLists.empty }

abbrev Store := Prog Exc Run

def log (events : List Event) : Store Unit :=
  modify fun s => { s with events := s.events ++ events }

def Event.isSuspend : Event → Bool
  | .suspend _ => true
  | _ => false

/-! ## Layers -/

/-- `_num_layers_for_kv_group`. -/
def numLayersForKvGroup (engineLayers : Nat) (connectorLayers : Option Nat) : Except Exc Nat :=
  match connectorLayers with
  | none => .ok engineLayers
  | some layers =>
    if layers ≠ engineLayers then
      .error (.valueError ("NPU connector group layout disagrees with the engine group " ++
        s!"cardinality: connector={layers} engine={engineLayers}"))
    else .ok layers

/-- `_num_transfer_layers_for_call`. -/
def numTransferLayersForCall (engineLayers : Nat) (connectorLayers kvcaches : Option Nat) :
    Except Exc Nat := do
  let layers ← numLayersForKvGroup engineLayers connectorLayers
  match kvcaches with
  | none => pure layers
  | some count =>
    if count ≠ layers then
      throw (.valueError ("Layerwise transfer cardinality mismatch: " ++
        s!"resolved_layers={layers} kvcaches_layers={count}"))
    else pure layers

section

variable (cfg : Config) (env : Env)

/-- `deferred_layerwise_put`. -/
def deferred : Bool := cfg.forceLayerwise && env.deferredPut

/-! ## Suspension points -/

def suspendWith (result : Bool) : Store Unit := do
  let s ← get
  log [.suspend result]
  call (env.resume (s.events.countP Event.isSuspend))

/-- `yield`. -/
def pause : Store Unit := suspendWith env false

/-- `yield store_result`. -/
def deliver : Store Unit := suspendWith env true

variable (layers : Nat) (batch : List BatchChunk)

/-- The suspension points of a call that transfers nothing. -/
def idle : Store Unit := do
  if deferred cfg env then do
    pause env
    (range layers).forM fun _ => do
      pause env
      pause env
  else (range layers).forM fun _ => pause env

/-! ## Allocation -/

/-- New objects. -/
def allocate (page : Bool) (count : Nat) : Store (List MemoryObj) := do
  let s ← get
  let objs := (range count).map fun i => (⟨s.nextId + i, page⟩ : MemoryObj)
  modify fun s => { s with nextId := s.nextId + count, events := s.events ++ objs.map .alloc }
  pure objs

/-- What an allocation returns. -/
def answer (page : Bool) (a : Answer) : Store (Option (List MemoryObj)) := do
  match ← call a with
  | none => pure none
  | some count => do
    let objs ← allocate page count
    pure (some objs)

def release (objs : List MemoryObj) : Store Unit := log (objs.map .release)

/-- The values of `{id(item): item}`. -/
def uniqueObjs : List MemoryObj → List MemoryObj
  | [] => []
  | obj :: objs => obj :: (uniqueObjs objs).filter (· ≠ obj)

/-- The loop over the plan: the chunks that are not stored yet. -/
def pendingChunks : List Candidate → Store (List Candidate)
  | [] => pure []
  | x :: rest => do
    if ← call x.stored then pendingChunks rest
    else if x.stop ≤ x.start then pendingChunks rest
    else do
      let rest ← pendingChunks rest
      pure (x :: rest)

def wrongPageCount : Exc := .runtimeError "Layer-page allocation returned wrong page count"

/-- `page_batch`: the pages of all chunks. -/
def allocateBatch (chunks : Nat) : Store (Option (List MemoryObj)) := do
  if cfg.pageStore = true ∧ chunks ≠ 0 then
    match ← answer true env.bulk with
    | none => pure none
    | some pages =>
      if pages.length ≠ chunks then do
        release pages
        throw wrongPageCount
      else pure (some pages)
  else pure none

/-- The page of one chunk; without one, this and the later chunks are flat. -/
def singlePage (legacySuffix : Bool) (x : Candidate) : Store (Option (List MemoryObj) × Bool) := do
  if cfg.pageStore = true ∧ legacySuffix = false then
    match ← answer true x.page with
    | none => pure (none, true)
    | some [page] => pure (some (replicate layers page), legacySuffix)
    | some pages => do
      release pages
      throw wrongPageCount
  else pure (none, legacySuffix)

/-- The objects of a mixed indexer, shape by shape. -/
def shapeObjs (layers : Nat) (objs : List MemoryObj) : List Answer → Store (List MemoryObj)
  | [] => pure objs
  | a :: rest => do
    match ← tryCatch (answer false a) fun e => do
      if objs.length ≠ layers then release objs
      throw e with
    | none => pure objs
    | some new => shapeObjs layers (objs ++ new) rest

/-- One flat object for each layer. -/
def flatObjs (x : Candidate) : Store (Option (List MemoryObj)) := do
  if cfg.mixedIndexer then do
    let objs ← shapeObjs layers [] x.shapes
    if objs.length ≠ layers then do
      release objs
      pure none
    else pure (some objs)
  else answer false x.flat

/-- A chunk with its objects, one for each layer. -/
abbrev BatchChunk := Candidate × List MemoryObj

def cacheFull : Exc :=
  .runtimeError "Layerwise prefill CPU cache is full while request is active"

def layerCountError (got expected : Nat) : Exc :=
  .runtimeError s!"Layerwise store allocation layer count mismatch: got {got}, expected {expected}"

/-- `None` for a chunk: a prefill store gives back what it has, another one stores that. -/
def allocationFailed (acc : List BatchChunk) : Store (List BatchChunk) := do
  if cfg.forceLayerwise then do
    release (uniqueObjs (acc.flatMap Prod.snd))
    throw cacheFull
  else pure acc

/-- The loop over the pending chunks, each with its page if there is one for all of them. -/
def allocateChunks (layers : Nat) :
    Bool → List BatchChunk → List (Candidate × Option MemoryObj) → Store (List BatchChunk)
  | _, acc, [] => pure acc
  | legacySuffix, acc, (x, some page) :: rest =>
    allocateChunks layers legacySuffix (acc ++ [(x, replicate layers page)]) rest
  | legacySuffix, acc, (x, none) :: rest => do
    let (pages, legacySuffix) ← singlePage cfg layers legacySuffix x
    match pages with
    | some objs => allocateChunks layers legacySuffix (acc ++ [(x, objs)]) rest
    | none =>
      if ← (if legacySuffix then call x.storedLegacy else pure false) then
        allocateChunks layers legacySuffix acc rest
      else
        match ← flatObjs cfg layers x with
        | none => allocationFailed cfg acc
        | some objs =>
          if objs.length ≠ layers then throw (layerCountError objs.length layers)
          else allocateChunks layers legacySuffix (acc ++ [(x, objs)]) rest

/-- The pending chunks with their objects. -/
def allocateAll (pending : List Candidate) : Store (List BatchChunk) := do
  match ← allocateBatch cfg env pending.length with
  | some pages => allocateChunks cfg layers false [] (pending.zip (pages.map some))
  | none => allocateChunks cfg layers false [] (pending.map fun x => (x, none))

/-! ## Result lists -/

/-- `memory_objs[layer]`. -/
def rowOf (layer : Nat) : List MemoryObj :=
  batch.filterMap fun x => x.2[layer]?

/-- `cache_chunk_indices`. -/
def cacheChunkIndices : Option (List Nat) :=
  if env.windowedSave then
    some ((range batch.length).filter fun i =>
      match batch[i]? with
      | some x => decide (x.1.start % cfg.chunkSize = 0 ∧ x.1.stop - x.1.start = cfg.chunkSize)
      | none => false)
  else none

/-- The chunks that the lists get. -/
def selected : List BatchChunk :=
  match cacheChunkIndices cfg env batch with
  | none => batch
  | some indices => indices.filterMap fun i => batch[i]?

def setLists (f : CacheLists → CacheLists) : Store Unit :=
  modify fun s => { s with lists := f s.lists }

/-- `_append_layerwise_store_cache_chunks`. -/
def appendCacheChunks : Store Unit := do
  setLists fun c => { c with
    starts := c.starts ++ batch.map fun x => x.1.start
    ends := c.ends ++ batch.map fun x => x.1.stop
    keys := CacheLists.openRows layers [] c.keys }
  let s ← get
  if s.lists.keys.length ≠ layers then throw .assertionError
  else do
    setLists fun c => { c with
      keys := c.keys.zipWith (· ++ ·)
        ((range layers).map fun l => batch.map fun x => ⟨x.1.chunkHash, l⟩)
      memoryObjs := CacheLists.openRows layers [] c.memoryObjs }
    let s ← get
    if s.lists.memoryObjs.length ≠ layers then throw .assertionError
    else setLists fun c => { c with
      memoryObjs := c.memoryObjs.zipWith (· ++ ·) ((range layers).map (rowOf batch))
      tensors := CacheLists.openRows layers [] c.tensors }

/-- The publication of the chunks, before the transfer. -/
def publishChunks : Store Unit := do
  let chosen := selected cfg env batch
  if env.windowedSave then
    setLists fun c => c.truncateForSuccessor (chosen.map fun x => x.1.start)
      (chosen.map fun x => x.1.stop)
  appendCacheChunks layers chosen

/-- `_append_layer_store_tensors`, and one layer of `_append_group_store_tensors`. -/
def appendLayerStoreTensors (layer : Nat) : Store Unit := do
  let objs := rowOf (selected cfg env batch) layer
  let views := objs.map fun obj => (⟨obj, layer⟩ : LayerView)
  call (env.tensors layer)
  setLists fun c =>
    let c' := c.appendPointers layers layer views
    if c.keepsTensors objs then c'.appendTensors layer views else c'

/-! ## Puts -/

/-- The storage has taken the objects. -/
def handOver (items : List PutItem) : Store Unit :=
  modify fun s => { s with
    events := s.events ++ [.put items]
    pending := s.pending.filter fun obj => obj ∉ items.map PutItem.obj }

/-- The objects of a layer, chunk after chunk. -/
def layerItems (layer : Nat) : List PutItem :=
  batch.zipIdx.filterMap fun x => (x.1.2[layer]?).map fun obj => ⟨obj, x.2, [layer]⟩

/-- `batched_put` of a layer. -/
def putLayer (batch : List BatchChunk) (layer : Nat) : Store Unit := do
  call (env.putLayer layer)
  handOver (layerItems batch layer)

/-- `publish_completed_layer`. -/
def publishCompletedLayer (layer : Nat) : Store Unit := do
  if layers ≤ layer then throw .indexError
  else do
    appendLayerStoreTensors cfg env layers batch layer
    if cfg.pageFirst then pure ()
    else putLayer env batch layer

/-- The merged pages of a batch. -/
def pageItems : List PutItem :=
  batch.zipIdx.filterMap fun x => match x.1.2 with
    | obj :: _ => if obj.page then some ⟨obj, x.2, range layers⟩ else none
    | [] => none

/-- The flat objects of a batch, layer after layer. -/
def flatItems : List PutItem :=
  (range layers).flatMap fun layer =>
    (layerItems batch layer).filter fun item => !item.obj.page

/-- `async_layerwise_store`. -/
def asyncStore : Bool := deferred cfg env && cfg.asyncSupported

/-- `async_pages`. -/
def asyncPages : Bool :=
  cfg.forceLayerwise && cfg.pageStore && cfg.mooncakeRemote &&
    (asyncStore cfg env || (rowOf batch 0).all MemoryObj.page)

/-- A put, if there is something to put. -/
def putSome (r : Except Exc Unit) (items : List PutItem) : Store Unit := do
  if items ≠ [] then do
    call r
    handOver items
  else pure ()

/-- The puts of a page-first store.  The flat objects of a page store are given up only when they
are tracked, which does not raise. -/
def putPageFirst : Store Unit := do
  -- `memory_objs[0]`
  call (if cfg.pageStore = true ∧ layers = 0 then .error .indexError else .ok ())
  call (if asyncPages cfg env batch then env.reserve else .ok ())
  call (if cfg.forceLayerwise && cfg.remoteStore then env.fill else .ok ())
  if cfg.pageStore then do
    putSome env.putPages (pageItems layers batch)
    putSome env.putFlat (flatItems layers batch)
  else do
    call env.putFlat
    handOver ((range layers).flatMap (layerItems batch))

/-! ## The transfer -/

/-- `next(mem_obj_generator)`, or `send`. -/
def advance : Store Report := do
  let s ← get
  match s.generator with
  | [] => throw .stopIteration
  | .yields copies report :: rest => do
    modify fun s => { s with events := s.events ++ copies.map .copy, generator := rest }
    pure report
  | .raises copies e :: _ => do
    modify fun s => { s with events := s.events ++ copies.map .copy, generator := [] }
    throw e

/-- A layer that the connector reports is published; `persisted` are those reported before. -/
def persist (persisted : List Nat) : Report → Store (List Nat)
  | .nothing => pure persisted
  | .other => throw (.typeError
      "Deferred layerwise NPU connector must yield a completed layer index or None")
  | .layer layer =>
    if layer ∈ persisted then
      throw (.runtimeError
        s!"Layerwise NPU source completion was reported twice: layer={layer}")
    else do
      publishCompletedLayer cfg env layers batch layer
      pure (persisted ++ [layer])

/-- The saves of a deferred store, with a suspension point before and after each publication. -/
def deferredSaves (layers : Nat) (batch : List BatchChunk) : Nat → List Nat → Store (List Nat)
  | 0, persisted => pure persisted
  | turns + 1, persisted => do
    let report ← advance
    pause env
    let persisted ← persist cfg env layers batch persisted report
    pause env
    deferredSaves layers batch turns persisted

/-- The drain of the connector, for as many turns as its generator has. -/
def drain (layers : Nat) (batch : List BatchChunk) : Nat → List Nat → Store Unit
  | 0, _ => pure ()
  | turns + 1, persisted => do
    if persisted.length < layers then do
      let report ← tryCatch advance fun e => match e with
        | .stopIteration => throw (.runtimeError
            "Layerwise NPU connector ended before all source buffers completed")
        | e => throw e
      let persisted ← persist cfg env layers batch persisted report
      drain layers batch turns persisted
    else pure ()

/-- The last `next` of a deferred store; the generator may end there. -/
def finish : Store Unit := do
  let _ ← tryCatch advance fun e => match e with
    | .stopIteration => pure .nothing
    | e => throw e

def deferredStore : Store Unit := do
  pause env
  let persisted ← deferredSaves cfg env layers batch layers []
  let s ← get
  drain cfg env layers batch (s.generator.length + 1) persisted
  finish

def normalStore : Store Unit :=
  (range layers).forM fun layer => do
    pause env
    let _ ← advance
    publishCompletedLayer cfg env layers batch layer

/-- `batched_from_gpu`. -/
def generatorStore : Store Unit := do
  modify fun s => { s with generator := env.generator }
  let _ ← advance
  if deferred cfg env then deferredStore cfg env layers batch
  else normalStore cfg env layers batch

/-- `use_group_store`. -/
def useGroupStore : Bool :=
  env.groupWanted && (match cacheChunkIndices cfg env batch with
    | none => true
    | some indices => indices == range batch.length)

/-- `batched_from_gpu_group`, which waits for its copies. -/
def groupStore (layers : Nat) (batch : List BatchChunk) : Store Unit := do
  if deferred cfg env then throw (.runtimeError
    "Deferred layerwise prefill save does not support the decode-window group-store path")
  else do
    (range layers).forM fun _ => pause env
    call env.groupStore
    log ((range layers).map (fun l => .copy (.launch l)) ++
      (range layers).map fun l => .copy (.sourceDone l))
    (range layers).forM fun layer => appendLayerStoreTensors cfg env layers batch layer
    if cfg.pageFirst then pure ()
    else (range layers).forM fun layer => putLayer env batch layer

def copyOut : Store Unit :=
  if useGroupStore cfg env batch then groupStore cfg env layers batch
  else generatorStore cfg env layers batch

/-- The body of the `try`. -/
def transferBody : Store Unit := do
  copyOut cfg env layers batch
  call env.fences
  if cfg.pageFirst then putPageFirst cfg env layers batch
  else pure ()

/-- Its `finally`. -/
def cleanUp : Store Unit := do
  let s ← get
  setLists fun c => c.removePending s.pending
  release s.pending
  modify fun s => { s with pending := [] }

def transfer : Store Unit := do
  call env.prepare
  modify fun s => { s with pending := uniqueObjs (batch.flatMap Prod.snd) }
  publishChunks cfg env layers batch
  finally_ (transferBody cfg env layers batch) cleanUp

/-! ## The generator -/

def storeBatch : Store Unit := do
  let layers ← call (numTransferLayersForCall env.engineLayers env.detectedLayers env.kvcaches)
  let candidates ← call env.plan
  let pending ← pendingChunks candidates
  let batch ← allocateAll cfg env layers pending
  if batch = [] then idle cfg env layers
  else transfer cfg env layers batch
  deliver env

/-- `store_layer`. -/
def storeLayer : Store Unit := do
  let layers ← call (numLayersForKvGroup env.engineLayers env.connectorLayers)
  if env.healthy = false ∨ env.passive = true ∨ env.frozen = true then do
    idle cfg env layers
    deliver env
  else storeBatch cfg env

end

end StoreLayer
