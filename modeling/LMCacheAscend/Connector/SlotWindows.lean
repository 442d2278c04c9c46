import LMCacheAscend.Lib.Dict
import LMCacheAscend.Lib.Prog

/-!
# Slot windows of the store paths

`batched_from_gpu` and `batched_from_gpu_group` of `npu_connectors.py`: which row
of the paged cache is copied into which token of which chunk's host object.  The
slots of a store are a window of `slot_mapping` that starts at token
`slot_mapping_base`, and each path cuts the chunks out of it itself.

The bank DMA of prefill nodes reads no slot mapping and has no part here.  The
kernel that finds a packed token's chunk on the device is a parameter
(`DenseKernel`), and so are the checks of a mapping's slots.
-/

namespace SlotWindows

open Lib List

/-! ## Data -/

inductive StoreError
  | valueError (message : String)
  | runtimeError (message : String)
  | assertionError
deriving DecidableEq, Repr

/-- A chunk's tokens; `store_layer` skips a chunk that has none. -/
structure ChunkRange where
  start : Int
  stop : Int
  nonempty : start < stop
deriving DecidableEq, Repr

def ChunkRange.size (r : ChunkRange) : Nat := (r.stop - r.start).toNat

/-- The row of `layer` at `slot` is copied to a token of a chunk's host object. -/
structure RowCopy where
  chunk : Nat
  token : Nat
  layer : Nat
  slot : Int
deriving DecidableEq, Repr

/-- The connector and its layout of the KV group: `prefillNode` is `_layerwise_prefill_dma`,
`denseDisabled` is `_DENSE_DIRECT_STORE_DISABLE`, `groupDisabled` is
`_DENSE_DIRECT_GROUP_STORE_DISABLE`, and `check` is `_check_layerwise_transfer_invariants`. -/
structure Connector where
  kvGroup : Nat
  prefillNode : Bool
  mlaDsa : Bool
  denseDisabled : Bool
  groupDisabled : Bool
  useGpu : Bool
  indexerC8 : Bool
  layers : Nat
  check : List Int → Except StoreError Unit

/-- What is sent for a layer of a deferred store: a mapping and its base. -/
structure LayerRequest where
  mapping : Nat
  base : Int
deriving DecidableEq, Repr

/-- `maps` has the slots of the mapping tensors by their identity. -/
structure Args where
  maps : Nat → List Int
  mapping : Nat
  base : Int
  ranges : List ChunkRange
  deferredPut : Bool
  requests : Nat → Option LayerRequest

def Args.slots (a : Args) : List Int := a.maps a.mapping

/-! ## Chunks of a mapping -/

variable (m : List Int) (base : Int) (ranges : List ChunkRange) (kvGroup layer : Nat)

/-- `slot_mapping[a:b]`, for bounds that are not negative. -/
def slice (a b : Int) : List Int := (m.take b.toNat).drop a.toNat

/-- The chunk is outside the window. -/
def Outside (r : ChunkRange) : Prop :=
  r.start - base < 0 ∨ r.stop - base < r.start - base ∨ (m.length : Int) < r.stop - base

instance (m : List Int) (base : Int) (r : ChunkRange) : Decidable (Outside m base r) := by
  unfold Outside; infer_instance

/-- The text that the messages of all paths share. -/
def windowText (r : ChunkRange) : String :=
  s!"chunk=[{r.start}, {r.stop}), base={base}, mapping_tokens={m.length}"

def localText (r : ChunkRange) : String :=
  s!", local_chunk=[{r.start - base}, {r.stop - base})"

def storeMessage (r : ChunkRange) : String :=
  "Layerwise store chunk is outside the provided slot-mapping window: " ++
    windowText m base r ++ localText base r

def transferMessage (r : ChunkRange) : String :=
  "Layerwise transfer chunk is outside the provided slot-mapping window: " ++
    windowText m base r ++ localText base r

def groupMessage (r : ChunkRange) : String :=
  "Layerwise group store chunk is outside the provided slot-mapping window: " ++
    windowText m base r

/-- The loop over the chunks, which each path has with a message of its own. -/
def windowChunks (message : List Int → Int → ChunkRange → String) (m : List Int) (base : Int)
    (ranges : List ChunkRange) : Except StoreError (List (List Int)) :=
  ranges.mapM fun r =>
    if Outside m base r then .error (.valueError (message m base r))
    else .ok (slice m (r.start - base) (r.stop - base))

/-- One chunk as it is, or all of them concatenated. -/
def catChunks : List (List Int) → Except StoreError (List Int)
  | [] => .error (.runtimeError "torch.cat(): expected a non-empty list of Tensors")
  | [chunk] => .ok chunk
  | chunks => .ok chunks.flatten

def Contiguous : Prop := ranges.IsChain fun r s => r.stop = s.start

instance (ranges : List ChunkRange) : Decidable (Contiguous ranges) := by
  unfold Contiguous; infer_instance

/-- What `_slice_layerwise_slot_mapping` makes of the chunks. -/
def fullMapping (allowView : Bool) (ranges : List ChunkRange) : List (List Int) → List Int
  | [] => []
  | [chunk] => chunk
  | chunks =>
    match ranges with
    | [] => chunks.flatten
    | first :: rest =>
      -- a view of the mapping, where the chunks follow each other
      if allowView = true ∧ Contiguous ranges then
        slice m (first.start - base) (((first :: rest).getLast (cons_ne_nil _ _)).stop - base)
      else chunks.flatten

abbrev Mapped := List (List Int) × List Int

/-- `_slice_layerwise_slot_mapping`. -/
def sliceLayerwiseSlotMapping (base : Int) (allowView : Bool) : Except StoreError Mapped := do
  let chunks ← windowChunks transferMessage m base ranges
  pure (chunks, fullMapping m base allowView ranges chunks)

/-! ## The store -/

/-- `copies` are those submitted so far, and `slotMappings` is the cache of a deferred store. -/
structure Transfer where
  copies : List RowCopy
  slotMappings : Dict (Nat × Int) Mapped

abbrev Store := Prog StoreError Transfer

def Transfer.init : Transfer := { copies := [], slotMappings := Dict.empty }

def ensure (ok : Prop) [Decidable ok] (e : StoreError) : Except StoreError Unit :=
  if ok then .ok () else .error e

def submit (rows : List RowCopy) : Store Unit :=
  modify fun s => { s with copies := s.copies ++ rows }

/-- `_cached_layerwise_slot_mapping`; its last result says that the mapping is new. -/
def cachedLayerwiseSlotMapping (a : Args) (cached : Bool) (mapping : Nat) (base : Int) :
    Store (Mapped × Bool) := do
  if cached then
    let s ← get
    match s.slotMappings.get? (mapping, base) with
    | some known => pure (known, false)
    | none =>
      let new ← call (sliceLayerwiseSlotMapping (a.maps mapping) a.ranges base true)
      modify fun s => { s with slotMappings := s.slotMappings.set (mapping, base) new }
      pure (new, true)
  else
    let new ← call (sliceLayerwiseSlotMapping (a.maps mapping) a.ranges base false)
    pure (new, true)

/-! ### Chunk metadata of the dense direct kernel -/

inductive ChunkMeta
  /-- All chunks but the last have this size. -/
  | fixed (size : Nat)
  | listed (offsets sizes : List Nat)
deriving DecidableEq, Repr

/-- `chunk_sizes`. -/
def chunkSizes : List Nat := ranges.map ChunkRange.size

/-- `chunk_offsets`. -/
def chunkOffsets : Nat → List Nat → List Nat
  | _, [] => []
  | offset, size :: sizes => offset :: chunkOffsets (offset + size) sizes

def sizeError (idx size : Nat) : StoreError :=
  .valueError ("Dense direct layerwise transfer chunk size must be positive: " ++
    s!"kv_group={kvGroup} chunk_idx={idx} size={size}")

def contiguousError (idx offset expected : Nat) : StoreError :=
  .valueError ("Dense direct layerwise transfer chunks must be contiguous: " ++
    s!"kv_group={kvGroup} chunk_idx={idx} offset={offset} expected={expected}")

def coverError (covered total : Nat) : StoreError :=
  .valueError ("Dense direct layerwise transfer chunk metadata does not cover the slot mapping: " ++
    s!"kv_group={kvGroup} covered_tokens={covered} total_tokens={total}")

def lengthError (offsets sizes : Nat) : StoreError :=
  .valueError ("Dense direct layerwise transfer chunk metadata mismatch: " ++
    s!"offsets={offsets} sizes={sizes}")

def firstOffsetError (first : Nat) : StoreError :=
  .valueError ("Dense direct layerwise transfer chunk offsets must start at 0: " ++
    s!"kv_group={kvGroup} first_offset={first}")

/-- The loop of `_prepare_dense_direct_chunk_metadata`: the tokens covered, and whether the layout
is fixed. -/
def checkChunks (kvGroup fixedSize : Nat) :
    Nat → Nat → Bool → List (Nat × Nat) → Except StoreError (Nat × Bool)
  | _, expected, fixedLayout, [] => .ok (expected, fixedLayout)
  | idx, expected, fixedLayout, (offset, size) :: rest =>
    if size = 0 then .error (sizeError kvGroup idx size)
    else if offset ≠ expected then .error (contiguousError kvGroup idx offset expected)
    else
      checkChunks kvGroup fixedSize (idx + 1) (expected + size)
        (fixedLayout && if rest.isEmpty then decide (size ≤ fixedSize) else size == fixedSize) rest

/-- `_prepare_dense_direct_chunk_metadata`. -/
def prepareDenseDirectChunkMetadata (offsets sizes : List Nat) (totalTokens : Nat) :
    Except StoreError ChunkMeta :=
  match offsets, sizes with
  | first :: _, fixedSize :: _ => do
    ensure (offsets.length = sizes.length) (lengthError offsets.length sizes.length)
    ensure (first = 0) (firstOffsetError kvGroup first)
    let (covered, fixedLayout) ←
      checkChunks kvGroup fixedSize 0 0 (decide (0 < fixedSize)) (offsets.zip sizes)
    ensure (covered = totalTokens) (coverError kvGroup covered totalTokens)
    pure (if fixedLayout then .fixed fixedSize else .listed offsets sizes)
  | _, _ =>
    throw (.valueError "Dense direct layerwise transfer requires at least one CPU chunk.")

/-! ### Kernels -/

/-- Where the device kernel puts a packed token: its chunk, of this many, and the token in it. -/
structure DenseKernel where
  place : ChunkMeta → Nat → Nat → Option (Nat × Nat)

/-- What is documented of the kernel: the chunk that has the token, by a division where all chunks
but the last have one size, else by the offsets of the chunks, which lie one behind the other. -/
structure DenseKernel.Documented (K : DenseKernel) : Prop where
  fixed : ∀ size n i, 0 < size → i / size < n →
    K.place (.fixed size) n i = some (i / size, i % size)
  listed : ∀ sizes n i j o size, (chunkOffsets 0 sizes)[j]? = some o → sizes[j]? = some size →
    j < n → o ≤ i → i < o + size →
      K.place (.listed (chunkOffsets 0 sizes) sizes) n i = some (j, i - o)

/-- A packed mapping, one kernel for all chunks. -/
def denseRows (K : DenseKernel) (info : ChunkMeta) (chunks layer : Nat) (full : List Int) :
    List RowCopy :=
  full.zipIdx.filterMap fun x => (K.place info chunks x.2).map fun p => ⟨p.1, p.2, layer, x.1⟩

/-- The rows of a chunk's own mapping, in their order. -/
def rowsOfChunk (chunk : Nat) (slots : List Int) : List RowCopy :=
  slots.zipIdx.map fun x => ⟨chunk, x.2, layer, x.1⟩

/-- `batched_fused_single_layer_kv_transfer`: all rows are gathered in the staging buffer, and each
chunk is copied from its offset there. -/
def stagedRows (offsets sizes : List Nat) (full : List Int) : List RowCopy :=
  (offsets.zip sizes).zipIdx.flatMap fun x =>
    rowsOfChunk layer x.2 ((full.drop x.1.1).take x.1.2)

/-- One kernel per chunk. -/
def perChunkRows (chunks : List (List Int)) : List RowCopy :=
  chunks.zipIdx.flatMap fun x => rowsOfChunk layer x.2 x.1

/-! ### Ordinary and deferred stores -/

section

variable (K : DenseKernel) (c : Connector) (a : Args)

/-- `deferred_layerwise_put`. -/
def deferred : Bool := c.prefillNode && a.deferredPut

/-- `dense_direct`. -/
def Connector.denseDirect : Bool := c.mlaDsa && !c.denseDisabled

/-- One kernel per layer that reads packed mappings. -/
def Connector.packed : Bool := c.denseDirect || c.indexerC8

/-- The mapping that a store begins with. -/
def initialMapping : Store Mapped := do
  if c.prefillNode then
    let x ← cachedLayerwiseSlotMapping a (deferred c a) a.mapping a.base
    pure x.1
  else
    let chunks ← call (windowChunks storeMessage a.slots a.base a.ranges)
    let full ← call (catChunks chunks)
    pure (chunks, full)

/-- `_resolve_layerwise_slot_mapping` of what was sent for a layer. -/
def layerRequest (layer : Nat) : Option LayerRequest :=
  if deferred c a then a.requests layer else none

def negativeBase (base : Int) : StoreError :=
  .valueError s!"slot_mapping_base must be non-negative, got {base}"

def countError (layer expected actual : Nat) : StoreError :=
  .runtimeError ("Layerwise store changed transfer token count: " ++
    s!"layer={layer}, expected={expected}, actual={actual}")

/-- The mapping of a layer; one that was sent for it takes the place of the first. -/
def layerMapping (initial : Mapped) (layer : Nat) : Store Mapped :=
  match layerRequest c a layer with
  | none => pure initial
  | some request => do
    call (ensure (0 ≤ request.base) (negativeBase request.base))
    let (mapped, new) ← cachedLayerwiseSlotMapping a true request.mapping request.base
    if new then
      call (ensure (mapped.2.length = initial.2.length)
        (countError layer initial.2.length mapped.2.length))
      call (c.check mapped.2)
      pure mapped
    else pure mapped

/-- The copies of a layer, by `_run_dense_direct_kv_transfer_layer` for packed mappings. -/
def transferLayer (info : ChunkMeta) (mapped : Mapped) (layer : Nat) : Store Unit :=
  if c.packed then
    if deferred c a = true ∧ c.denseDirect = false then throw .assertionError
    else if mapped.2.length = 0 then pure ()
    else if deferred c a = true ∧ c.indexerC8 = true then
      throw (.runtimeError "Deferred C8 requires prepared bank FIFO packets")
    else submit (denseRows K info a.ranges.length layer mapped.2)
  else if c.useGpu then
    submit (stagedRows layer (chunkOffsets 0 (chunkSizes a.ranges)) (chunkSizes a.ranges) mapped.2)
  else if c.prefillNode then submit (perChunkRows layer mapped.1)
  else submit (perChunkRows layer (a.ranges.map fun r => slice a.slots r.start r.stop))

/-- The metadata that the packed kernels get; the others get none. -/
def chunkMeta (totalTokens : Nat) : Except StoreError ChunkMeta :=
  if c.packed then
    prepareDenseDirectChunkMetadata c.kvGroup (chunkOffsets 0 (chunkSizes a.ranges))
      (chunkSizes a.ranges) totalTokens
  else .ok (.fixed 0)

/-- `batched_from_gpu`. -/
def batchedFromGpu : Store Unit := do
  call (ensure (0 ≤ a.base) (negativeBase a.base))
  call (ensure (c.denseDirect = true ∨ c.mlaDsa = false ∨ c.useGpu = true)
    (.valueError ("MLA/DSA layerwise transfer requires use_gpu=True with a staging buffer when " ++
      "dense direct store is disabled.")))
  let initial ← initialMapping c a
  call (c.check initial.2)
  let info ← call (chunkMeta c a initial.2.length)
  (range c.layers).forM fun layer => do
    let mapped ← layerMapping c a initial layer
    transferLayer K c a info mapped layer

/-! ### Group stores -/

/-- The intervals of `prepare_group_capture` are not empty and lie one behind the other. -/
def captureIntervals (offsets sizes : List Nat) (slots : Nat) : Prop :=
  offsets.head? = some 0 ∧ (∀ size ∈ sizes, 0 < size) ∧ offsets = chunkOffsets 0 sizes ∧
    sizes.sum = slots ∧ slots ≠ 0

instance (offsets sizes : List Nat) (slots : Nat) :
    Decidable (captureIntervals offsets sizes slots) := by
  unfold captureIntervals; infer_instance

/-- The metadata of the one kernel for all layers. -/
def groupMeta (slots : Nat) : Except StoreError ChunkMeta :=
  let sizes := chunkSizes a.ranges
  let offsets := chunkOffsets 0 sizes
  if c.indexerC8 then do
    ensure (captureIntervals offsets sizes slots)
      (.valueError "Checkpoint capture requires contiguous resident intervals")
    pure (.listed offsets sizes)
  else prepareDenseDirectChunkMetadata c.kvGroup offsets sizes slots

/-- `batched_from_gpu_group`. -/
def batchedFromGpuGroup : Store Unit := do
  call (ensure (0 ≤ a.base) (negativeBase a.base))
  call (ensure (c.denseDirect = true ∧ c.groupDisabled = false)
    (.valueError ("Dense direct group store requires an MLA/DSA layout and an enabled " ++
      "dense-direct store path.")))
  let chunks ← call (windowChunks groupMessage a.slots a.base a.ranges)
  call (ensure (chunks ≠ [])
    (.valueError "Dense direct group store requires at least one chunk."))
  let full ← call (catChunks chunks)
  call (c.check full)
  let info ← call (groupMeta c a full.length)
  submit ((range c.layers).flatMap fun layer =>
    denseRows K info a.ranges.length layer full)

end

end SlotWindows
