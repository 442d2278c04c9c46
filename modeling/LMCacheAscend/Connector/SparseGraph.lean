import LMCacheAscend.Lib.Machine
import LMCacheAscend.Lib.Prog
import LMCacheAscend.Lib.Slices

/-!
# Sparse graph source tables

`SparseGraphTransfer` of `sparse_graph.py`: the pointer table of one layer,
`2 × (lanes * capacity)` words, and one token limit per lane.  `bindBatch` is a
program over the table; pointers and limits are the machine words of the tensors
they are stored in, token counts and byte sizes are Python integers.

A source comes from outside with `validated_chunk_size` set only if its chunks
were checked against it (`Sealed`), and its pointer pairs are none or what
`prepare_source_pointer_pairs` made of it (`Producible`).
-/

namespace SparseGraph

open Lib List

/-! ## Data -/

abbrev Pointer := BitVec 64

inductive GraphError
  | valueError (message : String)
  | indexError
  | runtimeError
deriving DecidableEq, Repr

inductive DType
  | int64 | float16 | bfloat16 | float32 | other
deriving DecidableEq, Repr

/-- `layer.chunk_ptrs_npu`. -/
structure ChunkPointers where
  ndim : Nat
  dtype : DType
  isContiguous : Bool
  device : Nat
  entries : List Pointer
deriving DecidableEq, Repr

/-- `(k_bytes, pairs)`, a row of `pairs[0]` and of `pairs[1]` for each layer. -/
structure PointerPairs where
  kBytes : Int
  first : List (List Pointer)
  second : List (List Pointer)
deriving DecidableEq, Repr

structure PreparedSparseSource where
  chunkTokenCounts : List Int
  totalTokens : Int
  layers : List ChunkPointers
  validatedChunkSize : Option Int
  graphPointerPairs : Option PointerPairs
deriving DecidableEq, Repr

/-- `xs[i]`, which counts from the end for a negative `i`. -/
def item? {α : Type} (xs : List α) (i : Int) : Option α :=
  if 0 ≤ i then xs[i.toNat]?
  else if 0 ≤ i + xs.length then xs[(i + xs.length).toNat]? else none

/-- `counts[-1]` of a list that is not empty. -/
def lastCount (counts : List Int) : Int := counts.getLastD 0

/-! ## Pointer pairs -/

/-- The addresses of the second planes: a whole first plane after each chunk pointer, the
tail's own length after the last one. -/
def secondRow (counts : List Int) (chunkSize kBytes : Int) (row : List Pointer) : List Pointer :=
  let second := row.map (· + BitVec.ofInt 64 (chunkSize * kBytes))
  if lastCount counts ≠ chunkSize then
    second.modify (row.length - 1)
      (· + BitVec.ofInt 64 ((lastCount counts - chunkSize) * kBytes))
  else second

variable (source : PreparedSparseSource) (g : GraphTransfer)

/-- `allocated` is false where the table of pairs does not fit in memory. -/
def prepareSourcePointerPairs (chunkSize kBytes : Int) (allocated : Bool) :
    Except GraphError PreparedSparseSource :=
  if source.graphPointerPairs.isSome || source.validatedChunkSize != some chunkSize then
    .ok source
  else if source.chunkTokenCounts = [] then .ok source
  else if !allocated then .ok source
  else
    let rows := source.layers.map ChunkPointers.entries
    -- `torch.stack` takes rows of one length only
    if rows.Pairwise fun r s => r.length = s.length then
      let second := rows.map (secondRow source.chunkTokenCounts chunkSize kBytes)
      .ok { source with graphPointerPairs := some ⟨kBytes, rows, second⟩ }
    else .error .runtimeError

/-! ## Sources -/

/-- Whole chunks of `chunkSize` tokens and a tail. -/
structure Contiguous (chunkSize : Int) (counts : List Int) : Prop where
  nonempty : counts ≠ []
  whole : ∀ n ∈ counts.dropLast, n = chunkSize
  tail : 0 < lastCount counts ∧ lastCount counts ≤ chunkSize

instance (chunkSize : Int) (counts : List Int) : Decidable (Contiguous chunkSize counts) :=
  decidable_of_iff (counts ≠ [] ∧ (∀ n ∈ counts.dropLast, n = chunkSize) ∧
      (0 < lastCount counts ∧ lastCount counts ≤ chunkSize))
    ⟨fun h => ⟨h.1, h.2.1, h.2.2⟩, fun h => ⟨h.nonempty, h.whole, h.tail⟩⟩

/-- What a set `validated_chunk_size` says of a source. -/
def Sealed : Prop :=
  ∀ c, source.validatedChunkSize = some c → source.chunkTokenCounts ≠ [] →
    Contiguous c source.chunkTokenCounts

/-- A source as it was built, or after any calls of `prepareSourcePointerPairs`. -/
inductive Producible : PreparedSparseSource → Prop
  | built {source : PreparedSparseSource} : Sealed source → source.graphPointerPairs = none →
      Producible source
  | prepared {source source' : PreparedSparseSource} {chunkSize kBytes : Int} {allocated : Bool} :
      Producible source →
      prepareSourcePointerPairs source chunkSize kBytes allocated = .ok source' →
      Producible source'

/-- A source that a caller can hold. -/
structure GraphSource where
  source : PreparedSparseSource
  producible : Producible source

/-! ## Transfers -/

structure KVCache where
  shape : List Nat
  dtype : DType
  elementSize : Nat
  device : Nat
deriving Repr

/-- The sizes of a `SparseGraphTransfer`; they never change after `__init__`. -/
structure GraphTransfer where
  chunkSize : Int
  maxTokens : Int
  requestCapacity : Nat
  kBytes : Int
  device : Nat
  chunkSize_pos : 0 < chunkSize
  maxTokens_pos : 0 < maxTokens
  requestCapacity_pos : 0 < requestCapacity
  addressable : requestCapacity * ((maxTokens + chunkSize - 1) / chunkSize) * chunkSize < 2 ^ 31

/-- Chunks of one lane. -/
def GraphTransfer.capacity : Nat :=
  ((g.maxTokens + g.chunkSize - 1) / g.chunkSize).toNat

/-- `ptrs` by plane and `valid_tokens`. -/
structure Table where
  first : List Pointer
  second : List Pointer
  validTokens : List (BitVec 32)
deriving DecidableEq, Repr

def GraphTransfer.zeros : Table :=
  { first := replicate (g.requestCapacity * g.capacity) 0,
    second := replicate (g.requestCapacity * g.capacity) 0,
    validTokens := replicate g.requestCapacity 0 }

theorem toNat_pos {n : Int} (h : 0 < n) : 0 < n.toNat := by omega

theorem toNat_mul_lt {n a b m : Int} (h : 0 < n) (hlt : n * a * b < m) : n.toNat * a * b < m := by
  rwa [Int.toNat_of_nonneg (Int.le_of_lt h)]

/-- `__init__`. -/
def GraphTransfer.new (kvCaches : List KVCache) (chunkSize maxTokens requestCapacity : Int) :
    Except GraphError GraphTransfer :=
  if h : 0 < chunkSize ∧ 0 < maxTokens then
    match kvCaches with
    | [k, pe] =>
      if k.shape.length ≠ 4 ∨ pe.shape.length ≠ 4 then
        .error (.valueError "Full graph requires unbundled paged K/PE caches")
      else if pe.dtype ≠ k.dtype then .error (.valueError "K and PE must have the same dtype")
      else if hr : 0 < requestCapacity ∧
          requestCapacity * ((maxTokens + chunkSize - 1) / chunkSize) * chunkSize < 2 ^ 31 then
        .ok { chunkSize := chunkSize, maxTokens := maxTokens,
              requestCapacity := requestCapacity.toNat,
              kBytes := k.shape.getD 2 0 * k.shape.getD 3 0 * k.elementSize, device := k.device,
              chunkSize_pos := h.1, maxTokens_pos := h.2, requestCapacity_pos := toNat_pos hr.1,
              addressable := toNat_mul_lt hr.1 hr.2 }
      else .error (.valueError "Graph request capacity exceeds int32 token addressing")
    | _ => .error (.valueError "Full graph requires unbundled paged K/PE caches")
  else .error (.valueError "chunk_size and max_tokens must be positive")

/-! ## Binding -/

abbrev Bind := Prog GraphError Table

def raiseIf (c : Prop) [Decidable c] (e : GraphError) : Bind Unit := if c then throw e else pure ()

/-- `source.layers[layer_id]`. -/
def layerAt (layerId : Int) : Bind ChunkPointers :=
  match item? source.layers layerId with
  | some layer => pure layer
  | none => throw .indexError

/-- `_validate_source`. -/
def GraphTransfer.validateSource (source : PreparedSparseSource) (layerId : Int) : Bind Unit := do
  let counts := source.chunkTokenCounts
  raiseIf (counts = [] ∨ g.capacity < counts.length ∨
      ¬(0 < source.totalTokens ∧ source.totalTokens ≤ g.maxTokens) ∨
      (source.validatedChunkSize ≠ some g.chunkSize ∧
        ((∃ n ∈ counts.dropLast, n ≠ g.chunkSize) ∨
          ¬(0 < lastCount counts ∧ lastCount counts ≤ g.chunkSize) ∨
          counts.sum < source.totalTokens)))
    (.valueError "Full graph source is not a contiguous bounded chunk prefix")
  let layer ← layerAt source layerId
  raiseIf (layer.ndim ≠ 1 ∨ layer.dtype ≠ .int64 ∨ layer.isContiguous = false)
    (.valueError "Source pointer table must be contiguous int64")
  raiseIf (layer.entries.length ≠ counts.length)
    (.valueError "Source pointer table and physical chunk lengths differ")
  raiseIf (layer.device ≠ g.device) (.valueError "Source pointer table is on the wrong device")

/-- `self.ptrs[:, start:end].copy_(...)`, both rows of one length. -/
def copyPtrs (start stop : Nat) (first second : List Pointer) : Bind Unit :=
  if first.length = stop - start ∧ second.length = stop - start then
    modify fun t => { t with first := writeSlice t.first start first,
                             second := writeSlice t.second start second }
  else throw .runtimeError

/-- `self.ptrs[:, start:end].zero_()`. -/
def zeroPtrs (start stop : Nat) : Bind Unit :=
  copyPtrs start stop (replicate (stop - start) 0) (replicate (stop - start) 0)

/-- `self.valid_tokens[lane].fill_(tokens)`. -/
def fillTokens (lane : Nat) (tokens : Int) : Bind Unit :=
  modify fun t => { t with validTokens := t.validTokens.set lane (BitVec.ofInt 32 tokens) }

/-- `sources[lane] if lane < len(sources) else None`. -/
def sourceAt (sources : List (Option PreparedSparseSource)) (lane : Nat) :
    Option PreparedSparseSource :=
  (sources[lane]?).join

/-- Entries that an earlier, longer source left after `stop`. -/
def GraphTransfer.clearTail (delta : Bool) (lane count : Nat) : Bind Unit :=
  let start := lane * g.capacity
  if delta && count < g.capacity then zeroPtrs (start + count) (start + g.capacity) else pure ()

/-- `self.ptrs[1, end - 1 : end].add_(...)` for a tail chunk. -/
def GraphTransfer.shiftTail (counts : List Int) (stop : Nat) : Bind Unit :=
  let shift := BitVec.ofInt 64 ((lastCount counts - g.chunkSize) * g.kBytes)
  if lastCount counts ≠ g.chunkSize then
    modify fun t => { t with second := t.second.modify (stop - 1) (· + shift) }
  else pure ()

/-- The body of the second loop of `bind_batch`; `delta` where `lanes` was given. -/
def GraphTransfer.bindLane (delta : Bool) (layerId : Int) (lane : Nat) :
    Option PreparedSparseSource → Bind Unit
  | none =>
    if delta then do
      zeroPtrs (lane * g.capacity) ((lane + 1) * g.capacity)
      fillTokens lane 0
    else pure ()
  | some source => do
    let counts := source.chunkTokenCounts
    let layer ← layerAt source layerId
    let start := lane * g.capacity
    let stop := start + counts.length
    g.clearTail delta lane counts.length
    match source.graphPointerPairs.filter fun pairs => pairs.kBytes = g.kBytes with
    | some pairs =>
      match item? pairs.first layerId, item? pairs.second layerId with
      | some first, some second =>
        copyPtrs start stop first second
        fillTokens lane source.totalTokens
      | _, _ => throw .indexError
    | none =>
      -- `ptrs[0]`, the sum into `ptrs[1]`, and the last entry of `ptrs[1]` corrected
      copyPtrs start stop layer.entries
        (layer.entries.map (· + BitVec.ofInt 64 (g.chunkSize * g.kBytes)))
      g.shiftTail counts stop
      fillTokens lane source.totalTokens

def GraphTransfer.bindBatch (sources : List (Option PreparedSparseSource)) (layerId : Int)
    (lanes : Option (List Int)) : Bind Unit := do
  raiseIf (g.requestCapacity < sources.length)
    (.valueError "Graph sources exceed request capacity")
  raiseIf (∃ ls ∈ lanes, ¬ls.Nodup ∨ ∃ i ∈ ls, ¬(0 ≤ i ∧ i < (g.requestCapacity : Int)))
    (.valueError "Invalid or duplicate graph source lane")
  let selected := match lanes with
    | none => range sources.length
    | some ls => ls.map Int.toNat
  selected.forM fun lane => match sourceAt sources lane with
    | some source => g.validateSource source layerId
    | none => pure ()
  if lanes.isNone then modify fun _ => g.zeros
  selected.forM fun lane => g.bindLane lanes.isSome layerId lane (sourceAt sources lane)

end SparseGraph
