import Mathlib.Data.List.Basic

/-!
# The lists of a layerwise store result

`store_layer` fills the lists of a `LayerwiseStoreResult`: the chunks it stores,
the keys and memory objects of each layer, and, layer by layer, the tensors and
pointers that sparse loads need.  Here is what its helpers do to them.
-/

namespace StoreLayer

open List

/-- `page` says that it is a `LayerPageMemoryObj`, which holds all layers of a chunk. -/
structure MemoryObj where
  id : Nat
  page : Bool
deriving DecidableEq, Repr

/-- A chunk key of one layer. -/
structure LayerKey where
  chunkHash : Nat
  layer : Nat
deriving DecidableEq, Repr

/-- The part of a memory object that belongs to a layer: its tensor, or a pointer to it. -/
structure LayerView where
  obj : MemoryObj
  layer : Nat
deriving DecidableEq, Repr

structure CacheLists where
  keys : List (List LayerKey)
  starts : List Nat
  ends : List Nat
  memoryObjs : List (List MemoryObj)
  tensors : List (List LayerView)
  chunkDevPtrs : List (List LayerView)
  chunkPtrs : List (Option (List LayerView))
deriving DecidableEq, Repr

namespace CacheLists

/-- The lists of a new result. -/
def empty : CacheLists :=
  { keys := [], starts := [], ends := [], memoryObjs := [], tensors := [], chunkDevPtrs := [],
    chunkPtrs := [] }

/-- Rows for all layers, where there are none yet. -/
def openRows {α : Type} (layers : Nat) (empty : α) (rows : List α) : List α :=
  if rows = [] then replicate layers empty else rows

/-- `while len(rows) <= layer: rows.append(..)`. -/
def padRows {α : Type} (layer : Nat) (empty : α) (rows : List α) : List α :=
  rows ++ replicate (layer + 1 - rows.length) empty

/-! ## Full-chunk successors -/

/-- Where a cached partial chunk starts like a new longer one. -/
def replaceAt (starts ends newStarts newEnds : List Nat) : Option Nat :=
  (newStarts.zip newEnds).findSome? fun new =>
    (starts.zip ends).findIdx? fun old => decide (old.1 = new.1 ∧ old.2 < new.2)

variable (c : CacheLists)

/-- The chunks from `k` on are deleted. -/
def truncate (k : Nat) : CacheLists :=
  { keys := c.keys.map (List.take k)
    starts := c.starts.take k
    ends := c.ends.take k
    memoryObjs := c.memoryObjs.map (List.take k)
    tensors := c.tensors.map (List.take k)
    chunkDevPtrs := c.chunkDevPtrs.map (List.take k)
    chunkPtrs := c.chunkPtrs.map (Option.map (List.take k)) }

/-- `_truncate_store_cache_for_full_chunk_successor`. -/
def truncateForSuccessor (newStarts newEnds : List Nat) : CacheLists :=
  match replaceAt c.starts c.ends newStarts newEnds with
  | none => c
  | some k => c.truncate k

/-! ## Layer tensors and pointers -/

def extendRow {α : Type} (rows : List (List α)) (layer : Nat) (xs : List α) : List (List α) :=
  rows.modify layer (· ++ xs)

/-- `append_sparse_chunk_ptr_cache_for_layer`, once the pointers are resolved. -/
def appendPointers (layers layer : Nat) (views : List LayerView) : CacheLists :=
  if views = [] then c
  else
    { c with
      chunkDevPtrs := extendRow (padRows layer [] (openRows layers [] c.chunkDevPtrs)) layer views
      chunkPtrs := (padRows layer none (openRows layers none c.chunkPtrs)).modify layer fun row =>
        some (row.getD [] ++ views) }

/-- Whether `_append_layer_store_tensors` keeps tensors for these objects: there are some already,
or none of the objects is a page. -/
def keepsTensors (objs : List MemoryObj) : Bool :=
  c.tensors.any (fun row => !row.isEmpty) || !objs.any MemoryObj.page

def appendTensors (layer : Nat) (views : List LayerView) : CacheLists :=
  { c with tensors := extendRow (padRows layer [] c.tensors) layer views }

/-! ## Clean-up -/

/-- `_remove_pending_layerwise_store_objs`. -/
def removePending (pending : List MemoryObj) : CacheLists :=
  { c with memoryObjs := c.memoryObjs.map fun row => row.filter fun obj => obj ∉ pending }

end CacheLists

end StoreLayer
