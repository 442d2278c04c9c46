import LMCacheAscend.Lib.Machine
import LMCacheAscend.Lib.Regions

/-!
# The first-fit allocator of MindSpore buffers

`NumpyAndTensorMemoryAllocator` cuts objects off the first free block that is large
enough, one (`allocate`) or several of one size (`batched_allocate`).  What it takes
from its base class, the aligned size and the return of a region, is in its `Config`.
-/

namespace MindSporeMemory

open Lib List

/-! ## Blocks -/

structure FreeBlock where
  start : Nat
  size : Nat
deriving DecidableEq, Repr

def FreeBlock.region (b : FreeBlock) : Nat × Nat := (b.start, b.size)

/-- The order of `explicit_list`. -/
def Sorted (blocks : List FreeBlock) : Prop := blocks.Pairwise fun a b => a.start ≤ b.start

/-- `SortedList.add`: after the blocks with the same start. -/
def addBlock (b : FreeBlock) : List FreeBlock → List FreeBlock
  | [] => [b]
  | a :: blocks => if b.start < a.start then b :: a :: blocks else a :: addBlock b blocks

/-- The first block that is large enough, and the list without the part that is taken. -/
def firstFit (blocks : List FreeBlock) (need : Nat) : Option (FreeBlock × List FreeBlock) :=
  (blocks.find? fun block => decide (need ≤ block.size)).map fun block =>
    let rest := blocks.erase block
    (block, if need < block.size then
      addBlock ⟨block.start + need, block.size - need⟩ rest else rest)

/-! ## Objects -/

/-- A slice of the buffer. -/
structure Slice where
  offset : Nat
  length : Nat
deriving DecidableEq, Repr

/-- `buffer[a:b]`; a slice ends with the buffer. -/
def slice (bufferSize a b : Nat) : Slice :=
  ⟨min a bufferSize, min b bufferSize - min a bufferSize⟩

/-- `get_itemsize` may give no number for a type. -/
structure DType where
  name : String
  itemsize : Option Nat
deriving DecidableEq, Repr

def numel (shape : List Nat) : Nat := shape.prod

structure MemoryObjMetadata where
  shape : List Nat
  dtype : DType
  address : Nat
  phySize : Nat
  refCount : Nat
  isPin : Bool
  fmt : String
deriving DecidableEq, Repr

/-- This allocator, or the one that the caller names. -/
inductive Parent
  | this
  | named (allocator : Option Nat)
deriving DecidableEq, Repr

structure MemoryObj where
  rawData : Slice
  metadata : MemoryObjMetadata
  parentAllocator : Parent
deriving DecidableEq, Repr

def MemoryObj.region (o : MemoryObj) : Nat × Nat := (o.metadata.address, o.metadata.phySize)

/-- The elements of the raw data are bytes. -/
def MemoryObj.getSize (o : MemoryObj) : Nat := o.rawData.length

structure TensorView where
  rawData : Slice
  dtype : DType
  shape : List Nat
deriving DecidableEq, Repr

/-- A view has whole elements and as many as the shape; one of a torch tensor starts at a multiple of
the element size. -/
def viewAndShape (isTorch : Bool) (rawData : Slice) (dtype : DType) (shape : List Nat) :
    Option TensorView :=
  dtype.itemsize.bind fun item =>
    if rawData.length % item = 0 ∧ rawData.length / item = numel shape ∧
      (isTorch = true → rawData.offset % item = 0) then some ⟨rawData, dtype, shape⟩
    else none

def MemoryObj.tensor (o : MemoryObj) (isTorch : Bool) : Option TensorView :=
  viewAndShape isTorch o.rawData o.metadata.dtype o.metadata.shape

/-! ## The allocator -/

inductive Exc
  | assertionError (msg : String)
  | typeError
  | valueError (msg : String)
deriving DecidableEq, Repr

structure Config where
  bufferSize : Nat
  isTorch : Bool
  alignBytes : Nat
  computeAlignedSize : Nat → Nat → Nat
  /-- A region goes back to the free blocks. -/
  returnRegion : List FreeBlock → FreeBlock → List FreeBlock

structure Allocator where
  explicitList : List FreeBlock
  numActiveAllocations : Nat
  totalAllocatedSize : Nat
  /-- The objects that have not been freed. -/
  live : List MemoryObj

variable (cfg : Config)

def Allocator.new : Allocator := ⟨[⟨0, cfg.bufferSize⟩], 0, 0, []⟩

def computeRawSize (shape : List Nat) (item : Nat) : Nat := numel shape * item

def Config.alignedSize (raw : Nat) : Nat :=
  if raw % cfg.alignBytes ≠ 0 then cfg.computeAlignedSize raw cfg.alignBytes else raw

/-- The object of `allocate` at an address. -/
def Config.objectAt (shape : List Nat) (dtype : DType) (item : Nat) (fmt : String)
    (address : Nat) : MemoryObj :=
  let rawSize := computeRawSize shape item
  { rawData := slice cfg.bufferSize address (address + rawSize)
    metadata := ⟨shape, dtype, address, cfg.alignedSize rawSize, 1, false, fmt⟩
    parentAllocator := .this }

/-- The type and its item size, which both functions ask for first. -/
def itemsizeOf : Option DType → Except Exc (DType × Nat)
  | none => .error (.assertionError "dtype must be specified")
  | some dtype => match dtype.itemsize with
    | none => .error .typeError
    | some item => .ok (dtype, item)

def allocate (s : Allocator) (shape : List Nat) (dtype : Option DType) (fmt : String) :
    Except Exc (Option MemoryObj) × Allocator :=
  match itemsizeOf dtype with
  | .error e => (.error e, s)
  | .ok (dtype, item) =>
    let alignedSize := cfg.alignedSize (computeRawSize shape item)
    match firstFit s.explicitList alignedSize with
    | none => (.ok none, s)
    | some (block, blocks) =>
      let obj := cfg.objectAt shape dtype item fmt block.start
      (.ok (some obj), {
        explicitList := blocks
        numActiveAllocations := s.numActiveAllocations + 1
        totalAllocatedSize := s.totalAllocatedSize + alignedSize
        live := s.live ++ [obj] })

/-- Slices of these lengths, one after the other. -/
def cut (offset : Nat) : List Nat → List Slice
  | [] => []
  | length :: lengths => ⟨offset, length⟩ :: cut (offset + length) lengths

/-- `np.array_split`: the first sections are one longer if it does not divide. -/
def arraySplit (data : Slice) (sections : Nat) : List Slice :=
  let each := data.length / sections
  let extras := data.length % sections
  cut data.offset (replicate extras (each + 1) ++ replicate (sections - extras) each)

/-- The objects of a batch, from `temp_start` on. -/
def batchObjects (shape : List Nat) (dtype : DType) (fmt : String) (parent : Parent)
    (unitAlignedSize : Nat) : Nat → List Slice → List MemoryObj
  | _, [] => []
  | tempStart, rawData :: rawDatas =>
    ⟨rawData, ⟨shape, dtype, tempStart, unitAlignedSize, 1, false, fmt⟩, parent⟩ ::
      batchObjects shape dtype fmt parent unitAlignedSize (tempStart + unitAlignedSize) rawDatas

def batchedAllocate (s : Allocator) (shape : List Nat) (dtype : Option DType) (batchSize : Nat)
    (fmt : String) (parentAllocator : Option Nat) :
    Except Exc (Option (List MemoryObj)) × Allocator :=
  match itemsizeOf dtype with
  | .error e => (.error e, s)
  | .ok (dtype, item) =>
    let unitAlignedSize := cfg.alignedSize (computeRawSize shape item)
    let totalAlignedSize := unitAlignedSize * batchSize
    match firstFit s.explicitList totalAlignedSize with
    | none => (.ok none, s)
    | some (block, blocks) =>
      let s' : Allocator := {
        explicitList := blocks
        numActiveAllocations := s.numActiveAllocations + batchSize
        totalAllocatedSize := s.totalAllocatedSize + totalAlignedSize
        live := s.live }
      if batchSize = 0 then
        (.error (.valueError "number sections must be larger than 0."), s')
      else
        let rawDatas := arraySplit
          (slice cfg.bufferSize block.start (block.start + totalAlignedSize)) batchSize
        let objs := batchObjects shape dtype fmt (.named parentAllocator) unitAlignedSize
          block.start rawDatas
        (.ok (some objs), { s' with live := s.live ++ objs })

/-- `free` of the base class; an object that has been freed stays so. -/
def free (s : Allocator) (o : MemoryObj) : Allocator :=
  if o ∈ s.live then
    { explicitList := cfg.returnRegion s.explicitList ⟨o.metadata.address, o.metadata.phySize⟩
      numActiveAllocations := s.numActiveAllocations - 1
      totalAllocatedSize := s.totalAllocatedSize - o.metadata.phySize
      live := s.live.erase o }
  else s

/-! ## Runs -/

inductive Action
  | allocate (shape : List Nat) (dtype : Option DType) (fmt : String)
  | batchedAllocate (shape : List Nat) (dtype : Option DType) (batchSize : Nat) (fmt : String)
      (parentAllocator : Option Nat)
  | free (o : MemoryObj)

def step (s : Allocator) : Action → Option Allocator
  | .allocate shape dtype fmt => some (allocate cfg s shape dtype fmt).2
  | .batchedAllocate shape dtype batchSize fmt parentAllocator =>
    some (batchedAllocate cfg s shape dtype batchSize fmt parentAllocator).2
  | .free o => some (free cfg s o)

/-- Any sequence of calls. -/
def machine : Machine Allocator Action := ⟨fun s => s = Allocator.new cfg, step cfg⟩

/-! ## The base class -/

/-- What is relied on of the base class. -/
structure Config.Documented : Prop where
  align : 0 < cfg.alignBytes
  /-- The aligned size is a multiple that is no smaller. -/
  aligned : ∀ raw, raw ≤ cfg.computeAlignedSize raw cfg.alignBytes ∧
    cfg.alignBytes ∣ cfg.computeAlignedSize raw cfg.alignBytes
  /-- A region that is apart from the free blocks becomes free, and nothing else. -/
  returns : ∀ blocks b, Sorted blocks →
    (∀ x, cover (blocks.map FreeBlock.region) x + cover [b.region] x ≤ 1) →
      Sorted (cfg.returnRegion blocks b) ∧
        ∀ x, cover ((cfg.returnRegion blocks b).map FreeBlock.region) x =
          cover (blocks.map FreeBlock.region) x + cover [b.region] x

end MindSporeMemory
