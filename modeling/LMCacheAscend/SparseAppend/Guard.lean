import Mathlib.Algebra.Order.Ring.Int
import LMCacheAscend.Lib.Prog

/-!
# The rollback guard of a sparse cache

The cache of a request is eight lists, some of which may be missing: the ranges of
its chunks, five lists of rows, a row a layer, and the rows of the pointer tables on
the device.  `_SparseCacheAppend` takes the lengths of the lists before a retrieve
appends to them, and a copy of the list of pointer rows, and rolls them back unless
the retrieve commits.

Lists are Python lists: they are known by their identity (`Ref`), a row is a list that
another list holds, and a row of a pointer table is a view of memory that may be written
later.
-/

namespace SparseAppend

open Lib

/-! ## Lists -/

/-- The identity of a list; it is not used again. -/
abbrev Ref := Nat

/-- `table[row, :len]`. -/
structure View where
  table : Nat
  row : Nat
  len : Nat
deriving DecidableEq, Repr

/-- What a list holds: a key, memory object, tensor or handle is an `obj`. -/
inductive Value (ω : Type)
  | none
  | list (r : Ref)
  | row (v : View)
  | int (n : Int)
  | obj (x : ω)
deriving DecidableEq, Repr

inductive Error
  | valueError (message : String)
  | typeError (message : String)
deriving DecidableEq, Repr

/-- The list of pointer rows whose table is meant, for all layers or for one; a tensor of its own
is nobody else's table. -/
inductive TableKey
  | group (pointers : Ref)
  | layer (pointers : Ref) (layerId : Nat)
  | own (n : Nat)
deriving DecidableEq, Repr

/-- The `table` and `length` of an entry of `_layerwise_pointer_tables`. -/
structure TableState where
  table : Nat
  length : Nat
deriving DecidableEq, Repr

/-- `mem` is the device memory by table, row and column. -/
structure World (ω : Type) where
  lists : Ref → List (Value ω)
  nextList : Nat
  mem : Nat → Nat → Nat → Int
  nextTable : Nat
  tables : TableKey → Option TableState

abbrev AppendM (ω : Type) := Prog Error (World ω)

variable {ω : Type}

namespace World

variable (w : World ω)

def setList (r : Ref) (l : List (Value ω)) : World ω :=
  { w with lists := Function.update w.lists r l }

/-- The row that a value is. -/
def inner : Value ω → List (Value ω)
  | .list r => w.lists r
  | _ => []

/-- What a row of a table shows. -/
def cells : Value ω → List Int
  | .row v => (List.range v.len).map (w.mem v.table v.row)
  | _ => []

end World

/-! ## The cache -/

/-- The lists of a request for one KV group. -/
structure Cache where
  starts : Option Ref
  ends : Option Ref
  keys : Option Ref
  memoryObjs : Option Ref
  tensors : Option Ref
  chunkDevPtrs : Option Ref
  sharedHandles : Option Ref
  chunkPtrsNpu : Option Ref
  apart : (starts.toList ++ ends.toList ++ (keys.toList ++ memoryObjs.toList ++ tensors.toList ++
    chunkDevPtrs.toList ++ sharedHandles.toList) ++ chunkPtrsNpu.toList).Nodup

namespace Cache

variable (c : Cache)

def ranges : List Ref := c.starts.toList ++ c.ends.toList

/-- `_LAYER_FIELDS`. -/
def layers : List Ref :=
  c.keys.toList ++ c.memoryObjs.toList ++ c.tensors.toList ++ c.chunkDevPtrs.toList ++
    c.sharedHandles.toList

def pointers : List Ref := c.chunkPtrsNpu.toList

def outer : List Ref := c.ranges ++ c.layers ++ c.pointers

/-- What a cache says: its lists, the rows that they hold, and what the rows of the pointer tables
show. -/
structure Reading (ω : Type) where
  ranges : List (List (Value ω))
  layers : List (List (Value ω) × List (List (Value ω)))
  pointers : List (List (Value ω) × List (List Int))
deriving DecidableEq, Repr

def reading (w : World ω) : Reading ω where
  ranges := c.ranges.map w.lists
  layers := c.layers.map fun r => (w.lists r, (w.lists r).map w.inner)
  pointers := c.pointers.map fun p => (w.lists p, (w.lists p).map w.cells)

end Cache

/-! ## The guard -/

/-- `_ranges`, `_layers`, `_pointers` and `committed`. -/
structure Guard (ω : Type) where
  ranges : List (Ref × Nat)
  layers : List (Ref × Nat × List Nat)
  pointers : Option (Ref × List (Value ω))
  committed : Bool

/-- `len(layer or [])`; `sizes` is what `len` says of anything but a list. -/
def sizeOf (sizes : Value ω → Except Error Nat) (w : World ω) : Value ω → Except Error Nat
  | .none => .ok 0
  | .list r => .ok (w.lists r).length
  | v => sizes v

/-- `_SparseCacheAppend(cache)`. -/
def record (sizes : Value ω → Except Error Nat) (c : Cache) : AppendM ω (Guard ω) := do
  let w ← get
  let layers ← call (c.layers.mapM fun values => do
    let rows ← (w.lists values).mapM (sizeOf sizes w)
    pure (values, (w.lists values).length, rows))
  pure { ranges := c.ranges.map fun values => (values, (w.lists values).length)
         layers := layers
         pointers := c.chunkPtrsNpu.map fun p => (p, w.lists p)
         committed := false }

def Guard.commit (g : Guard ω) : Guard ω := { g with committed := true }

/-- `del values[size:]`. -/
def delFrom (values : Ref) (size : Nat) : AppendM ω Unit :=
  modify fun w => w.setList values ((w.lists values).take size)

def truncateLayer : Value ω × Nat → AppendM ω Unit
  | (.list layer, size) => delFrom layer size
  | _ => pure ()

/-- The rows of a list and then the list itself. -/
def truncateLayers (x : Ref × Nat × List Nat) : AppendM ω Unit := do
  let w ← get
  let values := (w.lists x.1).take x.2.1
  (values.zip x.2.2).forM truncateLayer
  if values.length < x.2.2.length then
    throw (.valueError "zip() argument 2 is longer than argument 1")
  else if x.2.2.length < values.length then
    throw (.valueError "zip() argument 2 is shorter than argument 1")
  else delFrom x.1 x.2.1

def rollback (g : Guard ω) : AppendM ω Unit :=
  if g.committed then pure ()
  else do
    g.ranges.forM fun x => delFrom x.1 x.2
    g.layers.forM truncateLayers
    g.pointers.forM fun x => modify fun w => w.setList x.1 x.2

end SparseAppend
