import LMCacheAscend.SparseAppend.Guard

/-!
# Appends to a sparse cache

The functions that append to a cache change it in steps, and an append may end after each
of them.  `extend` is an `append` for each element, and so is the assignment to a list
that is empty, as where the metadata of a retrieve begins.

Pointers are appended to rows on the host and to rows on the device.  A row on the device
is a view of a table with room for more columns: an append writes the columns behind the
`length` of the table in place, counts them and hands out longer views.  The connector
starts a new table where the length is not the number of pointers that there are, and
where there is no room; without `_layerwise_prefill_dma` each row is a tensor of its own.
-/

namespace SparseAppend

open Function

variable {ω : Type}

/-- What is put into a list; `row key i` is `table[i, :length]`. -/
inductive Item (ω : Type)
  | none
  | int (n : Int)
  | obj (x : ω)
  | list (q : Ref)
  | row (key : TableKey) (i : Nat)
deriving DecidableEq, Repr

inductive Step (ω : Type)
  /-- `[]`, a list that nobody holds yet. -/
  | newList
  /-- `r.append(x)`. -/
  | push (r : Ref) (x : Item ω)
  /-- `cached_chunk_ptrs_npu[i] = x`. -/
  | setItem (i : Nat) (x : Item ω)
  /-- `cached_chunk_ptrs_npu[:] = xs`. -/
  | assign (xs : List (Item ω))
  /-- `tables[key] = {"table": table, "length": length}`, a new table with what is copied to it. -/
  | newTable (key : TableKey) (length : Nat) (content : Nat → Nat → Int)
  /-- `table[:, length:].copy_(staged)`. -/
  | writeSuffix (key : TableKey) (staged : List (List Int))
  /-- `state["length"] = length + n`. -/
  | setLength (key : TableKey) (n : Nat)

namespace World

variable (w : World ω)

def addList : World ω :=
  { w with lists := update w.lists w.nextList [], nextList := w.nextList + 1 }

def addTable (key : TableKey) (length : Nat) (content : Nat → Nat → Int) : World ω :=
  { w with
    mem := update w.mem w.nextTable content
    nextTable := w.nextTable + 1
    tables := update w.tables key (some ⟨w.nextTable, length⟩) }

def writeSuffix (s : TableState) (staged : List (List Int)) : World ω :=
  { w with mem := fun t i col =>
      if t = s.table ∧ s.length ≤ col then
        ((staged[i]?).bind fun row => row[col - s.length]?).getD (w.mem t i col)
      else w.mem t i col }

def setLength (key : TableKey) (s : TableState) (length : Nat) : World ω :=
  { w with tables := update w.tables key (some { s with length := length }) }

end World

variable (c : Cache)

/-- The lists of the cache are no rows, and there is no row of a table that there is not. -/
def Item.value (w : World ω) : Item ω → Option (Value ω)
  | .none => some .none
  | .int n => some (.int n)
  | .obj x => some (.obj x)
  | .list q => if q < w.nextList ∧ q ∉ c.outer then some (.list q) else Option.none
  | .row key i => (w.tables key).map fun s => .row ⟨s.table, i, s.length⟩

/-- `_LAYER_FIELDS` are lists of rows. -/
def Cache.takes (r : Ref) : Value ω → Bool
  | .list _ => true
  | _ => decide (r ∉ c.layers)

/-- What is not possible raises and changes nothing. -/
def Step.run (w : World ω) : Step ω → World ω
  | .newList => w.addList
  | .push r x => match x.value c w with
    | some v => if r < w.nextList ∧ c.takes r v then w.setList r (w.lists r ++ [v]) else w
    | none => w
  | .setItem i x => match c.chunkPtrsNpu, x.value c w with
    | some p, some v => w.setList p ((w.lists p).set i v)
    | _, _ => w
  | .assign xs => match c.chunkPtrsNpu, xs.mapM (Item.value c w) with
    | some p, some l => w.setList p l
    | _, _ => w
  | .newTable key length content => w.addTable key length content
  | .writeSuffix key staged => match w.tables key with
    | some s => w.writeSuffix s staged
    | none => w
  | .setLength key n => match w.tables key with
    | some s => w.setLength key s (s.length + n)
    | none => w

/-- The steps that were taken before an append has ended. -/
def runSteps (w : World ω) (steps : List (Step ω)) : World ω := steps.foldl (Step.run c) w

/-- `values.extend(xs)`. -/
def extend (values : Ref) (xs : List (Item ω)) : List (Step ω) := xs.map (.push values)

/-- The pointers of a layer, for the row `q` on the host and behind those that its table has. -/
def appendForLayer (p q : Ref) (layerId : Nat) (pointers : List Int) : List (Step ω) :=
  extend q (pointers.map .int) ++
    [.writeSuffix (.layer p layerId) [pointers], .setLength (.layer p layerId) pointers.length,
      .setItem layerId (.row (.layer p layerId) 0)]

/-- A retrieve, which commits or rolls back. -/
def attempt (sizes : Value ω → Except Error Nat) (steps : List (Step ω)) (commits : Bool) :
    AppendM ω Unit := do
  let guard ← record sizes c
  modify fun w => runSteps c w steps
  rollback (if commits then guard.commit else guard)

/-- A store appends by itself. -/
inductive Event (ω : Type)
  | append (step : Step ω)
  | attempt (steps : List (Step ω)) (commits : Bool)

def Event.run (sizes : Value ω → Except Error Nat) (w : World ω) : Event ω → World ω
  | .append step => step.run c w
  | .attempt steps commits => (SparseAppend.attempt c sizes steps commits w).2

end SparseAppend
