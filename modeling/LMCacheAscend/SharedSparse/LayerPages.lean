import LMCacheAscend.Lib.Ledger
import LMCacheAscend.Lib.Prog
import LMCacheAscend.Lib.Traverse

/-!
# Shared layer pages of rank 0

`_resolve_shared_rank0_layer_pages` of `cache_engine.py` as a program.  Runs of
pages come from the local tier and from the remote one in turns, the rest from the
legacy resolver.  What the tiers answer is given with the call, by the number of
questions asked so far.  A page from a tier has a reference for the caller, an
object from the legacy resolver also a pin; a call that raises takes nothing.

A call with exact chunk locations goes to another method and has no part here.
-/

namespace LayerPages

open Lib List

/-! ## Data -/

inductive Key (κ : Type)
  | page (key : κ)
  | layer (key : κ) (layerId : Nat)
deriving DecidableEq, Repr

variable {κ : Type}

/-- `key.without_layer()` of a layer key. -/
def Key.withoutLayer : Key κ → Option κ
  | .page _ => none
  | .layer key _ => some key

def splitLayers (key : κ) (numLayers : Nat) : List (Key κ) :=
  (range numLayers).map (Key.layer key)

structure Page where
  id : Nat
  validTokens : Nat
  numLayers : Nat
  shape : List Nat
deriving DecidableEq, Repr

/-- A row has pages of all layers and objects of its own. -/
inductive Obj
  | page (p : Page)
  | legacy (id : Nat)
deriving DecidableEq, Repr

inductive Exc
  | valueError (msg : String)
  | indexError (msg : String)
  | runtimeError (msg : String)
  | typeError (msg : String)
  | external (msg : String)
deriving DecidableEq, Repr

/-- What ends a run that returns nothing. -/
inductive Stop
  | raised (e : Exc)
  | outOfFuel
deriving DecidableEq, Repr

/-- What `_expected_shared_cpu_chunk_metadata` reads: the bytes of a layer under a mixed
`indexer_c8_layout`, the sizes of the layer groups, `get_shape` of the connector with a group and
without one, the dtype and the format of a group, and the method of the base class. -/
structure Metadata where
  layerBytes : Option (Nat → Nat → Except Exc Nat)
  useMla : Bool
  dsaTwoGroups : Bool
  hiddenDimSizes : List Nat
  getShape : Option (Nat → Option Nat → Except Exc (List Nat))
  dtypeAndFormat : Nat → Except Exc Unit
  base : Nat → Nat → Except Exc (List Nat)

/-- A `get_shape` that takes no group knows the shape of group 0. -/
def Metadata.connectorShape (m : Metadata) (kvGroup numTokens : Nat) :
    Except Exc (Option (List Nat)) :=
  match m.getShape with
  | none => .ok none
  | some getShape =>
    match getShape numTokens (some kvGroup) with
    | .ok shape => .ok (some shape)
    | .error (.typeError _) =>
      if kvGroup = 0 then (getShape numTokens none).map some else .ok none
    | .error e => .error e

/-- The shape that `_expected_shared_cpu_chunk_metadata` returns, for layer 0. -/
def Metadata.expectedShape (m : Metadata) (kvGroup numTokens : Nat) : Except Exc (List Nat) :=
  match if kvGroup = 1 then m.layerBytes else none with
  | some layerBytes => do
    let bytes ← layerBytes numTokens 0
    m.dtypeAndFormat kvGroup
    return [bytes]
  | none =>
    match if m.useMla ∧ m.dsaTwoGroups then m.hiddenDimSizes[kvGroup]? else none with
    | some hiddenDimSize => do
      m.dtypeAndFormat kvGroup
      return [numTokens * hiddenDimSize]
    | none => do
      match ← m.connectorShape kvGroup numTokens with
      | some shape => do
        m.dtypeAndFormat kvGroup
        return shape
      | none => m.base kvGroup numTokens

structure Call (κ : Type) where
  kvGroup : Nat
  numLayers : Nat
  keysLayerMajor : List (List (Key κ))
  pageChunks : Nat
  basePageKeys : Option (List κ)

/-- The tiers and the other methods, at question `n`. -/
structure Env (κ : Type) where
  sharedLocalCpuBackend : Nat → Except Exc Unit
  batchedGetLayerPagePrefix : Nat → List κ → Except Exc (List Page × Nat)
  containsAllExact : Nat → List (Key κ) → Except Exc Bool
  /-- The remote backend is there and has both methods. -/
  supportsPages : Nat → Bool
  batchedContainsLayerPages : Nat → List κ → Except Exc Int
  batchedGetLayerPages : Nat → List κ → Except Exc (List Page)
  pageFirstLayers : Nat → List (List (Key κ)) → Except Exc (List (List Nat))
  metadata : Nat → Metadata
  pinMany : Nat → List Page → Except Exc Bool
  validate : Nat → Page → Nat → Except Exc Unit

structure State (κ : Type) where
  calls : Nat
  refs : Ledger Obj
  pins : Ledger Obj
  pages : List Page
  owned : List Obj
  pinned : List Obj
  tailStart : Nat
  /-- The remote gets, what was asked for and what was answered. -/
  fetches : List (List κ × List Page)

def State.start : State κ := ⟨0, .empty, .empty, [], [], [], 0, []⟩

abbrev ResolveM (κ : Type) := Prog Stop (State κ)

/-- The answer to the next question. -/
def ask {β : Type} (f : Nat → Except Exc β) : ResolveM κ β := do
  let s ← get
  modify fun s => { s with calls := s.calls + 1 }
  call ((f s.calls).mapError .raised)

def raise {β : Type} (e : Exc) : ResolveM κ β := throw (.raised e)

/-! ## Runs of pages -/

variable (env : Env κ) (c : Call κ)

/-- `pages.extend(fetched)`, `owned.extend(fetched)`, `tail_start += count`. -/
def extend (fetched : List Page) (count : Nat) : ResolveM κ Unit :=
  modify fun s => { s with
    pages := s.pages ++ fetched
    owned := s.owned ++ fetched.map .page
    tailStart := s.tailStart + count }

/-- A prefix of the keys from the local tier, each page with a reference. -/
def localRun (keys : List κ) : ResolveM κ (List Page × Nat) := do
  let (pages, count) ← ask fun n => env.batchedGetLayerPagePrefix n keys
  modify fun s => { s with refs := s.refs.take (pages.map .page) }
  return (pages, count)

def remoteGet (keys : List κ) : ResolveM κ (List Page) := do
  let pages ← ask fun n => env.batchedGetLayerPages n keys
  modify fun s => { s with
    refs := s.refs.take (pages.map .page)
    fetches := s.fetches ++ [(keys, pages)] }
  return pages

/-- `retrieve(remote_keys[:remote_count]) if remote_count else []`. -/
def fetch (remoteKeys : List κ) (remoteCount : Int) : ResolveM κ (List Page) :=
  if remoteCount = 0 then pure [] else remoteGet env (remoteKeys.take remoteCount.toNat)

/-- The pages of the remote tier from the tail on. -/
def remoteRun (remoteKeys : List κ) : ResolveM κ Unit := do
  let s ← get
  if ¬ env.supportsPages s.calls then
    raise (.runtimeError "RemoteBackend does not support layer pages")
  else
    let remoteCount ← ask fun n => env.batchedContainsLayerPages n remoteKeys
    if ¬ (0 ≤ remoteCount ∧ remoteCount ≤ remoteKeys.length) then
      raise (.valueError "Remote layer-page lookup returned invalid count")
    else
      let fetched ← fetch env remoteKeys remoteCount
      if fetched.length ≠ remoteCount.toNat then
        raise (.valueError "Remote layer-page result count is inconsistent")
      else extend fetched remoteCount.toNat

/-- The keys from the tail on. -/
def rest (pageKeys : List κ) : ResolveM κ (List κ) := do
  let s ← get
  return (pageKeys.take c.pageChunks).drop s.tailStart

/-- The loop, of at most `fuel` turns. -/
def resolveRuns (pageKeys : List κ) : Nat → ResolveM κ Unit
  | 0 => throw .outOfFuel
  | fuel + 1 => do
    match ← rest c pageKeys with
    | [] => pure ()
    | key :: keys =>
      let legacySuffix ← ask fun n => env.containsAllExact n (splitLayers key c.numLayers)
      if legacySuffix then pure ()
      else
        remoteRun env (key :: keys)
        match ← rest c pageKeys with
        | [] => pure ()
        | key' :: keys' =>
          -- Eviction can leave arbitrarily alternating tier runs.
          let (fetched, count) ← localRun env (key' :: keys')
          extend fetched count
          if count = 0 then pure () else resolveRuns pageKeys fuel

/-! ## The legacy tail -/

/-- The keys of a layer from the tail on: of the pages that are left, then what is behind them. -/
def tailRow (pageKeys : List κ) (tailStart layerId : Nat) : Except Exc (List (Key κ)) :=
  match c.keysLayerMajor[layerId]? with
  | none => .error (.indexError "list index out of range")
  | some row => .ok
    (((pageKeys.take c.pageChunks).drop tailStart).map (Key.layer · layerId)
      ++ row.drop c.pageChunks)

def legacyTail (tailKeys : List (List (Key κ))) : ResolveM κ (List (List Obj)) :=
  match tailKeys with
  | [] => raise (.indexError "list index out of range")
  | [] :: _ => pure (c.keysLayerMajor.map fun _ => [])
  | _ => do
    let rows ← ask fun n => env.pageFirstLayers n tailKeys
    let tail := rows.map fun row => row.map Obj.legacy
    modify fun s => { s with
      refs := s.refs.take tail.flatten
      pins := s.pins.take tail.flatten }
    return tail

/-! ## Pins -/

def checkPages : List Page → ResolveM κ Bool
  | [] => pure false
  | page :: pages => do
    let shape ← ask fun n => (env.metadata n).expectedShape c.kvGroup page.validTokens
    let rest ← checkPages pages
    return decide (page.numLayers ≠ c.numLayers ∨ page.shape ≠ shape) || rest

variable (pages : List Page)

def pinPages : ResolveM κ Bool := do
  let ok ← ask fun n => env.pinMany n pages
  if ok then modify fun s => { s with pins := s.pins.take (pages.map .page) }
  return ok

def validatePages : ResolveM κ Unit :=
  pages.zipIdx.forM fun p => ask fun n => env.validate n p.1 p.2

def pinChecked : ResolveM κ Bool := do
  let invalidPage ← checkPages env c pages
  if invalidPage then pure false else pinPages env pages

/-- What comes behind the tail: pages are counted, checked, pinned and validated. -/
def finish (tail : List (List Obj)) (tailStart : Nat) :
    ResolveM κ (List (List Obj) × Nat) := do
  let s ← get
  if s.pages.length ≠ tailStart then
    raise (.valueError ("Layer-page result count " ++ toString s.pages.length ++ " != "
      ++ toString tailStart))
  else
    let pinned ← pinChecked env c s.pages
    if ¬ pinned then raise (.valueError "Invalid or unpinnable layer-page object")
    else
      modify fun s' => { s' with pinned := s'.pinned ++ s.pages.map .page }
      validatePages env s.pages
      return (tail.map fun layer => s.pages.map Obj.page ++ layer, tailStart)

/-- The block behind `try`. -/
def resolveBody (pageKeys : List κ) : ResolveM κ (List (List Obj) × Nat) := do
  resolveRuns env c pageKeys (c.pageChunks + 1)
  let s ← get
  let tailKeys ← call (((range c.numLayers).mapM
    (tailRow c pageKeys s.tailStart)).mapError .raised)
  let tail ← legacyTail env c tailKeys
  modify fun s' => { s' with
    owned := s'.owned ++ tail.flatten
    pinned := s'.pinned ++ tail.flatten }
  finish env c tail s.tailStart

/-- `unpin` of all that is pinned, a reference down of all that is owned. -/
def unwind : ResolveM κ Unit :=
  modify fun s => { s with
    pins := s.pins.give s.pinned.reverse
    refs := s.refs.give s.owned }

def Call.pageKeys (first : List (Key κ)) : List κ :=
  match c.basePageKeys with
  | some base => base.take c.pageChunks
  | none => (first.take c.pageChunks).filterMap Key.withoutLayer

/-- The arguments' checks, and the base key of each page. -/
def checkedKeys : Except Exc (List κ) :=
  if c.pageChunks = 0 then
    .error (.valueError "Layer-page retrieval requires at least one chunk")
  else match c.keysLayerMajor with
  | [] => .error (.indexError "list index out of range")
  | first :: _ =>
    if first.length < c.pageChunks then
      .error (.valueError "Layer-page retrieval requires at least one chunk")
    else if (c.pageKeys first).length ≠ c.pageChunks then
      .error (.valueError "Layer-page retrieval requires one base key per page")
    else .ok (c.pageKeys first)

def resolveSharedRank0LayerPages : ResolveM κ (List (List Obj) × Nat) := do
  let pageKeys ← call ((checkedKeys c).mapError .raised)
  ask env.sharedLocalCpuBackend
  let (pages, count) ← localRun env pageKeys
  extend pages count
  tryCatch (resolveBody env c pageKeys) fun e => do
    unwind
    throw e

end LayerPages
