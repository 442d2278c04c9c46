import LMCacheAscend.Lib.Dict
import LMCacheAscend.Lib.Machine

/-!
# The destination pages of a layerwise store

What `store_layer` does to the references of its destination pages, and
`batched_from_gpu` (or `batched_from_gpu_group`) to the copies into them.  A call is the
list of operations of its mode, of the engine and of its connector generator.
Every operation that may raise may do so, and a call may be closed where it is
suspended; then the clean-up of both runs.  A stream completes its copies as it
likes, and a host that waits for a stream or an event goes on when they are
complete.
-/

namespace StoreDestinations

open Lib

/-! ## Copies and events -/

/-- `store_stream`, and the streams of the banks. -/
inductive Stream
  | store
  | bank (kvGroup bank : Nat)
deriving DecidableEq, Repr

/-- A device-to-host copy into a page, and the call that has submitted it. -/
structure Copy where
  page : Nat
  stream : Stream
  call : Nat
deriving DecidableEq, Repr

/-- An event stands for the first `upto` copies, as far as they are on its stream. -/
structure Event where
  stream : Stream
  upto : Nat
deriving DecidableEq, Repr

def Event.covers (e : Event) (j : Nat) (c : Copy) : Bool := c.stream = e.stream ∧ j < e.upto

@[simp] theorem Event.covers_iff {e : Event} {j : Nat} {c : Copy} :
    e.covers j c = true ↔ c.stream = e.stream ∧ j < e.upto :=
  decide_eq_true_iff

/-! ## Calls -/

/-- The process: `_force_layerwise_prefill_store`, which is the connector's `_layerwise_prefill_dma`
for layerwise stores, and the layers and banks of the KV groups. -/
structure Config where
  prefill : Bool
  layers : Nat → Nat
  banks : Nat → Nat

/-- What `store_layer` is called with.  `rows` are the pages of each layer (`memory_objs`), and
`layerPages` those that hold all layers of a chunk. -/
structure Call where
  req : String
  kvGroup : Nat
  rows : List (List Nat)
  layerPages : List Nat
  group : Bool
  deferredPut : Bool
  bankDma : Bool
  asyncStore : Bool
  staging : Bool
  pageFirst : Bool
deriving DecidableEq, Repr

variable (cfg : Config) (c : Call)

/-- `deferred_layerwise_put`. -/
def Call.deferred : Bool := cfg.prefill && c.deferredPut

/-- `prefill_dma`. -/
def Call.dma : Bool := c.deferred cfg && c.bankDma

/-- `async_layerwise_store`. -/
def Call.async : Bool := c.dma cfg && c.asyncStore

/-- There is a staging buffer. -/
def Call.staged : Bool := c.staging && !c.dma cfg

/-- The stream of a layer's copies. -/
def Call.streamOf (layer : Nat) : Stream :=
  if c.dma cfg then .bank c.kvGroup (layer % cfg.banks c.kvGroup) else .store

/-! ## Operations -/

inductive Op
  /-- A suspension point of the engine. -/
  | pause
  /-- Something of the engine that may raise, and does nothing else here: the storage's fences, the
  queue of the puts, the hashes, the pointer caches. -/
  | check
  /-- The connector generator is made. -/
  | generate
  /-- Something of the generator (or of the group store) that may raise before its copies. -/
  | prepare
  /-- The copies of a row. -/
  | copy (row : List Nat) (stream : Stream)
  /-- `store_stream.synchronize()`. -/
  | sync
  /-- The last event of each stream is synchronized. -/
  | drain
  /-- The last event of each bank is kept for the request. -/
  | register
  /-- The staging buffer is freed. -/
  | free
  /-- The storage takes over pages. -/
  | put (pages : List Nat)
deriving DecidableEq, Repr

variable (pageFirst : Bool)

/-- `publish_completed_layer`. -/
def putRow (row : List Nat) : List Op :=
  .check :: if pageFirst then [] else [.put row]

/-- The puts of page-first storage. -/
def putPages (layerPages pages : List Nat) : List Op :=
  .check :: if pageFirst then [.check, .put layerPages, .check, .put pages] else []

/-- Not deferred: a layer is launched one step before its copies are waited for. -/
def plainLayers (pageFirst : Bool) (row : List Nat) : List (List Nat) → List Op
  | [] => .pause :: .sync :: .free :: putRow pageFirst row
  | next :: rest => .pause :: .sync :: .prepare :: .copy next .store ::
      (putRow pageFirst row ++ plainLayers pageFirst next rest)

def plainOps : List (List Nat) → List Op
  | [] => [.generate, .prepare, .free]
  | row :: rest => .generate :: .prepare :: .copy row .store :: plainLayers pageFirst row rest

/-- Deferred: a layer is launched when its save is called. -/
def sendLayers (streamOf : Nat → Stream) : Nat → List (List Nat) → List Op
  | _, [] => []
  | layer, row :: rest => .prepare :: .copy row (streamOf layer) :: .pause :: .pause ::
      sendLayers streamOf (layer + 1) rest

def deferredOps (streamOf : Nat → Stream) (async pageFirst : Bool) (rows : List (List Nat)) :
    List Op :=
  .generate :: .prepare :: .pause :: (sendLayers streamOf 0 rows ++
    ((if async then .register else .drain) :: (rows.flatMap (putRow pageFirst) ++ [.free])))

/-- All layers at once, with no generator. -/
def groupOps (rows : List (List Nat)) : List Op :=
  rows.map (fun _ => .pause) ++ (.prepare :: .copy rows.flatten .store :: .sync ::
    rows.flatMap (putRow pageFirst))

/-- The body of `store_layer`'s `try`. -/
def Call.ops : List Op :=
  .check :: ((if c.group then groupOps c.pageFirst c.rows
    else if c.deferred cfg then
      deferredOps (c.streamOf cfg) (c.async cfg) c.pageFirst c.rows
    else plainOps c.pageFirst c.rows) ++ putPages c.pageFirst c.layerPages c.rows.flatten)

/-! ## State -/

/-- How a call ended. -/
inductive Exit
  | returned
  /-- There was nothing to fence, or nobody to do it. -/
  | unfenced
  | fenced
  /-- The fence of the clean-up has raised, and the pages are let go. -/
  | fenceRaised
  /-- The fence has raised what the engine's clean-up does not swallow. -/
  | leaked
deriving DecidableEq, Repr

/-- A call with its generator.  `pending` is `pending_store_release`, `transferPending` is
`store_transfer_pending`, `tails` are `last_store_events`, and an `abandoned` call belongs to a
request that was released. -/
structure Store where
  call : Call
  ops : List Op
  pending : List Nat
  generator : Bool
  transferPending : Bool
  staged : Bool
  tails : Dict Stream Nat
  abandoned : Bool
  exit : Option Exit

/-- `owners` is `_layerwise_prefill_page_owners` and `storeEvents` is
`_layerwise_prefill_async_store_events`. -/
structure Engine where
  owners : Dict String (List Nat)
  storeEvents : Dict String (Dict Nat (List Event))
  copies : List Copy
  done : Nat → Bool
  stores : List Store

namespace Engine

variable (s : Engine)

def init : Engine :=
  { owners := Dict.empty, storeEvents := Dict.empty, copies := [], done := fun _ => false,
    stores := [] }

variable (req : String) (i : Nat)

def ownersOf : List Nat := (s.owners.get? req).getD []

def eventsOfRequest : Dict Nat (List Event) :=
  (s.storeEvents.get? req).getD Dict.empty

def eventsOf (kvGroup : Nat) : List Event :=
  ((s.eventsOfRequest req).get? kvGroup).getD []

/-- This code has a reference to the page. -/
def Held (page : Nat) : Prop :=
  (∃ t ∈ s.stores, page ∈ t.pending) ∨ ∃ e ∈ s.owners.entries, page ∈ e.2

instance (page : Nat) : Decidable (s.Held page) := by unfold Held; infer_instance

/-- The copies that are waited for are complete. -/
def wait (waits : Nat → Copy → Bool) : Engine :=
  { s with done := fun j => s.done j || match s.copies[j]? with
      | some c => waits j c
      | none => false }

def setStore (t : Store) : Engine := { s with stores := s.stores.set i t }

/-- `_retain_layerwise_prefill_pages`. -/
def retain (pages : List Nat) : Engine :=
  { s with
    owners := s.owners.set req
      (s.ownersOf req ++ pages.filter fun page => page ∉ s.ownersOf req) }

/-! ## Clean-up -/

/-- What becomes of the fence of the clean-up. -/
inductive Fence
  | returns
  /-- It raises `RuntimeError` or `ValueError`. -/
  | raises
  | raisesOther
deriving DecidableEq, Repr

/-- The generator's `finally` waits for something. -/
def fences (t : Store) : Bool :=
  t.generator && (if cfg.prefill then t.transferPending else t.staged)

/-- What it waits for. -/
def fenceCovers (t : Store) (_ : Nat) (c : Copy) : Bool :=
  if t.call.dma cfg then
    match c.stream with
    | .bank g _ => g = t.call.kvGroup
    | .store => false
  else c.stream = .store

/-- The engine's `finally` lets the pages go. -/
def drop (t : Store) (exit : Exit) : Engine :=
  s.setStore i { t with ops := [], pending := [], exit := some exit }

/-- The `finally` clauses: of the generator, when it raises (`inGenerator`) or is closed, and of the
engine, which swallows what a closed generator raises. -/
def cleanUp (t : Store) (inGenerator : Bool) (fence : Fence) : Engine :=
  if fences cfg t then
    match fence with
    | .returns => (s.wait (fenceCovers cfg t)).drop i t .fenced
    | .raises => s.drop i t .fenceRaised
    | .raisesOther =>
      if inGenerator then s.drop i t .fenceRaised
      else s.setStore i { t with ops := [], exit := some .leaked }
  else s.drop i t .unfenced

/-! ## Steps of a call -/

/-- The copies are put into the queue of their stream. -/
def enqueue (row : List Nat) (stream : Stream) : Engine :=
  { s with copies := s.copies ++ row.map fun page => ⟨page, stream, i⟩ }

/-- The last events are kept for the request, in the place of earlier ones of its KV group. -/
def registerEvents (t : Store) : Engine :=
  if t.tails.entries = [] then s
  else { s with
    storeEvents := s.storeEvents.set t.call.req
      ((s.eventsOfRequest t.call.req).set t.call.kvGroup
        (t.tails.entries.map fun e => ⟨e.1, e.2⟩)) }

/-- The next operation of a call is done. -/
def exec (t : Store) (rest : List Op) : Op → Engine
  | .pause => s.setStore i { t with ops := rest }
  | .check => s.setStore i { t with ops := rest }
  | .generate => s.setStore i { t with ops := rest, generator := true }
  | .prepare => s.setStore i { t with ops := rest }
  | .copy row stream =>
    let s' := s.enqueue i row stream
    s'.setStore i { t with
      ops := rest
      transferPending := true
      tails := if t.call.deferred cfg then t.tails.set stream s'.copies.length else t.tails }
  | .sync =>
    (s.wait fun _ c => c.stream = .store).setStore i
      { t with ops := rest, transferPending := false }
  | .drain =>
    (s.wait fun j c => t.tails.entries.any fun e => Event.covers ⟨e.1, e.2⟩ j c).setStore i
      { t with ops := rest, transferPending := false }
  | .register =>
    (s.registerEvents t).setStore i { t with ops := rest, transferPending := false }
  | .free => s.setStore i { t with ops := rest, staged := false }
  | .put pages =>
    s.setStore i { t with ops := rest, pending := t.pending.filter fun page => page ∉ pages }

/-- The operation is one of the generator, when there is one. -/
def inGenerator : Op → Bool
  | .pause => false
  | .check => false
  | .generate => false
  | .put _ => false
  | _ => true

/-- The next operation raises; a launch does so after the first `launched` copies. -/
def fail (t : Store) (launched : Nat) (fence : Fence) : Op → Engine
  | .copy row stream =>
    (s.enqueue i (row.take launched) stream).cleanUp cfg i { t with transferPending := true } true
      fence
  | op => s.cleanUp cfg i t (inGenerator op) fence

/-! ## Requests -/

/-- `wait_for_layerwise_prefill_stores` of one request. -/
def waitStores : Engine :=
  { s.wait (fun j c => (s.eventsOfRequest req).entries.any fun e => e.2.any (Event.covers · j c)) with
    storeEvents := s.storeEvents.pop req }

/-- `release_layerwise_prefill_pages`, when its fences return. -/
def release : Engine :=
  { s.waitStores req with
    owners := s.owners.pop req
    stores := s.stores.map fun t => if t.call.req = req then { t with abandoned := true } else t }

end Engine

inductive Action
  /-- `store_layer` has its pages. -/
  | begin (c : Call)
  | run (i : Nat)
  | fails (i launched : Nat) (fence : Engine.Fence)
  /-- A suspended call is closed, or an exception is thrown into it. -/
  | close (i : Nat) (fence : Engine.Fence)
  | waitStores (req : String)
  | release (req : String)
  /-- The device completes a copy. -/
  | complete (j : Nat)

namespace Engine

variable (s : Engine)

/-- The allocator hands out pages that nobody has.  Only page-first storage has pages that hold
several layers, and the chunks of a request's KV group are stored by one call after the other. -/
def mayBegin (c : Call) : Prop :=
  c.rows.length = cfg.layers c.kvGroup ∧ ¬ (c.group = true ∧ c.deferred cfg = true) ∧
    (∀ page ∈ c.rows.flatten, ¬ s.Held page) ∧
    (c.pageFirst = false → c.rows.Pairwise List.Disjoint) ∧
    ∀ t ∈ s.stores, t.exit = none → t.abandoned = false →
      ¬ (t.call.req = c.req ∧ t.call.kvGroup = c.kvGroup)

instance (c : Call) : Decidable (mayBegin cfg s c) := by
  unfold mayBegin List.Disjoint
  infer_instance

/-- The allocation, up to the `try`. -/
def begin (c : Call) : Engine :=
  let s' := if cfg.prefill then s.retain c.req c.rows.flatten else s
  { s' with stores := s.stores ++
      [⟨c, c.ops cfg, c.rows.flatten, false, false, c.staged cfg, Dict.empty, false, none⟩] }

/-- The call, when it has not ended. -/
def running (i : Nat) : Option Store :=
  match s.stores[i]? with
  | some t => if t.exit = none then some t else none
  | none => none

/-- A call of a request that was released is not resumed, but may be closed. -/
def step : Action → Option Engine
  | .begin c => if mayBegin cfg s c then some (s.begin cfg c) else none
  | .run i => match s.running i with
    | some t =>
      if t.abandoned then none
      else match t.ops with
        | op :: rest => some (s.exec cfg i t rest op)
        | [] => some (s.drop i t .returned)
    | none => none
  | .fails i launched fence => match s.running i with
    | some t => match t.ops with
      | op :: _ => some (s.fail cfg i t launched fence op)
      | [] => none
    | none => none
  | .close i fence => match s.running i with
    | some t => match t.ops with
      | .pause :: _ => some (s.cleanUp cfg i t false fence)
      | _ => none
    | none => none
  | .waitStores req => some (s.waitStores req)
  | .release req => some (s.release req)
  | .complete j => some { s with done := Function.update s.done j true }

end Engine

def stores : Machine Engine Action where
  start s := s = Engine.init
  step := Engine.step cfg

/-! ## Pages in use -/

namespace Engine

variable (s : Engine)

/-- A copy that is not complete goes into a page that this code still has. -/
def NeverRecycled : Prop :=
  ∀ j c, s.copies[j]? = some c → s.done j = false → s.Held c.page

/-- The calls that leave copies behind: the ordinary stores without a staging buffer, and the group
stores, that were interrupted, and those whose clean-up has failed. -/
def LeavesCopies (t : Store) : Prop :=
  t.exit = some .fenceRaised ∨
    t.exit = some .unfenced ∧ (t.call.group = true ∨ cfg.prefill = false ∧ t.call.staged cfg = false)

/-- What is not complete goes into a page that this code still has, or such a call has left it. -/
def Drained : Prop :=
  ∀ j c, s.copies[j]? = some c → s.done j = false → s.Held c.page ∨
    ∃ t, s.stores[c.call]? = some t ∧ LeavesCopies cfg t

end Engine

end StoreDestinations
