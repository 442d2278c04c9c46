import LMCacheAscend.Lib.Dict
import LMCacheAscend.Lib.Machine

/-!
# The owners of deferred prefill loads

What `batched_to_gpu` does in its deferred mode to the references of its source
pages and to the fences of its copies (the request's events, and the streams of
a submission without an event), and what `release_layerwise_prefill_dma_cache`
does with them.  Generators are resumed one operation at a time, and every
operation that may raise may do so; a stream completes its copies as it likes,
and a host that waits for a fence goes on when they are complete.
-/

namespace LoadOwners

open Lib Function

/-! ## Copies and fences -/

/-- A native copy, from source pages of a request. -/
structure Copy where
  req : String
  stream : Nat
deriving DecidableEq, Repr

/-- An event stands for the first `upto` copies, as far as they are on its stream. -/
structure Event where
  stream : Nat
  upto : Nat
deriving DecidableEq, Repr

/-- An entry of `_layerwise_prefill_unfenced_loads`. -/
structure Unfenced where
  kvGroup : Nat
  bank : Option Nat
  stream : Nat
deriving DecidableEq, Repr

inductive Fence
  | stream (u : Unfenced)
  | event (e : Event)
  | store (kvGroup : Nat) (e : Event)
deriving DecidableEq, Repr

/-- The fence waits for the `j`-th copy. -/
def Fence.covers : Fence → Nat → Copy → Prop
  | .stream u, _, c => c.stream = u.stream
  | .event e, j, c => c.stream = e.stream ∧ j < e.upto
  | .store _ e, j, c => c.stream = e.stream ∧ j < e.upto

/-- The KV group and the event of a store. -/
def Fence.stored : Fence → Option (Nat × Event)
  | .store kvGroup e => some (kvGroup, e)
  | _ => none

instance (f : Fence) (j : Nat) (c : Copy) : Decidable (f.covers j c) := by
  cases f <;> unfold Fence.covers <;> infer_instance

/-! ## Generators -/

inductive Op
  /-- Something that may raise, and does nothing else here: the transfer generation, the sources,
  the formats, the binding of addresses, the use of the bank, the audits. -/
  | check
  /-- The owner lease of one source page. -/
  | own (page : Nat)
  /-- The bank of the layer, and its stream. -/
  | choose (bank : Option Nat) (stream : Nat)
  /-- The native copy, and its event. -/
  | submit
  | createEvent
  | recordEvent
  | registerEvent
deriving DecidableEq, Repr

/-- What a generator does when it is sent the source pages of a layer. -/
def layerOps (pages : List Nat) (bank : Option Nat) (stream : Nat) : List Op :=
  .check :: (pages.map .own ++ [.check, .choose bank stream, .check, .submit, .check])

/-- A generator of `batched_to_gpu`, suspended when it has no operations to do; `submitted` is
`deferred_load_submitted`. -/
structure Load where
  req : String
  kvGroup : Nat
  bank : Option Nat
  stream : Nat
  submitted : Bool
  event : Option Event
  ops : List Op
  alive : Bool
deriving DecidableEq, Repr

/-! ## State -/

/-- Where a release stands: the fences it still has to wait for. -/
inductive Stage
  | streams (todo : List Unfenced)
  | stores (todo : List Event)
  | events (todo : List Event)
deriving DecidableEq, Repr

/-- `others` counts the references that others hold.  `taken` and `dropped` are all references
that were taken and dropped for a request, `fences` all fences that were registered, less the
events of a store that a later one of its KV group has replaced, `retired` the requests that a
release was called for and `released` those it has returned for. -/
structure Connector where
  others : Nat → Nat
  loadOwners : Dict String (List Nat)
  requestEvents : Dict String (List Event)
  storeEvents : Dict String (Dict Nat (List Event))
  unfencedLoads : Dict String (List Unfenced)
  copies : List Copy
  done : Nat → Bool
  loads : List Load
  releasing : Option (String × Stage)
  retired : List String
  released : List String
  taken : List (String × Nat)
  dropped : List (String × Nat)
  fences : List (String × Fence)

namespace Connector

variable (s : Connector)

def init : Connector :=
  { others := fun _ => 0, loadOwners := Dict.empty, requestEvents := Dict.empty,
    storeEvents := Dict.empty, unfencedLoads := Dict.empty, copies := [], done := fun _ => false,
    loads := [], releasing := none, retired := [], released := [], taken := [], dropped := [],
    fences := [] }

variable (req : String) (i : Nat) (t : Load)

def ownersOf : List Nat := (s.loadOwners.get? req).getD []

def unfencedOf : List Unfenced := (s.unfencedLoads.get? req).getD []

def eventsOf : List Event := (s.requestEvents.get? req).getD []

def storeGroupsOf : Dict Nat (List Event) :=
  (s.storeEvents.get? req).getD Dict.empty

def storesOf : List Event := (s.storeGroupsOf req).entries.flatMap (·.2)

/-- `MemoryObj.is_valid`: somebody has a reference. -/
def valid (page : Nat) : Bool :=
  0 < s.others page ∨ ∃ e ∈ s.loadOwners.entries, page ∈ e.2

/-- The copies that a fence waits for are complete. -/
def wait (f : Fence) : Connector :=
  { s with done := fun j => s.done j || match s.copies[j]? with
      | some c => decide (f.covers j c)
      | none => false }

/-! ## Steps of a generator -/

def setLoad : Connector := { s with loads := s.loads.set i t }

/-- `_retain_unfenced_layerwise_prefill_load`. -/
def retainUnfenced (u : Unfenced) : Connector :=
  { s with unfencedLoads := s.unfencedLoads.set req
             (if u ∈ s.unfencedOf req then s.unfencedOf req else s.unfencedOf req ++ [u])
           fences := s.fences ++ [(req, .stream u)] }

/-- The `except` clause of the generator. -/
def raise : Connector :=
  let s' := s.setLoad i { t with ops := [], alive := false }
  if t.submitted then s'.retainUnfenced t.req ⟨t.kvGroup, t.bank, t.stream⟩ else s'

/-- The reference of a source page, one for the request. -/
def own (rest : List Op) (page : Nat) : Connector :=
  if page ∈ s.ownersOf t.req then s.setLoad i { t with ops := rest }
  else if s.valid page then
    { s.setLoad i { t with ops := rest } with
      loadOwners := s.loadOwners.set t.req (s.ownersOf t.req ++ [page])
      taken := s.taken ++ [(t.req, page)] }
  else s.raise i t

/-- The copy is in the stream's queue. -/
def enqueue : Connector := { s with copies := s.copies ++ [⟨t.req, t.stream⟩] }

/-- The next operation of a generator is done. -/
def exec (rest : List Op) : Op → Option Connector
  | .check => some (s.setLoad i { t with ops := rest })
  | .own page => some (s.own i t rest page)
  | .choose bank stream => some (s.setLoad i { t with ops := rest, bank := bank, stream := stream })
  | .submit =>
    some ((s.enqueue t).setLoad i { t with
      submitted := true, ops := .createEvent :: .recordEvent :: .registerEvent :: rest })
  | .createEvent => some (s.setLoad i { t with ops := rest, event := none })
  | .recordEvent =>
    some (s.setLoad i { t with ops := rest, event := some ⟨t.stream, s.copies.length⟩ })
  | .registerEvent =>
    match t.event with
    | some e =>
      some { s.setLoad i { t with ops := rest } with
        requestEvents := s.requestEvents.set t.req (s.eventsOf t.req ++ [e])
        fences := s.fences ++ [(t.req, .event e)] }
    | none => none

/-- The next operation raises. -/
def fail : Op → Option Connector
  | .own _ => none
  | .choose _ _ => none
  | .submit => some (s.raise i { t with submitted := true })
  | _ => some (s.raise i t)

/-- The events of a store take the place of those of its KV group. -/
def replaceStores (kvGroup : Nat) (events : List Event) : Connector :=
  { s with storeEvents := s.storeEvents.set req ((s.storeGroupsOf req).set kvGroup events)
           fences := (s.fences.filter fun x => x.1 ≠ req ∨ ∀ e ∈ x.2.stored, e.1 ≠ kvGroup) ++
             events.map fun e => (req, .store kvGroup e) }

/-! ## Releases -/

/-- The end of `release_layerwise_prefill_dma_cache`: the owners are let go. -/
def dropOwners : Connector :=
  { s with requestEvents := s.requestEvents.pop req
           loadOwners := s.loadOwners.pop req
           dropped := s.dropped ++ ((s.ownersOf req).filter s.valid).map (Prod.mk req)
           releasing := none
           released := s.released ++ [req] }

/-- The release waits for its next fence, or is done with one kind of them. -/
def sync : Option Connector :=
  match s.releasing with
  | some (req, .streams (u :: todo)) =>
    some { s.wait (.stream u) with releasing := some (req, .streams todo) }
  | some (req, .streams []) =>
    some { s with unfencedLoads := s.unfencedLoads.pop req
                  releasing := some (req, .stores (s.storesOf req)) }
  | some (req, .stores (e :: todo)) =>
    some { s.wait (.event e) with releasing := some (req, .stores todo) }
  | some (req, .stores []) =>
    some { s with storeEvents := s.storeEvents.pop req
                  releasing := some (req, .events (s.eventsOf req)) }
  | some (req, .events (e :: todo)) =>
    some { s.wait (.event e) with releasing := some (req, .events todo) }
  | some (req, .events []) => some (s.dropOwners req)
  | none => none

/-- The next fence raises, and the release with it. -/
def syncRaises : Option Connector :=
  match s.releasing with
  | some (_, .streams (_ :: _)) => some { s with releasing := none }
  | some (_, .stores (_ :: _)) => some { s with releasing := none }
  | some (_, .events (_ :: _)) => some { s with releasing := none }
  | _ => none

end Connector

inductive Action
  /-- `batched_to_gpu` is called. -/
  | generate (req : String) (kvGroup : Nat)
  /-- The generator is sent a layer. -/
  | send (i : Nat) (pages : List Nat) (bank : Option Nat) (stream : Nat)
  | run (i : Nat)
  | fails (i : Nat)
  /-- The native copy raises after it has been put into the queue. -/
  | failsLate (i : Nat)
  /-- The generator is resumed after its last layer. -/
  | finish (i : Nat)
  | close (i : Nat)
  /-- An exception is thrown into the suspended generator. -/
  | throw (i : Nat)
  /-- The completion of an asynchronous store is registered, an event for each bank. -/
  | store (req : String) (kvGroup : Nat) (streams : List Nat)
  | othersUp (page : Nat)
  | othersDown (page : Nat)
  /-- The device completes a copy. -/
  | complete (j : Nat)
  | release (req : String)
  | sync
  | syncRaises
deriving DecidableEq, Repr

namespace Connector

variable (s : Connector)

/-- The generator, when it is suspended. -/
def suspended (i : Nat) : Option Load :=
  match s.loads[i]? with
  | some t => if t.alive ∧ t.ops = [] then some t else none
  | none => none

/-- The generator's next operation. -/
def head (i : Nat) : Option (Load × Op × List Op) :=
  match s.loads[i]? with
  | some t => match t.ops with
    | op :: rest => some (t, op, rest)
    | [] => none
  | none => none

/-- A request that a release was called for runs no more. -/
def step : Action → Option Connector
  | .generate req kvGroup =>
    if req ∉ s.retired then
      some { s with loads := s.loads ++ [⟨req, kvGroup, none, 0, false, none, [], true⟩] }
    else none
  | .send i pages bank stream => match s.suspended i with
    | some t =>
      if t.req ∉ s.retired then some (s.setLoad i { t with ops := layerOps pages bank stream })
      else none
    | none => none
  | .run i => match s.head i with
    | some (t, op, rest) => s.exec i t rest op
    | none => none
  | .fails i => match s.head i with
    | some (t, op, _) => s.fail i t op
    | none => none
  | .failsLate i => match s.head i with
    | some (t, .submit, _) => some ((s.enqueue t).raise i { t with submitted := true })
    | _ => none
  | .finish i => match s.suspended i with
    | some t => some (s.setLoad i { t with alive := false })
    | none => none
  | .close i => match s.suspended i with
    | some t => some (s.setLoad i { t with alive := false })
    | none => none
  | .throw i => match s.suspended i with
    | some t => if t.req ∉ s.retired then some (s.raise i t) else none
    | none => none
  | .store req kvGroup streams =>
    if req ∉ s.retired then
      some (s.replaceStores req kvGroup (streams.map fun stream => ⟨stream, s.copies.length⟩))
    else none
  | .othersUp page => some { s with others := update s.others page (s.others page + 1) }
  | .othersDown page =>
    if 0 < s.others page then
      some { s with others := update s.others page (s.others page - 1) }
    else none
  | .complete j => some { s with done := update s.done j true }
  | .release req =>
    if s.releasing = none ∧ ∀ t ∈ s.loads, t.req = req → t.ops = [] then
      some { s with retired := s.retired ++ [req]
                    releasing := some (req, .streams (s.unfencedOf req)) }
    else none
  | .sync => s.sync
  | .syncRaises => s.syncRaises

end Connector

def connector : Machine Connector Action where
  start s := s = Connector.init
  step := Connector.step

/-! ## Owners and fences -/

namespace Connector

variable (s : Connector)

/-- The fence is there for the next attempt. -/
def Registered (req : String) : Fence → Prop
  | .stream u => u ∈ s.unfencedOf req
  | .event e => e ∈ s.eventsOf req
  | .store kvGroup e => ∃ events, (s.storeGroupsOf req).get? kvGroup = some events ∧ e ∈ events

/-- The copies of the request that the fence waits for are complete. -/
def Satisfied (req : String) (f : Fence) : Prop :=
  ∀ j c, s.copies[j]? = some c → c.req = req → f.covers j c → s.done j = true

structure Owned : Prop where
  /-- A page is referenced once for a request. -/
  once : s.taken.Nodup
  /-- A reference is dropped once. -/
  droppedOnce : s.dropped.Nodup
  dropped : ∀ e ∈ s.dropped, e ∈ s.taken
  /-- A release that returns has dropped all. -/
  released : ∀ req ∈ s.released, ∀ page, (req, page) ∈ s.taken → (req, page) ∈ s.dropped
  /-- When a reference is dropped, the copies of its request are complete. -/
  outlives : ∀ e ∈ s.dropped, ∀ j c, s.copies[j]? = some c → c.req = e.1 → s.done j = true
  /-- What is not dropped is there for the next attempt. -/
  owners : ∀ req page, (req, page) ∈ s.taken → (req, page) ∉ s.dropped → page ∈ s.ownersOf req
  fences : ∀ e ∈ s.fences, s.Registered e.1 e.2 ∨ s.Satisfied e.1 e.2

end Connector

end LoadOwners
