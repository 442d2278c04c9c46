import LMCacheAscend.Lib.Dict
import LMCacheAscend.Lib.Machine
import LMCacheAscend.Lib.Streams

/-!
# The banks of the layerwise prefill

The layers of a KV group whose numbers agree modulo the bank count share one
physical bank.  `batched_to_gpu` loads a layer into its bank and `batched_from_gpu`
saves it, one layer each time they are resumed: by bank DMA on the FIFO stream of
the bank, or directly on `load_stream` and `store_stream`.  Attention waits for a
layer's loads, has its accesses on the compute stream, and hands the final one
over to the bank's FIFO stream.  When a save is over the host may wait for its
last events; when it ends early, for its streams.

`machine` has forward steps of any number of requests, as the commands that they
give to the device, with the registries in between.  The generators are resumed
in layer order.  `saves` is a ghost: the saves that the host has not waited for.
-/

namespace PrefillBanks

open Lib

/-- The layer of a KV group in a forward step. -/
structure Place where
  group : Nat
  layer : Nat
  step : Nat
deriving DecidableEq, Repr

inductive Op
  /-- A computation that reads or writes the KV of the layer in its bank. -/
  | access (x : Place)
  | load (x : Place)
  | save (x : Place)
deriving DecidableEq, Repr

/-- `host` has the events that the host itself waits for. -/
inductive Strm
  | compute
  | load
  | store
  | bank (group bank : Nat)
  | host
deriving DecidableEq, Repr

inductive Path
  | dma
  | direct
deriving DecidableEq, Repr

inductive Dir
  | load
  | save
deriving DecidableEq, Repr

/-- `banks` is the bank count of the process. -/
structure Config where
  layers : Nat → Nat
  banks : Nat
  banks_pos : 0 < banks

/-- A generator of `batched_to_gpu` or `batched_from_gpu`.  `stored` has the last event of its saves
on each stream. -/
structure Transfer where
  dir : Dir
  path : Path
  group : Nat
  req : Option String
  generation : Nat
  step : Nat
  next : Nat
  closed : Bool
  stored : Dict Strm Nat

/-- A save, its generator, and its place in the program. -/
structure Saved where
  owner : Nat
  place : Nat
  at_ : Place
  path : Path
  generation : Nat
deriving DecidableEq, Repr

/-- The registries hold `(generation, event)`, `uses` has `(generation, layer_id)`.  `layer` counts
the layers of a KV group whose final access was recorded in this step, and `entered` says that the
loads of the next one were waited for. -/
structure Engine where
  prog : List (Cmd Strm Nat Op)
  events : Nat
  generation : Nat → Nat
  saveDone : Dict (Nat × Nat × Nat) (Nat × Nat)
  loadDone : Dict (Nat × Nat) (Dict (Option String) (Nat × Nat))
  tails : Dict (Nat × Nat) (Nat × Nat)
  uses : Dict (Nat × Nat) (Nat × Nat)
  fifos : List (Nat × Nat)
  step : Nat → Nat
  layer : Nat → Nat
  entered : Nat → Bool
  transfers : List Transfer
  saves : List Saved

/-- No forward step has begun. -/
def Engine.init (cfg : Config) : Engine :=
  { prog := [], events := 0, generation := fun _ => 0, saveDone := Dict.empty,
    loadDone := Dict.empty, tails := Dict.empty, uses := Dict.empty, fifos := [],
    step := fun _ => 0, layer := cfg.layers, entered := fun _ => false, transfers := [],
    saves := [] }

/-- The value for one group is changed. -/
def put {α : Type} (f : Nat → α) (g : Nat) (v : α) : Nat → α := fun h => if h = g then v else f h

section

variable (cfg : Config) (s : Engine)

/-- `_layerwise_prefill_bank`. -/
def Config.bank (layer : Nat) : Nat := layer % cfg.banks

variable (g : Nat) (t : Transfer) (i : Nat)

/-- `_layerwise_prefill_dma_stream`: a FIFO stream is kept when it is first asked for. -/
def Engine.dmaStream (b : Nat) : List (Nat × Nat) :=
  if (g, b) ∈ s.fifos then s.fifos else (g, b) :: s.fifos

/-- `record_layerwise_prefill_bank_use`, with the event that attention records behind its last
access. -/
def Engine.recordBankUse : Engine :=
  let b := cfg.bank (s.layer g)
  { s with
    fifos := s.dmaStream g b
    prog := s.prog ++ waitStream (.bank g b) .compute s.events
    events := s.events + 1
    uses := s.uses.set (g, b) (s.generation g, s.layer g)
    layer := put s.layer g (s.layer g + 1)
    entered := put s.entered g false }

/-- `_require_layerwise_prefill_bank_use`. -/
def Engine.bankUsed (b layer : Nat) : Bool :=
  s.uses.get? (g, b) = some (s.generation g, layer)

/-- `wait_for_layerwise_prefill_load` of the next layer; `none` when it raises. -/
def Engine.waitForLoad (requestIds : Option (List (Option String))) : Option Engine :=
  let l := s.layer g
  let row : List (Option String × Nat × Nat) := match s.loadDone.get? (g, l) with
    | some row => row.entries
    | none => []
  let outside : Bool := match requestIds with
    | some ids => row.any fun x => x.1 ∉ ids
    | none => false
  if outside = true ∨ (row.any fun x => x.2.1 ≠ s.generation g) = true then none
  else
    let waits : List (Cmd Strm Nat Op) := if row.isEmpty then
        match s.tails.get? (g, cfg.bank l) with
        | some (generation, e) => if generation = s.generation g then [.wait .compute e] else []
        | none => []
      else row.map fun x => .wait .compute x.2.2
    some { s with
      prog := s.prog ++ waits
      loadDone := s.loadDone.pop (g, l)
      entered := put s.entered g true }

def Transfer.at_ : Place := ⟨t.group, t.next, t.step⟩

/-- The bank's FIFO stream is created for bank DMA only. -/
def Engine.bankStream : List (Nat × Nat) :=
  match t.path with
  | .dma => s.dmaStream t.group (cfg.bank t.next)
  | .direct => s.fifos

/-- What a transfer gives to the device: what its stream waits for, its work, and an event. -/
structure Job where
  pre : List (Cmd Strm Nat Op)
  stream : Strm
  event : Nat

/-- A transfer's commands. -/
def Job.cmds (job : Job) (op : Op) : List (Cmd Strm Nat Op) :=
  job.pre ++ [.launch job.stream op, .record job.event job.stream]

/-- A direct load waits for the save of the same layer, and for the compute stream. -/
def Engine.loadJob : Job :=
  let b := cfg.bank t.next
  match t.path with
  | .dma => ⟨[], .bank t.group b, s.events⟩
  | .direct =>
    let previous : List (Cmd Strm Nat Op) := match s.saveDone.get? (t.group, b, t.next) with
      | some (generation, e) => if generation = t.generation then [.wait .load e] else []
      | none => []
    ⟨previous ++ waitStream .load .compute s.events, .load, s.events + 1⟩

/-- The events of the loads of a layer. -/
def Engine.loadRow : Dict (Option String) (Nat × Nat) :=
  match s.loadDone.get? (t.group, t.next) with
  | some row => row
  | none => Dict.empty

/-- The load of a layer by `batched_to_gpu`; `none` when it raises. -/
def Engine.load (t : Transfer) : Option Engine :=
  let b := cfg.bank t.next
  if t.path = .dma ∧ cfg.banks ≤ t.next ∧ s.bankUsed t.group b (t.next - cfg.banks) = false then none
  else
    let job := s.loadJob cfg t
    some { s with
      fifos := s.bankStream cfg t
      prog := s.prog ++ job.cmds (.load t.at_)
      events := job.event + 1
      loadDone := s.loadDone.set (t.group, t.next)
        ((s.loadRow t).set t.req (t.generation, job.event)) }

def Engine.saveJob : Job :=
  match t.path with
  | .dma => ⟨[], .bank t.group (cfg.bank t.next), s.events⟩
  | .direct => ⟨waitStream .store .compute s.events, .store, s.events + 1⟩

/-- The generator goes on to its next layer. -/
def Transfer.advance : Transfer := { t with next := t.next + 1 }

/-- A save has recorded its event. -/
def Transfer.store (job : Job) : Transfer :=
  { t.advance with stored := t.stored.set job.stream job.event }

def Engine.setTransfer (t : Transfer) : Engine :=
  { s with transfers := s.transfers.set i t }

/-- The save of a layer by `batched_from_gpu`; `none` when it raises. -/
def Engine.save (i : Nat) (t : Transfer) : Option Engine :=
  let b := cfg.bank t.next
  if t.path = .dma ∧ s.bankUsed t.group b t.next = false then none
  else
    let job := s.saveJob cfg t
    some { s with
      fifos := s.bankStream cfg t
      prog := s.prog ++ job.cmds (.save t.at_)
      events := job.event + 1
      saveDone := s.saveDone.set (t.group, b, t.next) (t.generation, job.event)
      tails := s.tails.set (t.group, b) (t.generation, job.event)
      transfers := s.transfers.set i (t.store job)
      saves := ⟨i, s.prog.length + job.pre.length, t.at_, t.path, t.generation⟩ :: s.saves }

/-- The host has waited for some saves.  One that took the event of a direct save of its layer is
kept as long as that. -/
def Engine.settle (waited : Saved → Prop) [DecidablePred waited] : List Saved :=
  s.saves.filter fun z => ¬ waited z ∨ ∃ y ∈ s.saves, ¬ waited y ∧ y.path = .direct ∧
    y.at_.group = z.at_.group ∧ y.at_.layer = z.at_.layer

/-- The host waits for the last events of a save that is over. -/
def Engine.publish (t : Transfer) : Engine :=
  { s.setTransfer i { t with closed := true } with
    prog := s.prog ++ (t.stored.entries.map (fun x => .wait .host x.2) ++ [.sync .host])
    saves := s.settle fun z => z.owner = i }

/-- The streams that the `finally` block of a save waits for:
`_synchronize_layerwise_prefill_dma_streams`, or `store_stream`. -/
def Engine.drains : List (Cmd Strm Nat Op) :=
  match t.path with
  | .dma => (s.fifos.filter fun k => k.1 = t.group).map fun k => .sync (.bank k.1 k.2)
  | .direct => [.sync .store]

/-- A generator ends early; `pending` is `store_transfer_pending` of a save. -/
def Engine.close (t : Transfer) (pending : Bool) : Engine :=
  let s' := s.setTransfer i { t with closed := true }
  if t.dir = .save ∧ pending = true then
    { s' with
      prog := s.prog ++ s.drains t
      saves := s.settle fun z => z.path = t.path ∧ (t.path = .dma → z.at_.group = t.group) }
  else s'

/-- A generator is resumed for its next layer; it is over when it raises. -/
def Engine.resume (t : Transfer) : Engine :=
  if t.generation ≠ s.generation t.group then s.close i t (0 < t.next)
  else match t.dir with
    | .load => match s.load cfg t with
      | some s' => s'.setTransfer i t.advance
      | none => s.close i t false
    | .save => match s.save cfg i t with
      | some s' => s'
      | none => s.close i t true

/-- `reset_layerwise_prefill_transfer_state` of some groups (all of them when none is given). -/
def Engine.reset (groups : List Nat) (synchronize : Bool) : Engine :=
  let syncs : List (Cmd Strm Nat Op) := if synchronize then
      .sync .load :: .sync .store ::
        (s.fifos.filter fun k => k.1 ∈ groups).map fun k => .sync (.bank k.1 k.2)
    else []
  { s with
    prog := s.prog ++ syncs
    generation := fun g => if g ∈ groups then s.generation g + 1 else s.generation g
    saveDone := s.saveDone.keep fun k => k.1 ∉ groups
    loadDone := s.loadDone.keep fun k => k.1 ∉ groups
    uses := s.uses.keep fun k => k.1 ∉ groups
    saves := if synchronize then s.saves.filter fun z => z.path = .dma ∧ z.at_.group ∉ groups
      else s.saves }

/-- The layer order.  A layer is saved behind its final access.  It is loaded before its loads are
waited for, behind the saves of the layer that has used its bank before in this step and, on the
direct path, behind that layer's final access. -/
def Engine.InOrder : Prop :=
  match t.dir with
  | .save => t.next < s.layer t.group
  | .load => s.layer t.group ≤ t.next ∧ (t.next = s.layer t.group → s.entered t.group = false) ∧
    (cfg.banks ≤ t.next →
      (∀ u ∈ s.transfers, u.dir = .save → u.group = t.group → u.step = t.step → u.closed = false →
        t.next - cfg.banks < u.next) ∧
      (t.path = .direct → t.next - cfg.banks < s.layer t.group))

instance (t : Transfer) : Decidable (s.InOrder cfg t) := by
  unfold Engine.InOrder
  cases t.dir <;> infer_instance

end

inductive Action
  /-- A forward step of a KV group begins. -/
  | forward (group : Nat)
  /-- A request's generator is primed; it has one load of a KV group in a step. -/
  | begin (dir : Dir) (path : Path) (group : Nat) (req : Option String)
  | resume (i : Nat)
  | publish (i : Nat)
  | close (i : Nat)
  | wait (group : Nat) (requestIds : Option (List (Option String)))
  | access (group : Nat)
  | use (group : Nat)
  /-- At a step boundary. -/
  | reset (groups : List Nat) (synchronize : Bool)

def Engine.next (cfg : Config) (s : Engine) : Action → Option Engine
  | .forward g =>
    if s.layer g = cfg.layers g then
      some { s with step := put s.step g (s.step g + 1), layer := put s.layer g 0 }
    else none
  | .begin dir path g req =>
    if s.layer g = 0 ∧ s.entered g = false ∧ (dir = .load → ∀ u ∈ s.transfers, u.dir = .load →
        u.group = g → u.step = s.step g → u.req ≠ req) then
      some { s with
        transfers := s.transfers ++
          [⟨dir, path, g, req, s.generation g, s.step g, 0, false, Dict.empty⟩] }
    else none
  | .resume i => match s.transfers[i]? with
    | some t =>
      if t.closed = false ∧ t.step = s.step t.group ∧ t.next < cfg.layers t.group ∧
          s.InOrder cfg t then
        some (s.resume cfg i t)
      else none
    | none => none
  | .publish i => match s.transfers[i]? with
    | some t =>
      if t.closed = false ∧ t.dir = .save ∧ t.next = cfg.layers t.group then some (s.publish i t)
      else none
    | none => none
  | .close i => match s.transfers[i]? with
    | some t => if t.closed = false then some (s.close i t (0 < t.next)) else none
    | none => none
  | .wait g ids =>
    if s.layer g < cfg.layers g ∧ s.entered g = false then s.waitForLoad cfg g ids else none
  | .access g =>
    if s.entered g = true then
      some { s with prog := s.prog ++ [.launch .compute (.access ⟨g, s.layer g, s.step g⟩)] }
    else none
  | .use g => if s.entered g = true then some (s.recordBankUse cfg g) else none
  | .reset groups synchronize =>
    if ∀ g ∈ groups, s.layer g = cfg.layers g then some (s.reset groups synchronize) else none

def machine (cfg : Config) : Machine Engine Action where
  start s := s = Engine.init cfg
  step := Engine.next cfg

/-! ## The order in a bank -/

/-- The layer of `y` had the bank before the layer of `x`. -/
def Place.Before (banks : Nat) (y x : Place) : Prop :=
  y.group = x.group ∧ ((y.step = x.step ∧ y.layer + banks = x.layer) ∨
    (y.step < x.step ∧ y.layer % banks = x.layer % banks))

/-- The operations that must be over before another starts. -/
def Op.Precedes (banks : Nat) : Op → Op → Prop
  | .access y, .load x => y.Before banks x
  | .save y, .load x => y.Before banks x
  | .access y, .save x => y = x
  | .load y, .access x => y = x
  | _, _ => False

/-- Whatever the device does. -/
def Engine.Ordered (cfg : Config) (s : Engine) : Prop :=
  ∀ (S : Schedule s.prog) i j o o', Launched s.prog i o → Launched s.prog j o' →
    o.Precedes cfg.banks o' → S.finish i ≤ S.start j

/-- A load is resumed when the saves out of its bank that the host has not waited for went the same
path and, for a direct load, are of the same layer and generation. -/
def Kept (cfg : Config) (s : Engine) : Action → Prop
  | .resume i => ∀ t ∈ s.transfers[i]?, t.dir = .load →
    ∀ z ∈ s.saves, z.at_.group = t.group → cfg.bank z.at_.layer = cfg.bank t.next →
      z.path = t.path ∧
        (t.path = .direct → z.at_.layer = t.next ∧ z.generation = s.generation t.group)
  | _ => True

instance (cfg : Config) (s : Engine) (a : Action) : Decidable (Kept cfg s a) := by
  cases a <;> (unfold Kept; infer_instance)

end PrefillBanks
