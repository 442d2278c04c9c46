import Mathlib.Data.Fintype.Basic
import LMCacheAscend.Lib.Dict
import LMCacheAscend.Lib.Machine

/-!
# Ordered checkpoint agreement

`_ordered_checkpoint_agreement`, `_checkpoint_prefix_result` and
`_receive_checkpoint_envelope`.  Rank 0 broadcasts a marker and contributes to
the collective, in one hold of its mailbox's condition, which every other
broadcast of it takes too.  On a passive rank the thread that receives the
marker (any that waits for an envelope) waits for the rank's own value under
the marker's identity, contributes it and puts the marker with the outcome
into the mailbox, where the agreement call finds it.

Of the mailbox there is what the source says of it: one thread at a time
receives, also while it is in the collective; what it received stays there
until it is taken; who waits for an envelope may time out.
-/

namespace CheckpointAgreement

open Lib

/-! ## Envelopes -/

/-- The identity of an envelope. -/
structure Key where
  reqId : String
  phase : String
  requestOrdinal : Nat
  layerId : Nat
  kvGroup : Nat
deriving DecidableEq, Repr

/-- The envelope is a marker. -/
def Key.agreement (k : Key) : Bool :=
  k.phase = "checkpoint_index_prefix" || k.phase = "checkpoint_remote_fill"

/-! ## Passive ranks -/

/-- A `Future`, and what it was made for. -/
structure Cell where
  key : Key
  value : Option Bool
deriving DecidableEq, Repr

inductive CallState
  /-- In `_receive_matching_shared_envelope`. -/
  | waiting
  | returned (ready : Bool)
  | timedOut
  /-- `set_result` raised, the value was set before. -/
  | invalid
deriving DecidableEq, Repr

structure Call where
  key : Key
  ready : Bool
  state : CallState
deriving DecidableEq, Repr

/-- What the one thread that receives is doing; it has the reader that was in place when it
began. -/
inductive Reader
  | idle
  | reading (armed : Bool)
  /-- In `result.result()`. -/
  | awaiting (key : Key) (cell : Nat)
  /-- In the collective, as the rank's `turn`-th reduction. -/
  | reducing (key : Key) (turn : Nat)
deriving DecidableEq, Repr

/-- `pending` holds the markers that the mailbox has, each with "its status is skipped". -/
structure Passive where
  armed : Bool
  taken : Nat
  reader : Reader
  prefixResults : Dict Key Nat
  cells : List Cell
  pending : List (Key × Bool)
  calls : List Call
  contributed : List (Key × Bool)

namespace Passive

variable (p : Passive)

def init : Passive :=
  { armed := false, taken := 0, reader := .idle, prefixResults := Dict.empty, cells := [],
    pending := [], calls := [], contributed := [] }

/-- `enable_checkpoint_prefix_agreement`. -/
def enable : Passive := { p with armed := true }

/-- `_checkpoint_prefix_result`: the rank with the cell in place, and the cell's number. -/
def prefixResult (k : Key) : Passive × Nat :=
  match p.prefixResults.get? k with
  | some f => (p, f)
  | none => ({ p with prefixResults := p.prefixResults.set k p.cells.length
                      cells := p.cells ++ [⟨k, none⟩] }, p.cells.length)

def value (f : Nat) : Option Bool := p.cells[f]?.bind Cell.value

/-- The first half of an agreement call: the value is set, or was. -/
def call (k : Key) (ready : Bool) : Passive :=
  let q := (p.enable.prefixResult k).1
  let f := (p.enable.prefixResult k).2
  match q.value f with
  | none => { q with cells := q.cells.set f ⟨k, some ready⟩
                     calls := q.calls ++ [⟨k, ready, .waiting⟩] }
  | some _ => { q with calls := q.calls ++ [⟨k, ready, .invalid⟩] }

/-- An agreement call ends; its `finally` pops the future. -/
def endCall (i : Nat) (c : Call) (state : CallState) : Passive :=
  { p with calls := p.calls.set i { c with state := state }
           prefixResults := p.prefixResults.pop c.key }

/-- The marker is in the mailbox. -/
def take (i : Nat) : Option Passive :=
  match p.calls[i]? with
  | some c =>
    if c.state = .waiting then
      match p.pending.find? fun e => e.1 = c.key with
      | some e => some { p.endCall i c (.returned e.2) with pending := p.pending.erase e }
      | none => none
    else none
  | none => none

def timeout (i : Nat) : Option Passive :=
  match p.calls[i]? with
  | some c => if c.state = .waiting then some (p.endCall i c .timedOut) else none
  | none => none

/-- A thread that waits for an envelope receives for all. -/
def read : Option Passive :=
  if p.reader = .idle then some { p with reader := .reading p.armed } else none

/-- `_receive_checkpoint_envelope`, or the reader of the base class. -/
def receive (k : Key) : Option Passive :=
  match p.reader with
  | .reading true =>
    if k.agreement then
      let q := (p.prefixResult k).1
      some { q with taken := p.taken + 1, reader := .awaiting k (p.prefixResult k).2 }
    else some { p with taken := p.taken + 1, reader := .idle }
  | .reading false =>
    some { p with taken := p.taken + 1, reader := .idle,
                  pending := if k.agreement then p.pending ++ [(k, true)] else p.pending }
  | _ => none

/-- The rank's value for its next reduction. -/
def contribute : Option Passive :=
  match p.reader with
  | .awaiting k f =>
    match p.value f with
    | some ready => some { p with reader := .reducing k p.contributed.length
                                  contributed := p.contributed ++ [(k, ready)] }
    | none => none
  | _ => none

end Passive

/-! ## Rank 0 -/

/-- What the holder of rank 0's condition is doing. -/
inductive Stage
  | free
  | marked (key : Key) (ready : Bool)
  | reducing (key : Key) (turn : Nat)
deriving DecidableEq, Repr

structure Leader where
  stage : Stage
  calls : List (Key × Bool)
  contributed : List (Key × Bool)
  results : List (Key × Bool)
deriving DecidableEq, Repr

/-- `sent` are the broadcasts of rank 0, which every passive rank receives in their order. -/
structure World (n : Nat) where
  sent : List Key
  leader : Leader
  passives : Fin n → Passive

inductive Action (n : Nat)
  | lead (k : Key) (ready : Bool)
  | leadContribute
  | leadConclude
  /-- Another control envelope. -/
  | broadcast (k : Key)
  | enable (r : Fin n)
  | call (r : Fin n) (k : Key) (ready : Bool)
  | take (r : Fin n) (i : Nat)
  | timeout (r : Fin n) (i : Nat)
  | read (r : Fin n)
  | receive (r : Fin n)
  | contribute (r : Fin n)
  | conclude (r : Fin n)
deriving DecidableEq, Repr

/-- The value of the `turn`-th contribution. -/
def said (contributed : List (Key × Bool)) (turn : Nat) : Bool :=
  (contributed[turn]?.map Prod.snd).getD false

namespace World

variable {n : Nat} (w : World n)

def init : World n := ⟨[], ⟨.free, [], [], []⟩, fun _ => Passive.init⟩

/-- `collective_all_true_fn`: every rank has made its `turn`-th contribution. -/
def reduced (turn : Nat) : Bool :=
  turn < w.leader.contributed.length ∧ ∀ r, turn < (w.passives r).contributed.length

def outcome (turn : Nat) : Bool :=
  said w.leader.contributed turn ∧ ∀ r, said (w.passives r).contributed turn = true

def setPassive (r : Fin n) (p : Passive) : World n :=
  { w with passives := Function.update w.passives r p }

def lead (k : Key) (ready : Bool) : Option (World n) :=
  if w.leader.stage = .free ∧ k.agreement then
    some { w with sent := w.sent ++ [k]
                  leader := { w.leader with stage := .marked k ready
                                            calls := w.leader.calls ++ [(k, ready)] } }
  else none

def leadContribute : Option (World n) :=
  match w.leader.stage with
  | .marked k ready =>
    some { w with leader := { w.leader with
             stage := .reducing k w.leader.contributed.length
             contributed := w.leader.contributed ++ [(k, ready)] } }
  | _ => none

def leadConclude : Option (World n) :=
  match w.leader.stage with
  | .reducing k turn =>
    if w.reduced turn then
      some { w with leader := { w.leader with
               stage := .free, results := w.leader.results ++ [(k, w.outcome turn)] } }
    else none
  | _ => none

/-- The thread that received the marker puts the outcome into the mailbox. -/
def conclude (r : Fin n) : Option (World n) :=
  match (w.passives r).reader with
  | .reducing k turn =>
    if w.reduced turn then
      some (w.setPassive r { w.passives r with
        reader := .idle, pending := (w.passives r).pending ++ [(k, w.outcome turn)] })
    else none
  | _ => none

def step : Action n → Option (World n)
  | .lead k ready => w.lead k ready
  | .leadContribute => w.leadContribute
  | .leadConclude => w.leadConclude
  | .broadcast k =>
    if w.leader.stage = .free ∧ k.agreement = false then some { w with sent := w.sent ++ [k] }
    else none
  | .enable r => some (w.setPassive r (w.passives r).enable)
  | .call r k ready =>
    if k.agreement then some (w.setPassive r ((w.passives r).call k ready)) else none
  | .take r i => ((w.passives r).take i).map (w.setPassive r)
  | .timeout r i => ((w.passives r).timeout i).map (w.setPassive r)
  | .read r => (w.passives r).read.map (w.setPassive r)
  | .receive r =>
    match w.sent[(w.passives r).taken]? with
    | some k => ((w.passives r).receive k).map (w.setPassive r)
    | none => none
  | .contribute r => (w.passives r).contribute.map (w.setPassive r)
  | .conclude r => w.conclude r

end World

def ranks (n : Nat) : Machine (World n) (Action n) where
  start w := w = World.init
  step := World.step

/-! ## Agreement -/

def keys (contributed : List (Key × Bool)) : List Key := contributed.map Prod.fst

namespace World

variable {n : Nat} (w : World n)

/-- The markers, in the order of their broadcasts. -/
def markers : List Key := w.sent.filter Key.agreement

/-- The conjunction of all ranks' own values. -/
def Consensus (k : Key) (ready : Bool) : Prop :=
  ∃ first, (k, first) ∈ w.leader.calls ∧ ∃ own : Fin n → Bool,
    (∀ r, ∃ c ∈ (w.passives r).calls, c.key = k ∧ c.ready = own r) ∧
    ready = (first && decide (∀ r, own r = true))

/-- Rank 0 is in an agreement. -/
def leading (k : Key) : Prop :=
  (∃ ready, w.leader.stage = .marked k ready) ∨ ∃ turn, w.leader.stage = .reducing k turn

end World

/-- A step of what goes on already. -/
def Action.internal {n : Nat} : Action n → Bool
  | .leadContribute => true
  | .leadConclude => true
  | .take .. => true
  | .read _ => true
  | .receive _ => true
  | .contribute _ => true
  | .conclude _ => true
  | _ => false

structure World.Agreed {n : Nat} (w : World n) : Prop where
  leaderOrder : keys w.leader.contributed <+: w.markers
  order : ∀ r, keys (w.passives r).contributed <+: w.markers
  leaderOnce : (keys w.leader.contributed).Nodup
  once : ∀ r, (keys (w.passives r).contributed).Nodup
  leaderOwn : ∀ e ∈ w.leader.contributed, e ∈ w.leader.calls
  own : ∀ r, ∀ e ∈ (w.passives r).contributed, ∃ c ∈ (w.passives r).calls,
    c.key = e.1 ∧ c.ready = e.2
  leaderObtains : ∀ e ∈ w.leader.results, w.Consensus e.1 e.2
  obtains : ∀ r, ∀ c ∈ (w.passives r).calls,
    c.state = .waiting ∨ ∃ ready, c.state = .returned ready ∧ w.Consensus c.key ready
  /-- The value that a thread waits for is set when the rank's call has begun. -/
  awaited : ∀ r k f, (w.passives r).reader = .awaiting k f →
    (∃ c ∈ (w.passives r).calls, c.key = k) → ((w.passives r).value f).isSome
  /-- Rank 0 does not wait for ever for ranks that are in the agreement. -/
  goesOn : ∀ k, w.leading k → (∀ r, ∃ c ∈ (w.passives r).calls, c.key = k) →
    ∃ a : Action n, a.internal ∧ (w.step a).isSome

/-! ## When it holds -/

/-- No agreement call times out, no identity is used again, and a marker is received by a thread
that began when its rank was armed. -/
def Safe {n : Nat} (w : World n) : Action n → Prop
  | .lead k _ => k ∉ w.sent
  | .call r k _ => ∀ c ∈ (w.passives r).calls, c.key ≠ k
  | .timeout _ _ => False
  | .receive r => (w.passives r).reader = .reading false →
      ∀ k, w.sent[(w.passives r).taken]? = some k → k.agreement = false
  | _ => True

end CheckpointAgreement
