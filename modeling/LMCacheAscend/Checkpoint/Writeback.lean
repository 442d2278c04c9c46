import LMCacheAscend.Lib.Machine
import LMCacheAscend.Checkpoint.LocalCheckpoint

/-!
# The checkpoint write-back store

`checkpoint_writeback.py` as a machine whose steps are its lock regions.  The
shared state is `Store`; the parts of a thread that outlive a region are the
group lists it still has to retire (`retiring`), the `forget` that
`restore_event` and `close` call after their region (`dueForgets`) and the
phase of the monitor (`Monitor`).  Retention objects are held by address, since
the monitor keeps its record across a `forget` that has popped it.

The physical size of a page does not change (`Config.size`).  What the
environment decides is in the actions: what `acquire` returned to a `publish`,
whether the monitor's thread starts, when the monitor finds pressure, and how a
spill ends.  `_uncharge_locked` is partial, as in the source: `none` is the
`KeyError`, and a region that meets it sets `keyError`.
-/

namespace Checkpoint

open Lib Function

/-! ## Charges -/

/-- `charges` (a page's owner count) and `used`. -/
structure Charges where
  counts : Dict Page Nat
  used : Int

def Charges.empty : Charges := ⟨Dict.empty, 0⟩

variable (size : Page → Nat) (c : Charges)

/-- One round of the loop of `_charge_locked`. -/
def chargeOne (p : Page) : Charges :=
  match c.counts.get? p with
  | none => ⟨c.counts.set p 1, c.used + size p⟩
  | some n => ⟨c.counts.set p (n + 1), c.used⟩

def chargeLocked (owners : List Page) : Charges :=
  owners.foldl (chargeOne size) c

/-- `_uncharge_locked`: the charges left and the bytes released. -/
def unchargeLocked (size : Page → Nat) (c : Charges) : List Page → Option (Charges × Int)
  | [] => some (c, 0)
  | p :: ps => do
    let n ← c.counts.get? p
    if n = 1 then
      let (c', released) ← unchargeLocked size ⟨c.counts.pop p, c.used - size p⟩ ps
      return (c', size p + released)
    else
      unchargeLocked size ⟨c.counts.set p (n - 1), c.used⟩ ps

/-- Bytes that charging `owners` would add. -/
def addedBytes (owners : List Page) : Nat :=
  ((owners.filter fun p => p ∉ c.counts.keys).map size).sum

/-! ## State -/

inductive RestoreEvent
  | begin
  | admitted
  | ack
  | failed
deriving DecidableEq, Repr

structure Retention (κ : Type) where
  manifest : LocalCheckpoint κ
  groups : Groups κ
  remote : Option (List (CheckpointPage κ) × List (CheckpointPage κ))
  attempts : Dict Int (List RestoreEvent)
  cancelled : Bool
  retryAt : Nat
  pages : Dict (Nat × CheckpointPage κ) Page

/-- A page of an unfinished PUT, or the group lists of the spill it belongs to. -/
inductive Quarantined (κ : Type)
  | page (p : Page)
  | groups (g : Groups κ)

/-- Where `_monitor` is.  `notStarted` is `thread is None`. -/
inductive Monitor (κ : Type)
  | notStarted
  | idle
  | spilling (rid : Nat) (groups : Groups κ)
  | retiring (retired groups : Groups κ)
  | finishing (groups : Groups κ) (died : Bool)
  | stopped

structure Store (κ : Type) where
  limit : Int
  reserve : Int
  manifests : Dict Identity (LocalCheckpoint κ)
  records : Dict Identity Nat
  retentions : Nat → Option (Retention κ)
  nextRetention : Nat
  nextObject : Nat
  charges : Charges
  closed : Bool
  fatal : Bool
  quarantine : List (Quarantined κ)
  retiring : List (Groups κ)
  dueForgets : List Identity
  monitor : Monitor κ
  keyError : Bool

/-- What the store reads of its engine. -/
structure Config where
  size : Page → Nat
  chunkSize : Int
  chunkSize_pos : 0 < chunkSize
  total : Int

theorem twoTokens_pos : (0 : Int) < 2 := by decide

variable {κ : Type} [DecidableEq κ] (cfg : Config)

variable (w : Store κ) (r : Retention κ) (identity : Identity)

def Store.setRetention (rid : Nat) (r : Retention κ) : Store κ :=
  { w with retentions := update w.retentions rid (some r) }

/-- `_uncharge_locked` in a region of the store. -/
def Store.uncharge (owners : List Page) : Store κ :=
  match unchargeLocked cfg.size w.charges owners with
  | some (c, _) => { w with charges := c }
  | none => { w with keyError := true }

/-! ## Lock regions -/

def Retention.new (manifest : LocalCheckpoint κ) (groups : Groups κ) : Retention κ :=
  { manifest := manifest, groups := groups, remote := none, attempts := Dict.empty,
    cancelled := false, retryAt := 0, pages := pageTable groups }

/-- The accepting branch of `publish`, up to the thread start. -/
def Store.retain (manifest : LocalCheckpoint κ) (groups : Groups κ) : Store κ :=
  { w with
    charges := chargeLocked cfg.size w.charges (ownersOf groups)
    records := w.records.set identity w.nextRetention
    retentions := update w.retentions w.nextRetention (some (.new manifest groups))
    nextRetention := w.nextRetention + 1 }

/-- The region of `publish` over what `acquire` returned; `starts` is what the
thread start does when there is no thread yet. -/
def Store.publish (manifest : LocalCheckpoint κ) (end_ : Int) (groups : Groups κ) (starts : Bool) :
    Store κ :=
  if w.closed then w
  else if identity ∈ w.records.keys then w
  else
    let manifest :=
      { manifest with identity := some identity, retentionId := some w.nextObject }
    let w := { w with
      manifests := w.manifests.set identity manifest
      nextObject := w.nextObject + 1 }
    let added : Int := addedBytes cfg.size w.charges (ownersOf groups)
    if end_ = manifest.tokens.length ∧ w.charges.used + added ≤ w.limit then
      let w := w.retain cfg identity manifest groups
      match w.monitor with
      | .notStarted =>
        if starts then { w with monitor := .idle }
        else Store.uncharge cfg { w with records := w.records.pop identity } (ownersOf groups)
      | _ => w
    else w

def Retention.tombstone : Retention κ :=
  { r with cancelled := true, groups := ([], []), pages := Dict.empty }

/-- The record that `forget` found: it is popped, cancelled, and its lists are retired. -/
def Store.dropRecord (key : Identity) (rid : Nat) (r : Retention κ) : Store κ :=
  { w.setRetention rid r.tombstone with
    records := w.records.pop key
    retiring := w.retiring ++ [r.groups] }

/-- One matching key of the region of `forget`. -/
def Store.forgetKey (key : Identity) : Store κ :=
  let w := { w with manifests := w.manifests.pop key }
  match w.records.get? key with
  | none => w
  | some rid => match w.retentions rid with
    | none => { w with records := w.records.pop key }
    | some r => w.dropRecord key rid r

/-- `forget`: every list it retires is handed to `_retire`. -/
def Store.forget (reqId : String) (generation : Option Int) : Store κ :=
  (w.manifests.keys.filter (matchesIdentity reqId generation)).foldl Store.forgetKey w

omit [DecidableEq κ] in
theorem Store.forget_induction {P : Store κ → Prop} {reqId : String} {generation : Option Int}
    (h : P w) (hkey : ∀ w key, matchesIdentity reqId generation key = true → P w →
      P (w.forgetKey key)) : P (w.forget reqId generation) :=
  List.foldlRecOn _ _ h fun w hw key hk => hkey w key (List.mem_filter.1 hk).2 hw

omit [DecidableEq κ] in
theorem Store.forget_retentions {P : (Nat → Option (Retention κ)) → Prop} {reqId : String}
    {generation : Option Int} (h : P w.retentions) (hdrop : ∀ f rid r, f rid = some r → P f →
      P (update f rid (some r.tombstone))) : P (w.forget reqId generation).retentions := by
  refine w.forget_induction (P := fun w => P w.retentions) h fun w key _ hw => ?_
  unfold Store.forgetKey
  simp only
  split
  · exact hw
  split
  · exact hw
  · next r hr => exact hdrop _ _ r hr hw

/-- The attempts after an event, and whether it retires the record; `none` for a stale
acknowledgement. -/
def joinEvent (attempts : Dict Int (List RestoreEvent)) (attempt : Int) (event : RestoreEvent) :
    Option (Dict Int (List RestoreEvent) × Bool) := do
  let events ← if event = .begin then some ((attempts.get? attempt).getD [])
    else attempts.get? attempt
  let events := events.insert event
  let retire : Bool := .admitted ∈ events ∧ .ack ∈ events ∧ .failed ∉ events
  if .failed ∈ events ∧ .ack ∈ events then return (attempts.pop attempt, retire)
  return (attempts.set attempt events, retire)

def Store.restoreEvent (attempt : Int) (event : RestoreEvent) : Store κ :=
  match w.records.get? identity with
  | none => w
  | some rid => match w.retentions rid with
    | none => w
    | some r => match joinEvent r.attempts attempt event with
      | none => w
      | some (attempts, retire) =>
        let w := w.setRetention rid { r with attempts := attempts }
        if retire then { w with dueForgets := w.dueForgets ++ [identity] } else w

/-- `_retire` of a list that a `forget` handed to the executor. -/
def Store.retire (i : Nat) : Option (Store κ) := do
  let g ← w.retiring[i]?
  return Store.uncharge cfg { w with retiring := w.retiring.eraseIdx i } (ownersOf g)

def Retention.eligible (now : Nat) : Bool :=
  r.remote.isNone && !r.cancelled && r.attempts.entries.isEmpty && r.retryAt ≤ now

/-- The monitor's selection, once it has decided that there is pressure. -/
def Store.select (now : Nat) : Option (Store κ) :=
  match w.monitor with
  | .idle =>
    let found := w.records.entries.findSome? fun e =>
      (w.retentions e.2).bind fun r => if r.eligible now then some (e.2, r) else none
    match found with
    | none => some w
    | some (rid, r) => some { w with
        charges := chargeLocked cfg.size w.charges (ownersOf r.groups)
        monitor := .spilling rid r.groups }
  | _ => none

/-- The coverage loop of `_spill` over the token results of one group. -/
def spillGroup (tokens covered : Int) : List (Int × Int × κ) → Option (List (CheckpointPage κ))
  | [] => if covered = tokens then some [] else none
  | (start, end_, key) :: rest =>
    if start = covered ∧ start < end_ ∧ end_ ≤ tokens then
      (spillGroup tokens end_ rest).map (⟨start, end_, key⟩ :: ·)
    else none

/-- `_spill` when no page of it fails: the descriptors of both groups, or `none`
where it raises on the ranges. -/
def spill (manifest : LocalCheckpoint κ) (results : List (Int × Int × κ) × List (Int × Int × κ)) :
    Option (List (CheckpointPage κ) × List (CheckpointPage κ)) := do
  let base := manifest.prefixEnd / cfg.chunkSize * cfg.chunkSize
  let g0 ← spillGroup manifest.tokens.length base results.1
  let g1 ← spillGroup manifest.tokens.length base results.2
  return (g0, g1)

def Retention.confirm (remote : List (CheckpointPage κ) × List (CheckpointPage κ)) : Retention κ :=
  { r with remote := some remote, groups := ([], []), pages := Dict.empty }

/-- A spill that returned: `()` when it was withdrawn (`results = none`), else its
descriptors. -/
def Store.spilled (results : Option (List (Int × Int × κ) × List (Int × Int × κ))) :
    Option (Store κ) :=
  match w.monitor with
  | .spilling rid groups => do
    let r ← w.retentions rid
    match results with
    | none => some { w with monitor := .retiring ([], []) groups }
    | some results =>
      let remote ← spill cfg r.manifest results
      if r.cancelled then some { w with monitor := .retiring ([], []) groups }
      else some { w.setRetention rid (r.confirm remote) with monitor := .retiring r.groups groups }
  | _ => none

/-- `time.monotonic() + 1.0`, in nanoseconds. -/
def second : Nat := 1000000000

/-- A spill that raised an `Exception`. -/
def Store.spillFailed (now : Nat) : Option (Store κ) :=
  match w.monitor with
  | .spilling rid groups => do
    let r ← w.retentions rid
    some { w.setRetention rid { r with retryAt := now + second } with
      monitor := .finishing groups false }
  | _ => none

/-- A spill that raised what `except Exception` does not catch. -/
def Store.spillDied : Option (Store κ) :=
  match w.monitor with
  | .spilling _ groups => some { w with monitor := .finishing groups true }
  | _ => none

/-- A spill whose native completion is unknown; `page` is the one of an unfinished PUT. -/
def Store.spillUnknown (page : Option Page) : Option (Store κ) :=
  match w.monitor with
  | .spilling _ groups => some { w with
      quarantine := w.quarantine ++ (page.map Quarantined.page).toList ++ [.groups groups]
      fatal := true
      monitor := .stopped }
  | _ => none

/-- `self._retire(retired)` after a spill that returned. -/
def Store.retireConfirmed : Option (Store κ) :=
  match w.monitor with
  | .retiring retired groups =>
    some (Store.uncharge cfg { w with monitor := .finishing groups false } (ownersOf retired))
  | _ => none

/-- `self._retire(groups)` in the `finally` of the monitor. -/
def Store.finishSpill : Option (Store κ) :=
  match w.monitor with
  | .finishing groups died =>
    let w := if died then { w with fatal := true, monitor := .stopped }
      else { w with monitor := .idle }
    some (Store.uncharge cfg w (ownersOf groups))
  | _ => none

/-- The monitor leaves its loop: it sees `closed` or `fatal`, or the loop itself raised. -/
def Store.monitorExit (raised : Bool) : Option (Store κ) :=
  match w.monitor with
  | .idle =>
    if raised then some { w with fatal := true, monitor := .stopped }
    else if w.closed ∨ w.fatal then some { w with monitor := .stopped }
    else none
  | _ => none

def Store.close : Store κ :=
  { w with closed := true, dueForgets := w.dueForgets ++ w.manifests.keys }

/-- The `forget` that `restore_event` and `close` call after their region. -/
def Store.runForget (i : Nat) : Option (Store κ) := do
  let identity ← w.dueForgets[i]?
  return Store.forget { w with dueForgets := w.dueForgets.eraseIdx i } identity.1 (some identity.2)

/-! ## Machine -/

inductive Action (κ : Type)
  | publish (identity : Identity) (manifest : LocalCheckpoint κ) (end_ : Int) (groups : Groups κ)
      (starts : Bool)
  | forget (reqId : String) (generation : Option Int)
  | restoreEvent (identity : Identity) (attempt : Int) (event : RestoreEvent)
  | runForget (i : Nat)
  | retire (i : Nat)
  | select (now : Nat)
  | spilled (results : Option (List (Int × Int × κ) × List (Int × Int × κ)))
  | spillFailed (now : Nat)
  | spillDied
  | spillUnknown (page : Option Page)
  | retireConfirmed
  | finishSpill
  | monitorExit (raised : Bool)
  | close

def Store.step : Action κ → Option (Store κ)
  | .publish identity manifest end_ groups starts =>
    some (w.publish cfg identity manifest end_ groups starts)
  | .forget reqId generation => some (w.forget reqId generation)
  | .restoreEvent identity attempt event => some (w.restoreEvent identity attempt event)
  | .runForget i => w.runForget i
  | .retire i => w.retire cfg i
  | .select now => w.select cfg now
  | .spilled results => w.spilled cfg results
  | .spillFailed now => w.spillFailed now
  | .spillDied => w.spillDied
  | .spillUnknown page => w.spillUnknown page
  | .retireConfirmed => w.retireConfirmed cfg
  | .finishSpill => w.finishSpill cfg
  | .monitorExit raised => w.monitorExit raised
  | .close => some w.close

/-- `__init__` with the two configured byte counts. -/
def Store.init (limit reserve : Int) : Store κ :=
  { limit := limit, reserve := reserve, manifests := Dict.empty, records := Dict.empty,
    retentions := fun _ => none, nextRetention := 0, nextObject := 0, charges := Charges.empty,
    closed := false, fatal := false, quarantine := [], retiring := [], dueForgets := [], monitor := .notStarted,
    keyError := false }

/-- `validate_capacity` does not raise. -/
def Store.validCapacity : Prop :=
  (0 < w.limit ∧ w.limit < cfg.total) ∧ 0 < w.reserve ∧ w.reserve < cfg.total

/-- The store and its threads; it starts as `__init__` leaves it, past the preflight check. -/
def writebackMachine : Machine (Store κ) (Action κ) where
  start w := ∃ limit reserve, w = Store.init limit reserve ∧ w.validCapacity cfg
  step := Store.step cfg

end Checkpoint
