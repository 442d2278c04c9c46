import Mathlib.Data.List.DropRight
import LMCacheAscend.Lib.Prog
import LMCacheAscend.Checkpoint.Writeback

/-!
# Acquiring a checkpoint for a restore

`LocalCheckpointStore.acquire` and `CheckpointWritebackStore._acquire` as
programs.  `record` is what the first lock region found under the manifest's
identity; `AcquireEnv` answers every later look at the store, the cache and the
remote tier by the number of calls made before, so other threads may act in
between.  `taken` and `released` log one entry per page reference.  An entry
that was loaded from the remote tier carries `remote`.
-/

namespace Checkpoint

open Lib

structure HeldPage (κ : Type) where
  source : CheckpointPage κ
  page : Page
  remote : Bool

def HeldPage.range {κ : Type} (h : HeldPage κ) : Int × Int := (h.source.start, h.source.end_)

/-- One canonical window: its raw pages and where it ends. -/
structure Plan (κ : Type) where
  descriptor : CheckpointPage κ
  held : List (HeldPage κ)
  right : Int

structure AcquireEnv (κ : Type) where
  frozen : Bool
  /-- `get_page`; it raises without a reference. -/
  getPage : Nat → Nat → CheckpointPage κ → Except PyError (Option Page)
  /-- `record.remote` at the recheck; `()` too if the record is no longer listed. -/
  recheck : Option (List (CheckpointPage κ) × List (CheckpointPage κ))
  probePages : List κ → Except PyError (List Bool)
  loadPage : Nat → κ → Nat → Int → Except PyError (Option Page)

structure AcquireState (κ : Type) where
  calls : Nat
  taken : List Page
  released : List Page
  groups : List (HeldPage κ) × List (HeldPage κ)
  plans : List (Plan κ) × List (Plan κ)
  /-- The `held` list of the plan that is being filled. -/
  window : List (HeldPage κ)
  missing : List κ

def AcquireState.new {κ : Type} : AcquireState κ :=
  { calls := 0, taken := [], released := [], groups := ([], []), plans := ([], []),
    window := [], missing := [] }

variable {κ : Type}

/-- Update the entry of a group. -/
def setGroup {α : Type} (p : α × α) (group : Nat) (a : α) : α × α :=
  if group = 0 then (a, p.2) else (p.1, a)

def heldPages (l : List (HeldPage κ)) : List Page := l.map HeldPage.page

abbrev AcquireM (κ : Type) := Prog PyError (AcquireState κ)

/-- A call that may hand over a page with one reference. -/
def callPage (f : Nat → Except PyError (Option Page)) : AcquireM κ (Option Page) := do
  let s ← get
  modify fun s => { s with calls := s.calls + 1 }
  match f s.calls with
  | .error e => throw e
  | .ok none => pure none
  | .ok (some page) => do
    modify fun s => { s with taken := s.taken ++ [page] }
    pure (some page)

variable (s : AcquireState κ)

def AcquireState.hold (group : Nat) (l : List (HeldPage κ)) : AcquireState κ :=
  { s with groups := setGroup s.groups group (ofGroup s.groups group ++ l) }

/-- `release` of the group lists. -/
def AcquireState.releaseGroups : AcquireState κ :=
  { s with
    released := s.released ++ heldPages s.groups.1 ++ heldPages s.groups.2
    groups := ([], []) }

/-- `while held and held[-1][0].start >= common: held.pop()[1].ref_count_down()`. -/
def AcquireState.trim (common : Int) : AcquireState κ :=
  let late : HeldPage κ → Bool := fun h => h.source.start ≥ common
  { s with
    released := s.released ++ heldPages (s.groups.1.rtakeWhile late) ++
      heldPages (s.groups.2.rtakeWhile late)
    groups := (s.groups.1.rdropWhile late, s.groups.2.rdropWhile late) }

variable (env : AcquireEnv κ)

/-! ## The local pages -/

/-- The loop over the sources of a group; the cursor where it stops. -/
def acquireGroup (group : Nat) (end_ : Int) : List (CheckpointPage κ) → Int → AcquireM κ Int
  | [], cursor => pure cursor
  | source :: rest, cursor =>
    if source.end_ ≤ cursor then acquireGroup group end_ rest cursor
    else if source.start > cursor ∨ cursor ≥ end_ then pure cursor
    else do
      match ← callPage fun n => env.getPage n group source with
      | none => pure cursor
      | some page => do
        modify fun s => s.hold group [⟨source, page, false⟩]
        acquireGroup group end_ rest (min source.end_ end_)

/-- The end of `acquire`: both groups are cut at their common end. -/
def takeCommon (ends : Int × Int) : AcquireM κ (Int × List (HeldPage κ) × List (HeldPage κ)) := do
  let common := min ends.1 ends.2
  modify fun s => s.trim common
  let s ← get
  pure (common, s.groups)

/-- `LocalCheckpointStore.acquire`. -/
def localAcquire (manifest : LocalCheckpoint κ) (end_ : Int) :
    AcquireM κ (Int × List (HeldPage κ) × List (HeldPage κ)) :=
  tryCatch
    (do
      let e0 ← acquireGroup env 0 end_ manifest.groups.1 manifest.prefixEnd
      let e1 ← acquireGroup env 1 end_ manifest.groups.2 manifest.prefixEnd
      takeCommon (e0, e1))
    fun e => do
      modify AcquireState.releaseGroups
      throw e

/-! ## Canonical windows -/

/-- The raw pages of a window, the cursor they reach and the sources left. -/
def windowSources (group : Nat) (right : Int) : List (CheckpointPage κ) → Int →
    AcquireM κ (Int × List (CheckpointPage κ))
  | [], cursor => pure (cursor, [])
  | source :: rest, cursor =>
    if source.end_ ≤ cursor then windowSources group right rest cursor
    else if source.start > cursor ∨ cursor ≥ right then pure (cursor, source :: rest)
    else do
      match ← callPage fun n => env.getPage n group source with
      | none => pure (cursor, source :: rest)
      | some page => do
        modify fun s => { s with window := s.window ++ [⟨source, page, false⟩] }
        -- the same source is looked at again: it is passed when it ends in the
        -- window, else the window is full
        if source.end_ ≤ right then windowSources group right rest source.end_
        else pure (right, source :: rest)

/-- The filled window joins the plans of its group. -/
def AcquireState.closeWindow (group : Nat) (descriptor : CheckpointPage κ) (right : Int) :
    AcquireState κ :=
  { s with
    plans := setGroup s.plans group (ofGroup s.plans group ++ [⟨descriptor, s.window, right⟩])
    window := [] }

/-- An incomplete window gives its raw pages back and asks for the remote page. -/
def AcquireState.dropWindow (key : κ) : AcquireState κ :=
  { s with released := s.released ++ heldPages s.window, window := [], missing := s.missing ++ [key] }

/-- The loop over the descriptors of a group. -/
def planGroup (group : Nat) (prefixEnd end_ : Int) :
    List (CheckpointPage κ) → List (CheckpointPage κ) → AcquireM κ Unit
  | [], _ => pure ()
  | descriptor :: rest, sources =>
    let left := max prefixEnd descriptor.start
    let right := min end_ descriptor.end_
    if left ≥ right then planGroup group prefixEnd end_ rest sources
    else do
      let (cursor, sources) ← windowSources env group right sources left
      modify fun s => (if cursor ≠ right then s.dropWindow descriptor.key else s).closeWindow group
        descriptor right
      planGroup group prefixEnd end_ rest sources

variable [DecidableEq κ]

/-- `dict(zip(missing, probe_checkpoint_pages(missing), strict=True))`. -/
def probeMissing : AcquireM κ (Dict κ Bool) := do
  let s ← get
  if s.missing = [] then pure Dict.empty
  else match env.probePages s.missing with
    | .error e => throw e
    | .ok answers =>
      if answers.length = s.missing.length then
        pure ((s.missing.zip answers).foldl (fun d e => d.set e.1 e.2) Dict.empty)
      else throw (.valueError "zip() arguments have different lengths")

/-- The plan in front leaves `plans`; its raw pages, if any, go to the group. -/
def AcquireState.popPlan (group : Nat) (plan : Plan κ) : AcquireState κ :=
  { s.hold group plan.held with plans := setGroup s.plans group (ofGroup s.plans group).tail }

/-- The loop over the plans of a group; the cursor where it stops. -/
def collectGroup (present : Dict κ Bool) (probe : Bool) (group : Nat) :
    List (Plan κ) → Int → AcquireM κ Int
  | [], cursor => pure cursor
  | plan :: rest, cursor =>
    if plan.held ≠ [] then do
      modify fun s => s.popPlan group plan
      collectGroup present probe group rest plan.right
    else if (present.get? plan.descriptor.key).getD false = false then pure cursor
    else if probe then do
      modify fun s => s.popPlan group plan
      collectGroup present probe group rest plan.right
    else do
      let page ← tryCatch
        (callPage fun n => env.loadPage n plan.descriptor.key group
          (plan.descriptor.end_ - plan.descriptor.start))
        fun e => match e with
          | .memoryError _ => pure none
          | e => throw e
      match page with
      | none => pure cursor
      | some page => do
        modify fun s => (s.popPlan group plan).hold group [⟨plan.descriptor, page, true⟩]
        collectGroup present probe group rest plan.right

/-- The `finally`: what is left in the plans is released. -/
def AcquireState.releasePlans : AcquireState κ :=
  { s with
    released := s.released ++ s.plans.1.flatMap (heldPages ·.held) ++
      s.plans.2.flatMap (heldPages ·.held) ++ heldPages s.window
    plans := ([], [])
    window := [] }

def planWindows (manifest : LocalCheckpoint κ) (end_ : Int)
    (remote : List (CheckpointPage κ) × List (CheckpointPage κ)) : AcquireM κ (Dict κ Bool) := do
  planGroup env 0 manifest.prefixEnd end_ remote.1 manifest.groups.1
  planGroup env 1 manifest.prefixEnd end_ remote.2 manifest.groups.2
  probeMissing env

def collectWindows (manifest : LocalCheckpoint κ) (probe : Bool) (present : Dict κ Bool) :
    AcquireM κ (Int × List (HeldPage κ) × List (HeldPage κ)) := do
  let s ← get
  let e0 ← collectGroup env present probe 0 s.plans.1 manifest.prefixEnd
  let e1 ← collectGroup env present probe 1 s.plans.2 manifest.prefixEnd
  takeCommon (e0, e1)

/-- The window merge of `_acquire`. -/
def remoteAcquire (manifest : LocalCheckpoint κ) (end_ : Int) (probe : Bool)
    (remote : List (CheckpointPage κ) × List (CheckpointPage κ)) :
    AcquireM κ (Int × List (HeldPage κ) × List (HeldPage κ)) := do
  let r ← tryCatch
    (do
      let present ← planWindows env manifest end_ remote
      collectWindows env manifest probe present)
    fun e => do
      modify fun s => s.releaseGroups.releasePlans
      throw e
  modify AcquireState.releasePlans
  pure r

/-! ## `_acquire` -/

/-- A record of another retention is not the manifest's. -/
def sameRetention (record : Option (Retention κ)) (manifest : LocalCheckpoint κ) :
    Option (Retention κ) :=
  record.filter fun r => r.manifest.retentionId = manifest.retentionId

/-- Retained raw sources are authoritative over the offer. -/
def effectiveManifest (record : Option (Retention κ)) (manifest : LocalCheckpoint κ) :
    LocalCheckpoint κ :=
  match record with
  | some r => if r.groups.1 ≠ [] ∧ r.groups.2 ≠ [] then r.manifest else manifest
  | none => manifest

def acquire (record : Option (Retention κ)) (manifest : LocalCheckpoint κ) (end_ : Int)
    (probe : Bool) : AcquireM κ (Int × List (HeldPage κ) × List (HeldPage κ)) :=
  let record := sameRetention record manifest
  let manifest := effectiveManifest record manifest
  if env.frozen then localAcquire env manifest end_
  else match record.bind (·.remote) with
    | some remote => remoteAcquire env manifest end_ probe remote
    | none => do
      let (common, held) ← localAcquire env manifest end_
      if common = end_ then pure (common, held)
      else match (if record.isSome then env.recheck else none) with
        | none => pure (common, held)
        | some remote => do
          modify AcquireState.releaseGroups
          remoteAcquire env manifest end_ probe remote

/-- `available`: a probe of the offer, whose pages are given back. -/
def available (record : Option (Retention κ)) (manifest : Option (LocalCheckpoint κ))
    (end_ : Int) : AcquireM κ Int :=
  match manifest with
  | none => pure 0
  | some manifest => do
    let (common, _) ← acquire env record manifest (min end_ manifest.tokens.length) true
    modify AcquireState.releaseGroups
    pure common

end Checkpoint
