import Mathlib.Data.List.Sort
import LMCacheAscend.Lib.Dict
import LMCacheAscend.Lib.Machine
import LMCacheAscend.Lib.Prog
import LMCacheAscend.RemoteFill.Protocol

/-!
# Hidden pages of the decoder

`AscendRemoteFillPageLifecycle` of `remote_fill.py`: `prepare_pages` allocates
and pins the destinations that are absent, `release_prepared_pages`,
`release_pages` and `commit_pages` give them up.  A page is the number of its
allocation.  Pins and references are plain counters, so the heap only logs what
was called on each page (`PageEvent`); a `_HiddenPage` is its place in `handles`
and is there from the return of the `prepare_pages` that made it.

What the key parser, the cache and the allocator answer is in `PagesConfig` and
`PrepareEnv`.
-/

namespace RemoteFill

open Lib List

inductive PageError
  | valueError (message : String)
  | typeError (message : String)
  | memoryError (message : String)
  | runtimeError (message : String)
  | unsafePageLifecycle (message : String)
  | exception (message : String)
deriving DecidableEq, Repr

/-- What the lifecycle compares of a `CacheEngineKey`. -/
structure PageKey where
  text : String
  modelName : String
  worldSize : Int
  workerId : Int
  chunkHash : String
  tags : List (String × String)
deriving DecidableEq, Repr

/-- `PreparedPage.handle`: `None`, a `_HiddenPage`, or an object of another type. -/
inductive Handle
  | none
  | hidden (i : Nat)
  | foreign
deriving DecidableEq, Repr

/-- `destination` is pointer and length, which the reservation repeats. -/
structure PreparedPage where
  handle : Handle
  destination : Option (Int × Int)
  disposition : PageDisposition
deriving DecidableEq, Repr

structure ReservedPageView where
  controlPage : ControlPage
  prepared : PreparedPage
deriving DecidableEq, Repr

/-- `_HiddenPage`. -/
structure HiddenPage where
  key : PageKey
  page : Nat
  unpinned : Bool
  referenceReleased : Bool
  released : Bool
deriving DecidableEq, Repr

inductive PageEvent
  | pin (page : Nat)
  | unpin (page : Nat)
  | refCountDown (page : Nat)
  /-- The local backend reported that it committed the prefix with these pages. -/
  | committed (pages : List Nat)
deriving DecidableEq, Repr

structure PageHeap where
  handles : List HiddenPage
  nextPage : Nat
  log : List PageEvent
deriving DecidableEq, Repr

structure PagesConfig where
  directGroups : List Nat
  directGroups_valid : directGroups = [0] ∨ directGroups = [0, 1]
  chunkSize : Int
  /-- `_validate_control_page`. -/
  validateControlPage : ControlPage → Except PageError PageKey

/-- What one `prepare_pages` meets; `0` and `1` are the first and the second call. -/
structure PrepareEnv where
  contains : Nat → PageKey → Except PageError Bool
  capacityAvailable : Nat → Int → Except PageError Bool
  capacityReclaimer : Option (Int → Except PageError Bool)
  /-- `batched_allocate_layer_pages`: how many pages it returned. -/
  allocate : Nat → Nat → Except PageError (Option Nat)
  pinPages : List Nat → Except PageError Bool
  getSize : Nat → Except PageError Int
  dataPtr : Nat → Except PageError Int

/-- The heap and the local variables of `prepare_pages`; `fresh` are the handles it made. -/
structure PrepareState where
  heap : PageHeap
  results : List (Option PreparedPage)
  allocated : List (Nat × Nat)
  pinned : Bool
  fresh : List HiddenPage

def PrepareState.new (heap : PageHeap) : PrepareState :=
  { heap := heap, results := [], allocated := [], pinned := false, fresh := [] }

abbrev PrepareM := Prog PageError PrepareState

abbrev PagesM := Prog PageError PageHeap

variable (cfg : PagesConfig)

/-- A call that returns or raises. -/
def lift {σ α : Type} : Except PageError α → Prog PageError σ α
  | .error e => throw e
  | .ok a => pure a

/-! ## Validation -/

def sharedKeyTags (key : PageKey) : List (String × String) :=
  key.tags.filter fun tag => tag.1 ≠ "dsa_idx"

/-- Every negotiated group of a chunk, or `none` if one is absent. -/
def groupItems (items : List (ControlPage × PageKey)) (chunkIndex : Int) :
    Option (List (ControlPage × PageKey)) :=
  cfg.directGroups.mapM fun group =>
    items.find? fun e => e.1.chunkIndex = chunkIndex && e.1.kvGroup = group

def sameWindowIdentity (reference e : ControlPage × PageKey) : Bool :=
  reference.1.chunkStart = e.1.chunkStart && reference.1.chunkEnd = e.1.chunkEnd &&
    reference.1.validTokens = e.1.validTokens && reference.2.chunkHash = e.2.chunkHash &&
    sharedKeyTags reference.2 = sharedKeyTags e.2

variable (pages : List ControlPage) (s : PrepareState)

/-- `_validate_window_groups`. -/
def validateWindowGroups (keys : List PageKey) : Except PageError Unit := do
  let items := pages.zip keys
  let chunkIndices := (pages.map ControlPage.chunkIndex).dedup.insertionSort (· ≤ ·)
  match chunkIndices.head?, chunkIndices.getLast? with
  | some first, some last =>
    if chunkIndices ≠ (range (last + 1 - first).toNat).map fun i => first + (i : Int) then
      throw (.valueError "remote-fill page window must be contiguous")
    chunkIndices.forM fun chunkIndex =>
      match groupItems cfg items chunkIndex with
      | none => throw (.valueError "remote-fill page window requires every negotiated group")
      | some [] => pure ()
      | some (reference :: rest) =>
        if rest.all (sameWindowIdentity reference) then pure ()
        else throw (.valueError "remote-fill window group identities do not match")
  | _, _ => throw (.valueError "remote-fill page window must not be empty")

def samePrefixIdentity (expectedValid : Int) (reference e : ControlPage × PageKey) : Bool :=
  e.1.validTokens = expectedValid && e.1.chunkStart = reference.1.chunkStart &&
    e.1.chunkEnd = reference.1.chunkEnd && e.2.chunkHash = reference.2.chunkHash &&
    e.2.modelName = reference.2.modelName && e.2.worldSize = reference.2.worldSize &&
    e.2.workerId = reference.2.workerId && sharedKeyTags e.2 = sharedKeyTags reference.2

/-- The pages of a required prefix with their keys, no selector twice. -/
def requiredItems : List ControlPage → List (ControlPage × PageKey) →
    Except PageError (List (ControlPage × PageKey))
  | [], items => pure items
  | page :: rest, items => do
    let key ← cfg.validateControlPage page
    if items.any fun e => e.1.chunkIndex = page.chunkIndex && e.1.kvGroup = page.kvGroup then
      throw (.valueError "remote-fill required page manifest is duplicated")
    requiredItems rest (items ++ [(page, key)])

/-- The items of one chunk of the required prefix. -/
def requiredChunk (items : List (ControlPage × PageKey)) (finish : FinishRequest)
    (chunkIndex : Int) : Except PageError (List (ControlPage × PageKey)) :=
  match groupItems cfg items chunkIndex with
  | none => throw (.valueError "remote-fill required page manifest has a hole")
  | some group =>
    let expectedEnd := min finish.requiredStoreEnd ((chunkIndex + 1) * cfg.chunkSize)
    let expectedValid := expectedEnd - chunkIndex * cfg.chunkSize
    match group.head? with
    | none => pure []
    | some reference =>
      if group.all (samePrefixIdentity expectedValid reference) then pure group
      else throw (.valueError "remote-fill negotiated-group page identity mismatch")

/-- `_validate_required_prefix`: the keys of each negotiated group. -/
def validateRequiredPrefix (finish : FinishRequest) :
    Except PageError (Dict Nat (List PageKey)) := do
  if finish.requiredStoreEnd < 0 then
    throw (.valueError "remote-fill required store end must be nonnegative")
  if finish.requiredStoreEnd = 0 then
    if pages ≠ [] ∨ finish.finalPartialValidTokens ≠ 0 then
      throw (.valueError "remote-fill empty prefix metadata is inconsistent")
    return cfg.directGroups.foldl (fun d group => d.set group []) Dict.empty
  let expectedChunks := (finish.requiredStoreEnd + cfg.chunkSize - 1) / cfg.chunkSize
  if (pages.length : Int) ≠ expectedChunks * cfg.directGroups.length then
    throw (.valueError "remote-fill required page manifest is incomplete")
  let items ← requiredItems cfg pages []
  let chunks ← (range expectedChunks.toNat).mapM fun i =>
    requiredChunk cfg items finish (i : Int)
  if finish.finalPartialValidTokens ≠ finish.requiredStoreEnd % cfg.chunkSize then
    throw (.valueError "remote-fill final partial-page metadata mismatch")
  return cfg.directGroups.foldl (fun d group => d.set group
    ((chunks.flatten.filter fun e => e.1.kvGroup = group).map Prod.snd)) Dict.empty

/-! ## `prepare_pages` -/

def PrepareState.setResult (index : Nat) (result : PreparedPage) : PrepareState :=
  { s with results := s.results.set index (some result) }

def PrepareState.logAll (events : List PageEvent) : PrepareState :=
  { s with heap := { s.heap with log := s.heap.log ++ events } }

/-- `_release_unpinned`. -/
def releaseUnpinned (pages : List Nat) : List PageEvent := pages.map PageEvent.refCountDown

/-- `_release_allocated`. -/
def releaseAllocated (pages : List Nat) (pinned : Bool) : List PageEvent :=
  pages.flatMap fun p => if pinned then [.unpin p, .refCountDown p] else [.refCountDown p]

variable (env : PrepareEnv)

/-- `classify_pages`: the indices of the missing pages. -/
def classifyPages (pass : Nat) : List PageKey → Nat → PrepareM (List Nat)
  | [], _ => pure []
  | key :: rest, index => do
    let present ← lift (env.contains pass key)
    modify fun s => s.setResult index
      { handle := .none, destination := none,
        disposition := if present then .existing else .missing }
    let missing ← classifyPages pass rest (index + 1)
    pure (if present then missing else index :: missing)

def expectedBytesAt (index : Nat) : Int :=
  (pages[index]?.map ControlPage.expectedBytes).getD 0

def requestedBytes (missing : List Nat) : Int :=
  (missing.map (expectedBytesAt pages)).sum

/-- The capacity check; `none` when nothing can be allocated. -/
def reserveCapacity (pages : List ControlPage) (keys : List PageKey) (missing : List Nat) :
    PrepareM (Option (List Nat)) := do
  let requested := requestedBytes pages missing
  if requested = 0 then pure (some missing)
  else if ← lift (env.capacityAvailable 0 requested) then pure (some missing)
  else match env.capacityReclaimer with
    | none => pure none
    | some reclaim => do
      let reclaimed ← lift (reclaim requested)
      let missing ← classifyPages env 1 keys 0
      if reclaimed then
        let available ← lift (env.capacityAvailable 1 (requestedBytes pages missing))
        pure (if available then some missing else none)
      else pure none

/-- `n` new pages. -/
def PrepareState.newPages (n : Nat) : PrepareState :=
  { s with heap := { s.heap with nextPage := s.heap.nextPage + n } }

/-- The missing pages of a group. -/
def groupIndices (missing : List Nat) (group : Nat) : List Nat :=
  missing.filter fun i => (pages[i]?.map ControlPage.kvGroup) = some group

/-- The destinations of one group. -/
def allocateGroup (pages : List ControlPage) (missing : List Nat) (group : Nat) :
    PrepareM Unit := do
  let indices := groupIndices pages missing group
  if indices = [] then pure ()
  else do
    match ← lift (env.allocate group indices.length) with
    | none => throw (.memoryError "remote-fill hidden page allocation failed")
    | some n => do
      let s ← get
      let groupPages := range' s.heap.nextPage n
      modify fun s => s.newPages n
      if n ≠ indices.length then do
        modify fun s => s.logAll (releaseUnpinned groupPages)
        throw (.memoryError "remote-fill hidden page allocation failed")
      else
        modify fun s => { s with allocated := s.allocated ++ indices.zip groupPages }

/-- `_pin_pages` over what was allocated. -/
def pinAllocated : PrepareM Unit := do
  let s ← get
  let allocatedPages := s.allocated.map Prod.snd
  if allocatedPages = [] then pure ()
  else if ← lift (env.pinPages allocatedPages) then
    modify fun s => { s.logAll (allocatedPages.map PageEvent.pin) with pinned := true }
  else throw (.memoryError "remote-fill hidden page pin failed")

/-- The loop that makes the handles. -/
def installHandles (pages : List ControlPage) (keys : List PageKey) :
    List (Nat × Nat) → PrepareM Unit
  | [] => pure ()
  | (index, page) :: rest => do
    let size ← lift (env.getSize page)
    if size ≠ expectedBytesAt pages index then
      throw (.valueError "remote-fill allocation byte count mismatch")
    else do
      let ptr ← lift (env.dataPtr page)
      match keys[index]? with
      | none => throw (.exception "index out of range")
      | some key => do
        modify fun s => { s.setResult index
            { handle := .hidden (s.heap.handles.length + s.fresh.length),
              destination := some (ptr, size), disposition := .allocated } with
          fresh := s.fresh ++ [⟨key, page, false, false, false⟩] }
        installHandles pages keys rest

/-- `finish_results`. -/
def finishResults : PrepareM (List PreparedPage) := do
  let s ← get
  match s.results.mapM id with
  | none => throw (.runtimeError "remote-fill page preparation omitted an input page")
  | some prepared => pure prepared

/-- `except Exception: self._release_allocated(...); raise`. -/
def releasingAllocated {α : Type} (p : PrepareM α) : PrepareM α :=
  tryCatch p fun e => do
    modify fun s => s.logAll (releaseAllocated (s.allocated.map Prod.snd) s.pinned)
    throw e

/-- The handles are with the caller now. -/
def PrepareState.handOut : PrepareState :=
  { s with heap := { s.heap with handles := s.heap.handles ++ s.fresh } }

def allocatePages (pages : List ControlPage) (keys : List PageKey) (missing : List Nat) :
    PrepareM (List PreparedPage) := do
  releasingAllocated do
    cfg.directGroups.forM (allocateGroup env pages missing)
    pinAllocated env
    let s ← get
    installHandles env pages keys s.allocated
  let prepared ← releasingAllocated finishResults
  modify PrepareState.handOut
  pure prepared

def preparePages (pages : List ControlPage) (reserveMissing : Bool) :
    PrepareM (List PreparedPage) := do
  let keys ← lift (pages.mapM cfg.validateControlPage)
  let selectors := pages.map fun p => (p.kvGroup, p.chunkIndex)
  if ¬ keys.Nodup ∨ ¬ selectors.Nodup then
    throw (.valueError "remote-fill page manifest contains duplicate pages")
  else do
    lift (validateWindowGroups cfg pages keys)
    modify fun s => { s with results := replicate pages.length none }
    let missing ← classifyPages env 0 keys 0
    if reserveMissing then
      match ← reserveCapacity env pages keys missing with
      | none => finishResults
      | some missing => allocatePages cfg env pages keys missing
    else finishResults

/-! ## Releases -/

/-- `_HiddenPage.release`, and what it calls on its page. -/
def HiddenPage.release (h : HiddenPage) : HiddenPage × List PageEvent :=
  if h.released then (h, [])
  else
    ({ h with unpinned := true, referenceReleased := true, released := true },
      (if h.unpinned then [] else [.unpin h.page]) ++
        if h.referenceReleased then [] else [.refCountDown h.page])

def PageHeap.releaseHandle (w : PageHeap) (i : Nat) : PageHeap :=
  match w.handles[i]? with
  | none => w
  | some h =>
    { w with handles := w.handles.set i h.release.1, log := w.log ++ h.release.2 }

/-- A `_HiddenPage` that some `prepare_pages` returned. -/
def PageHeap.hidden? (w : PageHeap) : Handle → Option Nat
  | .hidden i => if i < w.handles.length then some i else none
  | _ => none

/-- The loop of both releases: the heap and the invalid handles met. -/
def releaseEach : List PreparedPage → PageHeap → PageHeap × Nat
  | [], w => (w, 0)
  | prepared :: rest, w =>
    if prepared.disposition ≠ .allocated then releaseEach rest w
    else match w.hidden? prepared.handle with
      | none => ((releaseEach rest w).1, (releaseEach rest w).2 + 1)
      | some i => releaseEach rest (w.releaseHandle i)

def releaseHandles (what : String) (pages : List PreparedPage) : PagesM Unit := do
  let w ← get
  let (w, invalid) := releaseEach pages w
  modify fun _ => w
  if invalid ≠ 0 then
    throw (.typeError s!"remote-fill {what} pages contain {invalid} invalid allocated handles")
  else pure ()

def releasePreparedPages (pages : List PreparedPage) : PagesM Unit :=
  releaseHandles "prepared" pages

def releasePages (views : List ReservedPageView) : PagesM Unit :=
  releaseHandles "reserved" (views.map ReservedPageView.prepared)

/-! ## `commit_pages` -/

/-- How `commit_external_..._prefix_if_absent` ended. -/
inductive LocalCommit
  | rollbackError
  | raised (message : String)
  | returned (committed : Bool)

/-- The loop that collects the ready pages by key, and their handles. -/
def readyPages (w : PageHeap) (required : Dict Nat (List PageKey)) :
    List ReservedPageView → Dict PageKey Nat → List Nat →
      Except PageError (Dict PageKey Nat × List Nat)
  | [], ready, handles => pure (ready, handles)
  | view :: rest, ready, handles =>
    if view.prepared.disposition ≠ .allocated then readyPages w required rest ready handles
    else match w.hidden? view.prepared.handle with
      | none => throw (.typeError "remote-fill allocated page has an invalid handle")
      | some i =>
        if view.controlPage.kvGroup ∉ cfg.directGroups then
          throw (.valueError "remote-fill ready reservation group is invalid")
        else
          let groupKeys := (required.get? view.controlPage.kvGroup).getD []
          let chunkIndex := view.controlPage.chunkIndex
          if chunkIndex < 0 ∨ chunkIndex ≥ groupKeys.length then
            throw (.valueError "remote-fill ready reservation chunk is out of range")
          else match groupKeys[chunkIndex.toNat]?, w.handles[i]? with
            | some key, some handle =>
              if key ≠ handle.key ∨ key ∈ ready.keys then
                throw (.valueError "remote-fill ready reservation identity mismatch")
              else readyPages w required rest (ready.set key handle.page) (handles ++ [i])
            | _, _ => throw (.exception "index out of range")

def commitPages (requiredPages : List ControlPage) (views : List ReservedPageView)
    (finish : FinishRequest) (localCommit : Dict Nat (List PageKey) → Dict PageKey Nat →
      LocalCommit) : PagesM Bool := do
  let required ← lift (validateRequiredPrefix cfg requiredPages finish)
  let w ← get
  let (ready, handles) ← lift (readyPages cfg w required views Dict.empty [])
  match localCommit required ready with
  | .rollbackError =>
    throw (.unsafePageLifecycle "remote-fill LocalCPU admission rollback was incomplete")
  | .raised message => throw (.exception message)
  | .returned false => pure false
  | .returned true => do
    modify fun w => { w with log := w.log ++ [.committed (ready.entries.map Prod.snd)] }
    modify fun w => handles.foldl PageHeap.releaseHandle w
    pure true

/-! ## Machine -/

inductive PagesAction
  | preparePages (env : PrepareEnv) (pages : List ControlPage) (reserveMissing : Bool)
  | releasePreparedPages (pages : List PreparedPage)
  | releasePages (views : List ReservedPageView)
  | commitPages (requiredPages : List ControlPage) (views : List ReservedPageView)
      (finish : FinishRequest)
      (localCommit : Dict Nat (List PageKey) → Dict PageKey Nat → LocalCommit)

def PageHeap.step (w : PageHeap) : PagesAction → Option PageHeap
  | .preparePages env pages reserveMissing =>
    some (preparePages cfg env pages reserveMissing (.new w)).2.heap
  | .releasePreparedPages pages => some (RemoteFill.releasePreparedPages pages w).2
  | .releasePages views => some (RemoteFill.releasePages views w).2
  | .commitPages requiredPages views finish localCommit =>
    some (commitPages cfg requiredPages views finish localCommit w).2

/-- The calls of one lifecycle, one after the other. -/
def pagesMachine : Machine PageHeap PagesAction where
  start w := w = { handles := [], nextPage := 0, log := [] }
  step := PageHeap.step cfg

end RemoteFill
