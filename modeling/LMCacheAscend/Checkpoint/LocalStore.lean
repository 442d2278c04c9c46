import LMCacheAscend.Lib.Ledger
import LMCacheAscend.Lib.Slices
import LMCacheAscend.Checkpoint.Acquire
import LMCacheAscend.Checkpoint.Capture

/-!
# The store of local checkpoints

`LocalCheckpointStore` as programs: `acquire` and `available`, the pages of a
restore (`build_page`, `_assemble`), and `normalize`.  `Engine` answers what they
ask the engine and its cache, by the number of calls made before, so other
threads may act in between.  `refs` is the ledger of page references: a page that
a call hands over carries one.

`data` are the flat layer tensors of the pages.  In a layer the planes stand one
after the other, each with its tokens in order.
-/

namespace LocalStore

open Lib Checkpoint

/-- What the store raises: a Python exception, or a miss that the scheduler retries. -/
inductive StoreError
  | raised (e : PyError)
  | restoreMiss (availableEnd : Int) (message : String)
  deriving DecidableEq, Repr

/-- Plane widths, of every layer or of each. -/
inductive Widths
  | shared (widths : List Nat)
  | perLayer (widths : List (List Nat))

/-- `widths[layer] if widths and isinstance(widths[0], tuple) else widths`. -/
def Widths.layer : Widths → Nat → Option (List Nat)
  | .shared widths, _ => some widths
  | .perLayer [], _ => some []
  | .perLayer widths, layer => widths[layer]?

structure Engine (κ : Type) where
  chunkSize : Nat
  chunkSize_pos : 0 < chunkSize
  numLayers : Page → Nat
  validTokens : Page → Nat
  isValid : Nat → Page → Bool
  /-- `validate_checkpoint_page`. -/
  validate : Nat → Nat → Page → Except PyError Unit
  /-- `batched_get_layer_page_prefix`. -/
  pagePrefix : Nat → List κ → Except PyError (List Page × Nat)
  /-- `get_checkpoint_prefix`. -/
  cached : Nat → κ → Nat → Int → Except PyError (Option Page)
  /-- `load_checkpoint_prefix` of the tokens before the checkpoint. -/
  loadPrefix : Nat → List Int → Nat → Except PyError Page
  /-- `allocate_checkpoint_fragment`. -/
  allocate : Nat → Nat → Int → Except PyError (Page × Widths)
  /-- `reclaim_checkpoint_capacity`. -/
  reclaim : Nat → Int → Nat → Except PyError Bool
  /-- `checkpoint_token_results`: what it yields, and what it raises then. -/
  tokenResults : Nat → List Int → Nat → Int → List (Int × Int × κ) × Option PyError
  /-- `batched_submit_layer_pages`. -/
  submit : Nat → List κ → List Page → Except PyError Unit
  isCheckpointPageKey : κ → Bool
  remove : Nat → κ → Except PyError Unit
  /-- `self.manifests.get((req_id, generation)) is previous`. -/
  stillListed : Nat → Bool

/-- The pages of a group that an acquire holds. -/
abbrev Held (κ : Type) := List (CheckpointPage κ × Page)

structure StoreState (κ α : Type) where
  calls : Nat
  refs : Ledger Page
  data : Page → Nat → List α
  /-- `groups` of `acquire`. -/
  groups : Held κ × Held κ
  /-- `reclaimed` of `_allocation_retry`. -/
  reclaimed : Bool
  /-- `covered` and `owners` of `normalize`. -/
  covered : Int
  owners : List Page
  /-- The manifests that `normalize` put in the place of others. -/
  published : List (LocalCheckpoint κ)

abbrev StoreM (κ α : Type) := Prog StoreError (StoreState κ α)

section

variable {κ α β : Type}

/-- A call to the engine. -/
def ask (f : Nat → Except PyError β) : StoreM κ α β := do
  let s ← get
  modify fun s => { s with calls := s.calls + 1 }
  match f s.calls with
  | .error e => throw (.raised e)
  | .ok b => pure b

/-- The pages came with a reference each, or `ref_count_up` was called. -/
def takeRefs (pages : List Page) : StoreM κ α Unit :=
  modify fun s => { s with refs := s.refs.take pages }

/-- `ref_count_down`. -/
def dropRefs (pages : List Page) : StoreM κ α Unit :=
  modify fun s => { s with refs := s.refs.give pages }

def valueError (message : String) : StoreError := .raised (.valueError message)

def heldPages (l : Held κ) : List Page := l.map Prod.snd

/-- The pages of both groups. -/
def pagesOf (groups : Held κ × Held κ) : List Page := heldPages groups.1 ++ heldPages groups.2

variable (env : Engine κ)

/-! ## Acquiring -/

def getPage (group : Nat) (source : CheckpointPage κ) : StoreM κ α (Option Page) := do
  let (pages, count) ← ask fun n => env.pagePrefix n [source.key]
  takeRefs pages
  if count = 0 then pure none
  else match pages with
    | [] => throw (.raised (.exception "list index out of range"))
    | page :: _ =>
      tryCatch
        (do
          let valid ← ask fun n => .ok (env.isValid n page)
          if valid = false ∨ (env.validTokens page : Int) < source.end_ - source.start then
            throw (valueError "Invalid local checkpoint page")
          ask fun n => env.validate n group page
          pure (some page))
        fun e => do
          dropRefs [page]
          throw e

/-- The loop over the sources of a group; the cursor where it stops. -/
def acquireSources (group : Nat) (end_ : Int) : List (CheckpointPage κ) → Int → StoreM κ α Int
  | [], cursor => pure cursor
  | source :: rest, cursor =>
    if source.end_ ≤ cursor then acquireSources group end_ rest cursor
    else if source.start > cursor ∨ cursor ≥ end_ then pure cursor
    else do
      match ← getPage env group source with
      | none => pure cursor
      | some page =>
        modify fun s => { s with
          groups := setGroup s.groups group (ofGroup s.groups group ++ [(source, page)]) }
        acquireSources group end_ rest (min source.end_ end_)

/-- `while held and held[-1][0].start >= common: held.pop()[1].ref_count_down()`. -/
def trim (common : Int) : StoreM κ α Unit := do
  let late : CheckpointPage κ × Page → Bool := fun h => h.1.start ≥ common
  let s ← get
  dropRefs (heldPages (s.groups.1.rtakeWhile late) ++ heldPages (s.groups.2.rtakeWhile late))
  modify fun s => { s with groups := (s.groups.1.rdropWhile late, s.groups.2.rdropWhile late) }

/-- `release`. -/
def release (groups : Held κ × Held κ) : StoreM κ α Unit := dropRefs (pagesOf groups)

variable (manifest : LocalCheckpoint κ) (sources : Held κ)

def acquire (end_ : Int) : StoreM κ α (Int × Held κ × Held κ) := do
  modify fun s => { s with groups := ([], []) }
  tryCatch
    (do
      let e0 ← acquireSources env 0 end_ manifest.groups.1 manifest.prefixEnd
      let e1 ← acquireSources env 1 end_ manifest.groups.2 manifest.prefixEnd
      let common := min e0 e1
      trim common
      let s ← get
      pure (common, s.groups))
    fun e => do
      let s ← get
      release s.groups
      throw e

def available (manifest : Option (LocalCheckpoint κ)) (end_ : Int) : StoreM κ α Int :=
  match manifest with
  | none => pure 0
  | some manifest => do
    let (common, groups) ← acquire env manifest (min end_ manifest.tokens.length)
    release groups
    pure common

/-! ## One page of a restore -/

/-- A part of the target: where it is in its page and in the target. -/
structure Span where
  page : Page
  sourceOffset : Nat
  targetOffset : Nat
  count : Nat

/-- The first loop of `_assemble`, from `cursor` on. -/
def spansOf (start end_ : Int) : List Fragment → Int → Except StoreError (List Span)
  | [], cursor =>
    if cursor ≠ end_ then .error (valueError "Local checkpoint boundary is incomplete") else .ok []
  | f :: rest, cursor =>
    let left := max start f.start
    let right := min end_ f.end_
    if left ≠ cursor then
      .error (valueError "Local checkpoint boundary has a hole or overlap")
    else match spansOf start end_ rest right with
      | .error e => .error e
      | .ok spans =>
        .ok (⟨f.page, (left - f.start).toNat, (left - start).toNat, (right - left).toNat⟩ :: spans)

/-- Each plane's width, with the widths before it. -/
def planes : Nat → List Nat → List (Nat × Nat)
  | _, [] => []
  | preceding, width :: rest => (preceding, width) :: planes (preceding + width) rest

/-- `target[b : b + n].copy_(src[a : a + n])`. -/
structure SliceCopy where
  page : Page
  src : Nat
  dst : Nat
  size : Nat

/-- The copies of one layer into a target of `total` tokens. -/
def layerCopies (widths : List Nat) (total : Nat) (spans : List Span) : List SliceCopy :=
  spans.flatMap fun s => (planes 0 widths).map fun p =>
    { page := s.page
      src := env.validTokens s.page * p.1 + s.sourceOffset * p.2
      dst := total * p.1 + s.targetOffset * p.2
      size := s.count * p.2 }

/-- A layer tensor is written. -/
def StoreState.setData (s : StoreState κ α) (page : Page) (layer : Nat) (xs : List α) :
    StoreState κ α :=
  { s with data := fun p l => if p = page ∧ l = layer then xs else s.data p l }

def copySlice (destination : Page) (layer : Nat) (c : SliceCopy) : StoreM κ α Unit := do
  let s ← get
  let piece := ((s.data c.page layer).drop c.src).take c.size
  let target := s.data destination layer
  if piece.length ≠ ((target.drop c.dst).take c.size).length then
    throw (.raised (.exception "The size of tensor a must match the size of tensor b"))
  else modify fun s => s.setData destination layer (writeSlice target c.dst piece)

def assemble (destination : Page) (widths : Widths) (sources : List Fragment) (start end_ : Int) :
    StoreM κ α Unit :=
  match spansOf start end_ sources start with
  | .error e => throw e
  | .ok spans => (List.range (env.numLayers destination)).forM fun layer =>
    match widths.layer layer with
    | none => throw (.raised (.exception "tuple index out of range"))
    | some layerWidths =>
      (layerCopies env layerWidths (end_ - start).toNat spans).forM (copySlice destination layer)

/-- `reserve` of `_allocation_retry`: one reclaim for the whole operation. -/
def reserve (factory : StoreM κ α β) (group : Nat) (count : Int) : StoreM κ α β :=
  tryCatch factory fun e => match e with
    | .raised (.memoryError _) => do
      let s ← get
      if s.reclaimed then throw e
      else do
        modify fun s => { s with reclaimed := true }
        if ← ask fun n => env.reclaim n count group then factory else throw e
    | e => throw e

/-- The start of the chunk that the prefix ends in. -/
def baseOf : Int := manifest.prefixEnd / env.chunkSize * env.chunkSize

/-- The sources that overlap the target. -/
def selectedOf (start end_ : Int) : Held κ :=
  sources.filter fun s => s.1.start < end_ ∧ s.1.end_ > start

def fragmentOf (h : CheckpointPage κ × Page) : Fragment := ⟨h.1.start, h.1.end_, h.2⟩

/-- The only selected source, if it is the target. -/
def exactSource (selected : Held κ) (start end_ : Int) : Option Page :=
  match selected with
  | [(s, p)] =>
    if s.start = start ∧ s.end_ = end_ ∧ (env.validTokens p : Int) = end_ - start then some p
    else none
  | _ => none

/-- Where the retained prefix page is put in front of the sources, and up to where. -/
def prefixRange (selected : Held κ) (start : Int) : Option (Int × Int) :=
  match selected with
  | [] => none
  | (first, _) :: _ =>
    if start = baseOf env manifest ∧ first.start > baseOf env manifest then
      some (baseOf env manifest, min manifest.prefixEnd first.start)
    else none

/-- The prefix page, if it is needed. -/
def loadPrefix (manifest : LocalCheckpoint κ) (selected : Held κ) (group : Nat) (start : Int) :
    StoreM κ α (Option Fragment) :=
  match prefixRange env manifest selected start with
  | none => pure none
  | some range => do
    let page ← reserve env
      (do
        let page ← ask fun n =>
          env.loadPrefix n (manifest.tokens.take manifest.prefixEnd.toNat) group
        takeRefs [page]
        pure page)
      group (manifest.prefixEnd - baseOf env manifest)
    pure (some ⟨range.1, range.2, page⟩)

/-- The rest of `build_page`: a new page is filled. -/
def assemblePage (sources : List Fragment) (group : Nat) (start end_ : Int) : StoreM κ α Page := do
  let (page, widths) ← reserve env
    (do
      let r ← ask fun n => env.allocate n group (end_ - start)
      takeRefs [r.1]
      pure r)
    group (end_ - start)
  tryCatch
    (do
      assemble env page widths sources start end_
      pure page)
    fun e => do
      dropRefs [page]
      throw e

def buildPage (group : Nat) (start end_ : Int) (key : κ) : StoreM κ α Page := do
  let selected := selectedOf sources start end_
  match exactSource env selected start end_ with
  | some page => do
    takeRefs [page]
    pure page
  | none => do
    match ← ask fun n => env.cached n key group (end_ - start) with
    | some page => do
      takeRefs [page]
      pure page
    | none => do
      let prefix_ ← loadPrefix env manifest selected group start
      finally_ (assemblePage env (prefix_.toList ++ selected.map fragmentOf) group start end_)
        (dropRefs (prefix_.toList.map Fragment.page))

/-! ## Normalizing -/

/-- `_source_selector`: the sources of a window, and those that later windows look at. -/
def selectSources (start end_ : Int) : Held κ × Held κ :=
  let left := sources.dropWhile fun s => s.1.end_ ≤ start
  (left.takeWhile fun s => s.1.start < end_, left)

/-- The loop over the windows of a group. -/
def buildWindows (manifest : LocalCheckpoint κ) (length : Int) (group : Nat) :
    List (Int × Int × κ) → Held κ → StoreM κ α (Held κ)
  | [], _ => pure []
  | (start, end_, key) :: rest, sources => do
    let s ← get
    if start ≠ s.covered ∨ ¬(start < end_ ∧ end_ ≤ length) then
      throw (valueError "Normalized checkpoint coverage has a gap or overlap")
    else do
      let (selected, left) := selectSources sources start end_
      let page ← buildPage env manifest selected group start end_ key
      modify fun s => { s with owners := s.owners ++ [page], covered := end_ }
      let more ← buildWindows manifest length group rest left
      pure ((⟨start, end_, key⟩, page) :: more)

/-- The manifest with other pages for a group. -/
def withGroup (group : Nat) (pages : List (CheckpointPage κ)) : LocalCheckpoint κ :=
  { manifest with groups := setGroup manifest.groups group pages }

/-- The pages that were admitted are retained. -/
def retainInstalled (group : Nat) (normalized : List (CheckpointPage κ)) : StoreM κ α Unit := do
  let keys := normalized.map CheckpointPage.key
  let (installed, count) ← ask fun n => env.pagePrefix n keys
  takeRefs installed
  modify fun s => { s with owners := s.owners ++ installed }
  if count ≠ keys.length then
    match normalized[count]? with
    | some page =>
      throw (.restoreMiss page.start "Normalized checkpoint was evicted during admission")
    | none => throw (.raised (.exception "list index out of range"))
  else installed.forM fun page => ask fun n => env.validate n group page

/-- One group of `normalize`; the manifest afterwards. -/
def normalizeGroup (tokens : List Int) (group : Nat) (held : Held κ) (base : Int) :
    StoreM κ α (LocalCheckpoint κ) := do
  modify fun s => { s with covered := base }
  let (windows, failure) ← ask fun n => .ok (env.tokenResults n tokens group base)
  let built ← buildWindows env manifest tokens.length group windows held
  match failure with
  | some e => throw (.raised e)
  | none => do
    let s ← get
    if s.covered ≠ tokens.length then
      throw (valueError "Normalized checkpoint coverage omits the partial tail")
    else do
      let normalized := built.map Prod.fst
      ask fun n => env.submit n (normalized.map CheckpointPage.key) (heldPages built)
      let manifest := withGroup manifest group normalized
      if ← ask fun n => .ok (env.stillListed n) then
        modify fun s => { s with published := s.published ++ [manifest] }
      held.forM fun h =>
        if env.isCheckpointPageKey h.1.key then ask fun n => env.remove n h.1.key else pure ()
      retainInstalled env group normalized
      pure manifest

/-- The `try` of `normalize`. -/
def normalizeBoth (tokens : List Int) (common : Int) (groups : Held κ × Held κ) :
    StoreM κ α (Int × List Page) := do
  if common ≠ tokens.length then
    throw (.restoreMiss common "Local checkpoint was evicted before restore")
  else do
    let base := baseOf env manifest
    let manifest ← normalizeGroup env manifest tokens 0 groups.1 base
    let _ ← normalizeGroup env manifest tokens 1 groups.2 base
    let s ← get
    pure (base, s.owners)

def normalize (manifest : Option (LocalCheckpoint κ)) (tokens : List Int) :
    StoreM κ α (Int × List Page) :=
  match manifest with
  | none => throw (.restoreMiss 0 "Local checkpoint offer is unavailable")
  | some manifest => do
    if tokens ≠ manifest.tokens.take tokens.length then
      throw (valueError "Local checkpoint generation/history is unavailable")
    else do
      let (common, groups) ← acquire env manifest tokens.length
      modify fun s => { s with owners := [], reclaimed := false, covered := manifest.prefixEnd }
      finally_
        (tryCatch (normalizeBoth env manifest tokens common groups)
          fun e => do
            let s ← get
            dropRefs s.owners
            match e with
            | .raised (.memoryError _) =>
              throw (.restoreMiss (min (min s.covered common) (tokens.length - 1))
                "Local checkpoint boundary workspace is unavailable")
            | e => throw e)
        (release groups)

end

end LocalStore
