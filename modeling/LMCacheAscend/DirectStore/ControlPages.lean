import LMCacheAscend.DirectStore.Plan
import LMCacheAscend.Lib.Blocks
import LMCacheAscend.RemoteFill.Pages

/-!
# Control pages of the producer

The control pages of a batch of direct pages (`remoteFillControlPages`) and of
the cached prefix (`remoteFillProbeControlPages`), in the order of chunks and
groups, each chunk with every direct group, and the windows they are cut into.

Events and tensors are their identities.  What a `CacheEngineKey` prints is
`pageKey`, the bytes of a page of the layout are `expectedBytes`.
-/

namespace DirectStore

open Lib RemoteFill

/-! ## Batches -/

structure DirectPageBatch (H : Type) where
  reqId : String
  keys : List (CacheKey H)
  ptrs : List (List Nat)
  sizes : List (List Nat)
  owners : List Nat
  readyEvent : Option Nat
  groupEnds : Dict Nat Nat
  ranges : List (Nat × Nat)
  readyEvents : List Nat

/-- `group_ends[group] = max(group_ends.get(group, 0), end)`. -/
def maxEnds (ends : Dict Nat Nat) (entries : List (Nat × Nat)) : Dict Nat Nat :=
  entries.foldl (fun d e => d.set e.1 (max ((d.get? e.1).getD 0) e.2)) ends

/-- `merge_deferred_remote_fill_batches`. -/
def mergeDeferredRemoteFillBatches {H : Type} (batches : List (DirectPageBatch H))
    (readyEvents : List Nat) : Except DirectError (DirectPageBatch H) :=
  match batches, readyEvents.getLast? with
  | batch :: _, some readyEvent =>
    if ∃ b ∈ batches, b.reqId ≠ batch.reqId then
      .error (.valueError "deferred remote-fill batches span requests")
    else .ok {
      reqId := batch.reqId
      keys := batches.flatMap fun b => b.keys
      ptrs := batches.flatMap fun b => b.ptrs
      sizes := batches.flatMap fun b => b.sizes
      owners := (Dict.fromKeys (batches.flatMap fun b => b.owners)).keys
      readyEvent := some readyEvent
      groupEnds := batches.foldl (fun d b => maxEnds d b.groupEnds.entries) Dict.empty
      ranges := batches.flatMap fun b => b.ranges
      readyEvents := readyEvents }
  | _, _ => .error (.valueError "deferred remote fill requires sources and fences")

/-! ## Pages -/

structure ProducerConfig (H : Type) where
  directGroups : List Nat
  directGroups_valid : directGroups = [0] ∨ directGroups = [0, 1]
  chunkSize : Nat
  windowTokens : Nat
  maxControlPagesPerWindow : Nat
  /-- The chunk size of the layout, of which `expectedBytes` are the bytes of a page. -/
  layoutChunkSize : Nat
  expectedBytes : Nat → Nat → Nat
  numLayersForGroup : Nat → Int
  layoutTag : String
  pageKey : CacheKey H → PageKey

section

variable {H : Type} (cfg : ProducerConfig H)

def controlPage (chunkSize : Nat) (key : CacheKey H) (kvGroup : Nat) (range : Nat × Nat)
    (expectedBytes : Nat) : ControlPage where
  canonicalKey := (cfg.pageKey key).text
  kvGroup := kvGroup
  chunkIndex := (range.1 / chunkSize : Nat)
  chunkStart := range.1
  chunkEnd := range.2
  validTokens := (range.2 : Int) - range.1
  expectedBytes := expectedBytes
  destinationTpRank := 0
  layerCount := cfg.numLayersForGroup kvGroup
  layoutTag := cfg.layoutTag

/-- The order of the pages of a window. -/
def PageLe (a b : ControlPage) : Prop :=
  a.chunkIndex < b.chunkIndex ∨ a.chunkIndex = b.chunkIndex ∧ a.kvGroup ≤ b.kvGroup

instance (a b : ControlPage) : Decidable (PageLe a b) :=
  inferInstanceAs (Decidable (_ ∨ _ ∧ _))

variable (pages : List ControlPage)

def sortPages : List ControlPage := pages.insertionSort PageLe

/-- The groups of each chunk. -/
def pageGroups : List ControlPage → Dict Int (List Nat) →
    Except DirectError (Dict Int (List Nat))
  | [], byChunk => .ok byChunk
  | page :: pages, byChunk =>
    let groups := (byChunk.get? page.chunkIndex).getD []
    if page.kvGroup ∈ groups then
      .error (.valueError "remote-fill page identity is duplicated")
    else pageGroups pages (byChunk.set page.chunkIndex (groups ++ [page.kvGroup]))

/-- `_remote_fill_validate_page_pairs`. -/
def validatePagePairs : Except DirectError Unit :=
  match pageGroups pages Dict.empty with
  | .error e => .error e
  | .ok byChunk =>
    if byChunk.entries = [] ∨ ∃ e ∈ byChunk.entries,
        (∃ g ∈ e.2, g ∉ cfg.directGroups) ∨ ∃ g ∈ cfg.directGroups, g ∉ e.2 then
      .error (.valueError "remote fill requires exact direct-group pages")
    else .ok ()

/-- The pages of a batch, the direct groups only. -/
def DirectPageBatch.items (batch : DirectPageBatch H) :
    List (CacheKey H × List Nat × Nat × Nat) :=
  (batch.keys.zip (batch.sizes.zip batch.ranges)).filter fun x => x.1.kvGroup ∈ cfg.directGroups

/-- `_remote_fill_control_pages`. -/
def remoteFillControlPages (batch : DirectPageBatch H) : Except DirectError (List ControlPage) :=
  if batch.keys.length ≠ batch.sizes.length ∨ batch.keys.length ≠ batch.ranges.length then
    .error (.valueError "remote-fill source page metadata is incomplete")
  else
    let pages := sortPages ((batch.items cfg).map fun x =>
      controlPage cfg cfg.chunkSize x.1 x.1.kvGroup x.2.2 x.2.1.sum)
    if ∃ page ∈ pages,
        page.expectedBytes ≠ cfg.expectedBytes page.kvGroup page.validTokens.toNat then
      .error (.valueError "remote-fill source page byte layout changed")
    else match validatePagePairs cfg pages with
      | .error e => .error e
      | .ok () => .ok pages

/-- The items of the plans that a probe covers. -/
def probeItems (plans : Plans H) (probeStart probeEnd : Nat) : List (Nat × PlanItem H) :=
  cfg.directGroups.flatMap fun group =>
    (((plans.get? group).getD []).filter fun x => probeStart < x.stop ∧ x.stop ≤ probeEnd).map
      fun x => (group, x)

/-- `_remote_fill_probe_control_pages`. -/
def remoteFillProbeControlPages (plans : Plans H) (probeStart probeEnd : Nat) :
    Except DirectError (List ControlPage) :=
  let pages := sortPages ((probeItems cfg plans probeStart probeEnd).map fun x =>
    controlPage cfg cfg.layoutChunkSize x.2.key x.1 (x.2.start, x.2.stop)
      (cfg.expectedBytes x.1 (x.2.stop - x.2.start)))
  if pages = [] then .ok []
  else match validatePagePairs cfg pages with
    | .error e => .error e
    | .ok () => .ok pages

/-! ## Windows -/

/-- `_remote_fill_pages_per_window`. -/
def remoteFillPagesPerWindow : Nat :=
  let groupCount := cfg.directGroups.length
  let byTokens := cfg.windowTokens / cfg.chunkSize * groupCount
  let maximum := min cfg.maxControlPagesPerWindow byTokens
  maximum - maximum % groupCount

/-- The windows of `submit_batch` and `submit_probe`; there are none when the limit is zero. -/
def controlWindows : List (List ControlPage) :=
  slices (remoteFillPagesPerWindow cfg) pages

end

end DirectStore
