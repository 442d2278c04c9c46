import LMCacheAscend.DirectStore.Windows
import Mathlib.Algebra.Order.BigOperators.Group.List
import Mathlib.Algebra.Order.Ring.Nat

/-!
# Sources that wait for the final call

In the final-deferred mode a store call that is not the last collects the
sources of its complete chunks in a batch and keeps it; a later call with a
fence merges the batches it finds.  A call whose existence lookup or whose put
raises stores its chunks through the CPU instead and keeps no batch
(`CallOutcome.retried`), while a call whose planner rejects the sources gives
the remote fill up.

A probe, the batch of one call, the batch of a tail and the two merged are cut
into windows that the decoder accepts (`ProbePlans.windows`, `CallBatch.windows`).
-/

namespace DirectStore

open Lib RemoteFill List

/-! ## Calls -/

/-- `planner(kvcaches, slot_mapping, starts, ends, group)`, item by item. -/
structure SourcePlanner (H : Type) where
  ptrs : Nat → PlanItem H → List Nat
  sizes : Nat → PlanItem H → List Nat
  owners : Nat → List Nat

/-- What the call does with its plans: the lookup and the put succeed, or one of them raises and
every group is stored through the CPU up to the given end. -/
inductive CallOutcome
  | collected
  | retried (committed : Nat → Nat)

structure StoreCall (τ : Type) where
  tokens : List τ
  groups : List Nat
  sourceReadyEvent : Option Nat
  outcome : CallOutcome

structure DeferredState (H : Type) where
  request : RequestState H
  deferredBatches : List (DirectPageBatch H)
  disabledReason : Option String

section

variable {τ H : Type} (cfg : ProducerConfig H) (planner : SourcePlanner H)

/-- `authoritative_candidates[group]`. -/
def candidates (s : RequestState H) (plans : Plans H) (group : Nat) : List (PlanItem H) :=
  ((plans.get? group).getD []).filter fun x =>
    s.submitted group < x.stop ∧ x.stop - x.start = cfg.chunkSize

/-- The sources of the direct groups. -/
def remoteItems (s : RequestState H) (plans : Plans H) (groups : List Nat) :
    List (Nat × PlanItem H) :=
  (groups.filter fun g => g ∈ cfg.directGroups).flatMap fun g =>
    (candidates cfg s plans g).map fun x => (g, x)

/-- `remote_batch`. -/
def remoteBatch (reqId : String) (readyEvent : Option Nat) (readyEvents : List Nat)
    (items : List (Nat × PlanItem H)) : DirectPageBatch H where
  reqId := reqId
  keys := items.map fun x => x.2.key
  ptrs := items.map fun x => planner.ptrs x.1 x.2
  sizes := items.map fun x => planner.sizes x.1 x.2
  owners := (Dict.fromKeys (items.flatMap fun x => planner.owners x.1)).keys
  readyEvent := readyEvent
  groupEnds := items.foldl (fun d x => d.set x.1 x.2.stop) Dict.empty
  ranges := items.map fun x => (x.2.start, x.2.stop)
  readyEvents := readyEvents

/-- The put is registered, or every page is there. -/
def RequestState.raiseSubmitted (s : RequestState H) (plans : Plans H) (groups : List Nat) :
    RequestState H :=
  groups.foldl (fun (t : RequestState H) g =>
    match (candidates cfg s plans g).getLast? with
    | none => t
    | some x => { t with submittedEnd := t.submittedEnd.set g (max (t.submitted g) x.stop) }) s

/-- `_retry_direct_cpu`. -/
def RequestState.retryDirectCpu (s : RequestState H) (groups : List Nat)
    (committed : Nat → Nat) : RequestState H :=
  groups.foldl (fun (t : RequestState H) g => { t with
    committedEnd := t.committedEnd.set g (committed g)
    submittedEnd := t.submittedEnd.set g (committed g) }) s

variable [DecidableEq H] (db : TokenDatabase τ H)

/-- A call of `store_direct_prefill` that is not final, in the final-deferred mode. -/
def deferredCall (reqId : String) (s : DeferredState H) (call : StoreCall τ) :
    Except DirectError (DeferredState H) :=
  match directSuffixPlans db cfg.chunkSize s.request call.tokens call.groups with
  | (.error e, _) => .error e
  | (.ok plans, request) =>
    match call.outcome with
    | .retried committed =>
      .ok { s with request := request.retryDirectCpu call.groups committed }
    | .collected =>
      let items := remoteItems cfg request plans call.groups
      let s := { s with request := request.raiseSubmitted cfg plans call.groups }
      if s.disabledReason ≠ none ∨ items = [] then .ok s
      else if ∃ g ∈ cfg.directGroups, g ∉ items.map Prod.fst then
        .ok { s with disabledReason := some "incomplete_page_pair" }
      else
        let batch := remoteBatch planner reqId call.sourceReadyEvent [] items
        .ok { s with deferredBatches := s.deferredBatches ++ [batch] }

/-- What comes between two merges. -/
inductive DeferredAction (τ H : Type)
  | store (call : StoreCall τ)
  | adopt (result : LayerwiseStoreResult H)
  /-- The other writes of `submitted_end`: groups opened at the verified prefix, puts, tails. -/
  | submitted (group stop : Nat)

/-- A call that raises leaves what it found. -/
def DeferredState.step (reqId : String) (s : DeferredState H) : DeferredAction τ H → DeferredState H
  | .store call =>
    match deferredCall cfg planner db reqId s call with
    | .error _ => s
    | .ok t => t
  | .adopt result =>
    match adoptCompletedLayerwiseStore cfg.chunkSize s.request result with
    | .error _ => s
    | .ok request => { s with request := request }
  | .submitted group stop =>
    { s with request := { s.request with submittedEnd := s.request.submittedEnd.set group stop } }

def deferredRun (reqId : String) (s : DeferredState H) (actions : List (DeferredAction τ H)) :
    DeferredState H :=
  actions.foldl (DeferredState.step cfg planner db reqId) s

/-- The key of a tail in a group. -/
def tailKey (x : PlanItem H) (group : Nat) : CacheKey H :=
  if group = 0 then x.key
  else ((db.processHashes [x.key.chunkHash] [x.stop - x.start] group).head?.map PlanItem.key).getD
    x.key

/-- The sources of a tail. -/
def tailItems (x : PlanItem H) : List (Nat × PlanItem H) :=
  cfg.directGroups.map fun g => (g, { x with key := tailKey db x g })

end

/-! ## The batch of one call -/

section

variable {τ H : Type} [DecidableEq H] {cfg : ProducerConfig H} {planner : SourcePlanner H}
  {dcfg : PagesConfig} {parse : String → PageKey} {c : HashChain τ H} {db : TokenDatabase τ H}

variable {events : List Nat} {reqId : String} {pages : List ControlPage}

omit [DecidableEq H] in
theorem mem_items_remoteBatch {event : Option Nat} {items : List (Nat × PlanItem H)}
    {e : CacheKey H × List Nat × Nat × Nat} :
    e ∈ (remoteBatch planner reqId event events items).items cfg ↔
      ∃ x ∈ items, x.2.key.kvGroup ∈ cfg.directGroups ∧
        e = (x.2.key, planner.sizes x.1 x.2, x.2.start, x.2.stop) := by
  have hzip : ∀ l : List (Nat × PlanItem H), (l.map fun x => x.2.key).zip
      ((l.map fun x => planner.sizes x.1 x.2).zip (l.map fun x => (x.2.start, x.2.stop))) =
      l.map fun x => (x.2.key, planner.sizes x.1 x.2, x.2.start, x.2.stop) := by
    intro l
    induction l with
    | nil => rfl
    | cons x l ih => simp only [map_cons, zip_cons_cons, ih]
  unfold DirectPageBatch.items remoteBatch
  simp only
  rw [hzip, mem_filter, mem_map, decide_eq_true_eq]
  constructor
  · rintro ⟨⟨x, hx, rfl⟩, hg⟩
    exact ⟨x, hx, hg, rfl⟩
  · rintro ⟨x, hx, hg, rfl⟩
    exact ⟨⟨x, hx, rfl⟩, hg⟩

omit [DecidableEq H] in
/-- Merged batches have the items of all of them. -/
theorem mem_items_merge {l : List (Option Nat × List Nat × List (Nat × PlanItem H))}
    {batch : DirectPageBatch H}
    (h : mergeDeferredRemoteFillBatches
      (l.map fun b => remoteBatch planner reqId b.1 b.2.1 b.2.2) events = .ok batch)
    {e : CacheKey H × List Nat × Nat × Nat} :
    e ∈ batch.items cfg ↔ ∃ x ∈ l.flatMap fun b => b.2.2, x.2.key.kvGroup ∈ cfg.directGroups ∧
      e = (x.2.key, planner.sizes x.1 x.2, x.2.start, x.2.stop) := by
  have hitems : e ∈ (remoteBatch planner reqId none [] (l.flatMap fun b => b.2.2)).items cfg ↔ _ :=
    mem_items_remoteBatch
  rw [← hitems]
  unfold mergeDeferredRemoteFillBatches at h
  split at h
  · split at h
    · cases h
    · cases h
      unfold DirectPageBatch.items remoteBatch
      simp only [flatMap_map, map_flatMap]
  · cases h

omit [DecidableEq H] in
/-- The windows of a batch of items of one plan, of which it has all that end above a bound. -/
theorem planItems_windows (hpos : 0 < cfg.chunkSize)
    (hgroups : dcfg.directGroups = cfg.directGroups) {ids : List (Nat × Nat × H)}
    (hids : Contiguous cfg.chunkSize ids) (lo : Nat → Nat) {items : List (Nat × PlanItem H)}
    (hmem : ∀ x ∈ items, x.2.identity ∈ ids ∧ lo x.2.key.kvGroup < x.2.stop)
    (hall : ∀ id ∈ ids, lo 0 < id.2.1 → ∃ x ∈ items, x.2.key.kvGroup = 0 ∧ x.2.identity = id)
    {batch : DirectPageBatch H}
    (hbatch : ∀ e, e ∈ batch.items cfg ↔ ∃ x ∈ items, x.2.key.kvGroup ∈ cfg.directGroups ∧
      e = (x.2.key, planner.sizes x.1 x.2, x.2.start, x.2.stop))
    (hkeys : RoundTrips cfg parse ((batch.items cfg).map Prod.fst))
    (h : remoteFillControlPages cfg batch = .ok pages) :
    ∀ w ∈ controlWindows cfg pages, WindowPasses dcfg parse w := by
  obtain ⟨hsorted, hp, hpages⟩ := remoteFillControlPages_ok h
  have hzero := cfg.zero_mem
  have hfrom : FromPlan cfg cfg.chunkSize ids lo (ids.map fun id => id.2.1).sum
      ((batch.items cfg).map Prod.fst) pages := by
    refine ⟨fun x hx => ?_, fun id hid h1 _ => ?_⟩
    · obtain ⟨e, he, rfl⟩ := (hpages x).1 hx
      have hkey := mem_map_of_mem (f := Prod.fst) he
      obtain ⟨⟨g, y⟩, hy, hg, rfl⟩ := (hbatch e).1 he
      obtain ⟨hid, hlt⟩ := hmem _ hy
      exact ⟨y.identity, hid, y.key, hkey, _, rfl, rfl, hlt,
        single_le_sum (fun _ _ => Nat.zero_le _) _ (mem_map.2 ⟨_, hid, rfl⟩)⟩
    · obtain ⟨y, hy, hy0, rfl⟩ := hall id hid h1
      exact ⟨_, (hpages _).2 ⟨_, (hbatch _).2 ⟨y, hy, hy0 ▸ hzero, rfl⟩, rfl⟩, rfl⟩
  exact hfrom.windows hids hpos hkeys hgroups hsorted hp

variable {s s' : RequestState H} {groups : List Nat} {plans : Plans H}

omit [DecidableEq H] in
theorem mem_remoteItems {g : Nat} {x : PlanItem H} :
    (g, x) ∈ remoteItems cfg s plans groups ↔ g ∈ groups ∧ g ∈ cfg.directGroups ∧
      x ∈ (plans.get? g).getD [] ∧ s.submitted g < x.stop ∧ x.stop - x.start = cfg.chunkSize := by
  unfold remoteItems candidates
  simp only [mem_flatMap, mem_filter, decide_eq_true_eq, mem_map, Prod.mk.injEq]
  constructor
  · rintro ⟨g', hg', x', hx', rfl, rfl⟩
    exact ⟨hg'.1, hg'.2, hx'⟩
  · rintro ⟨hg, hd, hx⟩
    exact ⟨g, ⟨hg, hd⟩, x, hx, rfl, rfl⟩

theorem remoteBatch_windows (hdb : db.Follows c) (hchunk : cfg.chunkSize = c.chunkSize)
    (hgroups : dcfg.directGroups = cfg.directGroups) {tokens : List τ}
    (hdvd : c.chunkSize ∣ s.plannedEnd) (hdirect : ∀ g ∈ cfg.directGroups, g ∈ groups)
    (hplans : directSuffixPlans db cfg.chunkSize s tokens groups = (.ok plans, s'))
    {event : Option Nat}
    (hkeys : RoundTrips cfg parse (((remoteBatch planner reqId event events
      (remoteItems cfg s' plans groups)).items cfg).map Prod.fst))
    (h : remoteFillControlPages cfg
      (remoteBatch planner reqId event events (remoteItems cfg s' plans groups)) = .ok pages) :
    ∀ w ∈ controlWindows cfg pages, WindowPasses dcfg parse w := by
  rw [hchunk] at hplans
  obtain ⟨ids, hids, hagree⟩ := directSuffixPlans_agree hdb hdvd hplans
  obtain ⟨hgroup, hfull⟩ := directSuffixPlans_items hdb hdvd hplans
  have hzero := cfg.zero_mem
  refine planItems_windows (hchunk ▸ c.chunkSize_pos) hgroups (hchunk ▸ hids) s'.submitted
    ?_ ?_ (fun e => mem_items_remoteBatch) hkeys h
  · rintro ⟨g, x⟩ hx
    obtain ⟨hg, -, hplan, hlt, -⟩ := mem_remoteItems.1 hx
    have hg := mem_append_left [0] hg
    refine ⟨hagree g hg ▸ mem_map_of_mem hplan, ?_⟩
    rw [hgroup g hg x hplan]
    exact hlt
  · intro id hid hlt
    have h0 := mem_append_left [0] (hdirect 0 hzero)
    rw [← hagree 0 h0] at hid
    obtain ⟨y, hy, rfl⟩ := mem_map.1 hid
    have hsize := hfull 0 h0 y hy
    exact ⟨(0, y), mem_remoteItems.2 ⟨hdirect 0 hzero, hzero, hy, hlt, by omega⟩, hgroup 0 h0 y hy,
      rfl⟩

/-! ## What the decoder accepts of the producer -/

/-- The plans that a probe is given: those of the call, those of the cached prefix, or the one
partial item of each group that is there. -/
inductive ProbePlans (cfg : ProducerConfig H) (db : TokenDatabase τ H) : Plans H → Prop
  | suffix {s s' : RequestState H} {tokens : List τ} {groups : List Nat} {plans : Plans H} :
    cfg.chunkSize ∣ s.plannedEnd → (∀ g ∈ cfg.directGroups, g ∈ groups) →
    directSuffixPlans db cfg.chunkSize s tokens groups = (.ok plans, s') → ProbePlans cfg db plans
  | cachedPrefix {tokens : List τ} {prefixEnd : Nat} {plans : Plans H} :
    remoteFillPrefixPlans db cfg.directGroups tokens prefixEnd = .ok plans → ProbePlans cfg db plans
  | tail {id : Nat × Nat × H} {plans : Plans H} : id.1 < id.2.1 →
    (∀ g ∈ cfg.directGroups, ((plans.get? g).getD []).map PlanItem.identity = [] ∨
      ((plans.get? g).getD []).map PlanItem.identity = [id]) → ProbePlans cfg db plans

theorem ProbePlans.windows (hdb : db.Follows c) (hchunk : cfg.chunkSize = c.chunkSize)
    (hlayout : cfg.layoutChunkSize = c.chunkSize) (hgroups : dcfg.directGroups = cfg.directGroups)
    {plans : Plans H} (hplans : ProbePlans cfg db plans) {probeStart probeEnd : Nat}
    (hkeys : RoundTrips cfg parse ((probeItems cfg plans probeStart probeEnd).map fun x => x.2.key))
    (h : remoteFillProbeControlPages cfg plans probeStart probeEnd = .ok pages) :
    ∀ w ∈ controlWindows cfg pages, WindowPasses dcfg parse w := by
  have hpos : 0 < cfg.layoutChunkSize := hlayout ▸ c.chunkSize_pos
  cases hplans with
  | suffix hdvd hdirect hok =>
    rw [hchunk] at hdvd hok
    obtain ⟨ids, hids, hagree⟩ := directSuffixPlans_agree hdb hdvd hok
    exact probe_windows ⟨ids, hlayout ▸ hids, fun g hg =>
      hagree g (mem_append_left _ (hdirect g hg))⟩ hpos hgroups hkeys h
  | cachedPrefix hok =>
    have hagree := remoteFillPrefixPlans_agree hdb cfg.directGroups_valid hok
    exact probe_windows (hlayout ▸ hagree) hpos hgroups hkeys h
  | @tail id _ hne htail =>
    by_cases hall : ∀ g ∈ cfg.directGroups, ((plans.get? g).getD []).map PlanItem.identity = [id]
    · refine probe_windows ⟨[id], ⟨.singleton _, fun x hx => ?_⟩, hall⟩ hpos hgroups hkeys h
      rw [mem_singleton.1 hx]
      exact hne
    · -- a group without its item: no pages at all
      rcases remoteFillProbeControlPages_ok h with rfl | ⟨-, hp, hmem⟩
      · intro w hw
        rw [controlWindows, slices_nil] at hw
        cases hw
      · exfalso
        apply hall
        intro g hg
        refine (htail g hg).resolve_left fun hempty => ?_
        obtain ⟨x, hx⟩ := exists_mem_of_ne_nil pages hp.nonempty
        obtain ⟨y, hy, -, rfl⟩ := hp.complete x hx g hg
        obtain ⟨e, he, rfl⟩ := (hmem y).1 hy
        have hitem := (mem_probeItems.1 he).2.1
        exact absurd (map_eq_nil_iff.1 hempty ▸ hitem) not_mem_nil

end

/-! ## Chunks of two tokens -/

section

/-- Two tokens a chunk; a hash counts the chunks. -/
def countingChain : HashChain Nat Nat := ⟨2, Nat.two_pos, 0, fun h _ => h + 1, true⟩

def countingKey (k : CacheKey Nat) : PageKey where
  text := String.ofList
    (replicate k.chunkHash 'h' ++ if k.kvGroup = 0 then ['@'] else ['@', '1'])
  modelName := "model"
  worldSize := 1
  workerId := 0
  chunkHash := String.ofList (replicate k.chunkHash 'h')
  tags := []

def parseCountingKey (text : String) : PageKey :=
  { countingKey ⟨0, (text.toList.takeWhile (· ≠ '@')).length⟩ with text := text }

def twoGroups : ProducerConfig Nat where
  directGroups := [0, 1]
  directGroups_valid := .inr rfl
  chunkSize := 2
  windowTokens := 16
  maxControlPagesPerWindow := 8
  layoutChunkSize := 2
  expectedBytes _ tokens := 10 * tokens
  numLayersForGroup _ := 1
  layoutTag := "layout"
  pageKey := countingKey

def twoGroupsDecoder : PagesConfig where
  directGroups := [0, 1]
  directGroups_valid := .inr rfl
  chunkSize := 2
  validateControlPage x := .ok (parseCountingKey x.canonicalKey)

def onePointer : SourcePlanner Nat where
  ptrs _ _ := [0]
  sizes _ x := [10 * (x.stop - x.start)]
  owners _ := []

end

end DirectStore
