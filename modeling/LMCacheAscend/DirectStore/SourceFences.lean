import LMCacheAscend.DirectStore.PlanFrontier

/-!
# The fences of the sources that are handed over

A source that the coordinator reads on its own threads is handed over with the
events behind which it may be read.  `store_direct_prefill` remembers the event
that its caller recorded behind the tokens of the call, hands over the sources
of the call, or keeps them until a later call brings the event; the final call
may join the batch of its complete chunks and the batch of its tail.  The
layerwise writer hands over pages on the CPU behind the copies it has queued.

`FenceRun.log` lists what was recorded and what was handed over, of all
requests.  What the persistent store and the device answer is an oracle
(`StoreEnv`); the ends that the persistent store moves during a call are moved
between the calls (`FenceAction.progress`).
-/

namespace DirectStore

open Lib RemoteFill

/-! ## Fences -/

/-- `_REMOTE_FILL_REQUEST_HANDOFF_EVENT_SOURCE`. -/
def requestHandoffEventSource : String := "forward_context.sfa_reshape_cache_event"

/-- The `source_ready_*` fields of a `_DirectStoreRequestState`. -/
structure SourceFence where
  event : Option Nat
  eventSource : String
  tokenEnd : Nat
  events : List Nat
  eventsTokenEnd : Nat
deriving DecidableEq, Repr

def SourceFence.new : SourceFence := ⟨none, "missing", 0, [], 0⟩

variable (f : SourceFence)

variable (tokenEnd : Nat)

/-- The event part of `_remember_direct_source_readiness`. -/
def SourceFence.rememberEvent (event : Option Nat) (eventSource : String) : SourceFence :=
  match event with
  | none => f
  | some e =>
    if f.tokenEnd ≤ tokenEnd then { f with
      event := some e
      eventSource := if eventSource ≠ "" ∧ eventSource ≠ "missing" then eventSource
        else "caller_supplied"
      tokenEnd := tokenEnd }
    else f

/-- `_remember_direct_source_readiness`. -/
def SourceFence.remember (event : Option Nat) (eventSource : String) (events : List (Option Nat)) :
    SourceFence :=
  let f := f.rememberEvent tokenEnd event eventSource
  if events ≠ [] ∧ f.eventsTokenEnd ≤ tokenEnd then { f with
    events := (Dict.fromKeys (events.filterMap id)).keys
    eventsTokenEnd := tokenEnd }
  else f

/-- `_direct_source_ready_events`. -/
def SourceFence.readyEvents : List Nat :=
  if f.eventsTokenEnd < tokenEnd then [] else f.events

/-- `_remote_fill_source_ready_events`. -/
def SourceFence.remoteReadyEvents : List Nat :=
  match f.event with
  | none => []
  | some e =>
    if f.eventSource ≠ requestHandoffEventSource ∨ f.tokenEnd < tokenEnd then []
    else
      let events := f.readyEvents tokenEnd
      if e ∈ events then events else []

/-- `_direct_source_ready_event`; `fresh` is the event recorded on the current stream. -/
def SourceFence.readyEvent (requireProducerEvent : Bool) (fresh : Nat) :
    Except DirectError (Nat × SourceFence) :=
  match f.event, decide (tokenEnd ≤ f.tokenEnd) with
  | some e, true => .ok (e, f)
  | _, _ =>
    if requireProducerEvent then
      .error (.runtimeError (s!"Direct DSA NPU store has no attention producer event " ++
        s!"covering token_end={tokenEnd}; refusing an unsafe current-stream fallback"))
    else .ok (fresh, { f with
      event := some fresh
      eventSource := "engine_current_stream_fallback_non_dsa"
      tokenEnd := tokenEnd })

/-! ## States -/

/-- The fields of a `ProducerRequestState` that the engine's thread reads. -/
structure FillState (H : Type) where
  handoff : Bool
  disabledReason : String
  fenceDeferred : Bool
  deferredBatches : List (DirectPageBatch H)
  prefixSource : Bool

def FillState.new {H : Type} : FillState H := ⟨false, "", false, [], false⟩

/-- The state of a request; `cpuFills` are its `_layerwise_cpu_fill_sources`. -/
structure StoreState (H : Type) where
  request : RequestState H
  fence : SourceFence
  finalized : Bool
  fill : Option (FillState H)
  cpuFills : Dict Nat (DirectPageBatch H)

inductive FenceEvent (H : Type)
  /-- The event is recorded behind the first `tokenEnd` tokens of the request. -/
  | recorded (reqId : String) (event tokenEnd : Nat)
  /-- `submit_batch`. -/
  | batch (reqId : String) (batch : DirectPageBatch H)
  /-- `submit_probe`; without events there is no source factory. -/
  | probe (reqId : String) (pages : List ControlPage) (events : List Nat)

/-- One request, and what was recorded and handed over so far. -/
structure FenceRun (H : Type) where
  store : StoreState H
  log : List (FenceEvent H)

abbrev FenceM (H : Type) := Prog DirectError (FenceRun H)

inductive SubmissionMode
  | finalDeferred
  | perChunk
deriving DecidableEq, Repr

structure StoreConfig (H : Type) extends ProducerConfig H where
  enableRemoteLmcacheStore : Bool
  submissionMode : SubmissionMode
  saveUnfullChunk : Bool
  dsaTwoGroups : Bool
  prefixHoleRepair : Bool
  maxInflightWindows : Nat
  maxInflightBytes : Nat
  maxBytesPerRequest : Nat

structure StoreArgs (τ : Type) where
  tokens : List τ
  groups : List Nat
  final : Bool
  slotMappingBase : Nat
  verifiedPrefixEnd : Nat
  acceptedStoreEnd : Option Nat
  sourceReadyEvent : Option Nat
  sourceReadyEventSource : String
  sourceReadyEvents : List (Option Nat)
  /-- There are dense mappings of all direct groups. -/
  prefixSlotMappings : Bool

/-- What `prepare_request` finds out about a request that has no handoff yet. -/
inductive HandoffAnswer
  | invalid (reason : String)
  | parsed (refusal : Option String)

/-- What a planner answers. -/
inductive PageAnswer
  | raises
  | rejected (reason : String)
  /-- A page has too many buffers. -/
  | buffers
  | planned
deriving DecidableEq, Repr

/-- The answers of one call. -/
structure StoreEnv (H : Type) where
  requested : Bool
  handoff : HandoffAnswer
  /-- The session exists, or a job is queued. -/
  inFlight : Bool
  plannerCallable : Bool
  /-- Which pages exist, or the lookup raises. -/
  pagesExist : Option (List Bool)
  pendingKey : PlanItem H → Bool
  pages : Nat → PageAnswer
  freshEvent : Nat
  putRaises : Bool
  queuedWindows : Nat
  coalesce : Except String Bool
  /-- Whether the tail page of a group exists, if the lookup answers for it. -/
  tailExists : Nat → Option Bool
  tailPages : Nat → PageAnswer
  tailPutRaises : Bool
  finalizes : Bool
  /-- A job of the request has failed when the log has this length. -/
  jobFailure : Nat → Option String

/-! ## Handing over -/

section

variable {H : Type}

def modifyStore (f : StoreState H → StoreState H) : FenceM H PUnit :=
  modify fun s => { s with store := f s.store }

def modifyFill (f : FillState H → FillState H) : FenceM H PUnit :=
  modifyStore fun s => { s with fill := s.fill.map f }

def disable (reason : String) : FenceM H PUnit :=
  modifyFill fun f => { f with disabledReason := reason }

def emit (e : FenceEvent H) : FenceM H PUnit := modify fun s => { s with log := s.log ++ [e] }

def onlyIf (c : Prop) [Decidable c] (p : FenceM H PUnit) : FenceM H PUnit :=
  if c then p else pure ⟨⟩

def liftExcept {α : Type} : Except DirectError α → FenceM H α
  | .ok a => pure a
  | .error e => throw e

/-- `type(error).__name__`. -/
def DirectError.typeName : DirectError → String
  | .runtimeError _ => "RuntimeError"
  | .valueError _ => "ValueError"

variable (cfg : StoreConfig H) (env : StoreEnv H) (reqId : String)

/-- Jobs on the coordinator's threads set the reason, too. -/
def jobsRun : FenceM H PUnit := do
  let s ← get
  match env.jobFailure s.log.length with
  | some reason => disable reason
  | none => pure ⟨⟩

/-- The first part of `prepare_request`. -/
def admitHandoff : FenceM H Bool :=
  match env.handoff with
  | .invalid reason => do
    disable reason
    pure false
  | .parsed refusal => do
    modifyFill fun f => { f with handoff := true }
    match refusal with
    | some reason => do
      disable reason
      pure false
    | none => pure true

/-- `_remote_fill_prepare_request`. -/
def prepareRequest : FenceM H Bool := do
  if cfg.enableRemoteLmcacheStore then
    let s ← get
    match s.store.fill with
    | some f => if f.handoff then pure (f.disabledReason = "") else admitHandoff env
    | none =>
      if env.requested then do
        modifyStore fun s => { s with fill := some FillState.new }
        admitHandoff env
      else pure false
  else pure false

/-- `_schedule_remote_fill_batch`. -/
def scheduleBatch (batch : DirectPageBatch H) : FenceM H PUnit := do
  jobsRun env
  let s ← get
  match s.store.fill with
  | none => pure ⟨⟩
  | some f =>
    if f.handoff = false ∨ f.disabledReason ≠ "" then pure ⟨⟩
    else match remoteFillControlPages cfg.toProducerConfig batch with
      | .error e => disable e.typeName
      | .ok _ => emit (.batch reqId batch)

/-- `_schedule_remote_fill_probe_pages`. -/
def scheduleProbePages (pages : List ControlPage) (requiredStoreEndHint : Nat) :
    FenceM H PUnit := do
  let s ← get
  match s.store.fill with
  | none => pure ⟨⟩
  | some f =>
    if pages = [] ∨ f.handoff = false then pure ⟨⟩
    else emit (.probe reqId pages
      (if f.prefixSource then s.store.fence.remoteReadyEvents requiredStoreEndHint else []))

/-- `group_caches` has both groups. -/
def bothGroups (groups : List Nat) : Bool := groups.all (· ∈ [0, 1]) && [0, 1].all (· ∈ groups)

end

/-! ## `store_direct_prefill` -/

section

variable {τ H : Type} [DecidableEq H] (cfg : StoreConfig H) (db : TokenDatabase τ H)
  (planner : SourcePlanner H) (env : StoreEnv H) (reqId : String) (call : StoreArgs τ)

/-- The checks of the arguments, and the frontier of the accepted tokens. -/
def acceptStore : FenceM H Nat := do
  let n := call.acceptedStoreEnd.getD call.tokens.length
  if call.tokens.length < n then
    throw (.valueError "Direct prefill accepted store end is outside the token range")
  else if n < call.slotMappingBase then
    throw (.valueError "Direct prefill slot-mapping base is outside the token range")
  else if call.slotMappingBase < call.verifiedPrefixEnd then
    throw (.valueError "Direct prefill verified prefix is outside the addressable prefix")
  else do
    let s ← get
    if ∃ m ∈ s.store.request.acceptedStoreEnd, n < m then
      throw (.runtimeError "Direct prefill accepted store frontier moved backwards")
    else do
      modifyStore fun s => { s with request := { s.request with acceptedStoreEnd := some n } }
      pure n

variable (n : Nat) (tokens : List τ) (plans : Plans H) (batches : Option (List (DirectPageBatch H)))

/-- The caller has recorded its event behind the tokens of the call. -/
def recordHandoff : FenceM H PUnit :=
  match call.sourceReadyEvent with
  | some e =>
    onlyIf (call.sourceReadyEventSource = requestHandoffEventSource) (emit (.recorded reqId e n))
  | none => pure ⟨⟩

/-- `_remember_direct_source_readiness` of the call. -/
def rememberReadiness : FenceM H PUnit := do
  recordHandoff reqId call n
  modifyStore fun s => { s with
    fence := s.fence.remember n call.sourceReadyEvent call.sourceReadyEventSource
      call.sourceReadyEvents }

/-- Whether the call has remote fill. -/
def prepareFill : FenceM H Bool := do
  let prepared ← prepareRequest cfg env
  if prepared = false then pure false
  else if bothGroups call.groups = false then do
    disable "incomplete_groups"
    pure false
  else do
    onlyIf (call.verifiedPrefixEnd > 0 ∧ cfg.prefixHoleRepair ∧ call.prefixSlotMappings)
      (modifyFill fun f => { f with prefixSource := true })
    let s ← get
    match s.store.fill with
    | none => pure false
    | some f =>
      if env.inFlight = false ∧ s.store.request.probeEnd = 0 ∧ f.deferredBatches = [] ∧
          f.prefixSource = false ∧
          ¬(0 < n ∧ 0 < cfg.chunkSize ∧
            call.slotMappingBase ≤ (n - 1) / cfg.chunkSize * cfg.chunkSize)
      then do
        disable "no_addressable_source_page"
        pure false
      else pure true

/-- Remote fill now or later, and the events behind which now. -/
structure FenceChoice where
  remoteFill : Bool
  events : List Nat
  deferSources : Bool

/-- The events behind which this call may hand sources over. -/
def callEvents (fence : SourceFence) (n : Nat) (remoteFill : Bool) : List Nat :=
  if remoteFill ∧ call.final = false ∧ cfg.submissionMode = .finalDeferred then []
  else fence.remoteReadyEvents n

def chooseFence (remoteFill : Bool) : FenceM H FenceChoice := do
  let s ← get
  let events := callEvents cfg call s.store.fence n remoteFill
  if remoteFill = false ∨ events ≠ [] then pure ⟨remoteFill, events, false⟩
  else if call.final then do
    modifyFill fun f => { f with
      disabledReason := "incomplete_producer_fence", deferredBatches := [], fenceDeferred := false }
    pure ⟨false, [], false⟩
  else do
    modifyFill fun f => { f with fenceDeferred := true }
    pure ⟨false, [], true⟩

/-- The sources that were kept go with this call's events. -/
def releaseDeferred (choice : FenceChoice) : FenceM H Bool := do
  let s ← get
  match choice.remoteFill, s.store.fill with
  | true, some f =>
    if f.fenceDeferred = false then pure true
    else do
      onlyIf (f.deferredBatches ≠ []) do
        let batch ← liftExcept (mergeDeferredRemoteFillBatches f.deferredBatches choice.events)
        scheduleBatch cfg env reqId batch
      modifyFill fun f => { f with deferredBatches := [], fenceDeferred := false }
      jobsRun env
      let s ← get
      pure (s.store.fill.any fun f => f.disabledReason = "")
  | _, _ => pure false

/-- `_direct_suffix_plans`. -/
def suffixPlans : FenceM H (Plans H) := do
  let s ← get
  let r := directSuffixPlans db cfg.chunkSize s.store.request tokens call.groups
  modifyStore fun s => { s with request := r.2 }
  liftExcept r.1

/-- The pages of the cached prefix, planned anew if some are missing. -/
def probePages (probeTarget : Nat) : FenceM H (List ControlPage) := do
  let s ← get
  let expected := expectedPages cfg.toProducerConfig s.store.request probeTarget
  let pages ← liftExcept (remoteFillProbeControlPages cfg.toProducerConfig plans
    s.store.request.probeEnd probeTarget)
  if pages.length = expected then pure pages
  else do
    let prefixPlans ← liftExcept (remoteFillPrefixPlans db cfg.directGroups tokens probeTarget)
    modifyStore fun s => { s with request := s.request.planned ((prefixPlans.get? 0).getD []) }
    liftExcept (remoteFillProbeControlPages cfg.toProducerConfig prefixPlans
      s.store.request.probeEnd probeTarget)

/-- The probe of the cached prefix. -/
def probeCached (remoteFill : Bool) : FenceM H Bool := do
  let s ← get
  let probeTarget := fullEnd cfg.chunkSize call.verifiedPrefixEnd
  if remoteFill = false ∨ probeTarget ≤ s.store.request.probeEnd then pure remoteFill
  else do
    let expected := expectedPages cfg.toProducerConfig s.store.request probeTarget
    let pages ← probePages cfg db tokens plans probeTarget
    if pages.length ≠ expected then do
      disable "incomplete_probe_plan"
      pure false
    else do
      scheduleProbePages reqId pages tokens.length
      modifyStore fun s => { s with request := { s.request with probeEnd := probeTarget } }
      pure true

/-- The items whose page does not exist. -/
def missingItems (refs : List (Nat × PlanItem H)) (present : List Bool) : List (Nat × PlanItem H) :=
  (refs.zip present).filterMap fun x => if x.2 then none else some x.1

/-- The planner, group by group; whether the sources of the direct groups are collected. -/
def collectGroups (candidates persistent : Nat → List (PlanItem H)) :
    List Nat → Bool → FenceM H Bool
  | [], collect => pure collect
  | g :: groups, collect => do
    let collectGroup := collect && decide (g ∈ cfg.directGroups)
    let unaddressable := collectGroup &&
      (candidates g).any fun x => x.start < call.slotMappingBase
    if (if collectGroup then candidates g else persistent g) = [] then
      collectGroups candidates persistent groups collect
    else do
      onlyIf unaddressable (disable "unaddressable_source")
      match env.pages g with
      | .raises => throw (.runtimeError "Direct page planner returned an invalid page count")
      | .planned => collectGroups candidates persistent groups (collect && !unaddressable)
      | .rejected reason => do
        onlyIf collectGroup (disable reason)
        collectGroups candidates persistent groups (collect && !collectGroup)
      | .buffers => do
        onlyIf collectGroup (disable "buffer_limit_exceeded")
        collectGroups candidates persistent groups (collect && !collectGroup)

/-- `_direct_source_ready_event`. -/
def sourceReadyEvent : FenceM H Nat := do
  let s ← get
  let r ← liftExcept (s.store.fence.readyEvent n cfg.dsaTwoGroups env.freshEvent)
  modifyStore fun s => { s with fence := r.2 }
  pure r.1

/-- The event of the batches of a call that puts pages or hands sources over, or keeps them. -/
def batchEvent (used kept : Bool) : FenceM H (Option Nat) :=
  if used then do
    let event ← sourceReadyEvent cfg env n
    pure (some event)
  else do
    let s ← get
    pure (if kept then s.store.fence.event else none)

/-- The batch of the call's complete chunks: handed over, kept for a later call, or returned for
the tail. -/
def placeBatch (choice : FenceChoice) (batch : DirectPageBatch H) :
    FenceM H (Option (List (DirectPageBatch H))) := do
  if choice.remoteFill = false then do
    modifyFill fun f => { f with deferredBatches := f.deferredBatches ++ [batch] }
    pure none
  else if call.final ∧ cfg.submissionMode = .perChunk ∧ cfg.saveUnfullChunk ∧
      n % cfg.chunkSize ≠ 0 ∧ env.queuedWindows + 1 = cfg.maxInflightWindows then
    match env.coalesce with
    | .error reason => do
      disable reason
      scheduleBatch cfg env reqId batch
      pure none
    | .ok true => pure (some [batch])
    | .ok false => do
      scheduleBatch cfg env reqId batch
      pure none
  else do
    scheduleBatch cfg env reqId batch
    pure none

/-- The sources of the complete chunks; `none` is a call that ends here. -/
def collectSources (choice : FenceChoice) :
    FenceM H (Option (Option (List (DirectPageBatch H)))) := do
  let s ← get
  let request := s.store.request
  let found := candidates cfg.toProducerConfig request plans
  let refs := call.groups.flatMap fun g => (found g).map fun x => (g, x)
  match env.plannerCallable, (if refs = [] then some [] else env.pagesExist) with
  | true, some present => do
    let missing := missingItems refs present
    if present.length ≠ refs.length then
      throw (.runtimeError "Direct page lookup returned an invalid result count")
    else if ∃ e ∈ missing, e.2.start < call.slotMappingBase then
      throw (.runtimeError
        "Direct prefill store found an uncommitted prefix outside its slot-mapping window")
    else do
      let persistent := fun g =>
        (missing.filter fun e => e.1 = g && !env.pendingKey e.2).map Prod.snd
      let collect ← collectGroups cfg env call found persistent call.groups
        (choice.remoteFill || choice.deferSources)
      let items := if collect then remoteItems cfg.toProducerConfig request plans call.groups
        else []
      let puts := call.groups.any fun g => persistent g ≠ [] && env.pages g = .planned
      let event ← batchEvent cfg env n (puts ∨ choice.remoteFill ∧ items ≠ []) (items ≠ [])
      if puts ∧ env.putRaises then pure none
      else if items = [] then pure (some none)
      else if ∃ g ∈ cfg.directGroups, g ∉ items.map Prod.fst then do
        disable "incomplete_page_pair"
        pure (some none)
      else do
        let batches ← placeBatch cfg env reqId call n choice
          (remoteBatch planner reqId event choice.events items)
        pure (some batches)
  | _, _ => pure none

/-! ## The tail -/

/-- What the loop over the groups of the tail collects. -/
structure TailSources (H : Type) where
  remote : List (Nat × PlanItem H)
  probes : List (Nat × PlanItem H)
  puts : Bool
  remoteFill : Bool

/-- The loop over the groups of `_submit_direct_tail`; `none` is its `return False`. -/
def tailGroups (item : PlanItem H) : List Nat → TailSources H → FenceM H (Option (TailSources H))
  | [], acc => pure (some acc)
  | g :: groups, acc =>
    let key := if g = 0 then some item.key
      else (db.processHashes [item.key.chunkHash] [item.stop - item.start] g).head?.map PlanItem.key
    let remoteGroup := acc.remoteFill && decide (g ∈ cfg.directGroups)
    match key, env.tailExists g with
    | none, _ => throw (.runtimeError "StopIteration")
    | some _, none => pure none
    | some key, some present =>
      let x : PlanItem H := { item with key := key }
      if present ∧ remoteGroup = false then tailGroups item groups acc
      else if remoteGroup ∧ item.start < call.slotMappingBase then
        if present then tailGroups item groups { acc with probes := acc.probes ++ [(g, x)] }
        else do
          disable "unaddressable_partial_source"
          tailGroups item groups { acc with remoteFill := false }
      else match env.tailPages g with
        | .raises => throw (.runtimeError "planner")
        | .planned => tailGroups item groups { acc with
            remote := if remoteGroup then acc.remote ++ [(g, x)] else acc.remote
            puts := acc.puts || !present }
        | .rejected _ => do
          onlyIf remoteGroup (disable "tail_planner_fallback")
          let acc := { acc with remoteFill := acc.remoteFill && !remoteGroup }
          if present then tailGroups item groups acc else pure none
        | .buffers => do
          onlyIf acc.remoteFill (disable "tail_buffer_limit")
          let acc := { acc with remoteFill := false }
          if present then tailGroups item groups acc else pure none

/-- The tail of a prefix hit is probed only. -/
def probeTail (item : PlanItem H) (acc : TailSources H) : FenceM H Bool := do
  if acc.remoteFill = false ∨ acc.probes = [] then pure acc.remoteFill
  else do
    let plan := fun g => (acc.probes.filter fun e => e.1 = g).map Prod.snd
    let pages ← liftExcept (remoteFillProbeControlPages cfg.toProducerConfig
      ((Dict.empty.set 0 (plan 0)).set 1 (plan 1)) item.start item.stop)
    if pages.length = cfg.directGroups.length then do
      scheduleProbePages reqId pages n
      pure true
    else do
      disable "incomplete_partial_probe"
      pure false

/-- `_remote_fill_prepare_request` of the tail, its groups and its fence. -/
def prepareTail : FenceM H FenceChoice := do
  let prepared ← prepareRequest cfg env
  let s ← get
  let events := s.store.fence.remoteReadyEvents n
  if prepared = false then pure ⟨false, events, false⟩
  else if bothGroups call.groups = false then do
    disable "incomplete_groups"
    pure ⟨false, events, false⟩
  else if events = [] then do
    disable "incomplete_producer_fence"
    pure ⟨false, events, false⟩
  else pure ⟨true, events, false⟩

/-- The batch of the tail: joined to those of the call, or handed over. -/
def placeTail (events : List Nat) (acc : TailSources H) (remoteFill : Bool)
    (batches : Option (List (DirectPageBatch H))) :
    FenceM H (Option (List (DirectPageBatch H))) := do
  if acc.puts = false ∧ (remoteFill = false ∨ acc.remote = []) then pure batches
  else do
    let event ← sourceReadyEvent cfg env n
    if acc.puts ∧ env.tailPutRaises then throw (.runtimeError "put")
    else if remoteFill = false ∨ acc.remote = [] then pure batches
    else if ∃ g ∈ cfg.directGroups, g ∉ acc.remote.map Prod.fst then do
      disable "incomplete_partial_pair"
      pure batches
    else
      let batch := remoteBatch planner reqId (some event) events acc.remote
      match batches with
      | some l => pure (some (l ++ [batch]))
      | none => do
        scheduleBatch cfg env reqId batch
        pure none

/-- `_submit_direct_tail`, with the batches of the call so far. -/
def submitDirectTail : FenceM H (Option (List (DirectPageBatch H))) := do
  let choice ← prepareTail cfg env call n
  let s ← get
  let groups := if choice.remoteFill then call.groups
    else call.groups.filter fun g => s.store.request.submitted g < n
  match (if groups = [] then none else tailItem db s.store.request tokens) with
  | none => pure batches
  | some item => do
    let r ← tailGroups cfg db env call item groups ⟨[], [], false, choice.remoteFill⟩
    match r with
    | none => pure batches
    | some acc => do
      let remoteFill ← probeTail cfg reqId n item acc
      placeTail cfg planner env reqId n choice.events acc remoteFill batches

/-- The batches of the final call, as one if they are small enough. -/
def finalBatches (batches : List (DirectPageBatch H)) : FenceM H (List (DirectPageBatch H)) :=
  if 1 < batches.length ∧ (batches.map fun b => (b.sizes.map List.sum).sum).sum ≤
      min cfg.maxInflightBytes cfg.maxBytesPerRequest then do
    let batch ← liftExcept (mergeDeferredRemoteFillBatches batches
      (Dict.fromKeys (batches.flatMap fun b => b.readyEvents)).keys)
    pure [batch]
  else pure batches

/-- The tail of the final call; its exceptions are taken. -/
def finalTail : FenceM H (Option (List (DirectPageBatch H))) := do
  let s ← get
  if cfg.saveUnfullChunk ∧ s.store.request.plannedEnd < n then
    tryCatch (submitDirectTail cfg db planner env reqId call n tokens batches)
      fun _ => pure batches
  else pure batches

/-- What the final call hands over, with its tail. -/
def finishStore : FenceM H PUnit := do
  let batches ← finalTail cfg db planner env reqId call n tokens batches
  let batches ← finalBatches cfg (batches.getD [])
  batches.forM (scheduleBatch cfg env reqId)

/-- A call of `store_direct_prefill` whose `n` tokens are accepted. -/
def storeAccepted : FenceM H PUnit := do
  let tokens := call.tokens.take n
  rememberReadiness reqId call n
  let remoteFill ← prepareFill cfg env call n
  let choice ← chooseFence cfg call n remoteFill
  let remoteFill ← releaseDeferred cfg env reqId choice
  modifyStore fun s => { s with
    request := s.request.openGroups call.groups call.verifiedPrefixEnd }
  let plans ← suffixPlans cfg db call tokens
  let remoteFill ← probeCached cfg db reqId call tokens plans remoteFill
  let placed ← collectSources cfg planner env reqId call n plans
    { choice with remoteFill := remoteFill }
  placed.toList.forM fun batches =>
    onlyIf call.final (finishStore cfg db planner env reqId call n tokens batches)
  modifyStore fun s => { s with finalized := s.finalized || (call.final && env.finalizes) }

/-- `store_direct_prefill`. -/
def storeDirectPrefill : FenceM H Bool := do
  if call.groups = [] then pure false
  else do
    let n ← acceptStore call
    let s ← get
    if call.final ∧ s.store.finalized then pure true
    else do
      storeAccepted cfg db planner env reqId call n
      pure true

end

/-! ## Pages on the CPU -/

/-- Pages of one group whose copies to the CPU are queued, and the events behind the copies. -/
structure CpuPages (H : Type) where
  keys : List (CacheKey H)
  ptrs : List (List Nat)
  sizes : List (List Nat)
  owners : List Nat
  ranges : List (Nat × Nat)
  fences : List Nat

section

variable {H : Type} (cfg : StoreConfig H) (env : StoreEnv H) (reqId : String)

/-- Where the pages end. -/
def CpuPages.stop (pages : CpuPages H) : Nat := (pages.ranges.map Prod.snd).foldr max 0

def CpuPages.batch (pages : CpuPages H) (reqId : String) (group : Nat) : DirectPageBatch H where
  reqId := reqId
  keys := pages.keys
  ptrs := pages.ptrs
  sizes := pages.sizes
  owners := (Dict.fromKeys pages.owners).keys
  readyEvent := pages.fences.getLast?
  groupEnds := Dict.empty.set group ((pages.ranges.getLast?.map Prod.snd).getD 0)
  ranges := pages.ranges
  readyEvents := pages.fences

/-- `_queue_layerwise_cpu_fill`; the connector has recorded the fences behind these pages. -/
def queueLayerwiseCpuFill (group : Nat) (pages : CpuPages H) : FenceM H PUnit := do
  if group ∉ cfg.directGroups then pure ⟨⟩
  else do
    let prepared ← prepareRequest cfg env
    let s ← get
    if prepared = false ∨ (s.store.fill.any fun f => f.disabledReason ≠ "") then pure ⟨⟩
    else if cfg.submissionMode ≠ .perChunk then disable "banked_prefill_final_deferred"
    else if pages.fences = [] ∨ pages.ranges = [] then disable "banked_prefill_source_unavailable"
    else if group ∈ s.store.cpuFills.keys then
      throw (.runtimeError "Duplicate CPU fill group in one prefill batch")
    else do
      pages.fences.forM fun e => emit (.recorded reqId e pages.stop)
      modifyStore fun s => { s with cpuFills := s.cpuFills.set group (pages.batch reqId group) }

/-- `submit_layerwise_prefill_fills` of one request. -/
def submitLayerwisePrefillFills : FenceM H PUnit := do
  let s ← get
  let groups := s.store.cpuFills
  modifyStore fun s => { s with cpuFills := Dict.empty }
  let batches := groups.entries.map Prod.snd
  if groups.entries = [] then pure ⟨⟩
  else if groups.keys.any (· ∉ cfg.directGroups) || cfg.directGroups.any (· ∉ groups.keys) then
    disable "banked_prefill_incomplete_groups"
  else if batches.any fun b => b.ranges ≠ (batches.head?.elim [] DirectPageBatch.ranges) then
    disable "banked_prefill_unpaired_pages"
  else do
    let batch ← liftExcept (mergeDeferredRemoteFillBatches batches
      (Dict.fromKeys (batches.flatMap fun b => b.readyEvents)).keys)
    scheduleBatch cfg env reqId batch

end

/-! ## Runs of all requests -/

structure FenceState (H : Type) where
  stores : String → StoreState H
  log : List (FenceEvent H)

inductive FenceAction (τ H : Type)
  | store (reqId : String) (call : StoreArgs τ) (env : StoreEnv H)
  /-- The other writes of the planning fields: puts, waits, adopted layerwise stores. -/
  | progress (reqId : String) (request : RequestState H)
  | queueCpuFill (reqId : String) (group : Nat) (pages : CpuPages H) (env : StoreEnv H)
  | submitCpuFills (reqId : String) (env : StoreEnv H)
  /-- `drop_direct_store_states`. -/
  | drop (reqId : String) (releasable : Bool)

section

variable {τ H : Type} [DecidableEq H] (cfg : StoreConfig H) (db : TokenDatabase τ H)
  (planner : SourcePlanner H) (initialHash : H)

def StoreState.new {H : Type} (initialHash : H) : StoreState H :=
  ⟨⟨Dict.empty, Dict.empty, 0, initialHash, none, 0⟩, SourceFence.new, false, none, Dict.empty⟩

def FenceState.setStore {H : Type} (s : FenceState H) (reqId : String) (store : StoreState H) :
    FenceState H :=
  { s with stores := fun q => if q = reqId then store else s.stores q }

/-- A program of one request; what it did before an exception stays. -/
def FenceState.run {H α : Type} (s : FenceState H) (reqId : String) (p : FenceM H α) :
    FenceState H :=
  let r := (p ⟨s.stores reqId, s.log⟩).2
  { s.setStore reqId r.store with log := r.log }

def fenceStep (s : FenceState H) : FenceAction τ H → FenceState H
  | .store reqId call env =>
    s.run reqId (storeDirectPrefill cfg db planner env reqId call)
  | .progress reqId request =>
    let store := s.stores reqId
    s.setStore reqId { store with
      request := { request with acceptedStoreEnd := store.request.acceptedStoreEnd } }
  | .queueCpuFill reqId group pages env =>
    s.run reqId (queueLayerwiseCpuFill cfg env reqId group pages)
  | .submitCpuFills reqId env => s.run reqId (submitLayerwisePrefillFills cfg env reqId)
  | .drop reqId releasable =>
    s.setStore reqId (if releasable then StoreState.new initialHash
      else { s.stores reqId with cpuFills := Dict.empty })

/-- Any interleaving of the calls of any requests. -/
def fenceMachine : Machine (FenceState H) (FenceAction τ H) where
  start s := s = ⟨fun _ => StoreState.new initialHash, []⟩
  step s a := some (fenceStep cfg db planner initialHash s a)

end

end DirectStore
