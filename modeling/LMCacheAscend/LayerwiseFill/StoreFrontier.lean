import LMCacheAscend.DirectStore.WholePlan
import LMCacheAscend.Lib.Machine

/-!
# The store frontier of a layerwise prefill request

`_layerwise_prefill_store_plan` plans the chunks of a request behind the frontier
`(end, hash)` of its KV group, and `store_layer` moves the frontier behind them
when the store is complete.  `machine` has the calls of one request, of all its
KV groups and in every forward step, one operation at a time: each may raise,
and a call may be closed where it is suspended.

The token database and the metadata cache are parameters.  `found`, `tracked`
and `masked` are ghosts: the chunks that the storage has reported complete, the
layers of chunks whose puts are tracked, and the chunks that a mask has left out.
-/

namespace StoreFrontier

open Lib DirectStore List

/-! ## Planners -/

structure Planner (τ H : Type) where
  db : TokenDatabase τ H
  /-- `process_tokens` of tokens with a mask that leaves out the first ones; `none` when it
  raises. -/
  masked : List τ → Nat → Nat → Option (List (PlanItem H))
  /-- `PrefillMetadataCache.prepare`. -/
  prepare : List τ → Nat → Nat → List (PlanItem H)

section

variable {τ H : Type}

/-- What is documented of them: the chunks that are not left out. -/
structure Planner.Follows (p : Planner τ H) (c : HashChain τ H) : Prop where
  chain : p.db.Follows c
  masked : ∀ tokens skip group, skip ≤ tokens.length → p.masked tokens skip group =
    if c.chunkSize ∣ skip then
      some ((p.db.processTokens tokens group).filter fun x => skip ≤ x.start)
    else none
  prepare : ∀ tokens skip group, c.chunkSize ∣ skip → p.prepare tokens skip group =
    (p.db.processTokens tokens group).filter fun x => skip ≤ x.start

/-- A planner that does just that. -/
def planner (c : HashChain τ H) : Planner τ H where
  db := c.database
  masked tokens skip group :=
    if c.chunkSize ∣ skip then
      some ((c.database.processTokens tokens group).filter fun x => skip ≤ x.start)
    else none
  prepare tokens skip group :=
    (c.database.processTokens tokens group).filter fun x => skip ≤ x.start

theorem planner_follows (c : HashChain τ H) : (planner c).Follows c :=
  ⟨c.database_follows, fun _ _ _ _ => rfl, fun _ _ _ _ => rfl⟩

end

/-! ## Calls -/

/-- `layers` are those of the KV groups; `prefill` is `_force_layerwise_prefill_store` and
`diagnostic` is `_layerwise_prefill_diagnostic_prime_only`. -/
structure Config where
  layers : Nat → Nat
  prefill : Bool
  diagnostic : Bool
  pageFirst : Bool

/-- The metadata scope of a request: its cache and the signature. -/
structure Scope where
  cache : Nat
  signature : String
deriving DecidableEq, Repr

/-- What `store_layer` is called with; `skip` is the number of tokens that its mask leaves out.
`doneLayers` are the completed layers that the connector reports, layer by layer, to a deferred
store. -/
structure Args where
  kvGroup : Nat
  skip : Nat
  incremental : Bool
  deferredPut : Bool
  decodeWindow : Bool
  groupStore : Bool
  doneLayers : List (Option Nat)
deriving DecidableEq, Repr

inductive Op
  /-- A suspension point. -/
  | pause
  /-- Something that may raise, and does nothing else here. -/
  | check
  /-- The connector generator is primed. -/
  | prime
  /-- Layers are put, and their puts are tracked. -/
  | publish (layers : List Nat)
  /-- The end of the store. -/
  | commit
deriving DecidableEq, Repr

inductive Status
  | running
  | failed
  | closed
  | stored
deriving DecidableEq, Repr

section

variable (cfg : Config) (a : Args)

/-- `deferred_layerwise_put`. -/
def Args.deferred : Bool := cfg.prefill && a.deferredPut

/-- `incremental_prefill`. -/
def Args.incrementalPrefill : Bool :=
  a.incremental && a.deferred cfg && cfg.prefill && !a.decodeWindow

/-- `publish_completed_layer`: the layer is put, unless whole pages are put in the end. -/
def publishCompletedLayer (layer : Nat) : List Op :=
  if cfg.pageFirst then [.check] else [.check, .publish [layer]]

/-- The layer reported in one iteration of a deferred store; one that is reported twice makes it
raise, as any `check` may. -/
def Args.doneLayer (layer : Nat) : Option Nat := a.doneLayers.getD layer none

/-- The launches of the layers, and the puts between and behind the suspension points. -/
def layerOps : List Op :=
  let layers := range (cfg.layers a.kvGroup)
  if a.groupStore then
    layers.map (fun _ => .pause) ++ .check :: layers.flatMap (publishCompletedLayer cfg)
  else .prime ::
    if a.deferred cfg then
      .pause :: layers.flatMap (fun layer => .check :: .pause ::
          ((a.doneLayer layer).toList.flatMap (publishCompletedLayer cfg) ++ [.pause])) ++
        (layers.filter fun layer => layer ∉ layers.filterMap a.doneLayer).flatMap
          (publishCompletedLayer cfg)
    else layers.flatMap fun layer => .pause :: .check :: publishCompletedLayer cfg layer

/-- The body of the store when there is something to store. -/
def storeOps : List Op :=
  .check :: (layerOps cfg a ++ .check ::
    if cfg.pageFirst then [.publish (range (cfg.layers a.kvGroup))] else [])

/-- The suspension points when there is nothing to store. -/
def idleOps : List Op :=
  if a.deferred cfg then replicate (2 * cfg.layers a.kvGroup + 1) .pause
  else replicate (cfg.layers a.kvGroup) .pause

def Args.ops (empty : Bool) : List Op :=
  (if empty then idleOps cfg a else storeOps cfg a) ++ [.check, .commit, .pause]

end

/-- A call.  `items` are the chunks it has pages for, `latest` is `latest_full_frontier`, and `step`
is the forward step that it belongs to. -/
structure Call (H : Type) where
  kvGroup : Nat
  step : Nat
  incremental : Bool
  complete : Bool
  latest : Option (Nat × H)
  items : List (PlanItem H)
  ops : List Op
  status : Status
deriving Repr

/-- One request.  `life` counts the releases of its id; `accepted`, `cache` and `signature` are of
the current forward step. -/
structure Request (H : Type) where
  frontiers : Dict Nat (Nat × H)
  scope : Option Scope
  life : Nat
  step : Nat
  accepted : Nat
  cache : Option Nat
  signature : String
  calls : List (Call H)
  found : List (CacheKey H)
  tracked : List (CacheKey H × Nat)
  masked : List (CacheKey H)
  recorder : Dict Nat Nat

def Request.init {H : Type} : Request H :=
  { frontiers := Dict.empty, scope := none, life := 0, step := 0, accepted := 0, cache := none,
    signature := "", calls := [], found := [], tracked := [], masked := [],
    recorder := Dict.empty }

/-! ## Planning -/

section

variable {τ H : Type} (p : Planner τ H) (chunkSize : Nat)
variable (content : Nat → Option Scope → Nat → τ) (cfg : Config) (s : Request H) (a : Args)

/-- Another scope has no part in the frontiers of the one before. -/
def Request.enterScope : Request H :=
  match s.cache with
  | none => s
  | some cache =>
    if s.scope = some ⟨cache, s.signature⟩ then s
    else { s with frontiers := Dict.empty, scope := some ⟨cache, s.signature⟩ }

/-- A frontier that is not one of these tokens is dropped. -/
def Request.previous (group : Nat) : Option (Nat × H) × Request H :=
  match s.frontiers.get? group with
  | none => (none, s)
  | some (stop, hash) =>
    if s.accepted < stop ∨ stop % chunkSize ≠ 0 then
      (none, { s with frontiers := s.frontiers.pop group })
    else (some (stop, hash), s)

/-- The tokens of the forward step. -/
def Request.tokens : List τ := firstTokens (content s.life s.scope) s.accepted

abbrev PlanResult (H : Type) := Except DirectError (List (PlanItem H) × Nat × Option (Nat × H))

def planMasked (tokens : List τ) (skip group : Nat) : PlanResult H :=
  match p.masked tokens skip group with
  | some items => .ok (items, 0, none)
  | none => .error (.valueError "masked tokens are not a multiple of the chunk size")

/-- The plan behind a frontier, or from the start. -/
def planBehind (previous : Option (Nat × H)) : PlanResult H :=
  match s.cache with
  | some _ =>
    if a.skip ≤ s.accepted ∧ a.skip % chunkSize = 0 then
      let base := match previous with
        | some (stop, _) => stop
        | none => 0
      .ok (p.prepare (s.tokens content) (max a.skip base) a.kvGroup, base, previous)
    else .error (.valueError "Cached prefill store needs an aligned masked prefix")
  | none =>
    match previous with
    | none => planMasked p (s.tokens content) a.skip a.kvGroup
    | some (stop, hash) =>
      if stop = s.accepted then .ok ([], stop, previous)
      else .ok (p.db.processTokensFromPrefix (s.tokens content) stop hash a.kvGroup, stop, previous)

/-- `_layerwise_prefill_store_plan`. -/
def layerwisePrefillStorePlan : PlanResult H × Request H :=
  if a.incrementalPrefill cfg = false then
    (planMasked p (s.tokens content) a.skip a.kvGroup, s)
  else
    let (previous, s) := s.enterScope.previous chunkSize a.kvGroup
    (planBehind p chunkSize content s a previous, s)

/-- `latest_full_frontier` behind the candidates. -/
def latestFullFrontier (incremental : Bool) (prior : Option (Nat × H))
    (items : List (PlanItem H)) : Option (Nat × H) :=
  items.foldl (fun latest x =>
    if incremental = true ∧ x.stop - x.start = chunkSize ∧ x.stop % chunkSize = 0 then
      some (x.stop, x.key.chunkHash)
    else latest) prior

/-- Where the plan starts: the mask is not looked at behind a frontier without a metadata cache. -/
def planStart (s : Request H) (prior : Option (Nat × H)) (base : Nat) : Nat :=
  if a.incrementalPrefill cfg = true ∧ s.cache = none ∧ prior ≠ none then base
  else max a.skip base

/-! ## Steps -/

/-- `store_layer` up to its first suspension: the plan, what the storage has of it (`present`, the
starts of chunks) and the pages that could be allocated for the rest. -/
def Request.begin (present : List Nat) (allocated : Nat) : Request H :=
  match layerwisePrefillStorePlan p chunkSize content cfg s a with
  | (.error _, s) =>
    { s with calls := s.calls ++ [⟨a.kvGroup, s.step, a.incrementalPrefill cfg, false, none, [], [],
        .failed⟩] }
  | (.ok (items, base, prior), s) =>
    let pending := items.filter fun x => x.start ∉ present
    let stored := pending.take allocated
    let full := pending.length ≤ allocated
    -- too few pages, or a deferred store of a group
    let refused := (!full && cfg.prefill) ||
      (a.groupStore && a.deferred cfg && !stored.isEmpty)
    let leftOut := (p.db.processTokens (s.tokens content) a.kvGroup).filter fun x =>
      base ≤ x.start ∧ x.start < planStart cfg a s prior base
    { s with
      calls := s.calls ++ [{
        kvGroup := a.kvGroup
        step := s.step
        incremental := a.incrementalPrefill cfg
        complete := full
        latest := latestFullFrontier chunkSize (a.incrementalPrefill cfg) prior items
        items := stored
        ops := if refused then [] else a.ops cfg stored.isEmpty
        status := if refused then .failed else .running }]
      found := s.found ++ (items.filter fun x => x.start ∈ present).map PlanItem.key
      masked := s.masked ++ leftOut.map PlanItem.key }

def Request.setCall (i : Nat) (t : Call H) : Request H := { s with calls := s.calls.set i t }

/-- The frontier of the call's KV group. -/
def Request.record (i : Nat) (t : Call H) : Request H :=
  match t.latest with
  | some f => { s with frontiers := s.frontiers.set t.kvGroup f
                       recorder := s.recorder.set t.kvGroup i }
  | none => s

/-- The next operation of a call is done. -/
def Request.exec (i : Nat) (t : Call H) (rest : List Op) : Op → Request H
  | .pause => s.setCall i { t with ops := rest }
  | .check => s.setCall i { t with ops := rest }
  | .prime =>
    let s' := s.setCall i { t with ops := rest }
    if cfg.diagnostic = true ∧ t.incremental = true then s'.record i t else s'
  | .publish layers =>
    { s.setCall i { t with ops := rest } with
      tracked := s.tracked ++ t.items.flatMap fun x => layers.map fun l => (x.key, l) }
  | .commit =>
    let s' := s.setCall i { t with ops := rest, status := .stored }
    if t.complete = true ∧ t.incremental = true then s'.record i t else s'

end

inductive Action
  /-- A forward step of the request begins, with a number of its tokens; the calls of earlier steps
  are not resumed. -/
  | forward (accepted : Nat) (cache : Option Nat) (signature : String)
  | begin (a : Args) (present : List Nat) (allocated : Nat)
  | run (i : Nat)
  | fails (i : Nat)
  | close (i : Nat)
  /-- The request is released, or its bookkeeping dropped. -/
  | release

section

variable {τ H : Type} (p : Planner τ H) (chunkSize : Nat)
variable (content : Nat → Option Scope → Nat → τ) (cfg : Config)

def Request.next (s : Request H) : Action → Option (Request H)
  | .forward accepted cache signature =>
    some { s with step := s.step + 1, accepted := accepted, cache := cache, signature := signature }
  | .begin a present allocated =>
    if a.skip ≤ s.accepted then some (s.begin p chunkSize content cfg a present allocated)
    else none
  | .run i => match s.calls[i]? with
    | some t => match t.ops with
      | op :: rest => if t.step = s.step then some (s.exec cfg i t rest op) else none
      | [] => none
    | none => none
  | .fails i => match s.calls[i]? with
    | some t => if t.status = .running then
        some (s.setCall i { t with ops := [], status := .failed })
      else none
    | none => none
  | .close i => match s.calls[i]? with
    | some t => match t.ops with
      | .pause :: _ => some (s.setCall i { t with
          ops := [], status := if t.status = .stored then .stored else .closed })
      | _ => none
    | none => none
  | .release =>
    some { s with frontiers := Dict.empty, scope := none, life := s.life + 1, step := s.step + 1 }

/-- The runs of one request id. -/
def machine : Machine (Request H) Action where
  start s := s = Request.init
  step := Request.next p chunkSize content cfg

/-! ## A sound frontier -/

variable (c : HashChain τ H) (s : Request H)

/-- The chunk was completely stored, or all its layers were put and tracked. -/
def Request.Stored (key : CacheKey H) : Prop :=
  key ∈ s.found ∨ ∀ l, l < cfg.layers key.kvGroup → (key, l) ∈ s.tracked

/-- The token sequence of the request. -/
def Request.sequence : Nat → τ := content s.life s.scope

/-- `saved` holds of the chunks below a frontier; only a store that is complete has recorded it; and
what is planned from it is the rest of the whole plan. -/
structure Request.SoundFor (saved : CacheKey H → Prop) : Prop where
  boundary : ∀ g f, s.frontiers.get? g = some f →
    ∃ k, f = (k * c.chunkSize, c.hashAt (s.sequence content) k) ∧
      ∀ i, i < k → saved (c.chunkItem (s.sequence content) g i).key
  completed : ∀ g f, s.frontiers.get? g = some f →
    ∃ i t, s.recorder.get? g = some i ∧ s.calls[i]? = some t ∧ t.kvGroup = g ∧ t.status = .stored
  rest : ∀ (a : Args) n cache signature items base prior s', a.skip ≤ n →
    layerwisePrefillStorePlan p c.chunkSize content cfg
      { s with accepted := n, cache := cache, signature := signature } a =
      (.ok (items, base, prior), s') →
    items = (p.db.processTokens (s'.tokens content) a.kvGroup).filter fun x =>
      planStart cfg a s' prior base ≤ x.start

/-- With the chunks that were stored. -/
def Request.Sound : Prop := s.SoundFor p content cfg c (s.Stored cfg)

/-- Chunks that a mask has left out are not stored again. -/
def Request.SoundMasked : Prop :=
  s.SoundFor p content cfg c fun key => s.Stored cfg key ∨ key ∈ s.masked

end

end StoreFrontier
