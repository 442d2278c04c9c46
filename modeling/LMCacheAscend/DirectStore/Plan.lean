import LMCacheAscend.Lib.Dict

/-!
# Plans of the direct store

A plan lists the chunks of a request's tokens with their cache keys: the start,
the end and the chain hash of each.  `directSuffixPlans` hashes the chunks added
since the frontier `(plannedEnd, plannedHash)` of the request and moves the
frontier behind them, `adoptCompletedLayerwiseStore` moves it behind the chunks
of a layerwise store, `remoteFillPrefixPlans` and `tailItem` plan the cached
prefix and the partial last chunk.

The token database is a parameter.  `TokenDatabase.Follows` is what it
documents: chunks of `chunkSize` tokens, each hashed with the hash of the chunk
before, and a call that starts from a prefix continues the chain.
-/

namespace DirectStore

open Lib

inductive DirectError
  | runtimeError (message : String)
  | valueError (message : String)
  deriving DecidableEq, Repr

/-- What is compared of a `CacheEngineKey`. -/
structure CacheKey (H : Type) where
  kvGroup : Nat
  chunkHash : H
  deriving DecidableEq, Repr

/-- `(start, end, key)`. -/
structure PlanItem (H : Type) where
  start : Nat
  stop : Nat
  key : CacheKey H
  deriving DecidableEq, Repr

/-- What the items of two groups must agree in. -/
def PlanItem.identity {H : Type} (x : PlanItem H) : Nat × Nat × H :=
  (x.start, x.stop, x.key.chunkHash)

def PlanItem.shift {H : Type} (base : Nat) (x : PlanItem H) : PlanItem H :=
  { x with start := x.start + base, stop := x.stop + base }

abbrev Plans (H : Type) := Dict Nat (List (PlanItem H))

/-! ## The token database -/

structure TokenDatabase (τ H : Type) where
  processTokens : List τ → Nat → List (PlanItem H)
  /-- Tokens, the number of tokens of the prefix, its hash, and the group. -/
  processTokensFromPrefix : List τ → Nat → H → Nat → List (PlanItem H)
  /-- `process_tokens(hashes=, offsets=)`. -/
  processHashes : List H → List Nat → Nat → List (PlanItem H)

/-- The configuration of a token database. -/
structure HashChain (τ H : Type) where
  chunkSize : Nat
  chunkSize_pos : 0 < chunkSize
  noneHash : H
  chain : H → List τ → H
  saveUnfullChunk : Bool

section

variable {τ H : Type} (c : HashChain τ H) (group : Nat)

/-- The chunks of some tokens that start at `start`, behind a chunk of hash `h`. -/
def HashChain.chunks : Nat → Nat → H → List τ → List (PlanItem H)
  | 0, _, _, _ => []
  | fuel + 1, start, h, tokens =>
    if tokens = [] then []
    else if tokens.length < c.chunkSize then
      if c.saveUnfullChunk then [⟨start, start + tokens.length, ⟨group, c.chain h tokens⟩⟩] else []
    else
      let h' := c.chain h (tokens.take c.chunkSize)
      ⟨start, start + c.chunkSize, ⟨group, h'⟩⟩ ::
        HashChain.chunks fuel (start + c.chunkSize) h' (tokens.drop c.chunkSize)

/-- The items of given hashes and sizes. -/
def offsetItems : Nat → List (H × Nat) → List (PlanItem H)
  | _, [] => []
  | start, e :: es => ⟨start, start + e.2, ⟨group, e.1⟩⟩ :: offsetItems (start + e.2) es

variable (db : TokenDatabase τ H)

/-- What `process_tokens` and `process_tokens_from_prefix` document. -/
structure TokenDatabase.Follows : Prop where
  process : ∀ tokens group,
    db.processTokens tokens group = c.chunks group tokens.length 0 c.noneHash tokens
  fromPrefix : ∀ tokens n h group, n ≤ tokens.length → c.chunkSize ∣ n →
    db.processTokensFromPrefix tokens n h group =
      c.chunks group (tokens.length - n) n h (tokens.drop n)
  hashes : ∀ hashes offsets group, hashes.length = offsets.length →
    db.processHashes hashes offsets group = offsetItems group 0 (hashes.zip offsets)

/-- A token database that does just that. -/
def HashChain.database : TokenDatabase τ H where
  processTokens tokens group := c.chunks group tokens.length 0 c.noneHash tokens
  processTokensFromPrefix tokens n h group :=
    c.chunks group (tokens.length - n) n h (tokens.drop n)
  processHashes hashes offsets group := offsetItems group 0 (hashes.zip offsets)

theorem HashChain.database_follows : c.database.Follows c :=
  ⟨fun _ _ => rfl, fun _ _ _ _ _ _ => rfl, fun _ _ _ _ => rfl⟩

end

/-! ## The planner -/

/-- The fields of `_DirectStoreRequestState` that planning reads and writes; `probeEnd` is that of
its remote fill. -/
structure RequestState (H : Type) where
  submittedEnd : Dict Nat Nat
  committedEnd : Dict Nat Nat
  plannedEnd : Nat
  plannedHash : H
  acceptedStoreEnd : Option Nat
  probeEnd : Nat

def RequestState.submitted {H : Type} (s : RequestState H) (group : Nat) : Nat :=
  (s.submittedEnd.get? group).getD 0

def RequestState.committed {H : Type} (s : RequestState H) (group : Nat) : Nat :=
  (s.committedEnd.get? group).getD 0

section

variable {τ H : Type} [DecidableEq H] (db : TokenDatabase τ H) (chunkSize : Nat)

/-- The plan of another group, from the hashes of group 0. -/
def groupPlan (plan0 : List (PlanItem H)) (base group : Nat) : List (PlanItem H) :=
  (db.processHashes (plan0.map fun x => x.key.chunkHash) (plan0.map fun x => x.stop - x.start)
    group).map (PlanItem.shift base)

/-- The loop over the groups of `_direct_suffix_plans`. -/
def groupPlans (plan0 : List (PlanItem H)) (base : Nat) :
    List Nat → Plans H → Except DirectError (Plans H)
  | [], plans => .ok plans
  | group :: groups, plans =>
    if group = 0 then groupPlans plan0 base groups plans
    else if plan0 = [] then groupPlans plan0 base groups (plans.set group [])
    else
      let plan := groupPlan db plan0 base group
      if plan.map PlanItem.identity ≠ plan0.map PlanItem.identity then
        .error (.runtimeError "Direct prefill KV groups produced different chunk plans")
      else groupPlans plan0 base groups (plans.set group plan)

/-- The tokens of the complete chunks. -/
def fullEnd (n : Nat) : Nat := n / chunkSize * chunkSize

variable (s : RequestState H) (tokens : List τ)

/-- Where a plan of the complete chunks starts. -/
def planBase (full : Nat) (groups : List Nat) : Nat :=
  if s.plannedEnd ≤ full ∧ ∀ group ∈ groups, s.plannedEnd ≤ s.submitted group then s.plannedEnd
  else 0

/-- The plan of group 0. -/
def latentPlan (base : Nat) : List (PlanItem H) :=
  if base = tokens.length then []
  else if base ≠ 0 then db.processTokensFromPrefix tokens base s.plannedHash 0
  else db.processTokens tokens 0

/-- The frontier moves behind the last item. -/
def RequestState.planned (plan0 : List (PlanItem H)) : RequestState H :=
  match plan0.getLast? with
  | none => s
  | some x => { s with plannedEnd := x.stop, plannedHash := x.key.chunkHash }

/-- `_direct_suffix_plans`. -/
def directSuffixPlans (groups : List Nat) : Except DirectError (Plans H) × RequestState H :=
  let full := fullEnd chunkSize tokens.length
  if ∀ group ∈ groups, full ≤ s.submitted group then
    (.ok (groups.foldl (fun plans group => plans.set group []) Dict.empty), s)
  else
    let base := planBase s full groups
    let plan0 := latentPlan db s (tokens.take full) base
    match groupPlans db plan0 base groups (Dict.empty.set 0 plan0) with
    | .error e => (.error e, s)
    | .ok plans => (.ok plans, s.planned plan0)

/-- `_remote_fill_prefix_plans`. -/
def remoteFillPrefixPlans (directGroups : List Nat) (tokens : List τ) (prefixEnd : Nat) :
    Except DirectError (Plans H) :=
  let latent := db.processTokens (tokens.take prefixEnd) 0
  if 1 ∉ directGroups then .ok (Dict.empty.set 0 latent)
  else
    let indexer := groupPlan db latent 0 1
    if indexer.map PlanItem.identity ≠ latent.map PlanItem.identity then
      .error (.runtimeError "Remote-fill KV groups produced different prefix plans")
    else .ok ((Dict.empty.set 0 latent).set 1 indexer)

/-- The plan of `_submit_direct_tail`: one item from the frontier to the end of the tokens. -/
def tailItem : Option (PlanItem H) :=
  let plan0 := if s.plannedEnd ≠ 0 then
      db.processTokensFromPrefix tokens s.plannedEnd s.plannedHash 0
    else db.processTokens tokens 0
  match plan0.filter fun x => x.start = s.plannedEnd ∧ x.stop = tokens.length with
  | [x] => some x
  | _ => none

/-- `keys` is `result.keys[0]`, if there is one. -/
structure LayerwiseStoreResult (H : Type) where
  kvGroup : Nat
  starts : List Nat
  ends : List Nat
  keys : Option (List (CacheKey H))
  committedEnd : Nat
  deriving DecidableEq, Repr

/-- The last complete chunk of a layerwise store. -/
def LayerwiseStoreResult.latestFull (r : LayerwiseStoreResult H) : Option (Nat × H) :=
  ((r.starts.zip (r.ends.zip (r.keys.getD []))).filter fun x => x.2.1 - x.1 = chunkSize).getLast?.map
    fun x => (x.2.1, x.2.2.chunkHash)

/-- The frontier moves behind a later complete chunk. -/
def RequestState.adoptFrontier : Option (Nat × H) → Except DirectError (RequestState H)
  | none => .ok s
  | some (stop, hash) =>
    if stop = s.plannedEnd ∧ hash ≠ s.plannedHash then
      .error (.runtimeError "Completed latent/index stores disagree on their hash frontier")
    else if s.plannedEnd < stop then .ok { s with plannedEnd := stop, plannedHash := hash }
    else .ok s

/-- `adopt_completed_layerwise_store`. -/
def adoptCompletedLayerwiseStore (r : LayerwiseStoreResult H) :
    Except DirectError (RequestState H) :=
  if r.committedEnd ≤ 0 then .ok s
  else if r.keys ≠ none ∧
      (r.starts.length ≠ r.ends.length ∨ r.starts.length ≠ (r.keys.getD []).length) then
    .error (.valueError "zip() arguments differ in length")
  else
    match s.adoptFrontier (r.latestFull chunkSize) with
    | .error e => .error e
    | .ok s => .ok { s with
        submittedEnd := s.submittedEnd.set r.kvGroup (max (s.submitted r.kvGroup) r.committedEnd)
        committedEnd := s.committedEnd.set r.kvGroup (max (s.committed r.kvGroup) r.committedEnd) }

end

end DirectStore
