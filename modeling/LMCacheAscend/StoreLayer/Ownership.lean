import LMCacheAscend.StoreLayer.Transfer

/-!
# Who owns the objects of a call in the end

Once a batch is published, its objects are handed over or given back wherever
the call stops.  Before that, an exception leaves behind what the batch already
holds: `leftBehind` counts it from the answers.
-/

namespace StoreLayer

open Lib List

/-- The pure part of `pendingChunks`. -/
def unstored : List Candidate → Except Exc (List Candidate)
  | [] => .ok []
  | x :: rest =>
    match x.stored with
    | .error e => .error e
    | .ok true => unstored rest
    | .ok false =>
      if x.stop ≤ x.start then unstored rest
      else
        match unstored rest with
        | .error e => .error e
        | .ok rest => .ok (x :: rest)

theorem pendingChunks_eq (candidates : List Candidate) :
    pendingChunks candidates = call (unstored candidates) := by
  induction candidates with
  | nil => rfl
  | cons x rest ih =>
    unfold pendingChunks unstored
    rw [ih]
    rcases x.stored with e | _ | _
    · rfl
    · by_cases hx : x.stop ≤ x.start
      · simp only [if_pos hx]
        rfl
      · simp only [if_neg hx]
        rcases unstored rest with e | rest <;> rfl
    · rfl

/-- The layers and the pending chunks of a call that comes to its allocation. -/
def planned (env : Env) : Option (Nat × List Candidate) := do
  let _ ← (numLayersForKvGroup env.engineLayers env.connectorLayers).toOption
  if env.healthy = false ∨ env.passive = true ∨ env.frozen = true then none
  else do
    let layers ←
      (numTransferLayersForCall env.engineLayers env.detectedLayers env.kvcaches).toOption
    let candidates ← env.plan.toOption
    let pending ← (unstored candidates).toOption
    pure (layers, pending)

variable (cfg : Config) {layers : Nat}

/-- The batch that a call publishes: what the allocation returns, when the preparation of the
transfer does not raise. -/
def publishedBatch (env : Env) : List BatchChunk :=
  match planned env with
  | none => []
  | some (layers, pending) =>
    match (allocateAll cfg env layers pending Run.init).1, env.prepare with
    | .ok batch, .ok _ => batch
    | _, _ => []

/-- How many objects the answers leave behind: those that the allocation loses, and the whole batch
when the preparation of the transfer raises. -/
def leftBehind (env : Env) : Nat :=
  match planned env with
  | none => 0
  | some (layers, pending) =>
    let b := batchStanding cfg env layers pending
    match env.prepare with
    | .error _ => b.left + b.held
    | .ok _ => b.left

/-! ## Suspension points -/

/-- A call that only waits. -/
structure Waits (s s' : Run) : Prop where
  nextId : s'.nextId = s.nextId
  lists : s'.lists = s.lists
  events : ∃ es, s'.events = s.events ++ es ∧ ∀ e ∈ es, e.neutral = true

instance : IsPreorder Run Waits where
  refl s := ⟨rfl, rfl, grown_refl s.events⟩
  trans _ _ _ h h' :=
    ⟨h'.nextId.trans h.nextId, h'.lists.trans h.lists, grown_trans h.events h'.events⟩

namespace Waits

theorem suspendWith (env : Env) (result : Bool) : Preserves Waits (suspendWith env result) := by
  intro s
  unfold StoreLayer.suspendWith log
  simp only [wp_bind, wp_get, wp_modify, post_ok, wp_call]
  exact ⟨rfl, rfl, [.suspend result], rfl, by simp [Event.neutral]⟩

theorem idle (cfg : Config) (env : Env) (layers : Nat) : Preserves Waits (idle cfg env layers) := by
  have hpause : Preserves Waits (pause env) := suspendWith env false
  unfold StoreLayer.idle
  split
  · refine hpause.bind fun _ => Preserves.forM fun _ _ => ?_
    exact hpause.bind fun _ => hpause
  · exact Preserves.forM fun _ _ => hpause

theorem accounts {s s' : Run} {left : Nat} {held : List MemoryObj} (h : Waits s s')
    (ha : Accounts s left held) : Accounts s' left held := by
  obtain ⟨hn, -, es, he, hes⟩ := h
  exact ha.neutral hes he hn

theorem released_eq {s s' : Run} (h : Waits s s') : released s'.events = released s.events := by
  obtain ⟨-, -, es, he, hes⟩ := h
  have hnil : released es = [] := by
    unfold released
    rw [flatMap_eq_nil_iff]
    intro e hm
    have := hes e hm
    cases e <;> first | rfl | cases this
  rw [he, released_append, hnil, append_nil]

end Waits

/-! ## The end of a call -/

theorem layers_eq {engineLayers : Nat} {connectorLayers : Option Nat}
    (h : numLayersForKvGroup engineLayers connectorLayers = .ok layers) :
    layers = engineLayers := by
  unfold numLayersForKvGroup at h
  rcases connectorLayers with _ | k
  · cases h
    rfl
  dsimp only at h
  split at h
  · cases h
  rename_i hk
  cases h
  exact not_not.1 hk

theorem transferLayers_eq {engineLayers : Nat} {connectorLayers kvcaches : Option Nat}
    (h : numTransferLayersForCall engineLayers connectorLayers kvcaches = .ok layers) :
    layers = engineLayers := by
  unfold numTransferLayersForCall at h
  cases h1 : numLayersForKvGroup engineLayers connectorLayers with
  | error e =>
    rw [h1] at h
    cases h
  | ok k =>
    rw [h1] at h
    obtain rfl := layers_eq h1
    rcases kvcaches with _ | count
    · cases h
      rfl
    change (if count ≠ k then _ else _) = _ at h
    split at h
    · cases h
    · cases h
      rfl

/-- The call that publishes `publishedBatch`. -/
structure Publishing (cfg : Config) (env : Env) (j : Job) : Prop where
  sameCfg : j.cfg = cfg
  sameEnv : j.env = env
  layers : j.layers = env.engineLayers
  batch : j.batch = publishedBatch cfg env
  nonempty : j.batch ≠ []
  ok : BatchOk j.cfg j.layers j.batch

/-- How a call ends: its lists are empty, or those of the batch that it publishes; `gone` are the
objects of the batch that are given back, none when the result is delivered. -/
structure Ends (cfg : Config) (env : Env) (s : Run) : Prop where
  accounts : Accounts s (leftBehind cfg env) []
  lists : (publishedBatch cfg env = [] ∧ s.lists = CacheLists.empty) ∨
    ∃ (j : Job) (gone : List MemoryObj), Publishing cfg env j ∧ j.Cleared gone s ∧
      (.suspend true ∈ s.events → gone = [])

theorem deliver_cleared {j : Job} {s : Run} (env : Env) (h : j.Cleared [] s) :
    wp (deliver env) (fun _ s' => j.Cleared [] s') s := by
  refine wp_mono (Waits.suspendWith env true s) fun _ s' hw => ⟨hw.accounts h.accounts, ?_, ?_⟩
  · rw [hw.lists]
    exact h.lists
  · rw [hw.released_eq]
    exact h.gone_iff

/-- What a batch leaves and lists when it ends, wherever it is left. -/
theorem storeBatch_spec {cfg : Config} {env : Env} {candidates pending : List Candidate}
    (hlayers : numTransferLayersForCall env.engineLayers env.detectedLayers env.kvcaches =
      .ok layers)
    (hplan : env.plan = .ok candidates) (hpend : unstored candidates = .ok pending)
    (hleft : planned env = some (layers, pending)) (hengine : layers = env.engineLayers) :
    wp (storeBatch cfg env) (fun _ s' => Ends cfg env s') Run.init := by
  have hcount : ∀ b, b = batchStanding cfg env layers pending → leftBehind cfg env =
      match env.prepare with
      | .error _ => b.left + b.held
      | .ok _ => b.left := by
    rintro b rfl
    unfold leftBehind
    rw [hleft]
  unfold storeBatch
  rw [wp_bind, wp_call, hlayers, post_ok, wp_bind, wp_call, hplan, post_ok, wp_bind,
    pendingChunks_eq, wp_call, hpend, post_ok, wp_bind]
  have hbatch : publishedBatch cfg env =
      match (allocateAll cfg env layers pending Run.init).1, env.prepare with
      | .ok batch, .ok _ => batch
      | _, _ => [] := by
    unfold publishedBatch
    rw [hleft]
  refine wp_mono (wp_and (wp_and (@allocateAll_spec cfg env _ _ _ Accounts.init)
    (Allocates.allocateAll cfg env layers pending Run.init)) (wp_run _ _)) ?_
  rintro (e | batch) s1 ⟨⟨h1, hf⟩, hrun⟩
  all_goals rw [hrun] at hbatch
  · refine ⟨?_, .inl ⟨hbatch, hf.lists⟩⟩
    rw [hcount _ rfl, h1.held]
    cases env.prepare <;> exact h1.accounts
  · rw [post_ok] at h1 ⊢
    have hu : Event.suspend true ∉ s1.events := by
      obtain ⟨es, he, hes⟩ := hf.events
      intro hm
      rw [he] at hm
      rcases hes _ hm with ⟨obj, h⟩ | ⟨obj, h⟩ <;> cases h
    by_cases hb : batch = []
    · subst hb
      have hzero : (batchStanding cfg env layers pending).held = 0 := h1.held.symm
      simp only [if_true, wp_bind]
      refine wp_mono (Waits.idle cfg env layers s1) ?_
      intro r s2 hw
      have hend : ∀ s3, Waits s2 s3 → Ends cfg env s3 := by
        intro s3 hw'
        have hw := trans_of Waits hw hw'
        refine ⟨hw.accounts ?_, .inl ⟨?_, hw.lists.trans hf.lists⟩⟩
        · rw [hcount _ rfl, hzero]
          cases env.prepare <;> exact h1.accounts
        · rw [hbatch]
          cases env.prepare <;> rfl
      rcases r with e | u
      · exact hend s2 (refl_of Waits s2)
      · exact wp_mono (Waits.suspendWith env true s2) fun _ s3 hw' => hend s3 hw'
    · rw [if_neg hb, wp_bind]
      cases hprep : env.prepare with
      | error e =>
        unfold transfer
        rw [wp_bind, wp_call, hprep]
        refine ⟨?_, .inl ⟨by rw [hbatch, hprep], hf.lists⟩⟩
        rw [hcount _ rfl, hprep, ← h1.held]
        exact h1.accounts.abandon_all
      | ok u =>
        let j : Job := ⟨cfg, env, layers, batch, (batchStanding cfg env layers pending).left⟩
        have hleft' : leftBehind cfg env = j.left := by rw [hcount _ rfl, hprep]
        have hj : Publishing cfg env j :=
          ⟨rfl, rfl, hengine, by rw [hbatch, hprep], hb, h1.ok⟩
        refine wp_mono (Job.transfer_spec (j := j) h1.ok h1.accounts hf.lists hu hprep) ?_
        rintro (e | u) s2 h2
        · obtain ⟨gone, h2, hund⟩ := h2
          refine ⟨?_, .inr ⟨j, gone, hj, h2, fun hm => absurd hm hund⟩⟩
          rw [hleft']
          exact h2.accounts
        · rw [post_ok]
          refine wp_mono (deliver_cleared env h2) fun r s3 h3 =>
            ⟨?_, .inr ⟨j, [], hj, h3, fun _ => rfl⟩⟩
          rw [hleft']
          exact h3.accounts

theorem storeLayer_spec (env : Env) :
    wp (storeLayer cfg env) (fun _ s' => Ends cfg env s') Run.init := by
  have hnone : planned env = none → ∀ s', Waits Run.init s' → Ends cfg env s' := by
    intro hp s' hw
    refine ⟨hw.accounts ?_, .inl ⟨?_, hw.lists⟩⟩
    · unfold leftBehind
      rw [hp]
      exact Accounts.init
    · unfold publishedBatch
      rw [hp]
  have hrefl := refl_of Waits Run.init
  unfold storeLayer
  rw [wp_bind, wp_call]
  cases h1 : numLayersForKvGroup env.engineLayers env.connectorLayers with
  | error e => exact hnone (by simp [planned, h1, Except.toOption]) _ hrefl
  | ok n =>
    rw [post_ok]
    by_cases hidle : env.healthy = false ∨ env.passive = true ∨ env.frozen = true
    · have hp : planned env = none := by simp [planned, h1, hidle, Except.toOption]
      rw [if_pos hidle]
      refine wp_bind_of (Waits.idle cfg env n Run.init) (fun _ s1 hw => hnone hp s1 hw)
        fun u s1 hw => ?_
      exact wp_mono (Waits.suspendWith env true s1) fun _ s2 hw' =>
        hnone hp s2 (trans_of Waits hw hw')
    · rw [if_neg hidle]
      cases h2 : numTransferLayersForCall env.engineLayers env.detectedLayers env.kvcaches with
      | error e =>
        unfold storeBatch
        rw [wp_bind, wp_call, h2]
        exact hnone (by simp [planned, h1, hidle, h2, Except.toOption]) _ hrefl
      | ok layers =>
        cases h3 : env.plan with
        | error e =>
          unfold storeBatch
          rw [wp_bind, wp_call, h2, post_ok, wp_bind, wp_call, h3]
          exact hnone (by simp [planned, h1, hidle, h2, h3, Except.toOption]) _ hrefl
        | ok candidates =>
          cases h4 : unstored candidates with
          | error e =>
            unfold storeBatch
            rw [wp_bind, wp_call, h2, post_ok, wp_bind, wp_call, h3, post_ok, wp_bind,
              pendingChunks_eq, wp_call, h4]
            exact hnone (by simp [planned, h1, hidle, h2, h3, h4, Except.toOption]) _ hrefl
          | ok pending =>
            exact storeBatch_spec h2 h3 h4
              (by simp [planned, h1, hidle, h2, h3, h4, Except.toOption]) (transferLayers_eq h2)

/-- The objects are settled, but for what the answers leave behind before the transfer. -/
theorem store_layer_settled_iff (cfg : Config) (env : Env) :
    Settled (storeLayer cfg env Run.init).2.events ↔ leftBehind cfg env = 0 :=
  (storeLayer_spec cfg env).accounts.settled_iff

/-! ## A page that is left behind -/

/-- A page store of two layers. -/
def pageConfig : Config :=
  { forceLayerwise := true, pageFirst := true, pageStore := true, merged := fun _ => rfl,
    mixedIndexer := false, asyncSupported := true, mooncakeRemote := true, remoteStore := false,
    chunkSize := 4 }

def newChunk (start : Nat) (page : Answer) : Candidate :=
  { start := start, stop := start + 4, chunkHash := start, stored := .ok false, page := page,
    storedLegacy := .ok false, flat := .ok (some 2), shapes := [] }

/-- A healthy call that plans these chunks; nothing raises, and nothing is allocated at once for
all chunks. -/
def quietEnv (candidates : List Candidate) (generator : List Resumption) : Env :=
  { deferredPut := false, windowedSave := false, groupWanted := false, healthy := true,
    passive := false, frozen := false, engineLayers := 2, connectorLayers := some 2,
    detectedLayers := some 2, kvcaches := some 2, resume := fun _ => .ok (),
    plan := .ok candidates, bulk := .ok none, prepare := .ok (), groupStore := .ok (),
    generator := generator, tensors := fun _ => .ok (), putLayer := fun _ => .ok (),
    fences := .ok (), reserve := .ok (), fill := .ok (), putPages := .ok (), putFlat := .ok () }

/-- The allocation of the second page raises: the page of the first chunk is not given back. -/
theorem raising_page_leaks :
    ¬ ∀ (cfg : Config) (env : Env), Settled (storeLayer cfg env Run.init).2.events := by
  intro h
  have h' := h pageConfig (quietEnv [newChunk 0 (.ok (some 1)),
    newChunk 4 (.error (.exception "allocation"))] []) ⟨0, true⟩ (by decide)
  revert h'
  decide

end StoreLayer
