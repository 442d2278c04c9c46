import LMCacheAscend.DirectStore.SourceFences
import Mathlib.Data.List.MinMax

/-!
# No source without its fence

Every batch and every probe with sources that the coordinator is handed has an
event that was recorded before, for the same request, behind all of its pages
(`AllFenced`).  What a request keeps for a later call stays within its accepted
tokens, and the event it remembers is one that was recorded for it (`Kept`);
each program of a request keeps this and only adds to the log (`Grows`).
-/

namespace DirectStore

open Lib RemoteFill List Option Dict

section

variable {τ H : Type}

/-! ## The log -/

/-- An entry whose sources have their fence among the entries before it. -/
def Fenced (pre : List (FenceEvent H)) : FenceEvent H → Prop
  | .recorded _ _ _ => True
  | .batch reqId batch => batch.reqId = reqId ∧ ∃ e ∈ batch.readyEvents, ∃ c,
      .recorded reqId e c ∈ pre ∧ ∀ r ∈ batch.ranges, r.2 ≤ c
  | .probe reqId pages events => events = [] ∨ ∃ e ∈ events, ∃ c : Nat,
      .recorded reqId e c ∈ pre ∧ ∀ p ∈ pages, p.chunkEnd ≤ c

def AllFenced (log : List (FenceEvent H)) : Prop :=
  ∀ pre e post, log = pre ++ e :: post → Fenced pre e

variable {e : FenceEvent H} {log : List (FenceEvent H)} {events : List Nat}
  {batch : DirectPageBatch H} {s : FenceRun H} {store : StoreState H} {choice : FenceChoice}
  {plans : Plans H}

theorem AllFenced.snoc (h : AllFenced log) (he : Fenced log e) : AllFenced (log ++ [e]) := by
  intro pre e' post heq
  rcases eq_nil_or_concat post with rfl | ⟨post, last, rfl⟩
  · obtain ⟨rfl, hlast⟩ := append_inj' heq rfl
    cases hlast
    exact he
  · rw [concat_eq_append, ← cons_append, ← append_assoc] at heq
    obtain ⟨heq, -⟩ := append_inj' heq rfl
    exact h pre e' post heq

/-- Some of the events is recorded behind the first `n` tokens of the request. -/
def Covers (log : List (FenceEvent H)) (reqId : String) (n : Nat) (events : List Nat) : Prop :=
  ∃ e ∈ events, ∃ c, n ≤ c ∧ .recorded reqId e c ∈ log

variable {log' : List (FenceEvent H)} {item : PlanItem H} {batches : List (DirectPageBatch H)}

theorem Covers.mono {log : List (FenceEvent H)} {reqId : String} {n : Nat}
    (h : Covers log reqId n events) (hlog : log <+: log') :
    Covers log' reqId n events := by
  obtain ⟨e, he, c, hc, hmem⟩ := h
  exact ⟨e, he, c, hc, hlog.subset hmem⟩

/-- A batch of the request within its first `n` tokens, with an event behind them. -/
structure Placed (log : List (FenceEvent H)) (reqId : String) (n : Nat)
    (batch : DirectPageBatch H) : Prop where
  owner : batch.reqId = reqId
  covers : Covers log reqId n batch.readyEvents
  ranges : ∀ r ∈ batch.ranges, r.2 ≤ n

theorem Placed.mono {log log' : List (FenceEvent H)} {reqId : String} {n : Nat}
    (h : Placed log reqId n batch) (hlog : log <+: log') :
    Placed log' reqId n batch :=
  ⟨h.owner, h.covers.mono hlog, h.ranges⟩

theorem Placed.fenced {reqId : String} {n : Nat} (h : Placed log reqId n batch) :
    Fenced log (.batch reqId batch) := by
  obtain ⟨e, he, c, hc, hmem⟩ := h.covers
  exact ⟨h.owner, e, he, c, hmem, fun r hr => Nat.le_trans (h.ranges r hr) hc⟩

theorem Fenced.mono {log : List (FenceEvent H)} (h : Fenced log e) (hlog : log <+: log') :
    Fenced log' e := by
  cases e with
  | recorded reqId event tokenEnd => trivial
  | batch reqId batch =>
    obtain ⟨hid, e, he, c, hmem, hr⟩ := h
    exact ⟨hid, e, he, c, hlog.subset hmem, hr⟩
  | probe reqId pages events =>
    rcases h with h | ⟨e, he, c, hmem, hp⟩
    · exact .inl h
    · exact .inr ⟨e, he, c, hlog.subset hmem, hp⟩

/-! ## What a request keeps -/

/-- The state of a request with `n` accepted tokens. -/
structure Kept (reqId : String) (n : Nat) (s : FenceRun H) : Prop where
  handed : AllFenced s.log
  fence : ∀ e, s.store.fence.event = some e →
    s.store.fence.eventSource = requestHandoffEventSource →
      .recorded reqId e s.store.fence.tokenEnd ∈ s.log
  deferred : ∀ f b, s.store.fill = some f → b ∈ f.deferredBatches →
    b.reqId = reqId ∧ ∀ r ∈ b.ranges, r.2 ≤ n
  cpuFills : ∀ x ∈ s.store.cpuFills.entries, Fenced s.log (.batch reqId x.2)

/-- The log grows, and what is kept stays. -/
structure Grows (reqId : String) (n : Nat) (s s' : FenceRun H) : Prop where
  log : s.log <+: s'.log
  accepted : s'.store.request.acceptedStoreEnd = s.store.request.acceptedStoreEnd
  kept : Kept reqId n s → Kept reqId n s'

variable {reqId : String} {n : Nat}

theorem Grows.refl (s : FenceRun H) : Grows reqId n s s := ⟨prefix_rfl, rfl, id⟩

theorem Grows.trans {s1 s2 s3 : FenceRun H} (h : Grows reqId n s1 s2) (h' : Grows reqId n s2 s3) :
    Grows reqId n s1 s3 :=
  ⟨h.log.trans h'.log, h'.accepted.trans h.accepted, h'.kept ∘ h.kept⟩

instance : IsPreorder (FenceRun H) (Grows reqId n) where
  refl := .refl
  trans _ _ _ := .trans

theorem Grows.of_store
    (haccepted : store.request.acceptedStoreEnd = s.store.request.acceptedStoreEnd)
    (hfence : store.fence = s.store.fence)
    (hfill : ∀ f b, store.fill = some f → b ∈ f.deferredBatches →
      ∃ f', s.store.fill = some f' ∧ b ∈ f'.deferredBatches)
    (hcpu : store.cpuFills = s.store.cpuFills) : Grows reqId n s { s with store := store } where
  log := prefix_rfl
  accepted := haccepted
  kept h := by
    refine ⟨h.handed, ?_, fun f b hf hb => ?_, ?_⟩
    · rw [hfence]
      exact h.fence
    · obtain ⟨f', hf', hb'⟩ := hfill f b hf hb
      exact h.deferred f' b hf' hb'
    · rw [hcpu]
      exact h.cpuFills

theorem grows_request (reqId : String) (n : Nat) (f : RequestState H → RequestState H)
    (hf : ∀ r, (f r).acceptedStoreEnd = r.acceptedStoreEnd) :
    Preserves (Grows reqId n) (modifyStore fun s => { s with request := f s.request }) :=
  fun s => Grows.of_store (hf s.store.request) rfl (fun g _ hg hb => ⟨g, hg, hb⟩) rfl

theorem grows_fill (reqId : String) (n : Nat) (f : FillState H → FillState H)
    (hf : ∀ g, (f g).deferredBatches ⊆ g.deferredBatches) :
    Preserves (Grows reqId n) (modifyFill f) := by
  refine fun s => Grows.of_store rfl rfl (fun g b hg hb => ?_) rfl
  obtain ⟨g', hg', rfl⟩ := map_eq_some_iff.1 hg
  exact ⟨g', hg', hf g' hb⟩

theorem grows_disable (reqId : String) (n : Nat) (reason : String) :
    Preserves (Grows (H := H) reqId n) (disable reason) :=
  grows_fill reqId n _ fun _ => Subset.refl _

theorem grows_emit (he : Kept reqId n s → Fenced s.log e) :
    wp (emit e) (fun _ s' => Grows reqId n s s') s where
  log := prefix_append _ _
  accepted := rfl
  kept h := ⟨h.handed.snoc (he h),
    fun e' h1 h2 => mem_append_left _ (h.fence e' h1 h2), h.deferred,
    fun x hx => (h.cpuFills x hx).mono (prefix_append _ _)⟩

/-! ## Preparing -/

section

variable (cfg : StoreConfig H) (env : StoreEnv H)

theorem grows_jobsRun (reqId : String) (n : Nat) : Preserves (Grows reqId n) (jobsRun env) := by
  refine .bind .get fun s => ?_
  split
  · exact grows_disable reqId n _
  · exact .pure _

theorem grows_admitHandoff (reqId : String) (n : Nat) :
    Preserves (Grows reqId n) (admitHandoff env) := by
  unfold admitHandoff
  split
  · exact .bind (grows_disable reqId n _) fun _ => .pure _
  refine .bind (grows_fill reqId n _ fun _ => Subset.refl _) fun _ => ?_
  split
  · exact .bind (grows_disable reqId n _) fun _ => .pure _
  · exact .pure _

theorem grows_prepareRequest (reqId : String) (n : Nat) :
    Preserves (Grows reqId n) (prepareRequest cfg env) := by
  unfold prepareRequest
  split
  · intro s
    rw [wp_get_bind]
    split
    · split
      · exact Preserves.pure _ s
      · exact grows_admitHandoff env reqId n s
    · next hnone =>
      split
      · refine Preserves.bind (fun s' => ?_)
          (fun _ => grows_admitHandoff env reqId n) s
        refine Grows.of_store rfl rfl (fun f b hf hb => ?_) rfl
        cases hf
        cases hb
      · exact Preserves.pure _ s
  · exact .pure _

theorem grows_scheduleBatch (n : Nat) (h : Fenced s.log (.batch reqId batch)) :
    wp (scheduleBatch cfg env reqId batch) (fun _ s' => Grows reqId n s s') s := by
  unfold scheduleBatch
  refine wp_bind_of (grows_jobsRun env reqId n s) (fun _ _ h => h) fun u s1 h1 => ?_
  rw [wp_get_bind]
  split
  · exact h1
  split
  · exact h1
  split
  · exact wp_mono (grows_disable reqId n _ s1) fun _ _ h2 => h1.trans h2
  · exact wp_mono (grows_emit fun _ => h.mono h1.log) fun _ _ h2 => h1.trans h2

theorem Kept.covers (h : Kept reqId n s) {m : Nat} (hne : s.store.fence.remoteReadyEvents m ≠ []) :
    Covers s.log reqId m (s.store.fence.remoteReadyEvents m) := by
  unfold SourceFence.remoteReadyEvents at hne ⊢
  split at hne
  · exact absurd rfl hne
  · next e hevent =>
    split at hne
    · exact absurd rfl hne
    next hsource =>
    simp only at hne
    split at hne
    · next hmem =>
      rw [not_or, not_not, Nat.not_lt] at hsource
      simp only
      rw [if_neg (by rw [not_or, not_not, Nat.not_lt]; exact hsource), if_pos hmem]
      exact ⟨e, hmem, _, hsource.2, h.fence e hevent hsource.1⟩
    · exact absurd rfl hne

theorem grows_scheduleProbePages (n : Nat) {pages : List ControlPage} {m : Nat}
    (hpages : ∀ p ∈ pages, p.chunkEnd ≤ (m : Int)) :
    wp (scheduleProbePages reqId pages m) (fun _ s' => Grows reqId n s s') s := by
  unfold scheduleProbePages
  rw [wp_get_bind]
  split
  · exact Grows.refl s
  split
  · exact Grows.refl s
  refine grows_emit fun hkept => ?_
  split
  · by_cases hne : s.store.fence.remoteReadyEvents m = []
    · exact .inl hne
    obtain ⟨e, he, c, hc, hmem⟩ := hkept.covers hne
    exact .inr ⟨e, he, c, hmem, fun p hp =>
      Int.le_trans (hpages p hp) (Int.ofNat_le.2 hc)⟩
  · exact .inl rfl

end

/-! ## The fence of a call -/

theorem SourceFence.rememberEvent_handoff {f : SourceFence} {m e : Nat} {event : Option Nat}
    {source : String} (he : (f.rememberEvent m event source).event = some e)
    (hs : (f.rememberEvent m event source).eventSource = requestHandoffEventSource) :
    event = some e ∧ source = requestHandoffEventSource ∧
        (f.rememberEvent m event source).tokenEnd = m ∨
      f.event = some e ∧ f.eventSource = requestHandoffEventSource ∧
        (f.rememberEvent m event source).tokenEnd = f.tokenEnd := by
  unfold SourceFence.rememberEvent at he hs ⊢
  cases event with
  | none => exact .inr ⟨he, hs, rfl⟩
  | some e' =>
    simp only at he hs ⊢
    by_cases hle : f.tokenEnd ≤ m
    · rw [if_pos hle] at he hs ⊢
      refine .inl ⟨he, ?_, rfl⟩
      simp only at hs
      split at hs
      · exact hs
      · exact absurd hs (by decide)
    · rw [if_neg hle] at he hs ⊢
      exact .inr ⟨he, hs, rfl⟩

theorem SourceFence.remember_event (f : SourceFence) (m : Nat) (event : Option Nat)
    (source : String) (events : List (Option Nat)) :
    (f.remember m event source events).event = (f.rememberEvent m event source).event ∧
      (f.remember m event source events).eventSource =
        (f.rememberEvent m event source).eventSource ∧
      (f.remember m event source events).tokenEnd =
        (f.rememberEvent m event source).tokenEnd := by
  unfold SourceFence.remember
  simp only
  split <;> exact ⟨rfl, rfl, rfl⟩

theorem Grows.of_fence {fence : SourceFence} (h : Kept reqId n s → ∀ e, fence.event = some e →
      fence.eventSource = requestHandoffEventSource → .recorded reqId e fence.tokenEnd ∈ s.log) :
    Grows reqId n s { s with store := { s.store with fence := fence } } where
  log := prefix_rfl
  accepted := rfl
  kept hkept := ⟨hkept.handed, h hkept, hkept.deferred, hkept.cpuFills⟩

theorem grows_onlyIf (c : Prop) [Decidable c] {p : FenceM H PUnit}
    (hp : c → Preserves (Grows reqId n) p) : Preserves (Grows reqId n) (onlyIf c p) := by
  unfold onlyIf
  split
  · next h => exact hp h
  · exact .pure _

theorem recordHandoff_spec (call : StoreArgs τ) (s : FenceRun H) :
    wp (recordHandoff reqId call n) (fun _ s' => Grows reqId n s s' ∧
      ∀ e, call.sourceReadyEvent = some e →
        call.sourceReadyEventSource = requestHandoffEventSource →
          .recorded reqId e n ∈ s'.log) s := by
  unfold recordHandoff
  split
  · next e he =>
    unfold onlyIf
    split
    · refine ⟨grows_emit fun _ => trivial, fun e' he' _ => ?_⟩
      rw [he] at he'
      cases he'
      exact mem_append_right _ (mem_singleton_self _)
    · next hne => exact ⟨.refl s, fun e' _ hs => absurd hs hne⟩
  · next hnone =>
    refine ⟨.refl s, fun e he _ => ?_⟩
    rw [hnone] at he
    cases he

theorem grows_rememberReadiness (reqId : String) (n : Nat) (call : StoreArgs τ) :
    Preserves (Grows (H := H) reqId n) (rememberReadiness reqId call n) := by
  intro s
  unfold rememberReadiness
  refine wp_bind_of (recordHandoff_spec call s) (fun _ _ ⟨h1, hmem⟩ => h1) fun u s1 ⟨h1, hmem⟩ => ?_
  refine h1.trans (Grows.of_fence fun hkept e he hs => ?_)
  obtain ⟨heq, hseq, htok⟩ := SourceFence.remember_event s1.store.fence n call.sourceReadyEvent
    call.sourceReadyEventSource call.sourceReadyEvents
  rw [heq] at he
  rw [hseq] at hs
  rw [htok]
  rcases SourceFence.rememberEvent_handoff he hs with ⟨h1, h2, h3⟩ | ⟨h1, h2, h3⟩
  · rw [h3]
    exact hmem e h1 h2
  · rw [h3]
    exact hkept.fence e h1 h2

section

variable (cfg : StoreConfig H) (env : StoreEnv H) (call : StoreArgs τ)

theorem grows_prepareFill (reqId : String) (n m : Nat) :
    Preserves (Grows reqId n) (prepareFill cfg env call m) := by
  unfold prepareFill
  refine .bind (grows_prepareRequest cfg env reqId n) fun prepared => ?_
  split
  · exact .pure _
  split
  · exact .bind (grows_disable reqId n _) fun _ => .pure _
  refine .bind (grows_onlyIf _ fun _ => grows_fill reqId n _ fun _ => Subset.refl _)
    fun _ => .bind (.get) fun s => ?_
  split
  · exact .pure _
  split
  · exact .bind (grows_disable reqId n _) fun _ => .pure _
  · exact .pure _

theorem Kept.callEvents (h : Kept reqId n s) {remoteFill : Bool}
    (hne : callEvents cfg call s.store.fence n remoteFill ≠ []) :
    Covers s.log reqId n (callEvents cfg call s.store.fence n remoteFill) := by
  unfold DirectStore.callEvents at hne ⊢
  split at hne
  · exact absurd rfl hne
  · next hmode =>
    rw [if_neg hmode]
    exact h.covers hne

theorem chooseFence_spec (h : Kept reqId n s) (remoteFill : Bool) :
    wp (chooseFence cfg call n remoteFill) (post (fun choice s' => Grows reqId n s s' ∧
      (choice.remoteFill = true → Covers s'.log reqId n choice.events)) fun _ _ => False) s := by
  unfold chooseFence
  rw [wp_get_bind]
  simp only
  split
  · next hgo =>
    refine ⟨.refl s, fun hfill => h.callEvents cfg call (hgo.resolve_left fun hno => ?_)⟩
    have hfill : remoteFill = true := hfill
    rw [hno] at hfill
    cases hfill
  split
  · have hclear : Preserves (Grows (H := H) reqId n) (modifyFill fun f => { f with
        disabledReason := "incomplete_producer_fence", deferredBatches := [],
        fenceDeferred := false }) := grows_fill reqId n _ fun _ => nil_subset _
    exact ⟨hclear s, fun hfill => by cases hfill⟩
  · have hdefer : Preserves (Grows (H := H) reqId n)
        (modifyFill fun f => { f with fenceDeferred := true }) :=
      grows_fill reqId n _ fun _ => Subset.refl _
    exact ⟨hdefer s, fun hfill => by cases hfill⟩

theorem placed_merge {batches : List (DirectPageBatch H)}
    (h : mergeDeferredRemoteFillBatches batches events = .ok batch)
    (hcovers : Covers log reqId n events)
    (hbatches : ∀ b ∈ batches, b.reqId = reqId ∧ ∀ r ∈ b.ranges, r.2 ≤ n) :
    Placed log reqId n batch := by
  unfold mergeDeferredRemoteFillBatches at h
  split at h
  · next first rest event hlast =>
    split at h
    · cases h
    · cases h
      refine ⟨(hbatches first mem_cons_self).1, hcovers, fun r hr => ?_⟩
      obtain ⟨b, hb, hr⟩ := mem_flatMap.1 hr
      exact (hbatches b hb).2 r hr
  · cases h

theorem releaseDeferred_spec (h : Kept reqId n s)
    (hcovers : choice.remoteFill = true → Covers s.log reqId n choice.events) :
    wp (releaseDeferred cfg env reqId choice) (fun out s' => Grows reqId n s s' ∧
      (out = .ok true → choice.remoteFill = true)) s := by
  unfold releaseDeferred
  rw [wp_get_bind]
  split
  · next f hfill hf =>
    split
    · exact ⟨.refl s, fun _ => hfill⟩
    rw [wp_bind]
    have hmerge : wp (onlyIf (f.deferredBatches ≠ []) do
        let batch ← liftExcept (mergeDeferredRemoteFillBatches f.deferredBatches choice.events)
        scheduleBatch cfg env reqId batch) (fun _ s' => Grows reqId n s s') s := by
      unfold onlyIf
      split
      · cases hbatch : mergeDeferredRemoteFillBatches f.deferredBatches choice.events with
        | error e => exact Grows.refl s
        | ok batch =>
          exact grows_scheduleBatch cfg env n (placed_merge hbatch (hcovers hfill)
            fun b hb => h.deferred f b hf hb).fenced
      · exact Grows.refl s
    refine wp_cases hmerge (fun _ _ h1 => ⟨h1, nofun⟩) fun u s1 h1 => ?_
    rw [post_ok]
    have hrest : Preserves (Grows (H := H) reqId n) (do
        modifyFill fun f => { f with deferredBatches := [], fenceDeferred := false }
        jobsRun env
        let s ← get
        pure (s.store.fill.any fun f => f.disabledReason = "") : FenceM H Bool) :=
      .bind (grows_fill reqId n _ fun _ => nil_subset _) fun _ =>
        .bind (grows_jobsRun env reqId n) fun _ => .bind (.get) fun _ => .pure _
    exact wp_mono (hrest s1) fun _ _ h2 => ⟨h1.trans h2, fun _ => hfill⟩
  · exact ⟨.refl s, fun heq => by cases heq⟩

end

/-! ## Plans -/

/-- The items of some tokens lie within them. -/
structure TokenDatabase.Within (db : TokenDatabase τ H) : Prop where
  process : ∀ tokens group, ∀ x ∈ db.processTokens tokens group, x.stop ≤ tokens.length
  fromPrefix : ∀ tokens m h group, m ≤ tokens.length →
    ∀ x ∈ db.processTokensFromPrefix tokens m h group, x.stop ≤ tokens.length

theorem within_of_identity {plan plan0 : List (PlanItem H)}
    (h : plan.map PlanItem.identity = plan0.map PlanItem.identity)
    (hplan : ∀ x ∈ plan0, x.stop ≤ n) : ∀ x ∈ plan, x.stop ≤ n := by
  intro x hx
  have hmem : x.identity ∈ plan0.map PlanItem.identity := h ▸ mem_map_of_mem hx
  obtain ⟨y, hy, heq⟩ := mem_map.1 hmem
  have hstop : y.stop = x.stop := congrArg (fun id => id.2.1) heq
  rw [← hstop]
  exact hplan y hy

variable {tokens : List τ}

theorem latentPlan_within {db : TokenDatabase τ H} (hdb : db.Within) (s : RequestState H)
    {base : Nat} (hbase : base ≤ tokens.length) :
    ∀ x ∈ latentPlan db s tokens base, x.stop ≤ tokens.length := by
  unfold latentPlan
  split
  · exact nofun
  split
  · exact hdb.fromPrefix tokens base s.plannedHash 0 hbase
  · exact hdb.process tokens 0

theorem directSuffixPlans_within [DecidableEq H] {db : TokenDatabase τ H} (hdb : db.Within)
    {chunkSize : Nat} {s s' : RequestState H} {groups : List Nat} {plans : Plans H}
    (h : directSuffixPlans db chunkSize s tokens groups = (.ok plans, s')) :
    ∀ g ∈ groups, ∀ x ∈ (plans.get? g).getD [], x.stop ≤ tokens.length := by
  intro g hg
  rcases directSuffixPlans_ok h with ⟨hnil, -, -⟩ | ⟨plan0, hplan0, -, hzero, -, hagree⟩
  · rw [hnil g]
    exact nofun
  have hlatent : ∀ x ∈ plan0, x.stop ≤ tokens.length := by
    intro x hx
    rw [hplan0] at hx
    have hbase := planBase_le s (fullEnd chunkSize tokens.length) groups
    rw [← length_take_fullEnd chunkSize tokens] at hbase
    have hle := latentPlan_within hdb s hbase x (by rwa [length_take_fullEnd])
    rw [length_take_fullEnd] at hle
    exact Nat.le_trans hle (Nat.div_mul_le_self _ _)
  by_cases hg0 : g = 0
  · rw [hg0, hzero]
    exact hlatent
  · exact within_of_identity (hagree g hg hg0).identity hlatent

theorem directSuffixPlans_accepted [DecidableEq H] (db : TokenDatabase τ H) (chunkSize : Nat)
    (s : RequestState H) (tokens : List τ) (groups : List Nat) :
    (directSuffixPlans db chunkSize s tokens groups).2.acceptedStoreEnd = s.acceptedStoreEnd := by
  unfold directSuffixPlans
  simp only
  split
  · rfl
  split
  · rfl
  unfold RequestState.planned
  split
  · rfl
  · rfl

theorem probePages_within {pcfg : ProducerConfig H} {probeStart probeEnd : Nat}
    {pages : List ControlPage}
    (h : remoteFillProbeControlPages pcfg plans probeStart probeEnd = .ok pages) :
    ∀ p ∈ pages, p.chunkEnd ≤ (probeEnd : Int) := by
  intro p hp
  rcases remoteFillProbeControlPages_ok h with rfl | ⟨-, -, hmem⟩
  · cases hp
  · obtain ⟨⟨g, x⟩, hx, rfl⟩ := (hmem p).1 hp
    exact Int.ofNat_le.2 (mem_probeItems.1 hx).2.2.2

variable (cfg : StoreConfig H) (env : StoreEnv H) (call : StoreArgs τ) (db : TokenDatabase τ H)

/-- The arguments of an accepted call. -/
structure Accepted (call : StoreArgs τ) (n : Nat) : Prop where
  le_tokens : n ≤ call.tokens.length
  verified_le : call.verifiedPrefixEnd ≤ n

theorem acceptStore_spec (s : FenceRun H) :
    wp (acceptStore call) (post (fun n s' => Accepted call n ∧
      s.store.request.acceptedStoreEnd.getD 0 ≤ n ∧ s' = { s with store := { s.store with
        request := { s.store.request with acceptedStoreEnd := some n } } })
      fun _ s' => s' = s) s := by
  unfold acceptStore
  simp only
  split
  · rfl
  next htokens =>
  split
  · rfl
  next hbase =>
  split
  · rfl
  next hverified =>
  rw [wp_get_bind]
  split
  · rfl
  next hback =>
  refine ⟨⟨Nat.le_of_not_lt htokens, ?_⟩, ?_, rfl⟩
  · exact Nat.le_trans (Nat.le_of_not_lt hverified) (Nat.le_of_not_lt hbase)
  · cases haccepted : s.store.request.acceptedStoreEnd with
    | none => exact Nat.zero_le _
    | some m => exact Nat.le_of_not_lt fun hlt => hback ⟨m, haccepted, hlt⟩

theorem suffixPlans_spec [DecidableEq H] (reqId : String) (n : Nat) (hdb : db.Within)
    (tokens : List τ) (s : FenceRun H) :
    wp (suffixPlans cfg db call tokens) (post (fun plans s' => Grows reqId n s s' ∧
      ∀ g ∈ call.groups, ∀ x ∈ (plans.get? g).getD [], x.stop ≤ tokens.length)
      fun _ s' => Grows reqId n s s') s := by
  unfold suffixPlans
  rw [wp_get_bind, wp_bind]
  have hgrows : Grows reqId n s { s with store := { s.store with
      request := (directSuffixPlans db cfg.chunkSize s.store.request tokens call.groups).2 } } :=
    Grows.of_store (directSuffixPlans_accepted db _ _ _ _) rfl (fun g _ hg hb => ⟨g, hg, hb⟩) rfl
  rcases hplans : directSuffixPlans db cfg.chunkSize s.store.request tokens call.groups with
    ⟨e | plans, s'⟩
  · rw [hplans] at hgrows
    exact hgrows
  · rw [hplans] at hgrows
    exact ⟨hgrows, directSuffixPlans_within hdb hplans⟩

theorem wp_liftExcept {α : Type} (r : Except DirectError α)
    (Q : Except DirectError α → FenceRun H → Prop) (s : FenceRun H) :
    wp (liftExcept r) Q s ↔ Q r s := by
  cases r with
  | ok | error => rfl

theorem probePages_spec [DecidableEq H] (reqId : String) (n : Nat) (tokens : List τ)
    (plans : Plans H) (probeTarget : Nat) (s : FenceRun H) :
    wp (probePages cfg db tokens plans probeTarget) (fun out s' => Grows reqId n s s' ∧
      ∀ pages, out = .ok pages → ∀ p ∈ pages, p.chunkEnd ≤ (probeTarget : Int)) s := by
  unfold probePages
  rw [wp_get_bind]
  simp only
  rw [wp_bind, wp_liftExcept]
  cases hpages : remoteFillProbeControlPages cfg.toProducerConfig plans s.store.request.probeEnd
      probeTarget with
  | error e => exact ⟨.refl s, by simp⟩
  | ok pages =>
    rw [post_ok]
    split
    · refine ⟨.refl s, fun pages' heq => ?_⟩
      cases heq
      exact probePages_within hpages
    · rw [wp_bind, wp_liftExcept]
      cases remoteFillPrefixPlans db cfg.directGroups tokens probeTarget with
      | error e => exact ⟨.refl s, by simp⟩
      | ok prefixPlans =>
        rw [post_ok, wp_bind]
        have hplanned : Preserves (Grows (H := H) reqId n) (modifyStore fun s => { s with
            request := s.request.planned ((prefixPlans.get? 0).getD []) }) := by
          refine grows_request reqId n
            (fun r => r.planned ((prefixPlans.get? 0).getD [])) fun r => ?_
          unfold RequestState.planned
          split <;> rfl
        refine wp_cases (hplanned s) (fun _ _ h1 => ⟨h1, by simp⟩) fun u s1 h1 => ?_
        rw [post_ok, wp_liftExcept]
        exact ⟨h1, fun pages' heq => probePages_within heq⟩

theorem grows_probeCached [DecidableEq H] {s : FenceRun H} (haccepted : Accepted call n)
    (plans : Plans H) (htokens : tokens.length = n) (remoteFill : Bool) :
    wp (probeCached cfg db reqId call tokens plans remoteFill)
      (fun out s' => Grows reqId n s s' ∧ (out = .ok true → remoteFill = true)) s := by
  unfold probeCached
  rw [wp_get_bind]
  simp only
  split
  · exact ⟨.refl s, fun heq => Except.ok.inj heq⟩
  next hgo =>
  have hfill : remoteFill = true := by
    rw [not_or] at hgo
    exact Bool.eq_true_of_not_eq_false hgo.1
  refine wp_bind_of (probePages_spec cfg db reqId n tokens plans _ s)
    (fun _ _ ⟨h1, hpages⟩ => ⟨h1, nofun⟩) fun pages s1 ⟨h1, hpages⟩ => ?_
  split
  · exact wp_mono ((Preserves.bind (grows_disable reqId n _) fun _ => .pure _) s1)
      fun _ _ h2 => ⟨h1.trans h2, fun _ => hfill⟩
  rw [wp_bind]
  have hend : ∀ p ∈ pages, p.chunkEnd ≤ (tokens.length : Int) := by
    intro p hp
    refine Int.le_trans (hpages pages rfl p hp) (Int.ofNat_le.2 ?_)
    rw [htokens]
    exact Nat.le_trans (Nat.div_mul_le_self _ _) haccepted.verified_le
  refine wp_cases (grows_scheduleProbePages n hend) (fun _ _ h2 => ⟨h1.trans h2, nofun⟩)
    fun u s2 h2 => ?_
  rw [post_ok]
  exact wp_mono ((Preserves.bind (grows_request reqId n
    (fun r => { r with probeEnd := fullEnd cfg.chunkSize call.verifiedPrefixEnd })
    fun _ => rfl) fun _ => .pure _) s2)
    fun _ _ h3 => ⟨h1.trans (h2.trans h3), fun _ => hfill⟩

/-! ## Complete chunks -/

theorem grows_collectGroups (reqId : String) (n : Nat)
    (candidates persistent : Nat → List (PlanItem H)) (groups : List Nat) (collect : Bool) :
    Preserves (Grows reqId n)
      (collectGroups cfg env call candidates persistent groups collect) := by
  induction groups generalizing collect with
  | nil => exact .pure _
  | cons g groups ih =>
    unfold collectGroups
    simp only
    generalize (if (collect && decide (g ∈ cfg.directGroups)) = true then candidates g
      else persistent g) = full
    split
    · exact ih _
    refine .bind (grows_onlyIf _ fun _ => grows_disable reqId n _) fun _ => ?_
    split
    · exact .throw _
    · exact ih _
    · exact .bind (grows_onlyIf _ fun _ => grows_disable reqId n _) fun _ => ih _
    · exact .bind (grows_onlyIf _ fun _ => grows_disable reqId n _) fun _ => ih _

theorem grows_sourceReadyEvent (reqId : String) (n m : Nat) :
    Preserves (Grows reqId n) (sourceReadyEvent cfg env m) := by
  intro s
  unfold sourceReadyEvent
  rw [wp_get_bind, wp_bind, wp_liftExcept]
  unfold SourceFence.readyEvent
  split
  · exact Grows.of_fence fun hkept => hkept.fence
  split
  · exact Grows.refl s
  refine Grows.of_fence fun _ e _ hs => ?_
  have hs : "engine_current_stream_fallback_non_dsa" = requestHandoffEventSource := hs
  exact absurd hs (by decide)

theorem grows_batchEvent (reqId : String) (n m : Nat) (used kept : Bool) :
    Preserves (Grows reqId n) (batchEvent cfg env m used kept) := by
  unfold batchEvent
  split
  · exact .bind (grows_sourceReadyEvent cfg env reqId n m) fun _ => .pure _
  · exact .bind (.get) fun _ => .pure _

/-- The batches that wait for the tail are placed. -/
def AllPlaced (log : List (FenceEvent H)) (reqId : String) (n : Nat)
    (batches : Option (List (DirectPageBatch H))) : Prop :=
  ∀ l, batches = some l → ∀ b ∈ l, Placed log reqId n b

theorem AllPlaced.mono {log log' : List (FenceEvent H)}
    {batches : Option (List (DirectPageBatch H))} (h : AllPlaced log reqId n batches)
    (hlog : log <+: log') : AllPlaced log' reqId n batches :=
  fun l hl b hb => (h l hl b hb).mono hlog

theorem placeBatch_spec (howner : batch.reqId = reqId) (hranges : ∀ r ∈ batch.ranges, r.2 ≤ n)
    (hplaced : choice.remoteFill = true → Placed s.log reqId n batch) (m : Nat) :
    wp (placeBatch cfg env reqId call m choice batch) (fun out s' => Grows reqId n s s' ∧
      ∀ batches, out = .ok batches → AllPlaced s'.log reqId n batches) s := by
  have hnone : AllPlaced (H := H) s.log reqId n none := nofun
  unfold placeBatch
  split
  · -- kept for a later call
    refine ⟨⟨prefix_rfl, rfl, fun hkept => ⟨hkept.handed, hkept.fence, ?_, hkept.cpuFills⟩⟩,
      fun batches heq => ?_⟩
    · intro f b hf hb
      obtain ⟨f', hf', rfl⟩ := map_eq_some_iff.1 hf
      rcases mem_append.1 hb with hb | hb
      · exact hkept.deferred f' b hf' hb
      · rw [mem_singleton.1 hb]
        exact ⟨howner, hranges⟩
    · cases heq
      exact nofun
  next hfill =>
  have hplaced := hplaced (Bool.eq_true_of_not_eq_false hfill)
  have hschedule : wp (do
      scheduleBatch cfg env reqId batch
      pure none : FenceM H (Option (List (DirectPageBatch H)))) (fun out s' => Grows reqId n s s' ∧
        ∀ batches, out = .ok batches → AllPlaced s'.log reqId n batches) s := by
    refine wp_bind_of (grows_scheduleBatch cfg env n hplaced.fenced) (fun _ _ h1 => ⟨h1, nofun⟩)
      fun u s1 h1 => ?_
    refine ⟨h1, fun batches heq => ?_⟩
    cases heq
    exact nofun
  split
  · split
    · next reason hcoalesce =>
      refine wp_bind_of (grows_disable reqId n reason s) (fun _ _ h1 => ⟨h1, nofun⟩)
        fun u s1 h1 => ?_
      refine wp_bind_of (grows_scheduleBatch cfg env n (hplaced.mono h1.log).fenced)
        (fun _ _ h2 => ⟨h1.trans h2, nofun⟩) fun u s2 h2 => ?_
      refine ⟨h1.trans h2, fun batches heq => ?_⟩
      cases heq
      exact nofun
    · refine ⟨.refl s, fun batches heq => ?_⟩
      cases heq
      intro l hl b hb
      cases hl
      rw [mem_singleton.1 hb]
      exact hplaced
    · exact hschedule
  · exact hschedule

theorem remoteItems_within {pcfg : ProducerConfig H} {s : RequestState H}
    {groups : List Nat} (h : ∀ g ∈ groups, ∀ x ∈ (plans.get? g).getD [], x.stop ≤ n) :
    ∀ e ∈ remoteItems pcfg s plans groups, e.2.stop ≤ n := by
  rintro ⟨g, x⟩ he
  unfold remoteItems candidates at he
  obtain ⟨g', hg', hx⟩ := mem_flatMap.1 he
  obtain ⟨x', hx', heq⟩ := mem_map.1 hx
  cases heq
  exact h g (mem_filter.1 hg').1 x (mem_filter.1 hx').1

theorem ranges_remoteBatch {planner : SourcePlanner H} {event : Option Nat}
    {items : List (Nat × PlanItem H)} (h : ∀ e ∈ items, e.2.stop ≤ n) :
    ∀ r ∈ (remoteBatch planner reqId event events items).ranges, r.2 ≤ n := by
  intro r hr
  obtain ⟨e, he, rfl⟩ := mem_map.1 hr
  exact h e he

theorem collectSources_spec (planner : SourcePlanner H)
    (hplans : ∀ g ∈ call.groups, ∀ x ∈ (plans.get? g).getD [], x.stop ≤ n)
    (hcovers : choice.remoteFill = true → Covers s.log reqId n choice.events) :
    wp (collectSources cfg planner env reqId call n plans choice) (fun out s' =>
      Grows reqId n s s' ∧ ∀ batches, out = .ok (some batches) →
        AllPlaced s'.log reqId n batches) s := by
  unfold collectSources
  rw [wp_get_bind]
  simp only
  split
  · next present hpresent =>
    split
    · exact ⟨.refl s, nofun⟩
    split
    · exact ⟨.refl s, nofun⟩
    refine wp_bind_of (grows_collectGroups cfg env call reqId n _ _ _ _ s)
      (fun _ _ h1 => ⟨h1, nofun⟩) fun collect s1 h1 => ?_
    refine wp_bind_of (grows_batchEvent cfg env reqId n n _ _ s1)
      (fun _ _ h2 => ⟨h1.trans h2, nofun⟩) fun event s2 h2 => ?_
    have h12 := h1.trans h2
    split
    · exact ⟨h12, nofun⟩
    generalize hitems : (if collect = true then
      remoteItems cfg.toProducerConfig s.store.request plans call.groups else []) = items
    have hwithin : ∀ e ∈ items, e.2.stop ≤ n := by
      intro e he
      rw [← hitems] at he
      split at he
      · exact remoteItems_within hplans e he
      · cases he
    split
    · refine ⟨h12, fun batches heq => ?_⟩
      cases heq
      exact nofun
    split
    · refine wp_bind_of (grows_disable reqId n _ s2) (fun _ _ h3 => ⟨h12.trans h3, nofun⟩)
        fun u s3 h3 => ?_
      refine ⟨h12.trans h3, fun batches heq => ?_⟩
      cases heq
      exact nofun
    · refine wp_bind_of (placeBatch_spec cfg env call rfl (ranges_remoteBatch hwithin)
        (fun hfill => ⟨rfl, (hcovers hfill).mono h12.log, ranges_remoteBatch hwithin⟩) n)
        (fun _ _ ⟨h3, hplaced⟩ => ⟨h12.trans h3, nofun⟩) ?_
      rintro batches s3 ⟨h3, hplaced⟩
      refine ⟨h12.trans h3, fun batches' heq => ?_⟩
      cases heq
      exact hplaced batches rfl
  · exact ⟨.refl s, nofun⟩

/-! ## The tail -/

/-- The items of the tail end with it, and it has remote fill if the call has. -/
structure TailSources.Within (acc : TailSources H) (n : Nat) (fill : Bool) : Prop where
  remote : ∀ e ∈ acc.remote, e.2.stop ≤ n
  remoteFill : acc.remoteFill = true → fill = true

theorem tailGroups_spec (reqId : String) (hitem : item.stop = n) {fill : Bool} (groups : List Nat)
    {acc : TailSources H} (hacc : acc.Within n fill) (s : FenceRun H) :
    wp (tailGroups cfg db env call item groups acc) (fun out s' => Grows reqId n s s' ∧
      ∀ acc', out = .ok (some acc') → acc'.Within n fill) s := by
  induction groups generalizing acc s with
  | nil =>
    refine ⟨.refl s, fun acc' heq => ?_⟩
    cases heq
    exact hacc
  | cons g groups ih =>
    -- the rest of the loop, after a program that only gives reasons
    have hafter : ∀ {p : FenceM H PUnit} {q : FenceM H (Option (TailSources H))},
        Preserves (Grows reqId n) p →
        ((∃ acc', q = tailGroups cfg db env call item groups acc' ∧ acc'.Within n fill) ∨
          q = pure none) →
        wp (do p; q) (fun out s' => Grows reqId n s s' ∧
          ∀ acc', out = .ok (some acc') → acc'.Within n fill) s := by
      intro p q hp hq
      refine wp_bind_of (hp s) (fun _ _ h1 => ⟨h1, nofun⟩) fun u s1 h1 => ?_
      rcases hq with ⟨acc', rfl, hacc'⟩ | rfl
      · exact wp_mono (ih hacc' s1) fun _ _ h2 => ⟨h1.trans h2.1, h2.2⟩
      · exact ⟨h1, nofun⟩
    unfold tailGroups
    simp only
    split
    · exact ⟨.refl s, nofun⟩
    · exact ⟨.refl s, nofun⟩
    next key present hkey hpresent =>
    split
    · exact ih hacc s
    split
    · split
      · refine ih ?_ s
        exact ⟨hacc.remote, hacc.remoteFill⟩
      · exact hafter (grows_disable reqId n _) (.inl ⟨_, rfl, hacc.remote, nofun⟩)
    split
    · exact ⟨.refl s, nofun⟩
    · refine ih ?_ s
      refine ⟨fun e he => ?_, hacc.remoteFill⟩
      simp only at he
      split at he
      · rcases mem_append.1 he with he | he
        · exact hacc.remote e he
        · rw [mem_singleton.1 he]
          exact Nat.le_of_eq hitem
      · exact hacc.remote e he
    · refine hafter (grows_onlyIf _ fun _ => grows_disable reqId n _) ?_
      split
      · exact .inl ⟨_, rfl, hacc.remote, fun h => hacc.remoteFill (Bool.and_eq_true_iff.1 h).1⟩
      · exact .inr rfl
    · refine hafter (grows_onlyIf _ fun _ => grows_disable reqId n _) ?_
      split
      · exact .inl ⟨_, rfl, hacc.remote, nofun⟩
      · exact .inr rfl

theorem grows_probeTail (reqId : String) (n : Nat) (hitem : item.stop = n) (acc : TailSources H)
    (s : FenceRun H) :
    wp (probeTail cfg reqId n item acc) (fun out s' => Grows reqId n s s' ∧
      (out = .ok true → acc.remoteFill = true)) s := by
  unfold probeTail
  split
  · exact ⟨.refl s, fun heq => Except.ok.inj heq⟩
  next hgo =>
  have hfill : acc.remoteFill = true := by
    rw [not_or] at hgo
    exact Bool.eq_true_of_not_eq_false hgo.1
  simp only
  rw [wp_bind, wp_liftExcept]
  generalize hplans : (Dict.set (Dict.set Dict.empty 0 _) 1 _ : Plans H) = plans
  cases hpages : remoteFillProbeControlPages cfg.toProducerConfig plans item.start item.stop with
  | error e => exact ⟨.refl s, nofun⟩
  | ok pages =>
    rw [post_ok]
    split
    · refine wp_bind_of (grows_scheduleProbePages n (hitem ▸ probePages_within hpages))
        (fun _ _ h1 => ⟨h1, nofun⟩) fun u s1 h1 => ?_
      exact ⟨h1, fun _ => hfill⟩
    · exact wp_mono (Preserves.bind (grows_disable reqId n _) (fun _ => .pure _) s)
        fun _ _ h1 => ⟨h1, fun _ => hfill⟩

theorem prepareTail_spec (h : Kept reqId n s) :
    wp (prepareTail cfg env call n) (fun out s' => Grows reqId n s s' ∧
      ∀ choice, out = .ok choice → choice.remoteFill = true →
        Covers s'.log reqId n choice.events) s := by
  unfold prepareTail
  refine wp_bind_of (grows_prepareRequest cfg env reqId n s) (fun _ _ h1 => ⟨h1, nofun⟩)
    fun prepared s1 h1 => ?_
  rw [wp_get_bind]
  have hkept := h1.kept h
  simp only
  have hdisable : ∀ reason, wp (do
      disable reason
      pure ⟨false, s1.store.fence.remoteReadyEvents n, false⟩ : FenceM H FenceChoice)
      (fun out s' => Grows reqId n s s' ∧ ∀ choice, out = .ok choice →
        choice.remoteFill = true → Covers s'.log reqId n choice.events) s1 := by
    intro reason
    refine wp_bind_of (grows_disable reqId n reason s1) (fun _ _ h2 => ⟨h1.trans h2, nofun⟩)
      fun u s2 h2 => ?_
    refine ⟨h1.trans h2, fun choice heq hfill => ?_⟩
    cases heq
    cases hfill
  split
  · refine ⟨h1, fun choice heq hfill => ?_⟩
    cases heq
    cases hfill
  split
  · exact hdisable _
  split
  · exact hdisable _
  · next hne =>
    refine ⟨h1, fun choice heq _ => ?_⟩
    cases heq
    exact hkept.covers hne

theorem AllPlaced.kept {batches : Option (List (DirectPageBatch H))}
    (hbatches : AllPlaced s.log reqId n batches) {s' : FenceRun H} (h : Grows reqId n s s') :
    Grows reqId n s s' ∧ ∀ batches', (.ok batches : Except DirectError _) = .ok batches' →
      AllPlaced s'.log reqId n batches' := by
  refine ⟨h, fun batches' heq => ?_⟩
  cases heq
  exact hbatches.mono h.log

theorem placeTail_spec (planner : SourcePlanner H)
    {acc : TailSources H} {fill : Bool} (hacc : acc.Within n fill) {remoteFill : Bool}
    (hcovers : remoteFill = true → Covers s.log reqId n events)
    {batches : Option (List (DirectPageBatch H))} (hbatches : AllPlaced s.log reqId n batches) :
    wp (placeTail cfg planner env reqId n events acc remoteFill batches) (fun out s' =>
      Grows reqId n s s' ∧ ∀ batches', out = .ok batches' →
        AllPlaced s'.log reqId n batches') s := by
  unfold placeTail
  split
  · exact hbatches.kept (Grows.refl s)
  refine wp_bind_of (grows_sourceReadyEvent cfg env reqId n n s) (fun _ _ h1 => ⟨h1, nofun⟩)
    fun event s1 h1 => ?_
  split
  · exact ⟨h1, nofun⟩
  split
  · exact hbatches.kept h1
  next hgo =>
  have hfill : remoteFill = true := by
    rw [not_or] at hgo
    exact Bool.eq_true_of_not_eq_false hgo.1
  split
  · refine wp_bind_of (grows_disable reqId n _ s1) (fun _ _ h2 => ⟨h1.trans h2, nofun⟩)
      fun u s2 h2 => ?_
    exact hbatches.kept (h1.trans h2)
  · have hplaced : Placed s1.log reqId n
        (remoteBatch planner reqId (some event) events acc.remote) :=
      ⟨rfl, (hcovers hfill).mono h1.log, ranges_remoteBatch hacc.remote⟩
    simp only
    split
    · next l =>
      refine ⟨h1, fun batches' heq => ?_⟩
      cases heq
      intro l' hl b hb
      cases hl
      rcases mem_append.1 hb with hb | hb
      · exact (hbatches l rfl b hb).mono h1.log
      · rw [mem_singleton.1 hb]
        exact hplaced
    · refine wp_bind_of (grows_scheduleBatch cfg env n hplaced.fenced)
        (fun _ _ h2 => ⟨h1.trans h2, nofun⟩) fun u s2 h2 => ?_
      refine ⟨h1.trans h2, fun batches' heq => ?_⟩
      cases heq
      exact nofun

theorem tailItem_stop {s : RequestState H} (h : tailItem db s tokens = some item) :
    item.stop = tokens.length := by
  unfold tailItem at h
  simp only at h
  split at h
  · next x hfilter =>
    cases h
    have hmem := hfilter ▸ mem_singleton_self item
    exact (of_decide_eq_true (mem_filter.1 hmem).2).2
  · cases h

theorem submitDirectTail_spec (planner : SourcePlanner H) {s : FenceRun H} (h : Kept reqId n s)
    {tokens : List τ} (htokens : tokens.length = n) {batches : Option (List (DirectPageBatch H))}
    (hbatches : AllPlaced s.log reqId n batches) :
    wp (submitDirectTail cfg db planner env reqId call n tokens batches) (fun out s' =>
      Grows reqId n s s' ∧ ∀ batches', out = .ok batches' →
        AllPlaced s'.log reqId n batches') s := by
  unfold submitDirectTail
  refine wp_bind_of (prepareTail_spec cfg env call h) (fun _ _ ⟨h1, hcovers⟩ => ⟨h1, nofun⟩)
    fun choice s1 ⟨h1, hcovers⟩ => ?_
  rw [wp_get_bind]
  simp only
  generalize (if choice.remoteFill = true then call.groups else
    call.groups.filter fun g => s1.store.request.submitted g < n) = groups
  split
  · exact hbatches.kept h1
  next item hitem =>
  have hstop : item.stop = n := by
    split at hitem
    · cases hitem
    · rw [← htokens]
      exact tailItem_stop db hitem
  rw [wp_bind]
  have hnew : TailSources.Within (H := H) ⟨[], [], false, choice.remoteFill⟩ n choice.remoteFill :=
    ⟨nofun, id⟩
  refine wp_cases (tailGroups_spec cfg env call db reqId hstop groups hnew s1)
    (fun _ _ ⟨h2, hacc⟩ => ⟨h1.trans h2, nofun⟩) fun r s2 ⟨h2, hacc⟩ => ?_
  rw [post_ok]
  cases r with
  | none => exact hbatches.kept (h1.trans h2)
  | some acc =>
    simp only
    refine wp_bind_of (grows_probeTail cfg reqId n hstop acc s2)
      (fun _ _ ⟨h3, hfill⟩ => ⟨h1.trans (h2.trans h3), nofun⟩) fun remoteFill s3 ⟨h3, hfill⟩ => ?_
    have h13 := h1.trans (h2.trans h3)
    have hacc := hacc acc rfl
    refine wp_mono (placeTail_spec cfg env planner hacc (fun htrue => ?_)
      (hbatches.mono h13.log)) fun _ _ h4 => ⟨h13.trans h4.1, h4.2⟩
    have hchoice := hacc.remoteFill (hfill (congrArg _ htrue))
    exact (hcovers choice rfl hchoice).mono (h2.log.trans h3.log)

/-! ## A call -/

theorem covers_union (hne : batches ≠ []) (h : ∀ b ∈ batches, Covers log reqId n b.readyEvents) :
    Covers log reqId n (Dict.fromKeys (batches.flatMap fun b => b.readyEvents)).keys := by
  obtain ⟨b, hb⟩ := exists_mem_of_ne_nil batches hne
  obtain ⟨e, he, c, hc, hmem⟩ := h b hb
  exact ⟨e, mem_keys_fromKeys.2 (mem_flatMap.2 ⟨b, hb, he⟩), c, hc, hmem⟩

theorem grows_finalBatches (h : ∀ b ∈ batches, Placed s.log reqId n b) :
    wp (finalBatches cfg batches) (fun out s' => s' = s ∧
      ∀ batches', out = .ok batches' → ∀ b ∈ batches', Placed s.log reqId n b) s := by
  unfold finalBatches
  split
  · next hmany =>
    rw [wp_bind, wp_liftExcept]
    cases hbatch : mergeDeferredRemoteFillBatches batches
        (Dict.fromKeys (batches.flatMap fun b => b.readyEvents)).keys with
    | error e => exact ⟨rfl, nofun⟩
    | ok batch =>
      refine ⟨rfl, fun batches' heq => ?_⟩
      cases heq
      have hne : batches ≠ [] := by
        rintro rfl
        exact absurd hmany.1 (Nat.not_lt_zero 1)
      intro b hb
      rw [mem_singleton.1 hb]
      exact placed_merge hbatch (covers_union hne fun b hb => (h b hb).covers)
        fun b hb => ⟨(h b hb).owner, (h b hb).ranges⟩
  · refine ⟨rfl, fun batches' heq => ?_⟩
    cases heq
    exact h

theorem grows_finishStore (planner : SourcePlanner H) {s : FenceRun H} (h : Kept reqId n s)
    {tokens : List τ} (htokens : tokens.length = n) {batches : Option (List (DirectPageBatch H))}
    (hbatches : AllPlaced s.log reqId n batches) :
    wp (finishStore cfg db planner env reqId call n tokens batches)
      (fun _ s' => Grows reqId n s s') s := by
  unfold finishStore
  rw [wp_bind]
  have htail : wp (finalTail cfg db planner env reqId call n tokens batches) (fun out s' =>
      Grows reqId n s s' ∧ ∀ batches', out = .ok batches' →
        AllPlaced s'.log reqId n batches') s := by
    unfold finalTail
    rw [wp_get_bind]
    split
    · rw [wp_tryCatch]
      refine wp_mono (submitDirectTail_spec cfg env call db planner h htokens hbatches) ?_
      rintro (e | batches') s1 ⟨h1, hplaced⟩
      · refine ⟨h1, fun batches' heq => ?_⟩
        cases heq
        exact hbatches.mono h1.log
      · exact ⟨h1, hplaced⟩
    · refine ⟨.refl s, fun batches' heq => ?_⟩
      cases heq
      exact hbatches
  refine wp_cases htail (fun _ _ ⟨h1, hplaced⟩ => h1) fun batches' s1 ⟨h1, hplaced⟩ => ?_
  rw [post_ok, wp_bind]
  have hall : ∀ b ∈ batches'.getD [], Placed s1.log reqId n b := by
    cases batches' with
    | none => exact nofun
    | some l => exact hplaced (some l) rfl l rfl
  refine wp_mono (grows_finalBatches cfg hall) ?_
  rintro (e | final) s2 ⟨rfl, hfinal⟩
  · exact h1
  rw [post_ok]
  refine wp_mono (wp_forM (I := Grows reqId n s2) (E := fun _ => Grows reqId n s2)
    (fun b hb s3 h3 => ?_) (Grows.refl s2)) ?_
  · refine wp_cases (grows_scheduleBatch cfg env n ((hfinal final rfl b hb).mono h3.log).fenced)
      (fun _ _ h4 => h3.trans h4) fun u s4 h4 => ?_
    exact h3.trans h4
  · rintro (e | u) s3 h3 <;> exact h1.trans h3


theorem openGroups_accepted (groups : List Nat) (verifiedPrefixEnd : Nat) (r : RequestState H) :
    (r.openGroups groups verifiedPrefixEnd).acceptedStoreEnd = r.acceptedStoreEnd := by
  unfold RequestState.openGroups
  induction groups generalizing r with
  | nil => rfl
  | cons g groups ih =>
    rw [foldl_cons, ih]
    split <;> rfl

/-- Every batch of an accepted call is fenced by an event of the request. -/
theorem grows_storeAccepted [DecidableEq H] (hdb : db.Within) (planner : SourcePlanner H)
    {s : FenceRun H} (h : Kept reqId n s) (haccepted : Accepted call n) :
    wp (storeAccepted cfg db planner env reqId call n) (fun _ s' => Grows reqId n s s') s := by
  have htokens : (call.tokens.take n).length = n := by
    rw [length_take]
    exact Nat.min_eq_left haccepted.le_tokens
  unfold storeAccepted
  simp only
  refine wp_bind_of (grows_rememberReadiness reqId n call s) (fun _ _ h => h) fun u s1 h1 => ?_
  refine wp_bind_of (grows_prepareFill cfg env call reqId n n s1) (fun _ _ h2 => h1.trans h2)
    fun remoteFill s2 h2 => ?_
  rw [wp_bind]
  have h12 := h1.trans h2
  refine wp_returns (chooseFence_spec cfg call (h12.kept h) remoteFill) fun choice s3 hchoice => ?_
  obtain ⟨h3, hcovers⟩ := hchoice
  rw [post_ok, wp_bind]
  have h13 := h12.trans h3
  refine wp_cases (releaseDeferred_spec cfg env (h13.kept h) hcovers)
    (fun _ _ ⟨h4, hreleased⟩ => h13.trans h4) fun released s4 ⟨h4, hreleased⟩ => ?_
  rw [post_ok, wp_bind]
  have h14 := h13.trans h4
  refine wp_cases (grows_request reqId n
    (fun r => r.openGroups call.groups call.verifiedPrefixEnd)
    (openGroups_accepted call.groups call.verifiedPrefixEnd) s4)
    (fun _ _ h5 => h14.trans h5) ?_
  rintro u s5 h5
  rw [post_ok, wp_bind]
  have h15 := h14.trans h5
  refine wp_cases (suffixPlans_spec cfg call db reqId n hdb (call.tokens.take n) s5)
    (fun _ _ hplans => h15.trans hplans) fun plans s6 hplans => ?_
  obtain ⟨h6, hwithin⟩ := hplans
  rw [post_ok, wp_bind]
  have h16 := h15.trans h6
  refine wp_cases (grows_probeCached cfg call db haccepted plans htokens released)
    (fun _ _ ⟨h7, hprobed⟩ => h16.trans h7) fun probed s7 ⟨h7, hprobed⟩ => ?_
  rw [post_ok, wp_bind]
  have h17 := h16.trans h7
  -- remote fill that is still on was on when the fence was chosen
  have hcovers7 : probed = true → Covers s7.log reqId n choice.events := by
    intro hon
    have hreleased := hreleased (congrArg _ (hprobed (congrArg _ hon)))
    exact (hcovers hreleased).mono ((h4.log.trans h5.log).trans (h6.log.trans h7.log))
  rw [htokens] at hwithin
  refine wp_cases (collectSources_spec cfg env call planner hwithin hcovers7)
    (fun _ _ ⟨h8, hplaced⟩ => h17.trans h8) fun placed s8 ⟨h8, hplaced⟩ => ?_
  rw [post_ok, wp_bind]
  have h18 := h17.trans h8
  refine wp_mono (wp_forM (I := Grows reqId n s8) (E := fun _ => Grows reqId n s8)
    (fun batches hbatches s9 h9 => ?_) (Grows.refl s8)) ?_
  · have hall : AllPlaced s8.log reqId n batches := by
      cases placed with
      | none => cases hbatches
      | some b =>
        rw [mem_singleton.1 hbatches]
        exact hplaced b rfl
    unfold onlyIf
    split
    · have hkept := h9.kept (h18.kept h)
      refine wp_cases (grows_finishStore cfg env call db planner hkept htokens (hall.mono h9.log))
        (fun _ _ h10 => h9.trans h10) fun u s10 h10 => ?_
      exact h9.trans h10
    · exact h9
  · rintro (e | u) s9 h9
    · exact h18.trans h9
    · exact h18.trans (h9.trans
        (Grows.of_store rfl rfl (fun g _ hg hb => ⟨g, hg, hb⟩) rfl))

theorem Kept.le {m : Nat} (h : Kept reqId n s) (hle : n ≤ m) :
    Kept reqId m s :=
  ⟨h.handed, h.fence, fun f b hf hb =>
    ⟨(h.deferred f b hf hb).1, fun r hr => Nat.le_trans ((h.deferred f b hf hb).2 r hr) hle⟩,
    h.cpuFills⟩

/-- What a request keeps, whichever tokens it has accepted. -/
def FenceRun.Holds (reqId : String) (s : FenceRun H) : Prop :=
  Kept reqId (s.store.request.acceptedStoreEnd.getD 0) s

theorem Grows.holds {s s' : FenceRun H} {m : Nat} (h : Grows reqId m s s')
    (haccepted : s.store.request.acceptedStoreEnd.getD 0 = m) (hs : Kept reqId m s) :
    s.log <+: s'.log ∧ s'.Holds reqId := by
  refine ⟨h.log, ?_⟩
  unfold FenceRun.Holds
  rw [h.accepted, haccepted]
  exact h.kept hs

theorem storeDirectPrefill_spec [DecidableEq H] (hdb : db.Within) (planner : SourcePlanner H)
    {s : FenceRun H} (h : s.Holds reqId) :
    wp (storeDirectPrefill cfg db planner env reqId call)
      (fun _ s' => s.log <+: s'.log ∧ s'.Holds reqId) s := by
  unfold storeDirectPrefill
  split
  · exact ⟨prefix_rfl, h⟩
  rw [wp_bind]
  refine wp_mono (acceptStore_spec call s) ?_
  rintro (e | n) s1 h1
  · rw [show s1 = s from h1]
    exact ⟨prefix_rfl, h⟩
  obtain ⟨haccepted, hle, rfl⟩ := h1
  rw [post_ok, wp_get_bind]
  generalize hs1 : FenceRun.mk (StoreState.mk _ _ _ _ _) s.log = s1
  have hkept : Kept reqId n s1 := by
    have hkept := Kept.le h hle
    rw [← hs1]
    exact ⟨hkept.handed, hkept.fence, hkept.deferred, hkept.cpuFills⟩
  have hlog : s1.log = s.log := hs1 ▸ rfl
  have hn : s1.store.request.acceptedStoreEnd.getD 0 = n := hs1 ▸ rfl
  split
  · rw [← hlog]
    exact (Grows.refl s1).holds hn hkept
  rw [wp_bind]
  refine wp_mono (grows_storeAccepted cfg env call db hdb planner hkept haccepted) ?_
  rintro (e | u) s2 h2
  all_goals
    rw [← hlog]
    exact h2.holds hn hkept

/-! ## Pages on the CPU -/

theorem wp_emit (e : FenceEvent H) (Q : Except DirectError PUnit → FenceRun H → Prop)
    (s : FenceRun H) : wp (emit e) Q s ↔ Q (.ok ⟨⟩) { s with log := s.log ++ [e] } := Iff.rfl

theorem wp_modifyStore (f : StoreState H → StoreState H)
    (Q : Except DirectError PUnit → FenceRun H → Prop) (s : FenceRun H) :
    wp (modifyStore f) Q s ↔ Q (.ok ⟨⟩) { s with store := f s.store } := Iff.rfl

theorem emitRecorded_spec (reqId : String) (n stop : Nat) (fences : List Nat) (s : FenceRun H) :
    wp (fences.forM fun e => emit (.recorded reqId e stop)) (fun _ s' => Grows reqId n s s' ∧
      ∀ e ∈ fences, .recorded reqId e stop ∈ s'.log) s := by
  induction fences generalizing s with
  | nil => exact ⟨.refl s, nofun⟩
  | cons e fences ih =>
    have h1 : Grows reqId n s { s with log := s.log ++ [.recorded reqId e stop] } :=
      grows_emit fun _ => trivial
    change wp (emit (.recorded reqId e stop) >>= fun _ =>
      fences.forM fun e => emit (.recorded reqId e stop)) _ s
    rw [wp_bind, wp_emit, post_ok]
    refine wp_mono (ih { s with log := s.log ++ [.recorded reqId e stop] }) ?_
    rintro out s2 ⟨h2, hmem⟩
    refine ⟨h1.trans h2, fun e' he' => ?_⟩
    rcases mem_cons.1 he' with rfl | he'
    · exact h2.log.subset (mem_append_right _ (mem_singleton_self _))
    · exact hmem e' he'

theorem CpuPages.le_stop (pages : CpuPages H) {r : Nat × Nat} (h : r ∈ pages.ranges) :
    r.2 ≤ pages.stop := by
  unfold CpuPages.stop
  exact le_max_of_le' 0 (mem_map_of_mem h) (Nat.le_refl _)

theorem grows_queueLayerwiseCpuFill (reqId : String) (n group : Nat) (pages : CpuPages H) :
    Preserves (Grows reqId n) (queueLayerwiseCpuFill cfg env reqId group pages) := by
  unfold queueLayerwiseCpuFill
  split
  · exact .pure _
  refine .bind (grows_prepareRequest cfg env reqId n) fun prepared =>
    .bind (.get) fun s => ?_
  split
  · exact .pure _
  split
  · exact grows_disable reqId n _
  split
  · exact grows_disable reqId n _
  next hsource =>
  split
  · exact .throw _
  intro s
  refine wp_bind_of (emitRecorded_spec reqId n pages.stop pages.fences s)
    (fun _ _ ⟨h1, hmem⟩ => h1) fun u s1 ⟨h1, hmem⟩ => ?_
  refine h1.trans ⟨prefix_rfl, rfl, fun hkept => ?_⟩
  refine ⟨hkept.handed, hkept.fence, hkept.deferred, fun x hx => ?_⟩
  rw [not_or] at hsource
  obtain ⟨e, he⟩ := exists_mem_of_ne_nil _ hsource.1
  rcases mem_entries_set hx with rfl | hx
  · exact ⟨rfl, e, he, pages.stop, hmem e he, fun r hr => pages.le_stop hr⟩
  · exact hkept.cpuFills x hx

theorem fenced_merge (h : ∀ b ∈ batches, Fenced log (.batch reqId b))
    (hpaired : ∀ b ∈ batches, b.ranges = batches.head?.elim [] DirectPageBatch.ranges)
    (hbatch : mergeDeferredRemoteFillBatches batches (Dict.fromKeys (batches.flatMap fun b =>
      b.readyEvents)).keys = .ok batch) :
    Fenced log (.batch reqId batch) := by
  cases hbatches : batches with
  | nil => rw [hbatches] at hbatch; cases hbatch
  | cons first rest =>
    have hfirst : first ∈ batches := hbatches ▸ mem_cons_self
    obtain ⟨hid, e, he, c, hmem, hranges⟩ := h first hfirst
    have hplaced : Placed log reqId c batch := by
      refine placed_merge hbatch ⟨e, ?_, c, Nat.le_refl c, hmem⟩ fun b hb => ⟨(h b hb).1, ?_⟩
      · exact mem_keys_fromKeys.2 (mem_flatMap.2 ⟨first, hfirst, he⟩)
      · rw [hpaired b hb, hbatches]
        exact hranges
    exact hplaced.fenced

theorem submitLayerwisePrefillFills_spec (n : Nat) (h : Kept reqId n s) :
    wp (submitLayerwisePrefillFills cfg env reqId) (fun _ s' => Grows reqId n s s') s := by
  unfold submitLayerwisePrefillFills
  rw [wp_get_bind]
  simp only
  have h1 : Grows reqId n s { s with store := { s.store with cpuFills := Dict.empty } } :=
    ⟨prefix_rfl, rfl, fun hkept => ⟨hkept.handed, hkept.fence, hkept.deferred,
      nofun⟩⟩
  rw [wp_bind, wp_modifyStore, post_ok]
  split
  · exact h1
  split
  · exact h1.trans (grows_disable reqId n _ _)
  split
  · exact h1.trans (grows_disable reqId n _ _)
  next hpaired =>
  rw [wp_bind, wp_liftExcept]
  cases hbatch : mergeDeferredRemoteFillBatches (s.store.cpuFills.entries.map Prod.snd)
      (Dict.fromKeys ((s.store.cpuFills.entries.map Prod.snd).flatMap
        fun b => b.readyEvents)).keys with
  | error e => exact h1
  | ok batch =>
    rw [post_ok]
    have hfenced : Fenced s.log (.batch reqId batch) := by
      refine fenced_merge (fun b hb => ?_) (fun b hb => ?_) hbatch
      · obtain ⟨x, hx, rfl⟩ := mem_map.1 hb
        exact h.cpuFills x hx
      · by_contra hne
        exact hpaired (any_eq_true.2 ⟨b, hb, decide_eq_true hne⟩)
    exact wp_mono (grows_scheduleBatch cfg env n hfenced) fun _ _ h2 => h1.trans h2

/-! ## Every run -/

theorem FenceRun.Holds.extend {log : List (FenceEvent H)}
    (h : (FenceRun.mk store log).Holds reqId) (hlog : log <+: log') (hall : AllFenced log') :
    (FenceRun.mk store log').Holds reqId where
  handed := hall
  fence e h1 h2 := hlog.subset (h.fence e h1 h2)
  deferred := h.deferred
  cpuFills x hx := (h.cpuFills x hx).mono hlog

/-- Every request keeps what it may keep. -/
def FenceState.Good (s : FenceState H) : Prop :=
  ∀ q, (FenceRun.mk (s.stores q) s.log).Holds q

theorem FenceState.Good.run {s : FenceState H} (h : s.Good) {α : Type} {p : FenceM H α}
    (hp : wp p (fun _ s' => s.log <+: s'.log ∧ s'.Holds reqId) ⟨s.stores reqId, s.log⟩) :
    (s.run reqId p).Good := by
  obtain ⟨hlog, hholds⟩ := hp
  intro q
  by_cases hq : q = reqId
  · subst hq
    have hstore : (s.run q p).stores q = (p ⟨s.stores q, s.log⟩).2.store := if_pos rfl
    rw [hstore]
    exact hholds
  · have hstore : (s.run reqId p).stores q = s.stores q := if_neg hq
    rw [hstore]
    exact (h q).extend hlog hholds.handed

theorem FenceState.Good.setStore {s : FenceState H} (h : s.Good)
    (hstore : (FenceRun.mk store s.log).Holds reqId) : (s.setStore reqId store).Good := by
  intro q
  by_cases hq : q = reqId
  · subst hq
    have heq : (s.setStore q store).stores q = store := if_pos rfl
    rw [heq]
    exact hstore
  · have heq : (s.setStore reqId store).stores q = s.stores q := if_neg hq
    rw [heq]
    exact h q

theorem holds_new (initialHash : H) (reqId : String)
    (hall : AllFenced log) : (FenceRun.mk (StoreState.new initialHash) log).Holds reqId where
  handed := hall
  fence e he := by cases he
  deferred f b hf := by cases hf
  cpuFills x hx := absurd hx not_mem_nil

theorem good_inductive [DecidableEq H] (hdb : db.Within) (planner : SourcePlanner H)
    (initialHash : H) :
    (fenceMachine cfg db planner initialHash).Inductive FenceState.Good where
  start s h := by
    cases h
    refine fun q => holds_new initialHash q fun pre e post heq => ?_
    cases pre with
    | nil | cons => cases heq
  step s a s' h hstep := by
    cases hstep
    cases a with
    | store reqId call env =>
      exact h.run (storeDirectPrefill_spec cfg env call db hdb planner (h reqId))
    | progress reqId request =>
      have hreq := h reqId
      exact h.setStore ⟨hreq.handed, hreq.fence, hreq.deferred, hreq.cpuFills⟩
    | queueCpuFill reqId group pages env =>
      exact h.run (wp_mono (grows_queueLayerwiseCpuFill cfg env reqId _ group pages _)
        fun _ _ h1 => h1.holds rfl (h reqId))
    | submitCpuFills reqId env =>
      exact h.run (wp_mono (submitLayerwisePrefillFills_spec cfg env _ (h reqId))
        fun _ _ h1 => h1.holds rfl (h reqId))
    | drop reqId releasable =>
      refine h.setStore ?_
      split
      · exact holds_new initialHash reqId (h reqId).handed
      · have hreq := h reqId
        exact ⟨hreq.handed, hreq.fence, hreq.deferred, nofun⟩

variable [DecidableEq H] in
/-- **No source without its fence.**  In every run of the calls of any requests, each batch and
each probe with sources that is handed over has an event among its events that was recorded
before, for the same request, behind the end of each of its pages. -/
theorem sources_fenced (planner : SourcePlanner H) (initialHash : H) (hdb : db.Within)
    {s : FenceState H} (hs : (fenceMachine cfg db planner initialHash).Reachable s) :
    AllFenced s.log :=
  (good_inductive cfg db hdb planner initialHash).reachable hs "" |>.handed

end

/-! ## Two requests -/

section

theorem HashChain.database_within {τ H : Type} (c : HashChain τ H) : c.database.Within where
  process tokens group x hx := by
    have hle := (of_mem_chunks hx).2
    omega
  fromPrefix tokens m h group hm x hx := by
    have hle := (of_mem_chunks hx).2
    rw [length_drop] at hle
    omega

def fencedConfig : StoreConfig Nat where
  toProducerConfig := twoGroups
  enableRemoteLmcacheStore := true
  submissionMode := .perChunk
  saveUnfullChunk := true
  dsaTwoGroups := true
  prefixHoleRepair := true
  maxInflightWindows := 1
  maxInflightBytes := 1000
  maxBytesPerRequest := 1000

def readyEnv : StoreEnv Nat where
  requested := true
  handoff := .parsed none
  inFlight := false
  plannerCallable := true
  pagesExist := some (replicate 4 false)
  pendingKey _ := false
  pages _ := .planned
  freshEvent := 0
  putRaises := false
  queuedWindows := 0
  coalesce := .ok true
  tailExists _ := some false
  tailPages _ := .planned
  tailPutRaises := false
  finalizes := true
  jobFailure _ := none

/-- A call whose first `base` tokens are cached; only the final one has the handoff's event. -/
def fencedCall (n base : Nat) (final : Bool) (event : Nat) : StoreArgs Nat where
  tokens := replicate n 0
  groups := [0, 1]
  final := final
  slotMappingBase := base
  verifiedPrefixEnd := base
  acceptedStoreEnd := none
  sourceReadyEvent := some event
  sourceReadyEventSource := if final then requestHandoffEventSource else "engine"
  sourceReadyEvents := [some event]
  prefixSlotMappings := true

/-- The request "a" has two calls, and "b" has its only call between them. -/
def fencedCalls : List (FenceAction Nat Nat) :=
  let ends := fun n => (Dict.empty.set 0 n).set 1 n
  [.store "a" (fencedCall 6 2 false 7) readyEnv, .store "b" (fencedCall 4 0 true 8) readyEnv,
    .progress "a" ⟨ends 6, ends 2, 6, 3, none, 0⟩, .store "a" (fencedCall 11 2 true 9) readyEnv]

/-- The pages that an entry hands over. -/
def FenceEvent.handedPages : FenceEvent Nat → Nat
  | .recorded _ _ _ => 0
  | .batch _ b => b.ranges.length
  | .probe _ pages _ => pages.length

/-- The batch of "b"; the batch that "a" kept, its cached prefix, and its last batch. -/
theorem sources_fenced_two_requests : ∃ s,
    (fenceMachine fencedConfig countingChain.database onePointer 0).run
      ⟨fun _ => StoreState.new 0, []⟩ fencedCalls = some s ∧
    s.log.map FenceEvent.handedPages = [0, 4, 0, 4, 2, 4] ∧ AllFenced s.log := by
  obtain ⟨s, hs⟩ : ∃ s, (fenceMachine fencedConfig countingChain.database onePointer 0).run
      ⟨fun _ => StoreState.new 0, []⟩ fencedCalls = some s := ⟨_, rfl⟩
  have hpages : ((fenceMachine fencedConfig countingChain.database onePointer 0).run
      ⟨fun _ => StoreState.new 0, []⟩ fencedCalls).map
        (fun s => s.log.map FenceEvent.handedPages) = some [0, 4, 0, 4, 2, 4] := by
    decide +kernel
  rw [hs] at hpages
  have hreach : (fenceMachine fencedConfig countingChain.database onePointer 0).Reachable s :=
    Machine.reachable_of_run rfl hs
  exact ⟨s, hs, some.inj hpages,
    sources_fenced fencedConfig countingChain.database onePointer 0
      countingChain.database_within hreach⟩

end

end DirectStore
