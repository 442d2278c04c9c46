import LMCacheAscend.Connector.RemotePull
import LMCacheAscend.Lib.Traverse

/-!
# The peer of a batched read

`submit_resolve_batch` takes the channel and the peer of a batched read from the first of the
proxies and the remote buffers from all of them.  Here each proxy has the channel and the
context it was made with, so that the proxies of a call may differ in them; what is issued is
written down in order (`Op`), without the streams, of which `RemotePull` speaks.  Any of it may
raise, before it took effect or after.
-/

namespace PeerReads

open Lib List
open RemotePull (Allocator Answer Buffer EnvOf Item ProxyItemOf PullOf Raised emit
  maxPipelineDepth proxyItems releasePool sendDoneNow wp_allocateBuffers wp_emit wp_emit_returns)

/-! ## `submit_resolve_batch` -/

structure Proxy extends RemotePull.Proxy where
  transferChannel : Nat
deriving DecidableEq, Repr

/-- A proxy with its place among those of a call, its backing object and its `_resolved`. -/
structure ProxyObj where
  idx : Nat
  proxy : Proxy
  backing : Option Buffer
  resolved : Bool
deriving DecidableEq, Repr

/-- A batched read of a channel. -/
structure ReadCall where
  channel : Nat
  submitted : Bool
  receiverId : String
  buffers : List Buffer
  remoteBufferUuids : List String
  remoteMemIndexes : List Nat
deriving DecidableEq, Repr

def unresolved (proxies : List ProxyObj) : List ProxyObj := proxies.filter fun p => !p.resolved

/-- The buffers of `_collect_batch_read_args`. -/
def backings (proxies : List ProxyObj) : Except Raised (List Buffer) :=
  proxies.mapM fun p =>
    match p.backing with
    | some b => .ok b
    | none => .error (.assertion "Cannot resolve: no backing buffer assigned")

/-- The read of `submit_resolve_batch`, none if all are resolved; `submits` are the channels with
`submit_batched_read`. -/
def submitResolveBatch (submits : Nat → Bool) (proxies : List ProxyObj) :
    Except Raised (Option ReadCall) :=
  match unresolved proxies with
  | [] => .ok none
  | first :: rest => do
    let buffers ← backings (first :: rest)
    pure (some {
      channel := first.proxy.transferChannel
      submitted := submits first.proxy.transferChannel
      receiverId := first.proxy.targetPeerUrl
      buffers := buffers
      remoteBufferUuids := (first :: rest).map (·.proxy.remoteBufferUuid)
      remoteMemIndexes := (first :: rest).map (·.proxy.remoteMemIndex) })

/-- Place `k` of the read is a proxy's own: its buffer on its peer through its channel. -/
structure ReadCall.Own (call : ReadCall) (k : Nat) (p : ProxyObj) : Prop where
  channel : call.channel = p.proxy.transferChannel
  receiverId : call.receiverId = p.proxy.targetPeerUrl
  bufferUuid : call.remoteBufferUuids[k]? = some p.proxy.remoteBufferUuid
  memIndex : call.remoteMemIndexes[k]? = some p.proxy.remoteMemIndex
  buffer : ∃ b, p.backing = some b ∧ call.buffers[k]? = some b

/-- Each proxy of the list has its place in the read. -/
def ReadCall.OwnAll (call : ReadCall) (proxies : List ProxyObj) : Prop :=
  ∀ k p, proxies[k]? = some p → call.Own k p

/-- The proxies share the channel and the peer. -/
def OneSource (proxies : List Proxy) : Prop :=
  ∀ p ∈ proxies, ∀ q ∈ proxies,
    p.transferChannel = q.transferChannel ∧ p.targetPeerUrl = q.targetPeerUrl

/-! ## `_remote_batched_to_gpu` -/

abbrev ProxyItem := ProxyItemOf Proxy

structure Call where
  items : List (Item Proxy)
  submits : Nat → Bool
  /-- The allocator of a transfer context. -/
  allocator : Nat → Option Allocator

/-- `max_pipeline_depth` of the context. -/
def Call.depth (c : Call) (firstCtx : Nat) : Nat := maxPipelineDepth (c.allocator firstCtx)

inductive Op
  | allocate (ctx : Nat) (pool : Bool) (count : Nat)
  | read (proxies : List ProxyObj) (call : ReadCall)
  /-- A stream waits for an event, or an event is recorded. -/
  | event
  | scatter (idx start stop : Nat) (buffer : Buffer)
  | scatterPlain (id start stop : Nat)
  | synchronize
  | release (ctx : Nat) (pool : Bool)
  | done (ctx : Nat)
deriving DecidableEq, Repr

abbrev Env := EnvOf Op

abbrev Pull := PullOf Op

abbrev PullM := Prog Raised Pull

/-- `allocate_buffers` of the first context. -/
def allocateBuffers (env : Env) (c : Call) (ctx : Nat) (pool : Bool) (count : Nat) :
    PullM (List Buffer) :=
  match c.allocator ctx with
  | none => throw (.assertion "memory_allocator not set on transfer context")
  | some _ => RemotePull.allocateBuffers env (.allocate ctx pool count) pool count

/-- `proxy.set_backing_obj(pool[i])` for each proxy of the batch. -/
def setBackingObjs (pool : List Buffer) (batch : List ProxyItem) :
    Except Raised (List ProxyObj) :=
  if batch.length ≤ pool.length then
    .ok (batch.zipWith (fun x b => ⟨x.idx, x.proxy, some b, false⟩) pool)
  else .error .index

def readBatch (env : Env) (c : Call) (proxies : List ProxyObj) : PullM PUnit := do
  let submitted ← call (submitResolveBatch c.submits proxies)
  match submitted with
  | some r => emit env (.read proxies r)
  | none => pure ⟨⟩

/-- `_scatter_proxy_batch`. -/
def scatterProxyBatch (env : Env) (batch : List (ProxyItem × ProxyObj)) : PullM PUnit := do
  emit env .event
  batch.forM fun e =>
    match e.2.backing with
    | some b => emit env (.scatter e.1.idx e.1.start e.1.stop b)
    | none => throw .attribute

/-- The loop over the micro-batches and the drain. -/
def pingPong (env : Env) (c : Call) (pools : Bool → List Buffer) :
    List (List ProxyItem) → Bool → Option (List (ProxyItem × ProxyObj)) → PullM PUnit
  | [], _, none => pure ⟨⟩
  | [], _, some prevBatch => scatterProxyBatch env prevBatch
  | batch :: rest, currentPool, prev => do
    emit env .event
    let proxies ← call (setBackingObjs (pools currentPool) batch)
    readBatch env c proxies
    match prev with
    | some prevBatch => do
      scatterProxyBatch env prevBatch
      emit env .event
      pingPong env c pools rest (!currentPool) (some (batch.zip proxies))
    | none => pingPong env c pools rest (!currentPool) (some (batch.zip proxies))

/-- The `try` block. -/
def pullProxies (env : Env) (c : Call) (firstCtx : Nat) : PullM PUnit := do
  let items := proxyItems c.items
  let poolSize := min (c.depth firstCtx) items.length
  let poolA ← allocateBuffers env c firstCtx false poolSize
  let poolB ← allocateBuffers env c firstCtx true poolSize
  pingPong env c (fun b => if b then poolB else poolA) (slices (c.depth firstCtx) items) false none

def contexts (c : Call) : List Nat :=
  ((proxyItems c.items).map (·.proxy.ctx)).dedup

/-- The `finally` block. -/
def cleanUp (env : Env) (c : Call) (firstCtx : Nat) : PullM PUnit := do
  emit env .synchronize
  releasePool env (.release firstCtx false) false
  releasePool env (.release firstCtx true) true
  modify fun s => { s with consumed := s.consumed ++ (proxyItems c.items).map (·.idx) }
  (contexts c).forM (sendDoneNow .done)

/-- `_remote_batched_to_gpu`. -/
def remoteBatchedToGpu (env : Env) (c : Call) : PullM PUnit := do
  match proxyItems c.items with
  | [] => pure ⟨⟩
  | first :: _ =>
    finally_ (pullProxies env c first.proxy.ctx)
      (cleanUp env c first.proxy.ctx)
  (c.items.filterMap Item.plain?).forM fun e => emit env (.scatterPlain e.1 e.2.1 e.2.2)

/-- The micro-batches of a call. -/
def Call.microBatches (c : Call) : List (List ProxyItem) :=
  match proxyItems c.items with
  | [] => []
  | first :: _ => slices (c.depth first.proxy.ctx) (proxyItems c.items)

/-- The first context has an allocator, so that `allocate_buffers` passes its assertion. -/
def Call.Allocates (c : Call) : Prop :=
  ∀ first ∈ (proxyItems c.items).head?, c.allocator first.proxy.ctx ≠ none

/-! ## One read -/

variable {proxies : List ProxyObj} {batch : List ProxyItem}

theorem backings_ok {buffers : List Buffer} (h : backings proxies = .ok buffers) :
    Forall₂ (fun p b => p.backing = some b) proxies buffers := by
  refine (forall₂_of_mapM_ok h).imp fun p b hb => ?_
  rcases hp : p.backing with _ | b'
  · rw [hp] at hb
    cases hb
  · rw [hp] at hb
    cases hb
    rfl

theorem backings_of_some (h : ∀ p ∈ proxies, p.backing ≠ none) :
    ∃ buffers, backings proxies = .ok buffers := by
  induction proxies with
  | nil => exact ⟨[], rfl⟩
  | cons p proxies ih =>
    obtain ⟨hp, hrest⟩ := forall_mem_cons.1 h
    obtain ⟨buffers, hb⟩ := ih hrest
    obtain ⟨b, hb'⟩ := Option.ne_none_iff_exists'.1 hp
    refine ⟨b :: buffers, ?_⟩
    unfold backings at hb ⊢
    rw [mapM_cons, hb', hb]
    rfl

theorem submitResolveBatch_ok {submits : Nat → Bool} {r : ReadCall}
    (h : submitResolveBatch submits proxies = .ok (some r)) :
    ∃ first, (unresolved proxies).head? = some first ∧
      r.channel = first.proxy.transferChannel ∧ r.receiverId = first.proxy.targetPeerUrl ∧
      backings (unresolved proxies) = .ok r.buffers ∧
      r.remoteBufferUuids = (unresolved proxies).map (·.proxy.remoteBufferUuid) ∧
      r.remoteMemIndexes = (unresolved proxies).map (·.proxy.remoteMemIndex) := by
  unfold submitResolveBatch at h
  cases hun : unresolved proxies with
  | nil =>
    rw [hun] at h
    cases h
  | cons first rest =>
    rw [hun] at h
    cases hb : backings (first :: rest) with
    | error e =>
      simp only [hb] at h
      cases h
    | ok buffers =>
      simp only [hb] at h
      cases h
      exact ⟨first, rfl, rfl, rfl, rfl, rfl, rfl⟩

/-- A read is each proxy's own exactly if they share their source. -/
theorem ownAll_iff {submits : Nat → Bool} {r : ReadCall}
    (h : submitResolveBatch submits proxies = .ok (some r)) :
    r.OwnAll (unresolved proxies) ↔ OneSource ((unresolved proxies).map (·.proxy)) := by
  obtain ⟨first, hfirst, hchannel, hreceiver, hbuffers, huuids, hindexes⟩ :=
    submitResolveBatch_ok h
  constructor
  · intro hown
    have hsame : ∀ p ∈ unresolved proxies, p.proxy.transferChannel = r.channel ∧
        p.proxy.targetPeerUrl = r.receiverId := by
      intro p hp
      obtain ⟨k, hk⟩ := mem_iff_getElem?.1 hp
      have := hown k p hk
      exact ⟨this.channel.symm, this.receiverId.symm⟩
    intro p hp q hq
    obtain ⟨p', hp', rfl⟩ := mem_map.1 hp
    obtain ⟨q', hq', rfl⟩ := mem_map.1 hq
    obtain ⟨hc, hu⟩ := hsame p' hp'
    obtain ⟨hc', hu'⟩ := hsame q' hq'
    exact ⟨hc.trans hc'.symm, hu.trans hu'.symm⟩
  · intro hone k p hk
    have hp := mem_map_of_mem (f := fun p : ProxyObj => p.proxy) (mem_of_getElem? hk)
    have hf := mem_map_of_mem (f := fun p : ProxyObj => p.proxy) (mem_of_head? hfirst)
    obtain ⟨hc, hu⟩ := hone _ hf _ hp
    refine ⟨hchannel.trans hc, hreceiver.trans hu, ?_, ?_, ?_⟩
    · rw [huuids, getElem?_map, hk]
      rfl
    · rw [hindexes, getElem?_map, hk]
      rfl
    · have hall := backings_ok hbuffers
      obtain ⟨hlt, hget⟩ := List.getElem?_eq_some_iff.1 hk
      have hlt' : k < r.buffers.length := hall.length_eq ▸ hlt
      have hb := hall.get hlt hlt'
      refine ⟨r.buffers[k], ?_, getElem?_eq_getElem hlt'⟩
      rw [← hget]
      exact hb

theorem submit_own_iff (submits : Nat → Bool) (proxies : List ProxyObj) :
    (∀ r, submitResolveBatch submits proxies = .ok (some r) → r.OwnAll (unresolved proxies)) ↔
      (∃ p ∈ unresolved proxies, p.backing = none) ∨
        OneSource ((unresolved proxies).map (·.proxy)) := by
  constructor
  · intro h
    by_cases hnone : ∃ p ∈ unresolved proxies, p.backing = none
    · exact .inl hnone
    refine .inr ?_
    obtain ⟨buffers, hb⟩ := backings_of_some fun p hp hn => hnone ⟨p, hp, hn⟩
    cases hun : unresolved proxies with
    | nil => exact fun p hp => absurd hp not_mem_nil
    | cons first rest =>
      rw [← hun]
      have hok : ∃ r, submitResolveBatch submits proxies = .ok (some r) := by
        unfold submitResolveBatch
        rw [hun] at hb ⊢
        simp only [hb]
        exact ⟨_, rfl⟩
      obtain ⟨r, hr⟩ := hok
      exact (ownAll_iff hr).1 (h r hr)
  · rintro (⟨p, hp, hnone⟩ | hone) r hr
    · obtain ⟨first, _, _, _, hb, _⟩ := submitResolveBatch_ok hr
      obtain ⟨b, _, hpb⟩ := exists_right (backings_ok hb) p hp
      rw [hnone] at hpb
      cases hpb
    · exact (ownAll_iff hr).2 hone

/-! ## What is issued -/

/-- What a program adds to the trace is in `G`. -/
def Adds (G : Op → Prop) (s s' : Pull) : Prop :=
  ∃ ops, s'.trace = s.trace ++ ops ∧ ∀ op ∈ ops, G op

instance (G : Op → Prop) : IsPreorder Pull (Adds G) where
  refl s := grown_refl s.trace
  trans _ _ _ := grown_trans

section

variable {G : Op → Prop} {env : Env} {c : Call}

theorem adds_push {op : Op} (h : G op) (s : Pull) : Adds G s (s.push op) :=
  ⟨[op], rfl, fun _ hop => (mem_singleton.1 hop) ▸ h⟩

theorem emit_adds {op : Op} (h : G op) : Preserves (Adds G) (emit env op) := fun s =>
  wp_emit (adds_push h s) (fun _ => refl_of (Adds G) s) fun _ => adds_push h s

theorem readBatch_adds
    (h : ∀ r, submitResolveBatch c.submits proxies = .ok (some r) → G (.read proxies r)) :
    Preserves (Adds G) (readBatch env c proxies) := by
  intro s
  unfold readBatch
  rw [wp_bind, wp_call]
  rcases hr : submitResolveBatch c.submits proxies with e | _ | r
  · exact refl_of (Adds G) s
  · exact refl_of (Adds G) s
  · exact emit_adds (h r hr) s

theorem scatterProxyBatch_adds (hevent : G .event)
    (hscatter : ∀ idx start stop b, G (.scatter idx start stop b))
    (batch : List (ProxyItem × ProxyObj)) :
    Preserves (Adds G) (scatterProxyBatch env batch) := by
  refine (emit_adds hevent).bind fun _ => Preserves.forM fun e _ => ?_
  split
  · exact emit_adds (hscatter _ _ _ _)
  · exact Preserves.throw _

theorem map_zipWith_left {α β γ δ : Type} {f : α → β → γ} {g : γ → δ} {h : α → δ}
    (hg : ∀ a b, g (f a b) = h a) {l : List α} {m : List β} (hlen : l.length ≤ m.length) :
    (l.zipWith f m).map g = l.map h := by
  induction l generalizing m with
  | nil => rfl
  | cons a l ih =>
    cases m with
    | nil => exact absurd hlen (Nat.not_succ_le_zero _)
    | cons b m =>
      rw [zipWith_cons_cons, map_cons, map_cons, hg,
        ih (Nat.le_of_succ_le_succ hlen)]

theorem setBackingObjs_ok {pool : List Buffer} (h : setBackingObjs pool batch = .ok proxies) :
    proxies.map (fun p => (p.idx, p.proxy)) = batch.map (fun x => (x.idx, x.proxy)) ∧
      ∀ p ∈ proxies, p.backing ≠ none ∧ p.resolved = false := by
  unfold setBackingObjs at h
  split at h
  · next hlen =>
    cases h
    refine ⟨map_zipWith_left (g := fun p : ProxyObj => (p.idx, p.proxy))
      (h := fun x : ProxyItem => (x.idx, x.proxy)) (fun _ _ => rfl) hlen, fun p hp => ?_⟩
    have hstate := map_zipWith_left (g := fun p : ProxyObj => (p.backing.isSome, p.resolved))
      (h := fun _ => (true, false))
      (f := fun (x : ProxyItem) (b : Buffer) => (⟨x.idx, x.proxy, some b, false⟩ : ProxyObj))
      (fun _ _ => rfl) hlen
    have hmem := mem_map_of_mem (f := fun p : ProxyObj => (p.backing.isSome, p.resolved)) hp
    rw [hstate] at hmem
    obtain ⟨_, _, heq⟩ := mem_map.1 hmem
    obtain ⟨hsome, hres⟩ := Prod.mk.inj heq
    refine ⟨fun hnone => ?_, hres.symm⟩
    rw [hnone] at hsome
    cases hsome
  · cases h

theorem unresolved_eq (h : ∀ p ∈ proxies, p.resolved = false) :
    unresolved proxies = proxies :=
  filter_eq_self.2 fun p hp => by rw [h p hp]; rfl

/-- The read of a micro-batch. -/
def BatchRead (c : Call) (op : Op) : Prop :=
  ∀ proxies r, op = .read proxies r → c.Allocates ∧ ∃ batch ∈ c.microBatches,
    proxies.map (fun p => (p.idx, p.proxy)) = batch.map (fun x => (x.idx, x.proxy)) ∧
    submitResolveBatch c.submits proxies = .ok (some r) ∧ unresolved proxies = proxies

theorem pingPong_adds (hall : c.Allocates) {pools : Bool → List Buffer}
    {batches : List (List ProxyItem)}
    (hb : ∀ batch ∈ batches, batch ∈ c.microBatches) (pool : Bool)
    (prev : Option (List (ProxyItem × ProxyObj))) :
    Preserves (Adds (BatchRead c)) (pingPong env c pools batches pool prev) := by
  have hscatter : ∀ batch, Preserves (Adds (BatchRead c)) (scatterProxyBatch env batch) :=
    scatterProxyBatch_adds nofun nofun
  induction batches generalizing pool prev with
  | nil =>
    cases prev with
    | none => exact Preserves.pure _
    | some prevBatch => exact hscatter prevBatch
  | cons batch rest ih =>
    obtain ⟨hbatch, hrest⟩ := forall_mem_cons.1 hb
    refine (emit_adds nofun).bind fun _ => ?_
    intro s
    rw [wp_bind, wp_call]
    rcases hset : setBackingObjs (pools pool) batch with e | proxies
    · exact refl_of (Adds (BatchRead c)) s
    obtain ⟨hmap, hbacked⟩ := setBackingObjs_ok hset
    rw [post_ok]
    refine (readBatch_adds ?_).bind (fun _ => ?_) s
    · rintro r hr _ _ ⟨⟩
      exact ⟨hall, batch, hbatch, hmap, hr, unresolved_eq fun p hp => (hbacked p hp).2⟩
    · cases prev with
      | none => exact ih hrest _ _
      | some prevBatch =>
        refine (hscatter prevBatch).bind fun _ => (emit_adds nofun).bind fun _ => ?_
        exact ih hrest _ _

theorem allocateBuffers_adds (ctx : Nat) (pool : Bool) (count : Nat)
    (h : G (.allocate ctx pool count)) :
    Preserves (Adds G) (allocateBuffers env c ctx pool count) := by
  unfold allocateBuffers
  split
  · exact Preserves.throw _
  · exact fun s => wp_allocateBuffers (fun _ _ => adds_push h s) fun _ => refl_of (Adds G) s

theorem cleanUp_adds (firstCtx : Nat) :
    Preserves (Adds (BatchRead c)) (cleanUp env c firstCtx) := by
  have hrelease : ∀ pool, Preserves (Adds (BatchRead c))
      (releasePool env (.release firstCtx pool) pool) := fun pool =>
    .bind (.get) fun _ => RemotePull.preserves_onlyIf fun _ => emit_adds (by nofun)
  exact (emit_adds nofun).bind fun _ => (hrelease false).bind fun _ =>
    (hrelease true).bind fun _ => Preserves.bind (fun s => refl_of (Adds (BatchRead c)) s) fun _ =>
    Preserves.forM fun _ _ => .bind (.get) fun _ => RemotePull.preserves_onlyIf fun _ =>
    .modify (adds_push (by nofun))

theorem remoteBatchedToGpu_adds : Preserves (Adds (BatchRead c)) (remoteBatchedToGpu env c) := by
  have hplain : Preserves (Adds (BatchRead c)) ((c.items.filterMap Item.plain?).forM fun e =>
      emit env (.scatterPlain e.1 e.2.1 e.2.2)) :=
    Preserves.forM fun e _ => emit_adds nofun
  unfold remoteBatchedToGpu
  cases hitems : proxyItems c.items with
  | nil => exact Preserves.bind (Preserves.pure PUnit.unit) fun _ => hplain
  | cons first rest =>
    refine Preserves.bind (Preserves.finally_ ?_ (cleanUp_adds _)) fun _ => hplain
    rcases halloc : c.allocator first.proxy.ctx with _ | allocator
    · intro s
      unfold pullProxies allocateBuffers
      rw [halloc]
      exact refl_of (Adds (BatchRead c)) s
    · have hall : c.Allocates := by
        intro x hx
        rw [hitems] at hx
        cases hx
        rw [halloc]
        exact nofun
      refine (allocateBuffers_adds _ _ _ nofun).bind fun _ =>
        (allocateBuffers_adds _ _ _ nofun).bind fun _ =>
          pingPong_adds hall (fun batch hb => ?_) _ _
      unfold Call.microBatches
      rw [hitems] at hb ⊢
      exact hb

/-! ## Runs that raise nothing -/

def Quiet (env : Env) : Prop := ∀ q op, env q op = .returns

/-- The clean-up raises nothing. -/
structure CleansUp (env : Env) : Prop where
  synchronize : ∀ q, env q .synchronize = .returns
  release : ∀ q ctx pool, env q (.release ctx pool) = .returns

theorem Quiet.cleansUp (h : Quiet env) : CleansUp env :=
  ⟨fun q => h q _, fun q _ _ => h q _⟩

/-- What was issued stays issued. -/
def Grew (s s' : Pull) : Prop := ∀ op ∈ s.trace, op ∈ s'.trace

theorem Grew.trans {s1 s2 s3 : Pull} (h : Grew s1 s2) (h' : Grew s2 s3) : Grew s1 s3 :=
  fun op hop => h' op (h op hop)

instance : IsPreorder Pull Grew where
  refl _ _ h := h
  trans _ _ _ := .trans

theorem grew_push (s : Pull) (op : Op) : Grew s (s.push op) :=
  fun _ hop => mem_append_left _ hop

/-- The proxies of the micro-batch are read. -/
def BatchIsRead (s : Pull) (batch : List ProxyItem) : Prop :=
  ∃ proxies r, .read proxies r ∈ s.trace ∧
    proxies.map (fun p => (p.idx, p.proxy)) = batch.map (fun x => (x.idx, x.proxy))

theorem BatchIsRead.grew {s s' : Pull} (h : BatchIsRead s batch)
    (hg : Grew s s') : BatchIsRead s' batch := by
  obtain ⟨proxies, r, hop, hmap⟩ := h
  exact ⟨proxies, r, hg _ hop, hmap⟩

theorem scatterProxyBatch_quiet (hq : Quiet env) {batch : List (ProxyItem × ProxyObj)}
    (hbacking : ∀ e ∈ batch, e.2.backing ≠ none) (s : Pull) :
    wp (scatterProxyBatch env batch) (post (fun _ s' => Grew s s') fun _ _ => False) s := by
  unfold scatterProxyBatch
  rw [wp_bind, wp_emit_returns (hq _ _), post_ok]
  refine wp_forM (fun e he t ht => ?_) (grew_push s _)
  obtain ⟨b, hb⟩ := Option.ne_none_iff_exists'.1 (hbacking e he)
  rw [hb]
  simp only
  rw [wp_emit_returns (hq _ _)]
  exact ht.trans (grew_push t _)

theorem readBatch_quiet (hq : Quiet env) (hne : proxies ≠ [])
    (hall : ∀ p ∈ proxies, p.backing ≠ none ∧ p.resolved = false) (s : Pull) :
    wp (readBatch env c proxies) (post
      (fun _ s' => Grew s s' ∧ ∃ r, .read proxies r ∈ s'.trace) fun _ _ => False) s := by
  obtain ⟨buffers, hb⟩ := backings_of_some fun p hp => (hall p hp).1
  have hun := unresolved_eq fun p hp => (hall p hp).2
  have hr : ∃ r, submitResolveBatch c.submits proxies = .ok (some r) := by
    unfold submitResolveBatch
    rw [hun]
    cases proxies with
    | nil => exact absurd rfl hne
    | cons first rest =>
      simp only [hb]
      exact ⟨_, rfl⟩
  obtain ⟨r, hr⟩ := hr
  unfold readBatch
  rw [wp_bind, wp_call, hr, post_ok]
  simp only
  rw [wp_emit_returns (hq _ _)]
  exact ⟨grew_push s _, r, mem_append_right _ (mem_singleton_self _)⟩

theorem pingPong_quiet (hq : Quiet env) {pools : Bool → List Buffer}
    {batches : List (List ProxyItem)}
    (hb : ∀ batch ∈ batches, batch ≠ [] ∧ ∀ pool, batch.length ≤ (pools pool).length)
    (pool : Bool) (prev : Option (List (ProxyItem × ProxyObj)))
    (hprev : ∀ prevBatch, prev = some prevBatch → ∀ e ∈ prevBatch, e.2.backing ≠ none)
    (s : Pull) :
    wp (pingPong env c pools batches pool prev) (post
      (fun _ s' => Grew s s' ∧ ∀ batch ∈ batches, BatchIsRead s' batch) fun _ _ => False) s := by
  induction batches generalizing pool prev s with
  | nil =>
    cases prev with
    | none => exact ⟨fun _ h => h, nofun⟩
    | some prevBatch =>
      refine wp_ok (scatterProxyBatch_quiet hq (hprev prevBatch rfl) s) fun u s' h => ?_
      exact ⟨h, nofun⟩
  | cons batch rest ih =>
    obtain ⟨⟨hne, hlen⟩, hrest⟩ := forall_mem_cons.1 hb
    obtain ⟨proxies, hset⟩ : ∃ proxies, setBackingObjs (pools pool) batch = .ok proxies :=
      ⟨_, if_pos (hlen pool)⟩
    obtain ⟨hmap, hall⟩ := setBackingObjs_ok hset
    have hne' : proxies ≠ [] := by
      rintro rfl
      exact hne (map_eq_nil_iff.1 hmap.symm)
    have hzip : ∀ e ∈ batch.zip proxies, e.2.backing ≠ none :=
      fun e he => (hall e.2 (of_mem_zip he).2).1
    -- the rest of the batches, once the batch is read
    have hgo : ∀ t, Grew s t → BatchIsRead t batch →
        wp (pingPong env c pools rest (!pool) (some (batch.zip proxies))) (post
          (fun _ s' => Grew s s' ∧ ∀ b ∈ batch :: rest, BatchIsRead s' b) fun _ _ => False) t := by
      intro t ht hread
      refine wp_mono (ih hrest (!pool) (some (batch.zip proxies)) ?_ t) ?_
      · rintro _ ⟨⟩
        exact hzip
      · rintro (e | u) s' h
        · exact h
        · exact ⟨ht.trans h.1, forall_mem_cons.2 ⟨hread.grew h.1, h.2⟩⟩
    unfold pingPong
    rw [wp_bind, wp_emit_returns (hq _ _), post_ok, wp_bind, wp_call, hset, post_ok]
    refine wp_bind_ok (readBatch_quiet hq hne' hall _) fun u s1 h1 => ?_
    obtain ⟨hg1, r, hr⟩ := h1
    have hread : BatchIsRead s1 batch := ⟨proxies, r, hr, hmap⟩
    have hg := (grew_push s .event).trans hg1
    cases prev with
    | none => exact hgo s1 hg hread
    | some prevBatch =>
      simp only
      refine wp_bind_ok (scatterProxyBatch_quiet hq (hprev prevBatch rfl) s1) fun u s2 h2 => ?_
      rw [wp_bind, wp_emit_returns (hq _ _), post_ok]
      have hg2 := h2.trans (grew_push s2 .event)
      exact hgo _ (hg.trans hg2) (hread.grew hg2)

theorem length_of_mem_slices {α : Type} {k : Nat} (hk : 0 < k) {l b : List α}
    (hb : b ∈ slices k l) : b.length ≤ min k l.length := by
  obtain ⟨i, _, rfl⟩ := (mem_slices hk).1 hb
  rw [length_take, length_drop]
  omega

theorem depth_pos (c : Call) (ctx : Nat) : 0 < c.depth ctx := by
  unfold Call.depth maxPipelineDepth
  split
  · exact Nat.succ_pos _
  · exact Nat.lt_of_lt_of_le Nat.zero_lt_one (Nat.le_max_right _ _)

theorem wp_allocate {ctx : Nat} {pool : Bool} {count : Nat} {s : Pull}
    {Q : Except Raised (List Buffer) → Pull → Prop} (hq : Quiet env) (hctx : c.allocator ctx ≠ none)
    (h : ∀ s' buffers, Grew s s' → buffers.length = count → Q (.ok buffers) s') :
    wp (allocateBuffers env c ctx pool count) Q s := by
  unfold allocateBuffers
  split
  · next hnone => exact absurd hnone hctx
  · refine wp_allocateBuffers (fun f _ => h _ _ (grew_push s _) ?_) fun hne => absurd (hq _ _) hne
    rw [length_map, length_range]

theorem pullProxies_quiet (hq : Quiet env) {firstCtx : Nat} (hctx : c.allocator firstCtx ≠ none)
    (s : Pull) :
    wp (pullProxies env c firstCtx) (post
      (fun _ s' => ∀ batch ∈ slices (c.depth firstCtx) (proxyItems c.items), BatchIsRead s' batch)
      fun _ _ => False) s := by
  unfold pullProxies
  rw [wp_bind]
  refine wp_allocate hq hctx fun s1 poolA _ hA => ?_
  rw [post_ok, wp_bind]
  refine wp_allocate hq hctx fun s2 poolB _ hB => ?_
  rw [post_ok]
  refine wp_mono (pingPong_quiet hq (fun batch hb => ⟨ne_nil_of_mem_slices hb, ?_⟩) false none
    nofun s2) ?_
  · intro pool
    have hlen := length_of_mem_slices (depth_pos c firstCtx) hb
    cases pool with
    | false =>
      show batch.length ≤ poolA.length
      omega
    | true =>
      show batch.length ≤ poolB.length
      omega
  · rintro (e | u) s' h
    · exact h
    · exact h.2

/-! ## The clean-up -/

theorem sendDoneNow_spec (ctx : Nat) (s : Pull) :
    wp (sendDoneNow .done ctx) (post
      (fun _ s' => (Grew s s' ∧ ∀ x ∈ s.doneSent, x ∈ s'.doneSent) ∧ ctx ∈ s'.doneSent)
      fun _ _ => False) s := by
  unfold sendDoneNow RemotePull.onlyIf
  rw [wp_get_bind, wp_ite]
  split
  · exact ⟨⟨fun _ h => mem_append_left _ h, fun _ h => mem_append_left _ h⟩,
      mem_append_right _ (mem_singleton_self _)⟩
  · next h => exact ⟨⟨fun _ h => h, fun _ h => h⟩, Decidable.not_not.1 h⟩

theorem releasePool_grew (hclean : CleansUp env) (ctx : Nat) (pool : Bool) (s : Pull) :
    wp (releasePool env (.release ctx pool) pool)
      (post (fun _ s' => Grew s s') fun _ _ => False) s := by
  unfold releasePool RemotePull.onlyIf
  rw [wp_get_bind, wp_ite]
  split
  · rw [wp_emit_returns (hclean.release _ _ _)]
    exact grew_push s _
  · exact fun _ h => h

theorem sendDones (ctxs : List Nat) (s : Pull) :
    wp (ctxs.forM (sendDoneNow Op.done)) (post
      (fun _ s' => (Grew s s' ∧ ∀ x ∈ s.doneSent, x ∈ s'.doneSent) ∧
        ∀ ctx ∈ ctxs, ctx ∈ s'.doneSent)
      fun _ _ => False) s := by
  induction ctxs generalizing s with
  | nil => exact ⟨⟨fun _ h => h, fun _ h => h⟩, nofun⟩
  | cons ctx ctxs ih =>
    show wp (sendDoneNow Op.done ctx >>= fun _ => ctxs.forM (sendDoneNow Op.done)) _ s
    refine wp_bind_ok (sendDoneNow_spec ctx s) fun u s1 h1 => ?_
    refine wp_ok (ih s1) fun u s2 h2 => ?_
    exact ⟨⟨h1.1.1.trans h2.1.1, fun x hx => h2.1.2 x (h1.1.2 x hx)⟩,
      forall_mem_cons.2 ⟨h2.1.2 ctx h1.2, h2.2⟩⟩

theorem cleanUp_done (hclean : CleansUp env) (firstCtx : Nat) (s : Pull) :
    wp (cleanUp env c firstCtx) (post
      (fun _ s' => Grew s s' ∧ ∀ ctx ∈ contexts c, ctx ∈ s'.doneSent) fun _ _ => False) s := by
  unfold cleanUp
  rw [wp_bind, wp_emit_returns (hclean.synchronize _), post_ok]
  refine wp_bind_ok (releasePool_grew hclean firstCtx false _) fun u s1 h1 => ?_
  refine wp_bind_ok (releasePool_grew hclean firstCtx true s1) fun u s2 h2 => ?_
  rw [wp_modify_bind]
  refine wp_ok (sendDones (contexts c) _) fun u s3 h3 => ?_
  exact ⟨((grew_push s _).trans h1).trans (Grew.trans h2 h3.1.1), h3.2⟩

theorem emit_kept (op : Op) : Preserves
    (fun s s' : Pull => Grew s s' ∧ s'.doneSent = s.doneSent) (emit env op) := fun s =>
  wp_emit ⟨grew_push s op, rfl⟩ (fun _ => ⟨fun _ h => h, rfl⟩) fun _ => ⟨grew_push s op, rfl⟩

theorem plainItems_kept (items : List (Nat × Nat × Nat)) : Preserves
    (fun s s' : Pull => Grew s s' ∧ s'.doneSent = s.doneSent)
    (items.forM fun e => emit env (.scatterPlain e.1 e.2.1 e.2.2)) :=
  Preserves.forM fun _ _ => emit_kept _

theorem remoteBatchedToGpu_done (hclean : CleansUp env) (s : Pull) :
    wp (remoteBatchedToGpu env c) (fun _ s' => ∀ ctx ∈ contexts c, ctx ∈ s'.doneSent) s := by
  unfold remoteBatchedToGpu
  cases hitems : proxyItems c.items with
  | nil =>
    refine wp_of_forall fun r s' ctx hctx => ?_
    unfold contexts at hctx
    rw [hitems] at hctx
    cases hctx
  | cons first rest =>
    simp only
    rw [wp_bind]
    refine wp_finally (wp_of_forall fun r s1 => ?_)
    refine wp_ok (cleanUp_done hclean _ s1) fun u s2 h2 => ?_
    cases r with
    | error e => exact h2.2
    | ok u =>
      rw [post_ok]
      refine wp_mono (plainItems_kept _ s2) ?_
      intro r s3 h3 ctx hctx
      rw [h3.2]
      exact h2.2 ctx hctx

theorem remoteBatchedToGpu_reads (hq : Quiet env) (hall : c.Allocates) (s : Pull) :
    wp (remoteBatchedToGpu env c)
      (fun _ s' => ∀ batch ∈ c.microBatches, BatchIsRead s' batch) s := by
  unfold remoteBatchedToGpu Call.microBatches
  cases hitems : proxyItems c.items with
  | nil => exact wp_of_forall fun _ _ => nofun
  | cons first rest =>
    simp only
    rw [wp_bind]
    have hctx : c.allocator first.proxy.ctx ≠ none := by
      refine hall first ?_
      rw [hitems]
      rfl
    refine wp_finally (wp_mono (pullProxies_quiet hq hctx s) ?_)
    rintro (e | u) s1 h1
    · cases h1
    refine wp_ok (cleanUp_done hq.cleansUp _ s1) fun u s2 h2 => ?_
    rw [post_ok]
    rw [hitems] at h1
    refine wp_mono (plainItems_kept _ s2) ?_
    intro r s3 h3 batch hbatch
    exact (h1 batch hbatch).grew (Grew.trans h2.1 h3.1)

end

/-! ## What is asked -/

/-- What a call is to do: each of its reads takes each proxy's own buffer from its own peer through
its own channel, all its proxies are read, and Done is sent for each of their contexts. -/
structure OwnPeers (c : Call) : Prop where
  own : ∀ env done proxies r,
    .read proxies r ∈ (remoteBatchedToGpu env c (PullOf.init done)).2.trace →
      r.OwnAll (unresolved proxies) ∧ unresolved proxies = proxies
  reads : ∀ env done, Quiet env → c.Allocates → ∀ x ∈ proxyItems c.items, ∃ proxies r,
    .read proxies r ∈ (remoteBatchedToGpu env c (PullOf.init done)).2.trace ∧
      ∃ p ∈ proxies, p.idx = x.idx ∧ p.proxy = x.proxy
  done : ∀ env done, CleansUp env → ∀ ctx ∈ contexts c,
    ctx ∈ (remoteBatchedToGpu env c (PullOf.init done)).2.doneSent

theorem read_of_call {c : Call} {env : Env} {done : List Nat} {r : ReadCall}
    (h : .read proxies r ∈ (remoteBatchedToGpu env c (PullOf.init done)).2.trace) :
    c.Allocates ∧ ∃ batch ∈ c.microBatches,
      proxies.map (fun p => (p.idx, p.proxy)) = batch.map (fun x => (x.idx, x.proxy)) ∧
      submitResolveBatch c.submits proxies = .ok (some r) ∧ unresolved proxies = proxies := by
  have hadds : Preserves (Adds (BatchRead c)) (remoteBatchedToGpu env c) :=
    remoteBatchedToGpu_adds
  obtain ⟨ops, htrace, hall⟩ := hadds (PullOf.init done)
  rw [htrace] at h
  exact hall _ h proxies r rfl

theorem map_proxy
    (h : proxies.map (fun p => (p.idx, p.proxy)) = batch.map (fun x => (x.idx, x.proxy))) :
    proxies.map (·.proxy) = batch.map (·.proxy) := by
  have hsnd := congrArg (List.map Prod.snd) h
  rw [map_map, map_map] at hsnd
  exact hsnd

/-- A list of proxies is read each from its own peer exactly if all not yet resolved have one
channel and one peer (or one of them has no buffer and nothing is read); a call exactly if those
of each micro-batch have (or the first context has no allocator and nothing is read). -/
theorem own_peers_iff (c : Call) :
    (∀ submits proxies, (∀ r, submitResolveBatch submits proxies = .ok (some r) →
        r.OwnAll (unresolved proxies)) ↔
      (∃ p ∈ unresolved proxies, p.backing = none) ∨
        OneSource ((unresolved proxies).map (·.proxy))) ∧
    (OwnPeers c ↔ ¬ c.Allocates ∨ ∀ batch ∈ c.microBatches, OneSource (batch.map (·.proxy))) := by
  refine ⟨submit_own_iff, ⟨fun h => or_iff_not_imp_left.2 fun hall batch hbatch => ?_,
    fun h => ⟨?_, ?_, ?_⟩⟩⟩
  · have hquiet : Quiet fun _ _ => Answer.returns := fun _ _ => rfl
    obtain ⟨proxies, r, hread, hmap⟩ :=
      remoteBatchedToGpu_reads hquiet (not_not.1 hall) (PullOf.init []) batch hbatch
    obtain ⟨_, _, _, _, hsubmit, _⟩ := read_of_call hread
    obtain ⟨hown, hun⟩ := h.own _ _ _ _ hread
    have hone := (ownAll_iff hsubmit).1 hown
    rwa [hun, map_proxy hmap] at hone
  · intro env done proxies r hread
    obtain ⟨hall, batch, hbatch, hmap, hsubmit, hun⟩ := read_of_call hread
    refine ⟨(ownAll_iff hsubmit).2 ?_, hun⟩
    rw [hun, map_proxy hmap]
    exact (h.resolve_left (not_not.2 hall)) batch hbatch
  · intro env done hquiet hall x hx
    have hslice : ∃ batch ∈ c.microBatches, x ∈ batch := by
      unfold Call.microBatches
      cases hitems : proxyItems c.items with
      | nil =>
        rw [hitems] at hx
        cases hx
      | cons first rest =>
        rw [hitems] at hx
        exact exists_slice (depth_pos c _) hx
    obtain ⟨batch, hbatch, hxb⟩ := hslice
    obtain ⟨proxies, r, hread, hmap⟩ :=
      remoteBatchedToGpu_reads hquiet hall (PullOf.init done) batch hbatch
    have hmem := mem_map_of_mem (f := fun x : ProxyItem => (x.idx, x.proxy)) hxb
    rw [← hmap] at hmem
    obtain ⟨p, hp, heq⟩ := mem_map.1 hmem
    obtain ⟨hidx, hproxy⟩ := Prod.mk.inj heq
    exact ⟨proxies, r, hread, p, hp, hidx, hproxy⟩
  · intro env done hclean
    exact remoteBatchedToGpu_done hclean (PullOf.init done)

/-! A prefix of which one producer holds the first chunk and another the second. -/

def twoProducers : Call where
  items := [⟨.proxy ⟨⟨0, "producer-a", "pages", 3⟩, 0⟩, 0, 128⟩,
    ⟨.proxy ⟨⟨1, "producer-b", "pages", 9⟩, 0⟩, 128, 256⟩]
  submits _ := true
  allocator _ := some ⟨1, 8⟩

theorem two_producers_mixed : ¬ OwnPeers twoProducers := by
  intro h
  obtain ⟨hown, -⟩ := h.own (fun _ _ => .returns) []
    [⟨0, ⟨⟨0, "producer-a", "pages", 3⟩, 0⟩, some ⟨false, 0⟩, false⟩,
      ⟨1, ⟨⟨1, "producer-b", "pages", 9⟩, 0⟩, some ⟨false, 1⟩, false⟩]
    ⟨0, true, "producer-a", [⟨false, 0⟩, ⟨false, 1⟩], ["pages", "pages"], [3, 9]⟩ (by decide)
  have hreceiver := (hown 1 _ rfl).receiverId
  revert hreceiver
  decide

end PeerReads
