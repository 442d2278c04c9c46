import LMCacheAscend.Connector.PingPong

/-!
# When the pull is in order

A call in which nothing raises scatters each proxy once and keeps its reads and
its scatters in order in every schedule of the device, if and only if its
channel submits its reads, or two micro-batches hold all its proxies, and each
micro-batch has one peer (`pulled_iff`).  A synchronous channel reads the third
micro-batch while the load stream may not have come to the first one's scatters
(`Racy`); a micro-batch of two peers is read from the first one's.
-/

namespace RemotePull

open Lib List

/-! ## The scatters of a call -/

/-- A proxy and its tokens. -/
def Scatter.range (x : Scatter) : Nat × Nat × Nat := (x.item, x.start, x.stop)

def ProxyItemOf.range (x : ProxyItem) : Nat × Nat × Nat := (x.idx, x.start, x.stop)

def scattered (p : List Command) : List (Nat × Nat × Nat) :=
  (p.filterMap scatter?).map Scatter.range

theorem scattered_snoc (p : List Command) (cmd : Command) :
    scattered (p ++ [cmd]) = scattered p ++ ((scatter? cmd).map Scatter.range).toList := by
  unfold scattered
  rw [filterMap_append, map_append]
  cases h : scatter? cmd with
  | none => rw [filterMap_cons_none h]; rfl
  | some x => rw [filterMap_cons_some h]; rfl

variable {cmd : Command} {batch : List ProxyItem} {p : List Command}

section

variable {c : Call} {env : Env}

theorem wp_emit_ok {Q : Pull → Prop} {s : Pull} (h : Q (s.push cmd)) :
    wp (emit env cmd) (post (fun _ => Q) fun _ _ => True) s :=
  wp_emit h (fun _ => trivial) fun _ => trivial

theorem scattered_other {s : Pull} {l : List (Nat × Nat × Nat)}
    (h : scattered s.trace = l) (hcmd : scatter? cmd = none) :
    scattered (s.push cmd).trace = l := by
  show scattered (s.trace ++ [cmd]) = l
  rw [scattered_snoc, hcmd, h]
  exact append_nil l

theorem wp_emit_scattered {s : Pull} (hcmd : scatter? cmd = none) :
    wp (emit env cmd) (post (fun _ s' => scattered s'.trace = scattered s.trace) fun _ _ => True)
      s :=
  wp_emit_ok (scattered_other rfl hcmd)

theorem trace_scatters (l : List Backed) (s : Pull) :
    wp (l.forM fun b =>
      emit env (.launch .load (.scatter b.item.idx b.item.start b.item.stop b.buffer)))
      (post (fun _ s' => s'.trace = s.trace ++ l.map scatterCommand) fun _ _ => True) s := by
  induction l generalizing s with
  | nil => exact (append_nil _).symm
  | cons b l ih =>
    change wp (emit env _ >>= fun _ => l.forM _) _ s
    refine wp_bind_any (wp_emit_ok (Q := fun s' => s' = s.push (scatterCommand b)) rfl)
      fun u s1 h1 => ?_
    subst h1
    refine wp_any (ih _) fun u s2 h2 => ?_
    rw [h2]
    show s.trace ++ [scatterCommand b] ++ _ = _
    rw [append_assoc]
    rfl

theorem scattered_map (p : List Command) (l : List Backed) :
    scattered (p ++ l.map scatterCommand) = scattered p ++ l.map (·.item.range) := by
  induction l generalizing p with
  | nil => rw [map_nil, map_nil, append_nil, append_nil]
  | cons b l ih =>
    rw [map_cons, append_cons, ih, scattered_snoc, append_assoc]
    rfl

theorem scattered_scatterProxyBatch (l : List Backed) (e : Option Event) (s : Pull) :
    wp (scatterProxyBatch env l e)
      (post (fun _ s' => scattered s'.trace = scattered s.trace ++ l.map (·.item.range))
        fun _ _ => True) s := by
  have hscatters : ∀ s, wp (l.forM fun b =>
      emit env (.launch .load (.scatter b.item.idx b.item.start b.item.stop b.buffer)))
      (post (fun _ s' => scattered s'.trace = scattered s.trace ++ l.map (·.item.range))
        fun _ _ => True) s := by
    intro s
    refine wp_any (trace_scatters l s) fun u s1 h1 => ?_
    rw [h1, scattered_map]
  unfold scatterProxyBatch
  cases e with
  | none => exact hscatters s
  | some e =>
    simp only [wp_bind]
    refine wp_any (wp_emit_scattered rfl) fun u s1 h1 => ?_
    rw [← h1]
    exact hscatters s1

theorem scattered_submitResolveBatch (channel : Channel) (n : Nat) (l : List Backed) (s : Pull) :
    wp (submitResolveBatch env channel n l)
      (post (fun _ s' => scattered s'.trace = scattered s.trace) fun _ _ => True) s := by
  unfold submitResolveBatch
  cases channel with
  | synchronous =>
    simp only [wp_bind]
    refine wp_any (wp_emit_scattered rfl) fun u s1 h1 => ?_
    exact h1
  | submits =>
    simp only [wp_bind]
    refine wp_any (wp_emit_scattered rfl) fun u s1 h1 => ?_
    refine wp_bind_any (wp_emit_scattered rfl) fun u s2 h2 => ?_
    exact h2.trans h1

/-- Every proxy is scattered once, in order. -/
theorem scattered_pingPong {channel : Channel} {pools : Bool → List Buffer}
    (rest : List (List ProxyItem)) :
    ∀ {n : Nat} {current : Bool} {recorded : Bool → Bool}
      {prev : Option (List Backed × Option Event)} {s : Pull},
    wp (pingPong env channel pools rest n current recorded prev)
      (post (fun _ s' => scattered s'.trace = scattered s.trace ++
        ((prev.elim [] fun x => x.1.map (·.item)) ++ rest.flatten).map (·.range))
        fun _ _ => True) s := by
  induction rest with
  | nil =>
    intro n current recorded prev s
    cases prev with
    | none => exact (append_nil _).symm
    | some x =>
      obtain ⟨b, e⟩ := x
      unfold pingPong
      refine wp_any (scattered_scatterProxyBatch b e s) fun u s1 h1 => ?_
      rw [h1, Option.elim_some, flatten_nil, append_nil, map_map]
      rfl
  | cons batch rest ih =>
    intro n current recorded prev s
    have hwait : wp (onlyIf (recorded current = true ∧ channel = .submits)
        (emit env (.wait .transport (.scatter current))))
        (post (fun _ s' => scattered s'.trace = scattered s.trace) fun _ _ => True) s := by
      unfold onlyIf
      rw [wp_ite]
      split
      · exact wp_emit_scattered rfl
      · rfl
    unfold pingPong
    refine wp_bind_any hwait fun u s1 h1 => ?_
    rw [wp_bind]
    unfold setBackingObjs
    rw [wp_ite]
    split
    case isFalse => trivial
    next hfits =>
    have hitems := map_item_zipWith hfits
    rw [wp_pure, post_ok, wp_bind]
    generalize batch.zipWith Backed.mk (pools current) = backed at hitems
    refine wp_any (scattered_submitResolveBatch channel n backed s1) fun e s2 h2 => ?_
    cases prev with
    | none =>
      refine wp_any ih fun u s3 h3 => ?_
      rw [h3, h2, h1, Option.elim_some, Option.elim_none, nil_append, flatten_cons,
        hitems]
    | some x =>
      obtain ⟨prevBatch, prevEvent⟩ := x
      simp only [wp_bind]
      refine wp_any (scattered_scatterProxyBatch prevBatch prevEvent s2) fun u s3 h3 => ?_
      refine wp_bind_any (wp_emit_scattered rfl) fun u s4 h4 => ?_
      refine wp_any ih fun u s5 h5 => ?_
      have hmap : ∀ (f : Backed → ProxyItem) (g : ProxyItem → Nat × Nat × Nat) l,
          (prevBatch.map f ++ l).map g = (prevBatch.map f).map g ++ l.map g :=
        fun _ _ _ => map_append
      rw [h5, h4, h3, h2, h1, Option.elim_some, Option.elim_some, flatten_cons, hitems,
        append_assoc, hmap, map_map]
      rfl

theorem scattered_pullProxies (s : Pull) :
    wp (pullProxies env c) (post (fun _ s' => scattered s'.trace =
      scattered s.trace ++ (proxyItems c.items).map (·.range)) fun _ _ => True) s := by
  have halloc : ∀ (pool : Bool) (count : Nat) (s : Pull),
      wp (allocateBuffers env (.call (.allocate pool)) pool count)
        (post (fun _ s' => scattered s'.trace = scattered s.trace) fun _ _ => True) s :=
    fun pool count s => wp_allocateBuffers (fun _ _ => scattered_other rfl rfl) fun _ => trivial
  unfold pullProxies
  refine wp_bind_any (halloc false _ s) fun a s1 h1 => ?_
  refine wp_bind_any (halloc true _ s1) fun b s2 h2 => ?_
  refine wp_any (scattered_pingPong _) fun u s3 h3 => ?_
  rw [h3, h2, h1, Option.elim_none, nil_append]
  unfold Call.microBatches
  rw [flatten_slices (depth_pos c)]

/-! ## The whole call -/

/-- A program that neither reads nor scatters a proxy, and raises with its commands only. -/
def Aside (c : Call) (env : Env) {α : Type} (p : PullM α) : Prop :=
  ∀ s, Core c s.trace → wp p
    (post (fun _ s' => Core c s'.trace ∧ scattered s'.trace = scattered s.trace)
      fun _ s' => Core c s'.trace ∧ ∃ q cmd, env q cmd ≠ .returns) s

theorem Aside.pure {α : Type} (a : α) : Aside c env (pure a : PullM α) := fun _ h => ⟨h, rfl⟩

theorem Aside.get : Aside c env (get : PullM Pull) := fun _ h => ⟨h, rfl⟩

theorem Aside.bind {α β : Type} {p : PullM α} {f : α → PullM β} (hp : Aside c env p)
    (hf : ∀ a, Aside c env (f a)) : Aside c env (p >>= f) := by
  intro s hs
  refine wp_bind_ok (hp s hs) fun a s1 h1 => ?_
  refine wp_ok (hf a s1 h1.1) fun b s2 h2 => ?_
  exact ⟨h2.1, h2.2.trans h1.2⟩

theorem Aside.emit (hreads : reads cmd = []) (hscatter : scatter? cmd = none) :
    Aside c env (emit env cmd) := by
  intro s hs
  have hpush := hs.other hreads hscatter
  refine wp_emit ⟨hpush, scattered_other rfl hscatter⟩ (fun hraise => ⟨hs, s.trace, cmd, ?_⟩)
    fun hraise => ⟨hpush, s.trace, cmd, ?_⟩
  all_goals
    rw [hraise]
    exact nofun

theorem Aside.onlyIf {q : Prop} [Decidable q] {p : PullM PUnit} (hp : Aside c env p) :
    Aside c env (onlyIf q p) := by
  unfold RemotePull.onlyIf
  split
  · exact hp
  · exact Aside.pure _

theorem Aside.forM {α : Type} {l : List α} {f : α → PullM PUnit}
    (hf : ∀ a, Aside c env (f a)) : Aside c env (l.forM f) := by
  induction l with
  | nil => exact Aside.pure _
  | cons a l ih => exact Aside.bind (hf a) fun _ => ih

theorem Aside.sendDoneNow (ctx : Nat) :
    Aside c env (sendDoneNow (fun ctx => .call (.done ctx)) ctx) :=
  Aside.bind Aside.get fun _ => Aside.onlyIf fun _ hs =>
    ⟨hs.other rfl rfl, scattered_other rfl rfl⟩

theorem Aside.cleanUp : Aside c env (cleanUp env c) :=
  Aside.bind (Aside.emit rfl rfl) fun _ =>
    Aside.bind (Aside.bind Aside.get fun _ => Aside.onlyIf (Aside.emit rfl rfl)) fun _ =>
      Aside.bind (Aside.bind Aside.get fun _ => Aside.onlyIf (Aside.emit rfl rfl)) fun _ =>
        Aside.bind (fun _ hs => ⟨hs, rfl⟩) fun _ => Aside.forM Aside.sendDoneNow

theorem wp_caught {p : PullM PUnit} {Q : Except Raised (Option Raised) → Pull → Prop} {s : Pull} :
    wp (caught p) Q s ↔
      wp p (post (fun _ => Q (.ok none)) fun e => Q (.ok (some e))) s := by
  unfold caught
  rw [wp_tryCatch, wp_bind]
  constructor
  all_goals
    intro h
    refine wp_ok h fun u s' hs' => ?_
    exact hs'

/-- A call that returns has scattered each proxy once, and one that raises has raised with a
command; the reads and the scatters are in order either way. -/
theorem wp_remoteBatchedToGpu (done : List Nat) :
    wp (remoteBatchedToGpu env c)
      (post (fun _ s' => Core c s'.trace ∧
          scattered s'.trace = (proxyItems c.items).map (·.range))
        fun _ s' => Core c s'.trace ∧ ∃ q cmd, env q cmd ≠ .returns) (PullOf.init done) := by
  have hplain : Aside c env ((c.items.filterMap Item.plain?).forM fun e =>
      emit env (.launch .load (.scatterPlain e.1 e.2.1 e.2.2))) :=
    Aside.forM fun e => Aside.emit rfl rfl
  have hcore : Core c (PullOf.init done).trace := (top_nil c).core
  unfold remoteBatchedToGpu
  rw [wp_bind]
  have hpull : wp (onlyIf (proxyItems c.items ≠ []) (do
      let raised ← caught (pullProxies env c)
      cleanUp env c
      reraise raised))
      (post (fun _ s' => Core c s'.trace ∧
          scattered s'.trace = (proxyItems c.items).map (·.range))
        fun _ s' => Core c s'.trace ∧ ∃ q cmd, env q cmd ≠ .returns) (PullOf.init done) := by
    unfold onlyIf
    rw [wp_ite]
    split
    · rw [wp_bind, wp_caught]
      have hboth : wp (pullProxies env c) (fun r s' =>
          post (fun _ s' => Core c s'.trace ∧ Waited s'.trace []) (fun _ s' => Err c env s'.trace)
            r s' ∧
          post (fun _ s' => scattered s'.trace =
            scattered (PullOf.init done).trace ++ (proxyItems c.items).map (·.range))
            (fun _ _ => True) r s') (PullOf.init done) :=
        ⟨wp_pullProxies (top_nil c), scattered_pullProxies _⟩
      refine wp_mono hboth ?_
      rintro (e | u) s1 h1
      · rw [post_error, post_ok]
        refine wp_bind_ok (Aside.cleanUp s1 h1.1.core) fun u s2 h2 => ?_
        exact ⟨h2.1, h1.1.raises⟩
      · rw [post_ok, post_ok]
        refine wp_bind_ok (Aside.cleanUp s1 h1.1.1) fun u s2 h2 => ?_
        exact ⟨h2.1, h2.2.trans h1.2⟩
    · next hnil =>
      refine ⟨hcore, ?_⟩
      rw [not_not.1 hnil]
      rfl
  refine wp_ok hpull fun u s1 h1 => ?_
  refine wp_ok (hplain s1 h1.1) fun u s2 h2 => ?_
  exact ⟨h2.1, h2.2.trans h1.2⟩

end

/-! ## The commands of a call -/

/-- The commands of the `try` block. -/
inductive Pipelined (c : Call) : Command → Prop
  | allocate (pool : Bool) : Pipelined c (.call (.allocate pool))
  | awaitPool (pool : Bool) : c.channel = .submits →
      Pipelined c (.wait .transport (.scatter pool))
  | read (batch : List ProxyItem) (backed : List Backed) : batch ∈ c.microBatches →
      backed.map (·.item) = batch →
      Pipelined c (readCommand c.channel (collectBatchReadArgs backed))
  | recordRead (n : Nat) : c.channel = .submits → Pipelined c (.record (.read n) .transport)
  | awaitRead (e : Event) : c.channel = .submits → Pipelined c (.wait .load e)
  | scatter (b : Backed) : Pipelined c (scatterCommand b)
  | recordScatter (pool : Bool) : Pipelined c (.record (.scatter pool) .load)

/-- The commands of the clean-up, and the scatters of the ordinary objects. -/
inductive Closing : Command → Prop
  | sync : Closing (.sync .load)
  | release (pool : Bool) : Closing (.call (.release pool))
  | done (ctx : Nat) : Closing (.call (.done ctx))
  | plain (id start stop : Nat) : Closing (.launch .load (.scatterPlain id start stop))

/-- What is issued from the one state to the other meets `K`. -/
def Issues (K : Command → Prop) (s s' : Pull) : Prop :=
  ∃ more, s'.trace = s.trace ++ more ∧ ∀ cmd ∈ more, K cmd

/-- `R` holds along the commands that meet `K`. -/
structure Pushes (K : Command → Prop) (R : Pull → Pull → Prop) : Prop where
  push : ∀ s cmd, K cmd → R s (s.push cmd)

section

variable {c : Call} {env : Env} {K : Command → Prop} {R : Pull → Pull → Prop}

instance : IsPreorder Pull (Issues K) where
  refl s := grown_refl s.trace
  trans _ _ _ := grown_trans

theorem pushes_issues (K : Command → Prop) : Pushes K (Issues K) where
  push _ cmd h := ⟨[cmd], rfl, fun _ hd => mem_singleton.1 hd ▸ h⟩

theorem issues_pools (K : Command → Prop) (s : Pull) (f : Bool → Option (List Buffer)) :
    Issues K s { s with pools := f } :=
  ⟨[], (append_nil _).symm, fun _ h => nomatch h⟩

variable [IsPreorder Pull R]

theorem Pushes.emit (hR : Pushes K R) (h : K cmd) :
    Preserves R (emit env cmd) := fun s =>
  wp_emit (hR.push s cmd h) (fun _ => refl_of R s) fun _ => hR.push s cmd h

theorem Pushes.scatterProxyBatch (hR : Pushes (Pipelined c) R) (l : List Backed)
    {e : Option Event} (he : ∀ f, e = some f → c.channel = .submits) :
    Preserves R (scatterProxyBatch env l e) := by
  have hscatters : Preserves R (l.forM fun b =>
      RemotePull.emit env
        (.launch .load (.scatter b.item.idx b.item.start b.item.stop b.buffer))) :=
    Preserves.forM fun b _ => hR.emit (.scatter b)
  unfold RemotePull.scatterProxyBatch
  cases e with
  | none => exact hscatters
  | some f => exact .bind (hR.emit (.awaitRead f (he f rfl))) fun _ => hscatters

theorem Pushes.submitResolveBatch (hR : Pushes (Pipelined c) R) {n : Nat}
    {backed : List Backed} (hbatch : batch ∈ c.microBatches)
    (hitems : backed.map (·.item) = batch) :
    Preserves R (submitResolveBatch env c.channel n backed) := by
  have hread := Pipelined.read batch backed hbatch hitems
  unfold RemotePull.submitResolveBatch
  cases hchannel : c.channel with
  | synchronous =>
    rw [hchannel] at hread
    exact .bind (hR.emit hread) fun _ => .pure _
  | submits =>
    rw [hchannel] at hread
    exact .bind (hR.emit hread) fun _ =>
      .bind (hR.emit (.recordRead n hchannel)) fun _ => .pure _

theorem wp_submitResolveBatch_event {n : Nat} {backed : List Backed} (s : Pull) :
    wp (submitResolveBatch env c.channel n backed)
      (post (fun e _ => e = eventOf c.channel n) fun _ _ => True) s := by
  unfold submitResolveBatch
  cases c.channel with
  | synchronous =>
    simp only [wp_bind]
    refine wp_any (wp_emit_ok (Q := fun _ => True) trivial) fun u s1 _ => ?_
    rfl
  | submits =>
    simp only [wp_bind]
    refine wp_any (wp_emit_ok (Q := fun _ => True) trivial) fun u s1 _ => ?_
    refine wp_bind_any (wp_emit_ok (Q := fun _ => True) trivial) fun u s2 _ => ?_
    rfl

theorem eventOf_submits {n : Nat} :
    ∀ f, eventOf c.channel n = some f → c.channel = .submits := by
  intro f h
  cases hchannel : c.channel with
  | submits => rfl
  | synchronous =>
    rw [hchannel] at h
    cases h

/-- The loop keeps what each of its pushes keeps. -/
theorem Pushes.pingPong (hR : Pushes (Pipelined c) R) {pools : Bool → List Buffer}
    (rest : List (List ProxyItem)) :
    ∀ {n : Nat} {current : Bool} {recorded : Bool → Bool}
      {prev : Option (List Backed × Option Event)}, (∀ batch ∈ rest, batch ∈ c.microBatches) →
    (∀ b f, prev = some (b, some f) → c.channel = .submits) →
    Preserves R (pingPong env c.channel pools rest n current recorded prev) := by
  induction rest with
  | nil =>
    intro n current recorded prev _ hprev
    cases prev with
    | none => exact .pure _
    | some x =>
      obtain ⟨b, e⟩ := x
      unfold RemotePull.pingPong
      exact hR.scatterProxyBatch b fun f hf => hprev b f (by rw [hf])
  | cons batch rest ih =>
    intro n current recorded prev hrest hprev s
    have hlater : ∀ batch' ∈ rest, batch' ∈ c.microBatches :=
      fun b hb => hrest b (mem_cons_of_mem _ hb)
    unfold RemotePull.pingPong
    refine wp_bind_of (preserves_onlyIf (fun h => hR.emit (.awaitPool current h.2)) s)
      (fun _ _ h => h) fun u s1 h1 => ?_
    rw [wp_bind]
    unfold setBackingObjs
    rw [wp_ite]
    split
    case isFalse => exact h1
    next hfits =>
    have hitems := map_item_zipWith hfits
    rw [wp_pure, post_ok, wp_bind]
    generalize batch.zipWith Backed.mk (pools current) = backed at hitems
    have hsubmit : wp (RemotePull.submitResolveBatch env c.channel n backed) (fun r s' =>
        R s1 s' ∧ post (fun e _ => e = eventOf c.channel n) (fun _ _ => True) r s') s1 :=
      ⟨hR.submitResolveBatch (hrest batch mem_cons_self) hitems s1,
        wp_submitResolveBatch_event s1⟩
    refine wp_cases hsubmit (fun _ _ h2 => trans_of R h1 h2.1) ?_
    rintro e s2 ⟨h2, he⟩
    rw [post_ok] at he
    subst he
    have hnext : ∀ b f, some (backed, eventOf c.channel n) = some (b, some f) →
        c.channel = .submits := by
      intro b f heq
      injection heq with heq
      injection heq with _ heq
      exact eventOf_submits f heq
    have h12 := trans_of R h1 h2
    rw [post_ok]
    cases prev with
    | none => exact wp_mono (ih hlater hnext s2) fun _ _ h3 => trans_of R h12 h3
    | some x =>
      obtain ⟨prevBatch, prevEvent⟩ := x
      have hturn : Preserves R (do
          RemotePull.scatterProxyBatch env prevBatch prevEvent
          RemotePull.emit env (.record (.scatter !current) .load)
          RemotePull.pingPong env c.channel pools rest (n + 1) (!current)
            (fun b => if b = !current then true else recorded b)
            (some (backed, eventOf c.channel n))) :=
        .bind (hR.scatterProxyBatch prevBatch fun f hf => hprev prevBatch f (by rw [hf]))
          fun _ => .bind (hR.emit (.recordScatter _)) fun _ => ih hlater hnext
      exact wp_mono (hturn s2) fun _ _ h3 => trans_of R h12 h3

theorem Pushes.pullProxies (hR : Pushes (Pipelined c) R)
    (hpools : ∀ s f, R s { s with pools := f }) : Preserves R (pullProxies env c) := by
  have halloc : ∀ pool count,
      Preserves R (allocateBuffers env (.call (.allocate pool)) pool count) :=
    fun pool count s => wp_allocateBuffers
      (fun _ _ => trans_of R (hR.push s _ (.allocate pool)) (hpools _ _)) fun _ => refl_of R s
  exact .bind (halloc false _) fun a => .bind (halloc true _) fun b =>
    hR.pingPong _ (fun batch hb => hb) fun b f h => nomatch h

theorem issues_cleanUp : Preserves (Issues Closing) (cleanUp env c) := by
  have hR := pushes_issues Closing
  have hrelease : ∀ pool, Preserves (Issues Closing)
      (releasePool env (.call (.release pool)) pool) := fun pool =>
    .bind (.get) fun _ => preserves_onlyIf fun _ => hR.emit (.release pool)
  have hdone : ∀ ctx, Preserves (Issues Closing)
      (sendDoneNow (fun ctx => .call (.done ctx)) ctx) := fun ctx =>
    .bind (.get) fun _ => preserves_onlyIf fun _ => .modify fun s => hR.push s _ (.done ctx)
  exact .bind (hR.emit .sync) fun _ => .bind (hrelease false) fun _ =>
    .bind (hrelease true) fun _ => .bind (.modify fun s => refl_of (Issues Closing) s) fun _ =>
      Preserves.forM fun ctx _ => hdone ctx

theorem issues_plain (l : List (Nat × Nat × Nat)) : Preserves (Issues Closing)
    (l.forM fun e => emit env (.launch .load (.scatterPlain e.1 e.2.1 e.2.2))) :=
  Preserves.forM fun _ _ => (pushes_issues Closing).emit (.plain _ _ _)

/-- The commands of a call: those of the pipeline, then those of the clean-up; what holds of the
first when the `try` block returns. -/
theorem issues_remoteBatchedToGpu {P : List Command → Prop} (done : List Nat)
    (hP : wp (pullProxies env c) (post (fun _ s' => P s'.trace) fun _ _ => True)
      (PullOf.init done)) :
    wp (remoteBatchedToGpu env c) (post (fun _ s' => ∃ q r, s'.trace = q ++ r ∧
      (∀ cmd ∈ q, Pipelined c cmd) ∧ (∀ cmd ∈ r, Closing cmd) ∧ (proxyItems c.items ≠ [] → P q))
      fun _ _ => True) (PullOf.init done) := by
  have hpull : wp (onlyIf (proxyItems c.items ≠ []) (do
      let raised ← caught (pullProxies env c)
      cleanUp env c
      reraise raised)) (post (fun _ s' => ∃ q r, s'.trace = q ++ r ∧
        (∀ cmd ∈ q, Pipelined c cmd) ∧ (∀ cmd ∈ r, Closing cmd) ∧
        (proxyItems c.items ≠ [] → P q)) fun _ _ => True) (PullOf.init done) := by
    unfold onlyIf
    rw [wp_ite]
    split
    · rw [wp_bind, wp_caught]
      have hboth : wp (pullProxies env c) (fun r s' =>
          Issues (Pipelined c) (PullOf.init done) s' ∧
            post (fun _ s' => P s'.trace) (fun _ _ => True) r s') (PullOf.init done) :=
        ⟨(pushes_issues _).pullProxies (issues_pools _) _, hP⟩
      refine wp_mono hboth ?_
      rintro (e | u) s1 ⟨⟨q, hq, hqK⟩, hPq⟩
      · rw [post_error, post_ok, wp_bind]
        refine wp_of_forall ?_
        rintro (e' | u) s2 <;> trivial
      · rw [post_ok, post_ok, wp_bind]
        rw [post_ok] at hPq
        refine wp_cases (issues_cleanUp s1) (fun _ _ _ => trivial) fun u s2 ⟨r, hr, hrK⟩ => ?_
        have hq1 : s1.trace = q := hq
        rw [hq1] at hPq hr
        exact ⟨q, r, hr, hqK, hrK, fun _ => hPq⟩
    · next hnil =>
      exact ⟨[], [], rfl, fun cmd h => (nomatch h), fun cmd h => (nomatch h),
        fun h => absurd h hnil⟩
  unfold remoteBatchedToGpu
  refine wp_bind_any hpull fun u s1 h1 => ?_
  obtain ⟨q, r, h1, hq, hr, hPq⟩ := h1
  refine wp_cases (issues_plain _ s1) (fun _ _ _ => trivial) fun u s2 ⟨m, hm, hmK⟩ => ?_
  refine ⟨q, r ++ m, by rw [hm, h1, append_assoc], hq, fun cmd hcmd => ?_, hPq⟩
  rcases mem_append.1 hcmd with h | h
  · exact hr cmd h
  · exact hmK cmd h

theorem Pipelined.not_wait (h : Pipelined c cmd)
    (hchannel : c.channel = .synchronous) (t : Stream) (e : Event) : cmd ≠ .wait t e := by
  intro heq
  cases h with
  | awaitPool _ hsubmits | awaitRead _ hsubmits =>
    rw [hchannel] at hsubmits
    cases hsubmits
  | read batch backed _ _ =>
    rw [hchannel] at heq
    cases heq
  | _ => cases heq

theorem Pipelined.not_sync (h : Pipelined c cmd) (t : Stream) :
    cmd ≠ .sync t := by
  intro heq
  cases h with
  | read batch backed _ _ =>
    cases hchannel : c.channel <;> rw [hchannel] at heq <;> cases heq
  | _ => cases heq

theorem reads_closing (h : Closing cmd) : reads cmd = [] := by
  cases h <;> rfl

theorem reads_pipelined (h : Pipelined c cmd) {t : Transfer}
    (ht : t ∈ reads cmd) : ∃ batch ∈ c.microBatches, ∃ first ∈ batch, ∃ x ∈ batch,
      t.item = x.idx ∧ t.receiverId = first.proxy.targetPeerUrl ∧ batch.head? = some first := by
  cases h with
  | read batch backed hbatch hitems =>
    rw [reads_readCommand] at ht
    cases backed with
    | nil => cases ht
    | cons first backed =>
      obtain ⟨b, hb, rfl⟩ := mem_map.1 ht
      subst hitems
      exact ⟨_, hbatch, first.item, mem_cons_self, b.item, mem_map.2 ⟨b, hb, rfl⟩, rfl,
        rfl, rfl⟩
  | _ => cases ht

end

/-! ## Two micro-batches of one pool without a wait in between -/

/-- A buffer is scattered from and later read into. -/
def Reused (p : List Command) : Prop :=
  ∃ i j x t, i < j ∧ ScatterAt p i x ∧ ReadAt p j t ∧ t.buffer = x.buffer

/-- A pool's first buffer has been scattered from. -/
def ScatteredFrom (p : List Command) (pool : Bool) : Prop :=
  ∃ i x, ScatterAt p i x ∧ x.buffer = ⟨pool, 0⟩

section

variable {c : Call} {env : Env}

theorem ScatterAt.append {i : Nat} {x : Scatter} (h : ScatterAt p i x)
    (r : List Command) : ScatterAt (p ++ r) i x := by
  obtain ⟨cmd, hcmd, hx⟩ := h
  exact ⟨cmd, by rw [getElem?_append_left (lt_of_getElem? hcmd), hcmd], hx⟩

theorem Reused.append (h : Reused p) (r : List Command) : Reused (p ++ r) := by
  obtain ⟨i, j, x, t, hij, hx, ht, hbuf⟩ := h
  exact ⟨i, j, x, t, hij, hx.append r, ht.append r, hbuf⟩

theorem ScatteredFrom.reused {pool : Bool} (h : ScatteredFrom p pool)
    {t : Transfer} (ht : t ∈ reads cmd) (hbuf : t.buffer = ⟨pool, 0⟩) :
    Reused (p ++ [cmd]) := by
  obtain ⟨i, x, hx, hxbuf⟩ := h
  exact ⟨i, p.length, x, t, hx.lt, hx.append [cmd], readAt_snoc.2 (.inr ⟨rfl, ht⟩),
    hbuf.trans hxbuf.symm⟩

variable {rest : List (List ProxyItem)}

/-- A turn with a synchronous channel: the read of its batch, and the scatters of the one
before. -/
theorem wp_turn {size n : Nat}
    {current : Bool} {recorded : Bool → Bool} (prev : Option (List Backed)) {s : Pull}
    {Q : Pull → Prop} (h : ∀ (s' : Pull) (recorded' : Bool → Bool) (more : List Command),
      s'.trace = s.trace ++ [.call (.read (collectBatchReadArgs
        (batch.zipWith Backed.mk (bufferPool size current))))] ++
          (prev.elim [] fun b => b.map scatterCommand) ++ more →
      wp (pingPong env .synchronous (bufferPool size) rest (n + 1) (!current) recorded'
        (some (batch.zipWith Backed.mk (bufferPool size current), none)))
        (post (fun _ => Q) fun _ _ => True) s') :
    wp (pingPong env .synchronous (bufferPool size) (batch :: rest) n current recorded
      (prev.map fun b => (b, none))) (post (fun _ => Q) fun _ _ => True) s := by
  unfold pingPong
  rw [wp_bind]
  unfold onlyIf
  rw [if_neg (by rintro ⟨_, h⟩; cases h), wp_pure, post_ok, wp_bind]
  unfold setBackingObjs
  rw [wp_ite]
  split
  case isFalse => trivial
  rw [wp_pure, post_ok]
  unfold submitResolveBatch
  simp only [wp_bind]
  generalize batch.zipWith Backed.mk (bufferPool size current) = backed at h ⊢
  refine wp_cases (wp_emit_ok (Q := fun s' => s' = s.push (.call (.read
    (collectBatchReadArgs backed)))) rfl)
    (fun _ _ _ => trivial) ?_
  rintro u s1 h1
  rw [post_ok] at h1 ⊢
  subst h1
  rw [wp_pure, post_ok]
  cases prev with
  | none =>
    refine h _ recorded [] ?_
    rw [Option.elim_none, append_nil, append_nil]
    rfl
  | some b =>
    simp only [Option.map_some, wp_bind]
    unfold scatterProxyBatch
    refine wp_any (trace_scatters b _) fun u s2 h2 => ?_
    refine wp_bind_of (wp_emit_ok (Q := fun s' => s' = s2.push (.record (.scatter !current) .load))
      rfl)
      (fun _ _ _ => trivial) ?_
    rintro u s3 h3
    rw [post_ok] at h3
    subst h3
    refine h _ _ [.record (.scatter !current) .load] ?_
    show s2.trace ++ _ = _
    rw [h2]
    rfl

theorem exists_first {size : Nat} (hne : batch ≠ []) (hsize : batch.length ≤ size) (pool : Bool) :
    ∃ b ∈ batch.zipWith Backed.mk (bufferPool size pool), b.buffer = ⟨pool, 0⟩ := by
  cases batch with
  | nil => exact absurd rfl hne
  | cons x batch =>
    cases size with
    | zero => cases hsize
    | succ size =>
      refine ⟨⟨x, ⟨pool, 0⟩⟩, ?_, rfl⟩
      unfold bufferPool
      rw [range_succ_eq_map, map_cons, zipWith_cons_cons]
      exact mem_cons_self

variable {size n : Nat} {current : Bool} {recorded : Bool → Bool} {s : Pull}

theorem reused_turn (prev : Option (List Backed)) (hchannel : c.channel = .synchronous)
    (hrest : ∀ b ∈ rest, b ∈ c.microBatches) (hne : batch ≠ []) (hsize : batch.length ≤ size)
    (hs : ScatteredFrom s.trace current) :
    wp (pingPong env .synchronous (bufferPool size) (batch :: rest) n current recorded
      (prev.map fun b => (b, none))) (post (fun _ s' => Reused s'.trace) fun _ _ => True) s := by
  obtain ⟨b, hb, hbuf⟩ := exists_first hne hsize current
  obtain ⟨t, ht, htbuf, _⟩ := exists_transfer hb
  refine wp_turn prev fun s1 recorded' more h1 => ?_
  have hreused : Reused s1.trace := by
    rw [h1, append_assoc, append_assoc, ← append_assoc s.trace]
    exact (hs.reused ht (htbuf.trans hbuf)).append _
  have hissues : Preserves (Issues (Pipelined c)) (pingPong env c.channel (bufferPool size) rest
      (n + 1) (!current) recorded'
      (some (batch.zipWith Backed.mk (bufferPool size current), none))) :=
    (pushes_issues _).pingPong rest hrest fun b f h => nomatch h
  rw [hchannel] at hissues
  refine wp_cases (hissues s1) (fun _ _ _ => trivial) fun u s2 ⟨m, hm, _⟩ => ?_
  rw [post_ok, hm]
  exact hreused.append m

/-- Three micro-batches: the first one's scatters come before the third one's read, into the same
buffers. -/
theorem reused_pingPong {b0 b1 b2 : List ProxyItem}
    (hchannel : c.channel = .synchronous) (hrest : ∀ b ∈ rest, b ∈ c.microBatches)
    (h0 : b0 ≠ []) (h0s : b0.length ≤ size) (h2 : b2 ≠ []) (h2s : b2.length ≤ size) :
    wp (pingPong env .synchronous (bufferPool size) (b0 :: b1 :: b2 :: rest) n current recorded
      none) (post (fun _ s' => Reused s'.trace) fun _ _ => True) s := by
  obtain ⟨b, hb, hbuf⟩ := exists_first h0 h0s current
  refine wp_turn none fun s1 recorded1 more1 _ => ?_
  refine wp_turn (some _) fun s2 recorded2 more2 h2t => ?_
  refine reused_turn (some _) hchannel hrest h2 h2s ?_
  have hmem : scatterCommand b ∈ s2.trace := by
    rw [h2t]
    refine mem_append_left _ (mem_append_right _ ?_)
    exact mem_map.2 ⟨b, hb, rfl⟩
  obtain ⟨i, hi⟩ := mem_iff_getElem?.1 hmem
  refine ⟨i, _, ⟨_, hi, rfl⟩, ?_⟩
  rw [Bool.not_not]
  exact hbuf

theorem reused_pullProxies (hchannel : c.channel = .synchronous)
    (hlen : 2 < c.microBatches.length) :
    wp (pullProxies env c) (post (fun _ s' => Reused s'.trace) fun _ _ => True) s := by
  have hbatch : ∀ batch ∈ c.microBatches, batch ≠ [] ∧
      batch.length ≤ min c.depth (proxyItems c.items).length :=
    fun batch hb => ⟨ne_nil_of_mem_slices hb, (mem_microBatches hb).1⟩
  have halloc : ∀ (pool : Bool) (count : Nat) (s : Pull),
      wp (allocateBuffers env (.call (.allocate pool)) pool count)
        (post (fun buffers _ => buffers = bufferPool count pool) fun _ _ => True) s :=
    fun pool count s => wp_allocateBuffers (fun _ _ => rfl) fun _ => trivial
  unfold pullProxies
  refine wp_bind_any (halloc false _ s) fun a s1 h1 => ?_
  subst h1
  refine wp_bind_any (halloc true _ s1) fun a s2 h2 => ?_
  subst h2
  rw [ite_bufferPool, hchannel]
  match hmb : c.microBatches, hlen with
  | b0 :: b1 :: b2 :: rest, _ =>
    have hin : ∀ b, b ∈ b0 :: b1 :: b2 :: rest → b ∈ c.microBatches := by
      intro b hb
      rw [hmb]
      exact hb
    have hb0 := hbatch b0 (hin b0 (by simp))
    have hb2 := hbatch b2 (hin b2 (by simp))
    exact reused_pingPong hchannel (fun b hb => hin b (by simp [hb])) hb0.1 hb0.2 hb2.1 hb2.2

end

/-! ## When the call is in order -/

/-- Nothing raises. -/
def quiet : Env := fun _ _ => .returns

theorem proxyItems_idx {items : List (Item Proxy)} {x y : ProxyItem} (hx : x ∈ proxyItems items)
    (hy : y ∈ proxyItems items) (h : x.idx = y.idx) : x = y := by
  unfold proxyItems at hx hy
  obtain ⟨n, hn⟩ := mem_iff_getElem?.1 hx
  obtain ⟨m, hm⟩ := mem_iff_getElem?.1 hy
  rw [getElem?_mapIdx] at hn hm
  obtain ⟨a, ha, rfl⟩ := Option.map_eq_some_iff.1 hn
  obtain ⟨b, hb, rfl⟩ := Option.map_eq_some_iff.1 hm
  have hnm : n = m := h
  subst hnm
  cases ha.symm.trans hb
  rfl

theorem nodup_proxyItems (items : List (Item Proxy)) : (proxyItems items).Nodup := by
  rw [nodup_iff_getElem?_ne_getElem?]
  intro n m hnm hm heq
  unfold proxyItems at hm heq
  rw [length_mapIdx] at hm
  rw [getElem?_mapIdx, getElem?_mapIdx, getElem?_eq_getElem (by omega),
    getElem?_eq_getElem hm] at heq
  injection heq with heq
  injection heq with hidx
  omega

section

variable {c : Call}

theorem pulled_of_ordered (ho : Ordered c) (hcore : Core c p)
    (hscattered : scattered p = (proxyItems c.items).map (·.range)) : Pulled c p where
  once := hscattered
  own S _ _ hx := (hcore.sound ho).own S hx
  reuse S _ _ _ _ hij hx ht hbuf := (hcore.sound ho).reuse S hij hx ht hbuf

variable {q r : List Command}

/-- A micro-batch of two peers reads from the wrong one. -/
theorem samePeer_of_pulled (h : Pulled c (q ++ r))
    (hq : ∀ cmd ∈ q, Pipelined c cmd) (hr : ∀ cmd ∈ r, Closing cmd)
    (hbatch : batch ∈ c.microBatches) : SamePeer batch := by
  have hfirst : ∀ first, batch.head? = some first → ∀ z ∈ batch,
      z.proxy.targetPeerUrl = first.proxy.targetPeerUrl := by
    intro first hhead z hz
    have hzmem := (mem_microBatches hbatch).2 z hz
    have hrange : z.range ∈ scattered (q ++ r) := by
      have honce : scattered (q ++ r) = (proxyItems c.items).map (·.range) := h.once
      rw [honce]
      exact mem_map.2 ⟨z, hzmem, rfl⟩
    obtain ⟨x, hx, hxr⟩ := mem_map.1 hrange
    have hxitem : x.item = z.idx := congrArg Prod.fst hxr
    obtain ⟨cmd, hcmd, hsc⟩ := mem_filterMap.1 hx
    obtain ⟨i, hi⟩ := mem_iff_getElem?.1 hcmd
    -- any schedule shows the read that the scatter takes
    let S := Schedule.delay (q ++ r) Stream.load 0 0 (fun _ _ _ _ _ _ h => by omega)
      (fun _ _ h => by omega)
    obtain ⟨j, t, y, ⟨d, hd, ht⟩, hy, hyx, hof, _⟩ := h.own S i x ⟨cmd, hi, hsc⟩
    have hyz : y = z := proxyItems_idx hy hzmem (hyx.trans hxitem)
    subst hyz
    have hdmem := mem_of_getElem? hd
    rcases mem_append.1 hdmem with hdq | hdr
    · obtain ⟨batch', hbatch', first', _, w, hw, hitem, hpeer, hhead'⟩ :=
        reads_pipelined (hq d hdq) ht
      have hwy : w = y := proxyItems_idx ((mem_microBatches hbatch').2 w hw) hy
        (hitem.symm.trans hof.item)
      subst hwy
      have hsame : batch' = batch :=
        slice_unique (depth_pos c) (nodup_proxyItems c.items) hbatch' hbatch hw hz
      subst hsame
      cases hhead.symm.trans hhead'
      rw [← hof.receiverId, hpeer]
    · rw [reads_closing (hr d hdr)] at ht
      cases ht
  intro x hx y hy
  cases hb : batch with
  | nil =>
    rw [hb] at hx
    cases hx
  | cons first rest =>
    have hhead : batch.head? = some first := by rw [hb]; rfl
    rw [hfirst first hhead x hx, hfirst first hhead y hy]

/-- With a synchronous channel the load stream may be late for all of the pipeline. -/
theorem not_pulled_of_reused (hchannel : c.channel = .synchronous)
    (hq : ∀ cmd ∈ q, Pipelined c cmd) (hreused : Reused q) : ¬ Pulled c (q ++ r) := by
  intro h
  obtain ⟨i, j, x, t, hij, hx, ht, hbuf⟩ := hreused
  have hget : ∀ {n cmd}, n < q.length → (q ++ r)[n]? = some cmd → Pipelined c cmd := by
    intro n cmd hn hcmd
    rw [getElem?_append_left hn] at hcmd
    exact hq cmd (mem_of_getElem? hcmd)
  let S := Schedule.delay (q ++ r) Stream.load i q.length
    (fun _ n e u _ _ hn _ hcmd => (hget hn hcmd).not_wait hchannel u e rfl)
    fun n _ hn hcmd => (hget hn hcmd).not_sync .load rfl
  have hle : S.finish i ≤ S.start j := h.reuse S i x j t hij (hx.append r) (ht.append r) hbuf
  have hqueued : Queued (q ++ r) Stream.load i := by
    obtain ⟨cmd, hcmd, hsc⟩ := hx.append r
    have hp := hget hx.lt hcmd
    cases hp with
    | scatter b => exact ⟨_, hcmd, rfl⟩
    | read batch backed _ _ =>
      rw [scatter?_readCommand] at hsc
      cases hsc
    | _ => cases hsc
  have hread : ((q ++ r)[j]?.bind Cmd.stream) ≠ some Stream.load := by
    obtain ⟨cmd, hcmd, htr⟩ := ht.append r
    have hp := hget ht.lt hcmd
    rw [hcmd]
    cases hp with
    | read batch backed _ _ =>
      rw [hchannel]
      exact nofun
    | _ => cases htr
  have hlt := Schedule.late_lt hqueued (Nat.le_refl i) hx.lt ht.lt hread
  exact absurd hle (Nat.not_le_of_lt hlt)

theorem ordered_of_pulled (h : Pulled c (q ++ r))
    (hq : ∀ cmd ∈ q, Pipelined c cmd) (hr : ∀ cmd ∈ r, Closing cmd)
    (hreused : c.channel = .synchronous → 2 < c.microBatches.length → Reused q) : Ordered c := by
  refine ⟨?_, fun batch hbatch => samePeer_of_pulled h hq hr hbatch⟩
  cases hchannel : c.channel with
  | submits => exact .inl rfl
  | synchronous =>
    refine .inr (Nat.le_of_not_lt fun hlen => ?_)
    exact not_pulled_of_reused hchannel hq (hreused hchannel hlen) h

theorem quiet_run (c : Call) (done : List Nat) :
    ∃ s q r, remoteBatchedToGpu quiet c (PullOf.init done) = (.ok ⟨⟩, s) ∧ s.trace = q ++ r ∧
      (∀ cmd ∈ q, Pipelined c cmd) ∧ (∀ cmd ∈ r, Closing cmd) ∧
      (c.channel = .synchronous → 2 < c.microBatches.length → Reused q) ∧ Core c s.trace ∧
      scattered s.trace = (proxyItems c.items).map (·.range) := by
  have hcore : wp (remoteBatchedToGpu quiet c) _ (PullOf.init done) := wp_remoteBatchedToGpu done
  have hpull : wp (pullProxies quiet c) (post (fun _ s' => c.channel = .synchronous →
      2 < c.microBatches.length → Reused s'.trace) fun _ _ => True) (PullOf.init done) := by
    by_cases hcase : c.channel = .synchronous ∧ 2 < c.microBatches.length
    · refine wp_any (reused_pullProxies hcase.1 hcase.2) fun u s1 h1 => ?_
      exact fun _ _ => h1
    refine wp_of_forall ?_
    rintro (e | u) s1
    · trivial
    · exact fun h1 h2 => absurd ⟨h1, h2⟩ hcase
  have hissues := issues_remoteBatchedToGpu (P := fun q =>
    c.channel = .synchronous → 2 < c.microBatches.length → Reused q) done hpull
  unfold wp at hcore hissues
  rcases hrun : remoteBatchedToGpu quiet c (PullOf.init done) with ⟨_ | u, s⟩
  · rw [hrun] at hcore
    obtain ⟨_, q, cmd, hraise⟩ := hcore
    exact absurd rfl hraise
  rw [hrun] at hcore hissues
  obtain ⟨q, r, htrace, hq, hr, hreused⟩ := hissues
  refine ⟨s, q, r, rfl, htrace, hq, hr, fun hchannel hlen => hreused ?_ hchannel hlen, hcore⟩
  intro hnil
  unfold Call.microBatches at hlen
  rw [hnil, slices_nil] at hlen
  cases hlen

/-- Nothing raises in a quiet call; its pull is in order, in every schedule of the device, if and
only if the call is ordered. -/
theorem pulled_iff (c : Call) (done : List Nat) :
    ∃ s, remoteBatchedToGpu quiet c (PullOf.init done) = (.ok ⟨⟩, s) ∧
      (Pulled c s.trace ↔ Ordered c) := by
  obtain ⟨s, q, r, hrun, htrace, hq, hr, hreused, hcore, hscattered⟩ := quiet_run c done
  refine ⟨s, hrun, fun h => ?_, fun ho => pulled_of_ordered ho hcore hscattered⟩
  rw [htrace] at h
  exact ordered_of_pulled h hq hr hreused

/-- Three proxies of one peer with pools of one buffer, on a channel without
`submit_batched_read`. -/
def threeProxies : Call :=
  { items := [⟨.proxy ⟨0, "peer", "uuid", 0⟩, 0, 16⟩, ⟨.proxy ⟨0, "peer", "uuid", 1⟩, 16, 32⟩,
      ⟨.proxy ⟨0, "peer", "uuid", 2⟩, 32, 48⟩]
    channel := .synchronous
    allocator := ⟨1, 2⟩ }

/-- The third read may overtake the first scatter, from the buffer into which it reads. -/
theorem third_read_overtakes : ∃ s,
    remoteBatchedToGpu quiet threeProxies (PullOf.init []) = (.ok ⟨⟩, s) ∧
      ¬ Pulled threeProxies s.trace := by
  obtain ⟨s, q, r, hrun, htrace, hq, _, hreused, _⟩ := quiet_run threeProxies []
  refine ⟨s, hrun, ?_⟩
  rw [htrace]
  exact not_pulled_of_reused rfl hq (hreused rfl (by decide))

end

end RemotePull
