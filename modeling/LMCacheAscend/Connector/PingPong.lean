import LMCacheAscend.Connector.RemotePullOrder

/-!
# The loop over the micro-batches

What holds at the top of each turn of the ping-pong loop (`Top`): the scatters
from a pool are behind its scatter event, and the reads of the batch before are
behind its read event.  A turn keeps it (`wp_turn`), whichever of its commands
raises, so at the end of the drain no read is left that the load stream has not
waited for (`wp_pingPong`).
-/

namespace RemotePull

open Lib List Option

/-! ## Backing objects -/

def bufferPool (size : Nat) (pool : Bool) : List Buffer := (range size).map (Buffer.mk pool)

/-- A micro-batch with its buffers: its own proxies, and different buffers of one pool. -/
structure BackedOf (batch : List ProxyItem) (pool : Bool) (backed : List Backed) : Prop where
  items : backed.map (·.item) = batch
  pool : ∀ b ∈ backed, b.buffer.pool = pool
  apart : ∀ b ∈ backed, ∀ b' ∈ backed, b'.buffer = b.buffer → b' = b

theorem map_item_zipWith {batch : List ProxyItem} {pool : List Buffer}
    (h : batch.length ≤ pool.length) : (batch.zipWith Backed.mk pool).map (·.item) = batch := by
  induction batch generalizing pool with
  | nil => rfl
  | cons x batch ih =>
    cases pool with
    | nil => cases h
    | cons b pool =>
      rw [zipWith_cons_cons, map_cons, ih (Nat.le_of_succ_le_succ h)]

theorem backedOf_zipWith {batch : List ProxyItem} {pool : Bool} {size : Nat}
    (h : batch.length ≤ size) :
    BackedOf batch pool (batch.zipWith Backed.mk (bufferPool size pool)) := by
  have hget : ∀ {n : Nat} {b : Backed}, (batch.zipWith Backed.mk (bufferPool size pool))[n]? = some b →
      b.buffer = ⟨pool, n⟩ := by
    intro n b hb
    rw [getElem?_zipWith_eq_some] at hb
    obtain ⟨x, y, _, hy, rfl⟩ := hb
    unfold bufferPool at hy
    rw [getElem?_map] at hy
    obtain ⟨m, hm, rfl⟩ := map_eq_some_iff.1 hy
    obtain ⟨hlt, hm⟩ := List.getElem?_eq_some_iff.1 hm
    rw [getElem_range] at hm
    rw [hm]
  refine ⟨map_item_zipWith ?_, fun b hb => ?_, fun b hb b' hb' heq => ?_⟩
  · unfold bufferPool
    rw [length_map, length_range]
    exact h
  · obtain ⟨n, hn⟩ := mem_iff_getElem?.1 hb
    rw [hget hn]
  · obtain ⟨n, hn⟩ := mem_iff_getElem?.1 hb
    obtain ⟨m, hm⟩ := mem_iff_getElem?.1 hb'
    rw [hget hn, hget hm] at heq
    cases heq
    exact some.inj (hm.symm.trans hn)

/-- Each transfer of a batched read is for one of its proxies. -/
theorem mem_collectBatchReadArgs {batch : List Backed} {t : Transfer}
    (ht : t ∈ collectBatchReadArgs batch) : ∃ first ∈ batch, ∃ b ∈ batch,
      t = ⟨b.item.idx, first.item.proxy.targetPeerUrl, b.item.proxy.remoteBufferUuid,
        b.item.proxy.remoteMemIndex, b.buffer⟩ := by
  cases batch with
  | nil => cases ht
  | cons first rest =>
    obtain ⟨b, hb, rfl⟩ := mem_map.1 ht
    exact ⟨first, mem_cons_self, b, hb, rfl⟩

theorem exists_transfer {batch : List Backed} {b : Backed} (hb : b ∈ batch) :
    ∃ t ∈ collectBatchReadArgs batch, t.buffer = b.buffer ∧
      (SamePeer (batch.map (·.item)) → t.Of b.item) := by
  cases batch with
  | nil => cases hb
  | cons first rest =>
    refine ⟨_, mem_map.2 ⟨b, hb, rfl⟩, rfl, fun hpeer => ⟨rfl, ?_, rfl, rfl⟩⟩
    exact hpeer _ (mem_map.2 ⟨first, mem_cons_self, rfl⟩) _
      (mem_map.2 ⟨b, hb, rfl⟩)

theorem collect_apart {batch : List ProxyItem} {pool : Bool} {backed : List Backed}
    (h : BackedOf batch pool backed) :
    ∀ t ∈ collectBatchReadArgs backed, ∀ t' ∈ collectBatchReadArgs backed,
      t'.buffer = t.buffer → t' = t := by
  cases backed with
  | nil =>
    intro t ht
    cases ht
  | cons first rest =>
    intro t ht t' ht' heq
    obtain ⟨b, hb, rfl⟩ := mem_map.1 ht
    obtain ⟨b', hb', rfl⟩ := mem_map.1 ht'
    rw [h.apart b hb b' hb' heq]

theorem collect_pool {batch : List ProxyItem} {pool : Bool} {backed : List Backed}
    (h : BackedOf batch pool backed) {t : Transfer} (ht : t ∈ collectBatchReadArgs backed) :
    t.buffer.pool = pool := by
  obtain ⟨_, _, b, hb, rfl⟩ := mem_collectBatchReadArgs ht
  exact h.pool b hb

/-! ## What a turn keeps -/

variable (channel : Channel) (transfers : List Transfer)

def eventOf (n : Nat) : Option Event :=
  match channel with
  | .submits => some (.read n)
  | .synchronous => none

theorem eventOf_ne_scatter {channel : Channel} {n : Nat} {pool : Bool} {e : Event}
    (he : e ∈ (eventOf channel n).toList) : e ≠ .scatter pool := by
  cases channel with
  | submits =>
    rw [mem_singleton.1 he]
    exact nofun
  | synchronous => cases he

/-- The scatters from a pool are behind its event. -/
def ScatteredBy (p : List Command) (recorded : Bool → Bool) (pool : Bool) : Prop :=
  ∀ i x, ScatterAt p i x → x.buffer.pool = pool →
    recorded pool = true ∧ (known p).event (.scatter pool) i

/-- Each proxy of a batch has its read, behind one of the events or known to the load stream. -/
def ReadBy (c : Call) (p : List Command) (backed : List Backed) (events : List Event) : Prop :=
  Ordered c → ∀ b ∈ backed, ∃ j t, ReadFor c p b.item b.buffer j t ∧
    ((known p).stream .load j ∨ (known p).host j ∨ ∃ e ∈ events, (known p).event e j)

/-- The load stream was told to wait for reads before the `n`-th only. -/
def WaitsBelow (p : List Command) (n : Nat) : Prop :=
  ∀ m, .wait .load (.read m) ∈ p → m < n

variable {events : List Event} {s : Pull}

section

variable {c : Call} {p : List Command} {cmd : Command}

theorem ScatteredBy.snoc {recorded : Bool → Bool} {pool : Bool} (h : ScatteredBy p recorded pool)
    (hscatter : ∀ x, scatter? cmd = some x → x.buffer.pool ≠ pool)
    (hrecord : ∀ s, cmd ≠ .record (.scatter pool) s) :
    ScatteredBy (p ++ [cmd]) recorded pool := by
  intro i x hx hpool
  rcases scatterAt_snoc.1 hx with hold | ⟨rfl, hnew⟩
  · obtain ⟨hrec, hev⟩ := h i x hold hpool
    rw [known_append]
    exact ⟨hrec, Known.event_add hrecord hev⟩
  · exact absurd hpool (hscatter x hnew)

theorem Core.record (h : Core c p) {recorded : Bool → Bool} {pool : Bool}
    (hrec : recorded pool = true) :
    ScatteredBy (p ++ [.record (.scatter pool) .load]) recorded pool := by
  intro i x hx _
  rw [known_append]
  rcases scatterAt_snoc.1 hx with hold | ⟨rfl, hnew⟩
  · exact ⟨hrec, Known.event_record (.inl (h.scatters i x hold))⟩
  · cases hnew

theorem ReadFor.snoc {item : ProxyItem} {buffer : Buffer} {j : Nat} {t : Transfer}
    (h : ReadFor c p item buffer j t) (hreads : ∀ t' ∈ reads cmd, t'.buffer ≠ buffer) :
    ReadFor c (p ++ [cmd]) item buffer j t := by
  refine ⟨h.read.append [cmd], h.mem, h.of, h.into, fun j' t' ht' hbuf => ?_⟩
  rcases readAt_snoc.1 ht' with hold | ⟨rfl, hnew⟩
  · exact h.last j' t' hold hbuf
  · exact absurd hbuf (hreads t' hnew)

theorem ReadBy.snoc {backed : List Backed} (h : ReadBy c p backed events)
    (hreads : ∀ b ∈ backed, ∀ t ∈ reads cmd, t.buffer ≠ b.buffer)
    (hrecord : ∀ e ∈ events, ∀ s, cmd ≠ .record e s) : ReadBy c (p ++ [cmd]) backed events := by
  intro ho b hb
  obtain ⟨j, t, hread, hw⟩ := h ho b hb
  refine ⟨j, t, hread.snoc (hreads b hb), ?_⟩
  rw [known_append]
  rcases hw with hw | hw | ⟨e, he, hw⟩
  · exact .inl (Known.stream_add cmd hw)
  · exact .inr (.inl (Known.host_add cmd hw))
  · exact .inr (.inr ⟨e, he, Known.event_add (hrecord e he) hw⟩)

theorem ReadBy.wait {backed : List Backed} {e : Event} (h : ReadBy c p backed (e :: events)) :
    ReadBy c (p ++ [.wait .load e]) backed events := by
  intro ho b hb
  obtain ⟨j, t, hread, hw⟩ := h ho b hb
  refine ⟨j, t, hread.snoc fun t ht => (nomatch ht), ?_⟩
  rw [known_append]
  rcases hw with hw | hw | ⟨f, hf, hw⟩
  · exact .inl (Known.stream_add _ hw)
  · exact .inr (.inl (Known.host_add _ hw))
  rcases mem_cons.1 hf with rfl | hf
  · exact .inl (Known.stream_wait hw)
  · exact .inr (.inr ⟨f, hf, Known.event_add (fun s => nofun) hw⟩)

theorem WaitsBelow.snoc {n : Nat} (h : WaitsBelow p n)
    (hcmd : ∀ m, cmd = .wait .load (.read m) → m < n) : WaitsBelow (p ++ [cmd]) n := by
  intro m hm
  rcases mem_append.1 hm with hm | hm
  · exact h m hm
  · exact hcmd m (mem_singleton.1 hm).symm

theorem WaitsBelow.mono {n m : Nat} (h : WaitsBelow p n) (hnm : n ≤ m) : WaitsBelow p m :=
  fun k hk => Nat.lt_of_lt_of_le (h k hk) hnm

theorem WaitsBelow.not_last {n : Nat} (h : WaitsBelow p n) (hn : n < c.microBatches.length) :
    lastWait c ∉ p := by
  intro hmem
  have hlt := h (c.microBatches.length - 1) hmem
  omega

end

/-! ## Scatters -/

section

variable {c : Call} {env : Env}

def scatterCommand (b : Backed) : Command :=
  .launch .load (.scatter b.item.idx b.item.start b.item.stop b.buffer)

theorem wp_scatters {I : List Command → Prop} {l : List Backed}
    (hcore : ∀ p, I p → Core c p) (hread : ∀ p, I p → ReadBy c p l [])
    (hsafe : ∀ p, I p → lastWait c ∉ p ∨ Waited p [])
    (hstep : ∀ p, ∀ b ∈ l, I p → Core c (p ++ [scatterCommand b]) → I (p ++ [scatterCommand b]))
    (hs : I s.trace) :
    wp (l.forM fun b =>
      emit env (.launch .load (.scatter b.item.idx b.item.start b.item.stop b.buffer)))
      (post (fun _ s' => I s'.trace) fun _ s' => Err c env s'.trace) s := by
  refine wp_forM (I := fun s : Pull => I s.trace) (fun b hb s hs => ?_) hs
  have hgood : Ordered c → Good c s.trace (scatterCommand b) := by
    intro ho
    obtain ⟨j, t, hfor, hw⟩ := hread _ hs ho b hb
    refine ⟨fun x hx => ?_, ⟨fun t ht => (nomatch ht), fun t ht => (nomatch ht),
      fun t ht => (nomatch ht)⟩⟩
    cases hx
    refine ⟨j, t, b.item, hfor, rfl, ?_⟩
    rcases hw with hw | hw | ⟨e, he, _⟩
    · exact .inr ⟨.load, rfl, hw⟩
    · exact .inl hw
    · cases he
  have hcore' : Core c (s.trace ++ [scatterCommand b]) := by
    refine (hcore _ hs).snoc hgood (fun t ht => (nomatch ht)) fun x _ => ?_
    rw [known_append, ← size_known s.trace]
    exact Known.stream_launch
  refine wp_emit_err (hcore _ hs) hcore' ?_ (fun h => nomatch h) (hstep _ b hb hs hcore')
  rcases hsafe _ hs with h | h
  · exact .inl h
  · exact .inr ⟨h, rfl⟩

end

/-! ## The read of a micro-batch -/

def readCommand : Command :=
  match channel with
  | .submits => .launch .transport (.read transfers)
  | .synchronous => .call (.read transfers)

@[simp] theorem reads_readCommand : reads (readCommand channel transfers) = transfers := by
  cases channel <;> rfl

@[simp] theorem scatter?_readCommand : scatter? (readCommand channel transfers) = none := by
  cases channel <;> rfl

section

variable {c : Call} {p : List Command}

theorem Listed.before {channel : Channel} {j : Nat} (h : Listed channel p j)
    (transfers : List Transfer) : Before p (readCommand channel transfers) j := by
  cases channel with
  | submits => exact .inr ⟨.transport, rfl, h⟩
  | synchronous => exact .inl h

theorem listed_readCommand (channel : Channel) (transfers : List Transfer) :
    Listed channel (p ++ [readCommand channel transfers]) p.length := by
  unfold Listed
  rw [known_append, ← size_known p]
  cases channel with
  | submits => exact Known.stream_launch
  | synchronous => exact Known.host_call

variable {batch : List ProxyItem} {pool : Bool} {backed : List Backed}

theorem Core.read (h : Core c p) (hbacked : BackedOf batch pool backed)
    (hfree : Ordered c → ∀ i x, ScatterAt p i x → x.buffer.pool = pool →
      Before p (readCommand c.channel (collectBatchReadArgs backed)) i) :
    Core c (p ++ [readCommand c.channel (collectBatchReadArgs backed)]) := by
  refine h.snoc (fun ho => ⟨fun x hx => ?_, ⟨?_, ?_, ?_⟩⟩)
    (fun t _ => listed_readCommand c.channel _) fun x hx => ?_
  · rw [scatter?_readCommand] at hx
    cases hx
  · rw [reads_readCommand]
    exact collect_apart hbacked
  · rw [reads_readCommand]
    intro t ht i x hx hbuf
    refine hfree ho i x hx ?_
    rw [hbuf]
    exact collect_pool hbacked ht
  · rw [reads_readCommand]
    intro t _ j t' ht' _
    exact (h.reads j t' ht').before _
  · rw [scatter?_readCommand] at hx
    cases hx

theorem readFor_readCommand (hbacked : BackedOf batch pool backed)
    (hmem : ∀ x ∈ batch, x ∈ proxyItems c.items) (hpeer : SamePeer batch) {b : Backed}
    (hb : b ∈ backed) : ∃ t,
      ReadFor c (p ++ [readCommand c.channel (collectBatchReadArgs backed)]) b.item b.buffer
        p.length t := by
  obtain ⟨t, ht, hbuf, hof⟩ := exists_transfer hb
  refine ⟨t, readAt_snoc.2 (.inr ⟨rfl, by rw [reads_readCommand]; exact ht⟩), hmem _ ?_,
    hof (by rw [hbacked.items]; exact hpeer), hbuf, fun j' t' ht' hbuf' => ?_⟩
  · rw [← hbacked.items]
    exact mem_map.2 ⟨b, hb, rfl⟩
  · rcases readAt_snoc.1 ht' with hold | ⟨rfl, hnew⟩
    · exact .inr hold.lt
    · rw [reads_readCommand] at hnew
      exact .inl ⟨rfl, collect_apart hbacked t ht t' hnew (hbuf'.trans hbuf.symm)⟩

/-! ## A turn -/

/-- The top of a turn. -/
structure Top (c : Call) (p : List Command) (n : Nat) (current : Bool) (recorded : Bool → Bool)
    (prev : Option (List Backed × Option Event)) : Prop where
  core : Core c p
  scattered : ∀ pool, ScatteredBy p recorded pool
  before : ∀ b e, prev = some (b, e) → (∀ x ∈ b, x.buffer.pool = !current) ∧
    ReadBy c p b e.toList ∧ ∃ m, m + 1 = n ∧ e = eventOf c.channel m
  waited : Waited p (prev.elim [] fun x => x.2.toList)
  waits : WaitsBelow p (n - 1)

/-- The read of the turn's batch is issued. -/
structure Submitted (c : Call) (p : List Command) (n : Nat) (recorded : Bool → Bool)
    (prev : Option (List Backed × Option Event)) (backed : List Backed) : Prop where
  core : Core c p
  scattered : ∀ pool, ScatteredBy p recorded pool
  before : ∀ b e, prev = some (b, e) → ReadBy c p b e.toList
  next : ReadBy c p backed (eventOf c.channel n).toList
  waited : Waited p ((prev.elim [] fun x => x.2.toList) ++ (eventOf c.channel n).toList)
  waits : WaitsBelow p (n - 1)

variable {n : Nat} {current : Bool} {recorded : Bool → Bool}
  {prev : Option (List Backed × Option Event)}

theorem Top.snoc (h : Top c p n current recorded prev) {cmd : Command} (hreads : reads cmd = [])
    (hscatter : scatter? cmd = none) (hrecord : ∀ e s, cmd ≠ .record e s)
    (hwait : ∀ m, cmd ≠ .wait .load (.read m)) : Top c (p ++ [cmd]) n current recorded prev where
  core := h.core.other hreads hscatter
  scattered pool := (h.scattered pool).snoc
    (fun x hx => by rw [hscatter] at hx; cases hx) fun s => hrecord _ s
  before b e hb := by
    obtain ⟨hpool, hread, hevent⟩ := h.before b e hb
    refine ⟨hpool, hread.snoc (fun _ _ t ht => ?_) fun e _ s => hrecord e s, hevent⟩
    rw [hreads] at ht
    cases ht
  waited := h.waited.other hreads fun e _ s => hrecord e s
  waits := h.waits.snoc fun m hm => absurd hm (hwait m)

theorem Top.event_ne (h : Top c p n current recorded prev) {b : List Backed} {e : Option Event}
    (hprev : prev = some (b, e)) : ∀ f ∈ e.toList, f ≠ .read n := by
  obtain ⟨_, _, m, hm, rfl⟩ := h.before b e hprev
  intro f hf
  cases hchannel : c.channel with
  | submits =>
    rw [hchannel] at hf
    cases mem_singleton.1 hf
    intro heq
    cases heq
    omega
  | synchronous =>
    rw [hchannel] at hf
    cases hf

theorem Top.read (h : Top c p n current recorded prev) (hbacked : BackedOf batch current backed)
    (hfree : Ordered c → ∀ i x, ScatterAt p i x → x.buffer.pool = current →
      Before p (readCommand c.channel (collectBatchReadArgs backed)) i) :
    let q := p ++ [readCommand c.channel (collectBatchReadArgs backed)]
    Core c q ∧ (∀ pool, ScatteredBy q recorded pool) ∧
      (∀ b e, prev = some (b, e) → ReadBy c q b e.toList) ∧ WaitsBelow q (n - 1) := by
  have hother : ∀ e s, readCommand c.channel (collectBatchReadArgs backed) ≠ .record e s := by
    intro e s
    cases c.channel <;> exact nofun
  refine ⟨h.core.read hbacked hfree, fun pool => (h.scattered pool).snoc (fun x hx => ?_)
    fun s => hother _ s, fun b e hprev => ?_, h.waits.snoc fun m hm => ?_⟩
  · rw [scatter?_readCommand] at hx
    cases hx
  · obtain ⟨hpool, hread, _⟩ := h.before b e hprev
    refine hread.snoc (fun b' hb' t ht heq => ?_) fun f _ s => hother f s
    rw [reads_readCommand] at ht
    have hcur := collect_pool hbacked ht
    rw [heq, hpool b' hb'] at hcur
    cases current <;> cases hcur
  · cases hchannel : c.channel <;> rw [hchannel] at hm <;> cases hm

theorem Waited.read (h : Waited p events) {cmd : Command}
    (hrecord : ∀ e ∈ events, ∀ s, cmd ≠ .record e s) :
    ∀ j t, ReadAt (p ++ [cmd]) j t → j = p.length ∨ (known (p ++ [cmd])).stream .load j ∨
      (known (p ++ [cmd])).host j ∨ ∃ e ∈ events, (known (p ++ [cmd])).event e j := by
  intro j t ht
  rcases readAt_snoc.1 ht with hold | ⟨rfl, _⟩
  · refine .inr ?_
    rw [known_append]
    rcases h j t hold with hw | hw | ⟨e, he, hw⟩
    · exact .inl (Known.stream_add _ hw)
    · exact .inr (.inl (Known.host_add _ hw))
    · exact .inr (.inr ⟨e, he, Known.event_add (hrecord e he) hw⟩)
  · exact .inl rfl

/-- The read of a batch goes out when nothing scatters from its pool any more. -/
theorem Top.submitted (h : Top c p n current recorded prev)
    (hbacked : BackedOf batch current backed) (hmem : ∀ x ∈ batch, x ∈ proxyItems c.items)
    (hpeer : Ordered c → SamePeer batch)
    (hfree : Ordered c → ∀ i x, ScatterAt p i x → x.buffer.pool = current →
      Before p (readCommand c.channel (collectBatchReadArgs backed)) i) :
    Submitted c (p ++ [readCommand c.channel (collectBatchReadArgs backed)] ++
      (eventOf c.channel n).toList.map fun e => .record e .transport) n recorded prev backed := by
  obtain ⟨hcore, hscattered, hprev, hwaits⟩ := h.read hbacked hfree
  have hread : ∀ e ∈ prev.elim [] (fun x => x.2.toList), ∀ s,
      readCommand c.channel (collectBatchReadArgs backed) ≠ .record e s := by
    intro e _ s
    cases c.channel <;> exact nofun
  have hwaited := h.waited.read hread
  have hlisted := listed_readCommand (p := p) c.channel (collectBatchReadArgs backed)
  cases hchannel : c.channel with
  | synchronous =>
    rw [hchannel] at hlisted
    simp only [eventOf, toList_none, map_nil, append_nil]
    rw [← hchannel]
    refine ⟨hcore, hscattered, hprev, fun ho b hb => ?_, fun j t ht => ?_, hwaits⟩
    · obtain ⟨t, ht⟩ := readFor_readCommand (p := p) hbacked hmem (hpeer ho) hb
      rw [hchannel] at ht ⊢
      exact ⟨p.length, t, ht, .inr (.inl hlisted)⟩
    · rcases hwaited j t ht with rfl | hw | hw | ⟨e, he, hw⟩
      · rw [hchannel]
        exact .inr (.inl hlisted)
      · exact .inl hw
      · exact .inr (.inl hw)
      · exact .inr (.inr ⟨e, mem_append_left _ he, hw⟩)
  | submits =>
    rw [hchannel] at hcore hscattered hprev hwaits hwaited hlisted
    simp only [eventOf, toList_some, map_cons, map_nil]
    have hnew : ∀ q : List Command, (known q).stream .transport p.length →
        (known (q ++ [.record (.read n) .transport])).event (.read n) p.length := by
      intro q hq
      rw [known_append]
      exact Known.event_record (.inl hq)
    have hold : ∀ e ∈ prev.elim [] (fun x => x.2.toList), ∀ s : Stream,
        (.record (.read n) .transport : Command) ≠ .record e s := by
      intro e he s heq
      cases hp : prev with
      | none =>
        rw [hp] at he
        cases he
      | some x =>
        rw [hp] at he
        cases heq
        exact h.event_ne hp _ he rfl
    refine ⟨hcore.other rfl rfl, fun pool => (hscattered pool).snoc (fun x hx => nomatch hx)
      fun s => nofun, fun b e hp => (hprev b e hp).snoc (fun b _ t ht => nomatch ht) ?_,
      fun ho b hb => ?_, fun j t ht => ?_, hwaits.snoc fun m hm => nomatch hm⟩
    · intro f hf s heq
      cases heq
      exact h.event_ne hp _ hf rfl
    · obtain ⟨t, ht⟩ := readFor_readCommand (p := p) hbacked hmem (hpeer ho) hb
      rw [hchannel] at ht ⊢
      exact ⟨p.length, t, ht.snoc fun t ht => (nomatch ht),
        .inr (.inr ⟨.read n, mem_singleton_self _, hnew _ hlisted⟩)⟩
    · rcases readAt_snoc.1 ht with ht | ⟨_, ht⟩
      · rcases hwaited j t ht with rfl | hw | hw | ⟨e, he, hw⟩
        · refine .inr (.inr ⟨.read n, mem_append_right _ ?_, hnew _ hlisted⟩)
          rw [hchannel]
          exact mem_singleton_self _
        · exact .inl (by rw [known_append]; exact Known.stream_add _ hw)
        · exact .inr (.inl (by rw [known_append]; exact Known.host_add _ hw))
        · refine .inr (.inr ⟨e, mem_append_left _ he, ?_⟩)
          rw [known_append]
          exact Known.event_add (hold e he) hw
      · cases ht

end

/-! ## The loop -/

section

variable {c : Call} {env : Env} {batch : List ProxyItem} {backed : List Backed} {n : Nat}
  {current : Bool} {recorded : Bool → Bool} {prev : Option (List Backed × Option Event)}

theorem wp_submitResolveBatch (h : Top c s.trace n current recorded prev)
    (hn : n < c.microBatches.length) (hbacked : BackedOf batch current backed)
    (hmem : ∀ x ∈ batch, x ∈ proxyItems c.items) (hpeer : Ordered c → SamePeer batch)
    (hfree : Ordered c → ∀ i x, ScatterAt s.trace i x → x.buffer.pool = current →
      Before s.trace (readCommand c.channel (collectBatchReadArgs backed)) i) :
    wp (submitResolveBatch env c.channel n backed) (post (fun e s' => e = eventOf c.channel n ∧
        Submitted c s'.trace n recorded prev backed) fun _ s' => Err c env s'.trace) s := by
  have hcore := h.core.read hbacked hfree
  have hsubmitted := h.submitted hbacked hmem hpeer hfree
  have hlast : lastWait c ∉ s.trace := h.waits.not_last (by omega)
  cases hchannel : c.channel with
  | synchronous =>
    rw [hchannel] at hcore hsubmitted
    simp only [eventOf, toList_none, map_nil, append_nil] at hsubmitted
    unfold submitResolveBatch
    refine wp_bind_ok (wp_emit_err (Q := fun s' => Submitted c s'.trace n recorded prev backed)
      h.core hcore (.inl hlast) (fun h => nomatch h) hsubmitted) ?_
    rintro u s' hs'
    exact ⟨rfl, hs'⟩
  | submits =>
    rw [hchannel] at hcore hsubmitted
    simp only [eventOf, toList_some, map_cons, map_nil] at hsubmitted
    have hlast' : lastWait c ∉ (s.push (.launch .transport
        (.read (collectBatchReadArgs backed)))).trace := by
      intro hmem
      rcases mem_append.1 hmem with hmem | hmem
      · exact hlast hmem
      · cases mem_singleton.1 hmem
    unfold submitResolveBatch
    refine wp_bind_ok (wp_emit_err (Q := fun s' => s' = s.push (.launch .transport
      (.read (collectBatchReadArgs backed)))) h.core hcore (.inl hlast) (fun h => nomatch h) rfl)
      fun u s' hs' => ?_
    subst hs'
    refine wp_bind_ok (wp_emit_err (Q := fun s' => Submitted c s'.trace n recorded prev backed)
      hcore (hcore.other rfl rfl) (.inl hlast') (fun h => nomatch h) hsubmitted) ?_
    rintro u s2 h2
    exact ⟨rfl, h2⟩

/-- What the scatters of the batch before keep of a turn. -/
structure Scattering (c : Call) (p : List Command) (n : Nat) (current : Bool)
    (recorded : Bool → Bool) (prevBatch backed : List Backed) : Prop where
  core : Core c p
  scattered : ScatteredBy p recorded current
  reads : ReadBy c p prevBatch []
  next : ReadBy c p backed (eventOf c.channel n).toList
  waited : Waited p (eventOf c.channel n).toList
  waits : WaitsBelow p n

variable {p : List Command} {prevBatch : List Backed}

theorem Scattering.scatter {b : Backed}
    (h : Scattering c p n current recorded prevBatch backed) (hb : b.buffer.pool = !current)
    (hcore : Core c (p ++ [scatterCommand b])) :
    Scattering c (p ++ [scatterCommand b]) n current recorded prevBatch backed where
  core := hcore
  scattered := h.scattered.snoc (fun x hx => by
    cases hx
    rw [hb]
    cases current <;> exact nofun) fun s => nofun
  reads := h.reads.snoc (fun _ _ t ht => nomatch ht) fun e _ s => nofun
  next := h.next.snoc (fun _ _ t ht => nomatch ht) fun e _ s => nofun
  waited := h.waited.other rfl fun e _ s => nofun
  waits := h.waits.snoc fun m hm => nomatch hm

theorem Submitted.wait {m : Nat}
    (h : Submitted c p n recorded (some (prevBatch, eventOf c.channel m)) backed) (hm : m + 1 = n) :
    Scattering c (p ++ (eventOf c.channel m).toList.map fun e => .wait .load e) n current recorded
      prevBatch backed := by
  have hreads := h.before prevBatch _ rfl
  have hwaited := h.waited
  have hbelow : WaitsBelow p n := h.waits.mono (Nat.sub_le n 1)
  cases hchannel : c.channel with
  | synchronous =>
    rw [hchannel] at hreads hwaited
    simp only [eventOf, toList_none, map_nil, append_nil]
    exact ⟨h.core, h.scattered current, hreads, h.next, h.core.waited hchannel _, hbelow⟩
  | submits =>
    rw [hchannel] at hreads hwaited
    simp only [eventOf, toList_some, map_cons, map_nil]
    refine ⟨h.core.other rfl rfl, (h.scattered current).snoc (fun x hx => nomatch hx)
      fun s => nofun, hreads.wait, h.next.snoc (fun _ _ t ht => nomatch ht) fun e _ s => nofun, ?_,
      hbelow.snoc fun k hk => ?_⟩
    · rw [hchannel]
      exact hwaited.wait
    · cases hk
      omega

theorem Scattering.top (h : Scattering c p n current recorded prevBatch backed)
    (hpool : ∀ b ∈ backed, b.buffer.pool = current) :
    Top c (p ++ [.record (.scatter !current) .load]) (n + 1) (!current)
      (fun b => if b = !current then true else recorded b)
      (some (backed, eventOf c.channel n)) where
  core := h.core.other rfl rfl
  scattered := fun pool => by
    by_cases hp : pool = !current
    · subst hp
      exact h.core.record (if_pos rfl)
    have hcur : pool = current := by
      cases pool <;> cases current <;> first | rfl | exact absurd rfl hp
    subst hcur
    intro i x hx hpool
    have hne : ∀ s, (.record (.scatter !pool) .load : Command) ≠ .record (.scatter pool) s := by
      intro s heq
      injection heq with hev
      injection hev with hpool
      cases pool <;> cases hpool
    have hkept : ScatteredBy (p ++ [.record (.scatter !pool) .load]) recorded pool :=
      h.scattered.snoc (fun x hx => nomatch hx) hne
    obtain ⟨hrec, hev⟩ := hkept i x hx hpool
    exact ⟨(if_neg hp).trans hrec, hev⟩
  before b e hb := by
    cases hb
    refine ⟨fun x hx => ?_, h.next.snoc (fun _ _ t ht => nomatch ht) fun e he s heq => ?_, n, rfl,
      rfl⟩
    · rw [hpool x hx, Bool.not_not]
    · cases heq
      exact eventOf_ne_scatter he rfl
  waited := h.waited.other rfl fun e he s heq => by
    cases heq
    exact eventOf_ne_scatter he rfl
  waits := h.waits.snoc fun m hm => nomatch hm

theorem Submitted.top (h : Submitted c p n recorded none backed)
    (hpool : ∀ b ∈ backed, b.buffer.pool = current) :
    Top c p (n + 1) (!current) recorded (some (backed, eventOf c.channel n)) where
  core := h.core
  scattered := h.scattered
  before b e hb := by
    cases hb
    refine ⟨fun x hx => ?_, h.next, n, rfl, rfl⟩
    rw [hpool x hx, Bool.not_not]
  waited := h.waited
  waits := h.waits.mono (Nat.sub_le n 1)

theorem wp_scatterProxyBatch {I : List Command → Prop} {l : List Backed} {e : Option Event}
    (hcore : ∀ p, I p → Core c p) (hread : ∀ p, I p → ReadBy c p l [])
    (hsafe : ∀ p, I p → lastWait c ∉ p ∨ Waited p [])
    (hstep : ∀ p, ∀ b ∈ l, I p → Core c (p ++ [scatterCommand b]) → I (p ++ [scatterCommand b]))
    (hs : Core c s.trace) (hlast : lastWait c ∉ s.trace)
    (hwait : I (s.trace ++ e.toList.map fun e => .wait .load e)) :
    wp (scatterProxyBatch env l e)
      (post (fun _ s' => I s'.trace) fun _ s' => Err c env s'.trace) s := by
  unfold scatterProxyBatch
  cases e with
  | none =>
    rw [toList_none, map_nil, append_nil] at hwait
    exact wp_scatters hcore hread hsafe hstep hwait
  | some e =>
    simp only [wp_bind]
    have hfinal : .wait .load e = lastWait c → Waited (s.trace ++ [.wait .load e]) [] := by
      intro heq
      rcases hsafe _ hwait with hnot | hw
      · refine absurd ?_ hnot
        rw [← heq]
        exact mem_append_right _ mem_cons_self
      · exact hw
    refine wp_ok (wp_emit_err (Q := fun s' => I s'.trace) hs (hs.other rfl rfl) (.inl hlast)
      hfinal hwait) ?_
    rintro u s' hs'
    exact wp_scatters hcore hread hsafe hstep hs'

theorem wp_awaitPool (h : Top c s.trace n current recorded prev) (hn : n < c.microBatches.length)
    (hsync : Ordered c → c.channel = .synchronous → recorded current = false) :
    wp (onlyIf (recorded current = true ∧ c.channel = .submits)
      (emit env (.wait .transport (.scatter current))))
      (post (fun _ s' => Top c s'.trace n current recorded prev ∧
        (Ordered c → ∀ i x, ScatterAt s'.trace i x → x.buffer.pool = current →
          ∀ transfers, Before s'.trace (readCommand c.channel transfers) i))
        fun _ s' => Err c env s'.trace) s := by
  unfold onlyIf
  rw [wp_ite]
  split
  · next hguard =>
    have htop : Top c (s.trace ++ [.wait .transport (.scatter current)]) n current recorded prev :=
      h.snoc rfl rfl (fun e s => nofun) fun m => nofun
    refine wp_emit_err h.core htop.core (.inl (h.waits.not_last (by omega))) (fun h => nomatch h)
      ⟨htop, fun _ i x hx hpool transfers => ?_⟩
    rw [hguard.2]
    refine .inr ⟨.transport, rfl, ?_⟩
    show (known (s.trace ++ [.wait .transport (.scatter current)])).stream .transport i
    rw [known_append]
    rcases scatterAt_snoc.1 hx with hold | ⟨rfl, hnew⟩
    · exact Known.stream_wait (h.scattered current i x hold hpool).2
    · cases hnew
  · next hguard =>
    refine ⟨h, fun ho i x hx hpool transfers => ?_⟩
    have hrec := (h.scattered current i x hx hpool).1
    cases hchannel : c.channel with
    | submits => exact absurd ⟨hrec, hchannel⟩ hguard
    | synchronous =>
      rw [hsync ho hchannel] at hrec
      cases hrec

/-- The drain scatters what the loop has left. -/
theorem Top.drain {pools : Bool → List Buffer} {n : Nat} {current : Bool} {recorded : Bool → Bool}
    {prev : Option (List Backed × Option Event)} {s : Pull}
    (h : Top c s.trace n current recorded prev) (hn : n = c.microBatches.length) :
    wp (pingPong env c.channel pools [] n current recorded prev)
      (post (fun _ s' => Core c s'.trace ∧ Waited s'.trace []) fun _ s' => Err c env s'.trace) s := by
  cases prev with
  | none => exact ⟨h.core, h.waited⟩
  | some x =>
    obtain ⟨b, e⟩ := x
    obtain ⟨_, hread, m, hm, rfl⟩ := h.before b e rfl
    have hlast : lastWait c ∉ s.trace := h.waits.not_last (by omega)
    unfold pingPong
    refine wp_mono (wp_scatterProxyBatch
      (I := fun p => Core c p ∧ ReadBy c p b [] ∧ Waited p []) (fun p hp => hp.1)
      (fun p hp => hp.2.1) (fun p hp => .inr hp.2.2)
      (fun p b' _ hp hcore => ⟨hcore,
        hp.2.1.snoc (fun _ _ t ht => absurd ht not_mem_nil) (by simp),
        hp.2.2.other rfl (by simp)⟩) h.core hlast ?_) ?_
    · have hwaited := h.waited
      simp only [elim_some] at hwaited
      cases hchannel : c.channel with
      | synchronous =>
        rw [hchannel] at hread hwaited
        simp only [eventOf, toList_none, map_nil, append_nil]
        exact ⟨h.core, hread, hwaited⟩
      | submits =>
        rw [hchannel] at hread hwaited
        simp only [eventOf, toList_some, map_cons, map_nil]
        exact ⟨h.core.other rfl rfl, hread.wait, hwaited.wait⟩
    · rintro (r | u) s' hs'
      · exact hs'
      · exact ⟨hs'.1, hs'.2.2⟩

/-- The loop and the drain: at the end no read is left that the load stream has not waited for. -/
theorem wp_pingPong {size : Nat} (rest : List (List ProxyItem)) :
    ∀ {n : Nat} {current : Bool} {recorded : Bool → Bool}
      {prev : Option (List Backed × Option Event)} {s : Pull},
    Top c s.trace n current recorded prev → n + rest.length = c.microBatches.length →
    (∀ batch ∈ rest, batch.length ≤ size ∧ ∀ x ∈ batch, x ∈ proxyItems c.items) →
    (Ordered c → ∀ batch ∈ rest, SamePeer batch) →
    (Ordered c → c.channel = .synchronous → rest = [] ∨
      ((∀ b, recorded b = false) ∧ rest.length + prev.toList.length ≤ 2)) →
    wp (pingPong env c.channel (bufferPool size) rest n current recorded prev)
      (post (fun _ s' => Core c s'.trace ∧ Waited s'.trace []) fun _ s' => Err c env s'.trace) s := by
  induction rest with
  | nil => exact fun h hn _ _ _ => h.drain hn
  | cons batch rest ih =>
    intro n current recorded prev s h hn hrest hpeer hsync
    rw [length_cons] at hn
    have hlt : n < c.microBatches.length := by omega
    have hfits := hrest batch mem_cons_self
    have hbacked : BackedOf batch current (batch.zipWith Backed.mk (bufferPool size current)) :=
      backedOf_zipWith hfits.1
    have hlater : ∀ batch' ∈ rest, batch'.length ≤ size ∧ ∀ x ∈ batch', x ∈ proxyItems c.items :=
      fun b hb => hrest b (mem_cons_of_mem _ hb)
    have hpeers : Ordered c → ∀ batch' ∈ rest, SamePeer batch' :=
      fun ho b hb => hpeer ho b (mem_cons_of_mem _ hb)
    have hsync' : Ordered c → c.channel = .synchronous →
        (∀ b, recorded b = false) ∧ rest.length + 1 + prev.toList.length ≤ 2 := by
      intro ho hchannel
      rcases hsync ho hchannel with hnil | h
      · cases hnil
      · exact h
    unfold pingPong
    refine wp_bind_ok (wp_awaitPool h hlt fun ho hchannel => (hsync' ho hchannel).1 current)
      fun u s1 h1 => ?_
    obtain ⟨htop, hfree⟩ := h1
    rw [wp_bind]
    have hset : setBackingObjs (bufferPool size current) batch =
        pure (batch.zipWith Backed.mk (bufferPool size current)) := by
      unfold setBackingObjs
      rw [if_pos]
      unfold bufferPool
      rw [length_map, length_range]
      exact hfits.1
    rw [hset, wp_pure, post_ok, wp_bind]
    generalize hb : batch.zipWith Backed.mk (bufferPool size current) = backed at hbacked
    refine wp_cases (wp_submitResolveBatch htop hlt hbacked hfits.2
      (fun ho => hpeer ho batch mem_cons_self)
      fun ho i x hx hpool => hfree ho i x hx hpool _)
      (fun _ _ h => h) ?_
    rintro e s2 h2
    obtain ⟨rfl, h2⟩ := h2
    rw [post_ok]
    cases prev with
    | none =>
      refine ih (h2.top hbacked.pool) (by omega) hlater hpeers fun ho hchannel => ?_
      obtain ⟨hrec, hlen⟩ := hsync' ho hchannel
      refine .inr ⟨hrec, ?_⟩
      rw [toList_none, length_nil] at hlen
      rw [toList_some, length_singleton]
      omega
    | some x =>
      obtain ⟨prevBatch, prevEvent⟩ := x
      obtain ⟨hpool, _, m, hm, rfl⟩ := h.before prevBatch prevEvent rfl
      have hnot : ∀ {p : List Command}, WaitsBelow p n → lastWait c ∉ p :=
        fun hw => hw.not_last hlt
      simp only [wp_bind]
      refine wp_cases (wp_scatterProxyBatch
        (I := fun p => Scattering c p n current recorded prevBatch backed) (fun p hp => hp.core)
        (fun p hp => hp.reads) (fun p hp => .inl (hnot hp.waits))
        (fun p b hbm hp hcore => hp.scatter (hpool b hbm) hcore) h2.core
        (hnot (h2.waits.mono (Nat.sub_le n 1))) (h2.wait hm))
        (fun _ _ h => h) ?_
      rintro u s3 h3
      rw [post_ok] at h3 ⊢
      refine wp_bind_ok (wp_emit_err (Q := fun s' => Top c s'.trace (n + 1) (!current)
        (fun b => if b = !current then true else recorded b)
        (some (backed, eventOf c.channel n))) h3.core (h3.core.other rfl rfl)
        (.inl (hnot h3.waits)) (by simp [lastWait]) (h3.top hbacked.pool)) ?_
      rintro u s4 h4
      refine ih h4 (by omega) hlater hpeers fun ho hchannel => ?_
      obtain ⟨_, hlen⟩ := hsync' ho hchannel
      rw [toList_some, length_singleton] at hlen
      exact .inl (length_eq_zero_iff.1 (by omega))

end

/-! ## The `try` block -/

section

variable {c : Call} {env : Env}

theorem maxPipelineDepth_pos (a : Option Allocator) : 0 < maxPipelineDepth a := by
  cases a with
  | none => exact Nat.succ_pos 3
  | some a => exact Nat.lt_of_lt_of_le Nat.zero_lt_one (Nat.le_max_right _ _)

theorem depth_pos (c : Call) : 0 < c.depth := maxPipelineDepth_pos c.allocator

theorem mem_microBatches {batch : List ProxyItem} (h : batch ∈ c.microBatches) :
    batch.length ≤ min c.depth (proxyItems c.items).length ∧
      ∀ x ∈ batch, x ∈ proxyItems c.items := by
  refine ⟨?_, fun x hx => mem_of_mem_slices h hx⟩
  obtain ⟨i, _, rfl⟩ := (mem_slices (depth_pos c)).1 h
  rw [length_take, length_drop]
  omega

theorem top_nil (c : Call) : Top c [] 0 false (fun _ => false) none where
  core :=
    { sound := fun _ q cmd r h => by cases q <;> cases h
      reads := fun j t ⟨cmd, h, _⟩ => nomatch h
      scatters := fun i x ⟨cmd, h, _⟩ => nomatch h }
  scattered _ i x := fun ⟨cmd, h, _⟩ => nomatch h
  before b e h := nomatch h
  waited j t := fun ⟨cmd, h, _⟩ => nomatch h
  waits m h := nomatch h

theorem wp_allocate (h : Top c s.trace 0 false (fun _ => false) none)
    (pool : Bool) (count : Nat) :
    wp (allocateBuffers env (.call (.allocate pool)) pool count)
      (post (fun buffers s' => buffers = bufferPool count pool ∧
        Top c s'.trace 0 false (fun _ => false) none) fun _ s' => Err c env s'.trace) s :=
  wp_allocateBuffers (fun _ _ => ⟨rfl, h.snoc rfl rfl (fun _ _ => nofun) fun _ => nofun⟩)
    fun hne => ⟨h.core, fun _ => h.waited, _, _, hne⟩

theorem ite_bufferPool (size : Nat) :
    (fun b => if b = true then bufferPool size true else bufferPool size false) =
      bufferPool size := by
  funext b
  cases b <;> rfl

theorem wp_pullProxies (h : Top c s.trace 0 false (fun _ => false) none) :
    wp (pullProxies env c)
      (post (fun _ s' => Core c s'.trace ∧ Waited s'.trace []) fun _ s' => Err c env s'.trace)
      s := by
  unfold pullProxies
  refine wp_bind_ok (wp_allocate h false _) fun a s1 h1 => ?_
  obtain ⟨rfl, h1⟩ := h1
  refine wp_bind_ok (wp_allocate h1 true _) fun b s2 h2 => ?_
  obtain ⟨rfl, h2⟩ := h2
  rw [ite_bufferPool]
  refine wp_pingPong c.microBatches h2 (Nat.zero_add _) (fun batch hb => mem_microBatches hb)
    (fun ho => ho.2) fun ho hchannel => .inr ⟨fun _ => rfl, ?_⟩
  rcases ho.1 with hsubmits | hlen
  · rw [hchannel] at hsubmits
    cases hsubmits
  · exact hlen

end

end RemotePull
