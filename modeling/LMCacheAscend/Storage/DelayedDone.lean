import Mathlib.Data.List.Dedup
import LMCacheAscend.Storage.DelayedPull

/-!
# When the Done of a delayed pull is sent

A call of the connector sends the Done of each context of its batch.  While the
call runs, the proxies of these contexts that can still be got from the store
are among those that it has still to mark (`Inv.calls`); so none is left when it
sends the Done (`done_last`).  This needs batches that take all that is left of
a context: a batch of one of two proxies makes the sender free the pages of the
other (`done_before_second`).
-/

namespace DelayedPull

open Lib PushMode List Dict

/-! ## What every run keeps -/

/-- Every proxy in the store, or got from it, has a context; a context whose proxies are still to
be stored is neither done nor of a call; and the proxies of a call's contexts that are still to be
retrieved are still to be marked. -/
structure Inv (s : System) : Prop where
  stored : ∀ key p, s.data.get? key = some (.proxy p) → p.ctx < s.contexts.length
  held : ∀ p, .proxy p ∈ s.held → p.ctx < s.contexts.length
  handler : ∀ h ctx, s.handler = some h → h.ctx = some ctx →
    ctx < s.contexts.length ∧ h.next = h.msg.keys.length
  named : ∀ call ∈ s.calls, ∀ ctx ∈ call.contexts, ctx < s.contexts.length
  sent : ∀ ctx ∈ s.doneSent, ctx < s.contexts.length
  storing : ∀ ctx, s.Storing ctx → ctx ∉ s.doneSent ∧ ∀ call ∈ s.calls, ctx ∉ call.contexts
  calls : ∀ call ∈ s.calls, ∀ p, s.Retrievable p → p.ctx ∈ call.contexts → p ∈ call.unmarked
  last : s.DoneLast

section

variable {s s' : System}

theorem Inv.init : Inv System.init where
  stored _ _ h := nomatch h
  held _ h := nomatch h
  handler _ _ h := nomatch h
  named _ h := nomatch h
  sent _ h := nomatch h
  storing _ h := by
    obtain ⟨_, h, _⟩ := h
    cases h
  calls _ h := nomatch h
  last _ h := by
    obtain ⟨_, _, h⟩ := h
    cases h

theorem Inv.shrink (h : Inv s) (hdata : ∀ key p, s'.data.get? key = some (.proxy p) →
      s.data.get? key = some (.proxy p))
    (hcontexts : s'.contexts = s.contexts) (hheld : s'.held = s.held) (hcalls : s'.calls ⊆ s.calls)
    (hconsumed : s'.consumed = s.consumed) (hdone : s'.doneSent = s.doneSent)
    (hhandler : ∀ g, s'.handler = some g → g.ctx ≠ none → s.handler = some g) : Inv s' := by
  have hretr : ∀ p, s'.Retrievable p → s.Retrievable p := by
    rintro p ⟨hnot, key, hkey⟩
    rw [hconsumed] at hnot
    exact ⟨hnot, key, hdata key p hkey⟩
  have hstoring : ∀ ctx, s'.Storing ctx → s.Storing ctx := by
    rintro ctx ⟨g, hg, hctx, hlt⟩
    exact ⟨g, hhandler g hg (by rw [hctx]; exact nofun), hctx, hlt⟩
  refine ⟨fun key p hp => ?_, fun p hp => ?_, fun g ctx hg hctx => ?_, fun call hcall => ?_,
    fun ctx hctx => ?_, fun ctx hctx => ?_, fun call hcall p hp => ?_, fun p hp => ?_⟩
  · rw [hcontexts]
    exact h.stored key p (hdata key p hp)
  · rw [hheld] at hp
    rw [hcontexts]
    exact h.held p hp
  · rw [hcontexts]
    exact h.handler g ctx (hhandler g hg (by rw [hctx]; exact nofun)) hctx
  · rw [hcontexts]
    exact h.named call (hcalls hcall)
  · rw [hdone] at hctx
    rw [hcontexts]
    exact h.sent ctx hctx
  · rw [hdone]
    obtain ⟨hnot, hnone⟩ := h.storing ctx (hstoring ctx hctx)
    exact ⟨hnot, fun call hcall => hnone call (hcalls hcall)⟩
  · exact h.calls call (hcalls hcall) p (hretr p hp)
  · rw [hdone]
    exact h.last p (hretr p hp)

theorem get?_pop_proxy {d : Dict Key MemoryObj} {key k : Key} {p : Proxy}
    (h : (d.pop key).get? k = some (.proxy p)) : d.get? k = some (.proxy p) := by
  rw [get?_pop] at h
  split at h
  · cases h
  · exact h

theorem lookup_cases (s : System) (key : Key) :
    (s.lookup key).1 = s ∨ (s.lookup key).1 = { s with data := s.data.pop key } := by
  unfold System.lookup
  split
  · exact .inl rfl
  · exact .inl rfl
  split
  · exact .inr rfl
  · exact .inl rfl

theorem Inv.lookup (h : Inv s) (key : Key) : Inv (s.lookup key).1 := by
  rcases lookup_cases s key with heq | heq
  · rw [heq]
    exact h
  · rw [heq]
    exact h.shrink (fun _ _ hp => get?_pop_proxy hp) rfl rfl (fun _ hc => hc) rfl rfl
      fun _ hg _ => hg

/-! ## The receiver's loop -/

theorem Inv.notify (h : Inv s) {msg : PullReadyNotif} (hs : s.notify msg = some s') : Inv s' := by
  unfold System.notify at hs
  split at hs
  · cases hs
  · cases hs
    refine h.shrink (fun _ _ hp => hp) rfl rfl (fun _ hc => hc) rfl rfl fun g hg hctx => ?_
    cases hg
    exact absurd rfl hctx

theorem Inv.partitionKey (h : Inv s) (hs : s.partitionKey = some s') : Inv s' := by
  unfold System.partitionKey at hs
  simp only [Option.bind_eq_bind] at hs
  obtain ⟨g, hg, hlooked⟩ := Option.bind_eq_some_iff.1 hs
  obtain ⟨key, hkey, hpart⟩ := Option.bind_eq_some_iff.1 hlooked
  have hnone : g.ctx = none := by
    cases hctx : g.ctx with
    | none => rfl
    | some ctx =>
      have hlen := (h.handler g ctx hg hctx).2
      have hlt := lt_of_getElem? hkey
      omega
  have hlookup := h.lookup key
  split at hpart
  · next t obj heq =>
    rw [heq] at hlookup
    cases hpart
    refine hlookup.shrink (fun _ _ hp => hp) rfl rfl (fun _ hc => hc) rfl rfl fun g' hg' hctx => ?_
    cases hg'
    exact absurd hnone hctx
  · next t heq =>
    rw [heq] at hlookup
    cases hpart
    refine hlookup.shrink (fun _ _ hp => hp) rfl rfl (fun _ hc => hc) rfl rfl fun g' hg' hctx => ?_
    cases hg'
    exact absurd hnone hctx

theorem Inv.createContext (h : Inv s) (hs : s.createContext = some s') : Inv s' := by
  unfold System.createContext at hs
  simp only [Option.bind_eq_bind] at hs
  obtain ⟨g, hg, hmade⟩ := Option.bind_eq_some_iff.1 hs
  split at hmade
  case isFalse => cases hmade
  next hguard =>
  cases hmade
  have hgrow : ∀ {n}, n < s.contexts.length →
      n < (s.contexts ++ [(⟨g.msg.senderId, g.msg.pullId, g.newIndexes.length⟩ :
        TransferContext)]).length := by
    intro n hn
    rw [length_append]
    omega
  refine ⟨fun key p hp => hgrow (h.stored key p hp), fun p hp => hgrow (h.held p hp), ?_,
    fun call hcall ctx hctx => hgrow (h.named call hcall ctx hctx),
    fun ctx hctx => hgrow (h.sent ctx hctx), ?_, h.calls, h.last⟩
  · intro g' ctx hg' hctx
    cases hg'
    cases hctx
    refine ⟨?_, hguard.1⟩
    rw [length_append, length_singleton]
    exact Nat.lt_succ_self _
  · rintro ctx ⟨g', hg', hctx, _⟩
    cases hg'
    cases hctx
    exact ⟨fun hmem => Nat.lt_irrefl _ (h.sent _ hmem),
      fun call hcall hmem => Nat.lt_irrefl _ (h.named call hcall _ hmem)⟩

theorem Inv.putProxy (h : Inv s) (hs : s.putProxy = some s') : Inv s' := by
  unfold System.putProxy at hs
  simp only [Option.bind_eq_bind] at hs
  obtain ⟨g, hg, hs1⟩ := Option.bind_eq_some_iff.1 hs
  obtain ⟨ctx, hctx, hs2⟩ := Option.bind_eq_some_iff.1 hs1
  obtain ⟨msgIdx, hidx, hs3⟩ := Option.bind_eq_some_iff.1 hs2
  obtain ⟨key, _, hs4⟩ := Option.bind_eq_some_iff.1 hs3
  obtain ⟨proxy, hproxy, hmade⟩ := Option.bind_eq_some_iff.1 hs4
  cases hmade
  have hpctx : proxy.ctx = ctx := by
    unfold PullReadyNotif.proxy at hproxy
    simp only [Option.bind_eq_bind] at hproxy
    obtain ⟨uuid, _, hp1⟩ := Option.bind_eq_some_iff.1 hproxy
    obtain ⟨memIndex, _, hp2⟩ := Option.bind_eq_some_iff.1 hp1
    cases hp2
    rfl
  obtain ⟨hlt, hnext⟩ := h.handler g ctx hg hctx
  have hstoring : s.Storing ctx := ⟨g, hg, hctx, (lt_of_getElem? hidx)⟩
  obtain ⟨hnot, hnone⟩ := h.storing ctx hstoring
  have hdata : ∀ k p, (s.data.set key (.proxy proxy)).get? k = some (.proxy p) →
      p = proxy ∨ s.data.get? k = some (.proxy p) := by
    intro k p hp
    rw [get?_set] at hp
    split at hp
    · cases hp
      exact .inl rfl
    · exact .inr hp
  refine ⟨fun k p hp => ?_, h.held, ?_, h.named, h.sent, ?_, fun call hcall p hp hmem => ?_,
    fun p hp => ?_⟩
  · rcases hdata k p hp with rfl | hp
    · rw [hpctx]
      exact hlt
    · exact h.stored k p hp
  · intro g' ctx' hg' hctx'
    cases hg'
    exact h.handler g ctx' hg hctx'
  · rintro ctx' ⟨g', hg', hctx', hlt'⟩
    cases hg'
    exact h.storing ctx' ⟨g, hg, hctx', Nat.lt_of_succ_lt hlt'⟩
  · obtain ⟨hnew, k, hk⟩ := hp
    rcases hdata k p hk with rfl | hk
    · rw [hpctx] at hmem
      exact absurd hmem (hnone call hcall)
    · exact h.calls call hcall p ⟨hnew, k, hk⟩ hmem
  · obtain ⟨hnew, k, hk⟩ := hp
    rcases hdata k p hk with rfl | hk
    · rw [hpctx]
      exact hnot
    · exact h.last p ⟨hnew, k, hk⟩

theorem Inv.endHandler (h : Inv s) (hs : s.endHandler = some s') : Inv s' := by
  unfold System.endHandler at hs
  simp only [Option.bind_eq_bind] at hs
  obtain ⟨g, _, hmade⟩ := Option.bind_eq_some_iff.1 hs
  cases hmade
  exact h.shrink (fun _ _ hp => hp) rfl rfl (fun _ hc => hc) rfl rfl fun g hg _ => nomatch hg

theorem Inv.putPage (h : Inv s) (key : Key) (id : Nat) : Inv (s.put key (.page id)) := by
  refine h.shrink (fun k p hp => ?_) rfl rfl (fun _ hc => hc) rfl rfl fun g hg _ => hg
  have hset : (s.data.set key (.page id)).get? k = some (.proxy p) := hp
  rw [get?_set] at hset
  split at hset
  · cases hset
  · exact hset

theorem Inv.remove (h : Inv s) (key : Key) : Inv { s with data := s.data.pop key } :=
  h.shrink (fun _ _ hp => get?_pop_proxy hp) rfl rfl (fun _ hc => hc) rfl rfl fun _ hg _ => hg

/-! ## The engine -/

theorem Inv.get (h : Inv s) {key : Key} (hs : s.get key = some s') : Inv s' := by
  unfold System.get at hs
  simp only [Option.bind_eq_bind] at hs
  obtain ⟨obj, hobj, hmade⟩ := Option.bind_eq_some_iff.1 hs
  cases hmade
  refine ⟨h.stored, fun p hp => ?_, h.handler, h.named, h.sent, h.storing, h.calls, h.last⟩
  rcases mem_append.1 hp with hp | hp
  · exact h.held p hp
  · rw [← mem_singleton.1 hp] at hobj
    exact h.stored key p hobj

theorem mem_proxies {objs : List MemoryObj} {p : Proxy} : p ∈ proxies objs ↔ .proxy p ∈ objs := by
  unfold proxies
  rw [mem_filterMap]
  constructor
  · rintro ⟨obj, hobj, hp⟩
    cases obj with
    | page id => cases hp
    | proxy q =>
      cases hp
      exact hobj
  · intro hp
    exact ⟨.proxy p, hp, rfl⟩

theorem mem_transferContexts {objs : List MemoryObj} {ctx : Nat} :
    ctx ∈ transferContexts objs ↔ ∃ p, .proxy p ∈ objs ∧ p.ctx = ctx := by
  unfold transferContexts
  rw [mem_dedup, mem_map]
  simp only [mem_proxies]

/-- A batch that takes all that is left of its contexts has still to mark all of it. -/
theorem Inv.toGpu (h : Inv s) {objs : List MemoryObj} (hwhole : Whole s (.toGpu objs))
    (hs : s.toGpu objs = some s') : Inv s' := by
  unfold System.toGpu at hs
  split at hs
  case isFalse => cases hs
  next hheld =>
  cases hs
  refine ⟨h.stored, h.held, h.handler, fun call hcall ctx hctx => ?_, h.sent, fun ctx hctx => ?_,
    fun call hcall p hp hmem => ?_, h.last⟩
  · rcases mem_append.1 hcall with hcall | hcall
    · exact h.named call hcall ctx hctx
    · cases mem_singleton.1 hcall
      obtain ⟨p, hp, rfl⟩ := mem_transferContexts.1 hctx
      exact h.held p (hheld hp)
  · obtain ⟨hnot, hnone⟩ := h.storing ctx hctx
    refine ⟨hnot, fun call hcall hmem => ?_⟩
    rcases mem_append.1 hcall with hcall | hcall
    · exact hnone call hcall hmem
    · cases mem_singleton.1 hcall
      exact (hwhole ctx hmem).2 hctx
  · rcases mem_append.1 hcall with hcall | hcall
    · exact h.calls call hcall p hp hmem
    · cases mem_singleton.1 hcall
      exact mem_proxies.2 ((hwhole p.ctx hmem).1 p hp rfl)

theorem mem_set {calls : List ConnectorCall} {n : Nat} {call' c : ConnectorCall}
    (h : c ∈ calls.set n call') : c ∈ calls ∨ c = call' :=
  mem_or_eq_of_mem_set h

theorem Inv.mark (h : Inv s) {n : Nat} (hs : s.mark n = some s') : Inv s' := by
  unfold System.mark at hs
  simp only [Option.bind_eq_bind] at hs
  obtain ⟨call, hcall, hmade⟩ := Option.bind_eq_some_iff.1 hs
  have hin : call ∈ s.calls := mem_of_getElem? hcall
  split at hmade
  · cases hmade
  · next p rest hrest =>
    cases hmade
    have hretr : ∀ q, q ∉ s.consumed ++ [p] ∧ (∃ key, s.data.get? key = some (.proxy q)) →
        s.Retrievable q ∧ q ≠ p := by
      rintro q ⟨hnot, hkey⟩
      rw [mem_append, mem_singleton, not_or] at hnot
      exact ⟨⟨hnot.1, hkey⟩, hnot.2⟩
    refine ⟨h.stored, h.held, h.handler, fun c hc ctx hctx => ?_, h.sent, fun ctx hctx => ?_,
      fun c hc q hq hmem => ?_, fun q hq => h.last q (hretr q hq).1⟩
    · rcases mem_set hc with hc | rfl
      · exact h.named c hc ctx hctx
      · exact h.named call hin ctx hctx
    · obtain ⟨hnot, hnone⟩ := h.storing ctx hctx
      refine ⟨hnot, fun c hc => ?_⟩
      rcases mem_set hc with hc | rfl
      · exact hnone c hc
      · exact hnone call hin
    · obtain ⟨hq, hne⟩ := hretr q hq
      rcases mem_set hc with hc | rfl
      · exact h.calls c hc q hq hmem
      have hleft := h.calls call hin q hq hmem
      rw [hrest] at hleft
      exact (mem_cons.1 hleft).resolve_left hne

/-- A call has marked all proxies when it sends a Done, so none of the context is left. -/
theorem Inv.sendDoneNow (h : Inv s) {n : Nat} (hs : s.sendDoneNow n = some s') : Inv s' := by
  unfold System.sendDoneNow at hs
  simp only [Option.bind_eq_bind] at hs
  obtain ⟨call, hcall, hmade⟩ := Option.bind_eq_some_iff.1 hs
  have hin : call ∈ s.calls := mem_of_getElem? hcall
  split at hmade
  case h_2 => cases hmade
  next ctx rest hunmarked hcontexts =>
  cases hmade
  have hctx : ctx ∈ call.contexts := by
    rw [hcontexts]
    exact mem_cons_self
  have hrest : ∀ c ∈ rest, c ∈ call.contexts := by
    intro c hc
    rw [hcontexts]
    exact mem_cons_of_mem _ hc
  have hsent : ∀ c, (c ∈ if ctx ∈ s.doneSent then s.doneSent else s.doneSent ++ [ctx]) →
      c ∈ s.doneSent ∨ c = ctx := by
    intro c hc
    split at hc
    · exact .inl hc
    rcases mem_append.1 hc with hc | hc
    · exact .inl hc
    · exact .inr (mem_singleton.1 hc)
  refine ⟨h.stored, h.held, h.handler, fun c hc x hx => ?_, fun c hc => ?_, fun c hc => ?_,
    fun c hc p hp hmem => ?_, fun p hp hmem => ?_⟩
  · rcases mem_set hc with hc | rfl
    · exact h.named c hc x hx
    · exact h.named call hin x (hrest x hx)
  · rcases hsent c hc with hc | rfl
    · exact h.sent c hc
    · exact h.named call hin c hctx
  · obtain ⟨hnot, hnone⟩ := h.storing c hc
    refine ⟨fun hmem => ?_, fun c' hc' hmem => ?_⟩
    · rcases hsent c hmem with hmem | rfl
      · exact hnot hmem
      · exact hnone call hin hctx
    · rcases mem_set hc' with hc' | rfl
      · exact hnone c' hc' hmem
      · exact hnone call hin (hrest c hmem)
  · rcases mem_set hc with hc | rfl
    · exact h.calls c hc p hp hmem
    · exact h.calls call hin p hp (hrest _ hmem)
  · rcases hsent p.ctx hmem with hmem | heq
    · exact h.last p hp hmem
    have hleft := h.calls call hin p hp (heq ▸ hctx)
    rw [hunmarked] at hleft
    cases hleft

theorem Inv.raise (h : Inv s) (n : Nat) : Inv (s.raise n) :=
  h.shrink (fun _ _ hp => hp) rfl rfl (eraseIdx_subset) rfl rfl fun _ hg _ => hg

end

/-! ## No Done before the last proxy -/

theorem Inv.inductive : delayMachine.InductiveIf Whole Inv where
  start s hs := by
    have hinit : s = System.init := hs
    subst hinit
    exact Inv.init
  step s a s' h hok hs := by
    have hstep : s.step a = some s' := hs
    cases a with
    | notify msg => exact h.notify hstep
    | partitionKey => exact h.partitionKey hstep
    | createContext => exact h.createContext hstep
    | putProxy => exact h.putProxy hstep
    | endHandler => exact h.endHandler hstep
    | contains key =>
      cases hstep
      exact h.lookup key
    | putPage key id =>
      cases hstep
      exact h.putPage key id
    | remove key =>
      cases hstep
      exact h.remove key
    | get key => exact h.get hstep
    | toGpu objs => exact h.toGpu hok hstep
    | mark n => exact h.mark hstep
    | sendDoneNow n => exact h.sendDoneNow hstep
    | raise n =>
      cases hstep
      exact h.raise n

/-- In every run whose batches take all that is left of their contexts, no context is done while
one of its proxies can still be got from the store. -/
theorem done_last {s : System} (h : delayMachine.ReachableIf Whole s) : s.DoneLast :=
  (Inv.inductive.reachable h).last

/-- Two chunks of one sender. -/
def twoChunks : PullReadyNotif :=
  { pullId := "pull", keys := ["a", "b"], senderBufferUuids := ["uuid", "uuid"],
    senderMemIndexes := [0, 1], senderId := "sender", fmt := ⟨0, 0⟩, shape := [16],
    lastChunkToks := 16 }

def firstChunk : Proxy := ⟨0, 0, "sender", "uuid", 0, [16]⟩

def secondChunk : Proxy := ⟨0, 1, "sender", "uuid", 1, [16]⟩

/-- The two proxies are stored, and the engine gets both. -/
def storeAndGet : List Action :=
  [.notify twoChunks, .partitionKey, .partitionKey, .createContext, .putProxy, .putProxy,
    .endHandler, .get "a", .get "b"]

/-- Both proxies in one batch: the Done comes when none is left. -/
theorem done_last_of_both : ∃ s : System, s.doneSent = [0] ∧ s.DoneLast := by
  obtain ⟨s, hs⟩ : ∃ s, delayMachine.runIf Whole System.init (storeAndGet ++
      [.toGpu [.proxy firstChunk, .proxy secondChunk], .mark 0, .mark 0, .sendDoneNow 0]) =
        some s := ⟨_, rfl⟩
  refine ⟨s, ?_, done_last (.runIf (.start rfl) hs)⟩
  cases hs
  rfl

/-- The sender frees the second page when the first was scattered. -/
theorem done_before_second : ∃ s, delayMachine.Reachable s ∧ ¬ s.DoneLast := by
  obtain ⟨s, hs⟩ : ∃ s, delayMachine.run System.init (storeAndGet ++
      [.toGpu [.proxy firstChunk], .mark 0, .sendDoneNow 0]) = some s := ⟨_, rfl⟩
  refine ⟨s, Machine.reachable_of_run rfl hs, fun h => ?_⟩
  cases hs
  refine h secondChunk ⟨?_, "b", rfl⟩ ?_
  · decide
  · decide

end DelayedPull
