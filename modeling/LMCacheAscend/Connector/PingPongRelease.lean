import Mathlib.Data.List.Count
import Mathlib.Data.List.Dedup
import Mathlib.Tactic.IntervalCases
import LMCacheAscend.Connector.PingPongOrder

/-!
# The clean-up of a pull

The `finally` block waits for the load stream, returns the pools and sends each
context's Done.  The load stream has waited for every read when the pipeline
returns, so nothing is outstanding then (`Released`); and the same holds when a
command raises before the first read was submitted, or after the load stream
was told to wait for the last one (`released`).  When a command raises in
between, a read that the load stream does not wait for is outstanding on the
transport stream, and the clean-up does not wait for that stream
(`done_overtakes_read`).
-/

namespace RemotePull

open Lib List

/-! ## What lets go of a buffer -/

/-- The command at a place reads into a buffer or scatters from one. -/
def Uses (p : List Command) (i : Nat) : Prop := (∃ t, ReadAt p i t) ∨ ∃ x, ScatterAt p i x

/-- The commands that let go of the buffers, or of the producer's pages. -/
inductive Frees : Command → Prop
  | release (pool : Bool) : Frees (.call (.release pool))
  | done (ctx : Nat) : Frees (.call (.done ctx))

/-- Each pool that was allocated is released once, each context that was not done before gets one
Done, and before that, in every schedule of the device, all reads and scatters are over. -/
structure Released (c : Call) (done : List Nat) (s : Pull) : Prop where
  pools : ∀ pool, s.trace.count (.call (.release pool)) = if (s.pools pool).isSome then 1 else 0
  done : ∀ ctx, s.trace.count (.call (.done ctx)) =
    if ctx ∈ contexts c ∧ ctx ∉ done then 1 else 0
  idle : ∀ (S : Schedule s.trace) i j cmd, Uses s.trace i → s.trace[j]? = some cmd → Frees cmd →
    S.finish i ≤ S.start j

/-! ## The commands of the clean-up -/

variable (pools : Bool → Option (List Buffer))

def releases (pool : Bool) : List Command :=
  if (pools pool).isSome then [.call (.release pool)] else []

def dones (c : Call) (doneSent : List Nat) : List Command :=
  ((contexts c).filter fun ctx => ctx ∉ doneSent).map fun ctx => .call (.done ctx)

def cleanUpCommands (c : Call) (s : Pull) : List Command :=
  releases s.pools false ++ releases s.pools true ++ dones c s.doneSent

/-- A command that scatters an ordinary object. -/
def Plain (cmd : Command) : Prop := ∃ id start stop, cmd = .launch .load (.scatterPlain id start stop)

section

variable {c : Call} {env : Env}

variable {cmd : Command} {s : Pull} {done : List Nat}

theorem wp_releasePool (htol : ToleratesAll c env) (pool : Bool) (s : Pull) :
    wp (releasePool env (.call (.release pool)) pool)
      (post (fun _ s' => s'.trace = s.trace ++ releases s.pools pool ∧
        s'.pools = s.pools ∧ s'.doneSent = s.doneSent) fun _ _ => False) s := by
  unfold releasePool
  rw [wp_get_bind]
  unfold onlyIf releases
  rw [wp_ite]
  split
  · exact (wp_emit_returns (htol.release _ pool trivial)).2 ⟨rfl, rfl, rfl⟩
  · exact ⟨(append_nil _).symm, rfl, rfl⟩

theorem wp_sendDones {l : List Nat} (hl : l.Nodup) (s : Pull) :
    wp (l.forM (sendDoneNow fun ctx => .call (.done ctx))) (post (fun _ s' =>
      s'.trace = s.trace ++ (l.filter fun ctx => ctx ∉ s.doneSent).map (fun ctx =>
        .call (.done ctx)) ∧ s'.pools = s.pools) fun _ _ => False) s := by
  induction l generalizing s with
  | nil => exact ⟨(append_nil _).symm, rfl⟩
  | cons ctx l ih =>
    obtain ⟨hctx, hl⟩ := nodup_cons.1 hl
    change wp (sendDoneNow _ ctx >>= fun _ => l.forM _) _ s
    rw [wp_bind]
    unfold sendDoneNow
    rw [wp_get_bind]
    unfold onlyIf
    rw [wp_ite]
    split
    · next hnew =>
      rw [wp_modify, post_ok]
      refine wp_ok (ih hl _) fun u s' hs' => ?_
      obtain ⟨htrace, hpools⟩ := hs'
      refine ⟨?_, hpools⟩
      have hsame : (l.filter fun x => x ∉ s.doneSent ++ [ctx]) =
          l.filter fun x => x ∉ s.doneSent := by
        refine filter_congr fun x hx => ?_
        have hne : x ≠ ctx := fun h => hctx (h ▸ hx)
        simp [hne]
      rw [htrace, hsame, filter_cons_of_pos (by simpa using hnew), map_cons]
      exact append_assoc _ _ _
    · next hold =>
      rw [wp_pure, post_ok]
      refine wp_ok (ih hl s) fun u s' hs' => ?_
      rw [filter_cons_of_neg (by simpa using hold)]
      exact hs'

theorem nodup_contexts (c : Call) : (contexts c).Nodup := nodup_dedup _

theorem wp_cleanUp (htol : ToleratesAll c env) (s : Pull) :
    wp (cleanUp env c) (post (fun _ s' =>
      s'.trace = s.trace ++ .sync .load :: cleanUpCommands c s ∧ s'.pools = s.pools)
      fun _ _ => False) s := by
  unfold cleanUp
  rw [wp_bind]
  refine (wp_emit_returns (htol.sync _ trivial)).2 ?_
  rw [post_ok]
  refine wp_bind_ok (wp_releasePool htol false _) fun u s1 h1 => ?_
  obtain ⟨htrace1, hpools1, hdone1⟩ := h1
  refine wp_bind_ok (wp_releasePool htol true s1) fun u s2 h2 => ?_
  obtain ⟨htrace2, hpools2, hdone2⟩ := h2
  rw [wp_modify_bind]
  refine wp_ok (wp_sendDones (nodup_contexts c) _) fun u s3 h3 => ?_
  obtain ⟨htrace3, hpools3⟩ := h3
  refine ⟨?_, hpools3.trans (hpools2.trans hpools1)⟩
  rw [htrace3, htrace2, htrace1, hdone2, hdone1, hpools1]
  unfold cleanUpCommands dones PullOf.push
  simp only [append_assoc, nil_append, cons_append]

theorem wp_plain (l : List (Nat × Nat × Nat)) (s : Pull) :
    wp (l.forM fun e => emit env (.launch .load (.scatterPlain e.1 e.2.1 e.2.2)))
      (fun _ s' => Issues Plain s s' ∧ s'.pools = s.pools) s := by
  have hissues : Pushes Plain fun s s' => Issues Plain s s' ∧ s'.pools = s.pools :=
    ⟨fun s cmd h => ⟨(pushes_issues Plain).push s cmd h, rfl⟩⟩
  exact Preserves.forM (fun e _ => hissues.emit ⟨_, _, _, rfl⟩) s

theorem doneSent_pullProxies : Preserves (fun s s' : Pull => s'.doneSent = s.doneSent)
    (pullProxies env c) := by
  have hR : Pushes (Pipelined c) fun s s' : Pull => s'.doneSent = s.doneSent :=
    ⟨fun _ _ _ => rfl⟩
  exact hR.pullProxies fun _ _ => rfl

/-- The commands of a call with proxies: the pipeline, the wait for the load stream, the clean-up,
the ordinary objects. -/
def Shape (c : Call) (done : List Nat) (s : Pull) : Prop :=
  ∃ q s0 more, s.trace = q ++ .sync .load :: (cleanUpCommands c s0 ++ more) ∧
    (∀ cmd ∈ q, Pipelined c cmd) ∧ (∀ cmd ∈ more, Plain cmd) ∧ Core c q ∧ Waited q [] ∧
    s0.pools = s.pools ∧ s0.doneSent = done

theorem Shape.plain {s s' : Pull} (h : Shape c done s)
    (hissues : Issues Plain s s') (hpools : s'.pools = s.pools) : Shape c done s' := by
  obtain ⟨q, s0, more, htrace, hq, hmore, hcore, hwaited, hp, hd⟩ := h
  obtain ⟨next, hnext, hnextK⟩ := hissues
  refine ⟨q, s0, more ++ next, ?_, hq, fun cmd hcmd => ?_, hcore, hwaited, hp.trans hpools.symm, hd⟩
  · rw [hnext, htrace]
    simp only [append_assoc, cons_append]
  · rcases mem_append.1 hcmd with hcmd | hcmd
    · exact hmore cmd hcmd
    · exact hnextK cmd hcmd

theorem shape_cleanUp (htol : ToleratesAll c env)
    (raised : Option Raised) (hcore : Core c s.trace) (hwaited : Waited s.trace [])
    (hissues : Issues (Pipelined c) (PullOf.init done) s) (hdone : s.doneSent = done) :
    wp (do cleanUp env c; reraise raised) (fun _ s' => Shape c done s') s := by
  obtain ⟨q, hq, hqK⟩ := hissues
  have hq1 : s.trace = q := hq
  refine wp_bind_returns (wp_cleanUp htol s) fun u s2 h2 => ?_
  obtain ⟨htrace, hpools⟩ := h2
  have hshape : Shape c done s2 :=
    ⟨s.trace, s, [], by rw [htrace, append_nil], hq1 ▸ hqK, fun _ h => (nomatch h), hcore,
      hwaited, hpools.symm, hdone⟩
  cases raised with
  | none | some => exact hshape

theorem wp_shape (htol : ToleratesAll c env) (done : List Nat) (hne : proxyItems c.items ≠ []) :
    wp (remoteBatchedToGpu env c) (fun _ s' => Shape c done s') (PullOf.init done) := by
  have hboth : wp (pullProxies env c) (fun r s' =>
      post (fun _ s' => Core c s'.trace ∧ Waited s'.trace []) (fun _ s' => Err c env s'.trace)
        r s' ∧ Issues (Pipelined c) (PullOf.init done) s' ∧ s'.doneSent = done)
      (PullOf.init done) :=
    ⟨wp_pullProxies (top_nil c), (pushes_issues _).pullProxies (issues_pools _) _,
      doneSent_pullProxies _⟩
  unfold remoteBatchedToGpu
  rw [wp_bind]
  unfold onlyIf
  rw [if_pos hne, wp_bind, wp_caught]
  refine wp_mono hboth ?_
  have hthen : ∀ (raised : Option Raised) (s1 : Pull), Core c s1.trace → Waited s1.trace [] →
      Issues (Pipelined c) (PullOf.init done) s1 → s1.doneSent = done →
      wp (do cleanUp env c; reraise raised) (post (fun _ s' =>
        wp ((c.items.filterMap Item.plain?).forM fun e =>
          emit env (.launch .load (.scatterPlain e.1 e.2.1 e.2.2)))
          (fun _ s' => Shape c done s') s') fun _ s' => Shape c done s') s1 := by
    intro raised s1 hcore hwaited hissues hdone
    refine wp_cases (shape_cleanUp htol raised hcore hwaited hissues hdone) (fun _ _ h => h)
      fun u s2 h2 => ?_
    exact wp_mono (wp_plain _ s2) fun _ s3 h3 => h2.plain h3.1 h3.2
  rintro (e | u) s1 ⟨h1, hissues, hdone⟩
  · exact hthen (some e) s1 h1.core (h1.waited htol) hissues hdone
  · exact hthen none s1 h1.1 h1.2 hissues hdone

/-! ## Nothing is outstanding -/

theorem uses_pipelined {q r : List Command} {i : Nat} (hr : ∀ cmd ∈ r, reads cmd = [] ∧
    scatter? cmd = none) (h : Uses (q ++ r) i) : i < q.length ∧ Uses q i := by
  have hlt : ∀ cmd, (q ++ r)[i]? = some cmd → (reads cmd ≠ [] ∨ scatter? cmd ≠ none) →
      i < q.length := by
    intro cmd hcmd huse
    rcases Nat.lt_or_ge i q.length with hi | hi
    · exact hi
    rw [getElem?_append_right hi] at hcmd
    obtain ⟨hreads, hscatter⟩ := hr cmd (mem_of_getElem? hcmd)
    rcases huse with huse | huse
    · exact absurd hreads huse
    · exact absurd hscatter huse
  rcases h with ⟨t, ht⟩ | ⟨x, hx⟩
  · obtain ⟨cmd, hcmd, hmem⟩ := id ht
    have hi := hlt cmd hcmd (.inl (ne_nil_of_mem hmem))
    exact ⟨hi, .inl ⟨t, ht.of_append rfl hi⟩⟩
  · obtain ⟨cmd, hcmd, hsc⟩ := id hx
    have hi := hlt cmd hcmd (.inr (by rw [hsc]; exact nofun))
    exact ⟨hi, .inr ⟨x, hx.of_append rfl hi⟩⟩

theorem idle_sync {q : List Command} (hcore : Core c q) (hwaited : Waited q []) {i : Nat}
    (h : Uses q i) : (known (q ++ [.sync .load])).host i := by
  rw [known_append]
  rcases h with ⟨t, ht⟩ | ⟨x, hx⟩
  · rcases hwaited i t ht with hw | hw | ⟨e, he, _⟩
    · exact Known.host_sync hw
    · exact Known.host_add _ hw
    · cases he
  · exact Known.host_sync (hcore.scatters i x hx)

theorem Pipelined.not_frees (h : Pipelined c cmd) : ¬ Frees cmd := by
  intro hf
  cases h with
  | read batch backed _ _ =>
    cases hchannel : c.channel <;> rw [hchannel] at hf <;> cases hf
  | _ => cases hf

/-! ### How often -/

theorem count_eq_zero_of {l : List Command} {K : Command → Prop}
    (hl : ∀ d ∈ l, K d) (hcmd : ¬ K cmd) : l.count cmd = 0 :=
  count_eq_zero.2 fun h => hcmd (hl cmd h)

theorem plain_not_frees (h : Plain cmd) : ¬ Frees cmd := by
  obtain ⟨_, _, _, rfl⟩ := h
  intro hf
  cases hf

theorem count_release_releases (pool b : Bool) :
    (releases pools b).count (.call (.release pool)) =
      if b = pool ∧ (pools pool).isSome then 1 else 0 := by
  unfold releases
  by_cases hb : b = pool
  · subst hb
    split
    · next h =>
      rw [if_pos ⟨rfl, h⟩, count_singleton_self]
    · next h =>
      rw [if_neg fun hc => h hc.2, count_nil]
  · have hne : ¬ (b = pool ∧ (pools pool).isSome) := fun hc => hb hc.1
    rw [if_neg hne]
    refine count_eq_zero.2 fun hmem => hb ?_
    split at hmem
    · cases mem_singleton.1 hmem
      rfl
    · cases hmem

theorem count_done_releases (b : Bool) (ctx : Nat) :
    (releases pools b).count (.call (.done ctx)) = 0 := by
  unfold releases
  split
  · refine count_eq_zero.2 fun hmem => ?_
    cases mem_singleton.1 hmem
  · rfl

theorem count_release_dones (done : List Nat) (pool : Bool) :
    (dones c done).count (.call (.release pool)) = 0 := by
  refine count_eq_zero.2 fun hmem => ?_
  obtain ⟨_, _, heq⟩ := mem_map.1 hmem
  cases heq

theorem count_done_dones (done : List Nat) (ctx : Nat) :
    (dones c done).count (.call (.done ctx)) = if ctx ∈ contexts c ∧ ctx ∉ done then 1 else 0 := by
  have hinj : Function.Injective fun ctx : Nat => (.call (.done ctx) : Command) := by
    intro a b hab
    cases hab
    rfl
  unfold dones
  rw [count_map_of_injective _ _ hinj, ((nodup_contexts c).filter _).count]
  simp only [mem_filter, decide_eq_true_eq]

theorem Shape.count (h : Shape c done s)
    (hf : Frees cmd) : ∃ s0, s0.pools = s.pools ∧ s0.doneSent = done ∧
      s.trace.count cmd = (cleanUpCommands c s0).count cmd := by
  obtain ⟨q, s0, more, htrace, hq, hmore, _, _, hpools, hdone⟩ := h
  refine ⟨s0, hpools, hdone, ?_⟩
  have hsync : (.sync .load : Command) ≠ cmd := by
    rintro rfl
    cases hf
  have hq0 : q.count cmd = 0 := count_eq_zero_of hq fun hp => hp.not_frees hf
  have hmore0 : more.count cmd = 0 := count_eq_zero_of hmore fun hp => plain_not_frees hp hf
  rw [htrace, count_append, count_cons_of_ne hsync, count_append, hq0, hmore0,
    Nat.zero_add, Nat.add_zero]

theorem frees_of_mem_cleanUp (h : cmd ∈ cleanUpCommands c s) :
    Frees cmd := by
  have hreleases : ∀ b, cmd ∈ releases s.pools b → Frees cmd := by
    intro b hb
    unfold releases at hb
    split at hb
    · cases mem_singleton.1 hb
      exact .release b
    · cases hb
  rcases mem_append.1 h with h | h
  · rcases mem_append.1 h with h | h
    · exact hreleases false h
    · exact hreleases true h
  · obtain ⟨ctx, _, rfl⟩ := mem_map.1 h
    exact .done ctx

theorem Frees.uses_nothing (h : Frees cmd) :
    reads cmd = [] ∧ scatter? cmd = none := by
  cases h <;> exact ⟨rfl, rfl⟩

theorem Shape.givenUp (h : Shape c done s) : Released c done s where
  pools := fun pool => by
    obtain ⟨s0, hpools, _, hcount⟩ := h.count (.release pool)
    rw [hcount]
    unfold cleanUpCommands
    rw [count_append, count_append, count_release_releases, count_release_releases,
      count_release_dones, hpools]
    cases pool <;> simp
  done := fun ctx => by
    obtain ⟨s0, _, hdone, hcount⟩ := h.count (.done ctx)
    rw [hcount]
    unfold cleanUpCommands
    rw [count_append, count_append, count_done_releases, count_done_releases,
      count_done_dones, hdone, Nat.zero_add]
  idle := fun S i j cmd huse hcmd hf => by
    obtain ⟨q, s0, more, htrace, hq, hmore, hcore, hwaited, _, _⟩ := h
    have hrest : ∀ d ∈ .sync .load :: (cleanUpCommands c s0 ++ more),
        reads d = [] ∧ scatter? d = none := by
      intro d hd
      rcases mem_cons.1 hd with rfl | hd
      · exact ⟨rfl, rfl⟩
      rcases mem_append.1 hd with hd | hd
      · exact (frees_of_mem_cleanUp hd).uses_nothing
      · obtain ⟨_, _, _, rfl⟩ := hmore d hd
        exact ⟨rfl, rfl⟩
    obtain ⟨hi, huse⟩ := uses_pipelined hrest (htrace ▸ huse)
    obtain ⟨a, b, hsplit, rfl⟩ := exists_split hcmd
    refine S.sound hsplit (.inl ?_)
    -- what comes before starts with the pipeline and the wait
    have hlen : (q ++ [.sync .load] : List Command).length ≤ a.length := by
      rw [length_append, length_singleton]
      refine Nat.lt_of_not_le fun hle => ?_
      rw [htrace] at hcmd
      rcases Nat.lt_or_eq_of_le hle with hlt | heq
      · rw [getElem?_append_left hlt] at hcmd
        exact (hq cmd (mem_of_getElem? hcmd)).not_frees hf
      · rw [heq, getElem?_append_right (Nat.le_refl _), Nat.sub_self] at hcmd
        cases hcmd
        cases hf
    have hshape : s.trace = q ++ [.sync .load] ++ (cleanUpCommands c s0 ++ more) := by
      rw [htrace, append_assoc]
      rfl
    have hleft : q ++ [.sync .load] <+: s.trace := ⟨_, hshape.symm⟩
    have hright : a <+: s.trace := ⟨_, hsplit.symm⟩
    obtain ⟨more', rfl⟩ := prefix_of_prefix_length_le hleft hright hlen
    exact host_known_append (idle_sync hcore hwaited huse) more'

theorem released_of_no_proxy (hnil : proxyItems c.items = []) :
    wp (remoteBatchedToGpu env c) (fun _ s' => Released c done s') (PullOf.init done) := by
  unfold remoteBatchedToGpu onlyIf
  rw [wp_bind, if_neg (not_not.2 hnil), wp_pure, post_ok]
  refine wp_mono (wp_plain _ _) fun _ s' h => ?_
  obtain ⟨⟨more, hmore, hplain⟩, hpools⟩ := h
  have htrace : s'.trace = more := hmore
  have hcount : ∀ {cmd}, Frees cmd → s'.trace.count cmd = 0 := fun hf => by
    rw [htrace]
    exact count_eq_zero_of hplain fun hp => plain_not_frees hp hf
  refine ⟨fun pool => ?_, fun ctx => ?_, fun S i j cmd _ hcmd hf => ?_⟩
  · rw [hcount (.release pool), hpools]
    rfl
  · rw [hcount (.done ctx), if_neg]
    unfold contexts
    rw [hnil]
    exact fun h => nomatch h.1
  · rw [htrace] at hcmd
    exact absurd hf (plain_not_frees (hplain cmd (mem_of_getElem? hcmd)))

end

/-! ## The answers that are looked at -/

/-- A program adds to the trace, and looks at the answers behind prefixes of it only. -/
structure Asks {α : Type} (f : Env → PullM α) : Prop where
  grows : ∀ env s, s.trace <+: (f env s).2.trace
  agrees : ∀ env env' s, (∀ q, q <+: (f env s).2.trace → env q = env' q) → f env' s = f env s

section

variable {α β : Type} {f : Env → PullM α} {g : α → Env → PullM β}

theorem Asks.of_const {p : PullM α} (h : ∀ s, s.trace <+: (p s).2.trace) : Asks fun _ => p :=
  ⟨fun _ => h, fun _ _ _ _ => rfl⟩

theorem Asks.pure (a : α) : Asks fun _ => (Pure.pure a : PullM α) := .of_const fun _ => prefix_rfl

theorem Asks.bind (hf : Asks f) (hg : ∀ a, Asks (g a)) :
    Asks fun env => f env >>= fun a => g a env := by
  constructor
  · intro env s
    have hgrows := hf.grows env s
    simp only [run_bind]
    rcases hrun : f env s with ⟨e | a, s'⟩
    · rwa [hrun] at hgrows
    · rw [hrun] at hgrows
      exact hgrows.trans ((hg a).grows env s')
  · intro env env' s h
    simp only [run_bind] at h ⊢
    rcases hrun : f env s with ⟨e | a, s'⟩
    · rw [hrun] at h
      rw [hf.agrees env env' s (by rwa [hrun]), hrun]
    rw [hrun] at h
    rw [hf.agrees env env' s fun q hq => h q (hq.trans ?_), hrun]
    · exact (hg a).agrees env env' s' h
    · rw [hrun]
      exact (hg a).grows env s'

theorem Asks.tryCatch {g : Raised → Env → PullM α} (hf : Asks f) (hg : ∀ e, Asks (g e)) :
    Asks fun env => (MonadExcept.tryCatch (f env) fun e => g e env : PullM α) := by
  constructor
  · intro env s
    have hgrows := hf.grows env s
    simp only [run_tryCatch]
    rcases hrun : f env s with ⟨e | a, s'⟩
    · rw [hrun] at hgrows
      exact hgrows.trans ((hg e).grows env s')
    · rwa [hrun] at hgrows
  · intro env env' s h
    simp only [run_tryCatch] at h ⊢
    rcases hrun : f env s with ⟨e | a, s'⟩
    · rw [hrun] at h
      rw [hf.agrees env env' s fun q hq => h q (hq.trans ?_), hrun]
      · exact (hg e).agrees env env' s' h
      · rw [hrun]
        exact (hg e).grows env s'
    · rw [hrun] at h
      rw [hf.agrees env env' s (by rwa [hrun]), hrun]

theorem Asks.forM {g : α → Env → PullM PUnit} (hg : ∀ a, Asks (g a)) (l : List α) :
    Asks fun env => l.forM fun a => g a env := by
  induction l with
  | nil => exact .pure _
  | cons a l ih => exact (hg a).bind fun _ => ih

theorem Asks.onlyIf {f : Env → PullM PUnit} (c : Prop) [Decidable c] (hf : Asks f) :
    Asks fun env => RemotePull.onlyIf c (f env) := by
  unfold RemotePull.onlyIf
  split
  · exact hf
  · exact .pure _

theorem asks_emit (cmd : Command) : Asks fun env => emit env cmd := by
  have hgrows : ∀ env s, s.trace <+: (emit env cmd s).2.trace := fun env s =>
    wp_emit (Q := fun _ s' => s.trace <+: s'.trace) (prefix_append _ _) (fun _ => prefix_rfl)
      fun _ => prefix_append _ _
  refine ⟨hgrows, fun env env' s h => ?_⟩
  have hanswer := h s.trace (hgrows env s)
  refine run_bind_congr fun a s' hs => ?_
  cases hs
  rw [hanswer]

theorem asks_allocateBuffers (cmd : Command) (pool : Bool) (count : Nat) :
    Asks fun env => allocateBuffers env cmd pool count := by
  have hgrows : ∀ env s, s.trace <+: (allocateBuffers env cmd pool count s).2.trace := fun env s =>
    wp_allocateBuffers (Q := fun _ s' => s.trace <+: s'.trace) (fun _ _ => prefix_append _ _)
      fun _ => prefix_rfl
  refine ⟨hgrows, fun env env' s h => ?_⟩
  have hanswer := h s.trace (hgrows env s)
  refine run_bind_congr fun a s' hs => ?_
  cases hs
  rw [hanswer]

theorem asks_setBackingObjs (pool : List Buffer) (batch : List ProxyItem) :
    Asks fun _ => setBackingObjs pool batch := by
  unfold setBackingObjs
  split
  · exact .pure _
  · exact .of_const fun _ => prefix_rfl

theorem asks_submitResolveBatch (channel : Channel) (batchIdx : Nat) (batch : List Backed) :
    Asks fun env => submitResolveBatch env channel batchIdx batch := by
  cases channel with
  | submits => exact (asks_emit _).bind fun _ => (asks_emit _).bind fun _ => .pure _
  | synchronous => exact (asks_emit _).bind fun _ => .pure _

theorem asks_scatterProxyBatch (batch : List Backed) (event : Option Event) :
    Asks fun env => scatterProxyBatch env batch event := by
  cases event with
  | none => exact .forM (fun b => asks_emit _) batch
  | some e => exact (asks_emit _).bind fun _ => .forM (fun b => asks_emit _) batch

theorem asks_pingPong (channel : Channel) (pools : Bool → List Buffer)
    (batches : List (List ProxyItem)) (batchIdx : Nat) (currentPool : Bool)
    (recorded : Bool → Bool) (prev : Option (List Backed × Option Event)) :
    Asks fun env => pingPong env channel pools batches batchIdx currentPool recorded prev := by
  induction batches generalizing batchIdx currentPool recorded prev with
  | nil =>
    cases prev with
    | none => exact .pure _
    | some prev => exact asks_scatterProxyBatch _ _
  | cons batch rest ih =>
    refine (Asks.onlyIf _ (asks_emit _)).bind fun _ => (asks_setBackingObjs _ _).bind fun _ =>
      (asks_submitResolveBatch _ _ _).bind fun _ => ?_
    cases prev with
    | none => exact ih _ _ _ _
    | some prev =>
      exact (asks_scatterProxyBatch _ _).bind fun _ => (asks_emit _).bind fun _ => ih _ _ _ _

theorem asks_releasePool (cmd : Command) (pool : Bool) : Asks fun env => releasePool env cmd pool :=
  (Asks.of_const fun _ => prefix_rfl).bind fun _ => .onlyIf _ (asks_emit _)

theorem asks_cleanUp (c : Call) : Asks fun env => cleanUp env c := by
  refine (asks_emit _).bind fun _ => (asks_releasePool _ _).bind fun _ =>
    (asks_releasePool _ _).bind
    fun _ => (Asks.of_const fun _ => prefix_rfl).bind fun _ => .forM (fun ctx => ?_) _
  refine (Asks.of_const fun _ => prefix_rfl).bind fun s => .onlyIf _ (.of_const fun _ => ?_)
  exact prefix_append _ _

theorem asks_remoteBatchedToGpu (c : Call) : Asks fun env => remoteBatchedToGpu env c := by
  have hpull : Asks fun env => pullProxies env c :=
    (asks_allocateBuffers _ _ _).bind fun _ => (asks_allocateBuffers _ _ _).bind fun _ =>
      asks_pingPong _ _ _ _ _ _ _
  refine (Asks.onlyIf _ ?_).bind fun _ => .forM (fun _ => asks_emit _) _
  refine (Asks.tryCatch (hpull.bind fun _ => .pure _) fun _ => .pure _).bind fun raised =>
    (asks_cleanUp c).bind fun _ => ?_
  cases raised with
  | none => exact .pure _
  | some e => exact .of_const fun _ => prefix_rfl

end

/-! ## Release after completion -/

/-- The commands of the call. -/
def commands (env : Env) (c : Call) (done : List Nat) : List Command :=
  (remoteBatchedToGpu env c (PullOf.init done)).2.trace

/-- The pools are returned once, each context gets one Done, and nothing is outstanding then,
whatever command of the call raises, but with a channel that submits its reads none between the
first read and the wait for the last one. -/
theorem released {c : Call} {env : Env} {done : List Nat}
    (htol : Tolerates c env fun q => q <+: commands env c done) :
    Released c done (remoteBatchedToGpu env c (PullOf.init done)).2 := by
  -- the answers of `env` where the call looks at them
  let seen : Env := fun q cmd => if q <+: commands env c done then env q cmd else .returns
  have hseen : ∀ q, q <+: commands env c done → env q = seen q := fun q hq => by
    funext cmd
    exact (if_pos hq).symm
  have hall : ToleratesAll c seen := by
    refine ⟨fun hchannel q cmd _ => ?_, fun q _ => ?_, fun q pool _ => ?_⟩ <;>
      by_cases hq : q <+: commands env c done
    · rw [← hseen q hq]
      exact htol.pipeline hchannel q cmd hq
    · exact .inl (if_neg hq)
    · rw [← hseen q hq]
      exact htol.sync q hq
    · exact if_neg hq
    · rw [← hseen q hq]
      exact htol.release q pool hq
    · exact if_neg hq
  rw [← (asks_remoteBatchedToGpu c).agrees env seen (PullOf.init done) hseen]
  have hrun : wp (remoteBatchedToGpu seen c) (fun _ s' => Released c done s')
      (PullOf.init done) := by
    by_cases hnil : proxyItems c.items = []
    · exact released_of_no_proxy hnil
    · exact wp_mono (wp_shape hall done hnil) fun _ _ h => h.givenUp
  exact hrun

/-- Two proxies of one peer with pools of one buffer, on a channel that submits its reads. -/
def twoProxies : Call :=
  { items := [⟨.proxy ⟨0, "peer", "uuid", 0⟩, 0, 16⟩, ⟨.proxy ⟨0, "peer", "uuid", 1⟩, 16, 32⟩]
    channel := .submits
    allocator := ⟨1, 2⟩ }

/-- The scatter of one object raises, if the commands before allow it. -/
def scatterRaises (item : Nat) (allowed : List Command → Bool) : Env := fun p cmd =>
  match scatter? cmd with
  | some x => if x.item = item ∧ allowed p then .raisesBefore else .returns
  | none => .returns

theorem tolerates_scatterRaises (item : Nat) (reached : List Command → Prop) :
    Tolerates twoProxies (scatterRaises item fun p => lastWait twoProxies ∈ p) reached where
  pipeline _ q cmd _ := by
    unfold scatterRaises
    cases hsc : scatter? cmd with
    | none => exact .inl rfl
    | some x =>
      by_cases hlast : lastWait twoProxies ∈ q
      · exact .inr (.inr (.inl hlast))
      · refine .inl (if_neg fun h => hlast ?_)
        exact of_decide_eq_true h.2
  sync _ _ := rfl
  release _ _ _ := rfl

/-- The last scatter raises: each buffer is returned once, and nothing is outstanding. -/
theorem released_last_scatter : Released twoProxies []
    (remoteBatchedToGpu (scatterRaises 1 fun p => lastWait twoProxies ∈ p) twoProxies
      (PullOf.init [])).2 :=
  released (tolerates_scatterRaises 1 _)

/-- The scatter of the first object raises when the read of the second was submitted. -/
theorem trace_first_scatter :
    (remoteBatchedToGpu (scatterRaises 0 fun _ => true) twoProxies (PullOf.init [])).2.trace =
      [.call (.allocate false), .call (.allocate true),
        .launch .transport (.read [⟨0, "peer", "uuid", 0, ⟨false, 0⟩⟩]),
        .record (.read 0) .transport,
        .launch .transport (.read [⟨1, "peer", "uuid", 1, ⟨true, 0⟩⟩]),
        .record (.read 1) .transport, .wait .load (.read 0),
        .sync .load, .call (.release false), .call (.release true), .call (.done 0)] := by
  decide

/-- The pools are returned, and Done is sent, while the transport stream may still read. -/
theorem done_overtakes_read : ¬ Released twoProxies []
    (remoteBatchedToGpu (scatterRaises 0 fun _ => true) twoProxies (PullOf.init [])).2 := by
  intro h
  have hidle := h.idle
  rw [trace_first_scatter] at hidle
  generalize hp : ([.call (.allocate false), _, _, _, _, _, _, _, _, _, _] : List Command) = p
    at hidle
  have hwait : ∀ r j e t, 4 ≤ r → r < j → j < 11 → p[r]? = some (.record e .transport) →
      p[j]? ≠ some (.wait t e) := by
    subst hp
    intro r j e t hr hrj hj hrecord hwait
    interval_cases j <;> interval_cases r <;> first | cases hrecord; cases hwait | cases hrecord
  have hsync : ∀ j, 4 ≤ j → j < 11 → p[j]? ≠ some (.sync .transport) := by
    subst hp
    intro j hj hj' hsync
    interval_cases j <;> cases hsync
  -- the transport stream is late from the second read on
  have hle := hidle (Schedule.delay p .transport 4 11 hwait hsync) 4 10 (.call (.done 0))
    (.inl ⟨⟨1, "peer", "uuid", 1, ⟨true, 0⟩⟩, _, by subst hp; rfl, mem_cons_self⟩)
    (by subst hp; rfl) (.done 0)
  have hlt : Schedule.late p .transport 4 11 10 < Schedule.late p .transport 4 11 4 := by
    refine Schedule.late_lt ?_ (Nat.le_refl 4) (by decide) (by decide) ?_
    · subst hp
      exact ⟨_, rfl, rfl⟩
    · subst hp
      decide
  exact absurd hle (Nat.not_le_of_lt hlt)

end RemotePull
