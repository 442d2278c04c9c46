import Mathlib.Data.Rat.Floor
import LMCacheAscend.Storage.PullPending

/-!
# Backpressure of the PD sender

`_wait_for_backpressure` checks a request against the high-water mark, which is the
buffer pool less a reserve.  With nothing pinned it returns exactly for requests up to
the mark, so a request between the mark and the pool waits for ever.  The check and the
registration are two lock regions: the mark holds in the runs whose submissions count
what the calls in progress are about to pin (`Reserved`).

Floating point rounding is a parameter of the mark.
-/

namespace PullSender

open Lib List Option Dict

/-! ## The mark -/

structure Pool where
  bufferSize : Nat
  alignBytes : Nat
  /-- `pd_pull_backpressure_reserve_pct`. -/
  reservePct : ℚ

variable (pool : Pool) {call : Call}

def Pool.totalPages : Nat := pool.bufferSize / pool.alignBytes

/-- `int(x)`. -/
def truncate (x : ℚ) : Int := if 0 ≤ x then ⌊x⌋ else ⌈x⌉

/-- `int(total_pages * (1.0 - reserve_pct / 100.0))`, each operation rounded. -/
def Pool.pendingHwm (round : ℚ → ℚ) : Int :=
  truncate (round (pool.totalPages * round (1 - round (pool.reservePct / 100))))

def Pool.config (round : ℚ → ℚ) (ttl : Int) : Config :=
  { ttl := ttl, hwm := pool.pendingHwm round }

/-- One pass of the loop in `_wait_for_backpressure`: whether it returns. -/
def Sender.passes (s : Sender) (cfg : Config) (numNewPages : Nat) : Prop :=
  s.pinnedCount + numNewPages ≤ cfg.hwm

/-- The objects of the calls in progress, which are not counted yet. -/
def Sender.uncounted (s : Sender) : Nat := s.calls.weigh fun e => e.2.objs.length

/-- A submission stays below the mark with the calls in progress. -/
def Reserved (cfg : Config) (s : Sender) : Action → Prop
  | .submit _ objs => s.pinnedCount + s.uncounted + objs.length ≤ cfg.hwm
  | _ => True

instance (cfg : Config) (s : Sender) : (a : Action) → Decidable (Reserved cfg s a)
  | .submit _ objs =>
    inferInstanceAs (Decidable (s.pinnedCount + s.uncounted + objs.length ≤ cfg.hwm))
  | .notify _ | .ack _ _ | .register _ _ | .pullDone _ | .scan _ | .expire | .release _ =>
    isTrue trivial

/-- What is pinned and what is about to be is below the mark, where there is any call. -/
structure Below (cfg : Config) (s : Sender) : Prop where
  below : s.pinnedCount + s.uncounted ≤ max cfg.hwm 0
  mark : s.calls.keys ≠ [] → 0 ≤ cfg.hwm

section

variable {cfg : Config} {s s' : Sender}

theorem Kept.pinned_nonneg (h : Kept s) : 0 ≤ s.pinnedCount := by
  rw [h.count]
  exact Int.natCast_nonneg _

theorem splitSent_length (alreadySent : List Nat) (objs : List MemoryObj) :
    (splitSent alreadySent objs).2.length ≤ objs.length := by
  unfold splitSent
  rw [partition_eq_filter_filter, length_map]
  exact (length_filter_le _ _).trans (length_zipIdx).le

variable {pullId : PullId}

theorem uncounted_set {call' : Call} (hc : s.calls.get? pullId = some call) :
    (s.calls.set pullId call').weigh (fun e => e.2.objs.length) + call.objs.length =
      s.uncounted + call'.objs.length :=
  weigh_put (f := fun e => e.2.objs.length) hc call'

theorem uncounted_pop (hc : s.calls.get? pullId = some call) :
    (s.calls.pop pullId).weigh (fun e => e.2.objs.length) + call.objs.length = s.uncounted :=
  weigh_pop (f := fun e => e.2.objs.length) hc

theorem Below.of_le (h : Below cfg s) (hsum : s'.pinnedCount + s'.uncounted ≤
    s.pinnedCount + s.uncounted) (hkeys : ∀ pullId ∈ s'.calls.keys, pullId ∈ s.calls.keys) :
    Below cfg s' := by
  refine ⟨le_trans hsum h.below, fun hne => h.mark ?_⟩
  obtain ⟨pullId, hmem⟩ := exists_mem_of_ne_nil _ hne
  exact ne_nil_of_mem (hkeys pullId hmem)

theorem Below.submit (hk : Kept s) {objs : List MemoryObj}
    (hr : Reserved cfg s (.submit pullId objs)) (hs : s.submit cfg pullId objs = some s') :
    Below cfg s' := by
  unfold Sender.submit at hs
  split at hs
  · next hfresh =>
    cases hs
    have hcall : pullId ∉ s.calls.keys := fun hc => hfresh.1 (hk.callUsed pullId hc)
    have hpinned := hk.pinned_nonneg
    refine ⟨?_, fun _ => ?_⟩
    · unfold Sender.uncounted
      rw [weigh_append _ _ _ hcall]
      change s.pinnedCount + ((s.uncounted + objs.length : Nat) : Int) ≤ max cfg.hwm 0
      have hr : s.pinnedCount + s.uncounted + objs.length ≤ cfg.hwm := hr
      omega
    · omega
  · cases hs

theorem Below.setCall (h : Below cfg s) {call' : Call} {refs : Ledger (PullId × MemoryObj)}
    (hc : s.calls.get? pullId = some call) (hle : call'.objs.length ≤ call.objs.length) :
    Below cfg { s with calls := s.calls.set pullId call', refs := refs } := by
  have hset : (s.calls.set pullId call').weigh (fun e => e.2.objs.length) + call.objs.length =
      s.uncounted + call'.objs.length :=
    uncounted_set hc
  refine h.of_le ?_ fun pullId' hmem => ?_
  · change s.pinnedCount + ((s.calls.set pullId call').weigh _ : Int) ≤ _
    omega
  · rcases mem_keys_set.1 hmem with rfl | hmem
    · exact mem_keys_of_get? hc
    · exact hmem

theorem Below.notify (h : Below cfg s) (hs : s.notify pullId = some s') :
    Below cfg s' := by
  unfold Sender.notify at hs
  split at hs
  · next objs hc =>
    cases hs
    exact h.setCall hc (Nat.le_refl _)
  · cases hs

theorem Below.ack (h : Below cfg s) {ack : PullReadyDoneAck}
    (hs : s.ack pullId ack = some s') : Below cfg s' := by
  unfold Sender.ack at hs
  split at hs
  · next objs hc =>
    split at hs
    · cases hs
      have hpop := uncounted_pop hc
      refine h.of_le ?_ fun pullId' hmem => (mem_keys_pop.1 hmem).1
      change s.pinnedCount + ((s.calls.pop pullId).weigh _ : Int) ≤ _
      omega
    · cases hs
      exact h.setCall hc (splitSent_length _ _)
  · cases hs

theorem Below.register (h : Below cfg s) {now : Int}
    (hs : s.register pullId now = some s') : Below cfg s' := by
  unfold Sender.register at hs
  split at hs
  · next objs hc =>
    have hpop := uncounted_pop hc
    have hkeys : ∀ pullId' ∈ (s.calls.pop pullId).keys, pullId' ∈ s.calls.keys :=
      fun pullId' hmem => (mem_keys_pop.1 hmem).1
    change _ + objs.length = _ at hpop
    simp only at hs
    split at hs
    · split at hs
      · cases hs
        refine h.of_le ?_ hkeys
        change s.pinnedCount + ((s.calls.pop pullId).weigh _ : Int) ≤ _
        omega
      · cases hs
        refine h.of_le ?_ hkeys
        change s.pinnedCount + objs.length + ((s.calls.pop pullId).weigh _ : Int) ≤ _
        omega
    · cases hs
      refine h.of_le ?_ hkeys
      change s.pinnedCount + ((s.calls.pop pullId).weigh _ : Int) ≤ _
      omega
  · cases hs

theorem Below.popPending (h : Below cfg s) (hs : s.popPending pullId = some s') :
    Below cfg s' := by
  unfold Sender.popPending at hs
  obtain ⟨entry, -, rfl⟩ := map_eq_some_iff.1 hs
  refine h.of_le ?_ fun _ hmem => hmem
  change s.pinnedCount - entry.2.length + (s.uncounted : Int) ≤ _
  omega

theorem Below.handlePullDone (h : Below cfg s) (pullId : PullId) :
    Below cfg (s.handlePullDone pullId) := by
  unfold Sender.handlePullDone
  split
  · next s' hs => exact h.popPending hs
  · exact ⟨h.below, h.mark⟩

theorem Below.expire (h : Below cfg s) (hs : s.expire = some s') : Below cfg s' := by
  unfold Sender.expire at hs
  split at hs
  · cases hs
  · next pullId rest _ =>
    cases hs
    have hrest : Below cfg { s with expired := rest } := ⟨h.below, h.mark⟩
    rcases hpop : Sender.popPending { s with expired := rest } pullId with _ | s1
    · exact hrest
    · exact hrest.popPending hpop

theorem Below.step (hk : Kept s) (h : Below cfg s) {a : Action} (hr : Reserved cfg s a)
    (hs : (pullMachine cfg).step s a = some s') : Below cfg s' := by
  cases a with
  | submit pullId objs => exact .submit hk hr hs
  | notify pullId => exact h.notify hs
  | ack pullId ack => exact h.ack hs
  | register pullId now => exact h.register hs
  | pullDone pullId =>
    cases hs
    exact h.handlePullDone pullId
  | scan now =>
    change s.scan cfg now = some s' at hs
    unfold Sender.scan at hs
    split at hs
    · cases hs
      exact ⟨h.below, h.mark⟩
    · cases hs
  | expire => exact h.expire hs
  | release i =>
    obtain ⟨e, -, rfl⟩ := map_eq_some_iff.1 hs
    exact ⟨h.below, h.mark⟩

theorem below_inductive (cfg : Config) :
    (pullMachine cfg).InductiveIf (Reserved cfg) fun s => Kept s ∧ Below cfg s where
  start s h := by
    obtain rfl : s = Sender.init := h
    exact ⟨Kept.init, ⟨le_max_right _ _, fun h => absurd rfl h⟩⟩
  step s a s' h hr hs :=
    ⟨(kept_inductive cfg).step s a s' h.1 hs, Below.step h.1 h.2 hr hs⟩

theorem register_below (h : Below cfg s) {now : Int}
    (hs : s.register pullId now = some s') : s'.pinnedCount ≤ cfg.hwm := by
  have hmark : 0 ≤ cfg.hwm := by
    refine h.mark ?_
    unfold Sender.register at hs
    split at hs
    · next hc => exact ne_nil_of_mem (mem_keys_of_get? hc)
    · cases hs
  have hbelow := (h.register hs).below
  omega

end

/-- **Backpressure.**  With nothing pinned, a submission returns at once exactly if it is not above
the mark, and above it no state lets it pass.  In the runs whose submissions count the calls in
progress, no registration takes the count above the mark. -/
theorem backpressure (pool : Pool) (round : ℚ → ℚ) (ttl : Int) :
    (∀ n, (∀ s, (pullMachine (pool.config round ttl)).Reachable s → s.pullPending.keys = [] →
      s.passes (pool.config round ttl) n) ↔ n ≤ pool.pendingHwm round) ∧
    (∀ n, (∃ s, (pullMachine (pool.config round ttl)).Reachable s ∧
      s.passes (pool.config round ttl) n) ↔ n ≤ pool.pendingHwm round) ∧
    ∀ s, (pullMachine (pool.config round ttl)).ReachableIf (Reserved (pool.config round ttl)) s →
      ∀ pullId now s', s.register pullId now = some s' →
        s'.pinnedCount ≤ pool.pendingHwm round := by
  have hinit : (pullMachine (pool.config round ttl)).Reachable Sender.init := .start rfl
  refine ⟨fun n => ⟨fun h => ?_, fun h s hs hnone => ?_⟩, fun n => ⟨?_, fun h => ?_⟩,
    fun s hs pullId now s' hr => ?_⟩
  · have hpass : (0 : Int) + n ≤ pool.pendingHwm round := h Sender.init hinit rfl
    omega
  · have hzero : s.pinnedCount = 0 := by
      rw [((kept_inductive _).reachable hs).count]
      unfold Dict.weigh
      rw [map_eq_nil_iff.1 hnone]
      rfl
    change s.pinnedCount + n ≤ pool.pendingHwm round
    omega
  · rintro ⟨s, hs, hpass⟩
    have hpinned := ((kept_inductive _).reachable hs).pinned_nonneg
    have hpass : s.pinnedCount + n ≤ pool.pendingHwm round := hpass
    omega
  · refine ⟨Sender.init, hinit, ?_⟩
    change (0 : Int) + n ≤ pool.pendingHwm round
    omega
  · exact register_below ((below_inductive _).reachable hs).2 hr

/-- Four pages, a quarter of them in reserve: no operation on the mark has to be rounded. -/
def quarterPool : Pool := ⟨4, 1, 25⟩

theorem quarterPool_hwm : quarterPool.pendingHwm id = 3 := by
  unfold Pool.pendingHwm Pool.totalPages truncate quarterPool
  norm_num

theorem quarterPool_config : quarterPool.config id 360 = { ttl := 360, hwm := 3 } := by
  unfold Pool.config
  rw [quarterPool_hwm]

/-- A put of two is registered, and a put of one has passed the check. -/
def reservedPuts : List Action :=
  [.submit "a" [0, 1], .notify "a", .ack "a" ⟨[], false⟩, .register "a" 0, .submit "b" [2],
    .notify "b", .ack "b" ⟨[], false⟩]

theorem backpressure_reserved :
    ∃ s s', (pullMachine (quarterPool.config id 360)).runIf (Reserved (quarterPool.config id 360))
        Sender.init reservedPuts = some s ∧ s.register "b" 0 = some s' ∧ s'.pinnedCount = 3 ∧
      s'.pinnedCount ≤ quarterPool.pendingHwm id := by
  obtain ⟨s, hs⟩ : ∃ s, (pullMachine { ttl := 360, hwm := 3 }).runIf
    (Reserved { ttl := 360, hwm := 3 }) Sender.init reservedPuts = some s := ⟨_, rfl⟩
  obtain ⟨s', hs', hcount⟩ : ∃ s', s.register "b" 0 = some s' ∧ s'.pinnedCount = 3 := by
    cases hs
    exact ⟨_, rfl, rfl⟩
  rw [← quarterPool_config] at hs
  exact ⟨s, s', hs, hs', hcount,
    (backpressure quarterPool id 360).2.2 s (.runIf (.start rfl) hs) "b" 0 s' hs'⟩

/-- Two submissions pass the check one after the other, and register. -/
def twoPuts : List Action :=
  [.submit "a" [0, 1], .submit "b" [2, 3], .notify "a", .notify "b", .ack "a" ⟨[], false⟩,
    .ack "b" ⟨[], false⟩, .register "a" 0, .register "b" 0]

/-- Four pages fit into the pool and wait for ever; two puts of two pin four. -/
theorem reserve_never_admitted :
    (4 ≤ quarterPool.totalPages ∧
      ∀ s, (pullMachine (quarterPool.config id 360)).Reachable s →
        ¬s.passes (quarterPool.config id 360) 4) ∧
    ∃ s, (pullMachine (quarterPool.config id 360)).Reachable s ∧
      quarterPool.pendingHwm id < s.pinnedCount := by
  refine ⟨⟨by decide, fun s hs hpass => ?_⟩, ?_⟩
  · have hpinned := ((kept_inductive _).reachable hs).pinned_nonneg
    rw [quarterPool_config] at hpass
    have hpass : s.pinnedCount + (4 : Nat) ≤ 3 := hpass
    omega
  · rw [quarterPool_config, quarterPool_hwm]
    have hrun : ((pullMachine { ttl := 360, hwm := 3 }).run Sender.init twoPuts).map
        Sender.pinnedCount = some 4 := by decide
    obtain ⟨s, hs, hcount⟩ := map_eq_some_iff.1 hrun
    refine ⟨s, Machine.reachable_of_run rfl hs, ?_⟩
    omega

end PullSender
