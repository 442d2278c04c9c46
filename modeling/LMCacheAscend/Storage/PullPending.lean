import LMCacheAscend.Storage.PullSender

/-!
# What the sender's pulls hold

In every run the pinned count is the number of pending objects, and each
reference of a pull is held by one call, one pending entry or one release in
progress until it is given back, once (`Kept`).

`_early_pull_done` is another matter: a `PullDoneSignal` is meant to wait there
for a call that has yet to register.  One that comes later, or before an ack that
reports `alloc_failed`, stays for ever; exactly the runs without such a signal
keep the set to calls in progress (`EarlyInProgress`).
-/

namespace PullSender

open Lib List Option Dict

/-! ## Definitions -/

/-- How often a reference is held. -/
def Sender.held (s : Sender) (x : PullId × MemoryObj) : Nat :=
  s.calls.weigh (fun e => times (refsOf e.1 e.2.objs) x) +
    s.pullPending.weigh (fun e => times (refsOf e.1 e.2.2) x) +
    (s.releasing.map fun e => times (refsOf e.1 e.2) x).sum

structure Kept (s : Sender) : Prop where
  callUsed : ∀ pullId ∈ s.calls.keys, pullId ∈ s.used
  pendingUsed : ∀ pullId ∈ s.pullPending.keys, pullId ∈ s.used
  apart : ∀ pullId ∈ s.calls.keys, pullId ∉ s.pullPending.keys
  count : s.pinnedCount = s.pullPending.weigh fun e => e.2.2.length
  balanced : s.refs.Balanced s.held

/-- The pull has sent its notification and neither registered nor discarded its entry. -/
def Sender.InProgress (s : Sender) (pullId : PullId) : Prop :=
  ∃ call, s.calls.get? pullId = some call ∧ call.Sent

def EarlyInProgress (s : Sender) : Prop := ∀ pullId ∈ s.earlyPullDone, s.InProgress pullId

/-- A done signal is for a pending pull or one in progress, and none has come for a pull that
the receiver could not allocate. -/
def InTime (s : Sender) : Action → Prop
  | .pullDone pullId => pullId ∈ s.pullPending.keys ∨ s.InProgress pullId
  | .ack pullId ack => ack.allocFailed = true → pullId ∉ s.earlyPullDone
  | _ => True

/-! ## References -/

theorem splitSent_count (alreadySent : List Nat) (objs : List MemoryObj) (pullId : PullId)
    (x : PullId × MemoryObj) :
    times (refsOf pullId (splitSent alreadySent objs).1) x +
      times (refsOf pullId (splitSent alreadySent objs).2) x = times (refsOf pullId objs) x := by
  unfold splitSent refsOf
  rw [partition_eq_filter_filter, ← times_append, ← map_append, ← map_append]
  have hperm := filter_append_perm (fun e : MemoryObj × Nat => decide (e.2 ∈ alreadySent))
    objs.zipIdx
  have hfst : objs.zipIdx.map Prod.fst = objs := zipIdx_map_fst 0 objs
  conv_rhs => rw [← hfst]
  exact times_perm ((hperm.map Prod.fst).map (Prod.mk pullId)) x

/-! ## Steps of the main thread -/

variable {pullId : PullId}

section Steps

variable {cfg : Config} {s s' : Sender}

theorem Kept.init : Kept Sender.init :=
  ⟨nofun, nofun, nofun, rfl, fun _ => rfl⟩

theorem Kept.submit (h : Kept s) {objs : List MemoryObj}
    (hs : s.submit cfg pullId objs = some s') : Kept s' := by
  unfold Sender.submit at hs
  split at hs
  · next hfresh =>
    cases hs
    have hcall : pullId ∉ s.calls.keys := fun hk => hfresh.1 (h.callUsed pullId hk)
    refine ⟨fun j hj => ?_, fun j hj => Finset.mem_insert_of_mem (h.pendingUsed j hj),
      fun j hj => ?_, h.count, h.balanced.take fun x => ?_⟩
    · rcases mem_keys_set.1 hj with rfl | hj
      · exact Finset.mem_insert_self _ _
      · exact Finset.mem_insert_of_mem (h.callUsed j hj)
    · rcases mem_keys_set.1 hj with rfl | hj
      · exact fun hp => hfresh.1 (h.pendingUsed _ hp)
      · exact h.apart j hj
    · unfold Sender.held
      rw [weigh_append _ _ _ hcall]
      simp only [Call.objs]
      omega
  · cases hs

theorem Kept.setCall (h : Kept s) {call : Call}
    (hc : s.calls.get? pullId = some call) (call' : Call) (sent : List MemoryObj)
    (hobjs : ∀ x, times (refsOf pullId sent) x + times (refsOf pullId call'.objs) x =
      times (refsOf pullId call.objs) x) :
    Kept { s with calls := s.calls.set pullId call', refs := s.refs.give (refsOf pullId sent) } := by
  have hkeys := keys_set_of_mem (v := call') (mem_keys_of_get? hc)
  refine ⟨fun j hj => h.callUsed j (hkeys ▸ hj), h.pendingUsed, fun j hj => h.apart j (hkeys ▸ hj),
    h.count, h.balanced.give fun x => ?_⟩
  have hw := weigh_put (f := fun e => times (refsOf e.1 e.2.objs) x) hc call'
  have := hobjs x
  unfold Sender.held
  simp only at hw ⊢
  omega

theorem Kept.popCall (h : Kept s) {call : Call} (hc : s.calls.get? pullId = some call) :
    Kept { s with calls := s.calls.pop pullId, refs := s.refs.give (refsOf pullId call.objs) } := by
  refine ⟨fun j hj => h.callUsed j (mem_keys_pop.1 hj).1, h.pendingUsed,
    fun j hj => h.apart j (mem_keys_pop.1 hj).1, h.count, h.balanced.give fun x => ?_⟩
  have hw := weigh_pop (f := fun e => times (refsOf e.1 e.2.objs) x) hc
  unfold Sender.held
  simp only at hw ⊢
  omega

theorem Kept.notify (h : Kept s) (hs : s.notify pullId = some s') : Kept s' := by
  unfold Sender.notify at hs
  split at hs
  · next objs hc =>
    cases hs
    have := h.setCall hc (.notified objs) [] fun x => by simp [refsOf, Call.objs]
    simpa [refsOf, Ledger.give] using this
  · cases hs

theorem Kept.ack (h : Kept s) {ack : PullReadyDoneAck}
    (hs : s.ack pullId ack = some s') : Kept s' := by
  unfold Sender.ack at hs
  split at hs
  · next objs hc =>
    split at hs
    · cases hs
      exact h.popCall hc
    · cases hs
      exact h.setCall hc _ _ fun x => splitSent_count ack.alreadySentIndexes objs pullId x
  · cases hs

theorem Kept.register (h : Kept s) {now : Int}
    (hs : s.register pullId now = some s') : Kept s' := by
  unfold Sender.register at hs
  split at hs
  · next objs hc =>
    have hw : ∀ x, (s.calls.pop pullId).weigh (fun e => times (refsOf e.1 e.2.objs) x) +
        times (refsOf pullId objs) x = s.calls.weigh fun e => times (refsOf e.1 e.2.objs) x :=
      fun x => weigh_pop (f := fun e => times (refsOf e.1 e.2.objs) x) hc
    have hcall := mem_keys_of_get? hc
    have hused : ∀ j ∈ (s.calls.pop pullId).keys, j ∈ s.used :=
      fun j hj => h.callUsed j (mem_keys_pop.1 hj).1
    have hapart : ∀ j ∈ (s.calls.pop pullId).keys, j ∉ s.pullPending.keys :=
      fun j hj => h.apart j (mem_keys_pop.1 hj).1
    simp only at hs
    split at hs
    · split at hs
      · cases hs
        refine ⟨hused, h.pendingUsed, hapart, h.count, h.balanced.congr fun x => ?_⟩
        unfold Sender.held
        simp only [map_append, map_cons, map_nil, sum_append, sum_cons,
          sum_nil]
        have := hw x
        omega
      · cases hs
        have hpending := h.apart pullId hcall
        refine ⟨hused, fun j hj => ?_, fun j hj hp => ?_, ?_, h.balanced.congr fun x => ?_⟩
        · rcases mem_keys_set.1 hj with rfl | hj
          · exact h.callUsed _ hcall
          · exact h.pendingUsed j hj
        · rcases mem_keys_set.1 hp with rfl | hp
          · exact (mem_keys_pop.1 hj).2 rfl
          · exact hapart j hj hp
        · show s.pinnedCount + (objs.length : Int) = _
          rw [weigh_append _ _ _ hpending, h.count]
          simp
        · unfold Sender.held
          simp only
          rw [weigh_append _ _ _ hpending]
          have := hw x
          simp only
          omega
    · next hempty =>
      cases hs
      rw [ne_eq, Decidable.not_not] at hempty
      subst hempty
      refine ⟨hused, h.pendingUsed, hapart, h.count, h.balanced.congr fun x => ?_⟩
      unfold Sender.held
      simp only
      have := hw x
      rw [show refsOf pullId [] = [] from rfl, times_nil] at this
      omega
  · cases hs

/-! ## Steps of the listener -/

theorem Kept.popPending (h : Kept s) (hs : s.popPending pullId = some s') :
    Kept s' := by
  unfold Sender.popPending at hs
  rw [map_eq_some_iff] at hs
  obtain ⟨entry, he, rfl⟩ := hs
  refine ⟨h.callUsed, fun j hj => h.pendingUsed j (mem_keys_pop.1 hj).1,
    fun j hj hp => h.apart j hj (mem_keys_pop.1 hp).1, ?_, h.balanced.congr fun x => ?_⟩
  · have hw := weigh_pop (f := fun e => e.2.2.length) he
    show s.pinnedCount - (entry.2.length : Int) = (s.pullPending.pop pullId).weigh _
    rw [h.count]
    simp only at hw
    omega
  · have hw := weigh_pop (f := fun e => times (refsOf e.1 e.2.2) x) he
    unfold Sender.held
    simp only [map_append, map_cons, map_nil, sum_append, sum_cons,
      sum_nil] at hw ⊢
    omega

theorem Kept.handlePullDone (h : Kept s) (pullId : PullId) : Kept (s.handlePullDone pullId) := by
  unfold Sender.handlePullDone
  split
  · next hs => exact h.popPending hs
  · exact ⟨h.callUsed, h.pendingUsed, h.apart, h.count, h.balanced⟩

theorem Kept.scan (h : Kept s) {now : Int} (hs : s.scan cfg now = some s') : Kept s' := by
  unfold Sender.scan at hs
  split at hs
  · cases hs
    exact ⟨h.callUsed, h.pendingUsed, h.apart, h.count, h.balanced⟩
  · cases hs

theorem Kept.expire (h : Kept s) (hs : s.expire = some s') : Kept s' := by
  unfold Sender.expire at hs
  split at hs
  · cases hs
  · next pullId rest _ =>
    have hrest : Kept { s with expired := rest } :=
      ⟨h.callUsed, h.pendingUsed, h.apart, h.count, h.balanced⟩
    cases hs
    cases hp : Sender.popPending { s with expired := rest } pullId with
    | none => exact hrest
    | some s1 => exact hrest.popPending hp

theorem Kept.release (h : Kept s) {i : Nat} (hs : s.release i = some s') : Kept s' := by
  unfold Sender.release at hs
  rw [map_eq_some_iff] at hs
  obtain ⟨e, he, rfl⟩ := hs
  refine ⟨h.callUsed, h.pendingUsed, h.apart, h.count, h.balanced.give fun x => ?_⟩
  have := sum_eraseIdx (fun e => times (refsOf e.1 e.2) x) he
  unfold Sender.held
  simp only
  omega

end Steps

theorem kept_inductive (cfg : Config) : (pullMachine cfg).Inductive Kept := by
  constructor
  · rintro s rfl
    exact Kept.init
  · intro s a s' h hs
    cases a with
    | submit pullId objs => exact h.submit hs
    | notify pullId => exact h.notify hs
    | ack pullId ack => exact h.ack hs
    | register pullId now => exact h.register hs
    | pullDone pullId => cases hs; exact h.handlePullDone pullId
    | scan now => exact h.scan hs
    | expire => exact h.expire hs
    | release i => exact h.release hs

theorem held_eq_zero {s : Sender} (hcall : pullId ∉ s.calls.keys)
    (hpending : pullId ∉ s.pullPending.keys) (hreleasing : ∀ e ∈ s.releasing, e.1 ≠ pullId)
    (obj : MemoryObj) : s.held (pullId, obj) = 0 := by
  have hother : ∀ {j : PullId} {objs : List MemoryObj}, j ≠ pullId →
      times (refsOf j objs) (pullId, obj) = 0 := by
    intro j objs hj
    refine times_eq_zero fun hmem => ?_
    obtain ⟨o, -, ho⟩ := mem_map.1 hmem
    exact hj (congrArg Prod.fst ho)
  unfold Sender.held Dict.weigh
  have h1 : ∀ n ∈ s.calls.entries.map fun e => times (refsOf e.1 e.2.objs) (pullId, obj), n = 0 := by
    intro n hn
    obtain ⟨e, he, rfl⟩ := mem_map.1 hn
    exact hother fun hj => hcall (mem_map.2 ⟨e, he, hj⟩)
  have h2 : ∀ n ∈ s.pullPending.entries.map fun e => times (refsOf e.1 e.2.2) (pullId, obj),
      n = 0 := by
    intro n hn
    obtain ⟨e, he, rfl⟩ := mem_map.1 hn
    exact hother fun hj => hpending (mem_map.2 ⟨e, he, hj⟩)
  have h3 : ∀ n ∈ s.releasing.map fun e => times (refsOf e.1 e.2) (pullId, obj), n = 0 := by
    intro n hn
    obtain ⟨e, he, rfl⟩ := mem_map.1 hn
    exact hother (hreleasing e he)
  rw [sum_eq_zero h1, sum_eq_zero h2, sum_eq_zero h3]
  rfl

/-! ## Early signals -/

section Early

variable {cfg : Config} {s : Sender}

variable {s' : Sender}

theorem inProgress_congr (h : s'.calls.get? pullId = s.calls.get? pullId) :
    s'.InProgress pullId ↔ s.InProgress pullId := by
  unfold Sender.InProgress
  rw [h]

theorem early_of_same (h : EarlyInProgress s) (hc : s'.calls = s.calls)
    (he : s'.earlyPullDone = s.earlyPullDone) : EarlyInProgress s' := fun pullId hp =>
  (inProgress_congr (by rw [hc])).2 (h pullId (he ▸ hp))

/-- A call that has sent its notification keeps the signals that wait for it. -/
theorem early_of_set {call : Call} {refs : Ledger (PullId × MemoryObj)}
    (h : EarlyInProgress s) (hsent : call.Sent) :
    EarlyInProgress { s with calls := s.calls.set pullId call, refs := refs } := by
  intro j hj
  by_cases hjp : j = pullId
  · subst hjp
    exact ⟨call, get?_set_self _ _ _, hsent⟩
  · exact (inProgress_congr (get?_set_ne hjp)).2 (h j hj)

/-- A call that ends must leave no signal of its own. -/
theorem early_of_pop (h : EarlyInProgress s) (hc : s'.calls = s.calls.pop pullId)
    (he : ∀ j ∈ s'.earlyPullDone, j ≠ pullId ∧ j ∈ s.earlyPullDone) : EarlyInProgress s' := by
  intro j hj
  obtain ⟨hne, hj⟩ := he j hj
  refine (inProgress_congr ?_).2 (h j hj)
  rw [hc, get?_pop, if_neg hne]

theorem not_inProgress_pop (hc : s'.calls = s.calls.pop pullId) :
    ¬s'.InProgress pullId := by
  rintro ⟨call, hcall, -⟩
  rw [hc, get?_pop_self] at hcall
  cases hcall

theorem early_submit (hk : Kept s) (h : EarlyInProgress s)
    {objs : List MemoryObj} (hs : s.submit cfg pullId objs = some s') : EarlyInProgress s' := by
  unfold Sender.submit at hs
  split at hs
  · next hfresh =>
    cases hs
    intro j hj
    obtain ⟨call, hcall, hsent⟩ := h j hj
    have hne : j ≠ pullId := by
      rintro rfl
      exact hfresh.1 (hk.callUsed j (mem_keys_of_get? hcall))
    exact ⟨call, (get?_set_ne hne).trans hcall, hsent⟩
  · cases hs

theorem early_ack (h : EarlyInProgress s) {ack : PullReadyDoneAck}
    (hs : s.ack pullId ack = some s') :
    EarlyInProgress s' ↔ (ack.allocFailed = true → pullId ∉ s.earlyPullDone) := by
  unfold Sender.ack at hs
  split at hs
  · split at hs
    · next hfailed =>
      cases hs
      constructor
      · exact fun h' _ hp => not_inProgress_pop rfl (h' pullId hp)
      · exact fun hno => early_of_pop h rfl fun j hj =>
          ⟨fun heq => hno hfailed (heq ▸ hj), hj⟩
    · next hfailed =>
      cases hs
      exact iff_of_true (early_of_set h trivial) fun hf => absurd hf hfailed
  · cases hs

theorem early_register (h : EarlyInProgress s) {now : Int}
    (hs : s.register pullId now = some s') : EarlyInProgress s' := by
  unfold Sender.register at hs
  split at hs
  · simp only at hs
    split at hs
    · split at hs
      · cases hs
        exact early_of_pop h rfl fun j hj => Finset.mem_erase.1 hj
      · next hno =>
        cases hs
        exact early_of_pop h rfl fun j hj => ⟨fun heq => hno (heq ▸ hj), hj⟩
    · cases hs
      exact early_of_pop h rfl fun j hj => Finset.mem_erase.1 hj
  · cases hs

theorem popPending_same (hs : s.popPending pullId = some s') :
    s'.calls = s.calls ∧ s'.earlyPullDone = s.earlyPullDone ∧ pullId ∈ s.pullPending.keys := by
  unfold Sender.popPending at hs
  rw [map_eq_some_iff] at hs
  obtain ⟨entry, he, rfl⟩ := hs
  exact ⟨rfl, rfl, mem_keys_of_get? he⟩

theorem early_pullDone (h : EarlyInProgress s) (pullId : PullId) :
    EarlyInProgress (s.handlePullDone pullId) ↔
      (pullId ∈ s.pullPending.keys ∨ s.InProgress pullId) := by
  unfold Sender.handlePullDone
  split
  · next s' hs =>
    obtain ⟨hc, he, hp⟩ := popPending_same hs
    exact iff_of_true (early_of_same h hc he) (.inl hp)
  · next hnone =>
    have hpending : pullId ∉ s.pullPending.keys := by
      unfold Sender.popPending at hnone
      rw [map_eq_none_iff] at hnone
      exact get?_eq_none.1 hnone
    constructor
    · exact fun h' => .inr (h' pullId (Finset.mem_insert_self _ _))
    · rintro hp j hj
      rcases Finset.mem_insert.1 hj with rfl | hj
      · exact hp.resolve_left hpending
      · exact h j hj

/-- A step keeps the set to calls in progress exactly when its signal is in time. -/
theorem early_step (hk : Kept s) (h : EarlyInProgress s) {a : Action}
    (hs : s.step cfg a = some s') : EarlyInProgress s' ↔ InTime s a := by
  cases a with
  | submit pullId objs => exact iff_of_true (early_submit hk h hs) trivial
  | notify pullId =>
    simp only [Sender.step, Sender.notify] at hs
    split at hs
    · cases hs
      exact iff_of_true (early_of_set h trivial) trivial
    · cases hs
  | ack pullId ack => exact early_ack h hs
  | register pullId now => exact iff_of_true (early_register h hs) trivial
  | pullDone pullId => cases hs; exact early_pullDone h pullId
  | scan now =>
    simp only [Sender.step, Sender.scan] at hs
    split at hs
    · cases hs
      exact iff_of_true (early_of_same h rfl rfl) trivial
    · cases hs
  | expire =>
    simp only [Sender.step, Sender.expire] at hs
    split at hs
    · cases hs
    · next pullId rest _ =>
      cases hs
      refine iff_of_true ?_ trivial
      cases hp : Sender.popPending { s with expired := rest } pullId with
      | none => exact early_of_same h rfl rfl
      | some s1 =>
        obtain ⟨hc, he, -⟩ := popPending_same hp
        exact early_of_same h hc he
  | release i =>
    simp only [Sender.step, Sender.release, map_eq_some_iff] at hs
    obtain ⟨e, -, rfl⟩ := hs
    exact iff_of_true (early_of_same h rfl rfl) trivial

end Early

theorem inTime_inductive (cfg : Config) :
    (pullMachine cfg).InductiveIf InTime fun s => Kept s ∧ EarlyInProgress s := by
  constructor
  · rintro s rfl
    exact ⟨Kept.init, fun j hj => absurd hj (Finset.notMem_empty j)⟩
  · intro s a s' h hok hs
    exact ⟨(kept_inductive cfg).step s a s' h.1 hs, (early_step h.1 h.2 hs).2 hok⟩

/-! ## Main theorem -/

theorem EarlyInProgress.card_le {s : Sender} (h : EarlyInProgress s) :
    s.earlyPullDone.card ≤ s.calls.keys.length := by
  have hsub : s.earlyPullDone ⊆ s.calls.keys.toFinset := by
    intro j hj
    obtain ⟨call, hcall, -⟩ := h j hj
    exact mem_toFinset.2 (mem_keys_of_get? hcall)
  exact Nat.le_trans (Finset.card_le_card hsub) (toFinset_card_le _)

/-- **Pull bookkeeping.**  In every run the count is right and every reference is held once or
given back once; in the runs whose done signals are in time, and only there, the early signals
are of calls in progress. -/
theorem pull_bookkeeping (cfg : Config) :
    (∀ s, (pullMachine cfg).Reachable s →
      s.pinnedCount = s.pullPending.weigh (fun e => e.2.2.length) ∧ s.refs.Balanced s.held ∧
      ∀ pullId, pullId ∉ s.calls.keys → pullId ∉ s.pullPending.keys →
        (∀ e ∈ s.releasing, e.1 ≠ pullId) →
        ∀ obj, times s.refs.given (pullId, obj) = times s.refs.taken (pullId, obj)) ∧
    (∀ s, (pullMachine cfg).ReachableIf InTime s →
      EarlyInProgress s ∧ s.earlyPullDone.card ≤ s.calls.keys.length) ∧
    ∀ s a s', (pullMachine cfg).ReachableIf InTime s → s.step cfg a = some s' →
      (EarlyInProgress s' ↔ InTime s a) := by
  refine ⟨fun s h => ?_, fun s h => ?_, fun s a s' h hs => ?_⟩
  · have hk := (kept_inductive cfg).reachable h
    exact ⟨hk.count, hk.balanced, fun pullId hcall hpending hreleasing obj =>
      hk.balanced.settled (held_eq_zero hcall hpending hreleasing obj)⟩
  · have he := ((inTime_inductive cfg).reachable h).2
    exact ⟨he, he.card_le⟩
  · have hk := (inTime_inductive cfg).reachable h
    exact early_step hk.1 hk.2 hs

def pullConfig : Config := { ttl := 360, hwm := 8 }

/-- A signal that waits for its call. -/
def earlySender : Sender :=
  { Sender.init with earlyPullDone := {"p"}, used := {"p"},
                     calls := Dict.empty.set "p" (.notified [5]),
                     refs := { taken := [("p", 5)], given := [] } }

theorem pull_bookkeeping_early : EarlyInProgress earlySender := by
  have h0 : (pullMachine pullConfig).ReachableIf InTime Sender.init := .start rfl
  have h1 := Machine.ReachableIf.step (Action.submit "p" [5]) h0 trivial rfl
  have h2 := Machine.ReachableIf.step (Action.notify "p") h1 trivial rfl
  exact ((pull_bookkeeping pullConfig).2.1 earlySender
    (.step (.pullDone "p") h2 (.inr ⟨.notified [5], rfl, trivial⟩) rfl)).1

/-- A pull of one object that the receiver has: its eager handler acks it as sent and sends the
signal all the same, after the call has ended. -/
def allSentRun : List Action :=
  let reply := handlePullEager (fun _ : Nat => true) (fun _ => true) [0]
  [.submit "p" [5], .notify "p", .ack "p" reply.1, .register "p" 0] ++
    if reply.2 then [.pullDone "p"] else []

theorem late_done_stays :
    ¬∀ s, (pullMachine pullConfig).Reachable s → EarlyInProgress s := by
  intro h
  have hr : (pullMachine pullConfig).run Sender.init allSentRun =
      some { Sender.init with earlyPullDone := {"p"}, used := {"p"},
                              refs := { taken := [("p", 5)], given := [("p", 5)] } } := rfl
  obtain ⟨call, hcall, -⟩ :=
    h _ (Machine.reachable_of_run rfl hr) "p" (Finset.mem_singleton_self _)
  cases hcall

end PullSender
