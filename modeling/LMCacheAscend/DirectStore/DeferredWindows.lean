import LMCacheAscend.DirectStore.PlanFrontier

/-!
# Windows of merged batches

The batches that the calls of a request keep list chunks of its own tokens: each
call's from the chunk that its `submitted_end` is in to the last complete one
(`mem_remoteItems_iff`, `step_waits`).  The decoder accepts the windows of the
merged batch if and only if no two of these chunks that are neighbours in one
window leave a gap (`deferred_windows_iff`), and all windows of a probe, of the
batch of one call and of a final call with its tail (`producer_windows`).

What leaves a gap is progress that no batch has: a call whose lookup or put
raised (`deferred_gap`), or an adopted layerwise store.
-/

namespace DirectStore

open Lib RemoteFill List

/-! ## The plans of all groups -/

section

variable {τ H : Type} {c : HashChain τ H} {seq : Nat → τ}

theorem offsetItems_chunkItems (group base : Nat) {j m start : Nat} (hjm : j ≤ m)
    (hstart : start + base = j * c.chunkSize) :
    ((offsetItems group start
        (((c.chunkItems seq 0 j m).map fun x => x.key.chunkHash).zip
          ((c.chunkItems seq 0 j m).map fun x => x.stop - x.start))).map
      (PlanItem.shift base)).map PlanItem.identity =
      (c.chunkItems seq 0 j m).map PlanItem.identity := by
  obtain ⟨n, rfl⟩ := Nat.exists_eq_add_of_le hjm
  induction n generalizing j start with
  | zero =>
    rw [Nat.add_zero, chunkItems_self]
    rfl
  | succ n ih =>
    have hsize : (j + 1) * c.chunkSize - j * c.chunkSize = c.chunkSize := by
      rw [Nat.succ_mul, Nat.add_sub_cancel_left]
    have hnext : start + c.chunkSize + base = (j + 1) * c.chunkSize := by
      rw [Nat.succ_mul, ← hstart]
      omega
    have ih := ih hnext (Nat.le_add_right (j + 1) n)
    rw [chunkItems_cons (Nat.lt_add_of_pos_right (Nat.succ_pos n)),
      show j + (n + 1) = j + 1 + n by omega]
    simp only [map_cons, zip_cons_cons, offsetItems]
    refine congrArg₂ List.cons ?_ ?_
    · show (start + base, start + ((j + 1) * c.chunkSize - j * c.chunkSize) + base, _) = _
      rw [hsize, hnext, hstart]
      rfl
    · show List.map _ (List.map _ (offsetItems group
        (start + ((j + 1) * c.chunkSize - j * c.chunkSize)) _)) = _
      rw [hsize]
      exact ih

variable [DecidableEq H] {db : TokenDatabase τ H} {s s' : RequestState H} {k n : Nat}
  {groups : List Nat} {plans : Plans H}

theorem groupPlans_isOk {plan0 : List (PlanItem H)} {base : Nat}
    (h : ∀ group, (groupPlan db plan0 base group).map PlanItem.identity =
      plan0.map PlanItem.identity) (groups : List Nat) (plans : Plans H) :
    ∃ out, groupPlans db plan0 base groups plans = .ok out := by
  induction groups generalizing plans with
  | nil => exact ⟨plans, rfl⟩
  | cons group groups ih =>
    unfold groupPlans
    split
    · exact ih plans
    split
    · exact ih _
    simp only
    rw [if_neg (not_not.2 (h group))]
    exact ih _

/-- The plans of a request's own tokens agree in all groups. -/
theorem directSuffixPlans_isOk (hdb : db.Follows c) (hs : AtChunk c seq s k) (n : Nat)
    (groups : List Nat) :
    ∃ plans s', directSuffixPlans db c.chunkSize s (firstTokens seq n) groups =
      (.ok plans, s') := by
  unfold directSuffixPlans
  simp only [length_firstTokens]
  split
  · exact ⟨_, _, rfl⟩
  obtain ⟨j, hbase, -, hjm, hlatent⟩ := latentPlan_frontier hdb hs n groups
  rw [hlatent, hbase]
  have hagree : ∀ group, (groupPlan db (c.chunkItems seq 0 j (n / c.chunkSize))
      (j * c.chunkSize) group).map PlanItem.identity =
      (c.chunkItems seq 0 j (n / c.chunkSize)).map PlanItem.identity := by
    intro group
    unfold groupPlan
    rw [hdb.hashes _ _ _ (by rw [length_map, length_map])]
    exact offsetItems_chunkItems group _ hjm (Nat.zero_add _)
  obtain ⟨out, hout⟩ := groupPlans_isOk hagree groups
    (Dict.empty.set 0 (c.chunkItems seq 0 j (n / c.chunkSize)))
  rw [hout]
  exact ⟨_, _, rfl⟩

omit [DecidableEq H] in
theorem planBase_le_submitted {s : RequestState H} {full group : Nat} (hg : group ∈ groups) :
    planBase s full groups ≤ s.submitted group := by
  unfold planBase
  split
  · next h => exact h.2 group hg
  · exact Nat.zero_le _

omit [DecidableEq H] in
theorem submitted_planned (s : RequestState H) (plan0 : List (PlanItem H)) (group : Nat) :
    (s.planned plan0).submitted group = s.submitted group := by
  unfold RequestState.planned
  split <;> rfl

/-- **The complete chunks that a plan has for a group above `submitted_end`**: all there are. -/
theorem suffixPlan_chunks (hdb : db.Follows c) (hs : AtChunk c seq s k)
    (h : directSuffixPlans db c.chunkSize s (firstTokens seq n) groups = (.ok plans, s'))
    {group : Nat} (hg : group ∈ groups) :
    (∀ g, s'.submitted g = s.submitted g) ∧ (∃ k', AtChunk c seq s' k') ∧
    (∀ x ∈ (plans.get? group).getD [], x.key.kvGroup = group ∧
      x.stop - x.start = c.chunkSize ∧
      ∃ i < n / c.chunkSize, x.identity = (c.chunkItem seq 0 i).identity) ∧
    ∀ i < n / c.chunkSize, s.submitted group < (i + 1) * c.chunkSize →
      ∃ x ∈ (plans.get? group).getD [], x.identity = (c.chunkItem seq 0 i).identity := by
  have hdvd : c.chunkSize ∣ s.plannedEnd := hs.1 ▸ Nat.dvd_mul_left ..
  obtain ⟨ids, -, hagree⟩ := directSuffixPlans_agree hdb hdvd h
  obtain ⟨hgroup, hfull⟩ := directSuffixPlans_items hdb hdvd h
  have hg' := mem_append_left [0] hg
  have h0 : 0 ∈ groups ++ [0] := mem_append_right _ (mem_singleton_self 0)
  have hids : ((plans.get? group).getD []).map PlanItem.identity =
      ((plans.get? 0).getD []).map PlanItem.identity := (hagree group hg').trans (hagree 0 h0).symm
  have hsize : ∀ x ∈ (plans.get? group).getD [], x.stop - x.start = c.chunkSize := fun x hx => by
    rw [hfull group hg' x hx, Nat.add_sub_cancel_left]
  rcases directSuffixPlans_ok h with ⟨hempty, rfl, hall⟩ | ⟨plan0, hplan0, rfl, hplan, -, -⟩
  · refine ⟨fun _ => rfl, ⟨k, hs⟩, fun x hx => ?_, fun i hi hlt => ?_⟩
    · rw [hempty group] at hx
      cases hx
    · have hle := hall group hg
      rw [length_firstTokens, fullEnd_eq] at hle
      have := Nat.mul_le_mul_right c.chunkSize (show i + 1 ≤ n / c.chunkSize from hi)
      omega
  · obtain ⟨j, hbase, -, hjm, hlatent⟩ := latentPlan_frontier hdb hs n groups
    rw [length_firstTokens, hlatent] at hplan0
    rw [hplan, hplan0] at hids
    refine ⟨submitted_planned s plan0, ?_, fun x hx => ⟨hgroup group hg' x hx, hsize x hx, ?_⟩,
      fun i hi hlt => ?_⟩
    · rw [hplan0]
      rcases Nat.lt_or_eq_of_le hjm with hlt | heq
      · exact ⟨_, atChunk_planned s hlt⟩
      · rw [← heq, chunkItems_self]
        exact ⟨k, hs⟩
    · have hmem := hids ▸ mem_map_of_mem (f := PlanItem.identity) hx
      obtain ⟨y, hy, hyx⟩ := mem_map.1 hmem
      obtain ⟨i, -, hi, rfl⟩ := mem_chunkItems.1 hy
      exact ⟨i, hi, hyx.symm⟩
    · have hle : j * c.chunkSize ≤ s.submitted group := hbase ▸ planBase_le_submitted hg
      have hji : j ≤ i := Nat.le_of_lt_succ
        (Nat.lt_of_mul_lt_mul_right (Nat.lt_of_le_of_lt hle hlt))
      have hmem : (c.chunkItem seq 0 i).identity ∈
          (c.chunkItems seq 0 j (n / c.chunkSize)).map PlanItem.identity :=
        mem_map_of_mem (mem_chunkItems.2 ⟨i, hji, hi, rfl⟩)
      rw [← hids] at hmem
      obtain ⟨x, hx, hxi⟩ := mem_map.1 hmem
      exact ⟨x, hx, hxi⟩

end

/-! ## The chunks that wait -/

section

variable {τ H : Type} (cfg : ProducerConfig H)

/-- The chunks of a call that keeps a batch: from the one that `submitted_end` of group 0 is in to
the last complete chunk of its tokens. -/
def DeferredState.waiting (s : DeferredState H) : DeferredAction τ H → List Nat
  | .store call =>
    match call.outcome with
    | .retried _ => []
    | .collected =>
      if s.disabledReason = none ∧ ∀ g ∈ cfg.directGroups, g ∈ call.groups ∧
          s.request.submitted g < fullEnd cfg.chunkSize call.tokens.length then
        let first := s.request.submitted 0 / cfg.chunkSize
        range' first (call.tokens.length / cfg.chunkSize - first)
      else []
  | _ => []

variable [DecidableEq H] (planner : SourcePlanner H) (db : TokenDatabase τ H)

/-- The chunks of the calls of a run that keep a batch. -/
def waitingChunks (reqId : String) : DeferredState H → List (DeferredAction τ H) → List Nat
  | _, [] => []
  | s, a :: actions =>
    s.waiting cfg a ++ waitingChunks reqId (s.step cfg planner db reqId a) actions

/-- The calls have tokens of the request, and so have the adopted stores. -/
def DeferredAction.OfRequest (seq : Nat → τ) : DeferredAction τ H → Prop
  | .store call => ∃ n, call.tokens = firstTokens seq n
  | .adopt result => (PlanAction.adopt result).OfRequest db seq
  | .submitted _ _ => True

end

section

variable {τ H : Type} [DecidableEq H] {cfg : ProducerConfig H} {planner : SourcePlanner H}
  {c : HashChain τ H} {db : TokenDatabase τ H} {seq : Nat → τ} {reqId : String}

/-- The items that the batches of a state were made of. -/
abbrev KeptBatches (H : Type) := List (Option Nat × List Nat × List (Nat × PlanItem H))

def KeptBatches.items (l : KeptBatches H) : List (Nat × PlanItem H) := l.flatMap fun b => b.2.2

def KeptBatches.batches (planner : SourcePlanner H) (reqId : String) (l : KeptBatches H) :
    List (DirectPageBatch H) :=
  l.map fun b => remoteBatch planner reqId b.1 b.2.1 b.2.2

/-- The batches of a state list chunks of the request, and those of group 0 are the given ones. -/
structure Waits (cfg : ProducerConfig H) (planner : SourcePlanner H) (reqId : String)
    (c : HashChain τ H) (seq : Nat → τ) (s : DeferredState H) (l : KeptBatches H)
    (chunks : List Nat) :
    Prop where
  batches : s.deferredBatches = l.batches planner reqId
  chunk : ∀ x ∈ l.items, ∃ i, x.2.identity = (c.chunkItem seq 0 i).identity
  mem : ∀ i, i ∈ chunks ↔
    ∃ x ∈ l.items, x.2.key.kvGroup = 0 ∧ x.2.identity = (c.chunkItem seq 0 i).identity

variable {s : DeferredState H} {l : KeptBatches H} {chunks : List Nat} {k n : Nat}

omit [DecidableEq H] in
theorem Waits.of_eq {t : DeferredState H} (h : Waits cfg planner reqId c seq s l chunks)
    (ht : t.deferredBatches = s.deferredBatches) :
    Waits cfg planner reqId c seq t l (chunks ++ []) := by
  rw [append_nil]
  exact ⟨ht.trans h.batches, h.chunk, h.mem⟩

omit [DecidableEq H] in
theorem retryDirectCpu_frontier (s : RequestState H) (groups : List Nat) (committed : Nat → Nat) :
    (s.retryDirectCpu groups committed).plannedEnd = s.plannedEnd ∧
      (s.retryDirectCpu groups committed).plannedHash = s.plannedHash := by
  unfold RequestState.retryDirectCpu
  induction groups generalizing s with
  | nil => exact ⟨rfl, rfl⟩
  | cons g groups ih => exact ih _

omit [DecidableEq H] in
theorem raiseSubmitted_frontier (cfg : ProducerConfig H) (s : RequestState H) (plans : Plans H)
    (groups : List Nat) :
    (s.raiseSubmitted cfg plans groups).plannedEnd = s.plannedEnd ∧
      (s.raiseSubmitted cfg plans groups).plannedHash = s.plannedHash := by
  unfold RequestState.raiseSubmitted
  refine List.foldlRecOn (motive := fun t : RequestState H => t.plannedEnd = s.plannedEnd ∧
    t.plannedHash = s.plannedHash) groups _ ⟨rfl, rfl⟩ fun t ht g _ => ?_
  cases (candidates cfg s plans g).getLast? with
  | none | some => exact ht

variable {request request' : RequestState H} {groups : List Nat} {plans : Plans H}

/-- **The sources of a call**: the complete chunks above `submitted_end` of each direct group. -/
theorem remoteItems_spec (hdb : db.Follows c) (hcs : cfg.chunkSize = c.chunkSize)
    (hs : AtChunk c seq request k)
    (h : directSuffixPlans db cfg.chunkSize request (firstTokens seq n) groups =
      (.ok plans, request')) :
    (∀ x ∈ remoteItems cfg request' plans groups, x.2.key.kvGroup = x.1 ∧ x.1 ∈ cfg.directGroups ∧
      x.1 ∈ groups ∧ ∃ i < n / c.chunkSize, x.2.identity = (c.chunkItem seq 0 i).identity ∧
        request.submitted x.1 < (i + 1) * c.chunkSize) ∧
    ∀ g ∈ cfg.directGroups, g ∈ groups → ∀ i < n / c.chunkSize,
      request.submitted g < (i + 1) * c.chunkSize →
      ∃ x, (g, x) ∈ remoteItems cfg request' plans groups ∧ x.key.kvGroup = g ∧
        x.identity = (c.chunkItem seq 0 i).identity := by
  rw [hcs] at h
  have hstop : ∀ {x : PlanItem H} {i : Nat}, x.identity = (c.chunkItem seq 0 i).identity →
      x.stop = (i + 1) * c.chunkSize := fun hx => congrArg (fun id => id.2.1) hx
  constructor
  · rintro ⟨g, x⟩ hx
    obtain ⟨hg, hd, hplan, hlt, -⟩ := mem_remoteItems.1 hx
    obtain ⟨hsub, -, hitems, -⟩ := suffixPlan_chunks hdb hs h hg
    obtain ⟨hkey, -, i, hi, hid⟩ := hitems x hplan
    rw [hsub, hstop hid] at hlt
    exact ⟨hkey, hd, hg, i, hi, hid, hlt⟩
  · intro g hd hg i hi hlt
    obtain ⟨hsub, -, hitems, hall⟩ := suffixPlan_chunks hdb hs h hg
    obtain ⟨x, hx, hid⟩ := hall i hi hlt
    obtain ⟨hkey, hsize, -⟩ := hitems x hx
    refine ⟨x, mem_remoteItems.2 ⟨hg, hd, hx, ?_, hcs ▸ hsize⟩, hkey, hid⟩
    rw [hsub, hstop hid]
    exact hlt

omit [DecidableEq H] in
/-- A batch joins those that are kept. -/
theorem Waits.keep (h : Waits cfg planner reqId c seq s l chunks) {event : Option Nat}
    {items : List (Nat × PlanItem H)} {more : List Nat} {t : DeferredState H}
    (ht : t.deferredBatches = s.deferredBatches ++ [remoteBatch planner reqId event [] items])
    (hchunk : ∀ x ∈ items, ∃ i, x.2.identity = (c.chunkItem seq 0 i).identity)
    (hmore : ∀ i, i ∈ more ↔ ∃ x ∈ items, x.2.key.kvGroup = 0 ∧
      x.2.identity = (c.chunkItem seq 0 i).identity) :
    Waits cfg planner reqId c seq t (l ++ [(event, [], items)]) (chunks ++ more) := by
  have hitems : KeptBatches.items (l ++ [(event, [], items)]) = l.items ++ items := by
    unfold KeptBatches.items
    rw [flatMap_append, flatMap_singleton]
  refine ⟨?_, fun x hx => ?_, fun i => ?_⟩
  · rw [ht, h.batches]
    unfold KeptBatches.batches
    rw [map_append]
    rfl
  · rw [hitems] at hx
    exact (mem_append.1 hx).elim (h.chunk x) (hchunk x)
  · rw [hitems, mem_append, h.mem, hmore]
    simp only [mem_append, or_and_right, exists_or]

section

variable (hdb : db.Follows c) (hcs : cfg.chunkSize = c.chunkSize)
include hdb hcs

/-- A call keeps a batch exactly if it has sources of every direct group. -/
theorem sources_iff (hs : AtChunk c seq request k)
    (h : directSuffixPlans db cfg.chunkSize request (firstTokens seq n) groups =
      (.ok plans, request'))
    (g : Nat) (hd : g ∈ cfg.directGroups) :
    g ∈ (remoteItems cfg request' plans groups).map Prod.fst ↔
      g ∈ groups ∧ request.submitted g < fullEnd cfg.chunkSize n := by
  obtain ⟨hitems, hall⟩ := remoteItems_spec hdb hcs hs h
  rw [fullEnd_eq, hcs, mem_map]
  constructor
  · rintro ⟨⟨g', x⟩, hx, rfl⟩
    obtain ⟨-, -, hg, i, hi, -, hlt⟩ := hitems _ hx
    refine ⟨hg, Nat.lt_of_lt_of_le hlt (Nat.mul_le_mul_right _ hi)⟩
  · rintro ⟨hg, hlt⟩
    -- the last complete chunk is a source
    have hpos : 0 < n / c.chunkSize := by
      refine Nat.pos_of_ne_zero fun hzero => ?_
      rw [hzero, Nat.zero_mul] at hlt
      exact absurd hlt (Nat.not_lt_zero _)
    have hlast : n / c.chunkSize - 1 + 1 = n / c.chunkSize := Nat.sub_add_cancel hpos
    obtain ⟨x, hx, -⟩ := hall g hd hg (n / c.chunkSize - 1) (Nat.sub_lt hpos Nat.one_pos)
      (hlast.symm ▸ hlt)
    exact ⟨_, hx, rfl⟩

/-- **What a call keeps.** -/
theorem deferredCall_waits (hs : AtChunk c seq s.request k)
    (h : Waits cfg planner reqId c seq s l chunks) {call : StoreCall τ}
    (htokens : call.tokens = firstTokens seq n) :
    ∃ t l' k', deferredCall cfg planner db reqId s call = .ok t ∧ AtChunk c seq t.request k' ∧
      Waits cfg planner reqId c seq t l' (chunks ++ s.waiting cfg (.store call)) := by
  have hpos := c.chunkSize_pos
  obtain ⟨plans, request, hplans⟩ := directSuffixPlans_isOk hdb hs n call.groups
  obtain ⟨k', hk'⟩ : ∃ k', AtChunk c seq request k' := by
    rcases directSuffixPlans_frontier hdb hs hplans with ⟨-, rfl⟩ | ⟨j, -, -, hlt, -, rfl⟩
    · exact ⟨k, hs⟩
    · exact ⟨_, atChunk_planned s.request hlt⟩
  rw [← hcs] at hplans
  have hlen : call.tokens.length = n := by rw [htokens, length_firstTokens]
  unfold deferredCall DeferredState.waiting
  rw [htokens, hplans]
  simp only [hlen]
  cases call.outcome with
  | retried committed =>
    obtain ⟨h1, h2⟩ := retryDirectCpu_frontier request call.groups committed
    exact ⟨_, l, k', rfl, hk'.of_eq h1 h2, h.of_eq rfl⟩
  | collected =>
    obtain ⟨h1, h2⟩ := raiseSubmitted_frontier cfg request plans call.groups
    have hk1 := hk'.of_eq h1 h2
    have hsources := sources_iff hdb hcs hs hplans
    obtain ⟨hitems, hall⟩ := remoteItems_spec hdb hcs hs hplans
    have hzero := cfg.zero_mem
    simp only
    by_cases hready : s.disabledReason = none ∧ ∀ g ∈ cfg.directGroups, g ∈ call.groups ∧
        s.request.submitted g < fullEnd cfg.chunkSize n
    · obtain ⟨hon, hready⟩ := hready
      have hmem : ∀ g ∈ cfg.directGroups,
          g ∈ (remoteItems cfg request plans call.groups).map Prod.fst := fun g hd =>
        (hsources g hd).2 (hready g hd)
      have hnil : remoteItems cfg request plans call.groups ≠ [] := by
        intro hnil
        have := hmem 0 hzero
        rw [hnil] at this
        cases this
      rw [if_neg (by rw [hon]; simpa using hnil), if_neg (by simpa using hmem),
        if_pos ⟨hon, hready⟩]
      refine ⟨_, _, k', rfl, hk1, h.keep rfl (fun x hx => ?_) fun i => ?_⟩
      · obtain ⟨-, -, -, i, -, hid, -⟩ := hitems x hx
        exact ⟨i, hid⟩
      · rw [mem_range'_1, hcs]
        have hle := hready 0 hzero
        rw [fullEnd_eq, hcs] at hle
        constructor
        · rintro ⟨hge, hlt⟩
          have hfirst := Nat.div_lt_of_lt_mul (Nat.mul_comm _ c.chunkSize ▸ hle.2)
          obtain ⟨x, hx, hkey, hid⟩ := hall 0 hzero hle.1 i (by omega)
            ((Nat.div_lt_iff_lt_mul hpos).1 (Nat.lt_succ_of_le hge))
          exact ⟨_, hx, hkey, hid⟩
        · rintro ⟨⟨g, x⟩, hx, hkey, hid⟩
          obtain ⟨hg, -, -, i', hi', hid', hlt⟩ := hitems _ hx
          have hsame : i * c.chunkSize = i' * c.chunkSize := congrArg Prod.fst (hid.symm.trans hid')
          obtain rfl : i = i' := Nat.eq_of_mul_eq_mul_right hpos hsame
          rw [← hg, hkey] at hlt
          have := (Nat.div_lt_iff_lt_mul hpos).2 hlt
          omega
    · rw [if_neg hready]
      split
      · exact ⟨_, l, k', rfl, hk1, h.of_eq rfl⟩
      · next hon =>
        rw [not_or, not_not] at hon
        rw [if_pos]
        · exact ⟨_, l, k', rfl, hk1, h.of_eq rfl⟩
        · by_contra hall
          refine hready ⟨hon.1, fun g hd => (hsources g hd).1 ?_⟩
          by_contra hg
          exact hall ⟨g, hd, hg⟩

theorem step_waits (hs : AtChunk c seq s.request k) (h : Waits cfg planner reqId c seq s l chunks)
    {a : DeferredAction τ H} (ha : a.OfRequest db seq) :
    ∃ l' k', AtChunk c seq (s.step cfg planner db reqId a).request k' ∧
      Waits cfg planner reqId c seq (s.step cfg planner db reqId a) l'
        (chunks ++ s.waiting cfg a) := by
  cases a with
  | store call =>
    obtain ⟨n, htokens⟩ := ha
    obtain ⟨t, l', k', hcall, hk', hw⟩ := deferredCall_waits hdb hcs hs h htokens
    have hstep : s.step cfg planner db reqId (.store call) = t := by
      unfold DeferredState.step
      simp only [hcall]
    exact ⟨l', k', hstep ▸ hk', hstep ▸ hw⟩
  | adopt result =>
    obtain ⟨k', hk', -⟩ := adoptPlan_moved hdb hcs hs ha
    unfold adoptPlan at hk'
    unfold DeferredState.step
    simp only at hk' ⊢
    split
    · exact ⟨l, k, hs, h.of_eq rfl⟩
    · next request hadopt =>
      rw [hadopt] at hk'
      exact ⟨l, k', hk', h.of_eq rfl⟩
  | submitted group stop => exact ⟨l, k, hs.of_eq rfl rfl, h.of_eq rfl⟩

theorem run_waits {actions : List (DeferredAction τ H)}
    (hactions : ∀ a ∈ actions, a.OfRequest db seq) (hs : AtChunk c seq s.request k)
    (h : Waits cfg planner reqId c seq s l chunks) :
    ∃ l', Waits cfg planner reqId c seq (deferredRun cfg planner db reqId s actions) l'
      (chunks ++ waitingChunks cfg planner db reqId s actions) := by
  induction actions generalizing s l chunks k with
  | nil => exact ⟨l, h.of_eq rfl⟩
  | cons a actions ih =>
    obtain ⟨ha, hactions⟩ := forall_mem_cons.1 hactions
    obtain ⟨l', k', hk', hw⟩ := step_waits hdb hcs hs h ha
    obtain ⟨l'', hrun⟩ := ih hactions hk' hw
    refine ⟨l'', ?_⟩
    unfold waitingChunks
    rw [← append_assoc]
    exact hrun

end

variable {dcfg : PagesConfig} {parse : String → PageKey} {batch : DirectPageBatch H}
  {pages : List ControlPage} {events : List Nat}

/-- **The windows of a merged batch** pass exactly if the chunks that its calls kept leave no gap in
one of them. -/
theorem deferred_windows_iff (hdb : db.Follows c) (hcs : cfg.chunkSize = c.chunkSize)
    (hgroups : dcfg.directGroups = cfg.directGroups) (hs : AtChunk c seq s.request k)
    (hnone : s.deferredBatches = []) {actions : List (DeferredAction τ H)}
    (hactions : ∀ a ∈ actions, a.OfRequest db seq)
    (hmerge : mergeDeferredRemoteFillBatches
      (deferredRun cfg planner db reqId s actions).deferredBatches events = .ok batch)
    (hkeys : RoundTrips cfg parse ((batch.items cfg).map Prod.fst))
    (h : remoteFillControlPages cfg batch = .ok pages) :
    (∀ w ∈ controlWindows cfg pages, WindowPasses dcfg parse w) ↔
      remoteFillPagesPerWindow cfg = 0 ∨
        NoGap (chunksPerWindow cfg)
          (uniqueSorted (waitingChunks cfg planner db reqId s actions)) := by
  have hpos := c.chunkSize_pos
  have hempty : Waits cfg planner reqId c seq s [] [] :=
    ⟨hnone, fun _ hx => absurd hx not_mem_nil,
      fun _ => iff_of_false not_mem_nil fun ⟨_, hx, _⟩ => absurd hx not_mem_nil⟩
  obtain ⟨l, hbatches, hchunk, hmem⟩ := run_waits hdb hcs hactions hs hempty
  rw [hbatches] at hmerge
  rw [nil_append] at hmem
  have hitems : ∀ e, e ∈ batch.items cfg ↔ ∃ x ∈ l.items, x.2.key.kvGroup ∈ cfg.directGroups ∧
      e = (x.2.key, planner.sizes x.1 x.2, x.2.start, x.2.stop) := fun e => mem_items_merge hmerge
  have hstart : ∀ {x : PlanItem H} {i : Nat}, x.identity = (c.chunkItem seq 0 i).identity →
      x.start / cfg.chunkSize = i := by
    intro x i hid
    have hx : x.start = i * c.chunkSize := congrArg Prod.fst hid
    rw [hx, hcs, Nat.mul_div_cancel _ hpos]
  have hzero := cfg.zero_mem
  have hchunks : batch.chunks cfg =
      uniqueSorted (waitingChunks cfg planner db reqId s actions) := by
    refine eq_of_pairwise_asymm (r := fun a b : Nat => a < b) (fun x y h h' => by omega)
      (pairwise_uniqueSorted _) (pairwise_uniqueSorted _) fun i => ?_
    unfold DirectPageBatch.chunks
    rw [mem_uniqueSorted, mem_uniqueSorted, mem_map, hmem]
    constructor
    · rintro ⟨e, he, rfl⟩
      -- the page of group 0 in the chunk of this one
      obtain ⟨-, hp, hpages⟩ := remoteFillControlPages_ok h
      obtain ⟨y, hy, hyc, hy0⟩ := hp.complete _ ((hpages _).2 ⟨e, he, rfl⟩) 0 hzero
      obtain ⟨e', he', rfl⟩ := (hpages y).1 hy
      obtain ⟨x, hx, -, rfl⟩ := (hitems e').1 he'
      obtain ⟨i, hid⟩ := hchunk x hx
      have hsame : x.2.start / cfg.chunkSize = e.2.2.1 / cfg.chunkSize := Int.ofNat_inj.1 hyc
      rw [← hsame, hstart hid]
      exact ⟨x, hx, hy0, hid⟩
    · rintro ⟨x, hx, hx0, hid⟩
      exact ⟨_, (hitems _).2 ⟨x, hx, hx0 ▸ hzero, rfl⟩, hstart hid⟩
  rw [batch_windows_iff hgroups hkeys h, ← hchunks]
  refine or_congr_right ⟨fun hfits => hfits.consecutive, fun hgap => ⟨hgap, ?_⟩⟩
  -- both items are of one chunk of the request
  intro e he e' he' hee
  obtain ⟨x, hx, -, rfl⟩ := (hitems e).1 he
  obtain ⟨y, hy, -, rfl⟩ := (hitems e').1 he'
  obtain ⟨i, hi⟩ := hchunk x hx
  obtain ⟨j, hj⟩ := hchunk y hy
  have hij : i = j := (hstart hi).symm.trans (hee.trans (hstart hj))
  have hid : x.2.identity = y.2.identity := by rw [hi, hj, hij]
  have hfirst : x.2.start = y.2.start := congrArg Prod.fst hid
  have hlast : x.2.stop = y.2.stop := congrArg (fun id => id.2.1) hid
  exact ⟨Prod.ext hfirst hlast, congrArg (fun id => id.2.2) hid⟩

end

/-! ## The batch of one call -/

section

variable {τ H : Type} [DecidableEq H] {cfg : ProducerConfig H} {planner : SourcePlanner H}
  {c : HashChain τ H} {db : TokenDatabase τ H} {seq : Nat → τ} {dcfg : PagesConfig}
  {parse : String → PageKey}

/-- The batches that are not deferred: of a call, of a tail, and of a final call whose batch waits
for its tail. -/
inductive CallBatch (cfg : ProducerConfig H) (planner : SourcePlanner H) (c : HashChain τ H)
    (db : TokenDatabase τ H) (seq : Nat → τ) : DirectPageBatch H → Prop
  | store {s s' : RequestState H} {tokens : List τ} {groups : List Nat} {plans : Plans H}
    {reqId : String} {event : Option Nat} {events : List Nat} : cfg.chunkSize ∣ s.plannedEnd →
    (∀ g ∈ cfg.directGroups, g ∈ groups) →
    directSuffixPlans db cfg.chunkSize s tokens groups = (.ok plans, s') →
    CallBatch cfg planner c db seq
      (remoteBatch planner reqId event events (remoteItems cfg s' plans groups))
  | tail {t : RequestState H} {k n : Nat} {x : PlanItem H} {reqId : String} {event : Option Nat}
    {events : List Nat} : AtChunk c seq t k → k * c.chunkSize ≤ n →
    tailItem db t (firstTokens seq n) = some x →
    CallBatch cfg planner c db seq (remoteBatch planner reqId event events (tailItems cfg db x))
  | finalCall {s s' t : RequestState H} {k k' n : Nat} {groups : List Nat} {plans : Plans H}
    {x : PlanItem H} {reqId : String} {event event' : Option Nat}
    {events events' readyEvents : List Nat} {batch : DirectPageBatch H} : AtChunk c seq s k →
    directSuffixPlans db cfg.chunkSize s (firstTokens seq n) groups = (.ok plans, s') →
    (∀ g ∈ cfg.directGroups, g ∈ (remoteItems cfg s' plans groups).map Prod.fst) →
    AtChunk c seq t k' → k' * c.chunkSize ≤ n → tailItem db t (firstTokens seq n) = some x →
    mergeDeferredRemoteFillBatches
      [remoteBatch planner reqId event events (remoteItems cfg s' plans groups),
        remoteBatch planner reqId event' events' (tailItems cfg db x)] readyEvents = .ok batch →
    CallBatch cfg planner c db seq batch

omit [DecidableEq H] in
theorem tailKey_spec (hdb : db.Follows c) {x : PlanItem H} (hx : x.key.kvGroup = 0) (g : Nat) :
    (tailKey db x g).kvGroup = g ∧ (tailKey db x g).chunkHash = x.key.chunkHash := by
  unfold tailKey
  split
  · next hg => exact ⟨hx.trans hg.symm, rfl⟩
  · rw [hdb.hashes _ _ _ rfl]
    exact ⟨rfl, rfl⟩

omit [DecidableEq H] in
/-- The sources of a tail: one of each direct group, with the identity of the tail. -/
theorem mem_tailItems (hdb : db.Follows c) {x : PlanItem H} (hx : x.key.kvGroup = 0)
    {y : Nat × PlanItem H} (hy : y ∈ tailItems cfg db x) :
    y.2.key.kvGroup = y.1 ∧ y.1 ∈ cfg.directGroups ∧ y.2.identity = x.identity := by
  obtain ⟨g, hg, rfl⟩ := mem_map.1 hy
  obtain ⟨hgroup, hhash⟩ := tailKey_spec hdb hx g
  refine ⟨hgroup, hg, ?_⟩
  unfold PlanItem.identity
  rw [hhash]

omit [DecidableEq H] in
theorem processTokens_contiguous (hdb : db.Follows c) (seq : Nat → τ) (n : Nat) :
    Contiguous c.chunkSize
      ((db.processTokens (firstTokens seq n) 0).map PlanItem.identity) := by
  rw [hdb.process]
  exact chunks_contiguous ..

omit [DecidableEq H] in
theorem processTokens_group (hdb : db.Follows c) {tokens : List τ} {x : PlanItem H}
    (hx : x ∈ db.processTokens tokens 0) : x.key.kvGroup = 0 := by
  rw [hdb.process] at hx
  exact (of_mem_chunks hx).1

omit [DecidableEq H] in
/-- An item of the whole plan is a complete chunk or the one that ends with the tokens. -/
theorem mem_processTokens (hdb : db.Follows c) {n : Nat} {x y : PlanItem H}
    (hx : x ∈ db.processTokens (firstTokens seq n) 0)
    (hy : y ∈ db.processTokens (firstTokens seq n) 0) (hyn : y.stop = n) :
    (∃ i < n / c.chunkSize, x = c.chunkItem seq 0 i) ∨ x = y := by
  rw [processTokens_firstTokens hdb] at hx hy
  rcases mem_append.1 hx with hx | hx
  · obtain ⟨i, -, hi, rfl⟩ := mem_chunkItems.1 hx
    exact .inl ⟨i, hi, rfl⟩
  right
  unfold HashChain.partialItems at hx hy
  split at hx
  · next hpartial =>
    rw [if_pos hpartial] at hy
    rcases mem_append.1 hy with hy | hy
    · -- a complete chunk ends before the partial one
      obtain ⟨i, -, hi, rfl⟩ := mem_chunkItems.1 hy
      have hle : (i + 1) * c.chunkSize ≤ n / c.chunkSize * c.chunkSize :=
        Nat.mul_le_mul_right _ hi
      have hstop : (i + 1) * c.chunkSize = n := hyn
      have hmod := Nat.div_add_mod n c.chunkSize
      rw [Nat.mul_comm] at hmod
      have := hpartial.1
      omega
    · rw [mem_singleton.1 hx, mem_singleton.1 hy]
  · cases hx

/-- The chunks of one call follow each other, so its windows have no gap. -/
theorem CallBatch.windows (hdb : db.Follows c) (hcs : cfg.chunkSize = c.chunkSize)
    (hgroups : dcfg.directGroups = cfg.directGroups) {batch : DirectPageBatch H}
    (hbatch : CallBatch cfg planner c db seq batch)
    (hkeys : RoundTrips cfg parse ((batch.items cfg).map Prod.fst)) {pages : List ControlPage}
    (h : remoteFillControlPages cfg batch = .ok pages) :
    ∀ w ∈ controlWindows cfg pages, WindowPasses dcfg parse w := by
  have hpos : 0 < cfg.chunkSize := hcs ▸ c.chunkSize_pos
  have hzero := cfg.zero_mem
  cases hbatch with
  | store hdvd hdirect hplans =>
    exact remoteBatch_windows hdb hcs hgroups (hcs ▸ hdvd) hdirect hplans hkeys h
  | @tail t k n x reqId event events ht hn hx =>
    obtain ⟨hmem, -, -⟩ := mem_of_tailItem hdb ht hn hx
    have hx0 := processTokens_group hdb hmem
    have hlt : x.start < x.stop :=
      (processTokens_contiguous hdb _ n).nonempty _ (mem_map_of_mem hmem)
    have hids : Contiguous cfg.chunkSize [x.identity] := by
      refine ⟨.singleton _, fun id hid => ?_⟩
      rw [mem_singleton.1 hid]
      exact hlt
    refine planItems_windows hpos hgroups hids (fun _ => 0) (fun y hy => ?_) (fun id hid _ => ?_)
      (fun e => mem_items_remoteBatch) hkeys h
    · obtain ⟨-, -, hid⟩ := mem_tailItems hdb hx0 hy
      have hstop : y.2.stop = x.stop := congrArg (fun id => id.2.1) hid
      exact ⟨mem_singleton.2 hid, by omega⟩
    · have hy : (0, { x with key := tailKey db x 0 }) ∈ tailItems cfg db x :=
        mem_map_of_mem hzero
      obtain ⟨hg, -, hid'⟩ := mem_tailItems hdb hx0 hy
      exact ⟨_, hy, hg, hid'.trans (mem_singleton.1 hid).symm⟩
  | @finalCall s s' t k k' n groups plans x _ _ _ _ _ _ _ hs hplans hall ht hn hx hmerge =>
    obtain ⟨hmem, -, hxn⟩ := mem_of_tailItem hdb ht hn hx
    have hx0 := processTokens_group hdb hmem
    obtain ⟨hitems, hexists⟩ := remoteItems_spec hdb hcs hs hplans
    have hbelow : ∀ g ∈ cfg.directGroups, g ∈ groups ∧ s.submitted g < n := by
      intro g hg
      obtain ⟨hgs, hlt⟩ := (sources_iff hdb hcs hs hplans g hg).1 (hall g hg)
      exact ⟨hgs, Nat.lt_of_lt_of_le hlt (Nat.div_mul_le_self n cfg.chunkSize)⟩
    refine planItems_windows hpos hgroups (hcs ▸ processTokens_contiguous hdb seq n) s.submitted
      (fun y hy => ?_) (fun id hid hlt => ?_)
      (fun e => mem_items_merge (l := [(_, _, _), (_, _, _)]) hmerge) hkeys h
    · rw [flatMap_cons, flatMap_singleton] at hy
      rcases mem_append.1 hy with hy | hy
      · obtain ⟨hg, -, -, i, hi, hid, hlt⟩ := hitems y hy
        have hstop : y.2.stop = (i + 1) * c.chunkSize := congrArg (fun id => id.2.1) hid
        rw [hid, hg, hstop, processTokens_firstTokens hdb]
        exact ⟨mem_map_of_mem (mem_append_left _
          (mem_chunkItems.2 ⟨i, Nat.zero_le i, hi, rfl⟩)), hlt⟩
      · obtain ⟨hg, hd, hid⟩ := mem_tailItems hdb hx0 hy
        have hstop : y.2.stop = x.stop := congrArg (fun id => id.2.1) hid
        rw [hid, hg, hstop, hxn]
        exact ⟨mem_map_of_mem hmem, (hbelow _ hd).2⟩
    · rw [flatMap_cons, flatMap_singleton]
      obtain ⟨z, hz, rfl⟩ := mem_map.1 hid
      rcases mem_processTokens hdb hz hmem hxn with ⟨i, hi, rfl⟩ | rfl
      · obtain ⟨y, hy, hg, hyid⟩ := hexists 0 hzero (hbelow 0 hzero).1 i hi hlt
        exact ⟨_, mem_append_left _ hy, hg, hyid⟩
      have hy : (0, { z with key := tailKey db z 0 }) ∈ tailItems cfg db z :=
        mem_map_of_mem hzero
      obtain ⟨hg, -, hyid⟩ := mem_tailItems hdb hx0 hy
      exact ⟨_, mem_append_right _ hy, hg, hyid⟩

/-- **The windows that the decoder accepts.**  Those of a merged batch exactly if the chunks that
the calls kept for it leave no gap in a window, or there are no windows; those of the batch of a
call, of a tail and of a probe always. -/
theorem producer_windows (cfg : ProducerConfig H) (dcfg : PagesConfig) (parse : String → PageKey)
    (planner : SourcePlanner H) (seq : Nat → τ) (hdb : db.Follows c)
    (hchunk : cfg.chunkSize = c.chunkSize) (hlayout : cfg.layoutChunkSize = c.chunkSize)
    (hgroups : dcfg.directGroups = cfg.directGroups) :
    (∀ reqId s k actions events batch pages, AtChunk c seq s.request k → s.deferredBatches = [] →
      (∀ a ∈ actions, a.OfRequest db seq) →
      mergeDeferredRemoteFillBatches
        (deferredRun cfg planner db reqId s actions).deferredBatches events = .ok batch →
      RoundTrips cfg parse ((batch.items cfg).map Prod.fst) →
      remoteFillControlPages cfg batch = .ok pages →
      ((∀ w ∈ controlWindows cfg pages, WindowPasses dcfg parse w) ↔
        remoteFillPagesPerWindow cfg = 0 ∨ NoGap (chunksPerWindow cfg)
          (uniqueSorted (waitingChunks cfg planner db reqId s actions)))) ∧
    (∀ batch pages, CallBatch cfg planner c db seq batch →
      RoundTrips cfg parse ((batch.items cfg).map Prod.fst) →
      remoteFillControlPages cfg batch = .ok pages →
      ∀ w ∈ controlWindows cfg pages, WindowPasses dcfg parse w) ∧
    ∀ plans probeStart probeEnd pages, ProbePlans cfg db plans →
      RoundTrips cfg parse ((probeItems cfg plans probeStart probeEnd).map fun x => x.2.key) →
      remoteFillProbeControlPages cfg plans probeStart probeEnd = .ok pages →
      ∀ w ∈ controlWindows cfg pages, WindowPasses dcfg parse w := by
  refine ⟨?_, ?_, ?_⟩
  · intro reqId s k actions events batch pages hs hnone hactions hmerge hkeys h
    exact deferred_windows_iff hdb hchunk hgroups hs hnone hactions hmerge hkeys h
  · intro batch pages hbatch hkeys h
    exact hbatch.windows hdb hchunk hgroups hkeys h
  · intro plans probeStart probeEnd pages hplans hkeys h
    exact hplans.windows hdb hchunk hlayout hgroups hkeys h

end

/-! ## A chunk that no batch has -/

def newRequest : DeferredState Nat := ⟨⟨Dict.empty, Dict.empty, 0, 0, none, 0⟩, [], none⟩

/-- A call of the request of zeros. -/
def storeZeros (n : Nat) (outcome : CallOutcome) : DeferredAction Nat Nat :=
  .store ⟨replicate n 0, [0, 1], none, outcome⟩

/-- A layerwise store of the chunks 2 and 3. -/
def adoptTwo (group : Nat) : DeferredAction Nat Nat :=
  .adopt ⟨group, [4, 6], [6, 8], some [⟨group, 3⟩, ⟨group, 4⟩], 8⟩

/-- What the decoder says of the windows of the batch merged after calls with 4 and 12 tokens and
what comes between them. -/
def mergedWindows (between : List (DeferredAction Nat Nat)) :
    Except DirectError (List (Except PageError Unit)) := do
  let s := deferredRun twoGroups onePointer countingChain.database "request" newRequest
    (storeZeros 4 .collected :: between ++ [storeZeros 12 .collected])
  let batch ← mergeDeferredRemoteFillBatches s.deferredBatches [7]
  let pages ← remoteFillControlPages twoGroups batch
  pure ((controlWindows twoGroups pages).map fun w =>
    validateWindowGroups twoGroupsDecoder w (w.map fun x => parseCountingKey x.canonicalKey))

/-- A call that stores its two chunks through the CPU, or two chunks that are adopted: the merged
batch has the first and the last two chunks, and its only window is rejected. -/
theorem deferred_gap :
    mergedWindows [storeZeros 8 (.retried fun _ => 8)] =
      .ok [.error (.valueError "remote-fill page window must be contiguous")] ∧
    mergedWindows [adoptTwo 0, adoptTwo 1] =
      .ok [.error (.valueError "remote-fill page window must be contiguous")] := by
  decide +kernel

example : mergedWindows [storeZeros 8 .collected] = .ok [.ok (), .ok ()] := by decide +kernel

/-- The batch of the chunks 0 and 1 and of the chunks 2 and 3, in both groups. -/
def twoCallsBatch : DirectPageBatch Nat where
  reqId := "request"
  keys := [⟨0, 1⟩, ⟨0, 2⟩, ⟨1, 1⟩, ⟨1, 2⟩, ⟨0, 3⟩, ⟨0, 4⟩, ⟨1, 3⟩, ⟨1, 4⟩]
  ptrs := replicate 8 [0]
  sizes := replicate 8 [20]
  owners := []
  readyEvent := some 7
  groupEnds := (Dict.empty.set 0 8).set 1 8
  ranges := [(0, 2), (2, 4), (0, 2), (2, 4), (4, 6), (6, 8), (4, 6), (6, 8)]
  readyEvents := [7]

theorem producer_windows_two_calls :
    mergeDeferredRemoteFillBatches
        (deferredRun twoGroups onePointer countingChain.database "request" newRequest
          [storeZeros 4 .collected, storeZeros 8 .collected]).deferredBatches [7] =
      .ok twoCallsBatch ∧
    ∃ pages, remoteFillControlPages twoGroups twoCallsBatch = .ok pages ∧ pages.length = 8 ∧
      ∀ w ∈ controlWindows twoGroups pages, WindowPasses twoGroupsDecoder parseCountingKey w := by
  have hkeys : RoundTrips twoGroups parseCountingKey
      ((twoCallsBatch.items twoGroups).map Prod.fst) :=
    ⟨by decide +kernel, by decide +kernel, by decide +kernel⟩
  have hchunks : uniqueSorted (waitingChunks twoGroups onePointer countingChain.database "request"
      newRequest [storeZeros 4 .collected, storeZeros 8 .collected]) = [0, 1, 2, 3] := by
    decide +kernel
  have hgap : NoGap (chunksPerWindow twoGroups) [0, 1, 2, 3] := by
    intro i hi _
    rcases i with _ | _ | _ | i
    · rfl
    · rfl
    · rfl
    · exact absurd hi (by simp)
  have hzeros : ∀ a ∈ [storeZeros 4 .collected, storeZeros 8 .collected],
      a.OfRequest countingChain.database fun _ => 0 := by
    intro a ha
    rcases mem_cons.1 ha with rfl | ha
    · exact ⟨4, rfl⟩
    · rw [mem_singleton.1 ha]
      exact ⟨8, rfl⟩
  refine ⟨rfl, ?_⟩
  rcases h : remoteFillControlPages twoGroups twoCallsBatch with e | pages
  · have hok : (remoteFillControlPages twoGroups twoCallsBatch).isOk = true := by decide +kernel
    rw [h] at hok
    cases hok
  · have hlen : (remoteFillControlPages twoGroups twoCallsBatch).map List.length = .ok 8 := by
      decide +kernel
    rw [h] at hlen
    refine ⟨pages, rfl, Except.ok.inj hlen, ?_⟩
    exact ((producer_windows twoGroups twoGroupsDecoder parseCountingKey onePointer (fun _ => 0)
      countingChain.database_follows rfl rfl rfl).1 "request" newRequest 0 _ [7] _ _ ⟨rfl, .inl rfl⟩
      rfl hzeros rfl hkeys h).2 (.inr (hchunks ▸ hgap))

end DirectStore
