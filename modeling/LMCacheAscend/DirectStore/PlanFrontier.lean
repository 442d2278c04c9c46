import LMCacheAscend.DirectStore.Deferred
import LMCacheAscend.DirectStore.WholePlan

/-!
# The planning frontier of a request

`storePlan` is the planning part of `store_direct_prefill`: the suffix plans and
the probe of the cached prefix, which rebuilds the plans of the prefix when the
suffix plans do not have them.  Adopted layerwise stores and the other writes of
`submitted_end` come between the calls.  `PlanMachine` has every order of these.

The log is a ghost: what was planned, from where, and where the frontier was
moved otherwise.  `segment` are the items planned since the frontier was last
taken from somewhere else or the plan was started again.
-/

namespace DirectStore

open Lib RemoteFill List Option Dict

/-- What moved the frontier. -/
inductive PlanEvent (H : Type)
  | planned (base : Nat) (items : List (PlanItem H))
  | adopted (stop : Nat)
  | reset (stop : Nat)
  deriving DecidableEq, Repr

structure PlanRun (H : Type) where
  request : RequestState H
  log : List (PlanEvent H)

/-- A call of `store_direct_prefill` with the first `accepted` tokens of the request; `remoteFill`
says whether its remote fill is prepared, `finished` whether it is the final call of a request that
is finalized. -/
structure PlanCall where
  accepted : Nat
  groups : List Nat
  verifiedPrefixEnd : Nat
  remoteFill : Bool
  finished : Bool
  deriving DecidableEq, Repr

inductive PlanAction (H : Type)
  | store (call : PlanCall)
  | adopt (result : LayerwiseStoreResult H)
  /-- The other writes of `submitted_end`: puts, existing pages, CPU stores, tails. -/
  | submitted (group stop : Nat)

section

variable {τ H : Type} [DecidableEq H] (cfg : ProducerConfig H) (db : TokenDatabase τ H)
  (seq : Nat → τ)

/-- A group that is not there starts at the verified prefix. -/
def RequestState.openGroups (s : RequestState H) (groups : List Nat) (verifiedPrefixEnd : Nat) :
    RequestState H :=
  groups.foldl (fun (t : RequestState H) g =>
    if g ∈ t.submittedEnd.keys then t
    else { t with
      submittedEnd := t.submittedEnd.set g verifiedPrefixEnd
      committedEnd := t.committedEnd.set g verifiedPrefixEnd }) s

/-- The pages that the probe expects. -/
def expectedPages (s : RequestState H) (probeTarget : Nat) : Nat :=
  (probeTarget - s.probeEnd) / cfg.chunkSize * cfg.directGroups.length

/-- The probe with the pages it found. -/
def RequestState.probed (s : RequestState H) (probeTarget : Nat) (pages : List ControlPage) :
    RequestState H :=
  if pages.length ≠ expectedPages cfg s probeTarget then s else { s with probeEnd := probeTarget }

/-- The probe of the cached prefix. -/
def probePrefix (s : RequestState H) (tokens : List τ) (plans : Plans H)
    (verifiedPrefixEnd : Nat) : RequestState H × List (PlanEvent H) :=
  let probeTarget := fullEnd cfg.chunkSize verifiedPrefixEnd
  if probeTarget ≤ s.probeEnd then (s, [])
  else
    match remoteFillProbeControlPages cfg plans s.probeEnd probeTarget with
    | .error _ => (s, [])
    | .ok pages =>
      if pages.length = expectedPages cfg s probeTarget then (s.probed cfg probeTarget pages, [])
      else
        match remoteFillPrefixPlans db cfg.directGroups tokens probeTarget with
        | .error _ => (s, [])
        | .ok prefixPlans =>
          let latent := (prefixPlans.get? 0).getD []
          let t := s.planned latent
          let events := if latent = [] then [] else [.reset t.plannedEnd]
          match remoteFillProbeControlPages cfg prefixPlans s.probeEnd probeTarget with
          | .error _ => (t, events)
          | .ok pages => (t.probed cfg probeTarget pages, events)

/-- The planning of one call; an exception leaves what was done before it. -/
def storePlan (s : RequestState H) (call : PlanCall) : RequestState H × List (PlanEvent H) :=
  if call.accepted < call.verifiedPrefixEnd ∨ ∃ n ∈ s.acceptedStoreEnd, call.accepted < n then
    (s, [])
  else if call.finished then ({ s with acceptedStoreEnd := some call.accepted }, [])
  else
    let tokens := firstTokens seq call.accepted
    let s := ({ s with acceptedStoreEnd := some call.accepted } : RequestState H).openGroups
      call.groups call.verifiedPrefixEnd
    let base := planBase s (fullEnd cfg.chunkSize tokens.length) call.groups
    match directSuffixPlans db cfg.chunkSize s tokens call.groups with
    | (.error _, s) => (s, [])
    | (.ok plans, s) =>
      let items := (plans.get? 0).getD []
      let events := if items = [] then [] else [.planned base items]
      if call.remoteFill then
        let r := probePrefix cfg db s tokens plans call.verifiedPrefixEnd
        (r.1, events ++ r.2)
      else (s, events)

/-- The chunks of a layerwise store. -/
def LayerwiseStoreResult.chunks (r : LayerwiseStoreResult H) : List (PlanItem H) :=
  (r.starts.zip (r.ends.zip (r.keys.getD []))).map fun x => ⟨x.1, x.2.1, x.2.2⟩

/-- The layerwise stores that move the frontier. -/
def adoptPlan (s : RequestState H) (r : LayerwiseStoreResult H) :
    RequestState H × List (PlanEvent H) :=
  match adoptCompletedLayerwiseStore cfg.chunkSize s r with
  | .error _ => (s, [])
  | .ok t => (t, if s.plannedEnd < t.plannedEnd then [.adopted t.plannedEnd] else [])

def planStep (s : RequestState H) : PlanAction H → RequestState H × List (PlanEvent H)
  | .store call => storePlan cfg db seq s call
  | .adopt r => adoptPlan cfg s r
  | .submitted group stop => ({ s with submittedEnd := s.submittedEnd.set group stop }, [])

/-- A layerwise store of the request stores chunks of its tokens. -/
def PlanAction.OfRequest : PlanAction H → Prop
  | .adopt r => ∃ n, ∀ x ∈ r.chunks, x ∈ db.processTokens (firstTokens seq n) r.kvGroup
  | _ => True

/-- The runs of one request. -/
def PlanMachine (initialHash : H) : Machine (PlanRun H) (PlanAction H) where
  start s := s = ⟨⟨Dict.empty, Dict.empty, 0, initialHash, none, 0⟩, []⟩
  step s a :=
    let r := planStep cfg db seq s.request a
    some ⟨r.1, s.log ++ r.2⟩

end

/-- Where the items planned last without a break start, and these items. -/
def segmentFrom {H : Type} : Nat × List (PlanItem H) → List (PlanEvent H) →
    Nat × List (PlanItem H)
  | acc, [] => acc
  | acc, .planned base items :: log =>
    segmentFrom (if base = 0 then (0, items) else (acc.1, acc.2 ++ items)) log
  | _, .adopted stop :: log => segmentFrom (stop, []) log
  | _, .reset stop :: log => segmentFrom (stop, []) log

def segment {H : Type} (log : List (PlanEvent H)) : Nat × List (PlanItem H) :=
  segmentFrom (0, []) log

/-- All items that were planned. -/
def plannedItems {H : Type} (log : List (PlanEvent H)) : List (PlanItem H) :=
  log.flatMap fun
    | .planned _ items => items
    | _ => []

/-! ## The log -/

section

variable {H : Type}

theorem segmentFrom_append (acc : Nat × List (PlanItem H)) (log more : List (PlanEvent H)) :
    segmentFrom acc (log ++ more) = segmentFrom (segmentFrom acc log) more := by
  induction log generalizing acc with
  | nil => rfl
  | cons e log ih => cases e <;> exact ih _

theorem segment_append (log more : List (PlanEvent H)) :
    segment (log ++ more) = segmentFrom (segment log) more :=
  segmentFrom_append _ _ _

/-- Only the first plan starts at token 0, and the frontier was moved by plans only. -/
def Unbroken (log : List (PlanEvent H)) : Prop :=
  ∃ items rest, log = .planned 0 items :: rest ∧
    ∀ e ∈ rest, ∃ base more, e = PlanEvent.planned base more ∧ base ≠ 0

theorem segmentFrom_rest {log : List (PlanEvent H)}
    (h : ∀ e ∈ log, ∃ base more, e = PlanEvent.planned base more ∧ base ≠ 0)
    (acc : Nat × List (PlanItem H)) :
    segmentFrom acc log = (acc.1, acc.2 ++ plannedItems log) := by
  induction log generalizing acc with
  | nil =>
    show acc = (acc.1, acc.2 ++ [])
    rw [append_nil]
  | cons e log ih =>
    obtain ⟨base, more, rfl, hbase⟩ := h e mem_cons_self
    show segmentFrom (if base = 0 then (0, more) else (acc.1, acc.2 ++ more)) log = _
    rw [if_neg hbase, ih fun e he => h e (mem_cons_of_mem _ he)]
    show (acc.1, acc.2 ++ more ++ plannedItems log) = (acc.1, acc.2 ++ (more ++ plannedItems log))
    rw [append_assoc]

theorem Unbroken.segment {log : List (PlanEvent H)} (h : Unbroken log) :
    segment log = (0, plannedItems log) := by
  obtain ⟨items, rest, rfl, hrest⟩ := h
  show segmentFrom (0, items) rest = _
  rw [segmentFrom_rest hrest]
  rfl

end

/-! ## One call -/

section

variable {τ H : Type} [DecidableEq H] {cfg : ProducerConfig H} {c : HashChain τ H}
  {db : TokenDatabase τ H} {seq : Nat → τ}

/-- The frontier is behind the `k` first chunks. -/
def AtChunk (c : HashChain τ H) (seq : Nat → τ) (s : RequestState H) (k : Nat) : Prop :=
  s.plannedEnd = k * c.chunkSize ∧ (k = 0 ∨ s.plannedHash = c.hashAt seq k)

variable {k : Nat} {s : RequestState H}

omit [DecidableEq H] in
theorem AtChunk.of_eq {s t : RequestState H} (h : AtChunk c seq s k)
    (h1 : t.plannedEnd = s.plannedEnd) (h2 : t.plannedHash = s.plannedHash) :
    AtChunk c seq t k :=
  ⟨h1.trans h.1, h.2.imp_right h2.trans⟩

omit [DecidableEq H] in
theorem atChunk_planned (s : RequestState H) {group j k : Nat} (h : j < k) :
    AtChunk c seq (s.planned (c.chunkItems seq group j k)) k := by
  unfold RequestState.planned
  rw [getLast?_chunkItems h]
  have hk : k - 1 + 1 = k := by omega
  refine ⟨?_, .inr ?_⟩
  · show (k - 1 + 1) * c.chunkSize = k * c.chunkSize
    rw [hk]
  · show c.hashAt seq (k - 1 + 1) = c.hashAt seq k
    rw [hk]

omit [DecidableEq H] in
theorem openGroups_frontier (s : RequestState H) (groups : List Nat) (n : Nat) :
    (s.openGroups groups n).plannedEnd = s.plannedEnd ∧
      (s.openGroups groups n).plannedHash = s.plannedHash := by
  unfold RequestState.openGroups
  induction groups generalizing s with
  | nil => exact ⟨rfl, rfl⟩
  | cons g groups ih =>
    rw [foldl_cons]
    split
    · exact ih s
    · exact ih _

theorem fullEnd_eq (chunkSize n : Nat) : fullEnd chunkSize n = n / chunkSize * chunkSize := rfl

omit [DecidableEq H] in
theorem latentPlan_firstTokens (hdb : db.Follows c) {j m : Nat}
    (hs : j = 0 ∨ s.plannedHash = c.hashAt seq j) (hjm : j ≤ m) :
    latentPlan db s (firstTokens seq (m * c.chunkSize)) (j * c.chunkSize) =
      c.chunkItems seq 0 j m := by
  have hpos := c.chunkSize_pos
  unfold latentPlan
  rw [length_firstTokens]
  by_cases hjm' : j = m
  · rw [if_pos (by rw [hjm']), hjm', chunkItems_self]
  rw [if_neg fun h => hjm' (Nat.eq_of_mul_eq_mul_right hpos h)]
  by_cases hzero : j = 0
  · rw [hzero, if_neg (by rw [Nat.zero_mul]; exact fun h => h rfl), processTokens_mul hdb]
  rw [if_pos (Nat.mul_ne_zero hzero (Nat.ne_of_gt hpos)), hs.resolve_left hzero,
    processTokensFromPrefix_firstTokens hdb 0 (Nat.mul_le_mul_right _ hjm),
    Nat.mul_div_cancel _ hpos, Nat.mul_mod_left, partialItems_zero, append_nil]

omit [DecidableEq H] in
/-- The plan of group 0: the chunks from the frontier (or from the first chunk) on. -/
theorem latentPlan_frontier (hdb : db.Follows c) (hs : AtChunk c seq s k) (n : Nat)
    (groups : List Nat) :
    ∃ j, planBase s (fullEnd c.chunkSize n) groups = j * c.chunkSize ∧ (j = k ∨ j = 0) ∧
      j ≤ n / c.chunkSize ∧
      latentPlan db s ((firstTokens seq n).take (fullEnd c.chunkSize n))
        (planBase s (fullEnd c.chunkSize n) groups) = c.chunkItems seq 0 j (n / c.chunkSize) := by
  have hpos := c.chunkSize_pos
  -- the chunk that the plan starts from
  obtain ⟨j, hbase, hj, hjm⟩ : ∃ j, planBase s (fullEnd c.chunkSize n) groups = j * c.chunkSize ∧
      (j = k ∨ j = 0) ∧ j ≤ n / c.chunkSize := by
    unfold planBase
    split
    · next hle =>
      rw [hs.1, fullEnd_eq] at hle
      exact ⟨k, hs.1, .inl rfl, Nat.le_of_mul_le_mul_right hle.1 hpos⟩
    · exact ⟨0, (Nat.zero_mul _).symm, .inr rfl, Nat.zero_le _⟩
  have hhash : j = 0 ∨ s.plannedHash = c.hashAt seq j := by
    rcases hj with rfl | rfl
    · exact hs.2
    · exact .inl rfl
  refine ⟨j, hbase, hj, hjm, ?_⟩
  rw [hbase, take_firstTokens seq (m := fullEnd c.chunkSize n) (Nat.div_mul_le_self _ _),
    fullEnd_eq,
    latentPlan_firstTokens hdb hhash hjm]

/-- **One suffix plan**: nothing, or the chunks from the frontier (or from the first chunk) to
the last complete chunk of the tokens. -/
theorem directSuffixPlans_frontier (hdb : db.Follows c) {s s' : RequestState H} {k n : Nat}
    {groups : List Nat} {plans : Plans H} (hs : AtChunk c seq s k)
    (h : directSuffixPlans db c.chunkSize s (firstTokens seq n) groups = (.ok plans, s')) :
    (plans.get? 0).getD [] = [] ∧ s' = s ∨
      ∃ j, planBase s (fullEnd c.chunkSize n) groups = j * c.chunkSize ∧
        (j = k ∨ j = 0) ∧ j < n / c.chunkSize ∧
        (plans.get? 0).getD [] = c.chunkItems seq 0 j (n / c.chunkSize) ∧
        s' = s.planned (c.chunkItems seq 0 j (n / c.chunkSize)) := by
  rcases directSuffixPlans_ok h with ⟨hempty, rfl, -⟩ | ⟨plan0, hplan0, rfl, hplan, -, -⟩
  · exact .inl ⟨hempty 0, rfl⟩
  obtain ⟨j, hbase, hj, hjm, hlatent⟩ := latentPlan_frontier hdb hs n groups
  rw [length_firstTokens, hlatent] at hplan0
  subst hplan0
  rcases Nat.lt_or_eq_of_le hjm with hlt | heq
  · exact .inr ⟨j, hbase, hj, hlt, hplan, rfl⟩
  · rw [← heq, chunkItems_self] at hplan ⊢
    exact .inl ⟨hplan, rfl⟩

theorem remoteFillPrefixPlans_latent (hdb : db.Follows c) {directGroups : List Nat}
    {m n : Nat} {plans : Plans H} (hmn : m * c.chunkSize ≤ n)
    (h : remoteFillPrefixPlans db directGroups (firstTokens seq n) (m * c.chunkSize) = .ok plans) :
    (plans.get? 0).getD [] = c.chunkItems seq 0 0 m := by
  have hlatent : db.processTokens ((firstTokens seq n).take (m * c.chunkSize)) 0 =
      c.chunkItems seq 0 0 m := by
    rw [take_firstTokens seq hmn, processTokens_mul hdb]
  unfold remoteFillPrefixPlans at h
  simp only at h
  split at h
  · cases h
    rw [get?_set_self, getD_some, hlatent]
  split at h
  · cases h
  · cases h
    rw [get?_set_ne (by decide), get?_set_self, getD_some, hlatent]

omit [DecidableEq H] in
theorem AtChunk.probed (h : AtChunk c seq s k) (target : Nat)
    (pages : List ControlPage) : AtChunk c seq (s.probed cfg target pages) k := by
  unfold RequestState.probed
  split <;> exact h

theorem probePrefix_frontier (hdb : db.Follows c) (hcs : cfg.chunkSize = c.chunkSize)
    {k n v : Nat} (hs : AtChunk c seq s k) (hv : v ≤ n) (plans : Plans H) :
    ∃ k', AtChunk c seq (probePrefix cfg db s (firstTokens seq n) plans v).1 k' ∧
      ((probePrefix cfg db s (firstTokens seq n) plans v).2 = [] ∧ k' = k ∨
        (probePrefix cfg db s (firstTokens seq n) plans v).2 = [.reset (k' * c.chunkSize)]) := by
  unfold probePrefix
  simp only
  split
  · exact ⟨k, hs, .inl ⟨rfl, rfl⟩⟩
  split
  · exact ⟨k, hs, .inl ⟨rfl, rfl⟩⟩
  split
  · exact ⟨k, hs.probed _ _, .inl ⟨rfl, rfl⟩⟩
  split
  · exact ⟨k, hs, .inl ⟨rfl, rfl⟩⟩
  next prefixPlans hprefix =>
  rw [hcs, fullEnd_eq] at hprefix
  have hle : v / c.chunkSize * c.chunkSize ≤ n := Nat.le_trans (Nat.div_mul_le_self _ _) hv
  have hlatent := remoteFillPrefixPlans_latent hdb hle hprefix
  rw [hlatent]
  generalize v / c.chunkSize = m at hlatent
  by_cases hzero : m = 0
  · -- no cached prefix
    subst hzero
    rw [chunkItems_self, if_pos rfl]
    split
    · exact ⟨k, hs, .inl ⟨rfl, rfl⟩⟩
    · exact ⟨k, hs.probed _ _, .inl ⟨rfl, rfl⟩⟩
  · have hpos := Nat.pos_of_ne_zero hzero
    have hat : AtChunk c seq (s.planned (c.chunkItems seq 0 0 m)) m := atChunk_planned s hpos
    rw [if_neg fun h => hzero ((chunkItems_eq_nil (Nat.zero_le m)).1 h).symm, hat.1]
    split
    · exact ⟨m, hat, .inr rfl⟩
    · exact ⟨m, hat.probed _ _, .inr rfl⟩

/-- What a step does to the frontier `k` and to the log. -/
inductive Moved (c : HashChain τ H) (seq : Nat → τ) (k : Nat) (a : PlanAction H) :
    Nat → List (PlanEvent H) → Prop
  | stays : Moved c seq k a k []
  | plans {call : PlanCall} {j : Nat} (hcall : a = .store call) (hj : j = k ∨ j = 0)
      (hlt : j < call.accepted / c.chunkSize) :
      Moved c seq k a (call.accepted / c.chunkSize)
        [.planned (j * c.chunkSize) (c.chunkItems seq 0 j (call.accepted / c.chunkSize))]
  | resets {k' : Nat} {events : List (PlanEvent H)} :
      Moved c seq k a k' (events ++ [.reset (k' * c.chunkSize)])
  | adopts {k' : Nat} (hlt : k < k') : Moved c seq k a k' [.adopted (k' * c.chunkSize)]

section

variable (hdb : db.Follows c) (hcs : cfg.chunkSize = c.chunkSize) (hs : AtChunk c seq s k)
include hdb hcs hs

/-- A store call leaves the frontier, plans on from it, or plans again from token 0. -/
theorem storePlan_moved (call : PlanCall) :
    ∃ k', AtChunk c seq (storePlan cfg db seq s call).1 k' ∧
      Moved c seq k (.store call) k' (storePlan cfg db seq s call).2 := by
  unfold storePlan
  split
  · exact ⟨k, hs, .stays⟩
  next hguard =>
  have hv : call.verifiedPrefixEnd ≤ call.accepted := Nat.le_of_not_lt fun h => hguard (.inl h)
  split
  · exact ⟨k, hs, .stays⟩
  simp only
  obtain ⟨hend, hhash⟩ := openGroups_frontier
    { s with acceptedStoreEnd := some call.accepted } call.groups call.verifiedPrefixEnd
  generalize ({ s with acceptedStoreEnd := some call.accepted } : RequestState H).openGroups
    call.groups call.verifiedPrefixEnd = t at hend hhash
  have ht : AtChunk c seq t k := hs.of_eq hend hhash
  rw [hcs, length_firstTokens]
  cases hplans : directSuffixPlans db c.chunkSize t (firstTokens seq call.accepted) call.groups with
  | mk result t' =>
  cases result with
  | error e =>
    -- an error leaves the state
    have ht' : t' = t := by
      unfold directSuffixPlans at hplans
      simp only at hplans
      split at hplans
      · cases hplans
      split at hplans
      · cases hplans
        rfl
      · cases hplans
    rw [ht']
    exact ⟨k, ht, .stays⟩
  | ok plans =>
    simp only
    -- the suffix plan
    have hsuffix : ∃ k', AtChunk c seq t' k' ∧ Moved c seq k (.store call) k'
        (if (plans.get? 0).getD [] = [] then []
          else [.planned (planBase t (fullEnd c.chunkSize call.accepted) call.groups)
            ((plans.get? 0).getD [])]) := by
      rcases directSuffixPlans_frontier hdb ht hplans with
        ⟨hnil, rfl⟩ | ⟨j, hbase, hj, hlt, hitems, rfl⟩
      · rw [if_pos hnil]
        exact ⟨k, ht, .stays⟩
      · rw [hitems, hbase,
          if_neg fun h => Nat.ne_of_lt hlt ((chunkItems_eq_nil (Nat.le_of_lt hlt)).1 h)]
        exact ⟨_, atChunk_planned t hlt, .plans rfl hj hlt⟩
    obtain ⟨k1, hat, hmoved⟩ := hsuffix
    split
    · -- the probe
      obtain ⟨k2, hat2, ⟨hnil, rfl⟩ | hreset⟩ := probePrefix_frontier hdb hcs hat hv plans
      · rw [hnil, append_nil]
        exact ⟨_, hat2, hmoved⟩
      · rw [hreset]
        exact ⟨_, hat2, .resets⟩
    · exact ⟨k1, hat, hmoved⟩

/-- An adopted store resets, or moves the frontier on. -/
theorem adoptPlan_moved {r : LayerwiseStoreResult H} (hr : (PlanAction.adopt r).OfRequest db seq) :
    ∃ k', AtChunk c seq (adoptPlan cfg s r).1 k' ∧
      Moved c seq k (.adopt r) k' (adoptPlan cfg s r).2 := by
  have hpos := c.chunkSize_pos
  obtain ⟨n, hr⟩ := hr
  unfold adoptPlan
  rw [hcs]
  cases hadopt : adoptCompletedLayerwiseStore c.chunkSize s r with
  | error e => exact ⟨k, hs, .stays⟩
  | ok t =>
    simp only
    unfold adoptCompletedLayerwiseStore at hadopt
    split at hadopt
    · cases hadopt
      rw [if_neg (Nat.lt_irrefl _)]
      exact ⟨k, hs, .stays⟩
    split at hadopt
    · cases hadopt
    split at hadopt
    · cases hadopt
    · next u hfrontier =>
      cases hadopt
      show ∃ k', AtChunk c seq _ k' ∧
        Moved c seq k (.adopt r) k' (if s.plannedEnd < u.plannedEnd then [.adopted u.plannedEnd] else [])
      cases hlatest : r.latestFull c.chunkSize with
      | none =>
        rw [hlatest] at hfrontier
        cases hfrontier
        rw [if_neg (Nat.lt_irrefl _)]
        exact ⟨k, hs.of_eq rfl rfl, .stays⟩
      | some x =>
        obtain ⟨stop, hash⟩ := x
        rw [hlatest] at hfrontier
        unfold RequestState.adoptFrontier at hfrontier
        simp only at hfrontier
        split at hfrontier
        · cases hfrontier
        split at hfrontier
        · next hlt =>
          cases hfrontier
          -- the last complete chunk is one of the chain
          unfold LayerwiseStoreResult.latestFull at hlatest
          obtain ⟨y, hy, hyx⟩ := map_eq_some_iff.1 hlatest
          obtain ⟨hymem, hyfull⟩ := mem_filter.1 (mem_of_getLast? hy)
          have hitem := hr _ (mem_map_of_mem hymem)
          obtain ⟨i, hi⟩ := eq_chunkItem_of_mem hdb hitem (of_decide_eq_true hyfull)
          have hstop : stop = (i + 1) * c.chunkSize :=
            (Prod.mk.inj hyx).1.symm.trans (congrArg PlanItem.stop hi)
          have hhash : hash = c.hashAt seq (i + 1) :=
            (Prod.mk.inj hyx).2.symm.trans (congrArg (fun z => z.key.chunkHash) hi)
          simp only
          rw [if_pos hlt, hstop]
          refine ⟨i + 1, ⟨rfl, .inr hhash⟩, .adopts ?_⟩
          rw [hs.1, hstop] at hlt
          exact Nat.lt_of_mul_lt_mul_right hlt
        · cases hfrontier
          rw [if_neg (Nat.lt_irrefl _)]
          exact ⟨k, hs.of_eq rfl rfl, .stays⟩

/-- **What a step does.** -/
theorem planStep_moved {a : PlanAction H} (ha : a.OfRequest db seq) :
    ∃ k', AtChunk c seq (planStep cfg db seq s a).1 k' ∧
      Moved c seq k a k' (planStep cfg db seq s a).2 := by
  cases a with
  | store call => exact storePlan_moved hdb hcs hs call
  | adopt r => exact adoptPlan_moved hdb hcs hs ha
  | submitted group stop => exact ⟨k, hs.of_eq rfl rfl, .stays⟩

end

/-! ## The tail -/

omit [DecidableEq H] in
/-- The tail that is stored is the last item of the whole plan, also when it is planned from the
frontier. -/
theorem mem_of_tailItem (hdb : db.Follows c) {k n : Nat}
    (hs : AtChunk c seq s k) (hn : k * c.chunkSize ≤ n) {x : PlanItem H}
    (hx : tailItem db s (firstTokens seq n) = some x) :
    x ∈ db.processTokens (firstTokens seq n) 0 ∧ x.start = s.plannedEnd ∧ x.stop = n := by
  have hmem : ∀ {l : List (PlanItem H)}, (l.filter fun x =>
        decide (x.start = s.plannedEnd ∧ x.stop = (firstTokens seq n).length)) = [x] →
      x ∈ l ∧ x.start = s.plannedEnd ∧ x.stop = n := by
    intro l hl
    have hin := mem_singleton_self x
    rw [← hl] at hin
    obtain ⟨h1, h2⟩ := mem_filter.1 hin
    obtain ⟨h3, h4⟩ := of_decide_eq_true h2
    exact ⟨h1, h3, h4.trans (length_firstTokens seq n)⟩
  unfold tailItem at hx
  dsimp only at hx
  split at hx
  case h_2 => cases hx
  next y hy =>
  cases hx
  obtain ⟨h1, h2⟩ := hmem hy
  refine ⟨?_, h2⟩
  split at h1
  · next hne =>
    -- the plan from the frontier is the end of the whole plan
    have hk : k ≠ 0 := by
      rintro rfl
      exact hne (hs.1.trans (Nat.zero_mul _))
    have hle : k ≤ n / c.chunkSize := (Nat.le_div_iff_mul_le c.chunkSize_pos).2 hn
    rw [hs.1, hs.2.resolve_left hk, processTokensFromPrefix_firstTokens hdb 0 hn] at h1
    rw [processTokens_firstTokens hdb, ← chunkItems_append (Nat.zero_le k) hle, append_assoc]
    exact mem_append_right _ h1
  · exact h1

end

/-! ## Every run -/

section

variable {τ H : Type} [DecidableEq H] {cfg : ProducerConfig H} {c : HashChain τ H}
  {db : TokenDatabase τ H} {seq : Nat → τ}

/-- The frontier is at a chunk of the chain, and the last segment lists the chunks before it. -/
structure PlanRun.Chained (c : HashChain τ H) (seq : Nat → τ) (r : PlanRun H) (k : Nat) :
    Prop where
  frontier : AtChunk c seq r.request k
  segment : ∃ j ≤ k, segment r.log = (j * c.chunkSize, c.chunkItems seq 0 j k)

omit [DecidableEq H] in
theorem Moved.segment {k k' : Nat} {a : PlanAction H} {events log : List (PlanEvent H)}
    (h : Moved c seq k a k' events)
    (hlog : ∃ j ≤ k, segment log = (j * c.chunkSize, c.chunkItems seq 0 j k)) :
    ∃ j ≤ k', segment (log ++ events) = (j * c.chunkSize, c.chunkItems seq 0 j k') := by
  have hpos := c.chunkSize_pos
  rw [segment_append]
  cases h with
  | stays => exact hlog
  | @plans call i hcall hi hlt =>
    obtain ⟨j, hjk, hlog⟩ := hlog
    rw [hlog]
    show ∃ j' ≤ call.accepted / c.chunkSize,
      (if i * c.chunkSize = 0 then (0, _) else (j * c.chunkSize, c.chunkItems seq 0 j k ++ _)) = _
    by_cases hzero : i = 0
    · subst hzero
      rw [if_pos (Nat.zero_mul _)]
      exact ⟨0, Nat.zero_le _, by rw [Nat.zero_mul]⟩
    · obtain rfl := hi.resolve_right hzero
      rw [if_neg (Nat.mul_ne_zero hzero (Nat.ne_of_gt hpos)),
        chunkItems_append hjk (Nat.le_of_lt hlt)]
      exact ⟨j, Nat.le_trans hjk (Nat.le_of_lt hlt), rfl⟩
  | @resets k' events =>
    rw [segmentFrom_append]
    exact ⟨k', Nat.le_refl k', by rw [chunkItems_self]; rfl⟩
  | adopts hlt => exact ⟨k', Nat.le_refl k', by rw [chunkItems_self]; rfl⟩

theorem planMachine_chained (hdb : db.Follows c) (hcs : cfg.chunkSize = c.chunkSize)
    (initialHash : H) :
    (PlanMachine cfg db seq initialHash).InductiveIf (fun _ a => a.OfRequest db seq)
      fun r => ∃ k, r.Chained c seq k where
  start := by
    rintro r rfl
    refine ⟨0, ⟨(Nat.zero_mul _).symm, .inl rfl⟩, 0, Nat.le_refl 0, ?_⟩
    rw [chunkItems_self, Nat.zero_mul]
    rfl
  step := by
    rintro r a r' ⟨k, hr⟩ ha hstep
    cases hstep
    obtain ⟨k', hat, hmoved⟩ := planStep_moved hdb hcs hr.frontier ha
    exact ⟨k', hat, hmoved.segment hr.segment⟩

/-- **The planning frontier.**  In every run:
the frontier `(plannedEnd, plannedHash)` is at the end of an item of the whole plan;
the items planned since the plan was last started at token 0 or the frontier was moved otherwise are,
behind the plan of the tokens before them, the whole plan up to the frontier, so that all planned
items are the whole plan when neither happened;
a suffix plan ends at the complete chunks of its call, and moves the frontier back only when it
starts again from token 0 for a call whose complete chunks end before the frontier;
and the tail of a call is the last item of the whole plan. -/
theorem planning_frontier (hdb : db.Follows c) (hcs : cfg.chunkSize = c.chunkSize)
    (initialHash : H) {r : PlanRun H}
    (hr : (PlanMachine cfg db seq initialHash).ReachableIf (fun _ a => a.OfRequest db seq) r) :
    (r.request.plannedEnd = 0 ∨
      ∃ x ∈ db.processTokens (firstTokens seq r.request.plannedEnd) 0,
        x.stop = r.request.plannedEnd ∧ x.key.chunkHash = r.request.plannedHash) ∧
    db.processTokens (firstTokens seq (segment r.log).1) 0 ++ (segment r.log).2 =
      db.processTokens (firstTokens seq r.request.plannedEnd) 0 ∧
    (Unbroken r.log →
      plannedItems r.log = db.processTokens (firstTokens seq r.request.plannedEnd) 0) ∧
    (∀ a : PlanAction H, a.OfRequest db seq →
      (∀ stop, .reset stop ∉ (planStep cfg db seq r.request a).2) →
      ((∃ base items, .planned base items ∈ (planStep cfg db seq r.request a).2) →
        ∃ call, a = .store call ∧
          (planStep cfg db seq r.request a).1.plannedEnd = fullEnd cfg.chunkSize call.accepted) ∧
      ((planStep cfg db seq r.request a).1.plannedEnd < r.request.plannedEnd →
        ∃ call items, a = .store call ∧
          fullEnd cfg.chunkSize call.accepted < r.request.plannedEnd ∧
          (planStep cfg db seq r.request a).2 = [.planned 0 items])) ∧
    ∀ n x, r.request.plannedEnd ≤ n → tailItem db r.request (firstTokens seq n) = some x →
      x ∈ db.processTokens (firstTokens seq n) 0 ∧ x.start = r.request.plannedEnd ∧ x.stop = n := by
  have hpos := c.chunkSize_pos
  obtain ⟨k, hfrontier, j, hjk, hsegment⟩ := (planMachine_chained hdb hcs initialHash).reachable hr
  have hwhole : db.processTokens (firstTokens seq (segment r.log).1) 0 ++ (segment r.log).2 =
      db.processTokens (firstTokens seq r.request.plannedEnd) 0 := by
    rw [hsegment, hfrontier.1]
    simp only
    rw [processTokens_mul hdb, processTokens_mul hdb, chunkItems_append (Nat.zero_le j) hjk]
  refine ⟨?_, hwhole, fun hlog => ?_, fun a ha hreset => ?_, fun n x hn hx => ?_⟩
  · -- the frontier
    by_cases hzero : k = 0
    · rw [hfrontier.1, hzero]
      exact .inl (Nat.zero_mul _)
    have hk : k - 1 + 1 = k := by omega
    refine .inr ⟨c.chunkItem seq 0 (k - 1), ?_, ?_, ?_⟩
    · rw [hfrontier.1, processTokens_mul hdb]
      exact mem_chunkItems.2 ⟨k - 1, Nat.zero_le _, by omega, rfl⟩
    · show (k - 1 + 1) * c.chunkSize = _
      rw [hk, hfrontier.1]
    · show c.hashAt seq (k - 1 + 1) = _
      rw [hk, hfrontier.2.resolve_left hzero]
  · -- all planned items
    have hseg := hlog.segment
    rw [hseg] at hwhole
    have hnil : db.processTokens (firstTokens seq 0) 0 = [] := by
      rw [processTokens_firstTokens hdb, Nat.zero_div, Nat.zero_mod, chunkItems_self,
        partialItems_zero]
      rfl
    rw [← hwhole, hnil]
    rfl
  · -- one step
    obtain ⟨k', hat, hmoved⟩ := planStep_moved hdb hcs hfrontier ha
    rw [hat.1, hfrontier.1]
    generalize (planStep cfg db seq r.request a).2 = events at hmoved hreset ⊢
    cases hmoved with
    | stays =>
      exact ⟨fun ⟨_, _, hmem⟩ => absurd hmem not_mem_nil, fun h => absurd h (Nat.lt_irrefl _)⟩
    | @plans call i hcall hi hlt =>
      rw [hcs]
      refine ⟨fun _ => ⟨call, hcall, rfl⟩, fun hback => ?_⟩
      have hlt' := Nat.lt_of_mul_lt_mul_right hback
      obtain rfl : i = 0 := hi.resolve_left fun h => by omega
      rw [Nat.zero_mul]
      exact ⟨call, _, hcall, hback, rfl⟩
    | resets => exact absurd (mem_append_right _ mem_cons_self) (hreset _)
    | adopts hlt =>
      refine ⟨fun ⟨_, _, hmem⟩ => ?_, fun hback => ?_⟩
      · cases mem_singleton.1 hmem
      · have := Nat.lt_of_mul_lt_mul_right hback
        omega
  · -- the tail
    rw [hfrontier.1] at hn
    exact mem_of_tailItem hdb hfrontier hn hx

/-- The runs for the tokens 0, 1, 2, … in chunks of two. -/
def countingPlans : Machine (PlanRun Nat) (PlanAction Nat) :=
  PlanMachine twoGroups countingChain.database id 0

def newPlanRun : PlanRun Nat := ⟨⟨Dict.empty, Dict.empty, 0, 0, none, 0⟩, []⟩

/-- Both groups are stored after the first call. -/
def storedCalls : List (PlanAction Nat) :=
  [.store ⟨2, [0, 1], 0, false, false⟩, .submitted 0 2, .submitted 1 2,
    .store ⟨5, [0, 1], 0, false, false⟩]

def storedRun : PlanRun Nat where
  request :=
    { submittedEnd := (Dict.empty.set 0 2).set 1 2
      committedEnd := (Dict.empty.set 0 0).set 1 0
      plannedEnd := 4
      plannedHash := 2
      acceptedStoreEnd := some 5
      probeEnd := 0 }
  log := [.planned 0 [⟨0, 2, ⟨0, 1⟩⟩], .planned 2 [⟨2, 4, ⟨0, 2⟩⟩]]

theorem planning_frontier_stored :
    plannedItems storedRun.log = countingChain.database.processTokens (firstTokens id 4) 0 := by
  have hr : countingPlans.run newPlanRun storedCalls = some storedRun := rfl
  have hok : ∀ a ∈ storedCalls, a.OfRequest countingChain.database id := by
    intro a ha
    simp only [storedCalls, mem_cons, not_mem_nil, or_false] at ha
    rcases ha with rfl | rfl | rfl | rfl <;> trivial
  have hreach : countingPlans.ReachableIf (fun _ a => a.OfRequest countingChain.database id)
      storedRun :=
    Machine.ReachableIf.run (.start rfl) (fun a ha _ => hok a ha) hr
  refine (planning_frontier countingChain.database_follows rfl 0 hreach).2.2.1 ⟨_, _, rfl, ?_⟩
  intro e he
  rw [mem_singleton.1 he]
  exact ⟨2, _, rfl, by decide⟩

/-- Group 0 alone is stored after the first call, and the same tokens come again. -/
def lateCalls : List (PlanAction Nat) :=
  [.store ⟨4, [0, 1], 0, false, false⟩, .submitted 0 4, .store ⟨4, [0, 1], 0, false, false⟩]

/-- The second call plans the same chunks again. -/
theorem planned_again : ∃ r,
    countingPlans.ReachableIf (fun _ a => a.OfRequest countingChain.database id) r ∧
    r.request.plannedEnd = 4 ∧
    plannedItems r.log ≠ countingChain.database.processTokens (firstTokens id 4) 0 := by
  have hr : countingPlans.run newPlanRun lateCalls = some
      ⟨⟨(Dict.empty.set 0 4).set 1 0, (Dict.empty.set 0 0).set 1 0, 4, 2, some 4, 0⟩,
        [.planned 0 [⟨0, 2, ⟨0, 1⟩⟩, ⟨2, 4, ⟨0, 2⟩⟩], .planned 0 [⟨0, 2, ⟨0, 1⟩⟩, ⟨2, 4, ⟨0, 2⟩⟩]]⟩ :=
    rfl
  have hok : ∀ a ∈ lateCalls, a.OfRequest countingChain.database id := by
    intro a ha
    simp only [lateCalls, mem_cons, not_mem_nil, or_false] at ha
    rcases ha with rfl | rfl | rfl <;> trivial
  exact ⟨_, Machine.ReachableIf.run (.start rfl) (fun a ha _ => hok a ha) hr, rfl, by decide⟩

end

end DirectStore
