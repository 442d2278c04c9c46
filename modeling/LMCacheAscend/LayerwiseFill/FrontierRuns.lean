import LMCacheAscend.LayerwiseFill.StoreFrontier

/-!
# The frontier is behind stored chunks

A plan lists the chunks from the frontier (or the end of the mask) on, so the
last complete chunk of a plan is a chunk of the request's hash chain.  Until a
call commits, the chunks below its new frontier are stored, or it still has them
to put (`CallOk`).
-/

namespace StoreFrontier

open Lib DirectStore List Option Dict

variable {τ H : Type} {c : HashChain τ H} {p : Planner τ H}
variable {content : Nat → Option Scope → Nat → τ} {cfg : Config} {s s' : Request H} {a : Args}
variable {seq : Nat → τ} {i j k n g : Nat} {t : Call H} {key : CacheKey H}

/-! ## Plans -/

/-- The plan from a chunk on. -/
def restItems (c : HashChain τ H) (seq : Nat → τ) (g j n : Nat) : List (PlanItem H) :=
  c.chunkItems seq g j (n / c.chunkSize) ++
    c.partialItems seq g (n / c.chunkSize) (n % c.chunkSize)

theorem filter_processTokens (hdb : p.db.Follows c) (hj : j ≤ n / c.chunkSize) :
    ((p.db.processTokens (firstTokens seq n) g).filter fun x => j * c.chunkSize ≤ x.start) =
      restItems c seq g j n := by
  rw [processTokens_firstTokens hdb, ← chunkItems_append (Nat.zero_le j) hj, append_assoc,
    filter_append]
  have hbelow : ((c.chunkItems seq g 0 j).filter fun x => j * c.chunkSize ≤ x.start) = [] := by
    rw [filter_eq_nil_iff]
    intro x hx
    obtain ⟨m, -, hm, rfl⟩ := mem_chunkItems.1 hx
    have hlt : m * c.chunkSize < j * c.chunkSize := Nat.mul_lt_mul_of_pos_right hm c.chunkSize_pos
    show ¬ decide (j * c.chunkSize ≤ m * c.chunkSize) = true
    rw [decide_eq_true_eq]
    omega
  rw [hbelow, nil_append]
  refine filter_eq_self.2 fun x hx => ?_
  rw [decide_eq_true_eq]
  rcases mem_append.1 hx with hx | hx
  · obtain ⟨m, hm, -, rfl⟩ := mem_chunkItems.1 hx
    exact Nat.mul_le_mul_right _ hm
  unfold HashChain.partialItems at hx
  split at hx
  · rw [mem_singleton.1 hx]
    exact Nat.mul_le_mul_right _ hj
  · cases hx

theorem latestFullFrontier_restItems (prior : Option (Nat × H)) (hj : j ≤ n / c.chunkSize) :
    latestFullFrontier c.chunkSize true prior (restItems c seq g j n) =
      if j < n / c.chunkSize then
        some (n / c.chunkSize * c.chunkSize, c.hashAt seq (n / c.chunkSize))
      else prior := by
  have hpartial : ∀ m latest, m = n / c.chunkSize →
      latestFullFrontier c.chunkSize true latest
        (c.partialItems seq g m (n % c.chunkSize)) = latest := by
    intro m latest _
    unfold HashChain.partialItems
    split
    · have hlt := Nat.mod_lt n c.chunkSize_pos
      unfold latestFullFrontier
      rw [foldl_cons, foldl_nil, if_neg]
      rintro ⟨-, hsize, -⟩
      have hsize : m * c.chunkSize + n % c.chunkSize - m * c.chunkSize = c.chunkSize := hsize
      omega
    · rfl
  have happ : latestFullFrontier c.chunkSize true prior (restItems c seq g j n) =
      latestFullFrontier c.chunkSize true prior (c.chunkItems seq g j (n / c.chunkSize)) := by
    unfold restItems latestFullFrontier
    rw [foldl_append]
    exact hpartial _ _ rfl
  rw [happ]
  split
  · obtain ⟨m, hm⟩ : ∃ m, n / c.chunkSize = m + 1 := ⟨n / c.chunkSize - 1, by omega⟩
    rw [hm, chunkItems_succ (by omega)]
    unfold latestFullFrontier
    rw [foldl_append, foldl_cons, foldl_nil, if_pos]
    · rfl
    · refine ⟨rfl, ?_, ?_⟩
      · show (m + 1) * c.chunkSize - m * c.chunkSize = c.chunkSize
        rw [Nat.succ_mul]
        omega
      · exact Nat.mul_mod_left _ _
  · have heq : j = n / c.chunkSize := by omega
    rw [heq, chunkItems_self]
    rfl

/-- What a plan does to the request. -/
structure Planned (cfg : Config) (a : Args) (s s' : Request H) : Prop where
  life : s'.life = s.life
  step : s'.step = s.step
  accepted : s'.accepted = s.accepted
  cache : s'.cache = s.cache
  signature : s'.signature = s.signature
  calls : s'.calls = s.calls
  found : s'.found = s.found
  tracked : s'.tracked = s.tracked
  masked : s'.masked = s.masked
  recorder : s'.recorder = s.recorder
  frontiers : ∀ g f, s'.frontiers.get? g = some f → s.frontiers.get? g = some f ∧ s'.scope = s.scope
  scope : s'.scope = s.scope ∨
    ∃ m, s.cache = some m ∧ s.scope ≠ some ⟨m, s.signature⟩ ∧ s'.scope = some ⟨m, s.signature⟩
  entered : a.incrementalPrefill cfg = true → ∀ m, s.cache = some m →
    s'.scope = some ⟨m, s.signature⟩

theorem planned_enterScope (s : Request H) : Planned cfg a s s.enterScope := by
  unfold Request.enterScope
  cases hcache : s.cache with
  | none =>
    exact ⟨rfl, rfl, rfl, rfl, rfl, rfl, rfl, rfl, rfl, rfl, fun _ _ h => ⟨h, rfl⟩,
      .inl rfl, fun _ m hm => by rw [hcache] at hm; cases hm⟩
  | some m =>
    by_cases hscope : s.scope = some ⟨m, s.signature⟩
    · simp only [if_pos hscope]
      exact ⟨rfl, rfl, rfl, rfl, rfl, rfl, rfl, rfl, rfl, rfl, fun _ _ h => ⟨h, rfl⟩, .inl rfl,
        fun _ m' hm => by rw [hcache] at hm; cases hm; exact hscope⟩
    · simp only [if_neg hscope]
      refine ⟨rfl, rfl, rfl, hcache.symm, rfl, rfl, rfl, rfl, rfl, rfl, fun g f h => ?_,
        .inr ⟨m, hcache, hscope, rfl⟩, fun _ m' hm => by rw [hcache] at hm; cases hm; rfl⟩
      cases h

theorem previous_spec (chunkSize : Nat) (s : Request H) (g : Nat) :
    ∃ d, (s.previous chunkSize g).2 = { s with frontiers := d } ∧
      (∀ g' f, d.get? g' = some f → s.frontiers.get? g' = some f) ∧
      d.get? g = (s.previous chunkSize g).1 ∧
      ∀ f, (s.previous chunkSize g).1 = some f → f.1 ≤ s.accepted := by
  unfold Request.previous
  cases hget : s.frontiers.get? g with
  | none => exact ⟨s.frontiers, rfl, fun _ _ h => h, hget, by simp⟩
  | some f =>
    obtain ⟨stop, hash⟩ := f
    by_cases hdrop : s.accepted < stop ∨ stop % chunkSize ≠ 0
    · simp only [if_pos hdrop]
      refine ⟨s.frontiers.pop g, rfl, fun g' f h => ?_, get?_pop_self _ _, by simp⟩
      rw [get?_pop] at h
      split at h
      · cases h
      · exact h
    · simp only [if_neg hdrop]
      refine ⟨s.frontiers, rfl, fun _ _ h => h, hget, fun f hf => ?_⟩
      cases hf
      omega

theorem plan_snd : (layerwisePrefillStorePlan p c.chunkSize content cfg s a).2 =
    if a.incrementalPrefill cfg = false then s
    else (s.enterScope.previous c.chunkSize a.kvGroup).2 := by
  unfold layerwisePrefillStorePlan
  by_cases hinc : a.incrementalPrefill cfg = false
  · rw [if_pos hinc, if_pos hinc]
  · rw [if_neg hinc, if_neg hinc]

theorem plan_planned :
    Planned cfg a s (layerwisePrefillStorePlan p c.chunkSize content cfg s a).2 := by
  rw [plan_snd]
  split
  · next hinc =>
    exact ⟨rfl, rfl, rfl, rfl, rfl, rfl, rfl, rfl, rfl, rfl, fun _ _ h => ⟨h, rfl⟩, .inl rfl,
      fun h => absurd (h.symm.trans hinc) nofun⟩
  have he : Planned cfg a s s.enterScope := planned_enterScope s
  obtain ⟨d, hd, hsub, -, -⟩ := previous_spec c.chunkSize s.enterScope a.kvGroup
  rw [hd]
  exact ⟨he.life, he.step, he.accepted, he.cache, he.signature, he.calls, he.found, he.tracked,
    he.masked, he.recorder, fun g f h => he.frontiers g f (hsub g f h), he.scope, he.entered⟩

/-- The frontiers of a request are chunks of its chain. -/
def OnChain (c : HashChain τ H) (content : Nat → Option Scope → Nat → τ) (s : Request H) : Prop :=
  ∀ g f, s.frontiers.get? g = some f →
    ∃ k, f = (k * c.chunkSize, c.hashAt (s.sequence content) k)

theorem OnChain.planned (h : OnChain c content s) (hp : Planned cfg a s s') :
    OnChain c content s' := by
  intro g f hf
  obtain ⟨hf, hscope⟩ := hp.frontiers g f hf
  obtain ⟨k, hk⟩ := h g f hf
  refine ⟨k, ?_⟩
  unfold Request.sequence at hk ⊢
  rw [hp.life, hscope]
  exact hk

/-- What a plan lists: all chunks from the frontier, or the end of the mask, on. -/
structure PlanSpec (c : HashChain τ H) (content : Nat → Option Scope → Nat → τ) (cfg : Config)
    (a : Args) (s : Request H) (items : List (PlanItem H)) (base : Nat)
    (prior : Option (Nat × H)) (j : Nat) : Prop where
  le : j ≤ s.accepted / c.chunkSize
  start : planStart cfg a s prior base = j * c.chunkSize
  items : items = restItems c (s.sequence content) a.kvGroup j s.accepted
  prior : prior = none ∧ base = 0 ∨ a.incrementalPrefill cfg = true ∧
    ∃ k, k ≤ j ∧ base = k * c.chunkSize ∧ s.frontiers.get? a.kvGroup = prior ∧
      prior = some (k * c.chunkSize, c.hashAt (s.sequence content) k)

variable {base : Nat} {items : List (PlanItem H)} {prior : Option (Nat × H)} {t' : Call H}
  {rest : List Op}

theorem planMasked_spec (hp : p.Follows c) (hskip : a.skip ≤ s.accepted)
    (h : planMasked p (s.tokens content) a.skip a.kvGroup = .ok (items, base, prior)) :
    ∃ j, PlanSpec c content cfg a s items base prior j := by
  unfold planMasked at h
  have hlen : (s.tokens content).length = s.accepted := length_firstTokens _ _
  rw [hp.masked _ _ _ (by rw [hlen]; exact hskip)] at h
  by_cases hdvd : c.chunkSize ∣ a.skip
  · rw [if_pos hdvd] at h
    cases h
    obtain ⟨j, hj⟩ := hdvd
    rw [Nat.mul_comm] at hj
    have hle : j ≤ s.accepted / c.chunkSize :=
      (Nat.le_div_iff_mul_le c.chunkSize_pos).2 (by rw [← hj]; exact hskip)
    refine ⟨j, hle, ?_, ?_, .inl ⟨rfl, rfl⟩⟩
    · unfold planStart
      rw [if_neg fun hand => hand.2.2 rfl, hj, Nat.max_zero]
    · rw [hj]
      exact filter_processTokens hp.chain hle
  · rw [if_neg hdvd] at h
    cases h

/-- The plan behind a frontier is the rest of the whole plan. -/
theorem planBehind_spec (hp : p.Follows c) (hchain : OnChain c content s)
    (hinc : a.incrementalPrefill cfg = true) (hskip : a.skip ≤ s.accepted)
    {previous : Option (Nat × H)} (hget : s.frontiers.get? a.kvGroup = previous)
    (hle : ∀ f, previous = some f → f.1 ≤ s.accepted)
    (h : planBehind p c.chunkSize content s a previous = .ok (items, base, prior)) :
    ∃ j, PlanSpec c content cfg a s items base prior j := by
  unfold planBehind at h
  have hpos := c.chunkSize_pos
  split at h
  · next m hcache =>
    by_cases hok : a.skip ≤ s.accepted ∧ a.skip % c.chunkSize = 0
    · simp only [if_pos hok] at h
      obtain ⟨q, hq⟩ := Nat.dvd_of_mod_eq_zero hok.2
      rw [Nat.mul_comm] at hq
      have hstart : ∀ prior base, planStart cfg a s prior base = max a.skip base := by
        intro prior base
        unfold planStart
        rw [if_neg]
        rintro ⟨-, hnone, -⟩
        rw [hcache] at hnone
        cases hnone
      cases hprev : previous with
      | none =>
        rw [hprev] at h
        cases h
        have hmax : max a.skip 0 = q * c.chunkSize := by rw [Nat.max_zero, hq]
        have hj : q ≤ s.accepted / c.chunkSize :=
          (Nat.le_div_iff_mul_le hpos).2 (by rw [← hq]; exact hskip)
        refine ⟨q, hj, by rw [hstart, hmax], ?_, .inl ⟨rfl, rfl⟩⟩
        rw [hmax, hp.prepare _ _ _ (Nat.dvd_mul_left _ _)]
        exact filter_processTokens hp.chain hj
      | some f =>
        rw [hprev] at h hget
        obtain ⟨k, hk⟩ := hchain _ f hget
        have hkle := hle f hprev
        subst hk
        cases h
        have hmax : max a.skip (k * c.chunkSize) = max q k * c.chunkSize := by
          rw [hq, Nat.mul_max_mul_right]
        have hj : max q k ≤ s.accepted / c.chunkSize :=
          (Nat.le_div_iff_mul_le hpos).2 (by rw [← hmax]; exact Nat.max_le.2 ⟨hskip, hkle⟩)
        refine ⟨max q k, hj, by rw [hstart, hmax], ?_,
          .inr ⟨hinc, k, Nat.le_max_right q k, rfl, hget, rfl⟩⟩
        rw [hmax, hp.prepare _ _ _ (Nat.dvd_mul_left _ _)]
        exact filter_processTokens hp.chain hj
    · simp only [if_neg hok] at h
      cases h
  · next hcache =>
    cases hprev : previous with
    | none =>
      rw [hprev] at h
      exact planMasked_spec hp hskip h
    | some f =>
      rw [hprev] at h hget
      obtain ⟨k, hk⟩ := hchain _ f hget
      have hkle := hle f hprev
      subst hk
      have hj : k ≤ s.accepted / c.chunkSize := (Nat.le_div_iff_mul_le hpos).2 hkle
      have hstart : planStart cfg a s (some (k * c.chunkSize, c.hashAt (s.sequence content) k))
          (k * c.chunkSize) = k * c.chunkSize := if_pos ⟨hinc, hcache, nofun⟩
      by_cases hend : k * c.chunkSize = s.accepted
      · simp only [if_pos hend] at h
        cases h
        refine ⟨k, hj, hstart, ?_, .inr ⟨hinc, k, Nat.le_refl k, rfl, hget, rfl⟩⟩
        unfold restItems
        rw [← hend, Nat.mul_div_cancel _ hpos, Nat.mul_mod_left, chunkItems_self, partialItems_zero]
        rfl
      · simp only [if_neg hend] at h
        cases h
        refine ⟨k, hj, hstart, ?_, .inr ⟨hinc, k, Nat.le_refl k, rfl, hget, rfl⟩⟩
        exact processTokensFromPrefix_firstTokens hp.chain a.kvGroup hkle

theorem plan_spec (hp : p.Follows c) (hchain : OnChain c content s) (hskip : a.skip ≤ s.accepted)
    (h : layerwisePrefillStorePlan p c.chunkSize content cfg s a = (.ok (items, base, prior), s')) :
    ∃ j, PlanSpec c content cfg a s' items base prior j := by
  have hplanned : Planned cfg a s s' := by
    have hs : Planned cfg a s (layerwisePrefillStorePlan p c.chunkSize content cfg s a).2 :=
      plan_planned
    rw [h] at hs
    exact hs
  have hchain' := hchain.planned hplanned
  rw [← hplanned.accepted] at hskip
  unfold layerwisePrefillStorePlan at h
  split at h
  · obtain ⟨hres, rfl⟩ := Prod.mk.inj h
    exact planMasked_spec hp hskip hres
  next hinc =>
  obtain ⟨d, hd, -, hget, hle⟩ := previous_spec c.chunkSize s.enterScope a.kvGroup
  have hpair : planBehind p c.chunkSize content
      (s.enterScope.previous c.chunkSize a.kvGroup).2 a
      (s.enterScope.previous c.chunkSize a.kvGroup).1 = .ok (items, base, prior) ∧
      (s.enterScope.previous c.chunkSize a.kvGroup).2 = s' := Prod.mk.inj h
  obtain ⟨hres, hs'⟩ := hpair
  rw [hd] at hs' hres
  subst hs'
  exact planBehind_spec hp hchain' (by rw [← Bool.not_eq_false]; exact hinc) hskip hget hle hres

/-! ## Operations -/

/-- Behind the end of the store there is only a suspension. -/
def EndsWell : List Op → Prop
  | [] => True
  | .commit :: ops => ∀ op ∈ ops, op = .pause
  | _ :: ops => EndsWell ops

theorem EndsWell.tail {op : Op} {ops : List Op} (h : EndsWell (op :: ops)) : EndsWell ops := by
  cases op with
  | commit =>
    have hall : ∀ op ∈ ops, op = .pause := h
    clear h
    induction ops with
    | nil => trivial
    | cons op ops ih =>
      rw [hall op mem_cons_self]
      exact ih fun o ho => hall o (mem_cons_of_mem _ ho)
  | _ => exact h

theorem endsWell_append {body tail : List Op} (hbody : .commit ∉ body) (h : EndsWell tail) :
    EndsWell (body ++ tail) := by
  induction body with
  | nil => exact h
  | cons op body ih =>
    rw [mem_cons, not_or] at hbody
    obtain ⟨hop, hbody⟩ := hbody
    cases op with
    | commit => exact absurd rfl hop
    | _ => exact ih hbody

theorem commit_not_mem_storeOps : .commit ∉ storeOps cfg a := by
  have hput : ∀ layer, Op.commit ∉ publishCompletedLayer cfg layer := by
    intro layer
    unfold publishCompletedLayer
    split <;> simp
  unfold storeOps layerOps
  simp only
  split <;> split <;> (try split) <;> simp [hput]

theorem endsWell_ops {empty : Bool} : EndsWell (a.ops cfg empty) := by
  unfold Args.ops
  refine endsWell_append ?_ (fun op hop => mem_singleton.1 hop)
  cases empty with
  | true =>
    rw [if_pos rfl]
    unfold idleOps
    split <;> simp [mem_replicate]
  | false =>
    rw [if_neg Bool.false_ne_true]
    exact commit_not_mem_storeOps

/-- Without whole pages each layer is put on its own: by the iteration that reports it, or behind
them. -/
theorem publish_mem_layerOps {l : Nat} (hpage : cfg.pageFirst = false)
    (hl : l < cfg.layers a.kvGroup) : .publish [l] ∈ layerOps cfg a := by
  have hrange : l ∈ range (cfg.layers a.kvGroup) := mem_range.2 hl
  have hput : .publish [l] ∈ publishCompletedLayer cfg l := by
    rw [publishCompletedLayer, hpage]
    exact mem_cons_of_mem _ mem_cons_self
  unfold layerOps
  simp only
  split
  · exact mem_append_right _ (mem_cons_of_mem _ (mem_flatMap.2 ⟨l, hrange, hput⟩))
  refine mem_cons_of_mem _ ?_
  split
  · by_cases hdone : l ∈ (range (cfg.layers a.kvGroup)).filterMap a.doneLayer
    · obtain ⟨k, hk, hkl⟩ := mem_filterMap.1 hdone
      refine mem_append_left _ (mem_cons_of_mem _ (mem_flatMap.2 ⟨k, hk, ?_⟩))
      refine mem_cons_of_mem _ (mem_cons_of_mem _ (mem_append_left _ ?_))
      exact mem_flatMap.2 ⟨l, mem_toList.2 hkl, hput⟩
    · refine mem_append_right _ (mem_flatMap.2 ⟨l, ?_, hput⟩)
      exact mem_filter.2 ⟨hrange, decide_eq_true hdone⟩
  · refine mem_flatMap.2 ⟨l, hrange, ?_⟩
    exact mem_cons_of_mem _ (mem_cons_of_mem _ hput)

theorem publish_mem_ops {l : Nat} (hl : l < cfg.layers a.kvGroup) :
    ∃ ls, Op.publish ls ∈ a.ops cfg false ∧ l ∈ ls := by
  unfold Args.ops storeOps
  rw [if_neg Bool.false_ne_true]
  cases hpage : cfg.pageFirst with
  | true =>
    refine ⟨_, mem_append_left _ (mem_cons_of_mem _ (mem_append_right _
      (mem_cons_of_mem _ ?_))), mem_range.2 hl⟩
    exact mem_singleton_self _
  | false =>
    exact ⟨[l], mem_append_left _ (mem_cons_of_mem _ (mem_append_left _
      (publish_mem_layerOps hpage hl))), mem_singleton_self l⟩

/-! ## The invariant -/

/-- Stored, or left out by a mask. -/
def Saved (cfg : Config) (s : Request H) (key : CacheKey H) : Prop :=
  s.Stored cfg key ∨ key ∈ s.masked

/-- The frontier is a chunk of the chain, and the chunks below it are saved. -/
def Good (c : HashChain τ H) (content : Nat → Option Scope → Nat → τ) (cfg : Config)
    (s : Request H) (g : Nat) (f : Nat × H) : Prop :=
  ∃ k, f = (k * c.chunkSize, c.hashAt (s.sequence content) k) ∧
    ∀ i, i < k → Saved cfg s (c.chunkItem (s.sequence content) g i).key

/-- The frontier that a call has in view: below it the chunks are saved, or the call still has their
layers to put. -/
def CallOk (c : HashChain τ H) (content : Nat → Option Scope → Nat → τ) (cfg : Config)
    (s : Request H) (t : Call H) : Prop :=
  ∀ f, t.latest = some f → ∃ k, f = (k * c.chunkSize, c.hashAt (s.sequence content) k) ∧
    ∀ i, i < k → Saved cfg s (c.chunkItem (s.sequence content) t.kvGroup i).key ∨
      ∃ x ∈ t.items, x.key = (c.chunkItem (s.sequence content) t.kvGroup i).key ∧
        ∀ l, l < cfg.layers t.kvGroup → (x.key, l) ∈ s.tracked ∨
          ∃ ls, Op.publish ls ∈ t.ops ∧ l ∈ ls

/-- An incremental store of the current forward step that is under way. -/
def Active (s : Request H) (t : Call H) : Prop :=
  t.step = s.step ∧ t.incremental = true ∧ t.status = .running

structure Inv (c : HashChain τ H) (content : Nat → Option Scope → Nat → τ) (cfg : Config)
    (s : Request H) : Prop where
  past : ∀ t ∈ s.calls, t.step ≤ s.step
  idle : ∀ t ∈ s.calls, t.status ≠ .running → ∀ op ∈ t.ops, op = .pause
  ends : ∀ t ∈ s.calls, EndsWell t.ops
  frontier : ∀ g f, s.frontiers.get? g = some f → Good c content cfg s g f
  completed : ∀ g f, s.frontiers.get? g = some f →
    ∃ i t, s.recorder.get? g = some i ∧ s.calls[i]? = some t ∧ t.kvGroup = g ∧ t.status = .stored
  inScope : ∀ t ∈ s.calls, Active s t → ∀ m, s.cache = some m → s.scope = some ⟨m, s.signature⟩
  calls : ∀ t ∈ s.calls, Active s t → CallOk c content cfg s t

theorem Inv.init : Inv c content cfg (Request.init : Request H) where
  past := nofun
  idle := nofun
  ends := nofun
  frontier := nofun
  completed := nofun
  inScope := nofun
  calls := nofun

/-- What was saved stays saved. -/
structure Grown (s s' : Request H) : Prop where
  found : s.found ⊆ s'.found
  tracked : s.tracked ⊆ s'.tracked
  masked : s.masked ⊆ s'.masked

theorem Grown.of_eq (hf : s'.found = s.found) (ht : s'.tracked = s.tracked)
    (hm : s'.masked = s.masked) : Grown s s' :=
  ⟨hf ▸ Subset.refl _, ht ▸ Subset.refl _, hm ▸ Subset.refl _⟩

theorem Saved.grown (h : Saved cfg s key) (hg : Grown s s') : Saved cfg s' key := by
  rcases h with (hfound | htracked) | hmasked
  · exact .inl (.inl (hg.found hfound))
  · exact .inl (.inr fun l hl => hg.tracked (htracked l hl))
  · exact .inr (hg.masked hmasked)

theorem Good.grown {f : Nat × H} (h : Good c content cfg s g f) (hg : Grown s s')
    (hseq : s'.sequence content = s.sequence content) : Good c content cfg s' g f := by
  obtain ⟨k, hk, hsaved⟩ := h
  unfold Good
  rw [hseq]
  exact ⟨k, hk, fun i hi => (hsaved i hi).grown hg⟩

theorem CallOk.grown (h : CallOk c content cfg s t) (hg : Grown s s')
    (hseq : s'.sequence content = s.sequence content) : CallOk c content cfg s' t := by
  intro f hf
  obtain ⟨k, hk, hsaved⟩ := h f hf
  rw [hseq]
  refine ⟨k, hk, fun i hi => ?_⟩
  rcases hsaved i hi with hs | ⟨x, hx, hkey, hlayers⟩
  · exact .inl (hs.grown hg)
  · exact .inr ⟨x, hx, hkey, fun l hl => (hlayers l hl).imp (fun h => hg.tracked h) id⟩

/-! ## Steps of a call -/

/-- A call is replaced, and something may have been tracked. -/
structure Advanced (s s' : Request H) (i : Nat) (t' : Call H) : Prop where
  calls : s'.calls = s.calls.set i t'
  frontiers : s'.frontiers = s.frontiers
  scope : s'.scope = s.scope
  life : s'.life = s.life
  step : s'.step = s.step
  cache : s'.cache = s.cache
  signature : s'.signature = s.signature
  recorder : s'.recorder = s.recorder
  grown : Grown s s'

theorem advanced_setCall : Advanced s (s.setCall i t') i t' :=
  ⟨rfl, rfl, rfl, rfl, rfl, rfl, rfl, rfl, .of_eq rfl rfl rfl⟩

theorem Advanced.sequence (h : Advanced s s' i t') :
    s'.sequence content = s.sequence content := by
  unfold Request.sequence
  rw [h.life, h.scope]

/-- A call goes on by an operation that touches its own fields. -/
theorem Inv.advance (h : Inv c content cfg s) (ha : Advanced s s' i t')
    (hi : s.calls[i]? = some t) (hgroup : t'.kvGroup = t.kvGroup) (hstep : t'.step = t.step)
    (hinc : t'.incremental = t.incremental) (hstored : t.status = .stored → t'.status = .stored)
    (hrunning : t'.status = .running → t.status = .running)
    (hidle : t'.status ≠ .running → ∀ op ∈ t'.ops, op = .pause) (hends : EndsWell t'.ops)
    (hok : Active s t → t'.status = .running → CallOk c content cfg s' t') :
    Inv c content cfg s' := by
  have hmem : t ∈ s.calls := mem_of_getElem? hi
  have hcase : ∀ x ∈ s'.calls, x = t' ∨ x ∈ s.calls := by
    intro x hx
    rw [ha.calls] at hx
    exact (mem_or_eq_of_mem_set hx).symm
  have hactive : ∀ x, Active s' x ↔ Active s x := by
    intro x
    unfold Active
    rw [ha.step]
  have hactive' : Active s' t' → Active s t := by
    rintro ⟨h1, h2, h3⟩
    rw [ha.step] at h1
    exact ⟨hstep.symm.trans h1, hinc.symm.trans h2, hrunning h3⟩
  refine ⟨?_, ?_, ?_, ?_, ?_, ?_, ?_⟩
  · intro x hx
    rw [ha.step]
    rcases hcase x hx with rfl | hx
    · rw [hstep]
      exact h.past t hmem
    · exact h.past x hx
  · intro x hx
    rcases hcase x hx with rfl | hx
    · exact hidle
    · exact h.idle x hx
  · intro x hx
    rcases hcase x hx with rfl | hx
    · exact hends
    · exact h.ends x hx
  · intro g f hf
    rw [ha.frontiers] at hf
    exact (h.frontier g f hf).grown ha.grown ha.sequence
  · intro g f hf
    rw [ha.frontiers] at hf
    obtain ⟨m, x, hrec, hx, hxg, hxs⟩ := h.completed g f hf
    rw [ha.recorder, ha.calls]
    by_cases hm : m = i
    · subst hm
      obtain rfl : t = x := some.inj (hi.symm.trans hx)
      have hlt := lt_of_getElem? hi
      exact ⟨m, t', hrec, getElem?_set_self hlt, hgroup.trans hxg, hstored hxs⟩
    · refine ⟨m, x, hrec, ?_, hxg, hxs⟩
      rw [getElem?_set_ne (Ne.symm hm)]
      exact hx
  · intro x hx hact m hm
    rw [ha.cache] at hm
    rw [ha.scope, ha.signature]
    rcases hcase x hx with rfl | hx
    · exact h.inScope t hmem (hactive' hact) m hm
    · exact h.inScope x hx ((hactive x).1 hact) m hm
  · intro x hx hact
    rcases hcase x hx with rfl | hx
    · exact hok (hactive' hact) hact.2.2
    · exact (h.calls x hx ((hactive x).1 hact)).grown ha.grown ha.sequence

section

variable (h : Inv c content cfg s) (hi : s.calls[i]? = some t)
include h hi

theorem Inv.ops_tail {op : Op} (hops : t.ops = op :: rest) :
    (t.status ≠ .running → ∀ o ∈ rest, o = .pause) ∧ EndsWell rest := by
  have hends := h.ends t (mem_of_getElem? hi)
  have hidle := h.idle t (mem_of_getElem? hi)
  rw [hops] at hends hidle
  exact ⟨fun hs o ho => hidle hs o (mem_cons_of_mem _ ho), hends.tail⟩

theorem Inv.halt (hgroup : t'.kvGroup = t.kvGroup) (hstep : t'.step = t.step)
    (hinc : t'.incremental = t.incremental) (hstored : t.status = .stored → t'.status = .stored)
    (hrunning : t'.status ≠ .running) (hops : t'.ops = []) :
    Inv c content cfg (s.setCall i t') := by
  refine h.advance advanced_setCall hi hgroup hstep hinc hstored
    (fun hr => absurd hr hrunning) ?_ ?_ fun _ hr => absurd hr hrunning
  · rw [hops]
    exact nofun
  · rw [hops]
    trivial

theorem Inv.skip {op : Op} (hops : t.ops = op :: rest) (hop : ∀ ls, op ≠ .publish ls) :
    Inv c content cfg (s.setCall i { t with ops := rest }) := by
  have hmem : t ∈ s.calls := mem_of_getElem? hi
  obtain ⟨hidle, hends⟩ := h.ops_tail hi hops
  refine h.advance advanced_setCall hi rfl rfl rfl id id hidle hends fun hact _ f hf => ?_
  obtain ⟨k, hk, hsaved⟩ := h.calls t hmem hact f hf
  refine ⟨k, hk, fun m hm => (hsaved m hm).imp id ?_⟩
  rintro ⟨x, hx, hkey, hlayers⟩
  refine ⟨x, hx, hkey, fun l hl => (hlayers l hl).imp id ?_⟩
  rintro ⟨ls, hls, hin⟩
  rw [hops] at hls
  rcases mem_cons.1 hls with heq | hls
  · exact absurd heq.symm (hop ls)
  · exact ⟨ls, hls, hin⟩

theorem Inv.publish {layers : List Nat} (hops : t.ops = .publish layers :: rest) :
    Inv c content cfg { s.setCall i { t with ops := rest } with
      tracked := s.tracked ++ t.items.flatMap fun x => layers.map fun l => (x.key, l) } := by
  have hmem : t ∈ s.calls := mem_of_getElem? hi
  have hgrown : Grown s { s.setCall i { t with ops := rest } with
      tracked := s.tracked ++ t.items.flatMap fun x => layers.map fun l => (x.key, l) } :=
    ⟨Subset.refl _, subset_append_left _ _, Subset.refl _⟩
  obtain ⟨hidle, hends⟩ := h.ops_tail hi hops
  refine h.advance ⟨rfl, rfl, rfl, rfl, rfl, rfl, rfl, rfl, hgrown⟩ hi rfl rfl rfl id id hidle hends
    fun hact _ f hf => ?_
  obtain ⟨k, hk, hsaved⟩ := h.calls t hmem hact f hf
  refine ⟨k, hk, fun m hm => ?_⟩
  rcases hsaved m hm with hs | ⟨x, hx, hkey, hlayers⟩
  · exact .inl (hs.grown hgrown)
  refine .inr ⟨x, hx, hkey, fun l hl => ?_⟩
  rcases hlayers l hl with htracked | ⟨ls, hls, hin⟩
  · exact .inl (mem_append_left _ htracked)
  rw [hops] at hls
  rcases mem_cons.1 hls with heq | hls
  · injection heq with heq
    subst heq
    refine .inl (mem_append_right _ (mem_flatMap.2 ⟨x, hx, ?_⟩))
    exact mem_map.2 ⟨l, hin, rfl⟩
  · exact .inr ⟨ls, hls, hin⟩

end

theorem Inv.record {x : Call H} (h : Inv c content cfg s) (hi : s.calls[i]? = some x)
    (hgroup : x.kvGroup = t.kvGroup) (hstatus : x.status = .stored)
    (hgood : ∀ f, t.latest = some f → Good c content cfg s t.kvGroup f) :
    Inv c content cfg (s.record i t) := by
  unfold Request.record
  cases hlatest : t.latest with
  | none => exact h
  | some f =>
    refine { h with frontier := ?_, completed := ?_ }
    · intro g f' hf'
      have hf' : (s.frontiers.set t.kvGroup f).get? g = some f' := hf'
      by_cases hg : g = t.kvGroup
      · subst hg
        rw [get?_set_self] at hf'
        cases hf'
        exact hgood f hlatest
      · rw [get?_set_ne hg] at hf'
        exact h.frontier g f' hf'
    · intro g f' hf'
      have hf' : (s.frontiers.set t.kvGroup f).get? g = some f' := hf'
      by_cases hg : g = t.kvGroup
      · subst hg
        exact ⟨i, x, get?_set_self _ _ _, hi, hgroup, hstatus⟩
      rw [get?_set_ne hg] at hf'
      obtain ⟨m, y, hrec, hy⟩ := h.completed g f' hf'
      refine ⟨m, y, ?_, hy⟩
      show (s.recorder.set t.kvGroup i).get? g = some m
      rw [get?_set_ne hg]
      exact hrec

theorem Inv.commit (h : Inv c content cfg s) (hi : s.calls[i]? = some t)
    (hops : t.ops = .commit :: rest) (hstep : t.step = s.step) :
    Inv c content cfg (s.exec cfg i t rest .commit) := by
  have hmem : t ∈ s.calls := mem_of_getElem? hi
  have hpauses : ∀ op ∈ rest, op = .pause := by
    have hends := h.ends t hmem
    rw [hops] at hends
    exact hends
  have hrunning : t.status = .running := by
    by_contra hne
    have hop := h.idle t hmem hne .commit (by rw [hops]; exact mem_cons_self)
    cases hop
  have hset : Inv c content cfg (s.setCall i { t with ops := rest, status := .stored }) := by
    exact h.advance advanced_setCall hi rfl rfl rfl (fun _ => rfl) nofun (fun _ => hpauses)
      (h.ops_tail hi hops).2 fun _ hr => absurd hr nofun
  show Inv c content cfg (if t.complete = true ∧ t.incremental = true then _ else _)
  split
  · next hcond =>
    have hlt : i < s.calls.length := lt_of_getElem? hi
    have hgood : ∀ f, t.latest = some f →
        Good c content cfg (s.setCall i { t with ops := rest, status := .stored }) t.kvGroup f := by
      intro f hf
      obtain ⟨k, hk, hsaved⟩ := h.calls t hmem ⟨hstep, hcond.2, hrunning⟩ f hf
      refine ⟨k, hk, fun m hm => ?_⟩
      show Saved cfg s (c.chunkItem (s.sequence content) t.kvGroup m).key
      rcases hsaved m hm with hs | ⟨x, -, hkey, hlayers⟩
      · exact hs
      rw [← hkey]
      have hgroup : x.key.kvGroup = t.kvGroup := by
        rw [hkey]
        rfl
      refine .inl (.inr fun l hl => ?_)
      rw [hgroup] at hl
      refine (hlayers l hl).resolve_right ?_
      rintro ⟨ls, hls, -⟩
      rw [hops] at hls
      rcases mem_cons.1 hls with heq | hls
      · cases heq
      · cases hpauses _ hls
    have hself : (s.setCall i { t with ops := rest, status := .stored }).calls[i]? =
        some { t with ops := rest, status := .stored } := getElem?_set_self hlt
    exact hset.record hself rfl rfl hgood
  · exact hset

/-! ## New calls -/

section

variable (h : Inv c content cfg s)
include h

theorem Inv.onChain : OnChain c content s := by
  intro g f hf
  obtain ⟨k, hk, -⟩ := h.frontier g f hf
  exact ⟨k, hk⟩

theorem Inv.planned (hp : Planned cfg a s s') :
    Inv c content cfg s' := by
  have hgrown : Grown s s' := .of_eq hp.found hp.tracked hp.masked
  have hsequence : s'.scope = s.scope → s'.sequence content = s.sequence content := by
    intro hscope
    unfold Request.sequence
    rw [hp.life, hscope]
  have hactive : ∀ x, Active s' x → Active s x := by
    rintro x ⟨h1, h2⟩
    rw [hp.step] at h1
    exact ⟨h1, h2⟩
  -- the scope of a store that is under way stays
  have hkept : ∀ t ∈ s.calls, Active s t → s'.scope = s.scope := by
    intro t ht hact
    rcases hp.scope with hsame | ⟨m, hm, hne, -⟩
    · exact hsame
    · exact absurd (h.inScope t ht hact m hm) hne
  refine ⟨?_, ?_, ?_, ?_, ?_, ?_, ?_⟩
  · rw [hp.calls, hp.step]
    exact h.past
  · rw [hp.calls]
    exact h.idle
  · rw [hp.calls]
    exact h.ends
  · intro g f hf
    obtain ⟨hf, hscope⟩ := hp.frontiers g f hf
    exact (h.frontier g f hf).grown hgrown (hsequence hscope)
  · intro g f hf
    rw [hp.recorder, hp.calls]
    exact h.completed g f (hp.frontiers g f hf).1
  · intro t ht hact m hm
    rw [hp.calls] at ht
    rw [hp.cache] at hm
    rw [hkept t ht (hactive t hact), hp.signature]
    exact h.inScope t ht (hactive t hact) m hm
  · intro t ht hact
    rw [hp.calls] at ht
    have hact := hactive t hact
    exact (h.calls t ht hact).grown hgrown (hsequence (hkept t ht hact))

theorem Inv.append {found masked : List (CacheKey H)} (hstep : t.step = s.step)
    (hidle : t.status ≠ .running → ∀ op ∈ t.ops, op = .pause) (hends : EndsWell t.ops)
    (hscope : t.incremental = true → t.status = .running → ∀ m, s.cache = some m →
      s.scope = some ⟨m, s.signature⟩)
    (hok : t.incremental = true → t.status = .running → CallOk c content cfg { s with
      calls := s.calls ++ [t]
      found := s.found ++ found
      masked := s.masked ++ masked } t) :
    Inv c content cfg
      { s with
        calls := s.calls ++ [t]
        found := s.found ++ found
        masked := s.masked ++ masked } := by
  have hgrown : Grown s { s with
      calls := s.calls ++ [t]
      found := s.found ++ found
      masked := s.masked ++ masked } :=
    ⟨subset_append_left _ _, Subset.refl _, subset_append_left _ _⟩
  have hcase : ∀ x ∈ s.calls ++ [t], x ∈ s.calls ∨ x = t := by
    intro x hx
    exact (mem_append.1 hx).imp id mem_singleton.1
  refine ⟨?_, ?_, ?_, ?_, ?_, ?_, ?_⟩
  · intro x hx
    rcases hcase x hx with hx | rfl
    · exact h.past x hx
    · exact Nat.le_of_eq hstep
  · intro x hx
    rcases hcase x hx with hx | rfl
    · exact h.idle x hx
    · exact hidle
  · intro x hx
    rcases hcase x hx with hx | rfl
    · exact h.ends x hx
    · exact hends
  · exact fun g f hf => (h.frontier g f hf).grown hgrown rfl
  · intro g f hf
    obtain ⟨m, x, hrec, hx, hxg⟩ := h.completed g f hf
    exact ⟨m, x, hrec, getElem?_append_some hx [t], hxg⟩
  · intro x hx hact
    rcases hcase x hx with hx | rfl
    · exact h.inScope x hx hact
    · exact hscope hact.2.1 hact.2.2
  · intro x hx hact
    rcases hcase x hx with hx | rfl
    · exact (h.calls x hx hact).grown hgrown rfl
    · exact hok hact.2.1 hact.2.2

theorem saved_below (hspec : PlanSpec c content cfg a s items base prior j) (hg : Grown s s')
    (hmasked : ∀ i, base ≤ i * c.chunkSize → i < j →
      (c.chunkItem (s.sequence content) a.kvGroup i).key ∈ s'.masked)
    (hi : i < j) :
    Saved cfg s' (c.chunkItem (s.sequence content) a.kvGroup i).key := by
  by_cases hbase : base ≤ i * c.chunkSize
  · exact .inr (hmasked i hbase hi)
  rcases hspec.prior with ⟨-, hzero⟩ | ⟨-, k, -, hk, hget, hprior⟩
  · rw [hzero] at hbase
    exact absurd (Nat.zero_le _) hbase
  rw [hprior] at hget
  obtain ⟨m, hm, hsaved⟩ := h.frontier _ _ hget
  have hkm : k * c.chunkSize = m * c.chunkSize := congrArg Prod.fst hm
  rw [hk, hkm, Nat.not_le] at hbase
  exact (hsaved i (Nat.lt_of_mul_lt_mul_right hbase)).grown hg

theorem callOk_planned (hspec : PlanSpec c content cfg a s items base prior j) (hg : Grown s s')
    (hseq : s'.sequence content = s.sequence content)
    (hmasked : ∀ i, base ≤ i * c.chunkSize → i < j →
      (c.chunkItem (s.sequence content) a.kvGroup i).key ∈ s'.masked)
    (hitems : ∀ x ∈ items, x.key ∈ s'.found ∨ x ∈ t.items) (hgroup : t.kvGroup = a.kvGroup)
    (hops : t.ops = a.ops cfg t.items.isEmpty)
    (hlatest : t.latest = latestFullFrontier c.chunkSize true prior items) :
    CallOk c content cfg s' t := by
  intro f hf
  rw [hlatest, hspec.items, latestFullFrontier_restItems prior hspec.le] at hf
  rw [hseq, hgroup]
  split at hf
  · cases hf
    refine ⟨s.accepted / c.chunkSize, rfl, fun i hi => ?_⟩
    by_cases hij : i < j
    · exact .inl (saved_below h hspec hg hmasked hij)
    have hmem : c.chunkItem (s.sequence content) a.kvGroup i ∈ items := by
      rw [hspec.items]
      exact mem_append_left _ (mem_chunkItems.2 ⟨i, by omega, hi, rfl⟩)
    rcases hitems _ hmem with hfound | hstored
    · exact .inl (.inl (.inl hfound))
    refine .inr ⟨_, hstored, rfl, fun l hl => .inr ?_⟩
    have hne : t.items.isEmpty = false := by
      rw [isEmpty_eq_false_iff]
      exact ne_nil_of_mem hstored
    rw [hops, hne]
    exact publish_mem_ops hl
  · rcases hspec.prior with ⟨hnone, -⟩ | ⟨-, k, hkj, -, -, hprior⟩
    · rw [hnone] at hf
      cases hf
    rw [hprior] at hf
    cases hf
    exact ⟨k, rfl, fun i hi =>
      .inl (saved_below h hspec hg hmasked (Nat.lt_of_lt_of_le hi hkj))⟩

end

theorem mem_leftOut (hp : p.Follows c) {base start : Nat} (hstart : start = j * c.chunkSize)
    (hj : j ≤ s.accepted / c.chunkSize) (hbase : base ≤ i * c.chunkSize) (hi : i < j) :
    (c.chunkItem (s.sequence content) g i).key ∈
      (((p.db.processTokens (s.tokens content) g).filter fun x =>
        base ≤ x.start ∧ x.start < start).map PlanItem.key) := by
  refine mem_map.2 ⟨_, mem_filter.2 ⟨?_, ?_⟩, rfl⟩
  · unfold Request.tokens
    rw [processTokens_firstTokens hp.chain]
    exact mem_append_left _ (mem_chunkItems.2 ⟨i, Nat.zero_le i, by omega, rfl⟩)
  · rw [decide_eq_true_eq, hstart]
    exact ⟨hbase, Nat.mul_lt_mul_of_pos_right hi c.chunkSize_pos⟩

/-- A call plans behind the recorded frontier. -/
theorem Inv.begin (hp : p.Follows c) (h : Inv c content cfg s) (hskip : a.skip ≤ s.accepted)
    (present : List Nat) (allocated : Nat) :
    Inv c content cfg (s.begin p c.chunkSize content cfg a present allocated) := by
  have hplanned : Planned cfg a s (layerwisePrefillStorePlan p c.chunkSize content cfg s a).2 :=
    plan_planned
  have hinv := h.planned hplanned
  unfold Request.begin
  cases hplan : layerwisePrefillStorePlan p c.chunkSize content cfg s a with
  | mk result s2 =>
    rw [hplan] at hplanned hinv
    cases result with
    | error e =>
      have happ : Inv c content cfg { s2 with
          calls := s2.calls ++ [⟨a.kvGroup, s2.step, a.incrementalPrefill cfg, false, none, [], [],
            .failed⟩]
          found := s2.found ++ []
          masked := s2.masked ++ [] } :=
        hinv.append rfl (nofun) trivial nofun nofun
      rw [append_nil, append_nil] at happ
      exact happ
    | ok r =>
      obtain ⟨items, base, prior⟩ := r
      obtain ⟨j, hspec⟩ := plan_spec hp h.onChain hskip hplan
      refine hinv.append rfl ?_ ?_ ?_ ?_
      · intro hs
        dsimp only at hs ⊢
        split
        · exact nofun
        rename_i hrefused
        rw [if_neg hrefused] at hs
        exact absurd rfl hs
      · dsimp only
        split
        · trivial
        · exact endsWell_ops
      · intro hinc _ m hm
        rw [hplanned.signature]
        rw [hplanned.cache] at hm
        exact hplanned.entered hinc m hm
      · intro hinc hrun
        dsimp only at hinc hrun
        have hrefused : ¬ ((!decide ((items.filter fun x => x.start ∉ present).length ≤
            allocated) && cfg.prefill || a.groupStore && a.deferred cfg &&
              !((items.filter fun x => x.start ∉ present).take allocated).isEmpty) = true) := by
          intro hrefused
          rw [if_pos hrefused] at hrun
          cases hrun
        have hprefill : cfg.prefill = true := by
          unfold Args.incrementalPrefill at hinc
          simp only [Bool.and_eq_true] at hinc
          exact hinc.1.2
        have hfull : (items.filter fun x => x.start ∉ present).length ≤ allocated := by
          rw [hprefill, Bool.and_true, Bool.or_eq_true, not_or, Bool.not_eq_true',
            Bool.not_eq_false, decide_eq_true_eq] at hrefused
          exact hrefused.1
        refine callOk_planned hinv hspec
          ⟨subset_append_left _ _, Subset.refl _, subset_append_left _ _⟩ rfl
          ?_ ?_ rfl ?_ ?_
        · intro i hbase hi
          exact mem_append_right _ (mem_leftOut hp hspec.start hspec.le hbase hi)
        · intro x hx
          by_cases hpresent : x.start ∈ present
          · refine .inl (mem_append_right _ (mem_map.2 ⟨x, ?_, rfl⟩))
            exact mem_filter.2 ⟨hx, decide_eq_true hpresent⟩
          refine .inr ?_
          show x ∈ (items.filter fun x => x.start ∉ present).take allocated
          rw [take_of_length_le hfull]
          exact mem_filter.2 ⟨hx, decide_eq_true hpresent⟩
        · exact if_neg hrefused
        · show latestFullFrontier c.chunkSize (a.incrementalPrefill cfg) prior items = _
          rw [hinc]

/-! ## Runs -/

theorem Inv.forward (h : Inv c content cfg s) (accepted : Nat) (cache : Option Nat)
    (signature : String) :
    Inv c content cfg { s with
      step := s.step + 1, accepted := accepted, cache := cache, signature := signature } := by
  have hnone : ∀ x ∈ s.calls, x.step ≠ s.step + 1 :=
    fun x hx => Nat.ne_of_lt (Nat.lt_succ_of_le (h.past x hx))
  exact ⟨fun x hx => Nat.le_succ_of_le (h.past x hx), h.idle, h.ends,
    fun g f hf => (h.frontier g f hf).grown (.of_eq rfl rfl rfl) rfl, h.completed,
    fun x hx hact => absurd hact.1 (hnone x hx), fun x hx hact => absurd hact.1 (hnone x hx)⟩

theorem Inv.release (h : Inv c content cfg s) :
    Inv c content cfg { s with
      frontiers := Dict.empty, scope := none, life := s.life + 1, step := s.step + 1 } := by
  have hnone : ∀ x ∈ s.calls, x.step ≠ s.step + 1 :=
    fun x hx => Nat.ne_of_lt (Nat.lt_succ_of_le (h.past x hx))
  exact ⟨fun x hx => Nat.le_succ_of_le (h.past x hx), h.idle, h.ends, nofun, nofun,
    fun x hx hact => absurd hact.1 (hnone x hx), fun x hx hact => absurd hact.1 (hnone x hx)⟩

/-- Every action, without the profile of primed stores. -/
theorem Inv.next {act : Action} (hp : p.Follows c) (hdiag : cfg.diagnostic = false)
    (h : Inv c content cfg s) (hstep : s.next p c.chunkSize content cfg act = some s') :
    Inv c content cfg s' := by
  cases act with
  | forward accepted cache signature =>
    cases hstep
    exact h.forward accepted cache signature
  | begin a present allocated =>
    simp only [Request.next] at hstep
    split at hstep
    · next hskip =>
      cases hstep
      exact h.begin hp hskip present allocated
    · cases hstep
  | run i =>
    cases hi : s.calls[i]? with
    | none =>
      simp only [Request.next, hi] at hstep
      cases hstep
    | some t =>
      cases hops : t.ops with
      | nil =>
        simp only [Request.next, hi, hops] at hstep
        cases hstep
      | cons op rest =>
        simp only [Request.next, hi, hops] at hstep
        split at hstep
        · next hcur =>
          cases hstep
          cases op with
          | pause | check => exact h.skip hi hops nofun
          | prime =>
            show Inv c content cfg (if cfg.diagnostic = true ∧ t.incremental = true then _ else _)
            rw [if_neg fun hand => absurd (hand.1.symm.trans hdiag) nofun]
            exact h.skip hi hops nofun
          | publish layers => exact h.publish hi hops
          | commit => exact h.commit hi hops hcur
        · cases hstep
  | fails i =>
    cases hi : s.calls[i]? with
    | none =>
      simp only [Request.next, hi] at hstep
      cases hstep
    | some t =>
      simp only [Request.next, hi] at hstep
      split at hstep
      · next hrun =>
        cases hstep
        refine h.halt hi rfl rfl rfl ?_ nofun rfl
        intro hs
        rw [hrun] at hs
        cases hs
      · cases hstep
  | close i =>
    cases hi : s.calls[i]? with
    | none =>
      simp only [Request.next, hi] at hstep
      cases hstep
    | some t =>
      simp only [Request.next, hi] at hstep
      split at hstep
      · cases hstep
        refine h.halt hi rfl rfl rfl ?_ ?_ rfl
        · intro hs
          exact if_pos hs
        · show (if t.status = .stored then Status.stored else .closed) ≠ .running
          split <;> nofun
      · cases hstep
  | release =>
    cases hstep
    exact h.release

theorem Inv.soundMasked (hp : p.Follows c) (h : Inv c content cfg s) :
    s.SoundMasked p content cfg c := by
  refine ⟨h.frontier, h.completed, ?_⟩
  intro a n cache signature items base prior s' hskip hplan
  have hchain : OnChain c content
      { s with accepted := n, cache := cache, signature := signature } := h.onChain
  obtain ⟨j, hspec⟩ := plan_spec hp hchain hskip hplan
  have hitems : restItems c (s'.sequence content) a.kvGroup j s'.accepted =
      (p.db.processTokens (s'.tokens content) a.kvGroup).filter fun x =>
        j * c.chunkSize ≤ x.start := (filter_processTokens hp.chain hspec.le).symm
  rw [hspec.items, hspec.start, hitems]

/-- In every run without the profile of primed stores. -/
theorem frontier_sound (hp : p.Follows c) (hdiag : cfg.diagnostic = false) :
    ∀ s, (machine p c.chunkSize content cfg).Reachable s → s.SoundMasked p content cfg c := by
  intro s hs
  have hinv : Inv c content cfg s := by
    refine Machine.Inductive.reachable ⟨?_, ?_⟩ hs
    · rintro s rfl
      exact Inv.init
    · intro s act s' h hstep
      exact h.next hp hdiag hstep
  exact hinv.soundMasked hp

/-- A store of two chunks, and its frontier. -/
theorem frontier_sound_stored : ∃ s : Request Nat, s.frontiers.get? 0 = some (4, 2) ∧
    s.SoundMasked (planner (⟨2, by decide, 0, fun h _ => h + 1, true⟩ : HashChain Nat Nat))
      (fun _ _ i => i) ⟨fun _ => 1, true, false, false⟩
      ⟨2, by decide, 0, fun h _ => h + 1, true⟩ := by
  have hrun : ∃ s, (machine
      (planner (⟨2, by decide, 0, fun h _ => h + 1, true⟩ : HashChain Nat Nat))
      2 (fun _ _ i => i) ⟨fun _ => 1, true, false, false⟩).run Request.init
      (.forward 4 none "" :: .begin ⟨0, 0, true, true, false, false, []⟩ [] 2 ::
        replicate 11 (.run 0)) = some s ∧ s.frontiers.get? 0 = some (4, 2) :=
    ⟨_, rfl, by decide⟩
  obtain ⟨s, hs, hfrontier⟩ := hrun
  exact ⟨s, hfrontier, frontier_sound (planner_follows _) rfl s (Machine.reachable_of_run rfl hs)⟩

/-- Unsound is a store that is closed behind its primed generator in the profile, and a store
whose mask leaves out a chunk that was never stored. -/
theorem primed_or_masked :
    (¬ ∀ s : Request Nat, (machine
        (planner (⟨2, by decide, 0, fun h _ => h + 1, true⟩ : HashChain Nat Nat))
        2 (fun _ _ i => i) ⟨fun _ => 1, true, true, false⟩).Reachable s →
      s.Sound (planner (⟨2, by decide, 0, fun h _ => h + 1, true⟩ : HashChain Nat Nat))
        (fun _ _ i => i) ⟨fun _ => 1, true, true, false⟩
        ⟨2, by decide, 0, fun h _ => h + 1, true⟩) ∧
    (¬ ∀ s : Request Nat, (machine
        (planner (⟨2, by decide, 0, fun h _ => h + 1, true⟩ : HashChain Nat Nat))
        2 (fun _ _ i => i) ⟨fun _ => 1, true, false, false⟩).Reachable s →
      s.Sound (planner (⟨2, by decide, 0, fun h _ => h + 1, true⟩ : HashChain Nat Nat))
        (fun _ _ i => i) ⟨fun _ => 1, true, false, false⟩
        ⟨2, by decide, 0, fun h _ => h + 1, true⟩) := by
  constructor
  · intro h
    have hrun : ∃ s, (machine
        (planner (⟨2, by decide, 0, fun h _ => h + 1, true⟩ : HashChain Nat Nat))
        2 (fun _ _ i => i) ⟨fun _ => 1, true, true, false⟩).run Request.init
        [.forward 4 none "", .begin ⟨0, 0, true, true, false, false, []⟩ [] 2, .run 0, .run 0,
          .close 0] =
          some s ∧
        s.frontiers.get? 0 = some (4, 2) ∧ ∀ t ∈ s.calls, t.status = .closed :=
      ⟨_, rfl, by decide, by decide⟩
    obtain ⟨s, hs, hfrontier, hclosed⟩ := hrun
    obtain ⟨i, t, -, ht, -, hstored⟩ :=
      (h s (Machine.reachable_of_run rfl hs)).completed 0 _ hfrontier
    have hstatus := hclosed t (mem_of_getElem? ht)
    rw [hstored] at hstatus
    cases hstatus
  · intro h
    have hrun : ∃ s, (machine
        (planner (⟨2, by decide, 0, fun h _ => h + 1, true⟩ : HashChain Nat Nat))
        2 (fun _ _ i => i) ⟨fun _ => 1, true, false, false⟩).run Request.init
        (.forward 4 none "" :: .begin ⟨0, 2, true, true, false, false, [some 0]⟩ [] 1 ::
          replicate 11 (.run 0)) = some s ∧
        s.frontiers.get? 0 = some (4, 2) ∧
        (⟨0, 1⟩ : CacheKey Nat) ∉ s.found ∧ ((⟨0, 1⟩ : CacheKey Nat), 0) ∉ s.tracked :=
      ⟨_, rfl, by decide, by decide, by decide⟩
    obtain ⟨s, hs, hfrontier, hfound, htracked⟩ := hrun
    obtain ⟨k, hk, hsaved⟩ := (h s (Machine.reachable_of_run rfl hs)).boundary 0 _ hfrontier
    have hk : 4 = k * 2 := congrArg Prod.fst hk
    rcases hsaved 0 (by omega) with hin | hin
    · exact hfound hin
    · exact htracked (hin 0 Nat.zero_lt_one)

end StoreFrontier
