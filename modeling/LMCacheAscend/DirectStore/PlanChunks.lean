import LMCacheAscend.DirectStore.Plan
import Mathlib.Data.List.Chain

/-!
# What plans list

The items of a plan follow each other chunk by chunk, and only the last may be
partial (`Contiguous`), whatever chunk the plan starts from.  The plans of all
groups agree in every item (`directSuffixPlans_agree`,
`remoteFillPrefixPlans_agree`), since the planner compares them.
-/

namespace DirectStore

open Lib List Option Dict

/-! ## Chunks -/

/-- Items that follow each other, chunk by chunk; only the last may be partial. -/
structure Contiguous {H : Type} (chunkSize : Nat) (ids : List (Nat × Nat × H)) : Prop where
  follow : ids.IsChain fun x y => x.2.1 = x.1 + chunkSize ∧ y.1 = x.2.1
  nonempty : ∀ x ∈ ids, x.1 < x.2.1

section

variable {τ H : Type} {c : HashChain τ H}

variable {x : PlanItem H} {group fuel : Nat} {tokens : List τ}

variable {start : Nat}

theorem head_chunks {h : H} (hx : x ∈ (c.chunks group fuel start h tokens).head?) :
    x.start = start := by
  unfold HashChain.chunks at hx
  split at hx
  · cases hx
  split at hx
  · cases hx
  split at hx
  · split at hx
    · cases hx
      rfl
    · cases hx
  · cases hx
    rfl

theorem chunks_contiguous (group fuel start : Nat) (h : H) (tokens : List τ) :
    Contiguous c.chunkSize ((c.chunks group fuel start h tokens).map PlanItem.identity) := by
  induction fuel generalizing start h tokens with
  | zero => exact ⟨.nil, nofun⟩
  | succ fuel ih =>
    have hpos := c.chunkSize_pos
    unfold HashChain.chunks
    split
    · exact ⟨.nil, nofun⟩
    next hne =>
    split
    · split
      · refine ⟨.singleton _, fun x hx => ?_⟩
        rw [map_singleton, mem_singleton] at hx
        have := length_pos_iff.2 hne
        subst hx
        show start < start + tokens.length
        omega
      · exact ⟨.nil, nofun⟩
    · have ih := ih (start + c.chunkSize) (c.chain h (tokens.take c.chunkSize))
        (tokens.drop c.chunkSize)
      simp only [map_cons]
      refine ⟨isChain_cons.2 ⟨fun y hy => ?_, ih.follow⟩, fun x hx => ?_⟩
      · rw [head?_map] at hy
        obtain ⟨z, hz, rfl⟩ := map_eq_some_iff.1 hy
        exact ⟨rfl, head_chunks hz⟩
      · rcases mem_cons.1 hx with rfl | hx
        · show start < start + c.chunkSize
          omega
        · exact ih.nonempty x hx

theorem chunks_full {h : H} (hdvd : c.chunkSize ∣ tokens.length)
    (hx : x ∈ c.chunks group fuel start h tokens) : x.stop = x.start + c.chunkSize := by
  induction fuel generalizing start h tokens with
  | zero => cases hx
  | succ fuel ih =>
    unfold HashChain.chunks at hx
    split at hx
    · cases hx
    next hne =>
    split at hx
    · next hlt =>
      have hlen := length_pos_iff.2 hne
      exact absurd (Nat.le_of_dvd hlen hdvd) (by omega)
    · rcases mem_cons.1 hx with rfl | hx
      · rfl
      refine ih ?_ hx
      rw [length_drop]
      exact Nat.dvd_sub hdvd (Nat.dvd_refl _)

theorem of_mem_chunks {h : H} (hx : x ∈ c.chunks group fuel start h tokens) :
    x.key.kvGroup = group ∧ x.stop ≤ start + tokens.length := by
  induction fuel generalizing start h tokens with
  | zero => cases hx
  | succ fuel ih =>
    unfold HashChain.chunks at hx
    split at hx
    · cases hx
    split at hx
    · split at hx
      · rw [mem_singleton.1 hx]
        exact ⟨rfl, Nat.le_refl _⟩
      · cases hx
    · next hlt =>
      rcases mem_cons.1 hx with rfl | hx
      · exact ⟨rfl, Nat.add_le_add_left (Nat.le_of_not_lt hlt) start⟩
      obtain ⟨hgroup, hle⟩ := ih hx
      rw [length_drop] at hle
      exact ⟨hgroup, by omega⟩

theorem offsetItems_group {l : List (H × Nat)} (hx : x ∈ offsetItems group start l) :
    x.key.kvGroup = group := by
  induction l generalizing start with
  | nil => cases hx
  | cons e l ih =>
    rcases mem_cons.1 hx with rfl | hx
    · rfl
    · exact ih hx

variable {chunkSize : Nat} {ids : List (Nat × Nat × H)}

theorem Contiguous.start_eq (h : Contiguous chunkSize ids) {i : Nat} (hi : i < ids.length) :
    ids[i].1 = ids[0].1 + i * chunkSize := by
  induction i with
  | zero => simp
  | succ i ih =>
    have hrel := h.follow.getElem i hi
    rw [hrel.2, hrel.1, ih (by omega), Nat.succ_mul, Nat.add_assoc]

section

variable (h : Contiguous chunkSize ids) (hpos : 0 < chunkSize)
include h hpos

theorem Contiguous.chunk_eq {i : Nat} (hi : i < ids.length) :
    ids[i].1 / chunkSize = ids[0].1 / chunkSize + i := by
  rw [h.start_eq hi, Nat.add_mul_div_right _ _ hpos]

/-- The items are told apart by their chunks, and between two of them no chunk is left out. -/
theorem Contiguous.between {x y : Nat × Nat × H} (hx : x ∈ ids) (hy : y ∈ ids) {m : Nat}
    (h1 : x.1 / chunkSize ≤ m) (h2 : m ≤ y.1 / chunkSize) :
    ∃ z ∈ ids, z.1 / chunkSize = m ∧ x.2.1 ≤ z.2.1 ∧ z.2.1 ≤ y.2.1 := by
  obtain ⟨i, hi, rfl⟩ := mem_iff_getElem.1 hx
  obtain ⟨j, hj, rfl⟩ := mem_iff_getElem.1 hy
  rw [h.chunk_eq hpos hi] at h1
  rw [h.chunk_eq hpos hj] at h2
  have hmono : ∀ {a b : Nat} (ha : a < ids.length) (hb : b < ids.length), a ≤ b →
      ids[a].2.1 ≤ ids[b].2.1 := by
    intro a b ha hb hab
    rcases Nat.lt_or_eq_of_le hab with hlt | rfl
    · have hrel := h.follow.getElem a (by omega)
      have hend := h.nonempty _ (getElem_mem hb)
      have hle : (a + 1) * chunkSize ≤ b * chunkSize := Nat.mul_le_mul_right _ hlt
      rw [h.start_eq hb] at hend
      rw [hrel.1, h.start_eq ha]
      rw [Nat.succ_mul] at hle
      omega
    · exact Nat.le_refl _
  have hk : m - ids[0].1 / chunkSize < ids.length := by omega
  refine ⟨ids[m - ids[0].1 / chunkSize], getElem_mem hk, ?_, hmono hi hk (by omega),
    hmono hk hj (by omega)⟩
  rw [h.chunk_eq hpos hk]
  omega

theorem Contiguous.unique {x y : Nat × Nat × H} (hx : x ∈ ids) (hy : y ∈ ids)
    (hxy : x.1 / chunkSize = y.1 / chunkSize) : x = y := by
  obtain ⟨i, hi, rfl⟩ := mem_iff_getElem.1 hx
  obtain ⟨j, hj, rfl⟩ := mem_iff_getElem.1 hy
  rw [h.chunk_eq hpos hi, h.chunk_eq hpos hj] at hxy
  have : i = j := by omega
  subst this
  rfl

end

end

/-! ## Where a plan starts -/

section

variable {τ H : Type} {c : HashChain τ H} {db : TokenDatabase τ H}

theorem latentPlan_contiguous (hdb : db.Follows c) {s : RequestState H} {tokens : List τ}
    {base : Nat} (hle : base ≤ tokens.length) (hdvd : c.chunkSize ∣ base) :
    Contiguous c.chunkSize ((latentPlan db s tokens base).map PlanItem.identity) := by
  unfold latentPlan
  split
  · exact ⟨.nil, nofun⟩
  split
  · rw [hdb.fromPrefix _ _ _ _ hle hdvd]
    exact chunks_contiguous ..
  · rw [hdb.process]
    exact chunks_contiguous ..

theorem planBase_le (s : RequestState H) (full : Nat) (groups : List Nat) :
    planBase s full groups ≤ full := by
  unfold planBase
  split
  · next h => exact h.1
  · exact Nat.zero_le _

theorem dvd_planBase {s : RequestState H} {m : Nat} (h : m ∣ s.plannedEnd) (full : Nat)
    (groups : List Nat) : m ∣ planBase s full groups := by
  unfold planBase
  split
  · exact h
  · exact Nat.dvd_zero m

theorem length_take_fullEnd (chunkSize : Nat) (tokens : List τ) :
    (tokens.take (fullEnd chunkSize tokens.length)).length = fullEnd chunkSize tokens.length := by
  rw [length_take]
  exact Nat.min_eq_left (Nat.div_mul_le_self _ _)

end

/-! ## Groups -/

/-- Plans of some groups that agree in every item. -/
def PlansAgree {H : Type} (chunkSize : Nat) (groups : List Nat) (plans : Plans H) : Prop :=
  ∃ ids, Contiguous chunkSize ids ∧
    ∀ g ∈ groups, ((plans.get? g).getD []).map PlanItem.identity = ids

section

variable {τ H : Type} [DecidableEq H] {c : HashChain τ H} {db : TokenDatabase τ H}

/-- The plan of a group: none, or the one that agrees with the plan of group 0. -/
def AgreeingPlan (db : TokenDatabase τ H) (plan0 : List (PlanItem H)) (base g : Nat)
    (plan : List (PlanItem H)) : Prop :=
  plan0 = [] ∧ plan = [] ∨
    plan = groupPlan db plan0 base g ∧ plan.map PlanItem.identity = plan0.map PlanItem.identity

omit [DecidableEq H] in
theorem AgreeingPlan.identity {plan0 plan : List (PlanItem H)} {base g : Nat}
    (h : AgreeingPlan db plan0 base g plan) :
    plan.map PlanItem.identity = plan0.map PlanItem.identity := by
  rcases h with ⟨rfl, rfl⟩ | ⟨-, h⟩
  · rfl
  · exact h

variable {plans : Plans H} {groups : List Nat} {s s' : RequestState H} {tokens : List τ}

theorem groupPlans_ok {plan0 : List (PlanItem H)} {base : Nat} {out : Plans H}
    (h : groupPlans db plan0 base groups plans = .ok out) (g : Nat) :
    (g ∈ groups → g ≠ 0 → AgreeingPlan db plan0 base g ((out.get? g).getD [])) ∧
    (g ∉ groups ∨ g = 0 → out.get? g = plans.get? g) := by
  induction groups generalizing plans with
  | nil =>
    cases h
    exact ⟨nofun, fun _ => rfl⟩
  | cons group groups ih =>
    unfold groupPlans at h
    split at h
    · next hzero =>
      obtain ⟨h1, h2⟩ := ih h
      refine ⟨fun hg hne => ?_, fun hg => h2 (hg.imp_left fun h hm => h (mem_cons_of_mem _ hm))⟩
      rcases mem_cons.1 hg with rfl | hg
      · exact absurd hzero hne
      · exact h1 hg hne
    next hzero =>
    -- the plan that is stored for this group
    have hstored : ∀ {p : List (PlanItem H)}, groupPlans db plan0 base groups (plans.set group p) =
        .ok out → AgreeingPlan db plan0 base group p →
        (g ∈ group :: groups → g ≠ 0 → AgreeingPlan db plan0 base g ((out.get? g).getD [])) ∧
        (g ∉ group :: groups ∨ g = 0 → out.get? g = plans.get? g) := by
      intro p hp hagree
      obtain ⟨h1, h2⟩ := ih hp
      refine ⟨fun hg hne => ?_, fun hg => ?_⟩
      · by_cases hmem : g ∈ groups
        · exact h1 hmem hne
        obtain rfl := (mem_cons.1 hg).resolve_right hmem
        rw [h2 (.inl hmem), get?_set_self, getD_some]
        exact hagree
      · have hne : g ≠ group := by
          rintro rfl
          exact hg.elim (fun h => h mem_cons_self) hzero
        rw [h2 (hg.imp_left fun h hm => h (mem_cons_of_mem _ hm)), get?_set_ne hne]
    split at h
    · next hnil => exact hstored h (.inl ⟨hnil, rfl⟩)
    simp only at h
    split at h
    · cases h
    · next hid => exact hstored h (.inr ⟨rfl, not_not.1 hid⟩)

/-- **The plans that are returned.** -/
theorem directSuffixPlans_ok {chunkSize : Nat}
    (h : directSuffixPlans db chunkSize s tokens groups = (.ok plans, s')) :
    ((∀ g, (plans.get? g).getD [] = []) ∧ s' = s ∧
        ∀ g ∈ groups, fullEnd chunkSize tokens.length ≤ s.submitted g) ∨
      ∃ plan0, plan0 = latentPlan db s (tokens.take (fullEnd chunkSize tokens.length))
          (planBase s (fullEnd chunkSize tokens.length) groups) ∧
        s' = s.planned plan0 ∧ (plans.get? 0).getD [] = plan0 ∧
        (∃ g ∈ groups, s.submitted g < fullEnd chunkSize tokens.length) ∧
        ∀ g ∈ groups, g ≠ 0 → AgreeingPlan db plan0
          (planBase s (fullEnd chunkSize tokens.length) groups) g ((plans.get? g).getD []) := by
  unfold directSuffixPlans at h
  simp only at h
  split at h
  · next hall =>
    cases h
    refine .inl ⟨fun g => ?_, rfl, hall⟩
    have hempty : ∀ (l : List Nat) (d : Plans H), (∀ g, (d.get? g).getD [] = []) →
        ((l.foldl (fun plans group => plans.set group []) d).get? g).getD [] = [] := by
      intro l
      induction l with
      | nil => exact fun d hd => hd g
      | cons a l ih =>
        intro d hd
        refine ih _ fun g => ?_
        rw [get?_set]
        split
        · rfl
        · exact hd g
    exact hempty groups _ fun g => rfl
  · next hall =>
    split at h
    · cases h
    · next hgroups =>
      cases h
      refine .inr ⟨_, rfl, rfl, ?_, ?_, fun g hg hne => (groupPlans_ok hgroups g).1 hg hne⟩
      · rw [(groupPlans_ok hgroups 0).2 (.inr rfl), get?_set_self, getD_some]
      · by_contra hcon
        refine hall fun g hg => ?_
        by_contra hlt
        exact hcon ⟨g, hg, Nat.lt_of_not_le hlt⟩

section

variable (hdb : db.Follows c) (hdvd : c.chunkSize ∣ s.plannedEnd)
variable (h : directSuffixPlans db c.chunkSize s tokens groups = (.ok plans, s'))
include hdb hdvd h

theorem directSuffixPlans_agree :
    PlansAgree c.chunkSize (groups ++ [0]) plans := by
  rcases directSuffixPlans_ok h with ⟨hempty, -, -⟩ | ⟨plan0, rfl, -, hplan, -, hgroups⟩
  · refine ⟨[], ⟨.nil, nofun⟩, fun g _ => ?_⟩
    rw [hempty g]
    rfl
  · have hle : planBase s (fullEnd c.chunkSize tokens.length) groups ≤
        (tokens.take (fullEnd c.chunkSize tokens.length)).length := by
      rw [length_take_fullEnd]
      exact planBase_le ..
    refine ⟨_, latentPlan_contiguous hdb (s := s) hle (dvd_planBase hdvd _ _), fun g hg => ?_⟩
    by_cases hzero : g = 0
    · rw [hzero, hplan]
    rcases mem_append.1 hg with hg | hg
    · exact (hgroups g hg hzero).identity
    · exact absurd (mem_singleton.1 hg) hzero

theorem directSuffixPlans_items :
    (∀ g ∈ groups ++ [0], ∀ x ∈ (plans.get? g).getD [], x.key.kvGroup = g) ∧
      ∀ g ∈ groups ++ [0], ∀ x ∈ (plans.get? g).getD [], x.stop = x.start + c.chunkSize := by
  rcases directSuffixPlans_ok h with ⟨hempty, -, -⟩ | ⟨plan0, rfl, -, hplan, -, hgroups⟩
  · constructor <;>
    · intro g _ x hx
      rw [hempty g] at hx
      cases hx
  have hlen := length_take_fullEnd c.chunkSize tokens
  have hbase : planBase s (fullEnd c.chunkSize tokens.length) groups ≤
      (tokens.take (fullEnd c.chunkSize tokens.length)).length := by
    rw [hlen]
    exact planBase_le ..
  have hbase' := dvd_planBase hdvd (fullEnd c.chunkSize tokens.length) groups
  have hdvd' : c.chunkSize ∣ (tokens.take (fullEnd c.chunkSize tokens.length)).length := by
    rw [hlen]
    exact Nat.dvd_mul_left _ _
  -- the items of group 0
  have hplan0 : ∀ x ∈ latentPlan db s (tokens.take (fullEnd c.chunkSize tokens.length))
      (planBase s (fullEnd c.chunkSize tokens.length) groups),
      x.key.kvGroup = 0 ∧ x.stop = x.start + c.chunkSize := by
    intro x hx
    unfold latentPlan at hx
    split at hx
    · cases hx
    split at hx
    · rw [hdb.fromPrefix _ _ _ _ hbase hbase'] at hx
      refine ⟨(of_mem_chunks hx).1, chunks_full ?_ hx⟩
      rw [length_drop]
      exact Nat.dvd_sub hdvd' hbase'
    · rw [hdb.process] at hx
      exact ⟨(of_mem_chunks hx).1, chunks_full hdvd' hx⟩
  constructor
  · intro g hg x hx
    by_cases hzero : g = 0
    · rw [hzero, hplan] at hx
      rw [hzero]
      exact (hplan0 x hx).1
    have hg := (mem_append.1 hg).resolve_right fun h => hzero (mem_singleton.1 h)
    rcases hgroups g hg hzero with ⟨-, hnil⟩ | ⟨heq, -⟩
    · rw [hnil] at hx
      cases hx
    rw [heq] at hx
    obtain ⟨y, hy, rfl⟩ := mem_map.1 hx
    rw [hdb.hashes _ _ _ (by rw [length_map, length_map])] at hy
    show y.key.kvGroup = g
    exact offsetItems_group hy
  · intro g hg x hx
    by_cases hzero : g = 0
    · rw [hzero, hplan] at hx
      exact (hplan0 x hx).2
    have hg := (mem_append.1 hg).resolve_right fun h => hzero (mem_singleton.1 h)
    have hid := (hgroups g hg hzero).identity
    obtain ⟨y, hy, hyx⟩ := mem_map.1 (hid ▸ mem_map_of_mem hx)
    have hyfull := (hplan0 y hy).2
    unfold PlanItem.identity at hyx
    rw [Prod.mk.injEq, Prod.mk.injEq] at hyx
    omega

end

theorem remoteFillPrefixPlans_agree (hdb : db.Follows c) {directGroups : List Nat}
    {prefixEnd : Nat} (hvalid : directGroups = [0] ∨ directGroups = [0, 1])
    (h : remoteFillPrefixPlans db directGroups tokens prefixEnd = .ok plans) :
    PlansAgree c.chunkSize directGroups plans := by
  have hlatent := chunks_contiguous (c := c) 0 (tokens.take prefixEnd).length 0 c.noneHash
    (tokens.take prefixEnd)
  rw [← hdb.process] at hlatent
  unfold remoteFillPrefixPlans at h
  simp only at h
  rcases hvalid with rfl | rfl
  · cases h
    refine ⟨_, hlatent, fun g hg => ?_⟩
    rw [mem_singleton.1 hg, get?_set_self, getD_some]
  rw [if_neg (by simp)] at h
  split at h
  · cases h
  · next hid =>
    cases h
    refine ⟨_, hlatent, fun g hg => ?_⟩
    rcases mem_cons.1 hg with rfl | hg
    · rw [get?_set_ne (by decide), get?_set_self, getD_some]
    · rw [mem_singleton.1 hg, get?_set_self, getD_some]
      exact not_not.1 hid

end

end DirectStore
