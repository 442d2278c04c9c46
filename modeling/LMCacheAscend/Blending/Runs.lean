import LMCacheAscend.Blending.Shifts

/-!
# Blends one after the other

A blend from clean metadata is aligned and leaves clean metadata just when it is `Sound`: it ends
before any metadata is set, or the caller resumes it to its end, no call raises, and its checks go
well (`blendAligned_iff`).  A sequence of blends is aligned just when all of them are
(`runAligned_iff`).
-/

namespace Blending

open Lib List Option

/-! ## Conditions -/

section

variable (config : Config) (b : Blend)

/-- With no token at all, only the first layer looks at its queries. -/
def Blend.Computes (layer : Nat) : Prop := layer = 0 ∨ b.tokens ≠ []

/-- A call of the layer raises. -/
def Blend.LayerRaises (layer : Nat) : Prop :=
  b.Computes layer ∧ ∃ stage, b.layerRaises layer = some stage ∧
    (stage = .attention → b.tokens ≠ [])

/-- The layer is reached, and checks. -/
def Blend.CheckedAt (layer : Nat) : Prop :=
  b.Computes layer ∧ config.Checks layer

/-- The blend ends before the metadata is set. -/
def Blend.EndsEarly : Prop :=
  config.numLayers = 0 ∨ b.nexts ≤ 1 ∨ b.retrieverRaises 0 = true ∨ b.retrieverRaises 1 = true ∨
    b.layerRaises 0 = some .projection ∨ b.layerRaises 0 = some .getKv

/-- The caller resumes the blend to its end, and no call raises. -/
def Blend.Completes : Prop :=
  config.numLayers + 2 ≤ b.nexts ∧ (∀ i < config.numLayers + 2, b.retrieverRaises i = false) ∧
    ∀ layer < config.numLayers, ¬ b.LayerRaises layer

/-- No layer checks; or the mask leaves no token out, there are as many tokens as are to be
selected, and one layer checks or all tokens are selected. -/
def Blend.GoodChecks : Prop :=
  (∀ layer < config.numLayers, ¬ b.CheckedAt config layer) ∨
    b.numFalses = 0 ∧ config.topkNum b.tokens.length ≤ b.tokens.length ∧
      ((∀ layer < config.numLayers, ∀ other < config.numLayers, b.CheckedAt config layer →
        b.CheckedAt config other → layer = other) ∨
          config.topkNum b.tokens.length = b.tokens.length)

def Blend.Sound : Prop := b.EndsEarly config ∨ b.Completes config ∧ b.GoodChecks config

end

section

variable {T : Ops} {config : Config} {b : Blend} {cached : Cached T b}

theorem selected_iff (layer : Nat) : (tokensAt config b cached layer).selected = true ↔
    ∃ earlier < layer, config.Checks earlier := by
  induction layer with
  | zero =>
    refine iff_of_false nofun ?_
    rintro ⟨earlier, hlt, -⟩
    exact Nat.not_lt_zero _ hlt
  | succ layer ih =>
    show ((tokensAt config b cached layer).select config b layer).selected = true ↔ _
    unfold Tokens.select
    split
    · next hcheck =>
      exact iff_of_true rfl ⟨layer, Nat.lt_succ_self layer, hcheck⟩
    next hcheck =>
    rw [ih]
    constructor
    · rintro ⟨earlier, hlt, hearlier⟩
      exact ⟨earlier, Nat.lt_succ_of_lt hlt, hearlier⟩
    · rintro ⟨earlier, hlt, hearlier⟩
      rcases Nat.lt_succ_iff_lt_or_eq.1 hlt with hlt | rfl
      · exact ⟨earlier, hlt, hearlier⟩
      · exact absurd hearlier hcheck

/-- The variables before the first layer. -/
def start (T : Ops) (b : Blend) : Local T :=
  { hidden := b.tokens.map T.embed
    residual := none
    attnOutput := none
    noMoreQueries := false }

theorem holds_start : Holds config b cached 0 (start T b) ⟨.clean, []⟩ := by
  refine ⟨⟨fun _ => rfl, nofun⟩, rfl, ?_, rfl, nofun, rfl, rfl, rfl⟩
  show b.tokens.map T.embed = (range b.tokens.length).map fun t => T.embed (b.tokens.getD t 0)
  refine ext_getElem? fun i => ?_
  rw [getElem?_map, getElem?_map]
  by_cases hi : i < b.tokens.length
  · rw [getElem?_range hi, map_some, getD_eq_getElem?_getD,
      getElem?_eq_getElem hi]
    rfl
  · rw [getElem?_eq_none (by omega), getElem?_eq_none (by rw [length_range]; omega)]
    rfl

/-! ## Good blends -/

/-- The layers from `layer` on go well. -/
def GoodFrom (config : Config) (b : Blend) (cached : Cached T b) (layer : Nat) : Prop :=
  ∀ l, layer ≤ l → l < config.numLayers → b.layerRaises l = none ∧
    (config.Checks l → GoodCheck config b (tokensAt config b cached l).selected)

variable {Q : Except String (Local T) → State T → Prop} {s : State T} {st : Local T} {layer n : Nat}

theorem wp_blendNext_layer {layer : Nat} (hlt : layer < config.numLayers)
    (hretriever : b.retrieverRaises (layer + 1) = false) :
    wp (blendNext config b cached (layer + 1) st) Q s ↔
      wp (computeLayer config b cached layer st) Q s := by
  unfold blendNext
  rw [hretriever, if_neg Bool.false_ne_true, if_neg (Nat.succ_ne_zero layer),
    if_pos (Nat.succ_le_of_lt hlt)]
  rfl

theorem wp_blendNext_last (hretriever : b.retrieverRaises (config.numLayers + 1) = false) :
    wp (blendNext config b cached (config.numLayers + 1) st) Q s ↔
      Q (.ok st) { s with metadata := .clean } := by
  unfold blendNext
  rw [hretriever, if_neg Bool.false_ne_true, if_neg (Nat.succ_ne_zero _), if_neg (by omega),
    wp_modify_bind, wp_pure]

theorem wp_blendNext_raises {i : Nat} (hretriever : b.retrieverRaises i = true) :
    wp (blendNext config b cached i st) Q s ↔ Q (.error "retrieve_layer") s := by
  unfold blendNext
  rw [hretriever, if_pos rfl, wp_throw]

theorem wp_blendFrom_succ {i n : Nat} :
    wp (blendFrom config b cached i (n + 1) st) Q s ↔
      wp (blendNext config b cached i st)
        (post (fun st s => wp (blendFrom config b cached (i + 1) n st) Q s)
          fun e => Q (.error e)) s :=
  wp_bind _ _ Q s

theorem Holds.finish (hn : layer + n = config.numLayers)
    (h : Holds config b cached layer st s) (htokens : b.tokens ≠ [])
    (hretriever : ∀ i < config.numLayers + 2, b.retrieverRaises i = false)
    (hgood : GoodFrom config b cached layer) :
    wp (blendFrom config b cached (layer + 1) (n + 1) st) (fun _ => Final config b cached) s := by
  induction n generalizing layer st s with
  | zero =>
    obtain rfl : layer = config.numLayers := hn
    rw [wp_blendFrom_succ, wp_blendNext_last (hretriever _ (by omega))]
    exact ⟨⟨_, h.log⟩, rfl⟩
  | succ n ih =>
    have hlt : layer < config.numLayers := by omega
    obtain ⟨hraises, hcheck⟩ := hgood layer (Nat.le_refl layer) hlt
    rw [wp_blendFrom_succ, wp_blendNext_layer hlt (hretriever _ (by omega))]
    refine wp_returns (h.computeLayer htokens hraises hcheck) fun st' s' hpost => ?_
    exact ih (by omega) hpost fun l hl => hgood l (by omega)

/-- There is nothing to compute. -/
def Idle (st : Local T) (s : State T) : Prop := st.noMoreQueries = true ∧ s.log = []

theorem Idle.finish (hn : layer + n = config.numLayers)
    (h : Idle st s) (hretriever : ∀ i < config.numLayers + 2, b.retrieverRaises i = false) :
    wp (blendFrom config b cached (layer + 1) (n + 1) st) (fun _ => Final config b cached) s := by
  induction n generalizing layer with
  | zero =>
    obtain rfl : layer = config.numLayers := hn
    rw [wp_blendFrom_succ, wp_blendNext_last (hretriever _ (by omega))]
    exact ⟨⟨0, h.2⟩, rfl⟩
  | succ n ih =>
    rw [wp_blendFrom_succ, wp_blendNext_layer (by omega) (hretriever _ (by omega))]
    unfold computeLayer
    rw [h.1, if_pos rfl, wp_pure]
    exact ih (by omega)

theorem wp_blendNext_zero (hretriever : b.retrieverRaises 0 = false) :
    wp (blendNext config b cached 0 st) Q s ↔ Q (.ok st) s := by
  unfold blendNext
  rw [hretriever, if_neg Bool.false_ne_true, if_pos rfl, wp_pure]

theorem final_start : Final config b cached ⟨.clean, []⟩ := ⟨⟨0, rfl⟩, rfl⟩

theorem wp_computeLayer_early (h : b.layerRaises 0 = some .projection ∨
    b.layerRaises 0 = some .getKv) :
    wp (computeLayer config b cached 0 (start T b)) (fun r s => (∃ e, r = .error e) ∧
      s = ⟨.clean, []⟩) ⟨.clean, []⟩ := by
  rcases h with h | h
  · unfold computeLayer start
    rw [if_neg Bool.false_ne_true, if_pos h, wp_throw]
    exact ⟨⟨_, rfl⟩, rfl⟩
  · rw [holds_start.wp_computeLayer (by rw [h]; nofun)]
    unfold Tokens.processQkv processQkv
    rw [if_pos h, wp_throw]
    exact ⟨⟨_, rfl⟩, rfl⟩

theorem aligned_of_endsEarly (h : b.EndsEarly config) : BlendAligned config b := by
  intro T cached
  show wp (blendFrom config b cached 0 _ (start T b)) _ _
  cases hn : min b.nexts (config.numLayers + 2) with
  | zero => exact final_start
  | succ n =>
    rw [wp_blendFrom_succ]
    cases hzero : b.retrieverRaises 0 with
    | true => exact (wp_blendNext_raises hzero).2 final_start
    | false =>
      rw [wp_blendNext_zero hzero]
      cases n with
      | zero => exact final_start
      | succ n =>
        rw [post_ok, wp_blendFrom_succ]
        cases hone : b.retrieverRaises 1 with
        | true => exact (wp_blendNext_raises hone).2 final_start
        | false =>
          by_cases hlayers : config.numLayers = 0
          · -- the second call is the last one
            obtain rfl : n = 0 := by omega
            have hlast : 0 + 1 = config.numLayers + 1 := by omega
            rw [hlast]
            exact (wp_blendNext_last (hlast ▸ hone)).2 final_start
          · rw [wp_blendNext_layer (Nat.pos_of_ne_zero hlayers) hone]
            have hraises : b.layerRaises 0 = some .projection ∨ b.layerRaises 0 = some .getKv := by
              rcases h with h | h | h | h | h
              · exact absurd h hlayers
              · omega
              · rw [hzero] at h
                cases h
              · rw [hone] at h
                cases h
              · exact h
            refine wp_mono (wp_computeLayer_early hraises) ?_
            rintro (e | st) s ⟨⟨e', he⟩, rfl⟩
            · exact final_start
            · cases he

theorem wp_computeLayer_idle (htokens : b.tokens = []) (hcheck : ¬ config.Checks 0)
    (hraises : b.layerRaises 0 = none ∨ b.layerRaises 0 = some .attention) :
    wp (computeLayer config b cached 0 (start T b)) (post (fun st s => Idle st s ∧
      s.metadata.positions = some []) fun _ _ => False) ⟨.clean, []⟩ := by
  have hstart : Holds config b cached 0 (start T b) ⟨.clean, []⟩ := holds_start
  have hno : ∀ stage, stage ≠ .attention → b.layerRaises 0 ≠ some stage := by
    rintro stage hne h
    rcases hraises with h' | h'
    · cases h'.symm.trans h
    · exact hne (some.inj (h.symm.trans h'))
  rw [hstart.wp_computeLayer (hno _ nofun)]
  refine wp_returns (processQkv_spec hstart.active ⟨hno _ nofun, hno _ nofun⟩
    (fun h => absurd h hcheck) hstart.attnOutput hstart.metadata) ?_
  rintro rows m hpost
  obtain ⟨buffer, -, rfl, hpositions, -⟩ := hpost
  have hactive : ((tokensAt config b cached 0).select config b 0).active = [] := by
    unfold Tokens.select
    rw [if_neg hcheck]
    show range b.tokens.length = []
    rw [htokens]
    rfl
  rw [hactive] at hpositions
  unfold attendLayer
  rw [post_ok, if_pos (by simp only [Tokens.blended, Tokens.rows, hactive, map_nil]), wp_pure]
  exact ⟨⟨rfl, rfl⟩, hpositions⟩

theorem goodFrom_of_sound (htokens : b.tokens ≠ []) (hcompletes : b.Completes config)
    (hchecks : b.GoodChecks config) : GoodFrom config b cached 0 := by
  have hcomputes : ∀ layer, b.Computes layer := fun _ => .inr htokens
  intro l _ hl
  refine ⟨?_, fun hcheck => ?_⟩
  · cases hstage : b.layerRaises l with
    | none => rfl
    | some stage =>
      exact absurd ⟨hcomputes l, stage, hstage, fun _ => htokens⟩ (hcompletes.2.2 l hl)
  · rcases hchecks with hnone | ⟨hfalses, hle, hone⟩
    · exact absurd ⟨hcomputes l, hcheck⟩ (hnone l hl)
    refine ⟨hfalses, hle, fun hselected => ?_⟩
    obtain ⟨earlier, hlt, hearlier⟩ := (selected_iff l).1 hselected
    rcases hone with hone | hall
    · have := hone earlier (by omega) l hl ⟨hcomputes earlier, hearlier⟩ ⟨hcomputes l, hcheck⟩
      omega
    · exact hall

theorem aligned_of_completes (hlayers : config.numLayers ≠ 0) (hcompletes : b.Completes config)
    (hchecks : b.GoodChecks config) : BlendAligned config b := by
  intro T cached
  obtain ⟨hnexts, hretriever, hraises⟩ := id hcompletes
  have hmin : min b.nexts (config.numLayers + 2) = config.numLayers + 1 + 1 := by omega
  show wp (blendFrom config b cached 0 _ (start T b)) _ _
  rw [hmin, wp_blendFrom_succ, wp_blendNext_zero (hretriever 0 (by omega)), post_ok]
  by_cases htokens : b.tokens = []
  · have hno : ∀ stage, stage ≠ .attention → b.layerRaises 0 ≠ some stage := fun stage hne h =>
      hraises 0 (Nat.pos_of_ne_zero hlayers) ⟨.inl rfl, stage, h, fun heq => absurd heq hne⟩
    have hstage : b.layerRaises 0 = none ∨ b.layerRaises 0 = some .attention := by
      cases hstage : b.layerRaises 0 with
      | none => exact .inl rfl
      | some stage =>
        by_cases hattention : stage = .attention
        · exact .inr (congrArg some hattention)
        · exact absurd hstage (hno stage hattention)
    have hcheck : ¬ config.Checks 0 := by
      intro hcheck
      rcases hchecks with hnone | ⟨-, hle, -⟩
      · exact hnone 0 (Nat.pos_of_ne_zero hlayers) ⟨.inl rfl, hcheck⟩
      rw [htokens] at hle
      have := config.topkNum_pos ([] : List Nat).length
      exact absurd hle (by simp only [length_nil] at this ⊢; omega)
    rw [wp_blendFrom_succ,
      wp_blendNext_layer (Nat.pos_of_ne_zero hlayers) (hretriever 1 (by omega))]
    refine wp_returns (wp_computeLayer_idle htokens hcheck hstage) fun st s hpost => ?_
    obtain ⟨n, hn⟩ : ∃ n, config.numLayers = n + 1 := ⟨config.numLayers - 1, by omega⟩
    rw [hn]
    exact hpost.1.finish (by omega) hretriever
  · exact holds_start.finish (Nat.zero_add _) htokens hretriever
      (goodFrom_of_sound htokens hcompletes hchecks)

/-! ## Other blends -/

theorem grows_blendNext (i : Nat) (st : Local T) :
    Preserves Grows (blendNext config b cached i st) := by
  unfold blendNext
  split
  next => exact Preserves.throw _
  next =>
    split
    next => exact Preserves.pure _
    next =>
      split
      next => exact grows_computeLayer _ st
      next =>
        refine Preserves.bind ?_ fun _ => Preserves.pure _
        exact Preserves.modify fun s => prefix_rfl

theorem grows_blendFrom (n i : Nat) (st : Local T) :
    Preserves Grows (blendFrom config b cached i n st) := by
  induction n generalizing i st with
  | zero => exact Preserves.pure _
  | succ n ih =>
    exact (grows_blendNext i st).bind fun st => ih (i + 1) st

theorem Spoilt.lasts {s s' : State T} (h : Spoilt config b cached s) (hgrows : Grows s s') :
    Spoilt config b cached s' := by
  obtain ⟨i, r, hr, hne⟩ := h
  obtain ⟨added, hadded⟩ := hgrows
  have hi := lt_of_getElem? hr
  refine ⟨i, r, ?_, hne⟩
  rw [← hadded, getElem?_append_left hi, hr]

theorem Spoilt.not_wp (h : Spoilt config b cached s) (i n : Nat) (st : Local T) :
    ¬ wp (blendFrom config b cached i n st) (fun _ => Final config b cached) s := fun hfinal =>
  (h.lasts (grows_blendFrom n i st s)).not_final hfinal

/-- A blend that ends as it is to has no layer that goes wrong. -/
theorem Holds.not_badLayer (h : Holds config b cached layer st s)
    (hearly : layer = 0 → b.layerRaises 0 ≠ some .projection ∧ b.layerRaises 0 ≠ some .getKv)
    (hfinal : wp (Blending.computeLayer config b cached layer st)
      (post (fun st s => wp (blendFrom config b cached (layer + 2) n st)
        (fun _ => Final config b cached) s) fun _ => Final config b cached) s) :
    ¬ BadLayer config b (tokensAt config b cached layer).selected layer := by
  intro hbad
  obtain ⟨r, s', hr, hr'⟩ := exists_of_wp (wp_and hfinal (h.badLayer hbad hearly))
  cases r with
  | error e => exact hr'.not_final hr
  | ok st' => exact hr'.not_wp _ _ _ hr

theorem not_badLayer_iff {selected : Bool} {layer : Nat} (htokens : b.tokens ≠ []) :
    ¬ BadLayer config b selected layer ↔ b.layerRaises layer = none ∧
      (config.Checks layer → GoodCheck config b selected) := by
  unfold BadLayer
  rw [not_or, not_and, not_not]
  refine and_congr_left' ⟨fun h => ?_, fun h => ?_⟩
  · cases hstage : b.layerRaises layer with
    | none => rfl
    | some stage => exact absurd ⟨stage, hstage, fun _ => htokens⟩ h
  · rintro ⟨stage, hstage, -⟩
    rw [h] at hstage
    cases hstage

theorem Holds.of_final
    (h : Holds config b cached layer st s) (htokens : b.tokens ≠ []) (hlayer : layer ≠ 0)
    (hle : layer ≤ config.numLayers) (hn : layer + n ≤ config.numLayers + 1)
    (hfinal : wp (blendFrom config b cached (layer + 1) n st) (fun _ => Final config b cached) s) :
    layer + n = config.numLayers + 1 ∧
      (∀ i, layer < i → i < config.numLayers + 2 → b.retrieverRaises i = false) ∧
        GoodFrom config b cached layer := by
  induction n generalizing layer st s with
  | zero => exact absurd hfinal (h.dirty hlayer).not_final
  | succ n ih =>
    rw [wp_blendFrom_succ] at hfinal
    cases hretriever : b.retrieverRaises (layer + 1) with
    | true => exact absurd ((wp_blendNext_raises hretriever).1 hfinal) (h.dirty hlayer).not_final
    | false =>
      rcases Nat.lt_or_eq_of_le hle with hlt | rfl
      · rw [wp_blendNext_layer hlt hretriever] at hfinal
        have hgood := (not_badLayer_iff htokens).1
          (h.not_badLayer (fun heq => absurd heq hlayer) hfinal)
        obtain ⟨r, s', hr, hr'⟩ := exists_of_wp
          (wp_and hfinal (h.computeLayer htokens hgood.1 hgood.2))
        cases r with
        | error e => exact hr'.elim
        | ok st' =>
          obtain ⟨hend, hraises, hfrom⟩ := ih hr' (Nat.succ_ne_zero layer) (by omega) (by omega) hr
          refine ⟨by omega, fun i hi hi' => ?_, fun l hl hl' => ?_⟩
          · rcases Nat.lt_or_eq_of_le (Nat.succ_le_of_lt hi) with hi | rfl
            · exact hraises i hi hi'
            · exact hretriever
          · rcases Nat.lt_or_eq_of_le hl with hl | rfl
            · exact hfrom l hl hl'
            · exact hgood
      · refine ⟨by omega, fun i hi hi' => ?_, fun l hl hl' => by omega⟩
        obtain rfl : i = config.numLayers + 1 := by omega
        exact hretriever

theorem Idle.of_final (h : Idle st s)
    (hdirty : Dirty s) (hn : layer + n ≤ config.numLayers + 1) (hle : layer ≤ config.numLayers)
    (hfinal : wp (blendFrom config b cached (layer + 1) n st) (fun _ => Final config b cached) s) :
    layer + n = config.numLayers + 1 ∧
      ∀ i, layer < i → i < config.numLayers + 2 → b.retrieverRaises i = false := by
  induction n generalizing layer with
  | zero => exact absurd hfinal hdirty.not_final
  | succ n ih =>
    rw [wp_blendFrom_succ] at hfinal
    cases hretriever : b.retrieverRaises (layer + 1) with
    | true => exact absurd ((wp_blendNext_raises hretriever).1 hfinal) hdirty.not_final
    | false =>
      rcases Nat.lt_or_eq_of_le hle with hlt | rfl
      · rw [wp_blendNext_layer hlt hretriever] at hfinal
        unfold computeLayer at hfinal
        rw [h.1, if_pos rfl, wp_pure] at hfinal
        obtain ⟨hend, hraises⟩ := ih (by omega) (by omega) hfinal
        refine ⟨by omega, fun i hi hi' => ?_⟩
        rcases Nat.lt_or_eq_of_le (Nat.succ_le_of_lt hi) with hi | rfl
        · exact hraises i hi hi'
        · exact hretriever
      · refine ⟨by omega, fun i hi hi' => ?_⟩
        obtain rfl : i = config.numLayers + 1 := by omega
        exact hretriever

theorem completes_of_goodFrom (hnexts : config.numLayers + 2 ≤ b.nexts)
    (hretriever : ∀ i < config.numLayers + 2, b.retrieverRaises i = false)
    (hgood : GoodFrom config b cached 0) : b.Completes config ∧ b.GoodChecks config := by
  refine ⟨⟨hnexts, hretriever, ?_⟩, ?_⟩
  · rintro layer hlt ⟨-, stage, hstage, -⟩
    rw [(hgood layer (Nat.zero_le layer) hlt).1] at hstage
    cases hstage
  · by_cases hnone : ∀ layer < config.numLayers, ¬ b.CheckedAt config layer
    · exact .inl hnone
    obtain ⟨layer, hlt, hchecked⟩ : ∃ layer < config.numLayers, b.CheckedAt config layer := by
      by_contra hnot
      exact hnone fun layer hlt hchecked => hnot ⟨layer, hlt, hchecked⟩
    obtain ⟨hfalses, hle, -⟩ := (hgood layer (Nat.zero_le layer) hlt).2 hchecked.2
    refine .inr ⟨hfalses, hle, or_iff_not_imp_right.2 fun hsome => ?_⟩
    -- two layers that check: the later one selects all tokens
    have hlater : ∀ l < config.numLayers, ∀ other < config.numLayers, b.CheckedAt config l →
        b.CheckedAt config other → ¬ l < other := by
      intro l _ other hother hl hchecked' hlt'
      have hselected : (tokensAt config b cached other).selected = true :=
        (selected_iff other).2 ⟨l, hlt', hl.2⟩
      exact hsome (((hgood other (Nat.zero_le other) hother).2 hchecked'.2).2.2 hselected)
    intro l hl other hother hchecked₁ hchecked₂
    have h₁ := hlater l hl other hother hchecked₁ hchecked₂
    have h₂ := hlater other hother l hl hchecked₂ hchecked₁
    omega

/-- Rows without contents. -/
def Ops.units : Ops where
  H := Unit
  Q := Unit
  K := Unit
  V := Unit
  O := Unit
  embed _ := ()
  firstLayernorm _ _ := ()
  inputLayernorm _ _ _ := ((), ())
  qkvProj _ _ := ((), (), ())
  qkPostProcessing _ _ _ _ := ((), ())
  attention _ _ _ _ _ := ()
  oProj _ _ := ()
  postAttentionLayernorm _ _ _ := ((), ())
  mlp _ _ := ()
  empty _ := ()

def Cached.units (b : Blend) : Cached .units b where
  k _ := replicate (b.tokens.length - b.numFalses) ()
  v _ := replicate (b.tokens.length - b.numFalses) ()
  k_length _ := length_replicate
  v_length _ := length_replicate

/-- A blend with a bad check layer would not end aligned. -/
theorem sound_of_aligned (h : BlendAligned config b) : b.Sound config := by
  by_cases hearly : b.EndsEarly config
  · exact .inl hearly
  obtain ⟨hlayers, hnexts, hzero, hone, hprojection, hgetKv⟩ : config.numLayers ≠ 0 ∧
      2 ≤ b.nexts ∧ b.retrieverRaises 0 = false ∧ b.retrieverRaises 1 = false ∧
        b.layerRaises 0 ≠ some .projection ∧ b.layerRaises 0 ≠ some .getKv := by
    unfold Blend.EndsEarly at hearly
    simp only [not_or, Nat.not_le, Bool.not_eq_true] at hearly
    exact hearly
  right
  have hstart : Holds config b (.units b) 0 (start .units b) ⟨.clean, []⟩ := holds_start
  have hfinal : wp (blendFrom config b (.units b) 0 (min b.nexts (config.numLayers + 2))
    (start .units b)) (fun _ => Final config b (.units b)) ⟨.clean, []⟩ := h .units (.units b)
  obtain ⟨n, hn⟩ : ∃ n, min b.nexts (config.numLayers + 2) = n + 1 + 1 :=
    ⟨min b.nexts (config.numLayers + 2) - 2, by omega⟩
  rw [hn, wp_blendFrom_succ, wp_blendNext_zero hzero, post_ok, wp_blendFrom_succ,
    wp_blendNext_layer (Nat.pos_of_ne_zero hlayers) hone] at hfinal
  have hnot := hstart.not_badLayer (fun _ => ⟨hprojection, hgetKv⟩) hfinal
  have hrange : ∀ {i}, (∀ i, 1 < i → i < config.numLayers + 2 → b.retrieverRaises i = false) →
      i < config.numLayers + 2 → b.retrieverRaises i = false := by
    intro i hretriever hi
    rcases i with _ | _ | i
    · exact hzero
    · exact hone
    · exact hretriever _ (by omega) hi
  by_cases htokens : b.tokens = []
  · have hnoRaise : ¬ ∃ stage, b.layerRaises 0 = some stage ∧
        (stage = .attention → b.tokens ≠ []) := fun hex => hnot (.inl hex)
    have hraises : b.layerRaises 0 = none ∨ b.layerRaises 0 = some .attention := by
      cases hstage : b.layerRaises 0 with
      | none => exact .inl rfl
      | some stage =>
        by_cases hattention : stage = .attention
        · exact .inr (congrArg some hattention)
        · exact absurd ⟨stage, hstage, fun heq => absurd heq hattention⟩ hnoRaise
    have hcheck : ¬ config.Checks 0 := by
      intro hcheck
      refine hnot (.inr ⟨hcheck, fun hgood => ?_⟩)
      have hle := hgood.2.1
      have hpos := config.topkNum_pos b.tokens.length
      rw [htokens, length_nil] at hle hpos
      omega
    obtain ⟨r, s', hr, hr'⟩ := exists_of_wp
      (wp_and hfinal (wp_computeLayer_idle htokens hcheck hraises))
    cases r with
    | error e => exact hr'.elim
    | ok st' =>
      obtain ⟨hidle, hpositions⟩ := hr'
      have hdirty : Dirty s' := by
        show s'.metadata.positions ≠ none
        rw [hpositions]
        nofun
      obtain ⟨hend, hretriever⟩ := hidle.of_final hdirty (by omega) (Nat.pos_of_ne_zero hlayers) hr
      refine ⟨⟨by omega, fun i hi => hrange hretriever hi, ?_⟩, .inl ?_⟩
      · rintro layer - ⟨rfl | hne, hraise⟩
        · exact hnoRaise hraise
        · exact hne htokens
      · rintro layer - ⟨rfl | hne, hchecks⟩
        · exact hcheck hchecks
        · exact hne htokens
  · have hgood := (not_badLayer_iff htokens).1 hnot
    obtain ⟨r, s', hr, hr'⟩ := exists_of_wp
      (wp_and hfinal (hstart.computeLayer htokens hgood.1 hgood.2))
    cases r with
    | error e => exact hr'.elim
    | ok st' =>
      obtain ⟨hend, hretriever, hfrom⟩ := hr'.of_final htokens Nat.one_ne_zero
        (Nat.pos_of_ne_zero hlayers) (by omega) hr
      have hall : GoodFrom config b (.units b) 0 := by
        intro l _ hl
        rcases Nat.eq_zero_or_pos l with rfl | hpos
        · exact hgood
        · exact hfrom l hpos hl
      exact completes_of_goodFrom (by omega) (fun i hi => hrange hretriever hi) hall

/-- A blend from clean metadata keeps its rows aligned and ends clean just when it is sound. -/
theorem blendAligned_iff : BlendAligned config b ↔ b.Sound config := by
  refine ⟨sound_of_aligned, ?_⟩
  rintro (hearly | ⟨hcompletes, hchecks⟩)
  · exact aligned_of_endsEarly hearly
  by_cases hlayers : config.numLayers = 0
  · exact aligned_of_endsEarly (.inl hlayers)
  · exact aligned_of_completes hlayers hcompletes hchecks

end

/-- So does every blend of a sequence just when all of them are sound. -/
theorem runAligned_iff (config : Config) (blends : List Blend) :
    RunAligned config .clean blends ↔ ∀ b ∈ blends, b.Sound config := by
  induction blends with
  | nil => exact iff_of_true trivial nofun
  | cons b blends ih =>
    rw [forall_mem_cons, ← ih, ← blendAligned_iff]
    constructor
    · intro h
      refine ⟨fun T cached => wp_mono (h T cached) fun _ _ hend => hend.1, ?_⟩
      obtain ⟨r, s, hfinal, hrest⟩ := exists_of_wp (h .units (.units b))
      rwa [hfinal.2] at hrest
    · rintro ⟨hb, hrest⟩ T cached
      refine wp_mono (hb T cached) fun r s hfinal => ⟨hfinal, ?_⟩
      rw [hfinal.2]
      exact hrest

theorem sound_of_run {config : Config} {b : Blend} (h : RunAligned config .clean [b]) :
    b.Sound config :=
  sound_of_aligned fun T cached => wp_mono (h T cached) fun _ _ hend => hend.1

/-- Layers that all check and compute every second token. -/
def checking (layers : Nat) : Config where
  numLayers := layers
  checkLayers := range layers
  recomputes := true
  scaled n := n / 2

/-- Three tokens, of which the first ones are selected. -/
def threeTokens (mask : Option (List Bool)) (nexts : Nat) : Blend where
  tokens := [5, 6, 7]
  mask := mask
  topk _ k _ := range k
  topk_length _ _ _ _ := length_range
  topk_sorted _ _ _ _ := pairwise_lt_range
  topk_lt _ _ _ hle _ hi := Nat.lt_of_lt_of_le (mem_range.1 hi) hle
  retrieverRaises _ := false
  layerRaises _ := none
  nexts := nexts

theorem checkedAt_checking {layers layer : Nat} (h : layer < layers) (mask : Option (List Bool))
    (nexts : Nat) : (threeTokens mask nexts).CheckedAt (checking layers) layer :=
  ⟨.inr (cons_ne_nil _ _), mem_range.2 h, rfl⟩

/-- A mask that leaves out a token, a second layer that checks, and a blend that is not resumed
after its first layer. -/
theorem not_runAligned :
    ¬ RunAligned (checking 1) .clean [threeTokens (some [false, true, true]) 3] ∧
      ¬ RunAligned (checking 2) .clean [threeTokens none 4] ∧
        ¬ RunAligned (checking 1) .clean [threeTokens none 2] := by
  have hnotEarly : ∀ layers mask nexts, layers ≠ 0 → 1 < nexts →
      ¬ (threeTokens mask nexts).EndsEarly (checking layers) := by
    rintro layers mask nexts hlayers hnexts (h | h | h | h | h | h)
    · exact hlayers h
    · exact Nat.not_lt.2 h hnexts
    all_goals cases h
  refine ⟨fun h => ?_, fun h => ?_, fun h => ?_⟩
  all_goals
    rcases sound_of_run h with hearly | ⟨hcompletes, hchecks⟩
    · exact hnotEarly _ _ _ (by decide) (by decide) hearly
  · rcases hchecks with hnone | ⟨hfalses, -⟩
    · exact hnone 0 (by decide) (checkedAt_checking (by decide) _ _)
    · exact absurd hfalses (by decide)
  · rcases hchecks with hnone | ⟨-, -, hone | hall⟩
    · exact hnone 0 (by decide) (checkedAt_checking (by decide) _ _)
    · exact absurd (hone 0 (by decide) 1 (by decide) (checkedAt_checking (by decide) _ _)
        (checkedAt_checking (by decide) _ _)) (by decide)
    · exact absurd hall (by decide)
  · exact absurd hcompletes.1 (by decide)

end Blending
