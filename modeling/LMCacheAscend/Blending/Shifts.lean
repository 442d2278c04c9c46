import LMCacheAscend.Blending.Layers

/-!
# Layers that go wrong

A layer that raises leaves metadata.  A check that goes wrong raises too, or picks rows by indices
that count from the first cached token, and then the layer works on the rows of other tokens than
those that it is to compute (`Holds.badLayer`).
-/

namespace Blending

open Lib List

section

variable {T : Ops} {config : Config} {b : Blend} {cached : Cached T b}

/-- Metadata is left. -/
def Dirty (s : State T) : Prop := s.metadata.positions ≠ none

/-- A layer that has been computed held the rows of other tokens. -/
def Spoilt (config : Config) (b : Blend) (cached : Cached T b) (s : State T) : Prop :=
  ∃ i r, s.log[i]? = some r ∧ r.positions ≠ (expected config b cached i).positions

variable {s : State T} {layer : Nat}

theorem Dirty.not_final (h : Dirty s) : ¬ Final config b cached s := by
  rintro ⟨-, hclean⟩
  exact h (by rw [hclean]; rfl)

theorem Spoilt.not_final (h : Spoilt config b cached s) :
    ¬ Final config b cached s := by
  rintro ⟨⟨n, hlog⟩, -⟩
  obtain ⟨i, r, hr, hne⟩ := h
  rw [hlog, getElem?_map] at hr
  obtain ⟨j, hj, rfl⟩ := Option.map_eq_some_iff.1 hr
  obtain ⟨hi, rfl⟩ := List.getElem?_eq_some_iff.1 hj
  rw [getElem_range] at hne
  exact hne rfl

/-- The rows of other tokens, with the metadata that goes with them. -/
def Shifted (s : Tokens T) (layer : Nat) (config : Config) (b : Blend) (rows : Rows T)
    (m : Metadata) : Prop :=
  rows.q ≠ [] ∧ rows.attnOutput.length = rows.q.length ∧
    ∃ indices, m = ⟨some indices, some indices⟩ ∧ indices.length = rows.q.length ∧
      indices ≠ (s.select config b layer).active

theorem ne_shifted {l : List Nat} {n : Nat} (hl : l ≠ []) (hn : n ≠ 0) : l ≠ l.map (n + ·) := by
  cases l with
  | nil => exact absurd rfl hl
  | cons i l =>
    intro heq
    have hhead : i = n + i := (cons.inj heq).1
    omega

variable {m : Metadata} {st : Local T}

/-- Behind a bad check the rows and the metadata are of other tokens. -/
theorem pickRows_bad {s : Tokens T} (h : s.Active config b) (hcheck : config.Checks layer)
    (hbad : ¬ GoodCheck config b s.selected) {attnOutput : List T.O}
    (hattn : attnOutput.length = s.active.length) (hpositions : m.positions = some s.active) :
    wp (pickRows config b cached layer (s.rows layer attnOutput))
      (post (fun rows m' => Shifted s layer config b rows m' ∧ rows.k.length = rows.q.length ∧
        ∀ i ∈ m'.impIndices.getD [], i < (cached.k layer).length)
        fun _ m' => m'.positions ≠ none) m := by
  unfold pickRows
  have htotal : ((s.rows layer attnOutput).k.drop b.numFalses).length =
      s.active.length - b.numFalses := by
    simp only [Tokens.rows, length_drop, length_map]
  simp only [htotal]
  cases hs : s.selected with
  | true =>
    -- fewer rows are left than there are cached ones
    obtain ⟨⟨hfalses, hle, -⟩, other, hother⟩ := h.some hs
    have hlen : s.active.length - b.numFalses ≠ (cached.k layer).length := by
      rw [hother, b.topk_length other _ _ hle, cached.k_length, hfalses]
      intro heq
      exact hbad ⟨hfalses, hle, fun _ => by omega⟩
    rw [if_pos hlen, wp_throw]
    show m.positions ≠ none
    rw [hpositions]
    exact Option.some_ne_none _
  | false =>
    have hactive := h.all hs
    rw [hactive, length_range] at hattn ⊢
    rw [cached.k_length, if_neg (not_not.2 rfl)]
    by_cases hfew : b.tokens.length - b.numFalses <
        config.topkNum (b.tokens.length - b.numFalses)
    · rw [if_pos hfew, wp_throw]
      show m.positions ≠ none
      rw [hpositions]
      exact Option.some_ne_none _
    · rw [if_neg hfew]
      have hle := Nat.not_lt.1 hfew
      have hpos := config.topkNum_pos (b.tokens.length - b.numFalses)
      have hlt := b.topk_lt layer _ _ hle
      have hlen := b.topk_length layer _ _ hle
      have hfalses : b.numFalses ≠ 0 := by
        intro hfalses
        rw [hfalses, Nat.sub_zero] at hle
        exact hbad ⟨hfalses, hle, fun hsel => by rw [hs] at hsel; cases hsel⟩
      rw [wp_modify_bind, wp_pure, post_ok]
      set indices := b.topk layer (config.topkNum (b.tokens.length - b.numFalses))
        (b.tokens.length - b.numFalses) with hindices
      have hall : ∀ i ∈ indices, i < b.tokens.length := fun i hi => by
        have := hlt i hi
        omega
      have hq : gather indices (s.rows layer attnOutput).q =
          indices.map fun t => (s.qk layer t).1 := by
        simp only [Tokens.rows, hactive, gather_range hall]
      have hk : gather indices (s.rows layer attnOutput).k =
          indices.map fun t => (s.qk layer t).2 := by
        simp only [Tokens.rows, hactive, gather_range hall]
      have hid : gather indices (range b.tokens.length) = indices := by
        have hgather := gather_range hall id
        rwa [map_id, map_id] at hgather
      have hne : indices ≠ [] := ne_nil_of_length_pos (by omega)
      refine ⟨⟨?_, ?_, indices, ?_, ?_, ?_⟩, ?_, hlt⟩
      · rw [hq]
        exact fun hnil => hne (map_eq_nil_iff.1 hnil)
      · show (attnOutput.take _).length = _
        rw [hq, length_take, length_map, hlen, hattn]
        omega
      · rw [hpositions, Option.map_some, hactive, hid]
      · rw [hq, length_map]
      · rw [Tokens.select, if_pos hcheck]
        exact ne_shifted hne hfalses
      · rw [hq, hk, length_map, length_map]

theorem processQkv_bad {s : Tokens T} (h : s.Active config b)
    (hraises : b.layerRaises layer ≠ some .getKv)
    (hbad : b.layerRaises layer = some .rotary ∨ config.Checks layer ∧
      ¬ GoodCheck config b s.selected)
    {attnOutput : Option (List T.O)}
    (hattn : ∀ o, attnOutput = some o → o.length = s.active.length) (hm : s.Metadata m) :
    wp (s.processQkv config b cached layer attnOutput)
      (post (fun rows m' => Shifted s layer config b rows m') fun _ m' => m'.positions ≠ none)
      m := by
  obtain ⟨buffer, hlen, hwp⟩ := s.wp_processQkv config cached hraises hattn hm
  rw [hwp]
  by_cases hrotary : b.layerRaises layer = some .rotary
  · rw [if_pos hrotary, wp_throw]
    exact Option.some_ne_none _
  obtain ⟨hcheck, hnot⟩ := hbad.resolve_left hrotary
  rw [if_neg hrotary, wp_bind, if_pos hcheck]
  refine wp_cases (pickRows_bad h hcheck hnot hlen rfl) (fun _ _ h => h) fun rows m' hpost => ?_
  obtain ⟨⟨hq, ho, indices, rfl, hindices, hne⟩, hk, hlt⟩ := hpost
  have hfits : ¬ (indices.length ≠ rows.k.length ∨
      ∃ i ∈ indices, (cached.k layer).length ≤ i) := by
    rintro (hlen' | ⟨i, hi, hle⟩)
    · exact hlen' (hindices.trans hk.symm)
    · have := hlt i hi
      omega
  unfold blendRows
  rw [post_ok, wp_get_bind]
  simp only
  rw [if_neg hfits, wp_pure, post_ok]
  exact ⟨hq, ho, indices, rfl, hindices, hne⟩

theorem attendLayer_shifted {a : Tokens T} {rows : Rows T} (h : Shifted a layer config b rows m) :
    wp (attendLayer b layer st rows) (post (fun _ s' => ∃ r, s'.log = s.log ++ [r] ∧
      r.positions ≠ (a.select config b layer).active) fun _ s' => Dirty s')
      { s with metadata := m } := by
  obtain ⟨hq, ho, indices, rfl, hindices, hne⟩ := h
  unfold attendLayer
  rw [if_neg hq]
  split
  next =>
    rw [wp_throw]
    exact Option.some_ne_none indices
  next =>
    have hfits : ¬ (indices.length ≠ rows.q.length ∨ rows.attnOutput.length ≠ rows.q.length) := by
      rintro (hne' | hne')
      · exact hne' hindices
      · exact hne' ho
    obtain ⟨out, hout⟩ : ∃ out, forwardContiguous layer (some indices) rows = .ok out := by
      unfold forwardContiguous
      simp only [Option.getD_some]
      rw [if_neg hfits]
      exact ⟨_, rfl⟩
    simp only [wp_bind, wp_get, post_ok, wp_call, hout, wp_modify, wp_pure]
    exact ⟨_, rfl, hne⟩

/-- What goes wrong at a layer. -/
def BadLayer (config : Config) (b : Blend) (selected : Bool) (layer : Nat) : Prop :=
  (∃ stage, b.layerRaises layer = some stage ∧ (stage = .attention → b.tokens ≠ [])) ∨
    config.Checks layer ∧ ¬ GoodCheck config b selected

theorem Holds.dirty (h : Holds config b cached layer st s) (hlayer : layer ≠ 0) : Dirty s := by
  show s.metadata.positions ≠ none
  rw [h.positions, if_neg hlayer]
  nofun

/-- A layer that goes wrong raises, with metadata left, or works on the rows of other tokens. -/
theorem Holds.badLayer (h : Holds config b cached layer st s)
    (hbad : BadLayer config b (tokensAt config b cached layer).selected layer)
    (hearly : layer = 0 → b.layerRaises 0 ≠ some .projection ∧ b.layerRaises 0 ≠ some .getKv) :
    wp (Blending.computeLayer config b cached layer st)
      (post (fun _ => Spoilt config b cached) fun _ => Dirty) s := by
  by_cases hprojection : b.layerRaises layer = some .projection
  · have hlayer : layer ≠ 0 := by
      rintro rfl
      exact (hearly rfl).1 hprojection
    unfold Blending.computeLayer
    rw [h.queries, if_neg Bool.false_ne_true, if_pos hprojection, wp_throw]
    exact h.dirty hlayer
  rw [h.wp_computeLayer hprojection]
  by_cases hgetKv : b.layerRaises layer = some .getKv
  · have hlayer : layer ≠ 0 := by
      rintro rfl
      exact (hearly rfl).2 hgetKv
    unfold Tokens.processQkv processQkv
    rw [if_pos hgetKv, wp_throw]
    exact h.dirty hlayer
  by_cases hqkv : b.layerRaises layer = some .rotary ∨ config.Checks layer ∧
      ¬ GoodCheck config b (tokensAt config b cached layer).selected
  · refine wp_ok (processQkv_bad h.active hgetKv hqkv h.attnOutput h.metadata)
      fun rows m hpost => ?_
    refine wp_ok (attendLayer_shifted hpost) fun st' s' hpost' => ?_
    obtain ⟨r, hlog, hne⟩ := hpost'
    refine ⟨layer, r, ?_, hne⟩
    rw [hlog, h.log]
    simp
  · -- what is left is an attention that raises
    have hrotary : b.layerRaises layer ≠ some .rotary := fun hr => hqkv (.inl hr)
    have hgood : config.Checks layer →
        GoodCheck config b (tokensAt config b cached layer).selected := by
      intro hcheck
      by_contra hnot
      exact hqkv (.inr ⟨hcheck, hnot⟩)
    obtain ⟨hattention, htokens⟩ : b.layerRaises layer = some .attention ∧ b.tokens ≠ [] := by
      rcases hbad with ⟨stage, hstage, htokens⟩ | ⟨hcheck, hnot⟩
      · cases stage with
        | projection => exact absurd hstage hprojection
        | getKv => exact absurd hstage hgetKv
        | rotary => exact absurd hstage hrotary
        | attention => exact ⟨hstage, htokens rfl⟩
      · exact absurd (hgood hcheck) hnot
    refine wp_returns (processQkv_spec h.active ⟨hgetKv, hrotary⟩ hgood h.attnOutput h.metadata)
      fun rows m hpost => ?_
    obtain ⟨buffer, -, rfl, hpositions, -⟩ := hpost
    have hq : (((tokensAt config b cached layer).select config b layer).blended b cached layer
        buffer).q ≠ [] := by
      intro hnil
      exact (h.active.select hgood).ne_nil htokens (map_eq_nil_iff.1 hnil)
    unfold attendLayer
    rw [post_ok, if_neg hq, if_pos hattention, wp_throw]
    show m.positions ≠ none
    rw [hpositions]
    nofun

/-! ## The log -/

/-- Records are only added. -/
def Grows (s s' : State T) : Prop := s.log <+: s'.log

instance : IsPreorder (State T) Grows where
  refl _ := prefix_rfl
  trans _ _ _ h h' := h.trans h'

theorem grows_attendLayer (layer : Nat) (st : Local T) (rows : Rows T) :
    Preserves Grows (attendLayer b layer st rows) := by
  unfold attendLayer
  split
  next => exact Preserves.pure _
  next =>
    split
    next => exact Preserves.throw _
    next =>
      refine Preserves.get.bind fun s => ?_
      refine (Preserves.call _).bind fun out => ?_
      refine Preserves.bind ?_ fun _ => Preserves.pure _
      exact Preserves.modify fun s => prefix_append _ _

theorem grows_computeLayer (layer : Nat) (st : Local T) :
    Preserves Grows (computeLayer config b cached layer st) := by
  unfold computeLayer
  split
  next => exact Preserves.pure _
  next =>
    split
    next => exact Preserves.throw _
    next =>
      refine Preserves.bind (fun s => ?_) fun rows => grows_attendLayer layer st rows
      rw [wp_zoom]
      exact wp_of_forall fun _ _ => prefix_rfl

end

end Blending
