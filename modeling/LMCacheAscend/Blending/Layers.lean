import LMCacheAscend.Blending.Tokens
import Mathlib.Data.List.Perm.Subperm

/-!
# One layer of a blend

`Holds` says that the variables between two layers are those of the tokens.  A layer keeps it
(`Holds.computeLayer`) if no call raises and, where the layer checks, the mask leaves no token out,
there are as many tokens as are to be selected, and a second check selects all of them.
-/

namespace Blending

open Lib List

/-! ## Rows -/

theorem gather_range {α : Type} {indices : List Nat} {n : Nat} (h : ∀ i ∈ indices, i < n)
    (f : Nat → α) : gather indices ((range n).map f) = indices.map f := by
  unfold gather
  induction indices with
  | nil => rfl
  | cons i indices ih =>
    obtain ⟨hi, hrest⟩ := forall_mem_cons.1 h
    have hat : ((range n).map f)[i]? = some (f i) := by
      rw [getElem?_map, getElem?_range hi, Option.map_some]
    rw [filterMap_cons_some hat, ih hrest, map_cons]

theorem setRows_map {α : Type} (t : List α) (indices : List Nat) (f : Nat → α) :
    setRows t indices (indices.map f) = t.mapIdx fun i old => if i ∈ indices then f i else old := by
  unfold setRows
  induction indices generalizing t with
  | nil =>
    refine ext_getElem? fun i => ?_
    show t[i]? = _
    rw [getElem?_mapIdx]
    generalize t[i]? = old
    cases old <;> simp
  | cons j indices ih =>
    rw [map_cons, zip_cons_cons, foldl_cons, ih]
    refine ext_getElem? fun i => ?_
    rw [getElem?_mapIdx, getElem?_mapIdx, getElem?_set]
    by_cases hij : j = i
    · subst hij
      by_cases hlt : j < t.length
      · rw [if_pos rfl, if_pos hlt, getElem?_eq_getElem hlt]
        simp
      · rw [if_pos rfl, if_neg hlt, getElem?_eq_none (by omega)]
        rfl
    · rw [if_neg hij]
      have hmem : i ∈ j :: indices ↔ i ∈ indices := by
        rw [mem_cons, or_iff_right (Ne.symm hij)]
      simp only [hmem]

theorem eq_range_of_sorted {l : List Nat} {n : Nat} (hsorted : l.Pairwise (· < ·))
    (hlt : ∀ i ∈ l, i < n) (hlen : l.length = n) : l = range n := by
  have hnodup : l.Nodup := hsorted.imp fun h => Nat.ne_of_lt h
  have hsub : l ⊆ range n := fun i hi => mem_range.2 (hlt i hi)
  have hperm := (subperm_of_subset hnodup hsub).perm_of_length_le
    (by rw [length_range]; omega)
  exact hperm.eq_of_pairwise (fun a b _ _ hab hba => absurd hba (Nat.lt_asymm hab)) hsorted
    pairwise_lt_range

theorem zipWith_map_same {α β γ δ : Type} (l : List α) (f : β → γ → δ) (g : α → β) (h : α → γ) :
    zipWith f (l.map g) (l.map h) = l.map fun a => f (g a) (h a) := by
  rw [zipWith_map, zipWith_self]

section

variable {T : Ops} {config : Config} {b : Blend} {cached : Cached T b}

/-! ## The conditions of a layer -/

/-- A check goes well; after an earlier one it has to select all tokens. -/
def GoodCheck (config : Config) (b : Blend) (selected : Bool) : Prop :=
  b.numFalses = 0 ∧ config.topkNum b.tokens.length ≤ b.tokens.length ∧
    (selected = true → config.topkNum b.tokens.length = b.tokens.length)

theorem Config.topkNum_pos (config : Config) (n : Nat) : 1 ≤ config.topkNum n :=
  Nat.le_max_right _ _

/-- The tokens that are computed. -/
structure Tokens.Active (config : Config) (b : Blend) (s : Tokens T) : Prop where
  all : s.selected = false → s.active = range b.tokens.length
  some : s.selected = true → GoodCheck config b false ∧
    ∃ layer, s.active = b.topk layer (config.topkNum b.tokens.length) b.tokens.length

variable {s : Tokens T} {layer : Nat} {attnOutput : List T.O} {st : Local T}

theorem Tokens.Active.lt (h : s.Active config b) :
    ∀ t ∈ s.active, t < b.tokens.length := by
  cases hs : s.selected with
  | false =>
    rw [h.all hs]
    exact fun t => mem_range.1
  | true =>
    obtain ⟨hgood, layer, heq⟩ := h.some hs
    rw [heq]
    exact b.topk_lt layer _ _ hgood.2.1

theorem Tokens.Active.eq_range (h : s.Active config b)
    (hgood : GoodCheck config b s.selected) : s.active = range b.tokens.length := by
  cases hs : s.selected with
  | false => exact h.all hs
  | true =>
    obtain ⟨-, layer, heq⟩ := h.some hs
    have hlen := b.topk_length layer _ _ hgood.2.1
    rw [heq]
    exact eq_range_of_sorted (b.topk_sorted layer _ _ hgood.2.1) (b.topk_lt layer _ _ hgood.2.1)
      (hlen.trans (hgood.2.2 hs))

theorem Tokens.Active.ne_nil (h : s.Active config b) (htokens : b.tokens ≠ []) :
    s.active ≠ [] := by
  have hpos := length_pos_of_ne_nil htokens
  have hlen : 0 < s.active.length := by
    cases hs : s.selected with
    | false => rwa [h.all hs, length_range]
    | true =>
      obtain ⟨hgood, layer, heq⟩ := h.some hs
      rw [heq, b.topk_length layer _ _ hgood.2.1]
      exact config.topkNum_pos _
  exact ne_nil_of_length_pos hlen

theorem Tokens.Active.select (h : s.Active config b)
    (hgood : config.Checks layer → GoodCheck config b s.selected) :
    (s.select config b layer).Active config b := by
  unfold Tokens.select
  split
  next hcheck =>
    obtain ⟨hfalses, hle, -⟩ := hgood hcheck
    refine ⟨nofun, fun _ => ⟨⟨hfalses, hle, nofun⟩, layer, ?_⟩⟩
    simp only [hfalses, Nat.sub_zero, Nat.zero_add, map_id']
  next => exact h

theorem Tokens.Active.next (h : s.Active config b) :
    (s.next b cached layer).Active config b :=
  ⟨h.all, h.some⟩

/-! ## `process_qkv` -/

/-- The metadata of the tokens. -/
def Tokens.Metadata (s : Tokens T) (m : Blending.Metadata) : Prop :=
  m.positions.getD (range s.active.length) = s.active ∧
    m.impIndices = if s.selected then some s.active else none

/-- The rows of the tokens, before they are put among the cached ones. -/
def Tokens.rows (s : Tokens T) (layer : Nat) (attnOutput : List T.O) : Rows T :=
  { q := s.active.map fun t => (s.qk layer t).1
    k := s.active.map fun t => (s.qk layer t).2
    v := s.active.map (s.value layer)
    residual := s.active.map fun t => (s.normed layer t).2
    attnOutput := attnOutput }

theorem pickRows_spec (h : s.Active config b)
    (hcheck : config.Checks layer) (hgood : GoodCheck config b s.selected)
    (hattn : attnOutput.length = s.active.length) {m : Metadata}
    (hpositions : m.positions = some s.active) :
    wp (pickRows config b cached layer (s.rows layer attnOutput))
      (post (fun rows m' => ∃ attnOutput,
        attnOutput.length = (s.select config b layer).active.length ∧
        rows = (s.select config b layer).rows layer attnOutput ∧
        m' = ⟨some (s.select config b layer).active, some (s.select config b layer).active⟩)
        fun _ _ => False) m := by
  have hactive := h.eq_range hgood
  obtain ⟨hfalses, hle, -⟩ := hgood
  have hlt := b.topk_lt layer _ _ hle
  have hselect : s.select config b layer = { s with
      active := b.topk layer (config.topkNum b.tokens.length) b.tokens.length
      selected := true } := by
    unfold Tokens.select
    rw [if_pos hcheck]
    simp only [hfalses, Nat.sub_zero, Nat.zero_add, map_id']
  have htotal : ((s.rows layer attnOutput).k.drop b.numFalses).length = b.tokens.length := by
    simp only [Tokens.rows, hfalses, drop_zero, length_map, hactive, length_range]
  have hcached : (cached.k layer).length = b.tokens.length := by
    rw [cached.k_length, hfalses, Nat.sub_zero]
  rw [hactive, length_range] at hattn
  unfold pickRows
  simp only [htotal, hcached]
  rw [if_neg (not_not.2 rfl), if_neg (Nat.not_lt.2 hle), wp_modify_bind, wp_pure,
    post_ok, hselect]
  refine ⟨attnOutput.take (config.topkNum b.tokens.length), ?_, ?_, ?_⟩
  · rw [length_take, hattn, b.topk_length layer _ _ hle]
    omega
  · simp only [Tokens.rows, hactive, gather_range hlt]
    rfl
  · have hid := gather_range hlt id
    rw [map_id, map_id] at hid
    rw [hpositions, Option.map_some, hactive, hid]

/-- The rows of the tokens among the cached ones. -/
def Tokens.blended (s : Tokens T) (b : Blend) (cached : Cached T b) (layer : Nat)
    (attnOutput : List T.O) : Rows T :=
  { s.rows layer attnOutput with
    k := s.keys b cached layer
    v := s.values b cached layer }

theorem blendRows_spec (h : s.Active config b)
    {m : Metadata} (himp : m.impIndices = if s.selected then some s.active else none) :
    wp (blendRows b cached layer (s.rows layer attnOutput))
      (post (fun rows m' => rows = s.blended b cached layer attnOutput ∧ m' = m)
        fun _ _ => False) m := by
  unfold blendRows
  rw [wp_get_bind, himp]
  cases hs : s.selected with
  | false =>
    refine ⟨?_, rfl⟩
    unfold Tokens.blended Tokens.keys Tokens.values
    rw [hs]
    simp only [Tokens.rows, h.all hs, Bool.false_eq_true, if_false]
  | true =>
    have hfalses := (h.some hs).1.1
    have hrows : ∀ i ∈ s.active, ¬ (cached.k layer).length ≤ i := by
      intro i hi
      have := h.lt i hi
      rw [cached.k_length, hfalses]
      omega
    have hlen : ¬ (s.active.length ≠ (s.rows layer attnOutput).k.length ∨
        ∃ i ∈ s.active, (cached.k layer).length ≤ i) := by
      rintro (hne | ⟨i, hi, hle⟩)
      · exact hne (by simp only [Tokens.rows, length_map])
      · exact hrows i hi hle
    simp only [if_true]
    rw [if_neg hlen]
    refine ⟨?_, rfl⟩
    unfold Tokens.blended Tokens.keys Tokens.values Tokens.among
    rw [hs]
    simp only [Tokens.rows, setRows_map, hfalses, Nat.zero_add, if_true]

/-- The call of `process_qkv` for the tokens. -/
def Tokens.processQkv (s : Tokens T) (config : Config) (b : Blend) (cached : Cached T b)
    (layer : Nat) (attnOutput : Option (List T.O)) : Prog String Blending.Metadata (Rows T) :=
  Blending.processQkv config b cached layer
    (s.active.map fun t => (T.qkvProj layer (s.normed layer t).1).1)
    (s.active.map fun t => (T.qkvProj layer (s.normed layer t).1).2.1)
    (s.active.map (s.value layer)) (s.active.map fun t => (s.normed layer t).2) attnOutput

variable (config cached) in
/-- The rows are rotated at the positions of their tokens before a layer checks. -/
theorem Tokens.wp_processQkv (s : Tokens T)
    (hraises : b.layerRaises layer ≠ some .getKv) {attnOutput : Option (List T.O)}
    (hattn : ∀ o, attnOutput = some o → o.length = s.active.length)
    {m : Blending.Metadata} (hm : s.Metadata m) :
    ∃ buffer : List T.O, buffer.length = s.active.length ∧
      ∀ Q, wp (s.processQkv config b cached layer attnOutput) Q m ↔
        wp (if b.layerRaises layer = some .rotary then throw "rotary_emb"
          else do
            let rows ← (if config.Checks layer then
              pickRows config b cached layer (s.rows layer buffer)
            else pure (s.rows layer buffer))
            blendRows b cached layer rows) Q { m with positions := some s.active } := by
  -- the buffer of the attention, for the first layer or from the layer before
  refine ⟨attnOutput.getD ((range s.active.length).map T.empty), ?_, fun Q => ?_⟩
  · cases attnOutput with
    | none => rw [Option.getD_none, length_map, length_range]
    | some o => exact hattn o rfl
  have hrotated : zipWith
      (fun p (r : T.Q × T.K) => T.qkPostProcessing layer p r.1 r.2) s.active
      ((s.active.map fun t => (T.qkvProj layer (s.normed layer t).1).1).zip
        (s.active.map fun t => (T.qkvProj layer (s.normed layer t).1).2.1)) =
      s.active.map (s.qk layer) := by
    rw [zip_map', zipWith_map_right, zipWith_self]
    rfl
  have hfits : (b.layerRaises layer = some .rotary ∨ s.active.length ≠ s.active.length) ↔
      b.layerRaises layer = some .rotary := or_iff_left (not_not.2 rfl)
  have hrows : ∀ buffer : List T.O,
      ({ q := (s.active.map (s.qk layer)).map Prod.fst
         k := (s.active.map (s.qk layer)).map Prod.snd
         v := s.active.map (s.value layer)
         residual := s.active.map fun t => (s.normed layer t).2
         attnOutput := buffer } : Rows T) = s.rows layer buffer := by
    intro buffer
    simp only [map_map]
    rfl
  unfold Tokens.processQkv Blending.processQkv
  rw [if_neg hraises]
  simp only [length_map, wp_bind, wp_get, wp_modify, post_ok, hm.1, hrotated, hfits, hrows]

theorem processQkv_spec (h : s.Active config b)
    (hraises : b.layerRaises layer ≠ some .getKv ∧ b.layerRaises layer ≠ some .rotary)
    (hgood : config.Checks layer → GoodCheck config b s.selected) {attnOutput : Option (List T.O)}
    (hattn : ∀ o, attnOutput = some o → o.length = s.active.length) {m : Metadata}
    (hm : s.Metadata m) :
    wp (s.processQkv config b cached layer attnOutput) (post (fun rows m' => ∃ attnOutput,
        attnOutput.length = (s.select config b layer).active.length ∧
        rows = (s.select config b layer).blended b cached layer attnOutput ∧
        m'.positions = some (s.select config b layer).active ∧
        m'.impIndices = if (s.select config b layer).selected then
          some (s.select config b layer).active else none)
        fun _ _ => False) m := by
  obtain ⟨buffer, hlen, hwp⟩ := s.wp_processQkv config cached hraises.1 hattn hm
  rw [hwp, if_neg hraises.2, wp_bind]
  by_cases hcheck : config.Checks layer
  · rw [if_pos hcheck]
    refine wp_cases (pickRows_spec h hcheck (hgood hcheck) hlen rfl) (fun _ _ h => h)
      fun rows m' hpost => ?_
    obtain ⟨buffer', hlen', rfl, rfl⟩ := hpost
    have hselected : (s.select config b layer).selected = true := by
      unfold Tokens.select
      rw [if_pos hcheck]
    rw [post_ok]
    refine wp_ok (blendRows_spec (h.select hgood) (by rw [hselected]; rfl)) fun rows m' hpost => ?_
    obtain ⟨rfl, rfl⟩ := hpost
    exact ⟨buffer', hlen', rfl, rfl, by rw [hselected]; rfl⟩
  · have hselect : s.select config b layer = s := if_neg hcheck
    rw [if_neg hcheck, wp_pure, post_ok, hselect]
    refine wp_ok (blendRows_spec h hm.2) fun rows m' hpost => ?_
    obtain ⟨rfl, rfl⟩ := hpost
    exact ⟨buffer, hlen, rfl, rfl, hm.2⟩

/-! ## `compute_layer` -/

theorem forwardContiguous_spec (h : s.Active config b) (hlen : attnOutput.length = s.active.length)
    {impIndices : Option (List Nat)}
    (himp : impIndices = if s.selected then some s.active else none) :
    forwardContiguous layer impIndices (s.blended b cached layer attnOutput) =
      .ok (s.active.map (s.mask b cached layer), s.active.map (s.attention b cached layer)) := by
  have hpositions : impIndices.getD
      (range (s.blended b cached layer attnOutput).q.length) = s.active := by
    rw [himp]
    cases hs : s.selected with
    | true => rfl
    | false =>
      simp only [Tokens.blended, Tokens.rows, length_map, Bool.false_eq_true, if_false,
        Option.getD_none, h.all hs, length_range]
  have hposition : ∀ key, s.keyPosition b key = key := by
    intro key
    unfold Tokens.keyPosition
    split
    next hs => rw [(h.some hs).1.1, Nat.zero_add]
    next => rfl
  have hmask : s.active.map (fun position => causalMask position (s.keys b cached layer).length) =
      s.active.map (s.mask b cached layer) := by
    refine map_congr_left fun t _ => ?_
    unfold causalMask Tokens.mask
    simp only [hposition]
  unfold forwardContiguous
  rw [hpositions]
  have hfits : ¬ (s.active.length ≠ (s.blended b cached layer attnOutput).q.length ∨
      (s.blended b cached layer attnOutput).attnOutput.length ≠
        (s.blended b cached layer attnOutput).q.length) := by
    simp only [Tokens.blended, Tokens.rows, length_map, hlen, ne_eq, not_true_eq_false,
      or_self, not_false_eq_true]
  simp only
  rw [if_neg hfits]
  simp only [Tokens.blended, Tokens.rows, hmask, zipWith_map_same]
  rfl

/-- The variables between two layers are those of the tokens. -/
structure Holds (config : Config) (b : Blend) (cached : Cached T b) (layer : Nat) (st : Local T)
    (s : State T) : Prop where
  active : (tokensAt config b cached layer).Active config b
  queries : st.noMoreQueries = false
  hidden : st.hidden = (tokensAt config b cached layer).active.map
    (tokensAt config b cached layer).hidden
  residual : st.residual = (tokensAt config b cached layer).residual.map
    (tokensAt config b cached layer).active.map
  attnOutput : ∀ o, st.attnOutput = some o →
    o.length = (tokensAt config b cached layer).active.length
  positions : s.metadata.positions =
    if layer = 0 then none else some (tokensAt config b cached layer).active
  impIndices : s.metadata.impIndices = if (tokensAt config b cached layer).selected then
    some (tokensAt config b cached layer).active else none
  log : s.log = (range layer).map (expected config b cached)

theorem Holds.metadata {s : State T} (h : Holds config b cached layer st s) :
    (tokensAt config b cached layer).Metadata s.metadata := by
  refine ⟨?_, h.impIndices⟩
  rw [h.positions]
  cases layer with
  | zero =>
    show range (range b.tokens.length).length = range b.tokens.length
    rw [length_range]
  | succ layer => rfl

theorem Holds.normed {s : State T}
    (h : Holds config b cached layer st s) : inputLayernorm layer st =
      (tokensAt config b cached layer).active.map
        ((tokensAt config b cached layer).normed layer) := by
  unfold inputLayernorm Tokens.normed
  rw [h.residual, h.hidden]
  cases (tokensAt config b cached layer).residual with
  | none => simp only [Option.map_none, map_map, Function.comp_def]
  | some residual => simp only [Option.map_some, zipWith_map_same]

theorem Holds.wp_computeLayer {s : State T}
    (h : Holds config b cached layer st s) (hraises : b.layerRaises layer ≠ some .projection)
    {Q : Except String (Local T) → State T → Prop} :
    wp (Blending.computeLayer config b cached layer st) Q s ↔
      wp ((tokensAt config b cached layer).processQkv config b cached layer st.attnOutput)
        (post (fun rows m => wp (attendLayer b layer st rows) Q { s with metadata := m })
          fun e m => Q (.error e) { s with metadata := m }) s.metadata := by
  unfold Blending.computeLayer
  rw [h.queries, if_neg Bool.false_ne_true, if_neg hraises]
  simp only [h.normed, map_map, wp_bind, wp_zoom]
  constructor <;> intro hwp <;> refine wp_mono hwp ?_ <;> rintro (e | rows) m hm <;> exact hm

theorem Holds.computeLayer {s : State T}
    (h : Holds config b cached layer st s) (htokens : b.tokens ≠ [])
    (hraises : b.layerRaises layer = none)
    (hgood : config.Checks layer → GoodCheck config b (tokensAt config b cached layer).selected) :
    wp (Blending.computeLayer config b cached layer st)
      (post (Holds config b cached (layer + 1)) fun _ _ => False) s := by
  have hno : ∀ stage, b.layerRaises layer ≠ some stage := by
    rw [hraises]
    nofun
  rw [h.wp_computeLayer (hno _)]
  have hmetadata := h.metadata
  obtain ⟨hactive, -, -, -, hattn, -, -, hlog⟩ := h
  have hnext : tokensAt config b cached (layer + 1) =
      ((tokensAt config b cached layer).select config b layer).next b cached layer := rfl
  have hexpected : expected config b cached layer =
      ((tokensAt config b cached layer).select config b layer).record b cached layer := rfl
  generalize tokensAt config b cached layer = a at *
  refine wp_returns (processQkv_spec hactive ⟨hno _, hno _⟩ hgood hattn hmetadata)
    fun rows m' hpost => ?_
  obtain ⟨buffer, hlen, rfl, hpositions, himp⟩ := hpost
  have hactive' := hactive.select hgood
  have hq : ((a.select config b layer).blended b cached layer buffer).q ≠ [] := by
    intro hnil
    exact hactive'.ne_nil htokens (map_eq_nil_iff.1 hnil)
  unfold attendLayer
  rw [post_ok, if_neg hq, if_neg (hno _)]
  simp only [wp_bind, wp_get, post_ok, wp_call, forwardContiguous_spec hactive' hlen himp,
    wp_modify, wp_pure]
  generalize a.select config b layer = c at *
  refine ⟨by rw [hnext]; exact hactive'.next, rfl, ?_, ?_, ?_, ?_, ?_, ?_⟩
  all_goals simp only [hnext]
  · simp only [Tokens.blended, Tokens.rows, zipWith_map_same, map_map]
    rfl
  · simp only [Tokens.blended, Tokens.rows, zipWith_map_same, map_map]
    rfl
  · rintro o ho
    cases ho
    exact length_map _
  · exact hpositions
  · exact himp
  · rw [hlog, range_succ, map_append, map_singleton, hexpected, hpositions]
    rfl

end

end Blending
