import LMCacheAscend.Connector.StoreRows

/-!
# All store paths copy the same tokens

A run of a store path copies layer after layer, each layer all its rows or none
(`batchedFromGpu_run`).  The rows are the wanted ones on every path but
one: an ordinary store with one kernel per chunk cuts its chunks out of the
mapping as if it began at token 0 (`store_paths_same_tokens_iff`).
-/

namespace SlotWindows

open Lib List

variable {K : DenseKernel} {c : Connector} {a : Args} {layer : Nat}

/-! ## The wanted rows -/

/-- Token `t` of chunk `j` comes from the slot of token `starts[j] + t`. -/
def wantedRows (m : List Int) (base : Int) (ranges : List ChunkRange) (layer : Nat) :
    List RowCopy :=
  ranges.zipIdx.flatMap fun x => (range x.1.size).map fun t =>
    ⟨x.2, t, layer, (m[(x.1.start + t - base).toNat]?).getD 0⟩

/-- The mapping of a layer and its base. -/
def layerMap (c : Connector) (a : Args) (layer : Nat) : List Int × Int :=
  match layerRequest c a layer with
  | none => (a.slots, a.base)
  | some request => (a.maps request.mapping, request.base)

/-- The result `r` of a store: each layer has all its rows or none, in the order of the layers; a
layer whose window does not cover the chunks has none, and if it is the first mapping no layer has;
a store that is admitted does not raise. -/
structure Stored (layers : Nat) (mapOf : Nat → List Int × Int) (ranges : List ChunkRange)
    (first : List Int × Int) (admitted : Prop) (rows : Nat → List RowCopy)
    (r : Except StoreError Unit × Transfer) : Prop where
  layers : ∃ n, n ≤ layers ∧ r.2.copies = (range n).flatMap rows ∧
    (∀ l < n, Covered (mapOf l).1 (mapOf l).2 ranges) ∧ (r.1 = .ok () → n = layers)
  window : ¬ Covered first.1 first.2 ranges → r.1 ≠ .ok () ∧ r.2.copies = []
  finishes : admitted → r.1 = .ok ()

/-- A mapping that a store takes: not before token 0, it covers the chunks, and its slots pass the
checks. -/
structure Accepts (c : Connector) (ranges : List ChunkRange) (m : List Int × Int) : Prop where
  base : 0 ≤ m.2
  covered : Covered m.1 m.2 ranges
  checked : c.check (windows m.1 m.2 ranges).flatten = .ok ()

/-- No check of `batched_from_gpu` refuses the call. -/
structure Admitted (c : Connector) (a : Args) : Prop where
  layout : c.denseDirect = true ∨ c.mlaDsa = false ∨ c.useGpu = true
  chunks : a.ranges ≠ []
  first : Accepts c a.ranges (a.slots, a.base)
  layers : ∀ l < c.layers, Accepts c a.ranges (layerMap c a l)
  bankPackets : ¬ (deferred c a = true ∧ c.indexerC8 = true)

/-- No check of `batched_from_gpu_group` does. -/
structure GroupAdmitted (c : Connector) (a : Args) : Prop where
  layout : c.denseDirect = true ∧ c.groupDisabled = false
  chunks : a.ranges ≠ []
  first : Accepts c a.ranges (a.slots, a.base)

/-- Both functions copy the same tokens. -/
structure SameTokens (K : DenseKernel) (c : Connector) (a : Args) : Prop where
  batched : Stored c.layers (layerMap c a) a.ranges (a.slots, a.base) (Admitted c a)
    (fun l => wantedRows (layerMap c a l).1 (layerMap c a l).2 a.ranges l)
    (batchedFromGpu K c a Transfer.init)
  group : Stored c.layers (fun _ => (a.slots, a.base)) a.ranges (a.slots, a.base)
    (GroupAdmitted c a) (wantedRows a.slots a.base a.ranges)
    (batchedFromGpuGroup K c a Transfer.init)

/-- An ordinary store with one kernel per chunk. -/
def perChunk (c : Connector) : Prop :=
  c.prefillNode = false ∧ c.packed = false ∧ c.useGpu = false

/-- The store copies, and the mapping has other slots at a chunk's tokens than in its window. -/
structure Misreads (c : Connector) (a : Args) : Prop where
  path : perChunk c
  layers : 0 < c.layers
  admitted : Admitted c a
  other : ∃ r ∈ a.ranges,
    slice a.slots r.start r.stop ≠ slice a.slots (r.start - a.base) (r.stop - a.base)

/-! ## Rows -/

theorem perChunkRows_windows {m : List Int} {base : Int} {ranges : List ChunkRange}
    (layer : Nat) (h : Covered m base ranges) :
    perChunkRows layer (windows m base ranges) = wantedRows m base ranges layer := by
  unfold perChunkRows wantedRows windows
  rw [zipIdx_map, flatMap_map]
  refine flatMap_congr fun x hx => ?_
  have hin := h x.1 (fst_eq_of_mem_zipIdx hx ▸ getElem_mem _)
  obtain ⟨h0, h1⟩ := inside_iff.1 hin
  have hlen := length_window hin
  have hr := x.1.nonempty
  change rowsOfChunk layer x.2 (slice m (x.1.start - base) (x.1.stop - base)) = _
  unfold rowsOfChunk
  apply ext_getElem?
  intro t
  rw [getElem?_map, getElem?_map, getElem?_zipIdx, Nat.zero_add]
  by_cases ht : t < x.1.size
  · have hlt : (x.1.start + t - base).toNat < m.length := by unfold ChunkRange.size at ht; omega
    have hpos : (x.1.start - base + t).toNat = (x.1.start + t - base).toNat := by omega
    rw [getElem?_slice h0 (by unfold ChunkRange.size at ht; omega), hpos, getElem?_range ht]
    simp only [getElem?_eq_getElem hlt, Option.map_some, Option.getD_some]
  · rw [getElem?_eq_none (by omega), getElem?_eq_none (by rw [length_range]; omega)]
    rfl

variable {chunks : List (List Int)}

theorem perChunkRows_nil (h : chunks.flatten.length = 0) : perChunkRows layer chunks = [] := by
  unfold perChunkRows
  refine flatMap_eq_nil_iff.2 fun x hx => ?_
  have hmem : x.1 ∈ chunks := fst_eq_of_mem_zipIdx hx ▸ getElem_mem _
  have hnil : x.1 = [] :=
    flatten_eq_nil_iff.1 (eq_nil_of_length_eq_zero h) x.1 hmem
  rw [hnil]
  rfl

instance : Decidable (perChunk c) := by unfold perChunk; infer_instance

/-- The rows that a layer gets. -/
def copiedRows (c : Connector) (a : Args) (layer : Nat) : List RowCopy :=
  if perChunk c then perChunkRows layer (a.ranges.map fun r => slice a.slots r.start r.stop)
  else wantedRows (layerMap c a layer).1 (layerMap c a layer).2 a.ranges layer

theorem copiedRows_of_not (h : ¬ perChunk c) :
    copiedRows c a layer =
      wantedRows (layerMap c a layer).1 (layerMap c a layer).2 a.ranges layer :=
  if_neg h

/-! ## Mappings -/

/-- The chunks of a mapping that covers them, and all their slots. -/
def mapped (m : List Int) (base : Int) (ranges : List ChunkRange) : Mapped :=
  (windows m base ranges, (windows m base ranges).flatten)

/-- What is in the cache was cut out of the mapping that it is kept for. -/
def CacheOk (a : Args) (s : Transfer) : Prop :=
  ∀ key x, s.slotMappings.get? key = some x →
    Covered (a.maps key.1) key.2 a.ranges ∧ x = mapped (a.maps key.1) key.2 a.ranges

theorem cacheOk_init : CacheOk a Transfer.init := fun _ _ h => by cases h

variable {s : Transfer}

theorem CacheOk.set (h : CacheOk a s) {mapping : Nat} {base : Int}
    (hcov : Covered (a.maps mapping) base a.ranges) :
    CacheOk a { s with slotMappings :=
      s.slotMappings.set (mapping, base) (mapped (a.maps mapping) base a.ranges) } := by
  intro key x hx
  rw [Dict.get?_set] at hx
  split at hx
  · next hkey =>
    cases hx
    subst hkey
    exact ⟨hcov, rfl⟩
  · exact h key x hx

theorem cachedLayerwiseSlotMapping_spec (h : CacheOk a s) (cached : Bool)
    (mapping : Nat) (base : Int) :
    wp (cachedLayerwiseSlotMapping a cached mapping base)
      (post (fun x s' => CacheOk a s' ∧ s'.copies = s.copies ∧
          Covered (a.maps mapping) base a.ranges ∧ x.1 = mapped (a.maps mapping) base a.ranges)
        fun _ s' => ¬ Covered (a.maps mapping) base a.ranges ∧ s'.copies = s.copies) s := by
  unfold cachedLayerwiseSlotMapping
  by_cases hcov : Covered (a.maps mapping) base a.ranges
  · rw [sliceLayerwiseSlotMapping_eq hcov, sliceLayerwiseSlotMapping_eq hcov]
    cases cached with
    | false => exact ⟨h, rfl, hcov, rfl⟩
    | true =>
      change wp (get >>= _) _ s
      rw [wp_get_bind]
      cases hget : s.slotMappings.get? (mapping, base) with
      | some known => exact ⟨h, rfl, hcov, (h _ _ hget).2⟩
      | none => exact ⟨h.set hcov, rfl, hcov, rfl⟩
  · obtain ⟨e, he⟩ := sliceLayerwiseSlotMapping_error true hcov
    obtain ⟨e', he'⟩ := sliceLayerwiseSlotMapping_error false hcov
    rw [he, he']
    cases cached with
    | false => exact ⟨hcov, rfl⟩
    | true =>
      change wp (get >>= _) _ s
      rw [wp_get_bind]
      cases hget : s.slotMappings.get? (mapping, base) with
      | some known => exact absurd (h _ _ hget).1 hcov
      | none => exact ⟨hcov, rfl⟩

theorem initialMapping_spec :
    wp (initialMapping c a)
      (post (fun x s' => CacheOk a s' ∧ s'.copies = [] ∧ Covered a.slots a.base a.ranges ∧
          x = mapped a.slots a.base a.ranges ∧ (c.prefillNode = false → a.ranges ≠ []))
        fun _ s' => s'.copies = [] ∧ (Covered a.slots a.base a.ranges → a.ranges = []))
      Transfer.init := by
  unfold initialMapping
  rw [wp_ite]
  split
  · next hnode =>
    refine wp_bind_of (cachedLayerwiseSlotMapping_spec cacheOk_init _ _ _)
      (fun _ _ h => ⟨h.2, fun hcov => absurd hcov h.1⟩) fun x s' h => ?_
    refine ⟨h.1, h.2.1, h.2.2.1, h.2.2.2, fun hfalse => ?_⟩
    rw [hfalse] at hnode
    cases hnode
  · by_cases hcov : Covered a.slots a.base a.ranges
    · rw [windowChunks_eq hcov]
      by_cases hne : a.ranges = []
      · rw [hne]
        exact ⟨rfl, fun _ => rfl⟩
      have hwin : windows a.slots a.base a.ranges ≠ [] := fun h => hne (map_eq_nil_iff.1 h)
      change wp (call (catChunks (windows a.slots a.base a.ranges)) >>= _) _ _
      rw [catChunks_eq hwin]
      exact ⟨cacheOk_init, rfl, hcov, rfl, fun _ => hne⟩
    · obtain ⟨e, he⟩ := windowChunks_error storeMessage hcov
      rw [he]
      exact ⟨rfl, fun h => absurd h hcov⟩

theorem length_flatten_windows {m : List Int} {base : Int} {ranges : List ChunkRange}
    (h : Covered m base ranges) :
    (windows m base ranges).flatten.length = (chunkSizes ranges).sum := by
  rw [length_flatten, map_length_windows h]

theorem layerMapping_spec (h : CacheOk a s) (hcov : Covered a.slots a.base a.ranges) :
    wp (layerMapping c a (mapped a.slots a.base a.ranges) layer)
      (post (fun x s' => CacheOk a s' ∧ s'.copies = s.copies ∧
          Covered (layerMap c a layer).1 (layerMap c a layer).2 a.ranges ∧
          x = mapped (layerMap c a layer).1 (layerMap c a layer).2 a.ranges)
        fun _ s' => s'.copies = s.copies ∧ ¬ Accepts c a.ranges (layerMap c a layer)) s := by
  unfold layerMapping layerMap
  cases layerRequest c a layer with
  | none => exact ⟨h, rfl, hcov, rfl⟩
  | some request =>
    dsimp only
    rw [wp_bind]
    by_cases hbase : 0 ≤ request.base
    · rw [ensure_ok hbase, wp_call, post_ok]
      refine wp_bind_of (cachedLayerwiseSlotMapping_spec h _ _ _)
        (fun _ _ h' => ⟨h'.2, fun hacc => h'.1 hacc.covered⟩) fun ⟨x, new⟩ s' h' => ?_
      obtain ⟨hcache, hcopies, hcov', rfl⟩ := h'
      cases new with
      | false => exact ⟨hcache, hcopies, hcov', rfl⟩
      | true =>
        have hlen : (mapped (a.maps request.mapping) request.base a.ranges).2.length =
            (mapped a.slots a.base a.ranges).2.length :=
          (length_flatten_windows hcov').trans (length_flatten_windows hcov).symm
        dsimp only
        rw [if_pos rfl, wp_bind, ensure_ok hlen, wp_call, post_ok, wp_bind, wp_call]
        unfold mapped
        dsimp only
        cases hcheck : c.check (windows (a.maps request.mapping) request.base a.ranges).flatten with
        | error e =>
          refine ⟨hcopies, fun hacc => ?_⟩
          rw [hacc.checked] at hcheck
          cases hcheck
        | ok u => exact ⟨hcache, hcopies, hcov', rfl⟩
    · rw [show ensure (0 ≤ request.base) (negativeBase request.base) =
        .error (negativeBase request.base) from if_neg hbase]
      exact ⟨rfl, fun hacc => hbase hacc.base⟩

/-! ## Layers -/

/-- A layer copies its rows; it raises only before it copies any. -/
theorem transferLayer_spec {info : ChunkMeta}
    (hcov : Covered (layerMap c a layer).1 (layerMap c a layer).2 a.ranges)
    (hinfo : c.packed = true → Places (K.place info a.ranges.length) 0 0 (chunkSizes a.ranges)) :
    wp (transferLayer K c a info (mapped (layerMap c a layer).1 (layerMap c a layer).2 a.ranges)
        layer) (post (fun _ s' => s'.slotMappings = s.slotMappings ∧
          s'.copies = s.copies ++ copiedRows c a layer)
        fun _ s' => s'.copies = s.copies ∧ deferred c a = true ∧ c.indexerC8 = true) s := by
  have hsizes := map_length_windows hcov
  have hwanted := perChunkRows_windows layer hcov
  unfold transferLayer
  rw [wp_ite]
  by_cases hpacked : c.packed = true
  · have hpath : ¬ perChunk c := fun h => by rw [h.2.1] at hpacked; cases hpacked
    rw [if_pos hpacked, copiedRows_of_not hpath, wp_ite]
    split
    · next hdef =>
      refine ⟨rfl, hdef.1, ?_⟩
      unfold Connector.packed at hpacked
      rw [hdef.2] at hpacked
      exact hpacked
    · rw [wp_ite]
      split
      · next hlen =>
        refine ⟨rfl, ?_⟩
        rw [← hwanted, perChunkRows_nil hlen, append_nil]
        rfl
      · rw [wp_ite]
        split
        · next hdef => exact ⟨rfl, hdef⟩
        refine ⟨rfl, ?_⟩
        have hrows := denseRows_eq layer (hsizes.symm ▸ hinfo hpacked)
        change s.copies ++ denseRows K info a.ranges.length layer (windows _ _ _).flatten = _
        rw [hrows, hwanted]
  · rw [if_neg hpacked, wp_ite]
    have hpacked' : c.packed = false := Bool.eq_false_iff.2 hpacked
    split
    · next hgpu =>
      have hpath : ¬ perChunk c := fun h => by rw [h.2.2] at hgpu; cases hgpu
      refine ⟨rfl, ?_⟩
      have hrows := stagedRows_eq layer
        (windows (layerMap c a layer).1 (layerMap c a layer).2 a.ranges)
      rw [hsizes] at hrows
      rw [copiedRows_of_not hpath, ← hwanted, ← hrows]
      rfl
    · next hgpu =>
      rw [wp_ite]
      split
      · next hnode =>
        have hpath : ¬ perChunk c := fun h => by rw [h.1] at hnode; cases hnode
        refine ⟨rfl, ?_⟩
        rw [copiedRows_of_not hpath, ← hwanted]
        rfl
      · next hnode =>
        have hpath : perChunk c :=
          ⟨Bool.eq_false_iff.2 hnode, hpacked', Bool.eq_false_iff.2 hgpu⟩
        refine ⟨rfl, ?_⟩
        unfold copiedRows
        rw [if_pos hpath]
        rfl

/-! ## Runs -/

section

variable {layers : Nat} {mapOf : Nat → List Int × Int} {ranges : List ChunkRange}
variable {first : List Int × Int} {admitted : Prop} {rows rows' : Nat → List RowCopy}
variable {r : Except StoreError Unit × Transfer}

theorem Stored.raised {e : StoreError} (hcopies : s.copies = [])
    (h : ¬ admitted) : Stored layers mapOf ranges first admitted rows (.error e, s) where
  layers := ⟨0, Nat.zero_le _, hcopies, nofun, nofun⟩
  window _ := ⟨nofun, hcopies⟩
  finishes hadm := absurd hadm h

theorem Stored.congr (h : Stored layers mapOf ranges first admitted rows r)
    (hrows : ∀ l < layers, Covered (mapOf l).1 (mapOf l).2 ranges → rows l = rows' l) :
    Stored layers mapOf ranges first admitted rows' r where
  layers := by
    obtain ⟨n, hn, hcopies, hcov, hok⟩ := h.layers
    refine ⟨n, hn, hcopies.trans ?_, hcov, hok⟩
    refine flatMap_congr fun l hl => ?_
    have hl := mem_range.1 hl
    exact hrows l (by omega) (hcov l hl)
  window := h.window
  finishes := h.finishes

end

theorem chunkSizes_pos {ranges : List ChunkRange} : ∀ size ∈ chunkSizes ranges, 0 < size := by
  intro size hsize
  obtain ⟨r, _, rfl⟩ := mem_map.1 hsize
  have := r.nonempty
  unfold ChunkRange.size
  omega

theorem chunkSizes_ne_nil (h : a.ranges ≠ []) : chunkSizes a.ranges ≠ [] :=
  fun hnil => h (map_eq_nil_iff.1 hnil)

theorem length_chunkSizes {ranges : List ChunkRange} : (chunkSizes ranges).length = ranges.length :=
  length_map _

theorem chunkMeta_spec (hK : K.Documented) (hcov : Covered a.slots a.base a.ranges) :
    wp (call (chunkMeta c a (mapped a.slots a.base a.ranges).2.length) : Store ChunkMeta)
      (post (fun info s' => s' = s ∧
          (c.packed = true → Places (K.place info a.ranges.length) 0 0 (chunkSizes a.ranges)))
        fun _ s' => s' = s ∧ a.ranges = []) s := by
  unfold chunkMeta
  rw [wp_call]
  split
  · by_cases hne : a.ranges = []
    · rw [hne]
      exact ⟨rfl, rfl⟩
    obtain ⟨info, hinfo, hplaces⟩ := prepareDenseDirectChunkMetadata_eq hK c.kvGroup
      (chunkSizes_ne_nil hne) chunkSizes_pos (length_flatten_windows hcov).symm
    unfold mapped
    dsimp only
    rw [hinfo]
    refine ⟨rfl, fun _ => ?_⟩
    rw [← length_chunkSizes]
    exact hplaces
  · next hpacked =>
    exact ⟨rfl, fun h => absurd h hpacked⟩

theorem layer_spec {info : ChunkMeta} (hcov : Covered a.slots a.base a.ranges)
    (hinfo : c.packed = true → Places (K.place info a.ranges.length) 0 0 (chunkSizes a.ranges))
    (hlayer : layer < c.layers) (hcache : CacheOk a s) :
    wp (do
        let m ← layerMapping c a (mapped a.slots a.base a.ranges) layer
        transferLayer K c a info m layer)
      (post (fun _ s' => CacheOk a s' ∧ s'.copies = s.copies ++ copiedRows c a layer ∧
          Covered (layerMap c a layer).1 (layerMap c a layer).2 a.ranges)
        fun _ s' => s'.copies = s.copies ∧ ¬ Admitted c a) s := by
  refine wp_bind_of (layerMapping_spec hcache hcov)
    (fun _ _ h1 => ⟨h1.1, fun hadm => h1.2 (hadm.layers layer hlayer)⟩) fun m s1 h1 => ?_
  obtain ⟨hcache1, hcopies1, hcov1, rfl⟩ := h1
  refine wp_cases (transferLayer_spec hcov1 hinfo)
    (fun _ _ h2 => ⟨h2.1.trans hcopies1, fun hadm => hadm.bankPackets h2.2⟩) fun u s2 h2 => ?_
  refine ⟨fun key x hx => ?_, ?_, hcov1⟩
  · rw [h2.1] at hx
    exact hcache1 key x hx
  · rw [h2.2, hcopies1]

/-- The checks before the first layer have passed. -/
structure Reached (c : Connector) (a : Args) : Prop where
  layout : c.denseDirect = true ∨ c.mlaDsa = false ∨ c.useGpu = true
  chunks : c.prefillNode = false → a.ranges ≠ []
  first : Accepts c a.ranges (a.slots, a.base)

/-- What `batched_from_gpu` copies, on every path; it gets there only past its checks. -/
structure Ran (c : Connector) (a : Args) (r : Except StoreError Unit × Transfer) : Prop where
  stored : Stored c.layers (layerMap c a) a.ranges (a.slots, a.base) (Admitted c a)
    (copiedRows c a) r
  reached : r.1 = .ok () ∨ r.2.copies ≠ [] → Reached c a

theorem Ran.raised {e : StoreError} (hcopies : s.copies = [])
    (h : ¬ Admitted c a) : Ran c a (.error e, s) where
  stored := Stored.raised hcopies h
  reached
    | .inr hne => absurd hcopies hne

theorem batchedFromGpu_run (hK : K.Documented) : Ran c a (batchedFromGpu K c a Transfer.init) := by
  change wp (batchedFromGpu K c a) (fun r s' => Ran c a (r, s')) Transfer.init
  unfold batchedFromGpu
  rw [wp_bind, wp_call]
  by_cases hbase : 0 ≤ a.base
  · rw [ensure_ok hbase, post_ok, wp_bind, wp_call]
    by_cases hlayout : c.denseDirect = true ∨ c.mlaDsa = false ∨ c.useGpu = true
    · rw [ensure_ok hlayout, post_ok]
      refine wp_bind_of initialMapping_spec
        (fun _ _ h1 => Ran.raised h1.1 fun hadm => hadm.chunks (h1.2 hadm.first.covered))
        fun x s1 h1 => ?_
      obtain ⟨hcache, hcopies, hcov, rfl, hne⟩ := h1
      rw [wp_bind, wp_call]
      cases hcheck : c.check (mapped a.slots a.base a.ranges).2 with
      | error e =>
        refine Ran.raised hcopies fun hadm => ?_
        rw [show c.check (mapped a.slots a.base a.ranges).2 = .ok () from hadm.first.checked]
          at hcheck
        cases hcheck
      | ok u =>
        have hreached : Reached c a := ⟨hlayout, hne, hbase, hcov, hcheck⟩
        rw [post_ok, wp_bind]
        refine wp_mono (chunkMeta_spec hK hcov) ?_
        rintro (e | info) s2 ⟨rfl, hinfo⟩
        · exact Ran.raised hcopies fun hadm => hadm.chunks hinfo
        rw [post_ok]
        refine wp_mono (wp_forM_range
          (I := fun i s => CacheOk a s ∧ s.copies = (range i).flatMap (copiedRows c a) ∧
            ∀ l < i, Covered (layerMap c a l).1 (layerMap c a l).2 a.ranges)
          (E := fun _ s => ∃ i < c.layers, s.copies = (range i).flatMap (copiedRows c a) ∧
            (∀ l < i, Covered (layerMap c a l).1 (layerMap c a l).2 a.ranges) ∧
            ¬ Admitted c a)
          (fun i hi s h => ?_) ⟨hcache, hcopies, nofun⟩) ?_
        · refine wp_cases (layer_spec hcov hinfo hi h.1)
            (fun _ _ h' => ⟨i, hi, h'.1.trans h.2.1, h.2.2, h'.2⟩) fun u s' h' => ?_
          refine ⟨h'.1, ?_, fun l hl => ?_⟩
          · rw [h'.2.1, h.2.1, range_succ, flatMap_append, flatMap_singleton]
          · rcases Nat.lt_succ_iff_lt_or_eq.1 hl with hl | rfl
            · exact h.2.2 l hl
            · exact h'.2.2
        · rintro (e | u) s' h'
          · obtain ⟨i, hi, hcopies', hcov', hadm⟩ := h'
            exact ⟨⟨⟨i, Nat.le_of_lt hi, hcopies', hcov', nofun⟩, fun h => absurd hcov h,
              fun h => absurd h hadm⟩, fun _ => hreached⟩
          · exact ⟨⟨⟨c.layers, Nat.le_refl _, h'.2.1, h'.2.2, fun _ => rfl⟩,
              fun h => absurd hcov h, fun _ => rfl⟩, fun _ => hreached⟩
    · rw [show ensure _ _ = .error _ from if_neg hlayout]
      exact Ran.raised rfl fun hadm => hlayout hadm.layout
  · rw [show ensure (0 ≤ a.base) (negativeBase a.base) = .error (negativeBase a.base) from
      if_neg hbase]
    exact Ran.raised rfl fun hadm => hbase hadm.first.base

/-! ## Group stores -/

theorem groupMeta_spec (hK : K.Documented) (hcov : Covered a.slots a.base a.ranges)
    (hne : a.ranges ≠ []) :
    ∃ info, groupMeta c a (windows a.slots a.base a.ranges).flatten.length = .ok info ∧
      Places (K.place info a.ranges.length) 0 0 (chunkSizes a.ranges) := by
  have hsum := length_flatten_windows hcov
  have hsizes := chunkSizes_ne_nil hne
  unfold groupMeta
  rw [show a.ranges.length = (chunkSizes a.ranges).length from length_chunkSizes.symm]
  split
  · obtain ⟨size, rest, hcons⟩ := exists_cons_of_ne_nil hsizes
    have hpos : 0 < size := chunkSizes_pos size (hcons ▸ mem_cons_self)
    have hcapture : captureIntervals (chunkOffsets 0 (chunkSizes a.ranges)) (chunkSizes a.ranges)
        (windows a.slots a.base a.ranges).flatten.length := by
      refine ⟨?_, chunkSizes_pos, rfl, hsum.symm, ?_⟩
      · rw [hcons]
        rfl
      · rw [hsum, hcons, sum_cons]
        omega
    refine ⟨.listed (chunkOffsets 0 (chunkSizes a.ranges)) (chunkSizes a.ranges), ?_, ?_⟩
    · dsimp only
      rw [ensure_ok hcapture]
      rfl
    · exact @places_listed K hK [] _ _ (Nat.le_refl _)
  · exact prepareDenseDirectChunkMetadata_eq hK c.kvGroup hsizes chunkSizes_pos hsum.symm

theorem batchedFromGpuGroup_run (hK : K.Documented) :
    Stored c.layers (fun _ => (a.slots, a.base)) a.ranges (a.slots, a.base) (GroupAdmitted c a)
      (wantedRows a.slots a.base a.ranges) (batchedFromGpuGroup K c a Transfer.init) := by
  change wp (batchedFromGpuGroup K c a) (fun r s' => Stored c.layers _ a.ranges
    (a.slots, a.base) (GroupAdmitted c a) (wantedRows a.slots a.base a.ranges) (r, s')) Transfer.init
  unfold batchedFromGpuGroup
  rw [wp_bind, wp_call]
  by_cases hbase : 0 ≤ a.base
  · rw [ensure_ok hbase, post_ok, wp_bind, wp_call]
    by_cases hlayout : c.denseDirect = true ∧ c.groupDisabled = false
    · rw [ensure_ok hlayout, post_ok, wp_bind, wp_call]
      by_cases hcov : Covered a.slots a.base a.ranges
      · rw [windowChunks_eq hcov, post_ok, wp_bind, wp_call]
        by_cases hne : windows a.slots a.base a.ranges ≠ []
        · have hranges : a.ranges ≠ [] := fun h => hne (by rw [h]; rfl)
          rw [ensure_ok hne, post_ok, wp_bind, wp_call, catChunks_eq hne, post_ok, wp_bind, wp_call]
          cases hcheck : c.check (windows a.slots a.base a.ranges).flatten with
          | error e =>
            refine Stored.raised rfl fun hadm => ?_
            have hchecked := hadm.first.checked
            rw [hcheck] at hchecked
            cases hchecked
          | ok u =>
            obtain ⟨info, hinfo, hplaces⟩ := groupMeta_spec (c := c) hK hcov hranges
            rw [post_ok, wp_bind, wp_call, hinfo, post_ok]
            refine ⟨⟨c.layers, Nat.le_refl _, ?_, fun _ _ => hcov, fun _ => rfl⟩,
              fun h => absurd hcov h, fun _ => rfl⟩
            rw [← map_length_windows hcov] at hplaces
            change [] ++ (range c.layers).flatMap _ = _
            rw [nil_append]
            refine flatMap_congr fun l _ => ?_
            rw [denseRows_eq l hplaces, perChunkRows_windows l hcov]
        · rw [show ensure _ _ = .error _ from if_neg hne]
          exact Stored.raised rfl fun hadm => hne fun h => hadm.chunks (map_eq_nil_iff.1 h)
      · obtain ⟨e, he⟩ := windowChunks_error groupMessage hcov
        rw [he]
        exact Stored.raised rfl fun hadm => hcov hadm.first.covered
    · rw [show ensure _ _ = .error _ from if_neg hlayout]
      exact Stored.raised rfl fun hadm => hlayout hadm.layout
  · rw [show ensure _ _ = .error _ from if_neg hbase]
    exact Stored.raised rfl fun hadm => hbase hadm.first.base

/-! ## The one path that differs -/

theorem mem_perChunkRows {l : Nat} {row : RowCopy} :
    row ∈ perChunkRows l chunks ↔
      row.layer = l ∧ ∃ chunk, chunks[row.chunk]? = some chunk ∧ chunk[row.token]? = some row.slot := by
  unfold perChunkRows rowsOfChunk
  simp only [mem_flatMap, mem_map, Prod.exists, mem_zipIdx_iff_getElem?]
  constructor
  · rintro ⟨chunk, j, hj, slot, t, ht, rfl⟩
    exact ⟨rfl, chunk, hj, ht⟩
  · rintro ⟨rfl, chunk, hj, ht⟩
    exact ⟨chunk, row.chunk, hj, row.slot, row.token, ht, rfl⟩

theorem chunks_eq_of_rows {n : Nat} {chunks' : List (List Int)} (hn : 0 < n)
    (hlen : chunks.length = chunks'.length)
    (h : (range n).flatMap (fun l => perChunkRows l chunks) =
      (range n).flatMap fun l => perChunkRows l chunks') : chunks = chunks' := by
  have hmem : ∀ row : RowCopy, row.layer = 0 →
      (row ∈ perChunkRows 0 chunks ↔ row ∈ perChunkRows 0 chunks') := by
    have hfirst : ∀ (chunks : List (List Int)) (row : RowCopy), row.layer = 0 →
        (row ∈ (range n).flatMap (fun l => perChunkRows l chunks) ↔
          row ∈ perChunkRows 0 chunks) := by
      intro chunks row hrow
      rw [mem_flatMap]
      constructor
      · rintro ⟨l, _, hl⟩
        have hlayer := (mem_perChunkRows.1 hl).1
        rw [hrow] at hlayer
        rwa [← hlayer] at hl
      · exact fun hr => ⟨0, mem_range.2 hn, hr⟩
    intro row hrow
    rw [← hfirst chunks row hrow, ← hfirst chunks' row hrow, h]
  apply ext_getElem hlen
  intro j hj hj'
  apply ext_getElem?
  intro t
  apply Option.ext
  intro slot
  have hrow := hmem ⟨j, t, 0, slot⟩ rfl
  simp only [mem_perChunkRows, getElem?_eq_getElem hj, getElem?_eq_getElem hj',
    true_and, Option.some.injEq, exists_eq_left'] at hrow
  exact hrow

theorem layerMap_ordinary (h : c.prefillNode = false) : layerMap c a layer = (a.slots, a.base) := by
  unfold layerMap layerRequest deferred
  rw [h]
  rfl

theorem Reached.admitted (h : Reached c a) (hnode : c.prefillNode = false) : Admitted c a where
  layout := h.layout
  chunks := h.chunks hnode
  first := h.first
  layers l _ := by
    rw [layerMap_ordinary hnode]
    exact h.first
  bankPackets hdef := by
    have hfalse := hdef.1
    unfold deferred at hfalse
    rw [hnode] at hfalse
    cases hfalse

theorem copiedRows_perChunk (h : perChunk c) :
    copiedRows c a layer =
      perChunkRows layer (a.ranges.map fun r => slice a.slots r.start r.stop) :=
  if_pos h

/-- All store paths copy the same tokens, but for an ordinary store with one kernel per chunk whose
mapping has other slots at a chunk's tokens than in its window. -/
theorem store_paths_same_tokens_iff (hK : K.Documented) : SameTokens K c a ↔ ¬ Misreads c a := by
  have hrun := batchedFromGpu_run (c := c) (a := a) hK
  constructor
  · rintro ⟨hbatched, _⟩ ⟨hpath, hlayers, hadm, r, hr, hne⟩
    obtain ⟨n, _, hcopies, _, hok⟩ := hrun.stored.layers
    obtain ⟨n', _, hcopies', _, hok'⟩ := hbatched.layers
    have hfinish := hrun.stored.finishes hadm
    rw [hok hfinish] at hcopies
    rw [hok' hfinish, hcopies] at hcopies'
    have hrows : (range c.layers).flatMap (fun l => perChunkRows l
        (a.ranges.map fun r => slice a.slots r.start r.stop)) =
        (range c.layers).flatMap fun l => perChunkRows l (windows a.slots a.base a.ranges) := by
      calc (range c.layers).flatMap (fun l => perChunkRows l
            (a.ranges.map fun r => slice a.slots r.start r.stop))
          = (range c.layers).flatMap (copiedRows c a) :=
            flatMap_congr fun l _ => (copiedRows_perChunk hpath).symm
        _ = _ := hcopies'
        _ = _ := flatMap_congr fun l _ => by
            rw [layerMap_ordinary hpath.1, perChunkRows_windows l hadm.first.covered]
    have hchunks := chunks_eq_of_rows hlayers ((length_map _).trans length_windows.symm) hrows
    exact hne (map_inj_left.1 hchunks r hr)
  · intro hno
    refine ⟨?_, batchedFromGpuGroup_run hK⟩
    by_cases hpath : perChunk c
    · by_cases hadm : Admitted c a
      · refine hrun.stored.congr fun l hl hcov => ?_
        have hsame : (a.ranges.map fun r => slice a.slots r.start r.stop) =
            windows a.slots a.base a.ranges :=
          map_congr_left fun r hr => Classical.byContradiction fun hne =>
            hno ⟨hpath, by omega, hadm, r, hr, hne⟩
        rw [layerMap_ordinary hpath.1] at hcov ⊢
        rw [copiedRows_perChunk hpath, hsame, perChunkRows_windows l hcov]
      · have hquiet : (batchedFromGpu K c a Transfer.init).1 ≠ .ok () ∧
            (batchedFromGpu K c a Transfer.init).2.copies = [] :=
          ⟨fun h => hadm ((hrun.reached (.inl h)).admitted hpath.1),
            Classical.byContradiction fun h =>
              hadm ((hrun.reached (.inr h)).admitted hpath.1)⟩
        exact ⟨⟨0, Nat.zero_le _, hquiet.2, nofun, fun h => absurd h hquiet.1⟩, fun _ => hquiet,
          fun h => absurd h hadm⟩
    · exact hrun.stored.congr fun l _ _ => copiedRows_of_not hpath

/-- Where no slot is mapped twice, it is the base that makes the difference. -/
theorem misreads_iff_of_nodup (hslots : a.slots.Nodup) :
    Misreads c a ↔ perChunk c ∧ 0 < c.layers ∧ Admitted c a ∧ a.base ≠ 0 := by
  constructor
  · rintro ⟨hpath, hlayers, hadm, r, _, hne⟩
    refine ⟨hpath, hlayers, hadm, fun hbase => hne ?_⟩
    rw [hbase, Int.sub_zero, Int.sub_zero]
  · rintro ⟨hpath, hlayers, hadm, hbase⟩
    obtain ⟨r, rest, hcons⟩ := exists_cons_of_ne_nil hadm.chunks
    have hr : r ∈ a.ranges := hcons ▸ mem_cons_self
    refine ⟨hpath, hlayers, hadm, r, hr, fun heq => hbase ?_⟩
    have hn := r.nonempty
    have h0 := hadm.first.base
    obtain ⟨hstart, hstop⟩ := inside_iff.1 (hadm.first.covered r hr)
    dsimp only at h0 hstart hstop
    have hfirst : a.slots[r.start.toNat]? = a.slots[(r.start - a.base).toNat]? := by
      have hget := congrArg (fun l : List Int => l[0]?) heq
      rw [getElem?_slice (by omega) (by omega), getElem?_slice hstart (by omega)] at hget
      simpa using hget
    have hlt : (r.start - a.base).toNat < a.slots.length := by omega
    rw [getElem?_eq_getElem hlt] at hfirst
    obtain ⟨hlt', hget⟩ := List.getElem?_eq_some_iff.1 hfirst
    have hidx := (Nodup.getElem_inj_iff hslots).1 hget
    omega

/-! ## A window that the store misreads -/

/-- A kernel that looks for the chunk. -/
def searchChunk : Nat → List (Nat × Nat) → Nat → Option (Nat × Nat)
  | _, [], _ => none
  | j, (o, size) :: rest, i =>
    if o ≤ i ∧ i < o + size then some (j, i - o) else searchChunk (j + 1) rest i

def searchKernel : DenseKernel where
  place info n i :=
    match info with
    | .fixed size => if i / size < n then some (i / size, i % size) else none
    | .listed offsets sizes => searchChunk 0 (offsets.zip sizes) i

theorem le_of_getElem?_chunkOffsets {sizes : List Nat} {e j o : Nat}
    (h : (chunkOffsets e sizes)[j]? = some o) : e ≤ o := by
  induction sizes generalizing e j with
  | nil => cases h
  | cons size sizes ih =>
    cases j with
    | zero =>
      cases h
      exact Nat.le_refl _
    | succ j =>
      have hle := ih (e := e + size) (j := j) h
      omega

theorem searchChunk_eq {sizes : List Nat} {e k i j o size : Nat}
    (ho : (chunkOffsets e sizes)[j]? = some o) (hsize : sizes[j]? = some size) (hi : o ≤ i)
    (hlt : i < o + size) :
    searchChunk k ((chunkOffsets e sizes).zip sizes) i = some (k + j, i - o) := by
  induction sizes generalizing e k j with
  | nil => cases ho
  | cons s sizes ih =>
    change (if e ≤ i ∧ i < e + s then _ else searchChunk (k + 1) _ i) = _
    cases j with
    | zero =>
      cases ho
      cases hsize
      rw [if_pos ⟨hi, hlt⟩]
      rfl
    | succ j =>
      have hle : e + s ≤ o := le_of_getElem?_chunkOffsets (j := j) ho
      rw [if_neg (by omega), show k + (j + 1) = k + 1 + j by omega]
      exact ih (e := e + s) ho hsize

theorem searchKernel_documented : searchKernel.Documented where
  fixed _ _ _ _ hlt := if_pos hlt
  listed sizes n i j o size ho hsize _ hi hlt := by
    have hsearch := searchChunk_eq (k := 0) ho hsize hi hlt
    rwa [Nat.zero_add] at hsearch

/-- An ordinary node without a staging buffer, whose layout no dense kernel takes. -/
def plainConnector : Connector :=
  { kvGroup := 0, prefillNode := false, mlaDsa := false, denseDisabled := false,
    groupDisabled := false, useGpu := false, indexerC8 := false, layers := 1,
    check := fun _ => .ok () }

/-- Tokens 2 and 3, from a mapping that begins at token 2. -/
def windowedStore : Args :=
  { maps := fun _ => [20, 21, 22, 23], mapping := 0, base := 2, ranges := [⟨2, 4, by decide⟩],
    deferredPut := false, requests := fun _ => none }

/-- The store copies the slots of tokens 4 and 5. -/
theorem windowed_store_misread : ¬ SameTokens searchKernel plainConnector windowedStore := by
  rintro ⟨⟨⟨n, _, hcopies, _, hok⟩, _, _⟩, _⟩
  have hlayers : n = 1 := hok rfl
  rw [hlayers] at hcopies
  exact absurd hcopies (by decide)

/-- The same chunk in a mapping from token 0 on. -/
theorem whole_store_same_tokens :
    SameTokens searchKernel plainConnector { windowedStore with base := 0 } :=
  (store_paths_same_tokens_iff searchKernel_documented).2 fun h => by
    obtain ⟨r, hr, hne⟩ := h.other
    rw [Int.sub_zero, Int.sub_zero] at hne
    exact hne rfl

end SlotWindows
