import LMCacheAscend.Lib.Cuts
import Mathlib.Algebra.Order.BigOperators.Group.List
import Mathlib.Algebra.Order.Ring.Nat
import Mathlib.Data.List.Count
import Mathlib.Data.List.Infix

/-!
# Plans of the layerwise prefill copies

A plan lists the copies of some token ranges (the chunks) between host pages
and one bank of device blocks.  `DmaCycle.planBlockIdRanges` cuts the ranges at
the periodic boundaries of the allocator's bundles and chunks, and where the
block table is not contiguous; each piece is one segment: its chunk, the device
slot it starts at, its first token in the chunk and its number of tokens.

`segmentsFrom` says what a plan is without the tensors: each range is cut on its
own, at the points where `cutAt` holds.  `planBlockIdRanges_eq` is the
connection; what the planner raises is in `planBlockIdRanges` alone.

The four tensors of a `DmaPlan` are as long as each other, so a plan is the list
of their columns.  Positions, block ids and sizes are natural numbers.
-/

namespace LayerwiseDma

open Lib List

/-- The text of what is raised. -/
abbrev DmaError := String

structure Segment where
  chunk : Nat
  slot : Nat
  chunkToken : Nat
  tokens : Nat
  deriving DecidableEq, Repr

abbrev DmaPlan := List Segment

/-! ## Tensors -/

def arange (start stop step : Nat) : List Nat :=
  (range ((stop - start + step - 1) / step)).map fun i => start + i * step

/-- `torch.searchsorted` of increasing values: how many are below `x`. -/
def searchsorted (values : List Nat) (x : Nat) : Nat := values.countP (· < x)

/-- `torch.searchsorted(..., right=True)`: how many are at most `x`. -/
def searchsortedRight (values : List Nat) (x : Nat) : Nat := values.countP (· ≤ x)

theorem mem_arange {start stop step x : Nat} (h : 0 < step) :
    x ∈ arange start stop step ↔ ∃ i, x = start + i * step ∧ x < stop := by
  unfold arange
  rw [mem_map]
  constructor
  · rintro ⟨i, hi, rfl⟩
    refine ⟨i, rfl, ?_⟩
    rw [mem_range, Nat.lt_div_iff_mul_lt h] at hi
    omega
  · rintro ⟨i, rfl, hi⟩
    refine ⟨i, ?_, rfl⟩
    rw [mem_range, Nat.lt_div_iff_mul_lt h]
    omega

/-! ## Cycles -/

/-- The points, up to one period, at which every plan is cut. -/
structure DmaCycle where
  bundleTokens : Nat
  chunkTokens : Nat
  period : Nat
  boundaries : List Nat
  deriving DecidableEq, Repr

def DmaCycle.build (bundleTokens chunkTokens : Nat) (internalOffsets : Option (List Nat)) :
    Except DmaError DmaCycle :=
  if min bundleTokens chunkTokens ≤ 0 then
    .error "DMA bundle/chunk sizes must be positive"
  else
    let period := Nat.lcm bundleTokens chunkTokens
    let offsets := 0 :: internalOffsets.getD []
    let boundaries := uniqueSorted
      ((arange 0 period bundleTokens).flatMap (fun x => offsets.map fun o => x + o) ++
        arange 0 period chunkTokens)
    .ok ⟨bundleTokens, chunkTokens, period, boundaries⟩

/-- One period of boundaries stands for all of them. -/
structure DmaCycle.Periodic (c : DmaCycle) : Prop where
  period_pos : 0 < c.period
  zero : 0 ∈ c.boundaries
  le : ∀ b ∈ c.boundaries, b ≤ c.period

/-- A bundle that starts before the period's end also ends by then. -/
theorem bundle_le_lcm {m n i : Nat} (h : 0 + i * m < Nat.lcm m n) : i * m + m ≤ Nat.lcm m n := by
  obtain ⟨k, hk⟩ := Nat.dvd_lcm_left m n
  have hik : i + 1 ≤ k := by
    rw [hk, Nat.zero_add, Nat.mul_comm] at h
    exact Nat.lt_of_mul_lt_mul_left h
  have hle := Nat.mul_le_mul_left m hik
  rwa [← hk, Nat.mul_add, Nat.mul_one, Nat.mul_comm m i] at hle

section

variable {bundleTokens chunkTokens : Nat} {internalOffsets : Option (List Nat)} {c : DmaCycle}
variable (h : DmaCycle.build bundleTokens chunkTokens internalOffsets = .ok c)
include h

/-- Only an offset that leaves its bundle leaves the period. -/
theorem DmaCycle.mem_boundaries {b : Nat} (hmem : b ∈ c.boundaries) :
    b < c.period ∨ ∃ o ∈ internalOffsets.getD [], b + bundleTokens ≤ c.period + o := by
  unfold DmaCycle.build at h
  split at h
  · cases h
  have hb : 0 < bundleTokens := by omega
  cases h
  rw [mem_uniqueSorted, mem_append, mem_flatMap] at hmem
  rcases hmem with ⟨x, hx, hbx⟩ | hb'
  · obtain ⟨i, rfl, hlt⟩ := (mem_arange hb).1 hx
    obtain ⟨o, ho, rfl⟩ := mem_map.1 hbx
    have hle := bundle_le_lcm hlt
    rcases mem_cons.1 ho with rfl | ho
    · exact .inl hlt
    · refine .inr ⟨o, ho, ?_⟩
      show 0 + i * bundleTokens + o + bundleTokens ≤ Nat.lcm bundleTokens chunkTokens + o
      omega
  · obtain ⟨i, rfl, hlt⟩ := (mem_arange (by omega)).1 hb'
    exact .inl hlt

theorem DmaCycle.build_periodic (hoffsets : ∀ o ∈ internalOffsets.getD [], o ≤ bundleTokens) :
    c.Periodic := by
  have hmem : ∀ b ∈ c.boundaries, b ≤ c.period := by
    intro b hb
    rcases DmaCycle.mem_boundaries h hb with hlt | ⟨o, ho, hle⟩
    · exact Nat.le_of_lt hlt
    · have hob := hoffsets o ho
      omega
  unfold DmaCycle.build at h
  split at h
  · cases h
  have hc : 0 < chunkTokens := by omega
  have hperiod : 0 < Nat.lcm bundleTokens chunkTokens := Nat.lcm_pos (by omega) hc
  cases h
  refine ⟨hperiod, ?_, hmem⟩
  rw [mem_uniqueSorted, mem_append]
  exact .inr ((mem_arange hc).2 ⟨0, by omega, hperiod⟩)

end

/-- One plane of a cache: `shape[1]`, `shape[-1]`, and the bytes of `plane[0]`. -/
structure CachePlane where
  blockTokens : Nat
  width : Nat
  pageBytes : Nat
  deriving DecidableEq, Repr

/-- A cache of one plane (a tensor) or of several (a tuple). -/
inductive Cache
  | tensor (plane : CachePlane)
  | planes (first : CachePlane) (rest : List CachePlane)
  deriving DecidableEq, Repr

def Cache.first : Cache → CachePlane
  | .tensor p => p
  | .planes p _ => p

/-- Only the first two planes of a tuple count. -/
def cachePageSizeBytes : Cache → Nat
  | .tensor p => p.pageBytes
  | .planes p [] => p.pageBytes
  | .planes p (q :: _) => p.pageBytes + q.pageBytes

/-- The given widths, or those of the latent planes; `latent[1]` of a tuple must be there. -/
def latentWidths (latent : Cache) (latentPlaneWidths : Option (List Nat)) :
    Except DmaError (List Nat) :=
  match latentPlaneWidths, latent with
  | some (w :: ws), _ => .ok (w :: ws)
  | _, .tensor p => .ok [p.width]
  | _, .planes p (q :: _) => .ok [p.width, q.width]
  | _, .planes _ [] => .error "list index out of range"

/-- `widths.cumsum(0)` -/
def cumsum (widths : List Nat) : List Nat := widths.inits.tail.map List.sum

theorem le_sum_of_mem_cumsum {widths : List Nat} {x : Nat} (h : x ∈ cumsum widths) :
    x ≤ widths.sum := by
  obtain ⟨l, hl, rfl⟩ := mem_map.1 h
  have hpre : l <+: widths := (mem_inits _ _).1 (mem_of_mem_tail hl)
  exact hpre.sublist.sum_le_sum fun _ _ => Nat.zero_le _

def buildGroupCycles (latent indexer : Cache) (chunkTokens multiplier : Nat)
    (latentPlaneWidths : Option (List Nat)) : Except DmaError (DmaCycle × DmaCycle) :=
  let latentPage := cachePageSizeBytes latent
  let indexPage := cachePageSizeBytes indexer
  let bundleBytes := Nat.lcm latentPage indexPage * multiplier
  if indexPage = 0 then .error "integer division or modulo by zero" else
  let indexTokens := bundleBytes / indexPage * indexer.first.blockTokens
  match latentWidths latent latentPlaneWidths with
  | .error e => .error e
  | .ok widths =>
    if widths.sum = 0 then .error "ZeroDivisionError" else
    let indexSplits := (cumsum widths).dropLast.map fun w => w * indexTokens / widths.sum
    if latentPage = 0 then .error "integer division or modulo by zero" else
    match DmaCycle.build (bundleBytes / latentPage * latent.first.blockTokens) chunkTokens none with
    | .error e => .error e
    | .ok latentCycle =>
      match DmaCycle.build indexTokens chunkTokens (some indexSplits) with
      | .error e => .error e
      | .ok indexCycle => .ok (latentCycle, indexCycle)

/-- The cycles that the engine registers are periodic. -/
theorem buildGroupCycles_periodic {latent indexer : Cache} {chunkTokens multiplier : Nat}
    {latentPlaneWidths : Option (List Nat)} {c d : DmaCycle}
    (h : buildGroupCycles latent indexer chunkTokens multiplier latentPlaneWidths = .ok (c, d)) :
    c.Periodic ∧ d.Periodic := by
  unfold buildGroupCycles at h
  simp only at h
  split at h
  · cases h
  split at h
  · cases h
  split at h
  · cases h
  · next widths _ hsum =>
    split at h
    · cases h
    split at h
    · cases h
    · next hc =>
      split at h
      · cases h
      · next hd =>
        cases h
        refine ⟨DmaCycle.build_periodic hc fun o ho => absurd ho not_mem_nil,
          DmaCycle.build_periodic hd fun o ho => ?_⟩
        obtain ⟨w, hw, rfl⟩ := mem_map.1 ho
        have hle := le_sum_of_mem_cumsum (mem_of_mem_dropLast hw)
        refine Nat.div_le_of_le_mul ?_
        exact Nat.mul_le_mul_right _ hle

/-- Two latent pages and nine pages of the index cache take as many bytes. -/
theorem buildGroupCycles_periodic_planes : ∃ c d, buildGroupCycles
    (.planes ⟨4, 512, 4096⟩ [⟨4, 64, 512⟩]) (.tensor ⟨4, 128, 1024⟩) 8 1 none = .ok (c, d) ∧
      c.Periodic ∧ d.Periodic := by
  obtain ⟨c, d, h⟩ : ∃ c d, buildGroupCycles (.planes ⟨4, 512, 4096⟩ [⟨4, 64, 512⟩])
    (.tensor ⟨4, 128, 1024⟩) 8 1 none = .ok (c, d) := ⟨_, _, rfl⟩
  exact ⟨c, d, h, buildGroupCycles_periodic h⟩

/-! ## The planner -/

/-- The device slot of a token, by its block. -/
def slotOf (blockIds : List Nat) (blockSize firstBlock base t : Nat) : Nat :=
  blockIds.getD ((t - base) / blockSize - firstBlock) 0 * blockSize + (t - base) % blockSize

/-- Where the block before is not the preceding one. -/
def blockGaps (blockIds : List Nat) : List Bool :=
  false :: blockIds.tail.zipWith (fun b a => decide (b ≠ a + 1)) blockIds

/-- The sorted edges of `plan_block_id_ranges`. -/
def DmaCycle.blockEdges (c : DmaCycle) (blockIds : List Nat) (blockSize : Nat)
    (starts ends : List Nat) (slotMappingBase firstBlock : Nat) : List Nat :=
  let start := starts.headD 0
  let stop := ends.getLastD 0
  let logicalEnd := stop - slotMappingBase
  let periods := arange ((start - slotMappingBase) / c.period)
    ((logicalEnd + c.period - 1) / c.period) 1
  let periodic := periods.flatMap fun p => c.boundaries.map fun b => p * c.period + b
  let blockStarts := arange (firstBlock * blockSize)
    ((firstBlock + blockIds.length) * blockSize) blockSize
  let gapEdges := ((blockStarts.zip (blockGaps blockIds)).filter Prod.snd).map Prod.fst
  let edges := uniqueSorted (periodic.map (· + slotMappingBase) ++ starts ++ ends ++
    gapEdges.map (· + slotMappingBase))
  edges.filter fun x => start ≤ x ∧ x ≤ stop

def DmaCycle.planBlockIdRanges (c : DmaCycle) (blockIds : List Nat) (blockSize : Nat)
    (starts ends : List Nat) (slotMappingBase firstBlock : Nat) : Except DmaError DmaPlan :=
  if blockSize ≤ 0 then
    .error "DMA block size must be positive"
  else if blockIds.length = 0 ∨ starts.length = 0 then
    .ok []
  else if (∃ s ∈ starts, s < slotMappingBase) ∨ ∃ r ∈ starts.zip ends, r.2 ≤ r.1 then
    .error "DMA block-id ranges are invalid"
  else if starts.headD 0 - slotMappingBase < firstBlock * blockSize ∨
      (firstBlock + blockIds.length) * blockSize < ends.getLastD 0 - slotMappingBase then
    .error "DMA block IDs do not cover the requested range"
  else
    let edges := c.blockEdges blockIds blockSize starts ends slotMappingBase firstBlock
    let chunk := fun p : Nat × Nat => searchsortedRight ends p.1
    let active := fun p : Nat × Nat =>
      decide (starts.getD (chunk p) 0 ≤ p.1 ∧ p.2 ≤ ends.getD (chunk p) 0)
    .ok (((pieces edges).filter active).map fun p =>
      { chunk := chunk p
        slot := slotOf blockIds blockSize firstBlock slotMappingBase p.1
        chunkToken := p.1 - starts.getD (chunk p) 0
        tokens := p.2 - p.1 })

/-! ## What a plan is -/

/-- The pieces of each range, the first one being chunk `k`. -/
def segmentsFrom (cut : Nat → Bool) (slot : Nat → Nat) : Nat → List (Nat × Nat) → DmaPlan
  | _, [] => []
  | k, r :: rs =>
    (pieces (cutsBetween cut r.1 r.2)).map
        (fun p => ⟨k, slot p.1, p.1 - r.1, p.2 - p.1⟩) ++
      segmentsFrom cut slot (k + 1) rs

/-- A token before which every plan is cut: a boundary of the cycle, or a block that does not
follow the block before. -/
def cutAt (c : DmaCycle) (blockIds : List Nat) (blockSize firstBlock base x : Nat) : Bool :=
  decide ((x - base) % c.period ∈ c.boundaries) ||
    (decide (blockSize ∣ x - base) &&
      decide (blockIds.getD ((x - base) / blockSize - firstBlock) 0 ≠
        blockIds.getD ((x - base) / blockSize - firstBlock - 1) 0 + 1))

/-! ## The edges of the planner -/

theorem mem_periodic {c : DmaCycle} (hc : c.Periodic) {lo hi x : Nat} (hlo : lo ≤ x) (hhi : x < hi) :
    (x ∈ (arange (lo / c.period) ((hi + c.period - 1) / c.period) 1).flatMap fun p =>
      c.boundaries.map fun b => p * c.period + b) ↔ x % c.period ∈ c.boundaries := by
  have hpos := hc.period_pos
  rw [mem_flatMap]
  constructor
  · rintro ⟨p, -, hx⟩
    obtain ⟨b, hb, rfl⟩ := mem_map.1 hx
    rcases Nat.lt_or_eq_of_le (hc.le b hb) with hlt | heq
    · rw [Nat.mul_add_mod_of_lt hlt]
      exact hb
    · rw [heq, ← Nat.succ_mul, Nat.mul_mod_left]
      exact hc.zero
  · intro hx
    refine ⟨x / c.period, ?_, mem_map.2 ⟨_, hx, Nat.div_add_mod' _ _⟩⟩
    have hle : lo / c.period ≤ x / c.period := Nat.div_le_div_right hlo
    have hlt : x / c.period < (hi + c.period - 1) / c.period := by
      rw [Nat.lt_div_iff_mul_lt hpos]
      have := Nat.div_mul_le_self x c.period
      omega
    exact (mem_arange Nat.one_pos).2 ⟨x / c.period - lo / c.period, by omega, hlt⟩

theorem getElem?_blockGaps {blockIds : List Nat} {i : Nat} (hi : i < blockIds.length) :
    (blockGaps blockIds)[i]? =
      some (decide (0 < i ∧ blockIds.getD i 0 ≠ blockIds.getD (i - 1) 0 + 1)) := by
  unfold blockGaps
  cases i with
  | zero => simp
  | succ i =>
    rw [getElem?_cons_succ, getElem?_zipWith, getElem?_tail,
      getElem?_eq_getElem hi, getElem?_eq_getElem (by omega)]
    have hi' : i < blockIds.length := by omega
    simp [getElem?_eq_getElem hi, getElem?_eq_getElem hi']

theorem length_arange_blocks (first n : Nat) {bs : Nat} (h : 0 < bs) :
    (arange (first * bs) ((first + n) * bs) bs).length = n := by
  unfold arange
  rw [length_map, length_range, Nat.add_mul, Nat.add_sub_cancel_left,
    Nat.add_sub_assoc h, Nat.add_comm, Nat.add_mul_div_right _ _ h,
    Nat.div_eq_of_lt (by omega), Nat.zero_add]

theorem mem_gapEdges (blockIds : List Nat) {blockSize : Nat} (firstBlock x : Nat)
    (hbs : 0 < blockSize) :
    x ∈ (((arange (firstBlock * blockSize) ((firstBlock + blockIds.length) * blockSize)
        blockSize).zip (blockGaps blockIds)).filter Prod.snd).map Prod.fst ↔
      ∃ i, (0 < i ∧ i < blockIds.length) ∧ x = (firstBlock + i) * blockSize ∧
        blockIds.getD i 0 ≠ blockIds.getD (i - 1) 0 + 1 := by
  have hlen := length_arange_blocks firstBlock blockIds.length hbs
  have hget : ∀ i < blockIds.length,
      (arange (firstBlock * blockSize) ((firstBlock + blockIds.length) * blockSize)
        blockSize)[i]? = some ((firstBlock + i) * blockSize) := by
    intro i hi
    have hi' := hi
    rw [← hlen] at hi'
    unfold arange at hi' ⊢
    rw [length_map, length_range] at hi'
    rw [getElem?_map, getElem?_range hi', Option.map_some, Nat.add_mul]
  rw [mem_map]
  constructor
  · rintro ⟨⟨y, g⟩, hmem, rfl⟩
    obtain ⟨hzip, hg⟩ := mem_filter.1 hmem
    obtain ⟨i, hi⟩ := mem_iff_getElem?.1 hzip
    obtain ⟨hy, hgap⟩ := getElem?_zip_eq_some.1 hi
    have hin : i < blockIds.length := by
      rw [← hlen]
      exact lt_of_getElem? hy
    rw [hget i hin] at hy
    rw [getElem?_blockGaps hin] at hgap
    cases hy
    cases hgap
    have hg := of_decide_eq_true hg
    exact ⟨i, ⟨hg.1, hin⟩, rfl, hg.2⟩
  · rintro ⟨i, hi, rfl, hne⟩
    refine ⟨(_, true), mem_filter.2 ⟨?_, rfl⟩, rfl⟩
    refine mem_iff_getElem?.2 ⟨i, getElem?_zip_eq_some.2 ⟨hget i hi.2, ?_⟩⟩
    rw [getElem?_blockGaps hi.2, decide_eq_true ⟨hi.1, hne⟩]

/-- A block table, from block `firstBlock` on, has a block for each token of the ranges. -/
structure Covers (blockIds : List Nat) (blockSize firstBlock base : Nat)
    (ranges : List (Nat × Nat)) : Prop where
  base_le : ∀ r ∈ ranges, base ≤ r.1
  first_le : ∀ r ∈ ranges, firstBlock * blockSize ≤ r.1 - base
  end_le : ∀ r ∈ ranges, r.2 - base ≤ (firstBlock + blockIds.length) * blockSize

section

variable {c : DmaCycle} {blockIds : List Nat} {blockSize firstBlock base : Nat}
  {ranges : List (Nat × Nat)}

variable {r : Nat × Nat}

theorem ordered_bounds (hr : Ordered ranges) (hmem : r ∈ ranges) :
    (ranges.map Prod.fst).headD 0 ≤ r.1 ∧ r.2 ≤ (ranges.map Prod.snd).getLastD 0 := by
  constructor
  · cases ranges with
    | nil => cases hmem
    | cons q l =>
      rcases mem_cons.1 hmem with rfl | hmem
      · exact Nat.le_refl _
      have h1 := (pairwise_cons.1 hr.follow).1 r hmem
      have h2 := hr.nonempty q mem_cons_self
      show q.1 ≤ r.1
      omega
  · rcases eq_nil_or_concat ranges with rfl | ⟨l, q, rfl⟩
    · cases hmem
    rw [concat_eq_append] at hmem hr ⊢
    rw [map_append, map_singleton, getLastD_concat]
    rcases mem_append.1 hmem with hmem | hmem
    · have h1 := hr.append.2.2 r hmem q mem_cons_self
      have h2 := hr.nonempty q (mem_append_right _ mem_cons_self)
      omega
    · rw [mem_singleton.1 hmem]

theorem exists_ends (hne : ranges ≠ []) :
    (∃ r ∈ ranges, (ranges.map Prod.fst).headD 0 = r.1) ∧
      ∃ r ∈ ranges, (ranges.map Prod.snd).getLastD 0 = r.2 := by
  constructor
  · cases ranges with
    | nil => exact absurd rfl hne
    | cons q l => exact ⟨q, mem_cons_self, rfl⟩
  · refine ⟨ranges.getLast hne, getLast_mem hne, ?_⟩
    rw [getLastD_eq_getLast?, getLast?_map, getLast?_eq_some_getLast hne]
    rfl

theorem searchsortedRight_ends (hr : Ordered ranges) {i x : Nat} (hi : ranges[i]? = some r)
    (h1 : r.1 ≤ x) (h2 : x < r.2) : searchsortedRight (ranges.map Prod.snd) x = i := by
  obtain ⟨hlt, rfl⟩ := List.getElem?_eq_some_iff.1 hi
  have hsplit := take_append_drop i ranges
  rw [← getElem_cons_drop hlt] at hsplit
  rw [← hsplit] at hr
  obtain ⟨-, hm, hlm⟩ := hr.append
  have hl : ((ranges.take i).map Prod.snd).countP (fun e => decide (e ≤ x)) = i := by
    rw [countP_eq_length.2, length_map, length_take, Nat.min_eq_left (Nat.le_of_lt hlt)]
    intro e he
    obtain ⟨q, hq, rfl⟩ := mem_map.1 he
    have := hlm q hq _ mem_cons_self
    exact decide_eq_true (by omega)
  have hm0 : ((ranges[i] :: ranges.drop (i + 1)).map Prod.snd).countP
      (fun e => decide (e ≤ x)) = 0 := by
    rw [countP_eq_zero]
    intro e he
    obtain ⟨q, hq, rfl⟩ := mem_map.1 he
    rw [decide_eq_true_eq]
    rcases mem_cons.1 hq with rfl | hq
    · omega
    have h3 := (pairwise_cons.1 hm.follow).1 q hq
    have h4 := hm.nonempty q (mem_cons_of_mem _ hq)
    omega
  conv_lhs => rw [← hsplit]
  unfold searchsortedRight
  rw [map_append, countP_append, hl, hm0, Nat.add_zero]

/-- A piece is kept when it lies in the range of its chunk, that is, in a range. -/
theorem active_iff (hr : Ordered ranges) {last : Nat × Nat} (hlast : last ∈ ranges) {p : Nat × Nat}
    (hlt : p.1 < p.2) (hle : p.2 ≤ last.2) :
    ((ranges.map Prod.fst).getD (searchsortedRight (ranges.map Prod.snd) p.1) 0 ≤ p.1 ∧
        p.2 ≤ (ranges.map Prod.snd).getD (searchsortedRight (ranges.map Prod.snd) p.1) 0) ↔
      ∃ r ∈ ranges, r.1 ≤ p.1 ∧ p.2 ≤ r.2 := by
  constructor
  · rintro ⟨h1, h2⟩
    have hk : searchsortedRight (ranges.map Prod.snd) p.1 < ranges.length := by
      rw [← length_map (f := Prod.snd)]
      exact countP_lt_length_iff.2 ⟨last.2, mem_map_of_mem hlast,
        decide_eq_false (by omega)⟩
    generalize searchsortedRight (ranges.map Prod.snd) p.1 = k at hk h1 h2
    refine ⟨ranges[k], getElem_mem hk, ?_, ?_⟩
    · simpa [getElem?_eq_getElem hk] using h1
    · simpa [getElem?_eq_getElem hk] using h2
  · rintro ⟨r, hmem, h1, h2⟩
    obtain ⟨i, hi⟩ := mem_iff_getElem?.1 hmem
    rw [searchsortedRight_ends hr hi h1 (by omega)]
    simpa [hi] using ⟨h1, h2⟩

theorem segmentsFrom_eq_flatMap {cut : Nat → Bool} {slot : Nat → Nat} {k : Nat}
    {l : List (Nat × Nat)} {mk : Nat × Nat → Segment}
    (h : ∀ i r, l[i]? = some r → ∀ p ∈ pieces (cutsBetween cut r.1 r.2),
      mk p = ⟨k + i, slot p.1, p.1 - r.1, p.2 - p.1⟩) :
    (l.flatMap fun r => pieces (cutsBetween cut r.1 r.2)).map mk = segmentsFrom cut slot k l := by
  induction l generalizing k with
  | nil => rfl
  | cons r l ih =>
    have htail := ih (k := k + 1) fun i q hi p hp => by
      rw [h (i + 1) q hi p hp, Nat.add_assoc, Nat.add_comm 1]
    rw [flatMap_cons, map_append, segmentsFrom, htail]
    congr 1
    exact map_congr_left fun p hp => h 0 r rfl p hp

theorem segmentsFrom_eq_map (hr : Ordered ranges) (cut : Nat → Bool) (slot : Nat → Nat) :
    (ranges.flatMap fun r => pieces (cutsBetween cut r.1 r.2)).map (fun p =>
      (⟨searchsortedRight (ranges.map Prod.snd) p.1, slot p.1,
        p.1 - (ranges.map Prod.fst).getD (searchsortedRight (ranges.map Prod.snd) p.1) 0,
        p.2 - p.1⟩ : Segment)) = segmentsFrom cut slot 0 ranges := by
  refine segmentsFrom_eq_flatMap fun i r hi p hp => ?_
  obtain ⟨h1, h2, h3⟩ := piece_inside (hr.nonempty r (mem_of_getElem? hi)) hp
  rw [searchsortedRight_ends hr hi h1 (by omega), Nat.zero_add]
  simp [hi]

/-- Inside a range no range starts or ends. -/
theorem ordered_edges (hr : Ordered ranges) (hmem : r ∈ ranges) {x : Nat} {P : Prop}
    {cut : Nat → Bool} (h1 : r.1 ≤ x) (h2 : x ≤ r.2)
    (hP : r.1 < x → x < r.2 → (P ↔ cut x = true)) :
    (P ∨ x ∈ ranges.map Prod.fst) ∨ x ∈ ranges.map Prod.snd ↔ x ∈ cutsBetween cut r.1 r.2 := by
  have hne := hr.nonempty r hmem
  rw [mem_cutsBetween hne]
  by_cases hx1 : x = r.1
  · have : x ∈ ranges.map Prod.fst := hx1 ▸ mem_map_of_mem hmem
    exact iff_of_true (.inl (.inr this)) (.inl hx1)
  by_cases hx2 : x = r.2
  · have : x ∈ ranges.map Prod.snd := hx2 ▸ mem_map_of_mem hmem
    exact iff_of_true (.inr this) (.inr (.inl hx2))
  have hout : ∀ q ∈ ranges, q.1 ≠ x ∧ q.2 ≠ x := by
    intro q hq
    have := hr.nonempty q hq
    rcases hr.apart hmem hq with rfl | h | h <;> omega
  have hstart : x ∉ ranges.map Prod.fst := by
    intro hx
    obtain ⟨q, hq, he⟩ := mem_map.1 hx
    exact (hout q hq).1 he
  have hstop : x ∉ ranges.map Prod.snd := by
    intro hx
    obtain ⟨q, hq, he⟩ := mem_map.1 hx
    exact (hout q hq).2 he
  have hx : (r.1 < x ∧ x < r.2) = True := eq_true (by omega)
  rw [hP (by omega) (by omega)]
  simp only [hstart, hstop, hx1, hx2, hx, or_false, false_or, true_and]

theorem mem_gapEdges_inside (hbs : 0 < blockSize) {x : Nat} (hfirst : firstBlock * blockSize < x)
    (hend : x < (firstBlock + blockIds.length) * blockSize) :
    (∃ i, (0 < i ∧ i < blockIds.length) ∧ x = (firstBlock + i) * blockSize ∧
        blockIds.getD i 0 ≠ blockIds.getD (i - 1) 0 + 1) ↔
      blockSize ∣ x ∧ blockIds.getD (x / blockSize - firstBlock) 0 ≠
        blockIds.getD (x / blockSize - firstBlock - 1) 0 + 1 := by
  constructor
  · rintro ⟨i, hi, rfl, hne⟩
    rw [Nat.mul_div_cancel _ hbs, Nat.add_sub_cancel_left]
    exact ⟨Nat.dvd_mul_left _ _, hne⟩
  · rintro ⟨⟨j, rfl⟩, hne⟩
    rw [Nat.mul_comm] at hfirst hend
    have hj : firstBlock < j := Nat.lt_of_mul_lt_mul_left hfirst
    have hj' : j < firstBlock + blockIds.length := Nat.lt_of_mul_lt_mul_right hend
    rw [Nat.mul_div_cancel_left _ hbs] at hne
    refine ⟨j - firstBlock, by omega, ?_, hne⟩
    rw [Nat.mul_comm]
    congr 1
    omega

section

variable (hc : c.Periodic) (hr : Ordered ranges) (hbs : 0 < blockSize)
variable (hcov : Covers blockIds blockSize firstBlock base ranges)
include hc hr hbs hcov

theorem mem_blockEdges (hmem : r ∈ ranges) {x : Nat} (h1 : r.1 ≤ x) (h2 : x ≤ r.2) :
    x ∈ c.blockEdges blockIds blockSize (ranges.map Prod.fst) (ranges.map Prod.snd) base
        firstBlock ↔
      x ∈ cutsBetween (cutAt c blockIds blockSize firstBlock base) r.1 r.2 := by
  obtain ⟨hlo, hhi⟩ := ordered_bounds hr hmem
  have hbase := hcov.base_le r hmem
  have hfirst := hcov.first_le r hmem
  have hend := hcov.end_le r hmem
  unfold DmaCycle.blockEdges
  simp only
  have hin : decide ((ranges.map Prod.fst).headD 0 ≤ x ∧ x ≤ (ranges.map Prod.snd).getLastD 0) =
      true := decide_eq_true ⟨by omega, by omega⟩
  rw [mem_filter, mem_uniqueSorted, mem_append, mem_append, mem_append, hin, and_iff_left rfl]
  rw [or_right_comm, or_right_comm (b := x ∈ ranges.map Prod.fst)]
  refine ordered_edges hr hmem h1 h2 fun h3 h4 => ?_
  have hperiodic := mem_periodic hc
    (show (ranges.map Prod.fst).headD 0 - base ≤ x - base by omega)
    (show x - base < (ranges.map Prod.snd).getLastD 0 - base by omega)
  have hgap := (mem_gapEdges blockIds firstBlock (x - base) hbs).trans
    (mem_gapEdges_inside hbs (by omega) (by omega))
  have hshift : ∀ l : List Nat, x ∈ l.map (· + base) ↔ x - base ∈ l := by
    intro l
    rw [mem_map]
    constructor
    · rintro ⟨y, hy, rfl⟩
      rwa [Nat.add_sub_cancel]
    · intro hx
      exact ⟨_, hx, by omega⟩
  rw [hshift, hshift, hperiodic, hgap]
  unfold cutAt
  rw [Bool.or_eq_true, Bool.and_eq_true, decide_eq_true_eq, decide_eq_true_eq, decide_eq_true_eq]

/-- **What the planner returns.** -/
theorem planBlockIdRanges_eq :
    c.planBlockIdRanges blockIds blockSize (ranges.map Prod.fst) (ranges.map Prod.snd) base
      firstBlock = .ok (segmentsFrom (cutAt c blockIds blockSize firstBlock base)
        (slotOf blockIds blockSize firstBlock base) 0 ranges) := by
  unfold DmaCycle.planBlockIdRanges
  rw [if_neg (by omega)]
  by_cases hnil : ranges = []
  · subst hnil
    rw [if_pos (.inr rfl)]
    rfl
  obtain ⟨⟨first, hfirst, hhead⟩, last, hlast, htail⟩ := exists_ends hnil
  have hlen : ranges.length ≠ 0 := fun h => hnil (length_eq_zero_iff.1 h)
  have hblocks : blockIds.length ≠ 0 := by
    intro h
    have h1 := hcov.first_le first hfirst
    have h2 := hcov.end_le first hfirst
    have h3 := hr.nonempty first hfirst
    have h4 := hcov.base_le first hfirst
    rw [h, Nat.add_zero] at h2
    omega
  rw [length_map, if_neg (not_or.2 ⟨hblocks, hlen⟩), if_neg ?invalid, if_neg ?covered]
  case invalid =>
    rintro (⟨s, hs, hlt⟩ | ⟨r, hr', hle⟩)
    · obtain ⟨r, hr', rfl⟩ := mem_map.1 hs
      have := hcov.base_le r hr'
      omega
    · rw [← zip_of_prod rfl rfl] at hr'
      have := hr.nonempty r hr'
      omega
  case covered =>
    have h1 := hcov.first_le first hfirst
    have h2 := hcov.end_le last hlast
    rw [hhead, htail]
    omega
  simp only
  rw [filter_pieces (cutAt c blockIds blockSize firstBlock base) ?sorted hr ?mem ?keep]
  case sorted => exact List.Pairwise.filter _ (pairwise_uniqueSorted _)
  case mem =>
    intro r hr' x h1 h2
    exact mem_blockEdges hc hr hbs hcov hr' h1 h2
  case keep =>
    intro p hp
    obtain ⟨-, hp2, hlt, -⟩ := (mem_pieces (List.Pairwise.filter _ (pairwise_uniqueSorted _))).1 hp
    have hstop := (of_decide_eq_true (mem_filter.1 hp2).2).2
    rw [decide_eq_true_eq]
    exact active_iff hr hlast hlt (htail ▸ hstop)
  exact congrArg Except.ok (segmentsFrom_eq_map hr _ _)

end

end

/-! ## Segments -/

section

variable (cut : Nat → Bool) (slot : Nat → Nat)

theorem segmentsFrom_append (k : Nat) (l m : List (Nat × Nat)) :
    segmentsFrom cut slot k (l ++ m) =
      segmentsFrom cut slot k l ++ segmentsFrom cut slot (k + l.length) m := by
  induction l generalizing k with
  | nil => rfl
  | cons r l ih =>
    rw [cons_append, segmentsFrom, segmentsFrom, ih, append_assoc, length_cons,
      Nat.add_assoc, Nat.add_comm 1]

theorem segmentsFrom_add (k d : Nat) (l : List (Nat × Nat)) :
    segmentsFrom cut slot (k + d) l =
      (segmentsFrom cut slot k l).map fun s => { s with chunk := s.chunk + d } := by
  induction l generalizing k with
  | nil => rfl
  | cons r l ih =>
    rw [segmentsFrom, segmentsFrom, map_append, map_map, Nat.add_right_comm, ih]
    rfl

variable {cut} {slot}

variable {l : List (Nat × Nat)}

/-- A piece of the range of a chunk: the tokens from `first` to before `last`. -/
structure Run where
  chunk : Nat
  start : Nat
  first : Nat
  last : Nat
  deriving DecidableEq, Repr

def Run.segment (slot : Nat → Nat) (x : Run) : Segment :=
  ⟨x.chunk, slot x.first, x.first - x.start, x.last - x.first⟩

def runsFrom (cut : Nat → Bool) : Nat → List (Nat × Nat) → List Run
  | _, [] => []
  | k, r :: rs =>
    (pieces (cutsBetween cut r.1 r.2)).map (fun p => ⟨k, r.1, p.1, p.2⟩) ++
      runsFrom cut (k + 1) rs

theorem segmentsFrom_eq_runs (slot : Nat → Nat) (k : Nat) (l : List (Nat × Nat)) :
    segmentsFrom cut slot k l = (runsFrom cut k l).map (Run.segment slot) := by
  induction l generalizing k with
  | nil => rfl
  | cons r l ih =>
    rw [segmentsFrom, runsFrom, ih, map_append, map_map]
    rfl

/-- A list that is made range by range, the first range being chunk `k`. -/
theorem mem_from {α : Type} {f : Nat → List (Nat × Nat) → List α} {row : Nat → Nat × Nat → List α}
    (hnil : ∀ k, f k [] = []) (hcons : ∀ k r rs, f k (r :: rs) = row k r ++ f (k + 1) rs)
    {k : Nat} {a : α} : a ∈ f k l ↔ ∃ i r, l[i]? = some r ∧ a ∈ row (k + i) r := by
  induction l generalizing k with
  | nil => simp [hnil]
  | cons q l ih =>
    rw [hcons, mem_append, ih]
    constructor
    · rintro (h | ⟨i, r, hi, h⟩)
      · exact ⟨0, q, rfl, h⟩
      · exact ⟨i + 1, r, hi, by rwa [Nat.add_assoc, Nat.add_comm 1] at h⟩
    · rintro ⟨_ | i, r, hi, h⟩
      · cases hi
        exact .inl h
      · exact .inr ⟨i, r, hi, by rwa [Nat.add_assoc, Nat.add_comm 1]⟩

theorem mem_runsFrom {k : Nat} {x : Run} :
    x ∈ runsFrom cut k l ↔ ∃ i r p, l[i]? = some r ∧ p ∈ pieces (cutsBetween cut r.1 r.2) ∧
      x = ⟨k + i, r.1, p.1, p.2⟩ := by
  refine (mem_from (fun _ => rfl) fun _ _ _ => rfl).trans ?_
  simp only [mem_map, exists_and_left, @eq_comm _ x]

theorem mem_segmentsFrom {k : Nat} {s : Segment} :
    s ∈ segmentsFrom cut slot k l ↔ ∃ i r p, l[i]? = some r ∧
      p ∈ pieces (cutsBetween cut r.1 r.2) ∧ s = ⟨k + i, slot p.1, p.1 - r.1, p.2 - p.1⟩ := by
  refine (mem_from (fun _ => rfl) fun _ _ _ => rfl).trans ?_
  simp only [mem_map, exists_and_left, @eq_comm _ s]

theorem chunk_of_mem {k : Nat} {s : Segment}
    (h : s ∈ segmentsFrom cut slot k l) : k ≤ s.chunk ∧ s.chunk < k + l.length := by
  obtain ⟨i, r, p, hi, -, rfl⟩ := mem_segmentsFrom.1 h
  have := lt_of_getElem? hi
  show k ≤ k + i ∧ k + i < k + l.length
  omega

theorem searchsorted_chunk (cut : Nat → Bool) (slot : Nat → Nat) (k : Nat) (l m : List (Nat × Nat)) :
    searchsorted ((segmentsFrom cut slot k (l ++ m)).map Segment.chunk) (k + l.length) =
      (segmentsFrom cut slot k l).length := by
  unfold searchsorted
  rw [segmentsFrom_append, map_append, countP_append]
  have h1 : ((segmentsFrom cut slot k l).map Segment.chunk).countP (fun x => decide
      (x < k + l.length)) = (segmentsFrom cut slot k l).length := by
    rw [← length_map (f := Segment.chunk), countP_eq_length]
    intro x hx
    obtain ⟨s, hs, rfl⟩ := mem_map.1 hx
    exact decide_eq_true (chunk_of_mem hs).2
  have h2 : ((segmentsFrom cut slot (k + l.length) m).map Segment.chunk).countP (fun x => decide
      (x < k + l.length)) = 0 := by
    rw [countP_eq_zero]
    intro x hx
    obtain ⟨s, hs, rfl⟩ := mem_map.1 hx
    rw [decide_eq_true_eq]
    have := (chunk_of_mem hs).1
    omega
  rw [h1, h2, Nat.add_zero]

theorem slot_of_piece {r p : Nat × Nat} (hr : r.1 < r.2)
    (hp : p ∈ pieces (cutsBetween cut r.1 r.2))
    (hrun : ∀ x, r.1 < x → x < r.2 → cut x = false → slot x = slot (x - 1) + 1) {t : Nat}
    (h1 : p.1 ≤ t) (h2 : t < p.2) : slot t = slot p.1 + (t - p.1) := by
  have hin := piece_inside hr hp
  induction t, h1 using Nat.le_induction with
  | base => omega
  | succ t ht ih =>
    have hx := hrun (t + 1) (by omega) (by omega) (piece_uncut hr hp (by omega) h2)
    have ih := ih (by omega)
    rw [Nat.add_sub_cancel] at hx
    omega

/-- A plan is decided by the cuts and the slots inside the ranges. -/
theorem segmentsFrom_congr {cut' : Nat → Bool} {slot' : Nat → Nat} (k : Nat)
    (hne : ∀ r ∈ l, r.1 < r.2) (hcut : ∀ r ∈ l, ∀ x, r.1 < x → x < r.2 → cut x = cut' x)
    (hslot : ∀ r ∈ l, ∀ t, r.1 ≤ t → t < r.2 → slot t = slot' t) :
    segmentsFrom cut slot k l = segmentsFrom cut' slot' k l := by
  induction l generalizing k with
  | nil => rfl
  | cons r l ih =>
    obtain ⟨hr, hl⟩ := forall_mem_cons.1 hne
    obtain ⟨hcr, hcl⟩ := forall_mem_cons.1 hcut
    obtain ⟨hsr, hsl⟩ := forall_mem_cons.1 hslot
    rw [segmentsFrom, segmentsFrom, ih _ hl hcl hsl, cutsBetween_congr hcr]
    congr 1
    refine map_congr_left fun p hp => ?_
    have := piece_inside hr hp
    rw [hsr p.1 (by omega) (by omega)]

end

/-! ## Slots and cuts of a block table -/

section

variable {c : DmaCycle} {blockIds : List Nat} {blockSize firstBlock base x : Nat}

theorem slotOf_of_not_dvd (hx : base < x) (hdvd : ¬blockSize ∣ x - base) :
    slotOf blockIds blockSize firstBlock base x =
      slotOf blockIds blockSize firstBlock base (x - 1) + 1 := by
  obtain ⟨y, rfl⟩ : ∃ y, x = base + (y + 1) := ⟨x - base - 1, by omega⟩
  unfold slotOf
  rw [Nat.add_sub_cancel_left] at hdvd ⊢
  have hy : base + (y + 1) - 1 - base = y := by omega
  have hdiv := Nat.succ_div_of_not_dvd hdvd
  have h1 := Nat.div_add_mod (y + 1) blockSize
  have h2 := Nat.div_add_mod y blockSize
  rw [hdiv] at h1
  rw [hy, hdiv]
  omega

theorem slotOf_of_dvd (hbs : 0 < blockSize) (hx : base < x) (hdvd : blockSize ∣ x - base) :
    slotOf blockIds blockSize firstBlock base x =
        slotOf blockIds blockSize firstBlock base (x - 1) + 1 ↔
      blockIds.getD ((x - base) / blockSize - firstBlock) 0 =
        blockIds.getD ((x - base) / blockSize - firstBlock - 1) 0 + 1 := by
  obtain ⟨y, rfl⟩ : ∃ y, x = base + (y + 1) := ⟨x - base - 1, by omega⟩
  unfold slotOf
  rw [Nat.add_sub_cancel_left] at hdvd ⊢
  have hy : base + (y + 1) - 1 - base = y := by omega
  have hdiv := Nat.succ_div_of_dvd hdvd
  have hmod : (y + 1) % blockSize = 0 := Nat.mod_eq_zero_of_dvd hdvd
  have hlast : y % blockSize + 1 = blockSize := by
    have h1 := Nat.div_add_mod (y + 1) blockSize
    have h2 := Nat.div_add_mod y blockSize
    rw [hdiv, hmod, Nat.mul_add, Nat.mul_one] at h1
    omega
  have hindex : y / blockSize + 1 - firstBlock - 1 = y / blockSize - firstBlock := by omega
  rw [hy, hdiv, hmod, hindex, Nat.add_assoc, hlast, Nat.add_zero, ← Nat.succ_mul]
  exact Nat.mul_right_cancel_iff hbs

theorem cutAt_eq (hbs : 0 < blockSize) (hx : base < x) :
    cutAt c blockIds blockSize firstBlock base x =
      (decide ((x - base) % c.period ∈ c.boundaries) || decide (blockSize ∣ x - base ∧
        slotOf blockIds blockSize firstBlock base x ≠
          slotOf blockIds blockSize firstBlock base (x - 1) + 1)) := by
  unfold cutAt
  congr 1
  rw [← Bool.decide_and]
  refine decide_eq_decide.2 (and_congr_right fun hdvd => not_congr ?_)
  exact (slotOf_of_dvd hbs hx hdvd).symm

theorem slotOf_of_uncut (hbs : 0 < blockSize) (hx : base < x)
    (hcut : cutAt c blockIds blockSize firstBlock base x = false) :
    slotOf blockIds blockSize firstBlock base x =
      slotOf blockIds blockSize firstBlock base (x - 1) + 1 := by
  by_cases hdvd : blockSize ∣ x - base
  · rw [cutAt_eq hbs hx, Bool.or_eq_false_iff, decide_eq_false_iff_not,
      decide_eq_false_iff_not, not_and, not_not] at hcut
    exact hcut.2 hdvd
  · exact slotOf_of_not_dvd hx hdvd

/-- Tables that place the tokens of the ranges alike give one plan. -/
theorem segmentsFrom_eq_of_slotOf {blockIds' : List Nat} {firstBlock' : Nat} (k : Nat)
    {ranges : List (Nat × Nat)} (hbs : 0 < blockSize) (hne : ∀ r ∈ ranges, r.1 < r.2)
    (hbase : ∀ r ∈ ranges, base ≤ r.1)
    (hslot : ∀ r ∈ ranges, ∀ t, r.1 ≤ t → t < r.2 →
      slotOf blockIds blockSize firstBlock base t =
        slotOf blockIds' blockSize firstBlock' base t) :
    segmentsFrom (cutAt c blockIds blockSize firstBlock base)
        (slotOf blockIds blockSize firstBlock base) k ranges =
      segmentsFrom (cutAt c blockIds' blockSize firstBlock' base)
        (slotOf blockIds' blockSize firstBlock' base) k ranges := by
  refine segmentsFrom_congr k hne (fun r hr x h1 h2 => ?_) hslot
  have hb := hbase r hr
  rw [cutAt_eq hbs (by omega), cutAt_eq hbs (by omega), hslot r hr x (by omega) h2,
    hslot r hr (x - 1) (by omega) (by omega)]

end

end LayerwiseDma
