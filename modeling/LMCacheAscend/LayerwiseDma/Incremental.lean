import LMCacheAscend.LayerwiseDma.Plan
import LMCacheAscend.Lib.Machine
import LMCacheAscend.Lib.Slices

/-!
# Incremental plans

`planBlockIdRangesIncremental` plans the ranges of one bank again, given the
plan before: it keeps the segments of the chunks that are still the same and
plans the rest, writing the new segments behind the kept ones in the backing
table that the plan before uses too.

Along any chain of calls with nonempty, sorted and disjoint ranges the plan that
a call returns is the one that `planBlockIdRanges` makes of the call's ranges and
block table, `maxSlotEnd` is the largest slot end of that plan, and a call that
raises changes no table, whatever its ranges are (`incremental_plans`).  The
invariant is `Represents`: what the record of the last plan says is true of the
table it points to.
-/

namespace LayerwiseDma

open Lib List

/-! ## Backing tables -/

/-- The tables that have been allocated, each a list of columns. -/
abbrev Tables (α : Type) := List (List α)

/-- `while capacity < required: capacity *= 2`, which ends as `capacity` is positive. -/
def growCapacity (required : Nat) : Nat → Nat → Nat
  | 0, capacity => capacity
  | n + 1, capacity =>
    if capacity < required then growCapacity required n (capacity * 2) else capacity

variable {α : Type}

/-- Columns of `torch.empty` hold `blank`.  Returns the table's index and how many columns were
copied from the table before. -/
def appendCpuColumns (blank : α) (previous : Option Nat) (keep : Nat) (suffix : List α)
    (tables : Tables α) : (Nat × Nat) × Tables α :=
  let required := keep + suffix.length
  match previous with
  | none =>
    let table := replicate (growCapacity required required 4) blank
    ((tables.length, 0), tables ++ [writeSlice table keep suffix])
  | some t =>
    let old := tables.getD t []
    if old.length < required then
      let table := replicate (growCapacity required required old.length) blank
      let table := writeSlice table 0 (old.take keep)
      ((tables.length, keep), tables ++ [writeSlice table keep suffix])
    else
      ((t, 0), tables.set t (writeSlice old keep suffix))

/-! ## The planner -/

def reusableRangeChunks (starts ends oldStarts oldEnds : List Nat) : Nat :=
  let count := oldStarts.length
  if count = 0 ∨ starts.length < count then 0
  else if starts.take (count - 1) ≠ oldStarts.dropLast ∨
      ends.take (count - 1) ≠ oldEnds.dropLast ∨
      starts.getD (count - 1) 0 ≠ oldStarts.getLastD 0 then 0
  else if ends.getD (count - 1) 0 = oldEnds.getLastD 0 then count
  else if oldEnds.getLastD 0 < ends.getD (count - 1) 0 then count - 1 else 0

structure IncrementalDmaPlan where
  cycle : Nat
  blockSize : Nat
  slotMappingBase : Nat
  blockIds : List Nat
  starts : List Nat
  ends : List Nat
  table : Nat
  segmentCount : Nat
  tailSegmentStart : Nat
  reusedChunks : Nat
  plannedChunks : Nat
  plannedBlocks : Nat
  copiedSegments : Nat
  mappingChanged : Bool
  maxSlotEnd : Nat
  deriving DecidableEq, Repr

/-- The plan that a record stands for, read from its table. -/
def IncrementalDmaPlan.plan (p : IncrementalDmaPlan) (tables : Tables Segment) : DmaPlan :=
  (tables.getD p.table []).take p.segmentCount

/-- The arguments of a call but for the previous plan; `cycle` is the identity of the cycle. -/
structure PlanCall where
  cycle : Nat
  blockIds : List Nat
  blockSize : Nat
  starts : List Nat
  ends : List Nat
  slotMappingBase : Nat
  slotCapacity : Option Nat
  deriving DecidableEq, Repr

namespace PlanCall

variable (c : PlanCall)

def usedBlocks : Nat :=
  match c.ends.getLast? with
  | none => 0
  | some e => (e - c.slotMappingBase + c.blockSize - 1) / c.blockSize

def blocks : List Nat := c.blockIds.take c.usedBlocks

def sameLayout (p : IncrementalDmaPlan) : Bool :=
  p.cycle = c.cycle ∧ p.blockSize = c.blockSize ∧ p.slotMappingBase = c.slotMappingBase

def sameMap (p : IncrementalDmaPlan) : Bool :=
  c.sameLayout p ∧ p.blockIds.length ≤ c.blocks.length ∧
    c.blocks.take p.blockIds.length = p.blockIds

def keepChunks : Option IncrementalDmaPlan → Nat
  | none => 0
  | some p => if c.sameMap p then reusableRangeChunks c.starts c.ends p.starts p.ends else 0

def keepSegments : Option IncrementalDmaPlan → Nat
  | none => 0
  | some p =>
    if c.keepChunks (some p) = 0 then 0
    else if c.keepChunks (some p) = p.starts.length then p.segmentCount
    else p.tailSegmentStart

/-- The block of the first token after the kept chunks. -/
def firstBlock (keep : Nat) : Nat :=
  if c.starts = [] then 0 else (c.starts.getD keep 0 - c.slotMappingBase) / c.blockSize

def overCapacity (maxSlotEnd : Nat) : Prop := ∃ cap ∈ c.slotCapacity, cap < maxSlotEnd

instance (m : Nat) : Decidable (c.overCapacity m) :=
  decidable_of_iff (c.slotCapacity.any fun cap => cap < m) (by
    unfold overCapacity
    cases c.slotCapacity <;> simp)

end PlanCall

/-- `(suffix.slot + suffix.tokens).max()`, zero for no segment. -/
def planSlotEnd (plan : DmaPlan) : Nat := (plan.map fun s => s.slot + s.tokens).foldr max 0

variable (cycles : Nat → DmaCycle) (blank : Segment)

/-- The rest of the ranges, from chunk `keep` on, is planned from its first block on. -/
def PlanCall.planSuffix (c : PlanCall) (keep : Nat) : Except DmaError DmaPlan :=
  (cycles c.cycle).planBlockIdRanges (c.blocks.drop (c.firstBlock keep)) c.blockSize
    (c.starts.drop keep) (c.ends.drop keep) c.slotMappingBase (c.firstBlock keep)

/-- The suffix is written behind the kept segments; `first` is the first block planned. -/
def PlanCall.append (c : PlanCall) (previous : Option IncrementalDmaPlan) (keep first top : Nat)
    (suffix : DmaPlan) (tables : Tables Segment) : IncrementalDmaPlan × Tables Segment :=
  let keepSegments := c.keepSegments previous
  let columns := suffix.map fun s => { s with chunk := s.chunk + keep }
  let r := appendCpuColumns blank (if keep = 0 then none else previous.map (·.table)) keepSegments
    columns tables
  ({  cycle := c.cycle, blockSize := c.blockSize, slotMappingBase := c.slotMappingBase
      blockIds := c.blocks, starts := c.starts, ends := c.ends
      table := r.1.1
      segmentCount := keepSegments + suffix.length
      tailSegmentStart := if c.starts = [] then 0 else
        keepSegments + searchsorted (suffix.map Segment.chunk) (c.starts.length - keep - 1)
      reusedChunks := keep
      plannedChunks := c.starts.length - keep
      plannedBlocks := c.blocks.length - first
      copiedSegments := r.1.2
      mappingChanged := (previous.map fun p => !c.sameMap p).getD false
      maxSlotEnd := top }, r.2)

def planBlockIdRangesIncremental (c : PlanCall) (previous : Option IncrementalDmaPlan)
    (tables : Tables Segment) : Except DmaError IncrementalDmaPlan × Tables Segment :=
  if c.starts.length ≠ c.ends.length ∨ c.blockSize ≤ 0 then
    (.error "Invalid incremental DMA ranges or block size", tables)
  else if c.blocks.length < c.usedBlocks then
    (.error "DMA block IDs do not cover the requested range", tables)
  else
    let keep := c.keepChunks previous
    match previous.filter fun p => keep = c.starts.length ∧ c.sameMap p with
    | some p =>
      if c.overCapacity p.maxSlotEnd then
        (.error "Layerwise prefill DMA slot map exceeds NPU bank", tables)
      else
        (.ok { p with
          cycle := c.cycle, blockSize := c.blockSize, slotMappingBase := c.slotMappingBase
          blockIds := c.blocks, starts := c.starts, ends := c.ends
          reusedChunks := keep, plannedChunks := 0, plannedBlocks := 0, copiedSegments := 0
          mappingChanged := false }, tables)
    | none =>
      match c.planSuffix cycles keep with
      | .error e => (.error e, tables)
      | .ok suffix =>
        let top := max (if keep = 0 then 0 else (previous.map (·.maxSlotEnd)).getD 0)
          (planSlotEnd suffix)
        -- checked before the write, which may replace the tail of the plan before
        if c.overCapacity top then
          (.error "Layerwise prefill DMA slot map exceeds NPU bank", tables)
        else
          let r := c.append blank previous keep (c.firstBlock keep) top suffix tables
          (.ok r.1, r.2)

/-! ## What a write into a table does -/

theorem le_growCapacity {required : Nat} (n capacity : Nat) (hpos : 0 < capacity)
    (h : required ≤ capacity + n) : required ≤ growCapacity required n capacity := by
  induction n generalizing capacity with
  | zero => exact h
  | succ n ih =>
    rw [growCapacity]
    split
    · exact ih (capacity * 2) (by omega) (by omega)
    · omega

theorem capacity_le_growCapacity (required n capacity : Nat) :
    capacity ≤ growCapacity required n capacity := by
  induction n generalizing capacity with
  | zero => exact Nat.le_refl _
  | succ n ih =>
    rw [growCapacity]
    split
    · have := ih (capacity * 2)
      omega
    · exact Nat.le_refl _

theorem take_writeSlice {table ys : List α} {keep : Nat} (h : keep + ys.length ≤ table.length) :
    (writeSlice table keep ys).take (keep + ys.length) = table.take keep ++ ys := by
  unfold writeSlice
  have hlen : (table.take keep ++ ys).length = keep + ys.length := by
    rw [length_append, length_take, Nat.min_eq_left (by omega)]
  exact take_left' hlen

/-- The first columns of a table that an index names. -/
def Tables.Starts (tables : Tables α) (t : Nat) (columns : List α) : Prop :=
  ∃ table, tables[t]? = some table ∧ table.take columns.length = columns ∧ 0 < table.length

/-- Where columns are kept; without a table there are none. -/
def Tables.Keeps (tables : Tables α) (kept : List α) : Option Nat → Prop
  | none => kept = []
  | some t => tables.Starts t kept

theorem appendCpuColumns_starts (blank : α) {previous : Option Nat} {kept : List α}
    (suffix : List α) {tables : Tables α} (h : tables.Keeps kept previous) :
    (appendCpuColumns blank previous kept.length suffix tables).2.Starts
      (appendCpuColumns blank previous kept.length suffix tables).1.1 (kept ++ suffix) := by
  have hgrow : ∀ capacity, 0 < capacity → kept.length + suffix.length ≤
      growCapacity (kept.length + suffix.length) (kept.length + suffix.length) capacity :=
    fun capacity hpos => le_growCapacity _ _ hpos (by omega)
  -- a table with room that starts with the kept columns
  have hwrite : ∀ (table : List α), kept.length + suffix.length ≤ table.length →
      table.take kept.length = kept → 0 < table.length →
      (writeSlice table kept.length suffix).take (kept ++ suffix).length = kept ++ suffix ∧
        0 < (writeSlice table kept.length suffix).length := by
    intro table hroom htake hpos
    rw [length_append, take_writeSlice hroom, htake, length_writeSlice hroom]
    exact ⟨rfl, hpos⟩
  unfold appendCpuColumns
  cases previous with
  | none =>
    rw [show kept = [] from h] at hgrow hwrite ⊢
    refine ⟨_, getElem?_concat_length, ?_⟩
    have hroom := hgrow 4 (by omega)
    refine hwrite _ (by rwa [length_replicate]) rfl ?_
    rw [length_replicate]
    exact Nat.lt_of_lt_of_le (by omega) (capacity_le_growCapacity _ _ 4)
  | some t =>
    obtain ⟨old, hold, hkept, hpos⟩ := h
    have hle : kept.length ≤ old.length := by
      rw [← hkept, length_take]
      exact Nat.min_le_right _ _
    simp only [getD_eq_getElem?_getD, hold, Option.getD_some]
    split
    · next hfull =>
      refine ⟨_, getElem?_concat_length, ?_⟩
      have hroom := hgrow old.length hpos
      generalize hn : growCapacity (kept.length + suffix.length) (kept.length + suffix.length)
        old.length = n at hroom ⊢
      have hfit : 0 + (old.take kept.length).length ≤ (replicate n blank).length := by
        rw [hkept, length_replicate]
        omega
      have hlen := length_writeSlice hfit
      rw [length_replicate] at hlen
      have htake := take_writeSlice hfit
      rw [hkept, Nat.zero_add, take_zero, nil_append] at htake
      exact hwrite _ (by rw [hlen]; exact hroom) (by rw [hkept]; exact htake) (by rw [hlen]; omega)
    · next hfull =>
      have ht : t < tables.length := lt_of_getElem? hold
      exact ⟨_, getElem?_set_self ht, hwrite old (by omega) hkept hpos⟩

/-! ## The largest slot end -/

theorem le_planSlotEnd {plan : DmaPlan} {s : Segment} (h : s ∈ plan) :
    s.slot + s.tokens ≤ planSlotEnd plan := by
  induction plan with
  | nil => cases h
  | cons r plan ih =>
    show _ ≤ max (r.slot + r.tokens) (planSlotEnd plan)
    rcases mem_cons.1 h with rfl | h
    · exact Nat.le_max_left _ _
    · exact Nat.le_trans (ih h) (Nat.le_max_right _ _)

theorem planSlotEnd_le {plan : DmaPlan} {n : Nat} (h : ∀ s ∈ plan, s.slot + s.tokens ≤ n) :
    planSlotEnd plan ≤ n := by
  induction plan with
  | nil => exact Nat.zero_le _
  | cons r plan ih =>
    obtain ⟨hr, hplan⟩ := forall_mem_cons.1 h
    exact Nat.max_le.2 ⟨hr, ih hplan⟩

theorem planSlotEnd_append (l m : DmaPlan) :
    planSlotEnd (l ++ m) = max (planSlotEnd l) (planSlotEnd m) := by
  induction l with
  | nil => exact (Nat.max_eq_right (Nat.zero_le _)).symm
  | cons r l ih =>
    show max (r.slot + r.tokens) (planSlotEnd (l ++ m)) = _
    rw [ih, ← Nat.max_assoc]
    rfl

theorem planSlotEnd_renumber (plan : DmaPlan) (d : Nat) :
    planSlotEnd (plan.map fun s => { s with chunk := s.chunk + d }) = planSlotEnd plan := by
  unfold planSlotEnd
  rw [map_map]
  rfl

/-! ## Segments of a block table -/

/-- The segments that a block table gives the ranges, from chunk `k` on. -/
def segmentsOf (cycle : DmaCycle) (blockIds : List Nat) (blockSize base k : Nat)
    (ranges : List (Nat × Nat)) : DmaPlan :=
  segmentsFrom (cutAt cycle blockIds blockSize 0 base) (slotOf blockIds blockSize 0 base) k ranges

section

variable {cycle : DmaCycle} {blockIds : List Nat} {blockSize base k : Nat}
  {ranges : List (Nat × Nat)}

theorem run_of_mem (hbs : 0 < blockSize) (hne : ∀ r ∈ ranges, r.1 < r.2)
    (hbase : ∀ r ∈ ranges, base ≤ r.1) {s : Segment}
    (h : s ∈ segmentsOf cycle blockIds blockSize base k ranges) :
    ∃ r ∈ ranges, ∃ p : Nat × Nat, (r.1 ≤ p.1 ∧ p.1 < p.2 ∧ p.2 ≤ r.2) ∧
      s.tokens = p.2 - p.1 ∧ ∀ t, p.1 ≤ t → t < p.2 →
        slotOf blockIds blockSize 0 base t = s.slot + (t - p.1) := by
  obtain ⟨i, r, p, hi, hp, rfl⟩ := mem_segmentsFrom.1 h
  have hr := mem_of_getElem? hi
  refine ⟨r, hr, p, piece_inside (hne r hr) hp, rfl, fun t h1 h2 => ?_⟩
  refine slot_of_piece (hne r hr) hp (fun x hx _ hcut => ?_) h1 h2
  have := hbase r hr
  exact slotOf_of_uncut hbs (by omega) hcut

theorem slot_lt_planSlotEnd (cycle : DmaCycle) (blockIds : List Nat) (k : Nat)
    (hbs : 0 < blockSize) (hne : ∀ r ∈ ranges, r.1 < r.2)
    (hbase : ∀ r ∈ ranges, base ≤ r.1) {r : Nat × Nat} (hr : r ∈ ranges) {t : Nat} (h1 : r.1 ≤ t)
    (h2 : t < r.2) : slotOf blockIds blockSize 0 base t <
      planSlotEnd (segmentsOf cycle blockIds blockSize base k ranges) := by
  obtain ⟨i, hi⟩ := mem_iff_getElem?.1 hr
  have hb := hbase r hr
  have hrun : ∀ x, r.1 < x → x < r.2 → cutAt cycle blockIds blockSize 0 base x = false →
      slotOf blockIds blockSize 0 base x = slotOf blockIds blockSize 0 base (x - 1) + 1 :=
    fun x hx _ hcut => slotOf_of_uncut hbs (by omega) hcut
  obtain ⟨p, hp, hp1, hp2⟩ := exists_piece_between (cutAt cycle blockIds blockSize 0 base)
    (hne r hr) h1 h2
  have hs := slot_of_piece (hne r hr) hp hrun hp1 hp2
  have hmem : (⟨k + i, slotOf blockIds blockSize 0 base p.1, p.1 - r.1, p.2 - p.1⟩ : Segment) ∈
      segmentsOf cycle blockIds blockSize base k ranges :=
    mem_segmentsFrom.2 ⟨i, r, p, hi, hp, rfl⟩
  have hle := le_planSlotEnd hmem
  simp only at hle
  omega

theorem planSlotEnd_mono {ranges' : List (Nat × Nat)} (hbs : 0 < blockSize)
    (hne : ∀ r ∈ ranges, r.1 < r.2) (hbase : ∀ r ∈ ranges, base ≤ r.1)
    (hne' : ∀ r ∈ ranges', r.1 < r.2) (hbase' : ∀ r ∈ ranges', base ≤ r.1)
    (hsub : ∀ r ∈ ranges, ∃ r' ∈ ranges', r'.1 ≤ r.1 ∧ r.2 ≤ r'.2) (cycle : DmaCycle)
    (blockIds : List Nat) (k k' : Nat) :
    planSlotEnd (segmentsOf cycle blockIds blockSize base k ranges) ≤
      planSlotEnd (segmentsOf cycle blockIds blockSize base k' ranges') := by
  refine planSlotEnd_le fun s hs => ?_
  obtain ⟨r, hr, p, hp, htokens, hslot⟩ := run_of_mem hbs hne hbase hs
  obtain ⟨r', hr', h1, h2⟩ := hsub r hr
  have hlast := hslot (p.2 - 1) (by omega) (by omega)
  have := slot_lt_planSlotEnd cycle blockIds k' hbs hne' hbase' hr'
    (show r'.1 ≤ p.2 - 1 by omega) (by omega)
  omega

/-- A table and its first blocks, up to those that cover the ranges, give one plan. -/
theorem segmentsOf_take (cycle : DmaCycle) (k : Nat) {n : Nat} (hbs : 0 < blockSize) (hne : ∀ r ∈ ranges, r.1 < r.2)
    (hcov : Covers (blockIds.take n) blockSize 0 base ranges) :
    segmentsOf cycle (blockIds.take n) blockSize base k ranges =
      segmentsOf cycle blockIds blockSize base k ranges := by
  refine segmentsFrom_eq_of_slotOf k hbs hne hcov.base_le fun r hr t h1 h2 => ?_
  have hend := hcov.end_le r hr
  rw [Nat.zero_add] at hend
  have hbase := hcov.base_le r hr
  have hindex : (t - base) / blockSize < (blockIds.take n).length := by
    rw [Nat.div_lt_iff_lt_mul hbs]
    omega
  unfold slotOf
  rw [Nat.sub_zero, getD_eq_getElem?_getD, getD_eq_getElem?_getD, getElem?_take_of_lt]
  rw [length_take] at hindex
  omega

end

/-! ## What is kept -/

variable {l : List (Nat × Nat)} {q : IncrementalDmaPlan} {t : Tables Segment}

theorem eq_of_map_fst_snd {m : List (Nat × Nat)} (h1 : l.map Prod.fst = m.map Prod.fst)
    (h2 : l.map Prod.snd = m.map Prod.snd) : l = m :=
  (zip_of_prod h1 h2).trans (zip_of_prod rfl rfl).symm

/-- The kept chunks are the same, and when the last chunk before is not among them it has grown. -/
theorem reusableRangeChunks_spec {ranges old : List (Nat × Nat)} {k : Nat}
    (h : reusableRangeChunks (ranges.map Prod.fst) (ranges.map Prod.snd) (old.map Prod.fst)
      (old.map Prod.snd) = k) (hk : k ≠ 0) :
    k ≤ ranges.length ∧ ranges.take k = old.take k ∧
      (k = old.length ∨ k + 1 = old.length ∧
        ∀ q ∈ old.drop k, ∃ r ∈ ranges.drop k, r.1 = q.1 ∧ q.2 ≤ r.2) := by
  unfold reusableRangeChunks at h
  simp only [length_map] at h
  split at h
  · exact absurd h.symm hk
  · next hcount =>
    rw [not_or, Nat.not_lt] at hcount
    split at h
    · exact absurd h.symm hk
    · next hsame =>
      rw [not_or, not_or, not_not, not_not, not_not] at hsame
      obtain ⟨hstarts, hends, hlast⟩ := hsame
      -- the last chunk before, and the chunk in its place
      rcases eq_nil_or_concat old with rfl | ⟨front, last, hold⟩
      · exact absurd rfl hcount.1
      rw [concat_eq_append] at hold
      subst hold
      rw [length_append, length_singleton, Nat.add_sub_cancel] at *
      have hn : front.length < ranges.length := hcount.2
      obtain ⟨pre, r, post, rfl, hpre⟩ : ∃ pre r post, ranges = pre ++ r :: post ∧
          pre.length = front.length :=
        ⟨ranges.take front.length, ranges[front.length], ranges.drop (front.length + 1),
          by rw [← drop_eq_getElem_cons hn, take_append_drop],
          by rw [length_take]; omega⟩
      simp only [map_append, map_cons, map_nil, ← hpre, dropLast_concat,
        getLastD_concat] at hstarts hends hlast h
      rw [← length_map (f := Prod.fst), take_left] at hstarts
      rw [← length_map (f := Prod.snd), take_left] at hends
      have hfront := eq_of_map_fst_snd hstarts hends
      subst hfront
      have hget1 : (pre.map Prod.fst ++ r.1 :: post.map Prod.fst).getD pre.length 0 = r.1 := by simp
      have hget2 : (pre.map Prod.snd ++ r.2 :: post.map Prod.snd).getD pre.length 0 = r.2 := by simp
      rw [hget1] at hlast
      rw [hget2] at h
      have htake : (pre ++ r :: post).take pre.length = pre := take_left
      split at h
      · next heq =>
        have hr : r = last := Prod.ext hlast heq
        subst hr
        have hlen : (pre ++ [r]).length = k := by rw [← h, length_append]; rfl
        rw [← hlen]
        refine ⟨by simp, ?_, .inl (length_append)⟩
        rw [take_length, append_cons pre r post, take_left]
      · split at h
        · next hlt =>
          rw [← h]
          refine ⟨by simp, by rw [htake, take_left], .inr ⟨rfl, fun q hq => ?_⟩⟩
          rw [drop_left, mem_singleton] at hq
          rw [drop_left, hq]
          exact ⟨r, mem_cons_self, hlast, Nat.le_of_lt hlt⟩
        · exact absurd h.symm hk

/-! ## One call -/

def PlanCall.ranges (c : PlanCall) : List (Nat × Nat) := c.starts.zip c.ends

def IncrementalDmaPlan.ranges (p : IncrementalDmaPlan) : List (Nat × Nat) := p.starts.zip p.ends

/-- What callers promise of the ranges: nonempty, in order, from the base of the mapping on. -/
structure PlanCall.Ranged (c : PlanCall) : Prop where
  ordered : Ordered c.ranges
  base_le : ∀ r ∈ c.ranges, c.slotMappingBase ≤ r.1

/-- The segments that the record's ranges and block table give. -/
def IncrementalDmaPlan.segments (p : IncrementalDmaPlan) : DmaPlan :=
  segmentsOf (cycles p.cycle) p.blockIds p.blockSize p.slotMappingBase 0 p.ranges

/-- What a record says is true of its table. -/
structure IncrementalDmaPlan.Represents (p : IncrementalDmaPlan) (tables : Tables Segment) :
    Prop where
  lengths : p.starts.length = p.ends.length
  size_pos : 0 < p.blockSize
  ordered : Ordered p.ranges
  covers : Covers p.blockIds p.blockSize 0 p.slotMappingBase p.ranges
  starts : tables.Starts p.table (p.segments cycles)
  count : p.segmentCount = (p.segments cycles).length
  tail : p.tailSegmentStart = (segmentsOf (cycles p.cycle) p.blockIds p.blockSize
    p.slotMappingBase 0 p.ranges.dropLast).length
  top : p.maxSlotEnd = planSlotEnd (p.segments cycles)

variable {cycles} {blank}

variable {p : IncrementalDmaPlan}

theorem IncrementalDmaPlan.Represents.plan_eq {tables : Tables Segment}
    (h : p.Represents cycles tables) : p.plan tables = p.segments cycles := by
  obtain ⟨table, htable, htake, -⟩ := h.starts
  unfold IncrementalDmaPlan.plan
  rw [getD_eq_getElem?_getD, htable, Option.getD_some, h.count, htake]

theorem map_zip {l m : List Nat} (h : l.length = m.length) :
    (l.zip m).map Prod.fst = l ∧ (l.zip m).map Prod.snd = m :=
  ⟨map_fst_zip (Nat.le_of_eq h), map_snd_zip (Nat.le_of_eq h.symm)⟩

theorem PlanCall.sameMap_iff {c : PlanCall} : c.sameMap p = true ↔
    (p.cycle = c.cycle ∧ p.blockSize = c.blockSize ∧ p.slotMappingBase = c.slotMappingBase) ∧
      c.blocks.take p.blockIds.length = p.blockIds := by
  unfold PlanCall.sameMap PlanCall.sameLayout
  rw [decide_eq_true_eq, decide_eq_true_eq]
  refine and_congr_right fun _ => and_iff_right_of_imp fun h => ?_
  rw [← h, length_take]
  exact Nat.min_le_right _ _

theorem PlanCall.covers {c : PlanCall} (hr : c.Ranged) (hlen : c.starts.length = c.ends.length)
    (hbs : 0 < c.blockSize) (hused : c.usedBlocks ≤ c.blocks.length) :
    Covers c.blocks c.blockSize 0 c.slotMappingBase c.ranges := by
  refine ⟨hr.base_le, fun r _ => by rw [Nat.zero_mul]; exact Nat.zero_le _, fun r hmem => ?_⟩
  have hle := (ordered_bounds hr.ordered hmem).2
  rw [PlanCall.ranges, (map_zip hlen).2] at hle
  unfold PlanCall.usedBlocks at hused
  rw [getLastD_eq_getLast?] at hle
  rcases hlast : c.ends.getLast? with - | e
  · rw [getLast?_eq_none_iff] at hlast
    unfold PlanCall.ranges at hmem
    rw [hlast, zip_nil_right] at hmem
    cases hmem
  · rw [hlast] at hle hused
    rw [Option.getD_some] at hle
    simp only at hused
    rw [Nat.div_le_iff_le_mul_add_pred hbs] at hused
    rw [Nat.zero_add, Nat.mul_comm]
    omega

theorem Covers.subset {blockIds : List Nat} {blockSize firstBlock base : Nat}
    {ranges : List (Nat × Nat)} (h : Covers blockIds blockSize firstBlock base ranges)
    (hl : l ⊆ ranges) : Covers blockIds blockSize firstBlock base l :=
  ⟨fun r hr => h.base_le r (hl hr), fun r hr => h.first_le r (hl hr),
    fun r hr => h.end_le r (hl hr)⟩

theorem Tables.Starts.left {tables : Tables α} {t : Nat} {l m : List α}
    (h : tables.Starts t (l ++ m)) : tables.Starts t l := by
  obtain ⟨table, htable, htake, hpos⟩ := h
  refine ⟨table, htable, ?_, hpos⟩
  have := congrArg (List.take l.length) htake
  rwa [take_left, take_take, length_append, Nat.min_eq_left (by omega)] at this

theorem planSlotEnd_segmentsOf (cycle : DmaCycle) (blockIds : List Nat) (blockSize base k : Nat)
    (ranges : List (Nat × Nat)) :
    planSlotEnd (segmentsOf cycle blockIds blockSize base k ranges) =
      planSlotEnd (segmentsOf cycle blockIds blockSize base 0 ranges) := by
  have h := segmentsFrom_add (cutAt cycle blockIds blockSize 0 base)
    (slotOf blockIds blockSize 0 base) 0 k ranges
  rw [Nat.zero_add] at h
  unfold segmentsOf
  rw [h, planSlotEnd_renumber]

theorem segmentsOf_append (cycle : DmaCycle) (blockIds : List Nat) (blockSize base : Nat)
    (l m : List (Nat × Nat)) :
    segmentsOf cycle blockIds blockSize base 0 (l ++ m) =
      segmentsOf cycle blockIds blockSize base 0 l ++
        segmentsOf cycle blockIds blockSize base l.length m := by
  unfold segmentsOf
  rw [segmentsFrom_append, Nat.zero_add]

section

variable {c : PlanCall} {tables : Tables Segment}

/-- With the same map the call's blocks give what the record's blocks gave. -/
theorem IncrementalDmaPlan.Represents.segmentsOf_eq (h : p.Represents cycles tables)
    (hs : c.sameMap p = true) (k : Nat) (hl : l ⊆ p.ranges) :
    segmentsOf (cycles p.cycle) p.blockIds p.blockSize p.slotMappingBase k l =
      segmentsOf (cycles c.cycle) c.blocks c.blockSize c.slotMappingBase k l := by
  obtain ⟨⟨hcycle, hsize, hbase⟩, hids⟩ := PlanCall.sameMap_iff.1 hs
  have hcov := h.covers.subset hl
  have hpos := h.size_pos
  rw [hsize, hbase, ← hids] at hcov
  rw [hsize] at hpos
  have := segmentsOf_take (cycles c.cycle) k hpos
    (fun r hr => h.ordered.nonempty r (hl hr)) hcov
  rw [hids] at this
  rw [hcycle, hsize, hbase, this]

variable {previous : Option IncrementalDmaPlan}

theorem keepChunks_spec (hlen : c.starts.length = c.ends.length)
    (hprev : ∀ p ∈ previous, p.Represents cycles tables) {k : Nat}
    (hk : c.keepChunks previous = k) (hk0 : k ≠ 0) :
    ∃ p ∈ previous, c.sameMap p = true ∧ k ≤ c.ranges.length ∧
      c.ranges.take k = p.ranges.take k ∧
      (k = p.ranges.length ∨ k + 1 = p.ranges.length ∧
        ∀ q ∈ p.ranges.drop k, ∃ r ∈ c.ranges.drop k, r.1 = q.1 ∧ q.2 ≤ r.2) := by
  rcases hp : previous with - | p
  · rw [hp] at hk
    exact absurd hk.symm hk0
  have hrep := hprev p hp
  rw [hp] at hk
  unfold PlanCall.keepChunks at hk
  simp only at hk
  split at hk
  · next hsame =>
    have hspec : reusableRangeChunks (c.ranges.map Prod.fst) (c.ranges.map Prod.snd)
        (p.ranges.map Prod.fst) (p.ranges.map Prod.snd) = k := by
      unfold PlanCall.ranges IncrementalDmaPlan.ranges
      rwa [(map_zip hlen).1, (map_zip hlen).2, (map_zip hrep.lengths).1, (map_zip hrep.lengths).2]
    exact ⟨p, rfl, hsame, reusableRangeChunks_spec hspec hk0⟩
  · exact absurd hk.symm hk0

/-- The kept chunks have the kept rows, and the largest slot end is that of all. -/
theorem kept_spec (previous : Option IncrementalDmaPlan)
    (hr : c.Ranged) (hlen : c.starts.length = c.ends.length) (hbs : 0 < c.blockSize)
    (hprev : ∀ p ∈ previous, p.Represents cycles tables) {k : Nat}
    (hk : c.keepChunks previous = k) :
    k ≤ c.ranges.length ∧
    c.keepSegments previous = (segmentsOf (cycles c.cycle) c.blocks c.blockSize
      c.slotMappingBase 0 (c.ranges.take k)).length ∧
    tables.Keeps (segmentsOf (cycles c.cycle) c.blocks c.blockSize c.slotMappingBase 0
      (c.ranges.take k)) (if k = 0 then none else previous.map (·.table)) ∧
    max (if k = 0 then 0 else (previous.map (·.maxSlotEnd)).getD 0)
        (planSlotEnd (segmentsOf (cycles c.cycle) c.blocks c.blockSize c.slotMappingBase 0
          (c.ranges.drop k))) =
      planSlotEnd (segmentsOf (cycles c.cycle) c.blocks c.blockSize c.slotMappingBase 0
        c.ranges) := by
  by_cases hk0 : k = 0
  · subst hk0
    refine ⟨Nat.zero_le _, ?_, rfl, by rw [if_pos rfl, drop_zero, Nat.zero_max]⟩
    cases previous with
    | none => rfl
    | some p => exact if_pos hk
  obtain ⟨p, hp, hsame, hle, htake, hcase⟩ := keepChunks_spec hlen hprev hk hk0
  have hrep := hprev p hp
  rw [Option.mem_def] at hp
  subst hp
  have hcount : p.starts.length = p.ranges.length := by
    rw [← (map_zip hrep.lengths).1, length_map]
    rfl
  -- what is planned is what was kept and the rest
  have htotal := segmentsOf_append (cycles c.cycle) c.blocks c.blockSize c.slotMappingBase
    (c.ranges.take k) (c.ranges.drop k)
  rw [take_append_drop] at htotal
  have hsegments := hrep.segmentsOf_eq hsame 0 (Subset.refl _)
  have hstarts := hrep.starts
  have htop := hrep.top
  unfold IncrementalDmaPlan.segments at hstarts htop
  rw [hsegments] at hstarts htop
  have hsplit := segmentsOf_append (cycles c.cycle) c.blocks c.blockSize c.slotMappingBase
    (p.ranges.take k) (p.ranges.drop k)
  rw [take_append_drop, ← htake] at hsplit
  rw [hsplit] at hstarts
  rw [if_neg hk0, if_neg hk0, htotal, planSlotEnd_append, planSlotEnd_segmentsOf _ _ _ _
    (c.ranges.take k).length]
  have hkept : tables.Keeps _ (some p.table) := hstarts.left
  refine ⟨hle, ?_, hkept, ?_⟩
  · unfold PlanCall.keepSegments
    simp only [hk, hk0, if_false, hcount]
    rcases hcase with hall | ⟨hlast, -⟩
    · rw [if_pos hall, hrep.count]
      unfold IncrementalDmaPlan.segments
      rw [hsegments, htake, hall, take_length]
    · rw [if_neg (by omega), hrep.tail, hrep.segmentsOf_eq hsame 0 (dropLast_subset _),
        dropLast_eq_take, htake, ← hlast, Nat.add_sub_cancel]
  · rw [Option.map_some, Option.getD_some, htop, hsplit, planSlotEnd_append,
      planSlotEnd_segmentsOf _ _ _ _ (c.ranges.take k).length]
    rcases hcase with hall | ⟨-, hgrown⟩
    · have hnil : p.ranges.drop k = [] := drop_eq_nil_of_le (by omega)
      rw [hnil]
      simp [segmentsOf, segmentsFrom, planSlotEnd]
    · have hinside : ∀ q ∈ p.ranges.drop k, ∃ r ∈ c.ranges.drop k, r.1 ≤ q.1 ∧ q.2 ≤ r.2 :=
        fun q hq => by
          obtain ⟨r, hmem, h1, h2⟩ := hgrown q hq
          exact ⟨r, hmem, Nat.le_of_eq h1, h2⟩
      have hbase : ∀ q ∈ p.ranges.drop k, c.slotMappingBase ≤ q.1 := fun q hq => by
        obtain ⟨r, hmem, h1, -⟩ := hgrown q hq
        have := hr.base_le r (mem_of_mem_drop hmem)
        omega
      have hmono := planSlotEnd_mono hbs
        (fun r hmem => hrep.ordered.nonempty r (mem_of_mem_drop hmem)) hbase
        (fun r hmem => hr.ordered.nonempty r (mem_of_mem_drop hmem))
        (fun r hmem => hr.base_le r (mem_of_mem_drop hmem)) hinside
        (cycles c.cycle) c.blocks 0 0
      omega

theorem getD_drop (l : List Nat) {n i : Nat} (h : n ≤ i) : (l.drop n).getD (i - n) 0 = l.getD i 0 := by
  rw [getD_eq_getElem?_getD, getD_eq_getElem?_getD, getElem?_drop,
    Nat.add_sub_cancel' h]

/-- The chunks behind the kept ones are planned as in a fresh call. -/
theorem PlanCall.planSuffix_eq (hcycles : ∀ i, (cycles i).Periodic) (hr : c.Ranged)
    (hlen : c.starts.length = c.ends.length) (hbs : 0 < c.blockSize)
    (hused : c.usedBlocks ≤ c.blocks.length) (k : Nat) :
    c.planSuffix cycles k = .ok (segmentsOf (cycles c.cycle) c.blocks c.blockSize
      c.slotMappingBase 0 (c.ranges.drop k)) := by
  have hcov := PlanCall.covers hr hlen hbs hused
  have hfst : c.starts.drop k = (c.ranges.drop k).map Prod.fst := by
    rw [map_drop, PlanCall.ranges, (map_zip hlen).1]
  have hsnd : c.ends.drop k = (c.ranges.drop k).map Prod.snd := by
    rw [map_drop, PlanCall.ranges, (map_zip hlen).2]
  unfold PlanCall.planSuffix PlanCall.firstBlock
  rw [hfst, hsnd]
  rcases hrest : c.ranges.drop k with - | ⟨r, rest⟩
  · unfold DmaCycle.planBlockIdRanges
    rw [if_neg (by omega), if_pos (.inr rfl)]
    rfl
  have hsub : c.ranges.drop k ⊆ c.ranges := drop_subset _ _
  have hmem : r ∈ c.ranges := hsub (hrest ▸ mem_cons_self)
  have hordered : Ordered (r :: rest) := by
    rw [← hrest]
    exact ⟨fun q hq => hr.ordered.nonempty q (hsub hq), hr.ordered.follow.drop⟩
  have hstart : c.starts.getD k 0 = r.1 := by
    have hzero : (c.starts.drop k)[0]? = some r.1 := by
      rw [hfst, hrest]
      rfl
    rw [getElem?_drop, Nat.add_zero] at hzero
    rw [getD_eq_getElem?_getD, hzero, Option.getD_some]
  have hne : c.starts ≠ [] := by
    intro hnil
    rw [hnil, drop_nil, hrest] at hfst
    cases hfst
  rw [if_neg hne, hstart]
  -- the first block that is planned is the one of the first token
  have hr1 := hr.ordered.nonempty r hmem
  have hbase := hr.base_le r hmem
  have hend := hcov.end_le r hmem
  have hfirst := Nat.div_mul_le_self (r.1 - c.slotMappingBase) c.blockSize
  rw [Nat.zero_add] at hend
  have hlt : (r.1 - c.slotMappingBase) / c.blockSize < c.blocks.length := by
    rw [Nat.div_lt_iff_lt_mul hbs]
    omega
  have hbefore : ∀ q ∈ r :: rest, r.1 ≤ q.1 := fun q hq => (ordered_bounds hordered hq).1
  generalize (r.1 - c.slotMappingBase) / c.blockSize = f at hfirst hlt
  have hcov' : Covers (c.blocks.drop f) c.blockSize f c.slotMappingBase (r :: rest) := by
    refine ⟨fun q hq => hr.base_le q (hsub (hrest ▸ hq)), fun q hq => ?_, fun q hq => ?_⟩
    · have := hbefore q hq
      omega
    · have := hcov.end_le q (hsub (hrest ▸ hq))
      rwa [length_drop, Nat.add_sub_cancel' (Nat.le_of_lt hlt), ← Nat.zero_add c.blocks.length]
  rw [planBlockIdRanges_eq (hcycles c.cycle) hordered hbs hcov']
  refine congrArg Except.ok (segmentsFrom_eq_of_slotOf 0 hbs hordered.nonempty hcov'.base_le
    fun q hq t h1 h2 => ?_)
  have hle : f ≤ (t - c.slotMappingBase) / c.blockSize := by
    rw [Nat.le_div_iff_mul_le hbs]
    have := hcov'.first_le q hq
    omega
  unfold slotOf
  rw [getD_drop _ hle, Nat.sub_zero]

theorem tail_spec (cycle : DmaCycle) (blockIds : List Nat) (blockSize base : Nat)
    {ranges : List (Nat × Nat)} {k : Nat} (hk : k < ranges.length) :
    (segmentsOf cycle blockIds blockSize base 0 (ranges.take k)).length +
        searchsorted ((segmentsOf cycle blockIds blockSize base 0 (ranges.drop k)).map
          Segment.chunk) (ranges.length - k - 1) =
      (segmentsOf cycle blockIds blockSize base 0 ranges.dropLast).length := by
  rcases eq_nil_or_concat ranges with rfl | ⟨front, last, rfl⟩
  · cases hk
  rw [concat_eq_append] at hk ⊢
  rw [length_append, length_singleton] at hk ⊢
  have hle : k ≤ front.length := by omega
  rw [dropLast_concat, drop_append_of_le_length hle, take_append_of_le_length hle]
  have hpos := searchsorted_chunk (cutAt cycle blockIds blockSize 0 base)
    (slotOf blockIds blockSize 0 base) 0 (front.drop k) [last]
  rw [Nat.zero_add, length_drop] at hpos
  have hindex : front.length + 1 - k - 1 = front.length - k := by omega
  have hsplit := segmentsOf_append cycle blockIds blockSize base (front.take k) (front.drop k)
  rw [take_append_drop] at hsplit
  have hlength : (segmentsOf cycle blockIds blockSize base (front.take k).length
      (front.drop k)).length = (segmentsOf cycle blockIds blockSize base 0 (front.drop k)).length := by
    have := segmentsFrom_add (cutAt cycle blockIds blockSize 0 base)
      (slotOf blockIds blockSize 0 base) 0 (front.take k).length (front.drop k)
    unfold segmentsOf
    rw [Nat.zero_add] at this
    rw [this, length_map]
  rw [hindex, hsplit, length_append, hlength]
  exact congrArg _ hpos

theorem segmentsOf_split (cycle : DmaCycle) (blockIds : List Nat) (blockSize base : Nat)
    {ranges : List (Nat × Nat)} {k : Nat} (hk : k ≤ ranges.length) :
    segmentsOf cycle blockIds blockSize base 0 ranges =
      segmentsOf cycle blockIds blockSize base 0 (ranges.take k) ++
        (segmentsOf cycle blockIds blockSize base 0 (ranges.drop k)).map
          fun s => { s with chunk := s.chunk + k } := by
  have h := segmentsOf_append cycle blockIds blockSize base (ranges.take k) (ranges.drop k)
  have hadd := segmentsFrom_add (cutAt cycle blockIds blockSize 0 base)
    (slotOf blockIds blockSize 0 base) 0 k (ranges.drop k)
  rw [take_append_drop, length_take, Nat.min_eq_left hk] at h
  rw [Nat.zero_add] at hadd
  unfold segmentsOf at h ⊢
  rw [h, hadd]

theorem ranges_eq_of_kept
    (hlen : c.starts.length = c.ends.length) (hrep : p.Represents cycles tables)
    (hsame : c.sameMap p = true) (hk : c.keepChunks (some p) = c.ranges.length) :
    c.ranges = p.ranges := by
  by_cases hnil : c.ranges = []
  · -- no block is used, so none was
    have hends : c.ends = [] := by
      rw [← (map_zip hlen).2]
      exact congrArg (List.map Prod.snd) hnil
    have hids := (PlanCall.sameMap_iff.1 hsame).2
    unfold PlanCall.blocks PlanCall.usedBlocks at hids
    rw [hends] at hids
    simp only [getLast?_nil, take_zero, take_nil] at hids
    rcases hp : p.ranges with - | ⟨r, l⟩
    · exact hnil
    have hmem : r ∈ p.ranges := hp ▸ mem_cons_self
    have h1 := hrep.covers.end_le r hmem
    have h2 := hrep.covers.base_le r hmem
    have h3 := hrep.ordered.nonempty r hmem
    rw [← hids, length_nil, Nat.add_zero, Nat.zero_mul] at h1
    omega
  · have hk0 : c.ranges.length ≠ 0 := fun h => hnil (length_eq_zero_iff.1 h)
    have hprev : ∀ q ∈ some p, q.Represents cycles tables := fun q hq => by
      cases hq
      exact hrep
    obtain ⟨q, hq, -, -, htake, hcase⟩ := keepChunks_spec hlen hprev hk hk0
    cases hq
    rw [take_length] at htake
    rcases hcase with hall | ⟨hlast, hgrown⟩
    · rw [htake, hall, take_length]
    obtain ⟨q, hq⟩ : ∃ q, q ∈ p.ranges.drop c.ranges.length :=
      exists_mem_of_length_pos (by rw [length_drop]; omega)
    obtain ⟨r, hmem, -⟩ := hgrown q hq
    rw [drop_length] at hmem
    cases hmem

/-- The record is the one for the call's arguments. -/
structure IncrementalDmaPlan.Answers (q : IncrementalDmaPlan) (c : PlanCall) : Prop where
  cycle : q.cycle = c.cycle
  blockSize : q.blockSize = c.blockSize
  slotMappingBase : q.slotMappingBase = c.slotMappingBase
  blockIds : q.blockIds = c.blocks
  starts : q.starts = c.starts
  ends : q.ends = c.ends

theorem IncrementalDmaPlan.Answers.segments_eq (h : q.Answers c) :
    q.segments cycles =
      segmentsOf (cycles c.cycle) c.blocks c.blockSize c.slotMappingBase 0 c.ranges := by
  unfold IncrementalDmaPlan.segments IncrementalDmaPlan.ranges PlanCall.ranges
  rw [h.cycle, h.blockSize, h.slotMappingBase, h.blockIds, h.starts, h.ends]

/-- The check of the slot capacity stands before the write, so a call that raises writes nothing,
whatever its ranges and the plan before are. -/
theorem incremental_raise {c : PlanCall} {tables : Tables Segment} {e : DmaError}
    (h : planBlockIdRangesIncremental cycles blank c previous tables = (.error e, t)) :
    t = tables := by
  unfold planBlockIdRangesIncremental at h
  simp only at h
  split at h
  · exact (Prod.ext_iff.1 h).2.symm
  split at h
  · exact (Prod.ext_iff.1 h).2.symm
  split at h
  · split at h
    · exact (Prod.ext_iff.1 h).2.symm
    · cases h
  split at h
  · exact (Prod.ext_iff.1 h).2.symm
  generalize max _ (planSlotEnd _) = top at h
  split at h
  · exact (Prod.ext_iff.1 h).2.symm
  · cases h

/-- A call that returns leaves a record of its own arguments that is true of its table, when the
record before was true of its table. -/
theorem incremental_spec (hcycles : ∀ i, (cycles i).Periodic) (hr : c.Ranged)
    (hprev : ∀ p ∈ previous, p.Represents cycles tables)
    (h : planBlockIdRangesIncremental cycles blank c previous tables = (.ok q, t)) :
    q.Answers c ∧ q.Represents cycles t ∧
      c.starts.length = c.ends.length ∧ c.usedBlocks ≤ c.blocks.length := by
  unfold planBlockIdRangesIncremental at h
  by_cases hvalid : c.starts.length ≠ c.ends.length ∨ c.blockSize ≤ 0
  · rw [if_pos hvalid] at h
    cases h
  by_cases hused : c.blocks.length < c.usedBlocks
  · rw [if_neg hvalid, if_pos hused] at h
    cases h
  rw [if_neg hvalid, if_neg hused] at h
  rw [not_or, not_not, Nat.not_le] at hvalid
  obtain ⟨hlen, hbs⟩ := hvalid
  rw [Nat.not_lt] at hused
  have hcov := PlanCall.covers hr hlen hbs hused
  have hcount : c.starts.length = c.ranges.length := by
    rw [← (map_zip hlen).1, length_map]
    rfl
  obtain ⟨hle, hkeep, hstart, htop⟩ := kept_spec previous hr hlen hbs hprev rfl
  generalize hk : c.keepChunks previous = k at h hle hkeep hstart htop
  simp only at h
  rcases hfilter : previous.filter fun p => decide (k = c.starts.length ∧ c.sameMap p) with - | p
  · rw [hfilter, PlanCall.planSuffix_eq hcycles hr hlen hbs hused] at h
    simp only [htop] at h
    by_cases hover : c.overCapacity (planSlotEnd (segmentsOf (cycles c.cycle) c.blocks c.blockSize
        c.slotMappingBase 0 c.ranges))
    · rw [if_pos hover] at h
      cases h
    rw [if_neg hover] at h
    cases h
    have hsplit := segmentsOf_split (cycles c.cycle) c.blocks c.blockSize c.slotMappingBase hle
    refine ⟨⟨rfl, rfl, rfl, rfl, rfl, rfl⟩, ⟨hlen, hbs, hr.ordered, hcov, ?_, ?_, ?_, rfl⟩, hlen,
      hused⟩
    · show Tables.Starts _ _ (segmentsOf (cycles c.cycle) c.blocks c.blockSize c.slotMappingBase 0
        c.ranges)
      rw [hsplit]
      unfold PlanCall.append
      simp only
      rw [hkeep]
      exact appendCpuColumns_starts blank _ hstart
    · show c.keepSegments previous + _ = (segmentsOf (cycles c.cycle) c.blocks c.blockSize
        c.slotMappingBase 0 c.ranges).length
      rw [hkeep, hsplit, length_append, length_map]
    · show (if c.starts = [] then 0 else _) = (segmentsOf (cycles c.cycle) c.blocks c.blockSize
        c.slotMappingBase 0 c.ranges.dropLast).length
      split
      · next hnil =>
        have : c.ranges = [] := by rw [PlanCall.ranges, hnil, zip_nil_left]
        rw [this]
        rfl
      · next hne =>
        -- the call would have returned the plan before
        have hlt : k < c.ranges.length := by
          refine Nat.lt_of_le_of_ne hle fun heq => ?_
          have hk0 : k ≠ 0 := fun h0 => hne (length_eq_zero_iff.1 (by omega))
          obtain ⟨p, hp, hsame, -⟩ := keepChunks_spec hlen hprev hk hk0
          rw [Option.mem_def] at hp
          rw [hp, Option.filter_some, if_pos (decide_eq_true ⟨by omega, hsame⟩)] at hfilter
          cases hfilter
        rw [hkeep, hcount]
        exact tail_spec _ _ _ _ hlt
  · obtain ⟨hp, hall⟩ := Option.filter_eq_some_iff.1 hfilter
    obtain ⟨hall, hsame⟩ := of_decide_eq_true hall
    subst hp
    rw [hfilter] at h
    simp only at h
    split at h
    · cases h
    cases h
    have hrep := hprev p rfl
    have hranges := ranges_eq_of_kept hlen hrep hsame (by omega)
    have hall' := fun l hl => hrep.segmentsOf_eq (c := c) hsame 0 (l := l) hl
    have hsegments := hall' p.ranges (Subset.refl _)
    have hstarts := hrep.starts
    have hcount' := hrep.count
    have htail := hrep.tail
    have htop' := hrep.top
    unfold IncrementalDmaPlan.segments at hstarts hcount' htop'
    rw [hsegments, ← hranges] at hstarts hcount' htop'
    rw [hall' _ (dropLast_subset _), ← hranges] at htail
    exact ⟨⟨rfl, rfl, rfl, rfl, rfl, rfl⟩,
      ⟨hlen, hbs, hr.ordered, hcov, hstarts, hcount', htail, htop'⟩, hlen, hused⟩

end

/-! ## Chains of calls -/

/-- The tables and the plan that the last call returned. -/
structure PlanChain where
  tables : Tables Segment
  previous : Option IncrementalDmaPlan
  deriving DecidableEq, Repr

variable (cycles) (blank)

/-- Each call is given the plan before; a call that raises leaves it to the next. -/
def PlanChain.call (s : PlanChain) (c : PlanCall) : PlanChain :=
  match planBlockIdRangesIncremental cycles blank c s.previous s.tables with
  | (.ok q, t) => ⟨t, some q⟩
  | (.error _, t) => ⟨t, s.previous⟩

def planMachine : Machine PlanChain PlanCall where
  start s := s.previous = none
  step s c := some (s.call cycles blank c)

/-- A call that returns a plan has ranges as the callers make them; one that raises may have any. -/
def PlanChain.Promised (s : PlanChain) (c : PlanCall) : Prop :=
  ∀ q t, planBlockIdRangesIncremental cycles blank c s.previous s.tables = (.ok q, t) → c.Ranged

variable {cycles} {blank}

theorem represents_inductive (hcycles : ∀ i, (cycles i).Periodic) :
    (planMachine cycles blank).InductiveIf (PlanChain.Promised cycles blank)
      fun s => ∀ p ∈ s.previous, p.Represents cycles s.tables := by
  constructor
  · intro s hs p hp
    rw [show s.previous = none from hs] at hp
    cases hp
  · intro s c s' hs hok hstep
    cases hstep
    unfold PlanChain.call
    rcases hrun : planBlockIdRangesIncremental cycles blank c s.previous s.tables with ⟨r, t⟩
    cases r with
    | error e =>
      rw [incremental_raise hrun]
      exact hs
    | ok q =>
      intro p hp
      cases hp
      exact (incremental_spec hcycles (hok q t hrun) hs hrun).2.1

/-- The planner makes of the call what the record stands for. -/
theorem fresh_eq (hcycles : ∀ i, (cycles i).Periodic) {c : PlanCall} (hr : c.Ranged)
    (hq : q.Answers c) (hrep : q.Represents cycles t) :
    (cycles c.cycle).planBlockIdRanges c.blockIds c.blockSize c.starts c.ends c.slotMappingBase 0 =
      .ok (q.segments cycles) := by
  have hlen : c.starts.length = c.ends.length := by
    rw [← hq.starts, ← hq.ends, hrep.lengths]
  have hbs : 0 < c.blockSize := hq.blockSize ▸ hrep.size_pos
  have hcov := hrep.covers
  unfold IncrementalDmaPlan.ranges at hcov
  rw [hq.blockIds, hq.blockSize, hq.slotMappingBase, hq.starts, hq.ends] at hcov
  rw [hq.segments_eq]
  have htake := segmentsOf_take (cycles c.cycle) 0 hbs hr.ordered.nonempty
    (show Covers (c.blockIds.take c.usedBlocks) c.blockSize 0 c.slotMappingBase c.ranges from hcov)
  have hmap := map_zip hlen
  have hcov' : Covers c.blockIds c.blockSize 0 c.slotMappingBase c.ranges := by
    refine ⟨hcov.base_le, hcov.first_le, fun r hmem => Nat.le_trans (hcov.end_le r hmem) ?_⟩
    rw [PlanCall.blocks, length_take]
    exact Nat.mul_le_mul_right _ (Nat.add_le_add_left (Nat.min_le_right _ _) _)
  have heq := planBlockIdRanges_eq (hcycles c.cycle) hr.ordered hbs hcov'
  rw [show c.ranges.map Prod.fst = c.starts from hmap.1,
    show c.ranges.map Prod.snd = c.ends from hmap.2] at heq
  rw [heq]
  exact congrArg Except.ok htake.symm

/-- **Incremental planning is full planning.**  In any chain of calls whose ranges are as the
callers make them, what a call returns is the plan of a fresh call, with its largest slot end; a
call that raises, with any ranges and after any plan, leaves every plan before as it was. -/
theorem incremental_plans (hcycles : ∀ i, (cycles i).Periodic) (c : PlanCall) :
    (∀ s, (planMachine cycles blank).ReachableIf (PlanChain.Promised cycles blank) s → c.Ranged →
      ∀ q t, planBlockIdRangesIncremental cycles blank c s.previous s.tables = (.ok q, t) →
        (cycles c.cycle).planBlockIdRanges c.blockIds c.blockSize c.starts c.ends
          c.slotMappingBase 0 = .ok (q.plan t) ∧
        q.maxSlotEnd = planSlotEnd (q.plan t)) ∧
    ∀ previous tables e t,
      planBlockIdRangesIncremental cycles blank c previous tables = (.error e, t) →
        ∀ p : IncrementalDmaPlan, p.plan t = p.plan tables := by
  constructor
  · intro s h hr q t hrun
    have hs := (represents_inductive hcycles).reachable h
    obtain ⟨hans, hrep, -⟩ := incremental_spec hcycles hr hs hrun
    rw [hrep.plan_eq]
    exact ⟨fresh_eq hcycles hr hans hrep, hrep.top⟩
  · intro previous tables e t hrun p
    rw [incremental_raise hrun]

/-- Bundles of 8 tokens, chunks of 4. -/
def bundledCycle : DmaCycle := ⟨8, 4, 8, [0, 4]⟩

theorem bundledCycle_periodic : bundledCycle.Periodic :=
  DmaCycle.build_periodic (show DmaCycle.build 8 4 none = .ok _ from rfl)
    fun _ ho => absurd ho not_mem_nil

def partialTail : PlanCall := ⟨0, [10, 11], 4, [0, 4], [4, 6], 0, some 400⟩

/-- A partial tail, then the tail whole. -/
def grownCalls : List PlanCall :=
  [partialTail, ⟨0, [10, 11, 20], 4, [0, 4], [4, 8], 0, some 400⟩]

/-- A third chunk over two blocks. -/
def thirdChunk : PlanCall := ⟨0, [10, 11, 20, 21], 4, [0, 4, 8], [4, 8, 14], 0, some 400⟩

/-- A third chunk that ends before it starts. -/
def backwardChunk : PlanCall := ⟨0, [10, 11, 20, 21], 4, [0, 4, 10], [4, 8, 9], 0, some 400⟩

def grownPlan : IncrementalDmaPlan :=
  { cycle := 0, blockSize := 4, slotMappingBase := 0, blockIds := [10, 11], starts := [0, 4]
    ends := [4, 8], table := 0, segmentCount := 2, tailSegmentStart := 1, reusedChunks := 1
    plannedChunks := 1, plannedBlocks := 1, copiedSegments := 0, mappingChanged := false
    maxSlotEnd := 48 }

def grownTable : List Segment := [⟨0, 40, 0, 4⟩, ⟨1, 44, 0, 4⟩, ⟨0, 0, 0, 0⟩, ⟨0, 0, 0, 0⟩]

def thirdPlan : IncrementalDmaPlan :=
  { cycle := 0, blockSize := 4, slotMappingBase := 0, blockIds := [10, 11, 20, 21]
    starts := [0, 4, 8], ends := [4, 8, 14], table := 0, segmentCount := 4, tailSegmentStart := 2
    reusedChunks := 2, plannedChunks := 1, plannedBlocks := 2, copiedSegments := 0
    mappingChanged := false, maxSlotEnd := 86 }

def thirdTable : List Segment := [⟨0, 40, 0, 4⟩, ⟨1, 44, 0, 4⟩, ⟨2, 80, 0, 4⟩, ⟨2, 84, 4, 2⟩]

theorem incremental_plans_grown :
    (bundledCycle.planBlockIdRanges [10, 11, 20, 21] 4 [0, 4, 8] [4, 8, 14] 0 0 = .ok thirdTable ∧
      thirdPlan.maxSlotEnd = planSlotEnd thirdTable) ∧
    grownPlan.plan (planBlockIdRangesIncremental (fun _ => bundledCycle) ⟨0, 0, 0, 0⟩ backwardChunk
      (some grownPlan) [grownTable]).2 = grownPlan.plan [grownTable] := by
  have h0 : (planMachine (fun _ => bundledCycle) ⟨0, 0, 0, 0⟩).start ⟨[], none⟩ := rfl
  have hr : (planMachine (fun _ => bundledCycle) ⟨0, 0, 0, 0⟩).run ⟨[], none⟩ grownCalls =
      some ⟨[grownTable], some grownPlan⟩ := by decide +kernel
  have hgrown : (planMachine (fun _ => bundledCycle) ⟨0, 0, 0, 0⟩).ReachableIf
      (PlanChain.Promised (fun _ => bundledCycle) ⟨0, 0, 0, 0⟩)
      ⟨[grownTable], some grownPlan⟩ := by
    refine .run (.start h0) (fun c hc _ _ _ _ => ?_) hr
    rcases mem_pair.1 hc with rfl | rfl <;> exact ⟨by decide, by decide⟩
  have hcall : planBlockIdRangesIncremental (fun _ => bundledCycle) ⟨0, 0, 0, 0⟩ thirdChunk
      (some grownPlan) [grownTable] = (.ok thirdPlan, [thirdTable]) := by decide +kernel
  have hraise : (planBlockIdRangesIncremental (fun _ => bundledCycle) ⟨0, 0, 0, 0⟩ backwardChunk
      (some grownPlan) [grownTable]).1 = .error "DMA block-id ranges are invalid" := by
    decide +kernel
  exact ⟨(incremental_plans (fun _ => bundledCycle_periodic) thirdChunk).1 _ hgrown
      ⟨by decide, by decide⟩ thirdPlan _ hcall,
    (incremental_plans (fun _ => bundledCycle_periodic) backwardChunk).2 _ _ _ _
      (Prod.ext hraise rfl)
      grownPlan⟩

/-! ## Ranges that the planner accepts all the same -/

/-- The plan after a chain of calls on blocks 10 and 11. -/
def planAfter (calls : List PlanCall) : Option DmaPlan :=
  ((planMachine (fun _ => bundledCycle) ⟨0, 0, 0, 0⟩).run ⟨[], none⟩ calls).bind fun s =>
    s.previous.map fun p => p.plan s.tables

def firstChunk : PlanCall := ⟨0, [10, 11], 4, [0], [4], 0, none⟩

/-- Chunks that overlap are cut at other tokens by a fresh plan; an empty chunk behind the last
block, and one below the base of the mapping, are planned where a fresh plan raises. -/
theorem accepted_ranges_differ :
    planAfter [firstChunk, ⟨0, [10, 11], 4, [0, 2], [4, 8], 0, none⟩] =
      some [⟨0, 40, 0, 4⟩, ⟨1, 42, 0, 2⟩, ⟨1, 44, 2, 4⟩] ∧
    bundledCycle.planBlockIdRanges [10, 11] 4 [0, 2] [4, 8] 0 0 =
      .ok [⟨0, 40, 0, 2⟩, ⟨0, 42, 2, 2⟩, ⟨1, 44, 2, 4⟩] ∧
    planAfter [firstChunk, ⟨0, [10, 11], 4, [0, 4], [4, 4], 0, none⟩] = some [⟨0, 40, 0, 4⟩] ∧
    bundledCycle.planBlockIdRanges [10, 11] 4 [0, 4] [4, 4] 0 0 =
      .error "DMA block-id ranges are invalid" ∧
    planAfter [⟨0, [10, 11], 4, [2], [4], 4, none⟩] = some [] ∧
    bundledCycle.planBlockIdRanges [10, 11] 4 [2] [4] 4 0 =
      .error "DMA block-id ranges are invalid" := by
  refine ⟨?_, ?_, ?_, ?_, ?_, ?_⟩ <;> decide +kernel

end LayerwiseDma
