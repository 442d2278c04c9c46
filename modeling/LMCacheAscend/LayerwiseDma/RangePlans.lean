import Mathlib.Algebra.Order.Ring.Int
import LMCacheAscend.LayerwiseDma.Plan
import LMCacheAscend.Lib.Traverse

/-!
# Plans from slot maps

`plan`, `plan_ranges` and `plan_bundle_copies` read the device slots from a map
of the tokens.  The first two cut at the cycle's boundaries alone, for maps whose
bundles are contiguous; the last cuts where the map does not go on and where a
bundle of slots begins.

The copies of a plan are `cellsOf`: for each token its chunk, its place in the
chunk and its slot.  A plan covers some ranges when these are `requested`, in
order.  Every planner is `segmentsFrom` of some cuts, and `segmentsFrom` covers
its ranges exactly where the slots run on between the cuts
(`cells_segmentsFrom_iff`).
-/

namespace LayerwiseDma

open Lib List

/-! ## Copies of tokens -/

/-- Where one token is copied. -/
structure Cell where
  chunk : Nat
  chunkToken : Nat
  slot : Nat
  deriving DecidableEq, Repr

def Segment.cells (s : Segment) : List Cell :=
  (range s.tokens).map fun i => ⟨s.chunk, s.chunkToken + i, s.slot + i⟩

/-- The tokens that a plan copies, one after the other. -/
def cellsOf (plan : DmaPlan) : List Cell := plan.flatMap Segment.cells

/-- The tokens of some ranges, the first one being chunk `k`. -/
def requested (slot : Nat → Nat) : Nat → List (Nat × Nat) → List Cell
  | _, [] => []
  | k, r :: rs =>
    (range' r.1 (r.2 - r.1)).map (fun t => ⟨k, t - r.1, slot t⟩) ++ requested slot (k + 1) rs

/-- Between the cuts of each range the slots are consecutive. -/
def Runs (cut : Nat → Bool) (slot : Nat → Nat) (ranges : List (Nat × Nat)) : Prop :=
  ∀ r ∈ ranges, ∀ x, r.1 < x → x < r.2 → cut x = false → slot x = slot (x - 1) + 1

/-- The segment is not empty, and in its chunk. -/
def Segment.InChunk (ranges : List (Nat × Nat)) (s : Segment) : Prop :=
  ∃ r, ranges[s.chunk]? = some r ∧ 0 < s.tokens ∧ s.chunkToken + s.tokens ≤ r.2 - r.1

/-- The segment is in its chunk, and in one period of the tokens from `base` on. -/
def Segment.Within (period base : Nat) (ranges : List (Nat × Nat)) (s : Segment) : Prop :=
  ∃ r, ranges[s.chunk]? = some r ∧ 0 < s.tokens ∧ s.chunkToken + s.tokens ≤ r.2 - r.1 ∧
    (r.1 + s.chunkToken - base) / period = (r.1 + s.chunkToken + s.tokens - 1 - base) / period

theorem cellsOf_append (p q : DmaPlan) : cellsOf (p ++ q) = cellsOf p ++ cellsOf q :=
  flatMap_append

theorem mem_requested {slot : Nat → Nat} {k : Nat} {ranges : List (Nat × Nat)} {c : Cell} :
    c ∈ requested slot k ranges ↔ ∃ i r t, ranges[i]? = some r ∧ (r.1 ≤ t ∧ t < r.2) ∧
      c = ⟨k + i, t - r.1, slot t⟩ := by
  refine (mem_from (fun _ => rfl) fun _ _ _ => rfl).trans ?_
  simp only [mem_map, exists_and_left, @eq_comm _ c]
  refine exists_congr fun i => exists_congr fun r => and_congr_right fun _ =>
    exists_congr fun t => and_congr_left fun _ => ?_
  rw [mem_range'_1]
  omega

variable {p : Nat × Nat} {x : Nat} {r : Nat × Nat}

theorem Segment.cells_eq {s : Segment} {f : Nat → Cell} (htokens : s.tokens = p.2 - p.1)
    (h : ∀ t, p.1 ≤ t → t < p.2 → f t = ⟨s.chunk, s.chunkToken + (t - p.1), s.slot + (t - p.1)⟩) :
    s.cells = (range' p.1 (p.2 - p.1)).map f := by
  unfold Segment.cells
  rw [htokens, range'_eq_map_range, map_map]
  refine map_congr_left fun i hi => ?_
  rw [mem_range] at hi
  show _ = f (p.1 + i)
  rw [h (p.1 + i) (by omega) (by omega), Nat.add_sub_cancel_left]

section

variable {cut : Nat → Bool} {slot : Nat → Nat} {ranges : List (Nat × Nat)}

theorem cells_segmentsFrom (hne : ∀ r ∈ ranges, r.1 < r.2) (h : Runs cut slot ranges) (k : Nat) :
    cellsOf (segmentsFrom cut slot k ranges) = requested slot k ranges := by
  induction ranges generalizing k with
  | nil => rfl
  | cons r l ih =>
    obtain ⟨hr, hl⟩ := forall_mem_cons.1 hne
    obtain ⟨hrun, hruns⟩ := forall_mem_cons.1 h
    rw [segmentsFrom, requested, cellsOf_append, ih hl hruns]
    congr 1
    rw [← flatMap_cutsBetween cut hr, map_flatMap, cellsOf, flatMap_map]
    refine flatMap_congr fun p hp => ?_
    have hin := piece_inside hr hp
    refine Segment.cells_eq rfl fun t h1 h2 => ?_
    rw [slot_of_piece hr hp hrun h1 h2]
    congr 1
    show t - r.1 = p.1 - r.1 + (t - p.1)
    omega

/-- **A plan covers its ranges exactly where the slots run on between its cuts.** -/
theorem cells_segmentsFrom_iff (hne : ∀ r ∈ ranges, r.1 < r.2) (k : Nat) :
    cellsOf (segmentsFrom cut slot k ranges) = requested slot k ranges ↔ Runs cut slot ranges := by
  refine ⟨fun h r hr x h1 h2 hcut => ?_, fun h => cells_segmentsFrom hne h k⟩
  have hlt := hne r hr
  obtain ⟨i, hi⟩ := mem_iff_getElem?.1 hr
  obtain ⟨p, hp, hp1, hp2⟩ := exists_piece_between cut hlt (Nat.le_of_lt h1) h2
  have hin := piece_inside hlt hp
  -- the token before is in the same piece, as no piece starts at `x`
  have hx : p.1 < x := by
    refine Nat.lt_of_le_of_ne hp1 fun he => ?_
    have hedge := ((mem_pieces (pairwise_cutsBetween hlt)).1 hp).1
    rcases (mem_cutsBetween hlt).1 hedge with he' | he' | ⟨-, hc⟩
    · omega
    · omega
    · rw [he, hcut] at hc
      cases hc
  have hplace : ∀ t, p.1 ≤ t → t < p.2 → slot t = slot p.1 + (t - p.1) := by
    intro t ht1 ht2
    have hmem : (⟨k + i, t - r.1, slot p.1 + (t - p.1)⟩ : Cell) ∈ requested slot k ranges := by
      rw [← h, cellsOf, mem_flatMap]
      refine ⟨_, mem_segmentsFrom.2 ⟨i, r, p, hi, hp, rfl⟩, ?_⟩
      have hchunk : p.1 - r.1 + (t - p.1) = t - r.1 := by omega
      refine mem_map.2 ⟨t - p.1, mem_range.2 ?_, ?_⟩
      · show t - p.1 < p.2 - p.1
        omega
      · show (⟨k + i, p.1 - r.1 + (t - p.1), slot p.1 + (t - p.1)⟩ : Cell) = _
        rw [hchunk]
    obtain ⟨i', r', t', hi', ht', he⟩ := mem_requested.1 hmem
    injection he with hk ht hslot
    obtain rfl : i' = i := by omega
    rw [hi] at hi'
    cases hi'
    obtain rfl : t' = t := by omega
    exact hslot.symm
  have hnow := hplace x (by omega) hp2
  have hbefore := hplace (x - 1) (by omega) (by omega)
  omega

theorem div_eq_of_inside {P a b : Nat} (hP : 0 < P) (hab : a < b)
    (h : ∀ x, a < x → x < b → x % P ≠ 0) : a / P = (b - 1) / P := by
  have hle : a / P ≤ (b - 1) / P := Nat.div_le_div_right (by omega)
  by_contra hne
  have hlt : a < (b - 1) / P * P := by
    have h1 := Nat.lt_div_mul_add hP (a := a)
    have h2 : (a / P + 1) * P ≤ (b - 1) / P * P := Nat.mul_le_mul_right P (by omega)
    rw [Nat.add_mul, Nat.one_mul] at h2
    omega
  have hbelow := Nat.div_mul_le_self (b - 1) P
  exact h _ hlt (by omega) (Nat.mul_mod_left _ _)

theorem within_segmentsFrom {period base : Nat} (hperiod : 0 < period)
    (hne : ∀ r ∈ ranges, r.1 < r.2) (hbase : ∀ r ∈ ranges, base ≤ r.1)
    (hcut : ∀ r ∈ ranges, ∀ x, r.1 < x → x < r.2 → (x - base) % period = 0 → cut x = true)
    {s : Segment} (hs : s ∈ segmentsFrom cut slot 0 ranges) : s.Within period base ranges := by
  obtain ⟨i, r, p, hi, hp, rfl⟩ := mem_segmentsFrom.1 hs
  have hr := mem_of_getElem? hi
  have hlt := hne r hr
  have hb := hbase r hr
  have hin := piece_inside hlt hp
  have hstart : r.1 + (p.1 - r.1) = p.1 := by omega
  have hstop : r.1 + (p.1 - r.1) + (p.2 - p.1) - 1 - base = p.2 - base - 1 := by omega
  refine ⟨r, by rw [Nat.zero_add]; exact hi, ?_, ?_, ?_⟩
  · show 0 < p.2 - p.1
    omega
  · show p.1 - r.1 + (p.2 - p.1) ≤ r.2 - r.1
    omega
  · show (r.1 + (p.1 - r.1) - base) / period =
      (r.1 + (p.1 - r.1) + (p.2 - p.1) - 1 - base) / period
    rw [hstop, hstart]
    refine div_eq_of_inside hperiod (by omega) fun x h1 h2 hx => ?_
    have huncut := piece_uncut hlt hp (x := x + base) (by omega) (by omega)
    rw [hcut r hr (x + base) (by omega) (by omega) (by rwa [Nat.add_sub_cancel])] at huncut
    cases huncut

/-- Plans of the same ranges and slots are the same exactly when their cuts are. -/
theorem segmentsFrom_eq_iff {cut' : Nat → Bool} (hne : ∀ r ∈ ranges, r.1 < r.2) (k : Nat) :
    segmentsFrom cut slot k ranges = segmentsFrom cut' slot k ranges ↔
      ∀ r ∈ ranges, ∀ x, r.1 < x → x < r.2 → cut x = cut' x := by
  constructor
  · intro h
    -- a cut is where a segment begins
    have hstart : ∀ {f g : Nat → Bool}, segmentsFrom f slot k ranges = segmentsFrom g slot k ranges →
        ∀ r ∈ ranges, ∀ x, r.1 < x → x < r.2 → f x = true → g x = true := by
      intro f g h r hr x h1 h2 hf
      have hlt := hne r hr
      obtain ⟨i, hi⟩ := mem_iff_getElem?.1 hr
      have hedge : x ∈ cutsBetween f r.1 r.2 := (mem_cutsBetween hlt).2 (.inr (.inr ⟨⟨h1, h2⟩, hf⟩))
      obtain ⟨p, hp, hp1, hp2⟩ := exists_piece_between f hlt (Nat.le_of_lt h1) h2
      have hpx : p.1 = x := by
        rcases ((mem_pieces (pairwise_cutsBetween hlt)).1 hp).2.2.2 x hedge with hx | hx <;> omega
      have hmem : (⟨k + i, slot p.1, p.1 - r.1, p.2 - p.1⟩ : Segment) ∈
          segmentsFrom g slot k ranges := by
        rw [← h]
        exact mem_segmentsFrom.2 ⟨i, r, p, hi, hp, rfl⟩
      obtain ⟨i', r', q, hi', hq, he⟩ := mem_segmentsFrom.1 hmem
      injection he with hk hslot htoken htokens
      obtain rfl : i' = i := by omega
      rw [hi] at hi'
      cases hi'
      have hin := piece_inside hlt hq
      have hqx : q.1 = x := by omega
      have hg := ((mem_pieces (pairwise_cutsBetween hlt)).1 hq).1
      rcases (mem_cutsBetween hlt).1 hg with he | he | ⟨-, hg⟩
      · omega
      · omega
      · rwa [hqx] at hg
    intro r hr x h1 h2
    rw [Bool.eq_iff_iff]
    exact ⟨hstart h r hr x h1 h2, hstart h.symm r hr x h1 h2⟩
  · intro h
    exact segmentsFrom_congr k hne h fun _ _ _ _ _ => rfl

end

/-! ## The planners -/

/-- `values[i]` of a tensor; a negative index counts from the end. -/
def tensorItem (values : List Nat) (i : Int) : Except DmaError Nat :=
  let j := if i < 0 then i + values.length else i
  if j < 0 then .error "index out of range"
  else match values[j.toNat]? with
    | some v => .ok v
    | none => .error "index out of range"

/-- The boundaries of the periods that some tokens are in. -/
def DmaCycle.periodicEdges (c : DmaCycle) (start stop : Nat) : List Nat :=
  (arange (start / c.period) ((stop + c.period - 1) / c.period) 1).flatMap fun p =>
    c.boundaries.map fun b => p * c.period + b

def DmaCycle.plan (c : DmaCycle) (slots : List Nat) (start stop : Int) : Except DmaError DmaPlan :=
  if start < 0 ∨ stop < start ∨ (slots.length : Int) < stop then
    .error "DMA interval exceeds bank slot map"
  else
    let start := start.toNat
    let stop := stop.toNat
    let inner := (c.periodicEdges start stop).filter fun x => start < x ∧ x < stop
    let edges := start :: (inner ++ [stop])
    let edges := if start = stop then edges.take 1 else edges
    .ok ((pieces edges).map fun p =>
      let hostBegin := max (p.1 / c.chunkTokens * c.chunkTokens) start
      { chunk := p.1 / c.chunkTokens - start / c.chunkTokens
        slot := slots.getD p.1 0
        chunkToken := p.1 - hostBegin
        tokens := p.2 - p.1 })

def DmaCycle.planRanges (c : DmaCycle) (slots starts ends : List Nat) (slotMappingBase : Nat) :
    Except DmaError DmaPlan :=
  if starts.length = 0 ∨ ends.length = 0 then .error "index out of range"
  else
    let periodic := c.periodicEdges (starts.headD 0) (ends.getLastD 0)
    let edges := uniqueSorted (periodic ++ starts ++ ends)
    let chunk := fun p : Nat × Nat => min (searchsortedRight ends p.1) (ends.length - 1)
    let active := fun p : Nat × Nat =>
      decide (starts.getD (chunk p) 0 ≤ p.1 ∧ p.2 ≤ ends.getD (chunk p) 0)
    ((pieces edges).filter active).mapM fun p => do
      let slot ← tensorItem slots ((p.1 : Int) - slotMappingBase)
      pure {
        chunk := chunk p
        slot := slot
        chunkToken := p.1 - starts.getD (chunk p) 0
        tokens := p.2 - p.1 }

def planBundleCopies (slots chunkSizes : List Int) (bundleTokens : Int) : Except DmaError DmaPlan :=
  if bundleTokens ≤ 0 ∨ chunkSizes.length = 0 ∨ ∃ n ∈ chunkSizes, n ≤ 0 then
    .error "DMA needs positive bundle and chunk token counts"
  else if chunkSizes.sum ≠ slots.length ∨ ∃ s ∈ slots, s < 0 then
    .error "DMA sizes/slots invalid"
  else
    let slots := slots.map Int.toNat
    let sizes := chunkSizes.map Int.toNat
    let ends := cumsum sizes
    let gaps := ((range (slots.length - 1)).filter fun i =>
      slots.getD (i + 1) 0 ≠ slots.getD i 0 + 1 ∨
        slots.getD (i + 1) 0 % bundleTokens.toNat = 0).map (· + 1)
    let edges := uniqueSorted (0 :: (ends ++ gaps))
    .ok ((pieces edges).map fun p =>
      let chunk := searchsortedRight ends p.1
      { chunk := chunk
        slot := slots.getD p.1 0
        chunkToken := p.1 - (ends.zipWith (· - ·) sizes).getD chunk 0
        tokens := p.2 - p.1 })

/-- The slot map of a block table. -/
def expandBlocks (blockIds : List Nat) (blockSize : Nat) : List Nat :=
  blockIds.flatMap fun b => (range blockSize).map fun i => b * blockSize + i

/-- The slot of a token in a map that starts at token `base`. -/
def mapSlot (slots : List Nat) (base t : Nat) : Nat := slots.getD (t - base) 0

/-- A boundary of a period. -/
def DmaCycle.isBoundary (c : DmaCycle) (x : Nat) : Bool := decide (x % c.period ∈ c.boundaries)

/-- The chunks that an interval is in. -/
def chunkRanges (start stop chunkTokens : Nat) : List (Nat × Nat) :=
  if start = stop then []
  else pieces (cutsBetween (fun x => decide (chunkTokens ∣ x)) start stop)

/-- Chunks of the given sizes, one after the other. -/
def sizeRanges : Nat → List Nat → List (Nat × Nat)
  | _, [] => []
  | a, n :: ns => (a, a + n) :: sizeRanges (a + n) ns

/-! ## Cycles whose boundaries repeat -/

structure DmaCycle.Aligned (c : DmaCycle) : Prop extends c.Periodic where
  lt : ∀ b ∈ c.boundaries, b < c.period
  sorted : c.boundaries.Pairwise (· < ·)
  chunk_pos : 0 < c.chunkTokens
  chunk : ∀ x, c.chunkTokens ∣ x → c.isBoundary x = true

theorem DmaCycle.build_aligned {bundleTokens chunkTokens : Nat} {internalOffsets : Option (List Nat)}
    {c : DmaCycle} (h : DmaCycle.build bundleTokens chunkTokens internalOffsets = .ok c)
    (hoffsets : ∀ o ∈ internalOffsets.getD [], o < bundleTokens) : c.Aligned := by
  have hperiodic := DmaCycle.build_periodic h fun o ho => Nat.le_of_lt (hoffsets o ho)
  have hmem : ∀ b ∈ c.boundaries, b < c.period := by
    intro b hb
    rcases DmaCycle.mem_boundaries h hb with hlt | ⟨o, ho, hle⟩
    · exact hlt
    · have hob := hoffsets o ho
      omega
  unfold DmaCycle.build at h
  split at h
  · cases h
  have hb : 0 < bundleTokens := by omega
  have hc : 0 < chunkTokens := by omega
  cases h
  refine ⟨hperiodic, hmem, pairwise_uniqueSorted _, hc, fun x hx => decide_eq_true ?_⟩
  show x % Nat.lcm bundleTokens chunkTokens ∈ uniqueSorted _
  obtain ⟨i, hi⟩ : chunkTokens ∣ x % Nat.lcm bundleTokens chunkTokens :=
    (Nat.dvd_mod_iff (Nat.dvd_lcm_right bundleTokens chunkTokens)).2 hx
  rw [mem_uniqueSorted, mem_append]
  refine .inr ((mem_arange hc).2 ⟨i, ?_, Nat.mod_lt _ (Nat.lcm_pos hb hc)⟩)
  rw [hi, Nat.zero_add, Nat.mul_comm]

section

variable {c : DmaCycle}

theorem DmaCycle.Periodic.isBoundary_of_mod (hc : c.Periodic) (h : x % c.period = 0) :
    c.isBoundary x = true := by
  refine decide_eq_true ?_
  rw [h]
  exact hc.zero

theorem mem_periodicEdges (hc : c.Periodic) {lo hi : Nat} (hlo : lo ≤ x) (hhi : x < hi) :
    x ∈ c.periodicEdges lo hi ↔ c.isBoundary x = true :=
  (mem_periodic hc hlo hhi).trans (decide_eq_true_iff).symm

theorem pairwise_periodicEdges (hc : c.Aligned) (lo hi : Nat) :
    (c.periodicEdges lo hi).Pairwise (· < ·) := by
  unfold DmaCycle.periodicEdges
  rw [pairwise_flatMap]
  constructor
  · intro p _
    rw [pairwise_map]
    exact hc.sorted.imp fun h => by omega
  · unfold arange
    rw [pairwise_map]
    refine pairwise_lt_range.imp fun {i j} hij x hx y hy => ?_
    obtain ⟨a, ha, rfl⟩ := mem_map.1 hx
    obtain ⟨b, -, rfl⟩ := mem_map.1 hy
    have hlt := hc.lt a ha
    have hle : (lo / c.period + i * 1 + 1) * c.period ≤ (lo / c.period + j * 1) * c.period :=
      Nat.mul_le_mul_right _ (by omega)
    rw [Nat.add_mul, Nat.one_mul] at hle
    omega

theorem tensorItem_sub {slots : List Nat} {base t : Nat} (h1 : base ≤ t)
    (h2 : t - base < slots.length) :
    tensorItem slots ((t : Int) - base) = .ok (mapSlot slots base t) := by
  have hidx : ((t : Int) - base).toNat = t - base := by omega
  have hneg : ¬(t : Int) - base < 0 := by omega
  unfold tensorItem mapSlot
  simp only [if_neg hneg, hidx]
  rw [getElem?_eq_getElem h2, getD_eq_getElem?_getD, getElem?_eq_getElem h2]
  rfl

section

variable {ranges : List (Nat × Nat)} {slots : List Nat} {base : Nat}

theorem mem_rangeEdges (hc : c.Periodic) (hr : Ordered ranges) (hmem : r ∈ ranges) (h1 : r.1 ≤ x)
    (h2 : x ≤ r.2) :
    x ∈ uniqueSorted (c.periodicEdges ((ranges.map Prod.fst).headD 0)
        ((ranges.map Prod.snd).getLastD 0) ++ ranges.map Prod.fst ++ ranges.map Prod.snd) ↔
      x ∈ cutsBetween c.isBoundary r.1 r.2 := by
  obtain ⟨hlo, hhi⟩ := ordered_bounds hr hmem
  rw [mem_uniqueSorted, mem_append, mem_append]
  exact ordered_edges hr hmem h1 h2 fun h3 h4 => mem_periodicEdges hc (by omega) (by omega)

theorem keep_iff (hr : Ordered ranges) {last : Nat × Nat} (hlast : last ∈ ranges)
    (hend : (ranges.map Prod.snd).getLastD 0 = last.2) (hlt : p.1 < p.2) :
    ((ranges.map Prod.fst).getD (min (searchsortedRight (ranges.map Prod.snd) p.1)
          ((ranges.map Prod.snd).length - 1)) 0 ≤ p.1 ∧
        p.2 ≤ (ranges.map Prod.snd).getD (min (searchsortedRight (ranges.map Prod.snd) p.1)
          ((ranges.map Prod.snd).length - 1)) 0) ↔
      ∃ r ∈ ranges, r.1 ≤ p.1 ∧ p.2 ≤ r.2 := by
  have hbound : ∀ r ∈ ranges, r.2 ≤ last.2 := fun r hmem => hend ▸ (ordered_bounds hr hmem).2
  by_cases hle : p.2 ≤ last.2
  · have hk : searchsortedRight (ranges.map Prod.snd) p.1 < (ranges.map Prod.snd).length :=
      countP_lt_length_iff.2 ⟨last.2, mem_map_of_mem hlast, decide_eq_false (by omega)⟩
    rw [Nat.min_eq_left (by omega)]
    exact active_iff hr hlast hlt hle
  · constructor
    · rintro ⟨-, h2⟩
      generalize min (searchsortedRight (ranges.map Prod.snd) p.1) _ = k at h2
      rw [getD_eq_getElem?_getD, getElem?_map] at h2
      cases hk : ranges[k]? with
      | none =>
        rw [hk] at h2
        exact absurd h2 (by simp; omega)
      | some r =>
        rw [hk] at h2
        have hr2 := hbound r (mem_of_getElem? hk)
        have h2 : p.2 ≤ r.2 := h2
        omega
    · rintro ⟨r, hmem, -, h2⟩
      have := hbound r hmem
      omega

/-- **What `plan_ranges` returns.** -/
theorem planRanges_eq (hc : c.Periodic) (hr : Ordered ranges) (hne : ranges ≠ [])
    (hbase : ∀ r ∈ ranges, base ≤ r.1) (hmap : ∀ r ∈ ranges, r.2 - base ≤ slots.length) :
    c.planRanges slots (ranges.map Prod.fst) (ranges.map Prod.snd) base =
      .ok (segmentsFrom c.isBoundary (mapSlot slots base) 0 ranges) := by
  obtain ⟨-, last, hlast, htail⟩ := exists_ends hne
  have hlen : ranges.length ≠ 0 := fun h => hne (length_eq_zero_iff.1 h)
  unfold DmaCycle.planRanges
  rw [if_neg (by rw [length_map, length_map]; omega)]
  simp only
  rw [filter_pieces c.isBoundary (pairwise_uniqueSorted _) hr
    (fun r hmem x h1 h2 => mem_rangeEdges hc hr hmem h1 h2) fun p hp => by
      rw [decide_eq_true_eq]
      exact keep_iff hr hlast htail ((mem_pieces (pairwise_uniqueSorted _)).1 hp).2.2.1]
  refine Eq.trans (mapM_eq_ok fun p hp => ?_) (congrArg Except.ok
    (segmentsFrom_eq_map hr c.isBoundary (mapSlot slots base)))
  obtain ⟨r, hmem, hp⟩ := mem_flatMap.1 hp
  have hlt := hr.nonempty r hmem
  have hin := piece_inside hlt hp
  have hb := hbase r hmem
  have hm := hmap r hmem
  have hend := (ordered_bounds hr hmem).2
  -- the clamp does nothing to the pieces that are kept
  have hk : searchsortedRight (ranges.map Prod.snd) p.1 < (ranges.map Prod.snd).length :=
    countP_lt_length_iff.2 ⟨r.2, mem_map_of_mem hmem, decide_eq_false (by omega)⟩
  rw [Nat.min_eq_left (by omega), tensorItem_sub (by omega) (by omega)]
  rfl

/-! ### `plan` -/

theorem getElem?_pieces {edges : List Nat} {i : Nat} :
    (pieces edges)[i]? = some p ↔ edges[i]? = some p.1 ∧ edges[i + 1]? = some p.2 := by
  unfold pieces
  rw [getElem?_zip_eq_some, getElem?_tail]

variable {start stop : Nat}

theorem chunk_number {n : Nat} (hn : 0 < n) {i : Nat}
    (h : (chunkRanges start stop n)[i]? = some r) (hlt : start < stop) :
    r.1 / n = start / n + i ∧ (r.1 = start ∨ n ∣ r.1) := by
  unfold chunkRanges at h
  rw [if_neg (by omega)] at h
  have hedges := @pairwise_cutsBetween (fun x => decide (n ∣ x)) start stop hlt
  induction i generalizing r with
  | zero =>
    obtain ⟨h1, -⟩ := getElem?_pieces.1 h
    have h1 : start = r.1 := Option.some.inj h1
    exact ⟨by rw [h1, Nat.add_zero], .inl h1.symm⟩
  | succ i ih =>
    obtain ⟨h1, h2⟩ := getElem?_pieces.1 h
    have hlen := lt_of_getElem? h1
    have hq : (pieces (cutsBetween (fun x => decide (n ∣ x)) start stop))[i]? =
        some ((cutsBetween (fun x => decide (n ∣ x)) start stop)[i], r.1) :=
      getElem?_pieces.2 ⟨getElem?_eq_getElem (by omega), h1⟩
    obtain ⟨ih, -⟩ := ih hq
    have hqmem := mem_of_getElem? hq
    have hrmem := mem_of_getElem? h
    have hin := piece_inside hlt hrmem
    have hqin := piece_inside hlt hqmem
    generalize (cutsBetween (fun x => decide (n ∣ x)) start stop)[i] = a at *
    -- a chunk that is not the first begins at a multiple, and the chunk before has none inside
    have hdvd : n ∣ r.1 := by
      rcases (mem_cutsBetween hlt).1 ((mem_pieces hedges).1 hrmem).1 with he | he | ⟨-, hd⟩
      · have hqin : start ≤ a ∧ a < r.1 ∧ r.1 ≤ stop := hqin
        omega
      · omega
      · exact of_decide_eq_true hd
    have hsame : a / n = (r.1 - 1) / n := by
      refine div_eq_of_inside hn hqin.2.1 fun x h1 h2 hx => ?_
      have := piece_uncut hlt hqmem h1 h2
      exact of_decide_eq_false this (Nat.dvd_of_mod_eq_zero hx)
    obtain ⟨m, hm⟩ := hdvd
    have hdiv : r.1 / n = (r.1 - 1) / n + 1 := by
      have hsucc := Nat.succ_div_of_dvd (a := r.1 - 1) (b := n) (by
        rw [Nat.sub_add_cancel (by omega)]
        exact ⟨m, hm⟩)
      rwa [Nat.sub_add_cancel (by omega)] at hsucc
    refine ⟨?_, .inr ⟨m, hm⟩⟩
    have ih : a / n = start / n + i := ih
    omega

theorem chunkRanges_ordered {n : Nat} (h : start ≤ stop) :
    Ordered (chunkRanges start stop n) ∧
      ∀ r ∈ chunkRanges start stop n, start ≤ r.1 ∧ r.2 ≤ stop := by
  unfold chunkRanges
  split
  · exact ⟨⟨nofun, .nil⟩, nofun⟩
  have hlt : start < stop := by omega
  refine ⟨⟨fun r hr => (piece_inside hlt hr).2.1, pairwise_pieces (pairwise_cutsBetween hlt)⟩,
    fun r hr => ?_⟩
  have := piece_inside hlt hr
  omega

/-- **What `plan` returns.** -/
theorem plan_eq (hc : c.Aligned) (h : start ≤ stop) (hmap : stop ≤ slots.length) :
    c.plan slots start stop =
      .ok (segmentsFrom c.isBoundary (mapSlot slots 0) 0 (chunkRanges start stop c.chunkTokens)) := by
  unfold DmaCycle.plan
  rw [if_neg (by omega)]
  simp only [Int.toNat_natCast]
  by_cases he : start = stop
  · rw [if_pos he]
    unfold chunkRanges
    rw [if_pos he]
    rfl
  have hlt : start < stop := by omega
  have hinner : ((c.periodicEdges start stop).filter fun x => decide (start < x ∧ x < stop)) =
      (range' (start + 1) (stop - (start + 1))).filter c.isBoundary := by
    refine eq_of_pairwise_lt (f := id) ((pairwise_periodicEdges hc _ _).filter _)
      ((pairwise_lt_range' 1).filter _) fun x => ?_
    rw [mem_filter, mem_filter, mem_range'_1, decide_eq_true_eq]
    constructor
    · rintro ⟨hx, h1, h2⟩
      exact ⟨by omega, (mem_periodicEdges hc.toPeriodic (Nat.le_of_lt h1) h2).1 hx⟩
    · rintro ⟨hx, hb⟩
      exact ⟨(mem_periodicEdges hc.toPeriodic (by omega) (by omega)).2 hb, by omega⟩
  have hedges : start :: ((range' (start + 1) (stop - (start + 1))).filter c.isBoundary ++
      [stop]) = cutsBetween c.isBoundary start stop := rfl
  have hsub : ∀ x, decide (c.chunkTokens ∣ x) = true → c.isBoundary x = true :=
    fun x hx => hc.chunk x (of_decide_eq_true hx)
  have hchunks : chunkRanges start stop c.chunkTokens =
      pieces (cutsBetween (fun x => decide (c.chunkTokens ∣ x)) start stop) := if_neg he
  rw [if_neg he, hinner, hedges, pieces_refine hlt hsub, ← hchunks]
  refine congrArg Except.ok (segmentsFrom_eq_flatMap fun i r hi p hp => ?_)
  obtain ⟨hnumber, hfirst⟩ := chunk_number hc.chunk_pos hi hlt
  have hr := mem_of_getElem? hi
  have hrlt := (chunkRanges_ordered h).1.nonempty r hr
  have hin := piece_inside hrlt hp
  have hbound := (chunkRanges_ordered h).2 r hr
  rw [hchunks] at hr
  -- all tokens of a chunk are of one page
  have hpage : p.1 / c.chunkTokens = r.1 / c.chunkTokens := by
    refine (div_eq_of_inside hc.chunk_pos (b := p.1 + 1) (by omega) fun x h1 h2 hx => ?_).symm
    have := piece_uncut hlt hr h1 (by omega : x < r.2)
    exact of_decide_eq_false this (Nat.dvd_of_mod_eq_zero hx)
  have hbegin : max (p.1 / c.chunkTokens * c.chunkTokens) start = r.1 := by
    have hle := Nat.div_mul_le_self r.1 c.chunkTokens
    rw [hpage]
    rcases hfirst with he | hdvd
    · omega
    · rw [Nat.div_mul_cancel hdvd]
      omega
  show (⟨p.1 / c.chunkTokens - start / c.chunkTokens, slots.getD p.1 0,
    p.1 - max (p.1 / c.chunkTokens * c.chunkTokens) start, p.2 - p.1⟩ : Segment) = _
  have hi' : p.1 / c.chunkTokens - start / c.chunkTokens = 0 + i := by omega
  rw [hbegin, hi']
  rfl

end

end

/-! ### `plan_bundle_copies` -/

theorem sizeRanges_snd (a : Nat) (sizes : List Nat) :
    (sizeRanges a sizes).map Prod.snd = sizes.inits.tail.map fun l => a + l.sum := by
  induction sizes generalizing a with
  | nil => rfl
  | cons n ns ih =>
    have hinits : ns.inits = [] :: ns.inits.tail := by cases ns <;> rfl
    rw [sizeRanges, map_cons, ih, inits_cons, tail_cons, map_map, hinits]
    rw [map_cons, tail_cons]
    congr 1
    refine map_congr_left fun l _ => ?_
    show a + n + l.sum = a + (n :: l).sum
    rw [sum_cons, Nat.add_assoc]

theorem cumsum_eq (sizes : List Nat) : cumsum sizes = (sizeRanges 0 sizes).map Prod.snd := by
  rw [sizeRanges_snd]
  exact map_congr_left fun l _ => (Nat.zero_add _).symm

theorem sizeRanges_fst (a : Nat) (sizes : List Nat) :
    ((sizeRanges a sizes).map Prod.snd).zipWith (· - ·) sizes =
      (sizeRanges a sizes).map Prod.fst := by
  induction sizes generalizing a with
  | nil => rfl
  | cons n ns ih =>
    rw [sizeRanges, map_cons, map_cons, zipWith_cons_cons, ih]
    congr 1
    exact Nat.add_sub_cancel a n

section

variable {sizes : List Nat} {a : Nat}

theorem mem_sizeRanges {r : Nat × Nat} (h : r ∈ sizeRanges a sizes) :
    (a ≤ r.1 ∧ r.2 ≤ a + sizes.sum) ∧ (r.1 = a ∨ ∃ q ∈ sizeRanges a sizes, q.2 = r.1) := by
  induction sizes generalizing a with
  | nil => cases h
  | cons n ns ih =>
    rw [sizeRanges] at h
    rw [sum_cons]
    rcases mem_cons.1 h with rfl | h
    · exact ⟨⟨Nat.le_refl _, by show a + n ≤ _; omega⟩, .inl rfl⟩
    obtain ⟨hin, hfirst⟩ := ih h
    refine ⟨by omega, .inr ?_⟩
    rcases hfirst with he | ⟨q, hq, he⟩
    · exact ⟨_, mem_cons_self, he.symm⟩
    · exact ⟨q, mem_cons_of_mem _ hq, he⟩

theorem sizeRanges_ordered (h : ∀ n ∈ sizes, 0 < n) : Ordered (sizeRanges a sizes) := by
  induction sizes generalizing a with
  | nil => exact ⟨nofun, .nil⟩
  | cons n ns ih =>
    obtain ⟨hn, hns⟩ := forall_mem_cons.1 h
    obtain ⟨hne, hfollow⟩ := ih (a := a + n) hns
    refine ⟨fun r hr => ?_, pairwise_cons.2 ⟨fun q hq => (mem_sizeRanges hq).1.1, hfollow⟩⟩
    rcases mem_cons.1 hr with rfl | hr
    · show a < a + n
      omega
    · exact hne r hr

theorem exists_sizeRange {t : Nat} (h1 : a ≤ t) (h2 : t < a + sizes.sum) :
    ∃ r ∈ sizeRanges a sizes, r.1 ≤ t ∧ t < r.2 := by
  induction sizes generalizing a with
  | nil =>
    rw [sum_nil] at h2
    omega
  | cons n ns ih =>
    rw [sum_cons] at h2
    by_cases ht : t < a + n
    · exact ⟨(a, a + n), mem_cons_self, h1, ht⟩
    · obtain ⟨r, hr, hin⟩ := ih (a := a + n) (by omega) (by omega)
      exact ⟨r, mem_cons_of_mem _ hr, hin⟩

/-- Where `plan_bundle_copies` cuts. -/
def bundleCut (slots : List Nat) (bundleTokens x : Nat) : Bool :=
  decide (slots.getD x 0 ≠ slots.getD (x - 1) 0 + 1 ∨ slots.getD x 0 % bundleTokens = 0)

variable {bundleTokens : Nat}

theorem mem_bundleGaps {slots : List Nat} :
    x ∈ ((range (slots.length - 1)).filter fun i =>
        decide (slots.getD (i + 1) 0 ≠ slots.getD i 0 + 1 ∨
          slots.getD (i + 1) 0 % bundleTokens = 0)).map (· + 1) ↔
      (0 < x ∧ x < slots.length) ∧ bundleCut slots bundleTokens x = true := by
  rw [mem_map]
  constructor
  · rintro ⟨i, hi, rfl⟩
    obtain ⟨hlt, hcut⟩ := mem_filter.1 hi
    rw [mem_range] at hlt
    exact ⟨by omega, hcut⟩
  · rintro ⟨⟨h1, h2⟩, hcut⟩
    obtain ⟨i, rfl⟩ : ∃ i, x = i + 1 := ⟨x - 1, by omega⟩
    exact ⟨i, mem_filter.2 ⟨mem_range.2 (by omega), hcut⟩, rfl⟩

/-- Cutting all slots at once is cutting each chunk on its own. -/
theorem pieces_bundle {slots : List Nat} (hpos : ∀ n ∈ sizes, 0 < n)
    (hsum : sizes.sum = slots.length) :
    pieces (uniqueSorted (0 :: ((sizeRanges 0 sizes).map Prod.snd ++
        ((range (slots.length - 1)).filter fun i =>
          decide (slots.getD (i + 1) 0 ≠ slots.getD i 0 + 1 ∨
            slots.getD (i + 1) 0 % bundleTokens = 0)).map (· + 1)))) =
      (sizeRanges 0 sizes).flatMap fun r =>
        pieces (cutsBetween (bundleCut slots bundleTokens) r.1 r.2) := by
  have hr := @sizeRanges_ordered sizes 0 hpos
  have hin := fun r => @mem_sizeRanges sizes 0 r
  rw [Nat.zero_add, hsum] at hin
  generalize hedges : uniqueSorted (0 :: ((sizeRanges 0 sizes).map Prod.snd ++ _)) = edges
  have hsorted : edges.Pairwise (· < ·) := hedges ▸ pairwise_uniqueSorted _
  have hmem : ∀ x, x ∈ edges ↔ x = 0 ∨ (∃ r ∈ sizeRanges 0 sizes, r.2 = x) ∨
      (0 < x ∧ x < slots.length) ∧ bundleCut slots bundleTokens x = true := by
    intro x
    rw [← hedges, mem_uniqueSorted, mem_cons, mem_append, mem_bundleGaps, mem_map]
  have hall := @filter_pieces (bundleCut slots bundleTokens) _ _ (fun _ => true) hsorted hr ?edge
    ?keep
  case edge =>
    intro r hmr x h1 h2
    have hne := hr.nonempty r hmr
    obtain ⟨hbound, hfirst⟩ := hin r hmr
    rw [hmem, mem_cutsBetween hne]
    constructor
    · rintro (rfl | ⟨q, hq, rfl⟩ | ⟨hx, hcut⟩)
      · exact .inl (by omega)
      · have := hr.nonempty q hq
        rcases hr.apart hmr hq with rfl | h | h
        · exact .inr (.inl rfl)
        · exact .inl (by omega)
        · omega
      · by_cases hx1 : x = r.1
        · exact .inl hx1
        by_cases hx2 : x = r.2
        · exact .inr (.inl hx2)
        · exact .inr (.inr ⟨by omega, hcut⟩)
    · rintro (rfl | rfl | ⟨hx, hcut⟩)
      · rcases hfirst with he | ⟨q, hq, he⟩
        · exact .inl he
        · exact .inr (.inl ⟨q, hq, he⟩)
      · exact .inr (.inl ⟨r, hmr, rfl⟩)
      · exact .inr (.inr ⟨by omega, hcut⟩)
  case keep =>
    intro p hp
    obtain ⟨h1, h2, hlt, hnone⟩ := (mem_pieces hsorted).1 hp
    have hle : p.2 ≤ slots.length := by
      rcases (hmem _).1 h2 with he | ⟨r, hmr, he⟩ | ⟨hx, -⟩
      · omega
      · have := (hin r hmr).1
        omega
      · omega
    obtain ⟨r, hmr, hr1, hr2⟩ := @exists_sizeRange sizes 0 p.1 (Nat.zero_le _) (by omega)
    refine iff_of_true rfl ⟨r, hmr, hr1, ?_⟩
    have := hnone r.2 ((hmem _).2 (.inr (.inl ⟨r, hmr, rfl⟩)))
    omega
  rw [← hall]
  exact (filter_eq_self.2 fun _ _ => rfl).symm

theorem planBundleCopies_eq {slots chunkSizes : List Int} {bundleTokens : Int}
    (hbundle : 0 < bundleTokens) (hne : chunkSizes ≠ []) (hpos : ∀ n ∈ chunkSizes, 0 < n)
    (hslots : ∀ s ∈ slots, 0 ≤ s) (hsum : chunkSizes.sum = slots.length) :
    planBundleCopies slots chunkSizes bundleTokens =
      .ok (segmentsFrom (bundleCut (slots.map Int.toNat) bundleTokens.toNat)
        (mapSlot (slots.map Int.toNat) 0) 0 (sizeRanges 0 (chunkSizes.map Int.toNat))) := by
  have hpos' : ∀ n ∈ chunkSizes.map Int.toNat, 0 < n := by
    intro n hn
    obtain ⟨m, hm, rfl⟩ := mem_map.1 hn
    have := hpos m hm
    omega
  have hsum' : (chunkSizes.map Int.toNat).sum = (slots.map Int.toNat).length := by
    have hcast : ∀ l : List Int, (∀ n ∈ l, 0 < n) → ((l.map Int.toNat).sum : Int) = l.sum := by
      intro l
      induction l with
      | nil => intro _; rfl
      | cons n l ih =>
        intro h
        obtain ⟨hn, hl⟩ := forall_mem_cons.1 h
        have ih := ih hl
        rw [map_cons, sum_cons, sum_cons]
        omega
    have := hcast chunkSizes hpos
    rw [length_map]
    omega
  have hlen : chunkSizes.length ≠ 0 := fun h => hne (length_eq_zero_iff.1 h)
  unfold planBundleCopies
  rw [if_neg ?sizes, if_neg ?slots]
  case sizes =>
    rintro (h | h | ⟨n, hn, hle⟩)
    · omega
    · exact hlen h
    · have := hpos n hn
      omega
  case slots =>
    rintro (h | ⟨s, hs, hlt⟩)
    · exact h hsum
    · have := hslots s hs
      omega
  simp only
  rw [cumsum_eq, sizeRanges_fst, pieces_bundle hpos' hsum']
  exact congrArg Except.ok (segmentsFrom_eq_map (sizeRanges_ordered hpos')
    (bundleCut (slots.map Int.toNat) bundleTokens.toNat) (mapSlot (slots.map Int.toNat) 0))

theorem bundle_of_mem {slots : List Nat} (hbundle : 0 < bundleTokens) {ranges : List (Nat × Nat)}
    (hr : ∀ r ∈ ranges, r.1 < r.2) {s : Segment}
    (hs : s ∈ segmentsFrom (bundleCut slots bundleTokens) (mapSlot slots 0) 0 ranges) :
    s.InChunk ranges ∧ s.slot / bundleTokens = (s.slot + s.tokens - 1) / bundleTokens := by
  obtain ⟨i, r, p, hi, hp, rfl⟩ := mem_segmentsFrom.1 hs
  have hlt := hr r (mem_of_getElem? hi)
  have hin := piece_inside hlt hp
  have hcut : ∀ x, p.1 < x → x < p.2 → mapSlot slots 0 x = mapSlot slots 0 (x - 1) + 1 ∧
      mapSlot slots 0 x % bundleTokens ≠ 0 := by
    intro x h1 h2
    have := of_decide_eq_false (piece_uncut hlt hp h1 h2)
    rw [not_or, not_not] at this
    exact this
  have hplace : ∀ n, p.1 + n < p.2 → mapSlot slots 0 (p.1 + n) = mapSlot slots 0 p.1 + n := by
    intro n
    induction n with
    | zero => intro _; rfl
    | succ n ih =>
      intro hn
      have hstep := (hcut (p.1 + (n + 1)) (by omega) hn).1
      rw [← Nat.add_assoc, Nat.add_sub_cancel, ih (by omega)] at hstep
      rw [← Nat.add_assoc, hstep, Nat.add_assoc]
  refine ⟨⟨r, by rw [Nat.zero_add]; exact hi, ?_, ?_⟩, ?_⟩
  · show 0 < p.2 - p.1
    omega
  · show p.1 - r.1 + (p.2 - p.1) ≤ r.2 - r.1
    omega
  · have hsame : mapSlot slots 0 p.1 / bundleTokens =
        (mapSlot slots 0 p.1 + (p.2 - p.1) - 1) / bundleTokens := by
      refine div_eq_of_inside hbundle (by omega) fun y h1 h2 => ?_
      have hy := hplace (y - mapSlot slots 0 p.1) (by omega)
      have hmod := (hcut (p.1 + (y - mapSlot slots 0 p.1)) (by omega) (by omega)).2
      have he : mapSlot slots 0 p.1 + (y - mapSlot slots 0 p.1) = y := by omega
      rwa [hy, he] at hmod
    exact hsame

end

/-! ## Slot maps of block tables -/

theorem getElem?_expandBlocks {blockIds : List Nat} {blockSize i : Nat}
    (h : i < blockIds.length * blockSize) :
    (expandBlocks blockIds blockSize)[i]? =
      some (blockIds.getD (i / blockSize) 0 * blockSize + i % blockSize) := by
  have hbs : 0 < blockSize := Nat.pos_of_ne_zero fun h0 => by rw [h0, Nat.mul_zero] at h; omega
  induction blockIds generalizing i with
  | nil =>
    rw [length_nil, Nat.zero_mul] at h
    omega
  | cons b l ih =>
    have hlen : ((range blockSize).map fun i => b * blockSize + i).length = blockSize := by
      rw [length_map, length_range]
    rw [expandBlocks, flatMap_cons]
    by_cases hi : i < blockSize
    · rw [getElem?_append_left (by rwa [hlen]), getElem?_map, getElem?_range hi,
        Nat.div_eq_of_lt hi, Nat.mod_eq_of_lt hi]
      rfl
    rw [length_cons, Nat.succ_mul] at h
    rw [getElem?_append_right (by omega), hlen]
    have ih := ih (i := i - blockSize) (by omega)
    rw [expandBlocks] at ih
    have hdiv : i / blockSize = (i - blockSize) / blockSize + 1 := by
      rw [Nat.div_eq_sub_div hbs (by omega)]
    have hmod : i % blockSize = (i - blockSize) % blockSize := Nat.mod_eq_sub_mod (by omega)
    rw [ih, hdiv, hmod]
    rfl

/-- A token's slot, by the expanded map and by the part of the table that has its block. -/
theorem mapSlot_expandBlocks {blockIds : List Nat} {blockSize firstBlock base t : Nat}
    (hfirst : firstBlock * blockSize ≤ t - base) (hend : t - base < blockIds.length * blockSize) :
    mapSlot (expandBlocks blockIds blockSize) base t =
      slotOf (blockIds.drop firstBlock) blockSize firstBlock base t := by
  have hbs : 0 < blockSize := Nat.pos_of_ne_zero fun h0 => by rw [h0, Nat.mul_zero] at hend; omega
  have hle : firstBlock ≤ (t - base) / blockSize := (Nat.le_div_iff_mul_le hbs).2 hfirst
  unfold mapSlot slotOf
  rw [getD_eq_getElem?_getD, getElem?_expandBlocks hend]
  have hget : (blockIds.drop firstBlock).getD ((t - base) / blockSize - firstBlock) 0 =
      blockIds.getD ((t - base) / blockSize) 0 := by
    rw [getD_eq_getElem?_getD, getD_eq_getElem?_getD, getElem?_drop,
      Nat.add_sub_cancel' hle]
  rw [hget]
  rfl

/-! ## All planners -/

section

variable {c : DmaCycle} {blockIds : List Nat} {blockSize firstBlock base : Nat}
  {ranges : List (Nat × Nat)}

theorem planBlockIdRanges_covers (hc : c.Periodic) (hbs : 0 < blockSize) (hr : Ordered ranges)
    (hcov : Covers blockIds blockSize firstBlock base ranges) :
    ∃ plan, c.planBlockIdRanges blockIds blockSize (ranges.map Prod.fst) (ranges.map Prod.snd) base
        firstBlock = .ok plan ∧
      cellsOf plan = requested (slotOf blockIds blockSize firstBlock base) 0 ranges ∧
      ∀ s ∈ plan, s.Within c.period base ranges := by
  refine ⟨_, planBlockIdRanges_eq hc hr hbs hcov, ?_, fun s hs => ?_⟩
  · refine cells_segmentsFrom hr.nonempty (fun r hmem x h1 _ hcut => ?_) 0
    have hb := hcov.base_le r hmem
    exact slotOf_of_uncut hbs (by omega) hcut
  · refine within_segmentsFrom hc.period_pos hr.nonempty hcov.base_le (fun r _ x _ _ hx => ?_) hs
    unfold cutAt
    rw [Bool.or_eq_true]
    refine .inl (decide_eq_true ?_)
    rw [hx]
    exact hc.zero

/-- Both planners give one plan exactly when they cut at the same tokens. -/
theorem planRanges_eq_iff (hc : c.Periodic) (hbs : 0 < blockSize) (hr : Ordered ranges)
    (hne : ranges ≠ []) (hcov : Covers (blockIds.drop firstBlock) blockSize firstBlock base ranges) :
    c.planRanges (expandBlocks blockIds blockSize) (ranges.map Prod.fst) (ranges.map Prod.snd) base =
        c.planBlockIdRanges (blockIds.drop firstBlock) blockSize (ranges.map Prod.fst)
          (ranges.map Prod.snd) base firstBlock ↔
      ∀ r ∈ ranges, ∀ x, r.1 < x → x < r.2 →
        c.isBoundary x = cutAt c (blockIds.drop firstBlock) blockSize firstBlock base x := by
  have hend : ∀ r ∈ ranges, r.2 - base ≤ blockIds.length * blockSize := by
    intro r hmem
    have hlt := hr.nonempty r hmem
    have hb := hcov.base_le r hmem
    have hf := hcov.first_le r hmem
    have hcovered := hcov.end_le r hmem
    rw [length_drop] at hcovered
    by_cases hle : firstBlock ≤ blockIds.length
    · rwa [Nat.add_sub_cancel' hle] at hcovered
    have hnone : firstBlock + (blockIds.length - firstBlock) = firstBlock := by omega
    rw [hnone] at hcovered
    omega
  have hlen : (expandBlocks blockIds blockSize).length = blockIds.length * blockSize := by
    unfold expandBlocks
    rw [length_flatMap]
    simp
  rw [planRanges_eq hc hr hne hcov.base_le (fun r hmem => by rw [hlen]; exact hend r hmem),
    planBlockIdRanges_eq hc hr hbs hcov]
  have hslots : segmentsFrom c.isBoundary (mapSlot (expandBlocks blockIds blockSize) base) 0 ranges =
      segmentsFrom c.isBoundary (slotOf (blockIds.drop firstBlock) blockSize firstBlock base) 0
        ranges := by
    refine segmentsFrom_congr 0 hr.nonempty (fun _ _ _ _ _ => rfl) fun r hmem t h1 h2 => ?_
    have hb := hcov.base_le r hmem
    have hf := hcov.first_le r hmem
    have he := hend r hmem
    exact mapSlot_expandBlocks (by omega) (by omega)
  rw [hslots, Except.ok.injEq]
  exact segmentsFrom_eq_iff hr.nonempty 0

/-- They do for a map that is contiguous between the boundaries, from a period's start on. -/
theorem cuts_agree (hbs : 0 < blockSize) (hbase : ∀ r ∈ ranges, base ≤ r.1)
    (hdvd : c.period ∣ base)
    (hruns : Runs c.isBoundary (slotOf blockIds blockSize firstBlock base) ranges)
    (hmem : r ∈ ranges) (h1 : r.1 < x) (h2 : x < r.2) :
    c.isBoundary x = cutAt c blockIds blockSize firstBlock base x := by
  have hb := hbase r hmem
  have hmod : (x - base) % c.period = x % c.period := by
    obtain ⟨m, rfl⟩ := hdvd
    conv_rhs => rw [← Nat.sub_add_cancel (show c.period * m ≤ x by omega)]
    rw [Nat.add_mul_mod_self_left]
  rw [cutAt_eq hbs (by omega), hmod]
  cases hcut : c.isBoundary x with
  | true =>
    have hin := of_decide_eq_true hcut
    simp [hin]
  | false =>
    have hout := of_decide_eq_false hcut
    have hslot := hruns r hmem x h1 h2 hcut
    simp [hout, hslot]

/-- **The layerwise planners.**  `plan_block_id_ranges` and `plan_bundle_copies` cover their ranges.
`plan_ranges` and `plan` cover theirs exactly when the slots run on between the cycle's boundaries.
Every segment is in one chunk, and in one period (of `plan_bundle_copies`, in one bundle of slots).
`plan_ranges` plans the expanded table as `plan_block_id_ranges` does exactly when both cut alike,
as they do when the bundles are contiguous and the map begins with a period. -/
theorem planners_cover {bundleTokens chunkTokens : Nat} {internalOffsets : Option (List Nat)}
    (hbuild : DmaCycle.build bundleTokens chunkTokens internalOffsets = .ok c)
    (hoffsets : ∀ o ∈ internalOffsets.getD [], o < bundleTokens) :
    (∀ blockIds blockSize firstBlock base ranges, 0 < blockSize → Ordered ranges →
      Covers blockIds blockSize firstBlock base ranges →
      ∃ plan, c.planBlockIdRanges blockIds blockSize (ranges.map Prod.fst) (ranges.map Prod.snd) base
          firstBlock = .ok plan ∧
        cellsOf plan = requested (slotOf blockIds blockSize firstBlock base) 0 ranges ∧
        ∀ s ∈ plan, s.Within c.period base ranges) ∧
    (∀ slots ranges base, ranges ≠ [] → Ordered ranges →
      (∀ r ∈ ranges, base ≤ r.1) → (∀ r ∈ ranges, r.2 - base ≤ slots.length) →
      ∃ plan, c.planRanges slots (ranges.map Prod.fst) (ranges.map Prod.snd) base = .ok plan ∧
        (cellsOf plan = requested (mapSlot slots base) 0 ranges ↔
          Runs c.isBoundary (mapSlot slots base) ranges) ∧
        ∀ s ∈ plan, s.Within c.period 0 ranges) ∧
    (∀ (slots : List Nat) (start stop : Nat), start ≤ stop → stop ≤ slots.length →
      ∃ plan, c.plan slots start stop = .ok plan ∧
        (cellsOf plan = requested (mapSlot slots 0) 0 (chunkRanges start stop chunkTokens) ↔
          Runs c.isBoundary (mapSlot slots 0) (chunkRanges start stop chunkTokens)) ∧
        ∀ s ∈ plan, s.Within c.period 0 (chunkRanges start stop chunkTokens)) ∧
    (∀ (slots chunkSizes : List Int) (bundle : Int), 0 < bundle → chunkSizes ≠ [] →
      (∀ n ∈ chunkSizes, 0 < n) → (∀ s ∈ slots, 0 ≤ s) → chunkSizes.sum = slots.length →
      ∃ plan, planBundleCopies slots chunkSizes bundle = .ok plan ∧
        cellsOf plan = requested (mapSlot (slots.map Int.toNat) 0) 0
          (sizeRanges 0 (chunkSizes.map Int.toNat)) ∧
        ∀ s ∈ plan, s.InChunk (sizeRanges 0 (chunkSizes.map Int.toNat)) ∧
          s.slot / bundle.toNat = (s.slot + s.tokens - 1) / bundle.toNat) ∧
    ∀ blockIds blockSize firstBlock base ranges, 0 < blockSize → ranges ≠ [] → Ordered ranges →
      Covers (blockIds.drop firstBlock) blockSize firstBlock base ranges →
      (c.planRanges (expandBlocks blockIds blockSize) (ranges.map Prod.fst) (ranges.map Prod.snd)
            base =
          c.planBlockIdRanges (blockIds.drop firstBlock) blockSize (ranges.map Prod.fst)
            (ranges.map Prod.snd) base firstBlock ↔
        ∀ r ∈ ranges, ∀ x, r.1 < x → x < r.2 →
          c.isBoundary x = cutAt c (blockIds.drop firstBlock) blockSize firstBlock base x) ∧
      (c.period ∣ base →
        Runs c.isBoundary (slotOf (blockIds.drop firstBlock) blockSize firstBlock base) ranges →
        c.planRanges (expandBlocks blockIds blockSize) (ranges.map Prod.fst) (ranges.map Prod.snd)
            base =
          c.planBlockIdRanges (blockIds.drop firstBlock) blockSize (ranges.map Prod.fst)
            (ranges.map Prod.snd) base firstBlock) := by
  have hc := DmaCycle.build_aligned hbuild hoffsets
  have hchunk : c.chunkTokens = chunkTokens := by
    unfold DmaCycle.build at hbuild
    split at hbuild
    · cases hbuild
    · cases hbuild
      rfl
  subst hchunk
  refine ⟨fun blockIds blockSize firstBlock base ranges hbs hr hcov =>
      planBlockIdRanges_covers hc.toPeriodic hbs hr hcov,
    fun slots ranges base hne hr hbase hmap => ⟨_, planRanges_eq hc.toPeriodic hr hne hbase hmap,
      cells_segmentsFrom_iff hr.nonempty 0, fun s hs => ?_⟩,
    fun slots start stop hle hmap => ?_, fun slots chunkSizes bundle hbundle hne hpos hslots hsum => ?_,
    fun blockIds blockSize firstBlock base ranges hbs hne hr hcov =>
      ⟨planRanges_eq_iff hc.toPeriodic hbs hr hne hcov, fun hdvd hruns =>
        (planRanges_eq_iff hc.toPeriodic hbs hr hne hcov).2 fun r hmem x h1 h2 =>
          cuts_agree hbs hcov.base_le hdvd hruns hmem h1 h2⟩⟩
  · exact within_segmentsFrom hc.period_pos hr.nonempty (fun _ _ => Nat.zero_le _)
      (fun _ _ _ _ _ hx => hc.toPeriodic.isBoundary_of_mod hx) hs
  · have hne := (@chunkRanges_ordered start stop c.chunkTokens hle).1.nonempty
    exact ⟨_, plan_eq hc hle hmap, cells_segmentsFrom_iff hne 0, fun s hs =>
      within_segmentsFrom hc.period_pos hne (fun _ _ => Nat.zero_le _)
        (fun _ _ _ _ _ hx => hc.toPeriodic.isBoundary_of_mod hx) hs⟩
  · have hpos' : ∀ n ∈ chunkSizes.map Int.toNat, 0 < n := by
      intro n hn
      obtain ⟨m, hm, rfl⟩ := mem_map.1 hn
      have := hpos m hm
      omega
    have hr := @sizeRanges_ordered _ 0 hpos'
    refine ⟨_, planBundleCopies_eq hbundle hne hpos hslots hsum,
      cells_segmentsFrom hr.nonempty (fun r hmem x h1 h2 hcut => ?_) 0,
      fun s hs => bundle_of_mem (by omega) hr.nonempty hs⟩
    have hcut := of_decide_eq_false hcut
    rw [not_or, not_not] at hcut
    exact hcut.1

/-- Bundles of two tokens and pages of four. -/
theorem planners_cover_built :
    ∃ plan, (⟨2, 4, 4, [0, 2]⟩ : DmaCycle).planBlockIdRanges [5, 3] 1 [0] [2] 0 0 = .ok plan ∧
      cellsOf plan = requested (slotOf [5, 3] 1 0 0) 0 [(0, 2)] := by
  obtain ⟨hblocks, -⟩ := @planners_cover ⟨2, 4, 4, [0, 2]⟩ 2 4 none (by decide) (by decide)
  obtain ⟨plan, hplan, hcells, -⟩ := hblocks [5, 3] 1 0 0 [(0, 2)] (by decide) (by decide)
    ⟨by decide, by decide, by decide⟩
  exact ⟨plan, hplan, hcells⟩

/-- Inside a bundle that is not contiguous `plan_ranges` and `plan` run on from its first slot. -/
theorem plan_over_gap :
    DmaCycle.build 2 4 none = .ok ⟨2, 4, 4, [0, 2]⟩ ∧ expandBlocks [5, 3] 1 = [5, 3] ∧
    (⟨2, 4, 4, [0, 2]⟩ : DmaCycle).planRanges [5, 3] [0] [2] 0 = .ok [⟨0, 5, 0, 2⟩] ∧
    (⟨2, 4, 4, [0, 2]⟩ : DmaCycle).plan [5, 3] 0 2 = .ok [⟨0, 5, 0, 2⟩] ∧
    (⟨2, 4, 4, [0, 2]⟩ : DmaCycle).planBlockIdRanges [5, 3] 1 [0] [2] 0 0 =
      .ok [⟨0, 5, 0, 1⟩, ⟨0, 3, 1, 1⟩] ∧
    cellsOf [⟨0, 5, 0, 2⟩] ≠ requested (mapSlot [5, 3] 0) 0 [(0, 2)] := by
  decide

end

end LayerwiseDma
