import LMCacheAscend.MindSpore.Allocator

/-!
# What the first-fit allocator gives out

In every run the live objects and the free blocks tile the buffer (`Whole`), and the
count of allocated bytes is theirs.  An object of a batch has the place that
`allocate` would give it, but its raw data are the aligned size: it reads as the
object of `allocate` exactly if the raw size needs no padding.
-/

namespace MindSporeMemory

open Lib List Function

/-! ## First fit -/

variable (b : FreeBlock)

theorem addBlock_perm (blocks : List FreeBlock) :
    (addBlock b blocks).Perm (b :: blocks) := by
  induction blocks with
  | nil => exact .refl _
  | cons a blocks ih =>
    unfold addBlock
    split
    · exact .refl _
    · exact (ih.cons a).trans (.swap b a blocks)

variable {blocks : List FreeBlock} {block : FreeBlock}

theorem sorted_addBlock {b : FreeBlock} (h : Sorted blocks) :
    Sorted (addBlock b blocks) := by
  induction blocks with
  | nil => exact pairwise_singleton ..
  | cons a blocks ih =>
    obtain ⟨ha, hblocks⟩ := pairwise_cons.1 h
    unfold addBlock
    split
    · next hlt =>
      refine pairwise_cons.2 ⟨fun c hc => ?_, h⟩
      rcases mem_cons.1 hc with rfl | hc
      · exact Nat.le_of_lt hlt
      · exact Nat.le_trans (Nat.le_of_lt hlt) (ha c hc)
    · next hle =>
      refine pairwise_cons.2 ⟨fun c hc => ?_, ih hblocks⟩
      rcases mem_cons.1 ((addBlock_perm b blocks).mem_iff.1 hc) with rfl | hc
      · exact Nat.le_of_not_lt hle
      · exact ha c hc

/-- The places of the free blocks. -/
def freeCover (blocks : List FreeBlock) (x : Nat) : Nat := cover (blocks.map FreeBlock.region) x

theorem freeCover_addBlock (blocks : List FreeBlock) (x : Nat) :
    freeCover (addBlock b blocks) x = freeCover blocks x + cover [b.region] x := by
  rw [freeCover, cover_perm ((addBlock_perm b blocks).map FreeBlock.region), map_cons,
    Nat.add_comm]
  exact cover_add _

theorem firstFit_spec {blocks rest : List FreeBlock} {need : Nat}
    (h : firstFit blocks need = some (block, rest)) (hsorted : Sorted blocks) :
    block ∈ blocks ∧ need ≤ block.size ∧ Sorted rest ∧
      ∀ x, freeCover blocks x = freeCover rest x + cover [(block.start, need)] x := by
  obtain ⟨b, hfind, heq⟩ := Option.map_eq_some_iff.1 h
  obtain ⟨rfl, hrest⟩ := Prod.mk.inj heq
  have hmem := mem_of_find?_eq_some hfind
  have hneed : need ≤ b.size := by simpa using find?_some hfind
  have herase : Sorted (blocks.erase b) := hsorted.sublist erase_sublist
  have hblocks : ∀ x, freeCover blocks x = freeCover (blocks.erase b) x + cover [b.region] x := by
    intro x
    have hperm := (perm_cons_erase hmem).map FreeBlock.region
    rw [freeCover, cover_perm hperm, map_cons, cover_add, Nat.add_comm]
    rfl
  refine ⟨hmem, hneed, ?_, fun x => ?_⟩
  · rw [← hrest]
    split
    · exact sorted_addBlock herase
    · exact herase
  · have hsplit := cover_split (x := x) b.start need b.size hneed
    rw [hblocks x, ← hrest, FreeBlock.region, hsplit]
    split
    · rw [freeCover_addBlock]
      change _ = freeCover _ x + cover [(b.start + need, b.size - need)] x + _
      omega
    · next hfull =>
      rw [show b.size - need = 0 from by omega, cover_empty]
      omega

/-! ## Batches -/

theorem cut_replicate (offset length n : Nat) :
    cut offset (replicate n length) =
      (range n).map fun i => ⟨offset + i * length, length⟩ := by
  induction n generalizing offset with
  | zero => rfl
  | succ n ih =>
    rw [replicate_succ, cut, ih, range_succ_eq_map, map_cons, map_map]
    refine congrArg₂ _ (by rw [Nat.zero_mul, Nat.add_zero]) (map_congr_left fun i _ => ?_)
    rw [comp_apply, Nat.succ_mul]
    congr 1
    omega

theorem arraySplit_even (offset length : Nat) {n : Nat} (hn : 0 < n) :
    arraySplit ⟨offset, length * n⟩ n =
      (range n).map fun i => ⟨offset + i * length, length⟩ := by
  unfold arraySplit
  dsimp only
  rw [Nat.mul_div_cancel _ hn, Nat.mul_mod_left, replicate_zero, nil_append, Nat.sub_zero,
    cut_replicate]

theorem batchObjects_eq (shape : List Nat) (dtype : DType) (fmt : String) (parent : Parent)
    (unit start : Nat) (data : Nat → Slice) (n : Nat) :
    batchObjects shape dtype fmt parent unit start ((range n).map data) =
      (range n).map fun i =>
        ⟨data i, ⟨shape, dtype, start + i * unit, unit, 1, false, fmt⟩, parent⟩ := by
  induction n generalizing start data with
  | zero => rfl
  | succ n ih =>
    rw [range_succ_eq_map, map_cons, map_map, batchObjects, ih, map_cons,
      map_map]
    refine congrArg₂ _ (by rw [Nat.zero_mul, Nat.add_zero]) (map_congr_left fun i _ => ?_)
    rw [comp_apply, comp_apply, Nat.succ_mul]
    congr 2
    omega

/-! ## The tiling -/

/-- The places of the live objects. -/
def liveCover (s : Allocator) (x : Nat) : Nat := cover (s.live.map MemoryObj.region) x

/-- The live objects and the free blocks tile the buffer. -/
structure Whole (cfg : Config) (s : Allocator) : Prop where
  sorted : Sorted s.explicitList
  tiled : ∀ x, liveCover s x + freeCover s.explicitList x = if x < cfg.bufferSize then 1 else 0
  total : s.totalAllocatedSize = (s.live.map fun o => o.metadata.phySize).sum

section

variable {cfg : Config} {s : Allocator}

theorem Whole.new : Whole cfg (Allocator.new cfg) where
  sorted := pairwise_singleton ..
  tiled x := by
    show 0 + cover [(0, cfg.bufferSize)] x = _
    rw [cover_singleton, Nat.zero_add]
    have hwithin : Within (0, cfg.bufferSize) x ↔ x < cfg.bufferSize := by
      unfold Within
      omega
    simp only [hwithin]
  total := rfl

variable {objs : List MemoryObj} {dtype : DType} {shape : List Nat}

theorem Whole.take (h : Whole cfg s) {need : Nat} {rest : List FreeBlock}
    (hfit : firstFit s.explicitList need = some (block, rest))
    (hcover : ∀ x, cover (objs.map MemoryObj.region) x = cover [(block.start, need)] x)
    (hsum : (objs.map fun o => o.metadata.phySize).sum = need) (n : Nat) :
    Whole cfg { explicitList := rest
                numActiveAllocations := n
                totalAllocatedSize := s.totalAllocatedSize + need
                live := s.live ++ objs } := by
  obtain ⟨-, -, hsorted, hfree⟩ := firstFit_spec hfit h.sorted
  refine ⟨hsorted, fun x => ?_, ?_⟩
  · show cover ((s.live ++ objs).map MemoryObj.region) x + freeCover rest x = _
    rw [← h.tiled x, hfree x, liveCover, map_append, cover_append, hcover x]
    omega
  · rw [map_append, sum_append, hsum, ← h.total]

theorem Whole.allocate (h : Whole cfg s) (shape : List Nat) (dtype : Option DType) (fmt : String) :
    Whole cfg (allocate cfg s shape dtype fmt).2 := by
  unfold MindSporeMemory.allocate
  split
  · exact h
  dsimp only
  split
  · exact h
  · next hfit =>
    refine h.take hfit (fun x => ?_) ?_ _
    · rfl
    · rw [map_cons, map_nil, sum_cons, sum_nil]
      rfl

variable {item : Nat}

theorem itemsizeOf_some (h : dtype.itemsize = some item) :
    itemsizeOf (some dtype) = .ok (dtype, item) := by
  unfold itemsizeOf
  dsimp only
  rw [h]

theorem Whole.block_le (h : Whole cfg s) (hblock : block ∈ s.explicitList)
    (hpos : 0 < block.size) : block.start + block.size ≤ cfg.bufferSize := by
  have hlast := h.tiled (block.start + block.size - 1)
  have hfree : 0 < freeCover s.explicitList (block.start + block.size - 1) := by
    refine cover_pos.2 ⟨block.region, mem_map_of_mem hblock, ?_⟩
    unfold Within FreeBlock.region
    dsimp only
    omega
  split at hlast
  · omega
  · omega

theorem Whole.slice_block (h : Whole cfg s) (hblock : block ∈ s.explicitList)
    {k need : Nat} (hk : k + need ≤ block.size) :
    slice cfg.bufferSize (block.start + k) (block.start + k + need) =
      ⟨min (block.start + k) cfg.bufferSize, need⟩ := by
  unfold slice
  by_cases hneed : need = 0
  · subst hneed
    rw [Nat.add_zero, Nat.sub_self]
  · have hle := h.block_le hblock (by omega)
    congr 1
    omega

theorem Whole.batch (h : Whole cfg s) (hblock : block ∈ s.explicitList)
    (shape : List Nat) (dtype : DType) (fmt : String) (parent : Parent) {unit n : Nat}
    (hn : n ≠ 0) (hneed : unit * n ≤ block.size) :
    batchObjects shape dtype fmt parent unit block.start
        (arraySplit (slice cfg.bufferSize block.start (block.start + unit * n)) n) =
      (range n).map fun i =>
        ⟨⟨min block.start cfg.bufferSize + i * unit, unit⟩,
          ⟨shape, dtype, block.start + i * unit, unit, 1, false, fmt⟩, parent⟩ := by
  have hfits : 0 + unit * n ≤ block.size := by omega
  have hslice := h.slice_block hblock hfits
  rw [Nat.add_zero] at hslice
  rw [hslice, arraySplit_even _ _ (Nat.pos_of_ne_zero hn), batchObjects_eq]

theorem cover_batch (start unit n : Nat) (data : Nat → MemoryObj)
    (hdata : ∀ i, (data i).region = (start + i * unit, unit)) (x : Nat) :
    cover (((range n).map data).map MemoryObj.region) x = cover [(start, unit * n)] x := by
  rw [map_map, Nat.mul_comm, ← cover_units]
  unfold units
  refine congrArg (cover · x) (map_congr_left fun i _ => ?_)
  exact hdata i

theorem Whole.batchedAllocate (h : Whole cfg s) (shape : List Nat) (dtype : Option DType)
    (batchSize : Nat) (fmt : String) (parent : Option Nat) :
    Whole cfg (batchedAllocate cfg s shape dtype batchSize fmt parent).2 := by
  unfold MindSporeMemory.batchedAllocate
  split
  · exact h
  · next dtype item hitem =>
    dsimp only
    split
    · exact h
    · next block rest hfit =>
      obtain ⟨hblock, hneed, -⟩ := firstFit_spec hfit h.sorted
      split
      · next hzero =>
        rw [← append_nil s.live]
        refine h.take hfit (fun x => ?_) ?_ _
        · rw [hzero, Nat.mul_zero, cover_empty]
          rfl
        · rw [hzero, Nat.mul_zero]
          rfl
      · next hn =>
        rw [h.batch hblock shape dtype fmt (.named parent) hn hneed]
        refine h.take hfit (fun x => ?_) ?_ _
        · exact cover_batch _ _ _ _ (fun i => rfl) x
        · rw [map_map, Nat.mul_comm]
          show ((range batchSize).map fun _ =>
            cfg.alignedSize (computeRawSize shape item)).sum = _
          rw [map_const', length_range, sum_replicate_nat]

theorem Whole.free (hdoc : cfg.Documented) (h : Whole cfg s) (o : MemoryObj) :
    Whole cfg (free cfg s o) := by
  unfold MindSporeMemory.free
  split
  · next hlive =>
    have hperm := perm_cons_erase hlive
    have hcover : ∀ x, liveCover s x =
        cover [o.region] x + cover ((s.live.erase o).map MemoryObj.region) x := by
      intro x
      rw [liveCover, cover_perm (hperm.map MemoryObj.region), map_cons]
      exact cover_add _
    have hsum : (s.live.map fun o => o.metadata.phySize).sum = o.metadata.phySize +
        ((s.live.erase o).map fun o => o.metadata.phySize).sum := by
      rw [(hperm.map fun o => o.metadata.phySize).sum_eq, map_cons, sum_cons]
    obtain ⟨hsorted, hreturn⟩ := hdoc.returns s.explicitList
      ⟨o.metadata.address, o.metadata.phySize⟩ h.sorted fun x => by
        have htiled := h.tiled x
        have hx := hcover x
        change freeCover s.explicitList x + cover [o.region] x ≤ 1
        split at htiled <;> omega
    refine ⟨hsorted, fun x => ?_, ?_⟩
    · have htiled := h.tiled x
      have hx := hcover x
      have hfree : freeCover (cfg.returnRegion s.explicitList
          ⟨o.metadata.address, o.metadata.phySize⟩) x =
          freeCover s.explicitList x + cover [o.region] x := hreturn x
      change cover ((s.live.erase o).map MemoryObj.region) x +
        freeCover (cfg.returnRegion s.explicitList ⟨o.metadata.address, o.metadata.phySize⟩) x = _
      omega
    · have htotal := h.total
      change s.totalAllocatedSize - o.metadata.phySize =
        ((s.live.erase o).map fun o => o.metadata.phySize).sum
      omega
  · exact h

theorem whole_inductive (hdoc : cfg.Documented) : (machine cfg).Inductive (Whole cfg) where
  start s hs := by
    cases hs
    exact Whole.new
  step s a s' h hs := by
    cases a with
    | allocate shape dtype fmt =>
      cases hs
      exact h.allocate shape dtype fmt
    | batchedAllocate shape dtype batchSize fmt parent =>
      cases hs
      exact h.batchedAllocate shape dtype batchSize fmt parent
    | free o =>
      cases hs
      exact h.free hdoc o

/-! ## Objects of a batch -/

/-- The object has the raw size, the address range and the tensor of the other one. -/
structure MemoryObj.ReadsAs (cfg : Config) (o single : MemoryObj) : Prop where
  size : o.getSize = single.getSize
  region : o.region = single.region
  tensor : o.tensor cfg.isTorch = single.tensor cfg.isTorch

theorem alignedSize_eq_iff (hdoc : cfg.Documented) (raw : Nat) :
    cfg.alignedSize raw = raw ↔ raw % cfg.alignBytes = 0 := by
  unfold Config.alignedSize
  split
  · next hpad =>
    refine ⟨fun heq => ?_, fun hzero => absurd hzero hpad⟩
    have hdvd := (hdoc.aligned raw).2
    rw [heq] at hdvd
    exact Nat.mod_eq_zero_of_dvd hdvd
  · next hzero => exact ⟨fun _ => by omega, fun _ => rfl⟩

theorem le_alignedSize (hdoc : cfg.Documented) (raw : Nat) : raw ≤ cfg.alignedSize raw := by
  unfold Config.alignedSize
  split
  · exact (hdoc.aligned raw).1
  · exact Nat.le_refl raw

theorem viewAndShape_padded {isTorch : Bool} {data : Slice} (hitem : dtype.itemsize = some item)
    (hlength : data.length ≠ computeRawSize shape item) :
    viewAndShape isTorch data dtype shape = none := by
  unfold viewAndShape
  rw [hitem, Option.bind_some]
  refine if_neg ?_
  rintro ⟨hmod, hdiv, -⟩
  have heq := Nat.div_add_mod data.length item
  rw [hmod, hdiv, Nat.mul_comm] at heq
  exact hlength heq.symm

theorem batchedAllocate_some {batchSize : Nat} (hitem : dtype.itemsize = some item) {fmt : String}
    {parent : Option Nat} {s' : Allocator}
    (hbatch : batchedAllocate cfg s shape (some dtype) batchSize fmt parent =
      (.ok (some objs), s')) :
    ∃ block rest, firstFit s.explicitList
        (cfg.alignedSize (computeRawSize shape item) * batchSize) = some (block, rest) ∧
      batchSize ≠ 0 ∧ objs = batchObjects shape dtype fmt (.named parent)
        (cfg.alignedSize (computeRawSize shape item)) block.start
        (arraySplit (slice cfg.bufferSize block.start
          (block.start + cfg.alignedSize (computeRawSize shape item) * batchSize)) batchSize) := by
  unfold batchedAllocate at hbatch
  rw [itemsizeOf_some hitem] at hbatch
  dsimp only at hbatch
  split at hbatch
  · cases hbatch
  · next block rest hfit =>
    split at hbatch
    · cases hbatch
    · next hn =>
      cases hbatch
      exact ⟨block, rest, hfit, hn, rfl⟩

/-- The objects of a batch lie one after the other; they read as those of `allocate` exactly if the
raw size needs no padding, and with padding none is readable. -/
theorem batch_reads (hdoc : cfg.Documented) (h : Whole cfg s) {batchSize : Nat}
    (hitem : dtype.itemsize = some item) {fmt : String} {parent : Option Nat} {s' : Allocator}
    (hbatch : batchedAllocate cfg s shape (some dtype) batchSize fmt parent =
      (.ok (some objs), s')) :
    objs.length = batchSize ∧ (∃ start, ∀ i o, objs[i]? = some o →
      o.region = (start + i * cfg.alignedSize (computeRawSize shape item),
        cfg.alignedSize (computeRawSize shape item))) ∧
    ((∀ o ∈ objs, o.ReadsAs cfg (cfg.objectAt shape dtype item fmt o.metadata.address)) ↔
      computeRawSize shape item % cfg.alignBytes = 0) ∧
    (computeRawSize shape item % cfg.alignBytes ≠ 0 → ∀ o ∈ objs, o.tensor cfg.isTorch = none) := by
  obtain ⟨block, rest, hfit, hn, hobjs⟩ := batchedAllocate_some hitem hbatch
  obtain ⟨hblock, hneed, -⟩ := firstFit_spec hfit h.sorted
  rw [h.batch hblock shape dtype fmt (.named parent) hn hneed] at hobjs
  have hpad := alignedSize_eq_iff hdoc (computeRawSize shape item)
  have hraw := le_alignedSize hdoc (computeRawSize shape item)
  generalize hunit : cfg.alignedSize (computeRawSize shape item) = unit at hobjs hneed hpad hraw
  have hmem : ∀ o ∈ objs, ∃ i < batchSize, o = ⟨⟨min block.start cfg.bufferSize + i * unit, unit⟩,
      ⟨shape, dtype, block.start + i * unit, unit, 1, false, fmt⟩, .named parent⟩ := by
    intro o ho
    rw [hobjs] at ho
    obtain ⟨i, hi, rfl⟩ := mem_map.1 ho
    exact ⟨i, mem_range.1 hi, rfl⟩
  have hfits : ∀ i < batchSize, i * unit + unit ≤ block.size := by
    intro i hi
    have := Nat.mul_le_mul_right unit (Nat.succ_le_of_lt hi)
    rw [Nat.succ_mul, Nat.mul_comm batchSize] at this
    omega
  -- the data of the single object at the place of the object `i`
  have hsingle : ∀ i < batchSize, slice cfg.bufferSize (block.start + i * unit)
      (block.start + i * unit + computeRawSize shape item) =
      ⟨min (block.start + i * unit) cfg.bufferSize, computeRawSize shape item⟩ :=
    fun i hi => h.slice_block hblock (by have := hfits i hi; omega)
  refine ⟨by rw [hobjs, length_map, length_range], ⟨block.start, fun i o ho => ?_⟩,
    ⟨fun hreads => ?_, fun hzero o ho => ?_⟩, fun hne o ho => ?_⟩
  · rw [hobjs, getElem?_map] at ho
    obtain ⟨j, hj, rfl⟩ := Option.map_eq_some_iff.1 ho
    obtain ⟨hlt, rfl⟩ := List.getElem?_eq_some_iff.1 hj
    rw [getElem_range]
    rfl
  · -- the first object has the raw size
    have hpos := Nat.pos_of_ne_zero hn
    have hfirst := (hreads _ (by rw [hobjs]; exact mem_map.2 ⟨0, mem_range.2 hpos, rfl⟩)).size
    change unit = (slice cfg.bufferSize (block.start + 0 * unit)
      (block.start + 0 * unit + computeRawSize shape item)).length at hfirst
    rw [hsingle 0 hpos] at hfirst
    exact hpad.1 hfirst
  · obtain ⟨i, hi, rfl⟩ := hmem o ho
    have hexact : unit = computeRawSize shape item := hpad.2 hzero
    have hdata : (⟨min block.start cfg.bufferSize + i * unit, unit⟩ : Slice) =
        slice cfg.bufferSize (block.start + i * unit)
          (block.start + i * unit + computeRawSize shape item) := by
      rw [hsingle i hi, ← hexact]
      congr 1
      rcases Nat.eq_zero_or_pos unit with hnone | hpos
      · rw [hnone, Nat.mul_zero, Nat.add_zero, Nat.add_zero]
      have hsize := hfits i hi
      have hle := h.block_le hblock (by omega)
      omega
    refine ⟨congrArg Slice.length hdata, ?_, ?_⟩
    · show (block.start + i * unit, unit) =
        (block.start + i * unit, cfg.alignedSize (computeRawSize shape item))
      rw [hunit]
    · exact congrArg (fun data => viewAndShape cfg.isTorch data dtype shape) hdata
  · obtain ⟨i, hi, rfl⟩ := hmem o ho
    exact viewAndShape_padded hitem fun heq => hne (hpad.1 heq)

theorem allocate_refused (shape : List Nat) (dtype : Option DType) (fmt : String)
    (h : ∀ obj, (allocate cfg s shape dtype fmt).1 ≠ .ok (some obj)) :
    (allocate cfg s shape dtype fmt).2 = s := by
  unfold allocate at h ⊢
  split
  · rfl
  · next hitem =>
    rw [hitem] at h
    dsimp only at h ⊢
    split
    · rfl
    · next hfit =>
      rw [hfit] at h
      exact absurd rfl (h _)

theorem batchedAllocate_refused (shape : List Nat) (dtype : Option DType) (batchSize : Nat)
    (fmt : String) (parent : Option Nat)
    (h : ∀ objs, (batchedAllocate cfg s shape dtype batchSize fmt parent).1 ≠ .ok (some objs))
    (hn : batchSize ≠ 0 ∨
      (batchedAllocate cfg s shape dtype batchSize fmt parent).1 = .ok none) :
    (batchedAllocate cfg s shape dtype batchSize fmt parent).2 = s := by
  unfold batchedAllocate at h hn ⊢
  split
  · rfl
  · next hitem =>
    rw [hitem] at h hn
    dsimp only at h hn ⊢
    split
    · rfl
    · next hfit =>
      rw [hfit] at h hn
      dsimp only at h hn
      split
      · next hzero =>
        rw [if_pos hzero] at hn
        rcases hn with hn | hn
        · exact absurd hzero hn
        · cases hn
      · next hn =>
        rw [if_neg hn] at h
        exact absurd rfl (h _)

/-- **The allocator.**  In every run the live objects and the free blocks tile the buffer, the total
is that of the live objects, and a refused allocation changes nothing.  A batch is laid out as the
objects of `allocate` would be, and its objects read as those exactly if the raw size is a multiple
of the alignment; otherwise none of them has a tensor. -/
theorem allocator_runs (hdoc : cfg.Documented) (hs : (machine cfg).Reachable s) :
    Tiled (s.live.map MemoryObj.region ++ s.explicitList.map FreeBlock.region) cfg.bufferSize ∧
    s.totalAllocatedSize = (s.live.map fun o => o.metadata.phySize).sum ∧
    (∀ shape dtype fmt, (∀ obj, (allocate cfg s shape dtype fmt).1 ≠ .ok (some obj)) →
      (allocate cfg s shape dtype fmt).2 = s) ∧
    (∀ shape dtype batchSize fmt parent,
      (∀ objs, (batchedAllocate cfg s shape dtype batchSize fmt parent).1 ≠ .ok (some objs)) →
      batchSize ≠ 0 ∨ (batchedAllocate cfg s shape dtype batchSize fmt parent).1 = .ok none →
      (batchedAllocate cfg s shape dtype batchSize fmt parent).2 = s) ∧
    ∀ shape dtype item batchSize fmt parent objs s', dtype.itemsize = some item →
      batchedAllocate cfg s shape (some dtype) batchSize fmt parent = (.ok (some objs), s') →
      objs.length = batchSize ∧
      (∃ start, ∀ i o, objs[i]? = some o →
        o.region = (start + i * cfg.alignedSize (computeRawSize shape item),
          cfg.alignedSize (computeRawSize shape item))) ∧
      ((∀ o ∈ objs, o.ReadsAs cfg (cfg.objectAt shape dtype item fmt o.metadata.address)) ↔
        computeRawSize shape item % cfg.alignBytes = 0) ∧
      (computeRawSize shape item % cfg.alignBytes ≠ 0 →
        ∀ o ∈ objs, o.tensor cfg.isTorch = none) := by
  have h := (whole_inductive hdoc).reachable hs
  refine ⟨tiled_iff.2 fun x => ?_, h.total, allocate_refused, batchedAllocate_refused,
    fun shape dtype item batchSize fmt parent objs s' hitem hbatch =>
      batch_reads hdoc h hitem hbatch⟩
  rw [cover_append]
  exact h.tiled x

end

/-! ## A base class -/

/-- The region joins the free blocks next to it. -/
def returnBlock (b : FreeBlock) : List FreeBlock → List FreeBlock
  | [] => [b]
  | a :: blocks =>
    if b.start + b.size = a.start then ⟨b.start, b.size + a.size⟩ :: blocks
    else if a.start + a.size = b.start then returnBlock ⟨a.start, a.size + b.size⟩ blocks
    else if b.start < a.start then b :: a :: blocks
    else a :: returnBlock b blocks

theorem start_returnBlock {b c : FreeBlock} {k : Nat}
    (hb : k ≤ b.start) (hblocks : ∀ a ∈ blocks, k ≤ a.start) (hc : c ∈ returnBlock b blocks) :
    k ≤ c.start := by
  induction blocks generalizing b with
  | nil =>
    obtain rfl := mem_singleton.1 hc
    exact hb
  | cons a blocks ih =>
    have ha := hblocks a mem_cons_self
    have hrest := fun c hc => hblocks c (mem_cons_of_mem a hc)
    unfold returnBlock at hc
    split at hc
    · rcases mem_cons.1 hc with rfl | hc
      · exact hb
      · exact hrest c hc
    split at hc
    · exact ih (b := ⟨a.start, a.size + b.size⟩) ha hrest hc
    split at hc
    · rcases mem_cons.1 hc with rfl | hc
      · exact hb
      · exact hblocks c hc
    · rcases mem_cons.1 hc with rfl | hc
      · exact ha
      · exact ih hb hrest hc

theorem sorted_returnBlock {b : FreeBlock} (h : Sorted blocks) :
    Sorted (returnBlock b blocks) := by
  induction blocks generalizing b with
  | nil => exact pairwise_singleton ..
  | cons a blocks ih =>
    obtain ⟨ha, hblocks⟩ := pairwise_cons.1 h
    unfold returnBlock
    split
    · next hnext =>
      refine pairwise_cons.2 ⟨fun c hc => ?_, hblocks⟩
      have := ha c hc
      show b.start ≤ c.start
      omega
    · split
      · exact ih hblocks
      split
      · next hlt =>
        refine pairwise_cons.2 ⟨fun c hc => ?_, h⟩
        rcases mem_cons.1 hc with rfl | hc
        · exact Nat.le_of_lt hlt
        · exact Nat.le_trans (Nat.le_of_lt hlt) (ha c hc)
      · next hle =>
        refine pairwise_cons.2 ⟨fun c hc => ?_, ih hblocks⟩
        exact start_returnBlock (Nat.le_of_not_lt hle) ha hc

theorem cover_returnBlock (blocks : List FreeBlock) (x : Nat) :
    cover ((returnBlock b blocks).map FreeBlock.region) x =
      cover (blocks.map FreeBlock.region) x + cover [b.region] x := by
  have hjoin : ∀ a c : FreeBlock, a.start + a.size = c.start →
      cover [(a.start, a.size + c.size)] x = cover [a.region] x + cover [c.region] x := by
    intro a c hnext
    rw [cover_split a.start a.size (a.size + c.size) (Nat.le_add_right ..), hnext,
      Nat.add_sub_cancel_left]
    rfl
  induction blocks generalizing b with
  | nil =>
    rw [map_nil, cover_nil, Nat.zero_add]
    rfl
  | cons a blocks ih =>
    rw [map_cons, cover_add]
    unfold returnBlock
    split
    · next hnext =>
      rw [map_cons, cover_add]
      change cover [(b.start, b.size + a.size)] x + _ = _
      rw [hjoin b a hnext]
      omega
    · split
      · next hnext =>
        rw [ih]
        change _ + cover [(a.start, a.size + b.size)] x = _
        rw [hjoin a b hnext]
        omega
      · split
        · rw [map_cons, cover_add, map_cons,
            cover_add (l := blocks.map FreeBlock.region) a.region]
          omega
        · rw [map_cons, cover_add, ih]
          omega

/-- A numpy buffer of sixteen bytes, with objects at multiples of four. -/
def sixteen : Config where
  bufferSize := 16
  isTorch := false
  alignBytes := 4
  computeAlignedSize raw align := (raw + align - 1) / align * align
  returnRegion blocks b := returnBlock b blocks

theorem sixteen_documented : sixteen.Documented where
  align := by decide
  aligned raw := by
    refine ⟨?_, Nat.dvd_mul_left ..⟩
    show raw ≤ (raw + 4 - 1) / 4 * 4
    omega
  returns blocks b hsorted _ := ⟨sorted_returnBlock hsorted, cover_returnBlock b blocks⟩

def float16 : DType := ⟨"float16", some 2⟩

/-- Two objects are allocated, and the first one is freed. -/
def twoObjects : List Action :=
  [.allocate [2] (some float16) "KV_2LTD", .allocate [3] (some float16) "KV_2LTD",
    .free (sixteen.objectAt [2] float16 2 "KV_2LTD" 0)]

/-- A batch of two objects without padding. -/
theorem twoObjects_runs : ∃ s, (machine sixteen).run (Allocator.new sixteen) twoObjects = some s ∧
    s.totalAllocatedSize = 8 ∧ ∃ objs s',
      batchedAllocate sixteen s [1, 2] (some float16) 1 "KV_2LTD" none = (.ok (some objs), s') ∧
      ∀ o ∈ objs, o.ReadsAs sixteen
        (sixteen.objectAt [1, 2] float16 2 "KV_2LTD" o.metadata.address) := by
  obtain ⟨s, hs⟩ : ∃ s, (machine sixteen).run (Allocator.new sixteen) twoObjects = some s :=
    ⟨_, rfl⟩
  have hruns := allocator_runs sixteen_documented (Machine.reachable_of_run rfl hs)
  obtain ⟨-, htotal, -, -, hbatch⟩ := hruns
  refine ⟨s, hs, ?_, ?_⟩
  · rw [htotal]
    cases hs
    rfl
  · obtain ⟨objs, s', heq⟩ : ∃ objs s',
        batchedAllocate sixteen s [1, 2] (some float16) 1 "KV_2LTD" none =
          (.ok (some objs), s') := by
      cases hs
      exact ⟨_, _, rfl⟩
    exact ⟨objs, s', heq, (hbatch _ _ 2 _ _ _ _ _ rfl heq).2.2.1.2 (by decide)⟩

/-! ## A batch with padding -/

/-- Two objects of three half floats: six bytes each, in eight. -/
theorem padded_unreadable : ∃ objs s',
    batchedAllocate sixteen (Allocator.new sixteen) [3] (some float16) 2 "KV_2LTD" none =
      (.ok (some objs), s') ∧
    objs.map MemoryObj.getSize = [8, 8] ∧
    objs.map (fun o => o.tensor sixteen.isTorch) = [none, none] ∧
    (allocate sixteen (Allocator.new sixteen) [3] (some float16) "KV_2LTD").1 =
      .ok (some (sixteen.objectAt [3] float16 2 "KV_2LTD" 0)) ∧
    (sixteen.objectAt [3] float16 2 "KV_2LTD" 0).getSize = 6 ∧
    (sixteen.objectAt [3] float16 2 "KV_2LTD" 0).tensor sixteen.isTorch =
      some ⟨⟨0, 6⟩, float16, [3]⟩ :=
  ⟨_, _, rfl, by decide, by decide, rfl, by decide, by decide⟩

end MindSporeMemory
