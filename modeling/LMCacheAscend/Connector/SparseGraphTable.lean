import Mathlib.Data.List.Nodup
import Mathlib.Data.List.Range
import LMCacheAscend.Connector.SparseGraph

/-!
# What the source table holds

Each lane of a table holds the source that was bound to it last, whatever calls
bound the others and whichever path wrote it (`bind_batch_table`).

`bindLane_spec` is the step: a lane's own entries become those of its source and
no other lane changes.  `bindLanes_spec` is the loop over the selected lanes, and
`bindBatch_spec` adds the validation, which reads the sources before anything is
written.
-/

namespace SparseGraph

open Lib List

/-! ## Definitions -/

structure BindCall where
  sources : List (Option GraphSource)
  layerId : Int
  lanes : Option (List Int)

variable (c : BindCall) {lane' : Nat} {delta : Bool}

def BindCall.prepared : List (Option PreparedSparseSource) :=
  c.sources.map (Option.map GraphSource.source)

def BindCall.run (g : GraphTransfer) (c : BindCall) : Bind Unit :=
  g.bindBatch c.prepared c.layerId c.lanes

/-- The lanes that a call binds: its `lanes`, or all of them. -/
def BindCall.Selects (lane : Nat) : Prop := ∀ ls ∈ c.lanes, (lane : Int) ∈ ls

instance (c : BindCall) (lane : Nat) : Decidable (c.Selects lane) :=
  inferInstanceAs (Decidable (∀ ls ∈ c.lanes, (lane : Int) ∈ ls))

/-- The source that a call binds to a lane, and for which layer. -/
def BindCall.binds (lane : Nat) : Option (PreparedSparseSource × Int) :=
  (sourceAt c.prepared lane).map fun source => (source, c.layerId)

/-- What was bound to a lane last, by calls in the order newest first. -/
def lastBound : List BindCall → Nat → Option (PreparedSparseSource × Int)
  | [], _ => none
  | c :: cs, lane => if c.Selects lane then c.binds lane else lastBound cs lane

/-- The table and the calls that returned, newest first. -/
structure Bound where
  table : Table
  calls : List BindCall

/-- A call runs on the table; one that raised binds nothing. -/
def bindMachine (g : GraphTransfer) : Machine Bound BindCall where
  start s := s = ⟨g.zeros, []⟩
  step s c := match c.run g s.table with
    | (.ok _, t) => some ⟨t, c :: s.calls⟩
    | (.error _, t) => some ⟨t, s.calls⟩

structure Table.Shape (t : Table) (g : GraphTransfer) : Prop where
  first : t.first.length = g.requestCapacity * g.capacity
  second : t.second.length = g.requestCapacity * g.capacity
  validTokens : t.validTokens.length = g.requestCapacity

/-- A lane with no source. -/
structure Table.Clear (t : Table) (g : GraphTransfer) (lane : Nat) : Prop where
  first : ∀ i < g.capacity, t.first[lane * g.capacity + i]? = some 0
  second : ∀ i < g.capacity, t.second[lane * g.capacity + i]? = some 0
  tokens : t.validTokens[lane]? = some 0

/-- A lane with a source: a chunk pointer and the pointer to the chunk's second plane, which
follows the chunk's own tokens, for each chunk, nothing after the chunks, the total as the
limit. -/
structure Table.Holds (t : Table) (g : GraphTransfer) (lane : Nat) (source : PreparedSparseSource)
    (layerId : Int) : Prop where
  fits : source.chunkTokenCounts.length ≤ g.capacity
  chunks : ∃ layer, item? source.layers layerId = some layer ∧
    ∀ i n, source.chunkTokenCounts[i]? = some n → ∃ p, layer.entries[i]? = some p ∧
      t.first[lane * g.capacity + i]? = some p ∧
      t.second[lane * g.capacity + i]? = some (p + BitVec.ofInt 64 (n * g.kBytes))
  tail : ∀ i, source.chunkTokenCounts.length ≤ i → i < g.capacity →
    t.first[lane * g.capacity + i]? = some 0 ∧ t.second[lane * g.capacity + i]? = some 0
  tokens : ∃ v, t.validTokens[lane]? = some v ∧ v.toInt = source.totalTokens

def Table.Lane (t : Table) (g : GraphTransfer) (lane : Nat) :
    Option (PreparedSparseSource × Int) → Prop
  | none => t.Clear g lane
  | some (source, layerId) => t.Holds g lane source layerId

/-- The lane's part of the table is the same. -/
structure Table.SameLane (t t' : Table) (g : GraphTransfer) (lane : Nat) : Prop where
  first : ∀ i < g.capacity, t'.first[lane * g.capacity + i]? = t.first[lane * g.capacity + i]?
  second : ∀ i < g.capacity, t'.second[lane * g.capacity + i]? = t.second[lane * g.capacity + i]?
  tokens : t'.validTokens[lane]? = t.validTokens[lane]?

/-! ## Positions -/

theorem GraphTransfer.lane_end {g : GraphTransfer} {lane : Nat} (hl : lane < g.requestCapacity) :
    lane * g.capacity + g.capacity ≤ g.requestCapacity * g.capacity := by
  have h : (lane + 1) * g.capacity ≤ g.requestCapacity * g.capacity :=
    Nat.mul_le_mul_right _ hl
  rwa [Nat.add_mul, Nat.one_mul] at h

variable {i : Nat} {n : Int} {t' : Table}

theorem GraphTransfer.lane_apart {g : GraphTransfer} {lane : Nat} (hne : lane' ≠ lane)
    (hi : i < g.capacity) :
    lane' * g.capacity + i < lane * g.capacity ∨
      lane * g.capacity + g.capacity ≤ lane' * g.capacity + i := by
  rcases Nat.lt_or_gt_of_ne hne with h | h
  all_goals
    have := Nat.mul_le_mul_right g.capacity h
    rw [Nat.succ_mul] at this
    omega

theorem GraphTransfer.capacity_pos (g : GraphTransfer) : 0 < g.capacity := by
  have h1 := g.chunkSize_pos
  have h2 := g.maxTokens_pos
  have h : 1 ≤ (g.maxTokens + g.chunkSize - 1) / g.chunkSize :=
    (Int.le_ediv_iff_mul_le h1).2 (by omega)
  unfold GraphTransfer.capacity
  omega

theorem GraphTransfer.tokens_fit {g : GraphTransfer} (h0 : 0 < n) (hn : n ≤ g.maxTokens) :
    (BitVec.ofInt 32 n).toInt = n := by
  have hc := g.chunkSize_pos
  have ht := g.maxTokens_pos
  have hcap : g.maxTokens ≤ (g.maxTokens + g.chunkSize - 1) / g.chunkSize * g.chunkSize := by
    have := Int.lt_ediv_add_one_mul_self (g.maxTokens + g.chunkSize - 1) hc
    rw [Int.add_mul, Int.one_mul] at this
    omega
  have hreq : (1 : Int) * ((g.maxTokens + g.chunkSize - 1) / g.chunkSize * g.chunkSize) ≤
      g.requestCapacity * ((g.maxTokens + g.chunkSize - 1) / g.chunkSize * g.chunkSize) := by
    apply Int.mul_le_mul_of_nonneg_right
    · have := g.requestCapacity_pos
      omega
    · omega
  have hmax : n < 2 ^ 31 := by
    have := g.addressable
    rw [Int.mul_assoc] at this
    omega
  rw [BitVec.toInt_ofInt]
  exact Int.bmod_eq_of_le (by omega) (by omega)

/-! ## Sources -/

theorem item?_map {α β : Type} (f : α → β) (xs : List α) (i : Int) :
    item? (xs.map f) i = (item? xs i).map f := by
  unfold item?
  rw [length_map]
  split
  · rw [getElem?_map]
  split
  · rw [getElem?_map]
  · rfl

/-- What preparation leaves: rows of the layers' own pointers and the second planes for a
chunk size that the chunks have. -/
structure PointerPairs.Made (pairs : PointerPairs) (source : PreparedSparseSource) : Prop where
  chunks : ∃ c, Contiguous c source.chunkTokenCounts ∧
    pairs.second = source.layers.map fun layer =>
      secondRow source.chunkTokenCounts c pairs.kBytes layer.entries
  first : pairs.first = source.layers.map ChunkPointers.entries

variable {source : PreparedSparseSource} {counts : List Int} {layerId : Int}

theorem Producible.spec (h : Producible source) :
    Sealed source ∧ ∀ pairs, source.graphPointerPairs = some pairs → pairs.Made source := by
  induction h with
  | built hs hnone => exact ⟨hs, fun pairs h => absurd (hnone.symm.trans h) (by simp)⟩
  | prepared hsource hp ih =>
    unfold prepareSourcePointerPairs at hp
    split at hp
    · cases hp; exact ih
    · next hnew =>
      split at hp
      · cases hp; exact ih
      · next hcounts =>
        split at hp
        · cases hp; exact ih
        simp only at hp
        split at hp
        · cases hp
          refine ⟨ih.1, fun pairs h => ?_⟩
          cases h
          simp only [Bool.or_eq_true, not_or, bne_iff_ne, ne_eq, Decidable.not_not] at hnew
          exact ⟨⟨_, ih.1 _ hnew.2 hcounts, map_map⟩, rfl⟩
        · cases hp

theorem lastCount_eq (h : counts[i]? = some n) (hi : i + 1 = counts.length) :
    lastCount counts = n := by
  unfold lastCount
  rw [getLastD_eq_getLast?, getLast?_eq_getElem?, show counts.length - 1 = i by omega, h]
  rfl

theorem Contiguous.count {c : Int} (h : Contiguous c counts) (hn : counts[i]? = some n)
    (hi : i + 1 < counts.length) : n = c := by
  refine h.whole n (mem_of_getElem? (i := i) ?_)
  rw [getElem?_dropLast, if_pos (by omega), hn]

theorem getElem?_secondRow {c k : Int} {row : List Pointer} (h : Contiguous c counts)
    (hlen : row.length = counts.length) (hn : counts[i]? = some n) {p : Pointer}
    (hp : row[i]? = some p) :
    (secondRow counts c k row)[i]? = some (p + BitVec.ofInt 64 (n * k)) := by
  have hi : i < counts.length := lt_of_getElem? hn
  have hmap : (row.map (· + BitVec.ofInt 64 (c * k)))[i]? =
      some (p + BitVec.ofInt 64 (c * k)) := by
    rw [getElem?_map, hp]
    rfl
  unfold secondRow
  simp only
  by_cases hlast : i + 1 = counts.length
  · have hn' := lastCount_eq hn hlast
    split
    · have hpos : counts.length - 1 = i := by omega
      simp only [getElem?_modify, hmap, hlen, hpos, hn', if_true, Option.map_eq_map,
        Option.map_some]
      rw [BitVec.add_assoc, ← BitVec.ofInt_add]
      congr 3
      rw [Int.sub_mul]
      omega
    · next heq =>
      rw [Decidable.not_not, hn'] at heq
      rw [hmap, heq]
  · have hnc : n = c := h.count hn (by omega)
    split
    · have hpos : ¬counts.length - 1 = i := by omega
      simp only [getElem?_modify, hmap, hlen, hpos, hnc, if_false, Option.map_eq_map,
        Option.map_some]
    · rw [hmap, hnc]

theorem length_secondRow (counts : List Int) (c k : Int) (row : List Pointer) :
    (secondRow counts c k row).length = row.length := by
  unfold secondRow
  simp only
  split
  · rw [length_modify, length_map]
  · rw [length_map]

/-! ## Validation -/

/-- What a source has that passed validation. -/
structure Valid (g : GraphTransfer) (source : PreparedSparseSource) (layerId : Int) : Prop where
  nonempty : source.chunkTokenCounts ≠ []
  fits : source.chunkTokenCounts.length ≤ g.capacity
  total : 0 < source.totalTokens ∧ source.totalTokens ≤ g.maxTokens
  geometry : source.validatedChunkSize = some g.chunkSize ∨
    Contiguous g.chunkSize source.chunkTokenCounts
  layer : ∃ layer, item? source.layers layerId = some layer ∧
    layer.entries.length = source.chunkTokenCounts.length

theorem wp_raiseIf (c : Prop) [Decidable c] (e : GraphError)
    (Q : Except GraphError Unit → Table → Prop) (t : Table) :
    wp (raiseIf c e) Q t ↔ if c then Q (.error e) t else Q (.ok ()) t := by
  unfold raiseIf
  split <;> rfl

theorem validateSource_spec (g : GraphTransfer) (source : PreparedSparseSource) (layerId : Int)
    (t : Table) :
    wp (g.validateSource source layerId)
      (post (fun _ t' => t' = t ∧ Valid g source layerId) fun _ t' => t' = t) t := by
  unfold GraphTransfer.validateSource
  simp only [wp_bind, wp_raiseIf]
  split
  · rfl
  next hcheck =>
  simp only [not_or, Decidable.not_not] at hcheck
  obtain ⟨hne, hfits, htotal, hgeometry⟩ := hcheck
  rw [post_ok]
  unfold layerAt
  split
  · next layer hlayer =>
    simp only [wp_bind, wp_pure, post_ok, wp_raiseIf]
    split
    · rfl
    split
    · rfl
    next hlen =>
    split
    · rfl
    refine ⟨trivial, hne, by omega, htotal, ?_, layer, hlayer, Decidable.not_not.1 hlen⟩
    by_cases hv : source.validatedChunkSize = some g.chunkSize
    · exact .inl hv
    refine .inr ⟨hne, fun n hn => ?_, ?_⟩
    · by_contra hbad
      exact hgeometry ⟨hv, .inl ⟨n, hn, hbad⟩⟩
    · by_contra hbad
      exact hgeometry ⟨hv, .inr (.inl hbad)⟩
  · rfl

theorem Valid.contiguous {g : GraphTransfer} (h : Valid g source layerId) (hs : Sealed source) :
    Contiguous g.chunkSize source.chunkTokenCounts := by
  rcases h.geometry with hv | hc
  · exact hs _ hv h.nonempty
  · exact hc

/-! ## One lane -/

theorem Table.SameLane.refl (t : Table) (g : GraphTransfer) (lane : Nat) : t.SameLane t g lane :=
  ⟨fun _ _ => rfl, fun _ _ => rfl, rfl⟩

theorem Table.SameLane.trans {t t' t2 : Table} {g : GraphTransfer} {lane : Nat}
    (h : t.SameLane t' g lane) (h' : t'.SameLane t2 g lane) : t.SameLane t2 g lane :=
  ⟨fun i hi => (h'.first i hi).trans (h.first i hi),
    fun i hi => (h'.second i hi).trans (h.second i hi), h'.tokens.trans h.tokens⟩

theorem Table.Lane.congr {t : Table} {g : GraphTransfer} {lane : Nat}
    {b : Option (PreparedSparseSource × Int)} (h : t.Lane g lane b) (hs : t.SameLane t' g lane) :
    t'.Lane g lane b := by
  rcases b with - | ⟨source, layerId⟩
  · obtain ⟨hf, hsnd, ht⟩ := h
    exact ⟨fun i hi => (hs.first i hi).trans (hf i hi),
      fun i hi => (hs.second i hi).trans (hsnd i hi), hs.tokens.trans ht⟩
  · obtain ⟨hfits, ⟨layer, hlayer, hchunks⟩, htail, v, hv, htotal⟩ := h
    refine ⟨hfits, ⟨layer, hlayer, fun i n hn => ?_⟩, fun i hge hi => ?_, v, ?_, htotal⟩
    · obtain ⟨p, hp, h1, h2⟩ := hchunks i n hn
      have hi : i < g.capacity := by
        have := lt_of_getElem? hn
        omega
      exact ⟨p, hp, (hs.first i hi).trans h1, (hs.second i hi).trans h2⟩
    · obtain ⟨h1, h2⟩ := htail i hge hi
      exact ⟨(hs.first i hi).trans h1, (hs.second i hi).trans h2⟩
    · exact hs.tokens.trans hv

/-- A write of both planes inside a lane, and of its limit. -/
def Table.writeLane (t : Table) (start : Nat) (first second : List Pointer) : Table :=
  { t with first := writeSlice t.first start first, second := writeSlice t.second start second }

section Write

variable {t : Table} {g : GraphTransfer} {lane o : Nat} {first second : List Pointer}

section

variable (h : t.Shape g) (hl : lane < g.requestCapacity) (hlen : second.length = first.length)
variable (hfit : o + first.length ≤ g.capacity)
include h hl hlen hfit

theorem Table.Shape.writeLane :
    (t.writeLane (lane * g.capacity + o) first second).Shape g := by
  have hend := g.lane_end hl
  refine ⟨?_, ?_, h.validTokens⟩
  · show (writeSlice _ _ _).length = _
    rw [length_writeSlice (by rw [h.first]; omega), h.first]
  · show (writeSlice _ _ _).length = _
    rw [length_writeSlice (by rw [h.second]; omega), h.second]

theorem Table.Shape.sameLane_writeLane (hne : lane' ≠ lane) :
    t.SameLane (t.writeLane (lane * g.capacity + o) first second) g lane' := by
  have hend := g.lane_end hl
  refine ⟨fun i hi => ?_, fun i hi => ?_, rfl⟩
  · have hapart := g.lane_apart hne hi
    exact getElem?_writeSlice_outside (by rw [h.first]; omega) (by omega)
  · have hapart := g.lane_apart hne hi
    exact getElem?_writeSlice_outside (by rw [h.second]; omega) (by omega)

end

theorem wp_copyPtrs (hlen : second.length = first.length)
    (Q : Except GraphError Unit → Table → Prop) (start : Nat) :
    wp (copyPtrs start (start + first.length) first second) Q t ↔
      Q (.ok ()) (t.writeLane start first second) := by
  unfold copyPtrs
  rw [if_pos (by omega)]
  rfl

theorem wp_zeroPtrs (Q : Except GraphError Unit → Table → Prop) (start n : Nat) :
    wp (zeroPtrs start (start + n)) Q t ↔
      Q (.ok ()) (t.writeLane start (replicate n 0) (replicate n 0)) := by
  unfold zeroPtrs
  have hlen : (replicate n (0 : Pointer)).length = (replicate n (0 : Pointer)).length := rfl
  have h := wp_copyPtrs (t := t) hlen Q start
  rw [length_replicate] at h
  rw [Nat.add_sub_cancel_left]
  exact h

end Write

def Table.setTokens (t : Table) (lane : Nat) (tokens : Int) : Table :=
  { t with validTokens := t.validTokens.set lane (BitVec.ofInt 32 tokens) }

theorem Table.Shape.setTokens {t : Table} {g : GraphTransfer} (h : t.Shape g) (lane : Nat)
    (tokens : Int) : (t.setTokens lane tokens).Shape g :=
  ⟨h.first, h.second, by rw [← h.validTokens]; exact length_set⟩

theorem Table.sameLane_setTokens (t : Table) (g : GraphTransfer) {lane : Nat} (hne : lane' ≠ lane)
    (tokens : Int) : t.SameLane (t.setTokens lane tokens) g lane' :=
  ⟨fun _ _ => rfl, fun _ _ => rfl, getElem?_set_ne (Ne.symm hne)⟩

theorem Table.Shape.getElem?_setTokens {t : Table} {g : GraphTransfer} (h : t.Shape g) {lane : Nat}
    (hl : lane < g.requestCapacity) (tokens : Int) :
    (t.setTokens lane tokens).validTokens[lane]? = some (BitVec.ofInt 32 tokens) :=
  getElem?_set_self (by rw [h.validTokens]; exact hl)

@[simp] theorem wp_fillTokens (lane : Nat) (tokens : Int) (Q : Except GraphError Unit → Table → Prop)
    (t : Table) :
    wp (fillTokens lane tokens) Q t ↔ Q (.ok ()) (t.setTokens lane tokens) := Iff.rfl

/-- From entry `n` on the lane is zero. -/
def Table.TailClear (t : Table) (g : GraphTransfer) (lane n : Nat) : Prop :=
  ∀ i, n ≤ i → i < g.capacity →
    t.first[lane * g.capacity + i]? = some 0 ∧ t.second[lane * g.capacity + i]? = some 0

/-- What a turn of the loop must achieve at its lane. -/
def LaneDone (g : GraphTransfer) (t : Table) (lane : Nat) (b : Option (PreparedSparseSource × Int))
    (t' : Table) : Prop :=
  t'.Shape g ∧ t'.Lane g lane b ∧ ∀ lane', lane' ≠ lane → t.SameLane t' g lane'

section Lane

variable {t : Table} {g : GraphTransfer} {lane : Nat}

theorem clearTail_spec (h : t.Shape g) (hl : lane < g.requestCapacity)
    (hdelta : delta = true ∨ t.Clear g lane) {n : Nat} (hn : n ≤ g.capacity) :
    wp (g.clearTail delta lane n)
      (post (fun _ t' => t'.Shape g ∧ t'.TailClear g lane n ∧
        ∀ lane', lane' ≠ lane → t.SameLane t' g lane') fun _ _ => False) t := by
  have hend := g.lane_end hl
  unfold GraphTransfer.clearTail
  simp only
  split
  · have hstop : lane * g.capacity + g.capacity = lane * g.capacity + n + (g.capacity - n) := by
      omega
    rw [hstop, wp_zeroPtrs]
    have hzero : (replicate (g.capacity - n) (0 : Pointer)).length = g.capacity - n :=
      length_replicate
    refine ⟨h.writeLane hl rfl (by omega), fun i hge hi => ⟨?_, ?_⟩,
      fun lane' hne => h.sameLane_writeLane hl rfl (by omega) hne⟩
    · show (writeSlice _ _ _)[_]? = _
      rw [getElem?_writeSlice (by rw [hzero, h.first]; omega), hzero, if_pos (by omega)]
      exact getElem?_replicate_of_lt (by omega)
    · show (writeSlice _ _ _)[_]? = _
      rw [getElem?_writeSlice (by rw [hzero, h.second]; omega), hzero, if_pos (by omega)]
      exact getElem?_replicate_of_lt (by omega)
  · next hc =>
    refine ⟨h, fun i hge hi => ?_, fun lane' _ => Table.SameLane.refl t g lane'⟩
    rcases hdelta with rfl | hclear
    · simp only [Bool.true_and, decide_eq_true_eq] at hc
      omega
    · exact ⟨hclear.first i hi, hclear.second i hi⟩

theorem written_holds {t1 : Table} (h : t1.Shape g) (hl : lane < g.requestCapacity)
    (hv : Valid g source layerId) (htail : t1.TailClear g lane source.chunkTokenCounts.length)
    {layer : ChunkPointers} (hlayer : item? source.layers layerId = some layer)
    (hlen : layer.entries.length = source.chunkTokenCounts.length) {c : Int}
    (hc : Contiguous c source.chunkTokenCounts) :
    ((t1.writeLane (lane * g.capacity) layer.entries
      (secondRow source.chunkTokenCounts c g.kBytes layer.entries)).setTokens lane
        source.totalTokens).Holds g lane source layerId := by
  have hend := g.lane_end hl
  have hfits := hv.fits
  have hsecond := length_secondRow source.chunkTokenCounts c g.kBytes layer.entries
  refine ⟨hfits, ⟨layer, hlayer, fun i n hn => ?_⟩, fun i hge hi => ⟨?_, ?_⟩, _,
    h.writeLane (o := 0) hl hsecond (by omega) |>.getElem?_setTokens hl _,
    g.tokens_fit hv.total.1 hv.total.2⟩
  · have hi : i < layer.entries.length := by
      rw [hlen]
      exact lt_of_getElem? hn
    have hp : layer.entries[i]? = some layer.entries[i] := getElem?_eq_getElem hi
    refine ⟨_, hp, ?_, ?_⟩
    · show (writeSlice _ _ _)[_]? = _
      rw [getElem?_writeSlice_inside (by rw [h.first]; omega) hi, hp]
    · show (writeSlice _ _ _)[_]? = _
      rw [getElem?_writeSlice_inside (by rw [h.second]; omega) (by omega)]
      exact getElem?_secondRow hc hlen hn hp
  · show (writeSlice _ _ _)[_]? = _
    rw [getElem?_writeSlice_outside (by rw [h.first]; omega) (by omega)]
    exact (htail i hge hi).1
  · show (writeSlice _ _ _)[_]? = _
    rw [getElem?_writeSlice_outside (by rw [h.second]; omega) (by omega)]
    exact (htail i hge hi).2

theorem laneDone_of_written {t1 : Table} (h : t1.Shape g) (hl : lane < g.requestCapacity)
    (hsame : ∀ lane', lane' ≠ lane → t.SameLane t1 g lane') (hv : Valid g source layerId)
    (htail : t1.TailClear g lane source.chunkTokenCounts.length)
    {layer : ChunkPointers} (hlayer : item? source.layers layerId = some layer)
    (hlen : layer.entries.length = source.chunkTokenCounts.length) {c : Int}
    (hc : Contiguous c source.chunkTokenCounts) :
    LaneDone g t lane (some (source, layerId)) ((t1.writeLane (lane * g.capacity) layer.entries
        (secondRow source.chunkTokenCounts c g.kBytes layer.entries)).setTokens lane
          source.totalTokens) := by
  have hfits := hv.fits
  have hsecond := length_secondRow source.chunkTokenCounts c g.kBytes layer.entries
  refine ⟨(h.writeLane (o := 0) hl hsecond (by omega)).setTokens _ _,
    written_holds h hl hv htail hlayer hlen hc, fun lane' hne => ?_⟩
  exact (hsame lane' hne).trans
    ((h.sameLane_writeLane (o := 0) hl hsecond (by omega) hne).trans
      (Table.sameLane_setTokens _ g hne _))

/-- A lane is bound, or cleared, and the others stay as they are. -/
theorem bindLane_spec (h : t.Shape g) (hl : lane < g.requestCapacity)
    (hdelta : delta = true ∨ t.Clear g lane) (layerId : Int) (b : Option PreparedSparseSource)
    (hb : ∀ source, b = some source → Valid g source layerId ∧ Producible source) :
    wp (g.bindLane delta layerId lane b)
      (post (fun _ => LaneDone g t lane (b.map fun source => (source, layerId)))
        fun _ _ => False) t := by
  have hend := g.lane_end hl
  cases b with
  | none =>
    unfold GraphTransfer.bindLane
    simp only
    split
    · have hstop : (lane + 1) * g.capacity = lane * g.capacity + g.capacity := by
        rw [Nat.add_mul, Nat.one_mul]
      rw [wp_bind, hstop, wp_zeroPtrs, post_ok, wp_fillTokens, post_ok]
      have hzero : (replicate g.capacity (0 : Pointer)).length = g.capacity :=
        length_replicate
      have hshape : (t.writeLane (lane * g.capacity) (replicate g.capacity 0)
          (replicate g.capacity 0)).Shape g := h.writeLane (o := 0) hl rfl (by omega)
      refine ⟨hshape.setTokens _ _, ⟨fun i hi => ?_, fun i hi => ?_,
        hshape.getElem?_setTokens hl 0⟩, fun lane' hne =>
          (h.sameLane_writeLane (o := 0) hl rfl (by omega) hne).trans
            (Table.sameLane_setTokens _ g hne _)⟩
      · show (writeSlice _ _ _)[_]? = _
        rw [getElem?_writeSlice_inside (by rw [hzero, h.first]; omega) (by omega)]
        exact getElem?_replicate_of_lt hi
      · show (writeSlice _ _ _)[_]? = _
        rw [getElem?_writeSlice_inside (by rw [hzero, h.second]; omega) (by omega)]
        exact getElem?_replicate_of_lt hi
    · next hfalse =>
      rw [wp_pure, post_ok]
      exact ⟨h, hdelta.resolve_left hfalse, fun lane' _ => Table.SameLane.refl t g lane'⟩
  | some source =>
    obtain ⟨hv, hp⟩ := hb source rfl
    obtain ⟨hsealed, hmade⟩ := hp.spec
    obtain ⟨layer, hlayer, hlen⟩ := hv.layer
    have hfits := hv.fits
    unfold GraphTransfer.bindLane layerAt
    simp only [hlayer, pure_bind]
    refine wp_bind_ok (clearTail_spec h hl hdelta hfits) fun u t1 h1 => ?_
    obtain ⟨hshape, htail, hsame⟩ := h1
    split
    · -- the pairs of `prepare_source_pointer_pairs`
      next pairs hpairs =>
      obtain ⟨hpairs, hk⟩ := Option.filter_eq_some_iff.1 hpairs
      obtain ⟨⟨c, hc, hsecond⟩, hfirst⟩ := hmade pairs hpairs
      simp only [decide_eq_true_eq] at hk
      rw [hfirst, hsecond, item?_map, item?_map, hlayer, Option.map_some, Option.map_some, wp_bind,
        ← hlen, wp_copyPtrs (length_secondRow _ _ _ _), post_ok, wp_fillTokens, post_ok, hk]
      exact laneDone_of_written hshape hl hsame hv htail hlayer hlen hc
    · -- the layer's own pointers
      have hc := hv.contiguous hsealed
      have hpos : 0 < layer.entries.length := by
        rw [hlen]
        exact length_pos_iff.2 hv.nonempty
      have hdone := laneDone_of_written hshape hl hsame hv htail hlayer hlen hc
      rw [wp_bind, ← hlen, wp_copyPtrs (length_map _), post_ok, wp_bind]
      unfold GraphTransfer.shiftTail
      unfold secondRow at hdone
      simp only at hdone ⊢
      split at hdone
      · next hshort =>
        rw [if_pos hshort, wp_modify, post_ok, wp_fillTokens, post_ok]
        have hinside : lane * g.capacity +
            (layer.entries.map (· + BitVec.ofInt 64 (g.chunkSize * g.kBytes))).length ≤
              t1.second.length := by
          rw [length_map, hshape.second]
          omega
        have hmodify := modify_writeSlice hinside (i := layer.entries.length - 1)
          (by rw [length_map]; omega)
          (· + BitVec.ofInt 64 ((lastCount source.chunkTokenCounts - g.chunkSize) * g.kBytes))
        rw [← Nat.add_sub_assoc (by omega)] at hmodify
        unfold Table.writeLane at hdone ⊢
        simp only
        rw [hmodify]
        exact hdone
      · next hfull =>
        rw [if_neg hfull, wp_pure, post_ok, wp_fillTokens, post_ok]
        exact hdone

end Lane

/-! ## All lanes -/

theorem bindLanes_spec {g : GraphTransfer} {source : Nat → Option PreparedSparseSource}
    {lanes : List Nat} {t : Table} (h : t.Shape g) (hnodup : lanes.Nodup)
    (hlt : ∀ lane ∈ lanes, lane < g.requestCapacity)
    (hdelta : delta = true ∨ ∀ lane ∈ lanes, t.Clear g lane)
    (hsource : ∀ lane ∈ lanes, ∀ s, source lane = some s → Valid g s layerId ∧ Producible s) :
    wp (lanes.forM fun lane => g.bindLane delta layerId lane (source lane))
      (post (fun _ t' => t'.Shape g ∧
        (∀ lane ∈ lanes, t'.Lane g lane ((source lane).map fun s => (s, layerId))) ∧
        ∀ lane, lane ∉ lanes → t.SameLane t' g lane) fun _ _ => False) t := by
  induction lanes generalizing t with
  | nil =>
    exact ⟨h, fun lane hl => absurd hl not_mem_nil, fun lane _ => Table.SameLane.refl t g lane⟩
  | cons lane lanes ih =>
    obtain ⟨hnew, hnodup⟩ := nodup_cons.1 hnodup
    change wp (g.bindLane delta layerId lane (source lane) >>= fun _ => lanes.forM _) _ t
    rw [wp_bind]
    refine wp_mono (bindLane_spec h (hlt lane mem_cons_self)
      (hdelta.imp_right fun hc => hc lane mem_cons_self) layerId (source lane)
      (hsource lane mem_cons_self)) ?_
    rintro (e | u) t1 h1
    · exact h1
    obtain ⟨hshape, hlane, hsame⟩ := h1
    rw [post_ok]
    have hclear : delta = true ∨ ∀ lane' ∈ lanes, t1.Clear g lane' := by
      refine hdelta.imp_right fun hc lane' hl' => ?_
      have hne : lane' ≠ lane := fun heq => hnew (heq ▸ hl')
      exact Table.Lane.congr (b := none) (hc lane' (mem_cons_of_mem _ hl')) (hsame lane' hne)
    refine wp_ok (ih hshape hnodup (fun l hl => hlt l (mem_cons_of_mem _ hl)) hclear
      fun l hl => hsource l (mem_cons_of_mem _ hl)) ?_
    rintro u t2 h2
    obtain ⟨hshape2, hlanes, hrest⟩ := h2
    refine ⟨hshape2, forall_mem_cons.2 ⟨hlane.congr (hrest lane hnew), hlanes⟩,
      fun lane' hl' => ?_⟩
    rw [mem_cons, not_or] at hl'
    exact (hsame lane' hl'.1).trans (hrest lane' hl'.2)

/-! ## One call -/

theorem BindCall.producible (c : BindCall) {lane : Nat} {s : PreparedSparseSource}
    (h : sourceAt c.prepared lane = some s) : Producible s := by
  unfold sourceAt BindCall.prepared at h
  rw [getElem?_map] at h
  rcases hs : c.sources[lane]? with - | - | source
  · rw [hs] at h; cases h
  · rw [hs] at h; cases h
  rw [hs] at h
  cases h
  exact source.producible

theorem GraphTransfer.shape_zeros (g : GraphTransfer) : g.zeros.Shape g :=
  ⟨length_replicate, length_replicate, length_replicate⟩

theorem GraphTransfer.clear_zeros (g : GraphTransfer) {lane : Nat} (hl : lane < g.requestCapacity) :
    g.zeros.Clear g lane := by
  have hend := g.lane_end hl
  exact ⟨fun i hi => getElem?_replicate_of_lt (by omega),
    fun i hi => getElem?_replicate_of_lt (by omega), getElem?_replicate_of_lt hl⟩

/-- Every source is read before the table is written. -/
theorem validateAll_spec (g : GraphTransfer) (source : Nat → Option PreparedSparseSource)
    (layerId : Int) (lanes : List Nat) (t : Table) :
    wp (lanes.forM fun lane => match source lane with
        | some s => g.validateSource s layerId
        | none => pure ())
      (post (fun _ t' => t' = t ∧ ∀ lane ∈ lanes, ∀ s, source lane = some s → Valid g s layerId)
        fun _ t' => t' = t) t := by
  refine wp_forM_each (fun lane _ t' ht' => ?_) rfl
  subst ht'
  split
  · next s hs =>
    refine wp_ok (validateSource_spec g s layerId t') fun u t2 h2 => ?_
    refine ⟨h2.1, fun s' hs' => ?_⟩
    cases hs.symm.trans hs'
    exact h2.2
  · next hs => exact ⟨rfl, fun s' hs' => absurd (hs.symm.trans hs') (by simp)⟩

/-- The lanes of a call are bound, no other lane changes, and a call that raises changes
nothing. -/
theorem BindCall.run_spec (g : GraphTransfer) (c : BindCall) {t : Table} (h : t.Shape g) :
    wp (c.run g)
      (post (fun _ t' => t'.Shape g ∧ ∀ lane < g.requestCapacity,
          (c.Selects lane → t'.Lane g lane (c.binds lane)) ∧
          (¬c.Selects lane → t.SameLane t' g lane))
        fun _ t' => t' = t) t := by
  unfold BindCall.run GraphTransfer.bindBatch
  rw [wp_bind, wp_raiseIf]
  split
  · rfl
  next hsize =>
  rw [post_ok, wp_bind, wp_raiseIf]
  split
  · rfl
  next hlanes =>
  simp only [not_exists, not_and, not_or, Decidable.not_not, Classical.not_imp] at hlanes
  rw [post_ok]
  cases hc : c.lanes with
  | none =>
    simp only [Option.isNone_none, Option.isSome_none, if_true]
    refine wp_bind_ok (validateAll_spec g (sourceAt c.prepared) c.layerId
      (range c.prepared.length) t) ?_
    rintro u t1 h1
    rw [wp_modify_bind]
    have hlt : ∀ lane ∈ range c.prepared.length, lane < g.requestCapacity := fun lane hl => by
      rw [mem_range] at hl
      omega
    refine wp_returns (bindLanes_spec g.shape_zeros nodup_range hlt
      (.inr fun lane hl => g.clear_zeros (hlt lane hl))
      fun lane hl s hs => ⟨h1.2 lane hl s hs, c.producible hs⟩) ?_
    rintro u t2 h2
    obtain ⟨hshape, hbound, hrest⟩ := h2
    refine ⟨hshape, fun lane hl => ⟨fun _ => ?_, fun hnot => absurd ?_ hnot⟩⟩
    · by_cases hmem : lane ∈ range c.prepared.length
      · exact hbound lane hmem
      have hnone : c.binds lane = none := by
        unfold BindCall.binds sourceAt
        rw [getElem?_eq_none (by rw [mem_range] at hmem; omega)]
        rfl
      rw [hnone]
      exact Table.Lane.congr (b := none) (g.clear_zeros hl) (hrest lane hmem)
    · intro ls hls
      rw [hc] at hls
      cases hls
  | some ls =>
    obtain ⟨hnodup, hrange⟩ := hlanes ls hc
    have hmem : ∀ lane : Nat, lane ∈ ls.map Int.toNat ↔ (lane : Int) ∈ ls := by
      intro lane
      rw [mem_map]
      constructor
      · rintro ⟨i, hi, rfl⟩
        rwa [Int.toNat_of_nonneg (hrange i hi).1]
      · exact fun hi => ⟨lane, hi, Int.toNat_natCast lane⟩
    have hselects : ∀ lane, c.Selects lane ↔ lane ∈ ls.map Int.toNat := by
      intro lane
      rw [hmem]
      refine ⟨fun hs => hs ls hc, fun hl ls' hls' => ?_⟩
      cases hc.symm.trans hls'
      exact hl
    simp only [Option.isNone_some, Option.isSome_some, Bool.false_eq_true, if_false]
    refine wp_bind_ok (validateAll_spec g (sourceAt c.prepared) c.layerId (ls.map Int.toNat) t)
      fun u t1 h1 => ?_
    obtain ⟨rfl, hvalid⟩ := h1
    have hlt : ∀ lane ∈ ls.map Int.toNat, lane < g.requestCapacity := fun lane hl => by
      have := hrange _ ((hmem lane).1 hl)
      omega
    have hnodup' : (ls.map Int.toNat).Nodup := by
      refine Nodup.map_on (fun i hi j hj heq => ?_) hnodup
      have := hrange i hi
      have := hrange j hj
      omega
    refine wp_returns (bindLanes_spec h hnodup' hlt (.inl rfl)
      fun lane hl s hs => ⟨hvalid lane hl s hs, c.producible hs⟩) ?_
    rintro u t2 h2
    obtain ⟨hshape, hbound, hrest⟩ := h2
    exact ⟨hshape, fun lane hl => ⟨fun hs => hbound lane ((hselects lane).1 hs),
      fun hs => hrest lane fun hm => hs ((hselects lane).2 hm)⟩⟩

/-! ## All calls -/

/-- Each lane holds what was bound to it last. -/
structure Current (g : GraphTransfer) (s : Bound) : Prop where
  shape : s.table.Shape g
  lanes : ∀ lane < g.requestCapacity, s.table.Lane g lane (lastBound s.calls lane)

theorem current_inductive (g : GraphTransfer) : (bindMachine g).Inductive (Current g) := by
  constructor
  · rintro s rfl
    exact ⟨g.shape_zeros, fun lane hl => g.clear_zeros hl⟩
  · intro s c s' h hs
    have hrun := c.run_spec g h.shape
    unfold wp at hrun
    simp only [bindMachine] at hs
    split at hs
    · next u t heq =>
      cases hs
      rw [heq, post_ok] at hrun
      refine ⟨hrun.1, fun lane hl => ?_⟩
      show t.Lane g lane (lastBound (c :: s.calls) lane)
      unfold lastBound
      split
      · next hsel => exact (hrun.2 lane hl).1 hsel
      · next hsel => exact (h.lanes lane hl).congr ((hrun.2 lane hl).2 hsel)
    · next e t heq =>
      cases hs
      rw [heq, post_error] at hrun
      subst hrun
      exact h

theorem Table.Lane.same {t : Table} {g : GraphTransfer} {lane : Nat}
    {b : Option (PreparedSparseSource × Int)} (h : t.Lane g lane b) (h' : t'.Lane g lane b) :
    t.SameLane t' g lane := by
  rcases b with - | ⟨source, layerId⟩
  · obtain ⟨hf, hs, ht⟩ := h
    obtain ⟨hf', hs', ht'⟩ := h'
    exact ⟨fun i hi => (hf' i hi).trans (hf i hi).symm, fun i hi => (hs' i hi).trans (hs i hi).symm,
      ht'.trans ht.symm⟩
  · obtain ⟨-, ⟨layer, hlayer, hchunks⟩, htail, v, hv, htotal⟩ := h
    obtain ⟨-, ⟨layer', hlayer', hchunks'⟩, htail', v', hv', htotal'⟩ := h'
    cases hlayer.symm.trans hlayer'
    have hentry : ∀ i < g.capacity,
        t'.first[lane * g.capacity + i]? = t.first[lane * g.capacity + i]? ∧
          t'.second[lane * g.capacity + i]? = t.second[lane * g.capacity + i]? := by
      intro i hi
      rcases hn : source.chunkTokenCounts[i]? with - | n
      · have hge := List.getElem?_eq_none_iff.1 hn
        rw [(htail i hge hi).1, (htail i hge hi).2, (htail' i hge hi).1, (htail' i hge hi).2]
        exact ⟨rfl, rfl⟩
      · obtain ⟨p, hp, h1, h2⟩ := hchunks i n hn
        obtain ⟨p', hp', h1', h2'⟩ := hchunks' i n hn
        cases hp.symm.trans hp'
        exact ⟨h1'.trans h1.symm, h2'.trans h2.symm⟩
    have hword : v' = v := BitVec.eq_of_toInt_eq (htotal'.trans htotal.symm)
    exact ⟨fun i hi => (hentry i hi).1, fun i hi => (hentry i hi).2, by rw [hv, hv', hword]⟩

theorem GraphTransfer.position {g : GraphTransfer} {j : Nat}
    (hj : j < g.requestCapacity * g.capacity) :
    ∃ lane i, lane < g.requestCapacity ∧ i < g.capacity ∧ j = lane * g.capacity + i :=
  ⟨j / g.capacity, j % g.capacity, Nat.div_lt_of_lt_mul (by rwa [Nat.mul_comm]),
    Nat.mod_lt _ g.capacity_pos, by rw [Nat.mul_comm]; exact (Nat.div_add_mod _ _).symm⟩

theorem Table.Shape.ext {t : Table} {g : GraphTransfer} (h : t.Shape g) (h' : t'.Shape g)
    (hsame : ∀ lane < g.requestCapacity, t.SameLane t' g lane) : t' = t := by
  have hfirst : t'.first = t.first := by
    apply ext_getElem?
    intro j
    by_cases hj : j < g.requestCapacity * g.capacity
    · obtain ⟨lane, i, hl, hi, rfl⟩ := GraphTransfer.position hj
      exact (hsame lane hl).first i hi
    · rw [getElem?_eq_none (by rw [h'.first]; omega),
        getElem?_eq_none (by rw [h.first]; omega)]
  have hsecond : t'.second = t.second := by
    apply ext_getElem?
    intro j
    by_cases hj : j < g.requestCapacity * g.capacity
    · obtain ⟨lane, i, hl, hi, rfl⟩ := GraphTransfer.position hj
      exact (hsame lane hl).second i hi
    · rw [getElem?_eq_none (by rw [h'.second]; omega),
        getElem?_eq_none (by rw [h.second]; omega)]
  have htokens : t'.validTokens = t.validTokens := by
    apply ext_getElem?
    intro lane
    by_cases hl : lane < g.requestCapacity
    · exact (hsame lane hl).tokens
    · rw [getElem?_eq_none (by rw [h'.validTokens]; omega),
        getElem?_eq_none (by rw [h.validTokens]; omega)]
  cases t
  cases t'
  cases hfirst
  cases hsecond
  cases htokens
  rfl

/-! ## Main theorem -/

/-- **Source tables.**  After any calls each lane of the table is what its last bound source
makes it; the last bound sources determine the whole table; and a call that raises leaves the
table as it was. -/
theorem bind_batch_table (g : GraphTransfer) {s : Bound} (h : (bindMachine g).Reachable s) :
    (∀ lane < g.requestCapacity, s.table.Lane g lane (lastBound s.calls lane)) ∧
    (∀ s', (bindMachine g).Reachable s' →
      (∀ lane < g.requestCapacity, lastBound s'.calls lane = lastBound s.calls lane) →
      s'.table = s.table) ∧
    ∀ (c : BindCall) e t, c.run g s.table = (.error e, t) → t = s.table := by
  have hs := (current_inductive g).reachable h
  refine ⟨hs.lanes, fun s' h' hlast => ?_, fun c e t hrun => ?_⟩
  · have hs' := (current_inductive g).reachable h'
    refine hs.shape.ext hs'.shape fun lane hl => ?_
    have hlane' := hs'.lanes lane hl
    rw [hlast lane hl] at hlane'
    exact (hs.lanes lane hl).same hlane'
  · have hspec := c.run_spec g hs.shape
    rw [wp_of_run hrun] at hspec
    exact hspec

/-- Two lanes of two chunks of two tokens. -/
def twoLanes : GraphTransfer :=
  { chunkSize := 2, maxTokens := 4, requestCapacity := 2, kBytes := 8, device := 0,
    chunkSize_pos := by decide, maxTokens_pos := by decide, requestCapacity_pos := by decide,
    addressable := by decide }

def wholeChunks : PreparedSparseSource :=
  { chunkTokenCounts := [2, 2], totalTokens := 4,
    layers := [⟨1, .int64, true, 0, [4096, 8192]⟩], validatedChunkSize := none,
    graphPointerPairs := none }

def tailChunk : PreparedSparseSource :=
  { chunkTokenCounts := [1], totalTokens := 1, layers := [⟨1, .int64, true, 0, [1024]⟩],
    validatedChunkSize := some 2, graphPointerPairs := none }

def pairedTailChunk : PreparedSparseSource :=
  { tailChunk with graphPointerPairs := some ⟨8, [[1024]], [[1032]]⟩ }

theorem pairedTailChunk_producible : Producible pairedTailChunk :=
  @Producible.prepared tailChunk _ 2 8 true
    (.built (fun c hc _ => by cases hc; decide) rfl) rfl

/-- Both lanes, then lane 0 alone by its pointer pairs. -/
def rebindCalls : List BindCall :=
  [⟨[some ⟨wholeChunks, .built (fun c hc => by cases hc) rfl⟩,
      some ⟨wholeChunks, .built (fun c hc => by cases hc) rfl⟩], 0, none⟩,
   ⟨[some ⟨pairedTailChunk, pairedTailChunk_producible⟩], 0, some [0]⟩]

def reboundTable : Table :=
  { first := [1024, 0, 4096, 8192], second := [1032, 0, 4112, 8208], validTokens := [1, 4] }

theorem bind_batch_table_rebound :
    reboundTable.Holds twoLanes 0 pairedTailChunk 0 ∧ reboundTable.Holds twoLanes 1 wholeChunks 0 := by
  have hr : (bindMachine twoLanes).run ⟨twoLanes.zeros, []⟩ rebindCalls =
      some ⟨reboundTable, rebindCalls.reverse⟩ := rfl
  have h := (bind_batch_table twoLanes (Machine.reachable_of_run rfl hr)).1
  exact ⟨h 0 (by decide), h 1 (by decide)⟩

end SparseGraph
