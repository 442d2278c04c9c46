import LMCacheAscend.Connector.SlotWindows
import LMCacheAscend.Lib.Traverse

/-!
# The rows that each store path copies

Every kernel, given a packed mapping or the chunks of one, copies the rows of
those chunks (`denseRows_eq`, `stagedRows_eq`); and every way to cut the chunks
out of a mapping gives the wanted windows, or raises
(`windowChunks_eq`, `fullMapping_eq`).
-/

namespace SlotWindows

open Lib List

variable {m : List Int} {base a b c : Int} {ranges : List ChunkRange} {layer : Nat}
variable {chunks : List (List Int)} {sizes : List Nat}

/-! ## Slices -/

theorem length_slice (ha : 0 ≤ a) (hab : a ≤ b) (hb : b ≤ m.length) :
    ((slice m a b).length : Int) = b - a := by
  unfold slice
  rw [length_drop, length_take]
  omega

theorem getElem?_slice (ha : 0 ≤ a) {t : Nat} (ht : t < b - a) :
    (slice m a b)[t]? = m[(a + t).toNat]? := by
  unfold slice
  rw [getElem?_drop, getElem?_take_of_lt (by omega)]
  congr 1
  omega

theorem slice_append (hab : a ≤ b) (hbc : b ≤ c) : slice m a b ++ slice m b c = slice m a c := by
  unfold slice
  have htake : m.take b.toNat = (m.take c.toNat).take b.toNat := by
    rw [take_take, Nat.min_eq_left (by omega)]
  rw [htake]
  generalize m.take c.toNat = l
  have hrest : (l.drop b.toNat).drop (a.toNat - (l.take b.toNat).length) = l.drop b.toNat := by
    by_cases h : b.toNat ≤ l.length
    · rw [length_take_of_le h, Nat.sub_eq_zero_of_le (by omega), drop_zero]
    · have hnil : l.drop b.toNat = [] := drop_eq_nil_of_le (by omega)
      rw [hnil, drop_nil]
  conv_rhs => rw [← take_append_drop b.toNat l, drop_append, hrest]

/-! ## Windows -/

/-- Every chunk is inside the window. -/
def Covered (m : List Int) (base : Int) (ranges : List ChunkRange) : Prop :=
  ∀ r ∈ ranges, ¬ Outside m base r

instance : Decidable (Covered m base ranges) := by unfold Covered; infer_instance

/-- The slots of each chunk. -/
def windows (m : List Int) (base : Int) (ranges : List ChunkRange) : List (List Int) :=
  ranges.map fun r => slice m (r.start - base) (r.stop - base)

variable {r : ChunkRange} {K : DenseKernel}

theorem inside_iff :
    ¬ Outside m base r ↔ 0 ≤ r.start - base ∧ r.stop - base ≤ m.length := by
  have := r.nonempty
  unfold Outside
  omega

theorem length_window (h : ¬ Outside m base r) :
    (slice m (r.start - base) (r.stop - base)).length = r.size := by
  have hr := r.nonempty
  obtain ⟨h0, h1⟩ := inside_iff.1 h
  have hlen := length_slice (m := m) h0 (b := r.stop - base) (by omega) h1
  unfold ChunkRange.size
  omega

theorem map_length_windows (h : Covered m base ranges) :
    (windows m base ranges).map List.length = chunkSizes ranges := by
  unfold windows chunkSizes
  rw [map_map]
  exact map_congr_left fun r hr => length_window (h r hr)

theorem length_windows : (windows m base ranges).length = ranges.length := length_map _

theorem windowChunks_eq {message : List Int → Int → ChunkRange → String}
    (h : Covered m base ranges) :
    windowChunks message m base ranges = .ok (windows m base ranges) :=
  mapM_eq_ok fun r hr => if_neg (h r hr)

theorem windowChunks_error (message : List Int → Int → ChunkRange → String)
    (h : ¬ Covered m base ranges) : ∃ e, windowChunks message m base ranges = .error e := by
  cases hw : windowChunks message m base ranges with
  | error e => exact ⟨e, rfl⟩
  | ok chunks =>
    refine absurd (fun r hr hout => ?_) h
    obtain ⟨chunk, _, hchunk⟩ := exists_right (forall₂_of_mapM_ok hw) r hr
    rw [if_pos hout] at hchunk
    cases hchunk

theorem catChunks_eq (h : chunks ≠ []) : catChunks chunks = .ok chunks.flatten := by
  match chunks, h with
  | [chunk], _ => exact congrArg Except.ok (append_nil chunk).symm
  | _ :: _ :: _, _ => rfl

theorem flatten_windows {rest : List ChunkRange}
    (hcov : Covered m base (r :: rest)) (h : Contiguous (r :: rest)) :
    (windows m base (r :: rest)).flatten =
      slice m (r.start - base) (((r :: rest).getLast (cons_ne_nil _ _)).stop - base) ∧
    r.stop ≤ ((r :: rest).getLast (cons_ne_nil _ _)).stop := by
  induction rest generalizing r with
  | nil => exact ⟨append_nil _, Int.le_refl _⟩
  | cons s rest ih =>
    obtain ⟨hr, hcov'⟩ := forall_mem_cons.1 hcov
    obtain ⟨hrs, h'⟩ := isChain_cons_cons.1 h
    obtain ⟨heq, hle⟩ := ih hcov' h'
    have hs := s.nonempty
    have hn := r.nonempty
    rw [getLast_cons (cons_ne_nil _ _)]
    refine ⟨?_, by omega⟩
    change slice m (r.start - base) (r.stop - base) ++ (windows m base (s :: rest)).flatten = _
    rw [heq, ← hrs]
    exact slice_append (by omega) (by omega)

theorem fullMapping_eq {allowView : Bool} (h : Covered m base ranges) :
    fullMapping m base allowView ranges (windows m base ranges) =
      (windows m base ranges).flatten := by
  match ranges with
  | [] => rfl
  | [r] => exact (append_nil _).symm
  | r :: s :: rest =>
    change (if _ then _ else _) = _
    split
    · next hview => exact (flatten_windows h hview.2).1.symm
    · rfl

theorem sliceLayerwiseSlotMapping_eq {allowView : Bool} (h : Covered m base ranges) :
    sliceLayerwiseSlotMapping m ranges base allowView =
      .ok (windows m base ranges, (windows m base ranges).flatten) := by
  unfold sliceLayerwiseSlotMapping
  rw [windowChunks_eq h]
  exact congrArg Except.ok (Prod.ext rfl (fullMapping_eq h))

theorem sliceLayerwiseSlotMapping_error (allowView : Bool) (h : ¬ Covered m base ranges) :
    ∃ e, sliceLayerwiseSlotMapping m ranges base allowView = .error e := by
  obtain ⟨e, he⟩ := windowChunks_error transferMessage h
  exact ⟨e, by unfold sliceLayerwiseSlotMapping; rw [he]; rfl⟩

/-! ## Chunk offsets -/

theorem length_chunkOffsets (o : Nat) : (chunkOffsets o sizes).length = sizes.length := by
  induction sizes generalizing o with
  | nil => rfl
  | cons size sizes ih => exact congrArg Nat.succ (ih _)

theorem chunkOffsets_append (o : Nat) (sizes' : List Nat) :
    chunkOffsets o (sizes ++ sizes') = chunkOffsets o sizes ++ chunkOffsets (o + sizes.sum) sizes' := by
  induction sizes generalizing o with
  | nil => rfl
  | cons size sizes ih =>
    change o :: chunkOffsets (o + size) (sizes ++ sizes') = o :: _
    rw [ih, sum_cons, Nat.add_assoc]
    rfl

/-! ## Packed kernels -/

/-- From token `o` and chunk `j` on, the packed tokens of the chunks are put into these. -/
def Places (p : Nat → Option (Nat × Nat)) : Nat → Nat → List Nat → Prop
  | _, _, [] => True
  | o, j, size :: sizes =>
    (∀ t, t < size → p (o + t) = some (j, t)) ∧ Places p (o + size) (j + 1) sizes

theorem rowsOfChunk_eq {p : Nat → Option (Nat × Nat)} {o j : Nat} {chunk : List Int}
    (h : ∀ t, t < chunk.length → p (o + t) = some (j, t)) :
    ((chunk.zipIdx o).filterMap fun x => (p x.2).map fun q => (⟨q.1, q.2, layer, x.1⟩ : RowCopy)) =
      rowsOfChunk layer j chunk := by
  unfold rowsOfChunk
  rw [zipIdx_eq_map_add, filterMap_map, ← filterMap_eq_map]
  refine filterMap_congr fun x hx => ?_
  have ht : x.2 < chunk.length := (mem_zipIdx' hx).1
  change (p (o + x.2)).map _ = _
  rw [h x.2 ht]
  rfl

theorem packed_rows {p : Nat → Option (Nat × Nat)} {o j : Nat}
    (h : Places p o j (chunks.map List.length)) :
    ((chunks.flatten.zipIdx o).filterMap fun x =>
        (p x.2).map fun q => (⟨q.1, q.2, layer, x.1⟩ : RowCopy)) =
      (chunks.zipIdx j).flatMap fun x => rowsOfChunk layer x.2 x.1 := by
  induction chunks generalizing o j with
  | nil => rfl
  | cons chunk chunks ih =>
    obtain ⟨hchunk, hrest⟩ := h
    rw [flatten_cons, zipIdx_append, filterMap_append, rowsOfChunk_eq hchunk,
      ih hrest, zipIdx_cons, flatMap_cons]

theorem denseRows_eq {info : ChunkMeta} {n : Nat} (layer : Nat)
    (h : Places (K.place info n) 0 0 (chunks.map List.length)) :
    denseRows K info n layer chunks.flatten = perChunkRows layer chunks :=
  packed_rows h

/-- All sizes but the last are the fixed one, and the last is at most that. -/
def FixedLayout (size : Nat) : List Nat → Prop
  | [] => True
  | [last] => last ≤ size
  | first :: rest => first = size ∧ FixedLayout size rest

theorem places_fixed (hK : K.Documented) {size j n : Nat} (hpos : 0 < size)
    (h : FixedLayout size sizes) (hn : j + sizes.length ≤ n) :
    Places (K.place (.fixed size) n) (j * size) j sizes := by
  induction sizes generalizing j with
  | nil => exact trivial
  | cons s sizes ih =>
    have hle : s ≤ size := by
      cases sizes with
      | nil => exact h
      | cons s' sizes => exact Nat.le_of_eq h.1
    rw [length_cons] at hn
    refine ⟨fun t ht => ?_, ?_⟩
    · have hdiv : (j * size + t) / size = j := by
        rw [Nat.mul_comm, Nat.mul_add_div hpos, Nat.div_eq_of_lt (by omega), Nat.add_zero]
      have hmod : (j * size + t) % size = t := by
        rw [Nat.mul_comm, Nat.mul_add_mod, Nat.mod_eq_of_lt (by omega)]
      rw [hK.fixed _ _ _ hpos (by omega), hdiv, hmod]
    · cases sizes with
      | nil => exact trivial
      | cons s' sizes =>
        obtain ⟨rfl, h⟩ := h
        have hplaces := ih h (j := j + 1) (by omega)
        rwa [Nat.succ_mul] at hplaces

theorem places_listed (hK : K.Documented) {before after : List Nat} {n : Nat}
    (hn : (before ++ after).length ≤ n) :
    Places (K.place (.listed (chunkOffsets 0 (before ++ after)) (before ++ after)) n) before.sum
      before.length after := by
  induction after generalizing before with
  | nil => exact trivial
  | cons size after ih =>
    rw [length_append, length_cons] at hn
    refine ⟨fun t ht => ?_, ?_⟩
    · have hoff : (chunkOffsets 0 (before ++ size :: after))[before.length]? = some before.sum := by
        rw [chunkOffsets_append,
          getElem?_append_right (Nat.le_of_eq (length_chunkOffsets _)),
          length_chunkOffsets, Nat.sub_self, Nat.zero_add]
        rfl
      have hsize : (before ++ size :: after)[before.length]? = some size := by
        rw [getElem?_append_right (Nat.le_refl _), Nat.sub_self]
        rfl
      rw [hK.listed _ n _ _ _ _ hoff hsize (by omega) (Nat.le_add_right _ _) (by omega),
        Nat.add_sub_cancel_left]
    · have hplaces := @ih (before ++ [size]) (by simp; omega)
      rwa [append_assoc, singleton_append, sum_append, sum_singleton,
        length_append, length_singleton] at hplaces

/-! ### Metadata -/

theorem ensure_ok {ok : Prop} [Decidable ok] {e : StoreError} (h : ok) : ensure ok e = .ok () :=
  if_pos h

theorem checkChunks_eq (g f idx e : Nat) (fixedLayout : Bool) (h : ∀ size ∈ sizes, 0 < size) :
    ∃ x, checkChunks g f idx e fixedLayout ((chunkOffsets e sizes).zip sizes) =
        .ok (e + sizes.sum, x) ∧ (x = true ↔ fixedLayout = true ∧ FixedLayout f sizes) := by
  induction sizes generalizing idx e fixedLayout with
  | nil => exact ⟨fixedLayout, rfl, by simp [FixedLayout]⟩
  | cons size sizes ih =>
    obtain ⟨hpos, hrest⟩ := forall_mem_cons.1 h
    obtain ⟨x, hx, hiff⟩ := ih (idx + 1) (e + size)
      (fixedLayout && if ((chunkOffsets (e + size) sizes).zip sizes).isEmpty then
        decide (size ≤ f) else size == f) hrest
    refine ⟨x, ?_, ?_⟩
    · rw [sum_cons, ← Nat.add_assoc, ← hx]
      change (if size = 0 then _ else if e ≠ e then _ else _) = _
      rw [if_neg (by omega), if_neg (fun h => h rfl)]
      rfl
    · rw [hiff]
      cases sizes with
      | nil => simp [chunkOffsets, FixedLayout]
      | cons s' sizes => simp [chunkOffsets, FixedLayout, and_assoc]

theorem prepareDenseDirectChunkMetadata_eq (hK : K.Documented) (g : Nat)
    {total : Nat} (hne : sizes ≠ []) (h : ∀ size ∈ sizes, 0 < size) (htotal : sizes.sum = total) :
    ∃ info, prepareDenseDirectChunkMetadata g (chunkOffsets 0 sizes) sizes total = .ok info ∧
      Places (K.place info sizes.length) 0 0 sizes := by
  obtain ⟨size, rest, rfl⟩ := exists_cons_of_ne_nil hne
  have hpos := h size mem_cons_self
  obtain ⟨x, hx, hiff⟩ := checkChunks_eq g size 0 0 (decide (0 < size)) h
  obtain ⟨first, offsets, hoff⟩ : ∃ first offsets,
      chunkOffsets 0 (size :: rest) = first :: offsets := ⟨_, _, rfl⟩
  refine ⟨if x then .fixed size else .listed (chunkOffsets 0 (size :: rest)) (size :: rest), ?_, ?_⟩
  · have hfirst : first = 0 := (cons.inj hoff).1.symm
    have hlen : (first :: offsets).length = (size :: rest).length := by
      rw [← hoff]
      exact length_chunkOffsets 0
    rw [hoff] at hx ⊢
    unfold prepareDenseDirectChunkMetadata
    dsimp only
    rw [ensure_ok hlen, ensure_ok hfirst, hx]
    change (do ensure (0 + (size :: rest).sum = total) _; pure _ : Except StoreError ChunkMeta) = _
    rw [ensure_ok (by omega)]
    rfl
  · cases x with
    | true =>
      have hplaces := places_fixed hK hpos (hiff.1 rfl).2 (j := 0) (n := (size :: rest).length)
        (by omega)
      rwa [Nat.zero_mul] at hplaces
    | false => exact @places_listed K hK [] _ _ (Nat.le_refl _)

/-! ## Staging -/

theorem staged_rows (before : List Int) (j : Nat) :
    (((chunkOffsets before.length (chunks.map List.length)).zip
        (chunks.map List.length)).zipIdx j).flatMap (fun x => rowsOfChunk layer x.2
          (((before ++ chunks.flatten).drop x.1.1).take x.1.2)) =
      (chunks.zipIdx j).flatMap fun x => rowsOfChunk layer x.2 x.1 := by
  induction chunks generalizing before j with
  | nil => rfl
  | cons chunk chunks ih =>
    have hrest := ih (before ++ chunk) (j + 1)
    rw [length_append, append_assoc] at hrest
    have hchunk : ((before ++ (chunk ++ chunks.flatten)).drop before.length).take chunk.length =
        chunk := by
      rw [drop_left, take_left]
    change rowsOfChunk layer j
      (((before ++ (chunk ++ chunks.flatten)).drop before.length).take chunk.length) ++ _ = _
    rw [hchunk, zipIdx_cons, flatMap_cons, ← hrest]
    rfl

theorem stagedRows_eq (layer : Nat) (chunks : List (List Int)) : stagedRows layer (chunkOffsets 0 (chunks.map List.length))
    (chunks.map List.length) chunks.flatten = perChunkRows layer chunks :=
  staged_rows [] 0

end SlotWindows
