import LMCacheAscend.Connector.SparseGraphCopy

/-!
# Copying the bound sources

`SparseGraphTransfer.load` launches the copy on the table that `bind_batch` has left.  An active
entry then copies both planes of its token of the source that is bound to the row's lane
(`visit_bound`), as long as the sources hold the tokens they say at addresses that are not null
(`Backed`), which is checked where they are made.
-/

namespace SparseGraph

open Lib List Option

/-! ## The operands of a transfer -/

def DType.toScalar : DType → Scalar
  | .int64 => .int64
  | .float16 => .float16
  | .bfloat16 => .bfloat16
  | .float32 | .other => .other

/-- `element_size()` of the two types that can be copied. -/
def KVCache.Sized (c : KVCache) : Prop :=
  c.dtype = .float16 ∨ c.dtype = .bfloat16 → c.elementSize = 2

def KVCache.hiddenDims (c : KVCache) : Int := c.shape.getD 2 0 * c.shape.getD 3 0

def KVCache.nbytes (c : KVCache) : Int := c.shape.prod * c.elementSize

/-- `prepare_sparse_direct_destination_state` with hidden sizes of 0, for `MLA_LATENT`. -/
def destinationState (k pe : KVCache) (hasK hasV : Bool) : DestinationState :=
  { hasK := hasK, hasV := hasV, kBytes := k.nbytes, vBytes := pe.nbytes,
    scalar := k.dtype.toScalar, kHiddenDims := k.hiddenDims, vHiddenDims := pe.hiddenDims }

/-- `self.ptrs` -/
def GraphTransfer.ptrs (g : GraphTransfer) (t : Table) (onNpu : Bool) : Operand :=
  { sizes := [2, g.requestCapacity * g.capacity], stride := g.requestCapacity * g.capacity,
    contiguous := true, scalar := .int64, device := g.device, onNpu := onNpu,
    word := fun i => ((t.first ++ t.second).getD i.toNat 0).toInt }

/-- `self.valid_tokens` -/
def GraphTransfer.validTokens (g : GraphTransfer) (t : Table) (onNpu : Bool) : Operand :=
  { sizes := [g.requestCapacity, 1], stride := 1, contiguous := true, scalar := .int32,
    device := g.device, onNpu := onNpu, word := fun i => (t.validTokens.getD i.toNat 0).toInt }

/-- `load` -/
def GraphTransfer.load (g : GraphTransfer) (hardwareCores : Int) (state : DestinationState)
    (t : Table) (onNpu : Bool) (selected counts slots : Operand) (maxAivCores : Int) :
    Except String Launch := do
  check (selected.size 0 = g.requestCapacity ∧ slots.sizes = selected.sizes ∧
      counts.size 0 = g.requestCapacity) "Graph payload does not match request capacity"
  sparseGraphKvTransfer hardwareCores state slots selected counts (g.ptrs t onNpu)
    (g.validTokens t onNpu) g.chunkSize maxAivCores

/-! ## What is promised -/

/-- The chunk of a token and the token's place in it. -/
def locate : List Int → Int → Option (Nat × Int)
  | [], _ => none
  | n :: counts, token =>
    if token < n then some (0, token)
    else (locate counts (token - n)).map fun r => (r.1 + 1, r.2)

/-- Both planes of a token of a source, in the order they are copied in: a chunk's second plane
follows the chunk's own tokens. -/
structure CopiesToken (source : PreparedSparseSource) (layerId token slot kBytes peBytes : Int)
    (copies : List TokenCopy) : Prop where
  copied : ∃ (layer : ChunkPointers) (chunk : Nat) (place : Int) (pointer : Pointer) (count : Int),
    item? source.layers layerId = some layer ∧
    locate source.chunkTokenCounts token = some (chunk, place) ∧
    layer.entries[chunk]? = some pointer ∧ source.chunkTokenCounts[chunk]? = some count ∧
    copies = [⟨.k, pointer + BitVec.ofInt 64 (place * kBytes), slot, kBytes⟩,
      ⟨.pe, pointer + BitVec.ofInt 64 (count * kBytes) + BitVec.ofInt 64 (place * peBytes), slot,
        peBytes⟩]

/-- The source holds its tokens, at addresses that are not null. -/
structure Backed (source : PreparedSparseSource) (layerId kBytes : Int) : Prop where
  covered : source.totalTokens ≤ source.chunkTokenCounts.sum
  addressed : ∀ layer : ChunkPointers, item? source.layers layerId = some layer →
    ∀ (i : Nat) pointer count, layer.entries[i]? = some pointer →
      source.chunkTokenCounts[i]? = some count →
      pointer ≠ 0 ∧ pointer + BitVec.ofInt 64 (count * kBytes) ≠ 0

/-- The launch is one of a transfer, on a table that its calls of `bind_batch` have left. -/
structure Loaded (g : GraphTransfer) (s : Bound) (l : Launch) : Prop where
  reachable : (bindMachine g).Reachable s
  launched : ∃ k pe chunkSize maxTokens requestCapacity hardwareCores hasK hasV onNpu selected
    counts slots maxAivCores, KVCache.Sized k ∧
    GraphTransfer.new [k, pe] chunkSize maxTokens requestCapacity = .ok g ∧
    g.load hardwareCores (destinationState k pe hasK hasV) s.table onNpu selected counts slots
      maxAivCores = .ok l
  backed : ∀ row source layerId, lastBound s.calls row = some (source, layerId) →
    Backed source layerId g.kBytes

namespace Launch

def tokenAt (l : Launch) (row column : Nat) : Int := l.index (row * l.rowWidth + column)

def slotAt (l : Launch) (row column : Nat) : Int := l.slot (row * l.rowWidth + column)

/-- The entry is copied: its token is one of the row's, its slot one of the destination's. -/
def Wanted (l : Launch) (row column : Nat) : Prop :=
  (0 ≤ l.tokenAt row column ∧ l.tokenAt row column < l.limit row) ∧
    0 ≤ l.slotAt row column ∧ l.slotAt row column < l.destinationSlots

/-- Only the row's own part of either plane of the table is read. -/
def OwnPart (l : Launch) (v : Visit) : Prop :=
  ∀ i ∈ v.reads, ∃ plane chunk, (plane = 0 ∨ plane = 1) ∧ 0 ≤ chunk ∧ chunk < l.chunksPerRequest ∧
    i = plane * (l.requests * l.chunksPerRequest) + (v.row * l.chunksPerRequest + chunk)

/-- What is promised of a launch. -/
structure Exact (l : Launch) : Prop where
  /-- No core overflows, and together the cores visit what one loop visits. -/
  visits : ∃ visits, l.run = some visits ∧ visits.flatten = l.sequential
  ownPart : ∀ v ∈ l.sequential, l.OwnPart v
  bound : ∀ g s, Loaded g s l → ∀ row column : Nat, (row : Int) < l.requests →
    column < l.active row →
    (l.Wanted row column → ∃ source layerId, lastBound s.calls row = some (source, layerId) ∧
      CopiesToken source layerId (l.tokenAt row column) (l.slotAt row column) l.kBytes l.peBytes
        (l.visitAt row column).copies) ∧
    (¬ l.Wanted row column → (l.visitAt row column).copies = [])

end Launch

/-! ## Validated sources -/

theorem BindCall.run_valid (g : GraphTransfer) (c : BindCall) (t : Table) :
    wp (c.run g) (post (fun _ _ => ∀ lane : Nat, c.Selects lane →
      ∀ s, sourceAt c.prepared lane = some s → Valid g s c.layerId) fun _ _ => True) t := by
  unfold BindCall.run GraphTransfer.bindBatch
  rw [wp_bind, wp_raiseIf]
  split
  · trivial
  rw [post_ok, wp_bind, wp_raiseIf]
  split
  · trivial
  next hlanes =>
  rw [post_ok]
  refine wp_bind_any (validateAll_spec g (sourceAt c.prepared) c.layerId _ t) fun u t1 h1 => ?_
  refine wp_of_forall fun r t2 => ?_
  cases r with
  | error e => trivial
  | ok u =>
    intro lane hsel s hs
    refine h1.2 lane ?_ s hs
    cases hc : c.lanes with
    | none =>
      refine mem_range.2 ?_
      by_contra hlt
      rw [sourceAt, getElem?_eq_none (not_lt.1 hlt)] at hs
      cases hs
    | some ls => exact mem_map.2 ⟨lane, hsel ls hc, Int.toNat_natCast lane⟩

/-- What is bound was valid. -/
def ValidBound (g : GraphTransfer) (s : Bound) : Prop :=
  ∀ lane source layerId, lastBound s.calls lane = some (source, layerId) →
    Valid g source layerId ∧ Producible source

theorem validBound_inductive (g : GraphTransfer) : (bindMachine g).Inductive (ValidBound g) := by
  constructor
  · rintro s rfl lane source layerId h
    cases h
  · intro s c s' h hs
    have hrun := c.run_valid g s.table
    unfold wp at hrun
    simp only [bindMachine] at hs
    split at hs
    · next u t heq =>
      cases hs
      rw [heq, post_ok] at hrun
      intro lane source layerId hlast
      rw [lastBound] at hlast
      split at hlast
      · next hsel =>
        unfold BindCall.binds at hlast
        obtain ⟨source', hs', he⟩ := map_eq_some_iff.1 hlast
        cases he
        exact ⟨hrun lane hsel source hs', c.producible hs'⟩
      · exact h lane source layerId hlast
    · cases hs
      exact h

/-! ## Tokens -/

theorem locate_eq {c : Int} {counts : List Int} (hc : 0 < c) (h : Contiguous c counts) {token : Int}
    (h0 : 0 ≤ token) (hlt : token < counts.sum) :
    locate counts token = some ((token / c).toNat, token % c) ∧
      (token / c).toNat < counts.length := by
  induction counts generalizing token with
  | nil => exact absurd rfl h.nonempty
  | cons n counts ih =>
    cases counts with
    | nil =>
      have htail : 0 < n ∧ n ≤ c := h.tail
      have hn : token < n := by simpa using hlt
      rw [locate, if_pos hn, Int.ediv_eq_zero_of_lt h0 (by omega), Int.emod_eq_of_lt h0 (by omega)]
      exact ⟨rfl, by simp⟩
    | cons m counts =>
      have hn : n = c := h.whole n (by simp)
      subst hn
      have hrest : Contiguous n (m :: counts) :=
        ⟨cons_ne_nil _ _, fun k hk => h.whole k (by
          rw [dropLast_cons_cons]
          exact mem_cons_of_mem _ hk), h.tail⟩
      rw [sum_cons] at hlt
      by_cases hn : token < n
      · rw [locate, if_pos hn, Int.ediv_eq_zero_of_lt h0 hn, Int.emod_eq_of_lt h0 hn]
        exact ⟨rfl, by simp⟩
      obtain ⟨h1, h2⟩ := ih hrest (show 0 ≤ token - n by omega) (by omega)
      have hdiv : token / n = (token - n) / n + 1 := by
        rw [Int.sub_ediv_of_dvd _ (dvd_refl n), Int.ediv_self (by omega)]
        omega
      have hmod : (token - n) % n = token % n := Int.sub_emod_right token n
      have hnonneg : 0 ≤ (token - n) / n := Int.ediv_nonneg (by omega) (by omega)
      rw [locate, if_neg hn, h1, map_some, hdiv, hmod]
      refine ⟨?_, ?_⟩
      · congr 2
        omega
      · rw [length_cons]
        omega

/-! ## One entry -/

/-- The sizes and the table that a launch of a transfer has. -/
structure Fed (g : GraphTransfer) (t : Table) (l : Launch) : Prop where
  accepted : l.Accepted
  requests : l.requests = g.requestCapacity
  chunkSize : l.chunkSize = g.chunkSize
  chunksPerRequest : l.chunksPerRequest = g.capacity
  kBytes : l.kBytes = g.kBytes
  table : ∀ i : Nat, l.table i = (t.first ++ t.second).getD i 0
  limit : ∀ row : Nat, l.limit row = (t.validTokens.getD row 0).toInt

variable {g : GraphTransfer}

theorem kBytes_of_new {k pe : KVCache} {chunkSize maxTokens requestCapacity : Int}
    (h : GraphTransfer.new [k, pe] chunkSize maxTokens requestCapacity = .ok g) :
    g.kBytes = k.hiddenDims * k.elementSize := by
  unfold GraphTransfer.new at h
  split at h
  · simp only at h
    split at h
    · cases h
    split at h
    · cases h
    split at h
    · cases h
      rfl
    · cases h
  · cases h

theorem Loaded.fed {s : Bound} {l : Launch} (h : Loaded g s l) :
    Fed g s.table l := by
  obtain ⟨k, pe, _, _, _, hw, hasK, hasV, onNpu, selected, counts, slots, aiv, hsized, hnew,
    hload⟩ := h.launched
  obtain ⟨⟨hrequests, -⟩, hload⟩ := check_ok hload
  have hl := handed_of_ok hload
  have hr : l.requests = g.requestCapacity := hl.requests.trans hrequests
  have hpos := g.requestCapacity_pos
  refine ⟨hl.accepted, hr, hl.chunkSize, ?_, ?_, fun i => ?_, fun row => ?_⟩
  · rw [hl.chunksPerRequest, hr]
    exact Int.mul_tdiv_cancel_left _ (by omega)
  · rw [hl.kBytes, kBytes_of_new hnew]
    have hdtype : k.dtype = .float16 ∨ k.dtype = .bfloat16 := by
      have hscalar : k.dtype.toScalar = .float16 ∨ k.dtype.toScalar = .bfloat16 := hl.scalar
      cases hd : k.dtype <;> rw [hd] at hscalar <;> simp_all [DType.toScalar]
    rw [hsized hdtype]
    rfl
  · rw [hl.table]
    exact BitVec.ofInt_toInt
  · rw [hl.limit]
    rfl

namespace Launch

variable {l : Launch}

theorem wanted_iff (row column : Nat) : l.Wanted row column ↔
    ¬ (l.tokenAt row column < 0 ∨ l.limit row ≤ l.tokenAt row column ∨ l.slotAt row column < 0 ∨
      l.destinationSlots ≤ l.slotAt row column) := by
  unfold Wanted
  omega

variable {row column : Nat}

theorem visit_unwanted (h : ¬ l.Wanted row column) :
    (l.visitAt row column).reads = [] ∧ (l.visitAt row column).copies = [] := by
  rw [wanted_iff, not_not] at h
  have hvisit : l.visitAt row column = ⟨row, column, [], []⟩ := if_pos h
  rw [hvisit]
  exact ⟨rfl, rfl⟩

theorem visit_wanted (h : l.Wanted row column) :
    l.visitAt row column =
      if l.chunksPerRequest ≤ l.tokenAt row column / l.chunkSize then ⟨row, column, [], []⟩
      else
        let chunk := l.tokenAt row column / l.chunkSize
        let offset := l.tokenAt row column % l.chunkSize
        let tableIndex := row * l.chunksPerRequest + chunk
        let peIndex := l.requests * l.chunksPerRequest + tableIndex
        ⟨row, column, [tableIndex, peIndex],
          if l.table tableIndex = 0 ∨ l.table peIndex = 0 then []
          else [⟨.k, l.table tableIndex + BitVec.ofInt 64 (offset * l.kBytes),
              l.slotAt row column, l.kBytes⟩,
            ⟨.pe, l.table peIndex + BitVec.ofInt 64 (offset * l.peBytes),
              l.slotAt row column, l.peBytes⟩]⟩ := by
  have h0 := h.1.1
  rw [wanted_iff] at h
  rw [← Int.tdiv_eq_ediv_of_nonneg h0, ← Int.tmod_eq_emod_of_nonneg h0]
  exact if_neg h

theorem visit_ownPart (ha : l.Accepted) (row column : Nat) : l.OwnPart (l.visitAt row column) := by
  by_cases h : l.Wanted row column
  · rw [visit_wanted h]
    split
    · exact nofun
    · next hchunk =>
      have h0 : 0 ≤ l.tokenAt row column / l.chunkSize := Int.ediv_nonneg h.1.1 ha.chunkSize.le
      intro i hi
      simp only [mem_cons, not_mem_nil, or_false] at hi
      rcases hi with rfl | rfl
      · exact ⟨0, _, .inl rfl, h0, by omega, by rw [Int.zero_mul, Int.zero_add]⟩
      · exact ⟨1, _, .inr rfl, h0, by omega, by rw [Int.one_mul]⟩
  · intro i hi
    rw [(visit_unwanted h).1] at hi
    cases hi

/-- An active entry copies its token of the source that is bound to its row. -/
theorem visit_bound {s : Bound} (hl : Loaded g s l)
    (hrow : (row : Int) < l.requests) (h : l.Wanted row column) :
    ∃ source layerId, lastBound s.calls row = some (source, layerId) ∧
      CopiesToken source layerId (l.tokenAt row column) (l.slotAt row column) l.kBytes l.peBytes
        (l.visitAt row column).copies := by
  have hf := hl.fed
  have hcurrent := (current_inductive g).reachable hl.reachable
  have hlt : row < g.requestCapacity := by
    have := hf.requests
    omega
  have hlane := hcurrent.lanes row hlt
  have hlimit := hf.limit row
  obtain ⟨⟨h0, htoken⟩, -⟩ := id h
  rcases hb : lastBound s.calls row with - | ⟨source, layerId⟩
  · -- an unbound row has no tokens
    rw [hb] at hlane
    have htokens := hlane.tokens
    rw [getD_eq_getElem?_getD, htokens] at hlimit
    have hzero : l.limit row = 0 := hlimit
    omega
  · rw [hb] at hlane
    obtain ⟨hvalid, hproducible⟩ :=
      (validBound_inductive g).reachable hl.reachable row source layerId hb
    have hcontiguous := hvalid.contiguous hproducible.spec.1
    obtain ⟨hcovered, haddressed⟩ := hl.backed row source layerId hb
    obtain ⟨v, hv, htotal⟩ := hlane.tokens
    rw [getD_eq_getElem?_getD, hv, getD_some, htotal] at hlimit
    obtain ⟨hlocate, hchunk⟩ := locate_eq g.chunkSize_pos hcontiguous h0 (by omega)
    obtain ⟨layer, hlayer, hchunks⟩ := hlane.chunks
    obtain ⟨pointer, hentry, hfirst, hsecond⟩ :=
      hchunks _ _ (getElem?_eq_getElem hchunk)
    refine ⟨source, layerId, rfl, layer, _, _, pointer, _, hlayer, hlocate, hentry,
      getElem?_eq_getElem hchunk, ?_⟩
    obtain ⟨hp, hpe⟩ := haddressed layer hlayer _ _ _ hentry (getElem?_eq_getElem hchunk)
    have hdiv : 0 ≤ l.tokenAt row column / g.chunkSize := Int.ediv_nonneg h0 g.chunkSize_pos.le
    have hfits := hlane.fits
    generalize hi : (l.tokenAt row column / g.chunkSize).toNat = i at *
    have hi' : l.tokenAt row column / g.chunkSize = (i : Int) := by omega
    have hlength := hcurrent.shape.first
    have hk : l.table (row * l.chunksPerRequest + (i : Int)) = pointer := by
      rw [hf.chunksPerRequest, ← Int.natCast_mul, ← Int.natCast_add, hf.table,
        getD_eq_getElem?_getD]
      have hin := lt_of_getElem? hfirst
      rw [getElem?_append_left hin, hfirst, getD_some]
    have hpek : l.table (l.requests * l.chunksPerRequest + (row * l.chunksPerRequest + (i : Int))) =
        pointer + BitVec.ofInt 64 (source.chunkTokenCounts[i] * g.kBytes) := by
      rw [hf.chunksPerRequest, hf.requests, ← Int.natCast_mul, ← Int.natCast_mul, ← Int.natCast_add,
        ← Int.natCast_add, hf.table, getD_eq_getElem?_getD,
        getElem?_append_right (by omega), hlength, Nat.add_sub_cancel_left, hsecond,
        getD_some]
    rw [visit_wanted h, hf.chunkSize, hi', if_neg (by rw [hf.chunksPerRequest]; omega)]
    simp only
    rw [hk, hpek, if_neg (by rw [not_or]; exact ⟨hp, hpe⟩), hf.kBytes]

end Launch

/-! ## Main theorem -/

/-- **Sparse graph copy.**  An accepted launch is exact if and only if no index of a count
overflows. -/
theorem sparse_graph_exact {hardwareCores : Int} {state : DestinationState}
    {slots selected counts ptrs limits : Operand} {chunkSize maxAivCores : Int} {l : Launch}
    (h : sparseGraphKvTransfer hardwareCores state slots selected counts ptrs limits chunkSize
      maxAivCores = .ok l) : l.Exact ↔ (l.requests - 1) * l.countStride ≤ int32Max := by
  have ha := (handed_of_ok h).accepted
  constructor
  · intro hexact
    obtain ⟨visits, hrun, -⟩ := hexact.visits
    by_contra hover
    rw [Launch.run_none ha hover] at hrun
    cases hrun
  · intro hfits
    refine ⟨Launch.run_eq ha hfits, fun v hv => ?_, fun g s hl row column hrow _ => ⟨?_, ?_⟩⟩
    · obtain ⟨row, -, hv⟩ := mem_flatMap.1 hv
      obtain ⟨column, -, rfl⟩ := mem_map.1 hv
      exact Launch.visit_ownPart ha row column
    · exact Launch.visit_bound hl hrow
    · exact fun hnot => (Launch.visit_unwanted hnot).2

def npuOperand (sizes : List Int) (stride : Int) (scalar : Scalar) (word : Int) : Operand :=
  { sizes := sizes, stride := stride, contiguous := true, scalar := scalar, device := 0,
    onNpu := true, word := fun _ => word }

/-- Three rows of one entry, their counts `stride` words apart. -/
def threeRows (stride : Int) : Except String Launch :=
  sparseGraphKvTransfer 40 ⟨true, true, 4096, 4096, .float16, 16, 16⟩
    (npuOperand [3, 1] 1 .int32 0) (npuOperand [3, 1] 1 .int64 0) (npuOperand [3] stride .int32 1)
    (npuOperand [2, 3] 3 .int64 64) (npuOperand [3, 1] 1 .int32 1) 1 0

def threeRowsLaunch (stride : Int) : Launch :=
  { cores := 3, slot := fun _ => 0, index := fun _ => 0, count := fun _ => 1,
    table := fun _ => BitVec.ofInt 64 64, limit := fun _ => 1, chunkSize := 1,
    chunksPerRequest := 1, requests := 3, rowWidth := 1, countStride := stride, kBytes := 32,
    peBytes := 32, destinationSlots := 128 }

theorem threeRows_exact : (threeRowsLaunch 1).Exact :=
  (sparse_graph_exact (show threeRows 1 = .ok (threeRowsLaunch 1) from rfl)).2 (by decide)

/-- The counts are a column of a matrix with `2 ^ 30` columns. -/
theorem threeRows_overflow :
    threeRows (2 ^ 30) = .ok (threeRowsLaunch (2 ^ 30)) ∧ ¬ (threeRowsLaunch (2 ^ 30)).Exact := by
  refine ⟨rfl, fun h => ?_⟩
  obtain ⟨visits, hrun, -⟩ := h.visits
  have hnone : (threeRowsLaunch (2 ^ 30)).run = none := by decide +kernel
  rw [hnone] at hrun
  cases hrun

end SparseGraph
