import LMCacheAscend.Connector.SparseGraphTable
import LMCacheAscend.Lib.Shares
import LMCacheAscend.Lib.Traverse

/-!
# The sparse graph copy

`sparse_graph_kv_transfer` of `mem_kernels.cpp` checks its operands and launches
`SparseGraphCopy` of `sparse_graph_kernel.cpp` on a number of cores.  Each core counts the active
entries of all rows, takes its share of them and visits those rows that the share meets.  An
`int32` expression of the kernel has a value only if it fits; a core's run is `none` where one
does not.  `run_flatten` says that the cores' visits, one core after the other, are those of one
loop over all rows.
-/

namespace SparseGraph

open Lib List Option

/-! ## The launch -/

inductive Scalar
  | int32 | int64 | float16 | bfloat16 | other
deriving DecidableEq, Repr

/-- A tensor operand: what the host reads of it, and the words of its storage. -/
structure Operand where
  sizes : List Int
  stride : Int
  contiguous : Bool
  scalar : Scalar
  device : Nat
  onNpu : Bool
  word : Int → Int

def Operand.size (t : Operand) (i : Nat) : Int := t.sizes.getD i 0

def Operand.numel (t : Operand) : Int := t.sizes.prod

/-- `SparseDirectDestinationState`, as far as the transfer reads it. -/
structure DestinationState where
  hasK : Bool
  hasV : Bool
  kBytes : Int
  vBytes : Int
  scalar : Scalar
  kHiddenDims : Int
  vHiddenDims : Int
deriving DecidableEq, Repr

/-- The arguments of the kernel and the number of cores it is launched on. -/
structure Launch where
  cores : Int
  slot : Int → Int
  index : Int → Int
  count : Int → Int
  table : Int → Pointer
  limit : Int → Int
  chunkSize : Int
  chunksPerRequest : Int
  requests : Int
  rowWidth : Int
  countStride : Int
  kBytes : Int
  peBytes : Int
  destinationSlots : Int

def int32Max : Int := 2 ^ 31 - 1

def check (c : Prop) [Decidable c] (message : String) : Except String Unit :=
  if c then .ok () else .error message

/-- `direct_aiv_num` -/
def directAivNum (hardwareCores numTokens : Int) : Int :=
  min (max 1 hardwareCores) (if 0 < numTokens then numTokens else 1)

/-- `sparse_graph_kv_transfer` -/
def sparseGraphKvTransfer (hardwareCores : Int) (state : DestinationState)
    (slots selected counts ptrs limits : Operand) (chunkSize maxAivCores : Int) :
    Except String Launch := do
  check (selected.sizes.length = 2 ∧ selected.contiguous)
    "Graph selected tokens must be a contiguous matrix"
  check (slots.sizes = selected.sizes ∧ slots.contiguous) "Graph slots must match selected tokens"
  check (selected.scalar = .int32 ∨ selected.scalar = .int64)
    "Graph selected tokens must be int32/int64"
  check (slots.scalar = .int32 ∨ slots.scalar = .int64) "Graph slots must be int32/int64"
  let requests := selected.size 0
  check (0 < requests ∧ 0 < selected.size 1 ∧ selected.numel ≤ int32Max)
    "Graph payload exceeds int32 packed addressing"
  check ((counts.sizes.length = 1 ∨ (counts.sizes.length = 2 ∧ 0 < counts.size 1)) ∧
      counts.size 0 = requests ∧ counts.scalar = .int32 ∧ 0 < counts.stride ∧
      counts.stride ≤ int32Max)
    "Graph counts must have one int32 count per row"
  check (limits.numel = requests ∧ limits.contiguous ∧ limits.scalar = .int32)
    "Graph limits must have one contiguous int32 value per row"
  check (ptrs.sizes.length = 2 ∧ ptrs.size 0 = 2 ∧ 0 < ptrs.size 1 ∧
      (ptrs.size 1).tmod requests = 0 ∧ ptrs.contiguous ∧ ptrs.scalar = .int64)
    "Graph sources must be two contiguous int64 plane tables"
  check (0 < chunkSize ∧ chunkSize ≤ int32Max ∧ ptrs.size 1 ≤ int32Max.tdiv chunkSize)
    "Graph source capacity exceeds int32 token addressing"
  check (state.scalar = .float16 ∨ state.scalar = .bfloat16)
    "Graph KV transfer supports FP16/BF16"
  let kBytes := state.kHiddenDims * 2
  let peBytes := state.vHiddenDims * 2
  check (state.hasK ∧ state.hasV ∧ 0 < kBytes ∧ 0 < peBytes ∧ kBytes.tmod 32 = 0 ∧
      peBytes.tmod 32 = 0 ∧ kBytes ≤ 16384 ∧ peBytes ≤ 16384)
    "Graph K/PE token widths must be 32-byte aligned and fit copy queues"
  check (selected.onNpu ∧ slots.device = selected.device ∧ counts.device = selected.device ∧
      ptrs.device = selected.device ∧ limits.device = selected.device)
    "Graph transfer inputs must be on the same NPU"
  check (0 ≤ maxAivCores ∧ maxAivCores < 2 ^ 32)
    "max_aiv_cores must be zero (automatic) or a positive uint32 value"
  let cores := directAivNum hardwareCores selected.numel
  return {
    cores := if 0 < maxAivCores then min cores maxAivCores else cores
    slot := slots.word
    index := selected.word
    count := counts.word
    table := fun i => BitVec.ofInt 64 (ptrs.word i)
    limit := limits.word
    chunkSize := chunkSize
    chunksPerRequest := (ptrs.size 1).tdiv requests
    requests := requests
    rowWidth := selected.size 1
    countStride := counts.stride
    kBytes := kBytes
    peBytes := peBytes
    destinationSlots := min (state.kBytes.tdiv kBytes) (state.vBytes.tdiv peBytes) }

/-! ## The kernel -/

/-- The value of an `int32` expression. -/
def int32 (x : Int) : Option Int := if -2 ^ 31 ≤ x ∧ x ≤ int32Max then some x else none

inductive Plane
  | k | pe
deriving DecidableEq, Repr

/-- `Copy`: so many bytes from an address to a slot of a plane. -/
structure TokenCopy where
  plane : Plane
  source : Pointer
  slot : Int
  bytes : Int
deriving DecidableEq, Repr

/-- An entry that a core has handled: the entries of the table that were read for it, and the
copies that were made. -/
structure Visit where
  row : Int
  column : Int
  reads : List Int
  copies : List TokenCopy
deriving DecidableEq, Repr

def activeCount (count limit width : Int) : Int :=
  if limit ≤ 0 ∨ count ≤ 0 then 0 else if count < width then count else width

namespace Launch

variable (l : Launch)

/-- The body of the loop over the columns. -/
def visit (row column packed : Int) : Visit :=
  let token := l.index packed
  let destination := l.slot packed
  if token < 0 ∨ l.limit row ≤ token ∨ destination < 0 ∨ l.destinationSlots ≤ destination then
    ⟨row, column, [], []⟩
  else
    let chunk := token.tdiv l.chunkSize
    if l.chunksPerRequest ≤ chunk then ⟨row, column, [], []⟩
    else
      let offset := token.tmod l.chunkSize
      let tableIndex := row * l.chunksPerRequest + chunk
      let peIndex := l.requests * l.chunksPerRequest + tableIndex
      let kSource := l.table tableIndex
      let peSource := l.table peIndex
      ⟨row, column, [tableIndex, peIndex],
        if kSource = 0 ∨ peSource = 0 then []
        else [⟨.k, kSource + BitVec.ofInt 64 (offset * l.kBytes), destination, l.kBytes⟩,
          ⟨.pe, peSource + BitVec.ofInt 64 (offset * l.peBytes), destination, l.peBytes⟩]⟩

variable (row : Nat)

/-- `ActiveCount` of a row. -/
def rowLength : Option Int := do
  let i ← int32 (row * l.countStride)
  return activeCount (l.count i) (l.limit row) l.rowWidth

/-- The first loop. -/
def total : Option Int :=
  (range l.requests.toNat).foldlM
    (fun sum row => do
      let length ← l.rowLength row
      int32 (sum + length)) 0

/-- The loop over the columns from `first` to `last`. -/
def columns (first last : Int) : Option (List Visit) :=
  (range' first.toNat (last - first).toNat).mapM fun column : Nat => do
    let start ← int32 (row * l.rowWidth)
    let packed ← int32 (start + column)
    return l.visit row column packed

/-- The loop over the rows, with the running number of active entries. -/
def rows (first last : Int) : List Nat → Int → Option (List Visit)
  | [], _ => some []
  | row :: rest, before => do
    let length ← l.rowLength row
    let start ← (if before < first then int32 (first - before) else some 0)
    let edge ← int32 (before + length)
    let stop ← (if last < edge then int32 (last - before) else some length)
    let visits ← l.columns row start stop
    if last ≤ edge then return visits
    let others ← rows first last rest edge
    return visits ++ others

/-- `Run` on one core. -/
def runCore (core : Nat) : Option (List Visit) := do
  let total ← l.total
  let quotient := total.tdiv l.cores
  let remainder := total.tmod l.cores
  let product ← int32 (core * quotient)
  let first ← int32 (product + if core < remainder then (core : Int) else remainder)
  let last ← int32 (first + quotient)
  let last ← int32 (last + if core < remainder then 1 else 0)
  if first = last then return []
  l.rows first last (range l.requests.toNat) 0

/-- The visits of all cores. -/
def run : Option (List (List Visit)) := (range l.cores.toNat).mapM l.runCore

/-! ## One loop over all rows -/

/-- Active entries of a row. -/
def active : Nat :=
  (activeCount (l.count (row * l.countStride)) (l.limit row) l.rowWidth).toNat

def visitAt (column : Nat) : Visit := l.visit row column (row * l.rowWidth + column)

def rowVisits : List Visit := (range (l.active row)).map (l.visitAt row)

def sequential : List Visit := (range l.requests.toNat).flatMap l.rowVisits

/-! ## What the host has checked -/

structure Accepted : Prop where
  cores : 0 < l.cores ∧ l.cores ≤ int32Max
  requests : 0 < l.requests
  rowWidth : 0 < l.rowWidth
  payload : l.requests * l.rowWidth ≤ int32Max
  countStride : 0 < l.countStride
  chunkSize : 0 < l.chunkSize
  chunksPerRequest : 0 < l.chunksPerRequest

/-- No index of a count overflows. -/
def CountsAddressable : Prop := (l.requests - 1) * l.countStride ≤ int32Max

variable {l}

theorem active_le (h : l.Accepted) (row : Nat) : (l.active row : Int) ≤ l.rowWidth := by
  have hw := h.rowWidth
  unfold active activeCount
  split
  · omega
  · split <;> omega

theorem int32_of_le {x : Int} (h0 : 0 ≤ x) (h : x ≤ int32Max) : int32 x = some x := by
  rw [int32, if_pos ⟨by omega, h⟩]

theorem row_stride_le (h : l.Accepted) (ha : l.CountsAddressable) {row : Nat}
    (hrow : (row : Int) < l.requests) : (row : Int) * l.countStride ≤ int32Max :=
  (Int.mul_le_mul_of_nonneg_right (by omega) h.countStride.le).trans ha

theorem rowLength_eq (h : l.Accepted) {row : Nat} (hs : (row : Int) * l.countStride ≤ int32Max) :
    l.rowLength row = some (l.active row : Int) := by
  have h0 : 0 ≤ (row : Int) * l.countStride := Int.mul_nonneg (by omega) h.countStride.le
  have hnonneg : 0 ≤ activeCount (l.count (row * l.countStride)) (l.limit row) l.rowWidth := by
    have hw := h.rowWidth
    unfold activeCount
    split
    · omega
    · split <;> omega
  rw [rowLength, int32_of_le h0 hs, active, Int.toNat_of_nonneg hnonneg]
  rfl

theorem length_rowVisits : (l.rowVisits row).length = l.active row := by
  rw [rowVisits, length_map, length_range]

section

variable (h : l.Accepted)
include h

theorem length_rows_le (n : Nat) :
    (((range n).flatMap l.rowVisits).length : Int) ≤ n * l.rowWidth := by
  induction n with
  | zero => simp
  | succ n ih =>
    have hn := active_le h n
    rw [range_succ, flatMap_append, flatMap_singleton, length_append,
      length_rowVisits]
    push_cast
    rw [Int.add_mul, Int.one_mul]
    omega

theorem capacity_le {n : Nat} (hn : (n : Int) ≤ l.requests) :
    (n : Int) * l.rowWidth ≤ int32Max :=
  (Int.mul_le_mul_of_nonneg_right hn h.rowWidth.le).trans h.payload

theorem total_eq (ha : l.CountsAddressable) :
    l.total = some (l.sequential.length : Int) := by
  have hfold : ∀ n : Nat, (n : Int) ≤ l.requests → (range n).foldlM
      (fun sum row => do
        let length ← l.rowLength row
        int32 (sum + length)) (0 : Int) =
      some (((range n).flatMap l.rowVisits).length : Int) := by
    intro n
    induction n with
    | zero => exact fun _ => rfl
    | succ n ih =>
      intro hn
      have hlen := length_rows_le h (n + 1)
      have hcap := capacity_le h hn
      have hrow := rowLength_eq h (row_stride_le h ha (show (n : Int) < l.requests by omega))
      rw [range_succ, flatMap_append, flatMap_singleton, length_append,
        length_rowVisits] at hlen ⊢
      push_cast at hlen hcap ⊢
      have hsum := int32_of_le (show (0 : Int) ≤ ((range n).flatMap l.rowVisits).length +
        l.active n by omega) (by omega)
      rw [foldlM_append, ih (by omega)]
      simp only [bind_eq_bind, bind_some, foldlM_cons, foldlM_nil, hrow,
        Option.pure_def, hsum]
  exact hfold _ (by have := h.requests; omega)

theorem columns_eq {row : Nat} (hrow : (row : Int) < l.requests) {a b : Nat}
    (hb : b ≤ l.active row) : l.columns row a b = some (window (l.rowVisits row) a b) := by
  have hcap := capacity_le h (show ((row + 1 : Nat) : Int) ≤ l.requests by omega)
  have hact := active_le h row
  have hstart : 0 ≤ (row : Int) * l.rowWidth := Int.mul_nonneg (by omega) h.rowWidth.le
  push_cast at hcap
  rw [Int.add_mul, Int.one_mul] at hcap
  rw [rowVisits, window_map_range, Nat.min_eq_left hb, columns]
  have hlen : ((b : Int) - a).toNat = b - a := by omega
  rw [Int.toNat_natCast, hlen]
  refine mapM_eq_some fun column hc => ?_
  rw [mem_range'_1] at hc
  have hcolumn : (column : Int) < l.rowWidth := by omega
  simp only [int32_of_le hstart (by omega), bind_eq_bind, bind_some,
    int32_of_le (show 0 ≤ (row : Int) * l.rowWidth + column by omega) (by omega)]
  rfl

/-- From a row on, a core visits its window of the entries of the rows. -/
theorem rows_eq (ha : l.CountsAddressable) {first last : Nat} (hfirst : first ≤ last)
    (hlast : (last : Int) ≤ int32Max) (rest : List Nat) (before : Nat)
    (hrest : ∀ row ∈ rest, (row : Int) < l.requests)
    (hfits : (before + (rest.flatMap l.rowVisits).length : Int) ≤ int32Max) (hlt : before < last) :
    l.rows first last rest before =
      some (window (rest.flatMap l.rowVisits) (first - before) (last - before)) := by
  induction rest generalizing before with
  | nil => rw [rows, flatMap_nil, window, take_nil, drop_nil]
  | cons row rest ih =>
    obtain ⟨hrow, hrest⟩ := forall_mem_cons.1 hrest
    rw [flatMap_cons, length_append, length_rowVisits] at hfits
    push_cast at hfits
    have hlength := rowLength_eq h (row_stride_le h ha hrow)
    have hstart : (if (before : Int) < first then int32 (first - before) else some 0) =
        some ((first - before : Nat) : Int) := by
      split
      · rw [int32_of_le (by omega) (by omega), Int.ofNat_sub (by omega)]
      · rw [Nat.sub_eq_zero_of_le (by omega)]
        rfl
    have hstop : (if (last : Int) < before + l.active row then int32 (last - before)
        else some (l.active row : Int)) =
        some ((min (last - before) (l.active row) : Nat) : Int) := by
      split
      · rw [int32_of_le (by omega) (by omega), Nat.min_eq_left (by omega), Int.ofNat_sub (by omega)]
      · rw [Nat.min_eq_right (by omega)]
    have hcols : l.columns row ((first - before : Nat) : Int)
        ((min (last - before) (l.active row) : Nat) : Int) =
        some (window (l.rowVisits row) (first - before) (last - before)) := by
      rw [columns_eq h hrow (Nat.min_le_right _ _), rowVisits, window_map_range, window_map_range,
        Nat.min_assoc, Nat.min_self]
    have hedge := int32_of_le (show 0 ≤ (before : Int) + l.active row by omega) (by omega)
    rw [rows, hlength]
    simp only [bind_eq_bind, bind_some, hstart, hedge, hstop, hcols]
    rw [flatMap_cons, window_append, length_rowVisits]
    split
    · -- the share ends in this row
      rw [show last - before - l.active row = 0 by omega, window_empty _ (Nat.zero_le _),
        append_nil]
      rfl
    · have hnext := ih (before + l.active row) hrest (by push_cast; omega) (by omega)
      push_cast at hnext
      rw [hnext, Nat.sub_sub, Nat.sub_sub]
      rfl

theorem length_sequential_le : (l.sequential.length : Int) ≤ int32Max := by
  have hr := h.requests
  have hn : (l.requests.toNat : Int) ≤ l.requests := by omega
  exact (length_rows_le h l.requests.toNat).trans (capacity_le h hn)

/-- A core copies its share of the sequential run. -/
theorem runCore_eq (ha : l.CountsAddressable) {core : Nat} (hcore : (core : Int) < l.cores) :
    l.runCore core =
      some (window l.sequential (shareStart l.sequential.length l.cores.toNat core)
        (shareStart l.sequential.length l.cores.toNat (core + 1))) := by
  have hlen := length_sequential_le h
  obtain ⟨k, hk⟩ := Int.eq_ofNat_of_zero_le h.cores.1.le
  have hk0 : 0 < k := by
    have := h.cores.1
    omega
  generalize hn : l.sequential.length = n at *
  have hq : (n : Int).tdiv l.cores = (n / k : Nat) := by rw [hk]; rfl
  have hr : (n : Int).tmod l.cores = (n % k : Nat) := by rw [hk]; rfl
  have hfirst : shareStart n k core ≤ shareStart n k (core + 1) := shareStart_le n k core
  have hlast : shareStart n k (core + 1) ≤ n := shareStart_le_total hk0 (by omega)
  have hsucc := shareStart_succ n k core
  have hmin : (if (core : Int) < (n % k : Nat) then (core : Int) else (n % k : Nat)) =
      (min core (n % k) : Nat) := by
    split
    · rw [Nat.min_eq_left (by omega)]
    · rw [Nat.min_eq_right (by omega)]
  have hone : (if (core : Int) < (n % k : Nat) then (1 : Int) else 0) =
      ((if core < n % k then 1 else 0 : Nat) : Int) := by
    split
    · rw [if_pos (by omega)]
      rfl
    · rw [if_neg (by omega)]
      rfl
  have hproduct : core * (n / k) ≤ shareStart n k core := Nat.le_add_right _ _
  have hp := int32_of_le (show (0 : Int) ≤ (core * (n / k) : Nat) by omega) (by omega)
  have hf : int32 (((core * (n / k) : Nat) : Int) + (min core (n % k) : Nat)) =
      some ((shareStart n k core : Nat) : Int) := by
    rw [← Int.natCast_add, show core * (n / k) + min core (n % k) = shareStart n k core from rfl]
    exact int32_of_le (by omega) (by omega)
  have hquotient : shareStart n k core + n / k ≤ shareStart n k (core + 1) := by
    rw [hsucc]
    exact Nat.le_add_right _ _
  have hl : int32 ((shareStart n k core : Int) + (n / k : Nat)) =
      some ((shareStart n k core + n / k : Nat) : Int) := by
    rw [← Int.natCast_add]
    exact int32_of_le (Int.natCast_nonneg _) (by omega)
  have he : int32 (((shareStart n k core + n / k : Nat) : Int) +
      ((if core < n % k then 1 else 0 : Nat) : Int)) =
      some ((shareStart n k (core + 1) : Nat) : Int) := by
    rw [← Int.natCast_add, ← hsucc]
    exact int32_of_le (by omega) (by omega)
  have htotal : l.total = some (n : Int) := by rw [total_eq h ha, hn]
  rw [Nat.cast_mul] at hp hf
  rw [runCore, htotal]
  simp only [bind_eq_bind, bind_some, hq, hr, hp, hmin, hf, hl, hone, he]
  rw [hk, Int.toNat_natCast]
  split
  · next heq => rw [window_empty _ (by omega)]; rfl
  · next hne =>
    have hrows : ∀ row ∈ range l.requests.toNat, (row : Int) < l.requests := fun row hrow => by
      rw [mem_range] at hrow
      omega
    have hfits : ((0 : Nat) + ((range l.requests.toNat).flatMap l.rowVisits).length : Int) ≤
        int32Max := by
      rw [show ((range l.requests.toNat).flatMap l.rowVisits).length = n from hn]
      omega
    exact rows_eq h ha hfirst (by omega) _ 0 hrows hfits (by omega)

theorem run_eq (ha : l.CountsAddressable) :
    ∃ visits, l.run = some visits ∧ visits.flatten = l.sequential := by
  have hcores := h.cores.1
  refine ⟨_, mapM_eq_some fun core hcore => runCore_eq h ha ?_, ?_⟩
  · rw [mem_range] at hcore
    omega
  · exact flatMap_shares l.sequential (show 0 < l.cores.toNat by omega)

theorem total_none (ha : ¬ l.CountsAddressable) : l.total = none := by
  have hr := h.requests
  have hover : int32Max < (l.requests - 1) * l.countStride := not_le.1 ha
  obtain ⟨n, hn⟩ : ∃ n : Nat, l.requests = n + 1 := ⟨(l.requests - 1).toNat, by omega⟩
  have hrow : l.rowLength n = none := by
    rw [hn, Int.add_sub_cancel] at hover
    rw [rowLength, int32, if_neg (by omega)]
    rfl
  rw [total, hn, show ((n : Int) + 1).toNat = n + 1 by omega, range_succ, foldlM_append]
  simp only [bind_eq_bind, foldlM_cons, hrow, bind_none]
  exact bind_fun_none _

theorem run_none (ha : ¬ l.CountsAddressable) : l.run = none := by
  have hcores := h.cores.1
  obtain ⟨n, hn⟩ : ∃ n : Nat, l.cores = n + 1 := ⟨(l.cores - 1).toNat, by omega⟩
  have hcore : l.runCore 0 = none := by
    rw [runCore, total_none h ha]
    rfl
  rw [run, hn, show ((n : Int) + 1).toNat = n + 1 by omega, range_succ_eq_map, mapM_cons,
    hcore]
  rfl

end

end Launch

/-! ## From the operands -/

theorem check_ok {α : Type} {c : Prop} [Decidable c] {message : String} {f : Unit → Except String α}
    {a : α} (h : (check c message >>= f) = .ok a) : c ∧ f () = .ok a := by
  unfold check at h
  split at h
  · next hc => exact ⟨hc, h⟩
  · cases h

/-- What the host hands on. -/
structure Handed (hardwareCores : Int) (state : DestinationState)
    (slots selected counts ptrs limits : Operand) (chunkSize maxAivCores : Int) (l : Launch) :
    Prop where
  accepted : l.Accepted
  requests : l.requests = selected.size 0
  table : l.table = fun i => BitVec.ofInt 64 (ptrs.word i)
  limit : l.limit = limits.word
  chunkSize : l.chunkSize = chunkSize
  chunksPerRequest : l.chunksPerRequest = (ptrs.size 1).tdiv l.requests
  kBytes : l.kBytes = state.kHiddenDims * 2
  scalar : state.scalar = .float16 ∨ state.scalar = .bfloat16
  width : l.requests * l.chunksPerRequest = ptrs.size 1

theorem handed_of_ok {hardwareCores : Int} {state : DestinationState}
    {slots selected counts ptrs limits : Operand} {chunkSize maxAivCores : Int} {l : Launch}
    (h : sparseGraphKvTransfer hardwareCores state slots selected counts ptrs limits chunkSize
      maxAivCores = .ok l) :
    Handed hardwareCores state slots selected counts ptrs limits chunkSize maxAivCores l := by
  unfold sparseGraphKvTransfer at h
  obtain ⟨⟨hdim, -⟩, h⟩ := check_ok h
  obtain ⟨-, h⟩ := check_ok h
  obtain ⟨-, h⟩ := check_ok h
  obtain ⟨-, h⟩ := check_ok h
  obtain ⟨⟨hr, hw, hnumel⟩, h⟩ := check_ok h
  obtain ⟨⟨-, -, -, hstride, -⟩, h⟩ := check_ok h
  obtain ⟨-, h⟩ := check_ok h
  obtain ⟨⟨-, -, hp, hmod, -, -⟩, h⟩ := check_ok h
  obtain ⟨⟨hc, -, -⟩, h⟩ := check_ok h
  obtain ⟨hscalar, h⟩ := check_ok h
  obtain ⟨-, h⟩ := check_ok h
  obtain ⟨-, h⟩ := check_ok h
  obtain ⟨⟨haiv, -⟩, h⟩ := check_ok h
  cases h
  have hsizes : selected.numel = selected.size 0 * selected.size 1 := by
    unfold Operand.numel Operand.size
    match hs : selected.sizes, hdim with
    | [a, b], _ => simp
  have hpos : 0 < selected.numel := by
    rw [hsizes]
    exact Int.mul_pos hr hw
  have hwidth : selected.size 0 * (ptrs.size 1).tdiv (selected.size 0) = ptrs.size 1 :=
    Int.mul_tdiv_cancel_of_dvd (Int.dvd_of_tmod_eq_zero hmod)
  have hchunks : 0 < (ptrs.size 1).tdiv (selected.size 0) := by
    by_contra hle
    have := Int.mul_nonpos_of_nonneg_of_nonpos hr.le (not_lt.1 hle)
    omega
  refine ⟨⟨?_, hr, hw, hsizes ▸ hnumel, hstride, hc, hchunks⟩, rfl, rfl, rfl, rfl, rfl, rfl,
    hscalar, hwidth⟩
  show 0 < (if 0 < maxAivCores then min (directAivNum hardwareCores selected.numel) maxAivCores
      else directAivNum hardwareCores selected.numel) ∧
    (if 0 < maxAivCores then min (directAivNum hardwareCores selected.numel) maxAivCores
      else directAivNum hardwareCores selected.numel) ≤ int32Max
  have hnum : 0 < directAivNum hardwareCores selected.numel ∧
      directAivNum hardwareCores selected.numel ≤ int32Max := by
    rw [directAivNum, if_pos hpos]
    omega
  split <;> omega

end SparseGraph
