import Mathlib.Data.BitVec
import LMCacheAscend.Lib.Traverse

/-!
# Checksums of KV payloads

A checksum is two int32 sums over the little-endian 16-bit words of a segment, one plain
and one weighted by the positions of the words, both modulo `2 ^ 32`.  `content_checksums`
has them for each segment, `prefix_checksums` for each prefix of the rows of one segment,
from running sums over its words.  In an odd prefix the last word has a byte of the next
row, which is masked (`pairs_odd`).

The two agree for rows of any width but zero (`prefix_checksums_eq`).  Without a byte in a row
both raise: the running sums have nothing to index, and a row of bytes is not viewed as words.
-/

namespace KvTrace

open Lib List

abbrev Byte := BitVec 8

/-- An element of an int32 tensor. -/
abbrev Word := BitVec 32

/-- The bytes of a contiguous tensor, by its first dimension, with its storage offset. -/
structure Segments where
  width : Nat
  rows : List (List Byte)
  storageOffset : Nat
  even : ∀ row ∈ rows, row.length = width

/-! ## Words -/

/-- Little-endian pairs of bytes. -/
def pairs : List Byte → List (BitVec 16)
  | lo :: hi :: rest => (hi ++ lo) :: pairs rest
  | _ => []

/-- `.to(torch.int32) & 0xFFFF`. -/
def toWord (w : BitVec 16) : Word := w.signExtend 32 &&& 0xFFFF#32

/-- `view(torch.int16)` of a row, with the conversion; `strides` are those of the dimensions in
front of it. -/
def viewWords (strides : List Nat) (storageOffset : Nat) (bytes : List Byte) :
    Except String (List Word) :=
  if bytes.length % 2 ≠ 0 then .error "RuntimeError:self.size(-1) must be divisible by 2"
  else if storageOffset % 2 ≠ 0 then
    .error "RuntimeError:self.storage_offset() must be divisible by 2"
  else if ∃ stride ∈ strides, stride % 2 ≠ 0 then
    .error "RuntimeError:self.stride(0) must be divisible by 2"
  else .ok ((pairs bytes).map toWord)

/-- The stride of the rows of a contiguous matrix; one without columns has the stride 1. -/
def rowStride (columns : Nat) : Nat := max columns 1

variable (storageOffset : Nat) (s : Segments) {width : Nat}

/-- `reshape(values.shape[0], -1)`. -/
def Segments.reshaped : Except String (List (List Byte)) :=
  if s.rows = [] then .error "RuntimeError:cannot reshape tensor of 0 elements into shape [0, -1]"
  else .ok s.rows

/-- The offset after a concatenation with the padding, or else a clone of an odd one. -/
def alignedOffset (padding storageOffset : Nat) : Nat :=
  if padding ≠ 0 ∨ storageOffset % 2 ≠ 0 then 0 else storageOffset

/-- `words * positions`. -/
def weigh (ws : List Word) : List Word := ws.mapIdx fun i w => w * BitVec.ofNat 32 (i + 1)

/-! ## Checksums -/

/-- `content_checksums`. -/
def contentChecksums : Except String (List (Word × Word)) := do
  let raw ← s.reshaped
  let padding := s.width % 2
  raw.mapM fun row => do
    let ws ← viewWords [rowStride (s.width + padding)] (alignedOffset padding s.storageOffset)
      (row ++ replicate padding 0)
    pure (ws.sum ^^^ BitVec.ofNat 32 s.width, (weigh ws).sum)

variable (bytes : List Byte)

/-- `content_checksum`. -/
def contentChecksum : Except String (Word × Word) := do
  let sums ← contentChecksums ⟨bytes.length, [bytes], storageOffset, by simp⟩
  pure (sums.getD 0 (0, 0))

/-- `cumsum(dim=0)`, behind a sum. -/
def cumsum (acc : Word) : List Word → List Word
  | [] => []
  | w :: ws => (acc + w) :: cumsum (acc + w) ws

/-- An element of `index_select(0, ...)`. -/
def indexSelect (xs : List Word) (i : Int) : Except String Word :=
  if i < 0 then .error "IndexError:index out of range in self"
  else
    match xs[i.toNat]? with
    | some x => .ok x
    | none => .error "IndexError:index out of range in self"

/-- Row `k` of the tensors of `prefix_checksums`. -/
def prefixRow (width : Nat) (ws : List Word) (k : Nat) : Except String (Word × Word) := do
  let length : Word := BitVec.ofNat 32 (k + 1) * BitVec.ofNat 32 width
  let complete : Word := BitVec.ofInt 32 (length.toInt / 2)
  let remainder : Word := BitVec.ofInt 32 (length.toInt % 2)
  let lastComplete := max (complete - 1).toInt 0
  let plain ← indexSelect (cumsum 0 ws) lastComplete
  let weighted ← indexSelect (cumsum 0 (weigh ws)) lastComplete
  let plain := if 0 < complete.toInt then plain else 0
  let weighted := if 0 < complete.toInt then weighted else 0
  if width % 2 ≠ 0 then
    let word ← indexSelect ws (min complete.toInt (ws.length - 1))
    let last := if 0 < remainder.toInt then word &&& 0xFF#32 else 0
    pure ((plain + last) ^^^ length, weighted + last * (complete + 1))
  else pure (plain ^^^ length, weighted)

/-- `prefix_checksums`. -/
def prefixChecksums : Except String (List (Word × Word)) := do
  let raw ← s.reshaped
  let flat := raw.flatten
  let padding := flat.length % 2
  let ws ← viewWords [] (alignedOffset padding s.storageOffset) (flat ++ replicate padding 0)
  (range s.rows.length).mapM (prefixRow s.width ws)

/-! ## Words of a prefix -/

variable (bs : List Byte) {m i n : Nat} (ws : List Word)

theorem length_pairs : (pairs bs).length = bs.length / 2 := by
  induction bs using pairs.induct with
  | case1 lo hi rest ih =>
    rw [pairs, length_cons, ih, length_cons, length_cons]
    omega
  | case2 bs hbs =>
    match bs, hbs with
    | [], _ => rfl
    | [_], _ => simp [pairs]
    | lo :: hi :: rest, h => exact absurd rfl (h lo hi rest)

theorem pairs_even (hm : 2 * m ≤ bs.length) :
    pairs (bs.take (2 * m)) = (pairs bs).take m := by
  induction m generalizing bs with
  | zero => rfl
  | succ m ih =>
    match bs, hm with
    | lo :: hi :: rest, hm =>
      rw [length_cons, length_cons] at hm
      rw [show 2 * (m + 1) = 2 * m + 1 + 1 from rfl, take_succ_cons, take_succ_cons,
        pairs, pairs, take_succ_cons, ih rest (by omega)]

theorem pairs_odd (hm : 2 * m + 2 ≤ bs.length) :
    ∃ lo hi : Byte, (pairs bs)[m]? = some (hi ++ lo) ∧
      pairs (bs.take (2 * m + 1) ++ [0]) = (pairs bs).take m ++ [(0#8 ++ lo : BitVec 16)] := by
  induction m generalizing bs with
  | zero =>
    match bs, hm with
    | lo :: hi :: rest, _ => exact ⟨lo, hi, rfl, rfl⟩
  | succ m ih =>
    match bs, hm with
    | lo :: hi :: rest, hm =>
      rw [length_cons, length_cons] at hm
      obtain ⟨lo', hi', hget, hpairs⟩ := ih rest (by omega)
      refine ⟨lo', hi', ?_, ?_⟩
      · rw [pairs, getElem?_cons_succ]
        exact hget
      · rw [show 2 * (m + 1) + 1 = 2 * m + 1 + 1 + 1 from rfl, take_succ_cons,
          take_succ_cons, cons_append, cons_append, pairs, pairs,
          take_succ_cons, cons_append, hpairs]

theorem getLsbD_low (hi : i < 32) :
    ((BitVec.allOnes n).setWidth 32).getLsbD i = decide (i < n) := by
  rw [BitVec.getLsbD_setWidth, BitVec.getLsbD_allOnes, decide_eq_true hi, Bool.true_and]

theorem toWord_low (lo hi : Byte) : toWord (hi ++ lo) &&& 0xFF#32 = toWord (0#8 ++ lo) := by
  unfold toWord
  refine BitVec.eq_of_getLsbD_eq fun i hlt => ?_
  rw [show (0xFFFF#32) = (BitVec.allOnes 16).setWidth 32 from rfl,
    show (0xFF#32) = (BitVec.allOnes 8).setWidth 32 from rfl]
  simp only [BitVec.getLsbD_and, BitVec.getLsbD_signExtend, BitVec.getLsbD_append, getLsbD_low hlt]
  by_cases h8 : i < 8
  · simp [h8, hlt, show i < 16 by omega]
  by_cases h16 : i < 16 <;> simp [h8, h16]

/-! ## Running sums -/

theorem getElem?_cumsum (acc : Word) (ws : List Word) (hi : i < ws.length) :
    (cumsum acc ws)[i]? = some (acc + (ws.take (i + 1)).sum) := by
  induction ws generalizing acc i with
  | nil => cases hi
  | cons w ws ih =>
    rw [cumsum, take_succ_cons, sum_cons]
    cases i with
    | zero =>
      rw [take_zero, sum_nil, add_zero]
      rfl
    | succ i =>
      rw [getElem?_cons_succ, ih (acc + w) (Nat.lt_of_succ_lt_succ hi), add_assoc]

theorem length_weigh : (weigh ws).length = ws.length := length_mapIdx

theorem weigh_take (m : Nat) : weigh (ws.take m) = (weigh ws).take m := by
  refine ext_getElem? fun i => ?_
  unfold weigh
  rw [getElem?_mapIdx, getElem?_take, getElem?_take, getElem?_mapIdx]
  split <;> rfl

theorem weigh_concat (w : Word) :
    weigh (ws ++ [w]) = weigh ws ++ [w * BitVec.ofNat 32 (ws.length + 1)] :=
  mapIdx_concat

theorem indexSelect_eq {xs : List Word} {x : Word} (h : xs[i]? = some x) :
    indexSelect xs i = .ok x := by
  unfold indexSelect
  rw [if_neg (by omega), Int.toNat_natCast, h]

theorem select_cumsum (hm : m ≤ ws.length) (hne : ws ≠ []) :
    ∃ x, indexSelect (cumsum 0 ws) (max ((m : Int) - 1) 0) = .ok x ∧
      (if 0 < (m : Int) then x else 0) = (ws.take m).sum := by
  have hpos := length_pos_iff.2 hne
  cases m with
  | zero => exact ⟨_, indexSelect_eq (i := 0) (getElem?_cumsum 0 ws hpos), rfl⟩
  | succ m =>
    refine ⟨_, ?_, if_pos (by omega)⟩
    rw [show max (((m + 1 : Nat) : Int) - 1) 0 = (m : Int) by omega,
      indexSelect_eq (getElem?_cumsum 0 ws (Nat.lt_of_succ_le hm)), zero_add]

/-! ## Small int32 numbers -/

theorem toInt_ofNat_small (h : n < 2 ^ 31) : (BitVec.ofNat 32 n).toInt = n := by
  rw [BitVec.toInt_eq_toNat_of_lt]
  all_goals rw [BitVec.toNat_ofNat, Nat.mod_eq_of_lt (by omega)]
  omega

theorem toInt_pred (h : n < 2 ^ 31) : (BitVec.ofNat 32 n - 1).toInt = n - 1 := by
  rw [BitVec.toInt_sub, toInt_ofNat_small h]
  refine Int.bmod_eq_of_le ?_ ?_
  all_goals
    rw [show (1 : Word).toInt = 1 from rfl]
    omega

/-! ## Prefixes -/

/-- The padded words of a segment. -/
def wordsOf : List Word :=
  (pairs (bytes ++ replicate (bytes.length % 2) 0)).map toWord

theorem viewWords_aligned {strides : List Nat} (hstrides : ∀ stride ∈ strides, stride % 2 = 0)
    (storageOffset : Nat) (bytes : List Byte) :
    viewWords strides (alignedOffset (bytes.length % 2) storageOffset)
      (bytes ++ replicate (bytes.length % 2) 0) = .ok (wordsOf bytes) := by
  have hoffset : alignedOffset (bytes.length % 2) storageOffset % 2 = 0 := by
    unfold alignedOffset
    split
    · rfl
    · next h =>
      rw [not_or] at h
      exact not_not.1 h.2
  have hstride : ¬ ∃ stride ∈ strides, stride % 2 ≠ 0 :=
    fun ⟨stride, hmem, hne⟩ => hne (hstrides stride hmem)
  unfold viewWords
  rw [if_neg, if_neg (not_not.2 hoffset), if_neg hstride]
  · rfl
  · rw [length_append, length_replicate]
    omega

theorem contentChecksum_eq {bytes : List Byte} (hbytes : bytes ≠ []) :
    contentChecksum storageOffset bytes = .ok
      ((wordsOf bytes).sum ^^^ BitVec.ofNat 32 bytes.length, (weigh (wordsOf bytes)).sum) := by
  have hstrides : ∀ stride ∈ [rowStride (bytes.length + bytes.length % 2)], stride % 2 = 0 := by
    have hpos := length_pos_iff.2 hbytes
    simp only [mem_singleton, forall_eq, rowStride]
    omega
  unfold contentChecksum contentChecksums
  simp only [Segments.reshaped, if_neg (cons_ne_nil _ _), bind, Except.bind,
    mapM_cons, mapM_nil, viewWords_aligned hstrides]
  rfl

/-- A row without bytes has an odd stride. -/
theorem contentChecksum_nil : contentChecksum storageOffset [] =
    .error "RuntimeError:self.stride(0) must be divisible by 2" := by
  have hoffset : alignedOffset 0 storageOffset % 2 = 0 := by
    unfold alignedOffset
    split <;> omega
  unfold contentChecksum contentChecksums
  simp [Segments.reshaped, rowStride, viewWords, hoffset, bind, Except.bind]

theorem flatten_take {rows : List (List Byte)} (h : ∀ row ∈ rows, row.length = width) (k : Nat) :
    (rows.take k).flatten = rows.flatten.take (k * width) := by
  induction rows generalizing k with
  | nil => rw [take_nil, flatten_nil, take_nil]
  | cons row rows ih =>
    obtain ⟨hrow, hrows⟩ := forall_mem_cons.1 h
    cases k with
    | zero => rw [Nat.zero_mul, take_zero, take_zero, flatten_nil]
    | succ k =>
      have htake : row.take ((k + 1) * width) = row :=
        take_of_length_le (by rw [hrow]; exact Nat.le_mul_of_pos_left _ (Nat.succ_pos k))
      have hrest : (k + 1) * width - row.length = k * width := by
        rw [hrow, Nat.succ_mul, Nat.add_sub_cancel]
      rw [take_succ_cons, flatten_cons, flatten_cons, ih hrows, take_append,
        htake, hrest]

theorem length_flatten_even {rows : List (List Byte)} (h : ∀ row ∈ rows, row.length = width) :
    rows.flatten.length = rows.length * width := by
  induction rows with
  | nil => exact (Nat.zero_mul width).symm
  | cons row rows ih =>
    obtain ⟨hrow, hrows⟩ := forall_mem_cons.1 h
    rw [flatten_cons, length_append, ih hrows, hrow, length_cons, Nat.succ_mul,
      Nat.add_comm]

theorem wordsOf_take {flat : List Byte} (hn : n ≤ flat.length) :
    (n % 2 = 0 → wordsOf (flat.take n) = (wordsOf flat).take (n / 2)) ∧
    (n % 2 = 1 → ∃ w, (wordsOf flat)[n / 2]? = some w ∧
      wordsOf (flat.take n) = (wordsOf flat).take (n / 2) ++ [w &&& 0xFF#32]) := by
  unfold wordsOf
  rw [length_take, Nat.min_eq_left hn]
  generalize hpadded : flat ++ replicate (flat.length % 2) 0 = padded
  have htake : flat.take n = padded.take n := by
    rw [← hpadded, take_append_of_le_length hn]
  have hlen : padded.length = flat.length + flat.length % 2 := by
    rw [← hpadded, length_append, length_replicate]
  rw [htake]
  constructor
  · intro heven
    have h2 : n = 2 * (n / 2) := by omega
    rw [heven, replicate_zero, append_nil, ← map_take, ← pairs_even _ (by omega),
      ← h2]
  · intro hodd
    obtain ⟨lo, hi, hget, hpairs⟩ := pairs_odd padded (m := n / 2) (by omega)
    refine ⟨toWord (hi ++ lo), ?_, ?_⟩
    · rw [getElem?_map, hget]
      rfl
    · rw [toWord_low, hodd, ← map_take]
      rw [show 2 * (n / 2) + 1 = n by omega] at hpairs
      rw [show padded.take n ++ replicate 1 0 = padded.take n ++ [0] from rfl, hpairs,
        map_append]
      rfl

theorem length_wordsOf : (wordsOf bytes).length = (bytes.length + 1) / 2 := by
  unfold wordsOf
  rw [length_map, length_pairs, length_append, length_replicate]
  omega

theorem toInt_div (h : n < 2 ^ 31) :
    BitVec.ofInt 32 ((BitVec.ofNat 32 n).toInt / 2) = BitVec.ofNat 32 (n / 2) := by
  rw [toInt_ofNat_small h]
  exact BitVec.ofInt_natCast 32 (n / 2)

theorem toInt_mod (h : n < 2 ^ 31) :
    BitVec.ofInt 32 ((BitVec.ofNat 32 n).toInt % 2) = BitVec.ofNat 32 (n % 2) := by
  rw [toInt_ofNat_small h]
  exact BitVec.ofInt_natCast 32 (n % 2)

theorem prefixRow_eq {flat : List Byte} {k : Nat} (hwidth : 0 < width)
    (hn : (k + 1) * width ≤ flat.length) (hfit : flat.length < 2 ^ 31) :
    prefixRow width (wordsOf flat) k = .ok
      ((wordsOf (flat.take ((k + 1) * width))).sum ^^^ BitVec.ofNat 32 ((k + 1) * width),
        (weigh (wordsOf (flat.take ((k + 1) * width)))).sum) := by
  have hpos : 0 < (k + 1) * width := Nat.mul_pos (Nat.succ_pos k) hwidth
  have hodd : width % 2 = 0 → (k + 1) * width % 2 = 0 := by
    intro h
    rw [Nat.mul_mod, h, Nat.mul_zero]
  unfold prefixRow
  rw [← BitVec.ofNat_mul]
  generalize (k + 1) * width = n at hn hpos hodd
  obtain ⟨heven, hodd'⟩ := wordsOf_take hn
  have hlen := length_wordsOf flat
  generalize wordsOf flat = ws at heven hodd' hlen
  have hlt : n < 2 ^ 31 := by omega
  have hne : ws ≠ [] := ne_nil_of_length_pos (by omega)
  have hhalf : n / 2 ≤ ws.length := by omega
  obtain ⟨plain, hplain, hplain'⟩ := select_cumsum ws hhalf hne
  obtain ⟨weighted, hweighted, hweighted'⟩ := select_cumsum (weigh ws) (m := n / 2)
    (by rw [length_weigh]; exact hhalf) (ne_nil_of_length_pos (by rw [length_weigh]; omega))
  have hcomplete : (BitVec.ofNat 32 (n / 2)).toInt = (n / 2 : Nat) := toInt_ofNat_small (by omega)
  have hremainder : (BitVec.ofNat 32 (n % 2)).toInt = (n % 2 : Nat) := toInt_ofNat_small (by omega)
  have hpred := toInt_pred (n := n / 2) (by omega)
  simp only [toInt_div hlt, toInt_mod hlt, hcomplete, hremainder, hpred]
  rw [hplain, hweighted]
  simp only [hplain', hweighted', bind, Except.bind]
  by_cases hwidth' : width % 2 = 0
  · rw [if_neg (not_not.2 hwidth'), heven (hodd hwidth'), weigh_take]
    rfl
  rw [if_pos hwidth']
  -- the word of the odd byte, or the last one if the masked byte is not used
  rcases Nat.mod_two_eq_zero_or_one n with hn2 | hn2
  · obtain ⟨i, hi, hi'⟩ : ∃ i : Nat, (i : Int) = min ((n / 2 : Nat) : Int) (ws.length - 1) ∧
        i < ws.length := ⟨min (n / 2) (ws.length - 1), by omega, by omega⟩
    rw [← hi, indexSelect_eq (getElem?_eq_getElem hi'), heven hn2, hn2, weigh_take]
    simp [pure, Except.pure]
  · obtain ⟨w, hw, hwords⟩ := hodd' hn2
    have hlast : n / 2 < ws.length := lt_of_getElem? hw
    rw [show min ((n / 2 : Nat) : Int) (ws.length - 1) = (n / 2 : Nat) by omega, indexSelect_eq hw,
      hwords, weigh_concat, sum_append, sum_append, weigh_take, hn2,
      length_take_of_le hhalf, BitVec.ofNat_add]
    simp [pure, Except.pure]

/-! ## The two functions -/

theorem prefixChecksums_eq (hrows : s.rows ≠ []) : prefixChecksums s =
    (range s.rows.length).mapM (prefixRow s.width (wordsOf s.rows.flatten)) := by
  unfold prefixChecksums
  simp only [Segments.reshaped, if_neg hrows, bind, Except.bind,
    viewWords_aligned (forall_mem_nil _)]

theorem prefixRow_empty (k : Nat) :
    prefixRow 0 [] k = .error "IndexError:index out of range in self" := by
  unfold prefixRow
  rw [BitVec.ofNat_eq_ofNat, BitVec.mul_zero]
  rfl

theorem prefixChecksums_empty (hrows : s.rows ≠ []) (hzero : s.width = 0) :
    prefixChecksums s = .error "IndexError:index out of range in self" := by
  have hflat : s.rows.flatten = [] :=
    length_eq_zero_iff.1 (by rw [length_flatten_even s.even, hzero, Nat.mul_zero])
  obtain ⟨n, hn⟩ := Nat.exists_eq_succ_of_ne_zero (length_pos_iff.2 hrows).ne'
  rw [prefixChecksums_eq s hrows, hflat, hzero, hn, range_succ_eq_map, mapM_cons,
    show wordsOf [] = [] from rfl, prefixRow_empty]
  rfl

/-- Row `k` is the checksum of the first `k + 1` rows, whatever their storage offset, just when
a row has a byte. -/
theorem prefix_checksums_eq (s : Segments) (hrows : s.rows ≠ [])
    (hfit : s.rows.length * s.width < 2 ^ 31) :
    (∃ sums, prefixChecksums s = .ok sums ∧ sums.length = s.rows.length ∧
      ∀ k (hk : k < sums.length) (storageOffset : Nat),
        contentChecksum storageOffset (s.rows.take (k + 1)).flatten = .ok sums[k]) ↔
    0 < s.width := by
  have hflat := length_flatten_even s.even
  constructor
  · rintro ⟨sums, hsums, -⟩
    refine Nat.pos_of_ne_zero fun hzero => ?_
    rw [prefixChecksums_empty s hrows hzero] at hsums
    cases hsums
  · intro hwidth
    have hbytes : ∀ k ∈ range s.rows.length,
        prefixRow s.width (wordsOf s.rows.flatten) k = .ok
          ((wordsOf (s.rows.flatten.take ((k + 1) * s.width))).sum ^^^
              BitVec.ofNat 32 ((k + 1) * s.width),
            (weigh (wordsOf (s.rows.flatten.take ((k + 1) * s.width)))).sum) := by
      intro k hk
      refine prefixRow_eq hwidth ?_ (hflat ▸ hfit)
      rw [hflat]
      exact Nat.mul_le_mul_right s.width (mem_range.1 hk)
    refine ⟨_, (prefixChecksums_eq s hrows).trans (mapM_eq_ok hbytes),
      by rw [length_map, length_range], ?_⟩
    intro k hk storageOffset
    rw [length_map, length_range] at hk
    have hle : (k + 1) * s.width ≤ s.rows.flatten.length := by
      rw [hflat]
      exact Nat.mul_le_mul_right s.width hk
    have hne : (s.rows.take (k + 1)).flatten ≠ [] := by
      refine ne_nil_of_length_pos ?_
      rw [flatten_take s.even, length_take_of_le hle]
      exact Nat.mul_pos (Nat.succ_pos k) hwidth
    rw [contentChecksum_eq storageOffset hne, flatten_take s.even, length_take_of_le hle,
      getElem_map, getElem_range]

/-- Three rows of three bytes. -/
def oddRows : Segments where
  width := 3
  rows := [[1, 2, 3], [4, 5, 6], [7, 8, 255]]
  storageOffset := 1
  even := by decide

theorem oddRows_eq :
    ∃ sums, prefixChecksums oddRows = .ok sums ∧ sums.length = oddRows.rows.length ∧
      ∀ k (hk : k < sums.length) (storageOffset : Nat),
        contentChecksum storageOffset (oddRows.rows.take (k + 1)).flatten = .ok sums[k] :=
  (prefix_checksums_eq oddRows (by decide) (by decide)).2 (by decide)

/-- Two rows without bytes: neither function has a checksum for them. -/
theorem emptyRows_error :
    let s : Segments := ⟨0, [[], []], 0, by decide⟩
    (prefixChecksums s = .error "IndexError:index out of range in self" ∧
      contentChecksum 0 (s.rows.take 1).flatten =
        .error "RuntimeError:self.stride(0) must be divisible by 2") ∧
    ¬ ∀ s : Segments, s.rows ≠ [] → s.rows.length * s.width < 2 ^ 31 →
      ∃ sums, prefixChecksums s = .ok sums ∧ sums.length = s.rows.length ∧
        ∀ k (hk : k < sums.length) (storageOffset : Nat),
          contentChecksum storageOffset (s.rows.take (k + 1)).flatten = .ok sums[k] := by
  intro s
  have herror := prefixChecksums_empty s (by simp [s]) rfl
  refine ⟨⟨herror, contentChecksum_nil 0⟩, fun h => ?_⟩
  obtain ⟨sums, hsums, -⟩ := h s (by simp [s]) (by decide)
  rw [herror] at hsums
  cases hsums

end KvTrace
