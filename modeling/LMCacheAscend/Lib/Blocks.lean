import Mathlib.Data.List.Sort

/-!
# Slices of a list made of blocks

`slices k l` cuts a list into slices of `k` entries, the last one shorter.  When
the list is made of blocks of `n` entries each, slices of `k * n` entries split
no block (`slices_flatMap`).  A relation between neighbours holds in every slice
if and only if it holds away from the cuts (`forall_slices_isChain`).  A list of
integers is the range from its first to its last when each is the successor of
the one before (`eq_range_iff`).
-/

namespace Lib

open List

variable {α β : Type*}

def slices (k : Nat) (l : List α) : List (List α) :=
  (range ((l.length + k - 1) / k)).map fun i => (l.drop (i * k)).take k

variable {k : Nat} {s : List α}

@[simp] theorem slices_nil (k : Nat) : slices k ([] : List α) = [] := by
  unfold slices
  have hzero : (([] : List α).length + k - 1) / k = 0 := by
    rcases Nat.eq_zero_or_pos k with rfl | hk
    · exact Nat.div_zero _
    · exact Nat.div_eq_of_lt (by rw [length_nil]; omega)
  rw [hzero]
  rfl

theorem mem_slices (hk : 0 < k) {l : List α} :
    s ∈ slices k l ↔ ∃ i, i * k < l.length ∧ s = (l.drop (i * k)).take k := by
  unfold slices
  rw [mem_map]
  have hlt : ∀ i, i ∈ range ((l.length + k - 1) / k) ↔ i * k < l.length := by
    intro i
    rw [mem_range, Nat.lt_div_iff_mul_lt hk]
    omega
  constructor
  · rintro ⟨i, hi, rfl⟩
    exact ⟨i, (hlt i).1 hi, rfl⟩
  · rintro ⟨i, hi, rfl⟩
    exact ⟨i, (hlt i).2 hi, rfl⟩

theorem ne_nil_of_mem_slices {l : List α} (hs : s ∈ slices k l) : s ≠ [] := by
  rcases Nat.eq_zero_or_pos k with rfl | hk
  · simp [slices] at hs
  obtain ⟨i, hi, rfl⟩ := (mem_slices hk).1 hs
  intro h
  have := congrArg List.length h
  rw [length_take, length_drop, length_nil] at this
  omega

theorem mem_of_mem_slices {l : List α} (hs : s ∈ slices k l) {x : α} (hx : x ∈ s) :
    x ∈ l := by
  obtain ⟨i, -, rfl⟩ := mem_map.1 hs
  exact mem_of_mem_drop (mem_of_mem_take hx)

theorem exists_slice (hk : 0 < k) {l : List α} {x : α} (hx : x ∈ l) :
    ∃ s ∈ slices k l, x ∈ s := by
  obtain ⟨j, hj, rfl⟩ := mem_iff_getElem.1 hx
  have hdiv := Nat.div_add_mod' j k
  have hmod := Nat.mod_lt j hk
  refine ⟨_, (mem_slices hk).2 ⟨j / k, by omega, rfl⟩, ?_⟩
  rw [mem_iff_getElem?]
  refine ⟨j % k, ?_⟩
  rw [getElem?_take, if_pos hmod, getElem?_drop, hdiv, getElem?_eq_getElem hj]

theorem flatten_range_slices (k : Nat) (l : List α) (m : Nat) :
    ((range m).map fun i => (l.drop (i * k)).take k).flatten = l.take (m * k) := by
  induction m with
  | zero => rw [Nat.zero_mul, take_zero]; rfl
  | succ m ih =>
    rw [range_succ, map_append, flatten_append, ih, map_singleton,
      flatten_singleton, Nat.succ_mul, take_add]

theorem flatten_slices (hk : 0 < k) (l : List α) : (slices k l).flatten = l := by
  unfold slices
  rw [flatten_range_slices]
  refine take_of_length_le ?_
  have hdiv := Nat.div_add_mod' (l.length + k - 1) k
  have hmod := Nat.mod_lt (l.length + k - 1) hk
  omega

theorem slice_unique (hk : 0 < k) {l : List α} (hl : l.Nodup) {t : List α} (hs : s ∈ slices k l)
    (ht : t ∈ slices k l) {x : α} (hxs : x ∈ s) (hxt : x ∈ t) : s = t := by
  obtain ⟨i, _, rfl⟩ := (mem_slices hk).1 hs
  obtain ⟨j, _, rfl⟩ := (mem_slices hk).1 ht
  obtain ⟨a, ha⟩ := mem_iff_getElem?.1 hxs
  obtain ⟨b, hb⟩ := mem_iff_getElem?.1 hxt
  rw [getElem?_take] at ha hb
  split at ha
  · next hak =>
    split at hb
    · next hbk =>
      rw [getElem?_drop] at ha hb
      obtain ⟨ha1, ha2⟩ := List.getElem?_eq_some_iff.1 ha
      obtain ⟨hb1, hb2⟩ := List.getElem?_eq_some_iff.1 hb
      have hidx : i * k + a = j * k + b := hl.getElem_inj_iff.1 (ha2.trans hb2.symm)
      have hij : i = j := by
        have h1 : (i * k + a) / k = i := by
          rw [Nat.mul_comm, Nat.mul_add_div hk, Nat.div_eq_of_lt hak, Nat.add_zero]
        have h2 : (j * k + b) / k = j := by
          rw [Nat.mul_comm, Nat.mul_add_div hk, Nat.div_eq_of_lt hbk, Nat.add_zero]
        rw [← h1, hidx, h2]
      rw [hij]
    · cases hb
  · cases ha

/-! ## Blocks -/

section

variable {f : β → List α} {n : Nat} {l : List β}

theorem length_flatMap_blocks (hf : ∀ b ∈ l, (f b).length = n) :
    (l.flatMap f).length = l.length * n := by
  induction l with
  | nil => simp
  | cons b l ih =>
    obtain ⟨hb, hl⟩ := forall_mem_cons.1 hf
    rw [flatMap_cons, length_append, hb, ih hl, length_cons, Nat.succ_mul,
      Nat.add_comm]

theorem drop_flatMap_blocks (hf : ∀ b ∈ l, (f b).length = n) (i : Nat) :
    (l.flatMap f).drop (i * n) = (l.drop i).flatMap f := by
  induction l generalizing i with
  | nil => simp
  | cons b l ih =>
    obtain ⟨hb, hl⟩ := forall_mem_cons.1 hf
    cases i with
    | zero => rw [Nat.zero_mul, drop_zero, drop_zero]
    | succ i =>
      rw [flatMap_cons, drop_append, hb, drop_eq_nil_of_le (by
        rw [hb, Nat.succ_mul]
        omega), nil_append, Nat.succ_mul, Nat.add_sub_cancel, ih hl, drop_succ_cons]

theorem take_flatMap_blocks (hf : ∀ b ∈ l, (f b).length = n) (i : Nat) :
    (l.flatMap f).take (i * n) = (l.take i).flatMap f := by
  induction l generalizing i with
  | nil => simp
  | cons b l ih =>
    obtain ⟨hb, hl⟩ := forall_mem_cons.1 hf
    cases i with
    | zero => rw [Nat.zero_mul, take_zero, take_zero, flatMap_nil]
    | succ i =>
      rw [flatMap_cons, take_append, hb, take_of_length_le (by
        rw [hb, Nat.succ_mul]
        omega), Nat.succ_mul, Nat.add_sub_cancel, ih hl, take_succ_cons, flatMap_cons]

theorem slices_flatMap (hn : 0 < n) (hf : ∀ b ∈ l, (f b).length = n) (k : Nat) :
    slices (k * n) (l.flatMap f) = (slices k l).map fun s => s.flatMap f := by
  rcases Nat.eq_zero_or_pos k with rfl | hk
  · simp [slices]
  have hcount : (l.length * n + k * n - 1) / (k * n) = (l.length + k - 1) / k := by
    have hsplit : l.length * n + k * n - 1 = (l.length + k - 1) * n + (n - 1) := by
      rw [← Nat.add_mul, Nat.sub_mul, Nat.one_mul]
      have : n ≤ (l.length + k) * n := Nat.le_mul_of_pos_left n (by omega)
      omega
    rw [hsplit, Nat.mul_comm k n, ← Nat.div_div_eq_div_mul, Nat.mul_comm _ n,
      Nat.mul_add_div hn, Nat.div_eq_of_lt (by omega : n - 1 < n), Nat.add_zero]
  unfold slices
  rw [length_flatMap_blocks hf, hcount, map_map]
  refine map_congr_left fun i _ => ?_
  have hdrop : ∀ b ∈ l.drop (i * k), (f b).length = n := fun b hb => hf b (mem_of_mem_drop hb)
  show ((l.flatMap f).drop (i * (k * n))).take (k * n) = ((l.drop (i * k)).take k).flatMap f
  rw [← Nat.mul_assoc, drop_flatMap_blocks hf, take_flatMap_blocks hdrop]

end

/-! ## Neighbours -/

/-- Every slice is a chain when neighbours that no cut separates are related. -/
theorem forall_slices_isChain {R : α → α → Prop} (hk : 0 < k) {l : List α} :
    (∀ s ∈ slices k l, s.IsChain R) ↔
      ∀ i (h : i + 1 < l.length), (i + 1) % k ≠ 0 → R l[i] l[i + 1] := by
  constructor
  · intro hs i hi hmod
    have hdiv := Nat.div_add_mod' i k
    have hlt := Nat.mod_lt i hk
    have hnext : i % k + 1 < k := by
      refine Nat.lt_of_le_of_ne hlt fun h => hmod ?_
      have : i + 1 = (i / k + 1) * k := by
        rw [Nat.succ_mul]
        omega
      rw [this, Nat.mul_mod_left]
    have hchain := hs _ ((mem_slices hk).2 ⟨i / k, by omega, rfl⟩)
    rw [isChain_iff_getElem] at hchain
    have hrel := hchain (i % k) (by
      rw [length_take, length_drop]
      omega)
    simp only [getElem_take, getElem_drop] at hrel
    have h1 : i / k * k + i % k = i := hdiv
    have h2 : i / k * k + (i % k + 1) = i + 1 := by omega
    simp only [h1, h2] at hrel
    exact hrel
  · intro h s hs
    obtain ⟨j, hj, rfl⟩ := (mem_slices hk).1 hs
    rw [isChain_iff_getElem]
    intro i hi
    rw [length_take, length_drop] at hi
    simp only [getElem_take, getElem_drop]
    refine h (j * k + i) (by omega) fun hmod => ?_
    have hmod' : (i + 1) % k = 0 := by
      rw [Nat.add_assoc, Nat.mul_comm, Nat.mul_add_mod] at hmod
      exact hmod
    rw [Nat.mod_eq_of_lt (by omega)] at hmod'
    omega

theorem getElem_of_isChain_succ {l : List Int} (h : l.IsChain fun a b => b = a + 1) {i : Nat}
    (hi : i < l.length) : l[i] = l[0] + i := by
  induction i with
  | zero => simp
  | succ i ih =>
    rw [List.IsChain.getElem h i hi, ih (by omega)]
    push_cast
    omega

/-- An increasing list that leaves no integer between two of its own out. -/
theorem isChain_succ_of_convex {l : List Int} (hl : l.Pairwise (· < ·))
    (h : ∀ a ∈ l, ∀ b ∈ l, ∀ m, a ≤ m → m ≤ b → m ∈ l) : l.IsChain fun a b => b = a + 1 := by
  rw [isChain_iff_getElem]
  intro i hi
  have hlt := pairwise_iff_getElem.1 hl
  have hstep := hlt i (i + 1) (by omega) hi (by omega)
  by_contra hne
  obtain ⟨j, hj, hjm⟩ := mem_iff_getElem.1 (h l[i] (getElem_mem _) l[i + 1]
    (getElem_mem hi) (l[i] + 1) (by omega) (by omega))
  rcases Nat.lt_trichotomy j i with hji | rfl | hji
  · have := hlt j i hj (by omega) hji
    omega
  · omega
  rcases Nat.lt_or_eq_of_le (Nat.succ_le_of_lt hji) with hij | rfl
  · have := hlt (i + 1) j hi hj hij
    omega
  · exact hne hjm

theorem eq_range_iff {l : List Int} {first last : Int} (hfirst : l.head? = some first)
    (hlast : l.getLast? = some last) :
    l = (range (last + 1 - first).toNat).map (fun i : Nat => first + i) ↔
      l.IsChain fun a b => b = a + 1 := by
  have hpos : 0 < l.length := by
    rcases l with - | ⟨a, l⟩
    · cases hfirst
    · exact Nat.succ_pos _
  have h0 : l[0] = first := by
    rw [head?_eq_getElem?, getElem?_eq_getElem hpos] at hfirst
    exact Option.some.inj hfirst
  have hn : l[l.length - 1] = last := by
    rw [getLast?_eq_getElem?, getElem?_eq_getElem (by omega)] at hlast
    exact Option.some.inj hlast
  constructor
  · intro h
    rw [h, isChain_iff_getElem]
    intro i hi
    simp only [getElem_map, getElem_range]
    push_cast
    omega
  · intro h
    have hend := getElem_of_isChain_succ h (i := l.length - 1) (by omega)
    rw [hn, h0] at hend
    refine ext_getElem ?_ fun i hi _ => ?_
    · rw [length_map, length_range]
      omega
    · rw [getElem_of_isChain_succ h hi, getElem_map, getElem_range, h0]

end Lib
