import LMCacheAscend.Lib.Places
import Mathlib.Data.List.Dedup
import Mathlib.Data.List.Sort

/-!
# Intervals cut at points

`edges` is a list of points in increasing order; `pieces edges` are the
intervals between neighbours.  `cutsBetween cut a b` are `a`, `b` and the points
strictly between them at which `cut` holds.  Cutting several ranges that follow
each other at one set of edges and keeping the pieces inside a range is cutting
each range on its own (`filter_pieces`).
-/

namespace Lib

open List

/-! ## Increasing lists -/

/-- A list in strict order is decided by its members. -/
theorem eq_of_pairwise_asymm {α : Type*} {r : α → α → Prop} (hr : ∀ x y, r x y → ¬r y x)
    {l m : List α} (hl : l.Pairwise r) (hm : m.Pairwise r) (h : ∀ x, x ∈ l ↔ x ∈ m) : l = m := by
  have hnodup : ∀ {k : List α}, k.Pairwise r → k.Nodup :=
    fun hk => hk.imp fun hxy he => by rw [he] at hxy; exact hr _ _ hxy hxy
  have hp : l.Perm m := (perm_ext_iff_of_nodup (hnodup hl) (hnodup hm)).2 h
  exact Perm.eq_of_pairwise (fun x y _ _ hxy hyx => absurd hyx (hr x y hxy)) hl hm hp

theorem eq_of_pairwise_lt {α : Type*} {f : α → Nat} {l m : List α}
    (hl : l.Pairwise fun x y => f x < f y) (hm : m.Pairwise fun x y => f x < f y)
    (h : ∀ x, x ∈ l ↔ x ∈ m) : l = m :=
  eq_of_pairwise_asymm (fun _ _ hxy hyx => Nat.lt_irrefl _ (Nat.lt_trans hxy hyx)) hl hm h

/-- The distinct values of a list, in increasing order. -/
def uniqueSorted (l : List Nat) : List Nat := l.dedup.insertionSort (· ≤ ·)

@[simp] theorem mem_uniqueSorted {l : List Nat} {x : Nat} : x ∈ uniqueSorted l ↔ x ∈ l := by
  unfold uniqueSorted
  rw [mem_insertionSort, mem_dedup]

theorem pairwise_uniqueSorted (l : List Nat) : (uniqueSorted l).Pairwise (· < ·) := by
  have hle : (uniqueSorted l).Pairwise (· ≤ ·) := pairwise_insertionSort _ _
  have hne : (uniqueSorted l).Pairwise (· ≠ ·) :=
    (perm_insertionSort _ _).nodup_iff.2 (nodup_dedup l)
  exact (hle.and hne).imp fun h => Nat.lt_of_le_of_ne h.1 h.2

/-! ## Pieces -/

def pieces (edges : List Nat) : List (Nat × Nat) := edges.zip edges.tail

@[simp] theorem pieces_nil : pieces [] = [] := rfl

@[simp] theorem pieces_singleton (x : Nat) : pieces [x] = [] := rfl

@[simp] theorem pieces_cons_cons (x y : Nat) (l : List Nat) :
    pieces (x :: y :: l) = (x, y) :: pieces (y :: l) := rfl

section

variable {edges : List Nat} (h : edges.Pairwise (· < ·))
include h

theorem mem_pieces {p : Nat × Nat} :
    p ∈ pieces edges ↔
      p.1 ∈ edges ∧ p.2 ∈ edges ∧ p.1 < p.2 ∧ ∀ x ∈ edges, x ≤ p.1 ∨ p.2 ≤ x := by
  induction edges with
  | nil => simp
  | cons a l ih =>
    cases l with
    | nil =>
      rw [pieces_singleton]
      constructor
      · intro hp
        cases hp
      · rintro ⟨h1, h2, h3, -⟩
        rw [mem_singleton] at h1 h2
        omega
    | cons b l =>
      obtain ⟨hab, hl⟩ := pairwise_cons.1 h
      have hrest : ∀ x ∈ b :: l, b ≤ x := by
        intro x hx
        rcases mem_cons.1 hx with rfl | hx
        · exact Nat.le_refl _
        · exact Nat.le_of_lt ((pairwise_cons.1 hl).1 x hx)
      rw [pieces_cons_cons, mem_cons, ih hl]
      constructor
      · rintro (rfl | ⟨h1, h2, h3, h4⟩)
        · refine ⟨mem_cons_self, mem_cons_of_mem _ mem_cons_self,
            hab b mem_cons_self, fun x hx => ?_⟩
          rcases mem_cons.1 hx with rfl | hx
          · exact .inl (Nat.le_refl _)
          · exact .inr (hrest x hx)
        · refine ⟨mem_cons_of_mem _ h1, mem_cons_of_mem _ h2, h3, fun x hx => ?_⟩
          rcases mem_cons.1 hx with rfl | hx
          · exact .inl (Nat.le_of_lt (hab _ h1))
          · exact h4 x hx
      · rintro ⟨h1, h2, h3, h4⟩
        have h2' : p.2 ∈ b :: l := by
          rcases mem_cons.1 h2 with he | h2
          · rcases mem_cons.1 h1 with he' | h1
            · omega
            · have := hab _ h1
              omega
          · exact h2
        rcases mem_cons.1 h1 with he | h1
        · left
          have hb : p.2 ≤ b := by
            rcases h4 b (mem_cons_of_mem _ mem_cons_self) with hb | hb
            · have := hab b mem_cons_self
              omega
            · exact hb
          exact Prod.ext he (Nat.le_antisymm hb (hrest _ h2'))
        · exact .inr ⟨h1, h2', h3, fun x hx => h4 x (mem_cons_of_mem _ hx)⟩

theorem pairwise_pieces :
    (pieces edges).Pairwise fun p q => p.2 ≤ q.1 := by
  induction edges with
  | nil => exact .nil
  | cons a l ih =>
    cases l with
    | nil => exact .nil
    | cons b l =>
      obtain ⟨-, hl⟩ := pairwise_cons.1 h
      rw [pieces_cons_cons, pairwise_cons]
      refine ⟨fun q hq => ?_, ih hl⟩
      rcases mem_cons.1 ((mem_pieces hl).1 hq).1 with he | hq
      · exact Nat.le_of_eq he.symm
      · exact Nat.le_of_lt ((pairwise_cons.1 hl).1 _ hq)

theorem pairwise_pieces_lt :
    (pieces edges).Pairwise fun p q => p.1 < q.1 := by
  refine List.Pairwise.imp_of_mem (fun hp _ hpq => ?_) (pairwise_pieces h)
  exact Nat.lt_of_lt_of_le ((mem_pieces h).1 hp).2.2.1 hpq

theorem exists_piece {a b t : Nat} (ha : a ∈ edges) (hb : b ∈ edges) (hat : a ≤ t) (htb : t < b) :
    ∃ p ∈ pieces edges, p.1 ≤ t ∧ t < p.2 := by
  induction edges generalizing a with
  | nil => cases ha
  | cons c l ih =>
    cases l with
    | nil =>
      rw [mem_singleton] at ha hb
      omega
    | cons d l =>
      obtain ⟨hcd, hl⟩ := pairwise_cons.1 h
      have hb' : b ∈ d :: l := by
        rcases mem_cons.1 hb with rfl | hb
        · rcases mem_cons.1 ha with rfl | ha
          · omega
          · have := hcd _ ha
            omega
        · exact hb
      by_cases htd : t < d
      · have hct : c ≤ t := by
          rcases mem_cons.1 ha with rfl | ha
          · exact hat
          · have := hcd _ ha
            omega
        exact ⟨(c, d), mem_cons_self, hct, htd⟩
      · obtain ⟨p, hp, hpt⟩ := ih hl mem_cons_self hb' (Nat.le_of_not_lt htd)
        exact ⟨p, mem_cons_of_mem _ hp, hpt⟩

end

/-- The points of the pieces, in order, are those from the first edge up to the last. -/
theorem flatMap_pieces {a : Nat} {l : List Nat} (h : (a :: l).Pairwise (· < ·)) :
    (pieces (a :: l)).flatMap (fun p => range' p.1 (p.2 - p.1)) =
      range' a ((a :: l).getLast (cons_ne_nil _ _) - a) := by
  induction l generalizing a with
  | nil => simp
  | cons b l ih =>
    obtain ⟨hab, hl⟩ := pairwise_cons.1 h
    have hb : a < b := hab b mem_cons_self
    have hlast : b ≤ (b :: l).getLast (cons_ne_nil _ _) := by
      rcases mem_cons.1 (getLast_mem (cons_ne_nil b l)) with he | hmem
      · omega
      · exact Nat.le_of_lt ((pairwise_cons.1 hl).1 _ hmem)
    rw [pieces_cons_cons, flatMap_cons, ih hl, getLast_cons (cons_ne_nil b l)]
    show range' a (b - a) ++ range' b _ = _
    have hsum : a + (b - a) = b := by omega
    have happend := range'_append_1 (s := a) (m := b - a)
      (n := (b :: l).getLast (cons_ne_nil _ _) - b)
    rw [hsum] at happend
    rw [happend]
    congr 1
    omega

/-! ## One range -/

section

variable {cut : Nat → Bool} {a b : Nat}

def cutsBetween (cut : Nat → Bool) (a b : Nat) : List Nat :=
  a :: ((range' (a + 1) (b - (a + 1))).filter cut ++ [b])

theorem mem_cutsBetween (h : a < b) {x : Nat} :
    x ∈ cutsBetween cut a b ↔ x = a ∨ x = b ∨ (a < x ∧ x < b) ∧ cut x := by
  unfold cutsBetween
  rw [mem_cons, mem_append, mem_filter, mem_range'_1, mem_singleton]
  have hx : (a + 1 ≤ x ∧ x < a + 1 + (b - (a + 1))) ↔ a < x ∧ x < b := by omega
  rw [hx]
  exact or_congr_right or_comm

theorem pairwise_cutsBetween (h : a < b) : (cutsBetween cut a b).Pairwise (· < ·) := by
  unfold cutsBetween
  have hmem : ∀ x ∈ (range' (a + 1) (b - (a + 1))).filter cut, a < x ∧ x < b := by
    intro x hx
    have := mem_range'_1.1 (mem_filter.1 hx).1
    omega
  rw [pairwise_cons, pairwise_append]
  refine ⟨fun x hx => ?_, List.Pairwise.filter _ (pairwise_lt_range' 1),
    pairwise_singleton _ _,
    fun x hx y hy => ?_⟩
  · rcases mem_append.1 hx with hx | hx
    · exact (hmem x hx).1
    · rw [mem_singleton.1 hx]
      exact h
  · rw [mem_singleton.1 hy]
    exact (hmem x hx).2

theorem piece_inside (h : a < b) {p : Nat × Nat} (hp : p ∈ pieces (cutsBetween cut a b)) :
    a ≤ p.1 ∧ p.1 < p.2 ∧ p.2 ≤ b := by
  obtain ⟨h1, h2, h3, -⟩ := (mem_pieces (pairwise_cutsBetween h)).1 hp
  rcases (mem_cutsBetween h).1 h1 with h1 | h1 | h1 <;>
    rcases (mem_cutsBetween h).1 h2 with h2 | h2 | h2 <;> omega

theorem piece_uncut (h : a < b) {p : Nat × Nat} (hp : p ∈ pieces (cutsBetween cut a b)) {x : Nat}
    (h1 : p.1 < x) (h2 : x < p.2) : cut x = false := by
  have hin := piece_inside h hp
  obtain ⟨-, -, -, hnone⟩ := (mem_pieces (pairwise_cutsBetween h)).1 hp
  by_contra hcut
  rw [Bool.not_eq_false] at hcut
  have := hnone x ((mem_cutsBetween h).2 (.inr (.inr ⟨by omega, hcut⟩)))
  omega

theorem exists_piece_between (cut : Nat → Bool) (h : a < b) {t : Nat} (hat : a ≤ t) (htb : t < b) :
    ∃ p ∈ pieces (cutsBetween cut a b), p.1 ≤ t ∧ t < p.2 :=
  exists_piece (pairwise_cutsBetween h) ((mem_cutsBetween h).2 (.inl rfl))
    ((mem_cutsBetween h).2 (.inr (.inl rfl))) hat htb

/-- The pieces hold each point of the range once, in order. -/
theorem flatMap_cutsBetween (cut : Nat → Bool) (h : a < b) :
    (pieces (cutsBetween cut a b)).flatMap (fun p => range' p.1 (p.2 - p.1)) =
      range' a (b - a) := by
  have hflat := flatMap_pieces (@pairwise_cutsBetween cut a b h)
  rw [getLast_cons (by simp), getLast_append_singleton] at hflat
  exact hflat

theorem cutsBetween_congr {cut' : Nat → Bool} (h : ∀ x, a < x → x < b → cut x = cut' x) :
    cutsBetween cut a b = cutsBetween cut' a b := by
  unfold cutsBetween
  congr 2
  refine filter_congr fun x hx => ?_
  have := mem_range'_1.1 hx
  exact h x (by omega) (by omega)

end

/-! ## Several ranges -/

/-- Nonempty ranges, each after the ones before it. -/
structure Ordered (ranges : List (Nat × Nat)) : Prop where
  nonempty : ∀ r ∈ ranges, r.1 < r.2
  follow : ranges.Pairwise fun r q => r.2 ≤ q.1

instance (ranges : List (Nat × Nat)) : Decidable (Ordered ranges) :=
  decidable_of_iff ((∀ r ∈ ranges, r.1 < r.2) ∧ ranges.Pairwise fun r q => r.2 ≤ q.1)
    ⟨fun h => ⟨h.1, h.2⟩, fun h => ⟨h.1, h.2⟩⟩

theorem Ordered.append {l m : List (Nat × Nat)} (h : Ordered (l ++ m)) :
    Ordered l ∧ Ordered m ∧ ∀ r ∈ l, ∀ q ∈ m, r.2 ≤ q.1 := by
  obtain ⟨hl, hm, hlm⟩ := pairwise_append.1 h.follow
  exact ⟨⟨fun r hr => h.nonempty r (mem_append_left _ hr), hl⟩,
    ⟨fun r hr => h.nonempty r (mem_append_right _ hr), hm⟩, hlm⟩

/-- Two ranges are the same, or one is before the other. -/
theorem Ordered.apart {ranges : List (Nat × Nat)} (h : Ordered ranges) {r q : Nat × Nat}
    (hr : r ∈ ranges) (hq : q ∈ ranges) : q = r ∨ q.2 ≤ r.1 ∨ r.2 ≤ q.1 := by
  obtain ⟨l, m, rfl⟩ := append_of_mem hr
  rcases mem_append.1 hq with hq | hq
  · exact .inr (.inl (h.append.2.2 q hq r mem_cons_self))
  rcases mem_cons.1 hq with hq | hq
  · exact .inl hq
  · exact .inr (.inr ((pairwise_cons.1 h.append.2.1.follow).1 q hq))

theorem filter_pieces (cut : Nat → Bool) {edges : List Nat} {ranges : List (Nat × Nat)}
    {keep : Nat × Nat → Bool} (hedges : edges.Pairwise (· < ·)) (hranges : Ordered ranges)
    (hmem : ∀ r ∈ ranges, ∀ x, r.1 ≤ x → x ≤ r.2 →
      (x ∈ edges ↔ x ∈ cutsBetween cut r.1 r.2))
    (hkeep : ∀ p ∈ pieces edges, keep p ↔ ∃ r ∈ ranges, r.1 ≤ p.1 ∧ p.2 ≤ r.2) :
    (pieces edges).filter keep = ranges.flatMap fun r => pieces (cutsBetween cut r.1 r.2) := by
  refine eq_of_pairwise_lt (f := Prod.fst) ((pairwise_pieces_lt hedges).filter _) ?_ fun p => ?_
  · rw [pairwise_flatMap]
    refine ⟨fun r hr => pairwise_pieces_lt (pairwise_cutsBetween (hranges.nonempty r hr)), ?_⟩
    refine List.Pairwise.imp_of_mem (fun {r q} hr hq hrq x hx y hy => ?_) hranges.follow
    have hx := piece_inside (hranges.nonempty r hr) hx
    have hy := piece_inside (hranges.nonempty q hq) hy
    omega
  · rw [mem_filter, mem_flatMap]
    constructor
    · rintro ⟨hp, hk⟩
      obtain ⟨r, hr, h1, h2⟩ := (hkeep p hp).1 hk
      obtain ⟨hb, ht, hlt, hnone⟩ := (mem_pieces hedges).1 hp
      refine ⟨r, hr, (mem_pieces (pairwise_cutsBetween (hranges.nonempty r hr))).2
        ⟨(hmem r hr _ h1 (by omega)).1 hb, (hmem r hr _ (by omega) h2).1 ht, hlt,
          fun x hx => hnone x ?_⟩⟩
      have hin : r.1 ≤ x ∧ x ≤ r.2 := by
        have := hranges.nonempty r hr
        rcases (mem_cutsBetween this).1 hx with rfl | rfl | ⟨hx, -⟩ <;> omega
      exact (hmem r hr x hin.1 hin.2).2 hx
    · rintro ⟨r, hr, hp⟩
      have hne := hranges.nonempty r hr
      obtain ⟨h1, h2, h3⟩ := piece_inside hne hp
      obtain ⟨hb, ht, hlt, hnone⟩ := (mem_pieces (pairwise_cutsBetween hne)).1 hp
      have hp' : p ∈ pieces edges := by
        refine (mem_pieces hedges).2 ⟨(hmem r hr _ h1 (by omega)).2 hb,
          (hmem r hr _ (by omega) h3).2 ht, hlt, fun x hx => ?_⟩
        by_cases hin : r.1 ≤ x ∧ x ≤ r.2
        · exact hnone x ((hmem r hr x hin.1 hin.2).1 hx)
        · omega
      exact ⟨hp', (hkeep p hp').2 ⟨r, hr, h1, h3⟩⟩

/-- Pieces between fine cuts, gathered by coarse cuts that are among them. -/
theorem pieces_refine {coarse fine : Nat → Bool} {a b : Nat} (h : a < b)
    (hsub : ∀ x, coarse x = true → fine x = true) :
    pieces (cutsBetween fine a b) =
      (pieces (cutsBetween coarse a b)).flatMap fun r => pieces (cutsBetween fine r.1 r.2) := by
  have hfine := @pairwise_cutsBetween fine a b h
  have hcoarse := @pairwise_cutsBetween coarse a b h
  have hedge : ∀ x ∈ cutsBetween coarse a b, x ∈ cutsBetween fine a b := by
    intro x hx
    rw [mem_cutsBetween h] at hx ⊢
    exact hx.imp_right (Or.imp_right (And.imp_right (hsub x)))
  have hranges : Ordered (pieces (cutsBetween coarse a b)) :=
    ⟨fun r hr => (piece_inside h hr).2.1, pairwise_pieces hcoarse⟩
  have hall := @filter_pieces fine _ _ (fun _ => true) hfine hranges ?mem ?keep
  case mem =>
    intro r hr x h1 h2
    obtain ⟨hr1, hr2, hlt, -⟩ := (mem_pieces hcoarse).1 hr
    have hin := piece_inside h hr
    rw [mem_cutsBetween hlt]
    constructor
    · intro hx
      rcases (mem_cutsBetween h).1 hx with rfl | rfl | ⟨hx, hf⟩
      · exact .inl (by omega)
      · exact .inr (.inl (by omega))
      by_cases hx1 : x = r.1
      · exact .inl hx1
      by_cases hx2 : x = r.2
      · exact .inr (.inl hx2)
      · exact .inr (.inr ⟨by omega, hf⟩)
    · rintro (rfl | rfl | ⟨hx, hf⟩)
      · exact hedge _ hr1
      · exact hedge _ hr2
      · exact (mem_cutsBetween h).2 (.inr (.inr ⟨by omega, hf⟩))
  case keep =>
    intro p hp
    obtain ⟨-, -, hlt, hnone⟩ := (mem_pieces hfine).1 hp
    have hin := piece_inside h hp
    obtain ⟨r, hr, h1, h2⟩ := exists_piece_between coarse h hin.1 (by omega : p.1 < b)
    refine iff_of_true rfl ⟨r, hr, h1, ?_⟩
    have hr2 := hnone r.2 (hedge _ ((mem_pieces hcoarse).1 hr).2.1)
    omega
  rw [← hall]
  exact (filter_eq_self.2 fun _ _ => rfl).symm

end Lib
