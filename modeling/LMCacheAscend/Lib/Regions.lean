import Mathlib.Algebra.Order.Ring.Int
import Mathlib.Algebra.BigOperators.Group.List.Basic
import Mathlib.Data.List.Pairwise

/-!
# Regions that tile a buffer

A region is a start and a size.  `cover l x` says how many regions of a list have the
place `x`; it adds up over lists and does not see their order.  `Tiled l n`: the
regions of the list are apart, and together they are the places below `n`.
-/

namespace Lib

open List

/-- The region has the place. -/
def Within (r : Nat × Nat) (x : Nat) : Prop := r.1 ≤ x ∧ x < r.1 + r.2

instance (r : Nat × Nat) (x : Nat) : Decidable (Within r x) := inferInstanceAs (Decidable (_ ∧ _))

/-- How many regions of the list have the place. -/
def cover (l : List (Nat × Nat)) (x : Nat) : Nat := l.countP fun r => decide (Within r x)

/-- Apart, and together the places below `n`. -/
structure Tiled (l : List (Nat × Nat)) (n : Nat) : Prop where
  apart : l.Pairwise fun a b => ∀ x, ¬(Within a x ∧ Within b x)
  all : ∀ x, x < n ↔ ∃ r ∈ l, Within r x

section

variable {l m : List (Nat × Nat)} {x n : Nat}

variable (r : Nat × Nat) (a : Nat)

@[simp] theorem cover_nil : cover [] x = 0 := rfl

theorem cover_cons : cover (r :: l) x = cover l x + if Within r x then 1 else 0 := by
  unfold cover
  rw [countP_cons]
  simp

theorem cover_append : cover (l ++ m) x = cover l x + cover m x := countP_append

theorem cover_add : cover (r :: l) x = cover [r] x + cover l x :=
  cover_append (l := [r])

theorem cover_perm (h : l.Perm m) : cover l x = cover m x := h.countP_eq _

theorem cover_pos : 0 < cover l x ↔ ∃ r ∈ l, Within r x := by
  unfold cover
  rw [countP_pos_iff]
  simp

theorem cover_singleton : cover [r] x = if Within r x then 1 else 0 := by
  rw [cover_cons, cover_nil, Nat.zero_add]

theorem cover_split (k n : Nat) (hk : k ≤ n) :
    cover [(a, n)] x = cover [(a, k)] x + cover [(a + k, n - k)] x := by
  have hwhole : Within (a, n) x ↔ a ≤ x ∧ x < a + n := Iff.rfl
  have hleft : Within (a, k) x ↔ a ≤ x ∧ x < a + k := Iff.rfl
  have hright : Within (a + k, n - k) x ↔ a + k ≤ x ∧ x < a + k + (n - k) := Iff.rfl
  simp only [cover_singleton, hwhole, hleft, hright]
  split <;> split <;> split <;> omega

theorem cover_empty : cover [(a, 0)] x = 0 := by
  rw [cover_singleton, if_neg]
  rintro ⟨h, hlt⟩
  exact absurd hlt (by dsimp only at h ⊢; omega)

/-- Regions of one size, one after the other. -/
def units (u n : Nat) : List (Nat × Nat) := (range n).map fun i => (a + i * u, u)

theorem cover_units (u n : Nat) : cover (units a u n) x = cover [(a, n * u)] x := by
  induction n with
  | zero =>
    rw [Nat.zero_mul, cover_empty]
    rfl
  | succ n ih =>
    have hsnoc : units a u (n + 1) = units a u n ++ [(a + n * u, u)] := by
      unfold units
      rw [range_succ, map_append]
      rfl
    rw [hsnoc, cover_append, ih, cover_split a (n * u) ((n + 1) * u)
      (Nat.mul_le_mul_right u (Nat.le_succ n)), Nat.succ_mul, Nat.add_sub_cancel_left]

/-- Apart regions are those that have each place at most once. -/
theorem apart_iff : (l.Pairwise fun a b => ∀ x, ¬(Within a x ∧ Within b x)) ↔
    ∀ x, cover l x ≤ 1 := by
  induction l with
  | nil => simp
  | cons r l ih =>
    rw [pairwise_cons, ih]
    constructor
    · rintro ⟨hr, hl⟩ x
      rw [cover_cons]
      have hx := hl x
      split
      · next hin =>
        have hnone : ¬0 < cover l x := by
          rw [cover_pos]
          rintro ⟨b, hb, hbx⟩
          exact hr b hb x ⟨hin, hbx⟩
        omega
      · omega
    · intro h
      refine ⟨fun b hb x hx => ?_, fun x => ?_⟩
      · have hx' := h x
        have hpos : 0 < cover l x := cover_pos.2 ⟨b, hb, hx.2⟩
        rw [cover_cons, if_pos hx.1] at hx'
        omega
      · have hx := h x
        rw [cover_cons] at hx
        omega

theorem tiled_iff : Tiled l n ↔ ∀ x, cover l x = if x < n then 1 else 0 := by
  constructor
  · intro h x
    have hle := apart_iff.1 h.apart x
    have hpos := (h.all x).trans cover_pos.symm
    split
    · next hx =>
      have := hpos.1 hx
      omega
    · next hx =>
      have : ¬0 < cover l x := fun hp => hx (hpos.2 hp)
      omega
  · intro h
    refine ⟨apart_iff.2 fun x => ?_, fun x => ?_⟩
    · rw [h x]
      split <;> omega
    · rw [← cover_pos, h x]
      split
      · next hx => exact ⟨fun _ => Nat.one_pos, fun _ => hx⟩
      · next hx => exact ⟨fun hlt => absurd hlt hx, fun hlt => absurd hlt (Nat.lt_irrefl 0)⟩

end

end Lib
