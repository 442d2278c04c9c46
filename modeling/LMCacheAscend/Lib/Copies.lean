import Mathlib.Data.List.Basic

/-!
# Copies between two memories

A copy moves `size` cells from `src` of one memory to `dst` of another.  When
the targets of a list of copies are apart, each target holds what its source
held (`copyAll_inside`), whatever the order of the copies; a cell outside the
targets is left as it was (`copyAll_outside`).  A copy often moves a run of
cells; two runs are apart when their cells are (`apart_of_cells`).
-/

namespace Lib

open List

structure Copy where
  dst : Nat
  src : Nat
  size : Nat
  deriving DecidableEq, Repr

/-- The intervals `[a, a + n)` and `[b, b + m)` have no common point. -/
def Apart (a n b m : Nat) : Prop := a + n ≤ b ∨ b + m ≤ a

instance (a n b m : Nat) : Decidable (Apart a n b m) :=
  inferInstanceAs (Decidable (a + n ≤ b ∨ b + m ≤ a))

theorem Apart.symm {a n b m : Nat} (h : Apart a n b m) : Apart b m a n := Or.symm h

theorem Apart.not_both {a n b m x : Nat} (h : Apart a n b m) (h1 : a ≤ x ∧ x < a + n)
    (h2 : b ≤ x ∧ x < b + m) : False := by
  rcases h with h | h <;> omega

theorem apart_of_forall {a n b m : Nat} (hn : 0 < n) (hm : 0 < m)
    (h : ∀ x, a ≤ x ∧ x < a + n → b ≤ x ∧ x < b + m → False) : Apart a n b m := by
  by_contra hcon
  unfold Apart at hcon
  rw [not_or, Nat.not_le, Nat.not_le] at hcon
  exact h (max a b) ⟨Nat.le_max_left _ _, by omega⟩ ⟨Nat.le_max_right _ _, by omega⟩

/-! ## Runs of cells -/

section

variable {f : Nat → Nat} {a b w : Nat}

theorem exists_cell (hf : ∀ t, a ≤ t → t < b → f t = f a + (t - a) * w) {x : Nat} (h1 : f a ≤ x)
    (h2 : x < f a + (b - a) * w) : ∃ t, a ≤ t ∧ t < b ∧ f t ≤ x ∧ x < f t + w := by
  have hx : x - f a < (b - a) * w := by omega
  have hw : 0 < w := Nat.pos_of_ne_zero fun h => by rw [h] at hx; omega
  have hlt : (x - f a) / w < b - a := (Nat.div_lt_iff_lt_mul hw).2 hx
  have hdiv := Nat.div_add_mod' (x - f a) w
  have hmod := Nat.mod_lt (x - f a) hw
  generalize (x - f a) / w = k at hlt hdiv
  refine ⟨a + k, by omega, by omega, ?_⟩
  rw [hf (a + k) (by omega) (by omega), Nat.add_sub_cancel_left]
  omega

theorem apart_of_cells {g : Nat → Nat} {c d v : Nat}
    (hf : ∀ t, a ≤ t → t < b → f t = f a + (t - a) * w)
    (hg : ∀ u, c ≤ u → u < d → g u = g c + (u - c) * v)
    (hn : 0 < (b - a) * w) (hm : 0 < (d - c) * v)
    (h : ∀ t u, a ≤ t ∧ t < b → c ≤ u ∧ u < d → Apart (f t) w (g u) v) :
    Apart (f a) ((b - a) * w) (g c) ((d - c) * v) := by
  refine apart_of_forall hn hm fun x hx hy => ?_
  obtain ⟨t, ht1, ht2, htx⟩ := exists_cell hf hx.1 hx.2
  obtain ⟨u, hu1, hu2, hux⟩ := exists_cell hg hy.1 hy.2
  exact (h t u ⟨ht1, ht2⟩ ⟨hu1, hu2⟩).not_both htx hux

end

/-! ## Copying -/

variable {β : Type*}

def Copy.run (c : Copy) (src dst : Nat → β) : Nat → β :=
  fun a => if c.dst ≤ a ∧ a < c.dst + c.size then src (c.src + (a - c.dst)) else dst a

def copyAll (copies : List Copy) (src dst : Nat → β) : Nat → β :=
  copies.foldl (fun d c => c.run src d) dst

theorem copyAll_outside {copies : List Copy} {src dst : Nat → β} {a : Nat}
    (h : ∀ c ∈ copies, ¬(c.dst ≤ a ∧ a < c.dst + c.size)) : copyAll copies src dst a = dst a := by
  induction copies generalizing dst with
  | nil => rfl
  | cons c copies ih =>
    obtain ⟨hc, hrest⟩ := forall_mem_cons.1 h
    show copyAll copies src (c.run src dst) a = dst a
    rw [ih hrest]
    exact if_neg hc

theorem copyAll_inside {copies : List Copy} {src dst : Nat → β}
    (hapart : copies.Pairwise fun c d => Apart c.dst c.size d.dst d.size) {c : Copy}
    (hc : c ∈ copies) {k : Nat} (hk : k < c.size) :
    copyAll copies src dst (c.dst + k) = src (c.src + k) := by
  induction copies generalizing dst with
  | nil => cases hc
  | cons d copies ih =>
    obtain ⟨hd, hrest⟩ := pairwise_cons.1 hapart
    show copyAll copies src (d.run src dst) (c.dst + k) = _
    rcases mem_cons.1 hc with rfl | hc
    · -- no later copy writes here
      rw [copyAll_outside fun e he hin => (hd e he).not_both (by omega) hin]
      unfold Copy.run
      rw [if_pos (by omega), Nat.add_sub_cancel_left]
    · exact ih hrest hc

end Lib
