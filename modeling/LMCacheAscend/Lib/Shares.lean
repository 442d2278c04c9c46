import Mathlib.Data.List.Range
import Mathlib.Tactic.Ring

/-!
# Shares of a list

`n` items are handed out to `k` holders by quotient and remainder: the shares are windows that
follow each other from `0` to `n` (`shareStart_zero`, `shareStart_last`), so together they are the
list (`flatMap_shares`).  A window of a concatenation is made of the windows of its parts
(`window_append`).
-/

namespace Lib

open List

variable {α : Type}

/-- The items with the indices from `a` to `b`. -/
def window (l : List α) (a b : Nat) : List α := (l.take b).drop a

variable {b : Nat} (l : List α) (n k : Nat)

theorem window_self (h : l.length ≤ b) : window l 0 b = l := by
  rw [window, take_of_length_le h, drop_zero]

theorem window_empty {a : Nat} (h : b ≤ a) : window l a b = [] := by
  rw [window, drop_eq_nil_iff, length_take]
  omega

theorem window_append (m : List α) (a b : Nat) :
    window (l ++ m) a b = window l a b ++ window m (a - l.length) (b - l.length) := by
  rw [window, take_append, drop_append, length_take, window, window]
  by_cases h : b ≤ l.length
  · have hb : b - l.length = 0 := by omega
    rw [hb, take_zero, drop_nil, drop_nil]
  · rw [Nat.min_eq_right (by omega)]

theorem window_map_range (f : Nat → α) (n a b : Nat) :
    window ((range n).map f) a b = (range' a (min b n - a)).map f := by
  rw [window, ← map_take, ← map_drop, take_range, range_eq_range',
    drop_range', Nat.zero_add, Nat.mul_one]

theorem window_concat {a c : Nat} (hab : a ≤ b) (hbc : b ≤ c) :
    window l a b ++ window l b c = window l a c := by
  have hb : (l.take c).take b = l.take b := by rw [take_take, Nat.min_eq_left hbc]
  have hdrop : (l.take c).drop a = ((l.take c).take b).drop a ++ (l.take c).drop b := by
    nth_rewrite 1 [← take_append_drop b (l.take c)]
    rw [drop_append, length_take]
    by_cases hlen : b ≤ (l.take c).length
    · rw [Nat.min_eq_left hlen, Nat.sub_eq_zero_of_le hab, drop_zero]
    · rw [drop_eq_nil_of_le (show (l.take c).length ≤ b by omega), drop_nil]
  rw [window, window, window, hdrop, hb]

/-- Where the share of a holder starts. -/
def shareStart (n k i : Nat) : Nat := i * (n / k) + min i (n % k)

theorem shareStart_zero : shareStart n k 0 = 0 := by simp [shareStart]

theorem shareStart_succ (i : Nat) :
    shareStart n k (i + 1) = shareStart n k i + n / k + if i < n % k then 1 else 0 := by
  rw [shareStart, shareStart, Nat.add_mul, Nat.one_mul]
  split <;> omega

theorem shareStart_le (i : Nat) : shareStart n k i ≤ shareStart n k (i + 1) := by
  rw [shareStart_succ, Nat.add_assoc]
  exact Nat.le_add_right _ _

theorem shareStart_last {n k : Nat} (hk : 0 < k) : shareStart n k k = n := by
  rw [shareStart, Nat.min_eq_right (Nat.mod_lt n hk).le]
  exact Nat.div_add_mod n k

theorem shareStart_mono {i j : Nat} (h : i ≤ j) :
    shareStart n k i ≤ shareStart n k j := by
  induction h with
  | refl => exact le_rfl
  | step _ ih => exact ih.trans (shareStart_le n k _)

theorem shareStart_le_total {n k i : Nat} (hk : 0 < k) (hi : i ≤ k) : shareStart n k i ≤ n :=
  (shareStart_mono n k hi).trans (shareStart_last hk).le

theorem flatMap_shares {k : Nat} (hk : 0 < k) :
    ((range k).flatMap fun i =>
      window l (shareStart l.length k i) (shareStart l.length k (i + 1))) = l := by
  have h : ∀ m, ((range m).flatMap fun i =>
      window l (shareStart l.length k i) (shareStart l.length k (i + 1))) =
        window l 0 (shareStart l.length k m) := by
    intro m
    induction m with
    | zero => rw [shareStart_zero, window_empty l le_rfl]; rfl
    | succ m ih =>
      rw [range_succ, flatMap_append, ih, flatMap_singleton,
        window_concat l (Nat.zero_le _) (shareStart_le _ _ _)]
  rw [h, shareStart_last hk, window_self l le_rfl]

end Lib
