import Mathlib.Tactic.Common

/-!
# Intervals that tile a range

`Chain l a b`: the intervals of `l` are not empty and lead from `a` to `b`,
each starting where the one before ended.  `Tiles l a b` is that for a range
that may be empty: `l` tiles `[a, b)`, so it is empty when `b ≤ a`.
`Covers l a b`: the intervals of `l`, in order, leave no gap in `[a, b)`; each
starts at or before the point that the ones before it have reached.
-/

namespace Lib

open List

def Chain : List (Int × Int) → Int → Int → Prop
  | [], a, b => a = b
  | e :: l, a, b => e.1 = a ∧ e.1 < e.2 ∧ Chain l e.2 b

def Tiles (l : List (Int × Int)) (a b : Int) : Prop :=
  (a < b → Chain l a b) ∧ (b ≤ a → l = [])

def Covers : List (Int × Int) → Int → Int → Prop
  | [], a, b => b ≤ a
  | e :: l, a, b => e.1 ≤ a ∧ Covers l (max a e.2) b

instance Chain.decidable : ∀ (l : List (Int × Int)) (a b : Int), Decidable (Chain l a b)
  | [], a, b => inferInstanceAs (Decidable (a = b))
  | e :: l, a, b =>
    have := Chain.decidable l e.2 b
    inferInstanceAs (Decidable (e.1 = a ∧ e.1 < e.2 ∧ Chain l e.2 b))

instance Covers.decidable : ∀ (l : List (Int × Int)) (a b : Int), Decidable (Covers l a b)
  | [], a, b => inferInstanceAs (Decidable (b ≤ a))
  | e :: l, a, b =>
    have := Covers.decidable l (max a e.2) b
    inferInstanceAs (Decidable (e.1 ≤ a ∧ Covers l (max a e.2) b))

variable {a b : Int} {l : List (Int × Int)}

theorem Chain.le (h : Chain l a b) : a ≤ b := by
  induction l generalizing a with
  | nil => exact Int.le_of_eq h
  | cons e l ih =>
    obtain ⟨h1, h2, h3⟩ := h
    have := ih h3
    omega

theorem Chain.append {l m : List (Int × Int)} {a b c : Int} (h : Chain l a b) (h' : Chain m b c) :
    Chain (l ++ m) a c := by
  induction l generalizing a with
  | nil => exact h ▸ h'
  | cons e l ih => exact ⟨h.1, h.2.1, ih h.2.2⟩

theorem Chain.append_iff {l m : List (Int × Int)} {a c : Int} :
    Chain (l ++ m) a c ↔ ∃ b, Chain l a b ∧ Chain m b c := by
  constructor
  · intro h
    induction l generalizing a with
    | nil => exact ⟨a, rfl, h⟩
    | cons e l ih =>
      obtain ⟨b, hb, hm⟩ := ih h.2.2
      exact ⟨b, ⟨h.1, h.2.1, hb⟩, hm⟩
  · rintro ⟨b, h, h'⟩
    exact h.append h'

theorem Chain.le_of_mem (h : Chain l a b) {e : Int × Int} (he : e ∈ l) : a ≤ e.1 := by
  induction l generalizing a with
  | nil => cases he
  | cons d l ih =>
    obtain ⟨h1, h2, h3⟩ := h
    rcases mem_cons.1 he with rfl | he
    · omega
    · have := ih h3 he
      omega

theorem Chain.exists_mem {a b t : Int} (h : Chain l a b) (h1 : a ≤ t)
    (h2 : t < b) : ∃ e ∈ l, e.1 ≤ t ∧ t < e.2 := by
  induction l generalizing a with
  | nil =>
    have h : a = b := h
    omega
  | cons d l ih =>
    obtain ⟨hd1, hd2, hrest⟩ := h
    by_cases hin : t < d.2
    · exact ⟨d, mem_cons_self, by omega, hin⟩
    · obtain ⟨e, he, het⟩ := ih hrest (by omega)
      exact ⟨e, mem_cons_of_mem _ he, het⟩

theorem Chain.pairwise (h : Chain l a b) :
    l.Pairwise fun d e => d.2 ≤ e.1 := by
  induction l generalizing a with
  | nil => exact .nil
  | cons d l ih => exact .cons (fun e he => h.2.2.le_of_mem he) (ih h.2.2)

theorem Chain.sorted (h : Chain l a b) :
    l.Pairwise fun d e => d.1 ≤ e.1 := by
  induction l generalizing a with
  | nil => exact .nil
  | cons d l ih =>
    obtain ⟨h1, h2, h3⟩ := h
    refine .cons (fun e he => ?_) (ih h3)
    have := h3.le_of_mem he
    omega

theorem Chain.lt_of_mem (h : Chain l a b) {e : Int × Int} (he : e ∈ l) : e.1 < b := by
  induction l generalizing a with
  | nil => cases he
  | cons d l ih =>
    obtain ⟨h1, h2, h3⟩ := h
    rcases mem_cons.1 he with rfl | he
    · have := h3.le
      omega
    · exact ih h3 he

/-! ## Tiles -/

theorem Tiles.nil (h : b ≤ a) : Tiles [] a b :=
  ⟨fun h' => by omega, fun _ => rfl⟩

theorem Tiles.snoc {a b c : Int} (h : Tiles l a b) (hbc : max a b < c) :
    Tiles (l ++ [(max a b, c)]) a c := by
  refine ⟨fun _ => ?_, fun hca => by omega⟩
  rcases Int.lt_or_le a b with hab | hba
  · rw [Int.max_eq_right (Int.le_of_lt hab)] at hbc ⊢
    exact (h.1 hab).append ⟨rfl, hbc, rfl⟩
  · rw [h.2 hba, Int.max_eq_left hba]
    rw [Int.max_eq_left hba] at hbc
    exact ⟨rfl, hbc, rfl⟩

/-! ## Covers -/

theorem Covers.mono {a a' b b' : Int} (h : Covers l a b) (ha : a ≤ a')
    (hb : b' ≤ b) : Covers l a' b' := by
  induction l generalizing a a' with
  | nil =>
    change b' ≤ a'
    have : b ≤ a := h
    omega
  | cons e l ih =>
    obtain ⟨h1, h2⟩ := h
    exact ⟨by omega, ih h2 (by omega)⟩

theorem Covers.append {l m : List (Int × Int)} {a b c : Int} (h : Covers l a b)
    (h' : Covers m b c) : Covers (l ++ m) a c := by
  induction l generalizing a with
  | nil => exact h'.mono h (Int.le_refl c)
  | cons e l ih => exact ⟨h.1, ih h.2⟩

theorem Covers.singleton {a b c d : Int} (h1 : c ≤ a) (h2 : b ≤ d) : Covers [(c, d)] a b :=
  ⟨h1, by change b ≤ max a d; omega⟩

/-- Intervals in order without overlap that cover a range lead through it. -/
theorem Covers.chain (h : Covers l a b) (hl : l.Pairwise fun d e => d.2 ≤ e.1)
    (hpast : ∀ e ∈ l, e.1 < e.2 ∧ a < e.2) : ∃ c d, c ≤ a ∧ b ≤ d ∧ Chain l c d := by
  induction l generalizing a with
  | nil => exact ⟨a, a, Int.le_refl a, h, rfl⟩
  | cons e l ih =>
    obtain ⟨hstart, hrest⟩ := h
    obtain ⟨hbehind, hl⟩ := pairwise_cons.1 hl
    obtain ⟨hlt, hend⟩ := hpast e mem_cons_self
    rw [Int.max_eq_right (Int.le_of_lt hend)] at hrest
    have hpast' : ∀ e' ∈ l, e'.1 < e'.2 ∧ e.2 < e'.2 := fun e' he' => by
      have := hpast e' (mem_cons_of_mem e he')
      have := hbehind e' he'
      omega
    obtain ⟨c, d, hc, hd, hchain⟩ := ih hrest hl hpast'
    cases l with
    | nil => exact ⟨e.1, e.2, hstart, hrest, rfl, hlt, rfl⟩
    | cons e' l =>
      -- the next interval starts where this one ends
      have hnext : e'.1 = c := hchain.1
      have := hbehind e' mem_cons_self
      obtain rfl : c = e.2 := by omega
      exact ⟨e.1, d, hstart, hd, rfl, hlt, hchain⟩

/-- What starts at or after `c` at the end of the list is not needed up to `c`. -/
theorem Covers.of_append {l m : List (Int × Int)} {a b c : Int} (h : Covers (l ++ m) a b)
    (hm : ∀ e ∈ m, c ≤ e.1) (hc : c ≤ b) : Covers l a c := by
  induction l generalizing a with
  | nil =>
    cases m with
    | nil =>
      change c ≤ a
      have : b ≤ a := h
      omega
    | cons e m =>
      change c ≤ a
      have h1 : e.1 ≤ a := h.1
      have h2 := hm e mem_cons_self
      omega
  | cons e l ih => exact ⟨h.1, ih h.2⟩

end Lib
