import Mathlib.Algebra.Order.Ring.Int
import Mathlib.Data.List.Count

/-!
# Ledgers of what was taken and given back

A ledger lists what was taken and what was given back, one entry for each time.
`Balanced l held`: whatever was taken was given back once, except for what is
held, `held x` times `x`.
-/

namespace Lib

open List

section Times

variable {α : Type} [DecidableEq α]

/-- How often `x` is listed. -/
def times (xs : List α) (x : α) : Nat := xs.count x

@[simp] theorem times_nil (x : α) : times [] x = 0 := rfl

theorem times_append (xs ys : List α) (x : α) : times (xs ++ ys) x = times xs x + times ys x :=
  count_append

theorem times_perm {xs ys : List α} (h : xs.Perm ys) (x : α) : times xs x = times ys x :=
  h.count_eq x

theorem times_pos {xs : List α} {x : α} (h : x ∈ xs) : 0 < times xs x := count_pos_iff.2 h

theorem times_eq_zero {xs : List α} {x : α} (h : x ∉ xs) : times xs x = 0 :=
  count_eq_zero.2 h

theorem sum_eraseIdx {β : Type} {l : List β} {i : Nat} {a : β} (f : β → Nat) (h : l[i]? = some a) :
    ((l.eraseIdx i).map f).sum + f a = (l.map f).sum := by
  induction l generalizing i with
  | nil => cases h
  | cons b l ih =>
    cases i with
    | zero =>
      cases h
      simp [Nat.add_comm]
    | succ i =>
      have := ih h
      simp only [eraseIdx_cons_succ, map_cons, sum_cons]
      omega

theorem sum_set {β : Type} {l : List β} {i : Nat} {a : β} (f : β → Nat) (h : l[i]? = some a)
    (b : β) : ((l.set i b).map f).sum + f a = (l.map f).sum + f b := by
  induction l generalizing i with
  | nil => cases h
  | cons c l ih =>
    cases i with
    | zero =>
      cases h
      simp only [set_cons_zero, map_cons, sum_cons]
      omega
    | succ i =>
      have := ih h
      simp only [set_cons_succ, map_cons, sum_cons]
      omega

end Times

structure Ledger (α : Type) where
  taken : List α
  given : List α

namespace Ledger

variable {α : Type}

def empty : Ledger α := ⟨[], []⟩

def take (l : Ledger α) (xs : List α) : Ledger α := { l with taken := l.taken ++ xs }

def give (l : Ledger α) (xs : List α) : Ledger α := { l with given := l.given ++ xs }

variable [DecidableEq α]

def Balanced (l : Ledger α) (held : α → Nat) : Prop :=
  ∀ x, times l.taken x = times l.given x + held x

variable {l : Ledger α} {held held' : α → Nat}

theorem Balanced.congr (h : l.Balanced held) (hh : ∀ x, held' x = held x) : l.Balanced held' :=
  fun x => by rw [hh x]; exact h x

theorem Balanced.take (h : l.Balanced held) {xs : List α}
    (hh : ∀ x, held' x = held x + times xs x) : (l.take xs).Balanced held' := by
  intro x
  show times (l.taken ++ xs) x = times l.given x + held' x
  have := h x
  rw [times_append, hh x]
  omega

theorem Balanced.give (h : l.Balanced held) {xs : List α}
    (hh : ∀ x, held x = held' x + times xs x) : (l.give xs).Balanced held' := by
  intro x
  show times l.taken x = times (l.given ++ xs) x + held' x
  have := h x
  rw [times_append]
  rw [hh x] at this
  omega

theorem Balanced.unique (h : l.Balanced held) (h' : l.Balanced held') (x : α) :
    held x = held' x := by
  have := h x
  have := h' x
  omega

/-- What nobody holds was given back as often as it was taken. -/
theorem Balanced.settled (h : l.Balanced held) {x : α} (hx : held x = 0) :
    times l.given x = times l.taken x := by
  have := h x
  omega

/-- What is held, listed. -/
def Holds (g : Ledger α) (xs : List α) : Prop := g.Balanced (times xs)

variable {xs ys : List α}

theorem Holds.of_times (h : l.Holds xs) (hy : ∀ x, times ys x = times xs x) : l.Holds ys :=
  h.congr hy

theorem Holds.take (h : l.Holds xs) (ys : List α) : (l.take ys).Holds (xs ++ ys) :=
  Balanced.take h fun x => times_append xs ys x

theorem Holds.give (h : l.Holds (xs ++ ys)) : (l.give ys).Holds xs :=
  Balanced.give h fun x => times_append xs ys x

theorem Holds.eq_nil (h : l.Holds xs) (h' : l.Holds (xs ++ ys)) : ys = [] := by
  rw [eq_nil_iff_forall_not_mem]
  intro x hx
  have hu := h.unique h' x
  have hpos := times_pos hx
  rw [times_append] at hu
  omega

end Ledger

end Lib
