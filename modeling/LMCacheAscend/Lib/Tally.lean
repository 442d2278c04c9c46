import Mathlib.Data.List.Count
import LMCacheAscend.Lib.Dict

/-!
# Owner counts: a dictionary that counts the live sets holding each key

`holders live k` is the number of the owner sets of `live` that contain `k`.
`Tally d f` says that `d` stores `f k` exactly at the keys where it is not
zero, so every stored count is at least one.  Storing a positive count and
popping a key keep a tally (`Tally.set`, `Tally.pop`); opening and closing an
owner set moves every holder count of the set by one (`holders_cons`), and
closing one of several in flight is the same wherever it stands
(`holders_eraseIdx`, `holders_append`).  `Dict.countUp` and `Dict.countDown`
move one count of a tally by one.
-/

namespace Lib

open List Function

variable {κ : Type} [DecidableEq κ]

/-- The number of owner sets that contain `k`. -/
def holders (live : List (List κ)) (k : κ) : Nat := live.countP fun s => k ∈ s

@[simp] theorem holders_nil (k : κ) : holders [] k = 0 := rfl

theorem holders_cons (s : List κ) (live : List (List κ)) (k : κ) :
    holders (s :: live) k = holders live k + if k ∈ s then 1 else 0 := by
  simp [holders, countP_cons]

theorem holders_append (l1 l2 : List (List κ)) (k : κ) :
    holders (l1 ++ l2) k = holders l1 k + holders l2 k := by
  simp [holders]

theorem holders_pos {live : List (List κ)} {s : List κ} {k : κ} (hs : s ∈ live) (hk : k ∈ s) :
    0 < holders live k :=
  countP_pos_iff.2 ⟨s, hs, by simpa using hk⟩

theorem holders_eraseIdx {α : Type} (f : α → List κ) {l : List α} {i : Nat} {a : α}
    (h : l[i]? = some a) (k : κ) :
    holders ((l.eraseIdx i).map f) k + (if k ∈ f a then 1 else 0) = holders (l.map f) k := by
  induction l generalizing i with
  | nil => simp at h
  | cons b l ih =>
    cases i with
    | zero =>
      simp only [getElem?_cons_zero, Option.some.injEq] at h
      subst h
      rw [eraseIdx_cons_zero, map_cons, holders_cons]
    | succ i =>
      rw [getElem?_cons_succ] at h
      rw [eraseIdx_cons_succ, map_cons, map_cons, holders_cons, holders_cons]
      have := ih h
      omega

/-- `d` stores `f k` at `k` exactly when it is not zero. -/
def Tally (d : Dict κ Nat) (f : κ → Nat) : Prop :=
  ∀ k, d.get? k = if f k = 0 then none else some (f k)

namespace Tally

variable {d : Dict κ Nat} {f g : κ → Nat}

theorem empty : Tally (Dict.empty : Dict κ Nat) fun _ => 0 := by
  intro k
  simp

theorem congr (h : Tally d f) (hfg : ∀ k, f k = g k) : Tally d g := by
  intro k
  rw [← hfg k]
  exact h k

theorem mem_keys (h : Tally d f) {k : κ} : k ∈ d.keys ↔ 0 < f k := by
  rw [Dict.mem_keys, h k]
  by_cases h0 : f k = 0
  · simp [h0]
  rw [if_neg h0]
  constructor
  · intro _
    omega
  · intro _
    exact ⟨_, rfl⟩

theorem get?_pos (h : Tally d f) {k : κ} (hk : 0 < f k) : d.get? k = some (f k) := by
  rw [h k, if_neg (by omega)]

theorem eq_of_get? (h : Tally d f) {k : κ} {n : Nat} (hk : d.get? k = some n) :
    0 < n ∧ n = f k := by
  rw [h k] at hk
  split at hk
  · cases hk
  · next h0 =>
    cases hk
    exact ⟨by omega, rfl⟩

theorem set (h : Tally d f) (k : κ) {n : Nat} (hn : 0 < n) :
    Tally (d.set k n) (update f k n) := by
  intro j
  rw [Dict.get?_set, update_apply]
  by_cases hj : j = k
  · simp [hj, Nat.ne_of_gt hn]
  · simpa [hj] using h j

theorem pop (h : Tally d f) (k : κ) : Tally (d.pop k) (update f k 0) := by
  intro j
  rw [Dict.get?_pop, update_apply]
  by_cases hj : j = k
  · simp [hj]
  · simpa [hj] using h j

end Tally

/-! ## Counting up and down -/

/-- `d[k] = d.get(k, 0) + 1`. -/
def Dict.countUp (d : Dict κ Nat) (k : κ) : Dict κ Nat := d.set k ((d.get? k).getD 0 + 1)

/-- One less, and no entry for zero. -/
def Dict.countDown (d : Dict κ Nat) (k : κ) : Dict κ Nat :=
  let count := (d.get? k).getD 1 - 1
  if count = 0 then d.pop k else d.set k count

variable {d : Dict κ Nat} {f : κ → Nat}

theorem Tally.getD (h : Tally d f) (k : κ) : (d.get? k).getD 0 = f k := by
  rw [h k]
  split
  · next h0 => exact h0.symm
  · rfl

theorem Tally.countUp (h : Tally d f) (k : κ) :
    Tally (d.countUp k) (update f k (f k + 1)) := by
  unfold Dict.countUp
  rw [h.getD k]
  exact h.set k (Nat.succ_pos _)

theorem Tally.countDown (h : Tally d f) {k : κ} (hk : 0 < f k) :
    Tally (d.countDown k) (update f k (f k - 1)) := by
  unfold Dict.countDown
  rw [h.get?_pos hk]
  show Tally (if f k - 1 = 0 then d.pop k else d.set k (f k - 1)) _
  split
  · next h0 =>
    rw [h0]
    exact h.pop k
  · next h0 => exact h.set k (Nat.pos_of_ne_zero h0)

end Lib
