import Mathlib.Data.List.Basic

/-!
# Writes into a slice

`writeSlice xs start ys` overwrites `xs` from `start` on with `ys`, as a copy
into a slice of a fixed-size buffer does; the buffer keeps its length as long as
the slice lies inside it.  Writes to slices that are apart keep what each of them
wrote (`getElem?_writeSlices`).
-/

namespace Lib

open List

variable {α : Type*}

def writeSlice (xs : List α) (start : Nat) (ys : List α) : List α :=
  xs.take start ++ ys ++ xs.drop (start + ys.length)

section

variable {start : Nat} {xs ys : List α} (h : start + ys.length ≤ xs.length)
include h

theorem length_writeSlice :
    (writeSlice xs start ys).length = xs.length := by
  unfold writeSlice
  rw [length_append, length_append, length_take, length_drop]
  omega

theorem getElem?_writeSlice (i : Nat) :
    (writeSlice xs start ys)[i]? =
      if start ≤ i ∧ i < start + ys.length then ys[i - start]? else xs[i]? := by
  unfold writeSlice
  have hlen : (xs.take start).length = start := by rw [length_take]; omega
  rw [append_assoc]
  by_cases h1 : i < start
  · rw [getElem?_append_left (by omega), getElem?_take_of_lt h1, if_neg (by omega)]
  rw [getElem?_append_right (by omega), hlen]
  by_cases h2 : i < start + ys.length
  · rw [if_pos (by omega), getElem?_append_left (by omega)]
  rw [if_neg (by omega), getElem?_append_right (by omega), getElem?_drop]
  congr 1
  omega

theorem getElem?_writeSlice_inside {i : Nat} (hi : i < ys.length) :
    (writeSlice xs start ys)[start + i]? = ys[i]? := by
  rw [getElem?_writeSlice h, if_pos (by omega)]
  congr 1
  omega

theorem getElem?_writeSlice_outside {i : Nat} (hi : i < start ∨ start + ys.length ≤ i) :
    (writeSlice xs start ys)[i]? = xs[i]? := by
  rw [getElem?_writeSlice h, if_neg (by omega)]

/-- An update inside the slice is an update of what was written. -/
theorem modify_writeSlice {i : Nat} (hi : i < ys.length) (f : α → α) :
    (writeSlice xs start ys).modify (start + i) f = writeSlice xs start (ys.modify i f) := by
  have h' : start + (ys.modify i f).length ≤ xs.length := by rw [length_modify]; exact h
  apply ext_getElem?
  intro j
  rw [getElem?_modify, getElem?_writeSlice h, getElem?_writeSlice h', length_modify]
  by_cases hj : start ≤ j ∧ j < start + ys.length
  · have hij : start + i = j ↔ i = j - start := by omega
    simp only [if_pos hj, getElem?_modify, hij]
  · have hij : ¬start + i = j := by omega
    simp only [if_neg hj, if_neg hij, id_map']

end

/-! ## Several writes -/

def writeSlices (xs : List α) (writes : List (Nat × List α)) : List α :=
  writes.foldl (fun xs w => writeSlice xs w.1 w.2) xs

variable {xs : List α} {writes : List (Nat × List α)}

theorem getElem?_writeSlices_outside (h : ∀ w ∈ writes, w.1 + w.2.length ≤ xs.length) {i : Nat}
    (hi : ∀ w ∈ writes, i < w.1 ∨ w.1 + w.2.length ≤ i) : (writeSlices xs writes)[i]? = xs[i]? := by
  induction writes generalizing xs with
  | nil => rfl
  | cons w writes ih =>
    obtain ⟨hw, hrest⟩ := forall_mem_cons.1 h
    obtain ⟨hiw, hirest⟩ := forall_mem_cons.1 hi
    have hlen := length_writeSlice hw
    show (writeSlices (writeSlice xs w.1 w.2) writes)[i]? = _
    rw [ih (fun v hv => by rw [hlen]; exact hrest v hv) hirest, getElem?_writeSlice_outside hw hiw]

theorem getElem?_writeSlices (h : ∀ w ∈ writes, w.1 + w.2.length ≤ xs.length)
    (hapart : writes.Pairwise fun w v => w.1 + w.2.length ≤ v.1 ∨ v.1 + v.2.length ≤ w.1)
    {w : Nat × List α} (hmem : w ∈ writes) {i : Nat} (hi : i < w.2.length) :
    (writeSlices xs writes)[w.1 + i]? = w.2[i]? := by
  induction writes generalizing xs with
  | nil => cases hmem
  | cons v writes ih =>
    obtain ⟨hv, hrest⟩ := forall_mem_cons.1 h
    obtain ⟨hva, harest⟩ := pairwise_cons.1 hapart
    have hlen := length_writeSlice hv
    have hrest' : ∀ u ∈ writes, u.1 + u.2.length ≤ (writeSlice xs v.1 v.2).length :=
      fun u hu => by rw [hlen]; exact hrest u hu
    show (writeSlices (writeSlice xs v.1 v.2) writes)[w.1 + i]? = _
    rcases mem_cons.1 hmem with rfl | hmem
    · -- no later write reaches this slice
      rw [getElem?_writeSlices_outside hrest' fun u hu => ?_, getElem?_writeSlice_inside hv hi]
      rcases hva u hu with h | h <;> omega
    · exact ih hrest' harest hmem

end Lib
