import Mathlib.Data.List.Nodup

/-!
# Elements by their place

`l[i]? = some a` says that `a` stands at place `i` of `l`: what this says of `i`,
and what stands where once an element is replaced or added.
-/

namespace Lib

open List

variable {α : Type} {l : List α} {i j : Nat} {a b x : α}

theorem lt_of_getElem? (h : l[i]? = some a) : i < l.length := (List.getElem?_eq_some_iff.1 h).1

theorem getElem?_append_some (h : l[i]? = some a) (r : List α) : (l ++ r)[i]? = some a :=
  (getElem?_append_left (lt_of_getElem? h)).trans h

theorem getElem?_snoc : (l ++ [b])[i]? = some a ↔ l[i]? = some a ∨ (i = l.length ∧ a = b) := by
  rw [getElem?_append]
  split
  · next hlt =>
    exact ⟨.inl, fun h => h.resolve_right fun h => absurd h.1 (Nat.ne_of_lt hlt)⟩
  next hge =>
  constructor
  · intro h
    have hlt := lt_of_getElem? h
    rw [length_singleton] at hlt
    have hi : i - l.length = 0 := by omega
    rw [hi] at h
    cases h
    exact .inr ⟨by omega, rfl⟩
  · rintro (h | ⟨rfl, rfl⟩)
    · exact absurd (lt_of_getElem? h) hge
    · rw [Nat.sub_self]
      rfl

theorem getElem?_snoc_self (l : List α) (a : α) : (l ++ [a])[l.length]? = some a :=
  getElem?_snoc.2 (.inr ⟨rfl, rfl⟩)

theorem exists_getElem?_snoc {P : α → Prop} : (∃ a, (l ++ [b])[i]? = some a ∧ P a) ↔
    (∃ a, l[i]? = some a ∧ P a) ∨ (i = l.length ∧ P b) := by
  simp only [getElem?_snoc, or_and_right, exists_or, and_assoc, exists_and_left, exists_eq_left]

theorem map_getElem?_snoc {β : Type} (f : α → β) (l : List α) (b : α) (i : Nat) :
    (l ++ [b])[i]?.map f = if i = l.length then some (f b) else l[i]?.map f := by
  split
  · next heq => rw [heq, getElem?_snoc_self, Option.map_some]
  · next hne =>
    congr 1
    ext a
    exact getElem?_snoc.trans (or_iff_left fun h => hne h.1)

theorem getElem?_set_or (h : (l.set i b)[j]? = some a) :
    (j = i ∧ a = b) ∨ (j ≠ i ∧ l[j]? = some a) := by
  rw [getElem?_set] at h
  grind

theorem nodup_snoc (h : l.Nodup) (ha : a ∉ l) : (l ++ [a]).Nodup := by
  rw [← concat_eq_append]
  exact h.concat ha

/-- Only `a` can go when its place is taken. -/
theorem mem_set_or (hi : l[i]? = some a) (hx : x ∈ l) (b : α) : a = x ∨ x ∈ l.set i b := by
  obtain ⟨k, hk⟩ := getElem?_of_mem hx
  by_cases hki : k = i
  · subst hki
    exact .inl (Option.some.inj (hi.symm.trans hk))
  · exact .inr (mem_of_getElem? ((getElem?_set_ne (Ne.symm hki)).trans hk))

end Lib
