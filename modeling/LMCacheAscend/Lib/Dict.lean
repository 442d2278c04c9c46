import Mathlib.Algebra.Order.Ring.Int
import Mathlib.Data.List.Nodup
import Mathlib.Algebra.BigOperators.Group.List.Basic

/-!
# Insertion-ordered dictionaries

`Dict κ β` is a list of entries whose keys are pairwise different; the field
`nodup` carries that, so no lemma about a dictionary has to ask for it.
`set` keeps the place of a key that is present and appends a new one, `pop`
forgets a key.  Each operation has its lookup lemma and its `keys` lemma, and
`weigh f` (the sum of `f` over the entries) follows them.
-/

namespace Lib

open List Function

structure Dict (κ β : Type) where
  entries : List (κ × β)
  nodup : (entries.map Prod.fst).Nodup

namespace Dict

variable {κ β : Type}

def empty : Dict κ β := ⟨[], nodup_nil⟩

def keys (d : Dict κ β) : List κ := d.entries.map Prod.fst

theorem keys_nodup (d : Dict κ β) : d.keys.Nodup := d.nodup

/-- Sum of `f` over the entries. -/
def weigh (f : κ × β → Nat) (d : Dict κ β) : Nat := (d.entries.map f).sum

@[simp] theorem keys_empty : (empty : Dict κ β).keys = [] := rfl

@[simp] theorem weigh_empty (f : κ × β → Nat) : (empty : Dict κ β).weigh f = 0 := rfl

variable [DecidableEq κ]

def get? (d : Dict κ β) (k : κ) : Option β := (d.entries.find? fun e => e.1 = k).map Prod.snd

/-- Replace the value of `k` in place. -/
def put (es : List (κ × β)) (k : κ) (v : β) : List (κ × β) :=
  es.map fun e => if e.1 = k then (k, v) else e

variable (es : List (κ × β)) {f : κ × β → Nat}

theorem put_keys (k : κ) (v : β) :
    (put es k v).map Prod.fst = es.map Prod.fst := by
  unfold put
  rw [map_map]
  apply map_congr_left
  intro e _
  by_cases h : e.1 = k <;> simp [h]

def set (d : Dict κ β) (k : κ) (v : β) : Dict κ β :=
  if h : k ∈ d.keys then ⟨put d.entries k v, by rw [put_keys]; exact d.nodup⟩
  else ⟨d.entries ++ [(k, v)], by
    rw [map_append, nodup_append]
    refine ⟨d.nodup, by simp, ?_⟩
    intro a ha b hb
    simp only [map_cons, map_nil, mem_singleton] at hb
    rintro rfl
    exact h (hb ▸ ha)⟩

def pop (d : Dict κ β) (k : κ) : Dict κ β :=
  ⟨d.entries.filter fun e => e.1 ≠ k, d.nodup.sublist (filter_sublist.map _)⟩

/-! ## Lookups -/

@[simp] theorem get?_empty (k : κ) : (empty : Dict κ β).get? k = none := rfl

variable {d : Dict κ β} {k : κ} {v : β}

theorem get?_eq_none : d.get? k = none ↔ k ∉ d.keys := by
  unfold get? keys
  rw [Option.map_eq_none_iff, find?_eq_none, mem_map]
  constructor
  · rintro h ⟨e, he, rfl⟩
    exact h e he (by simp)
  · intro h e he hek
    exact h ⟨e, he, by simpa using hek⟩

theorem mem_keys : k ∈ d.keys ↔ ∃ v, d.get? k = some v := by
  rw [← not_iff_not, ← get?_eq_none]
  cases d.get? k <;> simp

theorem mem_keys_of_get? (h : d.get? k = some v) : k ∈ d.keys :=
  mem_keys.2 ⟨v, h⟩

theorem mem_entries : (k, v) ∈ d.entries ↔ d.get? k = some v := by
  obtain ⟨es, hnd⟩ := d
  simp only [get?]
  induction es with
  | nil => simp
  | cons e es ih =>
    rw [map_cons, nodup_cons] at hnd
    rw [mem_cons, ih hnd.2, find?_cons]
    by_cases he : e.1 = k
    · have hn : (es.find? fun a => a.1 = k) = none := by
        rw [find?_eq_none]
        intro a ha hak
        exact hnd.1 (mem_map.2 ⟨a, ha, by simpa [he] using hak⟩)
      rw [hn]
      simp [he, Prod.ext_iff, eq_comm]
    · simp [he, Prod.ext_iff, eq_comm]

theorem find?_put (k : κ) (v : β) (j : κ) :
    ((put es k v).find? fun e => e.1 = j).map Prod.snd =
      if j = k ∧ k ∈ es.map Prod.fst then some v
      else (es.find? fun e => e.1 = j).map Prod.snd := by
  induction es with
  | nil => simp [put]
  | cons e es ih =>
    simp only [put, map_cons, find?_cons] at ih ⊢
    by_cases he : e.1 = k
    · by_cases hj : j = k
      · simp [he, hj]
      have : ¬ k = j := fun h => hj h.symm
      simp only [he, if_true, decide_eq_false this, hj, false_and, if_false]
      rw [ih]
      simp [hj]
    · by_cases hj : e.1 = j
      · have : ¬ j = k := fun h => he (hj.trans h)
        simp [hj, this]
      · have hk : ¬ k = e.1 := fun h => he h.symm
        simp only [he, if_false, decide_eq_false hj, mem_cons, hk, false_or]
        rw [ih]

theorem get?_set (d : Dict κ β) (k : κ) (v : β) (j : κ) :
    (d.set k v).get? j = if j = k then some v else d.get? j := by
  unfold set
  by_cases hk : k ∈ d.keys
  · rw [dif_pos hk]
    unfold get?
    rw [find?_put]
    by_cases hj : j = k <;> simp [hj]
    intro h
    exact absurd hk (by simpa [keys] using h)
  · rw [dif_neg hk]
    unfold get?
    rw [find?_append]
    by_cases hj : j = k
    · subst hj
      have h0 := get?_eq_none.2 hk
      unfold get? at h0
      rw [Option.map_eq_none_iff] at h0
      simp [h0]
    · have : ¬ k = j := fun h => hj h.symm
      simp [hj, this]

@[simp] theorem get?_set_self (d : Dict κ β) (k : κ) (v : β) : (d.set k v).get? k = some v := by
  simp [get?_set]

theorem mem_entries_set {e : κ × β} (h : e ∈ (d.set k v).entries) : e = (k, v) ∨ e ∈ d.entries := by
  have hget := mem_entries.1 h
  rw [get?_set] at hget
  split at hget
  · next hk =>
    exact .inl (Prod.ext hk (Option.some.inj hget).symm)
  · exact .inr (mem_entries.2 hget)

theorem get?_set_ne {k j : κ} (h : j ≠ k) :
    (d.set k v).get? j = d.get? j := by
  simp [get?_set, h]

theorem get?_pop (d : Dict κ β) (k j : κ) :
    (d.pop k).get? j = if j = k then none else d.get? j := by
  unfold pop get?
  rw [find?_filter]
  by_cases hj : j = k
  · subst hj
    simp
  rw [if_neg hj]
  congr 2
  funext e
  by_cases he : e.1 = j
  · simp [he, hj]
  · simp [he]

@[simp] theorem get?_pop_self (d : Dict κ β) (k : κ) : (d.pop k).get? k = none := by
  simp [get?_pop]

/-! ## Keys -/

theorem keys_set_of_mem (h : k ∈ d.keys) :
    (d.set k v).keys = d.keys := by
  unfold set
  rw [dif_pos h]
  exact put_keys _ _ _

theorem mem_keys_set {k j : κ} :
    j ∈ (d.set k v).keys ↔ j = k ∨ j ∈ d.keys := by
  simp only [mem_keys, get?_set]
  by_cases h : j = k <;> simp [h]

theorem keys_pop (d : Dict κ β) (k : κ) : (d.pop k).keys = d.keys.filter (· ≠ k) := by
  simp [pop, keys, filter_map, comp_def]

theorem mem_keys_pop {k j : κ} : j ∈ (d.pop k).keys ↔ j ∈ d.keys ∧ j ≠ k := by
  rw [keys_pop]
  simp

theorem pop_of_not_mem (h : k ∉ d.keys) : d.pop k = d := by
  unfold pop
  congr 1
  rw [filter_eq_self]
  intro e he
  have hk : e.1 ≠ k := fun hk => h (mem_map.2 ⟨e, he, hk⟩)
  simpa using hk

theorem keys_filter_eq {p : κ → Bool} (h : k ∈ d.keys)
    (hp : ∀ j, p j = true ↔ j = k) : d.keys.filter p = [k] := by
  have hp' : p = fun j => j == k := by
    funext j
    by_cases hj : j = k
    · simp [hj, (hp k).2 rfl]
    · have : p j ≠ true := fun hpj => hj ((hp j).1 hpj)
      simp [hj, this]
  rw [hp', filter_beq, count_eq_one_of_mem d.keys_nodup h]
  rfl

/-! ## Weights -/

theorem weigh_append (f : κ × β → Nat) (d : Dict κ β) (v : β) (h : k ∉ d.keys) :
    (d.set k v).weigh f = d.weigh f + f (k, v) := by
  unfold weigh set
  rw [dif_neg h]
  simp

theorem weigh_pop (h : d.get? k = some v) :
    (d.pop k).weigh f + f (k, v) = d.weigh f := by
  obtain ⟨es, hnd⟩ := d
  unfold get? at h
  simp only [weigh, pop]
  simp only at h
  induction es with
  | nil => simp at h
  | cons e es ih =>
    rw [map_cons, nodup_cons] at hnd
    by_cases he : e.1 = k
    · have hall : es.filter (fun a => decide (a.1 ≠ k)) = es := by
        rw [filter_eq_self]
        intro a ha
        have : a.1 ≠ e.1 := fun hk => hnd.1 (mem_map.2 ⟨a, ha, hk⟩)
        simpa [he] using this
      have hv : e = (k, v) := by
        simp only [find?_cons, he, decide_true, Option.map_some, Option.some.injEq] at h
        rw [← he, ← h]
      rw [filter_cons_of_neg (by simpa using he), hall, hv]
      simp [Nat.add_comm]
    · rw [filter_cons_of_pos (by simpa using he)]
      simp only [find?_cons, he, decide_false] at h
      have := ih hnd.2 h
      simp only [map_cons, sum_cons]
      omega

theorem put_filter (k : κ) (v : β) :
    (put es k v).filter (fun e => e.1 ≠ k) = es.filter fun e => e.1 ≠ k := by
  induction es with
  | nil => rfl
  | cons e es ih =>
    unfold put at ih ⊢
    rw [map_cons]
    by_cases he : e.1 = k
    · rw [if_pos he, filter_cons_of_neg (by simp), filter_cons_of_neg (by simp [he]), ih]
    · rw [if_neg he, filter_cons_of_pos (by simpa using he),
        filter_cons_of_pos (by simpa using he), ih]

theorem weigh_put (h : d.get? k = some v) (v' : β) :
    (d.set k v').weigh f + f (k, v) = d.weigh f + f (k, v') := by
  have hpop : (d.set k v').pop k = d.pop k := by
    unfold set
    rw [dif_pos (mem_keys_of_get? h)]
    unfold pop
    congr 1
    exact put_filter _ _ _
  have h1 := weigh_pop (f := f) h
  have h2 := weigh_pop (f := f) (get?_set_self d k v')
  rw [hpop] at h2
  omega

theorem weigh_congr_off {g : κ × β → Nat} (h : d.get? k = some v)
    (hfg : ∀ e ∈ d.entries, e.1 ≠ k → f e = g e) :
    d.weigh g + f (k, v) = d.weigh f + g (k, v) := by
  rw [← weigh_pop (f := f) h, ← weigh_pop (f := g) h]
  have he : (d.pop k).weigh g = (d.pop k).weigh f := by
    unfold weigh
    congr 1
    apply map_congr_left
    intro e he
    simp only [pop, mem_filter, decide_eq_true_eq] at he
    exact (hfg e he.1 he.2).symm
  omega

theorem weigh_set {f : κ → Nat} (h : k ∈ d.keys) :
    (d.set k v).weigh (fun e => f e.1) = d.weigh fun e => f e.1 := by
  have hk : ∀ d : Dict κ β, d.weigh (fun e => f e.1) = (d.keys.map f).sum := by
    intro d
    simp [weigh, keys, comp_def]
  rw [hk, hk, keys_set_of_mem h]

/-! ## Updating every value -/

/-- Each value replaced by what `f` makes of it, or its key dropped. -/
def updateValues (d : Dict κ β) (f : β → Option β) : Dict κ β where
  entries := d.entries.filterMap fun e => (f e.2).map (Prod.mk e.1)
  nodup := by
    have hsub : ((d.entries.filterMap fun e => (f e.2).map (Prod.mk e.1)).map Prod.fst).Sublist
        (d.entries.map Prod.fst) := by
      induction d.entries with
      | nil => exact Sublist.refl _
      | cons e es ih =>
        rw [filterMap_cons]
        cases f e.2 with
        | none => exact ih.cons _
        | some v => exact ih.cons_cons _
    exact Nodup.sublist hsub d.nodup

theorem get?_updateValues (d : Dict κ β) (f : β → Option β) (k : κ) :
    (d.updateValues f).get? k = (d.get? k).bind f := by
  obtain ⟨es, hnd⟩ := d
  unfold get? updateValues
  simp only
  induction es with
  | nil => rfl
  | cons e es ih =>
    rw [map_cons, nodup_cons] at hnd
    have ih := ih hnd.2
    rw [filterMap_cons]
    by_cases he : e.1 = k
    · have hnone : es.find? (fun a => decide (a.1 = k)) = none := by
        rw [find?_eq_none]
        intro a ha hak
        rw [decide_eq_true_eq] at hak
        exact hnd.1 (mem_map.2 ⟨a, ha, hak.trans he.symm⟩)
      rw [hnone] at ih
      cases hf : f e.2 with
      | none => simpa [hf, he] using ih
      | some v => simp [he, hf]
    · cases hf : f e.2 with
      | none | some => simpa [hf, he] using ih

/-! ## Some of the keys -/

/-- The entries of the keys that `f` accepts. -/
def keep (d : Dict κ β) (f : κ → Bool) : Dict κ β :=
  ⟨d.entries.filter fun e => f e.1, d.nodup.sublist (filter_sublist.map _)⟩

theorem get?_keep (d : Dict κ β) (f : κ → Bool) (k : κ) :
    (d.keep f).get? k = if f k = true then d.get? k else none := by
  obtain ⟨es, hnd⟩ := d
  unfold get? keep
  simp only
  rw [find?_filter]
  split
  · next hk =>
    congr 2
    funext e
    by_cases he : e.1 = k
    · simp [he, hk]
    · simp [he]
  · next hk =>
    have hnone : es.find? (fun e => decide (f e.1 = true ∧ decide (e.1 = k) = true)) = none := by
      rw [find?_eq_none]
      intro e _ he
      rw [decide_eq_true_eq] at he
      obtain ⟨hfe, he⟩ := he
      rw [decide_eq_true_eq] at he
      rw [he] at hfe
      exact hk hfe
    rw [hnone]
    rfl

/-! ## Key sets -/

/-- The keys of `ks`, each once, in the order of their first appearance. -/
def fromKeys (ks : List κ) : Dict κ Unit := ks.foldl (fun d k => d.set k ()) empty

theorem mem_keys_fromKeys {ks : List κ} : k ∈ (fromKeys ks).keys ↔ k ∈ ks := by
  have h : ∀ (ks : List κ) (d : Dict κ Unit),
      k ∈ (ks.foldl (fun d k => d.set k ()) d).keys ↔ k ∈ ks ∨ k ∈ d.keys := by
    intro ks
    induction ks with
    | nil => simp
    | cons a ks ih =>
      intro d
      rw [foldl_cons, ih, mem_keys_set, mem_cons]
      tauto
  rw [fromKeys, h]
  simp

end Dict

end Lib
