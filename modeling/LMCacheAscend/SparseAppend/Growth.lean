import Mathlib.Data.List.Nodup
import LMCacheAscend.Lib.Traverse
import LMCacheAscend.SparseAppend.Appends

/-!
# Growth of a sparse cache

What an append does to the lists and tables, wherever it ends: a list keeps what it
holds and gets more behind it, a row of pointers that was handed out shows what it
showed.  Only the list of pointer rows is rewritten.  The columns of a table that may
still be written are those behind its `length` (`World.Opens`), and no view that a list
holds reaches one of them.
-/

namespace SparseAppend

open Lib List Function

variable {ω : Type} {c : Cache} {w w' w1 w2 : World ω}

/-- An append may write this column of the table. -/
def World.Opens (w : World ω) (t col : Nat) : Prop :=
  ∃ key s, w.tables key = some s ∧ s.table = t ∧ s.length ≤ col

/-- A value that a list may hold: a row has no other name, and a view shows columns that are
written. -/
def Held (c : Cache) (w : World ω) : Value ω → Prop
  | .list r => r < w.nextList ∧ r ∉ c.outer
  | .row v => v.table < w.nextTable ∧ ∀ col < v.len, ¬w.Opens v.table col
  | _ => True

/-- The lists and tables are in order. -/
structure Sound (c : Cache) (w : World ω) : Prop where
  allocated : ∀ r ∈ c.outer, r < w.nextList
  closed : ∀ r < w.nextList, ∀ v ∈ w.lists r, Held c w v
  layered : ∀ r ∈ c.layers, ∀ v ∈ w.lists r, ∃ q, v = .list q
  tables : ∀ key s, w.tables key = some s → s.table < w.nextTable
  once : ∀ key key' s s', w.tables key = some s → w.tables key' = some s' → s.table = s'.table →
    key = key'

/-- `w'` has all of `w`, except for what the list of pointer rows held. -/
structure Grows (c : Cache) (w w' : World ω) : Prop where
  lists : ∀ r < w.nextList, r ∉ c.pointers → w.lists r <+: w'.lists r
  nextList : w.nextList ≤ w'.nextList
  nextTable : w.nextTable ≤ w'.nextTable
  mem : ∀ t < w.nextTable, ∀ i col, ¬w.Opens t col → w'.mem t i col = w.mem t i col
  opens : ∀ t < w.nextTable, ∀ col, w'.Opens t col → w.Opens t col

namespace Grows

theorem refl (c : Cache) (w : World ω) : Grows c w w where
  lists _ _ _ := prefix_rfl
  nextList := Nat.le_refl _
  nextTable := Nat.le_refl _
  mem _ _ _ _ _ := rfl
  opens _ _ _ h := h

theorem trans (h : Grows c w w1) (h' : Grows c w1 w2) : Grows c w w2 where
  lists r hr hp := (h.lists r hr hp).trans (h'.lists r (Nat.lt_of_lt_of_le hr h.nextList) hp)
  nextList := h.nextList.trans h'.nextList
  nextTable := h.nextTable.trans h'.nextTable
  mem t ht i col hcol := by
    have ht1 : t < w1.nextTable := Nat.lt_of_lt_of_le ht h.nextTable
    rw [h'.mem t ht1 i col fun h1 => hcol (h.opens t ht col h1)]
    exact h.mem t ht i col hcol
  opens t ht col hcol :=
    h.opens t ht col (h'.opens t (Nat.lt_of_lt_of_le ht h.nextTable) col hcol)

end Grows

variable {v : Value ω} {r : Ref} {l : List (Value ω)}

theorem Held.mono (h : Held c w v) (hw : Grows c w w') : Held c w' v := by
  cases v with
  | list r => exact ⟨Nat.lt_of_lt_of_le h.1 hw.nextList, h.2⟩
  | row v =>
    refine ⟨Nat.lt_of_lt_of_le h.1 hw.nextTable, ?_⟩
    intro col hcol hopen
    exact h.2 col hcol (hw.opens v.table h.1 col hopen)
  | none | int _ | obj _ => exact trivial

theorem Held.cells (h : Held c w v) (hw : Grows c w w') : w'.cells v = w.cells v := by
  cases v with
  | row v =>
    refine map_congr_left ?_
    intro col hcol
    exact hw.mem v.table h.1 v.row col (h.2 col (mem_range.1 hcol))
  | none | list _ | int _ | obj _ => rfl

/-! ## The lists of a cache -/

theorem mem_outer : r ∈ c.outer ↔ r ∈ c.ranges ∨ r ∈ c.layers ∨ r ∈ c.pointers := by
  simp only [Cache.outer, mem_append, or_assoc]

theorem mem_pointers {p : Ref} : p ∈ c.pointers ↔ c.chunkPtrsNpu = some p := Option.mem_toList

theorem pointers_apart (hp : r ∈ c.pointers) : r ∉ c.ranges ∧ r ∉ c.layers := by
  have hd : (c.ranges ++ c.layers ++ c.pointers).Nodup := c.apart
  have hdisjoint := (nodup_append.1 hd).2.2
  refine ⟨?_, ?_⟩
  · exact fun hr => hdisjoint r (mem_append_left _ hr) r hp rfl
  · exact fun hr => hdisjoint r (mem_append_right _ hr) r hp rfl

/-! ## Steps on lists -/

theorem setList_lists {r q : Ref} :
    (w.setList r l).lists q = if q = r then l else w.lists q := by
  simp only [World.setList, update_apply]

theorem setList_self : (w.setList r l).lists r = l := by
  rw [setList_lists, if_pos rfl]

theorem setList_held :
    Held c (w.setList r l) v ↔ Held c w v := by
  cases v <;> exact Iff.rfl

theorem Sound.setList (h : Sound c w)
    (hheld : ∀ v ∈ l, Held c w v) (hlayer : r ∈ c.layers → ∀ v ∈ l, ∃ q, v = .list q) :
    Sound c (w.setList r l) where
  allocated := h.allocated
  closed q hq v hv := by
    rw [setList_held]
    rw [setList_lists] at hv
    split at hv
    · exact hheld v hv
    · exact h.closed q hq v hv
  layered q hq v hv := by
    rw [setList_lists] at hv
    split at hv
    · next he =>
      subst he
      exact hlayer hq v hv
    · exact h.layered q hq v hv
  tables := h.tables
  once := h.once

theorem setList_grows (hl : r ∈ c.pointers ∨ w.lists r <+: l) :
    Grows c w (w.setList r l) where
  lists q _ hp := by
    rw [setList_lists]
    split
    · next he =>
      subst he
      exact hl.resolve_left hp
    · exact prefix_rfl
  nextList := Nat.le_refl _
  nextTable := Nat.le_refl _
  mem _ _ _ _ _ := rfl
  opens _ _ _ h := h

theorem addList_lists {q : Ref} :
    w.addList.lists q = if q = w.nextList then [] else w.lists q := by
  simp only [World.addList, update_apply]

section

variable (h : Sound c w)
include h

theorem addList_grows : Grows c w w.addList ∧ Sound c w.addList := by
  have hw : Grows c w w.addList := by
    refine ⟨?_, Nat.le_succ _, Nat.le_refl _, fun _ _ _ _ _ => rfl, fun _ _ _ h => h⟩
    intro q hq _
    have hsame : w.addList.lists q = w.lists q := by
      rw [addList_lists, if_neg (Nat.ne_of_lt hq)]
    exact hsame ▸ prefix_rfl
  refine ⟨hw, fun r hr => Nat.lt_succ_of_lt (h.allocated r hr), ?_, ?_, h.tables, h.once⟩
  · intro q hq v hv
    rw [addList_lists] at hv
    split at hv
    · exact absurd hv not_mem_nil
    · next he =>
      have hq' : q < w.nextList := Nat.lt_of_le_of_ne (Nat.lt_succ_iff.1 hq) he
      exact (h.closed q hq' v hv).mono hw
  · intro q hq v hv
    have hne : q ≠ w.nextList :=
      Nat.ne_of_lt (h.allocated q (mem_outer.2 (.inr (.inl hq))))
    rw [addList_lists, if_neg hne] at hv
    exact h.layered q hq v hv

theorem Item.held {x : Item ω} (hv : x.value c w = some v) :
    Held c w v := by
  cases x with
  | none | int _ | obj _ =>
    cases hv
    exact trivial
  | list q =>
    simp only [Item.value, Option.ite_none_right_eq_some] at hv
    obtain ⟨hq, he⟩ := hv
    cases he
    exact hq
  | row key i =>
    obtain ⟨s, hs, rfl⟩ := Option.map_eq_some_iff.1 hv
    refine ⟨h.tables key s hs, ?_⟩
    rintro col hcol ⟨key', s', hs', ht, hlen⟩
    -- a table is kept for one key, and its columns up to the length are counted
    obtain rfl := h.once key' key s' s hs' hs ht
    rw [hs] at hs'
    cases hs'
    exact Nat.not_lt.2 hlen hcol

theorem push_grows (hv : Held c w v) (hr : r < w.nextList) (htakes : c.takes r v) :
    Grows c w (w.setList r (w.lists r ++ [v])) ∧ Sound c (w.setList r (w.lists r ++ [v])) := by
  refine ⟨setList_grows (.inr (prefix_append _ _)), h.setList ?_ ?_⟩
  · intro u hu
    rcases mem_append.1 hu with hu | hu
    · exact h.closed r hr u hu
    · rw [mem_singleton.1 hu]
      exact hv
  · intro hlayer u hu
    rcases mem_append.1 hu with hu | hu
    · exact h.layered r hlayer u hu
    rw [mem_singleton.1 hu]
    cases v with
    | list q => exact ⟨q, rfl⟩
    | none | row _ | int _ | obj _ => exact absurd hlayer (of_decide_eq_true htakes)

theorem setPointers_grows {p : Ref} (hp : c.chunkPtrsNpu = some p) (hl : ∀ v ∈ l, Held c w v) :
    Grows c w (w.setList p l) ∧ Sound c (w.setList p l) := by
  have hp : p ∈ c.pointers := mem_pointers.2 hp
  exact ⟨setList_grows (.inl hp), h.setList hl fun hlayer => absurd hlayer (pointers_apart hp).2⟩

/-! ## Steps on tables -/

/-- Lists and what they hold stay where only tables change. -/
theorem Sound.of_tables (hw : Grows c w w') (hlists : w'.lists = w.lists)
    (hnext : w'.nextList = w.nextList)
    (htables : ∀ key s, w'.tables key = some s → s.table < w'.nextTable)
    (honce : ∀ key key' s s', w'.tables key = some s → w'.tables key' = some s' →
      s.table = s'.table → key = key') :
    Sound c w' where
  allocated r hr := by
    rw [hnext]
    exact h.allocated r hr
  closed r hr v hv := by
    rw [hnext] at hr
    rw [hlists] at hv
    exact (h.closed r hr v hv).mono hw
  layered r hr v hv := by
    rw [hlists] at hv
    exact h.layered r hr v hv
  tables := htables
  once := honce

theorem addTable_grows (key : TableKey) (length : Nat) (content : Nat → Nat → Int) :
    Grows c w (w.addTable key length content) ∧ Sound c (w.addTable key length content) := by
  have htables : ∀ k s, (w.addTable key length content).tables k = some s →
      (k = key ∧ s.table = w.nextTable) ∨ w.tables k = some s := by
    intro k s hs
    simp only [World.addTable, update_apply] at hs
    split at hs
    · next hk =>
      cases hs
      exact .inl ⟨hk, rfl⟩
    · exact .inr hs
  have hw : Grows c w (w.addTable key length content) := by
    refine ⟨fun _ _ _ => prefix_rfl, Nat.le_refl _, Nat.le_succ _, ?_, ?_⟩
    · intro t ht i col _
      show update w.mem w.nextTable content t i col = _
      rw [update_of_ne (Nat.ne_of_lt ht)]
    · rintro t ht col ⟨k, s, hs, hst, hlen⟩
      rcases htables k s hs with ⟨-, he⟩ | hk
      · omega
      · exact ⟨k, s, hk, hst, hlen⟩
  refine ⟨hw, h.of_tables hw rfl rfl ?_ ?_⟩
  · intro k s hs
    show s.table < w.nextTable + 1
    rcases htables k s hs with ⟨-, he⟩ | hk
    · omega
    · exact Nat.lt_succ_of_lt (h.tables k s hk)
  · intro k k' s1 s2 h1 h2 he
    rcases htables k s1 h1 with ⟨hk, he1⟩ | hk <;> rcases htables k' s2 h2 with ⟨hk', he2⟩ | hk'
    · rw [hk, hk']
    · have := h.tables k' s2 hk'
      omega
    · have := h.tables k s1 hk
      omega
    · exact h.once k k' s1 s2 hk hk' he

theorem writeSuffix_grows {key : TableKey} {s : TableState} (hs : w.tables key = some s)
    (staged : List (List Int)) :
    Grows c w (w.writeSuffix s staged) ∧ Sound c (w.writeSuffix s staged) := by
  have hw : Grows c w (w.writeSuffix s staged) := by
    refine ⟨fun _ _ _ => prefix_rfl, Nat.le_refl _, Nat.le_refl _, ?_, fun _ _ _ h => h⟩
    intro t _ i col hcol
    refine if_neg ?_
    rintro ⟨rfl, hlen⟩
    exact hcol ⟨key, s, hs, rfl, hlen⟩
  exact ⟨hw, h.of_tables hw rfl rfl h.tables h.once⟩

theorem setLength_grows {key : TableKey} {s : TableState} (hs : w.tables key = some s)
    {length : Nat} (hlen : s.length ≤ length) :
    Grows c w (w.setLength key s length) ∧ Sound c (w.setLength key s length) := by
  -- each entry was there before, for no more columns
  have htables : ∀ k s1, (w.setLength key s length).tables k = some s1 →
      ∃ s0, w.tables k = some s0 ∧ s0.table = s1.table ∧ s0.length ≤ s1.length := by
    intro k s1 h1
    simp only [World.setLength, update_apply] at h1
    split at h1
    · next hk =>
      cases h1
      exact ⟨s, hk ▸ hs, rfl, hlen⟩
    · exact ⟨s1, h1, rfl, Nat.le_refl _⟩
  have hw : Grows c w (w.setLength key s length) := by
    refine ⟨fun _ _ _ => prefix_rfl, Nat.le_refl _, Nat.le_refl _, fun _ _ _ _ _ => rfl, ?_⟩
    rintro t - col ⟨k, s1, h1, ht, hcol⟩
    obtain ⟨s0, h0, he, hle⟩ := htables k s1 h1
    exact ⟨k, s0, h0, he.trans ht, hle.trans hcol⟩
  refine ⟨hw, h.of_tables hw rfl rfl ?_ ?_⟩
  · intro k s1 h1
    obtain ⟨s0, h0, he, -⟩ := htables k s1 h1
    rw [← he]
    exact h.tables k s0 h0
  · intro k k' s1 s2 h1 h2 he
    obtain ⟨t1, ht1, he1, -⟩ := htables k s1 h1
    obtain ⟨t2, ht2, he2, -⟩ := htables k' s2 h2
    exact h.once k k' t1 t2 ht1 ht2 (he1.trans (he.trans he2.symm))

/-! ## A run -/

theorem Step.run_grows (step : Step ω) :
    Grows c w (step.run c w) ∧ Sound c (step.run c w) := by
  have hstay : Grows c w w ∧ Sound c w := ⟨Grows.refl c w, h⟩
  cases step with
  | newList => exact addList_grows h
  | push r x =>
    simp only [Step.run]
    split
    · next v hv =>
      split
      · next hr => exact push_grows h (Item.held h hv) hr.1 hr.2
      · exact hstay
    · exact hstay
  | setItem i x =>
    simp only [Step.run]
    split
    · next p v hp hv =>
      have hlt := h.allocated p (mem_outer.2 (.inr (.inr (mem_pointers.2 hp))))
      refine setPointers_grows h hp fun u hu => ?_
      rcases mem_or_eq_of_mem_set hu with hu | rfl
      · exact h.closed p hlt u hu
      · exact Item.held h hv
    · exact hstay
  | assign xs =>
    simp only [Step.run]
    split
    · next p l hp hl =>
      refine setPointers_grows h hp fun u hu => ?_
      have hitems : Forall₂ (fun v y => Item.value c w y = some v) l xs :=
        (forall₂_of_mapM hl).flip
      obtain ⟨x, -, hx⟩ := exists_right hitems u hu
      exact Item.held h hx
    · exact hstay
  | newTable key length content => exact addTable_grows h key length content
  | writeSuffix key staged =>
    simp only [Step.run]
    split
    · next s hs => exact writeSuffix_grows h hs staged
    · exact hstay
  | setLength key n =>
    simp only [Step.run]
    split
    · next s hs => exact setLength_grows h hs (Nat.le_add_right _ _)
    · exact hstay

theorem runSteps_grows (steps : List (Step ω)) :
    Grows c w (runSteps c w steps) ∧ Sound c (runSteps c w steps) := by
  induction steps generalizing w with
  | nil => exact ⟨Grows.refl c w, h⟩
  | cons step steps ih =>
    obtain ⟨hg, hs⟩ := step.run_grows h
    obtain ⟨hg', hs'⟩ := ih hs
    exact ⟨hg.trans hg', hs'⟩

end

end SparseAppend
