import LMCacheAscend.StoreLayer.BatchRows

/-!
# Publication in the result lists

The chunks are published at once, before the transfer; the pointers and tensors
of a layer follow when its copies are done.  `Published layers chunks noted c`:
the lists `c` hold `chunks`, and the layers `noted` have their pointers.
-/

namespace StoreLayer

open Lib List

/-- The parts of the chunks that belong to a layer. -/
def views (chunks : List BatchChunk) (layer : Nat) : List LayerView :=
  (rowOf chunks layer).map fun obj => ⟨obj, layer⟩

/-- A row is there for a noted layer only, and then it is full. -/
def RowsAre {α : Type} (full : Nat → List α) (noted : List Nat) (rows : List (List α)) : Prop :=
  ∀ l row, rows[l]? = some row → row = [] ∨ (l ∈ noted ∧ row = full l)

namespace RowsAre

variable {α : Type} {full : Nat → List α} {noted noted' : List Nat} {rows : List (List α)}

theorem mono (h : RowsAre full noted rows) (hs : ∀ l ∈ noted, l ∈ noted') :
    RowsAre full noted' rows :=
  fun l row hrow => (h l row hrow).imp_right fun h' => ⟨hs l h'.1, h'.2⟩

theorem replicate (layers : Nat) : RowsAre full noted (replicate layers []) := by
  intro l row hrow
  exact .inl (eq_of_mem_replicate (mem_of_getElem? hrow))

theorem openRows (h : RowsAre full noted rows) (layers : Nat) :
    RowsAre full noted (CacheLists.openRows layers [] rows) := by
  unfold CacheLists.openRows
  split
  · exact replicate layers
  · exact h

theorem padRows (h : RowsAre full noted rows) (layer : Nat) :
    RowsAre full noted (CacheLists.padRows layer [] rows) := by
  intro l row hrow
  unfold CacheLists.padRows at hrow
  rw [getElem?_append] at hrow
  split at hrow
  · exact h l row hrow
  · exact .inl (eq_of_mem_replicate (mem_of_getElem? hrow))

theorem extendRow (h : RowsAre full noted rows) {layer : Nat} (hl : layer ∉ noted) :
    RowsAre full (noted ++ [layer]) (CacheLists.extendRow rows layer (full layer)) := by
  intro l row hrow
  unfold CacheLists.extendRow at hrow
  rw [getElem?_modify] at hrow
  rcases hold : rows[l]? with _ | old
  · rw [hold] at hrow
    cases hrow
  rw [hold] at hrow
  cases hrow
  dsimp only
  by_cases heq : layer = l
  · subst heq
    rw [if_pos rfl]
    rcases h layer old hold with rfl | ⟨hm, -⟩
    · exact .inr ⟨by simp, rfl⟩
    · exact absurd hm hl
  · rw [if_neg heq]
    exact (h l old hold).imp_right fun h' => ⟨mem_append_left _ h'.1, h'.2⟩

end RowsAre

structure Published (layers : Nat) (chunks : List BatchChunk) (noted : List Nat)
    (c : CacheLists) : Prop where
  starts : c.starts = chunks.map fun x => x.1.start
  ends : c.ends = chunks.map fun x => x.1.stop
  keys : c.keys = (range layers).map fun l => chunks.map fun x => ⟨x.1.chunkHash, l⟩
  memoryObjs : c.memoryObjs = (range layers).map (rowOf chunks)
  tensors : RowsAre (views chunks) noted c.tensors
  chunkDevPtrs : RowsAre (views chunks) noted c.chunkDevPtrs
  chunkPtrs : RowsAre (views chunks) noted (c.chunkPtrs.map fun row => row.getD [])

theorem map_padRows_openRows (layers layer : Nat) (rows : List (Option (List LayerView))) :
    (CacheLists.padRows layer none (CacheLists.openRows layers none rows)).map
        (fun row => row.getD []) =
      CacheLists.padRows layer []
        (CacheLists.openRows layers [] (rows.map fun row => row.getD [])) := by
  have hopen : (CacheLists.openRows layers none rows).map (fun row => row.getD []) =
      CacheLists.openRows layers [] (rows.map fun row => row.getD []) := by
    unfold CacheLists.openRows
    cases rows with
    | nil | cons => simp
  rw [← hopen]
  unfold CacheLists.padRows
  rw [map_append, map_replicate, length_map]
  rfl

theorem map_modify_row (rows : List (Option (List LayerView))) (layer : Nat)
    (new : List LayerView) :
    (rows.modify layer fun row => some (row.getD [] ++ new)).map (fun row => row.getD []) =
      CacheLists.extendRow (rows.map fun row => row.getD []) layer new := by
  unfold CacheLists.extendRow
  refine ext_getElem? fun l => ?_
  rw [getElem?_map, getElem?_modify, getElem?_modify, getElem?_map]
  rcases rows[l]? with _ | row
  · rfl
  show some _ = some _
  by_cases h : layer = l <;> simp [h]

namespace Published

variable {layers : Nat} {chunks : List BatchChunk} {noted : List Nat} {c : CacheLists}

theorem appendPointers (h : Published layers chunks noted c) {layer : Nat} (hl : layer ∉ noted) :
    RowsAre (views chunks) (noted ++ [layer])
        (c.appendPointers layers layer (views chunks layer)).chunkDevPtrs ∧
      RowsAre (views chunks) (noted ++ [layer])
        ((c.appendPointers layers layer (views chunks layer)).chunkPtrs.map
          fun row => row.getD []) := by
  unfold CacheLists.appendPointers
  split
  · have hmono : ∀ l ∈ noted, l ∈ noted ++ [layer] := fun l hm => mem_append_left _ hm
    exact ⟨h.chunkDevPtrs.mono hmono, h.chunkPtrs.mono hmono⟩
  refine ⟨((h.chunkDevPtrs.openRows layers).padRows layer).extendRow hl, ?_⟩
  dsimp only
  rw [map_modify_row, map_padRows_openRows]
  exact ((h.chunkPtrs.openRows layers).padRows layer).extendRow hl

theorem append (h : Published layers chunks noted c) {layer : Nat} (hl : layer ∉ noted) :
    Published layers chunks (noted ++ [layer])
      (let c' := c.appendPointers layers layer (views chunks layer)
      if c.keepsTensors (rowOf chunks layer) then c'.appendTensors layer (views chunks layer)
      else c') := by
  have hsame : ∀ c' : CacheLists, c' = c.appendPointers layers layer (views chunks layer) →
      c'.starts = c.starts ∧ c'.ends = c.ends ∧ c'.keys = c.keys ∧
        c'.memoryObjs = c.memoryObjs ∧ c'.tensors = c.tensors := by
    rintro c' rfl
    unfold CacheLists.appendPointers
    split <;> exact ⟨rfl, rfl, rfl, rfl, rfl⟩
  obtain ⟨h1, h2, h3, h4, h5⟩ := hsame _ rfl
  obtain ⟨hdev, hptrs⟩ := h.appendPointers hl
  dsimp only
  split
  · refine ⟨h1.trans h.starts, h2.trans h.ends, h3.trans h.keys, h4.trans h.memoryObjs, ?_, hdev,
      hptrs⟩
    show RowsAre _ _ (CacheLists.extendRow (CacheLists.padRows layer [] _) layer _)
    rw [h5]
    exact (h.tensors.padRows layer).extendRow hl
  · refine ⟨h1.trans h.starts, h2.trans h.ends, h3.trans h.keys, h4.trans h.memoryObjs, ?_, hdev,
      hptrs⟩
    rw [h5]
    exact h.tensors.mono fun l hm => mem_append_left _ hm

end Published

/-! ## The publication of the chunks -/

/-- The lists of a new result, with these chunks. -/
def freshLists (layers : Nat) (chunks : List BatchChunk) : CacheLists :=
  { CacheLists.empty with
    starts := chunks.map fun x => x.1.start
    ends := chunks.map fun x => x.1.stop
    keys := (range layers).map fun l => chunks.map fun x => ⟨x.1.chunkHash, l⟩
    memoryObjs := (range layers).map (rowOf chunks)
    tensors := replicate layers [] }

theorem freshLists_published (layers : Nat) (chunks : List BatchChunk) :
    Published layers chunks [] (freshLists layers chunks) :=
  { starts := rfl
    ends := rfl
    keys := rfl
    memoryObjs := rfl
    tensors := RowsAre.replicate layers
    chunkDevPtrs := fun _ _ h => by cases h
    chunkPtrs := fun _ _ h => by cases h }

theorem zipWith_new_rows {α : Type} (layers : Nat) (f : Nat → List α) :
    (replicate layers []).zipWith (· ++ ·) ((range layers).map f) =
      (range layers).map f := by
  refine ext_getElem? fun l => ?_
  rw [getElem?_zipWith, getElem?_replicate, getElem?_map]
  by_cases hl : l < layers
  · rw [if_pos hl, getElem?_range hl]
    rfl
  · rw [if_neg hl, getElem?_eq_none (by simpa using hl)]
    rfl

theorem publishChunks_spec (cfg : Config) (env : Env) (layers : Nat) (batch : List BatchChunk)
    {s : Run} (h : s.lists = CacheLists.empty) :
    wp (publishChunks cfg env layers batch)
      (post (fun _ s' => s' = { s with lists := freshLists layers (selected cfg env batch) })
        fun _ _ => False) s := by
  generalize hc : selected cfg env batch = chunks
  have htrunc : ∀ starts ends : List Nat,
      CacheLists.empty.truncateForSuccessor starts ends = CacheLists.empty := by
    intro starts ends
    have hnone : CacheLists.replaceAt [] [] starts ends = none := by
      unfold CacheLists.replaceAt
      rw [findSome?_eq_none_iff]
      intro new _
      rfl
    unfold CacheLists.truncateForSuccessor
    simp only [CacheLists.empty, hnone]
  have happend : wp (appendCacheChunks layers chunks)
      (post (fun _ s' => s' = { s with lists := freshLists layers chunks }) fun _ _ => False) s := by
    unfold appendCacheChunks setLists
    simp only [wp_bind, wp_modify, wp_get, post_ok, h]
    rw [if_neg (by simp [CacheLists.empty, CacheLists.openRows])]
    simp only [wp_bind, wp_modify, wp_get, post_ok]
    rw [if_neg (by simp [CacheLists.empty, CacheLists.openRows])]
    simp only [wp_modify, post_ok]
    simp only [CacheLists.empty, CacheLists.openRows, if_true, nil_append, freshLists,
      zipWith_new_rows]
  unfold publishChunks setLists
  rw [hc]
  cases env.windowedSave with
  | false => exact happend
  | true =>
    simp only [if_true, wp_bind, wp_modify, post_ok]
    rw [h, htrunc, ← h]
    exact happend

end StoreLayer
