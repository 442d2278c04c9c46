import Mathlib.Data.List.Flatten
import Mathlib.Data.List.Pairwise
import LMCacheAscend.StoreLayer.Allocation

/-!
# The rows of a batch

A batch seen layer by layer: no object is in two chunks, a flat object is in one
layer only, and what a put of a layer, of the pages or of the flat objects takes
is in the batch and is taken once.
-/

namespace StoreLayer

open Lib List

/-- A batch that is held: well formed, and no object in it twice. -/
structure Held (cfg : Config) (layers : Nat) (batch : List BatchChunk) : Prop where
  ok : BatchOk cfg layers batch
  nodup : (owned batch).Nodup

variable {obj : MemoryObj}

theorem mem_rowOf {batch : List BatchChunk} {layer : Nat} :
    obj ∈ rowOf batch layer ↔ ∃ x ∈ batch, x.2[layer]? = some obj :=
  mem_filterMap

theorem mem_objs_iff {batch : List BatchChunk} :
    obj ∈ batch.flatMap Prod.snd ↔ ∃ x ∈ batch, obj ∈ x.2 := mem_flatMap

theorem map_layerItems (batch : List BatchChunk) (layer : Nat) :
    (layerItems batch layer).map PutItem.obj = rowOf batch layer := by
  unfold layerItems rowOf
  conv_rhs => rw [← zipIdx_map_fst 0 batch, filterMap_map]
  rw [map_filterMap]
  refine filterMap_congr fun x _ => ?_
  show ((x.1.2[layer]?).map _).map PutItem.obj = x.1.2[layer]?
  cases x.1.2[layer]? <;> rfl

/-- The page of a chunk. -/
def pageOf (x : BatchChunk) : Option MemoryObj :=
  match x.2 with
  | obj :: _ => if obj.page then some obj else none
  | [] => none

theorem map_pageItems (layers : Nat) (batch : List BatchChunk) :
    (pageItems layers batch).map PutItem.obj = batch.filterMap pageOf := by
  unfold pageItems
  conv_rhs => rw [← zipIdx_map_fst 0 batch, filterMap_map]
  rw [map_filterMap]
  refine filterMap_congr fun x _ => ?_
  rcases x with ⟨⟨x, _ | ⟨obj, objs⟩⟩, i⟩
  · rfl
  · show Option.map _ (if obj.page = true then _ else _) = if obj.page = true then _ else _
    split <;> rfl

theorem map_flatItems (layers : Nat) (batch : List BatchChunk) :
    (flatItems layers batch).map PutItem.obj =
      (range layers).flatMap fun l => (rowOf batch l).filter fun obj => !obj.page := by
  unfold flatItems
  rw [map_flatMap]
  refine flatMap_congr fun l _ => ?_
  rw [← map_layerItems, filter_map]
  rfl

namespace Held

variable {cfg : Config} {layers : Nat} {batch : List BatchChunk}

theorem apart (h : Held cfg layers batch) :
    batch.Pairwise fun x y => ∀ obj, obj ∈ x.2 → obj ∉ y.2 := by
  refine ((nodup_flatMap.1 h.nodup).2).imp fun {x y} hxy obj hx hy => ?_
  exact hxy (mem_uniqueObjs.2 hx) (mem_uniqueObjs.2 hy)

variable {x : BatchChunk} {l : Nat}

section

variable (h : Held cfg layers batch)
include h

theorem same_chunk {y : BatchChunk} (hx : x ∈ batch) (hy : y ∈ batch) (hox : obj ∈ x.2)
    (hoy : obj ∈ y.2) : x = y := by
  by_contra hne
  have hsymm : Std.Symm fun x y : BatchChunk => ∀ obj, obj ∈ x.2 → obj ∉ y.2 :=
    ⟨fun a b hab obj hb ha => hab obj ha hb⟩
  exact h.apart.forall hx hy hne obj hox hoy

theorem nodup_row (layer : Nat) : (rowOf batch layer).Nodup := by
  unfold rowOf List.Nodup
  rw [pairwise_filterMap]
  refine h.apart.imp fun {x y} hxy a ha b hb hab => ?_
  subst hab
  exact hxy a (mem_of_getElem? ha) (mem_of_getElem? hb)

theorem row_inj {l' : Nat} (hl : obj ∈ rowOf batch l) (hl' : obj ∈ rowOf batch l')
    (hflat : obj.page = false) : l = l' := by
  obtain ⟨x, hx, hxl⟩ := mem_rowOf.1 hl
  obtain ⟨y, hy, hyl⟩ := mem_rowOf.1 hl'
  obtain rfl := h.same_chunk hx hy (mem_of_getElem? hxl) (mem_of_getElem? hyl)
  rcases (h.ok x hx).kind with ⟨-, p, hp, hrep⟩ | ⟨-, hnd⟩
  · have := mem_of_getElem? hxl
    rw [hrep] at this
    rw [eq_of_mem_replicate this, hp] at hflat
    cases hflat
  · have hlt := lt_of_getElem? hxl
    exact (getElem?_inj hlt hnd).1 (hxl.trans hyl.symm)

theorem flat_of_not_pageStore (hs : cfg.pageStore = false) (hx : x ∈ batch) (ho : obj ∈ x.2) :
    obj.page = false := by
  rcases (h.ok x hx).kind with ⟨hs', -⟩ | ⟨hflat, -⟩
  · rw [hs] at hs'
    cases hs'
  · exact hflat obj ho

theorem flat_of_mem_row (hs : cfg.pageStore = false) (ho : obj ∈ rowOf batch l) :
    obj.page = false := by
  obtain ⟨x, hx, hxl⟩ := mem_rowOf.1 ho
  exact h.flat_of_not_pageStore hs hx (mem_of_getElem? hxl)

/-- Every object of the batch is in the row of a layer. -/
theorem mem_some_row (ho : obj ∈ owned batch) :
    ∃ l < layers, obj ∈ rowOf batch l := by
  obtain ⟨x, hx, hox⟩ := mem_owned.1 ho
  obtain ⟨l, hl, hxl⟩ := getElem_of_mem hox
  refine ⟨l, ?_, mem_rowOf.2 ⟨x, hx, List.getElem?_eq_some_iff.2 ⟨hl, hxl⟩⟩⟩
  rw [← (h.ok x hx).length]
  exact hl

end

theorem owned_of_mem_row (ho : obj ∈ rowOf batch l) :
    obj ∈ owned batch := by
  obtain ⟨x, hx, hxl⟩ := mem_rowOf.1 ho
  exact mem_owned.2 ⟨x, hx, mem_of_getElem? hxl⟩

theorem nodup_rows (h : Held cfg layers batch) (f : MemoryObj → Bool)
    (hf : ∀ l, ∀ obj ∈ rowOf batch l, f obj = true → obj.page = false) :
    ((range layers).flatMap fun l => (rowOf batch l).filter f).Nodup := by
  rw [nodup_flatMap]
  refine ⟨fun l _ => (h.nodup_row l).filter _, ?_⟩
  refine List.Pairwise.imp (R := (· ≠ ·)) (fun {l l'} hne obj hl hl' => ?_) nodup_range
  obtain ⟨hl, hfl⟩ := mem_filter.1 hl
  exact hne (h.row_inj hl (mem_filter.1 hl').1 (hf l obj hl hfl))

/-! ## What is put -/

theorem nodup_pageItems (h : Held cfg layers batch) :
    ((pageItems layers batch).map PutItem.obj).Nodup := by
  rw [map_pageItems, filterMap_eq_flatMap_toList]
  refine Nodup.sublist (Sublist.flatMap_right batch fun x _ => ?_) h.nodup
  unfold pageOf
  rcases x with ⟨x, _ | ⟨obj, objs⟩⟩
  · exact nil_sublist _
  · cases hp : obj.page with
    | false => simp [hp]
    | true => simp [hp, uniqueObjs]

theorem mem_pageItems :
    obj ∈ (pageItems layers batch).map PutItem.obj ↔ ∃ x ∈ batch, pageOf x = some obj := by
  rw [map_pageItems, mem_filterMap]

theorem pageOf_mem (h : pageOf x = some obj) :
    obj ∈ x.2 ∧ obj.page = true := by
  unfold pageOf at h
  split at h
  · split at h
    · cases h
      exact ⟨by simp_all, by assumption⟩
    · cases h
  · cases h

theorem getElem?_page (h : Held cfg layers batch) (hx : x ∈ batch) (hp : pageOf x = some obj)
    (hl : l < layers) : x.2[l]? = some obj := by
  obtain ⟨hmem, hpage⟩ := pageOf_mem hp
  rcases (h.ok x hx).kind with ⟨-, p, -, hrep⟩ | ⟨hflat, -⟩
  · rw [hrep] at hmem ⊢
    rw [eq_of_mem_replicate hmem, getElem?_replicate, if_pos hl]
  · rw [hflat obj hmem] at hpage
    cases hpage

theorem nodup_flatItems (h : Held cfg layers batch) :
    ((flatItems layers batch).map PutItem.obj).Nodup := by
  rw [map_flatItems]
  refine h.nodup_rows _ fun l obj _ hf => ?_
  simpa using hf

theorem mem_flatItems :
    obj ∈ (flatItems layers batch).map PutItem.obj ↔
      (∃ l < layers, obj ∈ rowOf batch l) ∧ obj.page = false := by
  rw [map_flatItems]
  simp only [mem_flatMap, mem_range, mem_filter]
  constructor
  · rintro ⟨l, hl, hm, hp⟩
    exact ⟨⟨l, hl, hm⟩, by simpa using hp⟩
  · rintro ⟨⟨l, hl, hm⟩, hp⟩
    exact ⟨l, hl, hm, by simpa using hp⟩

theorem page_or_flat (h : Held cfg layers batch) (ho : obj ∈ owned batch) :
    obj ∈ (pageItems layers batch).map PutItem.obj ∨
      obj ∈ (flatItems layers batch).map PutItem.obj := by
  cases hp : obj.page with
  | false => exact .inr (mem_flatItems.2 ⟨h.mem_some_row ho, hp⟩)
  | true =>
    refine .inl (mem_pageItems.2 ?_)
    obtain ⟨x, hx, hox⟩ := mem_owned.1 ho
    refine ⟨x, hx, ?_⟩
    rcases (h.ok x hx).kind with ⟨-, p, hpage, hrep⟩ | ⟨hflat, -⟩
    · unfold pageOf
      rcases hobjs : x.2 with _ | ⟨obj', objs⟩
      · rw [hobjs] at hox
        cases hox
      rw [hrep] at hox
      have hmem : obj' ∈ replicate layers p := hrep ▸ hobjs ▸ mem_cons_self
      obtain rfl := eq_of_mem_replicate hox
      obtain rfl := eq_of_mem_replicate hmem
      simp [hp]
    · rw [hflat obj hox] at hp
      cases hp

theorem map_allItems (layers : Nat) (batch : List BatchChunk) :
    ((range layers).flatMap (layerItems batch)).map PutItem.obj =
      (range layers).flatMap (rowOf batch) := by
  rw [map_flatMap]
  exact flatMap_congr fun l _ => map_layerItems batch l

theorem nodup_allItems (h : Held cfg layers batch) (hs : cfg.pageStore = false) :
    (((range layers).flatMap (layerItems batch)).map PutItem.obj).Nodup := by
  have := h.nodup_rows (fun _ => true) fun l obj ho _ => h.flat_of_mem_row hs ho
  simp only [filter_true] at this
  rw [map_allItems]
  exact this

theorem mem_allItems (h : Held cfg layers batch) :
    obj ∈ ((range layers).flatMap (layerItems batch)).map PutItem.obj ↔
      obj ∈ owned batch := by
  rw [map_allItems]
  simp only [mem_flatMap, mem_range]
  constructor
  · rintro ⟨l, -, hl⟩
    exact owned_of_mem_row hl
  · exact h.mem_some_row

end Held

end StoreLayer
