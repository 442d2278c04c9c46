import LMCacheAscend.StoreLayer.BatchRows

/-!
# The order of the puts

What an event log shows of a transfer: its suspension points, its puts and the
layers that the connector reports.  `Publishes n batch events`: each chunk's
layers are put once and in order, and only after the connector has reported
them; so are the layers of the puts, unless the batch has pages and flat chunks.
-/

namespace StoreLayer

open Lib List

/-! ## Readings of an event log -/

def Event.suspension : Event → List Bool
  | .suspend result => [result]
  | _ => []

def Event.puts : Event → List (List PutItem)
  | .put items => [items]
  | _ => []

def Event.sources : Event → List Nat
  | .copy (.sourceDone l) => [l]
  | _ => []

def Event.launches : Event → List Nat
  | .copy (.launch l) => [l]
  | _ => []

def suspensions (events : List Event) : List Bool := events.flatMap Event.suspension

def puts (events : List Event) : List (List PutItem) := events.flatMap Event.puts

def sources (events : List Event) : List Nat := events.flatMap Event.sources

def launches (events : List Event) : List Nat := events.flatMap Event.launches

variable (es : List Event) (ls : List Nat)

variable (es' : List Event) (f : Nat → List Event)

theorem suspensions_append :
    suspensions (es ++ es') = suspensions es ++ suspensions es' := flatMap_append

theorem puts_append : puts (es ++ es') = puts es ++ puts es' :=
  flatMap_append

theorem sources_append : sources (es ++ es') = sources es ++ sources es' :=
  flatMap_append

theorem launches_append : launches (es ++ es') = launches es ++ launches es' := flatMap_append

/-! Readings of a log that has a part for each layer. -/

theorem suspensions_flatMap :
    suspensions (ls.flatMap f) = ls.flatMap fun l => suspensions (f l) := flatMap_assoc

theorem puts_flatMap : puts (ls.flatMap f) = ls.flatMap fun l => puts (f l) := flatMap_assoc

theorem sources_flatMap :
    sources (ls.flatMap f) = ls.flatMap fun l => sources (f l) := flatMap_assoc

theorem launches_flatMap :
    launches (ls.flatMap f) = ls.flatMap fun l => launches (f l) := flatMap_assoc

variable {l : Nat} {item : PutItem}

theorem mem_sources {events : List Event} :
    l ∈ sources events ↔ .copy (.sourceDone l) ∈ events := by
  unfold sources
  rw [mem_flatMap]
  constructor
  · rintro ⟨e, he, hl⟩
    rcases e with _ | _ | _ | _ | (_ | l')
    case copy.sourceDone =>
      rw [mem_singleton.1 hl]
      exact he
    all_goals cases hl
  · exact fun h => ⟨_, h, mem_cons_self⟩

/-- A put takes only layers that are reported before it. -/
def Sourced : List Nat → List Event → Prop
  | _, [] => True
  | done, e :: es =>
    (∀ items ∈ e.puts, ∀ item ∈ items, ∀ l ∈ item.layers, l ∈ done) ∧
      Sourced (done ++ e.sources) es

theorem Sourced.append {es es' : List Event} {done : List Nat} (h : Sourced done es)
    (h' : Sourced (done ++ sources es) es') : Sourced done (es ++ es') := by
  induction es generalizing done with
  | nil => simpa [sources] using h'
  | cons e es ih =>
    refine ⟨h.1, ih h.2 ?_⟩
    rw [append_assoc]
    exact h'

theorem Sourced.of_no_puts {es : List Event} (h : puts es = []) (done : List Nat) :
    Sourced done es := by
  induction es generalizing done with
  | nil => trivial
  | cons e es ih =>
    unfold puts at h
    rw [flatMap_cons, append_eq_nil_iff] at h
    refine ⟨fun items hi => ?_, ih h.2 _⟩
    rw [h.1] at hi
    cases hi

theorem Sourced.before {es : List Event} {done : List Nat} (h : Sourced done es)
    {a b : List Event} {items : List PutItem} (hs : es = a ++ .put items :: b)
    (hi : item ∈ items) (hl : l ∈ item.layers) :
    l ∈ done ∨ .copy (.sourceDone l) ∈ a := by
  induction a generalizing es done with
  | nil =>
    subst hs
    exact .inl (h.1 items mem_cons_self item hi l hl)
  | cons e a ih =>
    subst hs
    rcases ih h.2 rfl with hd | hm
    · rcases mem_append.1 hd with hd | hd
      · exact .inl hd
      refine .inr ?_
      have : l ∈ sources [e] := by simpa [sources] using hd
      rw [mem_sources, mem_singleton] at this
      rw [this]
      exact mem_cons_self
    · exact .inr (mem_cons_of_mem e hm)

/-- What the log shows when objects' allocation and release are left out. -/
def Event.shown : Event → Bool
  | .alloc _ => false
  | .release _ => false
  | _ => true

def shown (events : List Event) : List Event := events.filter Event.shown

theorem shown_append : shown (es ++ es') = shown es ++ shown es' :=
  filter_append ..

theorem flatMap_shown {α : Type} (f : Event → List α) (hf : ∀ e, e.shown = false → f e = [])
    (events : List Event) : (shown events).flatMap f = events.flatMap f := by
  unfold shown
  induction events with
  | nil => rfl
  | cons e events ih =>
    cases he : e.shown with
    | true => rw [filter_cons_of_pos he, flatMap_cons, flatMap_cons, ih]
    | false =>
      rw [filter_cons_of_neg (by simp [he]), flatMap_cons, hf e he, ih]
      rfl

/-! ## Publication -/

/-- The layers that are in a put. -/
def layersIn (n : Nat) (items : List PutItem) : List Nat :=
  (range n).filter fun l => items.any fun item => decide (l ∈ item.layers)

structure Publishes (n : Nat) (batch : List BatchChunk) (events : List Event) : Prop where
  /-- The copies of a layer are submitted if there is something to store. -/
  transfers : ∀ l < n, .copy (.launch l) ∈ events ↔ batch ≠ []
  /-- What is put of a chunk is the object that it has for each of the layers. -/
  objects : ∀ item ∈ (puts events).flatten, ∃ x, batch[item.chunk]? = some x ∧
    ∀ l ∈ item.layers, x.2[l]? = some item.obj
  /-- Each chunk is put layer by layer, each layer once. -/
  once : ∀ c < batch.length, ((puts events).flatten.filter fun item => item.chunk = c).flatMap
    PutItem.layers = range n
  /-- The puts of a batch of one kind: each layer is in one of them, and they are in order. -/
  order : ∀ kind : Bool, (∀ item ∈ (puts events).flatten, item.obj.page = kind) → batch ≠ [] →
    (puts events).flatMap (layersIn n) = range n
  /-- Pages and flat chunks: first the pages with all layers, then the flat objects. -/
  mixed : ∀ item ∈ (puts events).flatten, ∀ item' ∈ (puts events).flatten,
    item.obj.page = true → item'.obj.page = false → ∃ pages flat, puts events = [pages, flat] ∧
      (∀ item ∈ pages, item.obj.page = true) ∧ (∀ item ∈ flat, item.obj.page = false) ∧
      layersIn n pages = range n ∧ layersIn n flat = range n
  sourced : ∀ a items b, events = a ++ .put items :: b → ∀ item ∈ items, ∀ l ∈ item.layers,
    .copy (.sourceDone l) ∈ a

/-! ## The puts of a batch -/

/-- The puts of a batch, as the storage gets them. -/
def batchPuts (cfg : Config) (n : Nat) (batch : List BatchChunk) : List (List PutItem) :=
  if cfg.pageFirst = false then (range n).map (layerItems batch)
  else if cfg.pageStore then
    (if pageItems n batch ≠ [] then [pageItems n batch] else []) ++
      if flatItems n batch ≠ [] then [flatItems n batch] else []
  else [(range n).flatMap (layerItems batch)]

theorem mem_layerItems {batch : List BatchChunk} :
    item ∈ layerItems batch l ↔ ∃ x, batch[item.chunk]? = some x ∧ x.2[l]? = some item.obj ∧
      item.layers = [l] := by
  unfold layerItems
  rw [mem_filterMap]
  constructor
  · rintro ⟨⟨x, c⟩, hx, hi⟩
    rw [Option.map_eq_some_iff] at hi
    obtain ⟨obj, hobj, rfl⟩ := hi
    exact ⟨x, mem_zipIdx_iff_getElem?.1 hx, hobj, rfl⟩
  · rintro ⟨x, hx, hobj, hl⟩
    refine ⟨(x, item.chunk), mem_zipIdx_iff_getElem?.2 hx, ?_⟩
    rw [Option.map_eq_some_iff]
    refine ⟨item.obj, hobj, ?_⟩
    rw [← hl]

theorem mem_pageItems' {n : Nat} {batch : List BatchChunk} :
    item ∈ pageItems n batch ↔ ∃ x, batch[item.chunk]? = some x ∧ pageOf x = some item.obj ∧
      item.layers = range n := by
  unfold pageItems
  rw [mem_filterMap]
  constructor
  · rintro ⟨⟨x, c⟩, hx, hi⟩
    refine ⟨x, ?_⟩
    rcases x with ⟨x, _ | ⟨obj, objs⟩⟩
    · cases hi
    dsimp only at hi
    split at hi
    · rename_i hp
      cases hi
      exact ⟨mem_zipIdx_iff_getElem?.1 hx, by simp [pageOf, hp], rfl⟩
    · cases hi
  · rintro ⟨x, hx, hp, hl⟩
    refine ⟨(x, item.chunk), mem_zipIdx_iff_getElem?.2 hx, ?_⟩
    rcases x with ⟨x, _ | ⟨obj, objs⟩⟩
    · cases hp
    unfold pageOf at hp
    dsimp only at hp ⊢
    split at hp
    · rename_i hpage
      cases hp
      rw [if_pos hpage, ← hl]
    · cases hp

theorem filter_chunk {f : BatchChunk × Nat → Option PutItem}
    (hf : ∀ x i item, f (x, i) = some item → item.chunk = i) (batch : List BatchChunk)
    (k c : Nat) :
    ((batch.zipIdx k).filterMap f).filter (fun item => decide (item.chunk = k + c)) =
      ((batch[c]?).bind fun x => f (x, k + c)).toList := by
  have hnone : ∀ (batch : List BatchChunk) (k j : Nat), j < k →
      ((batch.zipIdx k).filterMap f).filter (fun item => decide (item.chunk = j)) = [] := by
    intro batch k j hj
    rw [filter_eq_nil_iff]
    intro item hi
    obtain ⟨⟨x, i⟩, hx, hfx⟩ := mem_filterMap.1 hi
    have := hf x i item hfx
    have := le_snd_of_mem_zipIdx hx
    simp only [decide_eq_true_eq]
    omega
  induction batch generalizing k c with
  | nil => rfl
  | cons x batch ih =>
    rw [zipIdx_cons, filterMap_cons]
    cases c with
    | zero =>
      have htail := hnone batch (k + 1) k (Nat.lt_succ_self k)
      rcases hx : f (x, k) with _ | item
      · simp [htail, hx]
      · simp [htail, hx, hf x k item hx]
    | succ c =>
      have htail := ih (k + 1) c
      rw [show k + 1 + c = k + (c + 1) by omega] at htail
      rcases hx : f (x, k) with _ | item
      · exact htail
      have hne : item.chunk ≠ k + (c + 1) := by
        rw [hf x k item hx]
        omega
      dsimp only
      rw [filter_cons_of_neg (by simpa using hne)]
      exact htail

theorem filter_layerItems (batch : List BatchChunk) (l c : Nat) :
    (layerItems batch l).filter (fun item => decide (item.chunk = c)) =
      ((batch[c]?).bind fun x => (x.2[l]?).map fun obj => ⟨obj, c, [l]⟩).toList := by
  have := filter_chunk (f := fun x => (x.1.2[l]?).map fun obj => ⟨obj, x.2, [l]⟩)
    (fun x i item hi => by
      rw [Option.map_eq_some_iff] at hi
      obtain ⟨obj, -, rfl⟩ := hi
      rfl) batch 0 c
  rwa [Nat.zero_add] at this

theorem filter_pageItems (n : Nat) (batch : List BatchChunk) (c : Nat) :
    (pageItems n batch).filter (fun item => decide (item.chunk = c)) =
      ((batch[c]?).bind fun x => (pageOf x).map fun obj => ⟨obj, c, range n⟩).toList := by
  have := filter_chunk
    (f := fun x => (pageOf x.1).map fun obj => (⟨obj, x.2, range n⟩ : PutItem))
    (fun x i item hi => by
      rw [Option.map_eq_some_iff] at hi
      obtain ⟨obj, -, rfl⟩ := hi
      rfl) batch 0 c
  rw [Nat.zero_add] at this
  rw [← this]
  refine congrArg _ (filterMap_congr fun x _ => ?_)
  rcases x with ⟨⟨x, _ | ⟨obj, objs⟩⟩, i⟩
  · rfl
  unfold pageOf
  dsimp only
  split <;> rfl

theorem layersIn_full {n : Nat} {items : List PutItem}
    (h : ∀ l < n, ∃ item ∈ items, l ∈ item.layers) : layersIn n items = range n := by
  refine filter_eq_self.2 fun l hl => ?_
  obtain ⟨item, hi, hm⟩ := h l (mem_range.1 hl)
  exact any_eq_true.2 ⟨item, hi, decide_eq_true hm⟩

theorem layersIn_nil (n : Nat) : layersIn n [] = [] := by
  simp [layersIn]

namespace Held

variable {cfg : Config} {n : Nat} {batch : List BatchChunk}

variable {x : BatchChunk}

theorem page_eq (h : Held cfg n batch) (hx : x ∈ batch) {obj : MemoryObj}
    (ho : obj ∈ x.2) : obj.page = (pageOf x).isSome := by
  have hok := h.ok x hx
  rcases x with ⟨x, _ | ⟨o, objs⟩⟩
  · cases ho
  have hsome : (pageOf (x, o :: objs)).isSome = o.page := by
    show (if o.page then some o else none).isSome = o.page
    cases o.page <;> rfl
  rw [hsome]
  rcases hok.kind with ⟨-, p, -, hrep⟩ | ⟨hflat, -⟩
  · dsimp only at hrep ho
    have h1 : o = p := eq_of_mem_replicate (hrep ▸ mem_cons_self)
    rw [hrep] at ho
    rw [eq_of_mem_replicate ho, h1]
  · rw [hflat obj ho, hflat o mem_cons_self]

theorem get (h : Held cfg n batch) (hx : x ∈ batch) (hl : l < n) :
    ∃ obj, x.2[l]? = some obj ∧ obj.page = (pageOf x).isSome := by
  have hlt : l < x.2.length := by
    rw [(h.ok x hx).length]
    exact hl
  exact ⟨x.2[l], getElem?_eq_getElem hlt, h.page_eq hx (getElem_mem hlt)⟩

variable {c : Nat}

/-- A chunk of a layered put, which keeps all objects of the chunk or none. -/
theorem layers_of_chunk (h : Held cfg n batch) (hx : batch[c]? = some x) {f : PutItem → Bool}
    {b : Bool} (hf : ∀ l, ∀ obj ∈ x.2, f ⟨obj, c, [l]⟩ = b) :
    (((range n).flatMap fun l => (layerItems batch l).filter f).filter
        fun item => decide (item.chunk = c)).flatMap PutItem.layers =
      if b then range n else [] := by
  have hlayer : ∀ l ∈ range n, (((layerItems batch l).filter f).filter
      fun item => decide (item.chunk = c)).flatMap PutItem.layers = if b then [l] else [] := by
    intro l hl
    obtain ⟨obj, hobj, -⟩ := h.get (mem_of_getElem? hx) (mem_range.1 hl)
    have hswap : ((layerItems batch l).filter f).filter (fun item => decide (item.chunk = c)) =
        ((layerItems batch l).filter fun item => decide (item.chunk = c)).filter f := by
      rw [filter_filter, filter_filter]
      exact filter_congr fun item _ => Bool.and_comm _ _
    rw [hswap, filter_layerItems, hx, Option.bind_some, hobj]
    have hkeep := hf l obj (mem_of_getElem? hobj)
    cases b with
    | true =>
      rw [Option.map_some, Option.toList_some, filter_cons_of_pos hkeep]
      rfl
    | false =>
      rw [Option.map_some, Option.toList_some, filter_cons_of_neg (by simp [hkeep])]
      rfl
  rw [filter_flatMap, flatMap_assoc, flatMap_congr hlayer]
  cases b with
  | true => exact flatMap_singleton' _
  | false => simp

theorem layers_of_page (hx : batch[c]? = some x) :
    ((pageItems n batch).filter fun item => decide (item.chunk = c)).flatMap PutItem.layers =
      if (pageOf x).isSome then range n else [] := by
  rw [filter_pageItems, hx, Option.bind_some]
  rcases pageOf x with _ | obj
  · rfl
  · exact append_nil _

theorem layersIn_layerItems (h : Held cfg n batch) (hb : batch ≠ []) (hl : l < n) :
    layersIn n (layerItems batch l) = [l] := by
  obtain ⟨x, hx⟩ := exists_mem_of_ne_nil _ hb
  obtain ⟨c, hc, hxc⟩ := getElem_of_mem hx
  obtain ⟨obj, hobj, -⟩ := h.get hx hl
  have hany : ∀ k, ((layerItems batch l).any fun item => decide (k ∈ item.layers)) =
      decide (k = l) := by
    intro k
    rw [Bool.eq_iff_iff, any_eq_true, decide_eq_true_eq]
    constructor
    · rintro ⟨item, hi, hk⟩
      obtain ⟨-, -, -, hlay⟩ := mem_layerItems.1 hi
      rw [decide_eq_true_eq, hlay] at hk
      exact mem_singleton.1 hk
    · rintro rfl
      refine ⟨⟨obj, c, [k]⟩, mem_layerItems.2 ⟨x, ?_, hobj, rfl⟩, by simp⟩
      exact List.getElem?_eq_some_iff.2 ⟨hc, hxc⟩
  unfold layersIn
  rw [filter_congr fun k _ => hany k]
  rw [filter_eq, count_eq_one_of_mem nodup_range (mem_range.2 hl)]
  rfl

/-! ## The puts of a batch, chunk by chunk and put by put -/

theorem flatten_some {α : Type} (xs : List α) :
    (if xs ≠ [] then [xs] else [] : List (List α)).flatten = xs := by
  by_cases h : xs = [] <;> simp [h]

theorem flatMap_some (xs : List PutItem) :
    (if xs ≠ [] then [xs] else [] : List (List PutItem)).flatMap (layersIn n) = layersIn n xs := by
  by_cases h : xs = []
  · simp [h, layersIn_nil]
  · simp [h]

theorem flatten_batchPuts (cfg : Config) (n : Nat) (batch : List BatchChunk) :
    (batchPuts cfg n batch).flatten =
      if cfg.pageStore then pageItems n batch ++ flatItems n batch
      else (range n).flatMap (layerItems batch) := by
  unfold batchPuts
  cases hp : cfg.pageFirst with
  | false =>
    have hs : cfg.pageStore = false := by
      cases hs : cfg.pageStore with
      | false => rfl
      | true =>
        rw [cfg.merged hs] at hp
        cases hp
    rw [if_pos rfl, hs]
    exact flatMap_def.symm
  | true =>
    rw [if_neg (by simp)]
    cases cfg.pageStore with
    | true =>
      rw [if_pos rfl, if_pos rfl, flatten_append, flatten_some, flatten_some]
    | false => simp

theorem mem_batchPuts (h : Held cfg n batch) (hi : item ∈ (batchPuts cfg n batch).flatten) :
    ∃ x, batch[item.chunk]? = some x ∧ item.obj.page = (pageOf x).isSome ∧
      ∀ l ∈ item.layers, l < n ∧ x.2[l]? = some item.obj := by
  have hlayer : ∀ l < n, item ∈ layerItems batch l →
      ∃ x, batch[item.chunk]? = some x ∧ item.obj.page = (pageOf x).isSome ∧
        ∀ l ∈ item.layers, l < n ∧ x.2[l]? = some item.obj := by
    intro l hl hm
    obtain ⟨x, hx, hobj, hlay⟩ := mem_layerItems.1 hm
    refine ⟨x, hx, h.page_eq (mem_of_getElem? hx) (mem_of_getElem? hobj), ?_⟩
    intro k hk
    rw [hlay] at hk
    rw [mem_singleton.1 hk]
    exact ⟨hl, hobj⟩
  rw [flatten_batchPuts] at hi
  cases hs : cfg.pageStore with
  | false =>
    rw [hs, if_neg (by simp)] at hi
    obtain ⟨l, hl, hm⟩ := mem_flatMap.1 hi
    exact hlayer l (mem_range.1 hl) hm
  | true =>
    rw [hs, if_pos rfl] at hi
    rcases mem_append.1 hi with hi | hi
    · obtain ⟨x, hx, hp, hlay⟩ := mem_pageItems'.1 hi
      refine ⟨x, hx, ?_, fun k hk => ?_⟩
      · rw [hp, (pageOf_mem hp).2]
        rfl
      · rw [hlay] at hk
        have hlt := mem_range.1 hk
        exact ⟨hlt, h.getElem?_page (mem_of_getElem? hx) hp hlt⟩
    · obtain ⟨l, hl, hm⟩ := mem_flatMap.1 hi
      exact hlayer l (mem_range.1 hl) (mem_filter.1 hm).1

theorem batchPuts_once (h : Held cfg n batch) (hc : c < batch.length) :
    ((batchPuts cfg n batch).flatten.filter fun item => item.chunk = c).flatMap PutItem.layers =
      range n := by
  have hx : batch[c]? = some batch[c] := getElem?_eq_getElem hc
  rw [flatten_batchPuts]
  cases cfg.pageStore with
  | false =>
    rw [if_neg (by simp)]
    have := h.layers_of_chunk hx (f := fun _ => true) (b := true) fun _ _ _ => rfl
    simp only [filter_true, if_true] at this
    exact this
  | true =>
    rw [if_pos rfl, filter_append, flatMap_append, layers_of_page hx]
    have := h.layers_of_chunk hx (f := fun item => !item.obj.page)
      (b := !(pageOf batch[c]).isSome) fun l obj ho => by
        rw [h.page_eq (getElem_mem hc) ho]
    unfold flatItems
    rw [this]
    cases (pageOf batch[c]).isSome <;> simp

theorem layersIn_pageItems (hne : pageItems n batch ≠ []) :
    layersIn n (pageItems n batch) = range n := by
  obtain ⟨item, hi⟩ := exists_mem_of_ne_nil _ hne
  obtain ⟨-, -, -, hlay⟩ := mem_pageItems'.1 hi
  refine layersIn_full fun l hl => ⟨item, hi, ?_⟩
  rw [hlay]
  exact mem_range.2 hl

theorem mem_flatItems_iff :
    item ∈ flatItems n batch ↔ (∃ l < n, item ∈ layerItems batch l) ∧ item.obj.page = false := by
  unfold flatItems
  simp only [mem_flatMap, mem_range, mem_filter]
  constructor
  · rintro ⟨l, hl, hm, hp⟩
    exact ⟨⟨l, hl, hm⟩, by simpa using hp⟩
  · rintro ⟨⟨l, hl, hm⟩, hp⟩
    exact ⟨l, hl, hm, by simpa using hp⟩

theorem exists_layerItem (h : Held cfg n batch) (hx : batch[c]? = some x) (hl : l < n) :
    ∃ item ∈ layerItems batch l,
      l ∈ item.layers ∧ item.obj.page = (pageOf x).isSome := by
  obtain ⟨obj, hobj, hp⟩ := h.get (mem_of_getElem? hx) hl
  exact ⟨⟨obj, c, [l]⟩, mem_layerItems.2 ⟨x, hx, hobj, rfl⟩, by simp, hp⟩

theorem layersIn_flatItems (h : Held cfg n batch) (hne : flatItems n batch ≠ []) :
    layersIn n (flatItems n batch) = range n := by
  obtain ⟨item, hi⟩ := exists_mem_of_ne_nil _ hne
  obtain ⟨⟨k, -, hm⟩, hflat⟩ := mem_flatItems_iff.1 hi
  obtain ⟨x, hx, hobj, -⟩ := mem_layerItems.1 hm
  rw [h.page_eq (mem_of_getElem? hx) (mem_of_getElem? hobj)] at hflat
  refine layersIn_full fun l hl => ?_
  obtain ⟨item', hi', hl', hp⟩ := h.exists_layerItem hx hl
  exact ⟨item', mem_flatItems_iff.2 ⟨⟨l, hl, hi'⟩, hp.trans hflat⟩, hl'⟩

theorem page_or_flatItems (h : Held cfg n batch) (hb : batch ≠ []) (hn : 0 < n) :
    pageItems n batch ≠ [] ∨ flatItems n batch ≠ [] := by
  obtain ⟨x, hx⟩ := exists_mem_of_ne_nil _ hb
  obtain ⟨c, hc⟩ := getElem?_of_mem hx
  rcases hp : pageOf x with _ | obj
  · obtain ⟨item, hi, -, hpage⟩ := h.exists_layerItem hc hn
    rw [hp] at hpage
    exact .inr (ne_nil_of_mem (mem_flatItems_iff.2 ⟨⟨0, hn, hi⟩, hpage⟩))
  · exact .inl (ne_nil_of_mem (a := ⟨obj, c, range n⟩) (mem_pageItems'.2 ⟨x, hc, hp, rfl⟩))

theorem page_of_mem_pageItems (hi : item ∈ pageItems n batch) :
    item.obj.page = true := by
  obtain ⟨x, -, hp, -⟩ := mem_pageItems'.1 hi
  exact (pageOf_mem hp).2

theorem batchPuts_order (h : Held cfg n batch) (hb : batch ≠ []) {kind : Bool}
    (hk : ∀ item ∈ (batchPuts cfg n batch).flatten, item.obj.page = kind) :
    (batchPuts cfg n batch).flatMap (layersIn n) = range n := by
  rw [flatten_batchPuts] at hk
  unfold batchPuts
  cases hp : cfg.pageFirst with
  | false =>
    rw [if_pos rfl, flatMap_map]
    rw [flatMap_congr fun l hl => h.layersIn_layerItems hb (mem_range.1 hl)]
    exact flatMap_singleton' _
  | true =>
    rw [if_neg (by simp)]
    cases hs : cfg.pageStore with
    | false =>
      rw [if_neg (by simp), flatMap_cons, flatMap_nil, append_nil]
      obtain ⟨x, hx⟩ := exists_mem_of_ne_nil _ hb
      obtain ⟨c, hc⟩ := getElem?_of_mem hx
      refine layersIn_full fun l hl => ?_
      obtain ⟨item, hi, hl', -⟩ := h.exists_layerItem hc hl
      exact ⟨item, mem_flatMap.2 ⟨l, mem_range.2 hl, hi⟩, hl'⟩
    | true =>
      rw [if_pos rfl, flatMap_append, flatMap_some, flatMap_some]
      rw [hs, if_pos rfl] at hk
      rcases Nat.eq_zero_or_pos n with rfl | hn
      · rfl
      have hnot : pageItems n batch = [] ∨ flatItems n batch = [] := by
        by_contra hboth
        rw [not_or] at hboth
        obtain ⟨item, hi⟩ := exists_mem_of_ne_nil _ hboth.1
        obtain ⟨item', hi'⟩ := exists_mem_of_ne_nil _ hboth.2
        have h1 := hk item (mem_append_left _ hi)
        have h2 := hk item' (mem_append_right _ hi')
        rw [page_of_mem_pageItems hi] at h1
        rw [(mem_flatItems_iff.1 hi').2, ← h1] at h2
        cases h2
      rcases h.page_or_flatItems hb hn with hne | hne
      · rw [hnot.resolve_left hne, layersIn_pageItems hne, layersIn_nil, append_nil]
      · rw [hnot.resolve_right hne, h.layersIn_flatItems hne, layersIn_nil, nil_append]

theorem batchPuts_mixed (h : Held cfg n batch) {item item' : PutItem}
    (hi : item ∈ (batchPuts cfg n batch).flatten) (hi' : item' ∈ (batchPuts cfg n batch).flatten)
    (hp : item.obj.page = true) (hp' : item'.obj.page = false) :
    batchPuts cfg n batch = [pageItems n batch, flatItems n batch] ∧
      pageItems n batch ≠ [] ∧ flatItems n batch ≠ [] := by
  rw [flatten_batchPuts] at hi hi'
  cases hs : cfg.pageStore with
  | false =>
    rw [hs, if_neg (by simp)] at hi
    obtain ⟨l, -, hm⟩ := mem_flatMap.1 hi
    obtain ⟨x, hx, hobj, -⟩ := mem_layerItems.1 hm
    rw [h.flat_of_not_pageStore hs (mem_of_getElem? hx) (mem_of_getElem? hobj)] at hp
    cases hp
  | true =>
    rw [hs, if_pos rfl, mem_append] at hi hi'
    have hpages : pageItems n batch ≠ [] := by
      refine ne_nil_of_mem (hi.resolve_right fun hm => ?_)
      rw [(mem_flatItems_iff.1 hm).2] at hp
      cases hp
    have hflat : flatItems n batch ≠ [] := by
      refine ne_nil_of_mem (hi'.resolve_left fun hm => ?_)
      rw [page_of_mem_pageItems hm] at hp'
      cases hp'
    refine ⟨?_, hpages, hflat⟩
    unfold batchPuts
    rw [cfg.merged hs, if_neg (by simp), hs, if_pos rfl, if_pos hpages, if_pos hflat]
    rfl

end Held

end StoreLayer
