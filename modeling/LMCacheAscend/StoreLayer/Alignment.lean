import LMCacheAscend.StoreLayer.Ownership

/-!
# The lists of a call, aligned

A result that is delivered is aligned: entry `i` of each list is about chunk `i`,
and nothing in it is given back.  A call that stops earlier delivers no result;
its memory-object rows lose the objects that the clean-up gives back, and the
other lists stay as they are.
-/

namespace StoreLayer

open Lib List

/-- The lists are those of `chunks`, but for the objects `gone` in the memory-object rows. -/
structure Listed (layers : Nat) (chunks : List BatchChunk) (gone : List MemoryObj)
    (c : CacheLists) : Prop where
  length : ∀ x ∈ chunks, x.2.length = layers
  starts : c.starts = chunks.map fun x => x.1.start
  ends : c.ends = chunks.map fun x => x.1.stop
  keys : c.keys = (range layers).map fun l => chunks.map fun x => ⟨x.1.chunkHash, l⟩
  memoryObjs : c.memoryObjs =
    (range layers).map fun l => (rowOf chunks l).filter fun obj => obj ∉ gone
  tensors : ∀ l row, c.tensors[l]? = some row → row <+: views chunks l
  chunkDevPtrs : ∀ l row, c.chunkDevPtrs[l]? = some row → row <+: views chunks l
  chunkPtrs : ∀ l row, c.chunkPtrs[l]? = some (some row) → row <+: views chunks l

/-- All lists are those of the chunks, and no object of these is given back. -/
structure AlignedTo (layers : Nat) (chunks : List BatchChunk) (c : CacheLists)
    (events : List Event) : Prop where
  listed : Listed layers chunks [] c
  kept : ∀ x ∈ chunks, ∀ obj ∈ x.2, obj ∉ released events

def Aligned (c : CacheLists) (events : List Event) : Prop :=
  ∃ (layers : Nat) (chunks : List BatchChunk), AlignedTo layers chunks c events

/-- The rows of the lists of a call; one that publishes nothing makes none. -/
def listRows (cfg : Config) (env : Env) : Nat :=
  if publishedBatch cfg env = [] then 0 else env.engineLayers

theorem length_rowOf {layers : Nat} {chunks : List BatchChunk}
    (h : ∀ x ∈ chunks, x.2.length = layers) {l : Nat} (hl : l < layers) :
    (rowOf chunks l).length = chunks.length := by
  unfold rowOf
  induction chunks with
  | nil => rfl
  | cons x rest ih =>
    have hx : l < x.2.length := by
      rw [h x mem_cons_self]
      exact hl
    rw [filterMap_cons, getElem?_eq_getElem hx]
    exact congrArg (· + 1) (ih fun y hy => h y (mem_cons_of_mem x hy))

theorem Aligned.length_rows {c : CacheLists} {events : List Event} (h : Aligned c events) :
    c.ends.length = c.starts.length ∧ (∀ row ∈ c.keys, row.length = c.starts.length) ∧
      ∀ row ∈ c.memoryObjs, row.length = c.starts.length := by
  obtain ⟨layers, chunks, ⟨h, -⟩⟩ := h
  have hlen : c.starts.length = chunks.length := by rw [h.starts, length_map]
  rw [hlen]
  refine ⟨by rw [h.ends, length_map], fun row hrow => ?_, fun row hrow => ?_⟩
  · rw [h.keys] at hrow
    obtain ⟨l, -, rfl⟩ := mem_map.1 hrow
    exact length_map _
  · rw [h.memoryObjs] at hrow
    obtain ⟨l, hl, rfl⟩ := mem_map.1 hrow
    rw [filter_eq_self.2 (by simp)]
    exact length_rowOf h.length (mem_range.1 hl)

theorem mem_of_selected {cfg : Config} {env : Env} {batch : List BatchChunk} {x : BatchChunk}
    (h : x ∈ selected cfg env batch) : x ∈ batch := by
  unfold selected at h
  split at h
  · exact h
  · obtain ⟨i, -, hi⟩ := mem_filterMap.1 h
    exact mem_of_getElem? hi

theorem RowsAre.isPrefix {α : Type} {full : Nat → List α} {noted : List Nat}
    {rows : List (List α)} (h : RowsAre full noted rows) {l : Nat} {row : List α}
    (hrow : rows[l]? = some row) : row <+: full l := by
  rcases h l row hrow with rfl | ⟨-, rfl⟩
  · exact nil_prefix
  · exact prefix_refl _

theorem Published.removePending {layers : Nat} {chunks : List BatchChunk} {noted : List Nat}
    {c : CacheLists} (h : Published layers chunks noted c) {gone gone' : List MemoryObj}
    (hlen : ∀ x ∈ chunks, x.2.length = layers)
    (hg : ∀ x ∈ chunks, ∀ obj ∈ x.2, obj ∈ gone ↔ obj ∈ gone') :
    Listed layers chunks gone' (c.removePending gone) := by
  refine ⟨hlen, h.starts, h.ends, h.keys, ?_, fun l row => h.tensors.isPrefix,
    fun l row => h.chunkDevPtrs.isPrefix, fun l row hrow => ?_⟩
  · show c.memoryObjs.map _ = _
    rw [h.memoryObjs, map_map]
    refine map_congr_left fun l _ => filter_congr fun obj hobj => ?_
    obtain ⟨x, hx, hxl⟩ := mem_rowOf.1 hobj
    simp only [hg x hx obj (mem_of_getElem? hxl)]
  · refine h.chunkPtrs.isPrefix (l := l) ?_
    have hrow : c.chunkPtrs[l]? = some (some row) := hrow
    rw [getElem?_map, hrow]
    rfl

theorem Listed.empty (gone : List MemoryObj) : Listed 0 [] gone CacheLists.empty :=
  { length := fun _ h => absurd h not_mem_nil
    starts := rfl
    ends := rfl
    keys := rfl
    memoryObjs := rfl
    tensors := fun _ _ h => by cases h
    chunkDevPtrs := fun _ _ h => by cases h
    chunkPtrs := fun _ _ h => by cases h }

theorem selected_nil (cfg : Config) (env : Env) : selected cfg env [] = [] := by
  unfold selected cacheChunkIndices
  cases env.windowedSave <;> rfl

/-- However a call ends, its lists are those of the chunks that it has selected of the batch that
its allocation returned, less the objects that it has given back in the memory-object rows; a result
that is delivered is aligned. -/
theorem store_layer_lists (cfg : Config) (env : Env) :
    let s := (storeLayer cfg env Run.init).2
    let chunks := selected cfg env (publishedBatch cfg env)
    (.suspend true ∈ s.events → AlignedTo (listRows cfg env) chunks s.lists s.events) ∧
      Listed (listRows cfg env) chunks (released s.events) s.lists := by
  have h : Ends cfg env (storeLayer cfg env Run.init).2 := storeLayer_spec cfg env
  generalize (storeLayer cfg env Run.init).2 = s at h
  dsimp only
  unfold listRows
  rcases h.lists with ⟨hnone, hempty⟩ | ⟨j, gone, hj, hc, hdel⟩
  · rw [hempty, hnone, selected_nil, if_pos rfl]
    exact ⟨fun _ => ⟨Listed.empty [], fun _ h => absurd h not_mem_nil⟩, Listed.empty _⟩
  obtain ⟨rfl, rfl, hlayers, hbatch, hne, hok⟩ := hj
  rw [← hbatch, if_neg hne, ← hlayers]
  obtain ⟨noted, c, hpub, hl⟩ := hc.lists
  have hlen : ∀ x ∈ j.chunks, x.2.length = j.layers := fun x hx =>
    (hok x (mem_of_selected hx)).length
  have hgone : ∀ x ∈ j.chunks, ∀ obj ∈ x.2, obj ∈ gone ↔ obj ∈ released s.events :=
    fun x hx obj hobj => hc.gone_iff obj (mem_owned.2 ⟨x, mem_of_selected hx, hobj⟩)
  rw [hl]
  refine ⟨fun hm => ?_, hpub.removePending hlen hgone⟩
  obtain rfl := hdel hm
  refine ⟨hpub.removePending hlen fun _ _ _ _ => Iff.rfl, ?_⟩
  intro x hx obj hobj hrel
  cases (hgone x hx obj hobj).2 hrel

/-- A call that is closed when its first layer is stored. -/
def closedEnv : Env :=
  { quietEnv [newChunk 0 (.ok none)] [.yields [.launch 0] .nothing,
      .yields [.sourceDone 0, .launch 1] .nothing, .yields [.sourceDone 1] .nothing] with
    resume := fun i => if i = 1 then .error .generatorExit else .ok () }

def layerwiseConfig : Config :=
  { pageConfig with pageFirst := false, pageStore := false, merged := nofun }

/-- The object of the second layer is given back, and so is its entry; the chunk stays. -/
theorem closed_store_not_aligned :
    ¬ ∀ (cfg : Config) (env : Env), Aligned (storeLayer cfg env Run.init).2.lists
      (storeLayer cfg env Run.init).2.events := by
  intro h
  have h' := (h layerwiseConfig closedEnv).length_rows.2.2
  revert h'
  decide

end StoreLayer
