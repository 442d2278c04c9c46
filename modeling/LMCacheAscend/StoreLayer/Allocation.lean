import LMCacheAscend.StoreLayer.Books

/-!
# The allocation of a batch

What the allocation has to show for each answer of the allocators: the objects
of the batch, one page or one flat object for each layer a chunk, and those that
an exception leaves behind.  `Standing` counts them from the answers alone.
-/

namespace StoreLayer

open Lib List

/-! ## Objects of a batch -/

@[simp] theorem mem_uniqueObjs {l : List MemoryObj} {x : MemoryObj} :
    x ∈ uniqueObjs l ↔ x ∈ l := by
  induction l with
  | nil => rfl
  | cons a l ih =>
    simp only [uniqueObjs, mem_cons, mem_filter, ih, decide_eq_true_eq]
    by_cases h : x = a <;> simp [h]

theorem nodup_uniqueObjs (l : List MemoryObj) : (uniqueObjs l).Nodup := by
  induction l with
  | nil => exact nodup_nil
  | cons a l ih =>
    rw [uniqueObjs, nodup_cons]
    refine ⟨fun h => ?_, ih.filter _⟩
    simpa using (mem_filter.1 h).2

theorem uniqueObjs_of_nodup {l : List MemoryObj} (h : l.Nodup) : uniqueObjs l = l := by
  induction l with
  | nil => rfl
  | cons a l ih =>
    rw [nodup_cons] at h
    rw [uniqueObjs, ih h.2, filter_eq_self.2]
    intro b hb
    rw [decide_eq_true_eq]
    rintro rfl
    exact h.1 hb

theorem uniqueObjs_replicate (n : Nat) (p : MemoryObj) :
    uniqueObjs (replicate n p) = if n = 0 then [] else [p] := by
  induction n with
  | zero => rfl
  | succ n ih =>
    rw [replicate_succ, uniqueObjs, ih]
    split <;> simp

/-- The objects of a batch, each once. -/
def owned (batch : List BatchChunk) : List MemoryObj := batch.flatMap fun x => uniqueObjs x.2

theorem mem_owned {batch : List BatchChunk} {obj : MemoryObj} :
    obj ∈ owned batch ↔ ∃ x ∈ batch, obj ∈ x.2 := by
  simp [owned]

theorem owned_append (batch batch' : List BatchChunk) :
    owned (batch ++ batch') = owned batch ++ owned batch' := flatMap_append

theorem owned_singleton (x : BatchChunk) : owned [x] = uniqueObjs x.2 := append_nil _

theorem times_uniqueObjs {batch : List BatchChunk} (h : (owned batch).Nodup) (x : MemoryObj) :
    times (uniqueObjs (batch.flatMap Prod.snd)) x = times (owned batch) x := by
  refine times_perm ((perm_ext_iff_of_nodup (nodup_uniqueObjs _) h).2 fun obj => ?_) x
  rw [mem_uniqueObjs, mem_owned, mem_flatMap]

/-- A chunk has one object for each layer: a page, again and again, or flat objects. -/
structure ChunkOk (cfg : Config) (layers : Nat) (x : BatchChunk) : Prop where
  length : x.2.length = layers
  kind : (cfg.pageStore = true ∧ ∃ p : MemoryObj, p.page = true ∧ x.2 = replicate layers p) ∨
    ((∀ obj ∈ x.2, obj.page = false) ∧ x.2.Nodup)

def BatchOk (cfg : Config) (layers : Nat) (batch : List BatchChunk) : Prop :=
  ∀ x ∈ batch, ChunkOk cfg layers x

theorem BatchOk.nil (cfg : Config) (layers : Nat) : BatchOk cfg layers [] :=
  fun _ h => absurd h not_mem_nil

theorem BatchOk.append {cfg : Config} {layers : Nat} {batch : List BatchChunk} {x : BatchChunk}
    (h : BatchOk cfg layers batch) (hx : ChunkOk cfg layers x) :
    BatchOk cfg layers (batch ++ [x]) := by
  intro y hy
  rcases mem_append.1 hy with hy | hy
  · exact h y hy
  · rw [mem_singleton.1 hy]
    exact hx

/-! ## Counts -/

/-- How many objects are left behind, and how many the batch holds. -/
structure Standing where
  left : Nat
  held : Nat
deriving DecidableEq, Repr

namespace Standing

/-- An exception: nobody gives back what the batch holds. -/
def abandon (b : Standing) : Standing := ⟨b.left + b.held, 0⟩

def lose (b : Standing) (count : Nat) : Standing := ⟨b.left + count, b.held⟩

def hold (b : Standing) (count : Nat) : Standing := ⟨b.left, b.held + count⟩

/-- Pages that are repeated for each layer. -/
def pages (b : Standing) (layers count : Nat) : Standing :=
  if layers = 0 then b.lose count else b.hold count

end Standing

/-- The count of `singlePage`: whether there is a page, and whether the suffix is flat then. -/
def pageAnswer (cfg : Config) (legacySuffix : Bool) (x : Candidate) : Option (Bool × Bool) :=
  if cfg.pageStore = true ∧ legacySuffix = false then
    match x.page with
    | .error _ => none
    | .ok none => some (false, true)
    | .ok (some 1) => some (true, legacySuffix)
    | .ok (some _) => none
  else some (false, legacySuffix)

/-- The count of `shapeObjs`; an exception loses objects that are complete. -/
def shapesAnswer (layers : Nat) : Nat → List Answer → Except Nat Nat
  | got, [] => .ok got
  | got, .error _ :: _ => .error (if got = layers then got else 0)
  | got, .ok none :: _ => .ok got
  | got, .ok (some count) :: rest => shapesAnswer layers (got + count) rest

/-- The count of `flatObjs`. -/
def flatAnswer (cfg : Config) (layers : Nat) (x : Candidate) : Except Nat (Option Nat) :=
  if cfg.mixedIndexer then
    match shapesAnswer layers 0 x.shapes with
    | .error lost => .error lost
    | .ok got => .ok (if got = layers then some got else none)
  else
    match x.flat with
    | .error _ => .error 0
    | .ok count => .ok count

/-- The count of the loop over the pending chunks. -/
def chunksStanding (cfg : Config) (layers : Nat) : Bool → Standing → List Candidate → Standing
  | _, b, [] => b
  | legacySuffix, b, x :: rest =>
    match pageAnswer cfg legacySuffix x with
    | none => b.abandon
    | some (true, legacySuffix) => chunksStanding cfg layers legacySuffix (b.pages layers 1) rest
    | some (false, legacySuffix) =>
      match (if legacySuffix then x.storedLegacy else .ok false) with
      | .error _ => b.abandon
      | .ok true => chunksStanding cfg layers legacySuffix b rest
      | .ok false =>
        match flatAnswer cfg layers x with
        | .error lost => (b.lose lost).abandon
        | .ok none => if cfg.forceLayerwise then ⟨b.left, 0⟩ else b
        | .ok (some count) =>
          if count ≠ layers then (b.lose count).abandon
          else chunksStanding cfg layers legacySuffix (b.hold count) rest

/-- The count of the allocation. -/
def batchStanding (cfg : Config) (env : Env) (layers : Nat) (pending : List Candidate) :
    Standing :=
  if cfg.pageStore = true ∧ pending.length ≠ 0 then
    match env.bulk with
    | .error _ => ⟨0, 0⟩
    | .ok none => chunksStanding cfg layers false ⟨0, 0⟩ pending
    | .ok (some count) =>
      if count ≠ pending.length then ⟨0, 0⟩ else (⟨0, 0⟩ : Standing).pages layers count
  else chunksStanding cfg layers false ⟨0, 0⟩ pending

/-! ## Single steps -/

def newObjs (s : Run) (page : Bool) (count : Nat) : List MemoryObj :=
  (range count).map fun i => ⟨s.nextId + i, page⟩

@[simp] theorem length_newObjs (s : Run) (page : Bool) (count : Nat) :
    (newObjs s page count).length = count := by
  simp [newObjs]

theorem page_of_mem_newObjs {s : Run} {page : Bool} {count : Nat} {obj : MemoryObj}
    (h : obj ∈ newObjs s page count) : obj.page = page := by
  obtain ⟨i, -, rfl⟩ := mem_map.1 h
  rfl

def Run.allocate (s : Run) (page : Bool) (count : Nat) : Run :=
  { s with nextId := s.nextId + count, events := s.events ++ (newObjs s page count).map .alloc }

variable {held : List MemoryObj}

theorem Accounts.newObjs {s : Run} {left : Nat} (h : Accounts s left held) (page : Bool)
    (count : Nat) : Accounts (s.allocate page count) left (held ++ newObjs s page count) :=
  h.allocate rfl rfl rfl

theorem wp_answer {page : Bool} {a : Answer} {Q : Except Exc (Option (List MemoryObj)) → Run → Prop}
    {s : Run} :
    wp (answer page a) Q s ↔ match a with
      | .error e => Q (.error e) s
      | .ok none => Q (.ok none) s
      | .ok (some count) => Q (.ok (some (newObjs s page count))) (s.allocate page count) := by
  unfold answer
  rw [wp_bind, wp_call]
  rcases a with e | _ | count <;> rfl

theorem release_spec {objs : List MemoryObj} {s : Run} {left : Nat} {held : List MemoryObj}
    (h : Accounts s left (held ++ objs)) :
    wp (release objs) (post (fun _ s' => Accounts s' left held) fun _ _ => False) s :=
  h.release rfl rfl

theorem shapeObjs_spec {layers : Nat} {shapes : List Answer} {objs : List MemoryObj} {s : Run}
    {left : Nat} (h : Accounts s left (held ++ objs)) (hflat : ∀ obj ∈ objs, obj.page = false) :
    wp (shapeObjs layers objs shapes)
      (post (fun new s' => shapesAnswer layers objs.length shapes = .ok new.length ∧
          Accounts s' left (held ++ new) ∧ ∀ obj ∈ new, obj.page = false)
        fun _ s' => ∃ lost, shapesAnswer layers objs.length shapes = .error lost ∧
          Accounts s' (left + lost) held) s := by
  induction shapes generalizing objs s with
  | nil => exact ⟨rfl, h, hflat⟩
  | cons a rest ih =>
    unfold shapeObjs
    rw [wp_bind, wp_tryCatch, wp_answer]
    rcases a with e | _ | count
    · simp only [post_error]
      by_cases hlen : objs.length = layers
      · rw [if_neg (by simpa using hlen)]
        exact ⟨objs.length, by simp [shapesAnswer, hlen], h.abandon⟩
      · rw [if_pos hlen]
        refine wp_bind_returns (release_spec h) fun u s' h' => ?_
        exact ⟨0, by simp [shapesAnswer, hlen], h'⟩
    · exact ⟨rfl, h, hflat⟩
    · have h' := h.newObjs false count
      rw [append_assoc] at h'
      have hstep := @ih (objs ++ newObjs s false count) (s.allocate false count) h' fun obj hobj =>
        (mem_append.1 hobj).elim (hflat obj) page_of_mem_newObjs
      rw [length_append, length_newObjs] at hstep
      exact hstep

theorem flatObjs_spec {cfg : Config} {layers : Nat} {x : Candidate} {s : Run} {left : Nat}
    {held : List MemoryObj} (h : Accounts s left held) :
    wp (flatObjs cfg layers x)
      (post (fun r s' => match r with
          | none => flatAnswer cfg layers x = .ok none ∧ Accounts s' left held
          | some objs => flatAnswer cfg layers x = .ok (some objs.length) ∧
              Accounts s' left (held ++ objs) ∧ ∀ obj ∈ objs, obj.page = false)
        fun _ s' => ∃ lost, flatAnswer cfg layers x = .error lost ∧
          Accounts s' (left + lost) held) s := by
  unfold flatObjs flatAnswer
  cases hm : cfg.mixedIndexer with
  | false =>
    simp only [Bool.false_eq_true, if_false]
    rw [wp_answer]
    rcases x.flat with e | _ | count
    · exact ⟨0, rfl, h⟩
    · exact ⟨rfl, h⟩
    · exact ⟨by simp, h.newObjs false count, fun _ hobj => page_of_mem_newObjs hobj⟩
  | true =>
    simp only [if_true]
    rw [wp_bind]
    refine wp_mono (shapeObjs_spec (show Accounts s left (held ++ []) by simpa using h)
      fun _ hobj => absurd hobj not_mem_nil) ?_
    rintro (e | objs) s' h'
    · obtain ⟨lost, hl, ha⟩ := h'
      exact ⟨lost, by rw [show shapesAnswer layers 0 x.shapes = .error lost from hl], ha⟩
    obtain ⟨hl, ha, hf⟩ := h'
    rw [post_ok, show shapesAnswer layers 0 x.shapes = .ok objs.length from hl]
    by_cases hlen : objs.length = layers
    · rw [if_neg (by simpa using hlen)]
      exact ⟨by simp [hlen], ha, hf⟩
    · rw [if_pos hlen]
      refine wp_bind_returns (release_spec ha) fun u s2 h2 => ?_
      exact ⟨by simp [hlen], h2⟩

variable {legacySuffix : Bool} {acc : List BatchChunk}

theorem singlePage_spec {cfg : Config} {layers : Nat} {x : Candidate} {s : Run} {left : Nat}
    (h : Accounts s left held) :
    wp (singlePage cfg layers legacySuffix x)
      (post (fun r s' => match r.1 with
          | none => pageAnswer cfg legacySuffix x = some (false, r.2) ∧ Accounts s' left held
          | some objs => pageAnswer cfg legacySuffix x = some (true, r.2) ∧ cfg.pageStore = true ∧
              ∃ p : MemoryObj, p.page = true ∧ objs = replicate layers p ∧
                Accounts s' left (held ++ [p]))
        fun _ s' => pageAnswer cfg legacySuffix x = none ∧ Accounts s' left held) s := by
  unfold singlePage pageAnswer
  by_cases hc : cfg.pageStore = true ∧ legacySuffix = false
  · rw [if_pos hc, if_pos hc, wp_bind, wp_answer]
    rcases x.page with e | _ | count
    · exact ⟨rfl, h⟩
    · exact ⟨rfl, h⟩
    have h' := h.newObjs true count
    have hlen := length_newObjs s true count
    have hpage : ∀ p ∈ newObjs s true count, p.page = true := fun _ hp => page_of_mem_newObjs hp
    simp only
    generalize newObjs s true count = pages at h' hlen hpage ⊢
    rcases pages with _ | ⟨p, _ | ⟨p', pages⟩⟩
    · cases hlen
      rw [post_ok]
      refine wp_bind_returns (release_spec h') fun u s' h2 => ?_
      exact ⟨rfl, h2⟩
    · cases hlen
      exact ⟨rfl, hc.1, p, hpage p mem_cons_self, rfl, h'⟩
    · cases hlen
      rw [post_ok]
      refine wp_bind_returns (release_spec h') fun u s' h2 => ?_
      exact ⟨rfl, h2⟩
  · rw [if_neg hc, if_neg hc]
    exact ⟨rfl, h⟩

/-! ## What the allocation leaves alone -/

/-- Objects are allocated and given back, and nothing else happens. -/
structure Allocates (s s' : Run) : Prop where
  pending : s'.pending = s.pending
  generator : s'.generator = s.generator
  lists : s'.lists = s.lists
  events : ∃ es, s'.events = s.events ++ es ∧
    ∀ e ∈ es, (∃ obj, e = .alloc obj) ∨ ∃ obj, e = .release obj

instance : IsPreorder Run Allocates where
  refl s := ⟨rfl, rfl, rfl, grown_refl s.events⟩
  trans _ _ _ h h' := ⟨h'.pending.trans h.pending, h'.generator.trans h.generator,
    h'.lists.trans h.lists, grown_trans h.events h'.events⟩

namespace Allocates

theorem answer (page : Bool) (a : Answer) : Preserves Allocates (answer page a) := by
  intro s
  rw [wp_answer]
  rcases a with e | _ | count
  · exact refl_of Allocates s
  · exact refl_of Allocates s
  refine ⟨rfl, rfl, rfl, _, rfl, fun e he => ?_⟩
  obtain ⟨obj, -, rfl⟩ := mem_map.1 he
  exact .inl ⟨obj, rfl⟩

theorem release (objs : List MemoryObj) : Preserves Allocates (release objs) := by
  refine fun s => ⟨rfl, rfl, rfl, _, rfl, fun e he => ?_⟩
  obtain ⟨obj, -, rfl⟩ := mem_map.1 he
  exact .inr ⟨obj, rfl⟩

theorem releaseThrow {α : Type} (objs : List MemoryObj) (e : Exc) :
    Preserves Allocates (do StoreLayer.release objs; throw e : Store α) :=
  (release objs).bind fun _ => Preserves.throw e

theorem allocateBatch (cfg : Config) (env : Env) (chunks : Nat) :
    Preserves Allocates (allocateBatch cfg env chunks) := by
  unfold StoreLayer.allocateBatch
  split
  · refine (answer true env.bulk).bind fun r => ?_
    rcases r with _ | pages
    · exact Preserves.pure _
    dsimp only
    split
    · exact releaseThrow pages wrongPageCount
    · exact Preserves.pure _
  · exact Preserves.pure _

theorem singlePage (cfg : Config) (layers : Nat) (legacySuffix : Bool) (x : Candidate) :
    Preserves Allocates (singlePage cfg layers legacySuffix x) := by
  unfold StoreLayer.singlePage
  split
  · refine (answer true x.page).bind fun r => ?_
    rcases r with _ | _ | ⟨p, _ | ⟨p', pages⟩⟩
    · exact Preserves.pure _
    · exact releaseThrow _ wrongPageCount
    · exact Preserves.pure _
    · exact releaseThrow _ wrongPageCount
  · exact Preserves.pure _

theorem shapeObjs (layers : Nat) (shapes : List Answer) (objs : List MemoryObj) :
    Preserves Allocates (shapeObjs layers objs shapes) := by
  induction shapes generalizing objs with
  | nil => exact Preserves.pure _
  | cons a rest ih =>
    unfold StoreLayer.shapeObjs
    refine ((answer false a).tryCatch fun e => ?_).bind fun r => ?_
    · split
      · exact releaseThrow objs e
      · exact Preserves.throw e
    · rcases r with _ | new
      · exact Preserves.pure _
      · exact ih (objs ++ new)

theorem flatObjs (cfg : Config) (layers : Nat) (x : Candidate) :
    Preserves Allocates (flatObjs cfg layers x) := by
  unfold StoreLayer.flatObjs
  split
  · refine (shapeObjs layers x.shapes []).bind fun objs => ?_
    split
    · exact (release objs).bind fun _ => Preserves.pure _
    · exact Preserves.pure _
  · exact answer false x.flat

theorem allocateChunks (cfg : Config) (layers : Nat) (legacySuffix : Bool)
    (acc : List BatchChunk) (chunks : List (Candidate × Option MemoryObj)) :
    Preserves Allocates (allocateChunks cfg layers legacySuffix acc chunks) := by
  induction chunks generalizing legacySuffix acc with
  | nil => exact Preserves.pure _
  | cons x rest ih =>
    rcases x with ⟨x, _ | page⟩
    · unfold StoreLayer.allocateChunks
      refine (singlePage cfg layers legacySuffix x).bind fun r => ?_
      rcases r with ⟨_ | objs, legacy⟩
      · refine Preserves.bind ?_ fun stored => ?_
        · split
          · exact Preserves.call _
          · exact Preserves.pure _
        · split
          · exact ih legacy acc
          refine (flatObjs cfg layers x).bind fun r => ?_
          rcases r with _ | objs
          · dsimp only [allocationFailed]
            split
            · exact releaseThrow _ cacheFull
            · exact Preserves.pure _
          · dsimp only
            split
            · exact Preserves.throw _
            · exact ih legacy _
      · exact ih legacy _
    · exact ih legacySuffix _

theorem allocateAll (cfg : Config) (env : Env) (layers : Nat) (pending : List Candidate) :
    Preserves Allocates (allocateAll cfg env layers pending) := by
  unfold StoreLayer.allocateAll
  refine (allocateBatch cfg env pending.length).bind fun r => ?_
  rcases r with _ | pages <;> exact allocateChunks cfg layers false [] _

end Allocates

/-! ## The loop over the chunks -/

theorem ChunkOk.of_page {cfg : Config} {layers : Nat} (x : Candidate) {p : MemoryObj}
    (hp : p.page = true) (hs : cfg.pageStore = true) :
    ChunkOk cfg layers (x, replicate layers p) :=
  ⟨length_replicate, .inl ⟨hs, p, hp, rfl⟩⟩

/-- A page joins the batch; without layers it is lost. -/
theorem owned_page (layers : Nat) {s : Run} {b : Standing} {batch : List BatchChunk}
    {p : MemoryObj} {rest : List MemoryObj} (x : Candidate)
    (h : Accounts s b.left (owned batch ++ p :: rest)) (hheld : (owned batch).length = b.held) :
    Accounts s (b.pages layers 1).left (owned (batch ++ [(x, replicate layers p)]) ++ rest) ∧
      (owned (batch ++ [(x, replicate layers p)])).length = (b.pages layers 1).held := by
  rw [owned_append, owned_singleton, uniqueObjs_replicate]
  unfold Standing.pages
  by_cases hl : layers = 0
  · rw [if_pos hl, if_pos hl, append_nil]
    refine ⟨(@Accounts.abandon _ _ _ [p] (h.of_times fun y => ?_)), hheld⟩
    rw [append_cons (owned batch) p rest]
    simp only [times_append]
    omega
  · rw [if_neg hl, if_neg hl]
    refine ⟨?_, by simp [Standing.hold, hheld]⟩
    rw [append_assoc]
    exact h

/-- The objects of a batch stand as counted. -/
structure Stands (cfg : Config) (layers : Nat) (s : Run) (b : Standing)
    (batch : List BatchChunk) : Prop where
  accounts : Accounts s b.left (owned batch)
  held : (owned batch).length = b.held
  ok : BatchOk cfg layers batch

/-- The allocation has raised, and nothing is held any more. -/
structure Fell (s : Run) (b : Standing) : Prop where
  accounts : Accounts s b.left []
  held : b.held = 0

namespace Stands

variable {cfg : Config} {layers : Nat} {s s' : Run} {b : Standing} {batch : List BatchChunk}

theorem fell (h : Stands cfg layers s b batch) {lost : Nat}
    (ha : Accounts s' (b.left + lost) (owned batch)) : Fell s' (b.lose lost).abandon := by
  refine ⟨?_, rfl⟩
  show Accounts s' (b.left + lost + b.held) []
  rw [← h.held]
  exact ha.abandon_all

theorem page (h : Stands cfg layers s b batch) (x : Candidate) {p : MemoryObj}
    (ha : Accounts s' b.left (owned batch ++ [p])) (hp : p.page = true)
    (hs : cfg.pageStore = true) :
    Stands cfg layers s' (b.pages layers 1) (batch ++ [(x, replicate layers p)]) := by
  obtain ⟨ha', hheld⟩ := owned_page layers x ha h.held
  rw [append_nil] at ha'
  exact ⟨ha', hheld, h.ok.append (ChunkOk.of_page x hp hs)⟩

theorem flat (h : Stands cfg layers s b batch) (x : Candidate) {objs : List MemoryObj}
    (ha : Accounts s' b.left (owned batch ++ objs)) (hf : ∀ obj ∈ objs, obj.page = false)
    (hl : objs.length = layers) :
    Stands cfg layers s' (b.hold objs.length) (batch ++ [(x, objs)]) := by
  have hnd : objs.Nodup := (nodup_append.1 ha.nodup_held).2.1
  have hown : owned (batch ++ [(x, objs)]) = owned batch ++ objs := by
    rw [owned_append, owned_singleton, uniqueObjs_of_nodup hnd]
  refine ⟨?_, ?_, h.ok.append (x := (x, objs)) ⟨hl, .inr ⟨hf, hnd⟩⟩⟩
  · rw [hown]
    exact ha
  · rw [hown, length_append, h.held]
    rfl

end Stands

theorem allocationFailed_spec {cfg : Config} {layers : Nat} {s s0 : Run} {b : Standing}
    (h : Stands cfg layers s0 b acc) (ha : Accounts s b.left (owned acc)) :
    wp (allocationFailed cfg acc)
      (post (fun batch s' =>
          Stands cfg layers s' (if cfg.forceLayerwise then ⟨b.left, 0⟩ else b) batch)
        fun _ s' => Fell s' (if cfg.forceLayerwise then ⟨b.left, 0⟩ else b)) s := by
  unfold allocationFailed
  cases cfg.forceLayerwise with
  | false =>
    simp only [Bool.false_eq_true, if_false]
    exact ⟨ha, h.held, h.ok⟩
  | true =>
    simp only [if_true]
    rw [wp_bind]
    refine wp_mono (@release_spec _ _ b.left [] (ha.of_times fun x => ?_)) ?_
    · rw [nil_append]
      exact times_uniqueObjs ha.nodup_held x
    · rintro (e | u) s' h'
      · cases h'
      · exact ⟨h', rfl⟩

theorem allocateChunks_spec {cfg : Config} {layers : Nat} {pending : List Candidate} {s : Run}
    {b : Standing} (h : Stands cfg layers s b acc) :
    wp (allocateChunks cfg layers legacySuffix acc (pending.map fun x => (x, none)))
      (post (fun batch s' =>
          Stands cfg layers s' (chunksStanding cfg layers legacySuffix b pending) batch)
        fun _ s' => Fell s' (chunksStanding cfg layers legacySuffix b pending)) s := by
  induction pending generalizing legacySuffix acc s b with
  | nil => exact h
  | cons x rest ih =>
    rw [map_cons]
    unfold allocateChunks chunksStanding
    rw [wp_bind]
    refine wp_mono (singlePage_spec h.accounts) ?_
    rintro (e | ⟨_ | objs, legacy⟩) s1 h1
    · obtain ⟨hp, ha⟩ := h1
      rw [hp]
      exact h.fell (show Accounts _ (b.left + 0) _ from ha)
    · obtain ⟨hp, ha⟩ := h1
      rw [hp]
      dsimp only [post_ok]
      rw [wp_bind]
      have hcall : (if legacy = true then call x.storedLegacy else pure false : Store Bool) =
          call (if legacy = true then x.storedLegacy else .ok false) := by
        cases legacy <;> rfl
      rw [hcall, wp_call]
      have h1 : Stands cfg layers s1 b acc := ⟨ha, h.held, h.ok⟩
      rcases (if legacy = true then x.storedLegacy else .ok false) with e | _ | _
      · exact h.fell (show Accounts _ (b.left + 0) _ from ha)
      · simp only [post_ok, Bool.false_eq_true, if_false]
        rw [wp_bind]
        refine wp_mono (@flatObjs_spec cfg layers x _ _ _ ha) ?_
        rintro (e | _ | objs) s2 h2
        · obtain ⟨lost, hf, ha2⟩ := h2
          rw [hf]
          exact h.fell ha2
        · obtain ⟨hf, ha2⟩ := h2
          rw [hf]
          exact allocationFailed_spec h ha2
        · obtain ⟨hf, ha2, hflat⟩ := h2
          rw [hf]
          dsimp only [post_ok]
          by_cases hl : objs.length = layers
          · rw [if_neg (by simpa using hl), if_neg (by simpa using hl)]
            exact ih (h.flat x ha2 hflat hl)
          · rw [if_pos hl, if_pos hl]
            exact h.fell ha2.abandon
      · exact ih h1
    · obtain ⟨hp, hs, p, hpage, rfl, ha⟩ := h1
      rw [hp]
      exact ih (h.page x ha hpage hs)

theorem allocateChunks_pages {cfg : Config} {layers : Nat} {pending : List Candidate}
    {pages : List MemoryObj} {s : Run} {b : Standing} (hlen : pages.length = pending.length)
    (hp : ∀ p ∈ pages, p.page = true) (hs : cfg.pageStore = true)
    (ha : Accounts s b.left (owned acc ++ pages)) (hheld : (owned acc).length = b.held)
    (hok : BatchOk cfg layers acc) :
    wp (allocateChunks cfg layers legacySuffix acc (pending.zip (pages.map some)))
      (post (fun batch s' => Stands cfg layers s' (b.pages layers pages.length) batch)
        fun _ _ => False) s := by
  induction pending generalizing pages acc b with
  | nil =>
    obtain rfl := length_eq_zero_iff.1 hlen
    have hb : b.pages layers 0 = b := by
      unfold Standing.pages
      split <;> rfl
    show Stands cfg layers s (b.pages layers 0) acc
    rw [hb]
    rw [append_nil] at ha
    exact ⟨ha, hheld, hok⟩
  | cons x rest ih =>
    rcases pages with _ | ⟨p, pages⟩
    · cases hlen
    have hb : (b.pages layers 1).pages layers pages.length =
        b.pages layers (p :: pages).length := by
      unfold Standing.pages Standing.lose Standing.hold
      rw [length_cons]
      split <;> rw [Nat.add_assoc, Nat.add_comm 1]
    obtain ⟨ha', hheld'⟩ := owned_page layers x ha hheld
    rw [← hb]
    exact ih (Nat.succ.inj hlen) (fun q hq => hp q (mem_cons_of_mem p hq)) ha' hheld'
      (hok.append (ChunkOk.of_page x (hp p mem_cons_self) hs))

theorem allocateAll_spec {cfg : Config} {env : Env} {layers : Nat} {pending : List Candidate}
    {s : Run} (h : Accounts s 0 []) :
    wp (allocateAll cfg env layers pending)
      (post (fun batch s' => Stands cfg layers s' (batchStanding cfg env layers pending) batch)
        fun _ s' => Fell s' (batchStanding cfg env layers pending)) s := by
  have hloop : ∀ s', Accounts s' 0 [] →
      wp (allocateChunks cfg layers false [] (pending.map fun x => (x, none)))
        (post (fun batch s' =>
            Stands cfg layers s' (chunksStanding cfg layers false ⟨0, 0⟩ pending) batch)
          fun _ s' => Fell s' (chunksStanding cfg layers false ⟨0, 0⟩ pending)) s' :=
    fun s' h' => allocateChunks_spec ⟨h', rfl, BatchOk.nil cfg layers⟩
  unfold allocateAll allocateBatch batchStanding
  by_cases hc : cfg.pageStore = true ∧ pending.length ≠ 0
  · rw [if_pos hc, if_pos hc, wp_bind, wp_bind, wp_answer]
    rcases env.bulk with e | _ | count
    · exact ⟨h, rfl⟩
    · exact hloop s h
    have h' := h.newObjs true count
    have hlen := length_newObjs s true count
    have hpage : ∀ p ∈ newObjs s true count, p.page = true := fun _ hp => page_of_mem_newObjs hp
    simp only [post_ok]
    generalize newObjs s true count = pages at h' hlen hpage ⊢
    by_cases hn : count = pending.length
    · rw [if_neg (by simpa [hlen] using hn), if_neg (by simpa using hn), wp_pure, post_ok]
      refine wp_returns (allocateChunks_pages (b := ⟨0, 0⟩) (hlen.trans hn) hpage hc.1 h' rfl
        (BatchOk.nil cfg layers)) ?_
      rintro batch s' hs'
      rw [hlen] at hs'
      exact hs'
    · rw [if_pos (by simpa [hlen] using hn), if_pos hn]
      refine wp_bind_returns (@release_spec _ _ _ [] h') fun u s' h2 => ?_
      exact ⟨h2, rfl⟩
  · rw [if_neg hc, if_neg hc, wp_bind]
    exact hloop s h

end StoreLayer
