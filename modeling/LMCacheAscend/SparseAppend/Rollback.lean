import LMCacheAscend.Lib.Machine
import LMCacheAscend.SparseAppend.Growth

/-!
# Rollback

A guard takes the lengths of the lists of a cache and of the rows that they hold.  In a
world that has grown since, each of the lists is cut back to what it was: the rows first,
which are then cut off with the rows that are new.  The pointer rows are put back as they
were, and what they show was never overwritten.  So a cache reads after a rollback as it
did when the guard was taken, wherever the appends in between have ended.
-/

namespace SparseAppend

open Lib List

variable {ω : Type} {c : Cache} {w s s' : World ω}

/-- What `record` takes from a world in order. -/
def guardOf (c : Cache) (w : World ω) : Guard ω where
  ranges := c.ranges.map fun r => (r, (w.lists r).length)
  layers := c.layers.map fun r =>
    (r, (w.lists r).length, (w.lists r).map fun v => (w.inner v).length)
  pointers := c.chunkPtrsNpu.map fun p => (p, w.lists p)
  committed := false

theorem record_ok (hw : Sound c w) (sizes : Value ω → Except Error Nat) :
    record sizes c w = (.ok (guardOf c w), w) := by
  have hrow : ∀ r ∈ c.layers, (w.lists r).mapM (sizeOf sizes w) =
      .ok ((w.lists r).map fun v => (w.inner v).length) := by
    intro r hr
    refine mapM_eq_ok fun v hv => ?_
    obtain ⟨q, rfl⟩ := hw.layered r hr v hv
    rfl
  have hlayers : (c.layers.mapM fun values => do
      let rows ← (w.lists values).mapM (sizeOf sizes w)
      pure (values, (w.lists values).length, rows)) = .ok (guardOf c w).layers := by
    refine mapM_eq_ok fun r hr => ?_
    rw [hrow r hr]
    rfl
  have hrecord : wp (record sizes c) (fun x w' => x = .ok (guardOf c w) ∧ w' = w) w := by
    unfold record
    rw [wp_get_bind, wp_bind, hlayers, wp_call, post_ok, wp_pure]
    exact ⟨rfl, rfl⟩
  exact Prod.ext hrecord.1 hrecord.2

/-! ## On the way back -/

/-- A world that has grown from `w` and is in order. -/
def Returns (c : Cache) (w s : World ω) : Prop := Grows c w s ∧ Sound c s

variable {r : Ref}

theorem Returns.putBack (h : Returns c w s) (hw : Sound c w) (hr : r < w.nextList) :
    Returns c w (s.setList r (w.lists r)) := by
  obtain ⟨hg, hs⟩ := h
  refine ⟨⟨?_, hg.nextList, hg.nextTable, hg.mem, hg.opens⟩, hs.setList ?_ ?_⟩
  · intro q hq hp
    rw [setList_lists]
    split
    · next he =>
      subst he
      exact prefix_rfl
    · exact hg.lists q hq hp
  · exact fun v hv => (hw.closed r hr v hv).mono hg
  · exact hw.layered r

/-- A list that has been put back stays so. -/
def Nearer (w s s' : World ω) : Prop := ∀ r, s.lists r = w.lists r → s'.lists r = w.lists r

instance (w : World ω) : IsPreorder (World ω) (Nearer w) where
  refl _ _ h := h
  trans _ _ _ h h' r hr := h' r (h r hr)

theorem setList_nearer : Nearer w s (s.setList r (w.lists r)) := by
  intro q hq
  rw [setList_lists]
  split
  · next he => rw [he]
  · exact hq

theorem Nearer.inner (h : Nearer w s s') {v : Value ω} (hv : s.inner v = w.inner v) :
    s'.inner v = w.inner v := by
  cases v with
  | list q => exact h q hv
  | none | row _ | int _ | obj _ => rfl

/-- A list of rows as it was, with the rows as they were. -/
def Restored (w s : World ω) (r : Ref) : Prop :=
  s.lists r = w.lists r ∧ ∀ v ∈ w.lists r, s.inner v = w.inner v

theorem Nearer.restored (h : Nearer w s s') (hr : Restored w s r) : Restored w s' r :=
  ⟨h r hr.1, fun v hv => h.inner (hr.2 v hv)⟩

/-- `p` does not raise, and brings about `P` on the way back to `w`. -/
def PutsBack (c : Cache) (w : World ω) (P : World ω → Prop) (p : AppendM ω Unit) : Prop :=
  ∀ s, Returns c w s →
    wp p (post (fun _ s' => Returns c w s' ∧ Nearer w s s' ∧ P s') fun _ _ => False) s

namespace PutsBack

variable {P Q : World ω → Prop} {p q : AppendM ω Unit}

theorem mono (hp : PutsBack c w P p) (h : ∀ s, P s → Q s) : PutsBack c w Q p := by
  intro s hs
  refine wp_ok (hp s hs) fun u s' hs' => ?_
  exact ⟨hs'.1, hs'.2.1, h s' hs'.2.2⟩

theorem bind (hp : PutsBack c w P p) (hP : ∀ s s', Nearer w s s' → P s → P s')
    (hq : PutsBack c w Q q) : PutsBack c w (fun s => P s ∧ Q s) (p >>= fun _ => q) := by
  intro s hs
  refine wp_bind_ok (hp s hs) fun u s1 h1 => ?_
  obtain ⟨h1, hN1, hP1⟩ := h1
  refine wp_ok (hq s1 h1) fun u s2 h2 => ?_
  obtain ⟨h2, hN2, hQ2⟩ := h2
  exact ⟨h2, trans_of (Nearer w) hN1 hN2, hP s1 s2 hN2 hP1, hQ2⟩

theorem forM {α : Type} {l : List α} {f : α → AppendM ω Unit} {R : α → World ω → Prop}
    (hR : ∀ a s s', Nearer w s s' → R a s → R a s') (h : ∀ a ∈ l, PutsBack c w (R a) (f a)) :
    PutsBack c w (fun s => ∀ a ∈ l, R a s) (l.forM f) :=
  fun _ hs => wp_forM_all hR h hs

end PutsBack

/-! ## The steps of a rollback -/

theorem prefix_of_returns (h : Returns c w s) (hr : r < w.nextList)
    (hp : r ∉ c.pointers) : (s.lists r).take (w.lists r).length = w.lists r :=
  (prefix_iff_eq_take.1 (h.1.lists r hr hp)).symm

/-- `del values[size:]` puts a list back that has only grown. -/
theorem delFrom_putsBack (hw : Sound c w) (hr : r < w.nextList) (hp : r ∉ c.pointers) :
    PutsBack c w (fun s => s.lists r = w.lists r) (delFrom r (w.lists r).length) := by
  intro s h
  unfold delFrom
  rw [wp_modify, post_ok, prefix_of_returns h hr hp]
  exact ⟨h.putBack hw hr, setList_nearer, setList_self⟩

theorem delRange_putsBack (hw : Sound c w) (hr : r ∈ c.ranges) :
    PutsBack c w (fun s => s.lists r = w.lists r) (delFrom r (w.lists r).length) :=
  delFrom_putsBack hw (hw.allocated r (mem_outer.2 (.inl hr))) fun hp => (pointers_apart hp).1 hr

/-- A row, with the length that `zip` pairs it with. -/
theorem truncateLayer_putsBack (hw : Sound c w) (hr : r ∈ c.layers) {v : Value ω}
    (hv : v ∈ w.lists r) :
    PutsBack c w (fun s => s.inner v = w.inner v) (truncateLayer (v, (w.inner v).length)) := by
  obtain ⟨q, rfl⟩ := hw.layered r hr v hv
  have hlt := hw.allocated r (mem_outer.2 (.inr (.inl hr)))
  obtain ⟨hq, hout⟩ := hw.closed r hlt _ hv
  exact delFrom_putsBack hw hq fun hp => hout (mem_outer.2 (.inr (.inr hp)))

theorem truncateLayers_putsBack (hw : Sound c w) (hr : r ∈ c.layers) :
    PutsBack c w (fun s => Restored w s r)
      (truncateLayers (r, (w.lists r).length, (w.lists r).map fun v => (w.inner v).length)) := by
  have hlt := hw.allocated r (mem_outer.2 (.inr (.inl hr)))
  have hp : r ∉ c.pointers := fun hp => (pointers_apart hp).2 hr
  have hrows : PutsBack c w (fun s => ∀ v ∈ w.lists r, s.inner v = w.inner v)
      (((w.lists r).map fun v => (v, (w.inner v).length)).forM truncateLayer) := by
    have hall := PutsBack.forM (c := c) (w := w) (f := truncateLayer)
      (l := (w.lists r).map fun v => (v, (w.inner v).length))
      (R := fun x s => s.inner x.1 = w.inner x.1) (fun x _ _ hN hx => hN.inner hx) ?_
    · exact hall.mono fun s hs v hv => hs _ (mem_map.2 ⟨v, hv, rfl⟩)
    · intro x hx
      obtain ⟨v, hv, rfl⟩ := mem_map.1 hx
      exact truncateLayer_putsBack hw hr hv
  have hboth := hrows.bind (fun s s' hN h v hv => hN.inner (h v hv)) (delFrom_putsBack hw hlt hp)
  intro s h
  unfold truncateLayers
  rw [wp_get_bind]
  dsimp only
  rw [prefix_of_returns h hlt hp, ← map_prod_left_eq_zip, length_map,
    if_neg (Nat.lt_irrefl _), if_neg (Nat.lt_irrefl _)]
  exact (hboth.mono fun s hs => ⟨hs.2, hs.1⟩) s h

/-- The cache is as it was. -/
structure Back (c : Cache) (w s : World ω) : Prop where
  ranges : ∀ r ∈ c.ranges, s.lists r = w.lists r
  layers : ∀ r ∈ c.layers, Restored w s r
  pointers : ∀ p ∈ c.pointers, s.lists p = w.lists p

theorem putPointers_putsBack (hw : Sound c w) :
    PutsBack c w (fun s => ∀ p ∈ c.pointers, s.lists p = w.lists p)
      ((guardOf c w).pointers.forM fun x => modify fun w => w.setList x.1 x.2) := by
  intro s h
  unfold guardOf Cache.pointers
  have hlt : ∀ p ∈ c.chunkPtrsNpu, p < w.nextList := fun p hp =>
    hw.allocated p (mem_outer.2 (.inr (.inr (mem_pointers.2 hp))))
  generalize c.chunkPtrsNpu = pointers at hlt ⊢
  cases pointers with
  | none => exact ⟨h, refl_of (Nearer w) s, nofun⟩
  | some p =>
    refine ⟨h.putBack hw (hlt p rfl), setList_nearer, ?_⟩
    intro p' hp'
    rw [mem_singleton.1 hp']
    exact setList_self

theorem rollback_putsBack (hw : Sound c w) :
    PutsBack c w (Back c w) (rollback (guardOf c w)) := by
  have hranges : PutsBack c w (fun s => ∀ x ∈ (guardOf c w).ranges, s.lists x.1 = w.lists x.1)
      ((guardOf c w).ranges.forM fun x => delFrom x.1 x.2) := by
    refine PutsBack.forM (fun x _ _ hN hx => hN x.1 hx) fun x hx => ?_
    obtain ⟨r, hr, rfl⟩ := mem_map.1 hx
    exact delRange_putsBack hw hr
  have hlayers : PutsBack c w (fun s => ∀ x ∈ (guardOf c w).layers, Restored w s x.1)
      ((guardOf c w).layers.forM truncateLayers) := by
    refine PutsBack.forM (fun x _ _ hN hx => hN.restored hx) fun x hx => ?_
    obtain ⟨r, hr, rfl⟩ := mem_map.1 hx
    exact truncateLayers_putsBack hw hr
  have hall := hranges.bind (fun s s' hN h x hx => hN x.1 (h x hx))
    (hlayers.bind (fun s s' hN h x hx => hN.restored (h x hx)) (putPointers_putsBack hw))
  refine hall.mono fun s hs => ⟨?_, ?_, hs.2.2⟩
  · exact fun r hr => hs.1 _ (mem_map.2 ⟨r, hr, rfl⟩)
  · exact fun r hr => hs.2.1 _ (mem_map.2 ⟨r, hr, rfl⟩)

/-! ## What a cache says -/

/-- The pointer rows that are put back show what they showed. -/
theorem Back.reading (h : Back c w s) (hw : Sound c w) (hg : Grows c w s) :
    c.reading s = c.reading w := by
  have hranges : c.ranges.map s.lists = c.ranges.map w.lists := map_congr_left h.ranges
  have hlayers : (c.layers.map fun r => (s.lists r, (s.lists r).map s.inner)) =
      c.layers.map fun r => (w.lists r, (w.lists r).map w.inner) := by
    refine map_congr_left fun r hr => ?_
    obtain ⟨hsame, hrows⟩ := h.layers r hr
    rw [hsame, map_congr_left hrows]
  have hpointers : (c.pointers.map fun p => (s.lists p, (s.lists p).map s.cells)) =
      c.pointers.map fun p => (w.lists p, (w.lists p).map w.cells) := by
    refine map_congr_left fun p hp => ?_
    have hlt := hw.allocated p (mem_outer.2 (.inr (.inr hp)))
    rw [h.pointers p hp, map_congr_left fun v hv => (hw.closed p hlt v hv).cells hg]
  unfold Cache.reading
  rw [hranges, hlayers, hpointers]

/-- Wherever appends end, the guard that was taken before them leads back. -/
theorem rollback_runSteps (hw : Sound c w) (steps : List (Step ω)) :
    wp (rollback (guardOf c w))
      (post (fun _ s => Sound c s ∧ c.reading s = c.reading w) fun _ _ => False)
      (runSteps c w steps) := by
  refine wp_ok (rollback_putsBack hw _ (runSteps_grows hw steps)) fun u s hs => ?_
  obtain ⟨⟨hg, hs⟩, -, hback⟩ := hs
  exact ⟨hs, hback.reading hw hg⟩

/-! ## Histories -/

section Histories

variable (c) (sizes : Value ω → Except Error Nat)

/-- The histories of a cache from when its lists were new. -/
def history : Machine (World ω) (Event ω) where
  start w := Sound c w ∧ ∀ r ∈ c.outer, w.lists r = []
  step w event := some (event.run c sizes w)

variable {c sizes}

theorem attempt_sound (hw : Sound c w) (steps : List (Step ω)) (commits : Bool) :
    wp (attempt c sizes steps commits) (fun _ s => Sound c s) w := by
  unfold attempt
  rw [wp_bind, wp_of_run (record_ok hw sizes), post_ok, wp_modify_bind]
  cases commits with
  | true => exact (runSteps_grows hw steps).2
  | false =>
    refine wp_returns (rollback_runSteps hw steps) fun u s hs => ?_
    exact hs.1

theorem history_inductive : (history c sizes).Inductive (Sound c) where
  start _ hw := hw.1
  step := by
    intro w event w' hw hstep
    cases hstep
    cases event with
    | append step => exact (step.run_grows hw).2
    | attempt steps commits => exact attempt_sound hw steps commits

/-- In every history and for all appends that come next, however far they get: the guard that is
taken before them rolls the cache back to what it says now. -/
theorem rollback_restores (hw : (history c sizes).Reachable w) (steps : List (Step ω)) :
    ∃ guard, record sizes c w = (.ok guard, w) ∧
      ∃ w', rollback guard (runSteps c w steps) = (.ok (), w') ∧ c.reading w' = c.reading w := by
  have hs := history_inductive.reachable hw
  refine ⟨guardOf c w, record_ok hs sizes, ?_⟩
  obtain ⟨_, w', hrun, -, hreading⟩ := exists_ok_of_wp (rollback_runSteps hs steps)
  exact ⟨w', hrun, hreading⟩

end Histories

theorem refs_nodup : ([0, 1, 2, 3, 4, 5, 6, 7] : List Ref).Nodup := by decide

def eightLists : Cache where
  starts := some 0
  ends := some 1
  keys := some 2
  memoryObjs := some 3
  tensors := some 4
  chunkDevPtrs := some 5
  sharedHandles := some 6
  chunkPtrsNpu := some 7
  apart := refs_nodup

def newWorld : World Nat where
  lists _ := []
  nextList := 8
  mem _ _ _ := 0
  nextTable := 0
  tables _ := none

def noSizes (_ : Value Nat) : Except Error Nat := .error (.typeError "object has no len()")

theorem newWorld_start : (history eightLists noSizes).start newWorld := by
  refine ⟨⟨?_, ?_, ?_, ?_, ?_⟩, fun _ _ => rfl⟩
  · show ∀ r ∈ ([0, 1, 2, 3, 4, 5, 6, 7] : List Ref), r < 8
    decide
  · exact nofun
  · exact nofun
  · exact fun _ _ h => by cases h
  · exact fun _ _ _ _ h => by cases h

/-- Rows for a layer, and a chunk that a retrieve commits. -/
def firstRetrieve : Event Nat :=
  .attempt (extend 0 [.int 0] ++ extend 1 [.int 4] ++ [.newList, .push 2 (.list 8), .newList,
    .push 3 (.list 9), .newList, .push 5 (.list 10), .push 7 .none,
    .newTable (.layer 7 0) 0 fun _ _ => 0] ++ extend 8 [.obj 20] ++
    appendForLayer 7 10 0 [100] ++ extend 9 [.obj 30]) true

/-- The next chunk, without its memory object. -/
def secondRetrieve : List (Step Nat) :=
  extend 0 [.int 4] ++ extend 1 [.int 8] ++ extend 8 [.obj 21] ++ appendForLayer 7 10 0 [101]

def oneChunk : World Nat := firstRetrieve.run eightLists noSizes newWorld

theorem oneChunk_reachable : (history eightLists noSizes).Reachable oneChunk := by
  unfold oneChunk
  exact Machine.Reachable.step (.start newWorld_start) firstRetrieve rfl

/-- Ranges, keys and pointers are rolled back where the last memory object is missing. -/
theorem rollback_restores_oneChunk :
    (∃ guard, record noSizes eightLists oneChunk = (.ok guard, oneChunk) ∧
      ∃ w', rollback guard (runSteps eightLists oneChunk secondRetrieve) = (.ok (), w') ∧
        eightLists.reading w' = eightLists.reading oneChunk) ∧
    (eightLists.reading oneChunk).pointers = [([.row ⟨0, 0, 1⟩], [[100]])] ∧
    (eightLists.reading (runSteps eightLists oneChunk secondRetrieve)).pointers =
      [([.row ⟨0, 0, 2⟩], [[100, 101]])] :=
  ⟨rollback_restores oneChunk_reachable secondRetrieve, by decide +kernel⟩

theorem attempt_returns (hw : Sound c w) (steps : List (Step ω)) (commits : Bool) :
    wp (attempt c sizes steps commits) (fun _ s => Returns c w s) w := by
  unfold attempt
  rw [wp_bind, wp_of_run (record_ok hw sizes), post_ok, wp_modify_bind]
  cases commits with
  | true => exact runSteps_grows hw steps
  | false =>
    refine wp_returns (rollback_putsBack hw _ (runSteps_grows hw steps)) fun u s hs => ?_
    exact hs.1

theorem event_returns (hw : Sound c w) (event : Event ω) :
    Returns c w (event.run c sizes w) := by
  cases event with
  | append step => exact step.run_grows hw
  | attempt steps commits => exact attempt_returns hw steps commits

/-- **A cache is append-only.**  Whatever a history does, roll back included: a list that is kept
has later what it has now, with more behind it, and a pointer row that was handed out shows what it
showed. -/
theorem history_appends (hw : (history c sizes).Reachable w)
    (hs : ((history c sizes).after w).Reachable s) :
    (∀ r ∈ c.ranges ++ c.layers, w.lists r <+: s.lists r) ∧
      ∀ p ∈ c.pointers, ∀ v ∈ w.lists p, s.cells v = w.cells v := by
  have hsound := history_inductive.reachable hw
  have hall : ((history c sizes).after w).Inductive (Returns c w) := by
    constructor
    · rintro t rfl
      exact ⟨Grows.refl c t, hsound⟩
    · rintro t event t' ht hstep
      cases hstep
      obtain ⟨hg, ht'⟩ := event_returns ht.2 event
      exact ⟨ht.1.trans hg, ht'⟩
  have hg := (hall.reachable hs).1
  refine ⟨fun r hr => ?_, fun p hp v hv => ?_⟩
  · have hr := mem_append.1 hr
    refine hg.lists r (hsound.allocated r (mem_outer.2 (by tauto))) fun hp => ?_
    exact hr.elim (pointers_apart hp).1 (pointers_apart hp).2
  · have hlt := hsound.allocated p (mem_outer.2 (.inr (.inr hp)))
    exact (hsound.closed p hlt v hv).cells hg

/-- The pointers of the chunk, after the next chunk was rolled back. -/
theorem history_appends_oneChunk :
    ((Event.attempt secondRetrieve false).run eightLists noSizes oneChunk).cells (.row ⟨0, 0, 1⟩) =
      [100] := by
  have hstart : ((history eightLists noSizes).after oneChunk).start oneChunk := rfl
  have hrow : (.row ⟨0, 0, 1⟩ : Value Nat) ∈ oneChunk.lists 7 := by decide +kernel
  have hlater := (history_appends oneChunk_reachable
    (Machine.Reachable.step (.start hstart) (.attempt secondRetrieve false) rfl)).2 7 (by decide) _ hrow
  exact hlater.trans (by decide +kernel)

end SparseAppend
