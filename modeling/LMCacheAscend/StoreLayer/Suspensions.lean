import LMCacheAscend.StoreLayer.PutOrder
import LMCacheAscend.StoreLayer.Ownership

/-!
# The suspension points of a call

A call that is driven to its end with the connector's own generator: how often
it suspends, and when it puts what, on each of its paths.
-/

namespace StoreLayer

open Lib List

/-! ## The connector -/

/-- The copies of a layer, if there is such a layer. -/
def launchNext (n layer : Nat) : List Copy := if layer < n then [.launch layer] else []

/-- What the generator of `batched_from_gpu` yields for `n` layers.  An ordinary one waits for the
copies of a layer and launches the next; a deferred one launches all layers first, and then reports
them. -/
def batchedFromGpu (deferredPut : Bool) (n : Nat) : List Resumption :=
  if deferredPut then
    .yields [] .nothing :: ((range n).map (fun l => .yields [.launch l] .nothing) ++
      (range n).map fun l => .yields [.sourceDone l] (.layer l))
  else
    .yields (launchNext n 0) .nothing ::
      (range n).map fun l => .yields (.sourceDone l :: launchNext n (l + 1)) .nothing

/-- A call with this connector. -/
def withConnector (cfg : Config) (env : Env) : Env :=
  { env with generator := batchedFromGpu (deferred cfg env) env.engineLayers }

/-! ## What a step shows -/

/-- Where `p` returns, it has shown these events. -/
def Adds {α : Type} (p : Store α) (es : List Event) : Prop :=
  ∀ s, wp p (post (fun _ s' => shown s'.events = shown s.events ++ es ∧
    s'.generator = s.generator) fun _ _ => True) s

variable {es : List Event} {done : List Nat}

namespace Adds

variable {α β : Type}

theorem pure (a : α) : Adds (pure a : Store α) [] := fun _ => ⟨(append_nil _).symm, rfl⟩

theorem throw (e : Exc) (es : List Event) : Adds (throw e : Store α) es := fun _ => trivial

theorem call (r : Except Exc α) : Adds (call r) [] := by
  intro s
  rw [wp_call]
  cases r with
  | error e => exact trivial
  | ok a => exact ⟨(append_nil _).symm, rfl⟩

theorem bind {p : Store α} {f : α → Store β} {es es' : List Event} (hp : Adds p es)
    (hf : ∀ a, Adds (f a) es') : Adds (p >>= f) (es ++ es') := by
  intro s
  refine wp_bind_any (hp s) fun a s1 h1 => ?_
  refine wp_any (hf a s1) fun b s2 h2 => ?_
  exact ⟨by rw [h2.1, h1.1, append_assoc], h2.2.trans h1.2⟩

theorem forM {l : List α} {f : α → Store PUnit} {g : α → List Event} (h : ∀ a, Adds (f a) (g a)) :
    Adds (l.forM f) (l.flatMap g) := by
  induction l with
  | nil => exact Adds.pure _
  | cons a l ih => exact (h a).bind fun _ => ih

theorem modify {f : Run → Run} (h : ∀ s, (f s).events = s.events ∧ (f s).generator = s.generator) :
    Adds (modify f : Store PUnit) [] := by
  intro s
  refine ⟨?_, (h s).2⟩
  show shown (f s).events = shown s.events ++ []
  rw [(h s).1, append_nil]

theorem andThen {p : Store PUnit} {q : Store β} (hp : Adds p [])
    (hq : Adds q es) : Adds (do p; q) es :=
  hp.bind fun _ => hq

theorem log (es : List Event) (h : ∀ e ∈ es, e.shown = true) : Adds (log es) es := by
  refine fun s => ⟨?_, rfl⟩
  show shown (s.events ++ es) = _
  rw [shown_append]
  exact congrArg _ (filter_eq_self.2 h)

variable (cfg : Config) (env : Env) (n : Nat) (batch : List BatchChunk)

theorem suspendWith (result : Bool) : Adds (suspendWith env result) [.suspend result] := by
  intro s
  unfold StoreLayer.suspendWith
  rw [wp_get_bind]
  exact (log [.suspend result] (by simp [Event.shown])).bind (fun _ => call _) s

theorem pause : Adds (pause env) [.suspend false] := suspendWith env false

theorem idle : Adds (idle cfg env n) (if deferred cfg env then
    .suspend false :: (range n).flatMap fun _ => [.suspend false, .suspend false]
    else (range n).flatMap fun _ => [.suspend false]) := by
  unfold StoreLayer.idle
  split
  · have steps : Adds ((range n).forM fun _ => do
          StoreLayer.pause env; StoreLayer.pause env)
        ((range n).flatMap fun _ => [.suspend false, .suspend false]) :=
      forM fun _ => (pause env).bind fun _ => pause env
    exact (pause env).bind fun _ => steps
  · exact forM fun _ => pause env

theorem handOver (items : List PutItem) : Adds (handOver items) [.put items] := by
  refine fun s => ⟨?_, rfl⟩
  show shown (s.events ++ [.put items]) = _
  rw [shown_append]
  rfl

theorem putSome (r : Except Exc Unit) (items : List PutItem) :
    Adds (putSome r items) ((if items ≠ [] then [items] else []).map .put) := by
  unfold StoreLayer.putSome
  split
  · exact (call r).andThen (handOver items)
  · exact Adds.pure _

theorem appendLayer (l : Nat) : Adds (appendLayerStoreTensors cfg env n batch l) [] := by
  unfold appendLayerStoreTensors setLists
  exact (call _).andThen (modify fun _ => ⟨rfl, rfl⟩)

theorem putLayer (l : Nat) : Adds (putLayer env batch l) [.put (layerItems batch l)] :=
  (call _).andThen (handOver _)

end Adds

/-- What the publication of a layer shows. -/
def layerPut (cfg : Config) (batch : List BatchChunk) (l : Nat) : List Event :=
  if cfg.pageFirst then [] else [.put (layerItems batch l)]

namespace Adds

variable (cfg : Config) (env : Env) (n : Nat) (batch : List BatchChunk)

theorem publishLayer (l : Nat) :
    Adds (publishCompletedLayer cfg env n batch l) (layerPut cfg batch l) := by
  unfold publishCompletedLayer
  split
  · exact Adds.throw _ _
  refine (appendLayer cfg env n batch l).andThen ?_
  unfold layerPut
  split
  · exact Adds.pure _
  · exact putLayer env batch l

theorem publishChunks : Adds (publishChunks cfg env n batch) [] := by
  have hlists : ∀ f, Adds (setLists f) [] := fun f => modify fun _ => ⟨rfl, rfl⟩
  have hget : ∀ {β : Type} {f : Run → Store β}, (∀ s, Adds (f s) []) → Adds (get >>= f) [] := by
    intro β f hf s
    exact hf s s
  have happend : ∀ chunks, Adds (appendCacheChunks n chunks) [] := by
    intro chunks
    unfold appendCacheChunks
    refine (hlists _).andThen (hget fun s => ?_)
    split
    · exact Adds.throw _ _
    refine (hlists _).andThen (hget fun s => ?_)
    split
    · exact Adds.throw _ _
    · exact hlists _
  unfold StoreLayer.publishChunks
  dsimp only
  split
  · exact (hlists _).andThen (happend _)
  · exact happend _

theorem putPageFirst (hp : cfg.pageFirst = true) :
    Adds (putPageFirst cfg env n batch) ((batchPuts cfg n batch).map .put) := by
  unfold StoreLayer.putPageFirst batchPuts
  refine (call _).andThen ((call _).andThen ((call _).andThen ?_))
  rw [if_neg (show ¬cfg.pageFirst = false by simp [hp])]
  by_cases hs : cfg.pageStore = true
  · rw [if_pos hs, if_pos hs, map_append]
    exact (putSome _ _).bind fun _ => putSome _ _
  · rw [if_neg hs, if_neg hs]
    exact (call _).andThen (handOver _)

theorem allocateAll (pending : List Candidate) : Adds (allocateAll cfg env n pending) [] := by
  intro s
  refine wp_cases (Allocates.allocateAll cfg env n pending s) (fun _ _ h => trivial)
    fun batch s' h => ?_
  obtain ⟨es, he, hes⟩ := h.events
  refine ⟨?_, h.generator⟩
  rw [he, shown_append]
  refine congrArg _ (filter_eq_nil_iff.2 fun e hm => ?_)
  rcases hes e hm with ⟨obj, rfl⟩ | ⟨obj, rfl⟩ <;> simp [Event.shown]

theorem cleanUp : Adds cleanUp [] := by
  refine fun s => ⟨?_, rfl⟩
  show shown (s.events ++ s.pending.map .release) = _
  rw [shown_append]
  refine congrArg _ (filter_eq_nil_iff.2 fun e hm => ?_)
  obtain ⟨obj, -, rfl⟩ := mem_map.1 hm
  simp [Event.shown]

end Adds

/-! ## The three ways of a transfer -/

/-- A layer of an ordinary store. -/
def normalTurn (cfg : Config) (n : Nat) (batch : List BatchChunk) (l : Nat) : List Event :=
  .suspend false :: ((.sourceDone l :: launchNext n (l + 1)).map .copy ++ layerPut cfg batch l)

def normalEvents (cfg : Config) (n : Nat) (batch : List BatchChunk) : List Event :=
  (launchNext n 0).map .copy ++ (range n).flatMap (normalTurn cfg n batch)

/-- A layer that is saved, and a layer that is drained. -/
def saveTurn (l : Nat) : List Event := [.copy (.launch l), .suspend false, .suspend false]

def drainTurn (cfg : Config) (batch : List BatchChunk) (l : Nat) : List Event :=
  .copy (.sourceDone l) :: layerPut cfg batch l

def deferredEvents (cfg : Config) (n : Nat) (batch : List BatchChunk) : List Event :=
  .suspend false :: ((range n).flatMap saveTurn ++
    (range n).flatMap (drainTurn cfg batch))

def groupEvents (cfg : Config) (n : Nat) (batch : List BatchChunk) : List Event :=
  (range n).flatMap (fun _ => [.suspend false]) ++
    (((range n).map (fun l => .copy (.launch l)) ++
      (range n).map fun l => .copy (.sourceDone l)) ++
      (range n).flatMap (layerPut cfg batch))

section

variable {cfg : Config} {env : Env} {n : Nat} {batch : List BatchChunk} {s : Run}

theorem advance_yields {copies : List Copy} {report : Report} {rest : List Resumption}
    (hg : s.generator = .yields copies report :: rest) :
    wp advance (post (fun r s' => r = report ∧
      shown s'.events = shown s.events ++ copies.map .copy ∧ s'.generator = rest)
        fun _ _ => False) s := by
  unfold advance
  rw [wp_get_bind, hg]
  refine ⟨rfl, ?_, rfl⟩
  show shown (s.events ++ copies.map .copy) = _
  rw [shown_append]
  refine congrArg _ (filter_eq_self.2 fun e he => ?_)
  obtain ⟨c, -, rfl⟩ := mem_map.1 he
  rfl

theorem Adds.after {α : Type} {p : Store α} {es base : List Event} (h : Adds p es)
    (hs : shown s.events = base) :
    wp p (post (fun _ s' => shown s'.events = base ++ es ∧ s'.generator = s.generator)
      fun _ _ => True) s := by
  rw [← hs]
  exact h s

theorem normalStore_shows (hg : s.generator = (range n).map fun l =>
      .yields (.sourceDone l :: launchNext n (l + 1)) .nothing) :
    wp (normalStore cfg env n batch) (post (fun _ s' => shown s'.events =
      shown s.events ++ (range n).flatMap (normalTurn cfg n batch)) fun _ _ => True) s := by
  unfold normalStore
  have hloop := wp_forM_range (n := n) (s := s)
    (I := fun i s' => shown s'.events =
        shown s.events ++ (range i).flatMap (normalTurn cfg n batch) ∧
      s'.generator = ((range n).map fun l =>
        Resumption.yields (.sourceDone l :: launchNext n (l + 1)) .nothing).drop i)
    (E := fun _ _ => True)
    (f := fun layer => do
      pause env
      let _ ← advance
      publishCompletedLayer cfg env n batch layer) (fun i hi s1 h1 => ?_) ⟨by simp, hg⟩
  · refine wp_cases hloop (fun _ _ h' => trivial) fun u s' h' => ?_
    exact h'.1
  · obtain ⟨h1, hg1⟩ := h1
    rw [drop_eq_getElem_cons (by simpa using hi), getElem_map, getElem_range]
      at hg1
    refine wp_bind_any ((Adds.pause env).after h1) fun u s2 h2 => ?_
    refine wp_bind_returns (advance_yields (h2.2.trans hg1)) fun report s3 h3 => ?_
    obtain ⟨-, h3, hg3⟩ := h3
    refine wp_any ((Adds.publishLayer cfg env n batch i).after h3) fun u s4 h4 => ?_
    refine ⟨?_, h4.2.trans hg3⟩
    rw [h4.1, h2.1, range_succ, flatMap_append]
    simp [normalTurn]

theorem deferredSaves_shows (turns k : Nat) {rest : List Resumption}
    (hg : s.generator = (range' k turns).map (fun l => .yields [.launch l] .nothing) ++ rest) :
    wp (deferredSaves cfg env n batch turns []) (post (fun persisted s' => persisted = [] ∧
      shown s'.events = shown s.events ++ (range' k turns).flatMap saveTurn ∧
        s'.generator = rest) fun _ _ => True) s := by
  induction turns generalizing k s with
  | zero => exact ⟨rfl, (append_nil _).symm, hg⟩
  | succ turns ih =>
    unfold deferredSaves
    rw [range'_succ, map_cons, cons_append] at hg
    refine wp_bind_returns (advance_yields hg) fun report s1 h1 => ?_
    obtain ⟨rfl, h1, hg1⟩ := h1
    refine wp_bind_any ((Adds.pause env).after h1) fun u s2 h2 => ?_
    rw [wp_bind]
    show wp (pure []) _ s2
    rw [wp_pure, post_ok]
    refine wp_bind_any ((Adds.pause env).after h2.1) fun u s3 h3 => ?_
    refine wp_any (ih (k + 1) (h3.2.trans (h2.2.trans hg1))) fun persisted s4 h4 => ?_
    refine ⟨h4.1, ?_, h4.2.2⟩
    rw [h4.2.1, h3.1, range'_succ]
    simp [saveTurn]

theorem drain_shows (turns k m : Nat) (hk : k + m = n) (ht : m < turns)
    (hg : s.generator = (range' k m).map fun l => .yields [.sourceDone l] (.layer l)) :
    wp (drain cfg env n batch turns (range k)) (post (fun _ s' => shown s'.events =
      shown s.events ++ (range' k m).flatMap (drainTurn cfg batch) ∧ s'.generator = [])
        fun _ _ => True) s := by
  induction turns generalizing k m s with
  | zero => omega
  | succ turns ih =>
    unfold drain
    rw [length_range]
    cases m with
    | zero =>
      rw [if_neg (by omega)]
      exact ⟨(append_nil _).symm, hg⟩
    | succ m =>
      rw [if_pos (by omega), wp_bind, wp_tryCatch]
      rw [range'_succ, map_cons] at hg
      refine wp_returns (advance_yields hg) fun report s1 h1 => ?_
      obtain ⟨rfl, h1, hg1⟩ := h1
      rw [post_ok, post_ok, wp_bind]
      unfold persist
      dsimp only
      rw [if_neg (by simp)]
      refine wp_bind_any ((Adds.publishLayer cfg env n batch k).after h1) fun u s2 h2 => ?_
      rw [wp_pure, post_ok, ← range_succ]
      refine wp_any (ih (k + 1) m (by omega) (by omega) (h2.2.trans hg1)) fun u s3 h3 => ?_
      refine ⟨?_, h3.2⟩
      rw [h3.1, h2.1, range'_succ]
      simp [drainTurn]

theorem deferredStore_shows (hg : s.generator =
      (range n).map (fun l => .yields [.launch l] .nothing) ++
        (range n).map fun l => .yields [.sourceDone l] (.layer l)) :
    wp (deferredStore cfg env n batch) (post (fun _ s' => shown s'.events =
      shown s.events ++ deferredEvents cfg n batch) fun _ _ => True) s := by
  unfold deferredStore
  refine wp_bind_any ((Adds.pause env).after rfl) fun u s1 h1 => ?_
  rw [wp_bind]
  rw [← h1.2, range_eq_range'] at hg
  refine wp_cases (deferredSaves_shows n 0 hg) (fun _ _ h2 => trivial) fun persisted s2 h2 => ?_
  obtain ⟨rfl, h2, hg2⟩ := h2
  rw [post_ok, wp_get_bind]
  refine wp_bind_any (drain_shows _ 0 n (Nat.zero_add n) (by simp [hg2]) hg2) fun u s3 h3 => ?_
  unfold finish advance
  simp only [wp_bind, wp_tryCatch, wp_get, post_ok, h3.2, wp_throw, post_error, wp_pure]
  rw [h3.1, h2, h1.1]
  simp [deferredEvents, range_eq_range']

theorem groupStore_shows : wp (groupStore cfg env n batch) (post (fun _ s' =>
    deferred cfg env = false ∧ shown s'.events = shown s.events ++ groupEvents cfg n batch)
      fun _ _ => True) s := by
  unfold groupStore
  cases deferred cfg env with
  | true => exact trivial
  | false =>
    have hnil : (range n).flatMap (fun _ => ([] : List Event)) = [] :=
      flatMap_eq_nil_iff.2 fun _ _ => rfl
    have hputs : Adds (if cfg.pageFirst then pure () else
        (range n).forM fun layer => putLayer env batch layer)
        ((range n).flatMap (layerPut cfg batch)) := by
      unfold layerPut
      cases cfg.pageFirst with
      | true =>
        show Adds (pure ()) ((range n).flatMap fun _ => [])
        rw [hnil]
        exact Adds.pure _
      | false => exact Adds.forM fun l => Adds.putLayer env batch l
    have hviews : Adds ((range n).forM fun l => appendLayerStoreTensors cfg env n batch l)
        [] := by
      rw [← hnil]
      exact Adds.forM fun l => Adds.appendLayer cfg env n batch l
    have hlog := Adds.log ((range n).map (fun l => .copy (.launch l)) ++
      (range n).map fun l => .copy (.sourceDone l)) (by
        intro e he
        rcases mem_append.1 he with he | he
        all_goals
          obtain ⟨l, -, rfl⟩ := mem_map.1 he
          rfl)
    rw [if_neg (by simp)]
    have hall := (Adds.forM (l := range n) fun _ => Adds.pause env).bind fun _ =>
      (Adds.call env.groupStore).andThen (hlog.bind fun _ => hviews.andThen hputs)
    refine wp_cases (hall s) (fun _ _ h' => trivial) fun u s' h' => ?_
    exact ⟨rfl, h'.1⟩

end

/-! ## What the three ways have in common -/

theorem flatMap_replicate {α : Type} (n k : Nat) (a : α) :
    ((range n).flatMap fun _ => replicate k a) = replicate (n * k) a := by
  induction n with
  | zero => simp
  | succ n ih =>
    rw [range_succ, flatMap_append, ih, flatMap_singleton,
      replicate_append_replicate, Nat.succ_mul]

theorem Sourced.flatMap_range {f : Nat → List Event} (n : Nat)
    (h : ∀ l < n, Sourced ((range l).flatMap fun k => sources (f k)) (f l)) :
    Sourced [] ((range n).flatMap f) := by
  induction n with
  | zero => trivial
  | succ n ih =>
    rw [range_succ, flatMap_append, flatMap_singleton]
    refine (ih fun l hl => h l (by omega)).append ?_
    have := h n (Nat.lt_succ_self n)
    unfold sources at this ⊢
    rw [nil_append, flatMap_assoc]
    exact this

theorem Sourced.layers {f : Nat → List Event} (n : Nat)
    (h : ∀ l < n, ∀ more, Sourced (done ++ more) (f l)) : Sourced done ((range n).flatMap f) := by
  induction n with
  | zero => trivial
  | succ n ih =>
    rw [range_succ, flatMap_append, flatMap_singleton]
    exact (ih fun l hl => h l (by omega)).append (h n (Nat.lt_succ_self n) _)

structure Mode (cfg : Config) (n : Nat) (batch : List BatchChunk) (points : Nat)
    (es : List Event) : Prop where
  suspensions : suspensions es = replicate points false
  puts : puts es = if cfg.pageFirst then [] else (range n).map (layerItems batch)
  sources : sources es = range n
  launches : ∀ l < n, l ∈ launches es
  sourced : Sourced [] es

section

variable (cfg : Config) (n : Nat) (batch : List BatchChunk)

theorem layerPut_readings (l : Nat) : suspensions (layerPut cfg batch l) = [] ∧
    sources (layerPut cfg batch l) = [] ∧
    puts (layerPut cfg batch l) = if cfg.pageFirst then [] else [layerItems batch l] := by
  unfold layerPut
  cases cfg.pageFirst <;> exact ⟨rfl, rfl, rfl⟩

theorem layerPut_sourced {l : Nat} (hl : l ∈ done) :
    Sourced done (layerPut cfg batch l) := by
  unfold layerPut
  split
  · trivial
  refine ⟨fun items hi item hm k hk => ?_, trivial⟩
  rw [mem_singleton.1 hi] at hm
  obtain ⟨-, -, -, hlay⟩ := mem_layerItems.1 hm
  rw [hlay, mem_singleton] at hk
  rw [hk]
  exact hl

theorem puts_layers : ((range n).flatMap fun l => puts (layerPut cfg batch l)) =
    if cfg.pageFirst then [] else (range n).map (layerItems batch) := by
  rw [flatMap_congr fun l _ => (layerPut_readings cfg batch l).2.2]
  cases cfg.pageFirst with
  | true => exact flatMap_eq_nil_iff.2 fun _ _ => rfl
  | false => exact (map_eq_flatMap ..).symm

theorem launchNext_readings (l : Nat) : suspensions ((launchNext n l).map .copy) = [] ∧
    sources ((launchNext n l).map .copy) = [] ∧ puts ((launchNext n l).map .copy) = [] ∧
    launches ((launchNext n l).map .copy) = if l < n then [l] else [] := by
  unfold launchNext
  split <;> exact ⟨rfl, rfl, rfl, rfl⟩

theorem normalTurn_readings (l : Nat) : suspensions (normalTurn cfg n batch l) = [false] ∧
    sources (normalTurn cfg n batch l) = [l] ∧
    puts (normalTurn cfg n batch l) = puts (layerPut cfg batch l) ∧
    launches (normalTurn cfg n batch l) = (if l + 1 < n then [l + 1] else []) ++
      launches (layerPut cfg batch l) := by
  obtain ⟨h1, h2, h3, h4⟩ := launchNext_readings n (l + 1)
  obtain ⟨h5, h6, -⟩ := layerPut_readings cfg batch l
  have hsplit : normalTurn cfg n batch l = [.suspend false, .copy (.sourceDone l)] ++
      ((launchNext n (l + 1)).map .copy ++ layerPut cfg batch l) := rfl
  rw [hsplit, suspensions_append, suspensions_append, sources_append, sources_append, puts_append,
    puts_append, launches_append, launches_append, h1, h2, h3, h4, h5, h6]
  exact ⟨rfl, rfl, rfl, rfl⟩

theorem normalEvents_mode : Mode cfg n batch n (normalEvents cfg n batch) := by
  obtain ⟨h1, h2, h3, h4⟩ := launchNext_readings n 0
  have hturn := normalTurn_readings cfg n batch
  unfold normalEvents
  refine ⟨?_, ?_, ?_, fun l hl => ?_, ?_⟩
  · rw [suspensions_append, h1, nil_append, suspensions_flatMap,
      flatMap_congr fun l _ => (hturn l).1]
    simpa using flatMap_replicate n 1 false
  · rw [puts_append, h3, nil_append, ← puts_layers, puts_flatMap]
    exact flatMap_congr fun l _ => (hturn l).2.2.1
  · rw [sources_append, h2, nil_append, sources_flatMap,
      flatMap_congr fun l _ => (hturn l).2.1]
    exact flatMap_singleton' _
  · rw [launches_append, h4, mem_append]
    cases l with
    | zero => exact .inl (by rw [if_pos hl]; exact mem_cons_self)
    | succ l =>
      rw [launches_flatMap, mem_flatMap]
      refine .inr ⟨l, mem_range.2 (by omega), ?_⟩
      rw [(hturn l).2.2.2, if_pos hl]
      exact mem_append_left _ mem_cons_self
  · refine (Sourced.of_no_puts h3 []).append ?_
    rw [h2]
    refine Sourced.flatMap_range n fun l _ => ⟨nofun, nofun, ?_⟩
    refine (Sourced.of_no_puts (launchNext_readings n (l + 1)).2.2.1 _).append ?_
    exact layerPut_sourced cfg batch (by simp [Event.sources])

theorem deferredEvents_mode : Mode cfg n batch (2 * n + 1) (deferredEvents cfg n batch) := by
  have hdrain : ∀ l, suspensions (drainTurn cfg batch l) = [] ∧
      sources (drainTurn cfg batch l) = [l] ∧
      puts (drainTurn cfg batch l) = puts (layerPut cfg batch l) := by
    intro l
    obtain ⟨h1, h2, -⟩ := layerPut_readings cfg batch l
    exact ⟨h1, congrArg (l :: ·) h2, rfl⟩
  have hnosave : puts ((range n).flatMap saveTurn) = [] := by
    rw [puts_flatMap]
    exact flatMap_eq_nil_iff.2 fun _ _ => rfl
  have hnosource : sources ((range n).flatMap saveTurn) = [] := by
    rw [sources_flatMap]
    exact flatMap_eq_nil_iff.2 fun _ _ => rfl
  have hsplit : deferredEvents cfg n batch = [.suspend false] ++
      ((range n).flatMap saveTurn ++ (range n).flatMap (drainTurn cfg batch)) := rfl
  rw [hsplit]
  refine ⟨?_, ?_, ?_, fun l hl => ?_, ?_⟩
  · rw [suspensions_append, suspensions_append, suspensions_flatMap, suspensions_flatMap,
      flatMap_eq_nil_iff.2 fun l _ => (hdrain l).1, append_nil, Nat.mul_comm,
      Nat.add_comm, replicate_add, ← flatMap_replicate]
    rfl
  · rw [puts_append, puts_append, hnosave, ← puts_layers, puts_flatMap,
      flatMap_congr fun l _ => (hdrain l).2.2]
    rfl
  · rw [sources_append, sources_append, hnosource, sources_flatMap,
      flatMap_congr fun l _ => (hdrain l).2.1]
    exact flatMap_singleton' _
  · rw [launches_append, launches_append, mem_append, mem_append, launches_flatMap,
      mem_flatMap]
    exact .inr (.inl ⟨l, mem_range.2 hl, mem_cons_self⟩)
  · refine (Sourced.of_no_puts rfl []).append ((Sourced.of_no_puts hnosave _).append ?_)
    rw [hnosource]
    refine Sourced.flatMap_range n fun l _ => ⟨nofun, layerPut_sourced cfg batch ?_⟩
    exact mem_append_right _ mem_cons_self

theorem groupEvents_mode : Mode cfg n batch n (groupEvents cfg n batch) := by
  have hread := layerPut_readings cfg batch
  have hempty : ∀ {α : Type}, ((range n).flatMap fun _ => ([] : List α)) = [] :=
    flatMap_eq_nil_iff.2 fun _ _ => rfl
  -- the copies of all layers, before the first put
  let copied : List Event := (range n).flatMap (fun _ => [.suspend false]) ++
    ((range n).flatMap (fun l => [.copy (.launch l)]) ++
      (range n).flatMap fun l => [.copy (.sourceDone l)])
  have hsplit : groupEvents cfg n batch = copied ++ (range n).flatMap (layerPut cfg batch) := by
    unfold groupEvents
    rw [map_eq_flatMap, map_eq_flatMap, ← append_assoc]
  have hsuspensions : suspensions copied = replicate n false := by
    have := flatMap_replicate n 1 false
    rw [Nat.mul_one] at this
    rw [suspensions_append, suspensions_append, suspensions_flatMap, suspensions_flatMap,
      suspensions_flatMap, ← this]
    exact (congrArg _ (congrArg₂ _ hempty hempty)).trans (append_nil _)
  have hputs : puts copied = [] := by
    rw [puts_append, puts_append, puts_flatMap, puts_flatMap, puts_flatMap]
    exact congrArg₂ _ hempty (congrArg₂ _ hempty hempty)
  have hsources : sources copied = range n := by
    rw [sources_append, sources_append, sources_flatMap, sources_flatMap, sources_flatMap]
    exact congrArg₂ _ hempty (congrArg₂ _ hempty (flatMap_singleton' _))
  rw [hsplit]
  refine ⟨?_, ?_, ?_, fun l hl => ?_, ?_⟩
  · rw [suspensions_append, hsuspensions, suspensions_flatMap,
      flatMap_eq_nil_iff.2 fun l _ => (hread l).1, append_nil]
  · rw [puts_append, hputs, puts_flatMap, ← puts_layers, nil_append]
  · rw [sources_append, hsources, sources_flatMap,
      flatMap_eq_nil_iff.2 fun l _ => (hread l).2.1, append_nil]
  · rw [launches_append, launches_append, launches_append, launches_flatMap, launches_flatMap]
    refine mem_append_left _ (mem_append_right _ (mem_append_left _ ?_))
    exact mem_flatMap.2 ⟨l, mem_range.2 hl, mem_cons_self⟩
  · refine (Sourced.of_no_puts hputs []).append ?_
    rw [nil_append, hsources]
    exact Sourced.layers n fun l hl _ =>
      layerPut_sourced cfg batch (mem_append_left _ (mem_range.2 hl))

end

/-! ## Whole calls -/

section

variable {cfg : Config} {env : Env} {batch : List BatchChunk} {s : Run}

/-- How many suspension points there are before the last. -/
def points (cfg : Config) (env : Env) : Nat :=
  if deferred cfg env then 2 * env.engineLayers + 1 else env.engineLayers

theorem copyOut_shows : wp (copyOut cfg (withConnector cfg env) env.engineLayers batch)
    (post (fun _ s' => ∃ es, shown s'.events = shown s.events ++ es ∧
      Mode cfg env.engineLayers batch (points cfg env) es) fun _ _ => True) s := by
  unfold copyOut points
  split
  · refine wp_cases groupStore_shows (fun _ _ h' => trivial) fun u s' h' => ?_
    refine ⟨_, h'.2, ?_⟩
    have hd : deferred cfg env = false := h'.1
    rw [hd, if_neg Bool.false_ne_true]
    exact groupEvents_mode cfg env.engineLayers batch
  · unfold generatorStore
    rw [wp_modify_bind, wp_bind]
    show wp advance _ { s with generator := batchedFromGpu (deferred cfg env) env.engineLayers }
    cases hd : deferred cfg env with
    | true =>
      refine wp_returns (advance_yields rfl) fun report s1 h1 => ?_
      obtain ⟨-, h1, hg1⟩ := h1
      rw [post_ok, show deferred cfg (withConnector cfg env) = true from hd, if_pos rfl]
      refine wp_any (deferredStore_shows hg1) fun u s2 h2 => ?_
      refine ⟨_, ?_, deferredEvents_mode cfg env.engineLayers batch⟩
      rw [h2, h1]
      exact congrArg (· ++ _) (append_nil _)
    | false =>
      refine wp_returns (advance_yields rfl) fun report s1 h1 => ?_
      obtain ⟨-, h1, hg1⟩ := h1
      rw [post_ok, show deferred cfg (withConnector cfg env) = false from hd,
        if_neg (by simp)]
      refine wp_any (normalStore_shows hg1) fun u s2 h2 => ?_
      refine ⟨_, ?_, normalEvents_mode cfg env.engineLayers batch⟩
      rw [h2, h1]
      exact append_assoc ..

/-- The events of a transfer: those of its way, and the puts of a page-first store. -/
def TransferEvents (cfg : Config) (env : Env) (batch : List BatchChunk) (es : List Event) : Prop :=
  ∃ copied, es = copied ++
      (if cfg.pageFirst then (batchPuts cfg env.engineLayers batch).map .put else []) ∧
    Mode cfg env.engineLayers batch (points cfg env) copied

theorem transferBody_shows :
    wp (transferBody cfg (withConnector cfg env) env.engineLayers batch)
      (post (fun _ s' => ∃ es, shown s'.events = shown s.events ++ es ∧
        TransferEvents cfg env batch es) fun _ _ => True) s := by
  have htail : Adds (if cfg.pageFirst then
      putPageFirst cfg (withConnector cfg env) env.engineLayers batch else pure ())
      (if cfg.pageFirst then (batchPuts cfg env.engineLayers batch).map .put else []) := by
    by_cases hp : cfg.pageFirst = true
    · rw [if_pos hp, if_pos hp]
      exact Adds.putPageFirst cfg _ env.engineLayers batch hp
    · rw [if_neg hp, if_neg hp]
      exact Adds.pure _
  unfold transferBody
  refine wp_bind_any copyOut_shows fun u s1 h1 => ?_
  obtain ⟨es, h1, hmode⟩ := h1
  refine wp_any (((Adds.call _).andThen htail).after h1) fun u s2 h2 => ?_
  exact ⟨_, by rw [h2.1, append_assoc], es, rfl, hmode⟩

theorem transfer_shows : wp (transfer cfg (withConnector cfg env) env.engineLayers batch)
    (post (fun _ s' => env.prepare = .ok () ∧ ∃ es, shown s'.events = shown s.events ++ es ∧
      TransferEvents cfg env batch es) fun _ _ => True) s := by
  have hclean : ∀ s1, wp cleanUp (post (fun _ s2 => shown s2.events = shown s1.events)
      fun _ _ => False) s1 := by
    intro s1
    have h := Adds.cleanUp s1
    exact h.1.trans (append_nil _)
  unfold transfer
  rw [wp_bind, wp_call]
  rcases hprep : (withConnector cfg env).prepare with e | u
  · exact trivial
  rw [post_ok, wp_modify_bind]
  refine wp_bind_any ((Adds.publishChunks cfg _ env.engineLayers batch).after rfl)
    fun u s1 h1 => ?_
  refine wp_finally (wp_mono transferBody_shows ?_)
  rintro (e | u) s2 h2
  · refine wp_returns (hclean s2) fun u s3 h3 => ?_
    exact trivial
  obtain ⟨es, h2, hes⟩ := h2
  refine wp_returns (hclean s2) fun u s3 h3 => ?_
  refine ⟨hprep, es, ?_, hes⟩
  rw [h3, h2, h1.1]
  exact congrArg (· ++ es) (append_nil _)

/-- What a call shows: the suspension points of a call that has nothing to store, or the events of
a transfer. -/
inductive CallEvents (cfg : Config) (env : Env) : List Event → Prop
  | idle (empty : publishedBatch cfg env = []) :
      CallEvents cfg env (replicate (points cfg env) (.suspend false) ++ [.suspend true])
  | transfer {es : List Event} (held : Held cfg env.engineLayers (publishedBatch cfg env))
      (nonempty : publishedBatch cfg env ≠ [])
      (shows_ : TransferEvents cfg env (publishedBatch cfg env) es) :
      CallEvents cfg env (es ++ [.suspend true])

theorem idle_points : (if deferred cfg env then
    .suspend false :: (range env.engineLayers).flatMap fun _ => [.suspend false, .suspend false]
    else (range env.engineLayers).flatMap fun _ => [.suspend false]) =
      replicate (points cfg env) (Event.suspend false) := by
  unfold points
  cases deferred cfg env with
  | true =>
    rw [if_pos rfl, if_pos rfl, Nat.mul_comm, Nat.add_comm, replicate_add,
      ← flatMap_replicate]
    rfl
  | false =>
    rw [if_neg Bool.false_ne_true, if_neg Bool.false_ne_true]
    simpa using flatMap_replicate env.engineLayers 1 (Event.suspend false)

/-- What a call shows on each of its paths. -/
theorem storeLayer_shows (cfg : Config) (env : Env) :
    wp (storeLayer cfg (withConnector cfg env))
      (post (fun _ s' => CallEvents cfg env (shown s'.events)) fun _ _ => True) Run.init := by
  have hidle : ∀ layers s, layers = env.engineLayers → shown s.events = [] →
      publishedBatch cfg env = [] →
      wp (do idle cfg (withConnector cfg env) layers; deliver (withConnector cfg env))
        (post (fun _ s' => CallEvents cfg env (shown s'.events)) fun _ _ => True) s := by
    rintro layers s rfl hs hempty
    refine wp_cases (((Adds.idle cfg (withConnector cfg env) env.engineLayers).bind fun _ =>
      Adds.suspendWith _ true).after hs)
      (fun _ _ h' => trivial) ?_
    rintro u s' h'
    rw [post_ok, h'.1, nil_append]
    have := @idle_points cfg env
    rw [show deferred cfg (withConnector cfg env) = deferred cfg env from rfl, this]
    exact .idle hempty
  unfold storeLayer
  rw [wp_bind, wp_call]
  cases h1 : numLayersForKvGroup (withConnector cfg env).engineLayers
    (withConnector cfg env).connectorLayers with
  | error e => exact trivial
  | ok layers =>
    rw [post_ok]
    split
    · next hstop =>
      have hnone : planned env = none := by
        have hstop : env.healthy = false ∨ env.passive = true ∨ env.frozen = true := hstop
        have h1 : numLayersForKvGroup env.engineLayers env.connectorLayers = .ok layers := h1
        simp [planned, h1, hstop, Except.toOption]
      exact hidle layers Run.init (layers_eq h1) rfl (by rw [publishedBatch, hnone])
    · next hgo =>
      unfold storeBatch
      rw [wp_bind, wp_call]
      cases h2 : numTransferLayersForCall (withConnector cfg env).engineLayers
        (withConnector cfg env).detectedLayers (withConnector cfg env).kvcaches with
      | error e => exact trivial
      | ok n =>
        obtain rfl : n = env.engineLayers := transferLayers_eq h2
        rw [post_ok, wp_bind, wp_call]
        rcases h3 : (withConnector cfg env).plan with e | candidates
        · exact trivial
        rw [post_ok, wp_bind, pendingChunks_eq, wp_call]
        rcases h4 : unstored candidates with e | pending
        · exact trivial
        rw [post_ok]
        have hplanned : planned env = some (env.engineLayers, pending) := by
          have hgo : ¬(env.healthy = false ∨ env.passive = true ∨ env.frozen = true) := hgo
          have h1 : numLayersForKvGroup env.engineLayers env.connectorLayers = .ok layers := h1
          have h2 : numTransferLayersForCall env.engineLayers env.detectedLayers env.kvcaches =
            .ok env.engineLayers := h2
          have h3 : env.plan = .ok candidates := h3
          simp [planned, h1, hgo, h2, h3, h4, Except.toOption]
        refine wp_bind_of (wp_and (wp_and (@allocateAll_spec cfg (withConnector cfg env) _ _ _
          Accounts.init) (Adds.allocateAll cfg _ env.engineLayers pending Run.init))
          (wp_run _ _)) (fun _ _ _ => trivial) ?_
        rintro batch s1 ⟨⟨hst, hshown⟩, hrun⟩
        rw [post_ok] at hst hshown
        have hbatch : publishedBatch cfg env =
            (env.prepare.toOption.map fun _ => batch).getD [] := by
          have hrun : (allocateAll cfg env env.engineLayers pending Run.init).1 = .ok batch :=
            congrArg Prod.fst hrun
          rw [publishedBatch, hplanned]
          simp only [hrun]
          cases env.prepare <;> rfl
        split
        · next hb =>
          refine hidle env.engineLayers s1 rfl hshown.1 ?_
          rw [hbatch, hb]
          cases env.prepare <;> rfl
        · next hb =>
          refine wp_bind_any transfer_shows fun u s2 h2 => ?_
          obtain ⟨hprep, es, h2, hes⟩ := h2
          rw [hprep] at hbatch
          change publishedBatch cfg env = batch at hbatch
          refine wp_cases ((Adds.suspendWith _ true).after h2) (fun _ _ h3 => trivial)
            fun u s3 h3 => ?_
          rw [post_ok, h3.1, hshown.1]
          subst hbatch
          exact .transfer ⟨hst.ok, hst.accounts.nodup_held⟩ hb hes

/-! ## The suspension protocol -/

theorem puts_map_put (ps : List (List PutItem)) : puts (ps.map .put) = ps := by
  unfold puts
  rw [flatMap_map]
  exact flatMap_singleton' ps

theorem suspensions_map_put (ps : List (List PutItem)) : suspensions (ps.map .put) = [] := by
  unfold suspensions
  rw [flatMap_map]
  exact flatMap_eq_nil_iff.2 fun _ _ => rfl

theorem Sourced.map_put {ps : List (List PutItem)}
    (h : ∀ item ∈ ps.flatten, ∀ l ∈ item.layers, l ∈ done) : Sourced done (ps.map .put) := by
  induction ps with
  | nil => trivial
  | cons items ps ih =>
    refine ⟨fun items' hi item hm => ?_, ?_⟩
    · rw [mem_singleton.1 hi] at hm
      exact h item (mem_append_left _ hm)
    · rw [show (Event.put items).sources = [] from rfl, append_nil]
      exact ih fun item hm => h item (mem_append_right _ hm)

/-- A transfer, read as a whole: all its puts, and what they need. -/
structure TransferReadings (cfg : Config) (env : Env) (batch : List BatchChunk)
    (es : List Event) : Prop where
  suspensions : suspensions es = replicate (points cfg env) false
  puts : puts es = batchPuts cfg env.engineLayers batch
  launches : ∀ l < env.engineLayers, l ∈ launches es
  sourced : Sourced [] es

theorem TransferEvents.readings (h : TransferEvents cfg env batch es)
    (hh : Held cfg env.engineLayers batch) : TransferReadings cfg env batch es := by
  obtain ⟨copied, rfl, hm⟩ := h
  have hlaunch : ∀ more, ∀ l < env.engineLayers, l ∈ StoreLayer.launches (copied ++ more) := by
    intro more l hl
    rw [launches_append]
    exact mem_append_left _ (hm.launches l hl)
  have hputs := hm.puts
  by_cases hp : cfg.pageFirst = true
  · rw [if_pos hp] at hputs ⊢
    refine ⟨?_, ?_, hlaunch _, hm.sourced.append ?_⟩
    · rw [suspensions_append, hm.suspensions, suspensions_map_put, append_nil]
    · rw [puts_append, hputs, puts_map_put, nil_append]
    · rw [nil_append, hm.sources]
      exact Sourced.map_put fun item hi l hl =>
        let ⟨_, _, _, hlay⟩ := hh.mem_batchPuts hi
        mem_range.2 (hlay l hl).1
  · rw [if_neg hp] at hputs ⊢
    refine ⟨?_, ?_, hlaunch _, ?_⟩
    · rw [append_nil, hm.suspensions]
    · rw [append_nil, hputs]
      unfold batchPuts
      rw [if_pos (by simpa using hp)]
    · rw [append_nil]
      exact hm.sourced

theorem CallEvents.suspensions (h : CallEvents cfg env es) :
    suspensions es = replicate (points cfg env) false ++ [true] := by
  cases h with
  | idle =>
    rw [suspensions_append]
    unfold StoreLayer.suspensions
    rw [List.flatMap_replicate]
    exact congrArg (· ++ _) flatten_replicate_singleton
  | transfer held _ hes =>
    rw [suspensions_append, (hes.readings held).suspensions]
    rfl

theorem mem_launches {events : List Event} {l : Nat} :
    l ∈ launches events ↔ .copy (.launch l) ∈ events := by
  unfold launches
  rw [mem_flatMap]
  constructor
  · rintro ⟨e, he, hl⟩
    rcases e with _ | _ | _ | _ | (_ | l')
    case copy.launch =>
      rw [mem_singleton.1 hl]
      exact he
    all_goals cases hl
  · exact fun h => ⟨_, h, mem_cons_self⟩

/-- The puts that a call shows, read as layers of the batch. -/
theorem publishes_of_shown {events : List Event} (he : shown events = es)
    (h : CallEvents cfg env es) : Publishes env.engineLayers (publishedBatch cfg env) events := by
  have hputs : puts events = puts es := by
    rw [← he]
    exact (flatMap_shown Event.puts (fun e h => by cases e <;> first | rfl | cases h) events).symm
  have hcopy : ∀ c, .copy c ∈ events ↔ .copy c ∈ es := by
    intro c
    rw [← he]
    exact ⟨fun hm => mem_filter.2 ⟨hm, rfl⟩, fun hm => (mem_filter.1 hm).1⟩
  cases h with
  | idle hempty =>
    have hnone : puts events = [] := by
      rw [hputs, puts_append]
      unfold puts
      rw [List.flatMap_replicate]
      exact congrArg (· ++ _) flatten_replicate_nil
    have hnoitem : ∀ item, item ∉ (puts events).flatten := by
      rw [hnone]
      exact fun _ => not_mem_nil
    rw [hempty]
    refine ⟨fun l _ => ?_, fun item hi => absurd hi (hnoitem item), fun c hc => (nomatch hc),
      fun _ _ h0 => absurd rfl h0, fun item hi => absurd hi (hnoitem item),
      fun a items b hs => ?_⟩
    · rw [hcopy]
      simp
    · have hmem : items ∈ puts events := by
        rw [hs]
        exact mem_flatMap.2 ⟨.put items, by simp, mem_cons_self⟩
      rw [hnone] at hmem
      cases hmem
  | transfer held nonempty hes =>
    rename_i es
    have hr := hes.readings held
    have hall : puts events = batchPuts cfg env.engineLayers (publishedBatch cfg env) := by
      rw [hputs, puts_append, hr.puts]
      exact append_nil _
    refine ⟨fun l hl => ?_, fun item hi => ?_, fun c hc => ?_, fun kind hk _ => ?_,
      fun item hi item' hi' hp hp' => ?_, fun a items b hs item hi l hl => ?_⟩
    · rw [hcopy, ← mem_launches, launches_append]
      refine ⟨fun _ => ?_, fun _ => mem_append_left _ (hr.launches l hl)⟩
      exact nonempty
    · rw [hall] at hi
      obtain ⟨x, hx, -, hlay⟩ := held.mem_batchPuts hi
      exact ⟨x, hx, fun l hl => (hlay l hl).2⟩
    · rw [hall]
      exact held.batchPuts_once hc
    · rw [hall] at hk ⊢
      exact held.batchPuts_order nonempty hk
    · rw [hall] at hi hi' ⊢
      obtain ⟨heq, h1, h2⟩ := held.batchPuts_mixed hi hi' hp hp'
      refine ⟨_, _, heq, fun item hi => Held.page_of_mem_pageItems hi,
        fun item hi => (Held.mem_flatItems_iff.1 hi).2, Held.layersIn_pageItems h1,
        held.layersIn_flatItems h2⟩
    · have hsplit : es ++ [.suspend true] = shown a ++ .put items :: shown b := by
        rw [← he, hs, shown_append]
        rfl
      have hsourced : Sourced [] (es ++ [.suspend true]) :=
        hr.sourced.append (Sourced.of_no_puts rfl _)
      rcases hsourced.before hsplit hi hl with hd | hd
      · cases hd
      · exact (mem_filter.1 hd).1

/-- A call that is driven to its end suspends once for each layer and once with the result, twice
and once more when it is deferred; and it stores each layer of each chunk that its allocation has
returned once, in order, when the connector has reported it. -/
theorem store_layer_suspensions (cfg : Config) (env : Env)
    (h : (storeLayer cfg (withConnector cfg env) Run.init).1 = .ok ()) :
    let events := (storeLayer cfg (withConnector cfg env) Run.init).2.events
    suspensions events = replicate (if deferred cfg env then 2 * env.engineLayers + 1
        else env.engineLayers) false ++ [true] ∧
      Publishes env.engineLayers (publishedBatch cfg env) events := by
  have hspec := storeLayer_shows cfg env
  unfold wp at hspec
  rw [h, post_ok] at hspec
  refine ⟨?_, publishes_of_shown rfl hspec⟩
  have := hspec.suspensions
  unfold suspensions at this ⊢
  rw [flatMap_shown _ fun e h => by cases e <;> first | rfl | cases h] at this
  exact this

end

/-- A store of a page and of a chunk that gets no page. -/
def mixedEnv : Env := quietEnv [newChunk 0 (.ok (some 1)), newChunk 4 (.ok none)] []

theorem mixed_store_suspensions :
    let events := (storeLayer pageConfig (withConnector pageConfig mixedEnv) Run.init).2.events
    suspensions events = replicate 2 false ++ [true] ∧
      (publishedBatch pageConfig mixedEnv).length = 2 ∧
      Publishes 2 (publishedBatch pageConfig mixedEnv) events := by
  have h := store_layer_suspensions pageConfig mixedEnv rfl
  exact ⟨h.1, rfl, h.2⟩

/-- Its pages are put with both layers before the first layer of the other chunk. -/
theorem mixed_store_out_of_order :
    ¬ ∀ (cfg : Config) (env : Env), (storeLayer cfg (withConnector cfg env) Run.init).1 = .ok () →
      .copy (.launch 0) ∈ (storeLayer cfg (withConnector cfg env) Run.init).2.events →
      (puts (storeLayer cfg (withConnector cfg env) Run.init).2.events).flatMap
        (layersIn env.engineLayers) = range env.engineLayers := by
  intro h
  have h' := h pageConfig mixedEnv rfl (by decide)
  revert h'
  decide

end StoreLayer
