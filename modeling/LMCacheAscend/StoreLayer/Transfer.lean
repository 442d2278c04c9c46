import LMCacheAscend.StoreLayer.Publication

/-!
# The transfer of a batch

What holds along a transfer, wherever it is closed and whatever raises in it:
the objects that are still pending are those of the layers that the storage does
not have yet, and the lists are those of the chunks and the noted layers.
-/

namespace StoreLayer

open Lib List

/-- A transfer, and how many objects were left behind before it. -/
structure Job where
  cfg : Config
  env : Env
  layers : Nat
  batch : List BatchChunk
  left : Nat

namespace Job

variable (j : Job)

/-- The chunks that are in the lists. -/
def chunks : List BatchChunk := selected j.cfg j.env j.batch

/-- What is pending when the storage has the layers `done`; a page-first store puts nothing layer
by layer. -/
def remaining (done : List Nat) : List MemoryObj :=
  (uniqueObjs (j.batch.flatMap Prod.snd)).filter fun obj =>
    obj ∉ (if j.cfg.pageFirst then [] else done).flatMap (rowOf j.batch)

/-- What holds wherever the body stops. -/
structure Stopped (s : Run) : Prop where
  accounts : Accounts s j.left s.pending
  lists : ∃ noted, Published j.layers j.chunks noted s.lists
  kept : ∀ obj ∈ owned j.batch, obj ∉ released s.events
  undelivered : Event.suspend true ∉ s.events

/-- What holds between its steps. -/
structure Serving (noted done : List Nat) (s : Run) : Prop where
  accounts : Accounts s j.left s.pending
  lists : Published j.layers j.chunks noted s.lists
  kept : ∀ obj ∈ owned j.batch, obj ∉ released s.events
  undelivered : Event.suspend true ∉ s.events
  pending : s.pending = j.remaining done
  nodup : done.Nodup
  valid : ∀ l ∈ done, l < j.layers

/-- All layers are done. -/
def Served (s : Run) : Prop := ∃ noted done, j.Serving noted done s ∧ j.layers ≤ done.length

variable {j}

theorem Serving.stopped {noted done : List Nat} {s : Run} (h : j.Serving noted done s) :
    j.Stopped s :=
  ⟨h.accounts, ⟨noted, h.lists⟩, h.kept, h.undelivered⟩

theorem Serving.neutral {noted done : List Nat} {s s' : Run} (h : j.Serving noted done s)
    {es : List Event} (hs : s'.events = s.events ++ es)
    (hn : ∀ e ∈ es, e.neutral = true ∧ e ≠ .suspend true)
    (hid : s'.nextId = s.nextId) (hp : s'.pending = s.pending) (hl : s'.lists = s.lists) :
    j.Serving noted done s' := by
  have hrel : released s'.events = released s.events := by
    have hnil : released es = [] := by
      unfold released
      rw [flatMap_eq_nil_iff]
      intro e he
      have := (hn e he).1
      cases e <;> first | rfl | cases this
    rw [hs, released_append, hnil, append_nil]
  refine ⟨?_, ?_, ?_, ?_, ?_, h.nodup, h.valid⟩
  · rw [hp]
    exact h.accounts.neutral (fun e he => (hn e he).1) hs hid
  · rw [hl]
    exact h.lists
  · rw [hrel]
    exact h.kept
  · rw [hs, mem_append]
    rintro (hm | hm)
    · exact h.undelivered hm
    · exact (hn _ hm).2 rfl
  · rw [hp]
    exact h.pending

theorem mem_remaining {done : List Nat} {obj : MemoryObj} :
    obj ∈ j.remaining done ↔ obj ∈ owned j.batch ∧
      obj ∉ (if j.cfg.pageFirst then [] else done).flatMap (rowOf j.batch) := by
  unfold remaining
  rw [mem_filter, mem_uniqueObjs, mem_objs_iff, mem_owned, decide_eq_true_eq]

theorem remaining_pageFirst (hp : j.cfg.pageFirst = true) (done : List Nat) :
    j.remaining done = uniqueObjs (j.batch.flatMap Prod.snd) := by
  unfold remaining
  rw [if_pos hp, filter_eq_self]
  intro obj _
  simp

variable {l layer : Nat} {items : List PutItem}

theorem valid_snoc {done : List Nat} {n : Nat} (h : ∀ k ∈ done, k < n) (hl : l < n) :
    ∀ k ∈ done ++ [l], k < n := by
  intro k hk
  rcases mem_append.1 hk with hk | hk
  · exact h k hk
  · rw [mem_singleton.1 hk]
    exact hl

theorem covers {done : List Nat} {n : Nat} (hnd : done.Nodup) (hv : ∀ l ∈ done, l < n)
    (hlen : n ≤ done.length) (hl : l < n) : l ∈ done := by
  have hsub : done.Subperm (range n) :=
    subperm_of_subset hnd fun k hk => mem_range.2 (hv k hk)
  exact (hsub.perm_of_length_le (by simpa using hlen)).mem_iff.2 (mem_range.2 hl)

theorem Served.pending_eq_nil {s : Run} (h : j.Served s) (hh : Held j.cfg j.layers j.batch)
    (hp : j.cfg.pageFirst = false) : s.pending = [] := by
  obtain ⟨noted, done, h, hlen⟩ := h
  rw [h.pending, eq_nil_iff_forall_not_mem]
  intro obj hobj
  rw [mem_remaining, hp] at hobj
  obtain ⟨l, hl, hrow⟩ := hh.mem_some_row hobj.1
  exact hobj.2 (mem_flatMap.2 ⟨l, covers h.nodup h.valid hlen hl, hrow⟩)

/-! ## Steps -/

variable {noted done : List Nat} {s : Run}

theorem pause_spec (h : j.Serving noted done s) :
    wp (pause j.env) (post (fun _ s' => j.Serving noted done s') fun _ s' => j.Stopped s') s := by
  have h' : j.Serving noted done { s with events := s.events ++ [.suspend false] } :=
    h.neutral rfl (by simp [Event.neutral]) rfl rfl rfl
  unfold pause suspendWith log
  simp only [wp_bind, wp_get, wp_modify, post_ok, wp_call]
  rcases j.env.resume _ with e | u
  · exact h'.stopped
  · exact h'

theorem advance_spec (h : j.Serving noted done s) :
    wp advance (post (fun _ s' => j.Serving noted done s' ∧
        s'.generator.length < s.generator.length) fun _ s' => j.Serving noted done s') s := by
  have hstep : ∀ (copies : List Copy) (rest : List Resumption), j.Serving noted done
      { s with events := s.events ++ copies.map .copy, generator := rest } := by
    intro copies rest
    refine h.neutral (show _ = s.events ++ copies.map .copy from rfl) (fun e he => ?_) rfl rfl rfl
    obtain ⟨c, -, rfl⟩ := mem_map.1 he
    exact ⟨rfl, nofun⟩
  unfold advance
  rw [wp_get_bind]
  rcases hg : s.generator with _ | ⟨copies, report⟩ | ⟨copies, e⟩
  · exact h
  · rename_i rest
    exact ⟨hstep copies rest, Nat.lt_succ_self _⟩
  · exact hstep copies []

theorem appendLayer_spec (h : j.Serving noted done s) (hl : layer ∉ noted) :
    wp (appendLayerStoreTensors j.cfg j.env j.layers j.batch layer)
      (post (fun _ s' => j.Serving (noted ++ [layer]) done s' ∧ s'.generator = s.generator)
        fun _ s' => j.Stopped s') s := by
  unfold appendLayerStoreTensors setLists
  simp only [wp_bind, wp_call]
  rcases j.env.tensors layer with e | u
  · exact h.stopped
  simp only [post_ok, wp_modify]
  exact ⟨⟨h.accounts.congr rfl rfl rfl rfl, h.lists.append hl, h.kept, h.undelivered, h.pending,
    h.nodup, h.valid⟩, trivial⟩

theorem times_filter {held objs : List MemoryObj} (hh : held.Nodup) (ho : objs.Nodup)
    (hs : ∀ obj ∈ objs, obj ∈ held) (x : MemoryObj) :
    times held x = times (held.filter fun obj => obj ∉ objs) x + times objs x := by
  have hle := nodup_iff_count_le_one.1 hh x
  have hle' := nodup_iff_count_le_one.1 ho x
  have hlef := nodup_iff_count_le_one.1 (hh.filter fun obj => obj ∉ objs) x
  have hf : x ∈ held.filter (fun obj => obj ∉ objs) ↔ x ∈ held ∧ x ∉ objs := by
    rw [mem_filter, decide_eq_true_eq]
  unfold times at *
  by_cases hx : x ∈ objs
  · have h1 := count_pos_iff.2 (hs x hx)
    have h2 := count_pos_iff.2 hx
    have h3 : count x (held.filter fun obj => obj ∉ objs) = 0 :=
      count_eq_zero.2 fun hm => (hf.1 hm).2 hx
    omega
  · have h2 : count x objs = 0 := count_eq_zero.2 hx
    by_cases hm : x ∈ held
    · have h1 := count_pos_iff.2 hm
      have h3 := count_pos_iff.2 (hf.2 ⟨hm, hx⟩)
      omega
    · have h1 : count x held = 0 := count_eq_zero.2 hm
      have h3 : count x (held.filter fun obj => obj ∉ objs) = 0 :=
        count_eq_zero.2 fun hm' => hm (hf.1 hm').1
      omega

theorem handOver_stopped (h : j.Stopped s) (hnd : (items.map PutItem.obj).Nodup)
    (hs : ∀ obj ∈ items.map PutItem.obj, obj ∈ s.pending) :
    wp (handOver items)
      (post (fun _ s' => j.Stopped s' ∧ s'.lists = s.lists ∧ s'.generator = s.generator ∧
          s'.pending = s.pending.filter fun obj => obj ∉ items.map PutItem.obj)
        fun _ _ => False) s := by
  refine ⟨⟨?_, h.lists, fun obj ho => ?_, ?_⟩, rfl, rfl, rfl⟩
  · exact h.accounts.put (times_filter h.accounts.nodup_held hnd hs) rfl rfl
  · show obj ∉ released (s.events ++ [.put items])
    rw [released_append]
    show obj ∉ released s.events ++ []
    rw [append_nil]
    exact h.kept obj ho
  · show Event.suspend true ∉ s.events ++ [.put items]
    simp [h.undelivered]

theorem putLayer_spec (hh : Held j.cfg j.layers j.batch) (hp : j.cfg.pageFirst = false)
    (h : j.Serving noted done s) (hl : layer < j.layers) (hd : layer ∉ done) :
    wp (putLayer j.env j.batch layer)
      (post (fun _ s' => j.Serving noted (done ++ [layer]) s' ∧ s'.generator = s.generator)
        fun _ s' => j.Stopped s') s := by
  have hs : j.cfg.pageStore = false := by
    cases hs : j.cfg.pageStore with
    | false => rfl
    | true =>
      rw [j.cfg.merged hs] at hp
      cases hp
  unfold putLayer
  rw [wp_bind, wp_call]
  rcases j.env.putLayer layer with e | u
  · exact h.stopped
  rw [post_ok]
  have hsub : ∀ obj ∈ (layerItems j.batch layer).map PutItem.obj, obj ∈ s.pending := by
    intro obj ho
    rw [map_layerItems] at ho
    rw [h.pending, mem_remaining, hp]
    refine ⟨Held.owned_of_mem_row ho, fun hm => ?_⟩
    obtain ⟨l, hld, hrow⟩ := mem_flatMap.1 hm
    obtain rfl := hh.row_inj ho hrow (hh.flat_of_mem_row hs ho)
    exact hd hld
  have hnd : ((layerItems j.batch layer).map PutItem.obj).Nodup := by
    rw [map_layerItems]
    exact hh.nodup_row layer
  refine wp_returns (handOver_stopped h.stopped hnd hsub) fun u s' h' => ?_
  obtain ⟨h', hlists, hg, hpend⟩ := h'
  refine ⟨⟨h'.accounts, hlists ▸ h.lists, h'.kept, h'.undelivered, ?_, ?_, ?_⟩, hg⟩
  · rw [hpend, h.pending, map_layerItems]
    unfold remaining
    rw [hp, filter_filter]
    refine filter_congr fun obj _ => ?_
    simp [not_or, and_comm]
  · exact nodup_snoc h.nodup hd
  · exact valid_snoc h.valid hl

theorem Serving.done_pageFirst (h : j.Serving noted done s) (hp : j.cfg.pageFirst = true)
    {done' : List Nat} (hnd : done'.Nodup) (hv : ∀ l ∈ done', l < j.layers) :
    j.Serving noted done' s := by
  refine ⟨h.accounts, h.lists, h.kept, h.undelivered, ?_, hnd, hv⟩
  rw [h.pending, remaining_pageFirst hp, remaining_pageFirst hp]

section

variable (hh : Held j.cfg j.layers j.batch)
include hh

theorem publish_spec (h : j.Serving done done s) (hd : layer ∉ done) :
    wp (publishCompletedLayer j.cfg j.env j.layers j.batch layer)
      (post (fun _ s' => j.Serving (done ++ [layer]) (done ++ [layer]) s' ∧
          s'.generator = s.generator)
        fun _ s' => j.Stopped s') s := by
  unfold publishCompletedLayer
  split
  · exact h.stopped
  next hl =>
  rw [wp_bind]
  rw [Nat.not_le] at hl
  refine wp_cases (appendLayer_spec h hd) (fun _ _ h => h) fun u s1 h1 => ?_
  obtain ⟨h1, hg1⟩ := h1
  rw [post_ok]
  cases hp : j.cfg.pageFirst with
  | true =>
    rw [if_pos rfl, wp_pure]
    exact ⟨h1.done_pageFirst hp (nodup_snoc h.nodup hd) (valid_snoc h.valid hl), hg1⟩
  | false =>
    rw [if_neg (by simp)]
    refine wp_ok (putLayer_spec hh hp h1 hl hd) fun u s2 h2 => ?_
    exact ⟨h2.1, h2.2.trans hg1⟩

/-! ## The connector's generator -/

theorem persist_spec (h : j.Serving done done s) (report : Report) :
    wp (persist j.cfg j.env j.layers j.batch done report)
      (post (fun done' s' => j.Serving done' done' s' ∧ s'.generator = s.generator)
        fun _ s' => j.Stopped s') s := by
  cases report with
  | nothing => exact ⟨h, rfl⟩
  | other => exact h.stopped
  | layer layer =>
    unfold persist
    dsimp only
    split
    · exact h.stopped
    · next hm =>
      refine wp_bind_ok (publish_spec hh h hm) fun u s' h' => ?_
      exact h'

theorem deferredSaves_spec (turns : Nat) (h : j.Serving done done s) :
    wp (deferredSaves j.cfg j.env j.layers j.batch turns done)
      (post (fun done' s' => j.Serving done' done' s') fun _ s' => j.Stopped s') s := by
  induction turns generalizing done s with
  | zero => exact h
  | succ turns ih =>
    unfold deferredSaves
    refine wp_bind_of (advance_spec h) (fun _ _ h1 => h1.stopped) fun report s1 h1 => ?_
    refine wp_bind_ok (pause_spec h1.1) fun u s2 h2 => ?_
    refine wp_bind_ok (persist_spec hh h2 report) fun done' s3 h3 => ?_
    refine wp_bind_ok (pause_spec h3.1) fun u s4 h4 => ?_
    exact ih h4

/-- The drain ends with all layers done: it has a turn for each resumption that is left. -/
theorem drain_spec (turns : Nat) (h : j.Serving done done s) (hg : s.generator.length < turns) :
    wp (drain j.cfg j.env j.layers j.batch turns done)
      (post (fun _ s' => j.Served s') fun _ s' => j.Stopped s') s := by
  induction turns generalizing done s with
  | zero => omega
  | succ turns ih =>
    unfold drain
    split
    · rw [wp_bind, wp_tryCatch]
      refine wp_mono (advance_spec h) ?_
      rintro (e | report) s1 h1
      · rw [post_error]
        cases e <;> exact h1.stopped
      rw [post_ok, post_ok]
      refine wp_bind_ok (persist_spec hh h1.1 report) fun done' s2 h2 => ?_
      refine ih h2.1 ?_
      have := h1.2
      rw [h2.2]
      omega
    · next hlen =>
      exact ⟨done, done, h, Nat.not_lt.1 hlen⟩

end

theorem finish_spec (h : j.Served s) :
    wp finish (post (fun _ s' => j.Served s') fun _ s' => j.Stopped s') s := by
  obtain ⟨noted, done, h, hlen⟩ := h
  unfold finish
  rw [wp_bind, wp_tryCatch]
  refine wp_mono (advance_spec h) ?_
  rintro (e | report) s1 h1
  · cases e with
    | stopIteration => exact ⟨noted, done, h1, hlen⟩
    | _ => exact h1.stopped
  · exact ⟨noted, done, h1.1, hlen⟩

section

variable (hh : Held j.cfg j.layers j.batch) (h : j.Serving [] [] s)
include hh h

theorem normalStore_spec :
    wp (normalStore j.cfg j.env j.layers j.batch)
      (post (fun _ s' => j.Served s') fun _ s' => j.Stopped s') s := by
  have hloop := wp_forM_range (n := j.layers)
    (I := fun i s => j.Serving (range i) (range i) s) (E := fun _ s' => j.Stopped s')
    (f := fun layer => do
      pause j.env
      let _ ← advance
      publishCompletedLayer j.cfg j.env j.layers j.batch layer)
    (fun i hi s hs => ?_) h
  · refine wp_ok hloop fun u s' h' => ?_
    exact ⟨_, _, h', by simp⟩
  · refine wp_bind_ok (pause_spec hs) fun u s1 h1 => ?_
    refine wp_bind_of (advance_spec h1) (fun _ _ h2 => h2.stopped) fun report s2 h2 => ?_
    refine wp_ok (publish_spec hh h2.1 (by simp)) fun u s3 h3 => ?_
    rw [range_succ]
    exact h3.1

theorem generatorStore_spec :
    wp (generatorStore j.cfg j.env j.layers j.batch)
      (post (fun _ s' => j.Served s') fun _ s' => j.Stopped s') s := by
  have h0 : j.Serving [] [] { s with generator := j.env.generator } :=
    h.neutral (show s.events = s.events ++ [] by simp) (by simp) rfl rfl rfl
  unfold generatorStore
  rw [wp_modify_bind]
  refine wp_bind_of (advance_spec h0) (fun _ _ h1 => h1.stopped) fun report s1 h1 => ?_
  cases deferred j.cfg j.env with
  | false => exact normalStore_spec hh h1.1
  | true =>
    rw [if_pos rfl]
    unfold deferredStore
    refine wp_bind_ok (pause_spec h1.1) fun u s2 h2 => ?_
    refine wp_bind_ok (deferredSaves_spec hh j.layers h2) fun done s3 h3 => ?_
    rw [wp_get_bind]
    refine wp_bind_ok (drain_spec hh _ h3 (Nat.lt_succ_self _)) fun u s4 h4 => ?_
    exact finish_spec h4

/-! ## The group store -/

theorem groupStore_spec :
    wp (groupStore j.cfg j.env j.layers j.batch)
      (post (fun _ s' => j.Served s') fun _ s' => j.Stopped s') s := by
  unfold groupStore
  cases deferred j.cfg j.env with
  | true =>
    rw [if_pos rfl]
    exact h.stopped
  | false =>
    rw [if_neg (by simp)]
    refine wp_bind_ok (wp_forM (I := fun s => j.Serving [] [] s) (E := fun _ s' => j.Stopped s')
      (fun _ _ s hs => pause_spec hs) h) ?_
    rintro u s1 h1
    rw [wp_bind, wp_call]
    rcases j.env.groupStore with e | u
    · exact h1.stopped
    rw [post_ok, wp_bind]
    have h2 : j.Serving [] [] { s1 with events := s1.events ++
        ((range j.layers).map (fun l => .copy (.launch l)) ++
          (range j.layers).map fun l => .copy (.sourceDone l)) } := by
      refine h1.neutral rfl (fun e he => ?_) rfl rfl rfl
      rcases mem_append.1 he with he | he
      all_goals
        obtain ⟨l, -, rfl⟩ := mem_map.1 he
        exact ⟨rfl, nofun⟩
    unfold log
    rw [wp_modify, post_ok, wp_bind]
    refine wp_mono (wp_forM_range (n := j.layers)
      (I := fun i s => j.Serving (range i) [] s) (E := fun _ s' => j.Stopped s')
      (fun i _ s hs => ?_) h2) ?_
    · refine wp_ok (appendLayer_spec hs (by simp)) fun u s3 h3 => ?_
      rw [range_succ]
      exact h3.1
    · rintro (e | u) s3 h3
      · exact h3
      rw [post_ok] at h3 ⊢
      cases hp : j.cfg.pageFirst with
      | true =>
        rw [if_pos rfl]
        refine ⟨_, range j.layers, h3.done_pageFirst hp nodup_range ?_, by simp⟩
        exact fun l hl => mem_range.1 hl
      | false =>
        rw [if_neg (by simp)]
        refine wp_mono (wp_forM_range (n := j.layers)
          (I := fun i s => j.Serving (range j.layers) (range i) s)
          (E := fun _ s' => j.Stopped s') (fun i hi s hs => ?_) h3) ?_
        · refine wp_ok (putLayer_spec hh hp hs hi (by simp)) fun u s4 h4 => ?_
          rw [range_succ]
          exact h4.1
        · rintro (e | u) s4 h4
          · exact h4
          · exact ⟨_, _, h4, by simp⟩

end

/-! ## The puts of a page-first store -/

section

variable (h : j.Stopped s) (r : Except Exc Unit) (hnd : (items.map PutItem.obj).Nodup)
variable (hs : ∀ obj ∈ items.map PutItem.obj, obj ∈ s.pending)
include h r hnd hs

theorem handOver_call :
    wp (do call r; handOver items)
      (post (fun _ s' => j.Stopped s' ∧
          s'.pending = s.pending.filter fun obj => obj ∉ items.map PutItem.obj)
        fun _ s' => j.Stopped s') s := by
  rw [wp_bind, wp_call]
  rcases r with e | u
  · exact h
  rw [post_ok]
  refine wp_returns (handOver_stopped h hnd hs) fun u s' h' => ?_
  exact ⟨h'.1, h'.2.2.2⟩

theorem putSome_spec :
    wp (putSome r items)
      (post (fun _ s' => j.Stopped s' ∧
          s'.pending = s.pending.filter fun obj => obj ∉ items.map PutItem.obj)
        fun _ s' => j.Stopped s') s := by
  unfold putSome
  by_cases hi : items = []
  · rw [if_neg (by simpa using hi)]
    refine ⟨h, ?_⟩
    show s.pending = _
    rw [hi, eq_comm, filter_eq_self]
    intro obj _
    simp
  · rw [if_pos hi]
    exact handOver_call h r hnd hs

end

/-- Page-first puts leave nothing pending. -/
theorem putPageFirst_spec (hh : Held j.cfg j.layers j.batch) (h : j.Served s)
    (hp : j.cfg.pageFirst = true) :
    wp (putPageFirst j.cfg j.env j.layers j.batch)
      (post (fun _ s' => j.Stopped s' ∧ s'.pending = []) fun _ s' => j.Stopped s') s := by
  obtain ⟨noted, done, h, -⟩ := h
  have hmem : ∀ obj, obj ∈ s.pending ↔ obj ∈ owned j.batch := by
    intro obj
    rw [h.pending, remaining_pageFirst hp, mem_uniqueObjs, mem_objs_iff, mem_owned]
  have hst := h.stopped
  unfold putPageFirst
  rw [wp_bind, wp_call]
  rcases (if j.cfg.pageStore = true ∧ j.layers = 0 then _ else _ : Except Exc Unit) with e | u
  · exact hst
  rw [post_ok, wp_bind, wp_call]
  rcases (if asyncPages j.cfg j.env j.batch then _ else _ : Except Exc Unit) with e | u
  · exact hst
  rw [post_ok, wp_bind, wp_call]
  rcases (if j.cfg.forceLayerwise && j.cfg.remoteStore then _ else _ : Except Exc Unit)
    with e | u
  · exact hst
  rw [post_ok]
  cases hps : j.cfg.pageStore with
  | true =>
    rw [if_pos rfl, wp_bind]
    refine wp_mono (putSome_spec hst j.env.putPages hh.nodup_pageItems ?_) ?_
    · intro obj ho
      obtain ⟨x, hx, hpo⟩ := Held.mem_pageItems.1 ho
      exact (hmem obj).2 (mem_owned.2 ⟨x, hx, (Held.pageOf_mem hpo).1⟩)
    · rintro (e | u) s1 h1
      · exact h1
      rw [post_ok] at h1 ⊢
      refine wp_mono (putSome_spec h1.1 j.env.putFlat hh.nodup_flatItems ?_) ?_
      · intro obj ho
        obtain ⟨⟨l, -, hrow⟩, hflat⟩ := Held.mem_flatItems.1 ho
        rw [h1.2, mem_filter, decide_eq_true_eq]
        refine ⟨(hmem obj).2 (Held.owned_of_mem_row hrow), fun hpage => ?_⟩
        obtain ⟨x, hx, hpo⟩ := Held.mem_pageItems.1 hpage
        rw [(Held.pageOf_mem hpo).2] at hflat
        cases hflat
      · rintro (e | u) s2 h2
        · exact h2
        refine ⟨h2.1, ?_⟩
        rw [h2.2, h1.2, eq_nil_iff_forall_not_mem]
        intro obj ho
        simp only [mem_filter, decide_eq_true_eq] at ho
        exact (hh.page_or_flat ((hmem obj).1 ho.1.1)).elim ho.1.2 ho.2
  | false =>
    rw [if_neg (by simp)]
    refine wp_mono (handOver_call hst j.env.putFlat (hh.nodup_allItems hps) ?_) ?_
    · exact fun obj ho => (hmem obj).2 (hh.mem_allItems.1 ho)
    · rintro (e | u) s1 h1
      · exact h1
      refine ⟨h1.1, ?_⟩
      rw [h1.2, eq_nil_iff_forall_not_mem]
      intro obj ho
      simp only [mem_filter, decide_eq_true_eq] at ho
      exact ho.2 (hh.mem_allItems.2 ((hmem obj).1 ho.1))

/-! ## The whole transfer -/

theorem copyOut_spec (hh : Held j.cfg j.layers j.batch) (h : j.Serving [] [] s) :
    wp (copyOut j.cfg j.env j.layers j.batch)
      (post (fun _ s' => j.Served s') fun _ s' => j.Stopped s') s := by
  unfold copyOut
  split
  · exact groupStore_spec hh h
  · exact generatorStore_spec hh h

theorem transferBody_spec (hh : Held j.cfg j.layers j.batch) (h : j.Serving [] [] s) :
    wp (transferBody j.cfg j.env j.layers j.batch)
      (post (fun _ s' => j.Stopped s' ∧ s'.pending = []) fun _ s' => j.Stopped s') s := by
  unfold transferBody
  rw [wp_bind]
  refine wp_cases (copyOut_spec hh h) (fun _ _ h1 => h1) fun u s1 h1 => ?_
  have hst : j.Stopped s1 := by
    obtain ⟨noted, done, h1, -⟩ := h1
    exact h1.stopped
  rw [post_ok, wp_bind, wp_call]
  rcases j.env.fences with e | u
  · exact hst
  rw [post_ok]
  cases hp : j.cfg.pageFirst with
  | true => exact putPageFirst_spec hh h1 hp
  | false => exact ⟨hst, h1.pending_eq_nil hh hp⟩

/-- How a transfer leaves the objects and the lists: `gone` are the objects that its clean-up gives
back. -/
structure Cleared (j : Job) (gone : List MemoryObj) (s : Run) : Prop where
  accounts : Accounts s j.left []
  lists : ∃ noted c, Published j.layers j.chunks noted c ∧ s.lists = c.removePending gone
  gone_iff : ∀ obj ∈ owned j.batch, obj ∈ gone ↔ obj ∈ released s.events

theorem cleanUp_spec (h : j.Stopped s) :
    wp cleanUp (post (fun _ s' => j.Cleared s.pending s' ∧ Event.suspend true ∉ s'.events)
      fun _ _ => False) s := by
  obtain ⟨noted, hl⟩ := h.lists
  refine ⟨⟨?_, ⟨noted, s.lists, hl, rfl⟩, fun obj ho => ?_⟩, ?_⟩
  · exact @Accounts.release _ _ _ [] _ h.accounts rfl rfl
  · show obj ∈ s.pending ↔ obj ∈ released (s.events ++ s.pending.map .release)
    rw [released_append, released_release, mem_append]
    exact ⟨.inr, fun hm => hm.resolve_left (h.kept obj ho)⟩
  · show Event.suspend true ∉ s.events ++ s.pending.map .release
    rw [mem_append]
    rintro (hm | hm)
    · exact h.undelivered hm
    · obtain ⟨obj, -, hobj⟩ := mem_map.1 hm
      cases hobj

/-- A batch that is held is handed over or given back, whatever raises after its publication. -/
theorem transfer_spec (hok : BatchOk j.cfg j.layers j.batch)
    (ha : Accounts s j.left (owned j.batch)) (hl : s.lists = CacheLists.empty)
    (hu : Event.suspend true ∉ s.events) (hprep : j.env.prepare = .ok ()) :
    wp (transfer j.cfg j.env j.layers j.batch)
      (post (fun _ s' => j.Cleared [] s')
        fun _ s' => ∃ gone, j.Cleared gone s' ∧ Event.suspend true ∉ s'.events) s := by
  have hh : Held j.cfg j.layers j.batch := ⟨hok, ha.nodup_held⟩
  unfold transfer
  rw [wp_bind, wp_call, hprep, post_ok, wp_modify_bind]
  refine wp_bind_of (publishChunks_spec j.cfg j.env j.layers j.batch (s := _) hl)
    (fun _ _ h => False.elim h) fun u s1 h1 => ?_
  rw [post_ok] at h1
  have hserv : j.Serving [] [] s1 := by
    rw [h1]
    refine ⟨?_, freshLists_published _ _, fun obj ho => ha.not_released ho, hu, ?_,
      nodup_nil, nofun⟩
    · exact (ha.of_times (times_uniqueObjs ha.nodup_held)).congr rfl rfl rfl rfl
    · show uniqueObjs _ = _
      unfold remaining
      rw [eq_comm, filter_eq_self]
      intro obj _
      cases j.cfg.pageFirst <;> simp
  refine wp_finally (wp_mono (transferBody_spec hh hserv) ?_)
  rintro (e | u) s2 h2
  · refine wp_returns (cleanUp_spec h2) fun u s3 h3 => ?_
    exact ⟨_, h3⟩
  · refine wp_cases (cleanUp_spec h2.1) (fun _ _ h => False.elim h) fun u s3 h3 => ?_
    rw [post_ok, h2.2] at h3
    exact h3.1

end Job

end StoreLayer
