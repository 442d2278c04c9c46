import LMCacheAscend.Checkpoint.CaptureTiles

/-!
# The life of a checkpoint job

`Lifecycle` holds along every run: a job that is still listed has released
nothing and one that is retired has released its captured pages once; a job
that yielded `ready` was neither cancelled nor reported as failed; and a
manifest in the store comes from a job that is still listed, or from one that
was retired without a cancel or a failure.

    worker_lifecycle : Reachable w → released once ∧ no ready after failed or cancelled ∧
      no manifest of a cancelled or failed job after its retirement
-/

namespace Checkpoint

open Lib List Option Function Dict

variable {κ : Type} {cfg : WorkerConfig κ} {w : Worker κ}

/-- The job object `j` is listed in `jobs`. -/
def Worker.Live (w : Worker κ) (j : Nat) : Prop := ∃ key, w.jobs.get? key = some j

/-- The future of a job that is in the queue of the store thread. -/
def InProgress : Option Future → Prop
  | some .pending | some .submitted | some .published => True
  | some (.done _) | none => False

/-- The future of a job whose manifest may be installed. -/
def Installed : Option Future → Prop
  | some .published | some (.done (.ok _)) => True
  | some .pending | some .submitted | some (.done (.error _)) | none => False

structure Lifecycle (w : Worker κ) : Prop where
  key : ∀ key j, w.jobs.get? key = some j → ∃ job, w.objects j = some job ∧ job.spec.key = key
  fresh : ∀ j job, w.objects j = some job → j < w.nextJob
  queued : ∀ e ∈ w.queue, w.Live e.1 ∧ ∃ job, w.objects e.1 = some job ∧ InProgress job.future
  queueNodup : (w.queue.map Prod.fst).Nodup
  live : ∀ j job, w.objects j = some job → w.Live j →
    w.released j = [] ∧ job.pages = w.captured j ∧ .ready ∉ w.yielded j ∧
      (.failed ∈ w.yielded j → job.cancelled = true)
  retired : ∀ j job, w.objects j = some job → ¬ w.Live j →
    w.released j = w.captured j ∧ job.quarantined = false ∧
      (.ready ∈ w.yielded j → job.cancelled = false ∧ .failed ∉ w.yielded j)
  silent : ∀ j, w.objects j = none → w.released j = [] ∧ w.yielded j = []
  manifest : ∀ key m j, w.manifests.get? key = some (m, j) →
    ∃ job, w.objects j = some job ∧ job.spec.key = key ∧ (w.Live j → Installed job.future) ∧
      (¬ w.Live j → job.cancelled = false ∧ .failed ∉ w.yielded j)

/-! ## Elementary changes -/

variable {j : Nat} {job : CaptureJob κ} {key : Identity} {w' : Worker κ}

theorem Lifecycle.live_unique (h : Lifecycle w) {key key' : Identity}
    (hk : w.jobs.get? key = some j) (hk' : w.jobs.get? key' = some j) : key = key' := by
  obtain ⟨job, hj, rfl⟩ := h.key key j hk
  obtain ⟨job', hj', rfl⟩ := h.key key' j hk'
  rw [hj] at hj'
  cases hj'
  rfl

theorem Lifecycle.of_manifests (h : Lifecycle w) {d : Dict Identity (LocalCheckpoint κ × Nat)}
    (hd : ∀ k v, d.get? k = some v → w.manifests.get? k = some v) :
    Lifecycle { w with manifests := d } :=
  ⟨h.key, h.fresh, h.queued, h.queueNodup, h.live, h.retired, h.silent,
    fun key m j hm => h.manifest key m j (hd _ _ hm)⟩

theorem foldl_pop_get? {β : Type} (ks : List Identity) (d : Dict Identity β) (k : Identity) :
    (ks.foldl Dict.pop d).get? k = if k ∈ ks then none else d.get? k := by
  induction ks generalizing d with
  | nil => simp
  | cons a ks ih =>
    rw [foldl_cons, ih, get?_pop]
    by_cases hk : k = a <;> simp [hk]

theorem forget_get? (w : Worker κ) (reqId : String) (generation : Option Int) (k : Identity) :
    (w.forget reqId generation).manifests.get? k =
      if matchesIdentity reqId generation k then none else w.manifests.get? k := by
  unfold Worker.forget
  rw [foldl_pop_get?]
  by_cases hm : matchesIdentity reqId generation k
  · by_cases hk : k ∈ w.manifests.keys
    · simp [hm, hk]
    · simp [hk, get?_eq_none.2 hk]
  · simp [hm]

theorem forget_lifecycle (h : Lifecycle w) (reqId : String) (generation : Option Int) :
    Lifecycle (w.forget reqId generation) := by
  refine h.of_manifests fun k v hv => ?_
  have := forget_get? w reqId generation k
  unfold Worker.forget at this
  rw [this] at hv
  split at hv
  · cases hv
  · exact hv

theorem mem_yield {i : Nat} {r : CheckpointResult} {x : Status} :
    x ∈ (w.yield j r).yielded i ↔ x ∈ w.yielded i ∨ (i = j ∧ r.status = x) := by
  show x ∈ update w.yielded j _ i ↔ _
  rw [update_apply]
  split
  · next hi =>
    subst hi
    simp [eq_comm]
  · next hi => simp [hi]

/-- A job yields `ready` once it is retired, and then neither failed nor fails. -/
theorem Lifecycle.yield (h : Lifecycle w) {r : CheckpointResult} (hj : w.objects j = some job)
    (hready : r.status = .ready → ¬ w.Live j ∧ job.cancelled = false ∧ .failed ∉ w.yielded j)
    (hlive : w.Live j → r.status = .failed → job.cancelled = true)
    (hretired : ¬ w.Live j → r.status = .failed →
      .ready ∉ w.yielded j ∧ ∀ key m, w.manifests.get? key ≠ some (m, j)) :
    Lifecycle (w.yield j r) := by
  refine ⟨h.key, h.fresh, h.queued, h.queueNodup, ?_, ?_, ?_, ?_⟩
  · intro i job' hi hl
    obtain ⟨h1, h2, h3, h4⟩ := h.live i job' hi hl
    refine ⟨h1, h2, fun hc => ?_, fun hf => ?_⟩
    · rcases mem_yield.1 hc with hc | ⟨rfl, hs⟩
      · exact h3 hc
      · exact (hready hs).1 hl
    · rcases mem_yield.1 hf with hf | ⟨rfl, hs⟩
      · exact h4 hf
      · cases hj.symm.trans hi
        exact hlive hl hs
  · intro i job' hi hl
    obtain ⟨h1, h2, h3⟩ := h.retired i job' hi hl
    refine ⟨h1, h2, fun hc => ?_⟩
    rcases mem_yield.1 hc with hold | ⟨rfl, hs⟩
    · obtain ⟨h4, h5⟩ := h3 hold
      refine ⟨h4, fun hf => ?_⟩
      rcases mem_yield.1 hf with hf | ⟨rfl, hs⟩
      · exact h5 hf
      · exact (hretired hl hs).1 hold
    · cases hj.symm.trans hi
      obtain ⟨-, hcan, hnot⟩ := hready hs
      refine ⟨hcan, fun hf => (mem_yield.1 hf).elim hnot fun hs' => ?_⟩
      cases hs.symm.trans hs'.2
  · intro i hi
    have hij : i ≠ j := by
      rintro rfl
      cases hj.symm.trans hi
    obtain ⟨h1, h2⟩ := h.silent i hi
    exact ⟨h1, (update_of_ne hij ..).trans h2⟩
  · intro key m i hm
    obtain ⟨job', h1, h2, h3, h4⟩ := h.manifest key m i hm
    refine ⟨job', h1, h2, h3, fun hl => ⟨(h4 hl).1, fun hf => ?_⟩⟩
    rcases mem_yield.1 hf with hf | ⟨rfl, hs⟩
    · exact (h4 hl).2 hf
    · exact (hretired hl hs).2 key m hm

theorem Lifecycle.setJob (h : Lifecycle w) {job job' : CaptureJob κ}
    (hj : w.objects j = some job) (hl : w.Live j) (hspec : job'.spec = job.spec)
    (hpages : job'.pages = job.pages) (hqueue : (∃ t, (j, t) ∈ w.queue) → InProgress job'.future)
    (hman : (∃ key m, w.manifests.get? key = some (m, j)) → Installed job'.future)
    (hcan : job.cancelled = true → job'.cancelled = true) : Lifecycle (w.setJob j job') := by
  have hat : ∀ i, i ≠ j → (w.setJob j job').objects i = w.objects i :=
    fun i hi => update_of_ne hi ..
  have hself : (w.setJob j job').objects j = some job' := update_self ..
  refine ⟨?_, ?_, ?_, h.queueNodup, ?_, ?_, ?_, ?_⟩
  · intro key i hi
    by_cases hij : i = j
    · subst hij
      obtain ⟨job0, h0, hk⟩ := h.key key i hi
      rw [hj] at h0
      cases h0
      exact ⟨job', hself, by unfold CaptureSpec.key at hk ⊢; rw [hspec]; exact hk⟩
    · rw [hat i hij]
      exact h.key key i hi
  · intro i job0 hi
    by_cases hij : i = j
    · exact hij ▸ h.fresh j job hj
    · rw [hat i hij] at hi
      exact h.fresh i job0 hi
  · intro e he
    obtain ⟨hle, job0, h0, hp⟩ := h.queued e he
    refine ⟨hle, ?_⟩
    by_cases hij : e.1 = j
    · exact ⟨job', hij ▸ hself, hqueue ⟨e.2, hij ▸ he⟩⟩
    · exact ⟨job0, (hat _ hij).trans h0, hp⟩
  · intro i job0 hi hli
    by_cases hij : i = j
    · subst hij
      rw [hself] at hi
      cases hi
      obtain ⟨h1, h2, h3, h4⟩ := h.live i job hj hl
      exact ⟨h1, hpages.trans h2, h3, fun hf => hcan (h4 hf)⟩
    · rw [hat i hij] at hi
      exact h.live i job0 hi hli
  · intro i job0 hi hli
    by_cases hij : i = j
    · exact absurd (hij ▸ hl) hli
    · rw [hat i hij] at hi
      exact h.retired i job0 hi hli
  · intro i hi
    by_cases hij : i = j
    · rw [hij, hself] at hi
      cases hi
    · rw [hat i hij] at hi
      exact h.silent i hi
  · intro key m i hm
    obtain ⟨job0, h1, h2, h3, h4⟩ := h.manifest key m i hm
    by_cases hij : i = j
    · subst hij
      rw [hj] at h1
      cases h1
      refine ⟨job', hself, ?_, fun _ => hman ⟨key, m, hm⟩, fun hnl => absurd hl hnl⟩
      unfold CaptureSpec.key at h2 ⊢
      rw [hspec]
      exact h2
    · exact ⟨job0, (hat i hij).trans h1, h2, h3, h4⟩

theorem retire_eq (w : Worker κ) (key : Identity) (j : Nat) {job : CaptureJob κ}
    (hquar : job.quarantined = false) :
    w.retire key j job = { w.setJob j job.clear with
      jobs := w.jobs.pop key
      released := update w.released j (w.released j ++ job.pages) } := by
  simp [Worker.retire, hquar]

theorem Lifecycle.live_retire (h : Lifecycle w) (hk : w.jobs.get? key = some j)
    (hquar : job.quarantined = false) (i : Nat) :
    (w.retire key j job).Live i ↔ w.Live i ∧ i ≠ j := by
  have hget : ∀ k, (w.retire key j job).jobs.get? k =
      if k = key then none else w.jobs.get? k := by
    intro k
    rw [retire_eq w key j hquar]
    exact get?_pop _ _ _
  constructor
  · rintro ⟨k, hki⟩
    rw [hget] at hki
    split at hki
    · cases hki
    · next hne => exact ⟨⟨k, hki⟩, fun he => hne (h.live_unique (he ▸ hki) hk)⟩
  · rintro ⟨⟨k, hki⟩, hij⟩
    refine ⟨k, ?_⟩
    have hne : k ≠ key := by
      rintro rfl
      rw [hk] at hki
      exact hij (some.inj hki).symm
    rw [hget, if_neg hne]
    exact hki

/-- The other jobs are as before. -/
theorem retire_others (w : Worker κ) (key : Identity) {i : Nat} (hij : i ≠ j)
    (hquar : job.quarantined = false) : (w.retire key j job).objects i = w.objects i ∧
      (w.retire key j job).released i = w.released i := by
  rw [retire_eq w key j hquar]
  exact ⟨update_of_ne hij .., update_of_ne hij ..⟩

/-- The manifests of a retired job are those of a job that was neither cancelled nor failed. -/
theorem Lifecycle.manifest_retire (h : Lifecycle w) {job' : CaptureJob κ}
    (hk : w.jobs.get? key = some j) (hj : w.objects j = some job) (hspec : job'.spec = job.spec)
    (hcan : job'.cancelled = job.cancelled) (hquar : job'.quarantined = false)
    (hman : ∀ key m, w.manifests.get? key = some (m, j) → job.cancelled = false)
    (k : Identity) (m : LocalCheckpoint κ) (i : Nat) (hm : w.manifests.get? k = some (m, i)) :
    ∃ job0, (w.retire key j job').objects i = some job0 ∧ job0.spec.key = k ∧
      ((w.retire key j job').Live i → Installed job0.future) ∧
      (¬ (w.retire key j job').Live i → job0.cancelled = false ∧ .failed ∉ w.yielded i) := by
  obtain ⟨-, -, -, hfail⟩ := h.live j job hj ⟨key, hk⟩
  have hlive := h.live_retire hk hquar
  obtain ⟨job0, h1, h2, h3, h4⟩ := h.manifest k m i hm
  by_cases hij : i = j
  · subst hij
    rw [hj] at h1
    cases h1
    have hc := hman k m hm
    refine ⟨job'.clear, ?_, ?_, fun hli => absurd rfl ((hlive i).1 hli).2, fun _ => ?_⟩
    · rw [retire_eq w key i hquar]
      exact update_self ..
    · unfold CaptureSpec.key at h2 ⊢
      rw [← hspec] at h2
      exact h2
    · refine ⟨hcan.trans hc, fun hf => ?_⟩
      rw [hfail hf] at hc
      cases hc
  · exact ⟨job0, (retire_others w key hij hquar).1.trans h1, h2,
      fun hli => h3 ((hlive i).1 hli).1, fun hli => h4 fun hl => hli ((hlive i).2 ⟨hl, hij⟩)⟩

/-- A job that is not queued may be retired; what it published stays. -/
theorem Lifecycle.retire (h : Lifecycle w)
    (job' : CaptureJob κ) (hk : w.jobs.get? key = some j) (hj : w.objects j = some job)
    (hspec : job'.spec = job.spec) (hpages : job'.pages = job.pages)
    (hcan : job'.cancelled = job.cancelled) (hquar : job'.quarantined = false)
    (hqueue : ∀ t, (j, t) ∉ w.queue)
    (hman : ∀ key m, w.manifests.get? key = some (m, j) → job.cancelled = false) :
    Lifecycle (w.retire key j job') ∧ ¬ (w.retire key j job').Live j := by
  obtain ⟨hrel, hcap, hready, -⟩ := h.live j job hj ⟨key, hk⟩
  have hw := retire_eq w key j hquar
  have hlive := h.live_retire hk hquar
  have hat : ∀ i, i ≠ j → (w.retire key j job').objects i = w.objects i :=
    fun i hij => (retire_others w key hij hquar).1
  have hrest : ∀ i, i ≠ j → (w.retire key j job').released i = w.released i :=
    fun i hij => (retire_others w key hij hquar).2
  have hself : (w.retire key j job').objects j = some job'.clear := by
    rw [hw]
    exact update_self ..
  have hrelj : (w.retire key j job').released j = w.captured j := by
    rw [hw]
    simp [hrel, hpages, hcap]
  have hcaptured : (w.retire key j job').captured = w.captured := by rw [hw]; rfl
  have hyielded : (w.retire key j job').yielded = w.yielded := by rw [hw]; rfl
  have hmanifests : (w.retire key j job').manifests = w.manifests := by rw [hw]; rfl
  have hq : (w.retire key j job').queue = w.queue := by rw [hw]; rfl
  refine ⟨⟨?_, ?_, ?_, ?_, ?_, ?_, ?_, ?_⟩, fun hlj => ((hlive j).1 hlj).2 rfl⟩
  · intro k i hki
    obtain ⟨⟨k', hk'⟩, hij⟩ := (hlive i).1 ⟨k, hki⟩
    rw [hat i hij]
    rw [hw] at hki
    simp only [get?_pop] at hki
    split at hki
    · cases hki
    · exact h.key k i hki
  · intro i job0 hi
    have hn : (w.retire key j job').nextJob = w.nextJob := by rw [hw]; rfl
    rw [hn]
    by_cases hij : i = j
    · exact hij ▸ h.fresh j job hj
    · rw [hat i hij] at hi
      exact h.fresh i job0 hi
  · intro e he
    rw [hq] at he
    obtain ⟨hle, job0, h0, hp⟩ := h.queued e he
    have hij : e.1 ≠ j := fun heq => hqueue e.2 (heq ▸ he)
    exact ⟨(hlive _).2 ⟨hle, hij⟩, job0, (hat _ hij).trans h0, hp⟩
  · rw [hq]
    exact h.queueNodup
  · intro i job0 hi hli
    obtain ⟨hli, hij⟩ := (hlive i).1 hli
    rw [hat i hij] at hi
    rw [hrest i hij, hcaptured, hyielded]
    exact h.live i job0 hi hli
  · intro i job0 hi hli
    rw [hcaptured, hyielded]
    by_cases hij : i = j
    · subst hij
      rw [hself] at hi
      cases hi
      exact ⟨hrelj, hquar, fun hc => absurd hc hready⟩
    · rw [hat i hij] at hi
      rw [hrest i hij]
      exact h.retired i job0 hi fun hl => hli ((hlive i).2 ⟨hl, hij⟩)
  · intro i hi
    by_cases hij : i = j
    · rw [hij, hself] at hi
      cases hi
    · rw [hat i hij] at hi
      rw [hrest i hij, hyielded]
      exact h.silent i hi
  · rw [hmanifests, hyielded]
    exact h.manifest_retire hk hj hspec hcan hquar hman

/-- A captured job is added under a key of its own. -/
theorem addJob_lifecycle (h : Lifecycle w) (job : CaptureJob κ)
    (hkey : w.jobs.get? job.spec.key = none) : Lifecycle (w.addJob job) := by
  have hnew : w.objects w.nextJob = none := by
    cases hn : w.objects w.nextJob with
    | none => rfl
    | some job0 => exact absurd (h.fresh _ _ hn) (Nat.lt_irrefl _)
  have hnl : ∀ i, w.Live i → i ≠ w.nextJob := by
    rintro i ⟨k, hk⟩ rfl
    obtain ⟨job0, h0, -⟩ := h.key k _ hk
    rw [hnew] at h0
    cases h0
  have hget : ∀ k, (w.addJob job).jobs.get? k =
      if k = job.spec.key then some w.nextJob else w.jobs.get? k := get?_set _ _ _
  have hlive : ∀ i, (w.addJob job).Live i ↔ w.Live i ∨ i = w.nextJob := by
    intro i
    constructor
    · rintro ⟨k, hk⟩
      rw [hget] at hk
      split at hk
      · exact .inr (some.inj hk).symm
      · exact .inl ⟨k, hk⟩
    · rintro (⟨k, hk⟩ | rfl)
      · refine ⟨k, ?_⟩
        have hne : k ≠ job.spec.key := by
          rintro rfl
          rw [hkey] at hk
          cases hk
        rw [hget, if_neg hne]
        exact hk
      · exact ⟨job.spec.key, by rw [hget, if_pos rfl]⟩
  have hat : ∀ i, i ≠ w.nextJob → (w.addJob job).objects i = w.objects i :=
    fun i hi => update_of_ne hi ..
  have hself : (w.addJob job).objects w.nextJob = some job := update_self ..
  have hcap : ∀ i, i ≠ w.nextJob → (w.addJob job).captured i = w.captured i :=
    fun i hi => update_of_ne hi ..
  have hcapself : (w.addJob job).captured w.nextJob = job.pages := update_self ..
  refine ⟨?_, ?_, ?_, h.queueNodup, ?_, ?_, ?_, ?_⟩
  · intro k i hk
    rw [hget] at hk
    split at hk
    · next he =>
      cases hk
      exact ⟨job, hself, he.symm⟩
    · rw [hat i (hnl i ⟨k, hk⟩)]
      exact h.key k i hk
  · intro i job0 hi
    by_cases hin : i = w.nextJob
    · rw [hin]
      exact Nat.lt_succ_self _
    · rw [hat i hin] at hi
      exact Nat.lt_succ_of_lt (h.fresh i job0 hi)
  · intro e he
    obtain ⟨hle, job0, h0, hp⟩ := h.queued e he
    exact ⟨(hlive _).2 (.inl hle), job0, (hat _ (hnl _ hle)).trans h0, hp⟩
  · intro i job0 hi hli
    by_cases hin : i = w.nextJob
    · subst hin
      rw [hself] at hi
      cases hi
      obtain ⟨h1, h2⟩ := h.silent _ hnew
      refine ⟨h1, hcapself.symm, ?_, ?_⟩
      · change _ ∉ w.yielded _
        simp [h2]
      · change _ ∈ w.yielded _ → _
        simp [h2]
    · rw [hat i hin] at hi
      rw [hcap i hin]
      exact h.live i job0 hi (((hlive i).1 hli).resolve_right hin)
  · intro i job0 hi hli
    by_cases hin : i = w.nextJob
    · exact absurd ((hlive i).2 (.inr hin)) hli
    rw [hat i hin] at hi
    rw [hcap i hin]
    exact h.retired i job0 hi fun hl => hli ((hlive i).2 (.inl hl))
  · intro i hi
    by_cases hin : i = w.nextJob
    · rw [hin, hself] at hi
      cases hi
    · rw [hat i hin] at hi
      exact h.silent i hi
  · intro k m i hm
    obtain ⟨job0, h1, h2, h3, h4⟩ := h.manifest k m i hm
    have hin : i ≠ w.nextJob := by
      rintro rfl
      rw [hnew] at h1
      cases h1
    exact ⟨job0, (hat i hin).trans h1, h2, fun hli => h3 (((hlive i).1 hli).resolve_right hin),
      fun hli => h4 fun hl => hli ((hlive i).2 (.inl hl))⟩

/-! ## Operations -/

theorem capture_lifecycle (h : Lifecycle w) (env : CaptureEnv κ) (spec : CaptureSpec)
    (started : Nat) : Lifecycle (w.capture cfg env spec started) := by
  unfold Worker.capture
  split
  · next j hk =>
    split
    · exact h
    · next job hj =>
      refine h.yield hj ?_ ?_ ?_
      · split <;> simp
      · intro _ hf
        by_contra hc
        simp [hc] at hf
      · exact fun hl => absurd ⟨spec.key, hk⟩ hl
  · next hk =>
    have hcap := capture_spec env cfg.chunkSize cfg.blockSize spec w.jobs.keys.length cfg.maxJobs
      started
    generalize Checkpoint.capture env cfg.chunkSize cfg.blockSize spec w.jobs.keys.length
      cfg.maxJobs started = out at hcap ⊢
    obtain ⟨r, s⟩ := out
    cases r with
    | captured job =>
      obtain ⟨⟨hs, -⟩, rfl, -⟩ := hcap
      have hspec := hs.fresh.1
      have hadd := addJob_lifecycle h s.job (by rw [hspec]; exact hk)
      have hnew : (w.addJob s.job).objects w.nextJob = some s.job := update_self ..
      refine hadd.yield hnew (by simp) ?_ ?_ <;> rintro - ⟨⟩
    | failed e => exact ⟨h.key, h.fresh, h.queued, h.queueNodup, h.live, h.retired, h.silent,
        h.manifest⟩
    | quarantined job =>
      obtain ⟨-, -, hspec, -⟩ := hcap
      exact addJob_lifecycle h job (by rw [hspec]; exact hk)

theorem Lifecycle.idle (h : Lifecycle w)
    (hj : w.objects j = some job) (hl : w.Live j) (hf : job.future = none) :
    (∀ t, (j, t) ∉ w.queue) ∧ ∀ key m, w.manifests.get? key ≠ some (m, j) := by
  constructor
  · intro t ht
    obtain ⟨-, job0, h0, hp⟩ := h.queued _ ht
    cases hj.symm.trans h0
    rw [hf] at hp
    exact hp
  · intro key m hm
    obtain ⟨job0, h0, -, hi, -⟩ := h.manifest key m j hm
    cases hj.symm.trans h0
    have := hi hl
    rw [hf] at this
    exact this

theorem markCancelled_lifecycle (h : Lifecycle w) (key : Identity) :
    Lifecycle (w.markCancelled key) := by
  unfold Worker.markCancelled
  split
  · exact h
  next j hk =>
  split
  · exact h
  next job hj =>
  have hl : w.Live j := ⟨key, hk⟩
  have hset : Lifecycle (w.setJob j { job with cancelled := true }) := by
    refine h.setJob hj hl rfl rfl ?_ ?_ fun _ => rfl
    · rintro ⟨t, ht⟩
      obtain ⟨-, job0, h0, hp⟩ := h.queued _ ht
      cases hj.symm.trans h0
      exact hp
    · rintro ⟨k, m, hm⟩
      obtain ⟨job0, h0, -, hi, -⟩ := h.manifest k m j hm
      cases hj.symm.trans h0
      exact hi hl
  simp only
  split
  · exact hset
  next hq =>
  split
  · next hf =>
    have hf : job.future = none := by simpa using hf
    obtain ⟨hqueue, hman⟩ := h.idle hj hl hf
    exact (hset.retire { job with cancelled := true } hk (update_self ..) rfl rfl
      rfl (by simpa using hq) hqueue fun k m hm => absurd hm (hman k m)).1
  · exact hset

theorem cancelMark_lifecycle (h : Lifecycle w) (reqId : String) (generation : Option Int) :
    Lifecycle (w.cancelMark reqId generation) := by
  unfold Worker.cancelMark
  generalize w.jobs.keys.filter (matchesIdentity reqId generation) = keys
  induction keys generalizing w with
  | nil => exact h
  | cons key keys ih => exact ih (markCancelled_lifecycle h key)

theorem retire_same (w : Worker κ) (key : Identity) (j : Nat) (job : CaptureJob κ) :
    (w.retire key j job).yielded = w.yielded ∧ (w.retire key j job).manifests = w.manifests := by
  unfold Worker.retire
  split <;> exact ⟨rfl, rfl⟩

theorem markCancelled_same (w : Worker κ) (key : Identity) :
    (w.markCancelled key).yielded = w.yielded ∧ (w.markCancelled key).manifests = w.manifests := by
  unfold Worker.markCancelled
  split
  · exact ⟨rfl, rfl⟩
  split
  · exact ⟨rfl, rfl⟩
  next j _ _ job _ =>
  simp only
  split
  · exact ⟨rfl, rfl⟩
  split
  · exact retire_same (w.setJob j { job with cancelled := true }) key j _
  · exact ⟨rfl, rfl⟩

theorem markCancelled_object (hk : w.jobs.get? key = some j) (hj : w.objects j = some job) :
    ∃ job', (w.markCancelled key).objects j = some job' ∧ job'.cancelled = true := by
  unfold Worker.markCancelled
  rw [hk]
  simp only
  rw [hj]
  simp only
  split
  · exact ⟨_, update_self .., rfl⟩
  next hq =>
  split
  · unfold Worker.retire
    rw [if_neg hq]
    exact ⟨_, update_self .., rfl⟩
  · exact ⟨_, update_self .., rfl⟩

theorem cancelMark_key (h : key ∈ w.jobs.keys) :
    w.cancelMark key.1 (some key.2) = w.markCancelled key := by
  unfold Worker.cancelMark
  rw [keys_filter_eq h fun j => matchesIdentity_some]
  rfl

theorem seal_lifecycle (h : Lifecycle w) (key : Identity) (tokens : List Int) :
    Lifecycle (w.seal key tokens) := by
  unfold Worker.seal
  split
  · exact h
  next j hk =>
  split
  · exact h
  next job hj =>
  have hl : w.Live j := ⟨key, hk⟩
  split
  · exact h
  next hfree =>
  have hf : job.future = none := by
    cases hfu : job.future with
    | none => rfl
    | some f => simp [hfu] at hfree
  obtain ⟨hqueue, hman⟩ := h.idle hj hl hf
  split
  · have hset : Lifecycle (w.setJob j { job with future := some .pending }) :=
      h.setJob hj hl rfl rfl (fun _ => trivial) (fun ⟨k, m, hm⟩ => absurd hm (hman k m)) id
    refine ⟨hset.key, hset.fresh, ?_, ?_, hset.live, hset.retired, hset.silent, hset.manifest⟩
    · intro e he
      rcases mem_append.1 he with he | he
      · exact hset.queued e he
      · rw [mem_singleton.1 he]
        exact ⟨hl, _, update_self .., trivial⟩
    · have hnot : j ∉ w.queue.map Prod.fst := by
        intro hm
        obtain ⟨e, he, rfl⟩ := mem_map.1 hm
        exact hqueue e.2 he
      rw [map_append]
      exact nodup_snoc h.queueNodup hnot
  · have hforget := forget_lifecycle h key.1 (some key.2)
    have hmark := markCancelled_lifecycle hforget key
    obtain ⟨hy, hm⟩ := markCancelled_same (w.forget key.1 (some key.2)) key
    obtain ⟨job', hj', hc'⟩ := markCancelled_object
      (w := w.forget key.1 (some key.2)) hk hj
    simp only
    rw [cancelMark_key (w := w.forget key.1 (some key.2)) (mem_keys_of_get? hk)]
    refine hmark.yield hj' (by simp) (fun _ _ => hc') fun _ _ => ⟨?_, fun k m hkm => ?_⟩
    · rw [hy]
      exact (h.live j job hj hl).2.2.1
    · rw [hm, forget_get?] at hkm
      split at hkm
      · cases hkm
      · exact hman k m hkm

/-- A job that is done is reported and retired. -/
theorem pollDone_lifecycle (h : Lifecycle w)
    {result : Except PyError Int} (hk : w.jobs.get? key = some j) (hj : w.objects j = some job)
    (hq : job.quarantined = false) (hf : job.future = some (.done result)) :
    Lifecycle ((w.reportDone key j job result).retire key j { job with future := none }) := by
  unfold Worker.reportDone
  have hl : w.Live j := ⟨key, hk⟩
  have hqueue : ∀ t, (j, t) ∉ w.queue := by
    intro t ht
    obtain ⟨-, job0, h0, hp⟩ := h.queued _ ht
    cases hj.symm.trans h0
    rw [hf] at hp
    exact hp
  obtain ⟨-, -, hready, hfail⟩ := h.live j job hj hl
  have hown : ∀ k m, w.manifests.get? k = some (m, j) → k = key := by
    intro k m hm
    obtain ⟨job0, h0, hk0, -⟩ := h.manifest k m j hm
    obtain ⟨job1, h1, hk1⟩ := h.key key j hk
    cases hj.symm.trans h0
    cases hj.symm.trans h1
    rw [← hk0, ← hk1]
  by_cases hc : job.cancelled = true
  · rw [if_pos hc]
    refine ((forget_lifecycle h key.1 (some key.2)).retire { job with future := none } hk hj rfl rfl
      rfl hq hqueue fun k m hm => ?_).1
    rw [forget_get?] at hm
    split at hm
    · cases hm
    · next hne => exact absurd (matchesIdentity_some.2 (hown k m hm)) hne
  · have hc : job.cancelled = false := by simpa using hc
    have hnf : .failed ∉ w.yielded j := by
      intro hfa
      rw [hfail hfa] at hc
      cases hc
    obtain ⟨hret, hnl⟩ := h.retire { job with future := none } hk hj rfl rfl rfl hq hqueue
      fun _ _ _ => hc
    have hw : w.retire key j { job with future := none } = { w.setJob j
        (CaptureJob.clear { job with future := none }) with
        jobs := w.jobs.pop key
        released := update w.released j (w.released j ++ job.pages) } := by
      simp [Worker.retire, hq]
      rfl
    have hobj : (w.retire key j { job with future := none }).objects j =
        some (CaptureJob.clear { job with future := none }) := by
      rw [hw]
      exact update_self ..
    have hyield : (w.retire key j { job with future := none }).yielded = w.yielded := by
      rw [hw]
      rfl
    have hcomm : ∀ r, (w.yield j r).retire key j { job with future := none } =
        (w.retire key j { job with future := none }).yield j r := by
      intro r
      simp only [Worker.retire, hq, Bool.false_eq_true, if_false]
      rfl
    rw [if_neg (by simp [hc])]
    cases result with
    | ok end_ =>
      simp only
      rw [hcomm]
      exact hret.yield hobj (fun _ => ⟨hnl, hc, by rw [hyield]; exact hnf⟩)
        (fun hli => absurd hli hnl) (by simp)
    | error e =>
      simp only
      rw [hcomm]
      refine hret.yield hobj (by simp) (fun hli => absurd hli hnl) fun _ _ => ⟨?_, fun k m hm => ?_⟩
      · rw [hyield]
        exact hready
      · rw [hw] at hm
        obtain ⟨job0, h0, -, hi, -⟩ := h.manifest k m j hm
        cases hj.symm.trans h0
        have := hi hl
        rw [hf] at this
        exact this

theorem pollJob_lifecycle (h : Lifecycle w) {now : Nat}
    (hs : w.pollJob cfg key now = some w') : Lifecycle w' := by
  unfold Worker.pollJob at hs
  split at hs
  · cases hs
    exact h
  next j hk =>
  split at hs
  · cases hs
    exact h
  next job hj =>
  have hl : w.Live j := ⟨key, hk⟩
  split at hs
  · cases hs
  next hq =>
  have hq : job.quarantined = false := by simpa using hq
  split at hs
  · cases hs
  · next result hf =>
    cases hs
    exact pollDone_lifecycle h hk hj hq hf
  · next future hne hne' =>
    split at hs
    · -- the deadline: marked, reported, and retired unless a publication is in the queue
      cases hs
      have hset : Lifecycle (w.setJob j { job with cancelled := true }) := by
        refine h.setJob hj hl rfl rfl ?_ ?_ fun _ => rfl
        · rintro ⟨t, ht⟩
          obtain ⟨-, job0, h0, hp⟩ := h.queued _ ht
          cases hj.symm.trans h0
          exact hp
        · rintro ⟨k, m, hm⟩
          obtain ⟨job0, h0, -, hi, -⟩ := h.manifest k m j hm
          cases hj.symm.trans h0
          exact hi hl
      have hobj : (w.setJob j { job with cancelled := true }).objects j =
          some { job with cancelled := true } := update_self ..
      have hyield := hset.yield (r := ⟨key, .failed, 0, "checkpoint deadline"⟩) hobj (by simp)
        (fun _ _ => rfl) (fun hnl => absurd hl hnl)
      split
      · next hn =>
        have hf : job.future = none := by simpa using hn
        obtain ⟨hqueue, hman⟩ := h.idle hj hl hf
        exact (hyield.retire { job with cancelled := true } hk hobj rfl rfl rfl hq hqueue
          fun k m hm => absurd hm (hman k m)).1
      · exact hyield
    · cases hs
      exact h

/-- A step of the store thread. -/
theorem publishStep_lifecycle (h : Lifecycle w) {r : PublishStep}
    (hs : w.publishStep cfg r = some w') : Lifecycle w' := by
  unfold Worker.publishStep at hs
  split at hs
  · cases hs
  next j tokens rest hqueue =>
  have hhead : (j, tokens) ∈ w.queue := by
    rw [hqueue]
    exact mem_cons_self
  have hnd := h.queueNodup
  rw [hqueue, map_cons, nodup_cons] at hnd
  split at hs
  · cases hs
  next job hj =>
  obtain ⟨hl, job0, h0, hp⟩ := h.queued _ hhead
  cases hj.symm.trans h0
  have hman : (∃ k m, w.manifests.get? k = some (m, j)) → Installed job.future := by
    rintro ⟨k, m, hm⟩
    obtain ⟨job1, h1, -, hi, -⟩ := h.manifest k m j hm
    cases hj.symm.trans h1
    exact hi hl
  -- the job leaves the queue with a result: its manifest, if any, is kept only by `ok`
  have hdone : ∀ result, ((∃ k m, w.manifests.get? k = some (m, j)) →
      Installed (some (.done result))) →
      Lifecycle { w.setJob j { job with future := some (.done result) } with queue := rest } := by
    intro result hres
    have hdrop : Lifecycle { w with queue := rest } := by
      refine ⟨h.key, h.fresh, fun e he => h.queued e ?_, hnd.2, h.live, h.retired, h.silent,
        h.manifest⟩
      rw [hqueue]
      exact mem_cons_of_mem _ he
    change Lifecycle (({ w with queue := rest } : Worker κ).setJob j
      { job with future := some (.done result) })
    refine hdrop.setJob hj hl rfl rfl ?_ hres id
    rintro ⟨t, ht⟩
    exact absurd (mem_map.2 ⟨_, ht, rfl⟩) hnd.1
  split at hs
  · next hf =>
    have hnone : (∃ k m, w.manifests.get? k = some (m, j)) → False := by
      intro hm
      have := hman hm
      rw [hf] at this
      exact this
    split at hs
    · cases hs
      exact hdone _ fun hm => (hnone hm).elim
    · cases hs
      exact h.setJob hj hl rfl rfl (fun _ => trivial) (fun hm => (hnone hm).elim) id
  · next installs hf =>
    have hset : Lifecycle (w.setJob j { job with future := some .published }) :=
      h.setJob hj hl rfl rfl (fun _ => trivial) (fun _ => trivial) id
    simp only at hs
    split at hs
    · cases hs
      refine ⟨hset.key, hset.fresh, hset.queued, hset.queueNodup, hset.live, hset.retired,
        hset.silent, fun k m i hm => ?_⟩
      rw [get?_set] at hm
      split at hm
      · next hk =>
        cases hm
        exact ⟨_, update_self .., hk.symm, fun _ => trivial, fun hnl => absurd hl hnl⟩
      · exact hset.manifest k m i hm
    · cases hs
      exact hset
  · cases hs
    exact hdone _ fun _ => trivial
  · next e hf =>
    cases hs
    refine hdone _ fun hm => ?_
    have := hman hm
    rw [hf] at this
    exact this
  · next e hf =>
    cases hs
    refine hdone _ fun hm => ?_
    have := hman hm
    rw [hf] at this
    exact this
  · cases hs

theorem close_lifecycle (h : Lifecycle w) : Lifecycle (w.close cfg) := by
  have hfold : ∀ (keys : List Identity) (w : Worker κ), Lifecycle w →
      Lifecycle (keys.foldl (fun w key =>
        (w.forget key.1 (some key.2)).cancelMark key.1 (some key.2)) w) := by
    intro keys
    induction keys with
    | nil => exact fun w h => h
    | cons key keys ih =>
      intro w h
      exact ih _ (cancelMark_lifecycle (forget_lifecycle h _ _) _ _)
  unfold Worker.close
  simp only
  split
  · exact (hfold _ w h).of_manifests fun k v hv => by cases hv
  · exact hfold _ w h

/-! ## Runs -/

theorem step_lifecycle (h : Lifecycle w) {a : WorkerAction κ}
    (hs : w.step cfg a = some w') : Lifecycle w' := by
  cases a with
  | capture env spec started =>
    cases hs
    exact capture_lifecycle h env spec started
  | sealJob key tokens =>
    cases hs
    exact seal_lifecycle h key tokens
  | pollJob key now => exact pollJob_lifecycle h hs
  | drainResults =>
    cases hs
    exact ⟨h.key, h.fresh, h.queued, h.queueNodup, h.live, h.retired, h.silent, h.manifest⟩
  | cancelForget reqId generation =>
    cases hs
    have h' := forget_lifecycle h reqId generation
    exact ⟨h'.key, h'.fresh, h'.queued, h'.queueNodup, h'.live, h'.retired, h'.silent, h'.manifest⟩
  | cancelMark =>
    simp only [Worker.step] at hs
    split at hs
    · cases hs
    · next reqId generation _ =>
      cases hs
      have h' := cancelMark_lifecycle h reqId generation
      exact ⟨h'.key, h'.fresh, h'.queued, h'.queueNodup, h'.live, h'.retired, h'.silent,
        h'.manifest⟩
  | close =>
    cases hs
    exact close_lifecycle h
  | publishStep r => exact publishStep_lifecycle h hs
  | restoreForget key =>
    cases hs
    exact forget_lifecycle h key.1 (some key.2)

theorem worker_inductive : (workerMachine cfg).Inductive Lifecycle := by
  constructor
  · rintro w rfl
    refine ⟨?_, ?_, ?_, nodup_nil, ?_, ?_, fun _ _ => ⟨rfl, rfl⟩, ?_⟩
    · rintro key j ⟨⟩
    · rintro j job ⟨⟩
    · rintro e ⟨⟩
    · rintro j job ⟨⟩
    · rintro j job ⟨⟩
    · rintro key m j ⟨⟩
  · exact fun w a w' h hs => step_lifecycle h hs

theorem pollJob_cancelled {now j : Nat}
    (hk : w.jobs.get? key = some j) (hj : w.objects j = some job) (hc : job.cancelled = true)
    (hs : w.pollJob cfg key now = some w') (hn : w'.jobs.get? key = none) :
    w'.manifests.get? key = none := by
  unfold Worker.pollJob at hs
  rw [hk] at hs
  simp only at hs
  rw [hj] at hs
  simp only at hs
  split at hs
  · cases hs
  split at hs
  · cases hs
  · next result _ _ =>
    cases hs
    have hrep : w.reportDone key j job result = w.forget key.1 (some key.2) := by
      unfold Worker.reportDone
      rw [if_pos hc]
    rw [hrep, (retire_same _ key j _).2, forget_get?, if_pos (matchesIdentity_some.2 rfl)]
  · rw [if_neg (by simp [hc])] at hs
    cases hs
    rw [hk] at hn
    cases hn

/-- **Lifecycle.**  A listed job has released nothing and a retired one its captured
pages, once; no job is `ready` that failed or was cancelled; and no manifest in the
store is left from a job that was retired after a cancel or a failure, while a poll
that retires a cancelled job leaves no manifest of its generation at all. -/
theorem worker_lifecycle (h : (workerMachine cfg).Reachable w) :
    (∀ j job, w.objects j = some job → job.quarantined = false →
      (w.Live j → w.released j = []) ∧ (¬ w.Live j → w.released j = w.captured j)) ∧
    (∀ j job, w.objects j = some job → .ready ∈ w.yielded j →
      .failed ∉ w.yielded j ∧ job.cancelled = false) ∧
    (∀ key m j job, w.manifests.get? key = some (m, j) → w.objects j = some job → ¬ w.Live j →
      job.cancelled = false ∧ .failed ∉ w.yielded j) ∧
    ∀ key now j job w', w.jobs.get? key = some j → w.objects j = some job →
      job.cancelled = true → w.pollJob cfg key now = some w' → w'.jobs.get? key = none →
      w'.manifests.get? key = none := by
  have hl : Lifecycle w := worker_inductive.reachable h
  refine ⟨fun j job hj _ => ⟨fun hlive => (hl.live j job hj hlive).1,
    fun hnl => (hl.retired j job hj hnl).1⟩, fun j job hj hr => ?_, fun key m j job hm hj hnl => ?_,
    fun key now j job w' hk hj hc hs hn => pollJob_cancelled hk hj hc hs hn⟩
  · by_cases hlive : w.Live j
    · exact absurd hr (hl.live j job hj hlive).2.2.1
    · exact ((hl.retired j job hj hlive).2.2 hr).symm
  · obtain ⟨job', hj', -, -, hgood⟩ := hl.manifest key m j hm
    cases hj.symm.trans hj'
    exact hgood hnl

/-! ## A generation captured again -/

/-- After every poll that retired a cancelled or failed job, its generation has no
manifest. -/
def RetiredAbsent (cfg : WorkerConfig κ) : Prop :=
  ∀ (w w' : Worker κ) (key : Identity) (now j : Nat) (job : CaptureJob κ),
    (workerMachine cfg).Reachable w → w.jobs.get? key = some j →
    w.pollJob cfg key now = some w' → w'.jobs.get? key = none → w'.objects j = some job →
    job.cancelled = true ∨ .failed ∈ w'.yielded j → w'.manifests.get? key = none

def againConfig : WorkerConfig Nat :=
  { chunkSize := 4, blockSize := 4, maxJobs := 2, timeout := 10, pageKey := fun _ _ _ _ => 0,
    writeback := false }

/-- A generation is published and polled, then captured once more. -/
def againRun : List (WorkerAction Nat) :=
  [.capture tightEnv tightSpec 0, .sealJob ("r", 1) [1, 2, 3, 4, 5], .publishStep (.ok true),
   .publishStep (.ok true), .publishStep (.ok true), .pollJob ("r", 1) 0,
   .capture tightEnv tightSpec 0]

def againWorker : Worker Nat :=
  ((workerMachine againConfig).run Worker.init againRun).getD Worker.init

def againPolled : Worker Nat := (againWorker.pollJob againConfig ("r", 1) 11).getD againWorker

theorem again_run : (workerMachine againConfig).run Worker.init againRun = some againWorker := rfl

theorem again_polled : againWorker.pollJob againConfig ("r", 1) 11 = some againPolled := by
  obtain ⟨w', hw'⟩ := isSome_iff_exists.1
    (by decide +kernel : (againWorker.pollJob againConfig ("r", 1) 11).isSome = true)
  rw [againPolled, hw']
  rfl

theorem worker_lifecycle_again :
    againWorker.released 0 = againWorker.captured 0 ∧ .failed ∉ againWorker.yielded 0 := by
  have h := worker_lifecycle (Machine.reachable_of_run rfl again_run)
  have hnl : ¬ againWorker.Live 0 := by
    rintro ⟨key, hk⟩
    have hm := mem_entries.2 hk
    have he : againWorker.jobs.entries = [(("r", 1), 1)] := by decide +kernel
    rw [he] at hm
    simp at hm
  obtain ⟨job, hj, hq⟩ := map_eq_some_iff.1
    (by decide +kernel : (againWorker.objects 0).map (·.quarantined) = some false)
  obtain ⟨⟨m, j⟩, hm, rfl⟩ := map_eq_some_iff.1
    (by decide +kernel : (againWorker.manifests.get? ("r", 1)).map Prod.snd = some 0)
  exact ⟨(h.1 _ job hj hq).2 hnl, (h.2.2.1 _ m _ job hm hj hnl).2⟩

/-- The second job of the generation passes its deadline; the first one's manifest stays. -/
theorem not_retiredAbsent : ¬ RetiredAbsent againConfig := by
  intro h
  obtain ⟨job, hj⟩ := isSome_iff_exists.1
    (by decide +kernel : (againPolled.objects 1).isSome = true)
  have habs := h againWorker againPolled ("r", 1) 11 1 job
    (Machine.reachable_of_run rfl again_run) (by decide +kernel) again_polled
    (by decide +kernel) hj (.inr (by decide +kernel))
  have hkept : (againPolled.manifests.get? ("r", 1)).isSome = true := by decide +kernel
  rw [habs] at hkept
  cases hkept

/-- **The queue of the store thread.**  It holds a publication at most once, and only of jobs that are
listed, under one generation each, and whose future is not done: no page of theirs is released. -/
theorem queue_of_listed (h : (workerMachine cfg).Reachable w) :
    (w.queue.map Prod.fst).Nodup ∧
    (∀ key key' j, w.jobs.get? key = some j → w.jobs.get? key' = some j → key = key') ∧
    ∀ e ∈ w.queue, w.Live e.1 ∧ w.released e.1 = [] ∧
      ∃ job, w.objects e.1 = some job ∧ InProgress job.future ∧ job.pages = w.captured e.1 := by
  have hl : Lifecycle w := worker_inductive.reachable h
  refine ⟨hl.queueNodup, fun key key' j => hl.live_unique, fun e he => ?_⟩
  obtain ⟨hlive, job, hj, hprogress⟩ := hl.queued e he
  obtain ⟨hreleased, hpages, -⟩ := hl.live e.1 job hj hlive
  exact ⟨hlive, hreleased, job, hj, hprogress, hpages⟩

/-- The generation is sealed, and cancelled while its publication runs. -/
theorem queue_of_listed_cancelled : ∃ w, (workerMachine againConfig).run Worker.init
    (againRun.take 3 ++ [.cancelForget "r" none, .cancelMark]) = some w ∧ w.released 0 = [] := by
  obtain ⟨w, hw, hqueue⟩ := map_eq_some_iff.1
    (by decide +kernel : ((workerMachine againConfig).run Worker.init
      (againRun.take 3 ++ [.cancelForget "r" none, .cancelMark])).map Worker.queue =
      some [(0, [1, 2, 3, 4, 5])])
  have hall := (queue_of_listed (Machine.reachable_of_run rfl hw)).2.2
  exact ⟨w, hw, (hall _ (hqueue ▸ mem_singleton_self _)).2.1⟩

end Checkpoint
