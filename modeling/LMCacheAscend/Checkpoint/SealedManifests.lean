import LMCacheAscend.Checkpoint.LocalStoreAcquire
import LMCacheAscend.Checkpoint.WorkerLifecycle

/-!
# Sealed manifests

A seal is queued for the store thread with the frontier that it was checked against, and
other calls may cancel, retire or forget until it is published.  None of them changes the
spec of a queued job, so each manifest that the store thread installs ends behind the
prefix, and an acquire can rely on it (`LocalStore.Published`).
-/

namespace Checkpoint

open Lib LocalStore List Function

variable {κ : Type} {cfg : WorkerConfig κ} {w w' s : Worker κ} {j : Nat} {job job' : CaptureJob κ}

structure Sealed (w : Worker κ) : Prop where
  queue : ∀ e ∈ w.queue, ∀ job, w.objects e.1 = some job →
    max job.spec.base job.spec.prefixEnd < e.2.length
  manifests : ∀ key m j, w.manifests.get? key = some (m, j) →
    Published m ∧ m.prefixEnd < m.tokens.length

/-- Nothing is queued or installed, and no job gets another spec. -/
structure Calms (w w' : Worker κ) : Prop where
  queue : w'.queue = w.queue
  spec : ∀ j job', w'.objects j = some job' → ∃ job, w.objects j = some job ∧ job'.spec = job.spec
  manifests : ∀ key v, w'.manifests.get? key = some v → w.manifests.get? key = some v

theorem Sealed.calms (h : Sealed w) (hw : Calms w w') : Sealed w' where
  queue e he job' hj' := by
    obtain ⟨job, hj, hspec⟩ := hw.spec e.1 job' hj'
    rw [hspec]
    exact h.queue e (hw.queue ▸ he) job hj
  manifests key m j hm := h.manifests key m j (hw.manifests key _ hm)

namespace Calms

theorem of_eq (hq : w'.queue = w.queue) (ho : w'.objects = w.objects)
    (hm : w'.manifests = w.manifests) : Calms w w' :=
  ⟨hq, fun _ job h => ⟨job, ho ▸ h, rfl⟩, fun _ _ h => hm ▸ h⟩

theorem refl (w : Worker κ) : Calms w w := of_eq rfl rfl rfl

theorem trans (h : Calms w w') (h' : Calms w' s) : Calms w s where
  queue := h'.queue.trans h.queue
  spec j job' hj' := by
    obtain ⟨job1, hj1, hspec1⟩ := h'.spec j job' hj'
    obtain ⟨job, hj, hspec⟩ := h.spec j job1 hj1
    exact ⟨job, hj, hspec1.trans hspec⟩
  manifests key v hv := h.manifests key v (h'.manifests key v hv)

theorem yield (w : Worker κ) (j : Nat) (r : CheckpointResult) : Calms w (w.yield j r) :=
  of_eq rfl rfl rfl

theorem setJob (hj : w.objects j = some job) (hspec : job'.spec = job.spec) :
    Calms w (w.setJob j job') := by
  refine ⟨rfl, fun i job1 hi => ?_, fun _ _ h => h⟩
  simp only [Worker.setJob, update_apply] at hi
  split at hi
  · next he =>
    cases hi
    exact ⟨job, he ▸ hj, hspec⟩
  · exact ⟨job1, hi, rfl⟩

theorem retire (hj : w.objects j = some job) (key : Identity) (job' : CaptureJob κ)
    (hspec : job'.spec = job.spec) : Calms w (w.retire key j job') := by
  unfold Worker.retire
  split
  · exact of_eq rfl rfl rfl
  · have hset : Calms w (w.setJob j job'.clear) := setJob hj hspec
    exact hset.trans (of_eq rfl rfl rfl)

theorem forget (w : Worker κ) (reqId : String) (generation : Option Int) :
    Calms w (w.forget reqId generation) := by
  refine ⟨rfl, (refl w).spec, fun key v hv => ?_⟩
  rw [forget_get?] at hv
  split at hv
  · cases hv
  · exact hv

theorem markCancelled (w : Worker κ) (key : Identity) : Calms w (w.markCancelled key) := by
  unfold Worker.markCancelled
  split
  · exact refl w
  split
  · exact refl w
  next j _ _ job hj =>
  have hset : Calms w (w.setJob j { job with cancelled := true }) := setJob hj rfl
  simp only
  split
  · exact hset
  split
  · exact hset.trans (retire (update_self ..) key _ rfl)
  · exact hset

theorem foldl {α : Type} (f : Worker κ → α → Worker κ) (hf : ∀ w a, Calms w (f w a)) (l : List α)
    (w : Worker κ) : Calms w (l.foldl f w) := by
  induction l generalizing w with
  | nil => exact refl w
  | cons a l ih => exact (hf w a).trans (ih (f w a))

theorem cancelMark (w : Worker κ) (reqId : String) (generation : Option Int) :
    Calms w (w.cancelMark reqId generation) :=
  foldl _ markCancelled _ w

theorem forgetCancel (w : Worker κ) (key : Identity) :
    Calms w ((w.forget key.1 (some key.2)).cancelMark key.1 (some key.2)) :=
  (forget w key.1 (some key.2)).trans (cancelMark _ key.1 (some key.2))

theorem close (w : Worker κ) : Calms w (w.close cfg) := by
  have hall := foldl _ forgetCancel w.jobs.keys w
  unfold Worker.close
  split
  · exact ⟨hall.queue, hall.spec, fun key v hv => by cases hv⟩
  · exact hall

theorem pollJob {key : Identity} {now : Nat} (hs : w.pollJob cfg key now = some w') :
    Calms w w' := by
  unfold Worker.pollJob at hs
  split at hs
  · cases hs
    exact refl w
  split at hs
  · cases hs
    exact refl w
  next j _ _ job hj =>
  split at hs
  · cases hs
  split at hs
  · cases hs
  · next result _ _ =>
    cases hs
    have hreport : Calms w (w.reportDone key j job result) ∧
        (w.reportDone key j job result).objects = w.objects := by
      unfold Worker.reportDone
      split
      · exact ⟨forget w _ _, rfl⟩
      · split <;> exact ⟨yield w j _, rfl⟩
    have hkept : (w.reportDone key j job result).objects j = some job := by rw [hreport.2, hj]
    exact hreport.1.trans (retire hkept key _ rfl)
  · split at hs
    · cases hs
      have hset : Calms w (w.setJob j { job with cancelled := true }) := setJob hj rfl
      have hyield := hset.trans (yield _ j ⟨key, .failed, 0, "checkpoint deadline"⟩)
      split
      · exact hyield.trans (retire (update_self ..) key _ rfl)
      · exact hyield
    · cases hs
      exact refl w

end Calms

theorem Sealed.seal (h : Sealed w) (key : Identity) (tokens : List Int) :
    Sealed (w.seal key tokens) := by
  unfold Worker.seal
  split
  · exact h
  split
  · exact h
  next j _ _ job hj =>
  split
  · exact h
  split
  · next hfrontier =>
    have hset : Sealed (w.setJob j { job with future := some .pending }) :=
      h.calms (Calms.setJob hj rfl)
    refine ⟨fun e he job' hj' => ?_, hset.manifests⟩
    rcases mem_append.1 he with he | he
    · exact hset.queue e he job' hj'
    · cases mem_singleton.1 he
      cases (update_self j _ w.objects).symm.trans hj'
      exact hfrontier.1
  · exact h.calms ((Calms.forgetCancel w key).trans (Calms.yield _ j _))

theorem Sealed.publishStep (h : Sealed w) {r : PublishStep}
    (hs : w.publishStep cfg r = some w') : Sealed w' := by
  unfold Worker.publishStep at hs
  split at hs
  · cases hs
  next j tokens rest hqueue =>
  split at hs
  · cases hs
  next job hj =>
  have hset : ∀ f, Sealed (w.setJob j { job with future := f }) :=
    fun f => h.calms (Calms.setJob hj rfl)
  have hrest : ∀ f, Sealed { w.setJob j { job with future := f } with queue := rest } :=
    fun f => ⟨fun e he => (hset f).queue e (hqueue ▸ mem_cons_of_mem _ he), (hset f).manifests⟩
  have hends := h.queue (j, tokens) (hqueue ▸ mem_cons_self) job hj
  split at hs
  · split at hs <;> cases hs
    · exact hrest _
    · exact hset _
  · cases hs
    split
    · refine ⟨(hset _).queue, fun key m i hm => ?_⟩
      rw [Dict.get?_set] at hm
      split at hm
      · cases hm
        exact ⟨sealedManifest_published hends, lt_of_le_of_lt (Int.le_max_right _ _) hends⟩
      · exact (hset _).manifests key m i hm
    · exact hset _
  · cases hs
    exact hrest _
  · cases hs
    exact hrest _
  · cases hs
    exact hrest _
  · cases hs

theorem Sealed.addJob (h : Sealed w) (hl : Lifecycle w) (job : CaptureJob κ) :
    Sealed (w.addJob job) := by
  refine ⟨fun e he job' hj' => ?_, h.manifests⟩
  obtain ⟨-, job0, hj0, -⟩ := hl.queued e he
  have hne : e.1 ≠ w.nextJob := Nat.ne_of_lt (hl.fresh e.1 job0 hj0)
  simp only [Worker.addJob, update_of_ne hne] at hj'
  exact h.queue e he job' hj'

theorem Sealed.capture (h : Sealed w) (hl : Lifecycle w) (env : CaptureEnv κ) (spec : CaptureSpec)
    (started : Nat) : Sealed (w.capture cfg env spec started) := by
  unfold Worker.capture
  split
  · split
    · exact h
    · exact h.calms (Calms.yield w _ _)
  · split
    · exact (h.addJob hl _).calms (Calms.yield _ _ _)
    · exact h.calms (.of_eq rfl rfl rfl)
    · exact h.addJob hl _

/-- **Every manifest that a run of the worker leaves in the store can be acquired from**: its groups
are in token order, and it ends behind the prefix of its request. -/
theorem manifests_published (h : (workerMachine cfg).Reachable w) {key : Identity}
    {m : LocalCheckpoint κ} (hm : w.manifests.get? key = some (m, j)) :
    Published m ∧ m.prefixEnd < m.tokens.length := by
  have hlife : (workerMachine cfg).Inductive Lifecycle := worker_inductive
  have hall : (workerMachine cfg).Inductive fun w => Lifecycle w ∧ Sealed w := by
    constructor
    · rintro w rfl
      exact ⟨hlife.start _ rfl, fun _ he => absurd he not_mem_nil,
        fun _ _ _ hm => by cases hm⟩
    · rintro w a w' ⟨hl, hw⟩ hs
      refine ⟨step_lifecycle hl hs, ?_⟩
      cases a with
      | capture env spec started =>
        cases hs
        exact hw.capture hl env spec started
      | sealJob key tokens =>
        cases hs
        exact hw.seal key tokens
      | pollJob key now => exact hw.calms (Calms.pollJob hs)
      | drainResults =>
        cases hs
        exact hw.calms (.of_eq rfl rfl rfl)
      | cancelForget reqId generation =>
        cases hs
        exact hw.calms ((Calms.forget w reqId generation).trans (.of_eq rfl rfl rfl))
      | cancelMark =>
        simp only [workerMachine, Worker.step] at hs
        split at hs
        · cases hs
        · cases hs
          exact hw.calms ((Calms.cancelMark w _ _).trans (.of_eq rfl rfl rfl))
      | close =>
        cases hs
        exact hw.calms (Calms.close w)
      | publishStep r => exact hw.publishStep hs
      | restoreForget key =>
        cases hs
        exact hw.calms (Calms.forget w key.1 (some key.2))
  exact (hall.reachable h).2.manifests key m j hm

/-- The first generation's manifest, with its second job listed. -/
theorem manifests_published_again : ∃ m j, againWorker.manifests.get? ("r", 1) = some (m, j) ∧
    Published m ∧ m.prefixEnd < m.tokens.length := by
  obtain ⟨⟨m, j⟩, hm, -⟩ := Option.map_eq_some_iff.1
    (by decide +kernel : (againWorker.manifests.get? ("r", 1)).map Prod.snd = some 0)
  exact ⟨m, j, hm, manifests_published (Machine.reachable_of_run rfl again_run) hm⟩

end Checkpoint
