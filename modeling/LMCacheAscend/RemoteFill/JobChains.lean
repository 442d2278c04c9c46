import LMCacheAscend.RemoteFill.ProducerJobs

/-!
# The pool of ordered jobs

One lemma for each kind of step says all that it changes.  Jobs wait only for
jobs that were submitted before them, and the executor starts jobs in the order
of their submission, so the jobs are a `FifoPool` and jobs that wait never hold
all workers (`jobs_unblocked`).
-/

namespace RemoteFill

open Lib List Option

section

variable {ρ : Type} [DecidableEq ρ] {cfg : ρ → SessionConfig} {generation : ρ → Int}
  {workers : Nat}

/-! ## Jobs and phases -/

def Coordinator.jobAt (s : Coordinator ρ) (j : Nat) : Option (ProducerJob ρ) :=
  (s.jobs[j]?).map JobEntry.job

variable {job : ProducerJob ρ}

omit [DecidableEq ρ] in
theorem jobAt_of_entry {s : Coordinator ρ} {j : Nat} {phase : JobPhase}
    (h : s.jobs[j]? = some ⟨job, phase⟩) : s.jobAt j = some job ∧ s.phase j = some phase := by
  unfold Coordinator.jobAt Coordinator.phase
  rw [h]
  exact ⟨rfl, rfl⟩

omit [DecidableEq ρ] in
theorem jobAt_of_phase {s : Coordinator ρ} {j : Nat} {phase : JobPhase}
    (h : s.phase j = some phase) : ∃ job, s.jobAt j = some job := by
  obtain ⟨e, he, -⟩ := map_eq_some_iff.1 h
  unfold Coordinator.jobAt
  rw [he]
  exact ⟨_, rfl⟩

omit [DecidableEq ρ] in
theorem jobAt_lt {s : Coordinator ρ} {j : Nat} (h : s.jobAt j = some job) : j < s.jobs.length := by
  obtain ⟨e, he, -⟩ := map_eq_some_iff.1 h
  exact lt_of_getElem? he

omit [DecidableEq ρ] in
theorem phase_lt {s : Coordinator ρ} {j : Nat} {phase : JobPhase} (h : s.phase j = some phase) :
    j < s.jobs.length := by
  obtain ⟨e, he, -⟩ := map_eq_some_iff.1 h
  exact lt_of_getElem? he

omit [DecidableEq ρ] in
theorem phase_of_lt {s : Coordinator ρ} {j : Nat} (h : j < s.jobs.length) :
    ∃ phase, s.phase j = some phase := by
  unfold Coordinator.phase
  rw [getElem?_eq_getElem h]
  exact ⟨_, rfl⟩

section

omit [DecidableEq ρ]

variable (s : Coordinator ρ) (j : Nat) (phase : JobPhase)

@[simp] theorem jobAt_setPhase (i : Nat) : (s.setPhase j phase).jobAt i = s.jobAt i := by
  unfold Coordinator.jobAt Coordinator.setPhase
  simp only
  rw [getElem?_modify]
  split
  all_goals
    cases s.jobs[i]? with
    | none | some => rfl

theorem phase_setPhase (i : Nat) :
    (s.setPhase j phase).phase i = if j = i then (s.phase i).map fun _ => phase else s.phase i := by
  unfold Coordinator.phase Coordinator.setPhase
  simp only
  rw [getElem?_modify]
  split
  all_goals
    cases s.jobs[i]? with
    | none | some => rfl

theorem phase_setPhase_self {old : JobPhase} (h : s.phase j = some old) :
    (s.setPhase j phase).phase j = some phase := by
  rw [phase_setPhase, if_pos rfl, h]
  rfl

theorem phase_setPhase_ne {i : Nat} (h : j ≠ i) :
    (s.setPhase j phase).phase i = s.phase i := by
  rw [phase_setPhase, if_neg h]

@[simp] theorem started_setPhase : (s.setPhase j phase).started = s.started := rfl

@[simp] theorem requests_setPhase : (s.setPhase j phase).requests = s.requests := rfl

@[simp] theorem length_setPhase : (s.setPhase j phase).jobs.length = s.jobs.length := by
  unfold Coordinator.setPhase
  exact length_modify _ _ _

end

@[simp] theorem jobAt_setRequest (s : Coordinator ρ) (r : ρ) (state : RequestJobs) (i : Nat) :
    (s.setRequest r state).jobAt i = s.jobAt i := rfl

@[simp] theorem phase_setRequest (s : Coordinator ρ) (r : ρ) (state : RequestJobs) (i : Nat) :
    (s.setRequest r state).phase i = s.phase i := rfl

theorem requests_setRequest (s : Coordinator ρ) (r : ρ) (state : RequestJobs) (q : ρ) :
    (s.setRequest r state).requests q = if q = r then state else s.requests q := rfl

/-! ## Steps -/

/-- What a step changes. -/
inductive Stepped (cfg : ρ → SessionConfig) (generation : ρ → Int) (s : Coordinator ρ) :
    JobAction ρ → Coordinator ρ → Prop
  | ignored {a : JobAction ρ} : Stepped cfg generation s a s
  /-- The window ids are used up. -/
  | notScheduled {a : JobAction ρ} (r : ρ) (windows : Nat) :
      Stepped cfg generation s a (s.setRequest r
        { s.requests r with nextWindowId := (s.requests r).nextWindowId + windows })
  | scheduled {a : JobAction ρ} (job : ProducerJob ρ)
      (hfirst : job.firstWindowId = (s.requests job.request).nextWindowId)
      (hprevious : job.previous = (s.requests job.request).lastFuture) :
      Stepped cfg generation s a (({ s with jobs := s.jobs ++ [⟨job, .queued⟩] } :
        Coordinator ρ).setRequest job.request { s.requests job.request with
          nextWindowId := (s.requests job.request).nextWindowId + job.controlWindows.length
          lastFuture := some s.jobs.length })
  | started (hlt : s.started < s.jobs.length) :
      Stepped cfg generation s .start
        { s.setPhase s.started .waiting with started := s.started + 1 }
  /-- The previous job, and so this one, raised. -/
  | raised {j : Nat} {created : Bool} (job : ProducerJob ρ) (hjob : s.jobAt j = some job)
      (hwaiting : s.phase j = some .waiting)
      (hprevious : ∃ p, job.previous = some p ∧ s.phase p = some (.done .raised)) :
      Stepped cfg generation s (.begin j created) (s.setPhase j (.done .raised))
  /-- There is no session, and it is not created. -/
  | notCreated {j : Nat} {created : Bool} (job : ProducerJob ρ) (hjob : s.jobAt j = some job)
      (hwaiting : s.phase j = some .waiting)
      (hprevious : ∀ p, job.previous = some p → ∃ outcome, outcome ≠ .raised ∧
        s.phase p = some (.done outcome))
      (hnone : (s.requests job.request).session = none) :
      Stepped cfg generation s (.begin j created) (s.setPhase j (.done .failed))
  | entered {j : Nat} {created : Bool} (job : ProducerJob ρ) (session : Session) (phase : JobPhase)
      (hjob : s.jobAt j = some job) (hwaiting : s.phase j = some .waiting)
      (hprevious : ∀ p, job.previous = some p → ∃ outcome, outcome ≠ .raised ∧
        s.phase p = some (.done outcome))
      (hsession : (s.requests job.request).session = some session ∨
        (s.requests job.request).session = none ∧ created = true ∧ session = Session.new)
      (hphase : phase = .done .skipped ∨ phase = .done .returned ∨
        phase = .inWindow 0 ∧ 0 < job.controlWindows.length) :
      Stepped cfg generation s (.begin j created) ((s.setRequest job.request
        { s.requests job.request with session := some session }).setPhase j phase)
  | window {j : Nat} {env : WindowEnv} (job : ProducerJob ρ) (offset : Nat) (session : Session)
      (pages : List ControlPage) (hjob : s.jobAt j = some job)
      (hphase : s.phase j = some (.inWindow offset))
      (hsession : (s.requests job.request).session = some session)
      (hpages : job.controlWindows[offset]? = some pages) :
      Stepped cfg generation s (.window j env) ((s.setRequest job.request
        { s.requests job.request with session := some (windowSession
          (windowProgram cfg job.request job.kind env
            ⟨job.firstWindowId + offset, generation job.request, pages⟩ session)) }).setPhase j
          (afterWindow job offset (windowProgram cfg job.request job.kind env
            ⟨job.firstWindowId + offset, generation job.request, pages⟩ session).1))

theorem submit_stepped (s : Coordinator ρ) (a : JobAction ρ) (r : ρ) (kind : JobKind)
    (pages : List ControlPage) (maximum : Nat) (admission : Admission) :
    Stepped cfg generation s a (s.submit r kind pages maximum admission) := by
  unfold Coordinator.submit
  simp only
  split
  · exact .ignored
  cases admission with
  | refused => exact .ignored
  | notScheduled => exact .notScheduled r _
  | scheduled =>
    exact .scheduled ⟨r, kind, (s.requests r).nextWindowId, slices maximum pages,
      (s.requests r).lastFuture⟩ rfl rfl

theorem enter_stepped {s : Coordinator ρ} {j : Nat} (created : Bool) (hjob : s.jobAt j = some job)
    (hwaiting : s.phase j = some .waiting)
    (hprevious : ∀ p, job.previous = some p → ∃ outcome, outcome ≠ .raised ∧
      s.phase p = some (.done outcome)) :
    Stepped cfg generation s (.begin j created) (s.enter j job created) := by
  unfold Coordinator.enter
  cases hsession : s.ensureSession job.request created with
  | none =>
    refine .notCreated job hjob hwaiting hprevious ?_
    unfold Coordinator.ensureSession at hsession
    split at hsession
    · cases hsession
    · next h => exact h
  | some session =>
    have hcreated : (s.requests job.request).session = some session ∨
        (s.requests job.request).session = none ∧ created = true ∧ session = Session.new := by
      unfold Coordinator.ensureSession at hsession
      split at hsession
      · next h => exact .inl (h.trans hsession)
      · next h =>
        split at hsession
        · next hc =>
          cases hsession
          exact .inr ⟨h, hc, rfl⟩
        · cases hsession
    simp only
    split
    · exact .entered job session _ hjob hwaiting hprevious hcreated (.inl rfl)
    split
    · exact .entered job session _ hjob hwaiting hprevious hcreated (.inr (.inl rfl))
    · next hne =>
      exact .entered job session _ hjob hwaiting hprevious hcreated
        (.inr (.inr ⟨rfl, length_pos_iff.2 hne⟩))

/-- **What a step can do.** -/
theorem step_stepped {s s' : Coordinator ρ} {a : JobAction ρ}
    (h : s.step cfg generation workers a = some s') : Stepped cfg generation s a s' := by
  cases a with
  | submit r kind pages maximum admission =>
    cases h
    exact submit_stepped s _ r kind pages maximum admission
  | start =>
    change s.start workers = some s' at h
    unfold Coordinator.start at h
    split at h
    · next hstart =>
      cases h
      exact .started hstart.1
    · cases h
  | begin j created =>
    change s.begin j created = some s' at h
    unfold Coordinator.begin at h
    split at h
    · next job hentry =>
      obtain ⟨hjob, hwaiting⟩ := jobAt_of_entry hentry
      split at h
      · next hnone =>
        cases h
        refine enter_stepped created hjob hwaiting fun p hp => ?_
        rw [hnone] at hp
        cases hp
      · next p hp =>
        split at h
        · next hraised =>
          cases h
          exact .raised job hjob hwaiting ⟨p, hp, hraised⟩
        · next outcome hne hdone =>
          cases h
          refine enter_stepped created hjob hwaiting fun q hq => ?_
          rw [hp] at hq
          cases hq
          exact ⟨outcome, hne, hdone⟩
        · cases h
    · cases h
  | window j env =>
    change s.window cfg generation j env = some s' at h
    unfold Coordinator.window at h
    split at h
    · next job offset hentry =>
      obtain ⟨hjob, hphase⟩ := jobAt_of_entry hentry
      split at h
      · next session pages hsession hpages =>
        cases h
        exact .window job offset session pages hjob hphase hsession hpages
      · cases h
    · cases h

/-! ## The queue -/

/-- A job has ended. -/
def Coordinator.Finished (s : Coordinator ρ) (j : Nat) : Prop := ∃ outcome, s.phase j = some (.done outcome)

/-- A worker is in the job. -/
def Coordinator.Running (s : Coordinator ρ) (j : Nat) : Prop :=
  ∃ phase, s.phase j = some phase ∧ phase.running = true

/-- The job that `j` waits for has ended. -/
def Coordinator.Unblocked (s : Coordinator ρ) (j : Nat) : Prop :=
  ∀ job p, s.jobAt j = some job → job.previous = some p → s.Finished p

/-- The queued jobs are those behind the started ones, and jobs wait for earlier ones. -/
structure Pooled (s : Coordinator ρ) : Prop where
  started_le : s.started ≤ s.jobs.length
  queued : ∀ j, s.phase j = some .queued ↔ s.started ≤ j ∧ j < s.jobs.length
  previous : ∀ j job p, s.jobAt j = some job → job.previous = some p → p < j
  last : ∀ r l, (s.requests r).lastFuture = some l → l < s.jobs.length

omit [DecidableEq ρ] in
theorem jobAt_append (s : Coordinator ρ) (e : JobEntry ρ) (i : Nat) :
    ({ s with jobs := s.jobs ++ [e] } : Coordinator ρ).jobAt i =
      if i = s.jobs.length then some e.job else s.jobAt i :=
  map_getElem?_snoc _ _ _ _

omit [DecidableEq ρ] in
theorem phase_append (s : Coordinator ρ) (e : JobEntry ρ) (i : Nat) :
    ({ s with jobs := s.jobs ++ [e] } : Coordinator ρ).phase i =
      if i = s.jobs.length then some e.phase else s.phase i :=
  map_getElem?_snoc _ _ _ _

omit [DecidableEq ρ] in
theorem Pooled.setPhase {s : Coordinator ρ} (h : Pooled s) {j : Nat} {old phase : JobPhase}
    (hold : s.phase j = some old) (hne : old ≠ .queued) (hphase : phase ≠ .queued) :
    Pooled (s.setPhase j phase) where
  started_le := by
    rw [length_setPhase]
    exact h.started_le
  queued i := by
    rw [length_setPhase, started_setPhase, ← h.queued i]
    by_cases hij : j = i
    · subst hij
      rw [phase_setPhase_self s j phase hold, hold]
      constructor
      · intro hq
        exact absurd (some.inj hq) hphase
      · intro hq
        exact absurd (some.inj hq) hne
    · rw [phase_setPhase_ne s j phase hij]
  previous i job p hjob := by
    rw [jobAt_setPhase] at hjob
    exact h.previous i job p hjob
  last r l := by
    rw [length_setPhase]
    exact h.last r l

theorem Pooled.setRequest {s : Coordinator ρ} (h : Pooled s) {r : ρ} {state : RequestJobs}
    (hlast : state.lastFuture = (s.requests r).lastFuture) : Pooled (s.setRequest r state) where
  started_le := h.started_le
  queued := h.queued
  previous := h.previous
  last q l := by
    rw [requests_setRequest]
    split
    · next hq =>
      rw [hlast]
      exact h.last r l
    · exact h.last q l

theorem Pooled.setSession {s : Coordinator ρ} (h : Pooled s) (r : ρ) (session : Option Session) :
    Pooled (s.setRequest r { s.requests r with session := session }) :=
  h.setRequest rfl

/-- Jobs enter the pool at its end and wait for earlier ones only. -/
theorem pooled_step {s s' : Coordinator ρ} {a : JobAction ρ} (h : Pooled s)
    (hstep : Stepped cfg generation s a s') : Pooled s' := by
  cases hstep with
  | ignored => exact h
  | notScheduled r windows => exact h.setRequest rfl
  | scheduled job hfirst hprevious =>
    refine ⟨?_, fun j => ?_, fun j job' p hjob hp => ?_, fun r l hl => ?_⟩
    · show s.started ≤ (s.jobs ++ [_]).length
      rw [length_append]
      exact Nat.le_trans h.started_le (Nat.le_add_right _ _)
    · show Coordinator.phase { s with jobs := s.jobs ++ [_] } j = _ ↔
        s.started ≤ j ∧ j < (s.jobs ++ [_]).length
      have hle := h.started_le
      rw [phase_append, length_append, length_singleton]
      split
      · next heq =>
        constructor
        · intro _
          omega
        · intro _
          rfl
      · rw [h.queued j]
        omega
    · have hjob : Coordinator.jobAt { s with jobs := s.jobs ++ [⟨job, .queued⟩] } j = some job' :=
        hjob
      rw [jobAt_append] at hjob
      split at hjob
      · next heq =>
        cases hjob
        rw [hprevious] at hp
        rw [heq]
        exact h.last _ _ hp
      · exact h.previous j job' p hjob hp
    · show l < (s.jobs ++ [_]).length
      rw [length_append, length_singleton]
      rw [requests_setRequest] at hl
      split at hl
      · cases hl
        omega
      · have := h.last r l hl
        omega
  | started hlt =>
    obtain ⟨hle, hqueued, hprevious, hlast⟩ := h
    refine ⟨?_, fun j => ?_, fun j job p hjob => ?_, fun r l hl => ?_⟩
    · show s.started + 1 ≤ (s.setPhase s.started .waiting).jobs.length
      rw [length_setPhase]
      exact hlt
    · show (s.setPhase s.started .waiting).phase j = _ ↔
        s.started + 1 ≤ j ∧ j < (s.setPhase s.started .waiting).jobs.length
      rw [length_setPhase, phase_setPhase]
      split
      · next heq =>
        subst heq
        rw [(hqueued s.started).2 ⟨Nat.le_refl _, hlt⟩]
        constructor
        · intro hq
          cases hq
        · intro hj
          omega
      · rw [hqueued j]
        omega
    · have hjob : (s.setPhase s.started .waiting).jobAt j = some job := hjob
      rw [jobAt_setPhase] at hjob
      exact hprevious j job p hjob
    · show l < (s.setPhase s.started .waiting).jobs.length
      rw [length_setPhase]
      exact hlast r l hl
  | raised _ _ hwaiting | notCreated _ _ hwaiting => exact h.setPhase hwaiting nofun nofun
  | entered job session phase hjob hwaiting hprevious hsession hphase =>
    refine (h.setSession job.request (some session)).setPhase hwaiting nofun ?_
    rcases hphase with rfl | rfl | ⟨rfl, -⟩ <;> exact nofun
  | window job offset session pages hjob hphase hsession hpages =>
    refine (h.setSession job.request _).setPhase hphase nofun ?_
    unfold afterWindow
    split
    · split
      · exact nofun
      split <;> exact nofun
    · exact nofun
    · exact nofun
    · exact nofun

omit [DecidableEq ρ] in
theorem pooled_new : Pooled (Coordinator.new : Coordinator ρ) := by
  refine ⟨Nat.le_refl 0, fun j => ?_, fun j job p hjob => ?_, fun r l hl => ?_⟩
  · constructor
    · intro hq
      cases hq
    · intro hj
      exact absurd hj.2 (Nat.not_lt_zero j)
  · cases hjob
  · cases hl

theorem pooled_invariant : (jobMachine cfg generation workers).Inductive Pooled where
  start := by
    rintro s rfl
    exact pooled_new
  step _ _ _ h hstep := pooled_step h (step_stepped hstep)

/-! ## Jobs that wait -/

/-- The jobs as a pool. -/
def Coordinator.pool (s : Coordinator ρ) : FifoPool where
  jobs := s.jobs.length
  started := s.started
  previous j := (s.jobAt j).bind ProducerJob.previous
  finished := s.Finished

omit [DecidableEq ρ] in
theorem Pooled.wellFormed {s : Coordinator ρ} (h : Pooled s) : s.pool.WellFormed where
  started_le := h.started_le
  finished_lt j := by
    rintro ⟨outcome, hdone⟩
    refine Nat.lt_of_not_le fun hle => ?_
    have hqueued := (h.queued j).2 ⟨hle, phase_lt hdone⟩
    rw [hdone] at hqueued
    cases hqueued
  previous_lt j p hp := by
    obtain ⟨job, hjob, hprevious⟩ := bind_eq_some_iff.1 hp
    exact h.previous j job p hjob hprevious

omit [DecidableEq ρ] in
theorem Pooled.running_iff {s : Coordinator ρ} (h : Pooled s) (j : Nat) :
    s.Running j ↔ s.pool.Running j := by
  constructor
  · rintro ⟨phase, hphase, hrunning⟩
    refine ⟨Nat.lt_of_not_le fun hle => ?_, ?_⟩
    · have hqueued := (h.queued j).2 ⟨hle, phase_lt hphase⟩
      rw [hphase] at hqueued
      cases hqueued
      cases hrunning
    · rintro ⟨outcome, hdone⟩
      rw [hphase] at hdone
      cases hdone
      cases hrunning
  · rintro ⟨hlt, hleft⟩
    obtain ⟨phase, hphase⟩ := phase_of_lt (Nat.lt_of_lt_of_le hlt h.started_le)
    refine ⟨phase, hphase, ?_⟩
    cases phase with
    | queued => exact absurd ((h.queued j).1 hphase).1 (Nat.not_le.2 hlt)
    | waiting | inWindow => rfl
    | done outcome => exact absurd ⟨outcome, hphase⟩ hleft

omit [DecidableEq ρ] in
theorem unblocked_iff (s : Coordinator ρ) (j : Nat) : s.Unblocked j ↔ s.pool.Unblocked j := by
  constructor
  · intro h p hp
    obtain ⟨job, hjob, hprevious⟩ := bind_eq_some_iff.1 hp
    exact h job p hjob hprevious
  · intro h job p hjob hprevious
    exact h p (bind_eq_some_iff.2 ⟨job, hjob, hprevious⟩)

omit [DecidableEq ρ] in
theorem runningJobs_eq_zero {s : Coordinator ρ} (h : ∀ j, ¬ s.Running j) : s.runningJobs = 0 := by
  unfold Coordinator.runningJobs
  rw [countP_eq_zero]
  intro e he hrunning
  obtain ⟨j, hj⟩ := mem_iff_getElem?.1 he
  refine h j ⟨e.phase, ?_, hrunning⟩
  unfold Coordinator.phase
  rw [hj]
  rfl

theorem begin_of_unblocked {s : Coordinator ρ} {j : Nat} (hwaiting : s.phase j = some .waiting)
    (hj : s.Unblocked j) (created : Bool) : (s.begin j created).isSome = true := by
  obtain ⟨⟨job, phase⟩, hentry, hphase⟩ := map_eq_some_iff.1 hwaiting
  cases hphase
  unfold Coordinator.begin
  rw [hentry]
  cases hprevious : job.previous with
  | none => simp only [hprevious]; rfl
  | some p =>
    obtain ⟨outcome, hdone⟩ := hj job p (jobAt_of_entry hentry).1 hprevious
    simp only [hprevious, hdone]
    cases outcome <;> rfl

/-- **Jobs never deadlock.**  In every reachable state with a job that has not ended, a running job
waits for nothing, or no job runs and the pool starts one next that waits for nothing; and where a
started job waits for nothing its wait ends. -/
theorem jobs_unblocked (hworkers : 0 < workers) {s : Coordinator ρ}
    (hs : (jobMachine cfg generation workers).Reachable s)
    (hleft : ∃ j, j < s.jobs.length ∧ ¬ s.Finished j) :
    ((∃ j, s.Running j ∧ s.Unblocked j) ∨
      (∀ j, ¬ s.Running j) ∧ ∃ s', s.start workers = some s' ∧ s'.Running s.started ∧
        s'.Unblocked s.started) ∧
    ∀ j created, s.phase j = some .waiting → s.Unblocked j → (s.begin j created).isSome = true := by
  have h := pooled_invariant.reachable hs
  refine ⟨?_, fun j created hwaiting hj => begin_of_unblocked hwaiting hj created⟩
  rcases h.wellFormed.unblocked hleft with ⟨j, hrunning, hunblocked⟩ | ⟨hnone, hlt, hunblocked⟩
  · exact .inl ⟨j, (h.running_iff j).2 hrunning, (unblocked_iff s j).2 hunblocked⟩
  have hidle : ∀ j, ¬ s.Running j := fun j hj => hnone j ((h.running_iff j).1 hj)
  have hqueued : s.phase s.started = some .queued := (h.queued s.started).2 ⟨Nat.le_refl _, hlt⟩
  refine .inr ⟨hidle, { s.setPhase s.started .waiting with started := s.started + 1 }, ?_,
    ⟨.waiting, phase_setPhase_self s s.started .waiting hqueued, rfl⟩, fun job p hjob hp => ?_⟩
  · unfold Coordinator.start
    rw [runningJobs_eq_zero hidle, if_pos ⟨hlt, hworkers⟩]
  · have hjob : (s.setPhase s.started .waiting).jobAt s.started = some job := hjob
    rw [jobAt_setPhase] at hjob
    obtain ⟨outcome, hdone⟩ := (unblocked_iff s s.started).2 hunblocked job p hjob hp
    refine ⟨outcome, ?_⟩
    show (s.setPhase s.started .waiting).phase p = _
    rw [phase_setPhase_ne s s.started .waiting, hdone]
    rintro rfl
    rw [hqueued] at hdone
    cases hdone

end

/-! ## Two jobs of one request -/

abbrev soleJobs : Machine (Coordinator Unit) (JobAction Unit) :=
  jobMachine (fun _ => soleConfig) (fun _ => 0) 1

/-- Two jobs of one window each are queued. -/
def twoJobs : List (JobAction Unit) :=
  [.submit () .probe soleWindow.controlPages 1 .scheduled,
    .submit () .batch soleWindow.controlPages 1 .scheduled]

/-- The one worker is in the first job, and the second one waits for it. -/
theorem jobs_unblocked_two : ∃ s, soleJobs.run Coordinator.new (twoJobs ++ [.start]) = some s ∧
    s.phase 0 = some .waiting ∧ ((∃ j, s.Running j ∧ s.Unblocked j) ∨
      (∀ j, ¬ s.Running j) ∧ ∃ s', s.start 1 = some s' ∧ s'.Running s.started ∧
        s'.Unblocked s.started) := by
  obtain ⟨s, hs⟩ : ∃ s, soleJobs.run Coordinator.new (twoJobs ++ [.start]) = some s := ⟨_, rfl⟩
  have hreach : soleJobs.Reachable s := Machine.reachable_of_run rfl hs
  refine ⟨s, hs, ?_, (jobs_unblocked Nat.one_pos hreach ⟨1, ?_, ?_⟩).1⟩
  · cases hs
    rfl
  · cases hs
    exact Nat.lt_succ_self 1
  cases hs
  rintro ⟨outcome, hdone⟩
  cases hdone

end RemoteFill
