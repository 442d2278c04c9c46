import LMCacheAscend.RemoteFill.JobChains
import LMCacheAscend.RemoteFill.WindowOrder

/-!
# The order of one request's windows

The jobs of a request follow each other: a job begins its windows when all jobs
of the request before it have ended (`Orderly`), so the ids that were sent are
below all that are still to be sent (`Past`).  A window that is not satisfied and
a failed job give up direct filling of the session, and no window of the request
sends RESERVE any more; but a job that fails before there is a session gives up
nothing (`Timely`, `reserved_after_failure`).
-/

namespace RemoteFill

open Lib List Option

section

variable {ρ : Type} [DecidableEq ρ] {cfg : ρ → SessionConfig} {generation : ρ → Int}
  {workers : Nat}

/-! ## The jobs of one request -/

/-- Links and window ids of the jobs. -/
structure Chained (s : Coordinator ρ) : Prop where
  le_last : ∀ j job, s.jobAt j = some job →
    ∃ l, (s.requests job.request).lastFuture = some l ∧ j ≤ l
  last : ∀ r l, (s.requests r).lastFuture = some l → ∃ job, s.jobAt l = some job ∧ job.request = r
  ids_le : ∀ j job, s.jobAt j = some job →
    job.firstWindowId + job.controlWindows.length ≤ (s.requests job.request).nextWindowId
  /-- A job waits for the job of its request before it. -/
  previous : ∀ i j job job', s.jobAt i = some job → s.jobAt j = some job' → i < j →
    job.request = job'.request → ∃ p job'', job'.previous = some p ∧ i ≤ p ∧ p < j ∧
      s.jobAt p = some job'' ∧ job''.request = job'.request
  ids : ∀ i j job job', s.jobAt i = some job → s.jobAt j = some job' → i < j →
    job.request = job'.request →
      job.firstWindowId + job.controlWindows.length ≤ job'.firstWindowId

variable {s s' : Coordinator ρ} {a : JobAction ρ} {j : Nat} {job : ProducerJob ρ}
  {old phase : JobPhase} {r : ρ} {w : Int} {session : Session} {ev : List Event}
  {p : JobOutcome → Bool}

omit [DecidableEq ρ] in
theorem Chained.congr (h : Chained s) (hjobs : ∀ j, s'.jobAt j = s.jobAt j)
    (hlast : ∀ r, (s'.requests r).lastFuture = (s.requests r).lastFuture)
    (hnext : ∀ r, (s.requests r).nextWindowId ≤ (s'.requests r).nextWindowId) : Chained s' where
  le_last j job hj := by
    rw [hlast]
    exact h.le_last j job ((hjobs j).symm.trans hj)
  last r l hl := by
    rw [hlast] at hl
    rw [hjobs]
    exact h.last r l hl
  ids_le j job hj := Nat.le_trans (h.ids_le j job ((hjobs j).symm.trans hj)) (hnext _)
  previous i j job job' hi hj := by
    rw [hjobs] at hi hj
    simp only [hjobs]
    exact h.previous i j job job' hi hj
  ids i j job job' hi hj := by
    rw [hjobs] at hi hj
    exact h.ids i j job job' hi hj

theorem requests_setSession (s : Coordinator ρ) (r q : ρ) (session : Option Session) :
    ((s.setRequest r { s.requests r with session := session }).requests q).lastFuture =
        (s.requests q).lastFuture ∧
      ((s.setRequest r { s.requests r with session := session }).requests q).nextWindowId =
        (s.requests q).nextWindowId := by
  rw [requests_setRequest]
  split
  · next h =>
    rw [h]
    exact ⟨rfl, rfl⟩
  · exact ⟨rfl, rfl⟩

/-- A scheduled job takes the next window ids of its request. -/
theorem chained_scheduled {s : Coordinator ρ} (h : Chained s) (job : ProducerJob ρ)
    (hfirst : job.firstWindowId = (s.requests job.request).nextWindowId)
    (hprevious : job.previous = (s.requests job.request).lastFuture) :
    Chained (({ s with jobs := s.jobs ++ [⟨job, .queued⟩] } : Coordinator ρ).setRequest job.request
      { s.requests job.request with
        nextWindowId := (s.requests job.request).nextWindowId + job.controlWindows.length
        lastFuture := some s.jobs.length }) := by
  -- a job is an old one or the new one
  have hcases : ∀ {j job'}, (if j = s.jobs.length then some job else s.jobAt j) = some job' →
      j = s.jobs.length ∧ job' = job ∨ s.jobAt j = some job' ∧ j < s.jobs.length := by
    intro j job' hj
    split at hj
    · next heq => exact .inl ⟨heq, (some.inj hj).symm⟩
    · exact .inr ⟨hj, jobAt_lt hj⟩
  have hold : ∀ {j job'}, s.jobAt j = some job' →
      (if j = s.jobs.length then some job else s.jobAt j) = some job' := by
    intro j job' hj
    rw [if_neg (Nat.ne_of_lt (jobAt_lt hj)), hj]
  refine ⟨fun j job' hj => ?_, fun r l hl => ?_, fun j job' hj => ?_,
    fun i j job1 job2 hi hj hlt hr => ?_, fun i j job1 job2 hi hj hlt hr => ?_⟩
  all_goals
    simp only [jobAt_setRequest, jobAt_append, requests_setRequest] at *
  · rcases hcases hj with ⟨rfl, rfl⟩ | ⟨hj, hlt⟩
    · rw [if_pos rfl]
      exact ⟨_, rfl, Nat.le_refl _⟩
    · split
      · exact ⟨_, rfl, Nat.le_of_lt hlt⟩
      · exact h.le_last j job' hj
  · split at hl
    · next hr =>
      cases hl
      rw [if_pos rfl]
      exact ⟨job, rfl, hr.symm⟩
    · obtain ⟨job', hjob, hr⟩ := h.last r l hl
      exact ⟨job', hold hjob, hr⟩
  · rcases hcases hj with ⟨rfl, rfl⟩ | ⟨hj, -⟩
    · rw [if_pos rfl, hfirst]
    split
    · next hr =>
      have hle := h.ids_le j job' hj
      rw [hr] at hle
      exact Nat.le_trans hle (Nat.le_add_right _ _)
    · exact h.ids_le j job' hj
  · rcases hcases hi with ⟨rfl, rfl⟩ | ⟨hi0, hilt⟩
    · rcases hcases hj with ⟨rfl, -⟩ | ⟨-, hjlt⟩
      · exact absurd hlt (Nat.lt_irrefl _)
      · exact absurd hlt (Nat.lt_asymm hjlt)
    rcases hcases hj with ⟨rfl, rfl⟩ | ⟨hj0, -⟩
    · obtain ⟨l, hl, hle⟩ := h.le_last i job1 hi0
      rw [hr, ← hprevious] at hl
      obtain ⟨job3, hjob3, hr3⟩ := h.last job2.request l (hprevious.symm.trans hl)
      exact ⟨l, job3, hl, hle, jobAt_lt hjob3, hold hjob3, hr3⟩
    · obtain ⟨p, job3, hp, hle, hlt', hjob3, hr3⟩ := h.previous i j job1 job2 hi0 hj0 hlt hr
      exact ⟨p, job3, hp, hle, hlt', hold hjob3, hr3⟩
  · rcases hcases hi with ⟨rfl, rfl⟩ | ⟨hi0, hilt⟩
    · rcases hcases hj with ⟨rfl, -⟩ | ⟨-, hjlt⟩
      · exact absurd hlt (Nat.lt_irrefl _)
      · exact absurd hlt (Nat.lt_asymm hjlt)
    rcases hcases hj with ⟨rfl, rfl⟩ | ⟨hj0, -⟩
    · rw [hfirst, ← hr]
      exact h.ids_le i job1 hi0
    · exact h.ids i j job1 job2 hi0 hj0 hlt hr

theorem chained_step (h : Chained s) (hstep : Stepped cfg generation s a s') : Chained s' := by
  cases hstep with
  | ignored => exact h
  | notScheduled r windows =>
    refine h.congr (fun _ => rfl) (fun q => ?_) fun q => ?_
    · rw [requests_setRequest]
      split
      · next hq => rw [hq]
      · rfl
    · rw [requests_setRequest]
      split
      · next hq =>
        rw [hq]
        exact Nat.le_add_right _ _
      · exact Nat.le_refl _
  | scheduled job hfirst hprevious => exact chained_scheduled h job hfirst hprevious
  | started hlt =>
    exact h.congr (fun j => jobAt_setPhase s s.started .waiting j) (fun _ => rfl)
      fun _ => Nat.le_refl _
  | raised | notCreated =>
    exact h.congr (jobAt_setPhase s _ _) (fun _ => rfl) fun _ => Nat.le_refl _
  | entered job | window job =>
    exact h.congr (fun j => jobAt_setPhase _ _ _ j)
      (fun q => (requests_setSession s job.request q _).1)
      fun q => Nat.le_of_eq (requests_setSession s job.request q _).2.symm

/-! ## Phases -/

/-- The wait of the job is over. -/
def JobPhase.begun : JobPhase → Bool
  | .inWindow _ => true
  | .done _ => true
  | _ => false

/-- Begun jobs have only ended ones before them, and an exception that a job's future keeps is
kept by all that begin after it. -/
def Orderly (s : Coordinator ρ) : Prop :=
  ∀ i j job job' phase, s.jobAt i = some job → s.jobAt j = some job' → i < j →
    job.request = job'.request → s.phase j = some phase → phase.begun = true →
      s.Finished i ∧ (s.phase i = some (.done .raised) → phase = .done .raised)

omit [DecidableEq ρ] in
theorem Orderly.setPhase {s : Coordinator ρ} (h : Orderly s)
    (hjob : s.jobAt j = some job) (hold : s.phase j = some old) (hopen : old.finished = false)
    (hearlier : phase.begun = true → ∀ i job', s.jobAt i = some job' → i < j →
      job'.request = job.request →
        s.Finished i ∧ (s.phase i = some (.done .raised) → phase = .done .raised)) :
    Orderly (s.setPhase j phase) := by
  have hnot : ¬ s.Finished j := by
    rintro ⟨outcome, hdone⟩
    rw [hold] at hdone
    cases hdone
    cases hopen
  have hkeep : ∀ {i}, s.Finished i → (s.setPhase j phase).phase i = s.phase i :=
    fun hi => phase_setPhase_ne s j phase fun hij => hnot (hij ▸ hi)
  intro i k job1 job2 phase' hi hk hlt hr hphase hbegun
  rw [jobAt_setPhase] at hi hk
  by_cases hjk : j = k
  · subst hjk
    rw [phase_setPhase_self s j phase hold] at hphase
    cases hphase
    rw [hjob] at hk
    cases hk
    obtain ⟨hfin, hraised⟩ := hearlier hbegun i job1 hi hlt hr
    refine ⟨?_, ?_⟩
    · unfold Coordinator.Finished
      rw [hkeep hfin]
      exact hfin
    · rw [hkeep hfin]
      exact hraised
  · rw [phase_setPhase_ne s j phase hjk] at hphase
    obtain ⟨hfin, hraised⟩ := h i k job1 job2 phase' hi hk hlt hr hphase hbegun
    refine ⟨?_, ?_⟩
    · unfold Coordinator.Finished
      rw [hkeep hfin]
      exact hfin
    · rw [hkeep hfin]
      exact hraised

omit [DecidableEq ρ] in
theorem Orderly.earlier {s : Coordinator ρ} (h : Orderly s) (hchain : Chained s)
    {phase : JobPhase} (hjob : s.jobAt j = some job)
    (hprevious : ∀ p, job.previous = some p → ∃ outcome, s.phase p = some (.done outcome) ∧
      (outcome = .raised → phase = .done .raised)) (i : Nat) (job' : ProducerJob ρ)
    (hi : s.jobAt i = some job') (hlt : i < j) (hr : job'.request = job.request) :
    s.Finished i ∧ (s.phase i = some (.done .raised) → phase = .done .raised) := by
  obtain ⟨p, job'', hp, hle, -, hpjob, hpr⟩ := hchain.previous i j job' job hi hjob hlt hr
  obtain ⟨outcome, hdone, hraised⟩ := hprevious p hp
  rcases Nat.eq_or_lt_of_le hle with rfl | hlt'
  · refine ⟨⟨outcome, hdone⟩, fun h' => hraised ?_⟩
    rw [hdone] at h'
    cases h'
    rfl
  · obtain ⟨hfin, hkept⟩ := h i p job' job'' _ hi hpjob hlt' (hr.trans hpr.symm) hdone rfl
    refine ⟨hfin, fun h' => hraised ?_⟩
    cases hkept h'
    rfl

theorem orderly_step (h : Orderly s) (hpool : Pooled s)
    (hchain : Chained s) (hstep : Stepped cfg generation s a s') : Orderly s' := by
  cases hstep with
  | ignored | notScheduled => exact h
  | scheduled job hfirst hprevious =>
    intro i j job1 job2 phase hi hj hlt hr hphase hbegun
    have hphase : Coordinator.phase { s with jobs := s.jobs ++ [⟨job, .queued⟩] } j = some phase :=
      hphase
    rw [phase_append] at hphase
    rw [jobAt_setRequest, jobAt_append] at hi hj
    have hphases : ∀ i, i < s.jobs.length → Coordinator.phase
        { s with jobs := s.jobs ++ [⟨job, .queued⟩] } i = s.phase i := by
      intro i hi
      rw [phase_append, if_neg (Nat.ne_of_lt hi)]
    split at hphase
    · -- the new job is queued
      cases hphase
      cases hbegun
    · next hne =>
      rw [if_neg hne] at hj
      have hi' : i < s.jobs.length := Nat.lt_trans hlt (jobAt_lt hj)
      rw [if_neg (Nat.ne_of_lt hi')] at hi
      obtain ⟨hfin, hraised⟩ := h i j job1 job2 phase hi hj hlt hr hphase hbegun
      unfold Coordinator.Finished
      rw [phase_setRequest, hphases i hi']
      exact ⟨hfin, hraised⟩
  | started hlt =>
    have hqueued := (hpool.queued s.started).2 ⟨Nat.le_refl _, hlt⟩
    obtain ⟨job, hjob⟩ := jobAt_of_phase hqueued
    have hset : Orderly (s.setPhase s.started .waiting) := h.setPhase hjob hqueued rfl nofun
    exact hset
  | raised job hjob hwaiting hprevious =>
    refine h.setPhase hjob hwaiting rfl fun _ => h.earlier hchain hjob fun p hp => ?_
    obtain ⟨q, hq, hdone⟩ := hprevious
    rw [hp] at hq
    cases hq
    exact ⟨_, hdone, fun _ => rfl⟩
  | notCreated job hjob hwaiting hprevious hnone =>
    refine h.setPhase hjob hwaiting rfl fun _ => h.earlier hchain hjob fun p hp => ?_
    obtain ⟨outcome, hne, hdone⟩ := hprevious p hp
    exact ⟨outcome, hdone, fun hr => absurd hr hne⟩
  | entered job session phase hjob hwaiting hprevious hsession hphase =>
    have hset : Orderly (s.setRequest job.request
        { s.requests job.request with session := some session }) := h
    refine hset.setPhase hjob hwaiting rfl fun _ => h.earlier hchain hjob fun p hp => ?_
    obtain ⟨outcome, hne, hdone⟩ := hprevious p hp
    exact ⟨outcome, hdone, fun hr => absurd hr hne⟩
  | window job offset session pages hjob hphase hsession hpages =>
    refine Orderly.setPhase (s := s.setRequest job.request _) h hjob hphase rfl fun _ => ?_
    intro i job' hi hlt hr
    obtain ⟨hfin, hraised⟩ := h i _ job' job _ hi hjob hlt hr hphase rfl
    exact ⟨hfin, fun h' => absurd (hraised h') nofun⟩

/-! ## Window ids -/

/-- Window ids never decrease, and RESERVE is sent for a later window only, or once more after a
lost reply. -/
structure InOrder (e e' : Event) : Prop where
  le : ∀ w ∈ e.windowId, ∀ w' ∈ e'.windowId, w ≤ w'
  reserves : e.isReserve = true → e'.isReserve = true →
    (∃ m latched reply, e = .sent m .replyLost latched ∧ e' = .sent m reply latched) ∨
      ∀ w ∈ e.windowId, ∀ w' ∈ e'.windowId, w < w'

/-- Where the windows of the job start that were not sent. -/
def JobPhase.offset : JobPhase → Nat
  | .inWindow offset => offset
  | _ => 0

/-- Every window of `r` that is still to be sent has a larger id. -/
structure Past (s : Coordinator ρ) (r : ρ) (w : Int) : Prop where
  next : w < (s.requests r).nextWindowId
  jobs : ∀ j job phase, s.jobAt j = some job → job.request = r → s.phase j = some phase →
    phase.finished = false → w < job.firstWindowId + phase.offset

structure Session.Ordered (cfg : SessionConfig) (session : Session) : Prop where
  closed : session.closed = false
  manifests : session.windowManifests = session.trace.filterMap (manifestOf cfg)
  trace : session.trace.Pairwise InOrder

/-- What the sessions have sent. -/
def Sends (cfg : ρ → SessionConfig) (s : Coordinator ρ) : Prop :=
  ∀ r session, (s.requests r).session = some session →
    session.Ordered (cfg r) ∧ ∀ e ∈ session.trace, ∀ w ∈ e.windowId, Past s r w

omit [DecidableEq ρ] in
theorem Past.setPhase {s : Coordinator ρ} (h : Past s r w)
    (hold : s.phase j = some old) (hle : phase.finished = false →
      old.finished = false ∧ old.offset ≤ phase.offset) : Past (s.setPhase j phase) r w where
  next := h.next
  jobs k job phase' hjob hr hphase hopen := by
    rw [jobAt_setPhase] at hjob
    by_cases hjk : j = k
    · subst hjk
      rw [phase_setPhase_self s j phase hold] at hphase
      cases hphase
      obtain ⟨hopen', hle⟩ := hle hopen
      have hlt := h.jobs j job old hjob hr hold hopen'
      omega
    · rw [phase_setPhase_ne s j phase hjk] at hphase
      exact h.jobs k job phase' hjob hr hphase hopen

theorem Past.setSession {s : Coordinator ρ} (h : Past s r w) (q : ρ) (session : Option Session) :
    Past (s.setRequest q { s.requests q with session := session }) r w where
  next := by
    rw [(requests_setSession s q r session).2]
    exact h.next
  jobs := h.jobs

theorem past_scheduled {s : Coordinator ρ} (h : Past s r w)
    (job : ProducerJob ρ) (hfirst : job.firstWindowId = (s.requests job.request).nextWindowId) :
    Past (({ s with jobs := s.jobs ++ [⟨job, .queued⟩] } : Coordinator ρ).setRequest job.request
      { s.requests job.request with
        nextWindowId := (s.requests job.request).nextWindowId + job.controlWindows.length
        lastFuture := some s.jobs.length }) r w where
  next := by
    have hnext := h.next
    rw [requests_setRequest]
    split
    · next hr =>
      rw [hr] at hnext
      simp only
      omega
    · exact hnext
  jobs j job' phase hjob hr hphase hopen := by
    rw [jobAt_setRequest, jobAt_append] at hjob
    rw [phase_setRequest, phase_append] at hphase
    split at hjob
    · next heq =>
      rw [if_pos heq] at hphase
      cases hjob
      cases hphase
      have hnext := h.next
      have hr : job.request = r := hr
      rw [← hr] at hnext
      show w < (job.firstWindowId : Int) + (0 : Nat)
      rw [hfirst]
      omega
    · next hne =>
      rw [if_neg hne] at hphase
      exact h.jobs j job' phase hjob hr hphase hopen

omit [DecidableEq ρ] in
theorem Sends.congr (h : Sends cfg s)
    (hsession : ∀ r, (s'.requests r).session = (s.requests r).session)
    (hpast : ∀ r w, Past s r w → Past s' r w) : Sends cfg s' := by
  intro r session hr
  rw [hsession] at hr
  obtain ⟨hordered, hids⟩ := h r session hr
  exact ⟨hordered, fun e he w hw => hpast r w (hids e he w hw)⟩

/-! ## One window -/

section

omit [DecidableEq ρ]

theorem windowProgram_called (cfg : ρ → SessionConfig) (r : ρ) (kind : JobKind) (env : WindowEnv)
    (window : Window) (hclosed : session.closed = false) :
    wp (windowProgram cfg r kind env window) (WindowCalled (cfg r) window.windowId session)
      session := by
  unfold windowProgram
  split
  · exact probeWindow_called window env.cached hclosed
  · exact transferWindow_called env.args window env.cached hclosed

theorem windowSession_beside (w : Int) (run : Except SessionError WindowResult × Session) :
    SentBeside w run.2 (windowSession run) := by
  obtain ⟨out, s'⟩ := run
  have hgiven : SentBeside w s' { s' with directViable := false } :=
    .of_eq rfl rfl rfl fun h => by cases h
  cases out with
  | ok result =>
    refine ⟨⟨[.returned result.directSatisfied s'.fatalRestartRequired], rfl, fun e he => ?_⟩, rfl,
      rfl, id⟩
    rw [mem_singleton.1 he]
    exact ⟨rfl, nofun⟩
  | error e =>
    cases e with
    | fatal | base => exact .of_eq rfl rfl rfl id
    | replyLost | valueError | runtimeError | raised => exact hgiven

theorem windowSession_sent (cfg : ρ → SessionConfig) (r : ρ) (kind : JobKind) (env : WindowEnv)
    (window : Window) (hclosed : session.closed = false) :
    ∃ ev, WindowSent (cfg r) window.windowId session
        (windowSession (windowProgram cfg r kind env window session)) ev ∧
      (session.directViable = false → ev.filter Event.isReserve = []) := by
  obtain ⟨⟨ev, hsent, hsilent⟩, -⟩ := windowProgram_called cfg r kind env window hclosed
  obtain ⟨ev', hsent', hfilter⟩ := hsent.around (.of_eq rfl rfl rfl id)
    (windowSession_beside window.windowId _)
  exact ⟨ev', hsent', fun h => hfilter.trans (hsilent h)⟩

theorem windowSession_stops (cfg : ρ → SessionConfig) (job : ProducerJob ρ) (offset : Nat)
    (env : WindowEnv) (window : Window) (hclosed : session.closed = false)
    {outcome : JobOutcome} (hstops : outcome = .broken ∨ outcome = .failed)
    (hafter : afterWindow job offset
      (windowProgram cfg job.request job.kind env window session).1 = .done outcome) :
    (windowSession (windowProgram cfg job.request job.kind env window session)).directViable =
      false := by
  obtain ⟨-, hgives⟩ := windowProgram_called cfg job.request job.kind env window hclosed
  generalize windowProgram cfg job.request job.kind env window session = run at hafter hgives
  obtain ⟨out, s'⟩ := run
  cases out with
  | ok result =>
    refine hgives ?_
    by_cases hsat : result.directSatisfied = false
    · exact hsat
    unfold afterWindow at hafter
    simp only at hafter
    rw [if_neg hsat] at hafter
    split at hafter
    · cases hafter
    · cases hafter
      rcases hstops with h | h <;> cases h
  | error e =>
    cases e with
    | fatal | base =>
      cases hafter
      rcases hstops with h | h <;> cases h
    | replyLost | valueError | runtimeError | raised => rfl

end

theorem WindowSent.inOrder {cfg : SessionConfig} {s s' : Session}
    (h : WindowSent cfg w s s' ev) : ev.Pairwise InOrder := by
  have hreserves : ev.Pairwise fun e e' => e.isReserve = true → e'.isReserve = true →
      ∃ m latched reply, e = .sent m .replyLost latched ∧ e' = .sent m reply latched := by
    rw [← pairwise_filter]
    rcases h.reserves with hnil | ⟨m, latched, reply, -, hattempts⟩
    · rw [hnil]
      exact .nil
    generalize ev.filter Event.isReserve = sent at hattempts
    cases hattempts with
    | once => exact pairwise_singleton _ _
    | again => exact pairwise_pair.2 ⟨m, latched, reply, rfl, rfl⟩
  refine hreserves.imp_of_mem fun he he' hr => ⟨fun v hv v' hv' => ?_, fun h1 h2 => .inl (hr h1 h2)⟩
  rw [h.about _ he v hv, h.about _ he' v' hv']

theorem Session.Ordered.sent {cfg : SessionConfig} {s s' : Session}
    (h : s.Ordered cfg) (hsent : WindowSent cfg w s s' ev)
    (hids : ∀ e ∈ s.trace, ∀ v ∈ e.windowId, v < w) : s'.Ordered cfg where
  closed := hsent.closed.trans h.closed
  manifests := by rw [hsent.manifests, h.manifests, hsent.trace, filterMap_append]
  trace := by
    rw [hsent.trace]
    refine pairwise_append.2 ⟨h.trace, hsent.inOrder, fun e he e' he' => ?_⟩
    have hlt : ∀ v ∈ e.windowId, ∀ v' ∈ e'.windowId, v < v' := by
      intro v hv v' hv'
      rw [hsent.about e' he' v' hv']
      exact hids e he v hv
    exact ⟨fun v hv v' hv' => Int.le_of_lt (hlt v hv v' hv'), fun _ _ => .inr hlt⟩

/-! ## All windows -/

theorem session_setSession (s : Coordinator ρ) (r q : ρ) (session : Option Session) :
    ((s.setRequest r { s.requests r with session := session }).requests q).session =
      if q = r then session else (s.requests q).session := by
  rw [requests_setRequest]
  split
  · rfl
  · rfl

omit [DecidableEq ρ] in
theorem afterWindow_next {offset : Nat}
    {out : Except SessionError WindowResult} (h : (afterWindow job offset out).finished = false) :
    afterWindow job offset out = .inWindow (offset + 1) := by
  cases out with
  | ok result =>
    unfold afterWindow at h ⊢
    simp only at h ⊢
    split at h
    · cases h
    · next hsat =>
      rw [if_neg hsat]
      split at h
      · next hlt => rw [if_pos hlt]
      · cases h
  | error e =>
    cases e with
    | fatal | base | replyLost | valueError | runtimeError | raised => cases h

/-- A window of the running job sends its own ids. -/
theorem sends_window {s : Coordinator ρ} (h : Sends cfg s) (hchain : Chained s)
    (horderly : Orderly s) {offset : Nat}
    (hjob : s.jobAt j = some job) (hphase : s.phase j = some (.inWindow offset))
    (hsession : (s.requests job.request).session = some session)
    (hoffset : offset < job.controlWindows.length) (session' : Session)
    (hsent : WindowSent (cfg job.request) (job.firstWindowId + offset) session session' ev)
    (phase : JobPhase) (hnext : phase.finished = false → phase = .inWindow (offset + 1)) :
    Sends cfg ((s.setRequest job.request
      { s.requests job.request with session := some session' }).setPhase j phase) := by
  have hpast : ∀ q w, Past s q w → Past ((s.setRequest job.request
      { s.requests job.request with session := some session' }).setPhase j phase) q w := by
    intro q w hw
    refine (hw.setSession job.request (some session')).setPhase hphase fun hopen => ⟨rfl, ?_⟩
    rw [hnext hopen]
    exact Nat.le_succ offset
  -- the id of this window is past, too
  have hown : Past ((s.setRequest job.request
      { s.requests job.request with session := some session' }).setPhase j phase) job.request
        (job.firstWindowId + offset) := by
    refine ⟨?_, fun k job' phase' hk hr hphase' hopen => ?_⟩
    · rw [requests_setPhase, (requests_setSession s job.request job.request _).2]
      have hle := hchain.ids_le j job hjob
      omega
    · rw [jobAt_setPhase, jobAt_setRequest] at hk
      rcases Nat.lt_trichotomy k j with hlt | rfl | hlt
      · -- an earlier job has ended
        obtain ⟨⟨outcome, hdone⟩, -⟩ := horderly k j job' job _ hk hjob hlt hr hphase rfl
        rw [phase_setPhase_ne _ _ _ (Nat.ne_of_gt hlt), phase_setRequest, hdone] at hphase'
        cases hphase'
        cases hopen
      · have hself := phase_setPhase_self (s.setRequest job.request
          { s.requests job.request with session := some session' }) k phase hphase
        rw [hself] at hphase'
        cases hphase'
        rw [hjob] at hk
        cases hk
        rw [hnext hopen]
        show _ < (job.firstWindowId : Int) + ((offset + 1 : Nat) : Int)
        omega
      · have hle := hchain.ids j k job job' hjob hk hlt hr.symm
        omega
  intro q session'' hq
  rw [requests_setPhase, session_setSession] at hq
  split at hq
  · next heq =>
    subst heq
    cases hq
    obtain ⟨hordered, hids⟩ := h job.request _ hsession
    refine ⟨hordered.sent hsent fun e he v hv =>
      (hids e he v hv).jobs j job _ hjob rfl hphase rfl, fun e he v hv => ?_⟩
    rw [hsent.trace] at he
    rcases mem_append.1 he with he | he
    · exact hpast _ v (hids e he v hv)
    · rw [hsent.about e he v hv]
      exact hown
  · obtain ⟨hordered, hids⟩ := h q _ hq
    exact ⟨hordered, fun e he w hw => hpast q w (hids e he w hw)⟩

/-- Sessions send in order, and only ids of windows that are past. -/
theorem sends_step (h : Sends cfg s) (hpool : Pooled s)
    (hchain : Chained s) (horderly : Orderly s) (hstep : Stepped cfg generation s a s') :
    Sends cfg s' := by
  cases hstep with
  | ignored => exact h
  | notScheduled r windows =>
    refine h.congr (fun q => ?_) fun q w hw => ⟨?_, hw.jobs⟩
    · rw [requests_setRequest]
      split
      · next hq => rw [hq]
      · rfl
    · have hnext := hw.next
      rw [requests_setRequest]
      split
      · next hq =>
        rw [hq] at hnext
        simp only
        omega
      · exact hnext
  | scheduled job hfirst hprevious =>
    refine h.congr (fun q => ?_) fun q w hw => past_scheduled hw job hfirst
    rw [requests_setRequest]
    split
    · next hq => rw [hq]
    · rfl
  | started hlt =>
    have hqueued := (hpool.queued s.started).2 ⟨Nat.le_refl _, hlt⟩
    exact h.congr (fun _ => rfl) fun q w hw =>
      have hw' : Past (s.setPhase s.started .waiting) q w :=
        hw.setPhase hqueued fun _ => ⟨rfl, Nat.le_refl _⟩
      ⟨hw'.next, hw'.jobs⟩
  | raised _ _ hwaiting | notCreated _ _ hwaiting =>
    exact h.congr (fun _ => rfl) fun q w hw => hw.setPhase hwaiting nofun
  | entered job session phase hjob hwaiting hprevious hsession hphase =>
    have hpast : ∀ q w, Past s q w → Past ((s.setRequest job.request
        { s.requests job.request with session := some session }).setPhase _ phase) q w :=
      fun q w hw => (hw.setSession job.request (some session)).setPhase hwaiting
        fun _ => ⟨rfl, Nat.zero_le _⟩
    intro q session' hq
    rw [requests_setPhase, session_setSession] at hq
    split at hq
    · next heq =>
      cases hq
      rcases hsession with hsome | ⟨hnone, -, rfl⟩
      · rw [← heq] at hsome
        obtain ⟨hordered, hids⟩ := h q _ hsome
        exact ⟨hordered, fun e he w hw => hpast q w (hids e he w hw)⟩
      · exact ⟨⟨rfl, rfl, .nil⟩, fun e he => absurd he not_mem_nil⟩
    · obtain ⟨hordered, hids⟩ := h q _ hq
      exact ⟨hordered, fun e he w hw => hpast q w (hids e he w hw)⟩
  | window job offset session pages hjob hphase hsession hpages =>
    obtain ⟨ev, hsent, -⟩ := windowSession_sent cfg job.request job.kind _
      ⟨job.firstWindowId + offset, generation job.request, pages⟩ (h _ _ hsession).1.closed
    exact sends_window h hchain horderly hjob hphase hsession
      (lt_of_getElem? hpages) _ hsent _ afterWindow_next

/-! ## Jobs that stop the request -/

/-- The job gives up direct filling. -/
def JobOutcome.givesUp : JobOutcome → Bool
  | .broken => true
  | .failed => true
  | _ => false

/-- No window is sent after the job. -/
def JobOutcome.stops (outcome : JobOutcome) : Bool := outcome.givesUp || outcome = .raised

/-- A job of the request has ended in this way. -/
def Coordinator.Ended (s : Coordinator ρ) (r : ρ) (p : JobOutcome → Bool) : Prop :=
  ∃ j job outcome, s.jobAt j = some job ∧ job.request = r ∧ s.phase j = some (.done outcome) ∧
    p outcome = true

/-- The session of a request is not created any more once a job of it has failed. -/
def Timely (s : Coordinator ρ) : JobAction ρ → Prop
  | .begin j true => ∀ job, s.jobAt j = some job → (s.requests job.request).session = none →
      ¬ s.Ended job.request JobOutcome.givesUp
  | _ => True

/-- A job that gives up has given up the session. -/
def Stops (s : Coordinator ρ) : Prop :=
  ∀ r session, s.Ended r JobOutcome.givesUp → (s.requests r).session = some session →
    session.directViable = false

omit [DecidableEq ρ] in
theorem Coordinator.Ended.of_setPhase {s : Coordinator ρ}
    (hjob : s.jobAt j = some job) (hold : s.phase j = some old)
    (h : (s.setPhase j phase).Ended r p) : s.Ended r p ∨
      job.request = r ∧ ∃ outcome, phase = .done outcome ∧ p outcome = true := by
  obtain ⟨k, job', outcome, hk, hr, hphase, hp⟩ := h
  rw [jobAt_setPhase] at hk
  by_cases hjk : j = k
  · subst hjk
    rw [phase_setPhase_self s j phase hold] at hphase
    rw [hjob] at hk
    cases hk
    exact .inr ⟨hr, outcome, some.inj hphase, hp⟩
  · rw [phase_setPhase_ne s j phase hjk] at hphase
    exact .inl ⟨k, job', outcome, hk, hr, hphase, hp⟩

omit [DecidableEq ρ] in
theorem Stops.setPhase {s : Coordinator ρ} (h : Stops s)
    (hjob : s.jobAt j = some job) (hold : s.phase j = some old)
    (hnew : ∀ outcome session, phase = .done outcome → outcome.givesUp = true →
      (s.requests job.request).session = some session → session.directViable = false) :
    Stops (s.setPhase j phase) := by
  intro r session hended hsession
  rcases Coordinator.Ended.of_setPhase hjob hold hended with hended | ⟨rfl, outcome, hphase, hp⟩
  · exact h r session hended hsession
  · exact hnew outcome session hphase hp hsession

theorem Stops.setSession {s : Coordinator ρ} (h : Stops s) (r : ρ) (session' : Session)
    (hgiven : s.Ended r JobOutcome.givesUp → session'.directViable = false) :
    Stops (s.setRequest r { s.requests r with session := some session' }) := by
  intro q session hended hsession
  rw [session_setSession] at hsession
  split at hsession
  · next hq =>
    cases hsession
    exact hgiven (hq ▸ hended)
  · exact h q session hended hsession

/-- A timely step creates no session behind a job that gave up. -/
theorem stops_step (h : Stops s) (hpool : Pooled s)
    (hsends : Sends cfg s) (htimely : Timely s a) (hstep : Stepped cfg generation s a s') :
    Stops s' := by
  cases hstep with
  | ignored => exact h
  | notScheduled r windows =>
    intro q session hended hsession
    refine h q session hended ?_
    rw [requests_setRequest] at hsession
    split at hsession
    · next hq =>
      rw [hq]
      exact hsession
    · exact hsession
  | scheduled job hfirst hprevious =>
    intro q session hended hsession
    refine h q session ?_ ?_
    · obtain ⟨k, job', outcome, hk, hr, hphase, hp⟩ := hended
      rw [jobAt_setRequest, jobAt_append] at hk
      rw [phase_setRequest, phase_append] at hphase
      split at hphase
      · cases hphase
      · next hne =>
        rw [if_neg hne] at hk
        exact ⟨k, job', outcome, hk, hr, hphase, hp⟩
    · rw [requests_setRequest] at hsession
      split at hsession
      · next hq =>
        rw [hq]
        exact hsession
      · exact hsession
  | started hlt =>
    have hqueued := (hpool.queued s.started).2 ⟨Nat.le_refl _, hlt⟩
    obtain ⟨job, hjob⟩ := jobAt_of_phase hqueued
    have hset : Stops (s.setPhase s.started .waiting) :=
      h.setPhase hjob hqueued fun outcome session heq => by cases heq
    exact hset
  | raised job hjob hwaiting hprevious =>
    refine h.setPhase hjob hwaiting fun outcome session heq hgives => ?_
    cases heq
    cases hgives
  | notCreated job hjob hwaiting hprevious hnone =>
    refine h.setPhase hjob hwaiting fun outcome session heq hgives hsession => ?_
    rw [hnone] at hsession
    cases hsession
  | entered job session phase hjob hwaiting hprevious hsession hphase =>
    refine Stops.setPhase (h.setSession job.request session fun hended => ?_) hjob hwaiting ?_
    · rcases hsession with hsome | ⟨hnone, rfl, rfl⟩
      · exact h _ session hended hsome
      · exact absurd hended (htimely job hjob hnone)
    · intro outcome session' heq hgives
      rcases hphase with rfl | rfl | ⟨rfl, -⟩
      · cases heq
        cases hgives
      · cases heq
        cases hgives
      · cases heq
  | window job offset session pages hjob hphase hsession hpages =>
    have hclosed := (hsends _ _ hsession).1.closed
    obtain ⟨ev, hsent, -⟩ := windowSession_sent cfg job.request job.kind _
      ⟨job.firstWindowId + offset, generation job.request, pages⟩ hclosed
    refine Stops.setPhase (h.setSession job.request _ fun hended => ?_) hjob hphase ?_
    · refine Bool.eq_false_iff.2 fun hv => ?_
      have hviable := h _ session hended hsession
      rw [hsent.viable hv] at hviable
      cases hviable
    · intro outcome session' heq hgives hsession'
      rw [session_setSession, if_pos rfl] at hsession'
      cases hsession'
      refine windowSession_stops cfg job offset _ _ hclosed ?_ heq
      cases outcome with
      | broken => exact .inl rfl
      | failed => exact .inr rfl
      | returned | skipped | raised => cases hgives

/-! ## Runs -/

/-- What holds in every state. -/
structure Ordered (cfg : ρ → SessionConfig) (s : Coordinator ρ) : Prop where
  pool : Pooled s
  chain : Chained s
  orderly : Orderly s
  sends : Sends cfg s

theorem Ordered.step (h : Ordered cfg s)
    (hstep : Stepped cfg generation s a s') : Ordered cfg s' where
  pool := pooled_step h.pool hstep
  chain := chained_step h.chain hstep
  orderly := orderly_step h.orderly h.pool h.chain hstep
  sends := sends_step h.sends h.pool h.chain h.orderly hstep

omit [DecidableEq ρ] in
theorem ordered_new : Ordered cfg (Coordinator.new : Coordinator ρ) where
  pool := pooled_new
  chain := by
    refine ⟨fun j job hj => ?_, fun r l hl => ?_, fun j job hj => ?_, fun i j job job' hi => ?_,
      fun i j job job' hi => ?_⟩
    · cases hj
    · cases hl
    · cases hj
    · cases hi
    · cases hi
  orderly := by
    intro i j job job' phase hi
    cases hi
  sends := by
    intro r session hr
    cases hr

theorem ordered_invariant : (jobMachine cfg generation workers).Inductive (Ordered cfg) where
  start := by
    rintro s rfl
    exact ordered_new
  step _ _ _ h hstep := h.step (step_stepped hstep)

theorem stops_invariant : (jobMachine cfg generation workers).InductiveIf Timely
    fun s => Ordered cfg s ∧ Stops s where
  start := by
    rintro s rfl
    refine ⟨ordered_new, fun r session hended hr => ?_⟩
    cases hr
  step _ _ _ h htimely hstep :=
    ⟨h.1.step (step_stepped hstep), stops_step h.2 h.1.pool h.1.sends htimely (step_stepped hstep)⟩

omit [DecidableEq ρ] in
theorem Coordinator.Ended.setPhase {s : Coordinator ρ} (h : s.Ended r p)
    (hold : s.phase j = some old) (hopen : old.finished = false) :
    (s.setPhase j phase).Ended r p := by
  obtain ⟨k, job, outcome, hk, hr, hphase, hp⟩ := h
  refine ⟨k, job, outcome, (jobAt_setPhase s j phase k).trans hk, hr, ?_, hp⟩
  rw [phase_setPhase_ne s j phase, hphase]
  rintro rfl
  rw [hold] at hphase
  cases hphase
  cases hopen

theorem ended_step (h : s.Ended r p) (hpool : Pooled s) (hstep : Stepped cfg generation s a s') :
    s'.Ended r p := by
  cases hstep with
  | ignored | notScheduled => exact h
  | scheduled job hfirst hprevious =>
    obtain ⟨k, job', outcome, hk, hr, hphase, hp⟩ := h
    have hne := Nat.ne_of_lt (jobAt_lt hk)
    refine ⟨k, job', outcome, ?_, hr, ?_, hp⟩
    · rw [jobAt_setRequest, jobAt_append, if_neg hne]
      exact hk
    · rw [phase_setRequest, phase_append, if_neg hne]
      exact hphase
  | started hlt =>
    have hset : (s.setPhase s.started .waiting).Ended r p :=
      h.setPhase ((hpool.queued s.started).2 ⟨Nat.le_refl _, hlt⟩) rfl
    exact hset
  | raised _ _ hwaiting | notCreated _ _ hwaiting => exact h.setPhase hwaiting rfl
  | entered job session phase hjob hwaiting hprevious hsession hphase =>
    have hset : (s.setRequest job.request
        { s.requests job.request with session := some session }).Ended r p := h
    exact hset.setPhase hwaiting rfl
  | window job offset session pages hjob hphase hsession hpages =>
    have hset : ∀ session', (s.setRequest job.request
        { s.requests job.request with session := some session' }).Ended r p := fun _ => h
    exact (hset _).setPhase hphase rfl

/-- The RESERVE messages of the request. -/
def Coordinator.reserves (s : Coordinator ρ) (r : ρ) : List Event :=
  ((s.requests r).session.elim [] Session.trace).filter Event.isReserve

omit [DecidableEq ρ] in
theorem reserves_of_session
    (h : (s'.requests r).session = (s.requests r).session) : s'.reserves r = s.reserves r := by
  unfold Coordinator.reserves
  rw [h]

theorem reserves_step (h : Ordered cfg s) (hstops : Stops s) (hended : s.Ended r JobOutcome.stops)
    (hstep : Stepped cfg generation s a s') : s'.reserves r = s.reserves r := by
  cases hstep with
  | ignored | started | raised | notCreated => rfl
  | notScheduled | scheduled =>
    refine reserves_of_session ?_
    rw [requests_setRequest]
    split
    · next hq => rw [hq]
    · rfl
  | entered job session phase hjob hwaiting hprevious hsession hphase =>
    unfold Coordinator.reserves
    rw [requests_setPhase, session_setSession]
    split
    · next hq =>
      rw [hq]
      rcases hsession with hsome | ⟨hnone, -, rfl⟩
      · rw [hsome]
      · rw [hnone]
        rfl
    · rfl
  | @window j env job offset session pages hjob hphase hsession hpages =>
    unfold Coordinator.reserves
    rw [requests_setPhase, session_setSession]
    split
    · next hq =>
      obtain ⟨ev, hsent, hsilent⟩ := windowSession_sent cfg job.request job.kind env
        ⟨job.firstWindowId + offset, generation job.request, pages⟩ (h.sends _ _ hsession).1.closed
      rw [hq, hsession]
      show List.filter _ (windowSession _).trace = List.filter _ session.trace
      rw [hsent.trace, filter_append, hsilent, append_nil]
      -- the job that stopped the request is an earlier one, and did not raise
      obtain ⟨i, job', outcome, hi, hr, hdone, hp⟩ := hended
      have hr' : job'.request = job.request := hr.trans hq
      cases hgives : outcome.givesUp with
      | true => exact hstops _ session ⟨i, job', outcome, hi, hr', hdone, hgives⟩ hsession
      | false =>
        have hraised : outcome = .raised := by
          unfold JobOutcome.stops at hp
          rw [hgives, Bool.false_or] at hp
          exact of_decide_eq_true hp
        subst hraised
        rcases Nat.lt_trichotomy i j with hlt | rfl | hlt
        · cases (h.orderly i j job' job _ hi hjob hlt hr' hphase rfl).2 hdone
        · rw [hphase] at hdone
          cases hdone
        · obtain ⟨⟨outcome, hfin⟩, -⟩ := h.orderly j i job job' _ hjob hi hlt hr'.symm hdone rfl
          rw [hphase] at hfin
          cases hfin
    · rfl

/-- **The windows of a request are sent in order.**  In every run the ids that a session sends
never decrease, RESERVE is sent for each window at most once (and again after a lost reply), and
the manifests are those of the windows whose RESERVE result was valid; in runs that create no
session after a failed job, no window is reserved once a window was not satisfied or a job
failed. -/
theorem windows_ordered (cfg : ρ → SessionConfig) (generation : ρ → Int) (workers : Nat) :
    (∀ s, (jobMachine cfg generation workers).Reachable s → ∀ r session,
      (s.requests r).session = some session → session.trace.Pairwise InOrder ∧
        session.windowManifests = session.trace.filterMap (manifestOf (cfg r))) ∧
    ∀ s s' r, (jobMachine cfg generation workers).ReachableIf Timely s →
      s.Ended r JobOutcome.stops →
      ((jobMachine cfg generation workers).after s).ReachableIf Timely s' →
        s'.reserves r = s.reserves r := by
  refine ⟨fun s hs r session hr => ?_, fun s s' r hs hended hs' => ?_⟩
  · obtain ⟨hordered, -⟩ := (ordered_invariant.reachable hs).sends r session hr
    exact ⟨hordered.trace, hordered.manifests⟩
  · have hkept : s'.Ended r JobOutcome.stops ∧ s'.reserves r = s.reserves r := by
      induction hs' with
      | start h0 =>
        cases h0
        exact ⟨hended, rfl⟩
      | step a hreach htimely hstep ih =>
        obtain ⟨hended', hsame⟩ := ih
        have h := stops_invariant.reachable (hs.trans_after hreach)
        have hstepped := step_stepped hstep
        exact ⟨ended_step hended' h.1.pool hstepped,
          (reserves_step h.1 h.2 hended' hstepped).trans hsame⟩
    exact hkept.2

end

/-! ## A window that is refused, and a session that is not created -/

/-- A decoder that rejects every reservation, or accepts it. -/
def soleEnv (code : ResultCode) : WindowEnv where
  exec _ m := .response (if m.request.kind = .reserveWindow then
    { soleResponse m with code := code } else soleResponse m)
  args := soleTransfer (.ok (some ⟨"attempt", 0, 4096⟩))
  cached := true

/-- The first job's window is refused; the second job sends nothing. -/
theorem windows_ordered_refused : ∃ s s', soleJobs.run Coordinator.new
      (twoJobs ++ [.start, .begin 0 true, .window 0 (soleEnv .rejected)]) = some s ∧
    soleJobs.run s [.start, .begin 1 true] = some s' ∧ (s.reserves ()).length = 1 ∧
      s'.reserves () = s.reserves () := by
  refine ⟨_, _, rfl, rfl, rfl, ?_⟩
  refine (windows_ordered (fun _ => soleConfig) (fun _ => 0) 1).2 _ _ ()
    (Machine.ReachableIf.step (.window 0 (soleEnv .rejected))
      (.step (.begin 0 true) (.step .start
        (.step (.submit () .batch soleWindow.controlPages 1 .scheduled)
          (.step (.submit () .probe soleWindow.controlPages 1 .scheduled) (.start rfl) trivial rfl)
          trivial rfl) trivial rfl) ?_ rfl) trivial rfl)
    ⟨0, _, .broken, rfl, rfl, rfl, rfl⟩
    (.step (.begin 1 true) (.step .start (.start rfl) trivial rfl) ?_ rfl)
  · rintro job hjob - ⟨j, job', outcome, hj, -, hphase, -⟩
    match j with
    | 0 => cases hphase
    | 1 => cases hphase
    | j + 2 => cases hphase
  · intro job hjob hnone
    cases hnone

/-- No session is created for the first job, and the second job creates it and reserves. -/
theorem reserved_after_failure : ¬ ∀ (cfg : Unit → SessionConfig) (s s' : Coordinator Unit) (r : Unit),
    (jobMachine cfg (fun _ => 0) 1).Reachable s → s.Ended r JobOutcome.stops →
      ((jobMachine cfg (fun _ => 0) 1).after s).Reachable s' → s'.reserves r = s.reserves r := by
  intro h
  have hfailed : ∃ s, soleJobs.run Coordinator.new (twoJobs ++ [.start, .begin 0 false]) = some s :=
    ⟨_, rfl⟩
  obtain ⟨s, hs⟩ := hfailed
  have hlater : ∃ s', (soleJobs.after s).run s [.start, .begin 1 true, .window 1 (soleEnv .ok)] =
      some s' := by
    cases hs
    exact ⟨_, rfl⟩
  obtain ⟨s', hs'⟩ := hlater
  have hended : s.Ended () JobOutcome.stops := by
    cases hs
    exact ⟨0, _, .failed, rfl, rfl, rfl, rfl⟩
  have hsame := h (fun _ => soleConfig) s s' () (Machine.reachable_of_run rfl hs) hended
    (Machine.reachable_of_run rfl hs')
  cases hs
  cases hs'
  have hlength := congrArg List.length hsame
  cases hlength

/-! ## One job at a time -/

/-- **One job of a request at a time.**  While a job is in its window calls, those of its request
before it have ended and those behind it have not begun. -/
theorem windows_one_job {ρ : Type} [DecidableEq ρ] (cfg : ρ → SessionConfig) (generation : ρ → Int)
    (workers : Nat) {s : Coordinator ρ} (hs : (jobMachine cfg generation workers).Reachable s)
    (i j offset : Nat) {job job' : ProducerJob ρ} (hj : s.jobAt j = some job)
    (hwindow : s.phase j = some (.inWindow offset)) (hi : s.jobAt i = some job')
    (hr : job'.request = job.request) :
    (i < j → s.Finished i) ∧ (j < i → ∀ phase, s.phase i = some phase → phase.begun = false) := by
  have horderly := (ordered_invariant.reachable hs).orderly
  refine ⟨fun hlt => (horderly i j job' job _ hi hj hlt hr hwindow rfl).1, fun hlt phase hphase => ?_⟩
  by_contra hbegun
  obtain ⟨⟨outcome, hdone⟩, -⟩ :=
    horderly j i job job' phase hj hi hlt hr.symm hphase (Bool.eq_true_of_not_eq_false hbegun)
  cases hwindow.symm.trans hdone

/-- The first job is in its window, the second one waits. -/
theorem windows_one_job_two : ∃ s, soleJobs.run Coordinator.new
    (twoJobs ++ [.start, .begin 0 true]) = some s ∧
      ∀ phase, s.phase 1 = some phase → phase.begun = false := by
  obtain ⟨s, hs⟩ : ∃ s, soleJobs.run Coordinator.new (twoJobs ++ [.start, .begin 0 true]) = some s :=
    ⟨_, rfl⟩
  have hreach : soleJobs.Reachable s := Machine.reachable_of_run rfl hs
  refine ⟨s, hs, ?_⟩
  cases hs
  exact (windows_one_job _ _ _ hreach 1 0 0 rfl rfl rfl rfl).2 Nat.zero_lt_one

end RemoteFill
