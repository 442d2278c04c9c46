import Mathlib.Algebra.Order.BigOperators.Group.List
import LMCacheAscend.Lib.Machine

/-!
# The producer queue and its capacity charges

`_acquire_queue_capacity` and `_release_queue_capacity` of
`remote_fill_coordinator.py`, and the jobs that call them: `submit_probe` and
`submit_batch` charge a job when they admit it, its window loop may charge the
sources of a prefix window on top (`windows=0`), and every exit gives back what
its part took.  A step of the machine is one region of `_queue_condition` with
the code up to the next one.

An `executor.submit` that raises may have queued the job before, as where the pool
cannot start a thread: the charge is given back, and the job gives it back again when
it has run.  `clamped` records that a `max(0, ...)` of a release has changed a value.

    queue_accounting : ReachableIf NotQueued s →
      counters = Σ outstanding charges ∧ within the limits ∧ ¬ clamped ∧ (all done → all zero)
-/

namespace RemoteFill

open Lib List Function

/-! ## Counters -/

/-- `remote_fill_max_inflight_bytes`, `..._inflight_windows_per_request` and
`remote_fill_max_bytes_per_request`. -/
structure QueueLimits where
  maxInflightBytes : Nat
  maxInflightWindows : Nat
  maxBytesPerRequest : Nat

def QueueLimits.requestBytes (cfg : QueueLimits) : Int :=
  min (cfg.maxBytesPerRequest : Int) (cfg.maxInflightBytes * cfg.maxInflightWindows)

/-- `queued_windows` and `queued_bytes` of a `ProducerRequestState`. -/
structure RequestCounters where
  windows : Int
  bytes : Int

/-- The source charge of an open window. -/
inductive Source
  | pending
  | charged (bytes : Int)
  | refused

inductive Phase
  | admitted
  | queued
  | running
  | window (source : Source)
  | done

structure Job where
  request : Nat
  bytes : Int
  /-- Windows it may still open. -/
  windows : Nat
  /-- A probe with a `source_factory`. -/
  sourced : Bool
  phase : Phase

structure QueueState where
  queuedBytes : Int
  requests : Nat → RequestCounters
  jobs : List Job
  clamped : Bool

def QueueState.init : QueueState :=
  { queuedBytes := 0, requests := fun _ => ⟨0, 0⟩, jobs := [], clamped := false }

variable (cfg : QueueLimits)

/-- `_acquire_queue_capacity`; `none` is `False`. -/
def acquireQueueCapacity (s : QueueState) (r : Nat) (byteCount windows : Int) :
    Option QueueState :=
  let state := s.requests r
  if byteCount < 0 ∨ byteCount > cfg.maxInflightBytes then none
  else if byteCount > cfg.requestBytes then none
  else if state.windows + windows > cfg.maxInflightWindows ∨
      state.bytes + byteCount > cfg.requestBytes ∨
      s.queuedBytes + byteCount > cfg.maxInflightBytes then none
  else some { s with
    requests := update s.requests r ⟨state.windows + windows, state.bytes + byteCount⟩
    queuedBytes := s.queuedBytes + byteCount }

/-- `_release_queue_capacity`. -/
def releaseQueueCapacity (s : QueueState) (r : Nat) (byteCount windows : Int) : QueueState :=
  let state := s.requests r
  { s with
    requests := update s.requests r
      ⟨max 0 (state.windows - windows), max 0 (state.bytes - byteCount)⟩
    queuedBytes := max 0 (s.queuedBytes - byteCount)
    clamped := s.clamped || state.windows - windows < 0 || state.bytes - byteCount < 0 ||
      s.queuedBytes - byteCount < 0 }

/-! ## Jobs -/

inductive QueueAction
  /-- `submit_probe` up to its charge. -/
  | submitProbe (request windows : Nat) (sourced : Bool)
  /-- `submit_batch` up to its charge. -/
  | submitBatch (request windows : Nat) (sizes : List (List Int))
  /-- Plan building or executor creation raised, or `executor.submit` before it queued the job. -/
  | abandon (job : Nat)
  /-- `executor.submit` raised behind its `put` into the work queue. -/
  | submitRaised (job : Nat)
  | schedule (job : Nat)
  | start (job : Nat)
  | openWindow (job : Nat)
  /-- `prepare_sources` over the missing pages. -/
  | prepareSources (job : Nat) (expectedBytes : List Int)
  /-- The window's `finally`. -/
  | closeWindow (job : Nat)
  /-- The `finally` of `run`, however it was left. -/
  | finish (job : Nat)

def QueueState.setJob (s : QueueState) (i : Nat) (j : Job) : QueueState :=
  { s with jobs := s.jobs.set i j }

def QueueState.addJob (s : QueueState) (j : Job) : QueueState := { s with jobs := s.jobs ++ [j] }

def Source.chargedBytes : Source → Int
  | .charged b => b
  | .pending | .refused => 0

def QueueState.step (s : QueueState) : QueueAction → Option QueueState
  | .submitProbe r windows sourced =>
    match acquireQueueCapacity cfg s r 0 1 with
    | none => some s
    | some s' => some (s'.addJob ⟨r, 0, windows, sourced, .admitted⟩)
  | .submitBatch r windows sizes =>
    let byteCount := (sizes.map List.sum).sum
    if byteCount > cfg.maxBytesPerRequest then some s
    else match acquireQueueCapacity cfg s r byteCount 1 with
      | none => some s
      | some s' => some (s'.addJob ⟨r, byteCount, windows, false, .admitted⟩)
  | .abandon i => match s.jobs[i]? with
    | some ⟨r, bytes, windows, sourced, .admitted⟩ =>
      some ((releaseQueueCapacity s r bytes 1).setJob i ⟨r, bytes, windows, sourced, .done⟩)
    | _ => none
  | .submitRaised i => match s.jobs[i]? with
    | some ⟨r, bytes, windows, sourced, .admitted⟩ =>
      some ((releaseQueueCapacity s r bytes 1).setJob i ⟨r, bytes, windows, sourced, .queued⟩)
    | _ => none
  | .schedule i => match s.jobs[i]? with
    | some ⟨r, bytes, windows, sourced, .admitted⟩ =>
      some (s.setJob i ⟨r, bytes, windows, sourced, .queued⟩)
    | _ => none
  | .start i => match s.jobs[i]? with
    | some ⟨r, bytes, windows, sourced, .queued⟩ =>
      some (s.setJob i ⟨r, bytes, windows, sourced, .running⟩)
    | _ => none
  | .openWindow i => match s.jobs[i]? with
    | some ⟨r, bytes, windows + 1, sourced, .running⟩ =>
      some (s.setJob i ⟨r, bytes, windows, sourced, .window .pending⟩)
    | _ => none
  | .prepareSources i expectedBytes => match s.jobs[i]? with
    | some ⟨r, bytes, windows, true, .window .pending⟩ =>
      match acquireQueueCapacity cfg s r expectedBytes.sum 0 with
      | none => some (s.setJob i ⟨r, bytes, windows, true, .window .refused⟩)
      | some s' =>
        some (s'.setJob i ⟨r, bytes, windows, true, .window (.charged expectedBytes.sum)⟩)
    | _ => none
  | .closeWindow i => match s.jobs[i]? with
    | some ⟨r, bytes, windows, sourced, .window source⟩ =>
      let s := if source.chargedBytes ≠ 0 then releaseQueueCapacity s r source.chargedBytes 0
        else s
      some (s.setJob i ⟨r, bytes, windows, sourced, .running⟩)
    | _ => none
  | .finish i => match s.jobs[i]? with
    | some ⟨r, bytes, windows, sourced, .running⟩ =>
      some ((releaseQueueCapacity s r bytes 1).setJob i ⟨r, bytes, windows, sourced, .done⟩)
    | _ => none

def queueMachine : Machine QueueState QueueAction where
  start s := s = QueueState.init
  step := QueueState.step cfg

/-! ## Outstanding charges -/

def Job.outstandingBytes (j : Job) : Int :=
  match j.phase with
  | .done => 0
  | .window source => j.bytes + source.chargedBytes
  | _ => j.bytes

def Job.outstandingWindows (j : Job) : Int :=
  match j.phase with
  | .done => 0
  | _ => 1

variable (f : Job → Int)

/-- `f` summed over the jobs of the request `r`. -/
def sumOf (r : Nat) (jobs : List Job) : Int :=
  (jobs.map fun j => if j.request = r then f j else 0).sum

def totalBytes (jobs : List Job) : Int := (jobs.map Job.outstandingBytes).sum

/-- The coordinator's and every request's counters are the sums of the outstanding charges and
within their limits, no clamp ever changed a value, and with every job done all are zero. -/
structure QueueState.Accounted (s : QueueState) : Prop where
  total : s.queuedBytes = totalBytes s.jobs ∧ s.queuedBytes ≤ cfg.maxInflightBytes
  requests : ∀ r, (s.requests r).bytes = sumOf Job.outstandingBytes r s.jobs ∧
    (s.requests r).windows = sumOf Job.outstandingWindows r s.jobs ∧
    (s.requests r).bytes ≤ cfg.requestBytes ∧ (s.requests r).windows ≤ cfg.maxInflightWindows
  unclamped : s.clamped = false
  idle : (∀ j ∈ s.jobs, j.phase = .done) →
    s.queuedBytes = 0 ∧ ∀ r, (s.requests r).bytes = 0 ∧ (s.requests r).windows = 0

/-- An `executor.submit` that raises has not queued its job. -/
def NotQueued (_ : QueueState) : QueueAction → Prop
  | .submitRaised _ => False
  | _ => True

theorem sumOf_append (r : Nat) (jobs : List Job) (j : Job) :
    sumOf f r (jobs ++ [j]) = sumOf f r jobs + if j.request = r then f j else 0 := by
  simp [sumOf]

variable {i : Nat} {jobs : List Job} {s' : QueueState}

theorem sum_map_set {α : Type} (f : α → Int) {l : List α} {a : α} (h : l[i]? = some a)
    (b : α) : ((l.set i b).map f).sum = (l.map f).sum - f a + f b := by
  obtain ⟨hi, ha⟩ := List.getElem?_eq_some_iff.1 h
  rw [map_set, sum_set', dif_pos (by simpa using hi), getElem_map, ha]
  omega

variable {j j' : Job} {r : Nat} {b : Int}

theorem sumOf_set (r : Nat) (h : jobs[i]? = some j) (j' : Job) (hr : j'.request = j.request) :
    sumOf f r (jobs.set i j') = sumOf f r jobs + if j.request = r then f j' - f j else 0 := by
  unfold sumOf
  rw [sum_map_set _ h, hr]
  split <;> omega

theorem le_sumOf {f : Job → Int} (h : ∀ j ∈ jobs, 0 ≤ f j) (hj : jobs[i]? = some j) :
    f j ≤ sumOf f j.request jobs := by
  have hle : (if j.request = j.request then f j else 0) ≤ sumOf f j.request jobs := by
    apply single_le_sum
    · intro x hx
      obtain ⟨k, hk, rfl⟩ := mem_map.1 hx
      split
      · exact h k hk
      · exact Int.le_refl 0
    · exact mem_map.2 ⟨j, mem_of_getElem? hj, rfl⟩
  simpa using hle

theorem le_totalBytes (h : ∀ j ∈ jobs, 0 ≤ j.outstandingBytes) (hj : jobs[i]? = some j) :
    j.outstandingBytes ≤ totalBytes jobs := by
  apply single_le_sum
  · intro x hx
    obtain ⟨k, hk, rfl⟩ := mem_map.1 hx
    exact h k hk
  · exact mem_map.2 ⟨j, mem_of_getElem? hj, rfl⟩

/-! ## The invariant -/

/-- Neither charge of a job is negative. -/
def Job.Charged (j : Job) : Prop :=
  0 ≤ j.bytes ∧ ∀ source, j.phase = .window source → 0 ≤ source.chargedBytes

theorem Job.Charged.outstandingBytes_nonneg (h : j.Charged) :
    0 ≤ j.outstandingBytes := by
  obtain ⟨hb, hs⟩ := h
  unfold Job.outstandingBytes
  split
  · exact Int.le_refl 0
  · next source hp =>
    have := hs source hp
    omega
  · exact hb

theorem outstandingWindows_nonneg (j : Job) : 0 ≤ j.outstandingWindows := by
  unfold Job.outstandingWindows
  split <;> omega

structure Exact (s : QueueState) : Prop where
  total : s.queuedBytes = totalBytes s.jobs
  bytes : ∀ r, (s.requests r).bytes = sumOf Job.outstandingBytes r s.jobs
  windows : ∀ r, (s.requests r).windows = sumOf Job.outstandingWindows r s.jobs
  charged : ∀ j ∈ s.jobs, j.Charged
  total_le : s.queuedBytes ≤ cfg.maxInflightBytes
  bytes_le : ∀ r, (s.requests r).bytes ≤ cfg.requestBytes
  windows_le : ∀ r, (s.requests r).windows ≤ cfg.maxInflightWindows
  unclamped : s.clamped = false

variable {cfg} {s : QueueState}

theorem Exact.outstandingBytes_nonneg (h : Exact cfg s) : ∀ j ∈ s.jobs, 0 ≤ j.outstandingBytes :=
  fun j hj => (h.charged j hj).outstandingBytes_nonneg

theorem charged_set (h : ∀ j ∈ jobs, j.Charged) (h' : j'.Charged) :
    ∀ j ∈ jobs.set i j', j.Charged := by
  intro j hj
  rcases mem_or_eq_of_mem_set hj with hj | rfl
  · exact h j hj
  · exact h'

theorem setJob_exact (h : Exact cfg s) (hj : s.jobs[i]? = some j) (hr : j'.request = j.request)
    (hb : j'.outstandingBytes = j.outstandingBytes)
    (hw : j'.outstandingWindows = j.outstandingWindows) (hc : j'.Charged) :
    Exact cfg (s.setJob i j') := by
  refine ⟨?_, ?_, ?_, charged_set h.charged hc, h.total_le, h.bytes_le, h.windows_le, h.unclamped⟩
  · change s.queuedBytes = ((s.jobs.set i j').map _).sum
    rw [sum_map_set _ hj, hb, h.total]
    unfold totalBytes
    omega
  · intro r
    change (s.requests r).bytes = sumOf _ r (s.jobs.set i j')
    rw [sumOf_set _ r hj _ hr, hb, h.bytes]
    simp
  · intro r
    change (s.requests r).windows = sumOf _ r (s.jobs.set i j')
    rw [sumOf_set _ r hj _ hr, hw, h.windows]
    simp

theorem acquire_some {byteCount windows : Int}
    (h : acquireQueueCapacity cfg s r byteCount windows = some s') :
    0 ≤ byteCount ∧ (s.requests r).windows + windows ≤ cfg.maxInflightWindows ∧
      (s.requests r).bytes + byteCount ≤ cfg.requestBytes ∧
      s.queuedBytes + byteCount ≤ cfg.maxInflightBytes ∧
      s' = { s with
        requests := update s.requests r
          ⟨(s.requests r).windows + windows, (s.requests r).bytes + byteCount⟩
        queuedBytes := s.queuedBytes + byteCount } := by
  unfold acquireQueueCapacity at h
  simp only at h
  split at h
  · cases h
  split at h
  · cases h
  split at h
  · cases h
  next h1 h2 h3 =>
  cases h
  refine ⟨by omega, by omega, by omega, by omega, rfl⟩

theorem acquire_exact {w : Int} (h : Exact cfg s)
    (hs : acquireQueueCapacity cfg s r b w = some s')
    (ht : totalBytes jobs = totalBytes s.jobs + b)
    (hb : ∀ q, sumOf Job.outstandingBytes q jobs = sumOf Job.outstandingBytes q s.jobs + if r =
      q then b else 0)
    (hw : ∀ q, sumOf Job.outstandingWindows q jobs = sumOf Job.outstandingWindows q s.jobs + if r =
      q then w else 0)
    (hc : ∀ j ∈ jobs, j.Charged) : Exact cfg { s' with jobs := jobs } := by
  obtain ⟨-, hwl, hbl, htl, rfl⟩ := acquire_some hs
  refine ⟨?_, ?_, ?_, hc, htl, ?_, ?_, h.unclamped⟩
  · simp only [h.total, ht]
  · intro q
    simp only [hb, update_apply]
    by_cases hq : q = r
    · simp [hq, h.bytes]
    · have : ¬ r = q := fun e => hq e.symm
      simp [hq, this, h.bytes]
  · intro q
    simp only [hw, update_apply]
    by_cases hq : q = r
    · simp [hq, h.windows]
    · have : ¬ r = q := fun e => hq e.symm
      simp [hq, this, h.windows]
  · intro q
    simp only [update_apply]
    split
    · exact hbl
    · exact h.bytes_le q
  · intro q
    simp only [update_apply]
    split
    · exact hwl
    · exact h.windows_le q

/-- A release takes off what was outstanding, so no clamp acts. -/
theorem release_exact {w : Int} (h : Exact cfg s) (hj : s.jobs[i]? = some j)
    (hr : j'.request = j.request) (hb0 : 0 ≤ b) (hw0 : 0 ≤ w)
    (hb : j.outstandingBytes = j'.outstandingBytes + b)
    (hw : j.outstandingWindows = j'.outstandingWindows + w) (hc : j'.Charged) :
    Exact cfg ((releaseQueueCapacity s j.request b w).setJob i j') := by
  have hb' := hc.outstandingBytes_nonneg
  have hw' := outstandingWindows_nonneg j'
  have h1 := le_sumOf h.outstandingBytes_nonneg hj
  have h2 := le_sumOf (fun k _ => outstandingWindows_nonneg k) hj
  have h3 := le_totalBytes h.outstandingBytes_nonneg hj
  rw [← h.bytes] at h1
  rw [← h.windows] at h2
  rw [← h.total] at h3
  have hreq : (releaseQueueCapacity s j.request b w).requests =
      update s.requests j.request
        ⟨(s.requests j.request).windows - w, (s.requests j.request).bytes - b⟩ := by
    simp only [releaseQueueCapacity]
    rw [max_eq_right (by omega), max_eq_right (by omega)]
  have htot : (releaseQueueCapacity s j.request b w).queuedBytes = s.queuedBytes - b := by
    simp only [releaseQueueCapacity]
    rw [max_eq_right (by omega)]
  refine ⟨?_, ?_, ?_, charged_set h.charged hc, ?_, ?_, ?_, ?_⟩
  · change (releaseQueueCapacity s j.request b w).queuedBytes = ((s.jobs.set i j').map _).sum
    rw [htot, sum_map_set _ hj, h.total]
    unfold totalBytes
    omega
  · intro r
    change ((releaseQueueCapacity s j.request b w).requests r).bytes = sumOf _ r (s.jobs.set i j')
    rw [hreq, sumOf_set _ r hj _ hr, update_apply]
    by_cases hq : r = j.request
    · simp only [hq, if_true, h.bytes]
      omega
    · have : ¬ j.request = r := fun e => hq e.symm
      simp [hq, this, h.bytes]
  · intro r
    change ((releaseQueueCapacity s j.request b w).requests r).windows =
      sumOf _ r (s.jobs.set i j')
    rw [hreq, sumOf_set _ r hj _ hr, update_apply]
    by_cases hq : r = j.request
    · simp only [hq, if_true, h.windows]
      omega
    · have : ¬ j.request = r := fun e => hq e.symm
      simp [hq, this, h.windows]
  · change (releaseQueueCapacity s j.request b w).queuedBytes ≤ _
    have := h.total_le
    omega
  · intro r
    change ((releaseQueueCapacity s j.request b w).requests r).bytes ≤ _
    have hle := h.bytes_le r
    rw [hreq, update_apply]
    split
    · next hq =>
      subst hq
      simp only
      omega
    · exact hle
  · intro r
    change ((releaseQueueCapacity s j.request b w).requests r).windows ≤ _
    have hle := h.windows_le r
    rw [hreq, update_apply]
    split
    · next hq =>
      subst hq
      simp only
      omega
    · exact hle
  · change (releaseQueueCapacity s j.request b w).clamped = false
    simp only [releaseQueueCapacity, h.unclamped, Bool.false_or, Bool.or_eq_false_iff,
      decide_eq_false_iff_not]
    omega

/-! ## Steps and runs -/

theorem admit_exact {windows : Nat} {sourced : Bool} (h : Exact cfg s)
    (hs : acquireQueueCapacity cfg s r b 1 = some s') :
    Exact cfg (s'.addJob ⟨r, b, windows, sourced, .admitted⟩) := by
  obtain ⟨hb, -, -, -, he⟩ := acquire_some hs
  have hjobs : s'.jobs = s.jobs := by rw [he]
  unfold QueueState.addJob
  rw [hjobs]
  apply acquire_exact h hs
  · simp [totalBytes, Job.outstandingBytes]
  · intro q
    rw [sumOf_append]
    rfl
  · intro q
    rw [sumOf_append]
    rfl
  · intro j hj
    rcases mem_append.1 hj with hj | hj
    · exact h.charged j hj
    · rw [mem_singleton.1 hj]
      exact ⟨hb, by rintro source ⟨⟩⟩

theorem prepareSources_exact {i windows : Nat} {bytes : Int} (h : Exact cfg s)
    (hj : s.jobs[i]? = some ⟨r, bytes, windows, true, .window .pending⟩)
    (hs : acquireQueueCapacity cfg s r b 0 = some s') :
    Exact cfg (s'.setJob i ⟨r, bytes, windows, true, .window (.charged b)⟩) := by
  obtain ⟨hb, -, -, -, he⟩ := acquire_some hs
  have hjobs : s'.jobs = s.jobs := by rw [he]
  have hset := fun f q => sumOf_set f q hj ⟨r, bytes, windows, true, .window (.charged b)⟩ rfl
  unfold QueueState.setJob
  rw [hjobs]
  apply acquire_exact h hs
  · unfold totalBytes
    rw [sum_map_set _ hj]
    simp only [Job.outstandingBytes, Source.chargedBytes]
    omega
  · intro q
    rw [hset]
    simp only [Job.outstandingBytes, Source.chargedBytes]
    split <;> omega
  · intro q
    rw [hset]
    simp [Job.outstandingWindows]
  · apply charged_set h.charged
    refine ⟨(h.charged _ (mem_of_getElem? hj)).1, ?_⟩
    rintro source ⟨⟩
    exact hb

/-- Each step changes the counters and the sums by the same charges. -/
theorem step_exact {a : QueueAction} (h : Exact cfg s) (hok : NotQueued s a)
    (hs : s.step cfg a = some s') : Exact cfg s' := by
  have hbytes : ∀ {i : Nat} {j : Job}, s.jobs[i]? = some j → j.Charged :=
    fun hj => h.charged _ (mem_of_getElem? hj)
  cases a with
  | submitProbe r windows sourced =>
    simp only [QueueState.step] at hs
    split at hs
    · cases hs
      exact h
    · next s1 hacq =>
      cases hs
      exact admit_exact h hacq
  | submitBatch r windows sizes =>
    simp only [QueueState.step] at hs
    split at hs
    · cases hs
      exact h
    split at hs
    · cases hs
      exact h
    · next s1 hacq =>
      cases hs
      exact admit_exact h hacq
  | abandon i =>
    simp only [QueueState.step] at hs
    split at hs
    · next r bytes windows sourced hj =>
      cases hs
      have hc := (hbytes hj).1
      exact release_exact h hj rfl hc (by omega) (by simp [Job.outstandingBytes])
        (by simp [Job.outstandingWindows]) ⟨hc, by rintro source ⟨⟩⟩
    · cases hs
  | submitRaised i => exact hok.elim
  | schedule i | start i =>
    simp only [QueueState.step] at hs
    split at hs
    · next r bytes windows sourced hj =>
      cases hs
      exact setJob_exact h hj rfl rfl rfl ⟨(hbytes hj).1, by rintro source ⟨⟩⟩
    · cases hs
  | openWindow i =>
    simp only [QueueState.step] at hs
    split at hs
    · next r bytes windows sourced hj =>
      cases hs
      refine setJob_exact h hj rfl (by simp [Job.outstandingBytes, Source.chargedBytes]) rfl
        ⟨(hbytes hj).1, ?_⟩
      rintro source ⟨⟩
      exact Int.le_refl 0
    · cases hs
  | prepareSources i expectedBytes =>
    simp only [QueueState.step] at hs
    split at hs
    · next r bytes windows hj =>
      split at hs
      · cases hs
        refine setJob_exact h hj rfl rfl rfl ⟨(hbytes hj).1, ?_⟩
        rintro source ⟨⟩
        exact Int.le_refl 0
      · next s1 hacq =>
        cases hs
        exact prepareSources_exact h hj hacq
    · cases hs
  | closeWindow i =>
    simp only [QueueState.step] at hs
    split at hs
    · next r bytes windows sourced source hj =>
      cases hs
      have hc := hbytes hj
      have hrun : Job.Charged ⟨r, bytes, windows, sourced, .running⟩ :=
        ⟨hc.1, by rintro source ⟨⟩⟩
      by_cases h0 : source.chargedBytes = 0
      · rw [if_neg (by simpa using h0)]
        exact setJob_exact h hj rfl (by simp [Job.outstandingBytes, h0]) rfl hrun
      · rw [if_pos h0]
        exact release_exact h hj rfl (hc.2 source rfl) (Int.le_refl 0) rfl rfl hrun
    · cases hs
  | finish i =>
    simp only [QueueState.step] at hs
    split at hs
    · next r bytes windows sourced hj =>
      cases hs
      have hc := (hbytes hj).1
      exact release_exact h hj rfl hc (by omega) (by simp [Job.outstandingBytes])
        (by simp [Job.outstandingWindows]) ⟨hc, by rintro source ⟨⟩⟩
    · cases hs

theorem queue_inductive : (queueMachine cfg).InductiveIf NotQueued (Exact cfg) := by
  constructor
  · rintro s rfl
    refine ⟨rfl, fun _ => rfl, fun _ => rfl, ?_, ?_, fun r => ?_, fun r => ?_, rfl⟩
    · rintro j ⟨⟩
    · simp [QueueState.init]
    · have : (0 : Int) ≤ cfg.maxInflightBytes * cfg.maxInflightWindows :=
        Int.mul_nonneg (Int.natCast_nonneg _) (Int.natCast_nonneg _)
      simp [QueueState.init, QueueLimits.requestBytes, this]
    · simp [QueueState.init]
  · exact fun s a s' h hok hs => step_exact h hok hs

theorem sumOf_done {f : Job → Int} (r : Nat) (h : ∀ j ∈ jobs, f j = 0) :
    sumOf f r jobs = 0 := by
  apply sum_eq_zero
  intro x hx
  obtain ⟨j, hj, rfl⟩ := mem_map.1 hx
  simp [h j hj]

/-- **Queue accounting**, in every run in which no `submit` raises with its job in the queue. -/
theorem queue_accounting (h : (queueMachine cfg).ReachableIf NotQueued s) : s.Accounted cfg := by
  have he : Exact cfg s := queue_inductive.reachable h
  refine ⟨⟨he.total, he.total_le⟩,
    fun r => ⟨he.bytes r, he.windows r, he.bytes_le r, he.windows_le r⟩, he.unclamped, ?_⟩
  intro hdone
  have hb : ∀ j ∈ s.jobs, j.outstandingBytes = 0 := by
    intro j hj
    simp [Job.outstandingBytes, hdone j hj]
  have hw : ∀ j ∈ s.jobs, j.outstandingWindows = 0 := by
    intro j hj
    simp [Job.outstandingWindows, hdone j hj]
  refine ⟨?_, fun r => ⟨?_, ?_⟩⟩
  · rw [he.total, totalBytes]
    apply sum_eq_zero
    intro x hx
    obtain ⟨j, hj, rfl⟩ := mem_map.1 hx
    exact hb j hj
  · rw [he.bytes, sumOf_done r hb]
  · rw [he.windows, sumOf_done r hw]

/-- Two requests: a batch of six bytes waits while a probe has four bytes charged
for a prefix window; the probe then ends. -/
def repairRun : List QueueAction :=
  [.submitProbe 0 2 true, .submitBatch 1 1 [[2, 4]], .schedule 0, .start 0, .openWindow 0,
   .prepareSources 0 [4], .closeWindow 0, .finish 0]

def repairState : QueueState :=
  ((queueMachine ⟨10, 2, 10⟩).run QueueState.init repairRun).getD QueueState.init

theorem queue_accounting_repair :
    repairState.queuedBytes = 6 ∧ (repairState.requests 1).bytes = 6 ∧
      (repairState.requests 0).windows = 0 ∧ repairState.clamped = false := by
  have hr : (queueMachine ⟨10, 2, 10⟩).run QueueState.init repairRun = some repairState := rfl
  have hok : ∀ a ∈ repairRun, ∀ t, NotQueued t a := by
    simp [repairRun, NotQueued]
  have h := queue_accounting (Machine.ReachableIf.run (.start rfl) hok hr)
  exact ⟨h.total.1.trans rfl, (h.requests 1).1.trans rfl, (h.requests 0).2.1.trans rfl, h.unclamped⟩

/-- The job of a `submit` that raised is run later and gives back four bytes of another request. -/
def raisedRun : List QueueAction :=
  [.submitBatch 0 1 [[4]], .submitRaised 0, .submitBatch 1 1 [[4]], .start 0, .finish 0]

theorem raised_releases_twice :
    ¬ ∀ s, (queueMachine ⟨10, 2, 10⟩).Reachable s → s.Accounted ⟨10, 2, 10⟩ := by
  intro h
  have hr : ∃ s, (queueMachine ⟨10, 2, 10⟩).run QueueState.init raisedRun = some s ∧
      s.queuedBytes = 0 ∧ totalBytes s.jobs = 4 := ⟨_, rfl, rfl, rfl⟩
  obtain ⟨s, hs, hzero, hfour⟩ := hr
  have htotal := (h s (Machine.reachable_of_run rfl hs)).total.1
  rw [hzero, hfour] at htotal
  cases htotal

end RemoteFill
