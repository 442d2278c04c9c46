import LMCacheAscend.RemoteFill.ProducerCalls

/-!
# The latch

`fatal_restart_required` is never cleared.  Once it is set the session should
reserve, arm and submit nothing more and report no window as satisfied (`Calm`).
Two gaps keep it from that: a call is admitted by `direct_viable` alone, which an
exception that latches leaves as it was; and REPORT leaves the exception that
latches to STATUS, whose proof of success the call then returns.  Runs without
either (`Guarded`, `ReportHonest`) are calm.
-/

namespace RemoteFill

open Lib List

variable {cfg : SessionConfig}

/-- Nothing that moves the transfer on has happened under the latch. -/
def Calm : Event → Prop
  | .sent m _ latched =>
    m.request.kind = .reserveWindow ∨ m.request.kind = .armWindow → latched = false
  | .submitted _ _ _ _ latched => latched = false
  | .returned directSatisfied latched => directSatisfied = true → latched = false
  | .clientClosed _ => True

/-- No report of success was answered with the latch and then confirmed by STATUS. -/
def ReportHonest (cfg : SessionConfig) (trace : List Event) : Prop :=
  ∀ windowId attemptId completedBytes expectedBytes,
    ¬ ReportContradicted cfg trace windowId attemptId 0 completedBytes expectedBytes true

theorem ReportHonest.sublist {ev ev' : List Event} (hev : ev.Sublist ev')
    (h : ReportHonest cfg ev') : ReportHonest cfg ev :=
  fun windowId attemptId completedBytes expectedBytes hc =>
    h windowId attemptId completedBytes expectedBytes (hc.sublist hev)

/-- A latched session is not asked for a window while it is still viable. -/
def Guarded (s : Session) : WindowCall → Prop
  | .giveUp => True
  | _ => s.fatalRestartRequired = true → s.directViable = false

/-! ## Events of one call -/

theorem SentIn.calm {kinds : List OperationKind} {e : Event} (h : SentIn false kinds e) :
    Calm e := by
  obtain ⟨-, -, m, reply, rfl, -⟩ := h
  exact fun _ => rfl

theorem Reporting.calm {e : Event} (h : Reporting e) : Calm e := by
  obtain ⟨latched, k, hk, m, reply, rfl, rfl⟩ := h
  intro hr
  simp only [reportKinds, mem_cons, not_mem_nil, or_false] at hk
  rcases hr with hr | hr <;> rw [hr] at hk <;> simp at hk

/-- What the events of a call are, and what it leaves of the latch. -/
structure CallCalm (s : Session) (out : Except SessionError WindowResult) (s' : Session) :
    Prop where
  events : ∃ ev, s'.trace = s.trace ++ ev ∧ ∀ e ∈ ev, Calm e
  satisfied : ∀ result, out = .ok result → result.directSatisfied = true →
    s'.fatalRestartRequired = false
  latch : s.fatalRestartRequired = true → s'.fatalRestartRequired = true

variable {exec : Exec} {s : Session}

theorem unviable_calm (cached : Bool) (p : SessionM WindowResult) (windowId : Int)
    (h : s.directViable = false) :
    wp (do
      if ← admitted cfg exec cached then p
      else pure (abandonedWindow windowId "open rejected" 0)) (CallCalm s) s := by
  rw [wp_bind, admitted, wp_get_bind]
  simp only [h, Bool.false_eq_true, if_false, wp_pure, post_ok]
  refine ⟨⟨[], by simp⟩, ?_, id⟩
  rintro result hr hsat
  cases hr
  cases hsat

/-- A result that counts as satisfied is of a REPORT that did not latch. -/
theorem TransferEnds.unlatched
    {submitter : List SourcePage → List Descriptor → Except SubmitError (Option NativeResult)}
    {windowId : Int} {attemptId : String} {s s' : Session} {submission after : List Event}
    {result : WindowResult} (hhonest : ReportHonest cfg after)
    (h : TransferEnds cfg submitter windowId attemptId s submission after (.ok result) s')
    (hsat : result.directSatisfied = true) :
    s'.fatalRestartRequired = s.fatalRestartRequired := by
  obtain ⟨-, returnCode, completedBytes, expectedBytes, ok, -, hr, hl⟩ := h
  rw [hsat] at hr
  have hboth : returnCode = 0 ∧ ok = true := by simpa using hr.symm
  obtain ⟨rfl, rfl⟩ := hboth
  exact hl.resolve_right (hhonest windowId attemptId completedBytes expectedBytes)

theorem transferWindow_calm (args : TransferArgs) (window : Window) (cached : Bool)
    (hguard : s.fatalRestartRequired = true → s.directViable = false) :
    wp (transferWindow cfg exec args window cached)
      (fun out s' => ReportHonest cfg s'.trace → CallCalm s out s') s := by
  by_cases hl : s.fatalRestartRequired = true
  · exact wp_mono (unviable_calm cached _ _ (hguard hl)) fun _ _ h _ => h
  rw [Bool.not_eq_true] at hl
  refine wp_mono (transferWindow_spec args window cached s) ?_
  rintro out s' ⟨ev, hev, hkept, ⟨hk, hok⟩ | ⟨attemptId, before, submission, after, rfl, hpast⟩⟩
    hhonest
  · rw [hl] at hk
    refine ⟨⟨ev, hev, fun e he => (hk e he).calm⟩, fun result hr _ => ?_, hkept.latch⟩
    rw [hok result hr, hl]
  refine ⟨⟨_, hev, ?_⟩, ?_, hkept.latch⟩
  · intro e he
    rcases mem_append.1 he with he | he
    · exact (hl ▸ hpast.control e he).calm
    rcases mem_append.1 he with he | he
    · rcases hpast.native with rfl | ⟨sources, descriptors, rfl⟩
      · cases he
      · cases mem_singleton.1 he
        exact hl
    · exact (hpast.reported e he).calm
  · rintro result rfl hsat
    have hafter : after.Sublist s'.trace := by
      rw [hev, ← append_assoc, ← append_assoc]
      exact sublist_append_right _ _
    rw [TransferEnds.unlatched (hhonest.sublist hafter) hpast.ends hsat, hl]

theorem probeWindow_calm (window : Window) (cached : Bool)
    (hguard : s.fatalRestartRequired = true → s.directViable = false) :
    wp (probeWindow cfg exec window cached) (CallCalm s) s := by
  by_cases hl : s.fatalRestartRequired = true
  · exact unviable_calm cached _ _ (hguard hl)
  rw [Bool.not_eq_true] at hl
  refine wp_mono (probeWindow_spec window cached s) ?_
  have hcalm : ∀ s', Prelude s s' → ∃ ev, s'.trace = s.trace ++ ev ∧ ∀ e ∈ ev, Calm e := by
    intro s' h
    obtain ⟨ev, hev, hk⟩ := h.trace
    rw [hl] at hk
    exact ⟨ev, hev, fun e he => (hk e he).calm⟩
  rintro (e | result) s' h
  · exact ⟨hcalm s' h, by rintro result ⟨⟩, h.kept.latch⟩
  · exact ⟨hcalm s' h.1, fun _ _ _ => h.2.trans hl, h.1.kept.latch⟩

/-! ## Runs -/

theorem callEnded_calm {p : SessionM WindowResult}
    (hs : ReportHonest cfg s.trace → ∀ e ∈ s.trace, Calm e)
    (h : wp p (fun out s' => ReportHonest cfg s'.trace → CallCalm s out s') s)
    (hhonest : ReportHonest cfg (callEnded (p s)).trace) :
    ∀ e ∈ (callEnded (p s)).trace, Calm e := by
  have htrace : (p s).2.trace.Sublist (callEnded (p s)).trace := by
    rcases p s with ⟨err | result, s'⟩
    · exact Sublist.refl _
    · exact sublist_append_left _ _
  obtain ⟨⟨ev, hev, hcalm⟩, hret, -⟩ := h (hhonest.sublist htrace)
  have hbefore : ReportHonest cfg s.trace := by
    refine (hhonest.sublist htrace).sublist ?_
    rw [hev]
    exact sublist_append_left _ _
  have hall : ∀ e ∈ (p s).2.trace, Calm e := by
    intro e he
    rw [hev] at he
    exact (mem_append.1 he).elim (hs hbefore e) (hcalm e)
  rcases hp : p s with ⟨err | result, s'⟩
  · rw [hp] at hall
    exact hall
  rw [hp] at hall hret
  intro e he
  rcases mem_append.1 he with he | he
  · exact hall e he
  · cases mem_singleton.1 he
    exact fun hsat => hret result rfl hsat

theorem calm_invariant (cfg : SessionConfig) :
    (windowMachine cfg).InductiveIf Guarded fun s =>
      ReportHonest cfg s.trace → ∀ e ∈ s.trace, Calm e where
  start := by
    rintro s rfl - e he
    cases he
  step := by
    rintro s call s' hs hguard hstep
    cases hstep
    cases call with
    | probe exec window cached =>
      exact callEnded_calm hs (wp_mono (probeWindow_calm window cached hguard) fun _ _ h _ => h)
    | transfer exec args window cached =>
      exact callEnded_calm hs (transferWindow_calm args window cached hguard)
    | giveUp => exact hs

theorem callEnded_latched {p : SessionM WindowResult}
    (h : wp p (fun _ s' => s'.fatalRestartRequired = true) s) :
    (callEnded (p s)).fatalRestartRequired = true := by
  rcases hp : p s with ⟨err | result, s'⟩
  all_goals
    rw [wp_of_run hp] at h
    exact h

theorem windowCall_latched (call : WindowCall)
    (h : s.fatalRestartRequired = true) : (windowCall cfg s call).fatalRestartRequired = true := by
  cases call with
  | probe exec window cached =>
    refine callEnded_latched (wp_mono (probeWindow_spec window cached s) ?_)
    rintro (e | result) s' h'
    · exact h'.kept.latch h
    · exact h'.1.kept.latch h
  | transfer exec args window cached =>
    refine callEnded_latched (wp_mono (transferWindow_spec args window cached s) ?_)
    rintro out s' ⟨ev, -, hkept, -⟩
    exact hkept.latch h
  | giveUp => exact h

/-- In a guarded run whose reports were answered honestly nothing reserves, arms, submits or counts
as satisfied under the latch, and the latch stays. -/
theorem calm_once_latched (cfg : SessionConfig) {s : Session}
    (h : (windowMachine cfg).ReachableIf Guarded s) (hhonest : ReportHonest cfg s.trace) :
    (∀ e ∈ s.trace, Calm e) ∧
      ∀ call, s.fatalRestartRequired = true → (windowCall cfg s call).fatalRestartRequired = true :=
  ⟨(calm_invariant cfg).reachable h hhonest, fun call hl => windowCall_latched call hl⟩

/-- The decoder answers RESERVE with the latch. -/
def latchingCall : WindowCall :=
  .probe (fun _ m => .response { soleResponse m with fatalRestartRequired := true }) soleWindow true

/-- A satisfied window, a probe that latches, the coordinator gives up, and one more window. -/
def latchedSession : Session :=
  [satisfiedCall, latchingCall, .giveUp, satisfiedCall].foldl (windowCall soleConfig) Session.new

def Event.isStatus : Event → Bool
  | .sent m _ _ => m.request.kind = .status
  | _ => false

theorem reportHonest_of_no_status {trace : List Event} (h : ∀ e ∈ trace, e.isStatus = false) :
    ReportHonest cfg trace := by
  rintro windowId attemptId completedBytes expectedBytes
    ⟨m, r, latched, m', r', latched', digest, hsub, -, -, hm', -⟩
  have hkind := of_decide_eq_false (h _ (hsub.subset (mem_cons_of_mem _ mem_cons_self)))
  rw [hm'] at hkind
  exact hkind rfl

theorem calm_once_latched_given_up :
    .returned true false ∈ latchedSession.trace ∧ latchedSession.fatalRestartRequired = true ∧
      (∀ e ∈ latchedSession.trace, Calm e) ∧
      ∀ call, latchedSession.fatalRestartRequired = true →
        (windowCall soleConfig latchedSession call).fatalRestartRequired = true := by
  refine ⟨by decide +kernel, by decide +kernel, calm_once_latched soleConfig ?_
    (reportHonest_of_no_status (by decide +kernel))⟩
  refine .step satisfiedCall (.step .giveUp (.step latchingCall (.step satisfiedCall (.start rfl)
    ?_ rfl) ?_ rfl) trivial rfl) ?_ rfl
  · exact nofun
  · exact fun h => absurd h (by decide +kernel)
  · exact fun _ => rfl

/-- The decoder answers REPORT with the latch and STATUS with success. -/
def contradictedReply (m : Message) : Response :=
  { soleResponse m with
    fatalRestartRequired := m.request.kind = .reportTransferComplete
    windows := [⟨0, "attempt", .terminalSuccess, false⟩] }

def contradictedCall : WindowCall :=
  .transfer (fun _ m => .response (contradictedReply m))
    (soleTransfer (.ok (some ⟨"attempt", 0, 4096⟩))) soleWindow true

/-- The latched call returns a satisfied window. -/
theorem latched_call_satisfied :
    ¬ ∀ (cfg : SessionConfig) (s : Session), (windowMachine cfg).Reachable s →
      ∀ e ∈ s.trace, Calm e := by
  intro h
  have hmem : .returned true true ∈ (windowCall soleConfig Session.new contradictedCall).trace := by
    decide +kernel
  have hcalm := h soleConfig _ (Machine.Reachable.step (.start rfl) contradictedCall rfl) _ hmem
  cases hcalm rfl

end RemoteFill
