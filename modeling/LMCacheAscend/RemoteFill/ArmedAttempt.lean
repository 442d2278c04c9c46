import LMCacheAscend.RemoteFill.ProducerCalls

/-!
# Armed attempts

What `transfer_window` owes an attempt that the decoder has armed: it calls the
submitter at most once, after a proof that this attempt is armed, and leaves with
an acknowledged result or with the latch (`AttemptSettled`).  It does so unless
the submitter's error carries a future that was cancelled: that exception is not
an `Exception`, and no handler around the native call takes it.
-/

namespace RemoteFill

open Lib List

variable {cfg : SessionConfig} {exec : Exec} {s : Session}

def Event.isSubmitted : Event → Bool
  | .submitted .. => true
  | _ => false

/-- The result is what the answer to REPORT says, or what STATUS proves. -/
def Acknowledged (cfg : SessionConfig) (windowId : Int) (attemptId : String)
    (result : WindowResult) (ev : List Event) : Prop :=
  ∃ returnCode completedBytes expectedBytes ok,
    Resolved cfg windowId attemptId returnCode completedBytes expectedBytes ok ev ∧
    result.directSatisfied = (returnCode = 0 && ok)

/-- How a call may end after events `after` that follow the native call. -/
def Exited (cfg : SessionConfig) (windowId : Int) (attemptId : String) (after : List Event)
    (out : Except SessionError WindowResult) (s' : Session) : Prop :=
  match out with
  | .ok result => Acknowledged cfg windowId attemptId result after
  | .error e => (∃ message, e = .fatal message) ∧ s'.fatalRestartRequired = true

/-- What a call for `windowId` that added `ev` owes the attempts it submitted. -/
structure AttemptSettled (cfg : SessionConfig) (windowId : Int) (ev : List Event)
    (out : Except SessionError WindowResult) (s' : Session) : Prop where
  once : ev.countP Event.isSubmitted ≤ 1
  settled : ∀ before w attemptId sources descriptors latched after,
    ev = before ++ .submitted w attemptId sources descriptors latched :: after →
    w = windowId ∧ ArmProven cfg windowId attemptId before ∧
      Exited cfg windowId attemptId after out s'

variable {e : Event} {out : Except SessionError WindowResult} {s' : Session} {windowId : Int}
  {attemptId : String}

theorem SentIn.not_submitted {latched : Bool} {kinds : List OperationKind}
    (h : SentIn latched kinds e) : e.isSubmitted = false := by
  obtain ⟨-, -, m, reply, rfl, -⟩ := h
  rfl

theorem Reporting.not_submitted (h : Reporting e) : e.isSubmitted = false := by
  obtain ⟨latched, h⟩ := h
  exact h.not_submitted

theorem Escapes.isSubmitted
    {submitter : List SourcePage → List Descriptor → Except SubmitError (Option NativeResult)}
    (h : Escapes submitter e) : e.isSubmitted = true := by
  obtain ⟨w, a, sources, descriptors, l, m, rfl, -⟩ := h
  rfl

theorem countP_submitted_eq_zero {ev : List Event} (h : ∀ e ∈ ev, e.isSubmitted = false) :
    ev.countP Event.isSubmitted = 0 := by
  rw [countP_eq_zero]
  intro e he
  simp [h e he]

theorem AttemptSettled.of_none {ev : List Event}
    (h : ∀ e ∈ ev, e.isSubmitted = false) : AttemptSettled cfg windowId ev out s' := by
  refine ⟨by rw [countP_submitted_eq_zero h]; exact Nat.zero_le 1, ?_⟩
  rintro before w a sources descriptors l after rfl
  have := h (.submitted w a sources descriptors l) (by simp)
  simp [Event.isSubmitted] at this

variable {after before : List Event}

theorem split_unique {before' after' : List Event} {e e' : Event}
    (hb : ∀ x ∈ before, x.isSubmitted = false) (ha : ∀ x ∈ after, x.isSubmitted = false)
    (he : e.isSubmitted = true) (he' : e'.isSubmitted = true)
    (h : before ++ e :: after = before' ++ e' :: after') :
    before = before' ∧ e = e' ∧ after = after' := by
  rcases append_eq_append_iff.1 h with ⟨l, rfl, hl⟩ | ⟨l, rfl, hl⟩
  · cases l with
    | nil => simpa using hl
    | cons x l =>
      obtain ⟨rfl, rfl⟩ := cons.inj hl
      have := ha e' (by simp)
      simp [he'] at this
  · cases l with
    | nil =>
      obtain ⟨rfl, rfl⟩ := cons.inj hl
      simp
    | cons x l =>
      obtain ⟨rfl, rfl⟩ := cons.inj hl
      have := hb e' (by simp)
      simp [he'] at this

variable {submitter : List SourcePage → List Descriptor → Except SubmitError (Option NativeResult)}

theorem settled_iff_exited {sources : List SourcePage} {descriptors : List Descriptor}
    {latched : Bool} (hb : ∀ e ∈ before, e.isSubmitted = false)
    (ha : ∀ e ∈ after, e.isSubmitted = false) (harmed : ArmProven cfg windowId attemptId before) :
    AttemptSettled cfg windowId
        (before ++ .submitted windowId attemptId sources descriptors latched :: after) out s' ↔
      Exited cfg windowId attemptId after out s' := by
  constructor
  · intro h
    exact (h.settled before windowId attemptId sources descriptors latched after rfl).2.2
  · intro h
    refine ⟨?_, ?_⟩
    · rw [countP_append, countP_cons, countP_submitted_eq_zero hb,
        countP_submitted_eq_zero ha]
      exact Nat.le_refl 1
    · intro before' w a src desc l after' heq
      obtain ⟨rfl, he, rfl⟩ := split_unique hb ha rfl rfl heq
      cases he
      exact ⟨rfl, harmed, h⟩

theorem PastArm.exited_iff
    (h : PastArm cfg submitter windowId attemptId before [e] after s out s') :
    Exited cfg windowId attemptId after out s' ↔ ¬ Escapes submitter e := by
  have hends := h.ends
  cases out with
  | ok result =>
    obtain ⟨hesc, returnCode, completedBytes, expectedBytes, ok, hres, hr, -⟩ := hends
    exact iff_of_true ⟨returnCode, completedBytes, expectedBytes, ok, hres, hr⟩
      (hesc e mem_cons_self)
  | error err =>
    rcases hends with ⟨hfatal, hl, hesc⟩ | ⟨⟨m, rfl⟩, hesc⟩
    · exact iff_of_true ⟨hfatal, hl⟩ (hesc e mem_cons_self)
    refine iff_of_false ?_ (not_not.2 (hesc e mem_cons_self))
    rintro ⟨⟨message, hm⟩, -⟩
    cases hm

theorem PastArm.settled_iff {submission : List Event}
    (h : PastArm cfg submitter windowId attemptId before submission after s out s') :
    AttemptSettled cfg windowId (before ++ (submission ++ after)) out s' ↔
      ∀ e ∈ before ++ (submission ++ after), ¬ Escapes submitter e := by
  have hb : ∀ e ∈ before, e.isSubmitted = false := fun e he => (h.control e he).not_submitted
  have ha : ∀ e ∈ after, e.isSubmitted = false := fun e he => (h.reported e he).not_submitted
  have hquiet : ∀ e, e.isSubmitted = false → ¬ Escapes submitter e := by
    intro e he hesc
    rw [hesc.isSubmitted] at he
    cases he
  rcases h.native with rfl | ⟨sources, descriptors, rfl⟩
  · have hnone : ∀ e ∈ before ++ ([] ++ after), e.isSubmitted = false := by
      intro e he
      exact (mem_append.1 he).elim (hb e) (ha e)
    exact iff_of_true (.of_none hnone) fun e he => hquiet e (hnone e he)
  · refine (settled_iff_exited hb ha h.armed).trans (h.exited_iff.trans ?_)
    constructor
    · intro hne e he
      rcases mem_append.1 he with he | he
      · exact hquiet e (hb e he)
      rcases mem_cons.1 he with rfl | he
      · exact hne
      · exact hquiet e (ha e he)
    · exact fun hall => hall _ (by simp)

/-- `transfer_window` settles its attempt exactly when the submitter, if it is called, does not
raise a cancellation. -/
theorem armed_attempt_settled (cfg : SessionConfig) (exec : Exec) (args : TransferArgs)
    (window : Window) (cached : Bool) (s : Session) :
    wp (transferWindow cfg exec args window cached) (fun out s' =>
      ∃ ev, s'.trace = s.trace ++ ev ∧
        (AttemptSettled cfg window.windowId ev out s' ↔
          ∀ e ∈ ev, ¬ Escapes args.submitter e)) s := by
  refine wp_mono (transferWindow_spec args window cached s) ?_
  rintro out s' ⟨ev, hev, -, hends⟩
  refine ⟨ev, hev, ?_⟩
  rcases hends with ⟨hk, -⟩ | ⟨attemptId, before, submission, after, rfl, hpast⟩
  · have hnone : ∀ e ∈ ev, e.isSubmitted = false := fun e he => (hk e he).not_submitted
    refine iff_of_true (.of_none hnone) ?_
    intro e he hesc
    have := hesc.isSubmitted
    rw [hnone e he] at this
    cases this
  · exact hpast.settled_iff

/-- The call of `soleWindow` whose submitter is slow and whose future was cancelled. -/
def cancelledCall : Except SessionError WindowResult × Session :=
  transferWindow soleConfig (fun _ m => .response (soleResponse m))
    (soleTransfer (.error (.slow (.done (.error (.base "CancelledError"))) 1))) soleWindow true
    Session.new

/-- An armed attempt is lost without the latch. -/
theorem cancelled_attempt_lost :
    ¬ ∀ (cfg : SessionConfig) (exec : Exec) (args : TransferArgs) (window : Window)
        (cached : Bool) (s : Session),
      wp (transferWindow cfg exec args window cached) (fun out s' =>
        ∃ ev, s'.trace = s.trace ++ ev ∧ AttemptSettled cfg window.windowId ev out s') s := by
  intro h
  have hcall : ∃ ev, cancelledCall.2.trace = [] ++ ev ∧
      AttemptSettled soleConfig 0 ev cancelledCall.1 cancelledCall.2 :=
    h soleConfig (fun _ m => .response (soleResponse m))
      (soleTransfer (.error (.slow (.done (.error (.base "CancelledError"))) 1))) soleWindow true
      Session.new
  obtain ⟨ev, hev, hsettled⟩ := hcall
  have hout : cancelledCall.1 = .error (.base "CancelledError") := rfl
  have hlast : cancelledCall.2.trace.getLast? = some (.submitted 0 "attempt"
      [⟨"page", 0, [4096]⟩] [soleDescriptor] false) := rfl
  obtain ⟨before, hbefore⟩ := getLast?_eq_some_iff.1 hlast
  have hexit := (hsettled.settled before 0 "attempt" _ _ false [] (hev.symm.trans hbefore)).2.2
  rw [hout] at hexit
  obtain ⟨⟨message, hm⟩, -⟩ := hexit
  cases hm

end RemoteFill
