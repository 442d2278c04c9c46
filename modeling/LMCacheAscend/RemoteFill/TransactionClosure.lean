import LMCacheAscend.RemoteFill.ProducerCalls
import LMCacheAscend.RemoteFill.ProducerEnd

/-!
# Closing the client

A transaction that the decoder may have opened should hear FINISH or ABORT before
the client closes (`TransactionClosed`).  Windows send neither, so only the
ending can (`Ending.Sends`): a finish whose pages all persisted and whose session
was opened or is unknown, or a release of an opened session.  Every other ending
of an unlatched session closes the client in silence.
-/

namespace RemoteFill

open Lib List

variable {cfg : SessionConfig} {exec : Exec} {s : Session}

def Event.isClose : Event → Bool
  | .clientClosed _ => true
  | _ => false

/-- FINISH or ABORT of the transfer. -/
def EndSent (e : Event) : Prop :=
  ∃ m reply latched, e = .sent m reply latched ∧
    (m.request.kind = .finish ∨ m.request.kind = .abort)

/-- An OPEN was sent, and no answer that can be trusted refused it. -/
def OpenPossible (cfg : SessionConfig) (trace : List Event) : Prop :=
  ∃ m reply latched, .sent m reply latched ∈ trace ∧ m.request.kind = .open_ ∧
    ∀ r latched', .sent m (.response r) latched' ∈ trace → Valid cfg m r → r.accepted = true

def TransactionClosed (cfg : SessionConfig) (s : Session) : Prop :=
  ∀ before latched after, s.trace = before ++ .clientClosed latched :: after →
    OpenPossible cfg before → (∃ e ∈ before, EndSent e) ∨ latched = true

/-- The ending sends FINISH or ABORT. -/
def Ending.Sends (s : Session) : Ending → Prop
  | .finished _ args => args.requiredStoreEnd ≤ args.persistentCommonEnd ∧
      (s.opened = true ∨ s.prearmControlUnknown = true)
  | .released _ => s.opened = true

/-! ## Programs that only talk -/

/-- The client was not closed. -/
def Talked (s s' : Session) : Prop :=
  ∃ ev, s'.trace = s.trace ++ ev ∧ ∀ e ∈ ev, e.isClose = false

variable {s' s1 : Session} (args : FinishArgs) {latched : Bool}

theorem Talked.of_eq {s : Session} (h : s'.trace = s.trace) : Talked s s' :=
  ⟨[], by simp [h], by simp⟩

theorem Talked.trans {s2 s3 : Session} (h : Talked s1 s2) (h' : Talked s2 s3) :
    Talked s1 s3 := grown_trans h h'

instance : IsPreorder Session Talked where
  refl _ := .of_eq rfl
  trans _ _ _ := .trans

theorem Talked.mem {s : Session} (h : Talked s s') {e : Event} (he : e ∈ s.trace) :
    e ∈ s'.trace := by
  obtain ⟨ev, hev, -⟩ := h
  rw [hev]
  exact mem_append_left _ he

theorem raiseFatal_talks {α : Type} (message : String) :
    Preserves Talked (raiseFatal message : SessionM α) :=
  fun s => raiseFatal_spec message s _ (.of_eq rfl)

theorem execute_talks (request : Request) : Preserves Talked (execute cfg exec request) := by
  intro s
  refine wp_mono (execute_spec request s) ?_
  have hcalled : ∀ s', Called request s s' → Talked s s' := by
    intro s' h
    obtain ⟨ev, hev, hk⟩ := h.ran.trace
    refine ⟨ev, hev, fun e he => ?_⟩
    obtain ⟨m, reply, rfl, -⟩ := hk e he
    rfl
  rintro (e | r) s' h <;> exact hcalled s' h.1

theorem tryExecute_talks (request : Request) : Preserves Talked (tryExecute cfg exec request) :=
  exceptNonfatal_preserves ((execute_talks request).bind fun _ => .pure _) (.pure _)

theorem abandonDirect_talks : Preserves Talked abandonDirect := .modify fun _ => .of_eq rfl

theorem classified_talks (r : Response) : Preserves Talked (classified r) := by
  unfold classified
  split
  · exact .pure _
  · exact .throw _

theorem resolveAmbiguousFinish_talks : Preserves Talked (resolveAmbiguousFinish cfg exec) := by
  refine (tryExecute_talks _).bind fun r => ?_
  split
  · exact abandonDirect_talks.bind fun _ => .pure _
  split
  · exact raiseFatal_talks _
  split
  · exact raiseFatal_talks _
  split
  · exact classified_talks _
  · exact (tryExecute_talks _).bind fun _ => abandonDirect_talks.bind fun _ => .pure _

theorem finishTransaction_talks : Preserves Talked (finishTransaction cfg exec args) := by
  refine Preserves.get.bind fun s => (tryExecute_talks _).bind fun r => ?_
  split
  · exact resolveAmbiguousFinish_talks
  split
  · exact .pure _
  split
  · exact .throw _
  · exact classified_talks _

theorem abortUnknown_talks : Preserves Talked (abortUnknown cfg exec) :=
  exceptException_preserves ((execute_talks _).bind fun _ => .pure _) (.pure _)

theorem finishOutcome_talks : Preserves Talked (finishOutcome cfg exec args) := by
  refine Preserves.get.bind fun s => ?_
  split
  · exact .pure _
  split
  · exact .pure _
  split
  · split
    · exact abortUnknown_talks.bind fun _ => .pure _
    · exact .pure _
  · exact finishTransaction_talks args

theorem finish_talks : Preserves Talked (finish cfg exec args) := by
  refine Preserves.get.bind fun s => ?_
  split
  · exact .pure _
  refine (finishOutcome_talks args).bind fun r => ?_
  refine Preserves.bind (.modify ?_) fun _ => .pure _
  exact fun _ => .of_eq rfl

theorem finishRequestState_talks : Preserves Talked (finishRequestState cfg exec args) :=
  ((finish_talks args).bind fun _ => .pure _).tryCatch fun _ => .pure _

theorem abortOpened_talks (reason : String) : Preserves Talked (abortOpened cfg exec reason) := by
  refine (execute_talks _).bind fun r => ?_
  split
  · exact .modify fun _ => .of_eq rfl
  · exact .throw _

theorem abort_talks (reason : String) : Preserves Talked (abort cfg exec reason) := by
  refine Preserves.get.bind fun s => ?_
  split
  · exact .pure _
  split
  · exact .throw _
  split
  · exact abortOpened_talks reason
  · exact .modify fun _ => .of_eq rfl

/-! ## Endings that send FINISH or ABORT -/

def HeardEnd (s : Session) : Prop := ∃ e ∈ s.trace, EndSent e

theorem Talked.heardEnd {s : Session} (h : Talked s s') (he : HeardEnd s) : HeardEnd s' := by
  obtain ⟨e, hmem, hend⟩ := he
  exact ⟨e, h.mem hmem, hend⟩

theorem execute_heardEnd {request : Request}
    (hk : request.kind = .finish ∨ request.kind = .abort) (s : Session) :
    wp (execute cfg exec request) (fun _ s' => HeardEnd s') s := by
  refine wp_mono (execute_spec request s) ?_
  have hcalled : ∀ s', Called request s s' → HeardEnd s' := by
    intro s' h
    obtain ⟨m, reply, rfl, hmem⟩ := h.sent
    exact ⟨_, hmem, m, reply, _, rfl, hk⟩
  rintro (e | r) s' h <;> exact hcalled s' h.1

theorem heardEnd_bind {α β : Type} {p : SessionM α} {f : α → SessionM β} {s : Session}
    (h : wp p (fun _ s' => HeardEnd s') s) (hf : ∀ a, Preserves Talked (f a)) :
    wp (p >>= f) (fun _ s' => HeardEnd s') s := by
  refine wp_bind_of h (fun _ _ h => h) fun a s1 h1 => ?_
  exact wp_mono (hf a s1) fun _ _ h2 => h2.heardEnd h1

theorem heardEnd_tryCatch {α : Type} {p : SessionM α} {f : SessionError → SessionM α}
    {s : Session} (h : wp p (fun _ s' => HeardEnd s') s) (hf : ∀ e, Preserves Talked (f e)) :
    wp (tryCatch p f) (fun _ s' => HeardEnd s') s := by
  rw [wp_tryCatch]
  refine wp_cases h (fun e s1 h1 => wp_mono (hf e s1) fun _ _ h2 => h2.heardEnd h1)
    fun a s1 h1 => ?_
  exact h1

theorem finishTransaction_heardEnd (s : Session) :
    wp (finishTransaction cfg exec args) (fun _ s' => HeardEnd s') s := by
  rw [finishTransaction, wp_get_bind]
  refine heardEnd_bind ?_ fun r => ?_
  · refine heardEnd_tryCatch (heardEnd_bind (execute_heardEnd (.inl rfl) s) fun _ => .pure _) ?_
    intro e
    split
    · exact .throw _
    · exact .throw _
    · exact .pure _
  · split
    · exact resolveAmbiguousFinish_talks
    split
    · exact .pure _
    split
    · exact .throw _
    · exact classified_talks _

theorem abortUnknown_heardEnd (s : Session) :
    wp (abortUnknown cfg exec) (fun _ s' => HeardEnd s') s := by
  refine heardEnd_tryCatch (heardEnd_bind (execute_heardEnd (.inr rfl) s) fun _ => .pure _) ?_
  intro e
  split
  · exact .throw _
  · exact .pure _

theorem finishOutcome_heardEnd {args : FinishArgs} {s : Session}
    (hl : s.fatalRestartRequired = false)
    (hend : args.requiredStoreEnd ≤ args.persistentCommonEnd)
    (hsend : s.opened = true ∨ s.prearmControlUnknown = true) :
    wp (finishOutcome cfg exec args) (fun _ s' => HeardEnd s') s := by
  rw [finishOutcome, wp_get_bind]
  simp only [hl, Bool.false_eq_true, if_false, Int.not_lt.2 hend]
  split
  · next hprearm =>
    have hunknown : s.prearmControlUnknown = true := by
      rcases hprearm with h | h
      · rw [h] at hsend
        exact hsend.resolve_left (by simp)
      · exact h
    rw [if_pos hunknown]
    exact heardEnd_bind (abortUnknown_heardEnd s) fun _ => .pure _
  · exact finishTransaction_heardEnd args s

theorem finishRequestState_heardEnd {args : FinishArgs} {s : Session}
    (hl : s.fatalRestartRequired = false) (ht : s.terminal = none)
    (hend : args.requiredStoreEnd ≤ args.persistentCommonEnd)
    (hsend : s.opened = true ∨ s.prearmControlUnknown = true) :
    wp (finishRequestState cfg exec args) (fun _ s' => HeardEnd s') s := by
  refine heardEnd_tryCatch (heardEnd_bind ?_ fun _ => .pure _) fun _ => .pure _
  rw [finish, wp_get_bind]
  simp only [ht]
  refine heardEnd_bind (finishOutcome_heardEnd hl hend hsend) fun r => ?_
  refine Preserves.bind (.modify ?_) fun _ => .pure _
  exact fun _ => .of_eq rfl

/-! ## Release -/

/-- The client was closed last, if at all. -/
def ClosedLast (s s' : Session) : Prop :=
  ∃ s1, Talked s s1 ∧ (s'.trace = s1.trace ∨
    ∃ latched, s'.trace = s1.trace ++ [.clientClosed latched])

theorem Talked.closedLast {s2 s3 : Session} (h : Talked s1 s2) (h' : ClosedLast s2 s3) :
    ClosedLast s1 s3 := by
  obtain ⟨s', ht, hs⟩ := h'
  exact ⟨s', h.trans ht, hs⟩

theorem close_closedLast (s : Session) : wp close (fun _ s' => ClosedLast s s') s := by
  rw [close, wp_get_bind]
  split
  · exact ⟨s, .of_eq rfl, .inl rfl⟩
  · exact ⟨s, .of_eq rfl, .inr ⟨_, rfl⟩⟩

theorem release_closedLast (terminal : Option TerminalResult) (drained : Bool) (s : Session) :
    wp (release cfg exec terminal drained) (fun _ s' => ClosedLast s s') s := by
  have hend : ∀ s, wp (do
      close
      pure true) (fun _ s' => ClosedLast s s') s := by
    intro s
    refine wp_bind_of (close_closedLast s) (fun _ _ h => h) fun u s' h => ?_
    exact h
  rw [release, wp_get_bind]
  split
  · exact ⟨s, .of_eq rfl, .inl rfl⟩
  split
  · exact ⟨s, .of_eq rfl, .inl rfl⟩
  split
  · refine wp_bind_of (exceptNonfatal_preserves (abort_talks _) (.pure _) s)
      (fun _ s1 h1 => ⟨s1, h1, .inl rfl⟩) fun u s1 h1 => ?_
    exact wp_mono (hend s1) fun _ _ h2 => h1.closedLast h2
  · exact hend s

/-! ## The three kinds of endings -/

/-- A session that only windows have used. -/
structure Windowed (s : Session) : Prop where
  events : ∀ e ∈ s.trace, e.isClose = false ∧ ¬ EndSent e
  closed : s.closed = false
  terminal : s.terminal = none

theorem endRequest_latched (ending : Ending) {s : Session} (hs : Windowed s)
    (hl : s.fatalRestartRequired = true) :
    wp (endRequest cfg ending) (fun _ s' => s'.trace = s.trace) s := by
  have hrelease : ∀ (exec : Exec) (terminal : Option TerminalResult) (s : Session),
      s.fatalRestartRequired = true →
      wp (release cfg exec terminal true) (fun _ s' => s'.trace = s.trace) s := by
    intro exec terminal s hl
    rw [release, wp_get_bind, if_pos (.inr hl), wp_throw]
  cases ending with
  | released exec => exact hrelease exec none s hl
  | finished exec args =>
    rw [endRequest, wp_bind]
    have hfinish : wp (finishRequestState cfg exec args)
        (fun _ s' => s'.trace = s.trace ∧ s'.fatalRestartRequired = true) s := by
      simp only [finishRequestState, finish, finishOutcome, wp_tryCatch, wp_bind, wp_get, post_ok,
        hs.terminal, hl, if_true, wp_pure, wp_modify]
      exact ⟨trivial, trivial⟩
    refine wp_cases hfinish (fun _ _ h1 => h1.1) ?_
    rintro terminal s1 ⟨htr, hl1⟩
    exact wp_mono (hrelease exec terminal s1 hl1) fun _ _ h => h.trans htr

theorem close_closes {s : Session} (hl : s.fatalRestartRequired = false)
    (ht : TerminalResult.fatal s.terminal = false) :
    wp close (fun out s' => out = .ok () ∧ s'.trace = s.trace ++ [.clientClosed false]) s := by
  rw [close, wp_bind, wp_get, post_ok, if_neg (by simp [hl, ht]), wp_modify]
  exact ⟨rfl, by simp [hl]⟩

theorem finishOutcome_silent {args : FinishArgs} {s : Session}
    (hl : s.fatalRestartRequired = false) (hsend : ¬ (Ending.finished exec args).Sends s) :
    wp (finishOutcome cfg exec args)
      (fun out s' => s' = s ∧ ∃ outcome, out = .ok (outcome, false) ∧ outcome ≠ .fatalRestart) s := by
  rw [finishOutcome, wp_get_bind]
  simp only [hl, Bool.false_eq_true, if_false]
  split
  · exact ⟨rfl, _, rfl, by simp⟩
  · next hend =>
    have hflags : ¬ (s.opened = true ∨ s.prearmControlUnknown = true) := fun h =>
      hsend ⟨Int.not_lt.1 hend, h⟩
    rw [not_or, Bool.not_eq_true, Bool.not_eq_true] at hflags
    rw [if_pos (.inl hflags.1), if_neg (by simp [hflags.2])]
    exact ⟨rfl, _, rfl, by simp⟩

theorem finishRequestState_silent {args : FinishArgs} {s : Session} (ht : s.terminal = none)
    (hl : s.fatalRestartRequired = false) (hsend : ¬ (Ending.finished exec args).Sends s) :
    wp (finishRequestState cfg exec args) (fun out s' => ∃ t : TerminalResult,
      out = .ok (some t) ∧ TerminalResult.fatal (some t) = false ∧ s'.terminal = some t ∧
        s'.trace = s.trace ∧ s'.fatalRestartRequired = false) s := by
  rw [finishRequestState, wp_tryCatch, wp_bind, finish, wp_get_bind]
  simp only [ht]
  rw [wp_bind]
  refine wp_mono (@finishOutcome_silent cfg exec args s hl hsend) ?_
  rintro out s1 ⟨rfl, outcome, rfl, hne⟩
  rw [post_ok, wp_modify_bind, wp_pure, post_ok, wp_pure, post_ok]
  exact ⟨_, rfl, by simp [TerminalResult.fatal, hne], rfl, rfl, hl⟩

theorem endRequest_silent {ending : Ending} {s : Session} (hs : Windowed s)
    (hl : s.fatalRestartRequired = false) (hsend : ¬ ending.Sends s) :
    wp (endRequest cfg ending) (fun _ s' => s'.trace = s.trace ++ [.clientClosed false]) s := by
  -- the last step of both endings
  have hclose : ∀ s, s.fatalRestartRequired = false → TerminalResult.fatal s.terminal = false →
      wp (do
        close
        pure true) (fun _ s' => s'.trace = s.trace ++ [.clientClosed false]) s := by
    intro s hl ht
    rw [wp_bind]
    refine wp_mono (close_closes hl ht) ?_
    rintro out s' ⟨rfl, htr⟩
    exact htr
  cases ending with
  | released exec =>
    have hopen : s.opened = false := by simpa [Ending.Sends] using hsend
    have hnone : TerminalResult.fatal none = false := rfl
    have habort : wp (exceptNonfatal (abort cfg exec "prefiller released request before FINISH")
        (pure ())) (fun out s' => out = .ok () ∧ s' = { s with
          directViable := false
          closed := true }) s := by
      simp only [exceptNonfatal, abort, wp_tryCatch, wp_bind, wp_get, post_ok, hs.terminal,
        hs.closed, hl, hopen, Option.isSome_none, Bool.false_eq_true, or_self, if_false, wp_modify]
      exact ⟨trivial, trivial⟩
    rw [endRequest, release, wp_bind, wp_get, post_ok, if_neg (by simp [hnone, hl]),
      if_neg (by simp), if_pos (by simp), wp_bind]
    refine wp_mono habort ?_
    rintro out s1 ⟨rfl, rfl⟩
    exact hclose _ hl (by rw [hs.terminal]; exact hnone)
  | finished exec args =>
    rw [endRequest, wp_bind]
    refine wp_mono (finishRequestState_silent hs.terminal hl hsend) ?_
    rintro out s1 ⟨t, rfl, hf, ht1, htr, hl1⟩
    rw [post_ok, release, wp_bind, wp_get, post_ok, if_neg (by simp [hf, hl1]),
      if_neg (by simp), if_neg (by simp)]
    refine wp_mono (hclose s1 hl1 (by rw [ht1]; exact hf)) ?_
    intro out2 s2 h2
    rw [h2, htr]

theorem endRequest_sends {ending : Ending} {s : Session} (hs : Windowed s)
    (hl : s.fatalRestartRequired = false) (hsend : ending.Sends s) :
    wp (endRequest cfg ending) (fun _ s' => ClosedLast s s' ∧ HeardEnd s') s := by
  -- closing adds an event and takes none away
  have hkeep : ∀ {s1 s2 : Session}, HeardEnd s1 → ClosedLast s1 s2 → HeardEnd s2 := by
    rintro s1 s2 h ⟨s', ht, hs | ⟨latched, hs⟩⟩
    · obtain ⟨e, hmem, hend⟩ := ht.heardEnd h
      exact ⟨e, hs ▸ hmem, hend⟩
    · obtain ⟨e, hmem, hend⟩ := ht.heardEnd h
      exact ⟨e, hs ▸ mem_append_left _ hmem, hend⟩
  cases ending with
  | released exec =>
    have hopen : s.opened = true := hsend
    -- the ABORT of an opened session
    have habort : wp (exceptNonfatal (abort cfg exec "prefiller released request before FINISH")
        (pure ())) (fun _ s' => HeardEnd s') s := by
      refine heardEnd_tryCatch ?_ fun e => ?_
      · rw [abort, wp_bind, wp_get, post_ok, if_neg (by simp [hs.terminal, hs.closed]),
          if_neg (by simp [hl]), if_pos hopen]
        refine heardEnd_bind (execute_heardEnd (.inr rfl) s) fun r => ?_
        split
        · exact .modify fun _ => .of_eq rfl
        · exact .throw _
      · split
        · exact .throw _
        · exact .throw _
        · exact .pure _
    have hrelease : wp (release cfg exec none true) (fun _ s' => HeardEnd s') s := by
      rw [release, wp_bind, wp_get, post_ok, if_neg (by simp [TerminalResult.fatal, hl]),
        if_neg (by simp), if_pos (by simp), wp_bind]
      refine wp_cases habort (fun _ _ h => h) fun u s1 hend => ?_
      rw [post_ok]
      refine wp_bind_of (close_closedLast s1) (fun _ _ h2 => hkeep hend h2) fun u s2 h2 => ?_
      exact hkeep hend h2
    exact ⟨release_closedLast none true s, hrelease⟩
  | finished exec args =>
    rw [endRequest, wp_bind]
    have hboth : wp (finishRequestState cfg exec args)
        (fun _ s' => Talked s s' ∧ HeardEnd s') s :=
      ⟨finishRequestState_talks args s,
        finishRequestState_heardEnd hl hs.terminal hsend.1 hsend.2⟩
    refine wp_cases hboth (fun _ s1 ⟨ht, hend⟩ => ⟨⟨s1, ht, .inl rfl⟩, hend⟩)
      fun terminal s1 ⟨ht, hend⟩ => ?_
    rw [post_ok]
    refine wp_mono (release_closedLast terminal true s1) fun _ s2 h2 => ?_
    exact ⟨ht.closedLast h2, hkeep hend h2⟩

/-! ## Sessions that windows leave -/

theorem SentIn.working {kinds : List OperationKind} {e : Event} (h : SentIn latched kinds e)
    (hf : .finish ∉ kinds) (ha : .abort ∉ kinds) :
    e.isClose = false ∧ ¬ EndSent e := by
  obtain ⟨k, hk, m, reply, rfl, rfl⟩ := h
  refine ⟨rfl, ?_⟩
  rintro ⟨m', reply', l', he, hend⟩
  cases he
  rcases hend with hend | hend
  · exact hf (hend ▸ hk)
  · exact ha (hend ▸ hk)

theorem WindowEnds.working
    {submitter : List SourcePage → List Descriptor → Except SubmitError (Option NativeResult)}
    {windowId : Int} {s s' : Session} {out : Except SessionError WindowResult} {ev : List Event}
    (h : WindowEnds cfg submitter windowId s out ev s') :
    ∀ e ∈ ev, e.isClose = false ∧ ¬ EndSent e := by
  have hcontrol : ∀ e, SentIn s.fatalRestartRequired (preludeKinds ++ armKinds) e →
      e.isClose = false ∧ ¬ EndSent e := fun e he => he.working (by decide) (by decide)
  rcases h with ⟨hk, -⟩ | ⟨attemptId, before, submission, after, rfl, hpast⟩
  · exact fun e he => hcontrol e (hk e he)
  intro e he
  rcases mem_append.1 he with he | he
  · exact hcontrol e (hpast.control e he)
  rcases mem_append.1 he with he | he
  · rcases hpast.native with rfl | ⟨sources, descriptors, rfl⟩
    · cases he
    · cases mem_singleton.1 he
      exact ⟨rfl, by rintro ⟨m, reply, l, ⟨⟩, -⟩⟩
  · obtain ⟨l, hsent⟩ := hpast.reported e he
    exact hsent.working (by decide) (by decide)

theorem Windowed.added {s : Session} (h : Windowed s) {ev : List Event}
    (hev : s'.trace = s.trace ++ ev) (hk : ∀ e ∈ ev, e.isClose = false ∧ ¬ EndSent e)
    (hkept : Kept s s') : Windowed s' := by
  refine ⟨?_, hkept.closed.trans h.closed, hkept.terminal.trans h.terminal⟩
  intro e he
  rw [hev] at he
  exact (mem_append.1 he).elim (h.events e) (hk e)

theorem callEnded_windowed {p : SessionM WindowResult} {s : Session}
    (h : wp p (fun _ s' => Windowed s') s) : Windowed (callEnded (p s)) := by
  rcases hp : p s with ⟨err | result, s'⟩
  · rw [wp_of_run hp] at h
    exact h
  rw [wp_of_run hp] at h
  have hadd : ∀ e ∈ [.returned result.directSatisfied s'.fatalRestartRequired],
      e.isClose = false ∧ ¬ EndSent e := by
    intro e he
    cases mem_singleton.1 he
    exact ⟨rfl, by rintro ⟨m, reply, l, ⟨⟩, -⟩⟩
  exact h.added rfl hadd ⟨rfl, rfl, id⟩

theorem windowed_invariant (cfg : SessionConfig) : (windowMachine cfg).Inductive Windowed where
  start := by
    rintro s rfl
    exact ⟨by simp [Session.new], rfl, rfl⟩
  step := by
    rintro s call s' hs hstep
    cases hstep
    cases call with
    | probe exec window cached =>
      refine callEnded_windowed (wp_mono (probeWindow_spec window cached s) ?_)
      have hprelude : ∀ s', Prelude s s' → Windowed s' := by
        intro s' h
        obtain ⟨ev, hev, hk⟩ := h.trace
        exact hs.added hev (fun e he => (hk e he).working (by decide) (by decide)) h.kept
      rintro (e | result) s' h
      · exact hprelude s' h
      · exact hprelude s' h.1
    | transfer exec args window cached =>
      refine callEnded_windowed (wp_mono (transferWindow_spec args window cached s) ?_)
      rintro out s' ⟨ev, hev, hkept, hends⟩
      exact hs.added hev hends.working hkept
    | giveUp => exact ⟨hs.events, hs.closed, hs.terminal⟩

/-! ## Closure -/

theorem split_close {s : Session} (hs : Windowed s) (ht : Talked s s1) {latched' : Bool}
    {before after : List Event}
    (h : s1.trace ++ [.clientClosed latched] = before ++ .clientClosed latched' :: after) :
    before = s1.trace := by
  obtain ⟨ev, hev, hk⟩ := ht
  have hquiet : ∀ e ∈ s1.trace, e.isClose = false := by
    intro e he
    rw [hev] at he
    exact (mem_append.1 he).elim (fun h => (hs.events e h).1) (hk e)
  rcases append_eq_append_iff.1 h with ⟨l, rfl, hl⟩ | ⟨l, hl, hrest⟩
  · cases l with
    | nil => simp
    | cons x l => simp at hl
  · cases l with
    | nil => simpa using hl.symm
    | cons x l =>
      obtain ⟨rfl, -⟩ := cons.inj hrest
      have := hquiet (.clientClosed latched') (by rw [hl]; simp)
      cases this

theorem not_closed {s : Session} (hs : Windowed s) (ht : Talked s s1) {before after : List Event}
    (h : s1.trace = before ++ .clientClosed latched :: after) :
    False := by
  obtain ⟨ev, hev, hk⟩ := ht
  have hmem : .clientClosed latched ∈ s1.trace := by rw [h]; simp
  rw [hev] at hmem
  rcases mem_append.1 hmem with hm | hm
  · cases (hs.events _ hm).1
  · cases hk _ hm

/-- The client closes on a transaction that has heard its end, or that cannot be open, exactly
in these endings. -/
theorem transaction_closure (cfg : SessionConfig) {s : Session}
    (h : (windowMachine cfg).Reachable s) (ending : Ending) :
    wp (endRequest cfg ending) (fun _ s' => TransactionClosed cfg s' ↔
      s.fatalRestartRequired = true ∨ ¬ OpenPossible cfg s.trace ∨ ending.Sends s) s := by
  have hs : Windowed s := (windowed_invariant cfg).reachable h
  by_cases hl : s.fatalRestartRequired = true
  · refine wp_mono (endRequest_latched ending hs hl) ?_
    intro out s' htr
    refine iff_of_true ?_ (.inl hl)
    intro before latched after heq
    exact (not_closed hs (.of_eq htr) heq).elim
  · rw [Bool.not_eq_true] at hl
    by_cases hsend : ending.Sends s
    · refine wp_mono (endRequest_sends hs hl hsend) ?_
      rintro out s' ⟨⟨s1, ht, hs1⟩, e, hmem, hend⟩
      refine iff_of_true ?_ (.inr (.inr hsend))
      intro before latched after heq _
      rcases hs1 with hs1 | ⟨latched', hs1⟩
      · exact (not_closed hs (ht.trans (.of_eq hs1)) heq).elim
      rw [hs1] at heq hmem
      refine .inl ⟨e, ?_, hend⟩
      rw [split_close hs ht heq]
      refine (mem_append.1 hmem).resolve_right fun hm => ?_
      cases mem_singleton.1 hm
      obtain ⟨m, reply, l, he, -⟩ := hend
      cases he
    · refine wp_mono (endRequest_silent hs hl hsend) ?_
      intro out s' htr
      constructor
      · intro hclosed
        refine .inr (.inl fun hopen => ?_)
        rcases hclosed s.trace false [] htr hopen with ⟨e, hmem, hend⟩ | hf
        · exact (hs.events e hmem).2 hend
        · cases hf
      · rintro (hl' | hnone | hsend')
        · rw [hl] at hl'
          cases hl'
        · intro before latched after heq hopen
          rw [htr] at heq
          rw [split_close hs (.of_eq rfl) heq] at hopen
          exact (hnone hopen).elim
        · exact (hsend hsend').elim

theorem transaction_closure_finished :
    wp (endRequest soleConfig (.finished (fun _ m => .response (soleResponse m)) ⟨256, 256, 0⟩))
      (fun _ s' => TransactionClosed soleConfig s' ↔
        (windowCall soleConfig Session.new satisfiedCall).fatalRestartRequired = true ∨
        ¬ OpenPossible soleConfig (windowCall soleConfig Session.new satisfiedCall).trace ∨
        (Ending.finished (fun _ m => .response (soleResponse m)) ⟨256, 256, 0⟩).Sends
          (windowCall soleConfig Session.new satisfiedCall))
      (windowCall soleConfig Session.new satisfiedCall) :=
  transaction_closure soleConfig (Lib.Machine.Reachable.step (.start rfl) satisfiedCall rfl) _

/-- Both replies to OPEN are lost, and the request is released without a finish. -/
def lostOpenCall : WindowCall := .probe (fun _ _ => .replyLost) soleWindow true

/-- The client closes although the decoder may have opened the transaction. -/
theorem lost_open_not_closed :
    ¬ ∀ (cfg : SessionConfig) (s : Session), (windowMachine cfg).Reachable s →
      ∀ ending, wp (endRequest cfg ending) (fun _ s' => TransactionClosed cfg s') s := by
  intro h
  have hclosed : TransactionClosed soleConfig (endRequest soleConfig
      (.released fun _ _ => .replyLost) (windowCall soleConfig Session.new lostOpenCall)).2 :=
    h soleConfig _ (Lib.Machine.Reachable.step (.start rfl) lostOpenCall rfl) _
  have htrace : (endRequest soleConfig (.released fun _ _ => .replyLost)
      (windowCall soleConfig Session.new lostOpenCall)).2.trace =
      [.sent ⟨1, .open_ 256 1 "seed"⟩ .replyLost false,
        .sent ⟨1, .open_ 256 1 "seed"⟩ .replyLost false, .returned false false] ++
        .clientClosed false :: [] := rfl
  have hopen : OpenPossible soleConfig [.sent ⟨1, .open_ 256 1 "seed"⟩ .replyLost false,
      .sent ⟨1, .open_ 256 1 "seed"⟩ .replyLost false, .returned false false] :=
    ⟨⟨1, .open_ 256 1 "seed"⟩, .replyLost, false, by simp, rfl, by simp⟩
  rcases hclosed _ _ _ htrace hopen with ⟨e, hmem, m, reply, l, rfl, hend⟩ | hf
  · simp only [mem_cons, not_mem_nil, or_false, Event.sent.injEq, reduceCtorEq] at hmem
    rcases hmem with ⟨rfl, -⟩ | ⟨rfl, -⟩ <;> simp [Request.kind] at hend
  · cases hf

end RemoteFill
