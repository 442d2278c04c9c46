import LMCacheAscend.RemoteFill.ProducerCalls

/-!
# One operation, and programs that any operations make up

`execute_operation` says all that `_execute` does to a session: the attempts of
one message, and the latch.  The rest of a window call only changes the flags
(`Silent`), keeps manifests and submits native transfers.  So a relation that
composes and tolerates these holds from before to after a window
(`Tolerates`, `probeWindow_preserves`, `transferWindow_preserves`).
-/

namespace RemoteFill

open Lib List

variable {cfg : SessionConfig} {exec : Exec} {s : Session}

/-! ## `_execute` -/

/-- The events of one operation: the message once, or again after a lost reply. -/
inductive Attempts (m : Message) (latched : Bool) : Reply → List Event → Prop
  | once {reply : Reply} : Attempts m latched reply [.sent m reply latched]
  | again {reply : Reply} :
      Attempts m latched reply [.sent m .replyLost latched, .sent m reply latched]

section

variable {ev : List Event} {m : Message} {reply : Reply} {latched : Bool}
variable (h : Attempts m latched reply ev)
include h

theorem Attempts.sent : ∀ e ∈ ev, ∃ r, e = .sent m r latched := by
  intro e he
  cases h with
  | once => exact ⟨_, mem_singleton.1 he⟩
  | again =>
    rcases mem_cons.1 he with rfl | he
    · exact ⟨_, rfl⟩
    · exact ⟨_, mem_singleton.1 he⟩

theorem Attempts.mem : .sent m reply latched ∈ ev := by
  cases h with
  | once => exact mem_singleton_self _
  | again => exact mem_cons_of_mem _ (mem_singleton_self _)

end

/-- The message of the next operation. -/
def Session.next (s : Session) (request : Request) : Message := ⟨s.operationSequence + 1, request⟩

/-- The session after an operation. -/
structure Operated (request : Request) (s s' : Session) (reply : Reply) (ev : List Event) :
    Prop where
  attempts : Attempts (s.next request) s.fatalRestartRequired reply ev
  session : s' = { s with
    operationSequence := s.operationSequence + 1
    calls := s'.calls
    fatalRestartRequired := s'.fatalRestartRequired
    trace := s.trace ++ ev }
  latch : s.fatalRestartRequired = true → s'.fatalRestartRequired = true

/-- The session after one call of the client. -/
def Session.called (s : Session) (m : Message) (reply : Reply) : Session :=
  { s with
    calls := s.calls + 1
    trace := s.trace ++ [.sent m reply s.fatalRestartRequired] }

def Reply.result : Reply → Except SessionError Response
  | .response r => .ok r
  | .replyLost => .error .replyLost
  | .raised message => .error (.raised message)

variable (m : Message)

theorem wp_callClient (Q : Except SessionError Response → Session → Prop) (s : Session) :
    wp (callClient exec m) Q s ↔ Q (exec s.calls m).result (s.called m (exec s.calls m)) := by
  simp only [callClient, wp_bind, wp_get, post_ok, wp_modify]
  cases exec s.calls m with
  | response | replyLost | raised => rfl

/-- What `_execute` does with the reply that counts. -/
def Judged (cfg : SessionConfig) (m : Message) (latched : Bool) (reply : Reply)
    (out : Except SessionError Response) (s' : Session) : Prop :=
  match out with
  | .ok r => reply = .response r ∧ Valid cfg m r ∧ s'.fatalRestartRequired = latched
  | .error e => (∀ r, reply = .response r → ¬ Valid cfg m r) ∧
      ((∃ message, e = .fatal message) ∧ s'.fatalRestartRequired = true ∨
        e.Nonfatal ∧ s'.fatalRestartRequired = latched)

/-- The checks of a response. -/
def checkResponse (cfg : SessionConfig) (m : Message) (response : Response) : SessionM Response :=
  if identityMismatches cfg m response ≠ [] then
    throw (.valueError ("remote-fill response identity changed: fields=" ++
      ",".intercalate (identityMismatches cfg m response)))
  else if response.fatal then
    raiseFatal ("decoder reported an armed remote-fill transaction with an " ++
      "unknown terminal state")
  else pure response

/-- The message, and again after a lost reply. -/
def callTwice (exec : Exec) (m : Message) : SessionM Response :=
  tryCatch (callClient exec m) fun e => match e with
    | .replyLost => callClient exec m
    | e => throw e

theorem executeMessage_eq :
    executeMessage cfg exec m = callTwice exec m >>= checkResponse cfg m := rfl

theorem callTwice_spec (s : Session) :
    wp (callTwice exec m) (fun out s' => ∃ reply ev n calls, out = reply.result ∧
      Attempts m s.fatalRestartRequired reply ev ∧ exec n m = reply ∧
      s' = { s with calls := calls, trace := s.trace ++ ev }) s := by
  rw [callTwice, wp_tryCatch, wp_callClient]
  cases hfirst : exec s.calls m with
  | response | raised => exact ⟨_, _, s.calls, _, rfl, .once, hfirst, rfl⟩
  | replyLost =>
    rw [Reply.result, post_error, wp_callClient]
    refine ⟨_, _, s.calls + 1, s.calls + 2, rfl, .again, rfl, ?_⟩
    unfold Session.called
    rw [append_assoc]
    rfl

theorem checkResponse_spec (r : Response) (s : Session) :
    wp (checkResponse cfg m r) (fun out s' =>
      s' = { s with fatalRestartRequired := s'.fatalRestartRequired } ∧
      (s.fatalRestartRequired = true → s'.fatalRestartRequired = true) ∧
      Judged cfg m s.fatalRestartRequired (.response r) out s') s := by
  unfold checkResponse
  split
  · next hid =>
    refine ⟨rfl, id, ?_, .inr ⟨⟨by simp, by simp⟩, rfl⟩⟩
    rintro _ ⟨⟩ hvalid
    exact hid hvalid.1
  next hid =>
  rw [not_not] at hid
  split
  · next hfatal =>
    refine raiseFatal_spec _ _ _ ⟨rfl, fun _ => rfl, ?_, .inl ⟨⟨_, rfl⟩, rfl⟩⟩
    rintro _ ⟨⟩ hvalid
    rw [hvalid.2] at hfatal
    cases hfatal
  · next hfatal =>
    exact ⟨rfl, id, rfl, ⟨hid, by simpa using hfatal⟩, rfl⟩

/-- **One operation.**  All that `_execute` changes, and what it answers. -/
theorem execute_operation (request : Request) (s : Session) :
    wp (execute cfg exec request) (fun out s' => ∃ reply ev n,
      Operated request s s' reply ev ∧ exec n (s.next request) = reply ∧
      Judged cfg (s.next request) s.fatalRestartRequired reply out s') s := by
  rw [execute, wp_modify_bind, wp_get_bind]
  show wp (executeMessage cfg exec (s.next request)) _ _
  rw [executeMessage_eq, wp_bind]
  refine wp_mono (callTwice_spec _ _) ?_
  rintro out s1 ⟨reply, ev, n, calls, rfl, hattempts, hn, rfl⟩
  have hop : Operated request s { s with
      operationSequence := s.operationSequence + 1, calls := calls,
      trace := s.trace ++ ev } reply ev := ⟨hattempts, rfl, id⟩
  cases reply with
  | replyLost | raised =>
    refine ⟨_, ev, n, hop, hn, fun r h => ?_, .inr ⟨⟨by simp, by simp⟩, rfl⟩⟩
    cases h
  | response r =>
    rw [Reply.result, post_ok]
    refine wp_mono (checkResponse_spec _ _ _) ?_
    rintro out s2 ⟨hs2, hlatch, hjudged⟩
    refine ⟨_, ev, n, ⟨hattempts, ?_, hlatch⟩, hn, hjudged⟩
    rw [hs2]

/-! ## Programs of any operations -/

/-- A change of flags: direct filling may be given up, the transaction opened, the latch set. -/
structure Silent (s s' : Session) : Prop where
  trace : s'.trace = s.trace
  manifests : s'.windowManifests = s.windowManifests
  sequence : s'.operationSequence = s.operationSequence
  terminal : s'.terminal = s.terminal
  closed : s'.closed = s.closed
  opened : s.opened = true → s'.opened = true
  latch : s.fatalRestartRequired = true → s'.fatalRestartRequired = true
  viable : s'.directViable = true → s.directViable = true

/-- `R` holds over flags, native transfers and operations of requests in `P`. -/
structure Tolerates (P : Request → Prop) (R : Session → Session → Prop) : Prop where
  silent : ∀ {s s'}, Silent s s' → R s s'
  submitted : ∀ s windowId attemptId sources descriptors, R s { s with
    trace := s.trace ++ [.submitted windowId attemptId sources descriptors
      s.fatalRestartRequired] }
  operated : ∀ {request s s' reply ev}, P request → Operated request s s' reply ev → R s s'

/-- The window that a request is about. -/
def Request.windowId : Request → Option Int
  | .reserveWindow windowId .. => some windowId
  | .armWindow windowId .. => some windowId
  | .reportTransferComplete windowId .. => some windowId
  | .status windowId => some windowId
  | _ => none

namespace Tolerates

variable {P : Request → Prop} {R : Session → Session → Prop} (h : Tolerates P R)
include h

variable {request : Request} {window : Window}

theorem execute (hp : P request) :
    Preserves R (execute cfg exec request) := by
  intro s
  refine wp_mono (execute_operation request s) ?_
  rintro out s' ⟨reply, ev, n, hop, -, -⟩
  exact h.operated hp hop

theorem abandonDirect : Preserves R abandonDirect :=
  .modify fun _ => h.silent ⟨rfl, rfl, rfl, rfl, rfl, id, id, fun h => by cases h⟩

theorem controlUnknown : Preserves R controlUnknown :=
  .modify fun _ => h.silent ⟨rfl, rfl, rfl, rfl, rfl, id, id, fun h => by cases h⟩

theorem invalidReply (r : Response) : Preserves R (invalidReply r) := by
  unfold RemoteFill.invalidReply
  split
  · exact h.controlUnknown
  · exact h.abandonDirect

variable {α : Type} [IsPreorder Session R]

theorem raiseFatal (message : String) :
    Preserves R (raiseFatal message : SessionM α) :=
  .bind (.modify fun _ => h.silent ⟨rfl, rfl, rfl, rfl, rfl, id, fun _ => rfl, id⟩)
    fun _ => .throw _

theorem optionalCall (hp : P request) {handler : SessionM (Option Response)}
    (hh : Preserves R handler) :
    Preserves R (RemoteFill.exceptNonfatal (do
      let r ← RemoteFill.execute cfg exec request
      pure (some r)) handler) :=
  exceptNonfatal_preserves (.bind (h.execute hp) fun _ => .pure _) hh

theorem unknownCall (hp : P request) :
    Preserves R (RemoteFill.exceptNonfatal (do
      let r ← RemoteFill.execute cfg exec request
      pure (some r)) (do
      RemoteFill.controlUnknown
      pure none)) :=
  h.optionalCall hp (.bind h.controlUnknown fun _ => .pure _)

theorem negotiated (hp : P request) :
    Preserves R (negotiated cfg exec request) := by
  refine .bind (h.unknownCall hp) fun response => ?_
  split
  · exact .pure _
  split
  · exact .pure _
  · exact .bind h.abandonDirect fun _ => .pure _

theorem openTransaction (hp : ∀ a b c, P (.open_ a b c)) :
    Preserves R (openTransaction cfg exec) := by
  refine .bind (h.negotiated (hp _ _ _)) fun response => ?_
  split
  · exact .pure _
  split
  · exact .bind h.abandonDirect fun _ => .pure _
  · refine .bind (.modify fun _ => ?_) fun _ => .pure _
    exact h.silent ⟨rfl, rfl, rfl, rfl, rfl, fun _ => rfl, id, id⟩

theorem openSession (hneg : P .negotiate) (hopen : ∀ a b c, P (.open_ a b c)) (cached : Bool) :
    Preserves R (openSession cfg exec cached) := by
  refine .bind (.get) fun s => ?_
  split
  · exact .pure _
  split
  · exact .pure _
  split
  · exact .bind h.abandonDirect fun _ => .pure _
  split
  · exact h.openTransaction hopen
  refine .bind (h.negotiated hneg) fun r => ?_
  split
  · exact .pure _
  · exact h.openTransaction hopen

theorem admitted (hneg : P .negotiate) (hopen : ∀ a b c, P (.open_ a b c)) (cached : Bool) :
    Preserves R (admitted cfg exec cached) := by
  refine .bind (.get) fun s => ?_
  split
  · exact h.openSession hneg hopen cached
  · exact .pure _

theorem prepareSource (args : TransferArgs) : Preserves R (prepareSource args) := by
  unfold RemoteFill.prepareSource
  split
  · refine .bind (.get) fun s => ?_
    split
    · exact .pure _
    refine exceptException_preserves ?_
      (.bind h.abandonDirect fun _ => .pure _)
    split
    · exact .throw _
    · exact .throw _
    · refine .bind (.modify fun _ => ?_) fun _ => .pure _
      exact h.silent ⟨rfl, rfl, rfl, rfl, rfl, id, id, id⟩
  · exact .pure _

theorem selectedSources (args : TransferArgs) (window : Window) (r : Response) :
    Preserves R (selectedSources cfg args window r) := by
  refine .bind (.get) fun s => ?_
  refine exceptException_preserves ?_
    (.bind h.abandonDirect fun _ => .pure _)
  split
  · exact .throw _
  · exact .pure _

theorem armWindow {windowId : Int}
    (hp : ∀ request : Request, request.windowId = some windowId →
      request.kind ≠ .reserveWindow → P request) (attemptId digest descriptorDigest : String) :
    Preserves R (armWindow cfg exec windowId attemptId digest descriptorDigest) := by
  refine exceptNonfatal_preserves (h.execute (hp _ rfl nofun))
    (exceptException_preserves ?_ (h.raiseFatal _))
  refine .bind (h.execute (hp _ rfl nofun)) fun response => ?_
  split
  · exact .pure _
  · exact .throw _

theorem endNative (attemptId : String) (expectedBytes : Int) (settled : Settled) :
    Preserves R (endNative attemptId expectedBytes settled) := by
  unfold RemoteFill.endNative
  split
  · exact h.raiseFatal _
  · split <;> exact .pure _
  · exact .pure _
  · exact .pure _
  · exact h.raiseFatal _
  · exact .throw _

theorem submitNative (args : TransferArgs) (window : Window) (sources : List SourcePage)
    (descriptors : List Descriptor) (attemptId : String) (expectedBytes : Int) :
    Preserves R (submitNative args window sources descriptors attemptId expectedBytes) := by
  unfold RemoteFill.submitNative
  split
  · exact h.endNative _ _ _
  · exact .bind (.modify fun s => h.submitted s _ _ _ _) fun _ => h.endNative _ _ _

theorem reportTransfer {windowId : Int}
    (hp : ∀ request : Request, request.windowId = some windowId →
      request.kind ≠ .reserveWindow → P request) (attemptId digest : String)
    (returnCode completedBytes expectedBytes : Int) :
    Preserves R (reportTransfer cfg exec windowId attemptId digest returnCode completedBytes
      expectedBytes) := by
  refine exceptException_preserves
    (.bind (h.execute (hp _ rfl nofun)) fun _ => .pure _)
    (exceptException_preserves ?_ (h.raiseFatal _))
  refine .bind (h.execute (hp _ rfl nofun)) fun response => ?_
  split
  · exact .pure _
  · exact .throw _

theorem fillReserved (args : TransferArgs)
    (hp : ∀ request : Request, request.windowId = some window.windowId →
      request.kind ≠ .reserveWindow → P request) (reserved : Response)
    (dispositions : List PageDisposition) :
    Preserves R (fillReserved cfg exec args window reserved dispositions) := by
  have hgive : ∀ result : WindowResult, Preserves R (do
      RemoteFill.abandonDirect
      pure result : SessionM WindowResult) := fun result =>
    .bind h.abandonDirect fun _ => .pure _
  unfold RemoteFill.fillReserved
  simp only
  split
  · exact hgive _
  split
  · exact hgive _
  split
  · exact .pure _
  refine .bind (h.selectedSources args window reserved) fun sources => ?_
  split
  · exact .pure _
  refine .bind (h.armWindow hp _ _ _) fun armed => ?_
  split
  · exact hgive _
  refine .bind (h.submitNative args window _ _ _ _) fun native => ?_
  refine .bind (h.reportTransfer hp _ _ _ _ _) fun succeeded => ?_
  split
  · exact .pure _
  · exact hgive _

theorem reserveWindow (hp : ∀ generation digest pages missing,
      P (.reserveWindow window.windowId generation digest pages missing))
    (hm : ∀ s digest, R s { s with
      windowManifests := s.windowManifests ++ [(window.windowId, digest)] })
    (reserveMissing : Bool) (unavailable invalid : String) :
    Preserves R (reserveWindow cfg exec window reserveMissing unavailable invalid) := by
  refine .bind (h.unknownCall (hp _ _ _ _)) fun reserved => ?_
  split
  · exact .pure _
  split
  · exact .bind (h.invalidReply _) fun _ => .pure _
  · exact .bind (.modify fun s => hm s _) fun _ => .pure _

/-- **A probe window.** -/
theorem probeWindow (hneg : P .negotiate) (hopen : ∀ a b c, P (.open_ a b c))
    (hp : ∀ request : Request, request.windowId = some window.windowId → P request)
    (hm : ∀ s digest, R s { s with
      windowManifests := s.windowManifests ++ [(window.windowId, digest)] }) (cached : Bool) :
    Preserves R (probeWindow cfg exec window cached) := by
  refine .bind (h.admitted hneg hopen cached) fun viable => ?_
  split
  · refine .bind (h.reserveWindow (fun _ _ _ _ => hp _ rfl) hm _ _ _) fun reserved => ?_
    split
    · exact .pure _
    split
    · exact .bind h.abandonDirect fun _ => .pure _
    · exact .pure _
  · exact .pure _

/-- **A transfer window.** -/
theorem transferWindow (args : TransferArgs) (hneg : P .negotiate)
    (hopen : ∀ a b c, P (.open_ a b c))
    (hp : ∀ request : Request, request.windowId = some window.windowId → P request)
    (hm : ∀ s digest, R s { s with
      windowManifests := s.windowManifests ++ [(window.windowId, digest)] }) (cached : Bool) :
    Preserves R (transferWindow cfg exec args window cached) := by
  refine .bind (h.admitted hneg hopen cached) fun viable => ?_
  split
  · split
    · exact .bind h.abandonDirect fun _ => .pure _
    refine .bind (h.prepareSource args) fun prepared => ?_
    split
    · refine .bind (h.reserveWindow (fun _ _ _ _ => hp _ rfl) hm _ _ _)
        fun reserved => ?_
      split
      · exact .pure _
      · exact h.fillReserved args (fun request hw _ => hp request hw) _ _
    · exact .pure _
  · exact .pure _

end Tolerates

end RemoteFill
