import LMCacheAscend.Lib.Machine
import LMCacheAscend.Lib.Prog
import LMCacheAscend.RemoteFill.Protocol

/-!
# The producer session

`RemoteFillProducerSession` of `remote_fill_producer.py` as programs over
`Session`.  The decoder and the network are an oracle: `exec n m` is how the
`n`-th `client.execute` of the session ends.  `trace` lists what left the session,
each event with the value of `fatal_restart_required` at that moment.

A digest is a function of what it digests.  `SessionError.base` stands for what
`except Exception` does not catch; only a submitter's outcome can be one.
-/

namespace RemoteFill

open Lib

inductive SessionError
  /-- `RemoteFillFatalError`. -/
  | fatal (message : String)
  | replyLost
  | valueError (message : String)
  | runtimeError (message : String)
  | raised (message : String)
  | base (message : String)
deriving DecidableEq, Repr

/-- The handoff and the static spec, as far as the session compares them. -/
structure SessionConfig where
  transferId : String
  requestAttempt : Int
  destinationEngineEpoch : Int
  sharedCacheGeneration : Int
  destinationDpRank : Int
  tokenHashAlgorithm : String
  pythonHashSeed : String
  staticTokenHashAlgorithm : String
  staticPythonHashSeed : String
  requiredStoreEndHint : Nat
  plannedWindowCountHint : Nat
  manifestDigestSeed : String
  manifestDigest : List ControlPage → String
  destinationDescriptorDigest : List Descriptor → String
  transactionManifestDigest : String → List (Int × String) → Int → Int → String
  verifyDescriptor : Descriptor → Bool

structure SourcePage where
  canonicalKey : String
  kvGroup : Nat
  sourceLengths : List Int
deriving DecidableEq, Repr

/-- What leaves a session, and the latch then. -/
inductive Event
  | sent (message : Message) (reply : Reply) (latched : Bool)
  | submitted (windowId : Int) (attemptId : String) (sources : List SourcePage)
      (descriptors : List Descriptor) (latched : Bool)
  | returned (directSatisfied : Bool) (latched : Bool)
  | clientClosed (latched : Bool)
deriving DecidableEq, Repr

structure TerminalResult where
  transferId : String
  outcome : TerminalOutcome
  persistentCommonEnd : Int
  requiredStoreEnd : Int
  directSatisfied : Bool
deriving DecidableEq, Repr

structure Session where
  directViable : Bool
  opened : Bool
  closed : Bool
  fatalRestartRequired : Bool
  prearmControlUnknown : Bool
  dLocalEndOpen : Int
  remoteSession : String
  windowManifests : List (Int × String)
  operationSequence : Nat
  terminal : Option TerminalResult
  /-- The source plans whose preparation is kept. -/
  preparedSources : List Nat
  calls : Nat
  trace : List Event
deriving DecidableEq, Repr

def Session.new : Session :=
  { directViable := true, opened := false, closed := false, fatalRestartRequired := false,
    prearmControlUnknown := false, dLocalEndOpen := 0, remoteSession := "",
    windowManifests := [], operationSequence := 0, terminal := none, preparedSources := [],
    calls := 0, trace := [] }

abbrev SessionM := Prog SessionError Session

abbrev Exec := Nat → Message → Reply

variable (cfg : SessionConfig) (exec : Exec)

/-! ## Control calls -/

def raiseFatal {α : Type} (message : String) : SessionM α := do
  modify fun s => { s with fatalRestartRequired := true }
  throw (.fatal message)

/-- `except Exception`. -/
def exceptException {α : Type} (p : SessionM α) (handler : SessionM α) : SessionM α :=
  tryCatch p fun e => match e with
    | .base message => throw (.base message)
    | _ => handler

/-- `except RemoteFillFatalError: raise` before `except Exception`. -/
def exceptNonfatal {α : Type} (p : SessionM α) (handler : SessionM α) : SessionM α :=
  tryCatch p fun e => match e with
    | .base message => throw (.base message)
    | .fatal message => throw (.fatal message)
    | _ => handler

variable (m : Message) (windowId : Int) (s : Session) (args : TransferArgs) (attemptId : String)

/-- `client.execute`. -/
def callClient : SessionM Response := do
  let s ← get
  let reply := exec s.calls m
  modify fun s => { s with
    calls := s.calls + 1
    trace := s.trace ++ [.sent m reply s.fatalRestartRequired] }
  match reply with
  | .response r => pure r
  | .replyLost => throw .replyLost
  | .raised message => throw (.raised message)

variable (r : Response) (window : Window)

/-- The fields of a response that do not match its request. -/
def identityMismatches : List String :=
  (if r.operation ≠ m.request.kind then ["operation"] else []) ++
    (if r.operationId ≠ m.operationId then ["operation_id"] else []) ++
    (if r.destinationEngineEpoch ≠ cfg.destinationEngineEpoch then ["destination_engine_epoch"]
      else []) ++
    (if r.sharedCacheGeneration ≠ cfg.sharedCacheGeneration then ["shared_cache_generation"]
      else [])

/-- `_execute`. -/
def executeMessage : SessionM Response := do
  let response ← tryCatch (callClient exec m) fun e => match e with
    | .replyLost => callClient exec m
    | e => throw e
  let mismatches := identityMismatches cfg m response
  if mismatches ≠ [] then
    throw (.valueError ("remote-fill response identity changed: fields=" ++
      ",".intercalate mismatches))
  else if response.fatal then
    raiseFatal ("decoder reported an armed remote-fill transaction with an " ++
      "unknown terminal state")
  else pure response

/-- `_execute` of a request that `_common()` has numbered. -/
def execute (request : Request) : SessionM Response := do
  modify fun s => { s with operationSequence := s.operationSequence + 1 }
  let s ← get
  executeMessage cfg exec ⟨s.operationSequence, request⟩

/-! ## `open` -/

def abandonDirect : SessionM Unit := modify fun s => { s with directViable := false }

/-- A control call before ARM that did not answer. -/
def controlUnknown : SessionM Unit :=
  modify fun s => { s with prearmControlUnknown := true, directViable := false }

/-- An accepted answer, or `none` after the session gave up. -/
def negotiated (request : Request) : SessionM (Option Response) := do
  let response ← exceptNonfatal (do
      let r ← execute cfg exec request
      pure (some r)) (do
      controlUnknown
      pure none)
  match response with
  | none => pure none
  | some r =>
    if r.accepted then pure (some r)
    else do
      abandonDirect
      pure none

/-- The OPEN request and what its response must be. -/
def openTransaction : SessionM Bool := do
  match ← negotiated cfg exec (.open_ cfg.requiredStoreEndHint cfg.plannedWindowCountHint
      cfg.manifestDigestSeed) with
  | none => pure false
  | some opened =>
    if opened.destinationEngineEpoch ≠ cfg.destinationEngineEpoch ∨
        opened.sharedCacheGeneration ≠ cfg.sharedCacheGeneration ∨ opened.remoteSession = "" then do
      abandonDirect
      pure false
    else do
      modify fun s => { s with
        dLocalEndOpen := opened.dLocalEndOpen
        remoteSession := opened.remoteSession
        opened := true }
      pure true

/-- `open`; `cached` is what the negotiation cache answers. -/
def openSession (cached : Bool) : SessionM Bool := do
  let s ← get
  if s.opened then pure true
  else if s.closed ∨ s.directViable = false then pure false
  else if cfg.staticTokenHashAlgorithm ≠ cfg.tokenHashAlgorithm ∨
      cfg.staticPythonHashSeed ≠ cfg.pythonHashSeed then do
    abandonDirect
    pure false
  else if cached then openTransaction cfg exec
  else do
    match ← negotiated cfg exec .negotiate with
    | none => pure false
    | some _ => openTransaction cfg exec

/-- `not self.direct_viable or not self.open()`, negated. -/
def admitted (cached : Bool) : SessionM Bool := do
  let s ← get
  if s.directViable then openSession cfg exec cached else pure false

/-! ## Windows -/

structure Window where
  windowId : Int
  sourceGeneration : Int
  controlPages : List ControlPage
deriving DecidableEq, Repr

/-- `RemoteFillWindowResult`. -/
structure WindowResult where
  windowId : Int
  directSatisfied : Bool
  armed : Bool
  reason : String
  submittedBytes : Int
  existingPages : Nat
deriving DecidableEq, Repr

def abandonedWindow (reason : String) (existingPages : Nat) : WindowResult :=
  { windowId := windowId, directSatisfied := false, armed := false, reason := reason,
    submittedBytes := 0, existingPages := existingPages }

def satisfiedWindow (existingPages : Nat) : WindowResult :=
  { windowId := windowId, directSatisfied := true, armed := false, reason := "",
    submittedBytes := 0, existingPages := existingPages }

/-- `_validate_page_results`. -/
def validatePageResults (pages : List ControlPage) (r : Response) : Option (List PageDisposition) :=
  if r.pageResults.length ≠ pages.length then none
  else if (pages.zip r.pageResults).all fun e =>
      e.2.canonicalKey = e.1.canonicalKey && e.2.kvGroup = e.1.kvGroup &&
        e.2.chunkIndex = e.1.chunkIndex
  then some (r.pageResults.map PageResult.disposition)
  else none

/-- Page results that do not fit: an accepted reservation stays unknown. -/
def invalidReply : SessionM Unit :=
  if r.accepted then controlUnknown else abandonDirect

/-- RESERVE_WINDOW and its page results: a result that gives up, or the reservation. -/
def reserveWindow (window : Window) (reserveMissing : Bool) (unavailable invalid : String) :
    SessionM (WindowResult ⊕ Response × List PageDisposition) := do
  let digest := cfg.manifestDigest window.controlPages
  let reserved ← exceptNonfatal (do
      let r ← execute cfg exec (.reserveWindow window.windowId window.sourceGeneration digest
        window.controlPages reserveMissing)
      pure (some r)) (do
      controlUnknown
      pure none)
  match reserved with
  | none => pure (.inl (abandonedWindow window.windowId unavailable 0))
  | some r => match validatePageResults window.controlPages r with
    | none => do
      invalidReply r
      pure (.inl (abandonedWindow window.windowId invalid 0))
    | some dispositions => do
      modify fun s => { s with windowManifests := s.windowManifests ++ [(window.windowId, digest)] }
      pure (.inr (r, dispositions))

def existingPages (dispositions : List PageDisposition) : Nat := dispositions.count .existing

/-- `probe_window`. -/
def probeWindow (cached : Bool) : SessionM WindowResult := do
  if ← admitted cfg exec cached then
    match ← reserveWindow cfg exec window false "probe control unavailable"
        "probe result invalid" with
    | .inl result => pure result
    | .inr (reserved, dispositions) =>
      if reserved.code ≠ .ok ∨ reserved.descriptors ≠ [] ∨
          dispositions.any (· ≠ .existing) then do
        abandonDirect
        pure (abandonedWindow window.windowId "cached-prefix hole" (existingPages dispositions))
      else pure (satisfiedWindow window.windowId (existingPages dispositions))
  else pure (abandonedWindow window.windowId "open rejected" 0)

/-! ## Sources -/

/-- `id` is the identity of the plan object. -/
structure SourcePlan where
  id : Nat
  pages : List SourcePage
deriving DecidableEq, Repr

/-- `source_by_identity`: a later page of one identity replaces an earlier one. -/
def sourceAt (pages : List SourcePage) (canonicalKey : String) (kvGroup : Nat) :
    Option SourcePage :=
  pages.reverse.find? fun page => page.canonicalKey = canonicalKey && page.kvGroup = kvGroup

/-- `_validate_descriptors`. -/
def validDescriptors (pages : List ControlPage) (digest : String) (windowId : Int) (r : Response) :
    Bool :=
  let identities := r.descriptors.map fun d => (d.canonicalKey, d.kvGroup)
  let allocated := (r.pageResults.filter fun p => p.disposition = .allocated).map
    fun p => (p.canonicalKey, p.kvGroup)
  identities.Nodup && r.descriptors.all (fun d =>
    match pages.reverse.find? fun p => p.canonicalKey = d.canonicalKey && p.kvGroup = d.kvGroup with
    | none => false
    | some page =>
      cfg.verifyDescriptor d && d.remoteSession = s.remoteSession &&
        d.transferId = cfg.transferId && d.requestAttempt = cfg.requestAttempt &&
        d.nativeTransferAttemptId = r.nativeTransferAttemptId &&
        d.destinationEngineEpoch = cfg.destinationEngineEpoch &&
        d.sharedCacheGeneration = cfg.sharedCacheGeneration &&
        d.destinationDpRank = cfg.destinationDpRank &&
        d.destinationTpRank = page.destinationTpRank &&
        d.destinationLength = page.expectedBytes && d.manifestDigest = digest &&
        0 < d.destinationPtr && d.windowId = windowId && d.reservationId ≠ "") &&
    identities.all (· ∈ allocated) && allocated.all (· ∈ identities)

/-- What a native call returns. -/
structure NativeResult where
  nativeTransferAttemptId : String
  returnCode : Int
  transferredBytes : Int
deriving DecidableEq, Repr

/-- What a native future can raise. -/
inductive NativeError
  | timeout
  | preSubmit
  | terminal (result : Option NativeResult)
  | raised
  | base (message : String)
deriving DecidableEq, Repr

/-- How a native future ends; `none` is an object of another type. -/
abbrev NativeOutcome := Except NativeError (Option NativeResult)

/-- The `terminal_future` of an error. -/
inductive TerminalFuture
  | absent
  | concurrent (outcome : NativeOutcome)
  | done (outcome : NativeOutcome)
  | notAwaitable
  | loopStopped
  | bridged (outcome : NativeOutcome)

/-- What the submitter, or its future, can raise. -/
inductive SubmitError
  | native (error : NativeError)
  | slow (terminalFuture : TerminalFuture) (remaining : Int)

/-- The arguments of `transfer_window` besides the window.  `preparer` and
`source_plan_factory` say whether what they returned is prepared evidence. -/
structure TransferArgs where
  sourcePlan : Option SourcePlan
  preparer : Option (SourcePlan → Except SessionError Bool)
  sourcePlanFactory : Option (List ControlPage → Except SessionError (Option SourcePlan))
  activationFactory : String → Except SubmitError Unit
  submitter : List SourcePage → List Descriptor → Except SubmitError (Option NativeResult)

/-- The eager preparation of a source plan, kept for its next window. -/
def prepareSource : SessionM Bool :=
  match args.preparer, args.sourcePlan with
  | some preparer, some plan => do
    let s ← get
    if plan.id ∈ s.preparedSources then pure true
    else exceptException (match preparer plan with
        | .error e => throw e
        | .ok false => throw (.raised "source preparer returned invalid evidence")
        | .ok true => do
          modify fun s => { s with preparedSources := s.preparedSources ++ [plan.id] }
          pure true) (do
        abandonDirect
        pure false)
  | _, _ => pure true

/-- The source plan of the window: the one passed, or that of the factory for the pages
that have a descriptor. -/
def sourcePlanFor (r : Response) : Except SessionError SourcePlan :=
  match args.sourcePlan, args.sourcePlanFactory with
  | some plan, _ => .ok plan
  | none, none => .error (.raised "assertion failed")
  | none, some factory =>
    match factory (window.controlPages.filter fun p =>
      r.descriptors.any fun d => d.canonicalKey = p.canonicalKey && d.kvGroup = p.kvGroup) with
    | .error e => .error e
    | .ok none => .error (.raised "prefix source factory returned invalid evidence")
    | .ok (some plan) => .ok plan

/-- The source pages of the descriptors of a reservation. -/
def selectSources (r : Response) : Except SessionError (List SourcePage) :=
  let digest := cfg.manifestDigest window.controlPages
  if validDescriptors cfg s window.controlPages digest window.windowId r = false then
    .error (.valueError "destination descriptor identity changed")
  else if cfg.destinationDescriptorDigest r.descriptors ≠ r.destinationDescriptorDigest then
    .error (.valueError "destination descriptor digest changed")
  else match sourcePlanFor args window r with
    | .error e => .error e
    | .ok plan => match r.descriptors.mapM fun d => sourceAt plan.pages d.canonicalKey d.kvGroup with
      | none => .error (.raised "source page is missing")
      | some selected =>
        if (selected.zip r.descriptors).any fun e => e.1.sourceLengths.sum ≠ e.2.destinationLength
        then .error (.valueError "source and destination page lengths differ")
        else .ok selected

/-- `except Exception` around the choice of the sources. -/
def selectedSources (r : Response) : SessionM (Option (List SourcePage)) := do
  let s ← get
  exceptException (match selectSources cfg s args window r with
      | .error e => throw e
      | .ok sources => pure (some sources)) (do
    abandonDirect
    pure none)

/-! ## ARM, native transfer and REPORT -/

/-- STATUS proves that exactly this attempt is armed. -/
def provesArmed : Bool :=
  r.code = .ok && match r.windows with
    | [status] => status.windowId = windowId && status.nativeTransferAttemptId = attemptId &&
        status.nativeState = .armed && !status.fatalRestartRequired && !r.fatalRestartRequired
    | _ => false

/-- `_resolve_ambiguous_arm`. -/
def resolveAmbiguousArm : SessionM Response := do
  let response ← execute cfg exec (.status windowId)
  if provesArmed windowId attemptId response then pure response
  else throw (.runtimeError "STATUS did not prove the exact armed attempt")

def armWindow (windowId : Int) (attemptId digest descriptorDigest : String) : SessionM Response :=
  exceptNonfatal (execute cfg exec (.armWindow windowId attemptId digest descriptorDigest))
    (exceptException (resolveAmbiguousArm cfg exec windowId attemptId)
      (raiseFatal ("ARM_WINDOW acknowledgement is ambiguous and STATUS " ++
        "could not prove the armed attempt")))

/-- `_wait_for_original_native_terminal`. -/
def waitForOriginalNativeTerminal (future : TerminalFuture) (remaining : Int) : NativeOutcome :=
  match future with
  | .absent => .error .timeout
  | future =>
    if remaining ≤ 0 then .error .timeout
    else match future with
      | .absent => .error .timeout
      | .concurrent outcome => outcome
      | .done outcome => outcome
      | .notAwaitable => .error .raised
      | .loopStopped => .error .raised
      | .bridged outcome => outcome

/-- How the `try` around the native call ends: a result, a native error, the latch, or an
exception that no handler takes. -/
inductive Settled
  | returned (result : Option NativeResult)
  | failed (result : Option NativeResult)
  | fatal (message : String)
  | escapes (message : String)
deriving DecidableEq, Repr

def settleError (unknown : String) : NativeError → Settled
  | .timeout => .fatal "armed native transfer exceeded its hard terminal bound"
  | .preSubmit => .failed none
  | .terminal result => .failed result
  | .raised => .fatal unknown
  | .base message => .escapes message

def settleNative : Except SubmitError (Option NativeResult) → Settled
  | .ok result => .returned result
  | .error (.native error) =>
    settleError "armed native transfer failed without terminal evidence" error
  | .error (.slow future remaining) =>
    match waitForOriginalNativeTerminal future remaining with
    | .ok result => .returned result
    | .error error =>
      settleError "original native transfer returned an unknown terminal state" error

/-- Return code and completed bytes of a native call that has ended. -/
def endNative (expectedBytes : Int) : Settled → SessionM (Int × Int)
  | .returned none => raiseFatal "armed native transfer returned an invalid terminal result"
  | .returned (some r) =>
    if r.nativeTransferAttemptId ≠ attemptId ∨ r.transferredBytes ≠ expectedBytes then pure (-1, 0)
    else pure (r.returnCode, r.transferredBytes)
  | .failed none => pure (-1, 0)
  | .failed (some r) => pure (r.returnCode, r.transferredBytes)
  | .fatal message => raiseFatal message
  | .escapes message => throw (.base message)

/-- The native call; the submitter is not reached if the activation factory raises. -/
def submitNative (sources : List SourcePage) (descriptors : List Descriptor) (attemptId : String)
    (expectedBytes : Int) : SessionM (Int × Int) :=
  match args.activationFactory attemptId with
  | .error e => endNative attemptId expectedBytes (settleNative (.error e))
  | .ok () => do
    modify fun s => { s with
      trace := s.trace ++ [.submitted window.windowId attemptId sources descriptors
        s.fatalRestartRequired] }
    endNative attemptId expectedBytes (settleNative (args.submitter sources descriptors))

/-- STATUS answers for the reported attempt: `none` if it does not prove a result. -/
def provesReport (success : Bool) (r : Response) : Option Bool :=
  if r.code ≠ .ok then none
  else match r.windows with
    | [status] =>
      if status.windowId ≠ windowId ∨ status.nativeTransferAttemptId ≠ attemptId ∨
          status.fatalRestartRequired ∨ r.fatalRestartRequired then none
      else if success ∧ status.nativeState = .terminalSuccess then some true
      else if success = false ∧ status.nativeState = .terminalFailure then some false
      else none
    | _ => none

/-- `_resolve_ambiguous_report`. -/
def resolveAmbiguousReport (success : Bool) : SessionM Bool := do
  let response ← execute cfg exec (.status windowId)
  match provesReport windowId attemptId success response with
  | some succeeded => pure succeeded
  | none => throw (.runtimeError "STATUS does not match the reported terminal result")

/-- REPORT_TRANSFER_COMPLETE; every exception of it is resolved through STATUS. -/
def reportTransfer (digest : String) (returnCode completedBytes expectedBytes : Int) :
    SessionM Bool :=
  exceptException (do
    let reported ← execute cfg exec (.reportTransferComplete windowId attemptId returnCode
      completedBytes digest)
    pure (reported.code = .ok))
    (exceptException
      (resolveAmbiguousReport cfg exec windowId attemptId
        (returnCode = 0 && completedBytes = expectedBytes))
      (raiseFatal ("terminal native report is ambiguous and STATUS could not " ++
        "prove the reported result")))

/-- From the validated reservation on. -/
def transferReserved (reserved : Response) (sources : List SourcePage) (existing : Nat) :
    SessionM WindowResult := do
  let digest := cfg.manifestDigest window.controlPages
  let attemptId := reserved.nativeTransferAttemptId
  let armed ← armWindow cfg exec window.windowId attemptId digest
    (cfg.destinationDescriptorDigest reserved.descriptors)
  if armed.code ≠ .ok then do
    abandonDirect
    pure (abandonedWindow window.windowId "arm rejected" existing)
  else do
    let expectedBytes := (reserved.descriptors.map Descriptor.destinationLength).sum
    let (returnCode, completedBytes) ← submitNative args window sources reserved.descriptors
      attemptId expectedBytes
    let reportSucceeded ← reportTransfer cfg exec window.windowId attemptId digest returnCode
      completedBytes expectedBytes
    if returnCode = 0 ∧ reportSucceeded then
      pure { windowId := window.windowId, directSatisfied := true, armed := true, reason := "",
             submittedBytes := expectedBytes, existingPages := existing }
    else do
      abandonDirect
      pure { windowId := window.windowId, directSatisfied := false, armed := true,
             reason := "native transfer failed", submittedBytes := expectedBytes,
             existingPages := existing }

/-- The window lacks a source page. -/
def sourceHole : Bool :=
  (args.sourcePlan.isSome || args.sourcePlanFactory.isNone) &&
    window.controlPages.any fun page =>
      (sourceAt (args.sourcePlan.elim [] SourcePlan.pages) page.canonicalKey page.kvGroup).isNone

/-- After the reservation: nothing to transfer, a hole, or a transfer. -/
def fillReserved (reserved : Response) (dispositions : List PageDisposition) :
    SessionM WindowResult := do
  let existing := existingPages dispositions
  if reserved.code ≠ .ok then do
    abandonDirect
    pure (abandonedWindow window.windowId "reservation rejected" 0)
  else if .missing ∈ dispositions then do
    abandonDirect
    pure (abandonedWindow window.windowId "direct destination hole" existing)
  else if reserved.descriptors = [] then pure (satisfiedWindow window.windowId existing)
  else do
    match ← selectedSources cfg args window reserved with
    | none => pure (abandonedWindow window.windowId "descriptor validation failed" existing)
    | some sources => transferReserved cfg exec args window reserved sources existing

/-- `transfer_window`. -/
def transferWindow (cached : Bool) : SessionM WindowResult := do
  if ← admitted cfg exec cached then
    if sourceHole args window then do
      abandonDirect
      pure (abandonedWindow window.windowId "source coverage mismatch" 0)
    else if ← prepareSource args then
      match ← reserveWindow cfg exec window true "reserve control unavailable"
          "reservation result invalid" with
      | .inl result => pure result
      | .inr (reserved, dispositions) => fillReserved cfg exec args window reserved dispositions
    else pure (abandonedWindow window.windowId "source preparation failed" 0)
  else pure (abandonedWindow window.windowId "open rejected" 0)

/-! ## Window calls -/

/-- A call of the session's owner, with the decoder's behaviour during it. -/
inductive WindowCall
  | probe (exec : Exec) (window : Window) (cached : Bool)
  | transfer (exec : Exec) (args : TransferArgs) (window : Window) (cached : Bool)
  /-- `session.direct_viable = False` of the coordinator. -/
  | giveUp

/-- The call has ended; its owner takes the exception. -/
def callEnded : Except SessionError WindowResult × Session → Session
  | (.ok result, s) =>
    { s with trace := s.trace ++ [.returned result.directSatisfied s.fatalRestartRequired] }
  | (.error _, s) => s

def windowCall : WindowCall → Session
  | .probe exec window cached => callEnded (probeWindow cfg exec window cached s)
  | .transfer exec args window cached => callEnded (transferWindow cfg exec args window cached s)
  | .giveUp => { s with directViable := false }

/-- Any calls, one after the other, of one session. -/
def windowMachine : Machine Session WindowCall where
  start s := s = Session.new
  step s call := some (windowCall cfg s call)

/-! ## One window of one page, and a decoder that accepts it -/

def soleConfig : SessionConfig :=
  { transferId := "transfer", requestAttempt := 0, destinationEngineEpoch := 1,
    sharedCacheGeneration := 1, destinationDpRank := 0, tokenHashAlgorithm := "sha256",
    pythonHashSeed := "0", staticTokenHashAlgorithm := "sha256", staticPythonHashSeed := "0",
    requiredStoreEndHint := 256, plannedWindowCountHint := 1, manifestDigestSeed := "seed",
    manifestDigest := fun _ => "manifest", destinationDescriptorDigest := fun _ => "descriptors",
    transactionManifestDigest := fun _ _ _ _ => "transaction", verifyDescriptor := fun _ => true }

def soleWindow : Window :=
  { windowId := 0, sourceGeneration := 0, controlPages :=
      [{ canonicalKey := "page", kvGroup := 0, chunkIndex := 0, chunkStart := 0, chunkEnd := 256,
         validTokens := 256, expectedBytes := 4096, destinationTpRank := 0, layerCount := 1,
         layoutTag := "layout" }] }

def soleDescriptor : Descriptor :=
  { canonicalKey := "page", kvGroup := 0, remoteSession := "decoder", transferId := "transfer",
    requestAttempt := 0, nativeTransferAttemptId := "attempt", destinationEngineEpoch := 1,
    sharedCacheGeneration := 1, destinationDpRank := 0, destinationTpRank := 0,
    destinationPtr := 4096, destinationLength := 4096, manifestDigest := "manifest", windowId := 0,
    reservationId := "reservation" }

/-- The answer to any request of the window. -/
def soleResponse : Response :=
  { operation := m.request.kind, operationId := m.operationId, destinationEngineEpoch := 1,
    sharedCacheGeneration := 1, code := .ok, fatalRestartRequired := false,
    terminalOutcome := none, transactionState := none, remoteSession := "decoder",
    dLocalEndOpen := 0, pageResults := [⟨"page", 0, 0, .allocated⟩],
    descriptors := [soleDescriptor], destinationDescriptorDigest := "descriptors",
    nativeTransferAttemptId := "attempt", windows := [] }

def soleTransfer (outcome : Except SubmitError (Option NativeResult)) : TransferArgs :=
  { sourcePlan := some ⟨0, [⟨"page", 0, [4096]⟩]⟩, preparer := none, sourcePlanFactory := none,
    activationFactory := fun _ => .ok (), submitter := fun _ _ => outcome }

/-- A transfer of `soleWindow` that succeeds. -/
def satisfiedCall : WindowCall :=
  .transfer (fun _ m => .response (soleResponse m))
    (soleTransfer (.ok (some ⟨"attempt", 0, 4096⟩))) soleWindow true

end RemoteFill
