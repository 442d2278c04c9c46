import LMCacheAscend.RemoteFill.Producer

/-!
# How a session ends

`finish`, `abort` and `close` of the session, and the coordinator's `finish` and
`release`, which call them once the windows of the request have drained.
`terminal` of a release is the request state's own copy of the result: it is set
only by a finish that returned.
-/

namespace RemoteFill

open Lib

variable (cfg : SessionConfig) (exec : Exec)

/-! ## FINISH -/

/-- `_classify_terminal`. -/
def classifyTerminal (r : Response) : Except SessionError (TerminalOutcome × Bool) :=
  match r.terminalOutcome with
  | none => .error (.runtimeError "remote-fill response has no terminal outcome")
  | some outcome =>
    let expected : Option TerminalOutcome :=
      if r.transactionState = some "GROUP0_LOCAL" then some .persistentOnly
      else if r.transactionState = some "LOCAL_FULL" then some .localFull
      else none
    match expected with
    | some expected =>
      if outcome ≠ expected then
        .error (.runtimeError (r.transactionState.getD "" ++ " has contradictory outcome " ++
          outcome.value))
      else .ok (outcome, true)
    | none =>
      if outcome = .localFull then
        if r.transactionState ≠ none then
          .error (.runtimeError "LOCAL_FULL outcome has a contradictory transaction state")
        else .ok (outcome, true)
      else .ok (outcome, false)

def classified (r : Response) : SessionM (TerminalOutcome × Bool) :=
  match classifyTerminal r with
  | .ok result => pure result
  | .error e => throw e

/-- The answer of a request, or `none` for an exception that is not the latch. -/
def tryExecute (request : Request) : SessionM (Option Response) :=
  exceptNonfatal (do
    let r ← execute cfg exec request
    pure (some r)) (pure none)

/-- STATUS does not know an end: the hidden transaction is aborted. -/
def abortUnconfirmed : SessionM (TerminalOutcome × Bool) := do
  let _ ← tryExecute cfg exec (.abort "FINISH terminal state could not be confirmed")
  abandonDirect
  pure (.persistentOnly, false)

/-- `_resolve_ambiguous_finish`. -/
def resolveAmbiguousFinish : SessionM (TerminalOutcome × Bool) := do
  match ← tryExecute cfg exec (.status (-1)) with
  | none => do
    abandonDirect
    pure (.persistentOnly, false)
  | some r =>
    if r.fatal then raiseFatal "decoder reported fatal state while resolving FINISH"
    else if r.windows.any fun w => w.nativeState = .armed || w.nativeState = .fatalUnknown then
      raiseFatal "decoder still owns an ambiguous native attempt after FINISH"
    else if r.terminalOutcome = some .localFull ∨ r.terminalOutcome = some .persistentOnly ∨
        r.terminalOutcome = some .persistenceFailed ∨ r.terminalOutcome = some .cancelled then
      classified r
    else abortUnconfirmed cfg exec

structure FinishArgs where
  requiredStoreEnd : Int
  persistentCommonEnd : Int
  finalPartialValidTokens : Int

def finishRequest (s : Session) (args : FinishArgs) : FinishRequest :=
  { requiredStoreEnd := args.requiredStoreEnd
    persistentCommonEnd := args.persistentCommonEnd
    finalManifestDigest := cfg.transactionManifestDigest cfg.manifestDigestSeed s.windowManifests
      args.requiredStoreEnd args.finalPartialValidTokens
    finalPartialValidTokens := args.finalPartialValidTokens }

variable (args : FinishArgs)

/-- FINISH, and what its answer says of the transaction. -/
def finishTransaction : SessionM (TerminalOutcome × Bool) := do
  let s ← get
  match ← tryExecute cfg exec (.finish (finishRequest cfg s args)) with
  | none => resolveAmbiguousFinish cfg exec
  | some r =>
    if r.fatalRestartRequired then pure (.fatalRestart, false)
    else if r.terminalOutcome = none then
      throw (.runtimeError "remote-fill FINISH returned no terminal outcome")
    else classified r

/-- ABORT of a transaction whose control state is not known; whatever it raises is dropped. -/
def abortUnknown : SessionM Unit :=
  exceptException (do
    let _ ← execute cfg exec (.abort "prefiller pre-arm control state is unknown")
    pure ()) (pure ())

/-- The outcome of `finish`, and whether the direct path counts as satisfied. -/
def finishOutcome : SessionM (TerminalOutcome × Bool) := do
  let s ← get
  if s.fatalRestartRequired then pure (.fatalRestart, false)
  else if args.persistentCommonEnd < args.requiredStoreEnd then pure (.persistenceFailed, false)
  else if s.opened = false ∨ s.prearmControlUnknown then
    if s.prearmControlUnknown then do
      abortUnknown cfg exec
      pure (.persistentOnly, false)
    else pure (.persistentOnly, false)
  else finishTransaction cfg exec args

/-- `finish`. -/
def finish : SessionM TerminalResult := do
  let s ← get
  match s.terminal with
  | some terminal => pure terminal
  | none => do
    let (outcome, directSatisfied) ← finishOutcome cfg exec args
    let terminal : TerminalResult :=
      { transferId := cfg.transferId, outcome := outcome,
        persistentCommonEnd := args.persistentCommonEnd,
        requiredStoreEnd := args.requiredStoreEnd, directSatisfied := directSatisfied }
    modify fun s => { s with terminal := some terminal, closed := true }
    pure terminal

/-! ## ABORT and close -/

/-- ABORT of an opened transaction. -/
def abortOpened (reason : String) : SessionM Unit := do
  let r ← execute cfg exec (.abort reason)
  if r.code = .ok ∨ r.code = .accepted ∨ r.code = .terminal then
    modify fun s => { s with directViable := false, closed := true }
  else throw (.runtimeError "remote-fill ABORT was rejected")

/-- `abort`. -/
def abort (reason : String) : SessionM Unit := do
  let s ← get
  if s.terminal.isSome ∨ s.closed then pure ()
  else if s.fatalRestartRequired then
    throw (.fatal "an ambiguous armed transaction cannot be aborted safely")
  else if s.opened then abortOpened cfg exec reason
  else modify fun s => { s with directViable := false, closed := true }

def TerminalResult.fatal (terminal : Option TerminalResult) : Bool :=
  terminal.any fun t => t.outcome = .fatalRestart

/-- `close`. -/
def close : SessionM Unit := do
  let s ← get
  if s.fatalRestartRequired ∨ TerminalResult.fatal s.terminal then
    throw (.fatal "cannot close an ambiguous armed remote-fill transaction")
  else modify fun s => { s with
    trace := s.trace ++ [.clientClosed s.fatalRestartRequired]
    preparedSources := []
    closed := true }

/-! ## The coordinator -/

/-- `RemoteFillCoordinator.release`; `drained` says that nothing of the request is pending. -/
def release (terminal : Option TerminalResult) (drained : Bool) : SessionM Bool := do
  let s ← get
  if TerminalResult.fatal terminal ∨ s.fatalRestartRequired then
    throw (.fatal "cannot release fatal remote-fill request state")
  else if drained = false then pure false
  else if terminal.isNone then do
    exceptNonfatal (abort cfg exec "prefiller released request before FINISH") (pure ())
    close
    pure true
  else do
    close
    pure true

/-- `RemoteFillCoordinator.finish`, as far as it sets the request state's `terminal`: an
exception leaves it unset. -/
def finishRequestState : SessionM (Option TerminalResult) :=
  tryCatch (do
    let terminal ← finish cfg exec args
    pure (some terminal)) fun _ => pure none

/-- The two ways a drained request ends. -/
inductive Ending
  | finished (exec : Exec) (args : FinishArgs)
  | released (exec : Exec)

def endRequest : Ending → SessionM Bool
  | .finished exec args => do
    let terminal ← finishRequestState cfg exec args
    release cfg exec terminal true
  | .released exec => release cfg exec none true

end RemoteFill
