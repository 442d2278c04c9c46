import Mathlib.Tactic.Common

/-!
# Remote-fill control messages

The requests and responses of the remote-fill protocol with the fields that the
producer session and the decoder's page lifecycle read.  A `uuid4` operation id
is the number of the operation.
-/

namespace RemoteFill

structure ControlPage where
  canonicalKey : String
  kvGroup : Nat
  chunkIndex : Int
  chunkStart : Int
  chunkEnd : Int
  validTokens : Int
  expectedBytes : Int
  destinationTpRank : Int
  layerCount : Int
  layoutTag : String
deriving DecidableEq, Repr

inductive PageDisposition
  | existing
  | missing
  | allocated
deriving DecidableEq, Repr

inductive ResultCode
  | ok
  | accepted
  | alreadyExists
  | terminal
  | reservationRejected
  | windowConflict
  | rejected
deriving DecidableEq, Repr

inductive TerminalOutcome
  | localFull
  | persistentOnly
  | persistenceFailed
  | cancelled
  | fatalRestart
deriving DecidableEq, Repr

def TerminalOutcome.value : TerminalOutcome → String
  | .localFull => "LOCAL_FULL"
  | .persistentOnly => "PERSISTENT_ONLY"
  | .persistenceFailed => "PERSISTENCE_FAILED"
  | .cancelled => "CANCELLED"
  | .fatalRestart => "FATAL_RESTART"

inductive NativeState
  | notArmed
  | armed
  | terminalSuccess
  | terminalFailure
  | fatalUnknown
deriving DecidableEq, Repr

inductive OperationKind
  | negotiate
  | open_
  | reserveWindow
  | armWindow
  | reportTransferComplete
  | finish
  | abort
  | status
deriving DecidableEq, Repr

structure FinishRequest where
  requiredStoreEnd : Int
  persistentCommonEnd : Int
  finalManifestDigest : String
  finalPartialValidTokens : Int
deriving DecidableEq, Repr

inductive Request
  | negotiate
  | open_ (requiredStoreEndHint plannedWindowCountHint : Nat) (manifestDigestSeed : String)
  | reserveWindow (windowId sourceGeneration : Int) (manifestDigest : String)
      (controlPages : List ControlPage) (reserveMissing : Bool)
  | armWindow (windowId : Int) (nativeTransferAttemptId manifestDigest : String)
      (destinationDescriptorDigest : String)
  | reportTransferComplete (windowId : Int) (nativeTransferAttemptId : String)
      (nativeReturnCode completedBytes : Int) (manifestDigest : String)
  | finish (request : FinishRequest)
  | abort (reason : String)
  | status (windowId : Int)
deriving DecidableEq, Repr

def Request.kind : Request → OperationKind
  | .negotiate => .negotiate
  | .open_ .. => .open_
  | .reserveWindow .. => .reserveWindow
  | .armWindow .. => .armWindow
  | .reportTransferComplete .. => .reportTransferComplete
  | .finish _ => .finish
  | .abort _ => .abort
  | .status _ => .status

/-- A request with its operation id. -/
structure Message where
  operationId : Nat
  request : Request
deriving DecidableEq, Repr

structure PageResult where
  canonicalKey : String
  kvGroup : Nat
  chunkIndex : Int
  disposition : PageDisposition
deriving DecidableEq, Repr

structure Descriptor where
  canonicalKey : String
  kvGroup : Nat
  remoteSession : String
  transferId : String
  requestAttempt : Int
  nativeTransferAttemptId : String
  destinationEngineEpoch : Int
  sharedCacheGeneration : Int
  destinationDpRank : Int
  destinationTpRank : Int
  destinationPtr : Int
  destinationLength : Int
  manifestDigest : String
  windowId : Int
  reservationId : String
deriving DecidableEq, Repr

structure WindowStatus where
  windowId : Int
  nativeTransferAttemptId : String
  nativeState : NativeState
  fatalRestartRequired : Bool
deriving DecidableEq, Repr

structure Response where
  operation : OperationKind
  operationId : Nat
  destinationEngineEpoch : Int
  sharedCacheGeneration : Int
  code : ResultCode
  fatalRestartRequired : Bool
  terminalOutcome : Option TerminalOutcome
  transactionState : Option String
  remoteSession : String
  dLocalEndOpen : Int
  pageResults : List PageResult
  descriptors : List Descriptor
  destinationDescriptorDigest : String
  nativeTransferAttemptId : String
  windows : List WindowStatus
deriving DecidableEq, Repr

/-- How `client.execute` ends. -/
inductive Reply
  | response (r : Response)
  | replyLost
  | raised (message : String)
deriving DecidableEq, Repr

/-- `_accepted`. -/
def Response.accepted (r : Response) : Bool :=
  r.code = .ok || r.code = .accepted || r.code = .alreadyExists

/-- The decoder reports an armed transaction with an unknown end. -/
def Response.fatal (r : Response) : Bool :=
  r.fatalRestartRequired || r.terminalOutcome = some .fatalRestart

end RemoteFill
