import Mathlib.Data.List.Nodup
import LMCacheAscend.Lib.Traverse
import LMCacheAscend.Storage.P2PGet

/-!
# What becomes of the objects of a P2P get

The objects are returned or released once, the answer's chunks come back in the order of the
keys, and Done comes after the read (`Served`), unless an exception leaves the function while it
has objects (`Leaks`), or the answer counts more chunks than were asked for (`Overlong`).
-/

namespace P2PGet

open Lib List

/-! ## The lookup -/

namespace LookupAttempt

/-- The exchange or the reconnection in the `try` raised a `ZMQError`. -/
def Broken (a : LookupAttempt) : Prop :=
  a.exchange = .error .zmqError ∨
    (a.exchange = .ok .notInitialized ∧ a.reconnect = .error .zmqError)

/-- The loop goes on. -/
def Retries (a : LookupAttempt) : Prop :=
  a.enter = .ok () ∧ ((a.exchange = .ok .notInitialized ∧ a.reconnect = .ok ()) ∨
    (a.Broken ∧ a.recover = .ok ()))

/-- The function raises. -/
def Raises (a : LookupAttempt) : Prop :=
  (∃ e, a.enter = .error e) ∨ (a.enter = .ok () ∧ (a.exchange = .error .cancelled ∨
    (a.exchange = .ok .notInitialized ∧ a.reconnect = .error .cancelled) ∨
    (a.Broken ∧ ∃ e, a.recover = .error e)))

/-- The function returns the answer. -/
def Answers (r : Reply) (a : LookupAttempt) : Prop :=
  a.enter = .ok () ∧ a.exchange = .ok r ∧ r ≠ .notInitialized

/-- The function returns nothing. -/
def GivesUp (a : LookupAttempt) : Prop :=
  a.enter = .ok () ∧ (a.exchange = .error .exception ∨
    (a.exchange = .ok .notInitialized ∧ a.reconnect = .error .exception))

variable {a : LookupAttempt}

end LookupAttempt

namespace GetEnv

variable (env : GetEnv)

/-- `_send_lookup_request_with_retry` comes to an end with `Q`. -/
def LookupEnds (Q : LookupAttempt → Prop) (k n : Nat) : Prop :=
  EndsIn (fun j => (env.lookup j).Retries) (fun j => Q (env.lookup j)) k n

def LookupRaises : Prop := env.LookupEnds LookupAttempt.Raises 0 env.maxRetryCount

def Answered (r : Reply) : Prop := env.LookupEnds (LookupAttempt.Answers r) 0 env.maxRetryCount

end GetEnv

variable {k n : Nat}

namespace DoneAttempt

def Retries (a : DoneAttempt) : Prop :=
  (∃ e, a.ensure = .error e ∧ e ≠ .cancelled) ∨
    (a.ensure = .ok () ∧ a.enter = .ok () ∧ a.exchange = .error .zmqError ∧ a.forced = .ok ())

def Raises (a : DoneAttempt) : Prop :=
  a.ensure = .error .cancelled ∨ (a.ensure = .ok () ∧ ((∃ e, a.enter = .error e) ∨
    (a.enter = .ok () ∧ (a.exchange = .error .cancelled ∨
      (a.exchange = .error .zmqError ∧ ∃ e, a.forced = .error e)))))

end DoneAttempt

/-- `_send_done_signal` raises, from attempt `k` on. -/
def GetEnv.DoneEnds (env : GetEnv) (k n : Nat) : Prop :=
  EndsIn (fun j => (env.done j).Retries) (fun j => (env.done j).Raises) k n

def GetEnv.DoneRaises (env : GetEnv) : Prop := env.DoneEnds 0 env.maxRetryCount

/-- Nothing but Done is sent. -/
structure OnlyDone (s s' : GetState) : Prop where
  allocated : s'.allocated = s.allocated
  released : s'.released = s.released
  log : ∃ m, s'.log = s.log ++ replicate m .doneSent

theorem OnlyDone.refl (s : GetState) : OnlyDone s s := ⟨rfl, rfl, 0, (append_nil _).symm⟩

theorem OnlyDone.trans {s s1 s2 : GetState} (h : OnlyDone s s1) (h' : OnlyDone s1 s2) :
    OnlyDone s s2 := by
  obtain ⟨m, hm⟩ := h.log
  obtain ⟨m', hm'⟩ := h'.log
  refine ⟨h'.allocated.trans h.allocated, h'.released.trans h.released, m + m', ?_⟩
  rw [hm', hm, append_assoc, replicate_append_replicate]

theorem OnlyDone.sent (s : GetState) : OnlyDone s { s with log := s.log ++ [.doneSent] } :=
  ⟨rfl, rfl, 1, rfl⟩

/-- Each Done has the end of the read before it, and no read after it. -/
def DoneAfterRead (log : List Event) : Prop :=
  ∀ p q, log = p ++ .doneSent :: q → .readEnded ∈ p ∧ .readStarted ∉ q

/-- All keys have an object, or one of them has none, with the objects so far released, or asking
for it raised. -/
def Allocated (env : GetEnv) (n : Nat) (r : Except Exc (List Nat)) (s : GetState) : Prop :=
  (r = .ok (range n) ∧ s.allocated = range n ∧ s.released = [] ∧
    ∀ j < n, env.allocate j = .ok true) ∨
  ∃ m < n, (∀ j < m, env.allocate j = .ok true) ∧ s.allocated = range m ∧
    ((env.allocate m = .ok false ∧ r = .ok [] ∧ s.released = range m) ∨
      ∃ e, env.allocate m = .error e ∧ r = .error e ∧ s.released = [])

/-- What a call returned; nothing if it raised. -/
def returned : Except Exc (List Object) → List Object
  | .ok objects => objects
  | .error _ => []

structure Served (env : GetEnv) (r : Except Exc (List Object)) (s : GetState) : Prop where
  settled : ∀ i ∈ s.allocated,
    (.buffer i ∈ returned r ∧ times s.released i = 0) ∨
      (.buffer i ∉ returned r ∧ times s.released i = 1)
  own : ∀ i, .buffer i ∈ returned r → i ∈ s.allocated
  inOrder : (returned r).map Object.idx = range (returned r).length
  asked : (returned r).length ≤ env.numKeys
  refs : ∀ i u m, .proxy i u m ∈ returned r → ∃ n uuids indexes,
    env.Answered (.found n uuids indexes) ∧ uuids[i]? = some u ∧ indexes[i]? = some m
  done : DoneAfterRead s.log

namespace GetEnv

variable (env : GetEnv)

def Fits : Prop := 0 < env.numKeys ∧ ∀ j < env.numKeys, env.allocate j = .ok true

/-- A call raises while the objects are in hand. -/
def Escapes : Prop :=
  (∃ e, env.localBufferRefs = .error e) ∨ env.LookupRaises ∨ env.Answered .other ∨
    ∃ n uuids indexes, env.Answered (.found n uuids indexes) ∧ 0 < n ∧ env.pullMode = true ∧
      uuids ≠ [] ∧ (env.read = .error .cancelled ∨ env.DoneRaises)

end GetEnv

section

variable {env : GetEnv} {s : GetState}

variable {reply : Option Reply}

end

end P2PGet
