import LMCacheAscend.Lib.Machine
import LMCacheAscend.Lib.Traverse
import Mathlib.Data.List.Nodup
import Mathlib.Data.List.Count

/-!
# The buffers of the Mooncake connector

`_batch_get_into` allocates a buffer for each key, has the store read into those that have a
tensor, and returns them at the indexes of their keys or releases them.  What the backend, the
store and `reshape_partial_chunk` answer is in its `Outcome`.  Buffers are named by the index of
their key.

`_put_without_metadata` waits for a worker thread that reads the buffer.  It may give up, and the
thread that runs then goes on.
-/

namespace MooncakeBuffers

open Lib List

/-! ## Gets -/

/-- An object of the local backend: without tensor, or with its address and size. -/
inductive Buffer where
  | bare
  | tensor (dataPtr numel elementSize : Nat)
deriving DecidableEq, Repr

structure Request where
  keyStr : String
  bufferPtr : Nat
  bufferSize : Nat
deriving DecidableEq, Repr

structure Outcome where
  /-- The shape, the data type and the format are known. -/
  metadata : Bool
  allocate : Nat → Option Buffer
  store : List Request → Except String (List Int)
  reshapePartialChunk : Nat → Int → Except String Unit

/-- What the allocations leave, up to one that gives `None`: `valid_idx`, with the requests. -/
def reserve (c : Outcome) : Nat → List String → Except String (List (Nat × Request))
  | _, [] => .ok []
  | i, key :: keys =>
    match c.allocate i with
    | none => .error "AttributeError:'NoneType' object has no attribute 'tensor'"
    | some .bare => reserve c (i + 1) keys
    | some (.tensor dataPtr numel elementSize) =>
      (reserve c (i + 1) keys).map ((i, ⟨key, dataPtr, numel * elementSize⟩) :: ·)

/-- The results by key, and the releases in their order. -/
structure Assembly where
  results : List (Option Nat)
  released : List Nat
deriving DecidableEq, Repr

def Assembly.release (s : Assembly) (i : Nat) : Assembly := { s with released := s.released ++ [i] }

def Assembly.keep (s : Assembly) (i : Nat) : Assembly :=
  { s with results := s.results.set i (some i) }

/-- One buffer, with what was read into it. -/
def Assembly.step (c : Outcome) (s : Assembly) (read : Nat × Int) : Assembly :=
  if read.2 ≤ 0 then s.release read.1
  else match c.reshapePartialChunk read.1 read.2 with
    | .ok () => s.keep read.1
    | .error _ => s.release read.1

/-- `_batch_get_into`, with the releases. -/
def batchGetInto (c : Outcome) (keys : List String) :
    Except String (List (Option Nat)) × List Nat :=
  let nothing := replicate keys.length none
  if !c.metadata then (.ok nothing, [])
  else match reserve c 0 keys with
    | .error e => (.error e, [])
    | .ok [] => (.ok nothing, [])
    | .ok valid =>
      match c.store (valid.map Prod.snd) with
      | .error _ => (.ok nothing, valid.map Prod.fst)
      | .ok bytesRead =>
        let s := ((valid.map Prod.fst).zip bytesRead).foldl (Assembly.step c) ⟨nothing, []⟩
        (.ok s.results, s.released)

/-- The buffer of the key was allocated. -/
def Allocated (c : Outcome) (keys : List String) (i : Nat) : Prop :=
  c.metadata = true ∧ i < keys.length ∧ c.allocate i ≠ none

/-- Each buffer is returned at its key or released once, and each key has an entry. -/
def Owned (c : Outcome) (keys : List String) : Prop :=
  ∃ results released, batchGetInto c keys = (.ok results, released) ∧
    results.length = keys.length ∧
    (∀ i j : Nat, results[i]? = some (some j) → j = i) ∧
    ∀ i, Allocated c keys i →
      (results[i]? = some (some i) ∧ released.count i = 0) ∨
      (results[i]? = some none ∧ released.count i = 1)

/-- The requests for buffers that all have tensors. -/
def requests (c : Outcome) : Nat → List String → List Request
  | _, [] => []
  | i, key :: keys =>
    match c.allocate i with
    | some (.tensor dataPtr numel elementSize) =>
      ⟨key, dataPtr, numel * elementSize⟩ :: requests c (i + 1) keys
    | _ => requests c (i + 1) keys

/-- Each key has a buffer with a tensor, and the store returns a count for each. -/
def Served (c : Outcome) (keys : List String) : Prop :=
  c.metadata = true →
    (∀ i < keys.length, ∃ dataPtr numel elementSize,
      c.allocate i = some (.tensor dataPtr numel elementSize)) ∧
    ∀ bytesRead, c.store (requests c 0 keys) = .ok bytesRead → keys.length ≤ bytesRead.length

/-! ## Assembly -/

variable (c : Outcome) (s : Assembly) {i : Nat} {keys : List String}

theorem length_foldl_step (reads : List (Nat × Int)) (s : Assembly) :
    (reads.foldl (Assembly.step c) s).results.length = s.results.length := by
  induction reads generalizing s with
  | nil => rfl
  | cons read reads ih =>
    rw [foldl_cons, ih]
    unfold Assembly.step
    split
    · rfl
    split
    · exact length_set
    · rfl

theorem step_other {read : Nat × Int} (h : read.1 ≠ i) :
    (s.step c read).results[i]? = s.results[i]? ∧
      (s.step c read).released.count i = s.released.count i := by
  have hrelease : (s.release read.1).released.count i = s.released.count i := by
    rw [Assembly.release, count_append, count_singleton, beq_false_of_ne h]
    rfl
  unfold Assembly.step
  split
  · exact ⟨rfl, hrelease⟩
  split
  · exact ⟨getElem?_set_ne h, rfl⟩
  · exact ⟨rfl, hrelease⟩

theorem step_self (read : Nat × Int) (hnone : s.results[read.1]? = some none)
    (hcount : s.released.count read.1 = 0) :
    ((s.step c read).results[read.1]? = some (some read.1) ∧
      (s.step c read).released.count read.1 = 0) ∨
    ((s.step c read).results[read.1]? = some none ∧
      (s.step c read).released.count read.1 = 1) := by
  have hrelease : (s.release read.1).released.count read.1 = 1 := by
    rw [Assembly.release, count_append, count_singleton_self, hcount]
  unfold Assembly.step
  split
  · exact .inr ⟨hnone, hrelease⟩
  split
  · refine .inl ⟨?_, hcount⟩
    exact getElem?_set_self (lt_of_getElem? hnone)
  · exact .inr ⟨hnone, hrelease⟩

theorem foldl_other {reads : List (Nat × Int)} (h : i ∉ reads.map Prod.fst) :
    (reads.foldl (Assembly.step c) s).results[i]? = s.results[i]? ∧
      (reads.foldl (Assembly.step c) s).released.count i = s.released.count i := by
  induction reads generalizing s with
  | nil => exact ⟨rfl, rfl⟩
  | cons read reads ih =>
    rw [map_cons, mem_cons, not_or] at h
    obtain ⟨hresult, hcount⟩ := ih (s.step c read) h.2
    obtain ⟨hresult', hcount'⟩ := step_other c s (Ne.symm h.1)
    exact ⟨hresult.trans hresult', hcount.trans hcount'⟩

theorem foldl_mem {reads : List (Nat × Int)} (hnodup : (reads.map Prod.fst).Nodup) (s : Assembly)
    (hi : i ∈ reads.map Prod.fst) (hnone : s.results[i]? = some none)
    (hcount : s.released.count i = 0) :
    ((reads.foldl (Assembly.step c) s).results[i]? = some (some i) ∧
      (reads.foldl (Assembly.step c) s).released.count i = 0) ∨
    ((reads.foldl (Assembly.step c) s).results[i]? = some none ∧
      (reads.foldl (Assembly.step c) s).released.count i = 1) := by
  induction reads generalizing s with
  | nil => cases hi
  | cons read reads ih =>
    rw [map_cons, nodup_cons] at hnodup
    rw [map_cons, mem_cons] at hi
    rw [foldl_cons]
    by_cases hread : i = read.1
    · subst hread
      obtain ⟨hresult, hcount'⟩ := foldl_other c (s.step c read) hnodup.1
      rw [hresult, hcount']
      exact step_self c s read hnone hcount
    · obtain ⟨hresult, hcount'⟩ := step_other c s (Ne.symm hread)
      exact ih hnodup.2 _ (hi.resolve_left hread) (hresult.trans hnone) (hcount'.trans hcount)

theorem foldl_own (reads : List (Nat × Int)) (s : Assembly)
    (h : ∀ i j : Nat, s.results[i]? = some (some j) → j = i) (i j : Nat)
    (hij : (reads.foldl (Assembly.step c) s).results[i]? = some (some j)) : j = i := by
  induction reads generalizing s with
  | nil => exact h i j hij
  | cons read reads ih =>
    refine ih (s.step c read) (fun i j hij => ?_) hij
    unfold Assembly.step at hij
    split at hij
    · exact h i j hij
    split at hij
    · simp only [Assembly.keep, getElem?_set] at hij
      split at hij
      · next hread =>
        split at hij
        · cases hij
          exact hread
        · cases hij
      · exact h i j hij
    · exact h i j hij

/-! ## Reservations -/

/-- The object has a tensor. -/
def hasTensor : Option Buffer → Bool
  | some (.tensor ..) => true
  | _ => false

theorem hasTensor_iff {b : Option Buffer} : hasTensor b = true ↔
    ∃ dataPtr numel elementSize, b = some (.tensor dataPtr numel elementSize) := by
  match b with
  | none => simp [hasTensor]
  | some .bare => simp [hasTensor]
  | some (.tensor dataPtr numel elementSize) => simp [hasTensor]

theorem reserve_error {c : Outcome} {j : Nat} (hj : j < keys.length)
    (hnone : c.allocate (i + j) = none) : ∃ e, reserve c i keys = .error e := by
  induction keys generalizing i j with
  | nil => cases hj
  | cons key keys ih =>
    unfold reserve
    cases hbuf : c.allocate i with
    | none => exact ⟨_, rfl⟩
    | some buf =>
      obtain ⟨j, rfl⟩ : ∃ j', j = j' + 1 := by
        refine Nat.exists_eq_succ_of_ne_zero fun hzero => ?_
        rw [hzero, Nat.add_zero, hbuf] at hnone
        cases hnone
      obtain ⟨e, he⟩ := ih (i := i + 1) (Nat.lt_of_succ_lt_succ hj)
        (by rwa [Nat.add_assoc, Nat.add_comm 1])
      cases buf with
      | bare => exact ⟨e, he⟩
      | tensor dataPtr numel elementSize => exact ⟨e, by simp only [he]; rfl⟩

theorem reserve_ok {c : Outcome} (h : ∀ j < keys.length, c.allocate (i + j) ≠ none) :
    ∃ valid, reserve c i keys = .ok valid ∧
      valid.map Prod.fst = (range' i keys.length).filter (hasTensor ∘ c.allocate) ∧
      valid.map Prod.snd = requests c i keys := by
  induction keys generalizing i with
  | nil => exact ⟨[], rfl, rfl, rfl⟩
  | cons key keys ih =>
    obtain ⟨valid, hvalid, hfst, hsnd⟩ := ih (i := i + 1) fun j hj => by
      rw [Nat.add_assoc, Nat.add_comm 1]
      exact h (j + 1) (Nat.succ_lt_succ hj)
    unfold reserve requests
    rw [length_cons, range'_succ]
    cases hbuf : c.allocate i with
    | none => exact absurd hbuf (h 0 (Nat.succ_pos _))
    | some buf =>
      cases buf with
      | bare =>
        refine ⟨valid, hvalid, ?_, hsnd⟩
        rw [filter_cons_of_neg (by simp [hasTensor, hbuf]), hfst]
      | tensor dataPtr numel elementSize =>
        refine ⟨_, by simp only [hvalid]; rfl, ?_, congrArg _ hsnd⟩
        rw [filter_cons_of_pos (by simp [hasTensor, hbuf]), map_cons, hfst]

/-- The buffers that a call returns or releases. -/
def settled (c : Outcome) (valid : List (Nat × Request)) : List Nat :=
  match c.store (valid.map Prod.snd) with
  | .error _ => valid.map Prod.fst
  | .ok bytesRead => ((valid.map Prod.fst).zip bytesRead).map Prod.fst

theorem batchGetInto_ok {c : Outcome} (hmeta : c.metadata = true) {valid : List (Nat × Request)}
    (hvalid : reserve c 0 keys = .ok valid) (hnodup : (valid.map Prod.fst).Nodup) :
    ∃ results released, batchGetInto c keys = (.ok results, released) ∧
      results.length = keys.length ∧ (∀ i j : Nat, results[i]? = some (some j) → j = i) ∧
      (∀ i < keys.length, i ∈ settled c valid →
        (results[i]? = some (some i) ∧ released.count i = 0) ∨
        (results[i]? = some none ∧ released.count i = 1)) ∧
      ∀ i < keys.length, i ∉ settled c valid → results[i]? = some none ∧ released.count i = 0 := by
  have hnone : ∀ i < keys.length,
      (replicate keys.length (none : Option Nat))[i]? = some none := by
    intro i hi
    rw [getElem?_replicate, if_pos hi]
  have hown : ∀ i j : Nat,
      (replicate keys.length (none : Option Nat))[i]? = some (some j) → j = i := by
    intro i j hij
    rw [getElem?_replicate] at hij
    split at hij <;> cases hij
  unfold batchGetInto settled
  rw [hmeta, hvalid]
  cases valid with
  | nil =>
    refine ⟨_, [], rfl, length_replicate, hown, fun i _ hi => ?_,
      fun i hi _ => ⟨hnone i hi, rfl⟩⟩
    split at hi <;> cases hi
  | cons head valid =>
    cases hstore : c.store ((head :: valid).map Prod.snd) with
    | error e =>
      refine ⟨_, _, by simp only [hstore]; rfl, length_replicate, hown, fun i hi hmem => ?_,
        fun i hi hmem => ⟨hnone i hi, count_eq_zero.2 hmem⟩⟩
      exact .inr ⟨hnone i hi, count_eq_one_of_mem hnodup hmem⟩
    | ok bytesRead =>
      refine ⟨_, _, by simp only [hstore]; rfl, ?_, ?_, fun i hi hmem => ?_, fun i hi hmem => ?_⟩
      · rw [length_foldl_step, length_replicate]
      · exact foldl_own c _ _ hown
      · refine foldl_mem c ?_ _ hmem (hnone i hi) rfl
        rw [map_fst_zip_eq_take]
        exact hnodup.sublist (take_sublist _ _)
      · obtain ⟨hresult, hcount⟩ := foldl_other c ⟨replicate keys.length none, []⟩ hmem
        exact ⟨hresult.trans (hnone i hi), hcount⟩

theorem settled_subset (valid : List (Nat × Request)) :
    settled c valid ⊆ valid.map Prod.fst := by
  unfold settled
  split
  · exact fun _ h => h
  · rw [map_fst_zip_eq_take]
    exact take_subset _ _

/-- Each buffer is settled exactly if each key got a tensor and a count. -/
theorem owned_iff (keys : List String) : Owned c keys ↔ Served c keys := by
  by_cases hmeta : c.metadata = true
  · by_cases hall : ∀ j < keys.length, c.allocate (0 + j) ≠ none
    · obtain ⟨valid, hvalid, hfst, hsnd⟩ := reserve_ok hall
      rw [← range_eq_range'] at hfst
      have hnodup : (valid.map Prod.fst).Nodup := hfst ▸ nodup_range.filter _
      obtain ⟨results, released, hresult, hlen, hown, hsettled, hleft⟩ :=
        batchGetInto_ok hmeta hvalid hnodup
      have howned : Owned c keys ↔ ∀ i < keys.length, i ∈ settled c valid := by
        constructor
        · rintro ⟨results', released', hresult', -, -, hentry⟩ i hi
          rw [hresult] at hresult'
          cases hresult'
          by_contra hmem
          obtain ⟨hnone, hcount⟩ := hleft i hi hmem
          have halloc := hall i hi
          rw [Nat.zero_add] at halloc
          rcases hentry i ⟨hmeta, hi, halloc⟩ with ⟨hkept, -⟩ | ⟨-, hreleased⟩
          · rw [hnone] at hkept
            cases hkept
          · rw [hcount] at hreleased
            cases hreleased
        · intro h
          exact ⟨results, released, hresult, hlen, hown,
            fun i hi => hsettled i hi.2.1 (h i hi.2.1)⟩
      rw [howned]
      constructor
      · intro h _
        refine ⟨fun i hi => ?_, fun bytesRead hstore => ?_⟩
        · have hmem := settled_subset c valid (h i hi)
          rw [hfst] at hmem
          exact hasTensor_iff.1 (mem_filter.1 hmem).2
        · unfold settled at h
          rw [hsnd, hstore] at h
          have hsub : range keys.length ⊆ ((valid.map Prod.fst).zip bytesRead).map Prod.fst :=
            fun i hi => h i (mem_range.1 hi)
          have hle := (subperm_of_subset nodup_range hsub).length_le
          rw [length_range, length_map, length_zip] at hle
          exact Nat.le_trans hle (Nat.min_le_right _ _)
      · intro h i hi
        obtain ⟨htensors, hcounts⟩ := h hmeta
        have hrange : valid.map Prod.fst = range keys.length := by
          rw [hfst, filter_eq_self]
          exact fun j hj => hasTensor_iff.2 (htensors j (mem_range.1 hj))
        unfold settled
        rw [hsnd, hrange]
        cases hstore : c.store (requests c 0 keys) with
        | error e => exact mem_range.2 hi
        | ok bytesRead =>
          simp only
          rw [map_fst_zip_eq_take,
            take_of_length_le (by rw [length_range]; exact hcounts bytesRead hstore)]
          exact mem_range.2 hi
    · simp only [not_forall, not_not] at hall
      obtain ⟨j, hj, hnone⟩ := hall
      obtain ⟨e, he⟩ := reserve_error hj hnone
      rw [Nat.zero_add] at hnone
      refine iff_of_false ?_ fun h => ?_
      · rintro ⟨results, released, hresult, -⟩
        simp [batchGetInto, hmeta, he] at hresult
      · obtain ⟨_, _, _, hbuf⟩ := (h hmeta).1 j hj
        rw [hnone] at hbuf
        cases hbuf
  · refine iff_of_true ⟨replicate keys.length none, [], ?_, length_replicate, ?_, ?_⟩
      fun h => absurd h hmeta
    · simp [batchGetInto, hmeta]
    · intro i j hij
      rw [getElem?_replicate] at hij
      split at hij <;> cases hij
    · exact fun i h => absurd h.1 hmeta

/-! ## Puts -/

/-- The worker thread of `put_from`. -/
inductive Worker where
  | idle
  | queued
  | running
  | finished (r : Except String Unit)

inductive Caller where
  | waiting
  | returned (r : Except String Unit)

structure Put where
  worker : Worker
  caller : Caller

inductive Event where
  /-- The thread takes the call from the queue. -/
  | start
  | finish (r : Except String Unit)
  /-- The event loop sees the result. -/
  | deliver
  | timeout
  | cancel

namespace Put

/-- `_put_without_metadata`, up to its wait. -/
def begin (tensor : Bool) : Put :=
  if tensor then ⟨.queued, .waiting⟩ else ⟨.idle, .returned (.error "AssertionError:")⟩

/-- The call is taken back from the queue; a thread that runs goes on. -/
def giveUp (s : Put) (r : Except String Unit) : Put :=
  match s.caller, s.worker with
  | .waiting, .queued => ⟨.idle, .returned r⟩
  | .waiting, worker => ⟨worker, .returned r⟩
  | .returned _, _ => s

def step (s : Put) : Event → Put
  | .start => match s.worker with
    | .queued => { s with worker := .running }
    | _ => s
  | .finish r => match s.worker with
    | .running => { s with worker := .finished r }
    | _ => s
  | .deliver => match s.caller, s.worker with
    | .waiting, .finished r => { s with caller := .returned r }
    | _, _ => s
  | .timeout => s.giveUp (.ok ())
  | .cancel => s.giveUp (.error "CancelledError:")

/-- The store reads the buffer, or will. -/
def MayRead (s : Put) : Prop := s.worker = .queued ∨ s.worker = .running

/-- The caller is not back before the store is done with its buffer. -/
def Safe (s : Put) : Prop := ∀ r, s.caller = .returned r → ¬ s.MayRead

/-- The caller does not give up on a thread that runs. -/
def Waits (s : Put) : Event → Prop
  | .timeout => s.caller = .waiting → s.worker ≠ .running
  | .cancel => s.caller = .waiting → s.worker ≠ .running
  | _ => True

theorem safe_begin (tensor : Bool) : (begin tensor).Safe := by
  cases tensor with
  | true => exact nofun
  | false => exact fun r _ => by simp [begin, MayRead]

theorem safe_giveUp {s : Put} (h : s.Safe) (r : Except String Unit) :
    (s.giveUp r).Safe ↔ (s.caller = .waiting → s.worker ≠ .running) := by
  obtain ⟨worker, caller⟩ := s
  cases caller with
  | returned r' => exact iff_of_true h nofun
  | waiting =>
    cases worker with
    | idle | queued | running | finished => simp [giveUp, Safe, MayRead]

theorem safe_step {s : Put} (h : s.Safe) (e : Event) : (s.step e).Safe ↔ s.Waits e := by
  cases e with
  | timeout | cancel => exact safe_giveUp h _
  | start =>
    refine iff_of_true ?_ trivial
    simp only [step]
    split
    · next hqueued => exact fun r hr => absurd (.inl hqueued) (h r hr)
    · exact h
  | finish r =>
    refine iff_of_true ?_ trivial
    simp only [step]
    split
    · exact fun _ _ => by simp [MayRead]
    · exact h
  | deliver =>
    refine iff_of_true ?_ trivial
    simp only [step]
    split
    · next hfinished => exact fun _ _ => by simp [MayRead, hfinished]
    · exact h

end Put

/-- A get owns each buffer once just when each has a tensor and the store returns a count for each;
a put is not back before the store is done just when it never gives up on a thread that runs. -/
theorem buffers_owned (c : Outcome) (keys : List String) (tensor : Bool) (events : List Event) :
    (Owned c keys ↔ Served c keys) ∧
    (Along Put.step (fun s e => (s.step e).Safe) (Put.begin tensor) events ↔
      Along Put.step Put.Waits (Put.begin tensor) events) :=
  ⟨owned_iff c keys, along_iff (I := Put.Safe) (fun _ e h => Put.safe_step h e)
    (fun _ e h hwaits => (Put.safe_step h e).2 hwaits) (Put.safe_begin tensor) events⟩

/-- An allocation that gives `None` for the second key, and a put that times out while the store
reads. -/
theorem lost_buffers :
    let c : Outcome := ⟨true, fun i => if i = 0 then some (.tensor 4096 8 2) else none,
      fun requests => .ok (requests.map fun _ => 16), fun _ _ => .ok ()⟩
    batchGetInto c ["a", "b"] =
      (.error "AttributeError:'NoneType' object has no attribute 'tensor'", []) ∧
    ¬ (∀ (c : Outcome) (keys : List String), Owned c keys) ∧
    ¬ ∀ (tensor : Bool) (events : List Event),
      Along Put.step (fun s e => (s.step e).Safe) (Put.begin tensor) events := by
  intro c
  refine ⟨rfl, fun h => ?_, fun h => ?_⟩
  · obtain ⟨results, released, hresult, -⟩ := h c ["a", "b"]
    have herror : batchGetInto c ["a", "b"] =
        (.error "AttributeError:'NoneType' object has no attribute 'tensor'", []) := rfl
    rw [herror] at hresult
    cases hresult
  · exact (h true [.start, .timeout]).2.1 _ rfl (.inr rfl)

end MooncakeBuffers
