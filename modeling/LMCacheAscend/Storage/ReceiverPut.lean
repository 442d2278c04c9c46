import LMCacheAscend.Lib.Prog
import LMCacheAscend.Storage.PullSender
import LMCacheAscend.Storage.PushMode

/-!
# A request at the PD receiver

`_allocate_and_put` and `_handle_pull_eager` as programs.  Both pin the objects
that are stored already (`partitionKeys`), allocate the others one after the
other (`allocateNew`) and drop the pins; the push stores an object as soon as it
is allocated, the pull after it has read all of them.  `Receiving` is what a
request is told: a call that raises is an `.error`.

Only an allocation that returns nothing is unwound.  `PushClean` and `PullClean`
are exactly the requests that leave nothing behind unless they are acknowledged.
-/

namespace ReceiverPut

open Lib List Dict

/-! ## Data -/

abbrev MemoryObj := PullSender.MemoryObj

/-- A buffer's UUID and an index into it. -/
abbrev BufferRef := String × Nat

/-- What is stored under a key: an object, or a proxy, whose reference count is not used. -/
inductive Entry
  | memory (obj : MemoryObj)
  | proxy (consumed : Bool)
  deriving DecidableEq

/-- What a request is told. -/
structure Receiving (κ : Type) where
  /-- `CacheEngineKey.from_string`. -/
  fromString : PushMode.Key → Except String κ
  /-- `MemoryFormat(fmt)`, and `STR_DTYPE_TO_TORCH_DTYPE[dtype]`. -/
  format : PushMode.MemoryFormat → Except String Unit
  torchDtype : String → Except String Unit
  /-- `allocate_with_retry`, by the number of allocations before. -/
  allocate : Nat → PushMode.Meta → Except String (Option MemoryObj)
  /-- `get_local_buffer_refs` of one object. -/
  localBufferRef : MemoryObj → Except String BufferRef
  batchedRead : List (MemoryObj × BufferRef) → Except String Unit

/-- A `PullReadyNotif`: what it has in common with a request for pages, and the sender's buffers. -/
structure PullReady where
  chunks : PushMode.AllocRequest
  senderBufferUuids : List String
  senderMemIndexes : List Nat

structure AllocResponse where
  alreadySentIndexes : List Nat
  remotes : List BufferRef
  allocFailed : Bool

structure ReceiverState (κ : Type) where
  data : Dict κ Entry
  refs : Ledger MemoryObj
  allocations : Nat

abbrev ReceiverM (κ : Type) := Prog String (ReceiverState κ)

section

variable {κ : Type} [DecidableEq κ]

/-! ## The programs -/

/-- The object whose reference count a pin raises. -/
def Entry.pinned : Entry → List MemoryObj
  | .memory obj => [obj]
  | .proxy _ => []

def takeRefs (objs : List MemoryObj) : ReceiverM κ Unit :=
  modify fun s => { s with refs := s.refs.take objs }

/-- `release_memory_objects`. -/
def dropRefs (objs : List MemoryObj) : ReceiverM κ Unit :=
  modify fun s => { s with refs := s.refs.give objs }

/-- `_lookup` with a pin: a consumed proxy is evicted. -/
def containsAndPin (key : κ) : ReceiverM κ (Option Entry) := do
  let s ← get
  match s.data.get? key with
  | none => pure none
  | some (.proxy true) => do
    modify fun s => { s with data := s.data.pop key }
    pure none
  | some entry => do
    takeRefs entry.pinned
    pure (some entry)

/-- `self.put`. -/
def put (key : κ) (obj : MemoryObj) : ReceiverM κ Unit :=
  modify fun s => { s with data := s.data.set key (.memory obj) }

variable (env : Receiving κ)

/-- `_partition_keys`: the indexes of the keys that are stored, what is stored there, and the
indexes of the others. -/
def partitionKeys : List PushMode.Key → Nat → ReceiverM κ (List Nat × List Entry × List Nat)
  | [], _ => pure ([], [], [])
  | keyStr :: rest, idx => do
    let key ← call (env.fromString keyStr)
    let found ← containsAndPin key
    let (sent, entries, new) ← partitionKeys rest (idx + 1)
    match found with
    | some entry => pure (idx :: sent, entry :: entries, new)
    | none => pure (sent, entries, idx :: new)

/-- `from_string` of a key of the request. -/
def keyOf (req : PushMode.AllocRequest) (idx : Nat) : Except String κ :=
  match req.keys[idx]? with
  | some keyStr => env.fromString keyStr
  | none => .error "list index out of range"

/-- `adjust_last_chunk_shape`. -/
def layoutOf (req : PushMode.AllocRequest) (idx : Nat) : Except String PushMode.Meta :=
  if idx + 1 = req.keys.length ∧ req.shape.length ≤ req.fmt.tokenDim then
    .error "list assignment index out of range"
  else .ok (req.layout idx)

def allocate (layout : PushMode.Meta) : ReceiverM κ (Option MemoryObj) := do
  let s ← get
  modify fun s => { s with allocations := s.allocations + 1 }
  let found ← call (env.allocate s.allocations layout)
  takeRefs found.toList
  pure found

/-- The loop over the new indexes: whether all were allocated, and the objects.  `refOf` is the
buffer that an object goes with, `putNow` says whether it is stored at once. -/
def allocateNew (req : PushMode.AllocRequest) (refOf : Nat → MemoryObj → Except String BufferRef)
    (putNow : Bool) : List Nat → ReceiverM κ (Bool × List (κ × MemoryObj × BufferRef))
  | [] => pure (true, [])
  | idx :: rest => do
    let key ← call (keyOf env req idx)
    let layout ← call (layoutOf req idx)
    match ← allocate env layout with
    | none => pure (false, [])
    | some obj => do
      let ref ← call (refOf idx obj)
      if putNow then put key obj
      let (complete, more) ← allocateNew req refOf putNow rest
      pure (complete, (key, obj, ref) :: more)

/-- The format and the element type of a request. -/
def checkHeader (req : PushMode.AllocRequest) : Except String Unit := do
  env.format req.fmt
  env.torchDtype req.dtype

/-- `_allocate_and_put`. -/
def allocateAndPut (req : PushMode.AllocRequest) : ReceiverM κ AllocResponse := do
  call (checkHeader env req)
  let (sent, entries, new) ← partitionKeys env req.keys 0
  let (complete, allocated) ← allocateNew env req (fun _ => env.localBufferRef) true new
  if complete then do
    dropRefs (entries.flatMap Entry.pinned)
    pure ⟨sent, allocated.map fun e => e.2.2, false⟩
  else do
    modify fun s => { s with data := allocated.foldl (fun d e => d.pop e.1) s.data }
    dropRefs (allocated.map (fun e => e.2.1) ++ entries.flatMap Entry.pinned)
    pure ⟨sent, [], true⟩

variable (msg : PullReady) (data : Dict κ Entry)

/-- The sender's buffer of a chunk. -/
def senderRef (idx : Nat) (_ : MemoryObj) : Except String BufferRef :=
  match msg.senderBufferUuids[idx]?, msg.senderMemIndexes[idx]? with
  | some uuid, some index => .ok (uuid, index)
  | _, _ => .error "list index out of range"

/-- `_handle_pull_eager`: the ack, and whether the callback that sends the `PullDoneSignal` comes
with it. -/
def handlePullEager : ReceiverM κ (PullSender.PullReadyDoneAck × Bool) := do
  call (checkHeader env msg.chunks)
  let (sent, entries, new) ← partitionKeys env msg.chunks.keys 0
  let (complete, allocated) ← allocateNew env msg.chunks (senderRef msg) false new
  if complete then do
    call (env.batchedRead (allocated.map Prod.snd))
    allocated.forM fun e => put e.1 e.2.1
    dropRefs (entries.flatMap Entry.pinned)
    pure (⟨sent, false⟩, true)
  else do
    dropRefs (allocated.map (fun e => e.2.1) ++ entries.flatMap Entry.pinned)
    pure (⟨sent, true⟩, false)

/-! ## What a request meets -/

/-- The keys up to the first bad one, and whether there was none. -/
def parsed : List PushMode.Key → List κ × Bool
  | [] => ([], true)
  | keyStr :: rest => match env.fromString keyStr with
    | .error _ => ([], false)
    | .ok key => (key :: (parsed rest).1, (parsed rest).2)

def isStored (key : κ) : Bool :=
  match data.get? key with
  | none | some (.proxy true) => false
  | some _ => true

/-- The indexes of the keys that are not stored. -/
def newIndexes (data : Dict κ Entry) : List κ → Nat → List Nat
  | [], _ => []
  | key :: rest, idx =>
    if isStored data key then newIndexes data rest (idx + 1)
    else idx :: newIndexes data rest (idx + 1)

/-- The objects that the stored keys pin. -/
def pins (keys : List κ) : List MemoryObj :=
  keys.flatMap fun key => ((data.get? key).map Entry.pinned).getD []

/-- What happens at a new index: the object is kept, refused, or something raises before or after
it was allocated. -/
inductive Outcome
  | kept (obj : MemoryObj) (ref : BufferRef)
  | refused
  | raised
  | lost
  deriving DecidableEq

def outcome (req : PushMode.AllocRequest) (refOf : Nat → MemoryObj → Except String BufferRef)
    (n idx : Nat) : Outcome :=
  match layoutOf req idx with
  | .error _ => .raised
  | .ok layout => match env.allocate n layout with
    | .error _ => .raised
    | .ok none => .refused
    | .ok (some obj) => match refOf idx obj with
      | .error _ => .lost
      | .ok ref => .kept obj ref

/-- The outcomes at some indexes, the first of which is allocation number `n`. -/
def outcomes (req : PushMode.AllocRequest) (refOf : Nat → MemoryObj → Except String BufferRef) :
    Nat → List Nat → List Outcome
  | _, [] => []
  | n, idx :: rest => outcome env req refOf n idx :: outcomes req refOf (n + 1) rest

def Outcome.isKept : Outcome → Bool
  | .kept _ _ => true
  | _ => false

/-- Where the objects are read to and from. -/
def Outcome.read : Outcome → Option (MemoryObj × BufferRef)
  | .kept obj ref => some (obj, ref)
  | _ => none

/-- Where the loop over the new indexes ends early. -/
def firstEnd (os : List Outcome) : Option Outcome := os.find? fun o => !o.isKept

/-- Looking a key up neither pins nor evicts anything. -/
def Untouched (key : κ) : Prop :=
  data.get? key = none ∨ data.get? key = some (.proxy false)

/-- A loop that ends early leaves nothing behind: it is unwound where it was refused, unless a
consumed proxy was evicted; where it raised, it has neither pinned nor allocated nor evicted. -/
def EndsClean (keys : List κ) (os : List Outcome) (done : Prop) : Prop :=
  match firstEnd os with
  | none => done
  | some .refused => ∀ key ∈ keys, data.get? key ≠ some (.proxy true)
  | some _ => os.head? = some .raised ∧ ∀ key ∈ keys, Untouched data key

def PushClean (req : PushMode.AllocRequest) (s : ReceiverState κ) : Prop :=
  ∀ u, checkHeader env req = .ok u →
    if (parsed env req.keys).2 then
      EndsClean s.data (parsed env req.keys).1
        (outcomes env req (fun _ => env.localBufferRef) s.allocations
          (newIndexes s.data (parsed env req.keys).1 0)) True
    else ∀ key ∈ (parsed env req.keys).1, Untouched s.data key

/-- What was allocated can be read, or there was nothing to read and nothing was pinned. -/
def Readable (keys : List κ) (os : List Outcome) : Prop :=
  (∃ u, env.batchedRead (os.filterMap Outcome.read) = .ok u) ∨
    os = [] ∧ ∀ key ∈ keys, Untouched data key

def PullClean (s : ReceiverState κ) : Prop :=
  ∀ u, checkHeader env msg.chunks = .ok u →
    if (parsed env msg.chunks.keys).2 then
      let os := outcomes env msg.chunks (senderRef msg) s.allocations
        (newIndexes s.data (parsed env msg.chunks.keys).1 0)
      EndsClean s.data (parsed env msg.chunks.keys).1 os
        (Readable env s.data (parsed env msg.chunks.keys).1 os)
    else ∀ key ∈ (parsed env msg.chunks.keys).1, Untouched s.data key

end

/-! ## The pins -/

section

variable {κ : Type} [DecidableEq κ] {env : Receiving κ} {s s' : ReceiverState κ}
  {l : List MemoryObj} {d d' d2 : Dict κ Entry} {key : κ} {keys : List κ}

omit [DecidableEq κ] in
/-- The lookups of some keys evict the consumed proxies among them. -/
def Swept (keys : List κ) (d d' : Dict κ Entry) : Prop :=
  ∀ k, d'.get? k = if k ∈ keys ∧ d.get? k = some (.proxy true) then none else d.get? k

theorem Swept.refl (d : Dict κ Entry) : Swept [] d d := by
  intro k
  rw [if_neg (fun h => not_mem_nil h.1)]

theorem Swept.trans (h : Swept [key] d d') (h' : Swept keys d' d2) : Swept (key :: keys) d d2 := by
  intro k
  rw [h' k, h k]
  by_cases hk : k = key
  · subst hk
    by_cases hd : d.get? k = some (.proxy true) <;> simp [hd]
  · simp [hk]

/-- Neither what is stored nor what it pins depends on an eviction. -/
theorem Swept.isStored (h : Swept keys d d') (k : κ) :
    ReceiverPut.isStored d' k = ReceiverPut.isStored d k := by
  unfold ReceiverPut.isStored
  by_cases hd : k ∈ keys ∧ d.get? k = some (.proxy true)
  · rw [h k, if_pos hd, hd.2]
  · rw [h k, if_neg hd]

theorem Swept.newIndexes (h : Swept keys d d') (ks : List κ) (idx : Nat) :
    ReceiverPut.newIndexes d' ks idx = ReceiverPut.newIndexes d ks idx := by
  induction ks generalizing idx with
  | nil => rfl
  | cons k ks ih =>
    unfold ReceiverPut.newIndexes
    rw [h.isStored k, ih]

theorem Swept.pins (h : Swept keys d d') (ks : List κ) :
    ReceiverPut.pins d' ks = ReceiverPut.pins d ks := by
  induction ks with
  | nil => rfl
  | cons k ks ih =>
    unfold ReceiverPut.pins at ih ⊢
    rw [flatMap_cons, flatMap_cons, ih]
    congr 1
    rw [h k]
    split
    · next hd =>
      rw [hd.2]
      rfl
    · rfl

theorem Swept.get?_eq_none (h : Swept keys d d') (hk : key ∈ keys)
    (hd : ReceiverPut.isStored d key = false) : d'.get? key = none := by
  rw [h key]
  split
  · rfl
  next hne =>
  unfold ReceiverPut.isStored at hd
  split at hd
  · next hnone => exact hnone
  · next hproxy => exact absurd ⟨hk, hproxy⟩ hne
  · cases hd

theorem pins_cons (d : Dict κ Entry) (key : κ) (keys : List κ) :
    pins d (key :: keys) = pins d [key] ++ pins d keys := by
  unfold pins
  rw [flatMap_cons, flatMap_cons, flatMap_nil, append_nil]

theorem containsAndPin_spec (key : κ) (h : s.refs.Holds l) :
    wp (containsAndPin key) (post (fun found s' =>
      found.isSome = isStored s.data key ∧
        found.toList.flatMap Entry.pinned = pins s.data [key] ∧
        Swept [key] s.data s'.data ∧ s'.allocations = s.allocations ∧
        s'.refs.Holds (l ++ pins s.data [key])) fun _ _ => False) s := by
  have hsame : s.data.get? key ≠ some (.proxy true) → Swept [key] s.data s.data := by
    intro hne k
    rw [if_neg]
    rintro ⟨hk, hd⟩
    rw [mem_singleton] at hk
    subst hk
    exact hne hd
  have hl : s.refs.Holds (l ++ []) := by rwa [append_nil]
  unfold containsAndPin isStored pins takeRefs
  rw [wp_get_bind, flatMap_singleton]
  rcases hd : s.data.get? key with _ | obj | _ | _
  · exact ⟨rfl, rfl, hsame (by simp [hd]), rfl, hl⟩
  · exact ⟨rfl, rfl, hsame (by simp [hd]), rfl, h.take [obj]⟩
  · exact ⟨rfl, rfl, hsame (by simp [hd]), rfl, h.take []⟩
  · refine ⟨rfl, rfl, fun k => ?_, rfl, hl⟩
    change (s.data.pop key).get? k = _
    rw [get?_pop]
    by_cases hk : k = key
    · subst hk
      rw [if_pos rfl, if_pos ⟨mem_singleton.2 rfl, hd⟩]
    · rw [if_neg hk, if_neg fun h => hk (mem_singleton.1 h.1)]

theorem partitionKeys_spec (keyStrs : List PushMode.Key) (idx : Nat) (h : s.refs.Holds l) :
    wp (partitionKeys env keyStrs idx) (post
      (fun r s' => (parsed env keyStrs).2 = true ∧
        r.2.2 = newIndexes s.data (parsed env keyStrs).1 idx ∧
        r.2.1.flatMap Entry.pinned = pins s.data (parsed env keyStrs).1 ∧
        Swept (parsed env keyStrs).1 s.data s'.data ∧ s'.allocations = s.allocations ∧
        s'.refs.Holds (l ++ pins s.data (parsed env keyStrs).1))
      fun _ s' => (parsed env keyStrs).2 = false ∧
        Swept (parsed env keyStrs).1 s.data s'.data ∧
        s'.refs.Holds (l ++ pins s.data (parsed env keyStrs).1)) s := by
  induction keyStrs generalizing s l idx with
  | nil =>
    have hl : s.refs.Holds (l ++ []) := by rwa [append_nil]
    exact ⟨rfl, rfl, rfl, Swept.refl _, rfl, hl⟩
  | cons keyStr rest ih =>
    unfold partitionKeys parsed
    rw [wp_bind, wp_call]
    cases hkey : env.fromString keyStr with
    | error e =>
      have hl : s.refs.Holds (l ++ []) := by rwa [append_nil]
      exact ⟨rfl, Swept.refl _, hl⟩
    | ok key =>
      simp only
      rw [post_ok]
      refine wp_bind_returns (containsAndPin_spec key h) fun found s1 h1 => ?_
      obtain ⟨hsome, hpinned, hswept, halloc, hh⟩ := h1
      rw [wp_bind]
      refine wp_mono (ih (idx + 1) hh) ?_
      rw [hswept.pins, hswept.newIndexes, append_assoc, ← pins_cons]
      rintro (e | ⟨sent, entries, new⟩) s2 h2
      · obtain ⟨hbad, hs2, hh2⟩ := h2
        exact ⟨hbad, hswept.trans hs2, hh2⟩
      obtain ⟨hgood, hnew, hentries, hs2, ha2, hh2⟩ := h2
      have hall := pins_cons s.data key (parsed env rest).1
      rw [← hpinned, ← hentries] at hall
      cases found with
      | none =>
        refine ⟨hgood, ?_, hall.symm, hswept.trans hs2, ha2.trans halloc, hh2⟩
        unfold newIndexes
        rw [← hsome, if_neg (by simp)]
        exact congrArg _ hnew
      | some entry =>
        have hcons : (entry :: entries).flatMap Entry.pinned =
            (some entry).toList.flatMap Entry.pinned ++ entries.flatMap Entry.pinned := by simp
        refine ⟨hgood, ?_, hcons.trans hall.symm, hswept.trans hs2, ha2.trans halloc, hh2⟩
        unfold newIndexes
        rw [← hsome, if_pos (by simp)]
        exact hnew

/-! ## The loop over the new indexes -/

variable {req : PushMode.AllocRequest} {refOf : Nat → MemoryObj → Except String BufferRef}
  {putNow : Bool}

theorem keyOf_of_mem_newIndexes {keyStrs : List PushMode.Key} {idx i : Nat} (d : Dict κ Entry)
    (hgood : (parsed env keyStrs).2 = true)
    (hi : i ∈ newIndexes d (parsed env keyStrs).1 idx) :
    ∃ j keyStr key, i = idx + j ∧ keyStrs[j]? = some keyStr ∧ env.fromString keyStr = .ok key ∧
      key ∈ (parsed env keyStrs).1 ∧ isStored d key = false := by
  induction keyStrs generalizing idx with
  | nil => cases hi
  | cons keyStr rest ih =>
    unfold parsed at hgood hi ⊢
    cases hkey : env.fromString keyStr with
    | error e =>
      rw [hkey] at hgood
      cases hgood
    | ok key =>
      rw [hkey] at hgood hi
      simp only at hgood hi ⊢
      unfold newIndexes at hi
      have hlater : i ∈ newIndexes d (parsed env rest).1 (idx + 1) →
          ∃ j keyStr' key', i = idx + j ∧ (keyStr :: rest)[j]? = some keyStr' ∧
            env.fromString keyStr' = .ok key' ∧ key' ∈ key :: (parsed env rest).1 ∧
            isStored d key' = false := by
        intro hr
        obtain ⟨j, keyStr', key', rfl, hj, hk, hm, hn⟩ := ih hgood hr
        exact ⟨j + 1, keyStr', key', by omega, hj, hk, mem_cons_of_mem _ hm, hn⟩
      split at hi
      · exact hlater hi
      · next hnew =>
        rcases mem_cons.1 hi with rfl | hr
        · exact ⟨0, keyStr, key, rfl, rfl, hkey, mem_cons_self, by simpa using hnew⟩
        · exact hlater hr

/-- What the loop allocated, by key. -/
def objects (got : List (κ × MemoryObj × BufferRef)) : List MemoryObj := got.map fun e => e.2.1

/-- The loop ended with `got`: it was complete or refused, and what it changed is what it got. -/
structure Looped (env : Receiving κ) (req : PushMode.AllocRequest) (putNow : Bool) (news : List Nat)
    (os : List Outcome) (l : List MemoryObj) (s : ReceiverState κ)
    (r : Bool × List (κ × MemoryObj × BufferRef)) (s' : ReceiverState κ) : Prop where
  ended : firstEnd os = if r.1 then none else some .refused
  read : r.1 = true → r.2.map Prod.snd = os.filterMap Outcome.read
  keys : ∀ e ∈ r.2, ∃ i ∈ news, keyOf env req i = .ok e.1
  data : ∀ k, (∀ e ∈ r.2, e.1 ≠ k) → s'.data.get? k = s.data.get? k
  later : putNow = false → s'.data = s.data
  refs : s'.refs.Holds (l ++ objects r.2)

/-- The loop raised, before it allocated anything or while it holds an object. -/
def Broke (os : List Outcome) (l : List MemoryObj) (s s' : ReceiverState κ) : Prop :=
  (∃ o, firstEnd os = some o ∧ o ≠ .refused) ∧
    if os.head? = some .raised then s'.data = s.data ∧ s'.refs.Holds l
    else ∃ held, held ≠ [] ∧ s'.refs.Holds (l ++ held)

variable {os : List Outcome} {got : List (κ × MemoryObj × BufferRef)}

omit [DecidableEq κ] in
theorem Broke.of_raised (hs : s.refs.Holds l) (hd : s'.data = s.data)
    (hr : s'.refs = s.refs) : Broke (.raised :: os) l s s' := by
  refine ⟨⟨.raised, rfl, nofun⟩, ?_⟩
  rw [head?_cons, if_pos rfl, hr]
  exact ⟨hd, hs⟩

omit [DecidableEq κ] in
/-- An object that is kept comes before the rest of the loop. -/
theorem Broke.after_kept {obj : MemoryObj} {ref : BufferRef}
    {s1 : ReceiverState κ} (h : Broke os (l ++ [obj]) s1 s') :
    Broke (.kept obj ref :: os) l s s' := by
  obtain ⟨hend, hheld⟩ := h
  refine ⟨hend, ?_⟩
  rw [head?_cons, if_neg (by simp)]
  split at hheld
  · exact ⟨[obj], cons_ne_nil _ _, hheld.2⟩
  · obtain ⟨held, -, hh⟩ := hheld
    exact ⟨obj :: held, cons_ne_nil _ _, by rwa [append_cons]⟩

theorem Looped.after_kept {news : List Nat} {idx : Nat} {obj : MemoryObj}
    {ref : BufferRef} {s1 : ReceiverState κ} {r : Bool × List (κ × MemoryObj × BufferRef)}
    (hkey : keyOf env req idx = .ok key) (hd : ∀ k, k ≠ key → s1.data.get? k = s.data.get? k)
    (hlater : putNow = false → s1.data = s.data)
    (h : Looped env req putNow news os (l ++ [obj]) s1 r s') :
    Looped env req putNow (idx :: news) (.kept obj ref :: os) l s (r.1, (key, obj, ref) :: r.2)
      s' where
  ended := h.ended
  read hr := by
    rw [map_cons, h.read hr]
    rfl
  keys e he := by
    rcases mem_cons.1 he with rfl | he
    · exact ⟨idx, mem_cons_self, hkey⟩
    · obtain ⟨i, hi, hk⟩ := h.keys e he
      exact ⟨i, mem_cons_of_mem _ hi, hk⟩
  data k hk := by
    obtain ⟨hne, hk⟩ := forall_mem_cons.1 hk
    rw [h.data k hk, hd k (Ne.symm hne)]
  later hp := by rw [h.later hp, hlater hp]
  refs := by
    have := h.refs
    rwa [← append_cons] at this

theorem allocateNew_spec (news : List Nat)
    (hnews : ∀ i ∈ news, ∃ key, keyOf env req i = .ok key) (hs : s.refs.Holds l) :
    wp (allocateNew env req refOf putNow news) (post
      (Looped env req putNow news (outcomes env req refOf s.allocations news) l s)
      fun _ => Broke (outcomes env req refOf s.allocations news) l s) s := by
  induction news generalizing s l with
  | nil =>
    exact ⟨rfl, fun _ => rfl, fun e he => absurd he not_mem_nil, fun _ _ => rfl,
      fun _ => rfl, by rwa [objects, map_nil, append_nil]⟩
  | cons idx news ih =>
    obtain ⟨⟨key, hkey⟩, hnews⟩ := forall_mem_cons.1 hnews
    unfold allocateNew outcomes outcome
    rw [wp_bind, wp_call, hkey, post_ok, wp_bind, wp_call]
    cases hlayout : layoutOf req idx with
    | error e => exact Broke.of_raised hs rfl rfl
    | ok layout =>
      simp only
      rw [post_ok, wp_bind]
      unfold allocate
      rw [wp_get_bind, wp_modify_bind, wp_bind, wp_call]
      cases halloc : env.allocate s.allocations layout with
      | error e => exact Broke.of_raised hs rfl rfl
      | ok found =>
        rw [post_ok, wp_bind]
        unfold takeRefs
        rw [wp_modify, post_ok, wp_pure, post_ok]
        have htake := hs.take found.toList
        cases found with
        | none =>
          refine ⟨rfl, (nomatch ·), fun e he => absurd he not_mem_nil, fun _ _ => rfl,
            fun _ => rfl, htake⟩
        | some obj =>
          simp only
          rw [wp_bind, wp_call]
          cases href : refOf idx obj with
          | error e =>
            exact ⟨⟨.lost, rfl, nofun⟩, [obj], cons_ne_nil _ _, htake⟩
          | ok ref =>
            rw [post_ok]
            split
            · next hput =>
              rw [wp_bind]
              unfold put
              rw [wp_modify, post_ok]
              refine wp_bind_of (ih hnews htake) (fun _ _ h2 => h2.after_kept) fun r s2 h2 => ?_
              exact h2.after_kept hkey (fun k hk => get?_set_ne hk) fun hp => by
                rw [hput] at hp
                cases hp
            · refine wp_bind_of (ih hnews htake) (fun _ _ h2 => h2.after_kept) fun r s2 h2 => ?_
              refine h2.after_kept hkey ?_ ?_
              · exact fun _ _ => rfl
              · exact fun _ => rfl

/-! ## What a request leaves behind -/

/-- The data map reads as before, and the references held are those of `l`. -/
structure Same (l : List MemoryObj) (s s' : ReceiverState κ) : Prop where
  data : ∀ k, s'.data.get? k = s.data.get? k
  refs : s'.refs.Holds l

/-- How a request must end: as before, unless it is acknowledged. -/
def Unacked {α : Type} (failed : α → Bool) (l : List MemoryObj) (s : ReceiverState κ) :
    Except String α → ReceiverState κ → Prop :=
  post (fun a s' => failed a = true → Same l s s') fun _ s' => Same l s s'

theorem untouched_iff : Untouched d key ↔
    pins d [key] = [] ∧ d.get? key ≠ some (.proxy true) := by
  unfold Untouched pins
  rw [flatMap_singleton]
  rcases d.get? key with _ | obj | _ | _ <;> simp [Entry.pinned]

theorem same_iff (hswept : Swept keys s.data s'.data)
    (hh : s'.refs.Holds (l ++ pins s.data keys)) :
    Same l s s' ↔ ∀ k ∈ keys, Untouched s.data k := by
  have hpins : (∀ k ∈ keys, pins s.data [k] = []) ↔ pins s.data keys = [] := by
    unfold pins
    simp only [flatMap_singleton, flatMap_eq_nil_iff]
  simp only [untouched_iff, forall_and]
  rw [hpins]
  constructor
  · rintro ⟨hdata, hrefs⟩
    refine ⟨hrefs.eq_nil hh, fun k hk hd => ?_⟩
    have h1 := hdata k
    rw [hswept k, if_pos ⟨hk, hd⟩, hd] at h1
    cases h1
  · rintro ⟨hnil, hne⟩
    refine ⟨fun k => ?_, by rwa [hnil, append_nil] at hh⟩
    rw [hswept k, if_neg fun h => hne k h.1 h.2]

theorem not_same {held : List MemoryObj} (hh : s'.refs.Holds (l ++ held)) (hne : held ≠ []) :
    ¬Same l s s' :=
  fun h => hne (h.refs.eq_nil hh)

theorem endsClean_broke {done : Prop} {mid : ReceiverState κ}
    (hswept : Swept keys s.data mid.data) (h : Broke os (l ++ pins s.data keys) mid s') :
    Same l s s' ↔ EndsClean s.data keys os done := by
  obtain ⟨⟨o, hend, ho⟩, hheld⟩ := h
  have hclean : EndsClean s.data keys os done ↔
      os.head? = some .raised ∧ ∀ k ∈ keys, Untouched s.data k := by
    unfold EndsClean
    rw [hend]
    cases o with
    | refused => exact absurd rfl ho
    | kept | raised | lost => exact Iff.rfl
  rw [hclean]
  split at hheld
  · next hhead =>
    obtain ⟨hd, hh⟩ := hheld
    rw [← hd] at hswept
    rw [same_iff hswept hh]
    exact ⟨fun h => ⟨hhead, h⟩, fun h => h.2⟩
  · next hhead =>
    obtain ⟨held, hne, hh⟩ := hheld
    rw [append_assoc] at hh
    refine ⟨fun h => absurd h (not_same hh ?_), fun h => absurd h.1 hhead⟩
    exact fun hnil => hne (append_eq_nil_iff.1 hnil).2

theorem endsClean_refused {done : Prop} {d1 : Dict κ Entry}
    (hend : firstEnd os = some .refused) (hswept : Swept keys s.data d1)
    (hd : ∀ k, s'.data.get? k = d1.get? k) (hh : s'.refs.Holds l) :
    Same l s s' ↔ EndsClean s.data keys os done := by
  unfold EndsClean
  rw [hend]
  constructor
  · intro h k hk hproxy
    have h1 := h.data k
    rw [hd k, hswept k, if_pos ⟨hk, hproxy⟩, hproxy] at h1
    cases h1
  · intro hne
    refine ⟨fun k => ?_, hh⟩
    rw [hd k, hswept k, if_neg fun h => hne k h.1 h.2]

variable (env req) in
/-- The two requests differ in what they do once both loops have ended. -/
theorem request_iff {α : Type} (failed : α → Bool) (done : Prop)
    (refOf : Nat → MemoryObj → Except String BufferRef) (putNow : Bool)
    (finish : List Nat → List Entry → Bool × List (κ × MemoryObj × BufferRef) → ReceiverM κ α)
    (hs : s.refs.Holds l) (hkeys : (parsed env req.keys).1 = keys)
    (hos : outcomes env req refOf s.allocations (newIndexes s.data keys 0) = os)
    (hcomplete : ∀ sent entries got mid s1, entries.flatMap Entry.pinned = pins s.data keys →
      Swept keys s.data mid.data →
      Looped env req putNow (newIndexes s.data keys 0) os (l ++ pins s.data keys) mid (true, got)
        s1 → (wp (finish sent entries (true, got)) (Unacked failed l s) s1 ↔ done))
    (hrefused : ∀ sent entries got mid s1, entries.flatMap Entry.pinned = pins s.data keys →
      (∀ e ∈ got, mid.data.get? e.1 = none) →
      Looped env req putNow (newIndexes s.data keys 0) os (l ++ pins s.data keys) mid (false, got)
        s1 →
      wp (finish sent entries (false, got)) (post (fun a s' => failed a = true ∧
        s'.refs.Holds l ∧ ∀ k, s'.data.get? k = mid.data.get? k) fun _ _ => False) s1) :
    wp (do
        call (checkHeader env req)
        let found ← partitionKeys env req.keys 0
        let ended ← allocateNew env req refOf putNow found.2.2
        finish found.1 found.2.1 ended) (Unacked failed l s) s ↔
      ∀ u, checkHeader env req = .ok u → if (parsed env req.keys).2 then
        EndsClean s.data keys os done else ∀ key ∈ keys, Untouched s.data key := by
  rw [wp_bind, wp_call]
  cases hheader : checkHeader env req with
  | error e => exact ⟨fun _ u hu => (nomatch hu), fun _ => ⟨fun _ => rfl, hs⟩⟩
  | ok u =>
    have hall : ∀ {P : Prop}, (∀ v : Unit, Except.ok u = (.ok v : Except String Unit) → P) ↔ P :=
      ⟨fun h => h u rfl, fun h _ _ => h⟩
    rw [hall, post_ok, wp_bind]
    refine wp_iff (partitionKeys_spec req.keys 0 hs) ?_
    rw [hkeys]
    rintro (e | ⟨sent, entries, new⟩) mid h1
    · obtain ⟨hbad, hswept, hh⟩ := h1
      rw [hbad, if_neg (by simp)]
      exact same_iff hswept hh
    obtain ⟨hgood, hnew, hpinned, hswept, halloc, hh⟩ := h1
    simp only at hnew hpinned
    have hnews : ∀ i ∈ new, ∃ key, keyOf env req i = .ok key ∧ mid.data.get? key = none := by
      intro i hi
      rw [hnew, ← hkeys] at hi
      obtain ⟨j, keyStr, key, rfl, hj, hk, hm, hn⟩ := keyOf_of_mem_newIndexes s.data hgood hi
      rw [hkeys] at hm
      refine ⟨key, ?_, hswept.get?_eq_none hm hn⟩
      unfold keyOf
      rw [Nat.zero_add, hj]
      exact hk
    rw [hgood, if_pos rfl, post_ok, wp_bind]
    refine wp_iff (allocateNew_spec new (fun i hi => (hnews i hi).imp fun _ h => h.1) hh) ?_
    rw [halloc, hnew, hos]
    rintro (e | ⟨complete, got⟩) s1 h2
    · exact endsClean_broke hswept h2
    rw [post_ok] at h2 ⊢
    cases complete with
    | true =>
      rw [hcomplete sent entries got mid s1 hpinned hswept h2]
      unfold EndsClean
      rw [h2.ended]
      exact Iff.rfl
    | false =>
      have habsent : ∀ e ∈ got, mid.data.get? e.1 = none := by
        intro e he
        obtain ⟨i, hi, hk⟩ := h2.keys e he
        rw [← hnew] at hi
        obtain ⟨key, hkey, hnone⟩ := hnews i hi
        rw [hk] at hkey
        cases hkey
        exact hnone
      refine wp_iff (hrefused sent entries got mid s1 hpinned habsent h2) ?_
      rintro (e | a) s2 h3
      · cases h3
      obtain ⟨hfailed, hh3, hd3⟩ := h3
      rw [← endsClean_refused h2.ended hswept hd3 hh3]
      exact ⟨fun h => h hfailed, fun h _ => h⟩

theorem holds_released {entries : List Entry}
    (hpinned : entries.flatMap Entry.pinned = pins s.data keys)
    (hh : s'.refs.Holds ((l ++ pins s.data keys) ++ objects got)) :
    (s'.refs.give (objects got ++ entries.flatMap Entry.pinned)).Holds l := by
  refine Ledger.Holds.give (hh.of_times fun x => ?_)
  simp only [times_append, hpinned]
  omega

theorem get?_popAll (got : List (κ × MemoryObj × BufferRef)) (d : Dict κ Entry) (k : κ) :
    (got.foldl (fun d e => d.pop e.1) d).get? k =
      if ∃ e ∈ got, e.1 = k then none else d.get? k := by
  induction got generalizing d with
  | nil => simp
  | cons e got ih =>
    rw [foldl_cons, ih, get?_pop]
    by_cases hk : k = e.1
    · subst hk
      simp
    · simp only [if_neg hk, exists_mem_cons_iff, Ne.symm hk, false_or]

theorem allocateAndPut_iff (req : PushMode.AllocRequest) (hs : s.refs.Holds l) :
    wp (allocateAndPut env req) (Unacked AllocResponse.allocFailed l s) s ↔
      PushClean env req s := by
  have h := request_iff env req AllocResponse.allocFailed True (fun _ => env.localBufferRef) true
    (fun sent entries ended => if ended.1 then do
        dropRefs (entries.flatMap Entry.pinned)
        pure ⟨sent, ended.2.map fun e => e.2.2, false⟩
      else do
        modify fun s => { s with data := ended.2.foldl (fun d e => d.pop e.1) s.data }
        dropRefs (ended.2.map (fun e => e.2.1) ++ entries.flatMap Entry.pinned)
        pure ⟨sent, [], true⟩) hs rfl rfl ?_ ?_
  · exact h
  · intro sent entries got mid s1 _ _ _
    exact ⟨fun _ => trivial, fun _ => (nomatch ·)⟩
  · intro sent entries got mid s1 hpinned habsent hl
    refine ⟨rfl, holds_released hpinned hl.refs, fun k => ?_⟩
    change (got.foldl (fun d e => d.pop e.1) s1.data).get? k = _
    rw [get?_popAll]
    split
    · next hk =>
      obtain ⟨e, he, rfl⟩ := hk
      exact (habsent e he).symm
    · next hk => exact hl.data k fun e he hek => hk ⟨e, he, hek⟩

omit [DecidableEq κ] in
theorem outcomes_eq_nil
    (hend : firstEnd os = none) (hread : got.map Prod.snd = os.filterMap Outcome.read) :
    os = [] ↔ got = [] := by
  constructor
  · rintro rfl
    exact map_eq_nil_iff.1 hread
  · rintro rfl
    cases os with
    | nil => rfl
    | cons o os => cases o with
      | kept => cases hread
      | refused | raised | lost => cases hend

/-- Where the objects cannot be read, they stay allocated, and the pins stay. -/
theorem readable_iff {news : List Nat} {mid : ReceiverState κ} {e : String}
    (hswept : Swept keys s.data mid.data)
    (hl : Looped env req false news os (l ++ pins s.data keys) mid (true, got) s')
    (hr : env.batchedRead (os.filterMap Outcome.read) = .error e) :
    Same l s s' ↔ Readable env s.data keys os := by
  have hrefs := hl.refs
  rw [← hl.later rfl] at hswept
  unfold Readable
  rw [hr, outcomes_eq_nil hl.ended (hl.read rfl)]
  constructor
  · intro h
    have hgot : got = [] := by
      rw [append_assoc] at hrefs
      have := h.refs.eq_nil hrefs
      exact map_eq_nil_iff.1 (append_eq_nil_iff.1 this).2
    subst hgot
    rw [objects, map_nil, append_nil] at hrefs
    exact .inr ⟨rfl, (same_iff hswept hrefs).1 h⟩
  · rintro (⟨u, hu⟩ | ⟨rfl, hun⟩)
    · cases hu
    · rw [objects, map_nil, append_nil] at hrefs
      exact (same_iff hswept hrefs).2 hun

theorem handlePullEager_iff (msg : PullReady) (hs : s.refs.Holds l) :
    wp (handlePullEager env msg) (Unacked (fun out => out.1.allocFailed) l s) s ↔
      PullClean env msg s := by
  have h := request_iff env msg.chunks
    (fun out : PullSender.PullReadyDoneAck × Bool => out.1.allocFailed)
    (Readable env s.data (parsed env msg.chunks.keys).1
      (outcomes env msg.chunks (senderRef msg) s.allocations
        (newIndexes s.data (parsed env msg.chunks.keys).1 0))) (senderRef msg) false
    (fun sent entries ended => if ended.1 then do
        call (env.batchedRead (ended.2.map Prod.snd))
        ended.2.forM fun e => put e.1 e.2.1
        dropRefs (entries.flatMap Entry.pinned)
        pure (⟨sent, false⟩, true)
      else do
        dropRefs (ended.2.map (fun e => e.2.1) ++ entries.flatMap Entry.pinned)
        pure (⟨sent, true⟩, false)) hs rfl rfl ?_ ?_
  · exact h
  · intro sent entries got mid s1 hpinned hswept hl
    have hread := hl.read rfl
    change wp (do
        call (env.batchedRead (got.map Prod.snd))
        got.forM fun e => put e.1 e.2.1
        dropRefs (entries.flatMap Entry.pinned)
        pure ((⟨sent, false⟩, true) : PullSender.PullReadyDoneAck × Bool)) _ s1 ↔ _
    simp only at hread
    rw [wp_bind, wp_call, hread]
    cases hr : env.batchedRead
        ((outcomes env msg.chunks (senderRef msg) s.allocations
          (newIndexes s.data (parsed env msg.chunks.keys).1 0)).filterMap Outcome.read) with
    | error e => exact readable_iff hswept hl hr
    | ok u =>
      refine ⟨fun _ => .inl ⟨u, hr⟩, fun _ => ?_⟩
      rw [post_ok, wp_bind]
      have hput : wp (got.forM fun e => put e.1 e.2.1)
          (post (fun _ _ => True) fun _ _ => False) s1 := by
        refine wp_forM (I := fun _ => True) (E := fun _ _ => False) (fun e _ s _ => ?_) trivial
        unfold put
        exact trivial
      refine wp_returns hput fun u s2 h2 => ?_
      exact (nomatch ·)
  · intro sent entries got mid s1 hpinned habsent hl
    exact ⟨rfl, holds_released hpinned hl.refs, fun k => by rw [← hl.later rfl]; rfl⟩

/-- **A request that is not acknowledged leaves the data map and every reference as they were,
exactly if it is clean.** -/
theorem unacknowledged_unwound (env : Receiving κ) {s : ReceiverState κ} {l : List MemoryObj}
    (hs : s.refs.Holds l) :
    (∀ req, wp (allocateAndPut env req) (Unacked AllocResponse.allocFailed l s) s ↔
      PushClean env req s) ∧
    ∀ msg, wp (handlePullEager env msg) (Unacked (fun out => out.1.allocFailed) l s) s ↔
      PullClean env msg s :=
  ⟨fun req => allocateAndPut_iff req hs, fun msg => handlePullEager_iff msg hs⟩

end

/-! ## Two requests -/

/-- The key `?` is bad, and reads fail. -/
def receiving : Receiving String where
  fromString key := if key = "?" then .error "bad key" else .ok key
  format _ := .ok ()
  torchDtype _ := .ok ()
  allocate n _ := .ok (some (n + 5))
  localBufferRef obj := .ok ("npu", obj)
  batchedRead _ := .error "HCCL read failed"

/-- Object 1 is stored under `a`. -/
def storedState : ReceiverState String where
  data := Dict.empty.set "a" (.memory 1)
  refs := .empty
  allocations := 0

def requestFor (keys : List PushMode.Key) : PushMode.AllocRequest where
  keys := keys
  fmt := ⟨1, 0⟩
  shape := [2, 4]
  dtype := "half"
  lastChunkToks := 1

theorem unacknowledged_unwound_stored :
    wp (allocateAndPut receiving (requestFor ["a", "b"]))
      (Unacked AllocResponse.allocFailed [] storedState) storedState ↔
      PushClean receiving (requestFor ["a", "b"]) storedState :=
  (unacknowledged_unwound receiving (fun _ => rfl)).1 _

/-- A bad key after a stored one keeps that one pinned; a read that raises keeps what was allocated
for it. -/
theorem raising_request_leaks :
    ¬wp (allocateAndPut receiving (requestFor ["a", "?"]))
      (Unacked AllocResponse.allocFailed [] storedState) storedState ∧
    ¬wp (handlePullEager receiving ⟨requestFor ["b"], ["host"], [0]⟩)
      (Unacked (fun out => out.1.allocFailed) [] storedState) storedState := by
  constructor
  · rw [allocateAndPut_iff _ fun _ => rfl]
    intro h
    have hstored := h () rfl "a" (by decide)
    revert hstored
    unfold Untouched
    decide
  · rw [handlePullEager_iff _ fun _ => rfl]
    intro h
    obtain ⟨u, hu⟩ | ⟨hnil, -⟩ := h () rfl
    · cases hu
    · cases hnil

end ReceiverPut
