import LMCacheAscend.LayerwiseFill.PutQueueDrain

/-!
# Runs of the put queue

Over any run the bookkeeping stays complete (`Tracked`) and a latched error
stays latched, so a drain reports it; where every `add` has its `reserve`, the
bytes stay within the limit, or one batch is alone (`put_queue`).
-/

namespace LayerwiseFill

open Lib List Function Dict

variable {κ : Type}

/-! ## Definitions -/

/-- The operations that poll. -/
def Polls (op : Put κ Unit) : Prop :=
  op = poll ∨ op = drain ∨ (∃ size, op = reserve size) ∨ ∃ reqIds, op = drainRequests reqIds

/-- An `add` uses the room that a `reserve` has returned for. -/
def Reserved (s : Producer κ) : Action κ → Prop
  | .add size futures _ _ => futures ≠ [] → s.reserved = some size
  | _ => True

/-- What an operation does to the books, however it ends. -/
structure Ran [DecidableEq κ] (q : PutQueue κ) (r : Except PutError Unit × PutQueue κ) : Prop where
  tracked : Tracked r.2
  later : Later q r.2
  raises : ∀ e, r.1 = .error e → r.2.error = some e
  latched : ∀ e, q.error = some e → r.1 = .error e

/-! ## Operations that poll -/

variable {q : PutQueue κ} {α : Type} {op : Put κ Unit} {f : FutureId} {fs : Finset FutureId}
  {futures : Finset FutureId} {s : Producer κ}

theorem bind_latched {error : PutError} (h : q.error = some error)
    (f : Unit → Put κ α) : (poll >>= f) q = (.error error, q) := by
  have hw : wp (poll >>= f) (fun r q' => (r, q') = (.error error, q)) q := by
    rw [wp_bind, wp_of_run (poll_latched h)]
    rfl
  exact hw

theorem Polls.latched (h : Polls op) {error : PutError}
    (he : q.error = some error) : op q = (.error error, q) := by
  rcases h with rfl | rfl | ⟨size, rfl⟩ | ⟨reqIds, rfl⟩
  · exact poll_latched he
  · exact bind_latched he _
  · exact bind_latched he _
  · exact bind_latched he _

theorem polls_poll : Polls (poll : Put κ Unit) := .inl rfl
theorem polls_drain : Polls (drain : Put κ Unit) := .inr (.inl rfl)
theorem polls_reserve (size : Nat) : Polls (reserve size : Put κ Unit) := .inr (.inr (.inl ⟨size, rfl⟩))
theorem polls_drainRequests (reqIds : List String) : Polls (drainRequests reqIds : Put κ Unit) :=
  .inr (.inr (.inr ⟨reqIds, rfl⟩))

theorem complete_elapsed (q : PutQueue κ) (c : FutureId × Outcome) :
    Elapsed q { q with futures := complete q.futures c } :=
  ⟨rfl, fun _ _ h => complete_grows q.futures c h⟩

theorem latch_run (q : PutQueue κ) (error : PutError) :
    (q.run [] (latch error)).2 =
      if q.error.isNone then { q with schedule := [], error := some error }
      else { q with schedule := [] } := rfl

variable [DecidableEq κ]

theorem Polls.spec (h : Polls op) (hq : Tracked q) (herror : q.error = none) :
    wp op (post (fun _ q' => Kept q q' none) fun e q' => Kept q q' (some e)) q := by
  rcases h with rfl | rfl | ⟨size, rfl⟩ | ⟨reqIds, rfl⟩
  · refine wp_ok (poll_spec hq herror) fun u q' hq' => ?_
    exact hq'.1
  · exact drain_spec hq herror
  · refine wp_ok (reserve_spec hq herror size) fun u q' hq' => ?_
    exact hq'.1
  · refine wp_ok (drainRequests_spec hq herror reqIds) fun u q' hq' => ?_
    exact hq'.1

theorem Tracked.setSchedule (h : Tracked q)
    (schedule : List (List (FutureId × Outcome))) : Tracked { q with schedule := schedule } :=
  h.elapsed ⟨rfl, fun _ _ h => h⟩

theorem Polls.ran_of (h : Polls op) (hq : Tracked q) :
    Ran q (op q) := by
  cases herror : q.error with
  | some error =>
    rw [h.latched herror]
    refine ⟨hq, Later.refl q, fun e he => ?_, fun e he => ?_⟩
    · cases he
      exact herror
    · cases herror.symm.trans he
      rfl
  | none =>
    have hspec := h.spec hq herror
    unfold wp at hspec
    have hlatched : ∀ e, q.error = some e → (op q).1 = .error e :=
      fun e he => absurd (herror.symm.trans he) (by simp)
    rcases hrun : op q with ⟨e | u, q1⟩
    · rw [hrun] at hspec hlatched
      refine ⟨hspec.tracked, hspec.later, fun e' he => ?_, hlatched⟩
      cases he
      exact hspec.error
    · rw [hrun] at hspec hlatched
      refine ⟨hspec.tracked, hspec.later, fun e' he => ?_, hlatched⟩
      cases he

theorem Polls.ran (h : Polls op) (hq : Tracked q)
    (schedule : List (List (FutureId × Outcome))) : Ran q (q.run schedule op) := by
  have hran := h.ran_of (hq.setSchedule schedule)
  have hlater : Later q { q with schedule := schedule } :=
    ⟨rfl, rfl, rfl, Sublist.refl _, fun _ _ h => h⟩
  exact ⟨hran.tracked, hlater.trans hran.later, hran.raises, hran.latched⟩

/-! ## Adding and inheriting -/

theorem get?_addFutures [DecidableEq α] (d : Dict α (Finset FutureId)) (key : α)
    (futures : Finset FutureId) (j : α) :
    (addFutures d key futures).get? j =
      if j = key then some ((d.get? key).getD ∅ ∪ futures) else d.get? j := by
  unfold addFutures
  rw [get?_set]

theorem mem_addFutures [DecidableEq α] {d : Dict α (Finset FutureId)} (key : α)
    (futures : Finset FutureId) {j : α} (h : d.get? j = some fs)
    (hf : f ∈ fs) : ∃ fs', (addFutures d key futures).get? j = some fs' ∧ f ∈ fs' := by
  rw [get?_addFutures]
  by_cases hj : j = key
  · subst hj
    rw [if_pos rfl, h]
    exact ⟨_, rfl, Finset.mem_union_left _ hf⟩
  · rw [if_neg hj]
    exact ⟨fs, h, hf⟩

theorem of_mem_addFutures [DecidableEq α] {d : Dict α (Finset FutureId)} {key : α} {j : α}
    (h : (addFutures d key futures).get? j = some fs) (hf : f ∈ fs) :
    (∃ fs0, d.get? j = some fs0 ∧ f ∈ fs0) ∨ f ∈ futures := by
  rw [get?_addFutures] at h
  by_cases hj : j = key
  · subst hj
    rw [if_pos rfl] at h
    cases h
    rcases Finset.mem_union.1 hf with hf | hf
    · cases hd : d.get? j with
      | none =>
        rw [hd] at hf
        exact absurd hf (Finset.notMem_empty f)
      | some fs0 =>
        rw [hd] at hf
        exact .inl ⟨fs0, rfl, hf⟩
    · exact .inr hf
  · rw [if_neg hj] at h
    exact .inl ⟨fs, h, hf⟩

theorem of_mem_foldl_addFutures {keys : List κ} {d : Dict κ (Finset FutureId)} {j : κ}
    (h : (keys.foldl (fun d key => addFutures d key futures) d).get? j = some fs)
    (hf : f ∈ fs) : (∃ fs0, d.get? j = some fs0 ∧ f ∈ fs0) ∨ f ∈ futures := by
  induction keys generalizing d with
  | nil => exact .inl ⟨fs, h, hf⟩
  | cons key keys ih =>
    rcases ih h with ⟨fs0, h0, hf0⟩ | hnew
    · exact of_mem_addFutures h0 hf0
    · exact .inr hnew

theorem mem_own [DecidableEq α] {owned : α → Finset FutureId} {key a : α}
    (h : f ∈ own owned key futures a) : f ∈ owned a ∨ a = key ∧ f ∈ futures := by
  unfold own at h
  by_cases ha : a = key
  · subst ha
    rw [update_self] at h
    exact (Finset.mem_union.1 h).imp_right fun hf => ⟨rfl, hf⟩
  · rw [update_of_ne ha] at h
    exact .inl h

theorem Tracked.addRequest (h : Tracked q) (reqId : String)
    (hout : ∀ f ∈ futures, q.Outstanding f) :
    Tracked { q with requestFutures := addFutures q.requestFutures reqId futures } := by
  refine ⟨h.bytes, fun r f hf => ?_, h.keys, h.put, fun r f hf => ?_⟩
  · obtain ⟨fs, hfs, hf⟩ := hf
    rcases of_mem_addFutures hfs hf with ⟨fs0, h0, hf0⟩ | hnew
    · exact h.requests r f ⟨fs0, h0, hf0⟩
    · exact hout f hnew
  · refine (h.owned r f hf).imp_right ?_
    rintro ⟨fs, hfs, hmem⟩
    exact mem_addFutures reqId futures hfs hmem

/-- What one key, and then all keys of `track_keys` do to the books. -/
structure Inherits (keys : List κ) (reqId : String) (q q' : PutQueue κ) : Prop where
  tracked : Tracked q'
  same : q' = { q with requestFutures := q'.requestFutures }
  grows : ∀ f, q.InRequest reqId f → q'.InRequest reqId f
  inherited : ∀ key ∈ keys, ∀ f, q.InKey key f → q'.InRequest reqId f

theorem Tracked.inherit (h : Tracked q) (reqId : String) (key : κ) :
    Inherits [key] reqId q (PutQueue.inherit reqId q key) := by
  unfold PutQueue.inherit
  split
  · next hnone =>
    refine ⟨h, rfl, fun _ hf => hf, fun k hk f ⟨fs, hfs, _⟩ => ?_⟩
    rw [mem_singleton.1 hk, hnone] at hfs
    cases hfs
  · next futures hfutures =>
    split
    · next hempty =>
      refine ⟨h, rfl, fun _ hf => hf, fun k hk f ⟨fs, hfs, hf⟩ => ?_⟩
      rw [mem_singleton.1 hk, hfutures, hempty] at hfs
      cases hfs
      exact absurd hf (Finset.notMem_empty f)
    · have hget := get?_addFutures q.requestFutures reqId futures reqId
      rw [if_pos rfl] at hget
      refine ⟨h.addRequest reqId fun f hf => h.keys key f ⟨futures, hfutures, hf⟩, rfl,
        fun f ⟨fs, hfs, hf⟩ => mem_addFutures reqId futures hfs hf, fun k hk f ⟨fs, hfs, hf⟩ => ?_⟩
      rw [mem_singleton.1 hk, hfutures] at hfs
      cases hfs
      exact ⟨_, hget, Finset.mem_union_right _ hf⟩

theorem Tracked.inheritAll (h : Tracked q) (reqId : String) (keys : List κ) :
    Inherits keys reqId q (keys.foldl (PutQueue.inherit reqId) q) := by
  induction keys generalizing q with
  | nil => exact ⟨h, rfl, fun _ hf => hf, fun _ hk => absurd hk not_mem_nil⟩
  | cons key keys ih =>
    have hone := h.inherit reqId key
    have hrest := ih hone.tracked
    refine ⟨hrest.tracked, ?_, fun f hf => hrest.grows f (hone.grows f hf), fun k hk f hf => ?_⟩
    · rw [foldl_cons]
      generalize keys.foldl (PutQueue.inherit reqId) (PutQueue.inherit reqId q key) = q2 at hrest
      rw [hrest.same, hone.same]
    · rcases mem_cons.1 hk with rfl | hk
      · exact hrest.grows f (hone.inherited k (mem_singleton_self k) f hf)
      refine hrest.inherited k hk f ?_
      unfold PutQueue.InKey
      rw [hone.same]
      exact hf

theorem Tracked.trackKeys (h : Tracked q) {reqId : String} (hreq : reqId ≠ "") (keys : List κ) :
    Inherits keys reqId q (q.trackKeys reqId keys) := by
  unfold PutQueue.trackKeys
  split
  · next hnone =>
    refine ⟨h, rfl, fun _ hf => hf, fun key _ f ⟨fs, hfs, _⟩ => ?_⟩
    have hkey := mem_keys_of_get? hfs
    rw [hnone.resolve_left hreq] at hkey
    exact absurd hkey not_mem_nil
  · exact h.inheritAll reqId keys

/-- A request may own what has its result, or is on its books. -/
theorem Tracked.own (h : Tracked q) (reqId : String)
    (hnew : ∀ f ∈ futures, q.futures f = some .result ∨ q.InRequest reqId f) :
    Tracked { q with owned := own q.owned reqId futures } := by
  refine ⟨h.bytes, h.requests, h.keys, h.put, fun r f hf => ?_⟩
  rcases mem_own hf with hold | ⟨rfl, hmem⟩
  · exact h.owned r f hold
  · exact hnew f hmem

theorem Tracked.logTracked (h : Tracked q) (reqId : String) (keys : List κ) :
    Tracked ((q.trackKeys reqId keys).logTracked reqId keys) := by
  unfold PutQueue.logTracked
  split
  · next hreq =>
    unfold PutQueue.trackKeys
    rw [if_pos (.inl hreq)]
    exact h
  · next hreq =>
    obtain ⟨htracked, hsame, -, hinherited⟩ := h.trackKeys hreq keys
    generalize q.trackKeys reqId keys = q1 at htracked hsame hinherited
    have hput : q1.put = q.put := by rw [hsame]
    have hfutures : q1.futures = q.futures := by rw [hsame]
    have hnew : ∀ key ∈ keys, ∀ f ∈ q1.put key,
        q1.futures f = some .result ∨ q1.InRequest reqId f := by
      intro key hk f hf
      rw [hput] at hf
      rw [hfutures]
      exact (h.put key f hf).imp_right (hinherited key hk f)
    clear hinherited hsame hput hfutures
    induction keys generalizing q1 with
    | nil => exact htracked
    | cons key keys ih =>
      exact ih _ (htracked.own reqId (hnew key mem_cons_self))
        fun k hk => hnew k (mem_cons_of_mem key hk)

theorem totalBytes_append (batches : List Batch) (b : Batch) :
    totalBytes (batches ++ [b]) = totalBytes batches + b.1 := by
  unfold totalBytes
  rw [map_append, sum_append]
  simp

theorem mem_foldl_own {keys : List κ} {put : κ → Finset FutureId} {a : κ}
    (h : f ∈ keys.foldl (fun put key => own put key futures) put a) :
    f ∈ put a ∨ a ∈ keys ∧ f ∈ futures := by
  induction keys generalizing put with
  | nil => exact .inl h
  | cons key keys ih =>
    rcases ih h with hf | ⟨ha, hf⟩
    · exact (mem_own hf).imp_right fun ⟨ha, hf⟩ => ⟨ha ▸ mem_cons_self, hf⟩
    · exact .inr ⟨mem_cons_of_mem key ha, hf⟩

theorem mem_foldl_addFutures {keys : List κ} {d : Dict κ (Finset FutureId)} {a : κ}
    (h : (∃ fs, d.get? a = some fs ∧ f ∈ fs) ∨ a ∈ keys ∧ f ∈ futures) :
    ∃ fs, (keys.foldl (fun d key => addFutures d key futures) d).get? a = some fs ∧ f ∈ fs := by
  induction keys generalizing d with
  | nil => exact h.resolve_right fun h => absurd h.1 not_mem_nil
  | cons key keys ih =>
    refine ih ?_
    rcases h with ⟨fs, hfs, hf⟩ | ⟨ha, hf⟩
    · exact .inl (mem_addFutures key futures hfs hf)
    rcases mem_cons.1 ha with rfl | ha
    · have hget := get?_addFutures d a futures a
      rw [if_pos rfl] at hget
      exact .inl ⟨_, hget, Finset.mem_union_right _ hf⟩
    · exact .inr ⟨ha, hf⟩

/-- `add`, with its logs. -/
theorem Tracked.add (h : Tracked q) (size : Nat) (futures : List FutureId)
    (reqId : String) (keys : List κ) :
    Tracked ((q.add size futures reqId keys).logAdd futures reqId keys) := by
  unfold PutQueue.add PutQueue.logAdd
  split
  · next hempty =>
    subst hempty
    refine ⟨h.bytes, h.requests, h.keys, fun key f hf => ?_, fun r f hf => ?_⟩
    · exact h.put key f
        ((mem_foldl_own hf).resolve_right fun hf => absurd hf.2 (Finset.notMem_empty f))
    · by_cases hreq : reqId ≠ ""
      · simp only [if_pos hreq] at hf
        exact h.owned r f ((mem_own hf).resolve_right fun hf => absurd hf.2 (Finset.notMem_empty f))
      · simp only [if_neg hreq] at hf
        exact h.owned r f hf
  · have hold : ∀ f, q.Outstanding f → ∃ b ∈ q.pending ++ [(size, futures)], f ∈ b.2 := by
      rintro f ⟨b, hb, hf⟩
      exact ⟨b, mem_append_left _ hb, hf⟩
    have hnew : ∀ f ∈ futures.toFinset, ∃ b ∈ q.pending ++ [(size, futures)], f ∈ b.2 :=
      fun f hf => ⟨_, mem_append_right _ (mem_singleton_self _), mem_toFinset.1 hf⟩
    have hpending : Tracked { q with
        pending := q.pending ++ [(size, futures)], pendingBytes := q.pendingBytes + size,
        keyFutures := keys.foldl (fun d key => addFutures d key futures.toFinset) q.keyFutures,
        put := keys.foldl (fun put key => LayerwiseFill.own put key futures.toFinset) q.put } := by
      refine ⟨?_, fun r f hf => hold f (h.requests r f hf), fun key f ⟨fs, hfs, hf⟩ => ?_,
        fun key f hf => ?_, h.owned⟩
      · show q.pendingBytes + size = totalBytes (q.pending ++ [(size, futures)])
        rw [totalBytes_append, h.bytes]
      · rcases of_mem_foldl_addFutures hfs hf with ⟨fs0, h0, hf0⟩ | hf
        · exact hold f (h.keys key f ⟨fs0, h0, hf0⟩)
        · exact hnew f hf
      · rcases mem_foldl_own hf with hf | hf
        · exact (h.put key f hf).imp_right fun hin => mem_foldl_addFutures (.inl hin)
        · exact .inr (mem_foldl_addFutures (.inr hf))
    by_cases hreq : reqId ≠ ""
    · simp only [if_pos hreq]
      have hget := get?_addFutures q.requestFutures reqId futures.toFinset reqId
      rw [if_pos rfl] at hget
      exact (hpending.addRequest reqId hnew).own reqId fun f hf =>
        .inr ⟨_, hget, Finset.mem_union_right _ hf⟩
    · simp only [if_neg hreq]
      exact hpending

/-! ## Bytes -/

theorem totalBytes_sublist {l m : List Batch} (h : l.Sublist m) : totalBytes l ≤ totalBytes m := by
  unfold totalBytes
  induction h with
  | slnil => exact Nat.le_refl _
  | cons a _ ih =>
    rw [map_cons, sum_cons]
    omega
  | cons_cons a _ ih =>
    rw [map_cons, map_cons, sum_cons, sum_cons]
    omega

/-- There is room for what is reserved, and no more is charged than the limit unless it is one
batch. -/
structure Bounded (s : Producer κ) : Prop where
  bytes : s.queue.pendingBytes ≤ s.queue.maxBytes ∨ ∃ b, s.queue.pending = [b]
  room : ∀ size, s.reserved = some size →
    s.queue.pending = [] ∨ s.queue.pendingBytes + size ≤ s.queue.maxBytes

theorem sublist_single {b : Batch} {l : List Batch} (h : l.Sublist [b]) : l = [] ∨ l = [b] := by
  cases h with
  | cons _ h => exact .inl (sublist_nil.1 h)
  | cons_cons _ h => exact .inr (by rw [sublist_nil.1 h])

theorem Bounded.later (h : Bounded s) (hq : Tracked s.queue) {q' : PutQueue κ}
    (hq' : Tracked q') (hl : Later s.queue q') : Bounded { s with queue := q' } := by
  have hbytes : q'.pendingBytes ≤ s.queue.pendingBytes := by
    rw [hq'.bytes, hq.bytes]
    exact totalBytes_sublist hl.pending
  refine ⟨?_, fun size hs => ?_⟩
  · show q'.pendingBytes ≤ q'.maxBytes ∨ _
    rw [hl.maxBytes]
    rcases h.bytes with hb | ⟨b, hb⟩
    · exact .inl (by omega)
    rcases sublist_single (hb ▸ hl.pending) with he | he
    · refine .inl ?_
      rw [hq'.bytes, he]
      exact Nat.zero_le _
    · exact .inr ⟨b, he⟩
  · show q'.pending = [] ∨ q'.pendingBytes + size ≤ q'.maxBytes
    rw [hl.maxBytes]
    rcases h.room size hs with hb | hb
    · exact .inl (sublist_nil.1 (hb ▸ hl.pending))
    · exact .inr (by omega)

/-! ## Steps -/

theorem Tracked.latch (h : Tracked q) (error : PutError) :
    Tracked (q.run [] (latch error)).2 := by
  rw [latch_run]
  split
  · exact (h.setSchedule []).withError _
  · exact h.setSchedule []

theorem Tracked.step (h : Tracked s.queue) (a : Action κ) :
    Tracked (s.step a).queue := by
  cases a with
  | complete future outcome => exact h.elapsed (complete_elapsed _ _)
  | poll schedule => exact (polls_poll.ran h schedule).tracked
  | reserve size schedule => exact ((polls_reserve size).ran h schedule).tracked
  | add size futures reqId keys => exact h.add size futures reqId keys
  | trackKeys reqId keys => exact h.logTracked reqId keys
  | drainRequests reqIds schedule => exact ((polls_drainRequests reqIds).ran h schedule).tracked
  | drain schedule => exact (polls_drain.ran h schedule).tracked
  | fail error => exact h.latch error

theorem Ran.keeps_error {r : Except PutError Unit × PutQueue κ} (h : Ran q r)
    {e : PutError} (he : q.error = some e) : r.2.error = some e :=
  h.raises e (h.latched e he)

theorem add_error (q : PutQueue κ) (size : Nat) (futures : List FutureId) (reqId : String)
    (keys : List κ) : (q.add size futures reqId keys).error = q.error := by
  unfold PutQueue.add
  split <;> rfl

/-- What `track_keys` leaves alone. -/
structure Inherited (q q' : PutQueue κ) : Prop where
  error : q'.error = q.error
  pending : q'.pending = q.pending
  bytes : q'.pendingBytes = q.pendingBytes
  maxBytes : q'.maxBytes = q.maxBytes

omit [DecidableEq κ] in
theorem Inherited.trans {q q1 q2 : PutQueue κ} (h : Inherited q q1) (h' : Inherited q1 q2) :
    Inherited q q2 :=
  ⟨h'.error.trans h.error, h'.pending.trans h.pending, h'.bytes.trans h.bytes,
    h'.maxBytes.trans h.maxBytes⟩

omit [DecidableEq κ] in
theorem logTracked_inherited (q : PutQueue κ) (reqId : String) (keys : List κ) :
    Inherited q (q.logTracked reqId keys) := by
  unfold PutQueue.logTracked
  split <;> exact ⟨rfl, rfl, rfl, rfl⟩

theorem trackKeys_inherited (q : PutQueue κ) (reqId : String) (keys : List κ) :
    Inherited q ((q.trackKeys reqId keys).logTracked reqId keys) := by
  refine Inherited.trans ?_ (logTracked_inherited _ reqId keys)
  unfold PutQueue.trackKeys
  split
  · exact ⟨rfl, rfl, rfl, rfl⟩
  have hfold : ∀ (keys : List κ) (q : PutQueue κ),
      Inherited q (keys.foldl (PutQueue.inherit reqId) q) := by
    intro keys
    induction keys with
    | nil => exact fun q => ⟨rfl, rfl, rfl, rfl⟩
    | cons key keys ih =>
      intro q
      have hone : Inherited q (PutQueue.inherit reqId q key) := by
        unfold PutQueue.inherit
        split
        · exact ⟨rfl, rfl, rfl, rfl⟩
        · split <;> exact ⟨rfl, rfl, rfl, rfl⟩
      exact hone.trans (ih (PutQueue.inherit reqId q key))
  exact hfold keys q

theorem error_step (h : Tracked s.queue) {e : PutError}
    (he : s.queue.error = some e) (a : Action κ) : (s.step a).queue.error = some e := by
  cases a with
  | complete future outcome => exact he
  | poll schedule => exact (polls_poll.ran h schedule).keeps_error he
  | reserve size schedule => exact ((polls_reserve size).ran h schedule).keeps_error he
  | add size futures reqId keys => exact (add_error _ _ _ _ _).trans he
  | trackKeys reqId keys => exact (trackKeys_inherited _ _ _).error.trans he
  | drainRequests reqIds schedule =>
    exact ((polls_drainRequests reqIds).ran h schedule).keeps_error he
  | drain schedule => exact (polls_drain.ran h schedule).keeps_error he
  | fail error =>
    show (s.queue.run [] (latch error)).2.error = some e
    rw [latch_run, if_neg (by rw [he]; simp)]
    exact he

theorem Bounded.add (h : Bounded s) {size : Nat} {futures : List FutureId}
    {reqId : String} {keys : List κ} (hok : futures ≠ [] → s.reserved = some size) :
    Bounded (s.step (.add size futures reqId keys)) := by
  refine ⟨?_, fun n hn => by cases hn⟩
  show (s.queue.add size futures reqId keys).pendingBytes ≤
      (s.queue.add size futures reqId keys).maxBytes ∨
    ∃ b, (s.queue.add size futures reqId keys).pending = [b]
  unfold PutQueue.add
  split
  · exact h.bytes
  · next hne =>
    rcases h.room size (hok hne) with hempty | hroom
    · exact .inr ⟨(size, futures), by simp [hempty]⟩
    · exact .inl hroom

/-- Pending bytes stay under the maximum, by the reserve before each add. -/
theorem Bounded.step (hq : Tracked s.queue) (h : Bounded s) {a : Action κ}
    (hok : Reserved s a) : Bounded (s.step a) := by
  cases a with
  | complete future outcome =>
    have helapsed := complete_elapsed s.queue (future, outcome)
    exact h.later hq (hq.elapsed helapsed) helapsed.later
  | poll schedule =>
    have hran := polls_poll.ran hq schedule
    exact h.later hq hran.tracked hran.later
  | reserve size schedule =>
    have hran := (polls_reserve size).ran hq schedule
    have hroom : ∀ q, s.queue.run schedule (reserve size) = (.ok (), q) →
        q.pending = [] ∨ overLimit size q = false := by
      intro q hrun
      have hnone : s.queue.error = none := by
        cases he : s.queue.error with
        | none => rfl
        | some e =>
          have := hran.latched e he
          rw [hrun] at this
          cases this
      have hspec := reserve_spec (hq.setSchedule schedule) hnone size
      rw [wp_of_run (show reserve size { s.queue with schedule := schedule } = _ from hrun)] at hspec
      exact hspec.2
    have hlater := h.later hq hran.tracked hran.later
    refine ⟨hlater.bytes, fun n hn => ?_⟩
    rcases hrun : s.queue.run schedule (reserve size) with ⟨e | u, q⟩
    · refine hlater.room n ?_
      simp only [Producer.step, hrun] at hn
      exact hn
    · simp only [Producer.step, hrun] at hn ⊢
      cases hn
      refine (hroom q hrun).imp_right fun hlimit => ?_
      unfold overLimit at hlimit
      rw [Bool.or_eq_false_iff, decide_eq_false_iff_not, decide_eq_false_iff_not] at hlimit
      exact Nat.le_of_not_lt hlimit.2
  | add size futures reqId keys => exact h.add hok
  | trackKeys reqId keys =>
    have hin := trackKeys_inherited s.queue reqId keys
    generalize hstep : s.step (.trackKeys reqId keys) = s'
    have hqueue : s'.queue = (s.queue.trackKeys reqId keys).logTracked reqId keys := by
      rw [← hstep]
      rfl
    have hreserved : s'.reserved = s.reserved := by
      rw [← hstep]
      rfl
    refine ⟨?_, fun n hn => ?_⟩
    · rw [hqueue, hin.bytes, hin.maxBytes, hin.pending]
      exact h.bytes
    · rw [hqueue, hin.bytes, hin.maxBytes, hin.pending]
      exact h.room n (hreserved ▸ hn)
  | drainRequests reqIds schedule =>
    have hran := (polls_drainRequests reqIds).ran hq schedule
    exact h.later hq hran.tracked hran.later
  | drain schedule =>
    have hran := polls_drain.ran hq schedule
    exact h.later hq hran.tracked hran.later
  | fail error =>
    refine h.later hq (hq.latch error) ?_
    rw [latch_run]
    split <;> exact ⟨rfl, rfl, rfl, Sublist.refl _, fun _ _ h => h⟩

/-! ## Runs -/

theorem start_spec {maxBytes maxBatches timeout : Int}
    (h : (putMachine κ maxBytes maxBatches timeout).start s) : Tracked s.queue ∧ Bounded s := by
  obtain ⟨q, hq, rfl⟩ := h
  unfold PutQueue.new at hq
  split at hq
  · cases hq
  · cases hq
    refine ⟨⟨rfl, fun r f hf => ?_, fun key f hf => ?_,
      fun key f hf => absurd hf (Finset.notMem_empty f),
      fun r f hf => absurd hf (Finset.notMem_empty f)⟩, .inl (Nat.zero_le _),
      fun n hn => by cases hn⟩
    all_goals
      obtain ⟨fs, hfs, -⟩ := hf
      cases hfs

theorem tracked_inductive (maxBytes maxBatches timeout : Int) :
    (putMachine κ maxBytes maxBatches timeout).Inductive fun s => Tracked s.queue := by
  constructor
  · exact fun s h => (start_spec h).1
  · intro s a s' h hs
    cases hs
    exact h.step a

theorem bounded_inductive (maxBytes maxBatches timeout : Int) :
    (putMachine κ maxBytes maxBatches timeout).InductiveIf Reserved fun s =>
      Tracked s.queue ∧ Bounded s := by
  constructor
  · exact fun s h => start_spec h
  · intro s a s' h hok hs
    cases hs
    exact ⟨h.1.step a, h.2.step h.1 hok⟩

theorem error_run {maxBytes maxBatches timeout : Int} {s s' : Producer κ} (h : Tracked s.queue)
    {e : PutError} (he : s.queue.error = some e) {as : List (Action κ)}
    (hr : (putMachine κ maxBytes maxBatches timeout).run s as = some s') :
    Tracked s'.queue ∧ s'.queue.error = some e := by
  induction as generalizing s with
  | nil => cases hr; exact ⟨h, he⟩
  | cons a as ih => exact ih (h.step a) (error_step h he a) hr

/-! ## Main theorem -/

/-- **The put queue.**  A drain that returns has the result of every future that its requests
added or inherited; an error that an operation raised or latched is raised by every later drain;
the bytes are those of the pending batches, and with a reserve before each add they stay within
the limit unless one batch is alone. -/
theorem put_queue (maxBytes maxBatches timeout : Int) :
    (∀ s, (putMachine κ maxBytes maxBatches timeout).Reachable s →
      s.queue.pendingBytes = totalBytes s.queue.pending ∧
      (∀ reqIds schedule q, s.queue.run schedule (drainRequests reqIds) = (.ok (), q) →
        ∀ reqId ∈ reqIds, ∀ f ∈ s.queue.owned reqId, q.futures f = some .result) ∧
      (∀ op, Polls op → ∀ schedule e, (s.queue.run schedule op).1 = .error e →
        (s.queue.run schedule op).2.error = some e) ∧
      ∀ e, s.queue.error = some e → ∀ as s',
        (putMachine κ maxBytes maxBatches timeout).run s as = some s' →
        ∀ reqIds schedule, (s'.queue.run schedule (drainRequests reqIds)).1 = .error e) ∧
    ∀ s, (putMachine κ maxBytes maxBatches timeout).ReachableIf Reserved s →
      s.queue.pendingBytes ≤ s.queue.maxBytes ∨ ∃ b, s.queue.pending = [b] := by
  refine ⟨fun s h => ?_, fun s h => ((bounded_inductive _ _ _).reachable h).2.bytes⟩
  have hq : Tracked s.queue := (tracked_inductive _ _ _).reachable h
  refine ⟨hq.bytes, fun reqIds schedule q hrun => ?_,
    fun op hop schedule => (hop.ran hq schedule).raises, fun e he as s' hr reqIds schedule => ?_⟩
  · have hnone : s.queue.error = none := by
      cases he : s.queue.error with
      | none => rfl
      | some e =>
        have := ((polls_drainRequests reqIds).ran hq schedule).latched e he
        rw [hrun] at this
        cases this
    have hspec := drainRequests_spec (hq.setSchedule schedule) hnone reqIds
    rw [wp_of_run (show drainRequests reqIds { s.queue with schedule := schedule } = _ from hrun)]
      at hspec
    exact hspec.2
  · obtain ⟨hq', he'⟩ := error_run hq he hr
    exact ((polls_drainRequests reqIds).ran hq' schedule).latched e he'

def emptyQueue : PutQueue Nat :=
  { maxBytes := 8, maxBatches := 2, pending := [], pendingBytes := 0, error := none,
    requestFutures := Dict.empty, keyFutures := Dict.empty, futures := fun _ => none,
    schedule := [], put := fun _ => ∅, owned := fun _ => ∅ }

/-- A put of one request that another inherits through its key. -/
def sharedPut : List (Action Nat) :=
  [.reserve 4 [], .add 4 [0] "a" [7], .trackKeys "b" [7]]

def sharedProducer : Producer Nat :=
  ((putMachine Nat 8 2 1).run ⟨emptyQueue, none⟩ sharedPut).getD ⟨emptyQueue, none⟩

/-- The put ends while the drain of the second request waits for it. -/
theorem put_queue_shared :
    (sharedProducer.queue.run [[], [(0, .result)]] (drainRequests ["b"])).2.futures 0 =
      some .result := by
  have hr : (putMachine Nat 8 2 1).run ⟨emptyQueue, none⟩ sharedPut = some sharedProducer := rfl
  have h := ((put_queue 8 2 1).1 sharedProducer (Machine.reachable_of_run ⟨_, rfl, rfl⟩ hr)).2.1
  exact h ["b"] [[], [(0, .result)]] _ rfl "b" (mem_singleton_self _) 0 (by decide)

end LayerwiseFill
