import LMCacheAscend.LayerwiseFill.PutQueue

/-!
# What a drain promises

An operation sees the futures at several moments while they complete
(`Elapsed`).  `poll_spec` says what one poll finds out: every future that was
done when it began has a result, and every batch that remains has a future that
was not done.  The other operations are sequences of polls and waits; between
them they keep `Tracked`: a future that was added for a request, or inherited by
it, has its result or is in a batch that is pending and among the request's
futures.
-/

namespace LayerwiseFill

open Lib List Option Dict

variable {κ : Type}

/-! ## Time -/

/-- Only time has passed. -/
structure Elapsed (q q' : PutQueue κ) : Prop where
  same : q' = { q with futures := q'.futures, schedule := q'.schedule }
  grows : ∀ f o, q.futures f = some o → q'.futures f = some o

theorem Elapsed.refl (q : PutQueue κ) : Elapsed q q := ⟨rfl, fun _ _ h => h⟩

theorem Elapsed.trans {q q1 q2 : PutQueue κ} (h : Elapsed q q1) (h' : Elapsed q1 q2) :
    Elapsed q q2 := by
  refine ⟨?_, fun f o hf => h'.grows f o (h.grows f o hf)⟩
  rw [h'.same, h.same]

variable {f : FutureId} {q : PutQueue κ} {completed : List FutureId}

theorem complete_grows (futures : FutureId → Option Outcome) (c : FutureId × Outcome)
    {o : Outcome} (h : futures f = some o) : complete futures c f = some o := by
  unfold complete
  split
  · next hnone =>
    have hne : f ≠ c.1 := by
      rintro rfl
      rw [h] at hnone
      cases hnone
    rw [Function.update_of_ne hne]
    exact h
  · exact h

theorem foldl_complete_grows (cs : List (FutureId × Outcome)) {futures : FutureId → Option Outcome}
    {o : Outcome} (h : futures f = some o) :
    cs.foldl complete futures f = some o := by
  induction cs generalizing futures with
  | nil => exact h
  | cons c cs ih => exact ih (complete_grows futures c h)

theorem elapse_elapsed (q : PutQueue κ) : Elapsed q q.elapse := by
  unfold PutQueue.elapse
  split
  · exact Elapsed.refl q
  · next cs rest _ =>
    refine ⟨rfl, fun f o hf => ?_⟩
    show cs.foldl complete q.futures f = some o
    exact foldl_complete_grows cs hf

/-! ## Looks -/

theorem look_spec (q : PutQueue κ) (f : FutureId) :
    wp (look f)
      (post (fun done q' => Elapsed q q' ∧ (done = true → q'.futures f = some .result) ∧
          (done = false → q.futures f = none) ∧ ∀ o, q.futures f = some o → o = .result)
        fun _ q' => Elapsed q q') q := by
  unfold look
  rw [wp_modify_bind, wp_get_bind]
  have helapsed := elapse_elapsed q
  split
  · next hf =>
    have hnone : q.futures f = none := by
      cases ho : q.futures f with
      | none => rfl
      | some o => exact absurd (hf.symm.trans (helapsed.grows f o ho)) (by simp)
    refine ⟨helapsed, fun h => absurd h (by simp), fun _ => hnone, fun o ho => ?_⟩
    exact absurd (hnone.symm.trans ho) (by simp)
  · next hf =>
    refine ⟨helapsed, fun _ => hf, fun h => absurd h (by simp), fun o ho => ?_⟩
    exact some.inj ((helapsed.grows f o ho).symm.trans hf)
  · exact helapsed

/-- What the looks at some futures have found. -/
structure Looked (q q' : PutQueue κ) (fs : List FutureId) (done : Bool) (completed : List FutureId) :
    Prop where
  elapsed : Elapsed q q'
  result : ∀ f ∈ completed, q'.futures f = some .result
  all : done = true → ∀ f ∈ fs, f ∈ completed
  open_ : done = false → ∃ f ∈ fs, q.futures f = none
  sound : ∀ f ∈ fs, ∀ o, q.futures f = some o → o = .result

theorem lookAll_spec (q : PutQueue κ) (fs : List FutureId) :
    wp (lookAll fs) (post (fun r q' => Looked q q' fs r.1 r.2) fun _ q' => Elapsed q q') q := by
  induction fs generalizing q with
  | nil =>
    exact ⟨Elapsed.refl q, fun _ h => absurd h not_mem_nil,
      fun _ _ h => absurd h not_mem_nil, fun h => absurd h (by simp),
      fun _ h => absurd h not_mem_nil⟩
  | cons f fs ih =>
    unfold lookAll
    refine wp_bind_ok (look_spec q f) fun done q1 h1 => ?_
    obtain ⟨helapsed, hdone, hopen, hsound⟩ := h1
    refine wp_bind_of (ih q1) (fun _ _ h2 => helapsed.trans h2) ?_
    rintro ⟨all, completed⟩ q2 h2
    rw [wp_pure, post_ok]
    refine ⟨helapsed.trans h2.elapsed, fun g hg => ?_, fun hall g hg => ?_, fun hnot => ?_,
      fun g hg o ho => ?_⟩
    · cases done with
      | true =>
        rcases mem_cons.1 hg with rfl | hg
        · exact h2.elapsed.grows _ _ (hdone rfl)
        · exact h2.result g hg
      | false => exact h2.result g hg
    · rw [Bool.and_eq_true] at hall
      rw [if_pos hall.1]
      rcases mem_cons.1 hg with rfl | hg
      · exact mem_cons_self
      · exact mem_cons_of_mem _ (h2.all hall.2 g hg)
    · rcases Bool.and_eq_false_iff.1 hnot with hd | ha
      · exact ⟨f, mem_cons_self, hopen hd⟩
      obtain ⟨g, hg, hnone⟩ := h2.open_ ha
      refine ⟨g, mem_cons_of_mem _ hg, ?_⟩
      cases ho : q.futures g with
      | none => rfl
      | some o => exact absurd (hnone.symm.trans (helapsed.grows g o ho)) (by simp)
    · rcases mem_cons.1 hg with rfl | hg
      · exact hsound o ho
      · exact h2.sound g hg o (helapsed.grows g o ho)

/-- What a reap has found. -/
structure Reaped (q q' : PutQueue κ) (batches remaining : List Batch) (completed : List FutureId) :
    Prop where
  elapsed : Elapsed q q'
  sublist : remaining.Sublist batches
  result : ∀ f ∈ completed, q'.futures f = some .result
  gone : ∀ b ∈ batches, b ∈ remaining ∨ ∀ f ∈ b.2, f ∈ completed
  open_ : ∀ b ∈ remaining, ∃ f ∈ b.2, q.futures f = none
  sound : ∀ b ∈ batches, ∀ f ∈ b.2, ∀ o, q.futures f = some o → o = .result

theorem Elapsed.none_of_none {q q' : PutQueue κ} (h : Elapsed q q')
    (hf : q'.futures f = none) : q.futures f = none := by
  cases ho : q.futures f with
  | none => rfl
  | some o => exact absurd (hf.symm.trans (h.grows f o ho)) (by simp)

theorem reap_spec (q : PutQueue κ) (batches : List Batch) :
    wp (reap batches) (post (fun r q' => Reaped q q' batches r.1 r.2) fun _ q' => Elapsed q q') q := by
  induction batches generalizing q with
  | nil =>
    exact ⟨Elapsed.refl q, Sublist.refl _, fun _ h => absurd h not_mem_nil,
      fun _ h => absurd h not_mem_nil, fun _ h => absurd h not_mem_nil,
      fun _ h => absurd h not_mem_nil⟩
  | cons b batches ih =>
    unfold reap
    refine wp_bind_ok (lookAll_spec q b.2) ?_
    rintro ⟨done, completed⟩ q1 h1
    simp only at h1 ⊢
    rw [wp_bind]
    refine wp_cases (ih q1) (fun _ _ h2 => h1.elapsed.trans h2) fun ⟨remaining, others⟩ q2 h2 => ?_
    rw [post_ok, wp_pure, post_ok]
    refine ⟨h1.elapsed.trans h2.elapsed, ?_, fun f hf => ?_, fun c hc => ?_, fun c hc => ?_,
      fun c hc f hf o ho => ?_⟩
    · cases done with
      | true => exact h2.sublist.cons _
      | false => exact h2.sublist.cons_cons _
    · rcases mem_append.1 hf with hf | hf
      · exact h2.elapsed.grows _ _ (h1.result f hf)
      · exact h2.result f hf
    · rcases mem_cons.1 hc with rfl | hc
      · cases done with
        | true => exact .inr fun f hf => mem_append_left _ (h1.all rfl f hf)
        | false => exact .inl mem_cons_self
      rcases h2.gone c hc with hr | hr
      · refine .inl ?_
        show c ∈ if done = true then remaining else b :: remaining
        split
        · exact hr
        · exact mem_cons_of_mem _ hr
      · exact .inr fun f hf => mem_append_right _ (hr f hf)
    · have hopen : ∀ c ∈ remaining, ∃ f ∈ c.2, q.futures f = none := by
        intro c hc
        obtain ⟨f, hf, hnone⟩ := h2.open_ c hc
        exact ⟨f, hf, h1.elapsed.none_of_none hnone⟩
      cases done with
      | true => exact hopen c hc
      | false =>
        rcases mem_cons.1 hc with rfl | hc
        · exact h1.open_ rfl
        · exact hopen c hc
    · rcases mem_cons.1 hc with rfl | hc
      · exact h1.sound f hf o ho
      · exact h2.sound c hc f hf o (h1.elapsed.grows f o ho)

/-! ## Bookkeeping -/

/-- The future is in a batch that is pending. -/
def PutQueue.Outstanding (q : PutQueue κ) (f : FutureId) : Prop := ∃ b ∈ q.pending, f ∈ b.2

/-- The future is one of the request's. -/
def PutQueue.InRequest (q : PutQueue κ) (reqId : String) (f : FutureId) : Prop :=
  ∃ fs, q.requestFutures.get? reqId = some fs ∧ f ∈ fs

/-- The future is one of the key's. -/
def PutQueue.InKey [DecidableEq κ] (q : PutQueue κ) (key : κ) (f : FutureId) : Prop :=
  ∃ fs, q.keyFutures.get? key = some fs ∧ f ∈ fs

/-- What is not yet completed is on the books. -/
structure Tracked [DecidableEq κ] (q : PutQueue κ) : Prop where
  bytes : q.pendingBytes = totalBytes q.pending
  requests : ∀ reqId f, q.InRequest reqId f → q.Outstanding f
  keys : ∀ key f, q.InKey key f → q.Outstanding f
  put : ∀ key, ∀ f ∈ q.put key, q.futures f = some .result ∨ q.InKey key f
  owned : ∀ reqId, ∀ f ∈ q.owned reqId, q.futures f = some .result ∨ q.InRequest reqId f

/-- The queue at a later moment of the same operation. -/
structure Later (q q' : PutQueue κ) : Prop where
  maxBytes : q'.maxBytes = q.maxBytes
  maxBatches : q'.maxBatches = q.maxBatches
  owned : q'.owned = q.owned
  pending : q'.pending.Sublist q.pending
  grows : ∀ f o, q.futures f = some o → q'.futures f = some o

theorem Later.refl (q : PutQueue κ) : Later q q :=
  ⟨rfl, rfl, rfl, Sublist.refl _, fun _ _ h => h⟩

theorem Later.trans {q q1 q2 : PutQueue κ} (h : Later q q1) (h' : Later q1 q2) : Later q q2 :=
  ⟨h'.maxBytes.trans h.maxBytes, h'.maxBatches.trans h.maxBatches, h'.owned.trans h.owned,
    h'.pending.trans h.pending, fun f o hf => h'.grows f o (h.grows f o hf)⟩

theorem Elapsed.later {q q' : PutQueue κ} (h : Elapsed q q') : Later q q' := by
  have hs := h.same
  exact ⟨by rw [hs], by rw [hs], by rw [hs], by rw [hs], h.grows⟩

variable [DecidableEq κ]

theorem Tracked.elapsed {q q' : PutQueue κ} (h : Tracked q) (he : Elapsed q q') : Tracked q' := by
  have hs := he.same
  have hp : q'.pending = q.pending := by rw [hs]
  have hr : q'.requestFutures = q.requestFutures := by rw [hs]
  have hk : q'.keyFutures = q.keyFutures := by rw [hs]
  have hb : q'.pendingBytes = q.pendingBytes := by rw [hs]
  have ho : q'.owned = q.owned := by rw [hs]
  have hput : q'.put = q.put := by rw [hs]
  refine ⟨by rw [hb, hp]; exact h.bytes, fun reqId f hf => ?_, fun key f hf => ?_,
    fun key f hf => ?_, fun reqId f hf => ?_⟩
  · unfold PutQueue.InRequest at hf
    unfold PutQueue.Outstanding
    rw [hr] at hf
    rw [hp]
    exact h.requests reqId f hf
  · unfold PutQueue.InKey at hf
    unfold PutQueue.Outstanding
    rw [hk] at hf
    rw [hp]
    exact h.keys key f hf
  · unfold PutQueue.InKey
    rw [hput] at hf
    rw [hk]
    exact (h.put key f hf).imp_left (he.grows f _)
  · unfold PutQueue.InRequest
    rw [ho] at hf
    rw [hr]
    exact (h.owned reqId f hf).imp_left (he.grows f _)

theorem Tracked.withError (h : Tracked q) (error : Option PutError) :
    Tracked { q with error := error } :=
  ⟨h.bytes, h.requests, h.keys, h.put, h.owned⟩

/-! ## Polling -/

/-- What an operation leaves behind, whether it returns or raises. -/
structure Kept (q q' : PutQueue κ) (error : Option PutError) : Prop where
  tracked : Tracked q'
  later : Later q q'
  error : q'.error = error

theorem Kept.trans {q q1 q2 : PutQueue κ} {e e' : Option PutError} (h : Kept q q1 e)
    (h' : Kept q1 q2 e') : Kept q q2 e' :=
  ⟨h'.tracked, h.later.trans h'.later, h'.error⟩

theorem get?_withoutCompleted {α : Type} [DecidableEq α] {d : Dict α (Finset FutureId)}
    {key : α} {fs : Finset FutureId}
    (h : (d.updateValues (withoutCompleted completed)).get? key = some fs) :
    ∃ fs0, d.get? key = some fs0 ∧ ∀ f, f ∈ fs ↔ f ∈ fs0 ∧ f ∉ completed := by
  rw [get?_updateValues, bind_eq_some_iff] at h
  obtain ⟨fs0, h0, h⟩ := h
  refine ⟨fs0, h0, fun f => ?_⟩
  unfold withoutCompleted at h
  simp only at h
  split at h
  · cases h
  · cases h
    rw [Finset.mem_filter]

theorem mem_withoutCompleted {α : Type} [DecidableEq α] {d : Dict α (Finset FutureId)}
    {key : α} {fs0 : Finset FutureId} (h : d.get? key = some fs0)
    (hf : f ∈ fs0) (hnew : f ∉ completed) :
    ∃ fs, (d.updateValues (withoutCompleted completed)).get? key = some fs ∧ f ∈ fs := by
  have hmem : f ∈ fs0.filter (· ∉ completed) := Finset.mem_filter.2 ⟨hf, hnew⟩
  refine ⟨fs0.filter (· ∉ completed), ?_, hmem⟩
  rw [get?_updateValues, h]
  show withoutCompleted completed fs0 = _
  unfold withoutCompleted
  rw [if_neg (Finset.ne_empty_of_mem hmem)]

theorem Tracked.reaped {q q1 : PutQueue κ} (h : Tracked q) {remaining : List Batch}
    (hr : Reaped q q1 q.pending remaining completed) :
    Tracked { q1 with
      pending := remaining, pendingBytes := totalBytes remaining,
      requestFutures := q1.requestFutures.updateValues (withoutCompleted completed),
      keyFutures := q1.keyFutures.updateValues (withoutCompleted completed) } := by
  have h1 := h.elapsed hr.elapsed
  have hp : q1.pending = q.pending := by rw [hr.elapsed.same]
  have hleft : ∀ f, q1.Outstanding f → f ∉ completed → ∃ b ∈ remaining, f ∈ b.2 := by
    rintro f ⟨b, hb, hf⟩ hnew
    rw [hp] at hb
    rcases hr.gone b hb with hr | hr
    · exact ⟨b, hr, hf⟩
    · exact absurd (hr f hf) hnew
  refine ⟨rfl, fun reqId f hf => ?_, fun key f hf => ?_, fun key f hf => ?_, fun reqId f hf => ?_⟩
  · obtain ⟨fs, hfs, hf⟩ := hf
    obtain ⟨fs0, h0, hmem⟩ := get?_withoutCompleted hfs
    exact hleft f (h1.requests reqId f ⟨fs0, h0, ((hmem f).1 hf).1⟩) ((hmem f).1 hf).2
  · obtain ⟨fs, hfs, hf⟩ := hf
    obtain ⟨fs0, h0, hmem⟩ := get?_withoutCompleted hfs
    exact hleft f (h1.keys key f ⟨fs0, h0, ((hmem f).1 hf).1⟩) ((hmem f).1 hf).2
  · by_cases hc : f ∈ completed
    · exact .inl (hr.result f hc)
    refine (h1.put key f hf).imp_right ?_
    rintro ⟨fs0, h0, hmem⟩
    exact mem_withoutCompleted h0 hmem hc
  · by_cases hc : f ∈ completed
    · exact .inl (hr.result f hc)
    refine (h1.owned reqId f hf).imp_right ?_
    rintro ⟨fs0, h0, hmem⟩
    exact mem_withoutCompleted h0 hmem hc

theorem reapPending_spec (h : Tracked q) (herror : q.error = none) :
    wp reapPending
      (post (fun _ q' => Kept q q' none ∧ (∀ b ∈ q'.pending, ∃ f ∈ b.2, q.futures f = none) ∧
          ∀ b ∈ q.pending, ∀ f ∈ b.2, ∀ o, q.futures f = some o → o = .result)
        fun _ q' => Elapsed q q') q := by
  unfold reapPending
  rw [wp_get_bind]
  refine wp_bind_ok (reap_spec q q.pending) ?_
  rintro ⟨remaining, completed⟩ q1 h1
  simp only at h1 ⊢
  rw [wp_modify_bind]
  have hsame := h1.elapsed.same
  have hlater := h1.elapsed.later
  have herror1 : q1.error = none := by rw [hsame]; exact herror
  split
  · next hempty =>
    subst hempty
    -- nothing was completed, so every batch remains as it was
    have htracked := h.elapsed h1.elapsed
    have hp : q1.pending = q.pending := by rw [hsame]
    have hleft : ∀ f, q1.Outstanding f → ∃ b ∈ remaining, f ∈ b.2 := by
      rintro f ⟨b, hb, hf⟩
      rw [hp] at hb
      rcases h1.gone b hb with hr | hr
      · exact ⟨b, hr, hf⟩
      · exact absurd (hr f hf) not_mem_nil
    refine ⟨⟨⟨rfl, fun reqId f hf => hleft f (htracked.requests reqId f hf),
      fun key f hf => hleft f (htracked.keys key f hf), htracked.put, htracked.owned⟩,
      ⟨hlater.maxBytes, hlater.maxBatches, hlater.owned, h1.sublist, h1.elapsed.grows⟩, herror1⟩,
      h1.open_, h1.sound⟩
  · have htracked := h.reaped h1
    rw [wp_modify, post_ok]
    exact ⟨⟨htracked,
      ⟨hlater.maxBytes, hlater.maxBatches, hlater.owned, h1.sublist, h1.elapsed.grows⟩, herror1⟩,
      h1.open_, h1.sound⟩

omit [DecidableEq κ] in
theorem poll_latched {error : PutError} (h : q.error = some error) :
    poll q = (.error error, q) := by
  have hw : wp poll (fun r q' => (r, q') = (.error error, q)) q := by
    unfold poll
    rw [wp_get_bind, h]
    rfl
  exact hw

theorem poll_spec (h : Tracked q) (herror : q.error = none) :
    wp poll (post (fun _ q' => Kept q q' none ∧ (∀ b ∈ q'.pending, ∃ f ∈ b.2, q.futures f = none) ∧
          ∀ b ∈ q.pending, ∀ f ∈ b.2, ∀ o, q.futures f = some o → o = .result)
        fun e q' => Kept q q' (some e)) q := by
  unfold poll
  rw [wp_get_bind, herror]
  simp only
  rw [wp_tryCatch]
  refine wp_mono (reapPending_spec h herror) ?_
  rintro (e | u) q1 h1
  · rw [post_error] at h1
    rw [post_error, wp_modify_bind, wp_throw, post_error]
    have hlater := h1.later
    exact ⟨(h.elapsed h1).withError _, ⟨hlater.maxBytes, hlater.maxBatches, hlater.owned,
      hlater.pending, hlater.grows⟩, rfl⟩
  · exact h1

/-! ## Waiting -/

theorem waitFor_spec (h : Tracked q) (herror : q.error = none) (futures : Finset FutureId) :
    wp (waitFor futures) (post (fun _ q' => Kept q q' none ∧ q'.pending = q.pending ∧
          q'.requestFutures = q.requestFutures ∧ ∀ f ∈ futures, ∃ o, q'.futures f = some o)
        fun e q' => Kept q q' (some e)) q := by
  unfold waitFor
  rw [wp_modify_bind, wp_get_bind]
  have helapsed := elapse_elapsed q
  have hsame := helapsed.same
  have herror' : q.elapse.error = none := by rw [hsame]; exact herror
  split
  · next hdone =>
    rw [wp_pure, post_ok]
    refine ⟨⟨h.elapsed helapsed, helapsed.later, herror'⟩, by rw [hsame], by rw [hsame],
      fun f hf => isSome_iff_exists.1 (hdone f hf)⟩
  · simp only
    rw [wp_modify_bind, wp_throw, post_error]
    have hlater := helapsed.later
    exact ⟨(h.elapsed helapsed).withError _, ⟨hlater.maxBytes, hlater.maxBatches, hlater.owned,
      hlater.pending, hlater.grows⟩, rfl⟩

theorem waitFirst_spec (h : Tracked q) (herror : q.error = none) (hpending : q.pending ≠ []) :
    wp waitFirst (post (fun _ q' => Kept q q' none ∧ q'.pending.length < q.pending.length)
        fun e q' => Kept q q' (some e)) q := by
  unfold waitFirst
  rw [wp_get_bind]
  refine wp_bind_ok (waitFor_spec h herror _) fun u q1 h1 => ?_
  obtain ⟨hkept, hp, -, hdone⟩ := h1
  refine wp_cases (poll_spec hkept.tracked hkept.error) (fun _ _ h2 => hkept.trans h2)
    fun u q2 h2 => ?_
  obtain ⟨hkept2, hopen, -⟩ := h2
  refine ⟨hkept.trans hkept2, ?_⟩
  obtain ⟨b, batches, hb⟩ := exists_cons_of_ne_nil hpending
  have hsub := hkept2.later.pending
  rw [hp] at hsub
  rcases Nat.lt_or_ge q2.pending.length q.pending.length with hlt | hge
  · exact hlt
  -- were no batch reaped, the first would still have a future that is not done
  have heq := hsub.eq_of_length_le hge
  obtain ⟨f, hf, hnone⟩ := hopen b (by rw [heq, hb]; exact mem_cons_self)
  obtain ⟨o, ho⟩ := hdone f (by rw [hb]; exact mem_toFinset.2 hf)
  rw [hnone] at ho
  cases ho

theorem waitWhile_spec (blocked : PutQueue κ → Bool) {turns : Nat}
    (h : Tracked q) (herror : q.error = none) (hturns : q.pending.length ≤ turns) :
    wp (waitWhile blocked turns)
      (post (fun _ q' => Kept q q' none ∧ (q'.pending = [] ∨ blocked q' = false))
        fun e q' => Kept q q' (some e)) q := by
  induction turns generalizing q with
  | zero =>
    have hempty : q.pending = [] := length_eq_zero_iff.1 (by omega)
    exact ⟨⟨h, Later.refl q, herror⟩, .inl hempty⟩
  | succ turns ih =>
    unfold waitWhile
    rw [wp_get_bind]
    split
    · next hc =>
      refine wp_bind_ok (waitFirst_spec h herror hc.1) fun u q1 h1 => ?_
      obtain ⟨hkept, hlt⟩ := h1
      refine wp_cases (ih hkept.tracked hkept.error (by omega)) (fun _ _ h2 => hkept.trans h2)
        fun u q2 h2 => ?_
      exact ⟨hkept.trans h2.1, h2.2⟩
    · next hc =>
      rw [wp_pure, post_ok]
      refine ⟨⟨h, Later.refl q, herror⟩, ?_⟩
      by_cases hp : q.pending = []
      · exact .inl hp
      · exact .inr (Bool.not_eq_true _ ▸ fun hb => hc ⟨hp, hb⟩)

/-! ## Operations -/

theorem reserve_spec (h : Tracked q) (herror : q.error = none) (size : Nat) :
    wp (reserve size)
      (post (fun _ q' => Kept q q' none ∧ (q'.pending = [] ∨ overLimit size q' = false))
        fun e q' => Kept q q' (some e)) q := by
  unfold reserve
  refine wp_bind_ok (poll_spec h herror) fun u q1 h1 => ?_
  have hkept := h1.1
  rw [wp_get_bind]
  refine wp_cases (waitWhile_spec (overLimit size) hkept.tracked hkept.error (Nat.le_refl _))
    (fun _ _ h2 => hkept.trans h2) fun u q2 h2 => ?_
  exact ⟨hkept.trans h2.1, h2.2⟩

theorem drain_spec (h : Tracked q) (herror : q.error = none) :
    wp drain (post (fun _ q' => Kept q q' none) fun e q' => Kept q q' (some e)) q := by
  unfold drain
  refine wp_bind_ok (poll_spec h herror) fun u q1 h1 => ?_
  have hkept := h1.1
  rw [wp_get_bind]
  refine wp_bind_of (waitWhile_spec _ hkept.tracked hkept.error (Nat.le_refl _))
    (fun _ _ h2 => hkept.trans h2) fun u q2 h2 => ?_
  have hkept2 := hkept.trans h2.1
  refine wp_cases (poll_spec hkept2.tracked hkept2.error) (fun _ _ h3 => hkept2.trans h3)
    fun u q3 h3 => ?_
  exact hkept2.trans h3.1

omit [DecidableEq κ] in
theorem mem_futuresOf {reqIds : List String} {reqId : String}
    (hr : reqId ∈ reqIds) (hf : q.InRequest reqId f) : f ∈ q.futuresOf reqIds := by
  have hfold : ∀ (rs : List String) (acc : Finset FutureId), (reqId ∈ rs ∨ f ∈ acc) →
      f ∈ rs.foldl (fun fs r => fs ∪ (q.requestFutures.get? r).getD ∅) acc := by
    intro rs
    induction rs with
    | nil => exact fun acc h => h.resolve_left not_mem_nil
    | cons r rs ih =>
      intro acc h
      refine ih _ ?_
      rcases h with h | h
      · rcases mem_cons.1 h with rfl | h
        · obtain ⟨fs, hfs, hf⟩ := hf
          exact .inr (Finset.mem_union_right _ (by rw [hfs]; exact hf))
        · exact .inl h
      · exact .inr (Finset.mem_union_left _ h)
  exact hfold reqIds ∅ (.inl hr)

/-- A drain that returns has seen the result of every future of its requests. -/
theorem drainRequests_spec (h : Tracked q) (herror : q.error = none) (reqIds : List String) :
    wp (drainRequests reqIds) (post (fun _ q' => Kept q q' none ∧
          ∀ reqId ∈ reqIds, ∀ f ∈ q.owned reqId, q'.futures f = some .result)
        fun e q' => Kept q q' (some e)) q := by
  unfold drainRequests
  refine wp_bind_ok (poll_spec h herror) fun u q1 h1 => ?_
  have hkept := h1.1
  rw [wp_get_bind, wp_bind]
  have hwait : wp (waitForAny (q1.futuresOf reqIds))
      (post (fun _ q' => Kept q1 q' none ∧ ∀ reqId ∈ reqIds, ∀ f ∈ q1.owned reqId,
          q'.futures f = some .result ∨ q'.Outstanding f ∧ ∃ o, q'.futures f = some o)
        fun e q' => Kept q1 q' (some e)) q1 := by
    unfold waitForAny
    split
    · refine wp_ok (waitFor_spec hkept.tracked hkept.error _) fun u q2 h2 => ?_
      obtain ⟨hkept2, hpending, hrequests, hdone⟩ := h2
      refine ⟨hkept2, fun reqId hr f hf => ?_⟩
      rcases hkept.tracked.owned reqId f hf with hres | hin
      · exact .inl (hkept2.later.grows f _ hres)
      refine .inr ⟨?_, hdone f (mem_futuresOf hr hin)⟩
      unfold PutQueue.Outstanding
      rw [hpending]
      exact hkept.tracked.requests reqId f hin
    · next hempty =>
      rw [wp_pure, post_ok]
      refine ⟨⟨hkept.tracked, Later.refl q1, hkept.error⟩, fun reqId hr f hf => ?_⟩
      rcases hkept.tracked.owned reqId f hf with hres | hin
      · exact .inl hres
      have hmem := mem_futuresOf hr hin
      rw [Decidable.not_not.1 hempty] at hmem
      exact absurd hmem (Finset.notMem_empty f)
  refine wp_cases hwait (fun _ _ h2 => hkept.trans h2) fun u q2 h2 => ?_
  obtain ⟨hkept2, hseen⟩ := h2
  rw [post_ok]
  refine wp_cases (poll_spec hkept2.tracked hkept2.error)
    (fun _ _ h3 => hkept.trans (hkept2.trans h3)) fun u q3 h3 => ?_
  obtain ⟨hkept3, -, hsound⟩ := h3
  refine ⟨hkept.trans (hkept2.trans hkept3), fun reqId hr f hf => ?_⟩
  rcases hseen reqId hr f (hkept.later.owned ▸ hf) with hres | ⟨⟨b, hb, hfb⟩, o, ho⟩
  · exact hkept3.later.grows f _ hres
  · rw [hsound b hb f hfb o ho] at ho
    exact hkept3.later.grows f _ ho

end LayerwiseFill
