import LMCacheAscend.DirectStore.PendingCounts

/-!
# What the calls of `get_finished_stores` report

The calls of a run, each with the engine that it met (`Call`).  For one request the
calls are a small automaton (`Polls`): the request waits from the first call that asks
for it while something is pending, and it is remembered from the call that reports it
as long as every call asks for it.  A call that leaves it out forgets it.
-/

namespace StoreReports

open Lib PendingStores List Option

/-! ## Runs with their calls -/

/-- A call of `get_finished_stores`. -/
structure Call where
  before : Engine
  asked : Finset String

/-- What the call returns. -/
def Call.result (c : Call) : Finset String := (c.before.getFinishedStores c.asked).1

def Call.after (c : Call) : Engine := (c.before.getFinishedStores c.asked).2

/-- The stores of the request that are pending at the call. -/
def Call.pending (c : Call) (reqId : String) : Nat := c.before.count reqId

structure Trace where
  engine : Engine
  /-- The requests that have finished. -/
  finished : List String
  calls : List Call

inductive Event
  | finish (reqId : String)
  | engine (action : Action)

def Trace.record (t : Trace) : Action → List Call
  | .poll ids => t.calls ++ [⟨t.engine, ids⟩]
  | _ => t.calls

def step (t : Trace) : Event → Option Trace
  | .finish reqId => some { t with finished := t.finished ++ [reqId] }
  | .engine action => (PendingStores.step t.engine action).map fun engine =>
    { t with engine := engine, calls := t.record action }

/-- Any order of finished requests, submissions, completions and calls. -/
def machine : Machine Trace Event := ⟨fun t => t = ⟨Engine.new, [], []⟩, step⟩

/-- The request is among those of the call with this number. -/
def Trace.Asked (t : Trace) (reqId : String) (k : Nat) : Prop :=
  ∃ c, t.calls[k]? = some c ∧ reqId ∈ c.asked

/-- The call with this number returns the request. -/
def Trace.Reported (t : Trace) (reqId : String) (k : Nat) : Prop :=
  ∃ c, t.calls[k]? = some c ∧ reqId ∈ c.result

/-- Something of the request is pending at the call with this number. -/
def Trace.Pending (t : Trace) (reqId : String) (k : Nat) : Prop :=
  ∃ c, t.calls[k]? = some c ∧ c.pending reqId ≠ 0

/-! ## One request -/

variable {k j i : Nat}

/-- The first `n` calls as one request sees them. -/
structure Polls (n : Nat) (asked pending waits remembered reported : Nat → Prop) : Prop where
  fresh : ¬waits 0 ∧ ¬remembered 0
  reports : ∀ k < n, (reported k ↔ ¬pending k ∧ (waits k ∨ asked k ∧ ¬remembered k))
  waits : ∀ k < n, (waits (k + 1) ↔ pending k ∧ (waits k ∨ asked k ∧ ¬remembered k))
  remembers : ∀ k < n, (remembered (k + 1) ↔ remembered k ∧ asked k ∨ reported k)

section

variable {n : Nat} {asked pending waits remembered reported : Nat → Prop}

section

variable (h : Polls n asked pending waits remembered reported)
include h

theorem Polls.asked_of_waits {b : Nat} (hbk : b ≤ k) (hk : k ≤ n) (hb : ¬waits b) (hw : waits k) :
    ∃ i, b ≤ i ∧ i < k ∧ asked i ∧ ¬remembered i := by
  induction k, hbk using Nat.le_induction with
  | base => exact absurd hw hb
  | succ k hbk ih =>
    rcases ((h.waits k hk).1 hw).2 with hw | hasked
    · obtain ⟨i, hbi, hi, hasked⟩ := ih (by omega) hw
      exact ⟨i, hbi, by omega, hasked⟩
    · exact ⟨k, hbk, by omega, hasked⟩

theorem Polls.waits_of_pending (hij : i ≤ j) (hj : j < n) (hasked : asked i)
    (hnew : ¬remembered i) (hpending : ∀ k, i ≤ k → k ≤ j → pending k) : waits (j + 1) := by
  induction j, hij using Nat.le_induction with
  | base => exact (h.waits i hj).2 ⟨hpending i (Nat.le_refl i) (Nat.le_refl i), .inr ⟨hasked, hnew⟩⟩
  | succ j hij ih =>
    have hw := ih (by omega) fun k hik hkj => hpending k hik (by omega)
    exact (h.waits (j + 1) hj).2 ⟨hpending (j + 1) (by omega) (Nat.le_refl _), .inl hw⟩

theorem Polls.reported_of_remembered (hk : k ≤ n) (hr : remembered k) :
    ∃ i < k, reported i ∧ ∀ m, i < m → m < k → asked m := by
  induction k with
  | zero => exact absurd hr h.fresh.2
  | succ k ih =>
    rcases (h.remembers k hk).1 hr with ⟨hr, hasked⟩ | hreported
    · obtain ⟨i, hi, hreported, hsince⟩ := ih (by omega) hr
      refine ⟨i, by omega, hreported, fun m him hmk => ?_⟩
      rcases Nat.lt_succ_iff_lt_or_eq.1 hmk with hmk | rfl
      · exact hsince m him hmk
      · exact hasked
    · exact ⟨k, by omega, hreported, fun m him hmk => by omega⟩

theorem Polls.remembered_of_reported (hij : i ≤ j) (hj : j < n) (hreported : reported i)
    (hasked : ∀ m, i < m → m ≤ j → asked m) : remembered (j + 1) := by
  induction j, hij using Nat.le_induction with
  | base => exact (h.remembers i hj).2 (.inr hreported)
  | succ j hij ih =>
    have hr := ih (by omega) fun m him hmj => hasked m him (by omega)
    exact (h.remembers (j + 1) hj).2 (.inl ⟨hr, hasked (j + 1) (by omega) (Nat.le_refl _)⟩)

/-- The first call without anything pending reports a request, unless it has been reported and
asked for ever since. -/
theorem Polls.prompt (hij : i ≤ j) (hj : j < n) (hasked : asked i)
    (hpending : ∀ k, i ≤ k → k < j → pending k) (hidle : ¬pending j) :
    reported j ∨ ∃ m < i, reported m ∧ ∀ k, m < k → k ≤ i → asked k := by
  by_cases hr : remembered i
  · obtain ⟨m, hm, hreported, hsince⟩ := h.reported_of_remembered (by omega) hr
    refine .inr ⟨m, hm, hreported, fun k hmk hki => ?_⟩
    rcases Nat.lt_or_eq_of_le hki with hki | rfl
    · exact hsince k hmk hki
    · exact hasked
  · refine .inl ((h.reports j hj).2 ⟨hidle, ?_⟩)
    rcases Nat.lt_or_eq_of_le hij with hlt | rfl
    · obtain ⟨j, rfl⟩ : ∃ j', j = j' + 1 := ⟨j - 1, by omega⟩
      exact .inl (h.waits_of_pending (by omega) (by omega) hasked hr
        fun k hik hkj => hpending k hik (by omega))
    · exact .inr ⟨hasked, hr⟩

/-- Between two reports a call has left the request out, and a later one has asked for it. -/
theorem Polls.again (hij : i < j) (hj : j < n) (hi : reported i) (hr : reported j) :
    ∃ k m, i < k ∧ k < m ∧ m ≤ j ∧ ¬asked k ∧ asked m := by
  -- it does not wait right after a report
  have hidle : ¬waits (i + 1) := fun hw =>
    ((h.reports i (by omega)).1 hi).1 ((h.waits i (by omega)).1 hw).1
  obtain ⟨m, him, hm, hasked, hnew⟩ : ∃ m, i < m ∧ m ≤ j ∧ asked m ∧ ¬remembered m := by
    rcases ((h.reports j hj).1 hr).2 with hw | ⟨hasked, hnew⟩
    · obtain ⟨m, him, hm, hasked, hnew⟩ := h.asked_of_waits (by omega) (by omega) hidle hw
      exact ⟨m, him, by omega, hasked, hnew⟩
    · exact ⟨j, hij, Nat.le_refl j, hasked, hnew⟩
  obtain ⟨m, rfl⟩ : ∃ m', m = m' + 1 := ⟨m - 1, by omega⟩
  by_contra hnone
  refine hnew (h.remembered_of_reported (by omega) (by omega) hi fun k hik hkm => ?_)
  by_contra hk
  exact hnone ⟨k, m + 1, hik, by omega, hm, hk, hasked⟩

end

end

/-! ## What a step keeps -/

/-- The requests that wait for their stores, and those that the last call remembers. -/
def reports (s : Engine) : Finset String × Finset String := (s.deferredFinished, s.reportedFinished)

theorem reports_step {s s' : Engine} {action : Action} (hpoll : ∀ ids, action ≠ .poll ids)
    (h : PendingStores.step s action = some s') : reports s' = reports s := by
  have honward := step_onward hpoll h
  unfold reports
  rw [honward.deferred, honward.reported]

/-! ## Every run -/

/-- The engine that the call with this number meets, or met by the next call. -/
def Trace.engineAt (t : Trace) (k : Nat) : Engine := (t.calls[k]?.map Call.before).getD t.engine

theorem Trace.engineAt_call {t : Trace} {c : Call} (h : t.calls[k]? = some c) :
    t.engineAt k = c.before := by
  unfold Trace.engineAt
  rw [h]
  rfl

theorem Trace.engineAt_length (t : Trace) (h : t.calls.length ≤ k) : t.engineAt k = t.engine := by
  unfold Trace.engineAt
  rw [getElem?_eq_none h]
  rfl

/-- Each call meets a reachable engine, with what the call before it left. -/
structure Chained (t : Trace) : Prop where
  engine : PendingStores.machine.Reachable t.engine
  calls : ∀ c ∈ t.calls, PendingStores.machine.Reachable c.before
  first : reports (t.engineAt 0) = (∅, ∅)
  link : ∀ k c, t.calls[k]? = some c → reports (t.engineAt (k + 1)) = reports c.after

section

variable {t : Trace}

theorem Chained.other (h : Chained t) {action : Action} {engine : Engine}
    (hpoll : ∀ ids, action ≠ .poll ids) (hs : PendingStores.step t.engine action = some engine) :
    Chained { t with engine := engine } := by
  have hat : ∀ k, reports (({ t with engine := engine } : Trace).engineAt k) =
      reports (t.engineAt k) := by
    intro k
    unfold Trace.engineAt
    rcases t.calls[k]? with _ | c
    · exact reports_step hpoll hs
    · rfl
  refine ⟨h.engine.step action hs, h.calls, (hat 0).trans h.first, fun k c hk => ?_⟩
  exact (hat (k + 1)).trans (h.link k c hk)

theorem Chained.poll (h : Chained t) (ids : Finset String) :
    Chained { t with
      engine := (t.engine.getFinishedStores ids).2
      calls := t.calls ++ [⟨t.engine, ids⟩] } := by
  generalize ht' : ({ t with
    engine := (t.engine.getFinishedStores ids).2
    calls := t.calls ++ [⟨t.engine, ids⟩] } : Trace) = t'
  have hcalls : t'.calls = t.calls ++ [⟨t.engine, ids⟩] := ht' ▸ rfl
  have hat : ∀ k ≤ t.calls.length, t'.engineAt k = t.engineAt k := by
    intro k hk
    rcases Nat.lt_or_eq_of_le hk with hk | rfl
    · unfold Trace.engineAt
      rw [hcalls, getElem?_append_left hk, getElem?_eq_getElem hk]
      rfl
    · rw [t.engineAt_length (Nat.le_refl _), Trace.engineAt_call (c := ⟨t.engine, ids⟩)
        (by rw [hcalls, getElem?_concat_length])]
  refine ⟨?_, fun c hc => ?_, ?_, fun k c hk => ?_⟩
  · rw [← ht']
    exact h.engine.step (.poll ids) rfl
  · rw [hcalls] at hc
    rcases mem_append.1 hc with hc | hc
    · exact h.calls c hc
    · obtain rfl := mem_singleton.1 hc
      exact h.engine
  · rw [hat 0 (Nat.zero_le _)]
    exact h.first
  · rw [hcalls] at hk
    rcases getElem?_snoc.1 hk with hk | ⟨rfl, rfl⟩
    · rw [hat (k + 1) (lt_of_getElem? hk)]
      exact h.link k c hk
    rw [t'.engineAt_length (by rw [hcalls, length_append]; exact Nat.le_refl _), ← ht']
    rfl

theorem chained_inductive : machine.Inductive Chained where
  start t h := by
    cases h
    exact ⟨.start rfl, fun c hc => absurd hc not_mem_nil, rfl, fun k c hk => by cases hk⟩
  step t event t' h hs := by
    cases event with
    | finish reqId =>
      cases hs
      exact ⟨h.engine, h.calls, h.first, h.link⟩
    | engine action =>
      obtain ⟨engine, hstep, rfl⟩ := map_eq_some_iff.1 hs
      by_cases hpoll : ∃ ids, action = .poll ids
      · obtain ⟨ids, rfl⟩ := hpoll
        cases hstep
        exact h.poll ids
      · have hne : ∀ ids, action ≠ .poll ids := fun ids heq => hpoll ⟨ids, heq⟩
        have hrecord : t.record action = t.calls := by
          unfold Trace.record
          split
          · exact absurd rfl (hne _)
          · rfl
        rw [hrecord]
        exact h.other hne hstep

theorem getFinishedStores_mem (s : Engine) (ids : Finset String) (reqId : String) :
    (reqId ∈ (s.getFinishedStores ids).1 ↔ reqId ∉ s.pending.keys ∧
      (reqId ∈ s.deferredFinished ∨ reqId ∈ ids ∧ reqId ∉ s.reportedFinished)) ∧
    (reqId ∈ (s.getFinishedStores ids).2.deferredFinished ↔ reqId ∈ s.pending.keys ∧
      (reqId ∈ s.deferredFinished ∨ reqId ∈ ids ∧ reqId ∉ s.reportedFinished)) ∧
    (reqId ∈ (s.getFinishedStores ids).2.reportedFinished ↔
      reqId ∈ s.reportedFinished ∧ reqId ∈ ids ∨ reqId ∈ (s.getFinishedStores ids).1) := by
  unfold Engine.getFinishedStores
  simp only [Finset.mem_union, Finset.mem_filter, Finset.mem_sdiff, Finset.mem_inter]
  by_cases hp : reqId ∈ s.pending.keys <;> by_cases hd : reqId ∈ s.deferredFinished <;>
    by_cases hi : reqId ∈ ids <;> by_cases hr : reqId ∈ s.reportedFinished <;>
    simp [hp, hd, hi, hr]

theorem Chained.polls (h : Chained t) (reqId : String) :
    Polls t.calls.length (t.Asked reqId) (t.Pending reqId)
      (fun k => reqId ∈ (t.engineAt k).deferredFinished)
      (fun k => reqId ∈ (t.engineAt k).reportedFinished) (t.Reported reqId) := by
  have hcall : ∀ k < t.calls.length, ∃ c, t.calls[k]? = some c ∧ t.engineAt k = c.before ∧
      (reqId ∈ c.before.pending.keys ↔ t.Pending reqId k) ∧
      (reqId ∈ c.asked ↔ t.Asked reqId k) ∧ (reqId ∈ c.result ↔ t.Reported reqId k) ∧
      reports (t.engineAt (k + 1)) = reports c.after := by
    intro k hk
    have hc := getElem?_eq_getElem hk
    have hexact := exact_inductive.reachable (h.calls _ (getElem_mem hk))
    have hthe : ∀ {p : Call → Prop}, p t.calls[k] ↔ ∃ c, t.calls[k]? = some c ∧ p c := by
      intro p
      rw [hc]
      simp
    refine ⟨_, hc, Trace.engineAt_call hc, ?_, hthe (p := fun c => reqId ∈ c.asked),
      hthe (p := fun c => reqId ∈ c.result), h.link k _ hc⟩
    refine Iff.trans ?_ (hthe (p := fun c => c.pending reqId ≠ 0))
    rw [← not_iff_not, hexact.not_mem_pending reqId, not_not]
    rfl
  constructor
  · have hfirst := h.first
    unfold reports at hfirst
    obtain ⟨hd, hr⟩ := Prod.mk.inj hfirst
    rw [hd, hr]
    exact ⟨Finset.notMem_empty _, Finset.notMem_empty _⟩
  · intro k hk
    obtain ⟨c, -, hat, hpending, hasked, hresult, -⟩ := hcall k hk
    rw [hat, ← hpending, ← hasked, ← hresult]
    exact (getFinishedStores_mem c.before c.asked reqId).1
  · intro k hk
    obtain ⟨c, -, hat, hpending, hasked, -, hafter⟩ := hcall k hk
    rw [show (t.engineAt (k + 1)).deferredFinished = _ from congrArg Prod.fst hafter, hat,
      ← hpending, ← hasked]
    exact (getFinishedStores_mem c.before c.asked reqId).2.1
  · intro k hk
    obtain ⟨c, -, hat, -, hasked, hresult, hafter⟩ := hcall k hk
    rw [show (t.engineAt (k + 1)).reportedFinished = _ from congrArg Prod.snd hafter, hat,
      ← hasked, ← hresult]
    exact (getFinishedStores_mem c.before c.asked reqId).2.2

theorem Trace.lt_of_reported {reqId : String} (h : t.Reported reqId k) : k < t.calls.length := by
  obtain ⟨c, hc, -⟩ := h
  exact lt_of_getElem? hc

/-- **The end of the stores.**  In every run a request is returned by calls only that meet nothing
pending of it; the first such call after it was asked for returns it, unless it was returned before
and asked for by every call since; and it is returned again only if a call since has left it out
and a later one has asked for it. -/
theorem store_reports (ht : machine.Reachable t) (reqId : String) :
    (∀ k, t.Reported reqId k → ¬t.Pending reqId k ∧ ∃ i ≤ k, t.Asked reqId i) ∧
    (∀ i j, i ≤ j → j < t.calls.length → t.Asked reqId i →
      (∀ k, i ≤ k → k < j → t.Pending reqId k) → ¬t.Pending reqId j →
      t.Reported reqId j ∨
        ∃ m < i, t.Reported reqId m ∧ ∀ k, m < k → k ≤ i → t.Asked reqId k) ∧
    ∀ i j, i < j → t.Reported reqId i → t.Reported reqId j →
      ∃ k m, i < k ∧ k < m ∧ m ≤ j ∧ ¬t.Asked reqId k ∧ t.Asked reqId m := by
  have h := (chained_inductive.reachable ht).polls reqId
  refine ⟨fun k hk => ?_, fun i j hij hj => h.prompt hij hj,
    fun i j hij hi hj => h.again hij (Trace.lt_of_reported hj) hi hj⟩
  obtain ⟨hidle, hasked⟩ := (h.reports k (Trace.lt_of_reported hk)).1 hk
  refine ⟨hidle, ?_⟩
  rcases hasked with hw | ⟨hasked, -⟩
  · obtain ⟨i, -, hi, hasked, -⟩ :=
      h.asked_of_waits (Nat.zero_le k) (Nat.le_of_lt (Trace.lt_of_reported hk)) h.fresh.1 hw
    exact ⟨i, Nat.le_of_lt hi, hasked⟩
  · exact ⟨k, Nat.le_refl k, hasked⟩

end

/-- The run of the events. -/
def traceOf (events : List Event) : Option Trace := machine.run ⟨Engine.new, [], []⟩ events

/-- A batch of the request is pending when it finishes; the call after its end reports it. -/
def drained : List Event :=
  [.engine (.submit "request" {"key"}), .engine (.putReturns "request"), .finish "request",
    .engine (.poll {"request"}), .engine (.complete 0 .ok), .engine (.callback 0),
    .engine (.poll ∅)]

theorem drained_reports : ∃ t, traceOf drained = some t ∧ t.Pending "request" 0 ∧
    t.Reported "request" 1 := by
  obtain ⟨t, ht⟩ : ∃ t, traceOf drained = some t := ⟨_, rfl⟩
  have hprompt := (store_reports (Machine.reachable_of_run rfl ht) "request").2.1 0 1 (by decide)
  have hpending : t.Pending "request" 0 := by
    cases ht
    exact ⟨_, rfl, by decide +kernel⟩
  have hidle : ¬t.Pending "request" 1 := by
    cases ht
    rintro ⟨c, hc, hp⟩
    cases hc
    revert hp
    decide +kernel
  have hasked : t.Asked "request" 0 := by
    cases ht
    exact ⟨_, rfl, Finset.mem_singleton_self _⟩
  have hlength : 1 < t.calls.length := by
    cases ht
    decide
  refine ⟨t, ht, hpending, ?_⟩
  rcases hprompt hlength hasked (fun k _ hk => by rwa [Nat.lt_one_iff.1 hk]) hidle with
    hr | ⟨m, hm, -⟩
  · exact hr
  · exact absurd hm (Nat.not_lt_zero m)

/-! ## A call that leaves the request out -/

/-- The request finishes once; the second call leaves it out. -/
def leftOut : List Event :=
  [.finish "request", .engine (.poll {"request"}), .engine (.poll ∅),
    .engine (.poll {"request"})]

/-- One end of the request is reported twice. -/
theorem reported_twice : ∃ t, traceOf leftOut = some t ∧ t.finished = ["request"] ∧
    (∀ c ∈ t.calls, ∀ reqId ∈ c.asked, reqId ∈ t.finished) ∧
    t.Reported "request" 0 ∧ t.Reported "request" 2 := by
  obtain ⟨t, ht⟩ : ∃ t, traceOf leftOut = some t := ⟨_, rfl⟩
  refine ⟨t, ht, ?_, ?_, ?_, ?_⟩
  · cases ht
    rfl
  · cases ht
    decide
  all_goals
    cases ht
    exact ⟨_, rfl, by decide⟩

end StoreReports
