import LMCacheAscend.DirectStore.PendingBook

/-!
# What the pending count counts

In every run the entry of a request is the number of its direct futures that
are submitted and not reaped, with one for an open final section and one for
each background job, and there is no entry for zero (`Engine.count`).  Each
future counts down at most once.  After the waits of a request only the futures
that a wait drained which met a transfer of unknown state have not counted
down, and they never do (`Abandons`).
-/

namespace PendingStores

open Lib List Function

/-! ## The count -/

def Phase.submits : Phase → Nat
  | .submitting _ => 1
  | _ => 0

/-- The futures of the request that have not been reaped. -/
def Engine.unreaped (s : Engine) (reqId : String) : Finset Nat :=
  (Finset.range s.owners.length).filter fun f => s.owners[f]? = some reqId ∧ f ∉ s.completed

/-- The futures submitted and not reaped, the final section and the background jobs. -/
def Engine.count (s : Engine) (reqId : String) : Nat :=
  (s.unreaped reqId).card + (s.phase reqId).submits + (if s.finalOpen reqId then 1 else 0) +
    s.storeJobs.count reqId

variable {f : Nat}

theorem mem_unreaped {s : Engine} {reqId : String} :
    f ∈ s.unreaped reqId ↔ s.owners[f]? = some reqId ∧ f ∉ s.completed := by
  unfold Engine.unreaped
  rw [Finset.mem_filter, Finset.mem_range]
  constructor
  · exact fun h => h.2
  · intro h
    exact ⟨(lt_of_getElem? h.1), h⟩

section

variable {s s' : Engine} {reqId : String}

theorem tally_same (h : Tally s.pending s.count) (hpending : s'.pending = s.pending)
    (hcount : ∀ q, s'.count q = s.count q) : Tally s'.pending s'.count := by
  rw [hpending]
  exact h.congr fun q => (hcount q).symm

theorem tally_up (reqId : String) (h : Tally s.pending s.count) (hpending : s'.pending = s.pending.countUp reqId)
    (hcount : ∀ q, s'.count q = s.count q + if q = reqId then 1 else 0) :
    Tally s'.pending s'.count := by
  rw [hpending]
  refine (h.countUp reqId).congr fun q => ?_
  rw [hcount q, update_apply]
  by_cases hq : q = reqId
  · rw [if_pos hq, if_pos hq, hq]
  · rw [if_neg hq, if_neg hq, Nat.add_zero]

theorem tally_down (reqId : String) (h : Tally s.pending s.count)
    (hpending : s'.pending = s.pending.countDown reqId)
    (hcount : ∀ q, s.count q = s'.count q + if q = reqId then 1 else 0) :
    Tally s'.pending s'.count := by
  have hself := hcount reqId
  rw [if_pos rfl] at hself
  rw [hpending]
  refine (h.countDown (by omega)).congr fun q => ?_
  rw [update_apply]
  by_cases hq : q = reqId
  · rw [if_pos hq, hq]
    omega
  · have hother := hcount q
    rw [if_neg hq] at hother ⊢
    omega

theorem card_unreaped_put (s' : Engine) (howners : s'.owners = s.owners ++ [reqId])
    (hcompleted : s'.completed = s.completed) (hbound : ∀ f ∈ s.completed, f < s.owners.length)
    (q : String) :
    (s'.unreaped q).card = (s.unreaped q).card + if q = reqId then 1 else 0 := by
  have hnew : ∀ f, s'.owners[f]? = some q ↔
      s.owners[f]? = some q ∨ f = s.owners.length ∧ q = reqId := by
    intro f
    rw [howners]
    exact getElem?_snoc
  split
  · next hq =>
    have hfresh : s.owners.length ∉ s.unreaped q := by
      rw [mem_unreaped, getElem?_eq_none (Nat.le_refl _)]
      simp
    rw [← Finset.card_insert_of_notMem hfresh]
    congr 1
    ext f
    rw [Finset.mem_insert, mem_unreaped, mem_unreaped, hnew, hcompleted]
    constructor
    · rintro ⟨h | h, hc⟩
      · exact .inr ⟨h, hc⟩
      · exact .inl h.1
    · rintro (rfl | h)
      · exact ⟨.inr ⟨rfl, hq⟩, fun hc => absurd (hbound _ hc) (Nat.lt_irrefl _)⟩
      · exact ⟨.inl h.1, h.2⟩
  · next hq =>
    rw [Nat.add_zero]
    congr 1
    ext f
    rw [mem_unreaped, mem_unreaped, hnew, hcompleted]
    exact and_congr_left fun _ => or_iff_left fun h => hq h.2

theorem card_unreaped_reap (s' : Engine) (howners : s'.owners = s.owners)
    (hcompleted : s'.completed = insert f s.completed) (howner : s.owners[f]? = some reqId)
    (hopen : f ∉ s.completed) (q : String) :
    (s.unreaped q).card = (s'.unreaped q).card + if q = reqId then 1 else 0 := by
  by_cases hq : q = reqId
  · have hmem : f ∈ s.unreaped q := mem_unreaped.2 ⟨hq ▸ howner, hopen⟩
    rw [if_pos hq, ← Finset.card_erase_add_one hmem]
    congr 2
    ext g
    rw [Finset.mem_erase, mem_unreaped, mem_unreaped, howners, hcompleted, Finset.mem_insert,
      not_or]
    exact ⟨fun h => ⟨h.2.1, h.1, h.2.2⟩, fun h => ⟨h.2.1, h.1, h.2.2⟩⟩
  · rw [if_neg hq, Nat.add_zero]
    congr 1
    ext g
    rw [mem_unreaped, mem_unreaped, howners, hcompleted, Finset.mem_insert, not_or]
    constructor
    · intro h
      refine ⟨h.1, fun hg => ?_, h.2⟩
      rw [hg, howner] at h
      exact hq (Option.some.inj h.1).symm
    · exact fun h => ⟨h.1, h.2.2⟩

end

/-! ## Steps -/

structure Exact (s : Engine) : Prop where
  tally : Tally s.pending s.count
  book : s.book.Kept

section

variable {s s' : Engine} {reqId : String}

theorem kept_of_book {b : Book} (h : b.Kept) (hfutures : ∀ q, b.futures q = s'.futures q)
    (hfailed : ∀ q, b.failed q = (s'.phase q).failed)
    (hrest : ∀ futures failed, ({ s'.book with futures := futures, failed := failed } : Book) =
      { b with futures := futures, failed := failed }) : s'.book.Kept := by
  have hf : b.futures = s'.book.futures := funext hfutures
  have hg : b.failed = s'.book.failed := funext hfailed
  have hbook : s'.book = b :=
    calc s'.book = { s'.book with futures := b.futures, failed := b.failed } := by rw [hf, hg]
      _ = b := hrest _ _
  rw [hbook]
  exact h

theorem kept_of_same (h : s.book.Kept) (hfutures : ∀ q, s'.futures q = s.futures q)
    (hfailed : ∀ q, (s'.phase q).failed = (s.phase q).failed)
    (hrest : ∀ futures failed, ({ s'.book with futures := futures, failed := failed } : Book) =
      { s.book with futures := futures, failed := failed }) : s'.book.Kept :=
  kept_of_book h (fun q => (hfutures q).symm) (fun q => (hfailed q).symm) hrest

theorem futures_setState (s : Engine) (reqId : String) (state : Option DirectState) (q : String) :
    (s.setState reqId state).futures q =
      if q = reqId then state.elim [] DirectState.futures else s.futures q := by
  show (update s.states reqId state q).elim [] DirectState.futures = _
  rw [update_apply]
  split
  · rfl
  · rfl

theorem futures_getD (s : Engine) (reqId : String) :
    ((s.states reqId).getD DirectState.new).futures = s.futures reqId := by
  unfold Engine.futures
  cases s.states reqId with
  | none | some => rfl

theorem futures_discardKeys (s : Engine) (reqId : String) (keys : Finset String) (q : String) :
    (s.discardKeys reqId keys).futures q = s.futures q := by
  unfold Engine.discardKeys
  rw [futures_setState]
  split
  · next hq =>
    rw [hq]
    unfold Engine.futures
    cases s.states reqId with
    | none | some => rfl
  · rfl

theorem phase_setPhase (s : Engine) (reqId : String) (phase : Phase) (q : String) :
    (s.setPhase reqId phase).phase q = if q = reqId then phase else s.phase q :=
  update_apply ..

theorem submits_setPhase (s : Engine) (reqId : String) (phase : Phase) (q : String) :
    (update s.phase reqId phase q).submits =
      if q = reqId then phase.submits else (s.phase q).submits := by
  rw [update_apply]
  split
  · rfl
  · rfl

theorem failed_setPhase (s : Engine) (reqId : String) (phase : Phase) (q : String) :
    (update s.phase reqId phase q).failed =
      if q = reqId then phase.failed else (s.phase q).failed := by
  rw [update_apply]
  split
  · rfl
  · rfl

theorem failed_setPhase_same {phase : Phase} (h : phase.failed = (s.phase reqId).failed)
    (q : String) : (update s.phase reqId phase q).failed = (s.phase q).failed := by
  rw [failed_setPhase]
  split
  · next hq => rw [h, hq]
  · rfl

theorem submits_same (phase : Phase) (h : phase.submits = (s.phase reqId).submits) (q : String) :
    (s.unreaped q).card + (update s.phase reqId phase q).submits +
      (if s.finalOpen q then 1 else 0) + s.storeJobs.count q = s.count q := by
  unfold Engine.count
  rw [submits_setPhase]
  split
  · next hq => rw [h, hq]
  · rfl

theorem Exact.setPhase (h : Exact s) (reqId : String) (phase : Phase)
    (hsubmits : phase.submits = (s.phase reqId).submits)
    (hfailed : phase.failed = (s.phase reqId).failed) : Exact (s.setPhase reqId phase) where
  tally := tally_same h.tally rfl (submits_same phase hsubmits)
  book := kept_of_same h.book (fun _ => rfl) (failed_setPhase_same hfailed) fun _ _ => rfl

theorem Exact.submit (h : Exact s) {keys : Finset String} (hs : s.submit reqId keys = some s') :
    Exact s' := by
  unfold Engine.submit at hs
  split at hs
  · next hphase hfinal =>
    cases hs
    refine ⟨tally_up reqId h.tally rfl fun q => ?_, ?_⟩
    · show (s.unreaped q).card + (update s.phase reqId (.submitting keys) q).submits +
        (if s.finalOpen q then 1 else 0) + s.storeJobs.count q = s.count q + _
      unfold Engine.count
      rw [submits_setPhase]
      split
      · next hq =>
        rw [hq, hphase]
        simp only [Phase.submits]
        omega
      · rfl
    · refine kept_of_same h.book (fun q => ?_)
        (failed_setPhase_same (s := s) (by rw [hphase]; rfl)) fun _ _ => rfl
      show (s.setState reqId _).futures q = _
      rw [futures_setState]
      split
      · next hq =>
        rw [hq, ← futures_getD]
        rfl
      · rfl
  · cases hs

theorem Exact.putRaises (h : Exact s) (hs : s.putRaises reqId = some s') : Exact s' := by
  unfold Engine.putRaises at hs
  split at hs
  · next keys hphase =>
    cases hs
    refine ⟨tally_down reqId h.tally rfl fun q => ?_, ?_⟩
    · show s.count q = (s.unreaped q).card + (update s.phase reqId .idle q).submits +
        (if s.finalOpen q then 1 else 0) + s.storeJobs.count q + _
      unfold Engine.count
      rw [submits_setPhase]
      by_cases hq : q = reqId
      · rw [if_pos hq, if_pos hq, hq, hphase]
        simp only [Phase.submits]
        omega
      · rw [if_neg hq, if_neg hq]
        rfl
    · exact kept_of_same h.book (futures_discardKeys s reqId keys)
        (failed_setPhase_same (s := s) (by rw [hphase]; rfl)) fun _ _ => rfl
  · cases hs

theorem Exact.putReturns (h : Exact s) (hs : s.putReturns reqId = some s') : Exact s' := by
  unfold Engine.putReturns at hs
  split at hs
  · next keys hphase =>
    cases hs
    refine ⟨tally_same h.tally rfl fun q => ?_, ?_⟩
    · have hcard : (Engine.unreaped { s with owners := s.owners ++ [reqId] } q).card =
          (s.unreaped q).card + if q = reqId then 1 else 0 :=
        card_unreaped_put { s with owners := s.owners ++ [reqId] } rfl rfl h.book.bound q
      show (Engine.unreaped { s with owners := s.owners ++ [reqId] } q).card +
        (update s.phase reqId .idle q).submits + (if s.finalOpen q then 1 else 0) +
        s.storeJobs.count q = s.count q
      unfold Engine.count
      rw [hcard, submits_setPhase]
      by_cases hq : q = reqId
      · rw [if_pos hq, if_pos hq, hq, hphase]
        rfl
      · rw [if_neg hq, if_neg hq]
        rfl
    · refine kept_of_book (h.book.put reqId keys) (fun q => ?_) (fun q => ?_) fun _ _ => rfl
      · show _ = (Engine.setState _ reqId _).futures q
        rw [futures_setState]
        show update s.futures reqId _ q = _
        rw [update_apply]
        split
        · show s.futures reqId ++ [s.owners.length] =
            ((s.states reqId).getD DirectState.new).futures ++ [s.owners.length]
          rw [futures_getD]
        · rfl
      · exact (failed_setPhase_same (s := s) (by rw [hphase]; rfl) q).symm
  · cases hs

theorem Exact.complete (h : Exact s) {future : Nat} {outcome : Outcome}
    (hs : s.complete future outcome = some s') : Exact s' := by
  unfold Engine.complete at hs
  split at hs
  · next hgo =>
    cases hs
    exact ⟨h.tally, h.book.complete hgo.1 hgo.2 outcome⟩
  · cases hs

theorem Exact.beginWait (h : Exact s) (hs : s.beginWait reqId = some s') : Exact s' := by
  unfold Engine.beginWait at hs
  split at hs
  · next hphase hstate =>
    cases hs
    exact h.setPhase reqId _ (by rw [hphase]; rfl) (by rw [hphase]; rfl)
  · cases hs

theorem Exact.endDrain (h : Exact s) (hs : s.endDrain reqId = some s') : Exact s' := by
  unfold Engine.endDrain at hs
  split at hs
  · next hphase hfutures =>
    cases hs
    exact h.setPhase reqId _ (by rw [hphase]; rfl) (by rw [hphase]; rfl)
  · next hphase hfutures =>
    cases hs
    exact h.setPhase reqId _ (by rw [hphase]; rfl) (by rw [hphase]; rfl)
  · cases hs

theorem Exact.openFinal (h : Exact s) (hs : s.openFinal reqId = some s') : Exact s' := by
  unfold Engine.openFinal at hs
  split at hs
  · next hphase hfinal =>
    cases hs
    refine ⟨tally_up reqId h.tally rfl fun q => ?_, h.book⟩
    show (s.unreaped q).card + (s.phase q).submits +
      (if update s.finalOpen reqId true q then 1 else 0) + s.storeJobs.count q =
        s.count q + _
    unfold Engine.count
    rw [update_apply]
    by_cases hq : q = reqId
    · rw [if_pos hq, if_pos hq, hq, hfinal]
      simp only [if_true, Bool.false_eq_true, if_false]
      omega
    · rw [if_neg hq, if_neg hq]
      rfl
  · cases hs

theorem Exact.closeFinal (h : Exact s) (hs : s.closeFinal reqId = some s') : Exact s' := by
  unfold Engine.closeFinal at hs
  split at hs
  · next hphase hfinal =>
    cases hs
    refine ⟨tally_down reqId h.tally rfl fun q => ?_, h.book⟩
    show s.count q = (s.unreaped q).card + (s.phase q).submits +
      (if update s.finalOpen reqId false q then 1 else 0) + s.storeJobs.count q + _
    unfold Engine.count
    rw [update_apply]
    by_cases hq : q = reqId
    · rw [if_pos hq, if_pos hq, hq, hfinal]
      simp only [if_true, Bool.false_eq_true, if_false]
      omega
    · rw [if_neg hq, if_neg hq]
      rfl
  · cases hs

theorem Exact.queueStore (h : Exact s) (reqId : String) : Exact (s.queueStore reqId) := by
  refine ⟨tally_up reqId h.tally rfl fun q => ?_, h.book⟩
  show (s.unreaped q).card + (s.phase q).submits + (if s.finalOpen q then 1 else 0) +
    (s.storeJobs ++ [reqId]).count q = s.count q + _
  unfold Engine.count
  rw [count_append, count_singleton]
  by_cases hq : q = reqId
  · simp [hq, Nat.add_assoc]
  · simp [hq, Ne.symm hq]

theorem Exact.endStore (h : Exact s) (hs : s.endStore reqId = some s') : Exact s' := by
  unfold Engine.endStore at hs
  split at hs
  · next hmem =>
    cases hs
    refine ⟨tally_down reqId h.tally rfl fun q => ?_, h.book⟩
    show s.count q = (s.unreaped q).card + (s.phase q).submits +
      (if s.finalOpen q then 1 else 0) + (s.storeJobs.erase reqId).count q + _
    unfold Engine.count
    by_cases hq : q = reqId
    · have hpos := count_pos_iff.2 hmem
      rw [if_pos hq, hq, count_erase_self]
      omega
    · rw [if_neg hq, count_erase_of_ne hq]
      rfl
  · cases hs

theorem Exact.drop (h : Exact s) {released : Bool} (hs : s.drop reqId released = some s') :
    Exact s' := by
  unfold Engine.drop at hs
  split at hs
  · split at hs
    · cases hs
      exact h
    · next state hstate =>
      split at hs
      · next hgo =>
        cases hs
        refine ⟨h.tally, kept_of_same h.book (fun q => ?_) (fun _ => rfl) fun _ _ => rfl⟩
        rw [futures_setState]
        split
        · next hq =>
          rw [hq]
          unfold Engine.futures
          rw [hstate]
          exact hgo.1.symm
        · rfl
      · cases hs
        exact h
  · cases hs

/-! ## Counting down -/

theorem tally_reap (h : Tally s.pending s.count) (howner : s.owners[f]? = some reqId)
    (hopen : f ∉ s.completed) (keys : Finset String) :
    Tally (s.reap reqId keys f).pending (s.reap reqId keys f).count := by
  refine tally_down reqId h rfl fun q => ?_
  have howners : (s.reap reqId keys f).owners = s.owners := rfl
  have hcompleted : (s.reap reqId keys f).completed = insert f s.completed := rfl
  have hcard := card_unreaped_reap _ howners hcompleted howner hopen q
  show s.count q = ((s.reap reqId keys f).unreaped q).card + (s.phase q).submits +
    (if s.finalOpen q then 1 else 0) + s.storeJobs.count q + _
  unfold Engine.count
  rw [hcard]
  omega

theorem book_reap (s : Engine) (reqId : String) (keys : Finset String) (f : Nat) :
    (s.reap reqId keys f).book = s.book.reap f := by
  have hfutures : (s.reap reqId keys f).futures = s.futures :=
    funext (futures_discardKeys s reqId keys)
  show ({ s.book.reap f with futures := (s.reap reqId keys f).futures } : Book) = _
  rw [hfutures]
  rfl

theorem Exact.directStoreDone (h : Exact s) (howner : s.owners[f]? = some reqId)
    (keys : Finset String) : Exact (s.directStoreDone reqId keys f) := by
  unfold Engine.directStoreDone
  split
  · exact h
  · next hgo =>
    rw [not_or, not_not] at hgo
    refine ⟨tally_reap h.tally howner hgo.1 keys, ?_⟩
    rw [book_reap]
    exact h.book.reap (lt_of_getElem? howner) hgo.1 hgo.2

theorem Exact.callback (h : Exact s) (hs : s.callback f = some s') : Exact s' := by
  unfold Engine.callback at hs
  split at hs
  · next q keys o hcallback ho =>
    cases hs
    have hran : Exact { s with callbacks := s.callbacks.pop f } := ⟨h.tally, h.book.ran f⟩
    exact hran.directStoreDone (h.book.callback f q keys hcallback) keys
  · cases hs

theorem book_take {state : DirectState} {futures : List Nat} (s : Engine) :
    ({ s.setState reqId (some { state with futures := futures }) with
      retryArgs := s.retryArgs.pop f } : Engine).book = s.book.take reqId f futures := by
  have hfutures : (s.setState reqId (some { state with futures := futures })).futures =
      update s.futures reqId futures := by
    funext q
    rw [futures_setState, update_apply]
    rfl
  show ({ s.book with
    futures := (s.setState reqId (some { state with futures := futures })).futures
    retryArgs := s.retryArgs.pop f } : Book) = _
  rw [hfutures]
  rfl

/-- A drain takes one future, by what became of it. -/
theorem Exact.drain (h : Exact s) (hs : s.drain reqId = some s') : Exact s' := by
  unfold Engine.drain at hs
  split at hs
  · next failed state hphase hstate =>
    split at hs
    · cases hs
    next f futures hfutures =>
    have hlist : s.book.futures reqId = f :: futures := by
      show s.futures reqId = _
      unfold Engine.futures
      rw [hstate]
      exact hfutures
    have howner : s.owners[f]? = some reqId := h.book.owned reqId f (mem_held_head hlist)
    have hfailed : s.book.failed reqId = failed.map Prod.fst := by
      show (s.phase reqId).failed = _
      rw [hphase]
      rfl
    have hretry : s.retryArgs.get? f ≠ none := fun hnone =>
      Dict.get?_eq_none.1 hnone (h.book.retry reqId f (by rw [hlist]; exact mem_cons_self))
    simp only at hs
    split at hs
    · cases hs
    · -- the state of the transfer is unknown
      next ho =>
      cases hs
      refine ⟨tally_same h.tally rfl fun q => ?_, ?_⟩
      · exact submits_same .idle (by rw [hphase]; rfl) q
      · have hkept := h.book.abandon hlist ho
        rw [hfailed] at hkept
        refine kept_of_book hkept (fun q => ?_) (fun q => ?_) fun _ _ => rfl
        · show _ = (s.setState reqId _).futures q
          rw [futures_setState]
          exact update_apply ..
        · show update s.book.failed reqId [] q =
            (update s.phase reqId .idle q).failed
          rw [failed_setPhase, update_apply]
          rfl
    · next hnone => exact absurd hnone hretry
    · next hnone => exact absurd hnone hretry
    · next keys ho hkeys =>
      cases hs
      unfold Engine.directStoreDone
      split
      · next hdone =>
        have hc : f ∈ s.completed := hdone.resolve_right fun hne => hne ho
        refine ⟨h.tally, ?_⟩
        rw [book_take]
        exact h.book.take hlist hc
      · next hgo =>
        rw [not_or, not_not] at hgo
        have hc : f ∉ s.completed := hgo.1
        refine ⟨tally_reap h.tally howner hc keys, ?_⟩
        rw [book_reap, book_take]
        have hreap := h.book.reap (lt_of_getElem? howner) hc ho
        have hlist' : (s.book.reap f).futures reqId = f :: futures := hlist
        exact hreap.take hlist' (Finset.mem_insert_self f _)
    · next keys ho hkeys =>
      cases hs
      refine ⟨tally_same h.tally rfl fun q => ?_, ?_⟩
      · exact submits_same (.draining (failed ++ [(f, keys)])) (by rw [hphase]; rfl) q
      · have hkept := h.book.fail hlist ho
        rw [hfailed] at hkept
        refine kept_of_book hkept (fun q => ?_) (fun q => ?_) fun _ _ => rfl
        · show _ = (s.setState reqId _).futures q
          rw [futures_setState]
          exact update_apply ..
        · show update s.book.failed reqId (failed.map Prod.fst ++ [f]) q =
            (update s.phase reqId (.draining (failed ++ [(f, keys)])) q).failed
          rw [failed_setPhase, update_apply]
          split
          · show _ = (failed ++ [(f, keys)]).map Prod.fst
            rw [map_append]
            rfl
          · rfl
  · cases hs

theorem setPhase_setPhase (s : Engine) (reqId : String) (phase phase' : Phase) :
    (s.setPhase reqId phase).setPhase reqId phase' = s.setPhase reqId phase' := by
  unfold Engine.setPhase
  simp only [update_idem]

theorem Exact.reapFailed {e : Nat × Finset String} {failed : List (Nat × Finset String)}
    (h : Exact (s.setPhase reqId (.repairing (e :: failed)))) :
    Exact ((s.reap reqId e.2 e.1).setPhase reqId (.repairing failed)) := by
  have hphase : (s.setPhase reqId (.repairing (e :: failed))).phase reqId =
      .repairing (e :: failed) := by
    rw [phase_setPhase, if_pos rfl]
  have heq : (s.reap reqId e.2 e.1).setPhase reqId (.repairing failed) =
      ((s.setPhase reqId (.repairing (e :: failed))).reap reqId e.2 e.1).setPhase reqId
        (.repairing failed) :=
    (setPhase_setPhase (s.reap reqId e.2 e.1) reqId _ _).symm
  rw [heq]
  generalize s.setPhase reqId (.repairing (e :: failed)) = t at h hphase
  have hlist : t.book.failed reqId = e.1 :: failed.map Prod.fst := by
    show (t.phase reqId).failed = _
    rw [hphase]
    rfl
  have howner : t.owners[e.1]? = some reqId :=
    h.book.owned reqId e.1 (mem_append_left _ (by rw [hlist]; exact mem_cons_self))
  have hopen : e.1 ∉ t.completed :=
    (h.book.failed reqId e.1 (by rw [hlist]; exact mem_cons_self)).2
  refine ⟨tally_same (tally_reap h.tally howner hopen e.2) rfl fun q => ?_, ?_⟩
  · exact submits_same (s := t.reap reqId e.2 e.1) (.repairing failed)
      (show 0 = (t.phase reqId).submits by rw [hphase]; rfl) q
  · refine kept_of_book (h.book.repaired hlist) (fun q => ?_) (fun q => ?_) fun _ _ => rfl
    · exact (futures_discardKeys t reqId e.2 q).symm
    · show update t.book.failed reqId (failed.map Prod.fst) q =
        (update t.phase reqId (.repairing failed) q).failed
      rw [failed_setPhase, update_apply]
      rfl

theorem Exact.repair (failed : List (Nat × Finset String))
    (h : Exact (s.setPhase reqId (.repairing failed))) :
    Exact ((failed.foldl (fun s e => s.reap reqId e.2 e.1) s).setPhase reqId .idle) := by
  induction failed generalizing s with
  | nil =>
    have hphase : (s.setPhase reqId (.repairing [])).phase reqId = .repairing [] := by
      rw [phase_setPhase, if_pos rfl]
    have hidle := h.setPhase reqId .idle (by rw [hphase]; rfl)
      (by rw [hphase]; rfl)
    rw [setPhase_setPhase] at hidle
    exact hidle
  | cons e failed ih =>
    rw [foldl_cons]
    exact ih h.reapFailed

theorem Exact.endRepair (h : Exact s) (hs : s.endRepair reqId = some s') : Exact s' := by
  unfold Engine.endRepair at hs
  split at hs
  · next failed hphase =>
    cases hs
    refine Exact.repair failed ?_
    rw [← hphase]
    exact h.setPhase reqId _ rfl rfl
  · cases hs

theorem exact_new : Exact Engine.new where
  tally := by
    refine Tally.empty.congr fun q => ?_
    show 0 = (Engine.new.unreaped q).card + 0 + (if false = true then 1 else 0) + 0
    rfl
  book := by
    refine ⟨fun _ _ => rfl, fun f hf => absurd hf (Finset.notMem_empty f),
      fun f hf => absurd hf (Finset.notMem_empty f), nodup_nil, fun f => ?_,
      nofun, fun q => nodup_nil,
      nofun, nofun,
      fun f q keys hf => ?_, fun f q hf => ?_, nofun,
      nofun⟩
    · exact ⟨nofun, fun hf => absurd hf (Finset.notMem_empty f)⟩
    · cases hf
    · cases hf

theorem exact_inductive : machine.Inductive Exact where
  start s h := by
    cases h
    exact exact_new
  step s a s' h hstep := by
    cases a with
    | submit reqId keys => exact h.submit hstep
    | putRaises reqId => exact h.putRaises hstep
    | putReturns reqId => exact h.putReturns hstep
    | complete future outcome => exact h.complete hstep
    | callback future => exact h.callback hstep
    | beginWait reqId => exact h.beginWait hstep
    | drain reqId => exact h.drain hstep
    | endDrain reqId => exact h.endDrain hstep
    | endRepair reqId => exact h.endRepair hstep
    | openFinal reqId => exact h.openFinal hstep
    | closeFinal reqId => exact h.closeFinal hstep
    | queueStore reqId =>
      cases hstep
      exact h.queueStore reqId
    | endStore reqId => exact h.endStore hstep
    | drop reqId released => exact h.drop hstep
    | poll finishedReqIds =>
      cases hstep
      exact ⟨h.tally, h.book⟩

/-! ## Reports -/

theorem Exact.not_mem_pending (h : Exact s) (reqId : String) :
    reqId ∉ s.pending.keys ↔ s.count reqId = 0 := by
  rw [h.tally.mem_keys, Nat.pos_iff_ne_zero, not_not]

theorem not_mem_pending_of_finished {ids : Finset String}
    (h : reqId ∈ (s.getFinishedStores ids).1) : reqId ∉ s.pending.keys := by
  rcases Finset.mem_union.1 h with h | h <;> exact (Finset.mem_filter.1 h).2

theorem finished_of_not_mem_pending {ids : Finset String} (h : reqId ∉ s.pending.keys)
    (hasked : reqId ∈ s.deferredFinished ∨ reqId ∈ ids ∧ reqId ∉ s.reportedFinished) :
    reqId ∈ (s.getFinishedStores ids).1 := by
  rcases hasked with hdeferred | ⟨hids, hnew⟩
  · exact Finset.mem_union_left _ (Finset.mem_filter.2 ⟨hdeferred, h⟩)
  · refine Finset.mem_union_right _ (Finset.mem_filter.2 ⟨?_, h⟩)
    exact Finset.mem_sdiff.2 ⟨hids, fun hr => hnew (Finset.mem_inter.1 hr).1⟩

/-! ## Every run -/

/-- No step of the request goes on, and its waits have taken every future. -/
structure Engine.Drained (s : Engine) (reqId : String) : Prop where
  phase : s.phase reqId = .idle
  futures : s.futures reqId = []

theorem Exact.drained (h : Exact s) (hdrained : s.Drained reqId)
    (howner : s.owners[f]? = some reqId) : f ∈ s.countedDown ∨ f ∈ s.abandoned := by
  by_cases hc : f ∈ s.completed
  · exact .inl ((h.book.counted f).2 hc)
  refine .inr ((h.book.held f reqId howner hc).resolve_left fun hheld => ?_)
  have hempty : s.book.held reqId = [] := by
    show (s.phase reqId).failed ++ s.futures reqId = []
    rw [hdrained.phase, hdrained.futures]
    rfl
  rw [hempty] at hheld
  cases hheld

/-- Without a final section and background jobs, only abandoned futures leave an entry. -/
theorem Exact.settled (h : Exact s) (hdrained : s.Drained reqId)
    (hfinal : s.finalOpen reqId = false) (hjobs : reqId ∉ s.storeJobs) :
    reqId ∉ s.pending.keys ↔ ∀ f ∈ s.abandoned, s.owners[f]? ≠ some reqId := by
  have hcount : s.count reqId = (s.unreaped reqId).card := by
    unfold Engine.count
    rw [hdrained.phase, hfinal, count_eq_zero.2 hjobs]
    rfl
  rw [h.not_mem_pending, hcount, Finset.card_eq_zero, Finset.eq_empty_iff_forall_notMem]
  constructor
  · intro hnone f hf howner
    exact hnone f (mem_unreaped.2 ⟨howner, (h.book.abandoned f hf).1⟩)
  · intro hnone f hf
    obtain ⟨howner, hc⟩ := mem_unreaped.1 hf
    rcases h.drained hdrained howner with hcounted | habandoned
    · exact hc ((h.book.counted f).1 hcounted)
    · exact hnone f habandoned howner

/-! ## Abandoned futures -/

/-- The future stays abandoned. -/
structure Abandons (f : Nat) (reqId : String) (s : Engine) : Prop where
  mem : f ∈ s.abandoned
  owner : s.owners[f]? = some reqId

/-- What a step keeps: abandoned futures, the owners of futures, and the requests that wait for a
report or have had theirs. -/
structure Onward (s s' : Engine) : Prop where
  abandoned : s.abandoned ⊆ s'.abandoned
  deferred : s'.deferredFinished = s.deferredFinished
  reported : s'.reportedFinished = s.reportedFinished
  owners : ∃ more, s'.owners = s.owners ++ more

theorem Onward.of_eq (habandoned : s'.abandoned = s.abandoned) (howners : s'.owners = s.owners)
    (hdeferred : s'.deferredFinished = s.deferredFinished)
    (hreported : s'.reportedFinished = s.reportedFinished) : Onward s s' :=
  ⟨habandoned ▸ Subset.refl _, hdeferred, hreported, [], by rw [howners, append_nil]⟩

theorem Onward.trans {s'' : Engine} (h : Onward s s') (h' : Onward s' s'') : Onward s s'' := by
  obtain ⟨more, howners⟩ := h.owners
  obtain ⟨more', howners'⟩ := h'.owners
  exact ⟨Subset.trans h.abandoned h'.abandoned, h'.deferred.trans h.deferred,
    h'.reported.trans h.reported, more ++ more', by rw [howners', howners, append_assoc]⟩

theorem Onward.directStoreDone (h : Onward s s') (q : String) (keys : Finset String) (g : Nat) :
    Onward s (s'.directStoreDone q keys g) := by
  unfold Engine.directStoreDone
  split
  · exact h
  · exact h.trans (.of_eq rfl rfl rfl rfl)

theorem onward_repair (q : String) (failed : List (Nat × Finset String)) :
    Onward s (failed.foldl (fun s e => s.reap q e.2 e.1) s) := by
  induction failed generalizing s with
  | nil => exact .of_eq rfl rfl rfl rfl
  | cons e failed ih =>
    have hreap : Onward s (s.reap q e.2 e.1) := .of_eq rfl rfl rfl rfl
    exact hreap.trans ih

theorem onward_drain {q : String} (hs : s.drain q = some s') : Onward s s' := by
  unfold Engine.drain at hs
  split at hs
  · split at hs
    · cases hs
    simp only at hs
    split at hs <;> cases hs
    · exact ⟨fun f hf => mem_append_left _ (mem_append_left _ hf), rfl, rfl, [],
        (append_nil _).symm⟩
    · exact .of_eq rfl rfl rfl rfl
    · exact .of_eq rfl rfl rfl rfl
    · refine .directStoreDone ?_ _ _ _
      exact .of_eq rfl rfl rfl rfl
    · exact .of_eq rfl rfl rfl rfl
  · cases hs

/-- Every step but `get_finished_stores`. -/
theorem step_onward {a : Action} (hpoll : ∀ ids, a ≠ .poll ids) (hs : step s a = some s') :
    Onward s s' := by
  cases a with
  | submit q keys =>
    change s.submit q keys = _ at hs
    unfold Engine.submit at hs
    split at hs <;> cases hs
    exact .of_eq rfl rfl rfl rfl
  | putRaises q =>
    change s.putRaises q = _ at hs
    unfold Engine.putRaises at hs
    split at hs <;> cases hs
    exact .of_eq rfl rfl rfl rfl
  | putReturns q =>
    change s.putReturns q = _ at hs
    unfold Engine.putReturns at hs
    split at hs <;> cases hs
    exact ⟨Subset.refl _, rfl, rfl, [q], rfl⟩
  | complete future outcome =>
    change s.complete future outcome = _ at hs
    unfold Engine.complete at hs
    split at hs <;> cases hs
    exact .of_eq rfl rfl rfl rfl
  | callback future =>
    change s.callback future = _ at hs
    unfold Engine.callback at hs
    split at hs <;> cases hs
    refine .directStoreDone ?_ _ _ _
    exact .of_eq rfl rfl rfl rfl
  | beginWait q =>
    change s.beginWait q = _ at hs
    unfold Engine.beginWait at hs
    split at hs <;> cases hs
    exact .of_eq rfl rfl rfl rfl
  | drain q => exact onward_drain hs
  | endDrain q =>
    change s.endDrain q = _ at hs
    unfold Engine.endDrain at hs
    split at hs <;> cases hs <;> exact .of_eq rfl rfl rfl rfl
  | endRepair q =>
    change s.endRepair q = _ at hs
    unfold Engine.endRepair at hs
    split at hs
    · next failed _ =>
      cases hs
      exact .trans (onward_repair q failed) (.of_eq rfl rfl rfl rfl)
    · cases hs
  | openFinal q =>
    change s.openFinal q = _ at hs
    unfold Engine.openFinal at hs
    split at hs <;> cases hs
    exact .of_eq rfl rfl rfl rfl
  | closeFinal q =>
    change s.closeFinal q = _ at hs
    unfold Engine.closeFinal at hs
    split at hs <;> cases hs
    exact .of_eq rfl rfl rfl rfl
  | queueStore =>
    cases hs
    exact .of_eq rfl rfl rfl rfl
  | endStore q =>
    change s.endStore q = _ at hs
    unfold Engine.endStore at hs
    split at hs <;> cases hs
    exact .of_eq rfl rfl rfl rfl
  | drop q released =>
    change s.drop q released = _ at hs
    unfold Engine.drop at hs
    split at hs
    · split at hs
      · cases hs
        exact .of_eq rfl rfl rfl rfl
      · split at hs <;> cases hs <;> exact .of_eq rfl rfl rfl rfl
    · cases hs
  | poll ids => exact absurd rfl (hpoll ids)

theorem Abandons.step (h : Abandons f reqId s) {a : Action} (hs : step s a = some s') :
    Abandons f reqId s' := by
  by_cases hpoll : ∃ ids, a = .poll ids
  · obtain ⟨ids, rfl⟩ := hpoll
    cases hs
    exact ⟨h.mem, h.owner⟩
  · have honward := step_onward (not_exists.1 hpoll) hs
    obtain ⟨more, howners⟩ := honward.owners
    exact ⟨honward.abandoned h.mem, howners ▸ getElem?_append_some h.owner more⟩

/-- An abandoned future has not counted down, so its request has an entry. -/
theorem Abandons.mem_pending (hs : machine.Reachable s) (h : Abandons f reqId s) :
    f ∉ s.countedDown ∧ reqId ∈ s.pending.keys := by
  have hexact := exact_inductive.reachable hs
  have hnone := (hexact.book.abandoned f h.mem).1
  refine ⟨fun hcounted => hnone ((hexact.book.counted f).1 hcounted), ?_⟩
  by_contra hentry
  have hcount := (hexact.not_mem_pending reqId).1 hentry
  have hmem : f ∈ s.unreaped reqId := mem_unreaped.2 ⟨h.owner, hnone⟩
  have hpos := Finset.card_pos.2 ⟨f, hmem⟩
  unfold Engine.count at hcount
  omega

/-- It never counts down, and the request keeps its entry. -/
theorem Abandons.for_ever (hs : machine.Reachable s) (h : Abandons f reqId s)
    (hs' : (machine.after s).Reachable s') : f ∉ s'.countedDown ∧ reqId ∈ s'.pending.keys := by
  have hlasts : (machine.after s).Inductive (Abandons f reqId) :=
    ⟨fun t ht => ht ▸ h, fun t a t' ht hstep => ht.step hstep⟩
  exact Abandons.mem_pending (hs.trans_after hs') (hlasts.reachable hs')

/-- **The pending count.**  In every run the entry of a request is its count; a future counts down
at most once, and exactly when it is reaped; a drained request has counted down all futures but
those that a wait drained which met a transfer of unknown state, and these never do, in no run from
there on; and a request is reported if and only if its count is zero. -/
theorem pending_counts {s : Engine} (hs : machine.Reachable s) :
    (∀ q, s.pending.get? q = if s.count q = 0 then none else some (s.count q)) ∧
    (s.countedDown.Nodup ∧ ∀ f, f ∈ s.countedDown ↔ f ∈ s.completed) ∧
    (∀ q, s.Drained q → ∀ f, s.owners[f]? = some q → f ∈ s.countedDown ∨ f ∈ s.abandoned) ∧
    (∀ q, s.Drained q → s.finalOpen q = false → q ∉ s.storeJobs →
      (q ∉ s.pending.keys ↔ ∀ f ∈ s.abandoned, s.owners[f]? ≠ some q)) ∧
    (∀ f ∈ s.abandoned, ∃ q, s.owners[f]? = some q ∧
      (∃ g ∈ s.abandoned, s.owners[g]? = some q ∧ s.outcome g = some .unknown) ∧
      ∀ s', (machine.after s).Reachable s' → f ∉ s'.countedDown ∧ q ∈ s'.pending.keys) ∧
    ∀ ids q, (q ∈ (s.getFinishedStores ids).1 → s.count q = 0) ∧
      (s.count q = 0 → q ∈ s.deferredFinished ∨ q ∈ ids ∧ q ∉ s.reportedFinished →
        q ∈ (s.getFinishedStores ids).1) := by
  have h := exact_inductive.reachable hs
  refine ⟨h.tally, ⟨h.book.once, h.book.counted⟩, fun q hq f hf => h.drained hq hf,
    fun q hq hfinal hjobs => h.settled hq hfinal hjobs, fun f hf => ?_,
    fun ids q => ⟨fun hq => ?_, fun hq => ?_⟩⟩
  · obtain ⟨q, howner, hfatal⟩ := h.book.fatal f hf
    exact ⟨q, howner, hfatal, fun s' hs' => Abandons.for_ever hs ⟨hf, howner⟩ hs'⟩
  · exact (h.not_mem_pending q).1 (not_mem_pending_of_finished hq)
  · exact finished_of_not_mem_pending ((h.not_mem_pending q).2 hq)

/-- One batch, whose transfer ends in an unknown state. -/
def unknownTransfer : List Action :=
  [.submit "request" {"key"}, .putReturns "request", .complete 0 .unknown, .callback 0,
    .beginWait "request", .drain "request"]

/-- After the wait no future of the request is outstanding, no callback is left, and no section is
open; its entry is one, and no later step removes it. -/
theorem pending_after_unknown : ∃ s, machine.run Engine.new unknownTransfer = some s ∧
    s.Drained "request" ∧ s.callbacks.keys = [] ∧ s.finalOpen "request" = false ∧
    s.storeJobs = [] ∧ s.pending.get? "request" = some 1 ∧
    ∀ s', (machine.after s).Reachable s' → "request" ∈ s'.pending.keys := by
  obtain ⟨s, hs⟩ : ∃ s, machine.run Engine.new unknownTransfer = some s := ⟨_, rfl⟩
  have hreach : machine.Reachable s := Machine.reachable_of_run rfl hs
  refine ⟨s, hs, ?_⟩
  have habandons : Abandons 0 "request" s := by
    cases hs
    exact ⟨mem_singleton_self 0, rfl⟩
  refine ⟨?_, ?_, ?_, ?_, ?_, fun s' hs' => ?_⟩
  · cases hs
    exact ⟨rfl, rfl⟩
  · cases hs
    rfl
  · cases hs
    rfl
  · cases hs
    rfl
  · cases hs
    rfl
  · exact (Abandons.for_ever hreach habandons hs').2

end

/-! ## A failure, a success and a final section -/

/-- The first batch succeeds, its callback comes after the wait; the second one is repaired. -/
def repairedStore : List Action :=
  [.submit "request" {"a"}, .putReturns "request", .submit "request" {"b"}, .putReturns "request",
    .openFinal "request", .complete 0 .ok, .beginWait "request", .drain "request",
    .complete 1 .failed, .callback 1, .callback 0, .drain "request", .endDrain "request",
    .endRepair "request"]

/-- The open final section is all that is left. -/
theorem pending_counts_repaired : ∃ s, machine.run Engine.new repairedStore = some s ∧
    s.countedDown = [0, 1] ∧ s.pending.get? "request" = some (s.count "request") ∧
    s.count "request" = 1 := by
  obtain ⟨s, hs⟩ : ∃ s, machine.run Engine.new repairedStore = some s := ⟨_, rfl⟩
  have hreach : machine.Reachable s := Machine.reachable_of_run rfl hs
  have hcount : s.count "request" = 1 := by
    cases hs
    decide +kernel
  have hentry := (pending_counts hreach).1 "request"
  rw [if_neg (by rw [hcount]; exact Nat.one_ne_zero)] at hentry
  refine ⟨s, hs, ?_, hentry, hcount⟩
  cases hs
  rfl

end PendingStores
