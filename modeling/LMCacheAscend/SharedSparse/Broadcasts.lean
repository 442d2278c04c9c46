import LMCacheAscend.SharedSparse.Publication

/-!
# A resumption of rank 0

Each way through a resumption keeps `Rank0Ok`: it stops where the sequence
stops, it refuses its layer, or it publishes and goes on.  The condition
`Covered` is used where rank 0 stops although the sequence goes on.
-/

namespace SharedSparse

open Lib List Option

section

variable {p : Plan} {ds : List Drive} {d : Drive} {t : Trouble} {r : Rank0} {taken layerId : Nat}
  {sent : List SharedHandleEnvelope} {y : Yield}

/-! ## What is known at a yield -/

theorem Plan.Needs.zero (h : p.Needs layerId) (hc : p.compactHandleBatch.isSome) :
    layerId = 0 := by
  rcases h with hnone | hzero
  · rw [hnone] at hc
    cases hc
  · exact hzero

theorem Rank0Ok.answered_of_opened (h : Rank0Ok p ds r taken sent)
    (hpos : position p.numLayers ds taken = some y) (hpubl : p.publishSharedHandles = true)
    (hlt : layerId < p.numLayers) (hop : layerId < y.opened p.numLayers)
    (hneeds : p.Needs layerId) : Answered sent layerId := by
  obtain ⟨j, hj, hopens⟩ := exists_opens p.layers_pos hpos hlt hop
  exact h.answered hpubl j layerId hj hopens hneeds

theorem Rank0Ok.compact_of_batch (h : Rank0Ok p ds r taken sent)
    (hb : r.batchPublished = true) : p.compactHandleBatch.isSome := by
  obtain ⟨e, he, hbatch⟩ := h.batch.1 hb
  have hmade := h.made e he
  obtain ⟨hstatus, hfirst⟩ := hmade.batch hbatch
  rw [← hmade.first hstatus hfirst]
  exact hbatch

theorem Rank0Ok.unpublished (h : Rank0Ok p ds r taken sent) (hy : r.point = some y)
    (hop : y.opened p.numLayers = 0) : r.batchPublished = false := by
  cases hb : r.batchPublished with
  | false => rfl
  | true =>
    obtain ⟨e, he, _⟩ := h.batch.1 hb
    have hlt := h.below y hy e he
    rw [hop] at hlt
    cases hlt

theorem Rank0Ok.batch_eq (h : Rank0Ok p ds r taken sent) (hy : r.point = some y)
    (hop : p.compactHandleBatch.isSome → 0 < y.opened p.numLayers) :
    r.batchPublished = p.compactHandleBatch.isSome := by
  cases hc : p.compactHandleBatch.isSome with
  | true => exact h.published hc y hy (hop hc)
  | false =>
    cases hb : r.batchPublished with
    | false => rfl
    | true =>
      rw [h.compact_of_batch hb] at hc
      cases hc

theorem publish_of_compact (hc : p.compactHandleBatch.isSome) :
    p.publishSharedHandles = true := decide_eq_true (p.compact_publishes hc)

theorem advance_of_opens {n : Nat} {ds : List Drive} {j layerId : Nat} {y : Yield} {d : Drive}
    (hop : Opens n ds j layerId) (hpos : position n ds j = some y) (hd : ds[j]? = some d) :
    y = .layer layerId ∧ advance n y d ≠ none := by
  obtain ⟨hlayer, request, flags, hreq, hflags⟩ := hop
  rw [hpos] at hlayer
  rw [hd] at hreq
  cases hlayer
  cases hreq
  refine ⟨rfl, fun hnone => ?_⟩
  rw [advance, hflags] at hnone
  cases hnone

/-! ## Stops -/

theorem ends_not_some {r : Rank0} : ¬ ∃ z, (r.ends p t).2.point = some z := by
  rintro ⟨z, hz⟩
  rw [ends_point] at hz
  cases hz

theorem Rank0Ok.stops (h : Rank0Ok p ds r taken sent) (ht : t.Heard) (hy : r.point = some y)
    (hlive : y ≠ .final) (hpos : position p.numLayers ds taken = some y)
    (hd : ds[taken]? = some d) (hadv : advance p.numLayers y d = none) :
    Rank0Ok p ds (r.ends p t).2 (taken + 1) (sent ++ (r.ends p t).1) := by
  have hx : Tail p r y True (r.ends p t) := .ends ht (h.fresh y hy hlive) trivial
  refine h.absorb hy hlive hpos hd (.nil p r y d) hx (fun hsome => absurd hsome ends_not_some) ?_
    fun _ _ => .inl hadv
  intro _ layerId hop _
  exact absurd hadv (advance_of_opens hop hpos hd).2

theorem Rank0Ok.aborts (h : Rank0Ok p ds r taken sent) (ht : t.Heard)
    (hy : r.point = some (.layer layerId))
    (hpos : position p.numLayers ds taken = some (.layer layerId)) (hd : ds[taken]? = some d)
    (hpast : p.publishSharedHandles = true → p.compactHandleBatch.isSome ∧ layerId ≠ 0) :
    Rank0Ok p ds (r.ends p t).2 (taken + 1) (sent ++ (r.ends p t).1) := by
  have hx : Tail p r (.layer layerId) True (r.ends p t) := .ends ht (h.fresh _ hy nofun) trivial
  refine h.absorb hy nofun hpos hd (.nil p r _ d) hx (fun hsome => absurd hsome ends_not_some) ?_ ?_
  · intro hpubl layerId' hop hneeds
    obtain ⟨hc, hpast⟩ := hpast hpubl
    cases (advance_of_opens hop hpos hd).1
    exact absurd (hneeds.zero hc) hpast
  · intro hpubl _
    obtain ⟨hc, hpast⟩ := hpast hpubl
    refine .inr fun layerId' hlt hneeds => ?_
    cases hneeds.zero hc
    rw [append_nil]
    exact h.answered_of_opened hpos hpubl hlt (Nat.pos_of_ne_zero hpast) hneeds

theorem Rank0Ok.ends_final (h : Rank0Ok p ds r taken sent) (hy : r.point = some .final)
    (hpos : position p.numLayers ds taken = some .final) (hd : ds[taken]? = some d) :
    Rank0Ok p ds (r.ends p t).2 (taken + 1) (sent ++ (r.ends p t).1) := by
  have hstop : r.ends p t = ([], { r with point := none }) := by
    by_cases hb : r.batchPublished = true
    · exact ends_attempted (h.closed (.inr hy) hb)
    · exact ends_unpublished (Bool.eq_false_iff.2 hb)
  have hsucc : position p.numLayers ds (taken + 1) = none := position_succ hpos hd
  rw [hstop, append_nil]
  refine ⟨(nofun), (nofun), h.nodup, h.made, ?_, fun _ _ => .inl hsucc, fun _ => (nofun),
    fun _ => (nofun), h.batch, ?_, (nofun), h.attempted, fun _ => h.closed (.inr hy)⟩
  · intro hpubl j layerId hj hop hneeds
    rcases Nat.lt_succ_iff_lt_or_eq.1 hj with hj | rfl
    · exact h.answered hpubl j layerId hj hop hneeds
    · cases (advance_of_opens hop hpos hd).1
  · intro hb
    obtain ⟨j, hj, hop⟩ := h.first hb
    exact ⟨j, Nat.lt_succ_of_lt hj, hop⟩

/-! ## Refusals -/

theorem made_error (p : Plan) (layerId : Nat) (message : String) :
    p.Made (p.errorEnvelope layerId message) := ⟨rfl, (nofun), (nofun)⟩

theorem answered_error (sent : List SharedHandleEnvelope) {l l' : Nat} (hle : l ≤ l')
    (message : String) : Answered (sent ++ [p.errorEnvelope l message]) l' := by
  refine ⟨p.errorEnvelope l message, mem_append_right _ (mem_singleton_self _), ?_⟩
  rcases Nat.lt_or_eq_of_le hle with hlt | heq
  · exact .inr ⟨hlt, rfl⟩
  · exact .inl heq

theorem refuses_eq (l : Nat) (message : String) : r.refuses p t l message =
    if r.batchPublished = true ∨ Fault.errorBroadcast ∈ t.raises then r.ends p t
    else ([p.errorEnvelope l message] ++ (r.ends p t).1, (r.ends p t).2) := rfl

theorem Rank0Ok.refuses (h : Rank0Ok p ds r taken sent) (ht : t.Heard)
    (hy : r.point = some (.layer layerId))
    (hpos : position p.numLayers ds taken = some (.layer layerId)) (hd : ds[taken]? = some d)
    (hparse : ∃ request flags, d = .send request ∧ sharedSparseRequest request = some flags)
    {l : Nat} (hl : l = layerId ∨ (p.compactHandleBatch.isSome ∧ layerId ≠ 0)) (message : String) :
    Rank0Ok p ds (r.refuses p t l message).2 (taken + 1)
      (sent ++ (r.refuses p t l message).1) := by
  by_cases hb : r.batchPublished = true
  · have hpast : layerId ≠ 0 := by
      rintro rfl
      rw [h.unpublished hy rfl] at hb
      cases hb
    have hpublished : r.batchPublished = true ∨ Fault.errorBroadcast ∈ t.raises := .inl hb
    rw [refuses_eq, if_pos hpublished]
    exact h.aborts ht hy hpos hd fun _ => ⟨h.compact_of_batch hb, hpast⟩
  · have hl : l = layerId := by
      rcases hl with rfl | ⟨hc, hpast⟩
      · rfl
      · exact absurd (h.published hc _ hy (Nat.pos_of_ne_zero hpast)) hb
    subst hl
    have hno : ¬ (r.batchPublished = true ∨ Fault.errorBroadcast ∈ t.raises) :=
      fun hor => hor.elim hb ht.error
    rw [refuses_eq, if_neg hno]
    have hx : Tail p r (.layer l) True (r.ends p t) := .ends ht (h.fresh _ hy nofun) trivial
    refine h.absorb hy nofun hpos hd (.single (made_error p l message) rfl hparse rfl ?_) hx
      (fun hsome => absurd hsome ends_not_some) ?_ ?_
    · exact ⟨.inl, fun hor => hor.resolve_right nofun⟩
    · intro _ layerId' hop _
      cases (advance_of_opens hop hpos hd).1
      exact answered_error sent (Nat.le_refl l) message
    · intro hpubl _
      refine .inr fun layerId' hlt hneeds => ?_
      rcases Nat.lt_or_ge layerId' l with hbefore | hafter
      · exact (h.answered_of_opened hpos hpubl hlt hbefore hneeds).append _
      · exact answered_error sent hafter message

/-- Rank 0 has ended with the error of the first layer as its only envelope. -/
theorem Rank0Ok.lone (taken : Nat) (message : String) (hb : r.batchPublished = false)
    (hfa : r.finalAttempted = false) :
    Rank0Ok p ds { r with point := none } taken [p.errorEnvelope 0 message] := by
  have hans : ∀ l, Answered [p.errorEnvelope 0 message] l :=
    fun l => answered_error [] (Nat.zero_le l) message
  refine ⟨(nofun), (nofun), nodup_singleton _, ?_, fun _ _ l _ _ _ => hans l,
    fun _ _ => .inr fun l _ _ => hans l, fun _ => (nofun), fun _ => (nofun), ?_, ?_, (nofun),
    ?_, ?_⟩
  · intro e he
    rw [mem_singleton.1 he]
    exact made_error p 0 message
  · constructor
    · exact fun hpub => absurd (hb.symm.trans hpub) Bool.false_ne_true
    · rintro ⟨e, he, hbatch⟩
      rw [mem_singleton.1 he] at hbatch
      cases hbatch
  · exact fun hpub => absurd (hb.symm.trans hpub) Bool.false_ne_true
  · exact fun hatt => absurd (hfa.symm.trans hatt) Bool.false_ne_true
  · exact fun _ hpub => absurd (hb.symm.trans hpub) Bool.false_ne_true

/-- With nothing to publish, the error of a preflight is the only envelope. -/
theorem Rank0Ok.refuses_silent (h : Rank0Ok p ds r taken sent) (ht : t.Heard)
    (hy : r.point = some (.layer layerId)) (hpubl : p.publishSharedHandles = false)
    (message : String) :
    Rank0Ok p ds (r.refuses p t 0 message).2 (taken + 1)
      (sent ++ (r.refuses p t 0 message).1) := by
  have hb : r.batchPublished = false := by
    refine Bool.eq_false_iff.2 fun hb => ?_
    exact absurd (hpubl.symm.trans (publish_of_compact (h.compact_of_batch hb))) Bool.false_ne_true
  have hno : ¬ (r.batchPublished = true ∨ Fault.errorBroadcast ∈ t.raises) := by
    rintro (hor | hor)
    · exact absurd (hb.symm.trans hor) Bool.false_ne_true
    · exact ht.error hor
  rw [refuses_eq, if_neg hno, ends_unpublished hb, h.silent hpubl _ hy nofun]
  exact .lone _ message hb (h.fresh _ hy nofun)

/-! ## Publications -/

variable {flags : Flags} {request : SparseRequest}

theorem advance_layer (n layerId : Nat) (hflags : sharedSparseRequest request = some flags) :
    advance n (.layer layerId) (.send request) = some (if flags.prepareOnly then .prepared layerId
      else nextYield n layerId flags.deferFinish) := by
  rw [advance, hflags]
  rfl

theorem not_opens_of_ne {n : Nat} {ds : List Drive} {j : Nat} {y : Yield}
    (hpos : position n ds j = some y) (hne : ∀ l, y ≠ .layer l) (l : Nat) : ¬ Opens n ds j l := by
  rintro ⟨hlayer, _⟩
  rw [hpos] at hlayer
  exact hne l (some.inj hlayer)

section

variable (h : Rank0Ok p ds r taken sent) (ht : t.Heard) (hy : r.point = some (.layer layerId))
variable (hpos : position p.numLayers ds taken = some (.layer layerId))
variable (hd : ds[taken]? = some (.send request))
variable (hflags : sharedSparseRequest request = some flags)
variable (hcov : p.publishSharedHandles = true → .dispatch ∈ t.raises →
  p.compactHandleBatch.isSome ∨ layerId + 1 = p.numLayers)
include h ht hy hpos hd hflags hcov

theorem Rank0Ok.publishes (hpub : p.publishSharedHandles = true) (hneeds : p.Needs layerId)
    (hhandles : p.publishMemObjs.getD layerId 0 ≠ 0) {r' : Rank0}
    (hr' : r' = { r with batchPublished := r.batchPublished || p.compactHandleBatch.isSome }) :
    Rank0Ok p ds (r'.prepareOrDispatch p t layerId flags).2 (taken + 1)
      (sent ++ ([p.handleEnvelope layerId] ++ (r'.prepareOrDispatch p t layerId flags).1)) := by
  have hlt : layerId < p.numLayers := position_proper p.layers_pos hpos
  have hb : r'.batchPublished = p.compactHandleBatch.isSome := by
    rw [hr']
    show (r.batchPublished || _) = _
    cases hb : r.batchPublished with
    | false => exact Bool.false_or _
    | true =>
      rw [h.compact_of_batch hb]
      rfl
  have hfresh : r'.finalAttempted = false := by
    rw [hr']
    exact h.fresh _ hy nofun
  have hbatch : (p.handleEnvelope layerId).batch = p.compactHandleBatch := by
    show (if layerId = 0 then p.compactHandleBatch else none) = _
    rcases hneeds with hnone | hzero
    · rw [hnone, ite_self]
    · exact if_pos hzero
  have hmade : p.Made (p.handleEnvelope layerId) := by
    refine ⟨rfl, fun hsome => ⟨if_pos hhandles, ?_⟩, fun _ _ => hbatch⟩
    rw [hbatch] at hsome
    exact hneeds.zero hsome
  have hes : Publishes p r r' (.layer layerId) (.send request) [p.handleEnvelope layerId] := by
    refine .single hmade rfl ⟨request, flags, rfl, hflags⟩ ?_ ?_
    · rw [hr']
    · rw [hbatch, hr']
      show (r.batchPublished || _) = true ↔ _
      rw [Bool.or_eq_true]
  have hx := Tail.prepareOrDispatch (r := r') ht hfresh hb hlt hcov flags
  have hnew : Answered (sent ++ [p.handleEnvelope layerId]) layerId :=
    ⟨_, mem_append_right _ (mem_singleton_self _), .inl rfl⟩
  refine h.absorb hy nofun hpos hd hes hx (fun _ => ⟨advance_layer _ _ hflags,
    fun hc => hb.trans hc, fun hno => absurd (hno.symm.trans hpub) Bool.false_ne_true⟩) ?_ ?_
  · intro _ layerId' hop _
    cases (advance_of_opens hop hpos hd).1
    exact hnew
  · intro hpubl hnone
    refine .inr fun layerId' hlt' hneeds' => ?_
    have hle : layerId' ≤ layerId := by
      rcases hx.last hnone hpubl with hc | hlast
      · rw [hneeds'.zero hc]
        exact Nat.zero_le layerId
      · omega
    rcases Nat.lt_or_eq_of_le hle with hbefore | rfl
    · exact (h.answered_of_opened hpos hpubl hlt' hbefore hneeds').append _
    · exact hnew

theorem Rank0Ok.skips (hskip : ¬ (p.publishSharedHandles = true ∧ p.Needs layerId)) :
    Rank0Ok p ds (r.prepareOrDispatch p t layerId flags).2 (taken + 1)
      (sent ++ (r.prepareOrDispatch p t layerId flags).1) := by
  have hlt : layerId < p.numLayers := position_proper p.layers_pos hpos
  have hb : r.batchPublished = p.compactHandleBatch.isSome := by
    refine h.batch_eq hy fun hc => Nat.pos_of_ne_zero fun hzero => hskip ?_
    exact ⟨publish_of_compact hc, .inr hzero⟩
  have hx := Tail.prepareOrDispatch (r := r) ht (h.fresh _ hy nofun) hb hlt hcov flags
  refine h.absorb hy nofun hpos hd (.nil p r _ _) hx
    (fun _ => ⟨advance_layer _ _ hflags, fun hc => hb.trans hc, fun _ => rfl⟩) ?_ ?_
  · intro hpubl layerId' hop hneeds
    cases (advance_of_opens hop hpos hd).1
    exact absurd ⟨hpubl, hneeds⟩ hskip
  · intro hpubl hnone
    refine .inr fun layerId' hlt' hneeds' => ?_
    rw [append_nil]
    refine h.answered_of_opened hpos hpubl hlt' ?_ hneeds'
    show layerId' < layerId
    have hnot : ¬ p.Needs layerId := fun hneeds => hskip ⟨hpubl, hneeds⟩
    have hc : p.compactHandleBatch.isSome := isSome_iff_ne_none.2 fun hnone => hnot (.inl hnone)
    rw [hneeds'.zero hc]
    exact Nat.pos_of_ne_zero fun hzero => hnot (.inr hzero)

end

instance (p : Plan) (layerId : Nat) : Decidable (p.Needs layerId) :=
  inferInstanceAs (Decidable (_ ∨ _))

theorem publish_eq (flags : Flags) (r' : Rank0)
    (hr' : r' = { r with batchPublished := r.batchPublished || p.compactHandleBatch.isSome }) :
    r.publish p t layerId flags =
      if p.publishSharedHandles = true ∧ p.Needs layerId then
        if p.requiredChunks ≠ 0 ∧ p.publishMemObjs.getD layerId 0 = 0 then
          r.refuses p t layerId noMemoryObjsMessage
        else if .publication ∈ t.raises then r.refuses p t layerId publicationMessage
        else if .broadcast ∈ t.raises then r.ends p t
        else ([p.handleEnvelope layerId] ++ (r'.prepareOrDispatch p t layerId flags).1,
          (r'.prepareOrDispatch p t layerId flags).2)
      else r.prepareOrDispatch p t layerId flags := by
  rw [hr']
  rfl

theorem Rank0Ok.publish (h : Rank0Ok p ds r taken sent) (ht : t.Heard)
    (hy : r.point = some (.layer layerId))
    (hpos : position p.numLayers ds taken = some (.layer layerId))
    (hd : ds[taken]? = some (.send request))
    (hflags : sharedSparseRequest request = some flags) (hcov : Covered p layerId t) :
    Rank0Ok p ds (r.publish p t layerId flags).2 (taken + 1)
      (sent ++ (r.publish p t layerId flags).1) := by
  have hparse : ∃ q f, Drive.send request = .send q ∧ sharedSparseRequest q = some f :=
    ⟨request, flags, rfl, hflags⟩
  rw [publish_eq flags _ rfl]
  split
  · next hpublish =>
    by_cases hobjs : p.requiredChunks ≠ 0 ∧ p.publishMemObjs.getD layerId 0 = 0
    · rw [if_pos hobjs]
      exact h.refuses ht hy hpos hd hparse (.inl rfl) _
    rw [if_neg hobjs]
    by_cases hraise : .publication ∈ t.raises
    · rw [if_pos hraise]
      exact h.refuses ht hy hpos hd hparse (.inl rfl) _
    rw [if_neg hraise, if_neg ht.envelope]
    have hrequired : p.requiredChunks ≠ 0 := by
      have hlt := of_decide_eq_true hpublish.1
      omega
    exact h.publishes ht hy hpos hd hflags hcov.dispatch hpublish.1 hpublish.2
      (fun hzero => hobjs ⟨hrequired, hzero⟩) rfl
  · next hpublish =>
    exact h.skips ht hy hpos hd hflags hcov.dispatch hpublish

/-! ## All resumptions -/

theorem Rank0Ok.layer (h : Rank0Ok p ds r taken sent) (ht : t.Heard)
    (hy : r.point = some (.layer layerId))
    (hpos : position p.numLayers ds taken = some (.layer layerId))
    (hd : ds[taken]? = some (.send request)) (hcov : Covered p layerId t) :
    Rank0Ok p ds (r.layer p t layerId request).2 (taken + 1)
      (sent ++ (r.layer p t layerId request).1) := by
  unfold Rank0.layer
  cases hflags : sharedSparseRequest request with
  | none =>
    refine h.stops ht hy nofun hpos hd ?_
    rw [advance, hflags]
    rfl
  | some flags =>
    by_cases hpre : (p.useCachedRetrieve = false ∨ p.publishSharedHandles) ∧ t.failedElsewhere
    · simp only [if_pos hpre]
      cases hpubl : p.publishSharedHandles with
      | false => exact h.refuses_silent ht hy hpubl _
      | true =>
        refine h.refuses ht hy hpos hd ⟨request, flags, rfl, hflags⟩ ?_ _
        by_cases hzero : layerId = 0
        · exact .inl hzero.symm
        · exact .inr ⟨(hcov.elsewhere hpubl hpre.2).resolve_right hzero, hzero⟩
    · simp only [if_neg hpre]
      by_cases hsource : p.memObjsLayer layerId = none ∨ .source ∈ t.raises
      · simp only [if_pos hsource]
        exact h.aborts ht hy hpos hd fun hpubl => hcov.source hpubl hsource
      · simp only [if_neg hsource]
        exact h.publish ht hy hpos hd hflags hcov

theorem Rank0Ok.afterPrepare (h : Rank0Ok p ds r taken sent) (ht : t.Heard)
    (hy : r.point = some (.prepared layerId))
    (hpos : position p.numLayers ds taken = some (.prepared layerId))
    (hd : ds[taken]? = some (.send request)) (hcov : Covered p layerId t) :
    Rank0Ok p ds (r.afterPrepare p t layerId request).2 (taken + 1)
      (sent ++ (r.afterPrepare p t layerId request).1) := by
  have hlt : layerId < p.numLayers := position_proper p.layers_pos hpos
  have hopened : (Yield.prepared layerId).opened p.numLayers = layerId + 1 := rfl
  unfold Rank0.afterPrepare
  cases hflags : sharedSparseRequest request with
  | none =>
    refine h.stops ht hy nofun hpos hd ?_
    rw [advance, hflags]
    rfl
  | some flags =>
    have hadv : advance p.numLayers (.prepared layerId) (.send request) =
        if flags.prepareOnly then none
        else some (nextYield p.numLayers layerId flags.deferFinish) := by
      rw [advance, hflags]
      rfl
    by_cases hprep : flags.prepareOnly = true
    · simp only [if_pos hprep]
      refine h.stops ht hy nofun hpos hd ?_
      rw [hadv, if_pos hprep]
    simp only [if_neg hprep]
    rw [if_neg hprep] at hadv
    have hb : r.batchPublished = p.compactHandleBatch.isSome :=
      h.batch_eq hy fun _ => Nat.succ_pos layerId
    have hx := Tail.dispatch (r := r) ht (h.fresh _ hy nofun) hb hlt hcov.dispatch
      flags.deferFinish
    refine h.absorb hy nofun hpos hd (.nil p r _ _) hx
      (fun _ => ⟨hadv, fun hc => hb.trans hc, fun _ => rfl⟩)
      (fun _ l hop _ => absurd hop (not_opens_of_ne hpos nofun l)) ?_
    intro hpubl hnone
    refine .inr fun l hl hneeds => ?_
    rw [append_nil]
    refine h.answered_of_opened hpos hpubl hl ?_ hneeds
    rw [hopened]
    rcases hx.last hnone hpubl with hc | hlast
    · rw [hneeds.zero hc]
      exact Nat.succ_pos layerId
    · omega

theorem Rank0Ok.deferred (h : Rank0Ok p ds r taken sent) (ht : t.Heard)
    (hy : r.point = some .deferred) (hpos : position p.numLayers ds taken = some .deferred)
    (hd : ds[taken]? = some (.send request)) :
    Rank0Ok p ds (r.commit p t).2 (taken + 1) (sent ++ (r.commit p t).1) := by
  have hb : r.batchPublished = p.compactHandleBatch.isSome := h.batch_eq hy fun _ => p.layers_pos
  have hx : Tail p r .final True (r.commit p t) := .commit ht (h.fresh _ hy nofun) hb trivial
  refine h.absorb hy nofun hpos hd (.nil p r _ _) hx
    (fun _ => ⟨rfl, fun hc => hb.trans hc, fun _ => rfl⟩)
    (fun _ l hop _ => absurd hop (not_opens_of_ne hpos nofun l)) ?_
  intro hpubl _
  refine .inr fun l hl hneeds => ?_
  rw [append_nil]
  exact h.answered_of_opened hpos hpubl hl hl hneeds

/-- The error of the preflight is the only envelope; closed before it, nothing was opened. -/
theorem Rank0Ok.preflight (h : Rank0Ok p ds r taken sent) (ht : t.Heard)
    (hy : r.point = some .preflight) (hprelude : ∃ message, p.prelude = .preflightError message)
    (hd : ds[taken]? = some d) :
    Rank0Ok p ds (r.resume p t d).2 (taken + 1) (sent ++ (r.resume p t d).1) := by
  obtain ⟨message, hprelude⟩ := hprelude
  rcases h.point _ hy with ⟨_, rfl, rfl⟩ | hpos
  · have hstart : position p.numLayers ds 0 = some (.layer 0) := rfl
    have hb : r.batchPublished = false := by
      refine Bool.eq_false_iff.2 fun hb => ?_
      obtain ⟨e, he, _⟩ := h.batch.1 hb
      cases he
    have hfa : r.finalAttempted = false := h.fresh _ hy nofun
    have hnot : ¬ ∃ e ∈ ([] : List SharedHandleEnvelope), e.batch.isSome := fun ⟨_, he, _⟩ => nomatch he
    cases d with
    | close =>
      have hr : r.resume p t .close = ([], { r with point := none }) := by
        unfold Rank0.resume
        rw [hy]
      have hsucc : position p.numLayers ds 1 = none := position_succ hstart hd
      rw [hr]
      refine ⟨(nofun), (nofun), h.nodup, h.made, ?_, fun _ _ => .inl hsucc, fun _ => (nofun),
        fun _ => (nofun), h.batch, ?_, (nofun), ?_, ?_⟩
      · intro _ j l hj hop _
        cases Nat.lt_one_iff.1 hj
        exact absurd rfl (advance_of_opens hop hstart hd).2
      · exact fun hpub => absurd (hb.symm.trans hpub) Bool.false_ne_true
      · exact fun hatt => absurd (hfa.symm.trans hatt) Bool.false_ne_true
      · exact fun _ hpub => absurd (hb.symm.trans hpub) Bool.false_ne_true
    | send request =>
      have hr : r.resume p t (.send request) =
          ([p.errorEnvelope 0 message], { r with point := none }) := by
        unfold Rank0.resume
        rw [hy]
        show r.preflight p t = _
        unfold Rank0.preflight
        rw [hprelude]
        exact congrArg (·, _) (if_neg ht.error)
      rw [hr]
      exact Rank0Ok.lone 1 message hb hfa
  · exact absurd (position_proper p.layers_pos hpos) id

/-- Where rank 0 stands before its next `yield`. -/
theorem Rank0Ok.resume (h : Rank0Ok p ds r taken sent) (ht : t.Heard) (hy : r.point = some y)
    (hprelude : y = .preflight → ∃ message, p.prelude = .preflightError message)
    (hd : ds[taken]? = some d) (hcov : ∀ layerId ∈ y.layerId?, Covered p layerId t) :
    Rank0Ok p ds (r.resume p t d).2 (taken + 1) (sent ++ (r.resume p t d).1) := by
  by_cases hpre : y = .preflight
  · subst hpre
    exact h.preflight ht hy (hprelude rfl) hd
  have hpos : position p.numLayers ds taken = some y :=
    (h.point y hy).resolve_left fun ⟨heq, _⟩ => hpre heq
  have hproper : y.Proper p.numLayers := position_proper p.layers_pos hpos
  unfold Rank0.resume
  rw [hy]
  cases y with
  | unhealthy => exact absurd hproper id
  | preflight => exact absurd rfl hpre
  | layer l =>
    cases d with
    | close => exact h.stops ht hy nofun hpos hd rfl
    | send request => exact h.layer ht hy hpos hd (hcov l rfl)
  | prepared l =>
    cases d with
    | close => exact h.stops ht hy nofun hpos hd rfl
    | send request => exact h.afterPrepare ht hy hpos hd (hcov l rfl)
  | deferred =>
    cases d with
    | close => exact h.stops ht hy nofun hpos hd rfl
    | send request => exact h.deferred ht hy hpos hd
  | final =>
    cases d with
    | close | send => exact h.ends_final hy hpos hd

end

end SharedSparse
