import LMCacheAscend.SharedSparse.Broadcasts

/-!
# How the collective ends

A passive rank has received each envelope of the layers that it is past, and
waits for one of a layer that the sequence has opened (`PassiveOk`).  With what
is known of rank 0 this says that what it waits for is there, or will be.
-/

namespace SharedSparse

open Lib List Option

/-! ## The end of a passive rank's turn -/

/-- Where a turn of a passive rank leaves it, after its receive. -/
structure PassiveTail (q : Passive) (y : Yield) (q' : Passive) : Prop where
  batch : q'.compactBatch = q.compactBatch
  place : (q'.place = .yields y ∧ q'.finalAttempted = q.finalAttempted ∧
      (y = .final → q.compactBatch = none)) ∨
    (y = .final ∧ q'.place = .awaitsFinal ∧ q'.finalAttempted = true ∧ q.compactBatch.isSome) ∨
    (q'.place = .drains ∧ q'.finalAttempted = true ∧ q.compactBatch.isSome) ∨
    (q'.place = .ended ∧ q.compactBatch = none)

section

variable {p : Plan} {t : List PassiveFault} {q : Passive} {y : Yield}

theorem PassiveTail.ends (hfresh : q.finalAttempted = false) : PassiveTail q y q.ends := by
  unfold Passive.ends
  by_cases hb : q.compactBatch.isSome = true
  · rw [if_pos ⟨hb, by rw [hfresh]; exact Bool.false_ne_true⟩]
    exact ⟨rfl, .inr (.inr (.inl ⟨rfl, rfl, hb⟩))⟩
  · rw [if_neg fun h => hb h.1]
    exact ⟨rfl, .inr (.inr (.inr ⟨rfl, not_isSome_iff_eq_none.1 hb⟩))⟩

theorem PassiveTail.commit (hfresh : q.finalAttempted = false) :
    PassiveTail q .final (q.commit t) := by
  unfold Passive.commit
  split
  · next hb =>
    exact ⟨rfl, .inr (.inl ⟨rfl, rfl, rfl, hb⟩)⟩
  next hb =>
  unfold Passive.handOff
  by_cases hc : .commit ∈ t
  · rw [if_pos hc]
    exact .ends hfresh
  · rw [if_neg hc]
    exact ⟨rfl, .inl ⟨rfl, rfl, fun _ => not_isSome_iff_eq_none.1 hb⟩⟩

theorem PassiveTail.yields (hy : y ≠ .final) : PassiveTail q y { q with place := .yields y } :=
  ⟨rfl, .inl ⟨rfl, rfl, fun h => absurd h hy⟩⟩

theorem PassiveTail.dispatch {layerId : Nat} (hfresh : q.finalAttempted = false)
    (deferFinish : Bool) : PassiveTail q (nextYield p.numLayers layerId deferFinish)
      (q.dispatch p t layerId deferFinish) := by
  unfold Passive.dispatch nextYield
  by_cases hd : .dispatch ∈ t
  · rw [if_pos hd]
    exact .ends hfresh
  rw [if_neg hd]
  by_cases hmore : layerId + 1 < p.numLayers
  · rw [if_pos hmore, if_pos hmore]
    exact .yields nofun
  rw [if_neg hmore, if_neg hmore]
  unfold Passive.finish
  by_cases hf : .finish ∈ t
  · rw [if_pos hf]
    exact .ends hfresh
  rw [if_neg hf]
  cases deferFinish with
  | true => exact .yields nofun
  | false => exact .commit hfresh

theorem PassiveTail.prepareOrDispatch {layerId : Nat} (hfresh : q.finalAttempted = false)
    (flags : Flags) : PassiveTail q (if flags.prepareOnly then .prepared layerId
        else nextYield p.numLayers layerId flags.deferFinish)
      (q.prepareOrDispatch p t layerId flags) := by
  unfold Passive.prepareOrDispatch
  by_cases hp : flags.prepareOnly = true
  · rw [if_pos hp, if_pos hp]
    exact .yields nofun
  · rw [if_neg hp, if_neg hp]
    exact .dispatch hfresh flags.deferFinish

theorem PassiveTail.materialize {layerId : Nat} (hfresh : q.finalAttempted = false)
    (flags : Flags) : PassiveTail q (if flags.prepareOnly then .prepared layerId
        else nextYield p.numLayers layerId flags.deferFinish)
      (q.materialize p t layerId flags) := by
  unfold Passive.materialize
  by_cases hm : .materialize ∈ t
  · rw [if_pos hm]
    exact .ends hfresh
  · rw [if_neg hm]
    exact .prepareOrDispatch hfresh flags

end

/-! ## What holds of a passive rank -/

/-- The `yield` that a place stands at, or leads to. -/
def Place.yield? : Place → Option Yield
  | .yields y => some y
  | .awaitsFinal => some .final
  | _ => none

/-- The layers of the envelopes that may have been received. -/
def Place.opened (n : Nat) : Place → Nat
  | .yields y => y.opened n
  | .awaitsLayer layerId _ => layerId
  | .ended => n + 1
  | _ => n

def Place.Live : Place → Prop
  | .drains => False
  | .ended => False
  | _ => True

/-- Before the final status. -/
def Place.Early : Place → Prop
  | .yields y => y ≠ .final
  | .awaitsLayer _ _ => True
  | _ => False

variable {e : SharedHandleEnvelope}

/-- What holds of a passive rank when it has taken so many of the sequence and received
`consumed`. -/
structure PassiveOk (p : Plan) (ds : List Drive) (q : Passive) (taken : Nat)
    (consumed : List SharedHandleEnvelope) : Prop where
  point : ∀ y, q.place.yield? = some y → position p.numLayers ds taken = some y
  waits : ∀ layerId flags, q.place = .awaitsLayer layerId flags → p.missingChunks ≠ 0 ∧
    q.compactBatch = none ∧ ∃ j request, taken = j + 1 ∧
      position p.numLayers ds j = some (.layer layerId) ∧ ds[j]? = some (.send request) ∧
      sharedSparseRequest request = some flags
  below : ∀ e ∈ consumed, e.layerId < q.place.opened p.numLayers
  passed : q.place.Live → p.missingChunks ≠ 0 → ∀ layerId < q.place.opened p.numLayers,
    layerId < p.numLayers → p.Needs layerId → ∃ e ∈ consumed, e.layerId = layerId ∧ e.status = .ok
  batch : q.compactBatch.isSome ↔ ∃ e ∈ consumed, e.batch.isSome
  fresh : q.place.Early → q.finalAttempted = false
  final : q.place = .awaitsFinal ∨ q.place = .drains →
    q.compactBatch.isSome ∧ q.finalAttempted = true
  attempted : q.place = .yields .final → q.compactBatch.isSome → q.finalAttempted = true
  closed : q.place = .yields .final ∨ q.place = .ended → q.compactBatch.isSome →
    ∃ e ∈ consumed, e.layerId = p.numLayers
  first : 0 < taken → Opens p.numLayers ds 0 0 → p.missingChunks ≠ 0 →
    (∃ flags, q.place = .awaitsLayer 0 flags) ∨ ∃ e ∈ consumed, e.layerId = 0
  started : taken = 0 → q.place = .yields (.layer 0)

section

variable {p : Plan} {ds : List Drive} {d : Drive} {t : List PassiveFault} {q q₁ q' : Passive}
  {taken layerId j : Nat} {consumed es : List SharedHandleEnvelope} {y y' : Yield} {flags : Flags}

theorem early_of_yields (hy : q.place = .yields y) (hlive : y ≠ .final) : q.place.Early := by
  rw [hy]
  exact hlive

/-- A turn that receives `es`, from a `yield` or from the receive itself. -/
theorem PassiveOk.absorb (h : PassiveOk p ds q taken consumed) (hearly : q.place.Early)
    (hpos : position p.numLayers ds j = some y) (hd : ds[j]? = some d)
    (hopened : q.place.opened p.numLayers = y.opened p.numLayers) (hlive : y ≠ .final)
    (hes : ∀ e ∈ es, y = .layer e.layerId) (hx : PassiveTail q₁ y' q')
    (hfresh : q₁.finalAttempted = false)
    (hbatch : q₁.compactBatch.isSome ↔ ∃ e ∈ consumed ++ es, e.batch.isSome)
    (hnext : q'.place.Live → advance p.numLayers y d = some y')
    (hpassed : q'.place.Live → p.missingChunks ≠ 0 → ∀ l, y = .layer l → p.Needs l →
      ∃ e ∈ consumed ++ es, e.layerId = l ∧ e.status = .ok)
    (hfirst : Opens p.numLayers ds 0 0 → p.missingChunks ≠ 0 →
      ∃ e ∈ consumed ++ es, e.layerId = 0) :
    PassiveOk p ds q' (j + 1) (consumed ++ es) := by
  have hproper : y.Proper p.numLayers := position_proper p.layers_pos hpos
  have hle : y.opened p.numLayers ≤ p.numLayers := by
    cases y with
    | layer l => exact Nat.le_of_lt hproper
    | prepared l => exact hproper
    | deferred => exact Nat.le_refl _
    | final => exact absurd rfl hlive
    | _ => exact Nat.zero_le _
  -- what was received lies below the layers that the turn leaves behind
  have hids : ∀ e ∈ consumed ++ es, e.layerId < p.numLayers ∧
      (q'.place.Live → e.layerId < y'.opened p.numLayers) := by
    intro e he
    rcases mem_append.1 he with he | he
    · have hlt := h.below e he
      rw [hopened] at hlt
      exact ⟨Nat.lt_of_lt_of_le hlt hle, fun hl =>
        Nat.lt_of_lt_of_le hlt (opened_le_advance hproper (hnext hl)).1⟩
    · have hl := hes e he
      refine ⟨?_, fun hlv => (opened_le_advance hproper (hnext hlv)).2 _ hl⟩
      rw [hl] at hproper
      exact hproper
  have hmet : q'.place.Live → p.missingChunks ≠ 0 → ∀ l < y'.opened p.numLayers, l < p.numLayers →
      p.Needs l → ∃ e ∈ consumed ++ es, e.layerId = l ∧ e.status = .ok := by
    intro hl hmiss l hlt hln hneeds
    rcases opened_advance hproper (hnext hl) hln hlt with hold | ⟨hy, _⟩
    · have hlv : q.place.Live := by
        cases hplace : q.place with
        | yields | awaitsLayer => trivial
        | _ =>
          rw [hplace] at hearly
          exact hearly.elim
      obtain ⟨e, he, hok⟩ := h.passed hlv hmiss l (by rw [hopened]; exact hold) hln hneeds
      exact ⟨e, mem_append_left _ he, hok⟩
    · exact hpassed hl hmiss l hy hneeds
  have hbatch' : q'.compactBatch.isSome ↔ ∃ e ∈ consumed ++ es, e.batch.isSome := by
    rw [hx.batch]
    exact hbatch
  have hnone : q₁.compactBatch = none → ¬ q'.compactBatch.isSome := by
    intro hb hsome
    rw [hx.batch, hb] at hsome
    cases hsome
  have hsucc : q'.place.Live → position p.numLayers ds (j + 1) = some y' :=
    fun hl => (position_succ hpos hd).trans (hnext hl)
  rcases hx.place with ⟨hp, hatt, hfin⟩ | ⟨rfl, hp, hatt, hsome⟩ | ⟨hp, hatt, hsome⟩ | ⟨hp, hb⟩
  · rw [hp] at hids hmet hsucc
    refine ⟨?_, ?_, ?_, ?_, hbatch', fun _ => hatt.trans hfresh, ?_, ?_, ?_,
      fun _ hop hm => .inr (hfirst hop hm), nofun⟩ <;> rw [hp]
    · intro z hz
      cases hz
      exact hsucc trivial
    · exact fun _ _ => nofun
    · exact fun e he => (hids e he).2 trivial
    · exact hmet
    · exact fun hor => hor.elim nofun nofun
    · exact fun hy hs => absurd hs (hnone (hfin (Place.yields.inj hy)))
    · rintro (hy | hy) hs
      · exact absurd hs (hnone (hfin (Place.yields.inj hy)))
      · cases hy
  · rw [hp] at hids hmet hsucc
    refine ⟨?_, ?_, ?_, ?_, hbatch', ?_, fun _ => ⟨by rw [hx.batch]; exact hsome, hatt⟩, ?_, ?_,
      fun _ hop hm => .inr (hfirst hop hm), nofun⟩ <;> rw [hp]
    · intro z hz
      cases hz
      exact hsucc trivial
    · exact fun _ _ => nofun
    · exact fun e he => (hids e he).1
    · exact fun hl hm l hlt hln => hmet hl hm l (Nat.lt_succ_of_lt hln) hln
    · exact nofun
    · exact nofun
    · exact fun hor => hor.elim nofun nofun
  · refine ⟨?_, ?_, ?_, ?_, hbatch', ?_, fun _ => ⟨by rw [hx.batch]; exact hsome, hatt⟩, ?_, ?_,
      fun _ hop hm => .inr (hfirst hop hm), nofun⟩ <;> rw [hp]
    · exact nofun
    · exact fun _ _ => nofun
    · exact fun e he => (hids e he).1
    · exact fun hl => hl.elim
    · exact nofun
    · exact nofun
    · exact fun hor => hor.elim nofun nofun
  · refine ⟨?_, ?_, ?_, ?_, hbatch', ?_, ?_, ?_, fun _ hs => absurd hs (hnone hb),
      fun _ hop hm => .inr (hfirst hop hm), nofun⟩ <;> rw [hp]
    · exact nofun
    · exact fun _ _ => nofun
    · exact fun e he => Nat.lt_succ_of_lt (hids e he).1
    · exact fun hl => hl.elim
    · exact nofun
    · exact fun hor => hor.elim nofun nofun
    · exact nofun

/-- The first layer is past, or its envelope has come. -/
theorem PassiveOk.first_of_yields (h : PassiveOk p ds q taken consumed)
    (hy : q.place = .yields y) (ht : 0 < taken) (hop : Opens p.numLayers ds 0 0)
    (hm : p.missingChunks ≠ 0) : ∃ e ∈ consumed, e.layerId = 0 := by
  refine (h.first ht hop hm).resolve_left ?_
  rintro ⟨flags, hplace⟩
  rw [hy] at hplace
  cases hplace

theorem PassiveOk.turn (h : PassiveOk p ds q taken consumed) (hy : q.place = .yields y)
    (hlive : y ≠ .final) (hd : ds[taken]? = some d) (hx : PassiveTail q y' q')
    (hnext : q'.place.Live → advance p.numLayers y d = some y')
    (hpassed : q'.place.Live → p.missingChunks ≠ 0 → ∀ l, y = .layer l → p.Needs l →
      ∃ e ∈ consumed, e.layerId = l ∧ e.status = .ok)
    (hstart : taken = 0 → Opens p.numLayers ds 0 0 → p.missingChunks ≠ 0 →
      ∃ e ∈ consumed, e.layerId = 0) :
    PassiveOk p ds q' (taken + 1) consumed := by
  have hpos : position p.numLayers ds taken = some y := by
    refine h.point y ?_
    rw [hy]
    rfl
  have hearly : q.place.Early := early_of_yields hy hlive
  have hopened : q.place.opened p.numLayers = y.opened p.numLayers := by rw [hy]; rfl
  have hnil : consumed ++ [] = consumed := append_nil consumed
  have hfirst : Opens p.numLayers ds 0 0 → p.missingChunks ≠ 0 → ∃ e ∈ consumed, e.layerId = 0 := by
    intro hop hm
    rcases Nat.eq_zero_or_pos taken with h0 | hpos0
    · exact hstart h0 hop hm
    · exact h.first_of_yields hy hpos0 hop hm
  have hok : PassiveOk p ds q' (taken + 1) (consumed ++ []) :=
    h.absorb hearly hpos hd hopened hlive (fun _ he => nomatch he) hx (h.fresh hearly)
      (by rw [hnil]; exact h.batch) hnext (by rw [hnil]; exact hpassed)
      (by rw [hnil]; exact hfirst)
  rw [hnil] at hok
  exact hok

theorem ends_not_live (q : Passive) : ¬ q.ends.place.Live := by
  unfold Passive.ends
  split <;> exact id

/-- The generator is closed, or raises, before it receives. -/
theorem PassiveOk.stops (h : PassiveOk p ds q taken consumed) (hy : q.place = .yields y)
    (hlive : y ≠ .final) (hd : ds[taken]? = some d) (hadv : advance p.numLayers y d = none) :
    PassiveOk p ds q.ends (taken + 1) consumed := by
  have hpos : position p.numLayers ds taken = some y := by
    refine h.point y ?_
    rw [hy]
    rfl
  have hearly : q.place.Early := early_of_yields hy hlive
  have hx : PassiveTail q y q.ends := .ends (h.fresh hearly)
  refine h.turn hy hlive hd hx (fun hl => absurd hl (ends_not_live q))
    (fun hl => absurd hl (ends_not_live q)) ?_
  rintro rfl hop _
  exact absurd hadv (advance_of_opens hop hpos hd).2

theorem PassiveOk.no_batch (h : PassiveOk p ds q taken consumed)
    (hop : q.place.opened p.numLayers = 0) : ¬ q.compactBatch.isSome := by
  intro hb
  obtain ⟨e, he, _⟩ := h.batch.1 hb
  have hlt := h.below e he
  rw [hop] at hlt
  cases hlt

/-- The turn of a passive rank at a layer. -/
theorem PassiveOk.layer (h : PassiveOk p ds q taken consumed)
    (hmade : ∀ e ∈ consumed, p.Made e) (hy : q.place = .yields (.layer layerId))
    {request : SparseRequest} (hd : ds[taken]? = some (.send request)) :
    PassiveOk p ds (q.layer p t layerId request) (taken + 1) consumed := by
  have hpos : position p.numLayers ds taken = some (.layer layerId) := by
    refine h.point _ ?_
    rw [hy]
    rfl
  have hopened : q.place.opened p.numLayers = layerId := by rw [hy]; rfl
  have hlive : q.place.Live := by
    rw [hy]
    trivial
  have hfresh : q.finalAttempted = false := h.fresh (early_of_yields hy (by simp))
  -- nothing of the sequence comes before layer 0
  have hzero : taken = 0 → layerId = 0 := by
    rintro rfl
    cases hpos
    rfl
  unfold Passive.layer
  cases hflags : sharedSparseRequest request with
  | none =>
    refine h.stops hy (by simp) hd ?_
    rw [advance, hflags]
    rfl
  | some flags =>
    have hadv := advance_layer p.numLayers layerId hflags
    by_cases hm : p.missingChunks = 0
    · simp only [if_pos hm]
      exact h.turn hy (by simp) hd (.prepareOrDispatch hfresh flags) (fun _ => hadv)
        (fun _ hmiss => absurd hm hmiss) (fun _ _ hmiss => absurd hm hmiss)
    simp only [if_neg hm]
    cases hb : q.compactBatch with
    | none =>
      refine ⟨by simp [Place.yield?], ?_, ?_, ?_, ?_, fun _ => hfresh, by simp, by simp, by simp,
        ?_,
        by simp⟩
      · intro l f hplace
        cases hplace
        exact ⟨hm, rfl, taken, request, rfl, hpos, hd, hflags⟩
      · intro e he
        have hlt := h.below e he
        rw [hopened] at hlt
        exact hlt
      · intro _ hmiss l hlt hln hneeds
        exact h.passed hlive hmiss l (by rw [hopened]; exact hlt) hln hneeds
      · have hbatch := h.batch
        rw [hb] at hbatch
        exact hbatch
      · intro _ hop hmiss
        rcases Nat.eq_zero_or_pos taken with h0 | hpos0
        · cases hzero h0
          exact .inl ⟨flags, rfl⟩
        · exact .inr (h.first_of_yields hy hpos0 hop hmiss)
    | some b =>
      have hsome : q.compactBatch.isSome := by rw [hb]; rfl
      have hpast : layerId ≠ 0 := by
        rintro rfl
        exact h.no_batch hopened hsome
      refine h.turn hy (by simp) hd (.materialize hfresh flags) (fun _ => hadv) ?_
        fun h0 => absurd (hzero h0) hpast
      -- a later layer of a compact batch has no envelope of its own
      intro _ _ l hl hneeds
      cases hl
      obtain ⟨e, he, hbatch⟩ := h.batch.1 hsome
      have hme := hmade e he
      obtain ⟨hstatus, hfirst⟩ := hme.batch hbatch
      rw [hme.first hstatus hfirst] at hbatch
      exact absurd (hneeds.zero hbatch) hpast

/-- A resumed rank goes to its next layer or to its end. -/
theorem PassiveOk.resume (h : PassiveOk p ds q taken consumed)
    (hmade : ∀ e ∈ consumed, p.Made e) (hat : q.atYield = true) (hd : ds[taken]? = some d) :
    PassiveOk p ds (q.resume p t d) (taken + 1) consumed := by
  cases hplace : q.place with
  | yields y =>
    have hpos : position p.numLayers ds taken = some y := by
      refine h.point y ?_
      rw [hplace]
      rfl
    have hproper : y.Proper p.numLayers := position_proper p.layers_pos hpos
    have hopened : q.place.opened p.numLayers = y.opened p.numLayers := by rw [hplace]; rfl
    have htaken : ∀ l, y.opened p.numLayers = l + 1 → taken ≠ 0 := by
      rintro l hl rfl
      cases hpos
      cases hl
    unfold Passive.resume
    rw [hplace]
    cases y with
    | layer l =>
      cases d with
      | close => exact h.stops hplace (by simp) hd rfl
      | send request => exact h.layer hmade hplace hd
    | prepared l =>
      cases d with
      | close => exact h.stops hplace (by simp) hd rfl
      | send request =>
        show PassiveOk p ds (q.afterPrepare p t l request) _ _
        unfold Passive.afterPrepare
        cases hflags : sharedSparseRequest request with
        | none =>
          refine h.stops hplace (by simp) hd ?_
          rw [advance, hflags]
          rfl
        | some flags =>
          by_cases hprep : flags.prepareOnly = true
          · simp only [if_pos hprep]
            refine h.stops hplace (by simp) hd ?_
            rw [advance, hflags]
            exact if_pos hprep
          · simp only [if_neg hprep]
            refine h.turn hplace (by simp) hd (.dispatch (h.fresh (early_of_yields hplace (by simp))) _)
              (fun _ => ?_) (by simp) fun h0 => absurd h0 (htaken l rfl)
            rw [advance, hflags]
            exact if_neg hprep
    | deferred =>
      cases d with
      | close => exact h.stops hplace (by simp) hd rfl
      | send request =>
        refine h.turn hplace (by simp) hd (.commit (h.fresh (early_of_yields hplace (by simp))))
          (fun _ => rfl) (by simp) ?_
        rintro rfl
        cases hpos
    | final =>
      have hends : q.ends = { q with place := .ended } := by
        unfold Passive.ends
        exact if_neg fun hor => hor.2 (h.attempted hplace hor.1)
      have hok : PassiveOk p ds q.ends (taken + 1) consumed := by
        rw [hends]
        refine ⟨by simp [Place.yield?], by simp, ?_, fun hl => hl.elim, h.batch,
          fun hl => hl.elim, by simp, by simp, fun _ => h.closed (.inl hplace), ?_, by simp⟩
        · intro e he
          have hlt := h.below e he
          rw [hopened] at hlt
          exact hlt
        · intro _ hop hm
          refine .inr (h.first_of_yields hplace (Nat.pos_of_ne_zero ?_) hop hm)
          rintro rfl
          cases hpos
      cases d <;> exact hok
    | _ => exact hproper.elim
  | _ =>
    unfold Passive.atYield at hat
    rw [hplace] at hat
    cases hat

/-! ## Receives -/

/-- The envelope of the awaited layer comes. -/
theorem PassiveOk.receives (h : PassiveOk p ds q taken consumed)
    (hplace : q.place = .awaitsLayer layerId flags) (hmade : p.Made e) (hid : e.layerId = layerId)
    (hvalid : p.compactHandleBatch.isSome → q.compactBatch = none → .validate ∉ t) :
    PassiveOk p ds (q.receive p t e) taken (consumed ++ [e]) := by
  obtain ⟨hm, hnone, j, request, rfl, hpos, hd, hflags⟩ := h.waits layerId flags hplace
  have hearly : q.place.Early := by
    rw [hplace]
    trivial
  have hfresh : q.finalAttempted = false := h.fresh hearly
  have hopened : q.place.opened p.numLayers = layerId := by rw [hplace]; rfl
  have hadv := advance_layer p.numLayers layerId hflags
  have hes : ∀ e' ∈ [e], Yield.layer layerId = .layer e'.layerId := by
    intro e' he'
    rw [mem_singleton.1 he', hid]
  have hmem : e ∈ consumed ++ [e] := mem_append_right _ (mem_singleton_self e)
  have hfirst : Opens p.numLayers ds 0 0 → p.missingChunks ≠ 0 →
      ∃ e' ∈ consumed ++ [e], e'.layerId = 0 := by
    intro hop hmiss
    rcases h.first (Nat.succ_pos j) hop hmiss with ⟨f, hf⟩ | ⟨e', he', hzero⟩
    · rw [hplace] at hf
      cases hf
      exact ⟨e, hmem, hid⟩
    · exact ⟨e', mem_append_left _ he', hzero⟩
  have hold : ¬ ∃ e' ∈ consumed, e'.batch.isSome := by
    rw [← h.batch, hnone]
    exact Bool.false_ne_true
  have hbatch : e.batch.isSome ↔ ∃ e' ∈ consumed ++ [e], e'.batch.isSome := by
    constructor
    · exact fun hb => ⟨e, hmem, hb⟩
    · rintro ⟨e', he', hb⟩
      rcases mem_append.1 he' with he' | he'
      · exact absurd ⟨e', he', hb⟩ hold
      · rw [mem_singleton.1 he'] at hb
        exact hb
  -- an envelope without a batch leaves the rank without one
  have hbatch_none : e.batch = none →
      (q.compactBatch.isSome ↔ ∃ e' ∈ consumed ++ [e], e'.batch.isSome) := by
    intro hb
    rw [← hbatch, hb, hnone]
  have hends : e.batch = none → PassiveOk p ds q.ends (j + 1) (consumed ++ [e]) := by
    intro hb
    exact h.absorb hearly hpos hd hopened nofun hes (.ends (y := .final) hfresh) hfresh
      (hbatch_none hb) (fun hl => absurd hl (ends_not_live q))
      (fun hl => absurd hl (ends_not_live q)) hfirst
  unfold Passive.receive
  rw [hplace]
  by_cases hbad : .validate ∈ t ∨ e.status ≠ .ok
  · simp only [if_pos hbad]
    refine hends (not_isSome_iff_eq_none.1 fun hb => ?_)
    obtain ⟨hstatus, hzero⟩ := hmade.batch hb
    rw [hmade.first hstatus hzero] at hb
    exact hbad.elim (hvalid hb hnone) fun hne => hne hstatus
  · simp only [if_neg hbad]
    have hok : e.status = .ok := Decidable.not_not.1 fun hne => hbad (.inr hne)
    have hpassed : ∀ l, Yield.layer layerId = .layer l →
        ∃ e' ∈ consumed ++ [e], e'.layerId = l ∧ e'.status = .ok := by
      rintro l ⟨⟩
      exact ⟨e, hmem, hid, hok⟩
    cases hb : e.batch with
    | some b =>
      have hfresh' : (⟨q.place, some b, q.finalAttempted⟩ : Passive).finalAttempted = false := hfresh
      rw [hplace] at hfresh'
      refine h.absorb hearly hpos hd hopened nofun hes (.materialize hfresh' flags) hfresh' ?_
        (fun _ => hadv) (fun _ _ l hl _ => hpassed l hl) hfirst
      rw [← hbatch, hb]
    | none =>
      by_cases hcount : e.handles ≠ p.missingChunks
      · simp only [if_pos hcount]
        exact hends hb
      · simp only [if_neg hcount]
        exact h.absorb hearly hpos hd hopened nofun hes (.materialize hfresh flags) hfresh
          (hbatch_none hb) (fun _ => hadv) (fun _ _ l hl _ => hpassed l hl) hfirst

/-- The final status comes where the rank waits for it. -/
theorem PassiveOk.receives_final (h : PassiveOk p ds q taken consumed)
    (hplace : q.place = .awaitsFinal ∨ q.place = .drains) (hmade : p.Made e)
    (hid : e.layerId = p.numLayers) : PassiveOk p ds (q.receive p t e) taken (consumed ++ [e]) := by
  obtain ⟨hsome, hatt⟩ := h.final hplace
  have hopened : q.place.opened p.numLayers = p.numLayers := by
    rcases hplace with hplace | hplace <;> rw [hplace] <;> rfl
  have hmem : e ∈ consumed ++ [e] := mem_append_right _ (mem_singleton_self e)
  have hnobatch : ¬ e.batch.isSome := by
    intro hb
    have hzero := (hmade.batch hb).2
    rw [hid] at hzero
    exact absurd hzero (Nat.ne_of_gt p.layers_pos)
  have hbatch : q.compactBatch.isSome ↔ ∃ e' ∈ consumed ++ [e], e'.batch.isSome := by
    rw [h.batch]
    constructor
    · rintro ⟨e', he', hb⟩
      exact ⟨e', mem_append_left _ he', hb⟩
    · rintro ⟨e', he', hb⟩
      rcases mem_append.1 he' with he' | he'
      · exact ⟨e', he', hb⟩
      · rw [mem_singleton.1 he'] at hb
        exact absurd hb hnobatch
  have hbelow : ∀ e' ∈ consumed ++ [e], e'.layerId < p.numLayers + 1 := by
    intro e' he'
    rcases mem_append.1 he' with he' | he'
    · have hlt := h.below e' he'
      rw [hopened] at hlt
      exact Nat.lt_succ_of_lt hlt
    · rw [mem_singleton.1 he', hid]
      exact Nat.lt_succ_self _
  have hfirst : 0 < taken → Opens p.numLayers ds 0 0 → p.missingChunks ≠ 0 →
      ∃ e' ∈ consumed ++ [e], e'.layerId = 0 := by
    intro hpos hop hm
    rcases h.first hpos hop hm with ⟨f, hf⟩ | ⟨e', he', hzero⟩
    · rcases hplace with hplace | hplace <;> rw [hplace] at hf <;> cases hf
    · exact ⟨e', mem_append_left _ he', hzero⟩
  have hstarted : taken ≠ 0 := by
    intro h0
    have hstart := h.started h0
    rcases hplace with hplace | hplace <;> rw [hplace] at hstart <;> cases hstart
  have hended : PassiveOk p ds { q with place := .ended } taken (consumed ++ [e]) :=
    ⟨(nofun), fun _ _ => nofun, hbelow, fun hl => hl.elim, hbatch, (nofun),
      fun hor => hor.elim nofun nofun, (nofun), fun _ _ => ⟨e, hmem, hid⟩,
      fun hp hop hm => .inr (hfirst hp hop hm), fun h0 => absurd h0 hstarted⟩
  have hends : q.ends = { q with place := .ended } := by
    unfold Passive.ends
    exact if_neg fun hor => hor.2 hatt
  unfold Passive.receive
  rcases hplace with hplace | hplace
  · have hpos : position p.numLayers ds taken = some .final := by
      refine h.point _ ?_
      rw [hplace]
      rfl
    have hlive : q.place.Live := by
      rw [hplace]
      trivial
    rw [hplace]
    by_cases hbad : .validate ∈ t ∨ e.status ≠ .skipped ∨ e.message ≠ some compactCommitMessage
    · simp only [if_pos hbad]
      rw [hends]
      exact hended
    simp only [if_neg hbad]
    unfold Passive.handOff
    split
    · rw [hends]
      exact hended
    refine ⟨?_, fun _ _ => nofun, hbelow, ?_, hbatch, fun hne => absurd rfl hne,
      fun hor => hor.elim nofun nofun, fun _ _ => hatt, fun _ _ => ⟨e, hmem, hid⟩,
      fun hp hop hm => .inr (hfirst hp hop hm), fun h0 => absurd h0 hstarted⟩
    · intro y hy
      cases hy
      exact hpos
    · intro _ hm l _ hln hneeds
      obtain ⟨e', he', hok⟩ := h.passed hlive hm l (by rw [hopened]; exact hln) hln hneeds
      exact ⟨e', mem_append_left _ he', hok⟩
  · rw [hplace]
    exact hended

end

/-! ## Joint runs -/

/-- What holds of both ranks and of the envelopes between them. -/
structure System.Ok (p : Plan) (ds : List Drive) (s : System) : Prop where
  rank0 : Rank0Ok p ds s.rank0 s.taken0 s.sent
  passive : PassiveOk p ds s.passive s.takenPassive s.consumed
  delivered : s.sent.Perm (s.consumed ++ s.mailbox)
  prelude : s.rank0.point = some .preflight → ∃ message, p.prelude = .preflightError message

section

variable {p : Plan} {ds : List Drive} {s s' : System}

theorem System.Ok.mem_sent (h : s.Ok p ds) (he : e ∈ s.consumed ∨ e ∈ s.mailbox) : e ∈ s.sent :=
  h.delivered.mem_iff.2 (mem_append.2 he)

theorem ok_init (hp : p.Agreed) : (System.init p).Ok p ds := by
  have hpoint : ∀ y, (System.init p).rank0.point = some y → y = .preflight ∨ y = .layer 0 := by
    intro y hy
    change p.prelude.point = some y at hy
    cases hpre : p.prelude with
    | raises => exact absurd hpre hp.raises
    | unhealthy => exact absurd hpre hp.healthy
    | preflightError message =>
      rw [hpre] at hy
      exact .inl (some.inj hy).symm
    | reachesLoop =>
      rw [hpre] at hy
      exact .inr (some.inj hy).symm
  have hnone : (System.init p).rank0.point ≠ none := by
    change p.prelude.point ≠ none
    cases hpre : p.prelude with
    | raises => exact absurd hpre hp.raises
    | _ => exact nofun
  constructor
  · refine ⟨?_, (fun _ _ _ he => nomatch he), nodup_nil, (fun _ he => nomatch he),
      (fun _ _ _ hj => nomatch hj), (fun _ hn => absurd hn hnone), ?_,
      (fun _ _ _ _ => rfl), ?_, (nofun), (fun _ _ _ => rfl), (nofun), (fun _ => nofun)⟩
    · intro y hy
      rcases hpoint y hy with rfl | rfl
      · exact .inl ⟨rfl, rfl, rfl⟩
      · exact .inr rfl
    · intro _ y hy hop
      rcases hpoint y hy with rfl | rfl <;> cases hop
    · exact ⟨(nofun), fun ⟨_, he, _⟩ => nomatch he⟩
  · refine ⟨?_, (fun _ _ => nofun), (fun _ he => nomatch he), (fun _ _ l hl => nomatch hl), ?_,
      (fun _ => rfl), (fun hor => hor.elim nofun nofun), (nofun), (fun _ => nofun),
      (fun hp => nomatch hp), (fun _ => rfl)⟩
    · intro y hy
      cases hy
      rfl
    · exact ⟨(nofun), fun ⟨_, he, _⟩ => nomatch he⟩
  · exact Perm.refl []
  · intro hpre
    change p.prelude.point = some .preflight at hpre
    cases hprelude : p.prelude with
    | preflightError message => exact ⟨message, rfl⟩
    | _ =>
      rw [hprelude] at hpre
      cases hpre

theorem System.Ok.stepRank0 (h : s.Ok p ds) {t : Trouble} (hsafe : Safe p s (.rank0 t))
    (hstep : s.stepRank0 p ds t = some s') : s'.Ok p ds := by
  obtain ⟨d, hd, hrest⟩ := bind_eq_some_iff.1 hstep
  cases hy : s.rank0.point with
  | none =>
    rw [if_pos hy] at hrest
    cases hrest
  | some y =>
    have hlive : s.rank0.point ≠ none := by
      rw [hy]
      exact nofun
    rw [if_neg hlive] at hrest
    cases hrest
    obtain ⟨hheard, hcov⟩ := hsafe
    rw [hy] at hcov
    have hok := h.rank0.resume hheard hy (fun hpre => h.prelude (hpre ▸ hy)) hd hcov
    refine ⟨hok, h.passive, ?_, ?_⟩
    · show (s.sent ++ _).Perm (s.consumed ++ (s.mailbox ++ _))
      rw [← append_assoc]
      exact h.delivered.append_right _
    · intro hpre
      rcases hok.point _ hpre with ⟨_, hzero, _⟩ | hpos
      · cases hzero
      · exact absurd (position_proper p.layers_pos hpos) id

theorem System.Ok.stepPassive (h : s.Ok p ds) {t : List PassiveFault}
    (hstep : s.stepPassive p ds t = some s') : s'.Ok p ds := by
  obtain ⟨d, hd, hrest⟩ := bind_eq_some_iff.1 hstep
  split at hrest
  · next hat =>
    cases hrest
    refine ⟨h.rank0, h.passive.resume (fun e he => ?_) hat hd, h.delivered, h.prelude⟩
    exact h.rank0.made e (h.mem_sent (.inl he))
  · cases hrest

theorem System.Ok.receive (h : s.Ok p ds) {t : List PassiveFault} (hsafe : Safe p s (.receive t))
    (hstep : s.receive p t = some s') : s'.Ok p ds := by
  obtain ⟨layerId, hawaited, hrest⟩ := bind_eq_some_iff.1 hstep
  obtain ⟨e, hfind, hrest⟩ := bind_eq_some_iff.1 hrest
  cases hrest
  have hmem : e ∈ s.mailbox := mem_of_find?_eq_some hfind
  have hmatch : decide (p.Matches layerId e) = true :=
    find?_some (p := fun e => decide (p.Matches layerId e)) hfind
  have hid : e.layerId = layerId := (of_decide_eq_true hmatch).2
  have hmade : p.Made e := h.rank0.made e (h.mem_sent (.inr hmem))
  refine ⟨h.rank0, ?_, ?_, h.prelude⟩
  · unfold Passive.awaited at hawaited
    cases hplace : s.passive.place with
    | yields | ended =>
      rw [hplace] at hawaited
      cases hawaited
    | awaitsLayer l flags =>
      rw [hplace] at hawaited
      cases hawaited
      exact h.passive.receives hplace hmade hid hsafe
    | awaitsFinal =>
      rw [hplace] at hawaited
      cases hawaited
      exact h.passive.receives_final (.inl hplace) hmade hid
    | drains =>
      rw [hplace] at hawaited
      cases hawaited
      exact h.passive.receives_final (.inr hplace) hmade hid
  · show s.sent.Perm (s.consumed ++ [e] ++ s.mailbox.erase e)
    rw [append_assoc]
    exact h.delivered.trans ((perm_cons_erase hmem).append_left s.consumed)

theorem inductive_ok (hp : p.Agreed) :
    (collective p ds).InductiveIf (Safe p) fun s => s.Ok p ds where
  start s hs := by
    rw [show s = System.init p from hs]
    exact ok_init hp
  step s a s' h hsafe hstep := by
    cases a with
    | rank0 t => exact h.stepRank0 hsafe hstep
    | passive t => exact h.stepPassive hstep
    | receive t => exact h.receive hsafe hstep

/-! ## The collective settles -/

theorem filter_eq_singleton {α β : Type} {f : α → β} {l : List α} (hnd : (l.map f).Nodup) {a : α}
    (ha : a ∈ l) {P : α → Bool} (hP : ∀ x ∈ l, P x = true ↔ f x = f a) : l.filter P = [a] := by
  induction l with
  | nil => cases ha
  | cons x l ih =>
    rw [map_cons, nodup_cons] at hnd
    have hrest : ∀ y ∈ l, P y = true ↔ f y = f a := fun y hy => hP y (mem_cons_of_mem x hy)
    rcases mem_cons.1 ha with rfl | hmem
    · have hnil : l.filter P = [] := by
        refine filter_eq_nil_iff.2 fun y hy hPy => hnd.1 ?_
        rw [← (hrest y hy).1 hPy]
        exact mem_map_of_mem hy
      rw [filter_cons_of_pos ((hP a mem_cons_self).2 rfl), hnil]
    · have hne : ¬ P x = true := by
        intro hPx
        refine hnd.1 ?_
        rw [(hP x mem_cons_self).1 hPx]
        exact mem_map_of_mem hmem
      rw [filter_cons_of_neg hne, ih hnd.2 hmem hrest]

theorem position_zero (h : position p.numLayers ds j = some (.layer 0)) : j = 0 := by
  cases j with
  | zero => rfl
  | succ i =>
    obtain ⟨y, hy, hnext⟩ := bind_eq_some_iff.1 h
    obtain ⟨d, _, hadv⟩ := bind_eq_some_iff.1 hnext
    have hproper := position_proper p.layers_pos hy
    obtain ⟨hle, hpast⟩ := opened_le_advance hproper hadv
    have hpos := p.layers_pos
    cases y with
    | layer l => exact absurd (hpast l rfl) (Nat.not_lt_zero l)
    | prepared l => exact absurd hle (Nat.not_succ_le_zero l)
    | deferred => exact absurd hle (Nat.not_le.2 hpos)
    | final => exact absurd hle (Nat.not_succ_le_zero _)
    | _ => exact hproper.elim

theorem System.Ok.eq_of_layerId (h : s.Ok p ds) {e' : SharedHandleEnvelope} (he : e ∈ s.sent)
    (he' : e' ∈ s.sent) (hid : e.layerId = e'.layerId) : e = e' :=
  inj_on_of_nodup_map h.rank0.nodup he he' hid

theorem System.Ok.consumed_nodup (h : s.Ok p ds) : (s.consumed.map (·.layerId)).Nodup := by
  have hnd : ((s.consumed ++ s.mailbox).map (·.layerId)).Nodup :=
    ((h.delivered.map _).nodup_iff).1 h.rank0.nodup
  rw [map_append] at hnd
  exact hnd.of_append_left

/-- A layer for whose envelope the passive rank waits has one of its own. -/
theorem System.Ok.needs_awaited (h : s.Ok p ds) {layerId : Nat} {flags : Flags}
    (hplace : s.passive.place = .awaitsLayer layerId flags) : p.Needs layerId := by
  obtain ⟨hm, hnone, _⟩ := h.passive.waits layerId flags hplace
  cases hc : p.compactHandleBatch with
  | none => exact .inl hc
  | some b =>
    refine .inr (Nat.eq_zero_of_not_pos fun hpos => ?_)
    have hlive : s.passive.place.Live := by rw [hplace]; trivial
    have hopened : s.passive.place.opened p.numLayers = layerId := by rw [hplace]; rfl
    obtain ⟨e, he, hid, hok⟩ := h.passive.passed hlive hm 0 (by rw [hopened]; exact hpos)
      p.layers_pos (.inr rfl)
    have hbatch := (h.rank0.made e (h.mem_sent (.inl he))).first hok hid
    have hsome : s.passive.compactBatch.isSome := h.passive.batch.2 ⟨e, he, by rw [hbatch, hc]; rfl⟩
    rw [hnone] at hsome
    cases hsome

/-- Once rank 0 has ended, every wait has its answer. -/
theorem System.Ok.waits (h : s.Ok p ds) (hp : p.Agreed) (hover : s.rank0.point = none) :
    ¬ s.Stranded p := by
  rintro ⟨layerId, hawaited, hno⟩
  have hclear : ∀ e ∈ s.mailbox, e.layerId ≠ layerId := fun e he hid =>
    hno e he ⟨(h.rank0.made e (h.mem_sent (.inr he))).identity, hid⟩
  have hfinal : s.passive.place = .awaitsFinal ∨ s.passive.place = .drains →
      layerId = p.numLayers → False := by
    intro hplace hl
    obtain ⟨hsome, _⟩ := h.passive.final hplace
    obtain ⟨b, hb, hbatch⟩ := h.passive.batch.1 hsome
    have hpub : s.rank0.batchPublished = true := h.rank0.batch.2 ⟨b, h.mem_sent (.inl hb), hbatch⟩
    obtain ⟨f, hf, hid⟩ := h.rank0.attempted (h.rank0.closed (.inl hover) hpub)
    rcases mem_append.1 (h.delivered.mem_iff.1 hf) with hf | hf
    · have hlt := h.passive.below f hf
      rw [hid] at hlt
      rcases hplace with hplace | hplace <;> rw [hplace] at hlt <;>
        exact absurd hlt (Nat.lt_irrefl _)
    · exact hclear f hf (hid.trans hl.symm)
  unfold Passive.awaited at hawaited
  cases hplace : s.passive.place with
  | yields | ended =>
    rw [hplace] at hawaited
    cases hawaited
  | awaitsFinal =>
    rw [hplace] at hawaited
    exact hfinal (.inl hplace) (some.inj hawaited).symm
  | drains =>
    rw [hplace] at hawaited
    exact hfinal (.inr hplace) (some.inj hawaited).symm
  | awaitsLayer l flags =>
    rw [hplace] at hawaited
    cases hawaited
    obtain ⟨hm, _, j, request, htaken, hpos, hd, hflags⟩ := h.passive.waits layerId flags hplace
    have hpubl : p.publishSharedHandles = true := hp.publishes.2 hm
    have hneeds : p.Needs layerId := h.needs_awaited hplace
    have hopened : s.passive.place.opened p.numLayers = layerId := by rw [hplace]; rfl
    have hlive : s.passive.place.Live := by rw [hplace]; trivial
    have hlt : layerId < p.numLayers := position_proper p.layers_pos hpos
    have hans : Answered s.sent layerId := by
      rcases h.rank0.stopped hpubl hover with hnone | hall
      · have hj : j < s.taken0 := by
          refine Nat.lt_of_not_le fun hle => ?_
          rw [position_none hnone hle] at hpos
          cases hpos
        exact h.rank0.answered hpubl j layerId hj ⟨hpos, request, flags, hd, hflags⟩ hneeds
      · exact hall layerId hlt hneeds
    obtain ⟨e, he, hid | ⟨hid, herror⟩⟩ := hans
    · rcases mem_append.1 (h.delivered.mem_iff.1 he) with he | he
      · have hbelow := h.passive.below e he
        rw [hopened, hid] at hbelow
        exact Nat.lt_irrefl _ hbelow
      · exact hclear e he hid
    · -- an error of an earlier layer would have ended the passive rank there
      have hneeds' : p.Needs e.layerId := by
        refine hneeds.imp_right fun hzero => ?_
        rw [hzero] at hid
        cases hid
      obtain ⟨e', he', hid', hok⟩ := h.passive.passed hlive hm e.layerId
        (by rw [hopened]; exact hid) (Nat.lt_trans hid hlt) hneeds'
      rw [h.eq_of_layerId (h.mem_sent (.inl he')) he hid', herror] at hok
      cases hok

/-- The batch and the final status that were broadcast. -/
theorem System.Ok.published (h : s.Ok p ds) (hover : s.rank0.point = none)
    (hne : batches s.sent ≠ []) : s.rank0.batchPublished = true ∧ ∃ b ∈ s.sent, ∃ f ∈ s.sent,
      b.batch.isSome ∧ b.layerId = 0 ∧ f.layerId = p.numLayers := by
  obtain ⟨b, hb⟩ := exists_mem_of_ne_nil _ hne
  obtain ⟨hmem, hsome⟩ := mem_filter.1 hb
  have hpub : s.rank0.batchPublished = true := h.rank0.batch.2 ⟨b, hmem, hsome⟩
  obtain ⟨f, hf, hid⟩ := h.rank0.attempted (h.rank0.closed (.inl hover) hpub)
  exact ⟨hpub, b, hmem, f, hf, hsome, ((h.rank0.made b hmem).batch hsome).2, hid⟩

theorem System.Ok.batches_eq (h : s.Ok p ds) {es : List SharedHandleEnvelope}
    (hsub : ∀ e ∈ es, e ∈ s.sent) (hnd : (es.map (·.layerId)).Nodup) {b : SharedHandleEnvelope}
    (hb : b ∈ es) (hsome : b.batch.isSome) : batches es = [b] := by
  refine filter_eq_singleton hnd hb fun x hx => ?_
  have hzero := ((h.rank0.made b (hsub b hb)).batch hsome).2
  constructor
  · intro hx'
    rw [((h.rank0.made x (hsub x hx)).batch hx').2, hzero]
  · intro hid
    rw [h.eq_of_layerId (hsub x hx) (hsub b hb) hid]
    exact hsome

theorem finals_eq {es : List SharedHandleEnvelope} (hnd : (es.map (·.layerId)).Nodup)
    {f : SharedHandleEnvelope} (hf : f ∈ es) (hid : f.layerId = p.numLayers) :
    finals p es = [f] := by
  refine filter_eq_singleton hnd hf fun x _ => ?_
  rw [hid]
  exact decide_eq_true_iff

theorem System.Ok.settled (h : s.Ok p ds) (hp : p.Agreed) : s.Settled p where
  waits := h.waits hp
  sent hover hne := by
    obtain ⟨_, b, hb, f, hf, hsome, _, hid⟩ := h.published hover hne
    exact ⟨b, f, h.batches_eq (fun _ he => he) h.rank0.nodup hb hsome,
      finals_eq h.rank0.nodup hf hid⟩
  consumed hover hended hne := by
    obtain ⟨hpub, b, hb, f, hf, hsome, hzero, hid⟩ := h.published hover hne
    have hc : p.compactHandleBatch.isSome := h.rank0.compact_of_batch hpub
    have hm : p.missingChunks ≠ 0 := hp.publishes.1 (publish_of_compact hc)
    have hop : Opens p.numLayers ds 0 0 := by
      obtain ⟨j, _, hopens⟩ := h.rank0.first hpub
      have hj : j = 0 := position_zero hopens.1
      subst hj
      exact hopens
    have hstarted : 0 < s.takenPassive := by
      refine Nat.pos_of_ne_zero fun h0 => ?_
      have hstart := h.passive.started h0
      rw [hended] at hstart
      cases hstart
    -- the first envelope was received, and it is the batch
    have hbc : b ∈ s.consumed := by
      rcases h.passive.first hstarted hop hm with ⟨flags, hplace⟩ | ⟨e, he, hid0⟩
      · rw [hended] at hplace
        cases hplace
      · rw [← h.eq_of_layerId (h.mem_sent (.inl he)) hb (hid0.trans hzero.symm)]
        exact he
    have hfc : f ∈ s.consumed := by
      obtain ⟨e, he, hide⟩ := h.passive.closed (.inr hended) (h.passive.batch.2 ⟨b, hbc, hsome⟩)
      rw [← h.eq_of_layerId (h.mem_sent (.inl he)) hf (hide.trans hid.symm)]
      exact he
    have hsub : ∀ e ∈ s.consumed, e ∈ s.sent := fun e he => h.mem_sent (.inl he)
    rw [h.batches_eq hsub h.consumed_nodup hbc hsome,
      h.batches_eq (fun _ he => he) h.rank0.nodup hb hsome, finals_eq h.consumed_nodup hfc hid,
      finals_eq h.rank0.nodup hf hid]
    exact ⟨rfl, rfl⟩

/-- In every run that meets the conditions, the collective settles. -/
theorem collective_settles (hp : p.Agreed) (h : (collective p ds).ReachableIf (Safe p) s) :
    s.Settled p :=
  ((inductive_ok hp).reachable h).settled hp

end

/-! ## Runs -/

instance (t : Trouble) : Decidable t.Heard :=
  decidable_of_iff (.broadcast ∉ t.raises ∧ .errorBroadcast ∉ t.raises ∧ .commitBroadcast ∉ t.raises)
    ⟨fun h => ⟨h.1, h.2.1, h.2.2⟩, fun h => ⟨h.envelope, h.error, h.commit⟩⟩

instance (p : Plan) (layerId : Nat) (t : Trouble) : Decidable (Covered p layerId t) :=
  decidable_of_iff ((p.publishSharedHandles = true → t.failedElsewhere = true →
        p.compactHandleBatch.isSome ∨ layerId = 0) ∧
      (p.publishSharedHandles = true → p.memObjsLayer layerId = none ∨ .source ∈ t.raises →
        p.compactHandleBatch.isSome ∧ layerId ≠ 0) ∧
      (p.publishSharedHandles = true → .dispatch ∈ t.raises →
        p.compactHandleBatch.isSome ∨ layerId + 1 = p.numLayers))
    ⟨fun h => ⟨h.1, h.2.1, h.2.2⟩, fun h => ⟨h.elsewhere, h.source, h.dispatch⟩⟩

instance (p : Plan) (s : System) : (a : Action) → Decidable (Safe p s a)
  | .rank0 _ => inferInstanceAs (Decidable (_ ∧ _))
  | .passive _ => inferInstanceAs (Decidable True)
  | .receive _ => inferInstanceAs (Decidable (_ → _ → _))

/-- Two layers of one chunk each, an envelope a layer. -/
def perLayer : Plan where
  identity := ⟨"request", "sparse_decode_bootstrap", 0, 0⟩
  numLayers := 2
  prelude := .reachesLoop
  directGroup1Load := false
  useCachedRetrieve := false
  requiredChunks := 1
  cachedPrefixChunks := 0
  cachedHandleChunks := 0
  cachedMemLayers := none
  preResolved := some [1, 1]
  publishMemObjs := [1, 1]
  compactHandleBatch := none
  missingChunks := 1
  layers_pos := Nat.two_pos
  compact_publishes h := nomatch h

/-- The same layers in a compact batch. -/
def compact : Plan :=
  { perLayer with compactHandleBatch := some ⟨1, 1⟩, compact_publishes := fun _ => by decide }

/-- A send for each layer, and one more. -/
def threeSends : List Drive := [.send .other, .send .other, .send .other]

/-- The run of a compact batch in which rank 0's first load raises. -/
def failsAfterBatch : List Action :=
  [.rank0 ⟨[.dispatch], false⟩, .passive [], .receive [], .passive [], .receive []]

theorem collective_settles_compact : ∃ s,
    (collective compact threeSends).runIf (Safe compact) (System.init compact) failsAfterBatch =
      some s ∧ s.rank0.point = none ∧ s.passive.place = .ended ∧ s.Settled compact := by
  obtain ⟨s, hs⟩ : ∃ s, (collective compact threeSends).runIf (Safe compact) (System.init compact)
      failsAfterBatch = some s := isSome_iff_exists.1 (by decide)
  refine ⟨s, hs, ?_, ?_, collective_settles ⟨by decide, by decide, by decide⟩ (.runIf (.start rfl) hs)⟩
  · cases hs
    rfl
  · cases hs
    rfl

/-- The load of the first layer raises after its handles went out: the second layer has no
envelope, and the passive rank waits for it. -/
theorem strands_per_layer : ∃ s, (collective perLayer threeSends).Reachable s ∧
    s.rank0.point = none ∧ s.Stranded perLayer ∧ ¬ s.Settled perLayer := by
  obtain ⟨s, hs⟩ : ∃ s, (collective perLayer threeSends).run (System.init perLayer)
      [.rank0 ⟨[.dispatch], false⟩, .passive [], .receive [], .passive []] = some s :=
    isSome_iff_exists.1 (by decide)
  have hover : s.rank0.point = none := by
    cases hs
    rfl
  have hstranded : s.Stranded perLayer := by
    cases hs
    exact ⟨1, rfl, fun e he => nomatch he⟩
  exact ⟨s, .run (.start rfl) hs, hover, hstranded, fun h => h.waits hover hstranded⟩

end SharedSparse
