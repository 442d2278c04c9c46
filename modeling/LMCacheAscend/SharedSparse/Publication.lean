import Mathlib.Data.List.Nodup
import LMCacheAscend.SharedSparse.Collective

/-!
# What rank 0 broadcasts

Both generators yield in the same places as long as nothing goes wrong: where
they stand depends on the sequence alone (`position`).  Rank 0 has answered each
layer that the sequence has opened, or has sent an error for an earlier one; and
a published batch has its final status when the generator is over (`Rank0Ok`).
-/

namespace SharedSparse

open Lib List Option

/-! ## Positions -/

/-- Where a generator yields next after a layer. -/
def nextYield (n layerId : Nat) (deferFinish : Bool) : Yield :=
  if layerId + 1 < n then .layer (layerId + 1) else if deferFinish then .deferred else .final

/-- Where a generator that nothing goes wrong with yields next. -/
def advance (n : Nat) : Yield → Drive → Option Yield
  | .layer layerId, .send request => (sharedSparseRequest request).map fun flags =>
      if flags.prepareOnly then .prepared layerId else nextYield n layerId flags.deferFinish
  | .prepared layerId, .send request => (sharedSparseRequest request).bind fun flags =>
      if flags.prepareOnly then none else some (nextYield n layerId flags.deferFinish)
  | .deferred, .send _ => some .final
  | _, _ => none

/-- Where a generator stands after the first `j` of the sequence. -/
def position (n : Nat) (ds : List Drive) : Nat → Option Yield
  | 0 => some (.layer 0)
  | j + 1 => (position n ds j).bind fun y => ds[j]?.bind (advance n y)

/-- How many layers have been opened. -/
def Yield.opened (n : Nat) : Yield → Nat
  | .layer layerId => layerId
  | .prepared layerId => layerId + 1
  | .deferred => n
  | .final => n + 1
  | _ => 0

/-- The `j`-th of the sequence opens a layer. -/
def Opens (n : Nat) (ds : List Drive) (j layerId : Nat) : Prop :=
  position n ds j = some (.layer layerId) ∧
    ∃ request flags, ds[j]? = some (.send request) ∧ sharedSparseRequest request = some flags

section

variable {n : Nat} {ds : List Drive} {j k layerId : Nat} {y y' : Yield} {d : Drive}

theorem position_succ (h : position n ds j = some y) (hd : ds[j]? = some d) :
    position n ds (j + 1) = advance n y d := by
  show (position n ds j).bind _ = _
  rw [h, bind_some, hd, bind_some]

theorem position_none (h : position n ds j = none) (hjk : j ≤ k) : position n ds k = none := by
  induction hjk with
  | refl => exact h
  | step _ ih =>
    show (position n ds _).bind _ = none
    rw [ih]
    rfl

theorem opened_nextYield (hlt : layerId < n) (deferFinish : Bool) :
    (nextYield n layerId deferFinish).opened n = layerId + 1 ∨
      (nextYield n layerId deferFinish = .final ∧ layerId + 1 = n) := by
  unfold nextYield
  split
  · exact .inl rfl
  · next hlast =>
    have hn : layerId + 1 = n := by omega
    cases deferFinish with
    | true => exact .inl hn.symm
    | false => exact .inr ⟨rfl, hn⟩

/-- The places of a generator. -/
def Yield.Proper (n : Nat) : Yield → Prop
  | .layer layerId => layerId < n
  | .prepared layerId => layerId < n
  | .deferred => True
  | .final => True
  | _ => False

theorem proper_nextYield (deferFinish : Bool) : (nextYield n layerId deferFinish).Proper n := by
  unfold nextYield
  split
  · next h => exact h
  · cases deferFinish <;> trivial

theorem proper_advance (hy : y.Proper n) (h : advance n y d = some y') : y'.Proper n := by
  cases d with
  | close => cases y <;> cases h
  | send request =>
    cases y with
    | layer layerId =>
      obtain ⟨flags, _, rfl⟩ := map_eq_some_iff.1 h
      split
      · exact hy
      · exact proper_nextYield _
    | prepared layerId =>
      obtain ⟨flags, _, hnext⟩ := bind_eq_some_iff.1 h
      split at hnext
      · cases hnext
      · cases hnext
        exact proper_nextYield _
    | deferred =>
      cases h
      trivial
    | _ => cases h

theorem position_proper (hn : 0 < n) (h : position n ds j = some y) : y.Proper n := by
  induction j generalizing y with
  | zero =>
    cases h
    exact hn
  | succ j ih =>
    obtain ⟨y', hy', hnext⟩ := bind_eq_some_iff.1 h
    obtain ⟨d, _, hadv⟩ := bind_eq_some_iff.1 hnext
    exact proper_advance (ih hy') hadv

theorem opened_advance (hy : y.Proper n) (h : advance n y d = some y') (hlt : layerId < n)
    (hnew : layerId < y'.opened n) : layerId < y.opened n ∨ (y = .layer layerId ∧
      ∃ request flags, d = .send request ∧ sharedSparseRequest request = some flags) := by
  cases d with
  | close => cases y <;> cases h
  | send request =>
    cases y with
    | layer m =>
      have hm : m < n := hy
      obtain ⟨flags, hflags, rfl⟩ := map_eq_some_iff.1 h
      have hle : layerId < m + 1 := by
        split at hnew
        · exact hnew
        rcases opened_nextYield hm flags.deferFinish with hop | ⟨_, hlast⟩
        · rw [hop] at hnew
          exact hnew
        · omega
      rcases Nat.lt_succ_iff_lt_or_eq.1 hle with hlt' | rfl
      · exact .inl hlt'
      · exact .inr ⟨rfl, request, flags, rfl, hflags⟩
    | prepared m =>
      have hm : m < n := hy
      obtain ⟨flags, _, hnext⟩ := bind_eq_some_iff.1 h
      split at hnext
      · cases hnext
      · cases hnext
        refine .inl ?_
        show layerId < m + 1
        rcases opened_nextYield hm flags.deferFinish with hop | ⟨_, hlast⟩
        · rw [hop] at hnew
          exact hnew
        · omega
    | deferred => exact .inl hlt
    | _ => cases h

theorem exists_opens (hn : 0 < n) (h : position n ds j = some y) (hlt : layerId < n)
    (hop : layerId < y.opened n) : ∃ i < j, Opens n ds i layerId := by
  induction j generalizing y with
  | zero =>
    cases h
    cases hop
  | succ j ih =>
    obtain ⟨y', hy', hnext⟩ := bind_eq_some_iff.1 h
    obtain ⟨d, hd, hadv⟩ := bind_eq_some_iff.1 hnext
    rcases opened_advance (position_proper hn hy') hadv hlt hop with hold | ⟨rfl, req, flags, rfl, hf⟩
    · obtain ⟨i, hi, hopens⟩ := ih hy' hold
      exact ⟨i, Nat.lt_succ_of_lt hi, hopens⟩
    · exact ⟨j, Nat.lt_succ_self j, hy', req, flags, hd, hf⟩

end

/-! ## What has been broadcast -/

/-- The layers that have an envelope of their own. -/
def Plan.Needs (p : Plan) (layerId : Nat) : Prop := p.compactHandleBatch = none ∨ layerId = 0

/-- The layer has its envelope, or an earlier one has an error. -/
def Answered (sent : List SharedHandleEnvelope) (layerId : Nat) : Prop :=
  ∃ e ∈ sent, e.layerId = layerId ∨ (e.layerId < layerId ∧ e.status = .error)

/-- What every envelope of rank 0 is. -/
structure Plan.Made (p : Plan) (e : SharedHandleEnvelope) : Prop where
  identity : e.identity = p.identity
  batch : e.batch.isSome → e.status = .ok ∧ e.layerId = 0
  first : e.status = .ok → e.layerId = 0 → e.batch = p.compactHandleBatch

theorem Answered.append {sent : List SharedHandleEnvelope} {layerId : Nat}
    (h : Answered sent layerId) (es : List SharedHandleEnvelope) :
    Answered (sent ++ es) layerId := by
  obtain ⟨e, he, hl⟩ := h
  exact ⟨e, mem_append_left es he, hl⟩

/-- What holds of rank 0 when it has taken so many of the sequence and broadcast `sent`. -/
structure Rank0Ok (p : Plan) (ds : List Drive) (r : Rank0) (taken : Nat)
    (sent : List SharedHandleEnvelope) : Prop where
  point : ∀ y, r.point = some y → (y = .preflight ∧ taken = 0 ∧ sent = []) ∨
    position p.numLayers ds taken = some y
  below : ∀ y, r.point = some y → ∀ e ∈ sent, e.layerId < y.opened p.numLayers
  nodup : (sent.map (·.layerId)).Nodup
  made : ∀ e ∈ sent, p.Made e
  answered : p.publishSharedHandles = true → ∀ j layerId, j < taken →
    Opens p.numLayers ds j layerId → p.Needs layerId → Answered sent layerId
  stopped : p.publishSharedHandles = true → r.point = none →
    position p.numLayers ds taken = none ∨
      ∀ layerId < p.numLayers, p.Needs layerId → Answered sent layerId
  published : p.compactHandleBatch.isSome → ∀ y, r.point = some y → 0 < y.opened p.numLayers →
    r.batchPublished = true
  silent : p.publishSharedHandles = false → ∀ y, r.point = some y → y ≠ .final → sent = []
  batch : r.batchPublished = true ↔ ∃ e ∈ sent, e.batch.isSome
  first : r.batchPublished = true → ∃ j < taken, Opens p.numLayers ds j 0
  fresh : ∀ y, r.point = some y → y ≠ .final → r.finalAttempted = false
  attempted : r.finalAttempted = true → ∃ e ∈ sent, e.layerId = p.numLayers
  closed : r.point = none ∨ r.point = some .final → r.batchPublished = true →
    r.finalAttempted = true

/-! ## The end of a resumption -/

/-- A final status. -/
structure Plan.Final (p : Plan) (e : SharedHandleEnvelope) : Prop where
  identity : e.identity = p.identity
  layerId : e.layerId = p.numLayers
  batch : e.batch = none
  status : e.status ≠ .ok

variable {e : SharedHandleEnvelope}

theorem Plan.Final.made {p : Plan} (h : p.Final e) : p.Made e where
  identity := h.identity
  batch hb := by
    rw [h.batch] at hb
    cases hb
  first hs := absurd hs h.status

/-- What a resumption does after the publication of its layer: it yields at `y`, or ends. -/
structure Tail (p : Plan) (r : Rank0) (y : Yield) (last : Prop) (x : Rank0.Outcome) : Prop where
  batch : x.2.batchPublished = r.batchPublished
  point : ∀ y', x.2.point = some y' → y' = y
  finals : (x.1 = [] ∧ x.2.finalAttempted = r.finalAttempted) ∨
    ∃ e, x.1 = [e] ∧ p.Final e ∧ x.2.finalAttempted = true
  early : ∀ y', x.2.point = some y' → y' ≠ .final → x.1 = []
  closed : x.2.point = none ∨ x.2.point = some .final → r.batchPublished = true →
    x.2.finalAttempted = true
  last : x.2.point = none → last

section

variable {p : Plan} {t : Trouble} {r : Rank0} {y : Yield} {last : Prop}

theorem final_error (p : Plan) : p.Final (p.errorEnvelope p.numLayers finalErrorMessage) :=
  ⟨rfl, rfl, rfl, (nofun)⟩

theorem final_commit (p : Plan) : p.Final p.commitEnvelope := ⟨rfl, rfl, rfl, (nofun)⟩

theorem ends_point (r : Rank0) : (r.ends p t).2.point = none := by
  unfold Rank0.ends
  split <;> rfl

theorem ends_unpublished (h : r.batchPublished = false) :
    r.ends p t = ([], { r with point := none }) := by
  unfold Rank0.ends
  rw [if_neg]
  rintro ⟨hpub, _⟩
  rw [h] at hpub
  cases hpub

theorem ends_attempted (h : r.finalAttempted = true) :
    r.ends p t = ([], { r with point := none }) := by
  unfold Rank0.ends
  rw [if_neg]
  rintro ⟨_, hnot⟩
  exact hnot h

theorem ends_published (ht : t.Heard) (hpub : r.batchPublished = true)
    (hfresh : r.finalAttempted = false) : r.ends p t =
      ([p.errorEnvelope p.numLayers finalErrorMessage],
        { r with point := none, finalAttempted := true }) := by
  unfold Rank0.ends
  rw [if_pos ⟨hpub, by rw [hfresh]; exact nofun⟩, if_neg ht.error]

theorem Tail.ends (ht : t.Heard) (hfresh : r.finalAttempted = false) (hlast : last) :
    Tail p r y last (r.ends p t) := by
  cases hpub : r.batchPublished with
  | false =>
    rw [ends_unpublished hpub]
    exact ⟨rfl, (nofun), .inl ⟨rfl, rfl⟩, (nofun), (fun _ h => by rw [hpub] at h; cases h),
      fun _ => hlast⟩
  | true =>
    rw [ends_published ht hpub hfresh]
    exact ⟨rfl, (nofun), .inr ⟨_, rfl, final_error p, rfl⟩, (nofun), fun _ _ => rfl,
      fun _ => hlast⟩

theorem Tail.yields (hy : y ≠ .final) : Tail p r y last (r.yields y) where
  batch := rfl
  point _ h := (some.inj h).symm
  finals := .inl ⟨rfl, rfl⟩
  early _ _ _ := rfl
  closed h := by
    rcases h with h | h
    · cases h
    · exact absurd (some.inj h) hy
  last h := nomatch h

/-- The final status is committed once, whatever raises after it. -/
theorem Tail.commit (ht : t.Heard) (hfresh : r.finalAttempted = false)
    (hpub : r.batchPublished = p.compactHandleBatch.isSome) (hlast : last) :
    Tail p r .final last (r.commit p t) := by
  unfold Rank0.commit
  cases hbatch : p.compactHandleBatch with
  | none =>
    rw [hbatch] at hpub
    show Tail p r .final last (r.handOff p t)
    unfold Rank0.handOff
    split
    · exact .ends ht hfresh hlast
    · exact ⟨rfl, fun _ h => (some.inj h).symm, .inl ⟨rfl, rfl⟩, fun _ _ _ => rfl,
        (fun _ h => by rw [hpub] at h; cases h), (nofun)⟩
  | some b =>
    simp only [if_neg ht.commit]
    unfold Rank0.handOff
    split
    · rw [ends_attempted rfl]
      exact ⟨rfl, (nofun), .inr ⟨_, rfl, final_commit p, rfl⟩, (nofun), fun _ _ => rfl,
        fun _ => hlast⟩
    · refine ⟨rfl, fun _ h => (some.inj h).symm, .inr ⟨_, rfl, final_commit p, rfl⟩,
        fun y' h hne => ?_, fun _ _ => rfl, (nofun)⟩
      exact absurd (some.inj h).symm hne

theorem Tail.finish (ht : t.Heard) (hfresh : r.finalAttempted = false)
    (hpub : r.batchPublished = p.compactHandleBatch.isSome) (hlast : last) (deferFinish : Bool) :
    Tail p r (if deferFinish then .deferred else .final) last (r.finish p t deferFinish) := by
  unfold Rank0.finish
  by_cases hf : .finish ∈ t.raises
  · rw [if_pos hf]
    exact .ends ht hfresh hlast
  rw [if_neg hf]
  cases deferFinish with
  | true => exact .yields nofun
  | false => exact .commit ht hfresh hpub hlast

theorem Tail.dispatch {layerId : Nat} (ht : t.Heard) (hfresh : r.finalAttempted = false)
    (hpub : r.batchPublished = p.compactHandleBatch.isSome) (hlt : layerId < p.numLayers)
    (hcov : p.publishSharedHandles = true → .dispatch ∈ t.raises →
      p.compactHandleBatch.isSome ∨ layerId + 1 = p.numLayers)
    (deferFinish : Bool) :
    Tail p r (nextYield p.numLayers layerId deferFinish)
      (p.publishSharedHandles = true → p.compactHandleBatch.isSome ∨ layerId + 1 = p.numLayers)
      (r.dispatch p t layerId deferFinish) := by
  unfold Rank0.dispatch
  split
  · next hd =>
    exact .ends ht hfresh fun hpubl => hcov hpubl hd.2
  unfold nextYield
  by_cases hmore : layerId + 1 < p.numLayers
  · rw [if_pos hmore, if_pos hmore]
    exact .yields nofun
  · rw [if_neg hmore, if_neg hmore]
    exact .finish ht hfresh hpub (fun _ => .inr (by omega)) deferFinish

theorem Tail.prepareOrDispatch {layerId : Nat} (ht : t.Heard) (hfresh : r.finalAttempted = false)
    (hpub : r.batchPublished = p.compactHandleBatch.isSome) (hlt : layerId < p.numLayers)
    (hcov : p.publishSharedHandles = true → .dispatch ∈ t.raises →
      p.compactHandleBatch.isSome ∨ layerId + 1 = p.numLayers)
    (flags : Flags) :
    Tail p r (if flags.prepareOnly then .prepared layerId
        else nextYield p.numLayers layerId flags.deferFinish)
      (p.publishSharedHandles = true → p.compactHandleBatch.isSome ∨ layerId + 1 = p.numLayers)
      (r.prepareOrDispatch p t layerId flags) := by
  unfold Rank0.prepareOrDispatch
  by_cases hp : flags.prepareOnly = true
  · rw [if_pos hp, if_pos hp]
    exact .yields nofun
  · rw [if_neg hp, if_neg hp]
    exact .dispatch ht hfresh hpub hlt hcov flags.deferFinish

end

/-! ## A resumption -/

theorem lt_opened_nextYield {n layerId : Nat} (hlt : layerId < n) (deferFinish : Bool) :
    layerId < (nextYield n layerId deferFinish).opened n := by
  rcases opened_nextYield hlt deferFinish with hop | ⟨hfinal, hlast⟩
  · rw [hop]
    exact Nat.lt_succ_self layerId
  · rw [hfinal]
    show layerId < n + 1
    omega

theorem opened_le_advance {n : Nat} {y y' : Yield} {d : Drive} (hy : y.Proper n)
    (h : advance n y d = some y') :
    y.opened n ≤ y'.opened n ∧ ∀ layerId, y = .layer layerId → layerId < y'.opened n := by
  cases d with
  | close => cases y <;> cases h
  | send request =>
    cases y with
    | layer m =>
      have hm : m < n := hy
      have hpast : m < y'.opened n := by
        obtain ⟨flags, _, rfl⟩ := map_eq_some_iff.1 h
        split
        · exact Nat.lt_succ_self m
        · exact lt_opened_nextYield hm _
      refine ⟨Nat.le_of_lt hpast, fun layerId heq => ?_⟩
      cases heq
      exact hpast
    | prepared m =>
      have hm : m < n := hy
      obtain ⟨flags, _, hnext⟩ := bind_eq_some_iff.1 h
      split at hnext
      · cases hnext
      · cases hnext
        exact ⟨lt_opened_nextYield hm _, (nofun)⟩
    | deferred =>
      cases h
      exact ⟨Nat.le_succ n, (nofun)⟩
    | _ => cases h

/-- What a resumption publishes for its layer: at most one envelope. -/
structure Publishes (p : Plan) (r r' : Rank0) (y : Yield) (d : Drive)
    (es : List SharedHandleEnvelope) : Prop where
  one : es.length ≤ 1
  made : ∀ e ∈ es, p.Made e
  layer : ∀ e ∈ es, y = .layer e.layerId ∧
    ∃ request flags, d = .send request ∧ sharedSparseRequest request = some flags
  attempted : r'.finalAttempted = r.finalAttempted
  batch : r'.batchPublished = true ↔ r.batchPublished = true ∨ ∃ e ∈ es, e.batch.isSome

theorem Publishes.nil (p : Plan) (r : Rank0) (y : Yield) (d : Drive) : Publishes p r r y d [] where
  one := Nat.zero_le 1
  made _ he := nomatch he
  layer _ he := nomatch he
  attempted := rfl
  batch := ⟨.inl, fun h => h.resolve_right fun ⟨_, he, _⟩ => nomatch he⟩

theorem Publishes.single {p : Plan} {r r' : Rank0} {layerId : Nat} {d : Drive} (hmade : p.Made e)
    (hl : e.layerId = layerId)
    (hd : ∃ request flags, d = .send request ∧ sharedSparseRequest request = some flags)
    (hatt : r'.finalAttempted = r.finalAttempted)
    (hbatch : r'.batchPublished = true ↔ r.batchPublished = true ∨ e.batch.isSome) :
    Publishes p r r' (.layer layerId) d [e] where
  one := Nat.le_refl 1
  made e' he := by
    rw [mem_singleton.1 he]
    exact hmade
  layer e' he := by
    rw [mem_singleton.1 he, hl]
    exact ⟨rfl, hd⟩
  attempted := hatt
  batch := by
    rw [hbatch]
    constructor
    · rintro (h | h)
      · exact .inl h
      · exact .inr ⟨e, mem_singleton_self e, h⟩
    · rintro (h | ⟨e', he, h⟩)
      · exact .inl h
      · rw [mem_singleton.1 he] at h
        exact .inr h

theorem Tail.final {p : Plan} {r : Rank0} {y : Yield} {last : Prop} {x : Rank0.Outcome}
    (h : Tail p r y last x) (he : e ∈ x.1) : p.Final e := by
  rcases h.finals with ⟨hnil, _⟩ | ⟨f, hf, hfinal, _⟩
  · rw [hnil] at he
    cases he
  · rw [hf] at he
    rw [mem_singleton.1 he]
    exact hfinal

section

variable {p : Plan} {ds : List Drive} {d : Drive} {r r' : Rank0} {taken : Nat}
  {sent es : List SharedHandleEnvelope} {y y' : Yield} {last : Prop} {x : Rank0.Outcome}

/-- The layers of the envelopes: those of `sent` are past, that of `es` is the one at hand, and a
final status comes after all layers. -/
theorem Rank0Ok.nodup_append (h : Rank0Ok p ds r taken sent) (hy : r.point = some y)
    (hproper : y.Proper p.numLayers) (hes : Publishes p r r' y d es) (hx : Tail p r' y' last x)
    (hlive : y ≠ .final) : ((sent ++ (es ++ x.1)).map (·.layerId)).Nodup := by
  have hpast : ∀ e ∈ sent, e.layerId < y.opened p.numLayers := h.below y hy
  have hhand : ∀ e ∈ es, e.layerId = y.opened p.numLayers ∧ e.layerId < p.numLayers := by
    intro e he
    have hl := (hes.layer e he).1
    rw [hl] at hproper ⊢
    exact ⟨rfl, hproper⟩
  have hopened : y.opened p.numLayers ≤ p.numLayers := by
    cases y with
    | layer m => exact Nat.le_of_lt hproper
    | prepared m => exact hproper
    | deferred => exact Nat.le_refl _
    | final => exact absurd rfl hlive
    | _ => exact Nat.zero_le _
  have hone : (es.map (·.layerId)).Nodup := by
    match es, hes.one with
    | [], _ => exact nodup_nil
    | [e], _ => exact nodup_singleton _
  have hfin : (x.1.map (·.layerId)).Nodup := by
    rcases hx.finals with ⟨hnil, _⟩ | ⟨f, hf, _, _⟩
    · rw [hnil]
      exact nodup_nil
    · rw [hf]
      exact nodup_singleton _
  have hn : ∀ e ∈ x.1, e.layerId = p.numLayers := fun e he => (hx.final he).layerId
  rw [map_append, List.nodup_append, map_append, List.nodup_append]
  refine ⟨h.nodup, ⟨hone, hfin, ?_⟩, ?_⟩
  · intro a ha b hb
    obtain ⟨e, he, rfl⟩ := mem_map.1 ha
    obtain ⟨f, hf, rfl⟩ := mem_map.1 hb
    have h1 := (hhand e he).2
    have h2 := hn f hf
    omega
  · intro a ha b hb
    obtain ⟨e, he, rfl⟩ := mem_map.1 ha
    have h1 := hpast e he
    rcases mem_append.1 hb with hb | hb
    · obtain ⟨f, hf, rfl⟩ := mem_map.1 hb
      have h2 := (hhand f hf).1
      omega
    · obtain ⟨f, hf, rfl⟩ := mem_map.1 hb
      have h2 := hn f hf
      omega

theorem Rank0Ok.below_append (h : Rank0Ok p ds r taken sent) (hy : r.point = some y)
    (hproper : y.Proper p.numLayers) (hes : Publishes p r r' y d es) (hx : Tail p r' y' last x)
    {z : Yield} (hz : x.2.point = some z) (hadv : advance p.numLayers y d = some z) :
    ∀ e ∈ sent ++ (es ++ x.1), e.layerId < z.opened p.numLayers := by
  intro e he
  obtain ⟨hle, hpast⟩ := opened_le_advance hproper hadv
  rcases mem_append.1 he with he | he
  · exact Nat.lt_of_lt_of_le (h.below y hy e he) hle
  rcases mem_append.1 he with he | he
  · exact hpast e.layerId (hes.layer e he).1
  by_cases hzf : z = .final
  · rw [hzf, (hx.final he).layerId]
    exact Nat.lt_succ_self _
  · rw [hx.early z hz hzf] at he
    cases he

/-- A turn at a live point: what it sends and how it ends keep rank 0's bookkeeping. -/
theorem Rank0Ok.absorb (h : Rank0Ok p ds r taken sent) (hy : r.point = some y) (hlive : y ≠ .final)
    (hpos : position p.numLayers ds taken = some y) (hd : ds[taken]? = some d)
    (hes : Publishes p r r' y d es) (hx : Tail p r' y' last x)
    (hnext : (∃ z, x.2.point = some z) → advance p.numLayers y d = some y' ∧
      (p.compactHandleBatch.isSome → r'.batchPublished = true) ∧
      (p.publishSharedHandles = false → es = []))
    (hans : p.publishSharedHandles = true → ∀ layerId, Opens p.numLayers ds taken layerId →
      p.Needs layerId → Answered (sent ++ es) layerId)
    (hover : p.publishSharedHandles = true → x.2.point = none → advance p.numLayers y d = none ∨
      ∀ layerId < p.numLayers, p.Needs layerId → Answered (sent ++ es) layerId) :
    Rank0Ok p ds x.2 (taken + 1) (sent ++ (es ++ x.1)) := by
  have hproper : y.Proper p.numLayers := position_proper p.layers_pos hpos
  have hsucc : position p.numLayers ds (taken + 1) = advance p.numLayers y d :=
    position_succ hpos hd
  have hadv : ∀ z, x.2.point = some z → advance p.numLayers y d = some z := by
    intro z hz
    rw [hx.point z hz]
    exact (hnext ⟨z, hz⟩).1
  have hfresh : r'.finalAttempted = false := hes.attempted.trans (h.fresh y hy hlive)
  have hmore : ∀ layerId, Answered (sent ++ es) layerId → Answered (sent ++ (es ++ x.1)) layerId := by
    intro layerId ha
    rw [← append_assoc]
    exact ha.append x.1
  refine
    { point := fun z hz => .inr (hsucc.trans (hadv z hz))
      below := fun z hz => h.below_append hy hproper hes hx hz (hadv z hz)
      nodup := h.nodup_append hy hproper hes hx hlive
      made := ?_
      answered := ?_
      stopped := ?_
      published := ?_
      silent := ?_
      batch := ?_
      first := ?_
      fresh := ?_
      attempted := ?_
      closed := ?_ }
  · intro e he
    rcases mem_append.1 he with he | he
    · exact h.made e he
    rcases mem_append.1 he with he | he
    · exact hes.made e he
    · exact (hx.final he).made
  · intro hpubl j layerId hj hop hneeds
    rcases Nat.lt_succ_iff_lt_or_eq.1 hj with hj | rfl
    · exact (h.answered hpubl j layerId hj hop hneeds).append _
    · exact hmore layerId (hans hpubl layerId hop hneeds)
  · intro hpubl hnone
    rw [hsucc]
    rcases hover hpubl hnone with hadvn | hall
    · exact .inl hadvn
    · exact .inr fun layerId hlt hneeds => hmore layerId (hall layerId hlt hneeds)
  · intro hcompact z hz _
    rw [hx.batch]
    exact (hnext ⟨z, hz⟩).2.1 hcompact
  · intro hpubl z hz hzf
    rw [h.silent hpubl y hy hlive, (hnext ⟨z, hz⟩).2.2 hpubl, hx.early z hz hzf]
    rfl
  · rw [hx.batch, hes.batch, h.batch]
    constructor
    · rintro (⟨e, he, hb⟩ | ⟨e, he, hb⟩)
      · exact ⟨e, mem_append_left _ he, hb⟩
      · exact ⟨e, mem_append_right _ (mem_append_left _ he), hb⟩
    · rintro ⟨e, he, hb⟩
      rcases mem_append.1 he with he | he
      · exact .inl ⟨e, he, hb⟩
      rcases mem_append.1 he with he | he
      · exact .inr ⟨e, he, hb⟩
      · rw [(hx.final he).batch] at hb
        cases hb
  · intro hpub
    rw [hx.batch, hes.batch] at hpub
    rcases hpub with hpub | ⟨e, he, hb⟩
    · obtain ⟨j, hj, hop⟩ := h.first hpub
      exact ⟨j, Nat.lt_succ_of_lt hj, hop⟩
    · obtain ⟨rfl, request, flags, rfl, hflags⟩ := hes.layer e he
      rw [((hes.made e he).batch hb).2] at hpos
      exact ⟨taken, Nat.lt_succ_self taken, hpos, request, flags, hd, hflags⟩
  · intro z hz hzf
    rcases hx.finals with ⟨_, hsame⟩ | ⟨f, hf, _, _⟩
    · exact hsame.trans hfresh
    · rw [hx.early z hz hzf] at hf
      cases hf
  · intro hatt
    rcases hx.finals with ⟨_, hsame⟩ | ⟨f, hf, hfinal, _⟩
    · rw [hsame, hfresh] at hatt
      cases hatt
    · refine ⟨f, mem_append_right _ (mem_append_right _ ?_), hfinal.layerId⟩
      rw [hf]
      exact mem_singleton_self f
  · intro hend hpub
    rw [hx.batch] at hpub
    exact hx.closed hend hpub

end

end SharedSparse
