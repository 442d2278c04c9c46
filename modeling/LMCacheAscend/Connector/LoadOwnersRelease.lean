import LMCacheAscend.Connector.LoadOwners

/-!
# The owners outlive their copies

A copy that is not complete has a fence: an event of its request, the stream
of a submission that failed, or the generator that is about to record its event
(`InHand`).  A release waits for all fences of its request before it lets go of
the owners, and takes none out that it has not waited for.
-/

namespace LoadOwners

open Lib List Function Dict

variable {s s' : Connector} {i j : Nat} {t t' : Load} {op : Op} {rest : List Op} {c : Copy}

/-! ## The invariant -/

/-- The generator has submitted the copy, and its event is not registered. -/
def InHand (t : Load) (j : Nat) (c : Copy) : Prop :=
  t.req = c.req ∧ t.submitted = true ∧ t.stream = c.stream ∧ match t.ops with
    | .createEvent :: .recordEvent :: .registerEvent :: _ => True
    | .recordEvent :: .registerEvent :: _ => True
    | .registerEvent :: _ => ∃ e, t.event = some e ∧ e.stream = c.stream ∧ j < e.upto
    | _ => False

/-- A fence of the request's loads is registered. -/
def Live (s : Connector) (req : String) : Fence → Prop
  | .stream u => u ∈ s.unfencedOf req
  | .event e => e ∈ s.eventsOf req
  | .store _ _ => False

/-- Where a release stands, what it has waited for is complete. -/
def StageOk (s : Connector) (req : String) : Stage → Prop
  | .streams todo => ∀ u ∈ s.unfencedOf req, u ∈ todo ∨ s.Satisfied req (.stream u)
  | .stores todo => s.unfencedOf req = [] ∧
      ∀ e ∈ s.storesOf req, e ∈ todo ∨ s.Satisfied req (.event e)
  | .events todo => s.unfencedOf req = [] ∧
      ∀ e ∈ s.eventsOf req, e ∈ todo ∨ s.Satisfied req (.event e)

/-- The invariant, apart from the cover of the copies. -/
structure Base (s : Connector) : Prop where
  once : s.taken.Nodup
  droppedOnce : s.dropped.Nodup
  dropped : ∀ e ∈ s.dropped, e ∈ s.taken ∧ e.1 ∈ s.retired ∧ e.2 ∉ s.ownersOf e.1
  owners : ∀ req page, (req, page) ∈ s.taken → (req, page) ∈ s.dropped ∨ page ∈ s.ownersOf req
  owned : ∀ req page, page ∈ s.ownersOf req → (req, page) ∈ s.taken
  distinct : ∀ req, (s.ownersOf req).Nodup
  released : ∀ req ∈ s.released, req ∈ s.retired ∧ s.ownersOf req = []
  quiet : ∀ t ∈ s.loads, t.req ∈ s.retired → t.ops = []
  outlives : ∀ e ∈ s.dropped, ∀ j c, s.copies[j]? = some c → c.req = e.1 → s.done j = true
  fences : ∀ e ∈ s.fences, s.Registered e.1 e.2 ∨ (e.1 ∈ s.retired ∧ s.Satisfied e.1 e.2)
  stage : ∀ req stage, s.releasing = some (req, stage) → req ∈ s.retired ∧ StageOk s req stage

/-- Every copy that is not complete has a fence. -/
def Covered (s : Connector) : Prop :=
  ∀ j c, s.copies[j]? = some c → s.done j = false →
    (∃ f, Live s c.req f ∧ f.covers j c) ∨ ∃ t ∈ s.loads, InHand t j c

structure Inv (s : Connector) : Prop where
  base : Base s
  covered : Covered s

theorem Inv.init : Inv Connector.init where
  base := {
    once := nodup_nil
    droppedOnce := nodup_nil
    dropped := nofun
    owners := nofun
    owned := nofun
    distinct := fun _ => nodup_nil
    released := nofun
    quiet := nofun
    outlives := nofun
    fences := nofun
    stage := nofun }
  covered := nofun

/-! ## Replacing a generator -/

theorem mem_setLoad {x : Load} (h : x ∈ (s.setLoad i t').loads) : x = t' ∨ x ∈ s.loads := by
  rcases mem_or_eq_of_mem_set h with h | h
  · exact .inr h
  · exact .inl h

theorem Base.running (h : Base s) (hi : s.loads[i]? = some t) (hops : t.ops = op :: rest) :
    t.req ∉ s.retired := by
  intro hretired
  rw [h.quiet t (mem_of_getElem? hi) hretired] at hops
  cases hops

theorem Base.setLoad (h : Base s) (hreq : t'.req ∈ s.retired → t'.ops = []) :
    Base (s.setLoad i t') :=
  { h with
    quiet := by
      intro x hx hretired
      rcases mem_setLoad hx with rfl | hx
      · exact hreq hretired
      · exact h.quiet x hx hretired }

theorem Covered.setLoad (h : Covered s) (hi : s.loads[i]? = some t)
    (hkeep : ∀ j c, s.copies[j]? = some c → InHand t j c → InHand t' j c) :
    Covered (s.setLoad i t') := by
  intro j c hc hdone
  rcases h j c hc hdone with hf | ⟨x, hx, hin⟩
  · exact .inl hf
  right
  rcases mem_set_or hi hx t' with rfl | hx
  · exact ⟨t', mem_set (lt_of_getElem? hi) t', hkeep j c hc hin⟩
  · exact ⟨x, hx, hin⟩

theorem Inv.setLoad (h : Inv s) (hi : s.loads[i]? = some t)
    (hreq : t'.req ∈ s.retired → t'.ops = [])
    (hkeep : ∀ j c, s.copies[j]? = some c → InHand t j c → InHand t' j c) :
    Inv (s.setLoad i t') :=
  ⟨h.base.setLoad hreq, h.covered.setLoad hi hkeep⟩

theorem not_inHand (hops : t.ops = op :: rest) (h1 : op ≠ .createEvent) (h2 : op ≠ .recordEvent)
    (h3 : op ≠ .registerEvent) : ¬ InHand t j c := by
  rintro ⟨-, -, -, hmatch⟩
  rw [hops] at hmatch
  cases op with
  | createEvent => exact h1 rfl
  | recordEvent => exact h2 rfl
  | registerEvent => exact h3 rfl
  | _ => exact hmatch

theorem not_inHand_nil (hops : t.ops = []) : ¬ InHand t j c := by
  rintro ⟨-, -, -, hmatch⟩
  rw [hops] at hmatch
  exact hmatch

/-! ## Owner leases -/

theorem getD_set {β : Type} {none : β} (d : Dict String β) (k : String) (l : β) (j : String) :
    ((d.set k l).get? j).getD none = if j = k then l else (d.get? j).getD none := by
  rw [get?_set]
  split <;> rfl

theorem getD_pop {β : Type} {none : β} (d : Dict String β) (k j : String) :
    ((d.pop k).get? j).getD none = if j = k then none else (d.get? j).getD none := by
  rw [get?_pop]
  split <;> rfl

theorem Inv.lease (h : Inv s) (hi : s.loads[i]? = some t) {page : Nat}
    (hops : t.ops = .own page :: rest) (hnew : page ∉ s.ownersOf t.req) :
    Inv { s.setLoad i { t with ops := rest } with
      loadOwners := s.loadOwners.set t.req (s.ownersOf t.req ++ [page])
      taken := s.taken ++ [(t.req, page)] } := by
  have hrunning : t.req ∉ s.retired := h.base.running hi hops
  have hset : Inv (s.setLoad i { t with ops := rest }) :=
    h.setLoad hi (fun hretired => absurd hretired hrunning)
      fun j c _ hin => absurd hin (not_inHand hops nofun nofun nofun)
  have howners : ∀ req, (((s.loadOwners.set t.req (s.ownersOf t.req ++ [page])).get? req).getD [] :
      List Nat) = if req = t.req then s.ownersOf t.req ++ [page] else s.ownersOf req :=
    getD_set _ _ _
  have hfresh : (t.req, page) ∉ s.taken := by
    intro hmem
    rcases h.base.owners _ _ hmem with hd | ho
    · exact hrunning (h.base.dropped _ hd).2.1
    · exact hnew ho
  refine ⟨{ hset.base with once := ?_, dropped := ?_, owners := ?_, owned := ?_, distinct := ?_,
                           released := ?_ }, hset.covered⟩
  · show (s.taken ++ [(t.req, page)]).Nodup
    exact nodup_snoc h.base.once hfresh
  · intro e he
    obtain ⟨htaken, hretired, hgone⟩ := h.base.dropped e he
    refine ⟨mem_append_left _ htaken, hretired, ?_⟩
    show e.2 ∉ ((s.loadOwners.set t.req _).get? e.1).getD []
    rw [howners, if_neg (ne_of_mem_of_not_mem hretired hrunning)]
    exact hgone
  · intro req p hp
    show (req, p) ∈ s.dropped ∨ p ∈ ((s.loadOwners.set t.req _).get? req).getD []
    have hp : (req, p) ∈ s.taken ++ [(t.req, page)] := hp
    have hold := h.base.owners req p
    rw [howners]
    grind
  · intro req p hp
    have hp : p ∈ ((s.loadOwners.set t.req _).get? req).getD [] := hp
    have hold := h.base.owned req p
    show (req, p) ∈ s.taken ++ [(t.req, page)]
    rw [howners] at hp
    grind
  · intro req
    show (((s.loadOwners.set t.req _).get? req).getD []).Nodup
    rw [howners]
    split
    · exact nodup_snoc (h.base.distinct _) hnew
    · exact h.base.distinct _
  · intro req hreq
    obtain ⟨hretired, hnone⟩ := h.base.released req hreq
    refine ⟨hretired, ?_⟩
    show ((s.loadOwners.set t.req _).get? req).getD [] = []
    rw [howners, if_neg (ne_of_mem_of_not_mem hretired hrunning)]
    exact hnone

/-! ## Submissions -/

variable {req : String} {done : Nat → Bool}

theorem Satisfied.enqueue {f : Fence} (h : s.Satisfied req f) (hreq : req ≠ t.req) :
    (s.enqueue t).Satisfied req f := by
  intro j c hc hcreq hcovers
  rcases getElem?_snoc.1 hc with hc | ⟨-, rfl⟩
  · exact h j c hc hcreq hcovers
  · exact absurd hcreq.symm hreq

theorem Base.enqueue (h : Base s) (hrunning : t.req ∉ s.retired) : Base (s.enqueue t) := by
  have hne : ∀ {req}, req ∈ s.retired → req ≠ t.req :=
    fun hreq => ne_of_mem_of_not_mem hreq hrunning
  refine { h with outlives := ?_, fences := ?_, stage := ?_ }
  · intro e he j c hc hreq
    rcases getElem?_snoc.1 hc with hc | ⟨-, rfl⟩
    · exact h.outlives e he j c hc hreq
    · exact absurd hreq.symm (hne (h.dropped e he).2.1)
  · intro e he
    rcases h.fences e he with hr | ⟨hretired, hsat⟩
    · exact .inl hr
    · exact .inr ⟨hretired, Satisfied.enqueue hsat (hne hretired)⟩
  · intro req stage hstage
    obtain ⟨hretired, hok⟩ := h.stage req stage hstage
    refine ⟨hretired, ?_⟩
    cases stage with
    | streams todo =>
      intro u hu
      exact (hok u hu).imp id fun hsat => Satisfied.enqueue hsat (hne hretired)
    | stores | events =>
      refine ⟨hok.1, fun e he => ?_⟩
      exact (hok.2 e he).imp id fun hsat => Satisfied.enqueue hsat (hne hretired)

theorem Inv.submit (h : Inv s) (hi : s.loads[i]? = some t) (hops : t.ops = .submit :: rest) :
    Inv ((s.enqueue t).setLoad i { t with
      submitted := true, ops := .createEvent :: .recordEvent :: .registerEvent :: rest }) := by
  have hrunning : t.req ∉ s.retired := h.base.running hi hops
  have hlt : i < s.loads.length := lt_of_getElem? hi
  have hset : Covered (s.setLoad i { t with
      submitted := true, ops := .createEvent :: .recordEvent :: .registerEvent :: rest }) :=
    h.covered.setLoad hi fun j c _ hin => absurd hin (not_inHand hops nofun nofun nofun)
  refine ⟨(h.base.enqueue hrunning).setLoad fun hretired => absurd hretired hrunning, ?_⟩
  intro j c hc hdone
  rcases getElem?_snoc.1 hc with hc | ⟨-, rfl⟩
  · exact hset j c hc hdone
  · right
    exact ⟨_, mem_of_getElem? (getElem?_set_self hlt), rfl, rfl, rfl, trivial⟩

theorem unfencedOf_retain (s : Connector) (req : String) (u : Unfenced) (r : String) :
    (s.retainUnfenced req u).unfencedOf r = if r = req then
      (if u ∈ s.unfencedOf req then s.unfencedOf req else s.unfencedOf req ++ [u])
      else s.unfencedOf r := getD_set _ _ _ _

theorem mem_retain (s : Connector) (req : String) (u : Unfenced) :
    u ∈ (s.retainUnfenced req u).unfencedOf req ∧
      ∀ r, s.unfencedOf r ⊆ (s.retainUnfenced req u).unfencedOf r := by
  constructor
  · rw [unfencedOf_retain]
    grind
  · intro r x hx
    rw [unfencedOf_retain]
    grind

theorem Base.retain (h : Base s) {u : Unfenced} (hreq : req ∉ s.retired) :
    Base (s.retainUnfenced req u) := by
  have hsame : ∀ r, r ∈ s.retired → (s.retainUnfenced req u).unfencedOf r = s.unfencedOf r := by
    intro r hr
    rw [unfencedOf_retain, if_neg (ne_of_mem_of_not_mem hr hreq)]
  refine { h with fences := ?_, stage := ?_ }
  · intro e he
    rcases mem_append.1 he with he | he
    · rcases h.fences e he with hr | hsat
      · left
        obtain ⟨r, f⟩ := e
        cases f with
        | stream v => exact (mem_retain s req u).2 r hr
        | event | store => exact hr
      · exact .inr hsat
    · rw [mem_singleton.1 he]
      exact .inl (mem_retain s req u).1
  · intro r stage hstage
    obtain ⟨hretired, hok⟩ := h.stage r stage hstage
    refine ⟨hretired, ?_⟩
    cases stage with
    | streams todo =>
      intro v hv
      rw [hsame r hretired] at hv
      exact hok v hv
    | stores | events => exact ⟨(hsame r hretired).trans hok.1, hok.2⟩

theorem Base.raise (h : Base s) (hi : s.loads[i]? = some t) (hrunning : t.req ∉ s.retired)
    (hreq : t'.req = t.req) (hmore : t.submitted = true → t'.submitted = true)
    (hstream : t'.stream = t.stream)
    (hcovered : ∀ j c, s.copies[j]? = some c → s.done j = false →
      (∃ f, Live s c.req f ∧ f.covers j c) ∨ (∃ x ∈ s.loads, InHand x j c) ∨
        (t'.submitted = true ∧ c.req = t.req ∧ c.stream = t.stream)) : Inv (s.raise i t') := by
  -- the other generators keep what they have in hand
  have hothers : ∀ j c, (∃ x ∈ s.loads, InHand x j c) →
      (∃ x ∈ (s.setLoad i { t' with ops := [], alive := false }).loads, InHand x j c) ∨
        (t'.submitted = true ∧ c.req = t.req ∧ c.stream = t.stream) := by
    rintro j c ⟨x, hx, hin⟩
    rcases mem_set_or hi hx { t' with ops := [], alive := false } with rfl | hx
    · exact .inr ⟨hmore hin.2.1, hin.1.symm, hin.2.2.1.symm⟩
    · exact .inl ⟨x, hx, hin⟩
  have hset : Base (s.setLoad i { t' with ops := [], alive := false }) := h.setLoad fun _ => rfl
  by_cases hsub : t'.submitted = true
  · have heq : s.raise i t' = (s.setLoad i { t' with ops := [], alive := false }).retainUnfenced
        t'.req ⟨t'.kvGroup, t'.bank, t'.stream⟩ := if_pos hsub
    rw [heq]
    have hnot : t'.req ∉ (s.setLoad i { t' with ops := [], alive := false }).retired := by
      rw [hreq]
      exact hrunning
    refine ⟨hset.retain hnot, ?_⟩
    intro j c hc hdone
    have hlatched := mem_retain (s.setLoad i { t' with ops := [], alive := false }) t'.req
      ⟨t'.kvGroup, t'.bank, t'.stream⟩
    have hlive : c.req = t.req ∧ c.stream = t.stream → ∃ f, Live ((s.setLoad i { t' with
        ops := [], alive := false }).retainUnfenced t'.req ⟨t'.kvGroup, t'.bank, t'.stream⟩)
        c.req f ∧ f.covers j c := by
      rintro ⟨hcreq, hcstream⟩
      refine ⟨.stream ⟨t'.kvGroup, t'.bank, t'.stream⟩, ?_, hcstream.trans hstream.symm⟩
      rw [hcreq, ← hreq]
      exact hlatched.1
    rcases hcovered j c hc hdone with ⟨f, hf, hcov⟩ | hin | ⟨-, hmine⟩
    · left
      refine ⟨f, ?_, hcov⟩
      cases f with
      | stream v => exact hlatched.2 c.req hf
      | event | store => exact hf
    · rcases hothers j c hin with hin | ⟨-, hmine⟩
      · exact .inr hin
      · exact .inl (hlive hmine)
    · exact .inl (hlive hmine)
  · have heq : s.raise i t' = s.setLoad i { t' with ops := [], alive := false } := if_neg hsub
    rw [heq]
    refine ⟨hset, ?_⟩
    intro j c hc hdone
    rcases hcovered j c hc hdone with hf | hin | ⟨hyes, -⟩
    · exact .inl hf
    · rcases hothers j c hin with hin | ⟨hyes, -⟩
      · exact .inr hin
      · exact absurd hyes hsub
    · exact absurd hyes hsub

theorem Inv.raise (h : Inv s) (hi : s.loads[i]? = some t) (hrunning : t.req ∉ s.retired) :
    Inv (s.raise i t) := by
  refine h.base.raise hi hrunning rfl id rfl fun j c hc hdone => ?_
  rcases h.covered j c hc hdone with hf | hin
  · exact .inl hf
  · exact .inr (.inl hin)

theorem Inv.submitRaises (h : Inv s) (hi : s.loads[i]? = some t) (hrunning : t.req ∉ s.retired) :
    Inv (s.raise i { t with submitted := true }) ∧
      Inv ((s.enqueue t).raise i { t with submitted := true }) := by
  constructor
  · refine h.base.raise hi hrunning rfl (fun _ => rfl) rfl fun j c hc hdone => ?_
    rcases h.covered j c hc hdone with hf | hin
    · exact .inl hf
    · exact .inr (.inl hin)
  · refine (h.base.enqueue hrunning).raise hi hrunning rfl (fun _ => rfl) rfl
      fun j c hc hdone => ?_
    rcases getElem?_snoc.1 hc with hc | ⟨-, rfl⟩
    · rcases h.covered j c hc hdone with hf | hin
      · exact .inl hf
      · exact .inr (.inl hin)
    · exact .inr (.inr ⟨rfl, rfl, rfl⟩)

/-- The recorded event fences the copies of its stream. -/
theorem Inv.registerEvent (h : Inv s) (hi : s.loads[i]? = some t)
    (hops : t.ops = .registerEvent :: rest) {e : Event} (he : t.event = some e) :
    Inv { s.setLoad i { t with ops := rest } with
      requestEvents := s.requestEvents.set t.req (s.eventsOf t.req ++ [e])
      fences := s.fences ++ [(t.req, .event e)] } := by
  have hrunning : t.req ∉ s.retired := h.base.running hi hops
  have hget : ∀ r, ((s.requestEvents.set t.req (s.eventsOf t.req ++ [e])).get? r).getD [] =
      if r = t.req then s.eventsOf t.req ++ [e] else s.eventsOf r := getD_set _ _ _
  have hmore : ∀ r, s.eventsOf r ⊆
      ((s.requestEvents.set t.req (s.eventsOf t.req ++ [e])).get? r).getD [] := by
    intro r x hx
    rw [hget]
    grind
  have hset : Base (s.setLoad i { t with ops := rest }) :=
    h.base.setLoad fun hretired => absurd hretired hrunning
  constructor
  · refine { hset with fences := ?_, stage := ?_ }
    · intro x hx
      rcases mem_append.1 hx with hx | hx
      · rcases h.base.fences x hx with hr | hsat
        · left
          obtain ⟨r, f⟩ := x
          cases f with
          | stream | store => exact hr
          | event v => exact hmore r hr
        · exact .inr hsat
      · rw [mem_singleton.1 hx]
        left
        show e ∈ ((s.requestEvents.set t.req (s.eventsOf t.req ++ [e])).get? t.req).getD []
        rw [hget, if_pos rfl]
        exact mem_append_right _ (mem_singleton_self _)
    · intro r stage hstage
      obtain ⟨hretired, hok⟩ := h.base.stage r stage hstage
      refine ⟨hretired, ?_⟩
      cases stage with
      | streams | stores => exact hok
      | events todo =>
        refine ⟨hok.1, fun x hx => ?_⟩
        have hx : x ∈ ((s.requestEvents.set t.req (s.eventsOf t.req ++ [e])).get? r).getD [] := hx
        rw [hget, if_neg (ne_of_mem_of_not_mem hretired hrunning)] at hx
        exact hok.2 x hx
  · intro j c hc hdone
    rcases h.covered j c hc hdone with ⟨f, hf, hcov⟩ | ⟨x, hx, hin⟩
    · left
      refine ⟨f, ?_, hcov⟩
      cases f with
      | stream | store => exact hf
      | event v => exact hmore c.req hf
    · rcases mem_set_or hi hx { t with ops := rest } with rfl | hx
      · obtain ⟨hreq, -, -, hmatch⟩ := hin
        rw [hops] at hmatch
        obtain ⟨e', he', hstream, hupto⟩ := hmatch
        obtain rfl : e = e' := Option.some.inj (he.symm.trans he')
        left
        refine ⟨.event e, ?_, hstream.symm, hupto⟩
        show e ∈ ((s.requestEvents.set t.req (s.eventsOf t.req ++ [e])).get? c.req).getD []
        rw [hget, if_pos hreq.symm]
        exact mem_append_right _ (mem_singleton_self _)
      · exact .inr ⟨x, hx, hin⟩

/-! ## Operations of a generator -/

theorem Inv.own (h : Inv s) (hi : s.loads[i]? = some t) {page : Nat}
    (hops : t.ops = .own page :: rest) : Inv (s.own i t rest page) := by
  have hrunning : t.req ∉ s.retired := h.base.running hi hops
  unfold Connector.own
  split
  · exact h.setLoad hi (fun hretired => absurd hretired hrunning)
      fun j c _ hin => absurd hin (not_inHand hops nofun nofun nofun)
  next hmem =>
  by_cases hvalid : s.valid page
  · rw [if_pos hvalid]
    exact h.lease hi hops hmem
  · rw [if_neg hvalid]
    exact h.raise hi hrunning

theorem Inv.exec (h : Inv s) (hi : s.loads[i]? = some t) (hops : t.ops = op :: rest)
    (hs : s.exec i t rest op = some s') : Inv s' := by
  have hrunning : t.req ∉ s.retired := h.base.running hi hops
  cases op with
  | check | choose =>
    cases hs
    exact h.setLoad hi (fun hretired => absurd hretired hrunning)
      fun j c _ hin => absurd hin (not_inHand hops nofun nofun nofun)
  | own page =>
    cases hs
    exact h.own hi hops
  | submit =>
    cases hs
    exact h.submit hi hops
  | createEvent =>
    cases hs
    refine h.setLoad hi (fun hretired => absurd hretired hrunning) fun j c _ hin => ?_
    obtain ⟨hreq, hsub, hstream, hmatch⟩ := hin
    rw [hops] at hmatch
    refine ⟨hreq, hsub, hstream, ?_⟩
    match rest, hmatch with
    | .recordEvent :: .registerEvent :: _, _ => trivial
  | recordEvent =>
    cases hs
    refine h.setLoad hi (fun hretired => absurd hretired hrunning) fun j c hc hin => ?_
    obtain ⟨hreq, hsub, hstream, hmatch⟩ := hin
    rw [hops] at hmatch
    refine ⟨hreq, hsub, hstream, ?_⟩
    match rest, hmatch with
    | .registerEvent :: _, _ =>
      exact ⟨_, rfl, hstream, (lt_of_getElem? hc)⟩
  | registerEvent =>
    rw [Connector.exec] at hs
    split at hs
    · next e he =>
      cases hs
      exact h.registerEvent hi hops he
    · cases hs

theorem Inv.fail (h : Inv s) (hi : s.loads[i]? = some t) (hops : t.ops = op :: rest)
    (hs : s.fail i t op = some s') : Inv s' := by
  have hrunning : t.req ∉ s.retired := h.base.running hi hops
  cases op with
  | own | choose => cases hs
  | submit =>
    cases hs
    exact (h.submitRaises hi hrunning).1
  | _ =>
    cases hs
    exact h.raise hi hrunning

/-! ## The device, and the other users -/

theorem Satisfied.more (hdone : ∀ j, s.done j = true → done j = true)
    {f : Fence} (h : s.Satisfied req f) :
    ({ s with done := done } : Connector).Satisfied req f :=
  fun j c hc hreq hcov => hdone j (h j c hc hreq hcov)

theorem StageOk.more (hdone : ∀ j, s.done j = true → done j = true)
    {stage : Stage} (h : StageOk s req stage) :
    StageOk { s with done := done } req stage := by
  cases stage with
  | streams todo => exact fun u hu => (h u hu).imp id (Satisfied.more hdone)
  | stores | events => exact ⟨h.1, fun e he => (h.2 e he).imp id (Satisfied.more hdone)⟩

theorem Inv.more (h : Inv s) (hdone : ∀ j, s.done j = true → done j = true) :
    Inv { s with done := done } := by
  constructor
  · refine { h.base with outlives := ?_, fences := ?_, stage := ?_ }
    · intro e he j c hc hreq
      exact hdone j (h.base.outlives e he j c hc hreq)
    · intro e he
      rcases h.base.fences e he with hr | ⟨hretired, hsat⟩
      · exact .inl hr
      · exact .inr ⟨hretired, Satisfied.more hdone hsat⟩
    · intro req stage hstage
      obtain ⟨hretired, hok⟩ := h.base.stage req stage hstage
      exact ⟨hretired, StageOk.more hdone hok⟩
  · intro j c hc hno
    refine h.covered j c hc ?_
    by_contra hyes
    have hnow := hdone j (by simpa using hyes)
    rw [show done j = false from hno] at hnow
    cases hnow

theorem wait_satisfied (s : Connector) (req : String) (f : Fence) : (s.wait f).Satisfied req f := by
  intro j c hc _ hcov
  have hc : s.copies[j]? = some c := hc
  unfold Connector.wait
  simp [hc, hcov]

theorem wait_more (s : Connector) (f : Fence) (j : Nat) (h : s.done j = true) :
    (s.wait f).done j = true := by
  show (s.done j || _) = true
  rw [h, Bool.true_or]

/-- What a wait has reached need not be waited for again. -/
theorem wait_todo {α : Type} {F : α → Fence} {l todo : List α} {u : α}
    (hok : ∀ v ∈ l, v ∈ u :: todo ∨ s.Satisfied req (F v)) :
    ∀ v ∈ l, v ∈ todo ∨ (s.wait (F u)).Satisfied req (F v) := by
  intro v hv
  rcases hok v hv with hmem | hsat
  · rcases mem_cons.1 hmem with rfl | hmem
    · exact .inr (wait_satisfied s req (F v))
    · exact .inl hmem
  · exact .inr (Satisfied.more (wait_more s _) hsat)

theorem mem_storesOf {e : Event} : e ∈ s.storesOf req ↔
    ∃ kvGroup events, (s.storeGroupsOf req).get? kvGroup = some events ∧ e ∈ events := by
  unfold Connector.storesOf
  rw [mem_flatMap]
  constructor
  · rintro ⟨⟨kvGroup, events⟩, hmem, he⟩
    exact ⟨kvGroup, events, mem_entries.1 hmem, he⟩
  · rintro ⟨kvGroup, events, hget, he⟩
    exact ⟨(kvGroup, events), mem_entries.2 hget, he⟩

theorem storeGroupsOf_replace (s : Connector) (req : String) (kvGroup : Nat) (events : List Event)
    (r : String) : (s.replaceStores req kvGroup events).storeGroupsOf r =
      if r = req then (s.storeGroupsOf req).set kvGroup events else s.storeGroupsOf r :=
  getD_set _ _ _ _

theorem registered_replace {kvGroup : Nat} {events : List Event} {x : String × Fence}
    (hr : s.Registered x.1 x.2) (hkeep : x.1 ≠ req ∨ ∀ e ∈ x.2.stored, e.1 ≠ kvGroup) :
    (s.replaceStores req kvGroup events).Registered x.1 x.2 := by
  obtain ⟨r, f⟩ := x
  cases f with
  | stream | event => exact hr
  | store g v =>
    obtain ⟨old, hget, hv⟩ := hr
    refine ⟨old, ?_, hv⟩
    rw [storeGroupsOf_replace]
    by_cases hreq : r = req
    · subst hreq
      rw [if_pos rfl, get?_set_ne ((hkeep.resolve_left fun hne => hne rfl) _ rfl)]
      exact hget
    · rw [if_neg hreq]
      exact hget

theorem Inv.store (h : Inv s) {kvGroup : Nat} {events : List Event} (hreq : req ∉ s.retired) :
    Inv (s.replaceStores req kvGroup events) := by
  refine ⟨{ h.base with fences := ?_, stage := ?_ }, h.covered⟩
  · intro x hx
    rcases mem_append.1 hx with hx | hx
    · obtain ⟨hx, hkeep⟩ := mem_filter.1 hx
      exact (h.base.fences x hx).imp (fun hr => registered_replace hr (of_decide_eq_true hkeep)) id
    obtain ⟨e, he, rfl⟩ := mem_map.1 hx
    left
    refine ⟨events, ?_, he⟩
    rw [storeGroupsOf_replace, if_pos rfl]
    exact get?_set_self _ _ _
  · intro r stage hstage
    obtain ⟨hretired, hok⟩ := h.base.stage r stage hstage
    refine ⟨hretired, ?_⟩
    cases stage with
    | streams | events => exact hok
    | stores todo =>
      have hne : r ≠ req := ne_of_mem_of_not_mem hretired hreq
      refine ⟨hok.1, fun x hx => hok.2 x ?_⟩
      rw [mem_storesOf, storeGroupsOf_replace, if_neg hne] at hx
      exact mem_storesOf.2 hx

/-! ## Releases -/

theorem Inv.release (h : Inv s) (hquiet : ∀ t ∈ s.loads, t.req = req → t.ops = []) :
    Inv { s with retired := s.retired ++ [req]
                 releasing := some (req, .streams (s.unfencedOf req)) } := by
  refine ⟨{ h.base with dropped := ?_, released := ?_, quiet := ?_, fences := ?_, stage := ?_ },
    h.covered⟩
  · intro e he
    obtain ⟨htaken, hretired, hgone⟩ := h.base.dropped e he
    exact ⟨htaken, mem_append_left _ hretired, hgone⟩
  · intro r hr
    obtain ⟨hretired, hnone⟩ := h.base.released r hr
    exact ⟨mem_append_left _ hretired, hnone⟩
  · intro t ht hretired
    rcases mem_append.1 hretired with hretired | hretired
    · exact h.base.quiet t ht hretired
    · exact hquiet t ht (mem_singleton.1 hretired)
  · intro e he
    rcases h.base.fences e he with hr | ⟨hretired, hsat⟩
    · exact .inl hr
    · exact .inr ⟨mem_append_left _ hretired, hsat⟩
  · intro r stage hstage
    cases hstage
    exact ⟨mem_append_right _ (mem_singleton_self _), fun u hu => .inl hu⟩

theorem Inv.toStage (h : Inv s) {stage stage' : Stage}
    (hrel : s.releasing = some (req, stage)) (hok : StageOk s req stage') :
    Inv { s with releasing := some (req, stage') } := by
  refine ⟨{ h.base with stage := ?_ }, h.covered⟩
  intro r st hst
  cases hst
  exact ⟨(h.base.stage req stage hrel).1, hok⟩

theorem Inv.popUnfenced (h : Inv s) (hrel : s.releasing = some (req, .streams [])) :
    Inv { s with unfencedLoads := s.unfencedLoads.pop req
                 releasing := some (req, .stores (s.storesOf req)) } := by
  obtain ⟨hretired, hok⟩ := h.base.stage req _ hrel
  have hget : ∀ r, ((s.unfencedLoads.pop req).get? r).getD [] =
      if r = req then [] else s.unfencedOf r := getD_pop _ _
  have hsat : ∀ u ∈ s.unfencedOf req, s.Satisfied req (.stream u) :=
    fun u hu => (hok u hu).resolve_left (not_mem_nil)
  constructor
  · refine { h.base with fences := ?_, stage := ?_ }
    · intro e he
      rcases h.base.fences e he with hr | hs
      · obtain ⟨r, f⟩ := e
        cases f with
        | stream v =>
          by_cases hreq : r = req
          · subst hreq
            exact .inr ⟨hretired, hsat v hr⟩
          left
          show v ∈ ((s.unfencedLoads.pop req).get? r).getD []
          rw [hget, if_neg hreq]
          exact hr
        | event | store => exact .inl hr
      · exact .inr hs
    · intro r st hst
      cases hst
      refine ⟨hretired, ?_, fun e he => .inl he⟩
      show ((s.unfencedLoads.pop req).get? req).getD [] = []
      rw [hget, if_pos rfl]
  · intro j c hc hdone
    rcases h.covered j c hc hdone with ⟨f, hf, hcov⟩ | hin
    · cases f with
      | stream v =>
        by_cases hreq : c.req = req
        · have hdone' := hsat v (hreq ▸ hf) j c hc hreq hcov
          rw [show s.done j = false from hdone] at hdone'
          cases hdone'
        · left
          refine ⟨.stream v, ?_, hcov⟩
          show v ∈ ((s.unfencedLoads.pop req).get? c.req).getD []
          rw [hget, if_neg hreq]
          exact hf
      | event v => exact .inl ⟨.event v, hf, hcov⟩
      | store g v => exact hf.elim
    · exact .inr hin

theorem Inv.popStores (h : Inv s) (hrel : s.releasing = some (req, .stores [])) :
    Inv { s with storeEvents := s.storeEvents.pop req
                 releasing := some (req, .events (s.eventsOf req)) } := by
  obtain ⟨hretired, hnone, hok⟩ := h.base.stage req _ hrel
  refine ⟨{ h.base with fences := ?_, stage := ?_ }, h.covered⟩
  · intro e he
    rcases h.base.fences e he with hr | hs
    · obtain ⟨r, f⟩ := e
      cases f with
      | stream | event => exact .inl hr
      | store g v =>
        by_cases hreq : r = req
        · subst hreq
          obtain ⟨events, hget, hv⟩ := hr
          have hsat := (hok v (mem_storesOf.2 ⟨g, events, hget, hv⟩)).resolve_left not_mem_nil
          exact .inr ⟨hretired, hsat⟩
        · left
          obtain ⟨events, hget, hv⟩ := hr
          refine ⟨events, ?_, hv⟩
          show (((s.storeEvents.pop req).get? r).getD Dict.empty).get? g = some events
          rw [getD_pop, if_neg hreq]
          exact hget
    · exact .inr hs
  · intro r st hst
    cases hst
    exact ⟨hretired, hnone, fun e he => .inl he⟩

theorem Inv.all_done (h : Inv s) (hrel : s.releasing = some (req, .events []))
    (hc : s.copies[j]? = some c) (hreq : c.req = req) : s.done j = true := by
  obtain ⟨hretired, hnone, hok⟩ := h.base.stage req _ hrel
  by_contra hno
  have hfalse : s.done j = false := by simpa using hno
  rcases h.covered j c hc hfalse with ⟨f, hf, hcov⟩ | ⟨t, ht, hin⟩
  · cases f with
    | stream v =>
      have hv : v ∈ s.unfencedOf req := hreq ▸ hf
      rw [hnone] at hv
      cases hv
    | event v =>
      have hsat := (hok v (hreq ▸ hf)).resolve_left not_mem_nil
      exact hno (hsat j c hc hreq hcov)
    | store g v => exact hf.elim
  · have hops := h.base.quiet t ht (by rw [hin.1, hreq]; exact hretired)
    exact not_inHand_nil hops hin

theorem valid_of_owned {page : Nat} (h : page ∈ s.ownersOf req) :
    s.valid page = true := by
  unfold Connector.valid
  refine decide_eq_true (.inr ?_)
  unfold Connector.ownersOf at h
  cases hget : s.loadOwners.get? req with
  | none =>
    rw [hget] at h
    cases h
  | some l =>
    rw [hget] at h
    exact ⟨(req, l), mem_entries.2 hget, h⟩

theorem ownersOf_drop (s : Connector) (req r : String) :
    (s.dropOwners req).ownersOf r = if r = req then [] else s.ownersOf r := getD_pop _ _ _

theorem eventsOf_drop (s : Connector) (req r : String) :
    (s.dropOwners req).eventsOf r = if r = req then [] else s.eventsOf r := getD_pop _ _ _

theorem dropped_drop (s : Connector) (req : String) :
    (s.dropOwners req).dropped = s.dropped ++ (s.ownersOf req).map (Prod.mk req) := by
  have hall : (s.ownersOf req).filter s.valid = s.ownersOf req :=
    filter_eq_self.2 fun page hpage => valid_of_owned hpage
  unfold Connector.dropOwners
  rw [hall]

theorem mem_dropped {e : String × Nat} : e ∈ (s.dropOwners req).dropped ↔
    e ∈ s.dropped ∨ (e.1 = req ∧ e.2 ∈ s.ownersOf req) := by
  rw [dropped_drop, mem_append, mem_map]
  refine or_congr_right ⟨?_, ?_⟩
  · rintro ⟨page, hpage, rfl⟩
    exact ⟨rfl, hpage⟩
  · rintro ⟨rfl, hpage⟩
    exact ⟨e.2, hpage, rfl⟩

/-- The fences of the request were waited for. -/
theorem Inv.fences_drop (h : Inv s) (hrel : s.releasing = some (req, .events []))
    (e : String × Fence) (he : e ∈ s.fences) : (s.dropOwners req).Registered e.1 e.2 ∨
      (e.1 ∈ s.retired ∧ (s.dropOwners req).Satisfied e.1 e.2) := by
  obtain ⟨hretired, -, hok⟩ := h.base.stage req _ hrel
  rcases h.base.fences e he with hr | hsat
  · obtain ⟨r, f⟩ := e
    cases f with
    | stream | store => exact .inl hr
    | event v =>
      by_cases hreq : r = req
      · subst hreq
        exact .inr ⟨hretired, (hok v hr).resolve_left not_mem_nil⟩
      left
      show v ∈ (s.dropOwners req).eventsOf r
      rw [eventsOf_drop, if_neg hreq]
      exact hr
  · exact .inr hsat

/-- Owners go when no fence of the request is left. -/
theorem Inv.base_drop (h : Inv s) (hrel : s.releasing = some (req, .events [])) :
    Base (s.dropOwners req) := by
  have hretired := (h.base.stage req _ hrel).1
  refine { h.base with droppedOnce := ?_, dropped := ?_, owners := ?_, owned := ?_
                       distinct := ?_, released := ?_, outlives := ?_
                       fences := h.fences_drop hrel, stage := nofun }
  · rw [dropped_drop, nodup_append]
    refine ⟨h.base.droppedOnce, ?_, ?_⟩
    · exact (h.base.distinct req).map fun a b hab => congrArg Prod.snd hab
    · intro a ha b hb
      obtain ⟨page, hpage, rfl⟩ := mem_map.1 hb
      rintro rfl
      exact (h.base.dropped _ ha).2.2 hpage
  · intro e he
    rw [ownersOf_drop]
    rcases mem_dropped.1 he with he | ⟨hreq, hpage⟩
    · obtain ⟨htaken, hret, hgone⟩ := h.base.dropped e he
      refine ⟨htaken, hret, ?_⟩
      split
      · exact not_mem_nil
      · exact hgone
    · refine ⟨?_, hreq ▸ hretired, ?_⟩
      · have htaken := h.base.owned req e.2 hpage
        rw [← hreq] at htaken
        exact htaken
      · rw [if_pos hreq]
        exact not_mem_nil
  · intro r page hpage
    rcases h.base.owners r page hpage with hd | ho
    · exact .inl (mem_dropped.2 (.inl hd))
    by_cases hreq : r = req
    · subst hreq
      exact .inl (mem_dropped.2 (.inr ⟨rfl, ho⟩))
    · right
      rw [ownersOf_drop, if_neg hreq]
      exact ho
  · intro r page hpage
    rw [ownersOf_drop] at hpage
    split at hpage
    · cases hpage
    · exact h.base.owned r page hpage
  · intro r
    rw [ownersOf_drop]
    split
    · exact nodup_nil
    · exact h.base.distinct r
  · intro r hr
    rw [ownersOf_drop]
    rcases mem_append.1 hr with hr | hr
    · obtain ⟨hret, hnone⟩ := h.base.released r hr
      exact ⟨hret, by rw [hnone, ite_self]⟩
    · have hreq := mem_singleton.1 hr
      exact ⟨hreq ▸ hretired, if_pos hreq⟩
  · intro e he j c hc hreq
    rcases mem_dropped.1 he with he | ⟨her, -⟩
    · exact h.base.outlives e he j c hc hreq
    · exact h.all_done hrel hc (hreq.trans her)

theorem Inv.dropOwners (h : Inv s) (hrel : s.releasing = some (req, .events [])) :
    Inv (s.dropOwners req) := by
  refine ⟨h.base_drop hrel, fun j c hc hdone => ?_⟩
  rcases h.covered j c hc hdone with ⟨f, hf, hcov⟩ | hin
  · cases f with
    | stream v => exact .inl ⟨.stream v, hf, hcov⟩
    | store g v => exact hf.elim
    | event v =>
      by_cases hreq : c.req = req
      · have hdone' := h.all_done hrel hc hreq
        rw [show s.done j = false from hdone] at hdone'
        cases hdone'
      · left
        refine ⟨.event v, ?_, hcov⟩
        show v ∈ (s.dropOwners req).eventsOf c.req
        rw [eventsOf_drop, if_neg hreq]
        exact hf
  · exact .inr hin

theorem Inv.sync (h : Inv s) (hs : s.sync = some s') : Inv s' := by
  unfold Connector.sync at hs
  split at hs
  · next req u todo hrel =>
    cases hs
    have hok := (h.base.stage req _ hrel).2
    have hwait : Inv (s.wait (.stream u)) := h.more (wait_more s _)
    exact hwait.toStage hrel (wait_todo (F := .stream) hok)
  · next req hrel =>
    cases hs
    exact h.popUnfenced hrel
  · next req e todo hrel =>
    cases hs
    obtain ⟨-, hnone, hok⟩ := h.base.stage req _ hrel
    have hwait : Inv (s.wait (.event e)) := h.more (wait_more s _)
    exact hwait.toStage hrel ⟨hnone, wait_todo (F := .event) hok⟩
  · next req hrel =>
    cases hs
    exact h.popStores hrel
  · next req e todo hrel =>
    cases hs
    obtain ⟨-, hnone, hok⟩ := h.base.stage req _ hrel
    have hwait : Inv (s.wait (.event e)) := h.more (wait_more s _)
    exact hwait.toStage hrel ⟨hnone, wait_todo (F := .event) hok⟩
  · next req hrel =>
    cases hs
    exact h.dropOwners hrel
  · cases hs

theorem Inv.stop (h : Inv s) : Inv { s with releasing := none } :=
  ⟨{ h.base with stage := nofun }, h.covered⟩

/-! ## Runs -/

theorem head_eq (hs : s.head i = some (t, op, rest)) :
    s.loads[i]? = some t ∧ t.ops = op :: rest := by
  unfold Connector.head at hs
  split at hs
  · next x hx =>
    split at hs
    · next y ys hops =>
      cases hs
      exact ⟨hx, hops⟩
    · cases hs
  · cases hs

theorem suspended_eq (hs : s.suspended i = some t) : s.loads[i]? = some t ∧ t.ops = [] := by
  unfold Connector.suspended at hs
  split at hs
  · next x hx =>
    split at hs
    · next hc =>
      cases hs
      exact ⟨hx, hc.2⟩
    · cases hs
  · cases hs

theorem Inv.generate (h : Inv s) (hops : t.ops = []) :
    Inv { s with loads := s.loads ++ [t] } := by
  refine ⟨{ h.base with quiet := ?_ }, ?_⟩
  · intro x hx hretired
    rcases mem_append.1 hx with hx | hx
    · exact h.base.quiet x hx hretired
    · rw [mem_singleton.1 hx]
      exact hops
  · intro j c hc hdone
    rcases h.covered j c hc hdone with hf | ⟨x, hx, hin⟩
    · exact .inl hf
    · exact .inr ⟨x, mem_append_left _ hx, hin⟩

theorem Inv.resume (h : Inv s) (hi : s.loads[i]? = some t) (hops : t.ops = [])
    (hreq : t'.req ∈ s.retired → t'.ops = []) : Inv (s.setLoad i t') :=
  h.setLoad hi hreq fun _ _ _ hin => absurd hin (not_inHand_nil hops)

/-- The steps of a generator that is suspended. -/
theorem Inv.suspendedStep (h : Inv s) (hsus : s.suspended i = some t)
    (hops : t'.ops ≠ [] → t'.req ∉ s.retired) : Inv (s.setLoad i t') := by
  obtain ⟨hi, hnil⟩ := suspended_eq hsus
  exact h.resume hi hnil fun hretired => not_not.1 fun hne => hops hne hretired

theorem Inv.syncRaises (h : Inv s) (hs : s.syncRaises = some s') : Inv s' := by
  unfold Connector.syncRaises at hs
  split at hs
  · cases hs
    exact h.stop
  · cases hs
    exact h.stop
  · cases hs
    exact h.stop
  · cases hs

/-- The steps of the generators. -/
theorem Inv.stepLoad (h : Inv s) {a : Action} (hs : s.step a = some s')
    (ha : match a with
      | .send _ _ _ _ | .run _ | .fails _ | .failsLate _ | .finish _ | .close _ | .throw _ => True
      | _ => False) : Inv s' := by
  cases a with
  | send i pages bank stream =>
    rw [Connector.step] at hs
    split at hs
    · next t ht =>
      obtain ⟨hreq, hs⟩ := Option.ite_none_right_eq_some.1 hs
      cases hs
      exact h.suspendedStep ht fun _ => hreq
    · cases hs
  | run i =>
    rw [Connector.step] at hs
    split at hs
    · next t op rest hhead =>
      obtain ⟨hi, hops⟩ := head_eq hhead
      exact h.exec hi hops hs
    · cases hs
  | fails i =>
    rw [Connector.step] at hs
    split at hs
    · next t op rest hhead =>
      obtain ⟨hi, hops⟩ := head_eq hhead
      exact h.fail hi hops hs
    · cases hs
  | failsLate i =>
    rw [Connector.step] at hs
    split at hs
    · next t rest hhead =>
      cases hs
      obtain ⟨hi, hops⟩ := head_eq hhead
      have hrunning := h.base.running hi hops
      exact (h.submitRaises hi hrunning).2
    · cases hs
  | finish i | close i =>
    rw [Connector.step] at hs
    split at hs
    · next t ht =>
      cases hs
      exact h.suspendedStep ht fun hne => absurd (suspended_eq ht).2 hne
    · cases hs
  | throw i =>
    rw [Connector.step] at hs
    split at hs
    · next t ht =>
      obtain ⟨hreq, hs⟩ := Option.ite_none_right_eq_some.1 hs
      cases hs
      exact h.raise (suspended_eq ht).1 hreq
    · cases hs
  | _ => exact ha.elim

theorem Inv.step (h : Inv s) {a : Action} (hs : s.step a = some s') : Inv s' := by
  cases a with
  | generate req kvGroup =>
    obtain ⟨-, hs⟩ := Option.ite_none_right_eq_some.1 hs
    cases hs
    exact h.generate rfl
  | store req kvGroup streams =>
    obtain ⟨hreq, hs⟩ := Option.ite_none_right_eq_some.1 hs
    cases hs
    exact h.store hreq
  | othersUp page =>
    cases hs
    exact ⟨{ h.base with }, h.covered⟩
  | othersDown page =>
    obtain ⟨-, hs⟩ := Option.ite_none_right_eq_some.1 hs
    cases hs
    exact ⟨{ h.base with }, h.covered⟩
  | complete j =>
    cases hs
    refine h.more fun k hk => ?_
    by_cases hkj : k = j
    · rw [hkj, update_self]
    · rw [update_of_ne hkj]
      exact hk
  | release req =>
    obtain ⟨hc, hs⟩ := Option.ite_none_right_eq_some.1 hs
    cases hs
    exact h.release hc.2
  | sync => exact h.sync hs
  | syncRaises => exact h.syncRaises hs
  | _ => exact h.stepLoad hs trivial

theorem Inv.owned (h : Inv s) : s.Owned where
  once := h.base.once
  droppedOnce := h.base.droppedOnce
  dropped e he := (h.base.dropped e he).1
  released req hreq page hpage := by
    refine (h.base.owners req page hpage).resolve_right fun hown => ?_
    rw [(h.base.released req hreq).2] at hown
    cases hown
  outlives := h.base.outlives
  owners req page htaken hnot := (h.base.owners req page htaken).resolve_left hnot
  fences e he := (h.base.fences e he).imp id And.right

/-- In every run the pages of a request outlive its copies, and a release that raises keeps what
is needed for the next one. -/
theorem owners_outlive (h : connector.Reachable s) : s.Owned := by
  have hinv : connector.Inductive Inv := by
    constructor
    · rintro s rfl
      exact Inv.init
    · intro s a s' hI hs
      exact hI.step hs
  exact (hinv.reachable h).owned

/-- A copy that raises late, and a release whose first attempt raises. -/
theorem owners_outlive_retry : ∃ s : Connector, s.copies = [⟨"r", 5⟩] ∧ s.done 0 = true ∧
    s.dropped = [("r", 7)] ∧ s.Owned := by
  have hrun : ∃ s, connector.run Connector.init
      [.othersUp 7, .generate "r" 0, .send 0 [7] (some 1) 5, .run 0, .run 0, .run 0, .run 0,
        .run 0, .failsLate 0, .release "r", .syncRaises, .release "r", .sync, .sync, .sync,
        .sync] = some s ∧
      s.copies = [⟨"r", 5⟩] ∧ s.done 0 = true ∧ s.dropped = [("r", 7)] :=
    ⟨_, rfl, rfl, rfl, rfl⟩
  obtain ⟨s, hs, hcopies, hdone, hdropped⟩ := hrun
  exact ⟨s, hcopies, hdone, hdropped, owners_outlive (Machine.reachable_of_run rfl hs)⟩

end LoadOwners
