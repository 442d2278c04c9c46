import LMCacheAscend.Connector.PrefillBanks
import Mathlib.Tactic.IntervalCases

/-!
# Bank reuse is ordered

`Inv` says what the device's queues know of each operation in the program: an
access is behind its layer's wait, and known to the bank's FIFO stream once the
layer has handed its bank over; a load is known to the compute stream, or its
event is still registered; a save is over, or one of `saves`.  Each action
appends commands (`Inv.extend`, `Inv.launch`) and then moves the registries.
-/

namespace PrefillBanks

open Lib List Option Dict

variable {cfg : Config} {s s' : Engine} {g b i j l n e : Nat} {x y : Place} {o : Op}
variable {t : Transfer} {z : Saved} {q : List (Cmd Strm Nat Op)}

/-! ## The invariant -/

/-- The layer has handed its bank over. -/
def Past (s : Engine) (y : Place) : Prop :=
  y.step < s.step y.group ∨ (y.step = s.step y.group ∧ y.layer < s.layer y.group)

/-- The layer has the bank. -/
def Now (s : Engine) (y : Place) : Prop :=
  y.step = s.step y.group ∧ y.layer = s.layer y.group ∧ s.entered y.group = true

/-- The layer does not have the bank yet. -/
def NotYet (s : Engine) (y : Place) : Prop :=
  y.step = s.step y.group ∧ (s.layer y.group < y.layer ∨
    (y.layer = s.layer y.group ∧ s.entered y.group = false))

structure AccessOk (cfg : Config) (s : Engine) (n : Nat) (y : Place) : Prop where
  layer : y.layer < cfg.layers y.group
  place : Past s y ∨ Now s y
  compute : (known s.prog).stream .compute n
  bank : Past s y → (known s.prog).stream (.bank y.group (cfg.bank y.layer)) n

/-- The event of a load is registered, under the request of a generator that went on. -/
def Registered (s : Engine) (n : Nat) (y : Place) : Prop :=
  ∃ row e, ∃ u ∈ s.transfers, s.loadDone.get? (y.group, y.layer) = some row ∧
    row.get? u.req = some (s.generation y.group, e) ∧ (known s.prog).event e n ∧ e < s.events ∧
    u.dir = .load ∧ u.group = y.group ∧ u.step = y.step ∧ y.layer < u.next

structure LoadOk (cfg : Config) (s : Engine) (n : Nat) (y : Place) : Prop where
  layer : y.layer < cfg.layers y.group
  step : y.step ≤ s.step y.group
  freed : y.step = s.step y.group → cfg.banks ≤ y.layer → y.layer - cfg.banks < s.layer y.group ∧
    ∀ u ∈ s.transfers, u.dir = .save → u.group = y.group → u.step = y.step → u.closed = false →
      y.layer - cfg.banks < u.next
  seen : (known s.prog).host n ∨ (known s.prog).stream .compute n ∨ (NotYet s y ∧ Registered s n y)

def Saved.stream (cfg : Config) (z : Saved) : Strm :=
  match z.path with
  | .dma => .bank z.at_.group (cfg.bank z.at_.layer)
  | .direct => .store

/-- A save that the host has not waited for.  The event of a direct save is registered, or that of a
later save of the layer; the generator keeps the last event on the stream. -/
structure SavedOk (cfg : Config) (s : Engine) (z : Saved) : Prop where
  stream : (known s.prog).stream (z.stream cfg) z.place
  fifo : z.path = .dma → (z.at_.group, cfg.bank z.at_.layer) ∈ s.fifos
  generation : z.generation ≤ s.generation z.at_.group
  event : z.path = .direct → z.generation = s.generation z.at_.group →
    ∃ e, s.saveDone.get? (z.at_.group, cfg.bank z.at_.layer, z.at_.layer) =
        some (s.generation z.at_.group, e) ∧ e < s.events ∧
      ((known s.prog).event e z.place ∨
        ∃ y ∈ s.saves, y.path = .dma ∧ y.at_.group = z.at_.group ∧ y.at_.layer = z.at_.layer)
  stored : ∃ t e, s.transfers[z.owner]? = some t ∧ t.stored.get? (z.stream cfg) = some e ∧
    e < s.events ∧ (known s.prog).event e z.place

/-- What the last use of a bank says of the layers. -/
def UseOk (cfg : Config) (s : Engine) (g b l : Nat) : Prop :=
  cfg.bank l = b ∧ ((l < s.layer g ∧ s.layer g ≤ l + cfg.banks) ∨
    (cfg.layers g ≤ l + cfg.banks ∧ s.layer g ≤ b))

structure Inv (cfg : Config) (s : Engine) : Prop where
  ordered : ∀ i j o o', Launched s.prog i o → Launched s.prog j o' → o.Precedes cfg.banks o' →
    Ahead s.prog i j
  entered : ∀ g, s.entered g = true → s.layer g < cfg.layers g
  past : ∀ t ∈ s.transfers, t.step ≤ s.step t.group
  single : ∀ (i j : Nat) (t u : Transfer), s.transfers[i]? = some t → s.transfers[j]? = some u →
    t.dir = .load → u.dir = .load → t.group = u.group → t.step = u.step → t.req = u.req → i = j
  uses : ∀ g b l, s.uses.get? (g, b) = some (s.generation g, l) → UseOk cfg s g b l
  access : ∀ n y, Launched s.prog n (.access y) → AccessOk cfg s n y
  save : ∀ n y, Launched s.prog n (.save y) → Past s y ∧
    ((known s.prog).host n ∨ ∃ z ∈ s.saves, z.place = n ∧ z.at_ = y)
  load : ∀ n y, Launched s.prog n (.load y) → LoadOk cfg s n y
  saves : ∀ z ∈ s.saves, SavedOk cfg s z

theorem not_launched_nil : ¬ Launched ([] : List (Cmd Strm Nat Op)) n o := by
  rintro ⟨st, h⟩
  rw [getElem?_nil] at h
  cases h

theorem Inv.init : Inv cfg (Engine.init cfg) where
  ordered _ _ _ _ h := absurd h not_launched_nil
  entered _ h := absurd h nofun
  past := nofun
  single i _ t _ h := by
    have h : ([] : List Transfer)[i]? = some t := h
    rw [getElem?_nil] at h
    cases h
  uses _ _ _ h := by cases h
  access _ _ h := absurd h not_launched_nil
  save _ _ h := absurd h not_launched_nil
  load _ _ h := absurd h not_launched_nil
  saves := nofun

/-! ## Commands -/

/-- Commands that launch nothing, and record new events only. -/
structure Quiet (s : Engine) (q : List (Cmd Strm Nat Op)) : Prop where
  launch : ∀ st o, .launch st o ∉ q
  record : ∀ st e, .record e st ∈ q → s.events ≤ e

/-- Commands that only wait. -/
theorem quiet_of_waits (hq : ∀ c ∈ q, (∃ st e, c = .wait st e) ∨ ∃ st, c = .sync st) :
    Quiet s q := by
  constructor
  · intro st o hmem
    obtain ⟨_, _, he⟩ | ⟨_, he⟩ := hq _ hmem <;> cases he
  · intro st e hmem
    obtain ⟨_, _, he⟩ | ⟨_, he⟩ := hq _ hmem <;> cases he

theorem Quiet.not_launched (h : Quiet s q) : ¬ Launched q n o := by
  rintro ⟨st, hst⟩
  exact h.launch st o (mem_of_getElem? hst)

theorem Quiet.launched (h : Quiet s q) : Launched (s.prog ++ q) n o ↔ Launched s.prog n o := by
  rw [launched_append]
  constructor
  · rintro (h' | ⟨m, -, h'⟩)
    · exact h'
    · exact absurd h' h.not_launched
  · exact .inl

/-- The events that commands record are new. -/
def Fresh (s : Engine) (q : List (Cmd Strm Nat Op)) : Prop :=
  ∀ st e, .record e st ∈ q → s.events ≤ e

theorem Fresh.event (h : Fresh s q) (he : e < s.events) (hn : (known s.prog).event e n) :
    (known (s.prog ++ q)).event e n := by
  refine event_known_append hn fun st hst => ?_
  have hle := h st e hst
  omega

theorem AccessOk.extend (h : AccessOk cfg s n y) (q : List (Cmd Strm Nat Op)) (e : Nat) :
    AccessOk cfg { s with prog := s.prog ++ q, events := e } n y :=
  ⟨h.layer, h.place, stream_known_append h.compute q,
    fun hp => stream_known_append (h.bank hp) q⟩

theorem LoadOk.extend (h : LoadOk cfg s n y) (hq : Fresh s q) (he : s.events ≤ e) :
    LoadOk cfg { s with prog := s.prog ++ q, events := e } n y := by
  obtain ⟨hlayer, hstep, hfreed, hseen⟩ := h
  refine ⟨hlayer, hstep, hfreed, ?_⟩
  rcases hseen with hh | hc | ⟨hyet, row, e', u, hu, hrow, hreq, hev, hlt, hrest⟩
  · exact .inl (host_known_append hh q)
  · exact .inr (.inl (stream_known_append hc q))
  · exact .inr (.inr ⟨hyet, row, e', u, hu, hrow, hreq, hq.event hlt hev,
      Nat.lt_of_lt_of_le hlt he, hrest⟩)

theorem SavedOk.extend (h : SavedOk cfg s z) (hq : Fresh s q) (he : s.events ≤ e) :
    SavedOk cfg { s with prog := s.prog ++ q, events := e } z := by
  obtain ⟨hstream, hfifo, hgeneration, hevent, t, e', ht, hget, hlt, hknown⟩ := h
  refine ⟨stream_known_append hstream q, hfifo, hgeneration, fun hd hg => ?_,
    t, e', ht, hget, Nat.lt_of_lt_of_le hlt he, hq.event hlt hknown⟩
  obtain ⟨e', hget, hlt, hknown⟩ := hevent hd hg
  exact ⟨e', hget, Nat.lt_of_lt_of_le hlt he, hknown.imp (hq.event hlt) id⟩

theorem Inv.extend (h : Inv cfg s) (hq : Quiet s q) (he : s.events ≤ e) :
    Inv cfg { s with prog := s.prog ++ q, events := e } := by
  refine ⟨?_, h.entered, h.past, h.single, h.uses, ?_, ?_, ?_, ?_⟩
  · intro i j o o' hi hj hprec
    exact (h.ordered i j o o' (hq.launched.1 hi) (hq.launched.1 hj) hprec).append q
  · intro n y hn
    exact (h.access n y (hq.launched.1 hn)).extend q e
  · intro n y hn
    obtain ⟨hpast, hover⟩ := h.save n y (hq.launched.1 hn)
    exact ⟨hpast, hover.imp (fun hh => host_known_append hh q) id⟩
  · intro n y hn
    exact (h.load n y (hq.launched.1 hn)).extend hq.record he
  · intro z hz
    exact (h.saves z hz).extend hq.record he

variable {op : Op} {st : Strm}

theorem launched_job {pre post : List (Cmd Strm Nat Op)} (hpre : Quiet s pre)
    (hpost : Quiet s post) :
    Launched (s.prog ++ (pre ++ .launch st op :: post)) n o ↔
      Launched s.prog n o ∨ (n = s.prog.length + pre.length ∧ o = op) := by
  rw [launched_append]
  constructor
  · rintro (h | ⟨m, rfl, hm⟩)
    · exact .inl h
    rcases launched_append.1 hm with hm | ⟨k, rfl, st', hst⟩
    · exact absurd hm hpre.not_launched
    · cases k with
      | zero =>
        rw [getElem?_cons_zero] at hst
        cases hst
        exact .inr ⟨rfl, rfl⟩
      | succ k =>
        rw [getElem?_cons_succ] at hst
        exact absurd ⟨st', hst⟩ hpost.not_launched
  · rintro (h | ⟨rfl, rfl⟩)
    · exact .inl h
    · refine .inr ⟨pre.length, rfl, st, ?_⟩
      rw [getElem?_append_right (Nat.le_refl _), Nat.sub_self, getElem?_cons_zero]

theorem launched_old {pre post : List (Cmd Strm Nat Op)} (hpre : Quiet s pre)
    (hpost : Quiet s post) (hn : Launched (s.prog ++ (pre ++ .launch st op :: post)) n o)
    (hne : o ≠ op) : Launched s.prog n o :=
  ((launched_job hpre hpost).1 hn).resolve_right fun h => hne h.2

theorem not_precedes_self (banks : Nat) (o : Op) : ¬ o.Precedes banks o := by
  cases o <;> exact id

theorem Inv.ordered_job (h : Inv cfg s) (pre post : List (Cmd Strm Nat Op)) (hpre : Quiet s pre)
    (hpost : Quiet s post)
    (hbefore : ∀ i o, Launched s.prog i o → o.Precedes cfg.banks op →
      (known (s.prog ++ pre)).host i ∨ (known (s.prog ++ pre)).stream st i)
    (hafter : ∀ i o, Launched s.prog i o → ¬ op.Precedes cfg.banks o) :
    ∀ i j o o', Launched (s.prog ++ (pre ++ .launch st op :: post)) i o →
      Launched (s.prog ++ (pre ++ .launch st op :: post)) j o' → o.Precedes cfg.banks o' →
      Ahead (s.prog ++ (pre ++ .launch st op :: post)) i j := by
  intro i j o o' hi hj hprec
  rcases (launched_job hpre hpost).1 hi with hold | ⟨rfl, ho⟩
  · rcases (launched_job hpre hpost).1 hj with hold' | ⟨rfl, ho'⟩
    · exact (h.ordered i j o o' hold hold' hprec).append _
    rw [ho'] at hprec
    have hahead : Ahead ((s.prog ++ pre) ++ .launch st op :: post) i (s.prog ++ pre).length :=
      ahead_launch (hbefore i o hold hprec)
    rw [append_assoc, length_append] at hahead
    exact hahead
  · rw [ho] at hprec
    rcases (launched_job hpre hpost).1 hj with hold' | ⟨-, ho'⟩
    · exact absurd hprec (hafter j o' hold')
    · rw [ho'] at hprec
      exact absurd hprec (not_precedes_self _ _)

theorem stream_job (p pre post : List (Cmd Strm Nat Op)) (st : Strm) (op : Op) :
    (known (p ++ (pre ++ .launch st op :: post))).stream st (p.length + pre.length) := by
  rw [← append_assoc, append_cons]
  refine stream_known_append ?_ post
  rw [known_append, ← length_append, ← size_known]
  exact Known.stream_launch

theorem event_job {job : Job} {p : List (Cmd Strm Nat Op)}
    (hn : n = p.length + job.pre.length ∨ (known (p ++ job.pre)).stream job.stream n) :
    (known (p ++ job.cmds op)).event job.event n := by
  unfold Job.cmds
  rw [← append_assoc, append_cons, known_append]
  refine Known.event_record (.inl ?_)
  rcases hn with rfl | hn
  · rw [append_assoc]
    exact stream_job p job.pre [] job.stream op
  · exact stream_known_append hn _

theorem quiet_record (he : s.events ≤ e) :
    Quiet s ([.record e st] : List (Cmd Strm Nat Op)) := by
  constructor
  · intro st' o hmem
    cases mem_singleton.1 hmem
  · intro st' e' hmem
    cases mem_singleton.1 hmem
    exact he

theorem quiet_nil : Quiet s [] := ⟨fun _ _ h => absurd h not_mem_nil,
  fun _ _ h => absurd h not_mem_nil⟩

theorem Fresh.job {pre post : List (Cmd Strm Nat Op)} (hpre : Quiet s pre) (hpost : Quiet s post) :
    Fresh s (pre ++ .launch st op :: post) := by
  intro st' e hmem
  rcases mem_append.1 hmem with h | h
  · exact hpre.record st' e h
  rcases mem_cons.1 h with h | h
  · cases h
  · exact hpost.record st' e h

/-! ## Steps of the forward -/

theorem put_self {α : Type} (f : Nat → α) (g : Nat) (v : α) : put f g v g = v := if_pos rfl

theorem put_ne {α : Type} {f : Nat → α} {g h : Nat} {v : α} (hne : h ≠ g) :
    put f g v h = f h := if_neg hne

/-- A layer that has handed its bank over stays so while the groups go on. -/
theorem Past.onward (h : Past s y) (hs : s.step y.group < s'.step y.group ∨
    (s.step y.group = s'.step y.group ∧ s.layer y.group ≤ s'.layer y.group)) : Past s' y := by
  unfold Past at *
  omega

/-- At the end of a step every layer has handed its bank over. -/
theorem Inv.all_past (h : Inv cfg s) (hend : s.layer g = cfg.layers g)
    (hn : Launched s.prog n (.access y)) (hg : y.group = g) : Past s y := by
  obtain ⟨-, hplace, -, -⟩ := h.access n y hn
  rcases hplace with hpast | ⟨-, -, hentered⟩
  · exact hpast
  have hlt := h.entered _ hentered
  rw [hg] at hlt
  omega

theorem Inv.all_seen (h : Inv cfg s) (hend : s.layer g = cfg.layers g)
    (hn : Launched s.prog n (.load y)) (hg : y.group = g) :
    (known s.prog).host n ∨ (known s.prog).stream .compute n := by
  obtain ⟨hlayer, -, -, hseen⟩ := h.load n y hn
  rcases hseen with hh | hc | ⟨⟨-, hyet⟩, -⟩
  · exact .inl hh
  · exact .inr hc
  · rw [hg] at hlayer hyet
    omega

/-- A group that has ended its layers goes on to the next step. -/
theorem Inv.forward (h : Inv cfg s) (hend : s.layer g = cfg.layers g) :
    Inv cfg { s with step := put s.step g (s.step g + 1), layer := put s.layer g 0 } := by
  have hon : ∀ h, s.step h < put s.step g (s.step g + 1) h ∨
      (s.step h = put s.step g (s.step g + 1) h ∧ s.layer h ≤ put s.layer g 0 h) := by
    grind [put]
  refine ⟨h.ordered, ?_, ?_, h.single, ?_, ?_, ?_, ?_, ?_⟩
  · intro g' hentered
    have hlt := h.entered g' hentered
    show put s.layer g 0 g' < _
    grind [put]
  · intro t ht
    have hle := h.past t ht
    show t.step ≤ put s.step g (s.step g + 1) t.group
    grind [put]
  · intro g' b l hget
    obtain ⟨hbank, hcase⟩ := h.uses g' b l hget
    refine ⟨hbank, ?_⟩
    show (l < put s.layer g 0 g' ∧ put s.layer g 0 g' ≤ l + cfg.banks) ∨
      (cfg.layers g' ≤ l + cfg.banks ∧ put s.layer g 0 g' ≤ b)
    grind [put]
  · intro n y hn
    obtain ⟨hlayer, hplace, hcompute, hbank⟩ := h.access n y hn
    by_cases hg : y.group = g
    · have hpast := h.all_past hend hn hg
      exact ⟨hlayer, .inl (hpast.onward (hon _)), hcompute, fun _ => hbank hpast⟩
    refine ⟨hlayer, ?_, hcompute, ?_⟩
    · unfold Past Now at hplace ⊢
      simpa only [put_ne hg] using hplace
    · unfold Past at hbank ⊢
      simpa only [put_ne hg] using hbank
  · intro n y hn
    obtain ⟨hpast, hover⟩ := h.save n y hn
    exact ⟨hpast.onward (hon _), hover⟩
  · intro n y hn
    obtain ⟨hlayer, hstep, hfreed, hseen⟩ := h.load n y hn
    by_cases hg : y.group = g
    · subst hg
      refine ⟨hlayer, ?_, fun heq => ?_, (h.all_seen hend hn rfl).imp id .inl⟩
      · show y.step ≤ put s.step y.group (s.step y.group + 1) y.group
        rw [put_self]
        omega
      · have heq : y.step = put s.step y.group (s.step y.group + 1) y.group := heq
        rw [put_self] at heq
        omega
    refine ⟨hlayer, ?_, ?_, hseen.imp id (Or.imp id ?_)⟩
    · show y.step ≤ put s.step g (s.step g + 1) y.group
      rw [put_ne hg]
      exact hstep
    · simpa only [put_ne hg] using hfreed
    · rintro ⟨hyet, hregistered⟩
      refine ⟨?_, hregistered⟩
      unfold NotYet at hyet ⊢
      simpa only [put_ne hg] using hyet
  · exact fun z hz => { h.saves z hz with }

theorem Inv.enter (h : Inv cfg s) (hlt : s.layer g < cfg.layers g)
    (hseen : ∀ n y, Launched s.prog n (.load y) → y.group = g → y.step = s.step g →
      y.layer = s.layer g → (known s.prog).host n ∨ (known s.prog).stream .compute n) :
    Inv cfg { s with
      loadDone := s.loadDone.pop (g, s.layer g), entered := put s.entered g true } := by
  refine ⟨h.ordered, ?_, h.past, h.single, h.uses, ?_, h.save, ?_, ?_⟩
  · intro g' hentered
    have hentered : put s.entered g true g' = true := hentered
    have hold := h.entered g'
    grind [put]
  · intro n y hn
    obtain ⟨hlayer, hplace, hcompute, hbank⟩ := h.access n y hn
    refine ⟨hlayer, hplace.imp id ?_, hcompute, hbank⟩
    rintro ⟨hstep, hnow, hentered⟩
    refine ⟨hstep, hnow, ?_⟩
    show put s.entered g true y.group = true
    grind [put]
  · intro n y hn
    obtain ⟨hlayer, hstep, hfreed, hold⟩ := h.load n y hn
    refine ⟨hlayer, hstep, hfreed, ?_⟩
    rcases hold with hh | hc | ⟨⟨hnow, hyet⟩, row, e, u, hu, hrow, hrest⟩
    · exact .inl hh
    · exact .inr (.inl hc)
    by_cases hcur : y.group = g ∧ y.layer = s.layer g
    · obtain ⟨hg, hl⟩ := hcur
      rw [hg] at hnow
      exact (hseen n y hn hg hnow hl).imp id .inl
    · refine .inr (.inr ⟨⟨hnow, ?_⟩, row, e, u, hu, ?_, hrest⟩)
      · show s.layer y.group < y.layer ∨
          (y.layer = s.layer y.group ∧ put s.entered g true y.group = false)
        grind [put]
      · show (s.loadDone.pop (g, s.layer g)).get? (y.group, y.layer) = some row
        rw [get?_pop, if_neg fun heq => hcur (Prod.mk.inj heq)]
        exact hrow
  · exact fun z hz => { h.saves z hz with }

/-- What `waitForLoad` waits for. -/
def Engine.waits (cfg : Config) (s : Engine) (g : Nat) (row : List (Option String × Nat × Nat)) :
    List (Cmd Strm Nat Op) :=
  if row.isEmpty then
    match s.tails.get? (g, cfg.bank (s.layer g)) with
    | some (generation, e) => if generation = s.generation g then [.wait .compute e] else []
    | none => []
  else row.map fun x => .wait .compute x.2.2

theorem waits_wait {row : List (Option String × Nat × Nat)} {c : Cmd Strm Nat Op}
    (hc : c ∈ s.waits cfg g row) : ∃ e, c = .wait .compute e := by
  unfold Engine.waits at hc
  split at hc
  · split at hc
    · split at hc
      · exact ⟨_, mem_singleton.1 hc⟩
      · cases hc
    · cases hc
  · obtain ⟨x, -, rfl⟩ := mem_map.1 hc
    exact ⟨_, rfl⟩

theorem waitForLoad_some {ids : Option (List (Option String))}
    (hs : s.waitForLoad cfg g ids = some s') :
    ∃ row, (∀ d, s.loadDone.get? (g, s.layer g) = some d → row = d.entries) ∧
      s' = { s with
        prog := s.prog ++ s.waits cfg g row
        loadDone := s.loadDone.pop (g, s.layer g)
        entered := put s.entered g true } := by
  unfold Engine.waitForLoad at hs
  obtain ⟨-, hs⟩ := ite_none_left_eq_some.1 hs
  refine ⟨_, fun d hd => ?_, (some.inj hs).symm⟩
  rw [hd]

theorem Inv.wait {ids : Option (List (Option String))} (h : Inv cfg s)
    (hlt : s.layer g < cfg.layers g) (hs : s.waitForLoad cfg g ids = some s') : Inv cfg s' := by
  obtain ⟨row, hrow, rfl⟩ := waitForLoad_some hs
  have hquiet : Quiet s (s.waits cfg g row) :=
    quiet_of_waits fun c hc => .inl ⟨_, waits_wait hc⟩
  have hnorecord : ∀ e t, .record e t ∉ s.waits cfg g row := by
    intro e t hmem
    obtain ⟨e', he⟩ := waits_wait hmem
    cases he
  have hext := h.extend hquiet (Nat.le_refl s.events)
  refine hext.enter hlt ?_
  intro n y hn hg hstep hl
  obtain ⟨-, -, -, hseen⟩ := h.load n y (hquiet.launched.1 hn)
  rcases hseen with hh | hc | ⟨-, d, e, u, -, hd, hreq, hevent, -⟩
  · exact .inl (host_known_append hh _)
  · exact .inr (stream_known_append hc _)
  refine .inr (stream_of_wait hevent ?_ (hnorecord e))
  rw [hg, hl] at hd
  have hmem : (u.req, s.generation y.group, e) ∈ row := by
    rw [hrow d hd]
    exact mem_entries.2 hreq
  unfold Engine.waits
  rw [if_neg]
  · exact mem_map.2 ⟨_, hmem, rfl⟩
  · rw [List.isEmpty_iff]
    exact ne_nil_of_mem hmem

theorem bank_lt : cfg.bank l < cfg.banks := Nat.mod_lt l cfg.banks_pos

theorem useOk_next {g' : Nat} (h : UseOk cfg s g' b l)
    (hne : ¬ (g' = g ∧ b = cfg.bank (s.layer g))) {layer : Nat → Nat}
    (hlayer : layer = put s.layer g (s.layer g + 1)) :
    cfg.bank l = b ∧ ((l < layer g' ∧ layer g' ≤ l + cfg.banks) ∨
      (cfg.layers g' ≤ l + cfg.banks ∧ layer g' ≤ b)) := by
  obtain ⟨hbank, hcase⟩ := h
  refine ⟨hbank, ?_⟩
  by_cases hg : g' = g
  · subst hg
    rw [hlayer, put_self]
    have hb : cfg.bank (s.layer g') ≠ b := fun hb => hne ⟨rfl, hb.symm⟩
    rcases hcase with ⟨hlt, hle⟩ | ⟨hend, hle⟩
    · refine .inl ⟨by omega, ?_⟩
      have hne' : s.layer g' ≠ l + cfg.banks := by
        intro heq
        apply hb
        rw [← hbank, heq]
        exact Nat.add_mod_right l cfg.banks
      omega
    · refine .inr ⟨hend, ?_⟩
      have hne' : s.layer g' ≠ b := by
        intro heq
        apply hb
        rw [heq]
        have hlt : b < cfg.banks := by
          rw [← hbank]
          exact bank_lt
        exact Nat.mod_eq_of_lt hlt
      omega
  · rw [hlayer, put_ne hg]
    exact hcase

/-- A recorded use hands the bank of the current layer over. -/
theorem Inv.handOver (h : Inv cfg s) (hentered : s.entered g = true)
    (hknown : ∀ n y, Launched s.prog n (.access y) → y.group = g → y.step = s.step g →
      y.layer = s.layer g → (known s.prog).stream (.bank g (cfg.bank y.layer)) n)
    {fifos : List (Nat × Nat)} (hfifos : s.fifos ⊆ fifos) :
    Inv cfg { s with
      fifos := fifos
      uses := s.uses.set (g, cfg.bank (s.layer g)) (s.generation g, s.layer g)
      layer := put s.layer g (s.layer g + 1)
      entered := put s.entered g false } := by
  have hon : ∀ h, s.step h < s.step h ∨
      (s.step h = s.step h ∧ s.layer h ≤ put s.layer g (s.layer g + 1) h) := by
    grind [put]
  refine ⟨h.ordered, ?_, h.past, h.single, ?_, ?_, ?_, ?_, ?_⟩
  · intro g' he
    have he : put s.entered g false g' = true := he
    have hold := h.entered g'
    show put s.layer g (s.layer g + 1) g' < _
    grind [put]
  · intro g' b l hget
    have hget : (s.uses.set (g, cfg.bank (s.layer g)) (s.generation g, s.layer g)).get? (g', b) =
        some (s.generation g', l) := hget
    by_cases hkey : (g', b) = (g, cfg.bank (s.layer g))
    · obtain ⟨rfl, rfl⟩ := Prod.mk.inj hkey
      rw [get?_set_self] at hget
      obtain ⟨-, rfl⟩ := Prod.mk.inj (some.inj hget)
      have hpos := cfg.banks_pos
      refine ⟨rfl, .inl ?_⟩
      show s.layer g' < put s.layer g' (s.layer g' + 1) g' ∧
        put s.layer g' (s.layer g' + 1) g' ≤ s.layer g' + cfg.banks
      rw [put_self]
      omega
    · rw [get?_set_ne hkey] at hget
      refine useOk_next (h.uses g' b l hget) ?_ rfl
      rintro ⟨hg, hb⟩
      exact hkey (by rw [hg, hb])
  · intro n y hn
    obtain ⟨hlayer, hplace, hcompute, hbank⟩ := h.access n y hn
    refine ⟨hlayer, ?_, hcompute, ?_⟩
    · rcases hplace with hp | ⟨hstep, hnow, hent⟩
      · exact .inl (hp.onward (hon _))
      by_cases hg : y.group = g
      · refine .inl (.inr ⟨hstep, ?_⟩)
        show y.layer < put s.layer g (s.layer g + 1) y.group
        grind [put]
      · refine .inr ⟨hstep, ?_, ?_⟩
        · show y.layer = put s.layer g (s.layer g + 1) y.group
          rw [put_ne hg]
          exact hnow
        · show put s.entered g false y.group = true
          rw [put_ne hg]
          exact hent
    · intro hp
      rcases hplace with hold | ⟨hstep, hnow, -⟩
      · exact hbank hold
      by_cases hg : y.group = g
      · have hk := hknown n y hn hg (by rw [← hg]; exact hstep) (by rw [← hg]; exact hnow)
        rw [hg]
        exact hk
      · refine hbank ?_
        refine hp.imp id fun hp => ⟨hp.1, ?_⟩
        have hlt : y.layer < put s.layer g (s.layer g + 1) y.group := hp.2
        rw [put_ne hg] at hlt
        exact hlt
  · intro n y hn
    obtain ⟨hp, hover⟩ := h.save n y hn
    exact ⟨hp.onward (hon _), hover⟩
  · intro n y hn
    obtain ⟨hlayer, hstep, hfreed, hseen⟩ := h.load n y hn
    refine ⟨hlayer, hstep, ?_, ?_⟩
    · intro hcur hle
      obtain ⟨hlt, hsaves⟩ := hfreed hcur hle
      refine ⟨?_, hsaves⟩
      show y.layer - cfg.banks < put s.layer g (s.layer g + 1) y.group
      grind [put]
    · refine hseen.imp id (Or.imp id ?_)
      rintro ⟨⟨hcur, hyet⟩, hregistered⟩
      refine ⟨⟨hcur, ?_⟩, hregistered⟩
      show put s.layer g (s.layer g + 1) y.group < y.layer ∨
        (y.layer = put s.layer g (s.layer g + 1) y.group ∧ put s.entered g false y.group = false)
      grind [put]
  · intro z hz
    exact { h.saves z hz with fifo := fun hd => hfifos ((h.saves z hz).fifo hd) }

theorem quiet_waitStream {st' : Strm} (he : s.events ≤ e) :
    Quiet s (waitStream st st' e) := by
  constructor
  · intro u o hmem
    simp [waitStream] at hmem
  · intro u e' hmem
    simp only [waitStream, mem_cons, Cmd.record.injEq, not_mem_nil, or_false,
      reduceCtorEq] at hmem
    rw [hmem.1]
    exact he

theorem subset_dmaStream (g b : Nat) : s.fifos ⊆ s.dmaStream g b := by
  unfold Engine.dmaStream
  split
  · exact Subset.refl _
  · exact subset_cons_self _ _

theorem mem_dmaStream (g b : Nat) : (g, b) ∈ s.dmaStream g b := by
  unfold Engine.dmaStream
  split
  · assumption
  · exact mem_cons_self

theorem Inv.use (h : Inv cfg s) (hentered : s.entered g = true) :
    Inv cfg (s.recordBankUse cfg g) := by
  have hquiet : Quiet s (waitStream (.bank g (cfg.bank (s.layer g))) .compute s.events) :=
    quiet_waitStream (Nat.le_refl s.events)
  have hext := h.extend hquiet (Nat.le_succ s.events)
  refine hext.handOver hentered (fun n y hn hg hstep hl => ?_) (subset_dmaStream g _)
  obtain ⟨-, -, hcompute, -⟩ := h.access n y (hquiet.launched.1 hn)
  have hl : y.layer = s.layer g := hl
  rw [hl]
  exact stream_waitStream hcompute

/-! ## Accesses -/

/-- The accesses of the layer that was waited for. -/
theorem Inv.compute (h : Inv cfg s) (hentered : s.entered g = true) :
    Inv cfg { s with
      prog := s.prog ++ [.launch .compute (.access ⟨g, s.layer g, s.step g⟩)] } := by
  have hq : Fresh s ([] ++ .launch .compute (.access ⟨g, s.layer g, s.step g⟩) :: []) :=
    Fresh.job quiet_nil quiet_nil
  have hnot : ¬ Past s ⟨g, s.layer g, s.step g⟩ := by
    rintro (hlt | ⟨-, hlt⟩) <;> exact absurd hlt (Nat.lt_irrefl _)
  refine ⟨?_, h.entered, h.past, h.single, h.uses, ?_, ?_, ?_, ?_⟩
  · refine h.ordered_job [] [] quiet_nil quiet_nil ?_ ?_
    · intro i o hi hprec
      rw [append_nil]
      cases o with
      | access | save => exact hprec.elim
      | load y =>
        have hy : y = ⟨g, s.layer g, s.step g⟩ := hprec
        obtain ⟨-, -, -, hseen⟩ := h.load i y hi
        rcases hseen with hh | hc | ⟨⟨-, hyet⟩, -⟩
        · exact .inl hh
        · exact .inr hc
        rw [hy] at hyet
        rcases hyet with hlt | ⟨-, hnot⟩
        · exact absurd hlt (Nat.lt_irrefl _)
        have hnot : s.entered g = false := hnot
        rw [hentered] at hnot
        cases hnot
    · intro i o hi hprec
      cases o with
      | access y => exact hprec
      | load y =>
        obtain ⟨hg, hcase⟩ := hprec
        have hg : g = y.group := hg
        obtain ⟨-, hstep, hfreed, -⟩ := h.load i y hi
        rcases hcase with ⟨hsame, hlayer⟩ | ⟨hlt, -⟩
        · have hsame : s.step g = y.step := hsame
          have hlayer : s.layer g + cfg.banks = y.layer := hlayer
          have hlt := (hfreed (by rw [← hg, hsame]) (by omega)).1
          rw [← hg] at hlt
          omega
        · have hlt : s.step g < y.step := hlt
          rw [← hg] at hstep
          omega
      | save y =>
        have hy : (⟨g, s.layer g, s.step g⟩ : Place) = y := hprec
        obtain ⟨hpast, -⟩ := h.save i y hi
        rw [← hy] at hpast
        exact hnot hpast
  · intro n y hn
    rcases (launched_job quiet_nil quiet_nil).1 hn with hold | ⟨rfl, hy⟩
    · exact (h.access n y hold).extend _ s.events
    · cases hy
      exact ⟨h.entered g hentered, .inr ⟨rfl, rfl, hentered⟩,
        stream_job s.prog [] [] .compute _, fun hpast => absurd hpast hnot⟩
  · intro n y hn
    obtain ⟨hpast, hover⟩ := h.save n y (launched_old quiet_nil quiet_nil hn nofun)
    exact ⟨hpast, hover.imp (fun hh => host_known_append hh _) id⟩
  · intro n y hn
    exact (h.load n y (launched_old quiet_nil quiet_nil hn nofun)).extend hq
      (Nat.le_refl s.events)
  · intro z hz
    exact (h.saves z hz).extend hq (Nat.le_refl s.events)

/-! ## Generators -/

/-- Generators go on, are closed, or are primed. -/
structure Moved (s : Engine) (ts : List Transfer) : Prop where
  old : ∀ u ∈ s.transfers, ∃ v ∈ ts, v.dir = u.dir ∧ v.group = u.group ∧ v.step = u.step ∧
    v.req = u.req ∧ u.next ≤ v.next
  new : ∀ v ∈ ts, (∃ u ∈ s.transfers, u.dir = v.dir ∧ u.group = v.group ∧ u.step = v.step ∧
    (v.closed = false → u.closed = false) ∧ u.next ≤ v.next) ∨ s.layer v.group = 0

theorem LoadOk.moved {ts : List Transfer} (h : LoadOk cfg s n y) (hm : Moved s ts) :
    LoadOk cfg { s with transfers := ts } n y := by
  obtain ⟨hlayer, hstep, hfreed, hseen⟩ := h
  refine ⟨hlayer, hstep, ?_, ?_⟩
  · intro hcur hle
    obtain ⟨hlt, hsaves⟩ := hfreed hcur hle
    refine ⟨hlt, fun v hv hdir hgroup hvstep hclosed => ?_⟩
    rcases hm.new v hv with ⟨u, hu, h1, h2, h3, h4, h5⟩ | hzero
    · have hnext := hsaves u hu (h1.trans hdir) (h2.trans hgroup) (h3.trans hvstep) (h4 hclosed)
      omega
    · rw [hgroup] at hzero
      omega
  · refine hseen.imp id (Or.imp id ?_)
    rintro ⟨hyet, row, e, u, hu, hrow, hreq, hev, hlt, hdir, hgroup, hustep, hnext⟩
    obtain ⟨v, hv, h1, h2, h3, h4, h5⟩ := hm.old u hu
    rw [← h4] at hreq
    exact ⟨hyet, row, e, v, hv, hrow, hreq, hev, hlt, h1.trans hdir, h2.trans hgroup,
      h3.trans hustep, Nat.lt_of_lt_of_le hnext h5⟩

theorem Inv.moved {ts : List Transfer} (h : Inv cfg s) (hm : Moved s ts)
    (hpast : ∀ v ∈ ts, v.step ≤ s.step v.group)
    (hsingle : ∀ (i j : Nat) (t u : Transfer), ts[i]? = some t → ts[j]? = some u → t.dir = .load →
      u.dir = .load → t.group = u.group → t.step = u.step → t.req = u.req → i = j)
    (hstored : ∀ (i : Nat) (t : Transfer), s.transfers[i]? = some t →
      ∃ v, ts[i]? = some v ∧ v.stored = t.stored) :
    Inv cfg { s with transfers := ts } := by
  refine ⟨h.ordered, h.entered, hpast, hsingle, h.uses, ?_, h.save, ?_, ?_⟩
  · exact fun n y hn => { h.access n y hn with }
  · intro n y hn
    exact (h.load n y hn).moved hm
  · intro z hz
    obtain ⟨hstream, hfifo, hgeneration, hevent, t, e, ht, hget, hlt, hknown⟩ := h.saves z hz
    obtain ⟨v, hv, hsame⟩ := hstored _ t ht
    exact ⟨hstream, hfifo, hgeneration, hevent, v, e, hv, by rw [hsame]; exact hget, hlt, hknown⟩

/-- A generator of the same request, that is as far as before. -/
structure Went (t u : Transfer) : Prop where
  dir : u.dir = t.dir
  group : u.group = t.group
  step : u.step = t.step
  req : u.req = t.req
  next : t.next ≤ u.next
  closed : u.closed = false → t.closed = false

variable {u : Transfer} {groups : List Nat}

theorem moved_set (hi : s.transfers[i]? = some t) (hw : Went t u) :
    Moved s (s.transfers.set i u) := by
  constructor
  · intro v hv
    rcases mem_set_or hi hv u with rfl | hv
    · exact ⟨u, mem_set (lt_of_getElem? hi) u, hw.dir, hw.group, hw.step, hw.req, hw.next⟩
    · exact ⟨v, hv, rfl, rfl, rfl, rfl, Nat.le_refl _⟩
  · intro v hv
    refine .inl ?_
    rcases mem_or_eq_of_mem_set hv with hv | rfl
    · exact ⟨v, hv, rfl, rfl, rfl, id, Nat.le_refl _⟩
    · exact ⟨t, mem_of_getElem? hi, hw.dir.symm, hw.group.symm, hw.step.symm, hw.closed,
        hw.next⟩

theorem past_set (h : Inv cfg s) (hi : s.transfers[i]? = some t) (hw : Went t u) :
    ∀ v ∈ s.transfers.set i u, v.step ≤ s.step v.group := by
  intro v hv
  rcases mem_or_eq_of_mem_set hv with hv | rfl
  · exact h.past v hv
  · rw [hw.step, hw.group]
    exact h.past t (mem_of_getElem? hi)

theorem single_set (h : Inv cfg s) (hi : s.transfers[i]? = some t) (hw : Went t u)
    (j k : Nat) (v w : Transfer) (hv : (s.transfers.set i u)[j]? = some v)
    (hk : (s.transfers.set i u)[k]? = some w) (hvd : v.dir = .load) (hwd : w.dir = .load)
    (hgroup : v.group = w.group) (hstep : v.step = w.step) (hreq : v.req = w.req) : j = k := by
  -- what stands at a place goes back to what stood there
  have hback : ∀ (m : Nat) (x : Transfer), (s.transfers.set i u)[m]? = some x →
      ∃ y : Transfer, s.transfers[m]? = some y ∧
      y.dir = x.dir ∧ y.group = x.group ∧ y.step = x.step ∧ y.req = x.req := by
    intro m x hm
    rcases getElem?_set_or hm with ⟨rfl, rfl⟩ | ⟨-, hm⟩
    · exact ⟨t, hi, hw.dir.symm, hw.group.symm, hw.step.symm, hw.req.symm⟩
    · exact ⟨x, hm, rfl, rfl, rfl, rfl⟩
  obtain ⟨v', hv', h1, h2, h3, h4⟩ := hback j v hv
  obtain ⟨w', hw', k1, k2, k3, k4⟩ := hback k w hk
  exact h.single j k v' w' hv' hw' (h1.trans hvd) (k1.trans hwd) (by rw [h2, k2, hgroup])
    (by rw [h3, k3, hstep]) (by rw [h4, k4, hreq])

theorem stored_set (hi : s.transfers[i]? = some t) (hsame : u.stored = t.stored) (k : Nat)
    (v : Transfer) (hk : s.transfers[k]? = some v) :
    ∃ w, (s.transfers.set i u)[k]? = some w ∧ w.stored = v.stored := by
  by_cases hki : k = i
  · subst hki
    cases hi.symm.trans hk
    exact ⟨u, getElem?_set_self (lt_of_getElem? hi), hsame⟩
  · exact ⟨v, (getElem?_set_ne (Ne.symm hki)).trans hk, rfl⟩

theorem Inv.setTransfer (h : Inv cfg s) (hi : s.transfers[i]? = some t)
    (hw : Went t u) (hsame : u.stored = t.stored) : Inv cfg (s.setTransfer i u) :=
  h.moved (moved_set hi hw) (past_set h hi hw) (single_set h hi hw) (stored_set hi hsame)

theorem Inv.begin {dir : Dir} {path : Path} {req : Option String} (h : Inv cfg s)
    (hlayer : s.layer g = 0) (hreq : dir = .load → ∀ u ∈ s.transfers, u.dir = .load →
      u.group = g → u.step = s.step g → u.req ≠ req) :
    Inv cfg { s with
      transfers := s.transfers ++
        [⟨dir, path, g, req, s.generation g, s.step g, 0, false, Dict.empty⟩] } := by
  refine h.moved ⟨?_, ?_⟩ ?_ ?_ fun k v hk =>
    ⟨v, getElem?_append_some hk _, rfl⟩
  · intro u hu
    exact ⟨u, mem_append_left _ hu, rfl, rfl, rfl, rfl, Nat.le_refl _⟩
  · intro v hv
    rcases mem_append.1 hv with hv | hv
    · exact .inl ⟨v, hv, rfl, rfl, rfl, id, Nat.le_refl _⟩
    · rw [mem_singleton.1 hv]
      exact .inr hlayer
  · intro v hv
    rcases mem_append.1 hv with hv | hv
    · exact h.past v hv
    · cases mem_singleton.1 hv
      exact Nat.le_refl _
  · intro j k v w hv hw hvd hwd hgroup hstep hr
    rcases getElem?_snoc.1 hv with hv' | ⟨hj, rfl⟩
    · rcases getElem?_snoc.1 hw with hw' | ⟨hk, rfl⟩
      · exact h.single j k v w hv' hw' hvd hwd hgroup hstep hr
      · exact absurd hr (hreq hwd v (mem_of_getElem? hv') hvd hgroup hstep)
    · rcases getElem?_snoc.1 hw with hw' | ⟨hk, rfl⟩
      · exact absurd hr.symm
          (hreq hvd w (mem_of_getElem? hw') hwd hgroup.symm hstep.symm)
      · rw [hj, hk]

theorem Went.advance (t : Transfer) : Went t t.advance :=
  ⟨rfl, rfl, rfl, rfl, Nat.le_succ _, id⟩

theorem Went.store (t : Transfer) (job : Job) : Went t (t.store job) :=
  ⟨rfl, rfl, rfl, rfl, Nat.le_succ _, id⟩

theorem Went.close (t : Transfer) : Went t { t with closed := true } :=
  ⟨rfl, rfl, rfl, rfl, Nat.le_refl _, nofun⟩

/-! ## Loads -/

/-- What a load's stream waits for. -/
structure JobOk (s : Engine) (job : Job) : Prop where
  pre : Quiet s job.pre
  event : s.events ≤ job.event

theorem JobOk.post {job : Job} (h : JobOk s job) :
    Quiet s ([.record job.event job.stream] : List (Cmd Strm Nat Op)) := quiet_record h.event

theorem JobOk.fresh {job : Job} (h : JobOk s job) (op : Op) : Fresh s (job.cmds op) :=
  Fresh.job h.pre h.post

theorem JobOk.grows {job : Job} (h : JobOk s job) : s.events ≤ job.event + 1 :=
  Nat.le_succ_of_le h.event

theorem Quiet.append {q r : List (Cmd Strm Nat Op)} (hq : Quiet s q) (hr : Quiet s r) :
    Quiet s (q ++ r) := by
  constructor
  · intro st o hmem
    rcases mem_append.1 hmem with hm | hm
    · exact hq.launch st o hm
    · exact hr.launch st o hm
  · intro st e hmem
    rcases mem_append.1 hmem with hm | hm
    · exact hq.record st e hm
    · exact hr.record st e hm

/-- The wait of a direct load for the save of its layer. -/
def Engine.previousSave (cfg : Config) (s : Engine) (t : Transfer) : List (Cmd Strm Nat Op) :=
  match s.saveDone.get? (t.group, cfg.bank t.next, t.next) with
  | some (generation, e) => if generation = t.generation then [.wait .load e] else []
  | none => []

theorem quiet_previousSave : Quiet s (s.previousSave cfg t) := by
  refine quiet_of_waits fun c hc => .inl ?_
  unfold Engine.previousSave at hc
  split at hc
  · split at hc
    · exact ⟨_, _, mem_singleton.1 hc⟩
    · cases hc
  · cases hc

theorem loadJob_dma (ht : t.path = .dma) :
    s.loadJob cfg t = ⟨[], .bank t.group (cfg.bank t.next), s.events⟩ := by
  unfold Engine.loadJob
  rw [ht]

theorem loadJob_direct (ht : t.path = .direct) : s.loadJob cfg t =
    ⟨s.previousSave cfg t ++ waitStream .load .compute s.events, .load, s.events + 1⟩ := by
  unfold Engine.loadJob
  rw [ht]
  rfl

theorem jobOk_loadJob : JobOk s (s.loadJob cfg t) := by
  cases ht : t.path with
  | dma =>
    rw [loadJob_dma ht]
    exact ⟨quiet_nil, Nat.le_refl _⟩
  | direct =>
    rw [loadJob_direct ht]
    exact ⟨quiet_previousSave.append (quiet_waitStream (Nat.le_refl _)), Nat.le_succ _⟩

theorem Inv.handed (h : Inv cfg s) (hlt : t.next < cfg.layers t.group) (hle : cfg.banks ≤ t.next)
    (hused : s.bankUsed t.group (cfg.bank t.next) (t.next - cfg.banks) = true) :
    t.next - cfg.banks < s.layer t.group := by
  unfold Engine.bankUsed at hused
  rw [decide_eq_true_eq] at hused
  obtain ⟨-, hcase⟩ := h.uses _ _ _ hused
  omega

/-- All that a load must come behind is known to its stream or to the host. -/
theorem Inv.before_load (h : Inv cfg s) (hcur : t.step = s.step t.group)
    (hgen : t.generation = s.generation t.group)
    (hhanded : cfg.banks ≤ t.next → t.next - cfg.banks < s.layer t.group)
    (hkept : ∀ z ∈ s.saves, z.at_.group = t.group → cfg.bank z.at_.layer = cfg.bank t.next →
      z.path = t.path ∧
        (t.path = .direct → z.at_.layer = t.next ∧ z.generation = s.generation t.group))
    (hi : Launched s.prog i o) (hprec : o.Precedes cfg.banks (.load t.at_)) :
    (known (s.prog ++ (s.loadJob cfg t).pre)).host i ∨
      (known (s.prog ++ (s.loadJob cfg t).pre)).stream (s.loadJob cfg t).stream i := by
  have hbank : ∀ y : Place, y.Before cfg.banks t.at_ → y.group = t.group ∧
      cfg.bank y.layer = cfg.bank t.next := by
    rintro y ⟨hg, hcase⟩
    refine ⟨hg, ?_⟩
    rcases hcase with ⟨-, hl⟩ | ⟨-, hl⟩
    · have hl : y.layer + cfg.banks = t.next := hl
      unfold Config.bank
      rw [← hl, Nat.add_mod_right]
    · exact hl
  cases o with
  | load y => exact hprec.elim
  | access y =>
    have hprec : y.Before cfg.banks t.at_ := hprec
    obtain ⟨hg, hb⟩ := hbank y hprec
    obtain ⟨-, -, hcompute, hpastbank⟩ := h.access i y hi
    cases ht : t.path with
    | dma =>
      rw [loadJob_dma ht]
      refine .inr ?_
      rw [append_nil]
      have hpast : Past s y := by
        obtain ⟨-, hcase⟩ := hprec
        rcases hcase with ⟨hstep, hl⟩ | ⟨hstep, -⟩
        · have hstep : y.step = t.step := hstep
          have hl : y.layer + cfg.banks = t.next := hl
          refine .inr ⟨?_, ?_⟩
          · rw [hstep, hg, hcur]
          · have hlt := hhanded (by omega)
            rw [hg]
            omega
        · have hstep : y.step < t.step := hstep
          refine .inl ?_
          rw [hg, ← hcur]
          exact hstep
      have hk := hpastbank hpast
      rw [hg, hb] at hk
      exact hk
    | direct =>
      rw [loadJob_direct ht]
      refine .inr ?_
      rw [← append_assoc]
      exact stream_waitStream (stream_known_append hcompute _)
  | save y =>
    obtain ⟨hg, hb⟩ := hbank y hprec
    obtain ⟨-, hover⟩ := h.save i y hi
    rcases hover with hh | ⟨z, hz, rfl, rfl⟩
    · exact .inl (host_known_append hh _)
    obtain ⟨hpath, hdirect⟩ := hkept z hz hg hb
    obtain ⟨hstream, -, -, hevent, -⟩ := h.saves z hz
    refine .inr ?_
    cases ht : t.path with
    | dma =>
      rw [loadJob_dma ht, append_nil]
      rw [ht] at hpath
      unfold Saved.stream at hstream
      rw [hpath, hg, hb] at hstream
      exact hstream
    | direct =>
      obtain ⟨hlayer, hzgen⟩ := hdirect ht
      rw [ht] at hpath
      obtain ⟨e, hget, -, hknown⟩ := hevent hpath (by rw [hzgen, hg])
      have hev : (known s.prog).event e z.place := by
        rcases hknown with hev | ⟨y, hy, hydma, hygroup, hylayer⟩
        · exact hev
        obtain ⟨hypath, -⟩ := hkept y hy (hygroup.trans hg) (by rw [hylayer, hb])
        rw [ht, hydma] at hypath
        cases hypath
      rw [loadJob_direct ht, ← append_assoc]
      refine stream_known_append ?_ _
      have hwait : s.previousSave cfg t = [.wait .load e] := by
        unfold Engine.previousSave
        rw [hg, hlayer] at hget
        rw [hget]
        exact if_pos hgen.symm
      rw [hwait, known_append]
      exact Known.stream_wait hev

theorem Inv.after_load (h : Inv cfg s) (hcur : t.step = s.step t.group)
    (hle : s.layer t.group ≤ t.next)
    (hnot : t.next = s.layer t.group → s.entered t.group = false)
    (hi : Launched s.prog i o) : ¬ (Op.load t.at_).Precedes cfg.banks o := by
  intro hprec
  cases o with
  | load | save => exact hprec
  | access y =>
    have hy : t.at_ = y := hprec
    subst hy
    obtain ⟨-, hplace, -, -⟩ := h.access i _ hi
    rcases hplace with (hlt | ⟨-, hlt⟩) | ⟨-, hl, hentered⟩
    · have hlt : t.step < s.step t.group := hlt
      omega
    · have hlt : t.next < s.layer t.group := hlt
      omega
    have hfalse := hnot hl
    have hentered : s.entered t.group = true := hentered
    rw [hfalse] at hentered
    cases hentered

theorem subset_bankStream : s.fifos ⊆ s.bankStream cfg t := by
  unfold Engine.bankStream
  split
  · exact subset_dmaStream _ _
  · exact Subset.refl _

theorem Registered.set (h : Inv cfg s) (hi : s.transfers[i]? = some t) (hdir : t.dir = .load)
    (hcur : t.step = s.step t.group) (hyet : NotYet s y) (hr : Registered s n y) :
    Registered { s with
      loadDone := s.loadDone.set (t.group, t.next)
        ((s.loadRow t).set t.req (t.generation, e)) } n y := by
  obtain ⟨d, e', u, hu, hd, hreq, hev, hlt, hudir, hugroup, hustep, hunext⟩ := hr
  by_cases hkey : (y.group, y.layer) = (t.group, t.next)
  · obtain ⟨hg, hl⟩ := Prod.mk.inj hkey
    have hne : u.req ≠ t.req := by
      intro heq
      obtain ⟨k, hk⟩ := getElem?_of_mem hu
      have hki : k = i := h.single k i u t hk hi hudir hdir (hugroup.trans hg)
        (by rw [hustep, hyet.1, hg, hcur]) heq
      rw [hki, hi] at hk
      cases hk
      omega
    have hrow : s.loadRow t = d := by
      rw [hkey] at hd
      unfold Engine.loadRow
      rw [hd]
    refine ⟨(s.loadRow t).set t.req (t.generation, e), e', u, hu, ?_, ?_, hev, hlt, hudir, hugroup,
      hustep, hunext⟩
    · show (s.loadDone.set _ _).get? (y.group, y.layer) = _
      rw [hkey]
      exact get?_set_self _ _ _
    · rw [get?_set_ne hne, hrow]
      exact hreq
  · refine ⟨d, e', u, hu, ?_, hreq, hev, hlt, hudir, hugroup, hustep, hunext⟩
    show (s.loadDone.set _ _).get? (y.group, y.layer) = _
    rw [get?_set_ne hkey]
    exact hd

/-- A load is launched behind all that used its bank. -/
theorem Inv.loaded (h : Inv cfg s) (hi : s.transfers[i]? = some t) (hdir : t.dir = .load)
    (hcur : t.step = s.step t.group) (hlt : t.next < cfg.layers t.group)
    (hgen : t.generation = s.generation t.group) (horder : s.InOrder cfg t)
    (hkept : ∀ z ∈ s.saves, z.at_.group = t.group → cfg.bank z.at_.layer = cfg.bank t.next →
      z.path = t.path ∧
        (t.path = .direct → z.at_.layer = t.next ∧ z.generation = s.generation t.group))
    (hs : s.load cfg t = some s') :
    Inv cfg (s'.setTransfer i t.advance) := by
  unfold Engine.load at hs
  obtain ⟨hused, hs⟩ := ite_none_left_eq_some.1 hs
  have hs := some.inj hs
  subst hs
  unfold Engine.InOrder at horder
  rw [hdir] at horder
  obtain ⟨hle, hnot, hfreed⟩ := horder
  have hhanded : cfg.banks ≤ t.next → t.next - cfg.banks < s.layer t.group := by
    intro hbanks
    cases ht : t.path with
    | dma =>
      refine h.handed hlt hbanks ?_
      rw [← Bool.not_eq_false]
      exact fun hfalse => hused ⟨ht, hbanks, hfalse⟩
    | direct => exact (hfreed hbanks).2 ht
  have hjob : JobOk s (s.loadJob cfg t) := jobOk_loadJob
  have hfresh := hjob.fresh (.load t.at_)
  have hw := Went.advance t
  have hpast := past_set h hi hw
  have hsingle := single_set h hi hw
  refine ⟨?_, h.entered, hpast, hsingle, h.uses, ?_, ?_, ?_, ?_⟩
  · refine h.ordered_job _ _ hjob.pre hjob.post ?_ ?_
    · exact fun j o hj hprec => h.before_load hcur hgen hhanded hkept hj hprec
    · exact fun j o hj => h.after_load hcur hle hnot hj
  · intro n y hn
    exact { (h.access n y (launched_old hjob.pre hjob.post hn nofun)).extend
      ((s.loadJob cfg t).cmds (.load t.at_)) s.events with }
  · intro n y hn
    obtain ⟨hpast, hover⟩ := h.save n y (launched_old hjob.pre hjob.post hn nofun)
    exact ⟨hpast, hover.imp (fun hh => host_known_append hh _) id⟩
  · intro n y hn
    rcases (launched_job hjob.pre hjob.post).1 hn with hold | ⟨rfl, hy⟩
    · have hset : LoadOk cfg { s with
          loadDone := s.loadDone.set (t.group, t.next)
            ((s.loadRow t).set t.req (t.generation, (s.loadJob cfg t).event)) } n y := by
        obtain ⟨hlayer, hstep, hfr, hseen⟩ := h.load n y hold
        refine ⟨hlayer, hstep, hfr, hseen.imp id (Or.imp id ?_)⟩
        rintro ⟨hyet, hr⟩
        exact ⟨hyet, hr.set h hi hdir hcur hyet⟩
      have hext := hset.extend hfresh hjob.grows
      exact { hext.moved (moved_set hi hw) with }
    · cases hy
      have hmem : t.advance ∈ s.transfers.set i t.advance :=
        mem_set (lt_of_getElem? hi) _
      refine ⟨hlt, Nat.le_of_eq hcur, ?_, .inr (.inr ⟨⟨hcur, ?_⟩, ?_⟩)⟩
      · intro _ hbanks
        refine ⟨hhanded hbanks, fun u hu hud hug hus huc => ?_⟩
        rcases mem_or_eq_of_mem_set hu with hu | rfl
        · exact (hfreed hbanks).1 u hu hud hug hus huc
        have hud : t.dir = .save := hud
        rw [hdir] at hud
        cases hud
      · show s.layer t.group < t.next ∨ (t.next = s.layer t.group ∧ s.entered t.group = false)
        rcases Nat.lt_or_eq_of_le hle with hless | heq
        · exact .inl hless
        · exact .inr ⟨heq.symm, hnot heq.symm⟩
      · refine ⟨_, (s.loadJob cfg t).event, _, hmem, get?_set_self _ _ _, ?_,
          event_job (.inl rfl), Nat.lt_succ_self _, hdir, rfl, rfl, Nat.lt_succ_self _⟩
        show ((s.loadRow t).set t.req _).get? t.req = some (s.generation t.group, _)
        rw [get?_set_self, hgen]
  · intro z hz
    obtain ⟨h1, h2, h3, h4, v, e, hv, hget, hlt, hknown⟩ :=
      (h.saves z hz).extend hfresh hjob.grows
    obtain ⟨w, hw, hsame⟩ := stored_set hi (u := t.advance) rfl _ v hv
    exact ⟨h1, fun hd => subset_bankStream (h2 hd), h3, h4, w, e, hw, by rw [hsame]; exact hget,
      hlt, hknown⟩

/-! ## Saves -/

theorem saveJob_dma (ht : t.path = .dma) :
    s.saveJob cfg t = ⟨[], .bank t.group (cfg.bank t.next), s.events⟩ := by
  unfold Engine.saveJob
  rw [ht]

theorem saveJob_direct (ht : t.path = .direct) :
    s.saveJob cfg t = ⟨waitStream .store .compute s.events, .store, s.events + 1⟩ := by
  unfold Engine.saveJob
  rw [ht]

theorem jobOk_saveJob : JobOk s (s.saveJob cfg t) := by
  cases ht : t.path with
  | dma =>
    rw [saveJob_dma ht]
    exact ⟨quiet_nil, Nat.le_refl _⟩
  | direct =>
    rw [saveJob_direct ht]
    exact ⟨quiet_waitStream (Nat.le_refl _), Nat.le_succ _⟩

theorem saveJob_stream (owner place generation : Nat) :
    (s.saveJob cfg t).stream = Saved.stream cfg ⟨owner, place, t.at_, t.path, generation⟩ := by
  unfold Saved.stream
  cases ht : t.path with
  | dma =>
    rw [saveJob_dma ht]
    rfl
  | direct => rw [saveJob_direct ht]

theorem Inv.before_save (h : Inv cfg s) (hcur : t.step = s.step t.group)
    (hlt : t.next < s.layer t.group) (hi : Launched s.prog i o)
    (hprec : o.Precedes cfg.banks (.save t.at_)) :
    (known (s.prog ++ (s.saveJob cfg t).pre)).host i ∨
      (known (s.prog ++ (s.saveJob cfg t).pre)).stream (s.saveJob cfg t).stream i := by
  cases o with
  | load | save => exact hprec.elim
  | access y =>
    have hy : y = t.at_ := hprec
    subst hy
    obtain ⟨-, -, hcompute, hbank⟩ := h.access i _ hi
    refine .inr ?_
    cases ht : t.path with
    | dma =>
      rw [saveJob_dma ht, append_nil]
      exact hbank (.inr ⟨hcur, hlt⟩)
    | direct =>
      rw [saveJob_direct ht]
      exact stream_waitStream hcompute

theorem Inv.after_save (h : Inv cfg s) (hmem : t ∈ s.transfers) (hdir : t.dir = .save)
    (hclosed : t.closed = false) (hcur : t.step = s.step t.group) (hi : Launched s.prog i o) :
    ¬ (Op.save t.at_).Precedes cfg.banks o := by
  intro hprec
  cases o with
  | access | save => exact hprec
  | load y =>
    obtain ⟨hg, hcase⟩ := hprec
    have hg : t.group = y.group := hg
    obtain ⟨-, hstep, hfreed, -⟩ := h.load i y hi
    rw [← hg] at hstep
    rcases hcase with ⟨hsame, hl⟩ | ⟨hbefore, -⟩
    · have hsame : t.step = y.step := hsame
      have hl : t.next + cfg.banks = y.layer := hl
      have hnext := (hfreed (by rw [← hg, ← hcur, hsame]) (by omega)).2 t hmem hdir hg hsame hclosed
      omega
    · have hbefore : t.step < y.step := hbefore
      omega

/-- The new save's event stands for the earlier saves of its generator on the stream. -/
theorem Inv.stored_save (h : Inv cfg s) (hi : s.transfers[i]? = some t) (hz : z ∈ s.saves) :
    ∃ v e, (s.transfers.set i (t.store (s.saveJob cfg t)))[z.owner]? = some v ∧
      v.stored.get? (z.stream cfg) = some e ∧ e < (s.saveJob cfg t).event + 1 ∧
      (known (s.prog ++ (s.saveJob cfg t).cmds (.save t.at_))).event e z.place := by
  have hjob : JobOk s (s.saveJob cfg t) := jobOk_saveJob
  have hext := (h.saves z hz).extend (hjob.fresh (.save t.at_)) hjob.grows
  obtain ⟨v, e, hv, hget, hlt, hknown⟩ := hext.stored
  have hv : s.transfers[z.owner]? = some v := hv
  by_cases hown : z.owner = i
  · rw [hown] at hv ⊢
    cases hi.symm.trans hv
    rw [getElem?_set_self (lt_of_getElem? hi)]
    by_cases hstream : z.stream cfg = (s.saveJob cfg t).stream
    · refine ⟨_, _, rfl, ?_, Nat.lt_succ_self _, event_job (.inr ?_)⟩
      · rw [hstream]
        exact get?_set_self _ _ _
      · rw [← hstream]
        exact stream_known_append (h.saves z hz).stream _
    · exact ⟨_, e, rfl, (get?_set_ne hstream).trans hget, hlt, hknown⟩
  · exact ⟨v, e, (getElem?_set_ne (Ne.symm hown)).trans hv, hget, hlt, hknown⟩

/-- A save is launched behind the accesses of its layer. -/
theorem Inv.saved (h : Inv cfg s) (hi : s.transfers[i]? = some t) (hdir : t.dir = .save)
    (hclosed : t.closed = false) (hcur : t.step = s.step t.group)
    (hgen : t.generation = s.generation t.group) (horder : s.InOrder cfg t)
    (hs : s.save cfg i t = some s') : Inv cfg s' := by
  unfold Engine.save at hs
  obtain ⟨-, hs⟩ := ite_none_left_eq_some.1 hs
  have hs := some.inj hs
  subst hs
  unfold Engine.InOrder at horder
  rw [hdir] at horder
  have hjob : JobOk s (s.saveJob cfg t) := jobOk_saveJob
  have hfresh := hjob.fresh (.save t.at_)
  have hw := Went.store t (s.saveJob cfg t)
  have hmem := mem_of_getElem? hi
  have hpast := past_set h hi hw
  have hsingle := single_set h hi hw
  refine ⟨?_, h.entered, hpast, hsingle, h.uses, ?_, ?_, ?_, ?_⟩
  · refine h.ordered_job _ _ hjob.pre hjob.post ?_ ?_
    · exact fun j o hj hprec => h.before_save hcur horder hj hprec
    · exact fun j o hj => h.after_save hmem hdir hclosed hcur hj
  · intro n y hn
    exact { (h.access n y (launched_old hjob.pre hjob.post hn nofun)).extend
      ((s.saveJob cfg t).cmds (.save t.at_)) s.events with }
  · intro n y hn
    rcases (launched_job hjob.pre hjob.post).1 hn with hold | ⟨rfl, hy⟩
    · obtain ⟨hpast, hover⟩ := h.save n y hold
      refine ⟨hpast, hover.imp (fun hh => host_known_append hh _) ?_⟩
      rintro ⟨z, hz, hrest⟩
      exact ⟨z, mem_cons_of_mem _ hz, hrest⟩
    · cases hy
      exact ⟨.inr ⟨hcur, horder⟩, .inr ⟨_, mem_cons_self, rfl, rfl⟩⟩
  · intro n y hn
    have hext := (h.load n y (launched_old hjob.pre hjob.post hn nofun)).extend hfresh hjob.grows
    exact { hext.moved (moved_set hi hw) with }
  · intro z hz
    rcases mem_cons.1 hz with rfl | hz
    · refine ⟨?_, ?_, Nat.le_of_eq hgen, ?_, t.store (s.saveJob cfg t), (s.saveJob cfg t).event,
        getElem?_set_self (lt_of_getElem? hi), ?_, Nat.lt_succ_self _,
        event_job (.inl rfl)⟩
      · rw [← saveJob_stream]
        exact stream_job s.prog _ _ _ _
      · intro hd
        have hd : t.path = .dma := hd
        show (t.group, cfg.bank t.next) ∈ s.bankStream cfg t
        unfold Engine.bankStream
        rw [hd]
        exact mem_dmaStream _ _
      · intro _ _
        refine ⟨(s.saveJob cfg t).event, ?_, Nat.lt_succ_self _, .inl (event_job (.inl rfl))⟩
        show (Dict.set _ _ _).get? (t.group, cfg.bank t.next, t.next) =
          some (s.generation t.group, _)
        rw [get?_set_self, hgen]
      · rw [← saveJob_stream (s := s)]
        exact get?_set_self _ _ _
    · obtain ⟨hstream, hfifo, hgeneration, hevent, v, e, hv, hget, -⟩ := h.saves z hz
      have hext := (h.saves z hz).extend hfresh hjob.grows
      refine ⟨hext.stream, fun hd => subset_bankStream (hfifo hd), hgeneration, fun hd hg => ?_,
        h.stored_save hi hz⟩
      by_cases hkey : (z.at_.group, cfg.bank z.at_.layer, z.at_.layer) =
          (t.group, cfg.bank t.next, t.next)
      · have hgroup : z.at_.group = t.group := congrArg Prod.fst hkey
        have hlayer : z.at_.layer = t.next := congrArg (fun k => k.2.2) hkey
        refine ⟨(s.saveJob cfg t).event, ?_, Nat.lt_succ_self _, ?_⟩
        · show (Dict.set _ _ _).get? (z.at_.group, cfg.bank z.at_.layer, z.at_.layer) =
            some (s.generation z.at_.group, _)
          rw [hkey, get?_set_self, hgen, hgroup]
        · cases ht : t.path with
          | dma =>
            exact .inr ⟨_, mem_cons_self, rfl, hgroup.symm, hlayer.symm⟩
          | direct =>
            refine .inl (event_job (.inr ?_))
            rw [saveJob_direct ht]
            unfold Saved.stream at hstream
            rw [hd] at hstream
            exact stream_known_append hstream _
      · obtain ⟨e, hget, hlt, hknown⟩ := hext.event hd hg
        refine ⟨e, ?_, hlt, hknown.imp id ?_⟩
        · show (Dict.set _ _ _).get? _ = _
          rw [get?_set_ne hkey]
          exact hget
        · rintro ⟨y, hy, hrest⟩
          exact ⟨y, mem_cons_of_mem _ hy, hrest⟩

/-! ## Runs -/

/-- The streams that a reset waits for. -/
def Engine.syncs (s : Engine) (groups : List Nat) (synchronize : Bool) : List (Cmd Strm Nat Op) :=
  if synchronize then
    .sync .load :: .sync .store ::
      (s.fifos.filter fun k => k.1 ∈ groups).map fun k => .sync (.bank k.1 k.2)
  else []

theorem quiet_syncs {synchronize : Bool} :
    Quiet s (s.syncs groups synchronize) := by
  refine quiet_of_waits fun c hc => .inr ?_
  unfold Engine.syncs at hc
  split at hc
  · rcases mem_cons.1 hc with rfl | hc
    · exact ⟨_, rfl⟩
    rcases mem_cons.1 hc with rfl | hc
    · exact ⟨_, rfl⟩
    · obtain ⟨k, -, rfl⟩ := mem_map.1 hc
      exact ⟨_, rfl⟩
  · cases hc

theorem Inv.dropped (h : Inv cfg s) (hz : z ∈ s.saves)
    (hdrop : ¬ (z.path = .dma ∧ z.at_.group ∉ groups)) :
    (known (s.prog ++ s.syncs groups true)).host z.place := by
  obtain ⟨hstream, hfifo, -, -, -⟩ := h.saves z hz
  refine host_of_sync hstream ?_
  unfold Engine.syncs Saved.stream
  rw [if_pos rfl]
  cases hpath : z.path with
  | direct => exact mem_cons_of_mem _ mem_cons_self
  | dma =>
    have hgroup : z.at_.group ∈ groups := by
      by_contra hnot
      exact hdrop ⟨hpath, hnot⟩
    refine mem_cons_of_mem _ (mem_cons_of_mem _ (mem_map.2
      ⟨(z.at_.group, cfg.bank z.at_.layer), ?_, rfl⟩))
    exact mem_filter.2 ⟨hfifo hpath, decide_eq_true hgroup⟩

/-- A reset of groups that have ended their layers. -/
theorem Inv.reset {synchronize : Bool} (h : Inv cfg s)
    (hend : ∀ g ∈ groups, s.layer g = cfg.layers g) :
    Inv cfg (s.reset groups synchronize) := by
  have hquiet : Quiet s (s.syncs groups synchronize) := quiet_syncs
  have hext := h.extend hquiet (Nat.le_refl s.events)
  have hgen : ∀ g, g ∉ groups →
      (if g ∈ groups then s.generation g + 1 else s.generation g) = s.generation g :=
    fun g hg => if_neg hg
  refine ⟨hext.ordered, h.entered, h.past, h.single, ?_, ?_, ?_, ?_, ?_⟩
  · intro g b l hget
    have hget : (s.uses.keep fun k => k.1 ∉ groups).get? (g, b) =
        some (if g ∈ groups then s.generation g + 1 else s.generation g, l) := hget
    rw [get?_keep] at hget
    by_cases hg : g ∈ groups
    · rw [if_neg (by simp [hg])] at hget
      cases hget
    · rw [if_pos (by simp [hg]), hgen g hg] at hget
      exact h.uses g b l hget
  · exact fun n y hn => { hext.access n y hn with }
  · intro n y hn
    obtain ⟨hpast, hover⟩ := hext.save n y hn
    refine ⟨hpast, ?_⟩
    rcases hover with hh | ⟨z, hz, hplace, hat⟩
    · exact .inl hh
    · cases synchronize with
      | false => exact .inr ⟨z, hz, hplace, hat⟩
      | true =>
        by_cases hkeep : z.path = .dma ∧ z.at_.group ∉ groups
        · refine .inr ⟨z, ?_, hplace, hat⟩
          exact mem_filter.2 ⟨hz, decide_eq_true hkeep⟩
        · rw [← hplace]
          exact .inl (h.dropped hz hkeep)
  · intro n y hn
    have hn' : Launched (s.prog ++ s.syncs groups synchronize) n (.load y) := hn
    obtain ⟨hlayer, hstep, hfreed, hseen⟩ := hext.load n y hn
    refine ⟨hlayer, hstep, hfreed, ?_⟩
    by_cases hg : y.group ∈ groups
    · exact (hext.all_seen (hend _ hg) hn' rfl).imp id .inl
    refine hseen.imp id (Or.imp id ?_)
    rintro ⟨hyet, row, e, u, hu, hrow, hreq, hrest⟩
    refine ⟨hyet, row, e, u, hu, ?_, ?_, hrest⟩
    · show (s.loadDone.keep fun k => k.1 ∉ groups).get? (y.group, y.layer) = some row
      rw [get?_keep, if_pos (by simp [hg])]
      exact hrow
    · show row.get? u.req =
        some (if y.group ∈ groups then s.generation y.group + 1 else s.generation y.group, e)
      rw [hgen _ hg]
      exact hreq
  · intro z hz
    have hmem : z ∈ s.saves := by
      cases synchronize with
      | false => exact hz
      | true => exact mem_of_mem_filter hz
    obtain ⟨hstream, hfifo, hgeneration, hevent, hstored⟩ := hext.saves z hmem
    refine ⟨hstream, hfifo, ?_, ?_, hstored⟩
    · show z.generation ≤ if z.at_.group ∈ groups then s.generation z.at_.group + 1
        else s.generation z.at_.group
      split
      · exact Nat.le_succ_of_le hgeneration
      · exact hgeneration
    · intro hd hg
      have hg : z.generation = if z.at_.group ∈ groups then s.generation z.at_.group + 1
        else s.generation z.at_.group := hg
      by_cases hin : z.at_.group ∈ groups
      · rw [if_pos hin] at hg
        have hle : z.generation ≤ s.generation z.at_.group := hgeneration
        omega
      rw [hgen _ hin] at hg
      obtain ⟨e, hget, hlt, hknown⟩ := hevent hd hg
      refine ⟨e, ?_, hlt, ?_⟩
      · show (s.saveDone.keep fun k => k.1 ∉ groups).get? _ = some
          (if z.at_.group ∈ groups then s.generation z.at_.group + 1
            else s.generation z.at_.group, e)
        rw [get?_keep, if_pos (by simp [hin]), hgen _ hin]
        exact hget
      · cases synchronize with
        | false => exact hknown
        | true =>
          have hkeep := (mem_filter.1 hz).2
          rw [decide_eq_true_eq, hd] at hkeep
          cases hkeep.1

theorem Inv.settle (waited : Saved → Prop) [DecidablePred waited] (h : Inv cfg s) (hq : Quiet s q)
    (hover : ∀ z ∈ s.saves, waited z → (known (s.prog ++ q)).host z.place) :
    Inv cfg { s with prog := s.prog ++ q, saves := s.settle waited } := by
  have hext := h.extend hq (Nat.le_refl s.events)
  refine ⟨hext.ordered, h.entered, h.past, h.single, h.uses, ?_, ?_, ?_, ?_⟩
  · exact fun n y hn => { hext.access n y hn with }
  · intro n y hn
    obtain ⟨hpast, hrest⟩ := hext.save n y hn
    refine ⟨hpast, ?_⟩
    rcases hrest with hh | ⟨z, hz, hplace, hat⟩
    · exact .inl hh
    by_cases hz' : waited z
    · rw [← hplace]
      exact .inl (hover z hz hz')
    · exact .inr ⟨z, mem_filter.2 ⟨hz, decide_eq_true (.inl hz')⟩, hplace, hat⟩
  · exact fun n y hn => { hext.load n y hn with }
  · intro z hz
    obtain ⟨hz, hkeep⟩ := mem_filter.1 hz
    obtain ⟨hstream, hfifo, hgeneration, hevent, hstored⟩ := hext.saves z hz
    refine ⟨hstream, hfifo, hgeneration, fun hd hg => ?_, hstored⟩
    obtain ⟨e, hget, hlt, hknown⟩ := hevent hd hg
    refine ⟨e, hget, hlt, hknown.imp id ?_⟩
    rintro ⟨y, hy, hydma, hygroup, hylayer⟩
    -- the save that took the event stays as long as `z` does
    refine ⟨y, mem_filter.2 ⟨hy, decide_eq_true (.inr ?_)⟩, hydma, hygroup, hylayer⟩
    rcases of_decide_eq_true hkeep with hnot | ⟨w, hw, hnot, hwd, hwg, hwl⟩
    · exact ⟨z, hz, hnot, hd, hygroup.symm, hylayer.symm⟩
    · exact ⟨w, hw, hnot, hwd, hwg.trans hygroup.symm, hwl.trans hylayer.symm⟩

theorem Inv.publish (h : Inv cfg s) (hi : s.transfers[i]? = some t) :
    Inv cfg (s.publish i t) := by
  have hwaits : Quiet s (t.stored.entries.map fun x => Cmd.wait .host x.2) := by
    refine quiet_of_waits fun c hc => .inl ?_
    obtain ⟨x, -, rfl⟩ := mem_map.1 hc
    exact ⟨_, _, rfl⟩
  have hsync : Quiet s [Cmd.sync .host] :=
    quiet_of_waits fun c hc => .inr ⟨_, mem_singleton.1 hc⟩
  have hset := h.settle (fun z => z.owner = i) (hwaits.append hsync) fun z hz hown => by
    obtain ⟨v, e, hv, hget, -, hknown⟩ := (h.saves z hz).stored
    rw [hown] at hv
    cases hi.symm.trans hv
    rw [← append_assoc]
    refine host_of_sync (s := .host) (stream_of_wait hknown ?_ fun st hmem => ?_)
      (mem_singleton_self _)
    · exact mem_map.2 ⟨_, mem_entries.2 hget, rfl⟩
    · obtain ⟨x, -, hx⟩ := mem_map.1 hmem
      cases hx
  exact hset.setTransfer (t := t) hi (Went.close t) rfl

theorem Inv.close (h : Inv cfg s) (hi : s.transfers[i]? = some t) (pending : Bool) :
    Inv cfg (s.close i t pending) := by
  unfold Engine.close
  dsimp only
  split
  · have hquiet : Quiet s (s.drains t) := by
      refine quiet_of_waits fun c hc => .inr ?_
      unfold Engine.drains at hc
      split at hc
      · obtain ⟨k, -, rfl⟩ := mem_map.1 hc
        exact ⟨_, rfl⟩
      · exact ⟨_, mem_singleton.1 hc⟩
    have hset := h.settle (fun z => z.path = t.path ∧
        (t.path = .dma → z.at_.group = t.group)) hquiet fun z hz hover => by
      obtain ⟨hpath, hgroup⟩ := hover
      obtain ⟨hstream, hfifo, -, -, -⟩ := h.saves z hz
      refine host_of_sync hstream ?_
      unfold Engine.drains Saved.stream
      rw [hpath]
      cases ht : t.path with
      | direct => exact mem_singleton_self _
      | dma =>
        refine mem_map.2 ⟨(z.at_.group, cfg.bank z.at_.layer), ?_, rfl⟩
        exact mem_filter.2 ⟨hfifo (hpath.trans ht), decide_eq_true (hgroup ht)⟩
    exact hset.setTransfer (t := t) hi (Went.close t) rfl
  · exact h.setTransfer hi (Went.close t) rfl

theorem Inv.resume (h : Inv cfg s) (hi : s.transfers[i]? = some t) (hclosed : t.closed = false)
    (hcur : t.step = s.step t.group) (hlt : t.next < cfg.layers t.group)
    (horder : s.InOrder cfg t) (hkept : Kept cfg s (.resume i)) : Inv cfg (s.resume cfg i t) := by
  unfold Engine.resume
  split
  · exact h.close hi _
  · next hgen =>
    have hgen := not_not.1 hgen
    cases hdir : t.dir with
    | load =>
      cases hs : s.load cfg t with
      | none => exact h.close hi _
      | some s' => exact h.loaded hi hdir hcur hlt hgen horder (hkept t hi hdir) hs
    | save =>
      cases hs : s.save cfg i t with
      | none => exact h.close hi _
      | some s' => exact h.saved hi hdir hclosed hcur hgen horder hs

theorem Inv.step {a : Action} (h : Inv cfg s) (hkept : Kept cfg s a)
    (hs : s.next cfg a = some s') : Inv cfg s' := by
  cases a with
  | forward g =>
    obtain ⟨hend, hs⟩ := ite_none_right_eq_some.1 hs
    cases hs
    exact h.forward hend
  | begin dir path g req =>
    obtain ⟨⟨hlayer, -, hreq⟩, hs⟩ := ite_none_right_eq_some.1 hs
    cases hs
    exact h.begin hlayer hreq
  | resume i =>
    dsimp only [Engine.next] at hs
    split at hs
    · next t hi =>
      obtain ⟨⟨hclosed, hcur, hlt, horder⟩, hs⟩ := ite_none_right_eq_some.1 hs
      cases hs
      exact h.resume hi hclosed hcur hlt horder hkept
    · cases hs
  | close i =>
    dsimp only [Engine.next] at hs
    split at hs
    · next t hi =>
      obtain ⟨-, hs⟩ := ite_none_right_eq_some.1 hs
      cases hs
      exact h.close hi _
    · cases hs
  | publish i =>
    dsimp only [Engine.next] at hs
    split at hs
    · next t hi =>
      obtain ⟨-, hs⟩ := ite_none_right_eq_some.1 hs
      cases hs
      exact h.publish hi
    · cases hs
  | wait g ids =>
    obtain ⟨⟨hlt, -⟩, hs⟩ := ite_none_right_eq_some.1 hs
    exact h.wait hlt hs
  | access g =>
    obtain ⟨hentered, hs⟩ := ite_none_right_eq_some.1 hs
    cases hs
    exact h.compute hentered
  | use g =>
    obtain ⟨hentered, hs⟩ := ite_none_right_eq_some.1 hs
    cases hs
    exact h.use hentered
  | reset groups synchronize =>
    obtain ⟨hend, hs⟩ := ite_none_right_eq_some.1 hs
    cases hs
    exact h.reset hend

/-- Loads, saves and accesses of a bank are in order, in every run whose direct loads find saves of
their own layer only. -/
theorem bank_safety (h : (machine cfg).ReachableIf (Kept cfg) s) : s.Ordered cfg := by
  have hinv : Inv cfg s := by
    refine Machine.InductiveIf.reachable ⟨?_, ?_⟩ h
    · rintro s rfl
      exact Inv.init
    · intro s a s' hI hkept hs
      exact hI.step hkept hs
  intro S i j o o' hi hj hprec
  exact S.ahead (hinv.ordered i j o o' hi hj hprec)

/-- A save and two loads of bank 0 by bank DMA. -/
theorem bank_safety_dma : ∃ s : Engine, Launched s.prog 8 (.save ⟨0, 0, 1⟩) ∧
    Launched s.prog 10 (.load ⟨0, 2, 1⟩) ∧ s.Ordered ⟨fun _ => 3, 2, by decide⟩ := by
  have hrun : ∃ s, (machine ⟨fun _ => 3, 2, by decide⟩).runIf (Kept ⟨fun _ => 3, 2, by decide⟩)
      (Engine.init ⟨fun _ => 3, 2, by decide⟩)
      [.forward 0, .begin .load .dma 0 (some "r"), .begin .save .dma 0 (some "r"), .resume 0,
        .resume 0, .wait 0 none, .access 0, .use 0, .resume 1, .resume 0] = some s ∧
      s.prog[8]? = some (.launch (.bank 0 0) (.save ⟨0, 0, 1⟩)) ∧
      s.prog[10]? = some (.launch (.bank 0 0) (.load ⟨0, 2, 1⟩)) := ⟨_, rfl, rfl, rfl⟩
  obtain ⟨s, hs, hsave, hload⟩ := hrun
  exact ⟨s, ⟨_, hsave⟩, ⟨_, hload⟩,
    bank_safety (Machine.ReachableIf.runIf (Machine.ReachableIf.start rfl) hs)⟩

/-- A direct load of layer 2 does not wait for the save of layer 0 out of the same bank. -/
theorem load_overtakes_save : ¬ ∀ (cfg : Config) (s : Engine),
    (machine cfg).Reachable s → s.Ordered cfg := by
  intro h
  have hrun : ∃ s, (machine ⟨fun _ => 3, 2, by decide⟩).run
      (Engine.init ⟨fun _ => 3, 2, by decide⟩)
      [.forward 0, .begin .load .direct 0 (some "r"), .begin .save .direct 0 (some "r"), .resume 0,
        .resume 0, .wait 0 none, .access 0, .use 0, .resume 1, .resume 0] = some s ∧
      s.prog.drop 14 = [.launch .store (.save ⟨0, 0, 1⟩), .record 6 .store, .record 7 .compute,
        .wait .load 7, .launch .load (.load ⟨0, 2, 1⟩), .record 8 .load] := ⟨_, rfl, rfl⟩
  obtain ⟨s, hs, hprog⟩ := hrun
  have hget : ∀ k, s.prog[14 + k]? = ([.launch .store (.save ⟨0, 0, 1⟩), .record 6 .store,
      .record 7 .compute, .wait .load 7, .launch .load (.load ⟨0, 2, 1⟩), .record 8 .load] :
        List (Cmd Strm Nat Op))[k]? := by
    intro k
    rw [← hprog, getElem?_drop]
  have hwait : ∀ r j e t, 14 ≤ r → r < j → j < 19 → s.prog[r]? = some (.record e .store) →
      s.prog[j]? ≠ some (.wait t e) := by
    intro r j e t hr hrj hj hrec hw
    obtain ⟨k, rfl⟩ := Nat.exists_eq_add_of_le hr
    obtain ⟨m, rfl⟩ := Nat.exists_eq_add_of_le (show 14 ≤ j by omega)
    rw [hget] at hrec hw
    have hk : k < 5 := by omega
    have hm : m < 5 := by omega
    interval_cases k <;> cases hrec
    interval_cases m <;> cases hw
  have hsync : ∀ j, 14 ≤ j → j < 19 → s.prog[j]? ≠ some (.sync .store) := by
    intro j hj hlt hw
    obtain ⟨k, rfl⟩ := Nat.exists_eq_add_of_le hj
    rw [hget] at hw
    have hk : k < 5 := by omega
    interval_cases k <;> cases hw
  have hord := h _ s (Machine.reachable_of_run rfl hs)
    (Schedule.delay s.prog .store 14 19 hwait hsync) 14 18 (.save ⟨0, 0, 1⟩) (.load ⟨0, 2, 1⟩)
    ⟨_, hget 0⟩ ⟨_, hget 4⟩ ⟨rfl, .inl ⟨rfl, rfl⟩⟩
  have hlt : Schedule.late s.prog .store 14 19 18 < Schedule.late s.prog .store 14 19 14 := by
    refine Schedule.late_lt ⟨_, hget 0, rfl⟩ (by omega) (by omega) (by omega) ?_
    rw [hget 4]
    nofun
  exact Nat.not_le.2 hlt hord

end PrefillBanks
