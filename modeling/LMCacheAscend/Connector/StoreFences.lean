import LMCacheAscend.Connector.StorePrograms

/-!
# Destination pages under copies

A copy that is not complete goes into a page that its call still has, is waited
for by an event that is kept for the request, or was left by a call that ended
without its fence.  The operations of a call are in a safe order (`Safe`), and a
call is not touched by what another call does (`Frame`).
-/

namespace StoreDestinations

open Lib List Function Dict

variable {cfg : Config} {s s' : Engine} {i j k : Nat} {t t' : Store} {op : Op} {rest : List Op}
variable {c : Call} {cp : Copy} {row : List Nat} {stream : Stream} {req : String}

/-! ## The invariant -/

/-- The copy is not complete. -/
def Outstanding (s : Engine) (j : Nat) (cp : Copy) : Prop :=
  s.copies[j]? = some cp ∧ s.done j = false

/-- An event that is kept for the request waits for the copy, and the request has its page. -/
def Registered (s : Engine) (c : Call) (j : Nat) (cp : Copy) : Prop :=
  (∃ e ∈ s.eventsOf c.req c.kvGroup, e.covers j cp = true) ∧ cp.page ∈ s.ownersOf c.req

/-- A call that has not ended: its copies run into pages that it will not put before their fence. -/
structure Alive (cfg : Config) (s : Engine) (i : Nat) (t : Store) : Prop where
  dirty : ∃ D, Safe cfg t.call t.generator t.pending D t.ops ∧ (∀ page ∈ D, page ∈ t.pending) ∧
    (t.staged = t.call.staged cfg ∨ D = [] ∧ NoCopies t.ops) ∧
    (D ≠ [] → t.generator = true ∨ t.call.group = true) ∧
    ∀ (j : Nat) (cp : Copy), Outstanding s j cp → cp.call = i →
      (cp.page ∈ D ∧ t.transferPending = true) ∨ Registered s t.call j cp
  fits : ∀ (j : Nat) (cp : Copy), s.copies[j]? = some cp → cp.call = i →
    ∃ l, l < cfg.layers t.call.kvGroup ∧ cp.stream = t.call.streamOf cfg l
  pages : ∀ page ∈ t.pending, page ∈ t.call.rows.flatten
  into : ∀ (j : Nat) (cp : Copy), s.copies[j]? = some cp → cp.call = i →
    cp.page ∈ t.call.rows.flatten

/-- The last events of a deferred call are behind its copies, and not before the events that are
kept for its request and KV group. -/
structure Tails (cfg : Config) (s : Engine) (i : Nat) (t : Store) : Prop where
  alone : t.call.group = false
  cover : ∀ (j : Nat) (cp : Copy), Outstanding s j cp → cp.call = i →
    ∃ n, t.tails.get? cp.stream = some n ∧ j < n
  upto : ∀ stream n, t.tails.get? stream = some n → n ≤ s.copies.length ∧
    ∃ l, l < cfg.layers t.call.kvGroup ∧ stream = t.call.streamOf cfg l
  newer : ∀ e ∈ s.eventsOf t.call.req t.call.kvGroup, ∀ n,
    t.tails.get? e.stream = some n → e.upto ≤ n
  all : ∀ l, l < cfg.layers t.call.kvGroup → t.call.streamOf cfg l ∈ t.tails.keys ∨
    ∃ row, Op.copy row (t.call.streamOf cfg l) ∈ t.ops
  owned : ∀ page ∈ t.call.rows.flatten, page ∈ s.ownersOf t.call.req

/-- A call that has ended. -/
def Ended (cfg : Config) (s : Engine) (i : Nat) (t : Store) : Prop :=
  ∀ (j : Nat) (cp : Copy), Outstanding s j cp → cp.call = i →
    cp.page ∈ t.pending ∨ Registered s t.call j cp ∨ Engine.LeavesCopies cfg t

/-- The call may still register its events. -/
def Store.current (t : Store) : Prop := t.exit = none ∧ t.abandoned = false

structure Inv (cfg : Config) (s : Engine) : Prop where
  events : ∀ req kvGroup, ∀ e ∈ s.eventsOf req kvGroup, e.upto ≤ s.copies.length ∧
    ∃ l, l < cfg.layers kvGroup ∧ e.stream = .bank kvGroup (l % cfg.banks kvGroup)
  calls : ∀ (j : Nat) (cp : Copy), s.copies[j]? = some cp → cp.call < s.stores.length
  alive : ∀ (i : Nat) (t : Store), s.stores[i]? = some t → t.exit = none → Alive cfg s i t
  tails : ∀ (i : Nat) (t : Store), s.stores[i]? = some t → t.current →
    t.call.deferred cfg = true → Tails cfg s i t
  ended : ∀ (i : Nat) (t : Store), s.stores[i]? = some t → t.exit ≠ none → Ended cfg s i t
  single : ∀ (i k : Nat) (t t' : Store), s.stores[i]? = some t → s.stores[k]? = some t' →
    t.current → t'.current → t.call.req = t'.call.req → t.call.kvGroup = t'.call.kvGroup → i = k

theorem Inv.init : Inv cfg Engine.init := by
  have hnone : ∀ (i : Nat) (t : Store), Engine.init.stores[i]? ≠ some t := by
    intro i t h
    cases h
  refine ⟨?_, ?_, ?_, ?_, ?_, ?_⟩
  · intro req kvGroup e he
    cases he
  · intro j cp h
    cases h
  · intro i t h
    exact absurd h (hnone i t)
  · intro i t h
    exact absurd h (hnone i t)
  · intro i t h
    exact absurd h (hnone i t)
  · intro i k t t' h
    exact absurd h (hnone i t)

theorem held_of_owner {page : Nat} (h : page ∈ s.ownersOf req) : s.Held page := by
  unfold Engine.ownersOf at h
  cases hget : s.owners.get? req with
  | none =>
    rw [hget] at h
    cases h
  | some pages =>
    rw [hget] at h
    exact .inr ⟨(req, pages), mem_entries.2 hget, h⟩

theorem Inv.drained (h : Inv cfg s) : s.Drained cfg := by
  intro j cp hcp hdone
  have hlt := h.calls j cp hcp
  obtain ⟨t, ht⟩ : ∃ t, s.stores[cp.call]? = some t := ⟨_, getElem?_eq_getElem hlt⟩
  by_cases hexit : t.exit = none
  · left
    obtain ⟨D, -, hD, -, -, hout⟩ := (h.alive _ t ht hexit).dirty
    rcases hout j cp ⟨hcp, hdone⟩ rfl with ⟨hpage, -⟩ | hreg
    · exact .inl ⟨t, mem_of_getElem? ht, hD _ hpage⟩
    · exact held_of_owner hreg.2
  · rcases h.ended _ t ht hexit j cp ⟨hcp, hdone⟩ rfl with hpage | hreg | hleaves
    · exact .inl (.inl ⟨t, mem_of_getElem? ht, hpage⟩)
    · exact .inl (held_of_owner hreg.2)
    · exact .inr ⟨t, ht, hleaves⟩

/-! ## What a step leaves to the other calls -/

/-- The copies of call `i` are as they were, or complete. -/
structure Frame (s s' : Engine) (i : Nat) (c : Call) : Prop where
  copies : ∀ (j : Nat) (cp : Copy), s'.copies[j]? = some cp → cp.call = i → s.copies[j]? = some cp
  done : ∀ j, s'.done j = false → s.done j = false
  length : s.copies.length ≤ s'.copies.length
  registered : ∀ (j : Nat) (cp : Copy), Outstanding s' j cp → cp.call = i → Registered s c j cp →
    Registered s' c j cp

theorem Frame.same (hcopies : s'.copies = s.copies) (hdone : s'.done = s.done)
    (hreg : ∀ j cp, Registered s c j cp → Registered s' c j cp) : Frame s s' k c where
  copies _ _ hcp _ := hcopies ▸ hcp
  done _ hj := hdone ▸ hj
  length := Nat.le_of_eq (congrArg List.length hcopies.symm)
  registered j cp _ _ hr := hreg j cp hr

theorem Frame.outstanding (h : Frame s s' i c) (ho : Outstanding s' j cp) (hi : cp.call = i) :
    Outstanding s j cp :=
  ⟨h.copies j cp ho.1 hi, h.done j ho.2⟩

theorem Alive.frame (h : Alive cfg s i t) (hf : Frame s s' i t.call) : Alive cfg s' i t where
  dirty := by
    obtain ⟨D, hsafe, hD, hstaged, hgen, hout⟩ := h.dirty
    refine ⟨D, hsafe, hD, hstaged, hgen, fun j cp ho hi => ?_⟩
    exact (hout j cp (hf.outstanding ho hi) hi).imp id (hf.registered j cp ho hi)
  fits j cp hcp hi := h.fits j cp (hf.copies j cp hcp hi) hi
  pages := h.pages
  into j cp hcp hi := h.into j cp (hf.copies j cp hcp hi) hi

theorem Ended.frame (h : Ended cfg s i t) (hf : Frame s s' i t.call) : Ended cfg s' i t := by
  intro j cp ho hi
  rcases h j cp (hf.outstanding ho hi) hi with hpage | hreg | hleaves
  · exact .inl hpage
  · exact .inr (.inl (hf.registered j cp ho hi hreg))
  · exact .inr (.inr hleaves)

theorem Tails.frame (h : Tails cfg s i t) (hf : Frame s s' i t.call)
    (hevents : ∀ e ∈ s'.eventsOf t.call.req t.call.kvGroup,
      e ∈ s.eventsOf t.call.req t.call.kvGroup)
    (howners : ∀ page ∈ s.ownersOf t.call.req, page ∈ s'.ownersOf t.call.req) :
    Tails cfg s' i t where
  alone := h.alone
  cover j cp ho hi := h.cover j cp (hf.outstanding ho hi) hi
  upto stream n hget := by
    obtain ⟨hn, hl⟩ := h.upto stream n hget
    exact ⟨Nat.le_trans hn hf.length, hl⟩
  newer e he := h.newer e (hevents e he)
  all := h.all
  owned page hpage := howners page (h.owned page hpage)

/-- A step that leaves the records of the calls, and no new event. -/
theorem Inv.framed (h : Inv cfg s) (hstores : s'.stores = s.stores) (hcopies : s'.copies = s.copies)
    (howners : s'.owners = s.owners) (hframe : ∀ k c, Frame s s' k c)
    (hevents : ∀ req g, s'.eventsOf req g ⊆ s.eventsOf req g) : Inv cfg s' := by
  have hown : ∀ req, s.ownersOf req = s'.ownersOf req := by
    intro req
    unfold Engine.ownersOf
    rw [howners]
  constructor <;> simp only [hstores, hcopies]
  · exact fun req g e he => h.events req g e (hevents req g he)
  · exact h.calls
  · exact fun k t hk hexit => (h.alive k t hk hexit).frame (hframe k t.call)
  · exact fun k t hk hcur hd => (h.tails k t hk hcur hd).frame (hframe k t.call)
      (fun _ he => hevents _ _ he) fun _ hp => hown _ ▸ hp
  · exact fun k t hk hexit => (h.ended k t hk hexit).frame (hframe k t.call)
  · exact h.single

theorem Inv.replace (h : Inv cfg s) (hi : s.stores[i]? = some t)
    (hstores : s'.stores = s.stores.set i t') (hcall : t'.call = t.call)
    (hcurrent : t'.current → t.current)
    (hframe : ∀ (k : Nat) (t2 : Store), k ≠ i → s.stores[k]? = some t2 → Frame s s' k t2.call)
    (hothers : ∀ (k : Nat) (t2 : Store), k ≠ i → s.stores[k]? = some t2 → t2.current →
      (∀ e ∈ s'.eventsOf t2.call.req t2.call.kvGroup,
        e ∈ s.eventsOf t2.call.req t2.call.kvGroup) ∧
      ∀ page ∈ s.ownersOf t2.call.req, page ∈ s'.ownersOf t2.call.req)
    (hevents : ∀ req kvGroup, ∀ e ∈ s'.eventsOf req kvGroup, e.upto ≤ s'.copies.length ∧
      ∃ l, l < cfg.layers kvGroup ∧ e.stream = .bank kvGroup (l % cfg.banks kvGroup))
    (hcalls : ∀ (j : Nat) (cp : Copy), s'.copies[j]? = some cp → s.copies[j]? = some cp ∨ cp.call = i)
    (halive : t'.exit = none → Alive cfg s' i t')
    (htails : t'.current → t'.call.deferred cfg = true → Tails cfg s' i t')
    (hended : t'.exit ≠ none → Ended cfg s' i t') : Inv cfg s' := by
  have hcase : ∀ (k : Nat) (t2 : Store), s'.stores[k]? = some t2 →
      (k = i ∧ t2 = t') ∨ (k ≠ i ∧ s.stores[k]? = some t2) := by
    intro k t2 hk
    rw [hstores] at hk
    exact getElem?_set_or hk
  refine ⟨hevents, ?_, ?_, ?_, ?_, ?_⟩
  · intro j cp hcp
    rw [hstores, length_set]
    rcases hcalls j cp hcp with hold | hnew
    · exact h.calls j cp hold
    · rw [hnew]
      exact lt_of_getElem? hi
  · intro k t2 hk hexit
    rcases hcase k t2 hk with ⟨rfl, rfl⟩ | ⟨hki, hk⟩
    · exact halive hexit
    · exact (h.alive k t2 hk hexit).frame (hframe k t2 hki hk)
  · intro k t2 hk hcur hd
    rcases hcase k t2 hk with ⟨rfl, rfl⟩ | ⟨hki, hk⟩
    · exact htails hcur hd
    · obtain ⟨he, ho⟩ := hothers k t2 hki hk hcur
      exact (h.tails k t2 hk hcur hd).frame (hframe k t2 hki hk) he ho
  · intro k t2 hk hexit
    rcases hcase k t2 hk with ⟨rfl, rfl⟩ | ⟨hki, hk⟩
    · exact hended hexit
    · exact (h.ended k t2 hk hexit).frame (hframe k t2 hki hk)
  · intro a b ta tb ha hb hca hcb hreq hgroup
    have hback : ∀ (k : Nat) (t2 : Store), s'.stores[k]? = some t2 → t2.current →
        ∃ t3 : Store, s.stores[k]? = some t3 ∧ t3.current ∧ t3.call = t2.call := by
      intro k t2 hk hcur
      rcases hcase k t2 hk with ⟨rfl, rfl⟩ | ⟨-, hk⟩
      · exact ⟨t, hi, hcurrent hcur, hcall.symm⟩
      · exact ⟨t2, hk, hcur, rfl⟩
    obtain ⟨ta', ha', hca', hcalla⟩ := hback a ta ha hca
    obtain ⟨tb', hb', hcb', hcallb⟩ := hback b tb hb hcb
    refine h.single a b ta' tb' ha' hb' hca' hcb' ?_ ?_
    · rw [hcalla, hcallb]
      exact hreq
    · rw [hcalla, hcallb]
      exact hgroup

/-! ## Steps that only touch the record of a call -/

theorem Frame.setStore : Frame s (s.setStore i t') k c where
  copies _ _ h _ := h
  done _ h := h
  length := Nat.le_refl _
  registered _ _ _ _ h := h

theorem Inv.setStore (h : Inv cfg s) (hi : s.stores[i]? = some t) (hcall : t'.call = t.call)
    (hcurrent : t'.current → t.current) (halive : t'.exit = none → Alive cfg s i t')
    (htails : t'.current → t'.call.deferred cfg = true → Tails cfg s i t')
    (hended : t'.exit ≠ none → Ended cfg s i t') : Inv cfg (s.setStore i t') :=
  h.replace hi rfl hcall hcurrent (fun _ _ _ _ => Frame.setStore)
    (fun _ _ _ _ _ => ⟨fun _ he => he, fun _ hp => hp⟩) h.events (fun _ _ hcp => .inl hcp)
    (fun hexit => (halive hexit).frame Frame.setStore)
    (fun hcur hd => (htails hcur hd).frame Frame.setStore (fun _ he => he) fun _ hp => hp)
    (fun hexit => (hended hexit).frame Frame.setStore)

/-! ## Waiting -/

variable {waits : Nat → Copy → Bool} {part : List Nat} {req' : String}

theorem wait_done (h : (s.wait waits).done j = false) :
    s.done j = false := by
  unfold Engine.wait at h
  exact (Bool.or_eq_false_iff.1 h).1

theorem wait_outstanding (h : Outstanding (s.wait waits) j cp) :
    Outstanding s j cp ∧ waits j cp = false := by
  obtain ⟨hcp, hdone⟩ := h
  have hcp : s.copies[j]? = some cp := hcp
  have hw := (Bool.or_eq_false_iff.1 hdone).2
  rw [hcp] at hw
  exact ⟨⟨hcp, wait_done hdone⟩, hw⟩

theorem Frame.wait : Frame s (s.wait waits) k c where
  copies _ _ h _ := h
  done _ h := wait_done h
  length := Nat.le_refl _
  registered _ _ _ _ h := h

theorem Inv.wait (h : Inv cfg s) (waits : Nat → Copy → Bool) : Inv cfg (s.wait waits) :=
  h.framed rfl rfl rfl (fun _ _ => Frame.wait) fun _ _ => Subset.refl _

/-! ## The end of a call -/

/-- A call that is about to end: what may run into its pages, and why its fence is made. -/
structure Ending (cfg : Config) (s : Engine) (i : Nat) (t : Store) : Prop where
  covered : ∀ (j : Nat) (cp : Copy), Outstanding s j cp → cp.call = i →
    (cp.page ∈ t.pending ∧ t.transferPending = true ∧
      (t.generator = true ∨ t.call.group = true) ∧ t.staged = t.call.staged cfg) ∨
    Registered s t.call j cp
  fits : ∀ (j : Nat) (cp : Copy), s.copies[j]? = some cp → cp.call = i →
    ∃ l, l < cfg.layers t.call.kvGroup ∧ cp.stream = t.call.streamOf cfg l

theorem Alive.ending (h : Alive cfg s i t) : Ending cfg s i t where
  covered := by
    obtain ⟨D, -, hD, hstaged, hgen, hout⟩ := h.dirty
    intro j cp ho hi
    refine (hout j cp ho hi).imp ?_ id
    rintro ⟨hpage, hpending⟩
    have hne : D ≠ [] := ne_nil_of_mem hpage
    exact ⟨hD _ hpage, hpending, hgen hne, hstaged.resolve_right fun hnil => hne hnil.1⟩
  fits := h.fits

theorem fenceCovers_of_fits (h : ∃ l, l < cfg.layers t.call.kvGroup ∧
    cp.stream = t.call.streamOf cfg l) : Engine.fenceCovers cfg t j cp = true := by
  obtain ⟨l, -, hstream⟩ := h
  unfold Engine.fenceCovers
  unfold Call.streamOf at hstream
  rw [hstream]
  split <;> exact decide_eq_true rfl

theorem Inv.leave (h : Inv cfg s) (hi : s.stores[i]? = some t) (hcall : t'.call = t.call)
    (hexit : t'.exit ≠ none) (hended : Ended cfg s i t') : Inv cfg (s.setStore i t') :=
  h.setStore hi hcall (fun hcur => absurd hcur.1 hexit) (fun hnone => absurd hnone hexit)
    (fun hcur => absurd hcur.1 hexit) fun _ => hended

theorem Inv.cleanUp (h : Inv cfg s) (hi : s.stores[i]? = some t) (hcall : t'.call = t.call)
    (he : Ending cfg s i t') (inGenerator : Bool) (fence : Engine.Fence) :
    Inv cfg (s.cleanUp cfg i t' inGenerator fence) := by
  unfold Engine.cleanUp
  split
  · have hraised : Inv cfg (s.drop i t' .fenceRaised) :=
      h.leave hi hcall nofun fun j cp ho hj => .inr (.inr (.inl rfl))
    cases fence with
    | returns =>
      refine (h.wait _).leave hi hcall nofun fun j cp ho hj => ?_
      obtain ⟨ho, hwaits⟩ := wait_outstanding ho
      have hcovers : Engine.fenceCovers cfg t' j cp = true :=
        fenceCovers_of_fits (he.fits j cp ho.1 hj)
      rw [hcovers] at hwaits
      cases hwaits
    | raises => exact hraised
    | raisesOther =>
      cases inGenerator with
      | true => exact hraised
      | false =>
        refine h.leave hi hcall nofun fun j cp ho hj => ?_
        exact (he.covered j cp ho hj).imp And.left .inl
  · next hfence =>
    refine h.leave hi hcall nofun fun j cp ho hj => ?_
    rcases he.covered j cp ho hj with ⟨-, hpending, hgen, hstaged⟩ | hreg
    · right
      right
      refine .inr ⟨rfl, ?_⟩
      rcases hgen with hgen | hgroup
      · right
        unfold Engine.fences at hfence
        rw [hgen, Bool.true_and] at hfence
        cases hprefill : cfg.prefill with
        | true =>
          rw [hprefill, if_pos rfl] at hfence
          exact absurd hpending hfence
        | false =>
          rw [hprefill, if_neg Bool.false_ne_true, hstaged] at hfence
          exact ⟨rfl, by rw [← Bool.not_eq_true]; exact hfence⟩
      · exact .inl hgroup
    · exact .inr (.inl hreg)

/-! ## The operations of a call -/

theorem all_tail (hops : t.ops = op :: rest) (hop : op.launches = false)
    (h : ∃ row, Op.copy row stream ∈ t.ops) : ∃ row, Op.copy row stream ∈ rest := by
  obtain ⟨row, hrow⟩ := h
  rw [hops] at hrow
  rcases mem_cons.1 hrow with heq | hrow
  · rw [← heq] at hop
    cases hop
  · exact ⟨row, hrow⟩

theorem Tails.advance (h : Tails cfg s i t) (hops : t.ops = op :: rest)
    (hop : op.launches = false) (hcall : t'.call = t.call) (htails : t'.tails = t.tails)
    (hrest : t'.ops = rest) : Tails cfg s i t' where
  alone := by
    rw [hcall]
    exact h.alone
  cover := by
    rw [htails]
    exact h.cover
  upto := by
    rw [htails, hcall]
    exact h.upto
  newer := by
    rw [htails, hcall]
    exact h.newer
  all := by
    rw [htails, hcall, hrest]
    intro l hl
    exact (h.all l hl).imp id (all_tail hops hop)
  owned := by
    rw [hcall]
    exact h.owned

theorem staged_tail {p : Prop} {D D' : List Nat} (h : p ∨ D = [] ∧ NoCopies (op :: rest))
    (hD : D = [] → D' = []) : p ∨ D' = [] ∧ NoCopies rest :=
  h.imp id fun hnil => ⟨hD hnil.1, fun o ho => hnil.2 o (mem_cons_of_mem _ ho)⟩

section

variable (h : Inv cfg s) (hi : s.stores[i]? = some t) (hexit : t.exit = none)
include h hi hexit

theorem Inv.plain (hops : t.ops = op :: rest) (hop : op.launches = false)
    (hcall : t'.call = t.call) (hexit' : t'.exit = t.exit)
    (habandoned : t'.abandoned = t.abandoned) (htails : t'.tails = t.tails)
    (hrest : t'.ops = rest) (halive : Alive cfg s i t') :
    Inv cfg (s.setStore i t') := by
  have hcurrent : t'.current → t.current := by
    unfold Store.current
    rw [hexit', habandoned]
    exact id
  refine h.setStore hi hcall hcurrent (fun _ => halive) ?_ ?_
  · intro hcur hd
    rw [hcall] at hd
    exact (h.tails i t hi (hcurrent hcur) hd).advance hops hop hcall htails hrest
  · rw [hexit']
    exact fun hne => absurd hexit hne

theorem Inv.skip (hops : t.ops = op :: rest) (hop : op.launches = false)
    (hsafe : ∀ gen P D, Safe cfg t.call gen P D (op :: rest) → Safe cfg t.call gen P D rest) :
    Inv cfg (s.setStore i { t with ops := rest }) := by
  have ha := h.alive i t hi hexit
  obtain ⟨D, hs, hD, hstaged, hgen, hout⟩ := ha.dirty
  rw [hops] at hs hstaged
  exact h.plain hi hexit hops hop rfl rfl rfl rfl rfl ⟨⟨D, hsafe _ _ _ hs, hD,
    staged_tail hstaged id, hgen, hout⟩, ha.fits, ha.pages, ha.into⟩

theorem Inv.generate (hops : t.ops = .generate :: rest) :
    Inv cfg (s.setStore i { t with ops := rest, generator := true }) := by
  have ha := h.alive i t hi hexit
  obtain ⟨D, hs, hD, hstaged, -, hout⟩ := ha.dirty
  rw [hops] at hs hstaged
  exact h.plain hi hexit hops rfl rfl rfl rfl rfl rfl
    ⟨⟨D, hs, hD, staged_tail hstaged id, fun _ => .inl rfl, hout⟩, ha.fits, ha.pages, ha.into⟩

theorem Inv.free (hops : t.ops = .free :: rest) :
    Inv cfg (s.setStore i { t with ops := rest, staged := false }) := by
  have ha := h.alive i t hi hexit
  obtain ⟨D, hs, hD, -, hgen, hout⟩ := ha.dirty
  rw [hops] at hs
  obtain ⟨hnil, hnone, hs⟩ := hs
  exact h.plain hi hexit hops rfl rfl rfl rfl rfl rfl
    ⟨⟨D, hs, hD, .inr ⟨hnil, hnone⟩, hgen, hout⟩, ha.fits, ha.pages, ha.into⟩

theorem Inv.put {pages : List Nat} (hops : t.ops = .put pages :: rest) :
    Inv cfg (s.setStore i { t with
      ops := rest, pending := t.pending.filter fun page => page ∉ pages }) := by
  have ha := h.alive i t hi hexit
  obtain ⟨D, hs, hD, hstaged, hgen, hout⟩ := ha.dirty
  rw [hops] at hs hstaged
  obtain ⟨hput, hs⟩ := hs
  refine h.plain hi hexit hops rfl rfl rfl rfl rfl rfl
    ⟨⟨D, hs, ?_, staged_tail hstaged id, hgen, hout⟩, ha.fits, ?_, ha.into⟩
  · intro page hpage
    have hnot : page ∉ pages := fun hin => hput page hin hpage
    exact mem_filter.2 ⟨hD page hpage, decide_eq_true hnot⟩
  · intro page hpage
    exact ha.pages page (mem_filter.1 hpage).1

theorem Inv.synced (hops : t.ops = op :: rest) (hop : op.launches = false)
    (hsafe : ∀ D, Safe cfg t.call t.generator t.pending D (op :: rest) →
      Safe cfg t.call t.generator t.pending [] rest)
    (hwaited : ∀ (j : Nat) (cp : Copy), Outstanding s j cp → cp.call = i →
      Registered s t.call j cp) :
    Inv cfg (s.setStore i { t with ops := rest, transferPending := false }) := by
  have ha := h.alive i t hi hexit
  obtain ⟨D, hs, -, hstaged, -, -⟩ := ha.dirty
  rw [hops] at hs hstaged
  exact h.plain hi hexit hops hop rfl rfl rfl rfl rfl ⟨⟨[], hsafe D hs, nofun,
    staged_tail hstaged fun _ => rfl, fun hne => absurd rfl hne,
    fun j cp ho hj => .inr (hwaited j cp ho hj)⟩, ha.fits, ha.pages, ha.into⟩

theorem Inv.sync (hops : t.ops = .sync :: rest) :
    Inv cfg ((s.wait fun _ cp => cp.stream = .store).setStore i
      { t with ops := rest, transferPending := false }) := by
  have ha := h.alive i t hi hexit
  obtain ⟨D, hs, -, -, -, -⟩ := ha.dirty
  rw [hops] at hs
  have hdma : t.call.dma cfg = false := hs.1
  refine (h.wait _).synced hi hexit hops rfl (fun _ hs => hs.2) fun j cp ho hj => ?_
  obtain ⟨ho, hwaits⟩ := wait_outstanding ho
  obtain ⟨l, -, hstream⟩ := ha.fits j cp ho.1 hj
  unfold Call.streamOf at hstream
  rw [hdma, if_neg Bool.false_ne_true] at hstream
  rw [decide_eq_true hstream] at hwaits
  cases hwaits

end

theorem Inv.drain (h : Inv cfg s) (hi : s.stores[i]? = some t) (hcur : t.current)
    (hops : t.ops = .drain :: rest) :
    Inv cfg ((s.wait fun j cp => t.tails.entries.any fun e =>
      Event.covers ⟨e.1, e.2⟩ j cp).setStore i { t with
        ops := rest, transferPending := false }) := by
  have ha := h.alive i t hi hcur.1
  obtain ⟨D, hs, -, -, -, -⟩ := ha.dirty
  rw [hops] at hs
  refine (h.wait _).synced hi hcur.1 hops rfl (fun _ hs => hs.2) fun j cp ho hj => ?_
  obtain ⟨ho, hwaits⟩ := wait_outstanding ho
  obtain ⟨n, hget, hlt⟩ := (h.tails i t hi hcur hs.1).cover j cp ho hj
  have hany : (t.tails.entries.any fun e => Event.covers ⟨e.1, e.2⟩ j cp) = true := by
    exact any_eq_true.2 ⟨(cp.stream, n), mem_entries.2 hget,
      Event.covers_iff.2 ⟨rfl, hlt⟩⟩
  rw [hany] at hwaits
  cases hwaits

/-! ## Launches -/

theorem getElem?_enqueue (h : (s.enqueue i row stream).copies[j]? = some cp) :
    s.copies[j]? = some cp ∨
      s.copies.length ≤ j ∧ cp.call = i ∧ cp.stream = stream ∧ cp.page ∈ row := by
  have h : (s.copies ++ row.map fun page => ⟨page, stream, i⟩)[j]? = some cp := h
  by_cases hlt : j < s.copies.length
  · left
    rw [getElem?_append_left hlt] at h
    exact h
  · right
    rw [getElem?_append_right (by omega)] at h
    obtain ⟨page, hpage, rfl⟩ := mem_map.1 (mem_of_getElem? h)
    exact ⟨by omega, rfl, rfl, hpage⟩

theorem length_enqueue : s.copies.length ≤ (s.enqueue i row stream).copies.length := by
  show s.copies.length ≤ (s.copies ++ _).length
  rw [length_append]
  omega

theorem Frame.enqueue (hk : k ≠ i) : Frame s (s.enqueue i row stream) k c where
  copies j cp hcp hcall := by
    rcases getElem?_enqueue hcp with hold | ⟨-, hi, -, -⟩
    · exact hold
    · exact absurd (hcall.symm.trans hi) hk
  done _ h := h
  length := length_enqueue
  registered _ _ _ _ h := h

theorem Inv.enqueue (h : Inv cfg s) (hi : s.stores[i]? = some t) (hcall : t'.call = t.call)
    (hcurrent : t'.current → t.current)
    (halive : t'.exit = none → Alive cfg (s.enqueue i row stream) i t')
    (htails : t'.current → t'.call.deferred cfg = true →
      Tails cfg (s.enqueue i row stream) i t')
    (hended : t'.exit ≠ none → Ended cfg (s.enqueue i row stream) i t') :
    Inv cfg ((s.enqueue i row stream).setStore i t') := by
  refine h.replace hi rfl hcall hcurrent (fun k t2 hk _ => ?_) ?_ ?_ ?_ ?_ ?_ ?_
  · have hf : Frame s (s.enqueue i row stream) k t2.call := Frame.enqueue hk
    exact ⟨hf.copies, hf.done, hf.length, hf.registered⟩
  · exact fun _ _ _ _ _ => ⟨fun _ he => he, fun _ hp => hp⟩
  · intro req kvGroup e he
    obtain ⟨hupto, hstream⟩ := h.events req kvGroup e he
    exact ⟨Nat.le_trans hupto length_enqueue, hstream⟩
  · intro j cp hcp
    exact (getElem?_enqueue hcp).imp id fun hnew => hnew.2.1
  · exact fun hexit => (halive hexit).frame Frame.setStore
  · exact fun hcur hd =>
      (htails hcur hd).frame Frame.setStore (fun _ he => he) fun _ hp => hp
  · exact fun hexit => (hended hexit).frame Frame.setStore

theorem outstanding_enqueue (h : Outstanding (s.enqueue i part stream) j cp) :
    Outstanding s j cp ∨ s.copies.length ≤ j ∧ j < (s.enqueue i part stream).copies.length ∧
      cp.call = i ∧ cp.stream = stream ∧ cp.page ∈ part := by
  rcases getElem?_enqueue h.1 with hold | ⟨hj, hnew⟩
  · exact .inl ⟨hold, h.2⟩
  · exact .inr ⟨hj, (lt_of_getElem? h.1), hnew⟩

/-- The record of a call after a launch. -/
def launched (cfg : Config) (s : Engine) (t : Store) (rest : List Op) (stream : Stream) : Store :=
  { t with
    ops := rest
    transferPending := true
    tails := if t.call.deferred cfg then t.tails.set stream s.copies.length else t.tails }

theorem Alive.launch (h : Alive cfg s i t)
    (hops : t.ops = .copy row stream :: rest) (hpart : ∀ page ∈ part, page ∈ row) :
    Alive cfg (s.enqueue i part stream) i
      (launched cfg (s.enqueue i part stream) t rest stream) := by
  obtain ⟨D, hs, hD, hstaged, hgen, hout⟩ := h.dirty
  rw [hops] at hs hstaged
  obtain ⟨hgenerator, hrow, hfits, hs⟩ := hs
  refine ⟨⟨row ++ D, hs, ?_, ?_, fun _ => hgenerator, ?_⟩, ?_, h.pages, ?_⟩
  · intro page hpage
    rcases mem_append.1 hpage with hpage | hpage
    · exact hrow page hpage
    · exact hD page hpage
  · refine hstaged.imp id fun hnil => ?_
    have hfalse := hnil.2 _ mem_cons_self
    cases hfalse
  · intro j cp ho hi
    rcases outstanding_enqueue ho with hold | ⟨-, -, -, -, hpage⟩
    · refine (hout j cp hold hi).imp (fun hdirty => ⟨?_, rfl⟩) id
      exact mem_append_right _ hdirty.1
    · exact .inl ⟨mem_append_left _ (hpart _ hpage), rfl⟩
  · intro j cp hcp hi
    rcases getElem?_enqueue hcp with hold | ⟨-, -, hstream, hpage⟩
    · exact h.fits j cp hold hi
    rcases hfits with ⟨hnil, -⟩ | ⟨l, hl, heq⟩
    · have hrow := hpart _ hpage
      rw [hnil] at hrow
      cases hrow
    · exact ⟨l, hl, hstream.trans heq⟩
  · intro j cp hcp hi
    rcases getElem?_enqueue hcp with hold | ⟨-, -, -, hpage⟩
    · exact h.into j cp hold hi
    · exact h.pages _ (hrow _ (hpart _ hpage))

theorem Tails.launch (h : Tails cfg s i t) (hinv : Inv cfg s)
    (hd : t.call.deferred cfg = true) (hsafe : ∃ D, Safe cfg t.call t.generator t.pending D t.ops)
    (hops : t.ops = .copy row stream :: rest) :
    Tails cfg (s.enqueue i part stream) i
      (launched cfg (s.enqueue i part stream) t rest stream) := by
  have htails : (launched cfg (s.enqueue i part stream) t rest stream).tails =
      t.tails.set stream (s.enqueue i part stream).copies.length := if_pos hd
  obtain ⟨D, hs⟩ := hsafe
  rw [hops] at hs
  obtain ⟨-, -, hfits, -⟩ := hs
  refine ⟨h.alone, ?_, ?_, ?_, ?_, h.owned⟩
  · intro j cp ho hi
    rw [htails]
    by_cases hstream : cp.stream = stream
    · refine ⟨_, ?_, (lt_of_getElem? ho.1)⟩
      rw [hstream]
      exact get?_set_self _ _ _
    · rcases outstanding_enqueue ho with hold | ⟨-, -, -, hnew, -⟩
      · rw [get?_set_ne hstream]
        exact h.cover j cp hold hi
      · exact absurd hnew hstream
  · intro st n hget
    rw [htails] at hget
    by_cases hst : st = stream
    · subst hst
      rw [get?_set_self] at hget
      cases hget
      refine ⟨Nat.le_refl _, ?_⟩
      rcases hfits with ⟨-, hgroup⟩ | hl
      · exact absurd (hgroup.symm.trans h.alone) nofun
      · exact hl
    · rw [get?_set_ne hst] at hget
      obtain ⟨hn, hl⟩ := h.upto st n hget
      exact ⟨Nat.le_trans hn length_enqueue, hl⟩
  · intro e he n hget
    rw [htails] at hget
    by_cases hst : e.stream = stream
    · rw [hst, get?_set_self] at hget
      cases hget
      exact Nat.le_trans (hinv.events _ _ e he).1 length_enqueue
    · rw [get?_set_ne hst] at hget
      exact h.newer e he n hget
  · intro l hl
    rw [htails]
    rcases h.all l hl with hkey | ⟨r, hr⟩
    · exact .inl (mem_keys_set.2 (.inr hkey))
    rw [hops] at hr
    rcases mem_cons.1 hr with heq | hr
    · injection heq with _ heq
      exact .inl (mem_keys_set.2 (.inl heq))
    · exact .inr ⟨r, hr⟩

theorem Inv.launch (h : Inv cfg s) (hi : s.stores[i]? = some t)
    (hexit : t.exit = none) (hops : t.ops = .copy row stream :: rest)
    (hpart : ∀ page ∈ part, page ∈ row) :
    Inv cfg ((s.enqueue i part stream).setStore i
      (launched cfg (s.enqueue i part stream) t rest stream)) := by
  have ha := h.alive i t hi hexit
  obtain ⟨D, hs, -⟩ := ha.dirty
  refine h.enqueue hi rfl id (fun _ => ha.launch hops hpart) ?_ fun hne => absurd hexit hne
  intro hcur hd
  exact (h.tails i t hi hcur hd).launch h hd ⟨D, hs⟩ hops

/-! ## Interrupted calls -/

theorem setStore_setStore : (s.setStore i t).setStore i t' = s.setStore i t' := by
  unfold Engine.setStore
  rw [set_set]

theorem cleanUp_setStore (g : Bool) (fence : Engine.Fence) :
    (s.setStore i t).cleanUp cfg i t' g fence = s.cleanUp cfg i t' g fence := by
  have hwait : ∀ waits, (s.setStore i t).wait waits = (s.wait waits).setStore i t :=
    fun _ => rfl
  unfold Engine.cleanUp Engine.drop
  rw [hwait]
  simp only [setStore_setStore]

theorem Inv.fail (h : Inv cfg s) (hi : s.stores[i]? = some t) (hexit : t.exit = none)
    (hops : t.ops = op :: rest) (n : Nat) (fence : Engine.Fence) :
    Inv cfg (s.fail cfg i t n fence op) := by
  have ha := h.alive i t hi hexit
  cases op with
  | copy row stream =>
    have hlt : i < s.stores.length := lt_of_getElem? hi
    have hpart : ∀ page ∈ row.take n, page ∈ row := fun page => mem_of_mem_take
    have hlaunch := h.launch hi hexit hops hpart
    have hself : ((s.enqueue i (row.take n) stream).setStore i
        (launched cfg (s.enqueue i (row.take n) stream) t rest stream)).stores[i]? =
        some (launched cfg (s.enqueue i (row.take n) stream) t rest stream) :=
      getElem?_set_self hlt
    have hend := (hlaunch.alive i _ hself hexit).ending
    have hcall : ({ t with transferPending := true } : Store).call =
        (launched cfg (s.enqueue i (row.take n) stream) t rest stream).call := rfl
    have hclean := hlaunch.cleanUp hself hcall ⟨hend.covered, hend.fits⟩ true fence
    rw [cleanUp_setStore] at hclean
    exact hclean
  | _ => exact h.cleanUp hi rfl ha.ending _ fence

/-! ## The events of a request -/

theorem eventsOf_set {events : List Event} {g g' : Nat}
    (hs : s'.storeEvents = s.storeEvents.set req ((s.eventsOfRequest req).set g events)) :
    s'.eventsOf req' g' = if req' = req ∧ g' = g then events else s.eventsOf req' g' := by
  unfold Engine.eventsOf
  by_cases hreq : req' = req
  · subst hreq
    have hget : s'.eventsOfRequest req' = (s.eventsOfRequest req').set g events := by
      show (s'.storeEvents.get? req').getD Dict.empty = _
      rw [hs, get?_set_self]
      rfl
    rw [hget]
    by_cases hgroup : g' = g
    · rw [if_pos ⟨rfl, hgroup⟩, hgroup, get?_set_self]
      rfl
    · rw [if_neg fun hand => hgroup hand.2, get?_set_ne hgroup]
  · have hget : s'.eventsOfRequest req' = s.eventsOfRequest req' := by
      show (s'.storeEvents.get? req').getD Dict.empty = _
      rw [hs, get?_set_ne hreq]
      rfl
    rw [hget, if_neg fun hand => hreq hand.1]

theorem mem_tailEvents {e : Event} :
    e ∈ (t.tails.entries.map fun e => (⟨e.1, e.2⟩ : Event)) ↔
      t.tails.get? e.stream = some e.upto := by
  rw [← mem_entries, mem_map]
  constructor
  · rintro ⟨⟨stream, n⟩, hmem, rfl⟩
    exact hmem
  · intro hmem
    exact ⟨(e.stream, e.upto), hmem, rfl⟩

/-- The events of a group may give way to others that cover their copies. -/
theorem Inv.replaceEvents {events : List Event} (h : Inv cfg s) (hi : s.stores[i]? = some t)
    (hcur : t.current) (hd : t.call.deferred cfg = true) (hops : t.ops = .register :: rest)
    (hstored : s'.storeEvents = s.storeEvents.set t.call.req
      ((s.eventsOfRequest t.call.req).set t.call.kvGroup events))
    (hstores : s'.stores = s.stores.set i { t with ops := rest, transferPending := false })
    (hcopies : s'.copies = s.copies) (hdone : s'.done = s.done) (howners : s'.owners = s.owners)
    (hmem : ∀ e ∈ events, t.tails.get? e.stream = some e.upto)
    (hbank : ∀ l, t.call.streamOf cfg l =
      .bank t.call.kvGroup (l % cfg.banks t.call.kvGroup))
    (hreplace : ∀ (j : Nat) (cp : Copy), (∃ e ∈ s.eventsOf t.call.req t.call.kvGroup,
      e.covers j cp = true) → ∃ e ∈ events, e.covers j cp = true)
    (hown : ∀ (j : Nat) (cp : Copy), Outstanding s j cp → cp.call = i →
      (∃ e ∈ events, e.covers j cp = true) ∧ cp.page ∈ s.ownersOf t.call.req) : Inv cfg s' := by
  have ha := h.alive i t hi hcur.1
  have ht := h.tails i t hi hcur hd
  have hev : ∀ req g, s'.eventsOf req g =
      if req = t.call.req ∧ g = t.call.kvGroup then events else s.eventsOf req g :=
    fun req g => eventsOf_set hstored
  have hpages : ∀ req, s'.ownersOf req = s.ownersOf req := by
    intro req
    unfold Engine.ownersOf
    rw [howners]
  have hout : ∀ j cp, Outstanding s' j cp → Outstanding s j cp := by
    intro j cp ho
    unfold Outstanding at ho
    rw [hcopies, hdone] at ho
    exact ho
  have hregistered : ∀ c j cp, Registered s c j cp → Registered s' c j cp := by
    rintro c j cp ⟨hcovers, hpage⟩
    refine ⟨?_, by rw [hpages]; exact hpage⟩
    rw [hev]
    split
    · next hkey =>
      rw [hkey.1, hkey.2] at hcovers
      exact hreplace j cp hcovers
    · exact hcovers
  have hframe : ∀ k c, Frame s s' k c := fun k c => .same hcopies hdone (hregistered c)
  refine h.replace hi hstores rfl id (fun k t2 _ _ => hframe k t2.call) ?_ ?_ ?_ ?_ ?_ ?_
  · intro k t2 hk ht2 hcur2
    have hkey : ¬ (t2.call.req = t.call.req ∧ t2.call.kvGroup = t.call.kvGroup) :=
      fun hkey => hk (h.single k i t2 t ht2 hi hcur2 hcur hkey.1 hkey.2)
    rw [hev, if_neg hkey, hpages]
    exact ⟨fun _ he => he, fun _ hp => hp⟩
  · intro req g e he
    rw [hcopies]
    rw [hev] at he
    split at he
    · next hkey =>
      obtain ⟨hupto, l, hl, hstream⟩ := ht.upto _ _ (hmem e he)
      rw [hbank l] at hstream
      rw [hkey.2]
      exact ⟨hupto, l, hl, hstream⟩
    · exact h.events req g e he
  · intro j cp hcp
    rw [hcopies] at hcp
    exact .inl hcp
  · intro _
    obtain ⟨D, hs, -, hstaged, -, -⟩ := ha.dirty
    rw [hops] at hs hstaged
    refine ⟨⟨[], hs.2.2, nofun, staged_tail hstaged fun _ => rfl, fun hne => absurd rfl hne, ?_⟩,
      ?_, ha.pages, ?_⟩
    · intro j cp ho hj
      obtain ⟨hcovers, hpage⟩ := hown j cp (hout j cp ho) hj
      refine .inr ⟨?_, by rw [hpages]; exact hpage⟩
      show ∃ e ∈ s'.eventsOf t.call.req t.call.kvGroup, _
      rw [hev, if_pos ⟨rfl, rfl⟩]
      exact hcovers
    · rw [hcopies]
      exact ha.fits
    · rw [hcopies]
      exact ha.into
  · intro _ _
    refine ⟨ht.alone, fun j cp ho hj => ht.cover j cp (hout j cp ho) hj, ?_, ?_, ?_, ?_⟩
    · rw [hcopies]
      exact ht.upto
    · intro e he n hget
      have he : e ∈ s'.eventsOf t.call.req t.call.kvGroup := he
      rw [hev, if_pos ⟨rfl, rfl⟩] at he
      have hsame := (hmem e he).symm.trans hget
      exact Nat.le_of_eq (Option.some.inj hsame)
    · exact fun l hl => (ht.all l hl).imp id (all_tail hops rfl)
    · show ∀ page ∈ t.call.rows.flatten, page ∈ s'.ownersOf t.call.req
      rw [hpages]
      exact ht.owned
  · exact fun hne => absurd hcur.1 hne

/-- The tails of a store become events of its request. -/
theorem Inv.register (h : Inv cfg s) (hi : s.stores[i]? = some t) (hcur : t.current)
    (hops : t.ops = .register :: rest) :
    Inv cfg ((s.registerEvents t).setStore i { t with ops := rest, transferPending := false }) := by
  have ha := h.alive i t hi hcur.1
  obtain ⟨D, hs, -, -, -, -⟩ := ha.dirty
  rw [hops] at hs
  obtain ⟨hasync, hnone, -⟩ := hs
  have hdma : t.call.dma cfg = true := (Bool.and_eq_true_iff.1 hasync).1
  have hd : t.call.deferred cfg = true := (Bool.and_eq_true_iff.1 hdma).1
  have ht := h.tails i t hi hcur hd
  have hbank : ∀ l, t.call.streamOf cfg l =
      .bank t.call.kvGroup (l % cfg.banks t.call.kvGroup) := by
    intro l
    unfold Call.streamOf
    rw [if_pos hdma]
  have hkeys : ∀ l, l < cfg.layers t.call.kvGroup →
      ∃ n, t.tails.get? (t.call.streamOf cfg l) = some n := by
    intro l hl
    rcases ht.all l hl with hkey | ⟨row, hrow⟩
    · exact Dict.mem_keys.1 hkey
    rw [hops] at hrow
    rcases mem_cons.1 hrow with heq | hrow
    · cases heq
    · have hfalse := hnone _ hrow
      cases hfalse
  -- what the earlier events wait for, the new ones wait for
  have hreplace : ∀ (j : Nat) (cp : Copy), (∃ e ∈ s.eventsOf t.call.req t.call.kvGroup,
      e.covers j cp = true) → ∃ e ∈ (t.tails.entries.map fun e => (⟨e.1, e.2⟩ : Event)),
      e.covers j cp = true := by
    rintro j cp ⟨e, he, hcovers⟩
    obtain ⟨-, l, hl, hstream⟩ := h.events _ _ e he
    obtain ⟨n, hn⟩ := hkeys l hl
    rw [hbank l, ← hstream] at hn
    have hle := ht.newer e he n hn
    obtain ⟨hon, hlt⟩ := Event.covers_iff.1 hcovers
    have hbefore : j < n := by omega
    exact ⟨⟨e.stream, n⟩, mem_tailEvents.2 hn, Event.covers_iff.2 ⟨hon, hbefore⟩⟩
  have hown : ∀ (j : Nat) (cp : Copy), Outstanding s j cp → cp.call = i →
      (∃ e ∈ (t.tails.entries.map fun e => (⟨e.1, e.2⟩ : Event)), e.covers j cp = true) ∧
      cp.page ∈ s.ownersOf t.call.req := by
    intro j cp ho hj
    obtain ⟨n, hget, hlt⟩ := ht.cover j cp ho hj
    exact ⟨⟨⟨cp.stream, n⟩, mem_tailEvents.2 hget, Event.covers_iff.2 ⟨rfl, hlt⟩⟩,
      ht.owned _ (ha.into j cp ho.1 hj)⟩
  by_cases hnil : t.tails.entries = []
  · have hs1 : s.registerEvents t = s := if_pos hnil
    rw [hs1]
    refine h.synced hi hcur.1 hops rfl (fun _ hs => hs.2.2) fun j cp ho hj => ?_
    obtain ⟨⟨e, he, -⟩, -⟩ := hown j cp ho hj
    rw [hnil] at he
    cases he
  · have hs1 : s.registerEvents t = { s with
        storeEvents := s.storeEvents.set t.call.req
          ((s.eventsOfRequest t.call.req).set t.call.kvGroup
            (t.tails.entries.map fun e => ⟨e.1, e.2⟩)) } := if_neg hnil
    rw [hs1]
    exact h.replaceEvents hi hcur hd hops rfl rfl rfl rfl rfl (fun e he => mem_tailEvents.1 he)
      hbank hreplace hown

/-! ## New calls -/

theorem mem_ownersOf_retain {pages : List Nat} {page : Nat} :
    page ∈ (s.retain req pages).ownersOf req' ↔
      page ∈ s.ownersOf req' ∨ req' = req ∧ page ∈ pages := by
  by_cases hreq : req' = req
  · subst hreq
    have hget : (s.retain req' pages).ownersOf req' =
        s.ownersOf req' ++ pages.filter fun page => page ∉ s.ownersOf req' := by
      show ((s.owners.set req' _).get? req').getD [] = _
      rw [get?_set_self]
      rfl
    rw [hget, mem_append, mem_filter]
    by_cases hmem : page ∈ s.ownersOf req'
    · simp only [hmem, true_or]
    · simp only [hmem, false_or, not_false_eq_true, decide_true, and_true, true_and]
  · have hget : (s.retain req pages).ownersOf req' = s.ownersOf req' := by
      show ((s.owners.set req _).get? req').getD [] = _
      rw [get?_set_ne hreq]
      rfl
    rw [hget]
    simp only [hreq, false_and, or_false]

/-- The record of a new call. -/
def fresh (cfg : Config) (c : Call) : Store :=
  ⟨c, c.ops cfg, c.rows.flatten, false, false, c.staged cfg, Dict.empty, false, none⟩

/-- A new call appends its record, and may take references for its request. -/
structure Begun (cfg : Config) (s s' : Engine) (c : Call) : Prop where
  stores : s'.stores = s.stores ++ [fresh cfg c]
  copies : s'.copies = s.copies
  done : s'.done = s.done
  events : s'.storeEvents = s.storeEvents
  owners : ∀ req page, page ∈ s.ownersOf req → page ∈ s'.ownersOf req
  owned : cfg.prefill = true → ∀ page ∈ c.rows.flatten, page ∈ s'.ownersOf c.req

theorem begin_begun : Begun cfg s (s.begin cfg c) c := by
  unfold Engine.begin
  split
  · exact ⟨rfl, rfl, rfl, rfl, fun _ _ hpage => mem_ownersOf_retain.2 (.inl hpage),
      fun _ _ hpage => mem_ownersOf_retain.2 (.inr ⟨rfl, hpage⟩)⟩
  · next hp =>
    exact ⟨rfl, rfl, rfl, rfl, fun _ _ hpage => hpage, fun hp' => absurd hp' hp⟩

/-- A call begins with pages of its own and nothing launched. -/
theorem Inv.begun (h : Inv cfg s) (hb : Begun cfg s s' c) (hmay : s.mayBegin cfg c) :
    Inv cfg s' := by
  obtain ⟨hlen, hgroup, -, hdisjoint, hsingle⟩ := hmay
  have hev : ∀ req g, s'.eventsOf req g = s.eventsOf req g := by
    intro req g
    unfold Engine.eventsOf Engine.eventsOfRequest
    rw [hb.events]
  have hframe : ∀ k c2, Frame s s' k c2 := by
    refine fun k c2 => .same hb.copies hb.done ?_
    rintro j cp ⟨hcovers, hpage⟩
    refine ⟨?_, hb.owners _ _ hpage⟩
    rw [hev]
    exact hcovers
  -- an old record, or the new one
  have hcase : ∀ (k : Nat) (t2 : Store), s'.stores[k]? = some t2 →
      s.stores[k]? = some t2 ∨ k = s.stores.length ∧ t2 = fresh cfg c := by
    intro k t2 hk
    rw [hb.stores] at hk
    exact getElem?_snoc.1 hk
  have hnone : ∀ (j : Nat) (cp : Copy), s'.copies[j]? = some cp → cp.call ≠ s.stores.length := by
    intro j cp hcp
    rw [hb.copies] at hcp
    exact Nat.ne_of_lt (h.calls j cp hcp)
  refine ⟨?_, ?_, ?_, ?_, ?_, ?_⟩
  · intro req g e he
    rw [hev] at he
    rw [hb.copies]
    exact h.events req g e he
  · intro j cp hcp
    rw [hb.copies] at hcp
    have hlt := h.calls j cp hcp
    rw [hb.stores, length_append]
    omega
  · intro k t2 hk hexit
    rcases hcase k t2 hk with hold | ⟨rfl, rfl⟩
    · exact (h.alive k t2 hold hexit).frame (hframe k t2.call)
    refine ⟨⟨[], safe_ops hlen hgroup hdisjoint, nofun, .inl rfl, fun hne => absurd rfl hne,
      ?_⟩, ?_, fun _ hpage => hpage, ?_⟩
    · exact fun j cp ho hj => absurd hj (hnone j cp ho.1)
    · exact fun j cp hcp hj => absurd hj (hnone j cp hcp)
    · exact fun j cp hcp hj => absurd hj (hnone j cp hcp)
  · intro k t2 hk hcur hd
    rcases hcase k t2 hk with hold | ⟨rfl, rfl⟩
    · refine (h.tails k t2 hold hcur hd).frame (hframe k t2.call) ?_ (hb.owners _)
      rw [hev]
      exact fun _ he => he
    · have hprefill : cfg.prefill = true := (Bool.and_eq_true_iff.1 hd).1
      have halone : c.group = false := by
        rw [← Bool.not_eq_true]
        exact fun hg => hgroup ⟨hg, hd⟩
      refine ⟨halone, fun j cp ho hj => absurd hj (hnone j cp ho.1), nofun, nofun, ?_,
        hb.owned hprefill⟩
      exact fun l hl => .inr (launches_all hlen hgroup hd hl)
  · intro k t2 hk hexit
    rcases hcase k t2 hk with hold | ⟨rfl, rfl⟩
    · exact (h.ended k t2 hold hexit).frame (hframe k t2.call)
    · exact absurd rfl hexit
  · intro a b ta tb ha hb' hca hcb hreq hg
    rcases hcase a ta ha with holda | ⟨rfl, rfl⟩
    · rcases hcase b tb hb' with holdb | ⟨rfl, rfl⟩
      · exact h.single a b ta tb holda holdb hca hcb hreq hg
      · exact absurd ⟨hreq, hg⟩ (hsingle ta (mem_of_getElem? holda) hca.1 hca.2)
    · rcases hcase b tb hb' with holdb | ⟨rfl, rfl⟩
      · exact absurd ⟨hreq.symm, hg.symm⟩
          (hsingle tb (mem_of_getElem? holdb) hcb.1 hcb.2)
      · rfl

/-! ## Requests -/

theorem eventsOf_pop {g : Nat} (hs : s'.storeEvents = s.storeEvents.pop req) :
    s'.eventsOf req' g = if req' = req then [] else s.eventsOf req' g := by
  unfold Engine.eventsOf Engine.eventsOfRequest
  rw [hs, get?_pop]
  split <;> rfl

theorem waited {c : Call} (ho : Outstanding (s.waitStores req) j cp) (hreq : c.req = req)
    (he : ∃ e ∈ s.eventsOf c.req c.kvGroup, e.covers j cp = true) : False := by
  obtain ⟨e, he, hcovers⟩ := he
  have ho : Outstanding (s.wait fun j c => (s.eventsOfRequest req).entries.any fun e =>
      e.2.any (Event.covers · j c)) j cp := ho
  obtain ⟨-, hwaits⟩ := wait_outstanding ho
  unfold Engine.eventsOf at he
  rw [hreq] at he
  cases hget : (s.eventsOfRequest req).get? c.kvGroup with
  | none =>
    rw [hget] at he
    cases he
  | some events =>
    rw [hget] at he
    have hany : ((s.eventsOfRequest req).entries.any fun e =>
        e.2.any (Event.covers · j cp)) = true :=
      any_eq_true.2 ⟨(c.kvGroup, events), mem_entries.2 hget,
        any_eq_true.2 ⟨e, he, hcovers⟩⟩
    rw [hany] at hwaits
    cases hwaits

theorem Frame.waitStores : Frame s (s.waitStores req) k c where
  copies _ _ h _ := h
  done _ h := (Bool.or_eq_false_iff.1 h).1
  length := Nat.le_refl _
  registered j cp ho _ := by
    rintro ⟨hcovers, hpage⟩
    by_cases hreq : c.req = req
    · exact (waited ho hreq hcovers).elim
    refine ⟨?_, hpage⟩
    rw [eventsOf_pop rfl, if_neg hreq]
    exact hcovers

theorem Inv.waitStores (h : Inv cfg s) (req : String) : Inv cfg (s.waitStores req) := by
  refine h.framed rfl rfl rfl (fun _ _ => Frame.waitStores) fun req' g e he => ?_
  rw [eventsOf_pop rfl] at he
  split at he
  · cases he
  · exact he

theorem ownersOf_pop (hs : s'.owners = s.owners.pop req) (hreq : req' ≠ req) :
    s'.ownersOf req' = s.ownersOf req' := by
  unfold Engine.ownersOf
  rw [hs, get?_pop, if_neg hreq]

theorem Frame.release : Frame (s.waitStores req) (s.release req) k c where
  copies _ _ h _ := h
  done _ h := h
  length := Nat.le_refl _
  registered j cp _ _ := by
    rintro ⟨⟨e, he, hcovers⟩, hpage⟩
    refine ⟨⟨e, he, hcovers⟩, ?_⟩
    rw [eventsOf_pop rfl] at he
    by_cases hreq : c.req = req
    · rw [if_pos hreq] at he
      cases he
    · have hown : (s.release req).ownersOf c.req = s.ownersOf c.req := ownersOf_pop rfl hreq
      rw [hown]
      exact hpage

theorem getElem?_release (h : (s.release req).stores[k]? = some t') :
    ∃ t, s.stores[k]? = some t ∧
      (t.call.req = req ∧ t' = { t with abandoned := true } ∨ t.call.req ≠ req ∧ t' = t) := by
  have h : (s.stores.map fun t =>
      if t.call.req = req then { t with abandoned := true } else t)[k]? = some t' := h
  rw [getElem?_map] at h
  obtain ⟨t, ht, heq⟩ := Option.map_eq_some_iff.1 h
  refine ⟨t, ht, ?_⟩
  split at heq
  · next hreq =>
    exact .inl ⟨hreq, heq.symm⟩
  · next hreq =>
    exact .inr ⟨hreq, heq.symm⟩

theorem Inv.release (h : Inv cfg s) (req : String) : Inv cfg (s.release req) := by
  have h1 := h.waitStores req
  have hev : ∀ req' g, (s.release req).eventsOf req' g = (s.waitStores req).eventsOf req' g :=
    fun _ _ => rfl
  refine ⟨h1.events, ?_, ?_, ?_, ?_, ?_⟩
  · intro j cp hcp
    have hlt := h1.calls j cp hcp
    have hlen : (s.release req).stores.length = s.stores.length := length_map _
    rw [hlen]
    exact hlt
  · intro k t' hk hexit
    obtain ⟨t, ht, ⟨-, rfl⟩ | ⟨-, rfl⟩⟩ := getElem?_release hk
    · have ha := (h1.alive k t ht hexit).frame (Frame.release : Frame _ _ k t.call)
      exact ⟨ha.dirty, ha.fits, ha.pages, ha.into⟩
    · exact (h1.alive k t' ht hexit).frame Frame.release
  · intro k t' hk hcur hd
    obtain ⟨t, ht, ⟨-, rfl⟩ | ⟨hreq, rfl⟩⟩ := getElem?_release hk
    · cases hcur.2
    refine (h1.tails k t' ht hcur hd).frame Frame.release (fun _ he => he) ?_
    have hown : (s.release req).ownersOf t'.call.req =
        (s.waitStores req).ownersOf t'.call.req := ownersOf_pop rfl hreq
    rw [hown]
    exact fun _ hp => hp
  · intro k t' hk hexit
    obtain ⟨t, ht, ⟨-, rfl⟩ | ⟨-, rfl⟩⟩ := getElem?_release hk
    · exact (h1.ended k t ht hexit).frame (Frame.release : Frame _ _ k t.call)
    · exact (h1.ended k t' ht hexit).frame Frame.release
  · intro a b ta tb ha hb hca hcb hreq hg
    obtain ⟨ta', hta, ⟨-, rfl⟩ | ⟨-, rfl⟩⟩ := getElem?_release ha
    · cases hca.2
    obtain ⟨tb', htb, ⟨-, rfl⟩ | ⟨-, rfl⟩⟩ := getElem?_release hb
    · cases hcb.2
    · exact h1.single a b ta tb hta htb hca hcb hreq hg

theorem Inv.complete (h : Inv cfg s) (j : Nat) :
    Inv cfg { s with done := update s.done j true } := by
  have hframe : ∀ k c, Frame s { s with done := update s.done j true } k c := by
    intro k c
    refine ⟨fun _ _ hcp _ => hcp, fun m hm => ?_, Nat.le_refl _, fun _ _ _ _ hreg => hreg⟩
    have hm : update s.done j true m = false := hm
    rw [update_apply] at hm
    split at hm
    · cases hm
    · exact hm
  exact h.framed rfl rfl rfl hframe fun _ _ => Subset.refl _

/-! ## Runs -/

theorem running_some (h : s.running i = some t) : s.stores[i]? = some t ∧ t.exit = none := by
  unfold Engine.running at h
  cases hget : s.stores[i]? with
  | none =>
    rw [hget] at h
    cases h
  | some t2 =>
    rw [hget] at h
    by_cases hexit : t2.exit = none
    · simp only [if_pos hexit, Option.some.injEq] at h
      subst h
      exact ⟨rfl, hexit⟩
    · simp only [if_neg hexit, reduceCtorEq] at h

theorem Inv.exec (h : Inv cfg s) (hi : s.stores[i]? = some t) (hcur : t.current)
    (hops : t.ops = op :: rest) : Inv cfg (s.exec cfg i t rest op) := by
  have hexit := hcur.1
  cases op with
  | pause | check | prepare => exact h.skip hi hexit hops rfl fun _ _ _ hs => hs
  | generate => exact h.generate hi hexit hops
  | copy row stream => exact h.launch hi hexit hops fun _ hpage => hpage
  | sync => exact h.sync hi hexit hops
  | drain => exact h.drain hi hcur hops
  | register => exact h.register hi hcur hops
  | free => exact h.free hi hexit hops
  | put pages => exact h.put hi hexit hops

theorem Inv.returned (h : Inv cfg s) (hi : s.stores[i]? = some t) (hexit : t.exit = none)
    (hops : t.ops = []) : Inv cfg (s.drop i t .returned) := by
  obtain ⟨D, hs, -, -, -, hout⟩ := (h.alive i t hi hexit).dirty
  rw [hops] at hs
  have hnil : D = [] := hs
  refine h.leave hi rfl nofun fun j cp ho hj => ?_
  rcases hout j cp ho hj with ⟨hpage, -⟩ | hreg
  · rw [hnil] at hpage
    cases hpage
  · exact .inr (.inl hreg)

theorem Inv.step {a : Action} (h : Inv cfg s) (hs : Engine.step cfg s a = some s') :
    Inv cfg s' := by
  cases a with
  | begin c =>
    rw [Engine.step] at hs
    split at hs
    · next hmay =>
      cases hs
      exact h.begun begin_begun hmay
    · cases hs
  | run i =>
    rw [Engine.step] at hs
    split at hs
    · next t hrun =>
      obtain ⟨hi, hexit⟩ := running_some hrun
      split at hs
      · cases hs
      next habandoned =>
      have hcur : t.current := ⟨hexit, by rw [← Bool.not_eq_true]; exact habandoned⟩
      split at hs
      · next op rest hops =>
        cases hs
        exact h.exec hi hcur hops
      · next hops =>
        cases hs
        exact h.returned hi hexit hops
    · cases hs
  | fails i n fence =>
    rw [Engine.step] at hs
    split at hs
    · next t hrun =>
      obtain ⟨hi, hexit⟩ := running_some hrun
      split at hs
      · next op rest hops =>
        cases hs
        exact h.fail hi hexit hops n fence
      · cases hs
    · cases hs
  | close i fence =>
    rw [Engine.step] at hs
    split at hs
    · next t hrun =>
      obtain ⟨hi, hexit⟩ := running_some hrun
      split at hs
      · cases hs
        exact h.cleanUp hi rfl (h.alive i t hi hexit).ending false fence
      · cases hs
    · cases hs
  | waitStores req =>
    cases hs
    exact h.waitStores req
  | release req =>
    cases hs
    exact h.release req
  | complete j =>
    cases hs
    exact h.complete j

/-- In every run a page is let go when no copy runs into it, apart from the calls that leave copies
behind. -/
theorem destinations_drained (h : (stores cfg).Reachable s) : s.Drained cfg := by
  have hinv : (stores cfg).Inductive (Inv cfg) := by
    constructor
    · rintro s rfl
      exact Inv.init
    · intro s a s' hI hs
      exact hI.step hs
  exact (hinv.reachable h).drained

/-- An asynchronous store of two layers, published with its copies in the queue, and the release of
its request. -/
theorem destinations_drained_async : ∃ s : Engine, s.copies.length = 2 ∧ ¬ s.Held 7 ∧
    s.Drained ⟨true, fun _ => 2, fun _ => 2⟩ := by
  have hrun : ∃ s, (stores ⟨true, fun _ => 2, fun _ => 2⟩).run Engine.init
      (.begin ⟨"r", 0, [[7], [7]], [7], false, true, true, true, false, true⟩ ::
        (replicate 22 (.run 0) ++ [.release "r"])) = some s ∧
      s.copies.length = 2 ∧ ¬ s.Held 7 :=
    ⟨_, rfl, rfl, by decide⟩
  obtain ⟨s, hs, hcopies, hheld⟩ := hrun
  exact ⟨s, hcopies, hheld, destinations_drained (Machine.reachable_of_run rfl hs)⟩

/-- An ordinary store without a staging buffer is closed when its first layer was launched: the page
is let go, and the copy runs into it. -/
theorem recycled_under_copy : ¬ ∀ (cfg : Config) (s : Engine),
    (stores cfg).Reachable s → s.NeverRecycled := by
  intro h
  have hrun : ∃ s, (stores ⟨false, fun _ => 2, fun _ => 2⟩).run Engine.init
      [.begin ⟨"r", 0, [[7], [8]], [], false, false, false, false, false, false⟩, .run 0, .run 0,
        .run 0, .run 0, .close 0 .returns] = some s ∧
      s.copies[0]? = some ⟨7, .store, 0⟩ ∧ s.done 0 = false ∧ ¬ s.Held 7 :=
    ⟨_, rfl, rfl, rfl, by decide⟩
  obtain ⟨s, hs, hcopy, hdone, hheld⟩ := hrun
  exact hheld (h _ s (Machine.reachable_of_run rfl hs) 0 _ hcopy hdone)

end StoreDestinations
