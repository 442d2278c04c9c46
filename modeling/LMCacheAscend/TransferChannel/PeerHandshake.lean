import LMCacheAscend.Lib.Ledger
import LMCacheAscend.TransferChannel.PeerSetup

/-!
# No half-open peers, and no communicator lost

The invariant `Inv` is kept by every step that meets `Safe`.  A task has
communicators in hand only in the operation it is at, or behind the
`set_device` in front of it (`Tidy`), so that one that raises loses none; each
communicator has one owner all the time.
-/

namespace PeerSetup

open Lib List Option Dict

variable {s s' : Channel} {i : Nat} {t : Task} {op : Op} {ops rest : List Op}

/-! ## Communicators in hand -/

/-- No communicator is in hand. -/
def Plain (ops : List Op) : Prop := ∀ op ∈ ops, op.comm = none

def Tidy : List Op → Prop
  | .setDevice :: rest => Plain rest.tail
  | _ :: rest => Plain rest
  | [] => True

theorem Plain.tail (h : Plain ops) : Plain ops.tail := fun op hop => h op (mem_of_mem_tail hop)

theorem Plain.cons (h : Plain rest) (hop : op.comm = none) : Plain (op :: rest) := by
  intro x hx
  rcases mem_cons.1 hx with rfl | hx
  · exact hop
  · exact h x hx

theorem Tidy.of_plain (h : Plain rest) : Tidy (op :: rest) := by
  cases op with
  | setDevice => exact h.tail
  | _ => exact h

theorem Plain.tidy (h : Plain ops) : Tidy ops := by
  cases ops with
  | nil => trivial
  | cons op rest => exact Tidy.of_plain fun x hx => h x (mem_cons_of_mem op hx)

theorem Tidy.plain (h : Tidy (op :: rest)) (hop : op ≠ .setDevice) : Plain rest := by
  cases op with
  | setDevice => exact absurd rfl hop
  | _ => exact h

theorem Tidy.behind (h : Tidy (op :: rest)) : Tidy rest := by
  by_cases hop : op = .setDevice
  · subst hop
    cases rest with
    | nil => trivial
    | cons x rest => exact Tidy.of_plain h
  · exact (h.plain hop).tidy

def holds (ops : List Op) (c : Nat) : Nat := ops.countP fun op => op.comm = some c

theorem Plain.holds (h : Plain ops) (c : Nat) : holds ops c = 0 := by
  apply countP_eq_zero.2
  intro op hop
  simp [h op hop]

theorem holds_cons (op : Op) (rest : List Op) (c : Nat) :
    holds (op :: rest) c = holds rest c + if op.comm = some c then 1 else 0 := by
  unfold holds
  rw [countP_cons]
  simp

variable (cfg : Config) {hs : Nat}

theorem handshake_plain (form : Form) (side : Bool) : Plain (handshake cfg form side) := by
  intro op hop
  unfold handshake at hop
  rcases mem_append.1 hop with hop | hop
  · cases hkind : cfg.kind with
    | oneSided =>
      rw [hkind] at hop
      cases form <;> simp at hop <;> rcases hop with rfl | rfl | rfl | rfl | rfl <;> rfl
    | _ =>
      rw [hkind] at hop
      simp at hop
      rcases hop with rfl | rfl | rfl | rfl | rfl | rfl <;> rfl
  · cases side with
    | true =>
      rw [mem_singleton.1 hop]
      rfl
    | false => exact absurd hop (by simp)

theorem exchangeHandler_plain : Plain (exchangeHandler cfg) := by
  intro op hop
  unfold exchangeHandler at hop
  cases hkind : cfg.kind <;> rw [hkind] at hop <;> simp at hop
  · rcases hop with rfl | rfl | rfl <;> rfl
  · rw [hop]
    rfl

theorem setupThread_tidy (stale : Option Nat) : Tidy (setupThread cfg stale) := by
  unfold setupThread
  have hplain : Plain [.connect, .storeConn] := by
    intro op hop
    simp at hop
    rcases hop with rfl | rfl <;> rfl
  have hinit : Plain [.initComm cfg.initRetries] := by
    intro op hop
    rw [mem_singleton.1 hop]
    rfl
  cases cfg.kind with
  | oneSided =>
    cases stale with
    | none => exact hinit.tail
    | some c => exact hinit
  | _ => exact hplain.tail

theorem holds_setupThread (stale : Option Nat) (c : Nat) (hkind : cfg.kind = .oneSided) :
    holds (setupThread cfg stale) c = if stale = some c then 1 else 0 := by
  unfold setupThread
  rw [hkind]
  cases stale with
  | none => rfl
  | some d => simp [holds, Op.comm, countP_cons]

/-! ## The invariant -/

structure Inv (s : Channel) : Prop where
  tidy : ∀ t ∈ s.tasks, Tidy t.ops
  fresh : ∀ t ∈ s.tasks, t.role = .client → t.fresh = true → t.status = .connecting → t.ops ≠ [] →
    s.remoteXferHandlerExists t.peer = false
  failed : s.cfg.kind = .oneSided → ∀ p ∈ s.failed, s.peers.get? p = none
  raised : ∀ e ∈ s.raised, e.2 = false
  whole : s.cfg.kind ≠ .oneSided → ∀ p hs, s.connHandles.get? p = some hs →
    s.Exchanged p hs ∨ s.UnderWay p hs
  peers : ∀ p st, s.peers.get? p = some st → st.commOf = st.buffersOf
  owners : ∀ c, s.owners c = if c < s.comms then 1 else 0

theorem Inv.init (cfg : Config) : Inv (Channel.init cfg) where
  tidy _ ht := nomatch ht
  fresh _ ht := nomatch ht
  failed _ _ hp := nomatch hp
  raised _ he := nomatch he
  whole _ _ _ hp := nomatch hp
  peers _ _ hp := nomatch hp
  owners c := by simp [Channel.init, Channel.owners]

/-! ## Replacing a task -/

variable {t' : Task} {p : String} {n : Nat} {q localId : String}

theorem mem_setTask {x : Task} (h : x ∈ (s.setTask i t').tasks) : x = t' ∨ x ∈ s.tasks := by
  rcases mem_or_eq_of_mem_set h with h | h
  · exact .inr h
  · exact .inl h

theorem Channel.UnderWay.setTask (hi : s.tasks[i]? = some t)
    (hkeep : t.role = .client → t.peer = p → t.hs = hs → t.status.over = false → t'.role = .client ∧
      t'.peer = p ∧ t'.hs = hs ∧ t'.status.over = false)
    (h : s.UnderWay p hs) : (s.setTask i t').UnderWay p hs := by
  rcases h with ⟨x, hx, hrole, hpeer, hhs, hover⟩ | h
  · left
    rcases mem_set_or hi hx t' with rfl | hx
    · exact ⟨t', mem_set (lt_of_getElem? hi) t', hkeep hrole hpeer hhs hover⟩
    · exact ⟨x, hx, hrole, hpeer, hhs, hover⟩
  · exact .inr h

theorem Channel.UnderWay.advance (hi : s.tasks[i]? = some t) (h : s.UnderWay p hs) :
    (s.advance i t ops).UnderWay p hs :=
  h.setTask hi fun hrole hpeer hhs hover => ⟨hrole, hpeer, hhs, hover⟩

theorem owners_setTask (t' : Task) (hi : s.tasks[i]? = some t) (c : Nat) :
    (s.setTask i t').owners c + holds t.ops c = s.owners c + holds t'.ops c := by
  have hsum := sum_set (fun t => t.holds c) hi t'
  have hold : t.holds c = holds t.ops c := rfl
  have hnew : t'.holds c = holds t'.ops c := rfl
  show (List.map (fun t => t.holds c) (s.tasks.set i t')).sum +
      s.peers.weigh (fun e => if e.2.comm = c then 1 else 0) + s.destroyed.count c +
      holds t.ops c = (s.tasks.map fun t => t.holds c).sum +
      s.peers.weigh (fun e => if e.2.comm = c then 1 else 0) + s.destroyed.count c + holds t'.ops c
  omega

theorem Inv.tidy_setTask (h : Inv s) (ht : Tidy t'.ops) :
    ∀ x ∈ (s.setTask i t').tasks, Tidy x.ops := by
  intro x hx
  rcases mem_setTask hx with rfl | hx
  · exact ht
  · exact h.tidy x hx

section

variable (h : Inv s) (hi : s.tasks[i]? = some t) (hne : t.ops ≠ [])
include h hi hne

theorem Inv.fresh_advance :
    ∀ x ∈ (s.advance i t ops).tasks, x.role = .client → x.fresh = true → x.status = .connecting →
      x.ops ≠ [] → s.remoteXferHandlerExists x.peer = false := by
  intro x hx hrole hfresh hstatus hops
  rcases mem_setTask hx with rfl | hx
  · exact h.fresh t (mem_of_getElem? hi) hrole hfresh hstatus hne
  · exact h.fresh x hx hrole hfresh hstatus hops

/-- A task goes on; who has the communicators is to be shown. -/
theorem Inv.turn (htidy : Tidy ops) {destroyed : List Nat}
    (howners : ∀ c, Channel.owners { s.advance i t ops with comms := n, destroyed := destroyed } c =
      if c < n then 1 else 0) :
    Inv { s.advance i t ops with comms := n, destroyed := destroyed } where
  tidy := h.tidy_setTask htidy
  fresh := h.fresh_advance hi hne
  failed := h.failed
  raised := h.raised
  whole hkind p hs hp := (h.whole hkind p hs hp).imp_right fun hp => hp.advance hi
  peers := h.peers
  owners := howners

theorem Inv.advance (htidy : Tidy ops) (hholds : ∀ c, holds ops c = holds t.ops c) :
    Inv (s.advance i t ops) := by
  refine h.turn hi hne htidy fun c => ?_
  have howners := owners_setTask { t with ops := ops } hi c
  rw [hholds c, Nat.add_right_cancel_iff] at howners
  exact howners.trans (h.owners c)

/-! ## Communicators that change hands -/

theorem Inv.destroy (htidy : Tidy ops) {c : Nat}
    (hholds : ∀ d, holds t.ops d = holds ops d + if c = d then 1 else 0) :
    Inv { s.advance i t ops with destroyed := s.destroyed ++ [c] } := by
  refine h.turn hi hne htidy fun d => ?_
  have howners := owners_setTask { t with ops := ops } hi d
  have hd := hholds d
  have hs := h.owners d
  have hcount : (s.destroyed ++ [c]).count d = s.destroyed.count d + if c = d then 1 else 0 := by
    rw [count_append, count_singleton]
    simp
  show _ = if d < s.comms then 1 else 0
  unfold Channel.owners at howners hs ⊢
  simp only [Channel.advance, Channel.setTask] at howners ⊢
  omega

theorem Inv.create (htidy : Tidy ops)
    (hholds : ∀ d, holds ops d = holds t.ops d + if s.comms = d then 1 else 0) :
    Inv { s.advance i t ops with comms := s.comms + 1 } := by
  refine h.turn hi hne htidy fun d => ?_
  have howners := owners_setTask { t with ops := ops } hi d
  have hd := hholds d
  have hs := h.owners d
  show (s.setTask i { t with ops := ops }).owners d = _
  simp only at howners
  by_cases hdc : s.comms = d
  · subst hdc
    rw [if_pos rfl] at hd
    rw [if_neg (Nat.lt_irrefl _)] at hs
    rw [if_pos (Nat.lt_succ_self _)]
    omega
  · have hiff : d < s.comms + 1 ↔ d < s.comms := by omega
    rw [if_neg hdc] at hd
    rw [if_congr hiff rfl rfl]
    omega

end

theorem weigh_pop_comm (d : Dict String PeerState) (p : String) (c : Nat) :
    (d.pop p).weigh (fun e => if e.2.comm = c then 1 else 0) +
      (if (d.get? p).map PeerState.comm = some c then 1 else 0) =
    d.weigh fun e => if e.2.comm = c then 1 else 0 := by
  cases hp : d.get? p with
  | none =>
    have hpop : (d.pop p).entries = d.entries := by
      apply filter_eq_self.2
      intro e he
      have hne : e.1 ≠ p := by
        rintro rfl
        have hget := mem_entries.1 (show (e.1, e.2) ∈ d.entries from he)
        rw [hp] at hget
        cases hget
      simpa using hne
    unfold Dict.weigh
    rw [hpop]
    rfl
  | some st =>
    rw [← weigh_pop (f := fun e => if e.2.comm = c then 1 else 0) hp]
    simp

theorem exists_onward (h : s.remoteXferHandlerExists q = false) (hcfg : s'.cfg = s.cfg)
    (hpeers : s.peers.get? q = none → s'.peers.get? q = none)
    (hconn : s.connHandles.get? q = none → s'.connHandles.get? q = none) :
    s'.remoteXferHandlerExists q = false := by
  unfold Channel.remoteXferHandlerExists at h ⊢
  rw [hcfg]
  split at h <;> rw [isSome_eq_false_iff, isNone_iff_eq_none] at h ⊢
  · exact hpeers h
  · exact hconn h

theorem exists_pop (h : s.remoteXferHandlerExists q = false) :
    ({ s with peers := s.peers.pop p } : Channel).remoteXferHandlerExists q = false := by
  refine exists_onward h rfl (fun hnone => ?_) id
  rw [get?_pop, hnone, ite_self]

theorem Inv.peers_pop (h : Inv s) {st : PeerState} (hp : (s.peers.pop q).get? p = some st) :
    st.commOf = st.buffersOf := by
  rw [get?_pop] at hp
  split at hp
  · cases hp
  · exact h.peers p st hp

/-- A client or a handler takes the entry of the peer, and has its communicator in hand. -/
theorem Inv.pop (h : Inv s) (hi : s.tasks[i]? = some t) (hne : t.ops ≠ []) (htidy : Tidy ops)
    (hholds : ∀ c, holds ops c = holds t.ops c +
      if (s.peers.get? t.peer).map PeerState.comm = some c then 1 else 0) :
    Inv { s.advance i t ops with peers := s.peers.pop t.peer } where
  tidy := h.tidy_setTask htidy
  fresh x hx hrole hfresh hstatus hops :=
    exists_pop (h.fresh_advance hi hne x hx hrole hfresh hstatus hops)
  failed hkind p hp := by
    show (s.peers.pop t.peer).get? p = none
    rw [get?_pop, h.failed hkind p hp, ite_self]
  raised := h.raised
  whole hkind p hs hp := (h.whole hkind p hs hp).imp_right fun hp => hp.advance hi
  peers p st hp := h.peers_pop hp
  owners c := by
    have howners := owners_setTask { t with ops := ops } hi c
    have hc := hholds c
    have hs := h.owners c
    have hpop := weigh_pop_comm s.peers t.peer c
    show _ = if c < s.comms then 1 else 0
    unfold Channel.owners at howners hs ⊢
    simp only [Channel.advance, Channel.setTask] at howners ⊢
    omega

/-! ## Entries -/

theorem Inv.others (h : Inv s) (hi : s.tasks[i]? = some t) (halone : s.Alone i t.peer) {x : Task}
    (hover : t'.status ≠ .connecting) (hx : x ∈ (s.setTask i t').tasks) (hrole : x.role = .client)
    (hfresh : x.fresh = true) (hstatus : x.status = .connecting) (hops : x.ops ≠ []) :
    x.peer ≠ t.peer ∧ s.remoteXferHandlerExists x.peer = false := by
  obtain ⟨j, hj⟩ := getElem?_of_mem hx
  have hlt : i < s.tasks.length := lt_of_getElem? hi
  by_cases hij : j = i
  · subst hij
    have hself : (s.tasks.set j t')[j]? = some t' := getElem?_set_self hlt
    obtain rfl : t' = x := some.inj (hself.symm.trans hj)
    exact absurd hstatus hover
  · have hget : s.tasks[j]? = some x := by
      rw [← hj]
      exact (getElem?_set_ne (Ne.symm hij)).symm
    refine ⟨fun hpeer => hops (halone j x hget hij hrole hpeer), ?_⟩
    exact h.fresh x (mem_of_getElem? hget) hrole hfresh hstatus hops

theorem Inv.tidy_behind (h : Inv s) (hi : s.tasks[i]? = some t) (hops : t.ops = op :: rest) :
    Tidy rest := by
  have htidy := h.tidy t (mem_of_getElem? hi)
  rw [hops] at htidy
  exact htidy.behind

theorem exists_set (hqp : q ≠ p) (h : s.remoteXferHandlerExists q = false) :
    ({ s with connHandles := s.connHandles.set p n } : Channel).remoteXferHandlerExists q =
      false :=
  exists_onward h rfl id fun hnone => (get?_set_ne hqp).trans hnone

theorem exists_setPeer {st : PeerState} (hqp : q ≠ p) (h : s.remoteXferHandlerExists q = false) :
    ({ s with peers := s.peers.set p st } : Channel).remoteXferHandlerExists q = false :=
  exists_onward h rfl (fun hnone => (get?_set_ne hqp).trans hnone) id

theorem Inv.storeConn (h : Inv s) (hi : s.tasks[i]? = some t) (hops : t.ops = .storeConn :: rest)
    (hsafe : s.StoresWell i t .storeConn) :
    Inv { s.setTask i { t with ops := rest, status := .connected } with
      connHandles := s.connHandles.set t.peer t.hs } where
  tidy := h.tidy_setTask (h.tidy_behind hi hops)
  fresh x hx hrole hfresh hstatus hne := by
    obtain ⟨hne, hx⟩ := h.others hi hsafe.1 (by simp) hx hrole hfresh hstatus hne
    exact exists_set hne hx
  failed := h.failed
  raised := h.raised
  whole hkind p hs hp := by
    have hp : (s.connHandles.set t.peer t.hs).get? p = some hs := hp
    rw [get?_set] at hp
    split at hp
    · next hpt =>
      cases hp
      right
      by_cases hrole : t.role = .client
      · left
        have hlt : i < s.tasks.length := lt_of_getElem? hi
        refine ⟨_, mem_of_getElem? (getElem?_set_self hlt), hrole, hpt.symm, rfl, rfl⟩
      · right
        rw [hpt]
        exact hsafe.2 hrole
    · next hpt =>
      rcases h.whole hkind p hs hp with hp | hp
      · exact .inl hp
      · exact .inr (hp.setTask hi fun _ hpeer => absurd hpeer.symm hpt)
  peers := h.peers
  owners c := by
    have howners := owners_setTask { t with ops := rest, status := .connected } hi c
    rw [hops, holds_cons] at howners
    exact (Nat.add_right_cancel howners).trans (h.owners c)

theorem Inv.storePeer (h : Inv s) (hi : s.tasks[i]? = some t) {c : Nat}
    (hops : t.ops = .storePeer c :: rest) (hsafe : s.StoresWell i t (.storePeer c)) :
    Inv { s.setTask i { t with ops := rest, status := .connected } with
      peers := s.peers.set t.peer ⟨c, t.hs, t.hs⟩ } where
  tidy := h.tidy_setTask (h.tidy_behind hi hops)
  fresh x hx hrole hfresh hstatus hne := by
    obtain ⟨hne, hx⟩ := h.others hi hsafe.1 (by simp) hx hrole hfresh hstatus hne
    exact exists_setPeer hne hx
  failed hkind p hp := by
    show (s.peers.set t.peer _).get? p = none
    have hne : p ≠ t.peer := by
      rintro rfl
      exact hsafe.2.2 hp
    rw [get?_set_ne hne]
    exact h.failed hkind p hp
  raised := h.raised
  whole hkind p hs hp := (h.whole hkind p hs hp).imp_right fun hp =>
    hp.setTask hi fun hrole hpeer hhs _ => ⟨hrole, hpeer, hhs, rfl⟩
  peers p st hp := by
    have hp : (s.peers.set t.peer ⟨c, t.hs, t.hs⟩).get? p = some st := hp
    rw [get?_set] at hp
    split at hp
    · cases hp
      rfl
    · exact h.peers p st hp
  owners d := by
    have howners := owners_setTask { t with ops := rest, status := .connected } hi d
    rw [hops, holds_cons] at howners
    have hs : s.owners d = if d < s.comms then 1 else 0 := h.owners d
    have hset := weigh_append (fun e : String × PeerState => if e.2.comm = d then 1 else 0)
      s.peers (⟨c, t.hs, t.hs⟩ : PeerState) (get?_eq_none.1 hsafe.2.1)
    show _ = if d < s.comms then 1 else 0
    unfold Channel.owners at howners hs ⊢
    simp only [Channel.setTask, Op.comm, some.injEq] at howners hset ⊢
    omega

theorem Inv.storeBuffers (h : Inv s) (hi : s.tasks[i]? = some t) (hops : t.ops = op :: rest)
    (hop : op.comm = none) {l : List Nat} (hconn : s.connHandles.get? t.peer = some t.hs)
    (hne : l ≠ []) (hl : ∀ x ∈ l, x = t.hs) :
    Inv { (s.setTask i { t with ops := rest, status := .exchanged }).settle t.peer t.hs with
      remoteBuffers := s.remoteBuffers.set t.peer l } where
  tidy := h.tidy_setTask (h.tidy_behind hi hops)
  fresh x hx hrole hfresh hstatus hxops := by
    rcases mem_setTask hx with rfl | hx
    · cases hstatus
    · exact h.fresh x hx hrole hfresh hstatus hxops
  failed := h.failed
  raised := h.raised
  whole hkind p hs hp := by
    by_cases hpt : p = t.peer
    · subst hpt
      obtain rfl : t.hs = hs := some.inj (hconn.symm.trans hp)
      exact .inl ⟨l, get?_set_self _ _ _, hne, hl⟩
    rcases h.whole hkind p hs hp with ⟨l', hget, hrest⟩ | hp
    · exact .inl ⟨l', (get?_set_ne hpt).trans hget, hrest⟩
    right
    have hunder : (s.setTask i { t with ops := rest, status := .exchanged }).UnderWay p hs :=
      hp.setTask hi fun _ hpeer => absurd hpeer.symm hpt
    rcases hunder with hclient | hremote
    · exact .inl hclient
    · refine .inr (mem_filter.2 ⟨hremote, ?_⟩)
      simp [hpt]
  peers := h.peers
  owners c := by
    have howners := owners_setTask { t with ops := rest, status := .exchanged } hi c
    rw [hops, holds_cons, hop] at howners
    exact (Nat.add_right_cancel howners).trans (h.owners c)

/-! ## Exceptions -/

theorem Inv.raise (h : Inv s) (hi : s.tasks[i]? = some t) (hne : t.ops ≠ []) (hplain : Plain t.ops)
    (hmay : Channel.MayRaise t) : Inv (s.raise i t) := by
  have howners : ∀ c, (s.setTask i { t with ops := [], status := .raised }).owners c =
      if c < s.comms then 1 else 0 := by
    intro c
    have howners := owners_setTask { t with ops := [], status := .raised } hi c
    rw [hplain.holds c] at howners
    exact howners.trans (h.owners c)
  have hfresh : ∀ x ∈ (s.setTask i { t with ops := [], status := .raised }).tasks,
      x.role = .client → x.fresh = true → x.status = .connecting → x.ops ≠ [] →
      s.remoteXferHandlerExists x.peer = false := by
    intro x hx hrole hfresh hstatus hops
    rcases mem_setTask hx with rfl | hx
    · cases hstatus
    · exact h.fresh x hx hrole hfresh hstatus hops
  by_cases hrole : t.role = .client
  · have hmem : t ∈ s.tasks := mem_of_getElem? hi
    have habsent : s.remoteXferHandlerExists t.peer = false :=
      h.fresh t hmem hrole (hmay hrole).1 (hmay hrole).2 hne
    have hraise : s.raise i t = { s.setTask i { t with ops := [], status := .raised } with
        failed := t.peer :: s.failed
        raised := s.raised ++ [(t.peer, s.remoteXferHandlerExists t.peer)] } := by
      unfold Channel.raise
      split
      · rfl
      · next hno => exact absurd hrole hno
    rw [hraise]
    refine ⟨h.tidy_setTask trivial, hfresh, ?_, ?_, ?_, h.peers, howners⟩
    · intro hkind p hp
      rcases mem_cons.1 hp with rfl | hp
      · unfold Channel.remoteXferHandlerExists at habsent
        rw [show s.cfg.kind = .oneSided from hkind] at habsent
        exact isNone_iff_eq_none.1 (isSome_eq_false_iff.1 habsent)
      · exact h.failed hkind p hp
    · intro e he
      rcases mem_append.1 he with he | he
      · exact h.raised e he
      · rw [mem_singleton.1 he]
        exact habsent
    · intro hkind p hs hp
      rcases h.whole hkind p hs hp with hp | hunder
      · exact .inl hp
      refine .inr (hunder.setTask hi fun _ hpeer hhs _ => ?_)
      have hnone : s.connHandles.get? p = none := by
        unfold Channel.remoteXferHandlerExists at habsent
        rw [hpeer] at habsent
        cases hk : s.cfg.kind with
        | oneSided => exact absurd hk hkind
        | _ =>
          rw [hk] at habsent
          exact isNone_iff_eq_none.1 (isSome_eq_false_iff.1 habsent)
      rw [show s.connHandles.get? p = some hs from hp] at hnone
      cases hnone
  · have hraise : s.raise i t = s.setTask i { t with ops := [], status := .raised } := by
      unfold Channel.raise
      split
      · next hclient => exact absurd hclient hrole
      · rfl
    rw [hraise]
    refine ⟨h.tidy_setTask trivial, hfresh, h.failed, h.raised, ?_, h.peers, howners⟩
    intro hkind p hs hp
    rcases h.whole hkind p hs hp with hp | hunder
    · exact .inl hp
    · exact .inr (hunder.setTask hi fun hclient => absurd hclient hrole)

/-! ## Operations -/

theorem head_eq {t : Task} (hs : s.head i = some (t, op, rest)) :
    s.tasks[i]? = some t ∧ t.ops = op :: rest := by
  unfold Channel.head at hs
  cases ht : s.tasks[i]? with
  | none =>
    rw [ht] at hs
    cases hs
  | some x =>
    rw [ht] at hs
    cases hops : x.ops with
    | nil =>
      simp only [hops] at hs
      cases hs
    | cons y ys =>
      simp only [hops] at hs
      cases hs
      exact ⟨rfl, hops⟩

theorem ops_ne (hops : t.ops = op :: rest) : t.ops ≠ [] := by
  rw [hops]
  exact cons_ne_nil op rest

section Head

variable (h : Inv s) (hi : s.tasks[i]? = some t) (hops : t.ops = op :: rest)
include h hi hops

theorem Inv.head_tidy : Tidy (op :: rest) := by
  have htidy := h.tidy t (mem_of_getElem? hi)
  rwa [hops] at htidy

theorem Inv.next (hop : op.comm = none) : Inv (s.advance i t rest) := by
  refine h.advance hi (ops_ne hops) (h.head_tidy hi hops).behind fun c => ?_
  rw [hops, holds_cons, hop]
  rfl

theorem Inv.swap {op' : Op} (hdev : op ≠ .setDevice) (hcomm : op'.comm = op.comm) :
    Inv (s.advance i t (op' :: rest)) := by
  have hplain : Plain rest := (h.head_tidy hi hops).plain hdev
  refine h.advance hi (ops_ne hops) (Tidy.of_plain hplain) fun c => ?_
  rw [hops, holds_cons, holds_cons, hcomm]

theorem Inv.raises (hop : op.comm = none) (hplain : Plain rest) (hmay : Channel.MayRaise t) :
    Inv (s.raise i t) := by
  refine h.raise hi (ops_ne hops) ?_ hmay
  rw [hops]
  exact hplain.cons hop

end Head

theorem holds_stale (p : Option PeerState) (n c : Nat) (rest : List Op) :
    holds ((p.map fun p => Op.destroyPeerComm p.comm n).toList ++ rest) c =
      holds rest c + if p.map PeerState.comm = some c then 1 else 0 := by
  cases p with
  | none => simp
  | some p =>
    show holds (.destroyPeerComm p.comm n :: rest) c = _
    rw [holds_cons]
    rfl

theorem tidy_stale {p : Option PeerState} (hrest : Plain rest) :
    Tidy ((p.map fun p => Op.destroyPeerComm p.comm n).toList ++ rest) ∧
      Tidy (.setDevice :: ((p.map fun p => Op.destroyPeerComm p.comm n).toList ++ rest)) := by
  cases p with
  | none => exact ⟨hrest.tidy, hrest.tail⟩
  | some p => exact ⟨hrest, hrest⟩

/-- One operation of a task, by its kind. -/
theorem Inv.exec (h : Inv s) (hi : s.tasks[i]? = some t) (hops : t.ops = op :: rest)
    (hsafe : s.StoresWell i t op) (hs : s.exec i t rest op = some s') : Inv s' := by
  have hne := ops_ne hops
  have htidy := h.head_tidy hi hops
  cases op with
  | ask a => cases hs
  | setDevice =>
    cases hs
    exact h.next hi hops rfl
  | connect =>
    cases hs
    exact h.next hi hops rfl
  | storeConn =>
    cases hs
    exact h.storeConn hi hops hsafe
  | lookupConn =>
    rw [Channel.exec] at hs
    split at hs
    · cases hs
      exact h.next hi hops rfl
    · cases hs
  | importMem =>
    cases hs
    exact h.next hi hops rfl
  | storeBuffers =>
    cases hs
    exact h.storeBuffers hi hops rfl hsafe (cons_ne_nil _ _) (by simp)
  | extendBuffers =>
    cases hs
    refine h.storeBuffers hi hops rfl hsafe.1 (by simp) fun x hx => ?_
    rcases mem_append.1 hx with hx | hx
    · exact hsafe.2 x hx
    · exact mem_singleton.1 hx
  | popStale form =>
    cases hs
    have hplain : Plain rest := htidy.plain (by simp)
    have hheld : ∀ c, holds t.ops c = holds rest c := by
      intro c
      rw [hops, holds_cons]
      rfl
    have hstale := tidy_stale (p := s.peers.get? t.peer) (n := s.cfg.memHandles) hplain
    cases form with
    | sync =>
      refine h.pop hi hne hstale.1 fun c => ?_
      rw [hheld, holds_stale]
    | async =>
      refine h.pop hi hne hstale.2 fun c => ?_
      rw [hheld, holds_cons, holds_stale]
      rfl
  | destroyPeerComm c n =>
    cases n with
    | succ n =>
      cases hs
      exact h.swap hi hops (by simp) rfl
    | zero =>
      cases hs
      refine h.destroy hi hne htidy.behind fun d => ?_
      rw [hops, holds_cons]
      simp [Op.comm]
  | initComm k =>
    cases k with
    | zero => cases hs
    | succ k =>
      cases hs
      refine h.create hi hne (Tidy.of_plain (htidy.plain (by simp))) fun d => ?_
      rw [hops, holds_cons, holds_cons]
      simp [Op.comm]
  | bindMem c k n =>
    cases n <;> cases hs <;> exact h.swap hi hops (by simp) rfl
  | prepare c k tries =>
    cases tries <;> cases hs <;> exact h.swap hi hops (by simp) rfl
  | cleanupFailedComm c k n =>
    cases n with
    | succ n =>
      cases hs
      exact h.swap hi hops (by simp) rfl
    | zero =>
      cases hs
      refine h.destroy hi hne (Tidy.of_plain (htidy.plain (by simp))) fun d => ?_
      rw [hops, holds_cons, holds_cons]
      simp [Op.comm]
  | storePeer c =>
    cases hs
    exact h.storePeer hi hops hsafe

theorem Inv.fail (h : Inv s) (hi : s.tasks[i]? = some t) (hops : t.ops = op :: rest)
    (hsafe : Channel.FailsWell t rest op) (hs : s.fail i t rest op = some s') : Inv s' := by
  have htidy := h.head_tidy hi hops
  cases op with
  | ask | connect | importMem =>
    cases hs
    exact h.raises hi hops rfl htidy hsafe
  | setDevice =>
    cases hs
    exact h.raises hi hops rfl hsafe.2 hsafe.1
  | lookupConn =>
    rw [Channel.fail] at hs
    split at hs
    · cases hs
    · cases hs
      exact h.raises hi hops rfl htidy hsafe
  | destroyPeerComm c n => exact hsafe.elim
  | initComm k =>
    cases k with
    | zero =>
      cases hs
      exact h.raises hi hops rfl htidy hsafe
    | succ k =>
      cases hs
      exact h.swap hi hops (by simp) rfl
  | bindMem c k n =>
    cases n with
    | zero => cases hs
    | succ n =>
      cases hs
      exact h.swap hi hops (by simp) rfl
  | prepare c k tries =>
    cases tries with
    | zero => cases hs
    | succ tries =>
      cases hs
      exact h.swap hi hops (by simp) rfl
  | cleanupFailedComm c k n =>
    cases n with
    | zero => exact hsafe.elim
    | succ n =>
      cases hs
      exact h.swap hi hops (by simp) rfl
  | _ => cases hs

/-! ## New tasks -/

/-- A task joins the others; what it has in hand is to be shown. -/
theorem Inv.add (h : Inv s) {failed : List String} {peers : Dict String PeerState}
    {remotes : List (String × Nat)} (htidy : Tidy t'.ops)
    (hfresh : ∀ x ∈ s.tasks ++ [t'], x.role = .client → x.fresh = true → x.status = .connecting →
      x.ops ≠ [] → Channel.remoteXferHandlerExists { s with peers := peers } x.peer = false)
    (hfailed : s.cfg.kind = .oneSided → ∀ p ∈ failed, peers.get? p = none)
    (hremotes : s.remotes ⊆ remotes)
    (hpeers : ∀ p st, peers.get? p = some st → st.commOf = st.buffersOf)
    (hholds : ∀ c, holds t'.ops c + peers.weigh (fun e => if e.2.comm = c then 1 else 0) =
      s.peers.weigh fun e => if e.2.comm = c then 1 else 0) :
    Inv { s with tasks := s.tasks ++ [t'], next := n, failed := failed, peers := peers,
                 remotes := remotes } where
  tidy t ht := by
    rcases mem_append.1 ht with ht | ht
    · exact h.tidy t ht
    · rw [mem_singleton.1 ht]
      exact htidy
  fresh := hfresh
  failed := hfailed
  raised := h.raised
  whole hkind p hs hp := by
    rcases h.whole hkind p hs hp with hp | ⟨t, ht, hrest⟩ | hp
    · exact .inl hp
    · exact .inr (.inl ⟨t, mem_append_left _ ht, hrest⟩)
    · exact .inr (.inr (hremotes hp))
  peers := hpeers
  owners c := by
    have hc := hholds c
    have hs := h.owners c
    unfold Channel.owners at hs ⊢
    rw [map_append, sum_append]
    show _ + (holds t'.ops c + 0) + _ + _ = _
    simp only at hs hc ⊢
    omega

/-- A new task that is no fresh client. -/
theorem Inv.fresh_add (h : Inv s)
    (ht' : t'.role = .client → t'.fresh = true → s.remoteXferHandlerExists t'.peer = false) :
    ∀ x ∈ s.tasks ++ [t'], x.role = .client → x.fresh = true → x.status = .connecting →
      x.ops ≠ [] → s.remoteXferHandlerExists x.peer = false := by
  intro x hx hrole hfresh hstatus hops
  rcases mem_append.1 hx with hx | hx
  · exact h.fresh x hx hrole hfresh hstatus hops
  · rw [mem_singleton.1 hx] at hrole hfresh ⊢
    exact ht' hrole hfresh

theorem Inv.begin (h : Inv s) {peer : String} {form : Form} {side : Bool} :
    Inv (s.call peer form side) := by
  unfold Channel.call Channel.lazyInitPeerConnection
  by_cases hskip : s.cfg.kind = .oneSided ∧ s.remoteXferHandlerExists peer
  · rw [if_pos hskip]
    exact h
  rw [if_neg hskip]
  cases hhand : handshake s.cfg form side with
  | nil => exact h
  | cons op rest =>
    have hplain : Plain (op :: rest) := hhand ▸ handshake_plain s.cfg form side
    refine h.add hplain.tidy (h.fresh_add fun _ hfresh => by simpa using hfresh)
      (fun hkind p hp => h.failed hkind p (mem_filter.1 hp).1) (Subset.refl _) h.peers fun c => ?_
    rw [hplain.holds c, Nat.zero_add]

theorem Inv.initRequest (h : Inv s) : Inv (s.initRequest localId) := by
  refine h.add (setupThread_tidy _ _) ?_ ?_ (subset_append_left _ _) ?_ fun c => ?_
  · intro x hx hrole hfresh hstatus hops
    have habsent := h.fresh_add (by rintro ⟨⟩) x hx hrole hfresh hstatus hops
    split
    · exact exists_pop habsent
    · exact habsent
  · intro hkind p hp
    rw [if_pos hkind, get?_pop, h.failed hkind p hp, ite_self]
  · intro p st hp
    split at hp
    · exact h.peers_pop hp
    · exact h.peers p st hp
  · have hpop := weigh_pop_comm s.peers localId c
    simp only [Channel.stale]
    by_cases hkind : s.cfg.kind = .oneSided
    · rw [if_pos hkind, if_pos hkind, holds_setupThread _ _ _ hkind]
      omega
    rw [if_neg hkind, if_neg hkind]
    have hplain : holds (setupThread s.cfg none) c = 0 := by
      unfold setupThread
      cases hk : s.cfg.kind with
      | oneSided => exact absurd hk hkind
      | _ => rfl
    omega

theorem Inv.exchangeRequest (h : Inv s) : Inv (s.exchangeRequest localId hs) := by
  have hplain := exchangeHandler_plain s.cfg
  refine h.add hplain.tidy (h.fresh_add fun hrole => nomatch hrole) h.failed (Subset.refl _) h.peers
    fun c => ?_
  rw [hplain.holds c, Nat.zero_add]

/-- The other channel's call is over, and its connection is not the one stored. -/
theorem Inv.settle (h : Inv s) (hconn : s.connHandles.get? localId ≠ some hs) :
    Inv (s.settle localId hs) where
  tidy := h.tidy
  fresh := h.fresh
  failed := h.failed
  raised := h.raised
  whole hkind p hs' hp := by
    rcases h.whole hkind p hs' hp with hp' | hclient | hremote
    · exact .inl hp'
    · exact .inr (.inl hclient)
    refine .inr (.inr (mem_filter.2 ⟨hremote, ?_⟩))
    have hpair : (p, hs') ≠ (localId, hs) := by
      intro heq
      cases heq
      exact hconn hp
    rw [decide_eq_true_eq]
    exact hpair
  peers := h.peers
  owners := h.owners

/-! ## Runs -/

theorem Inv.step (h : Inv s) {a : Action} (hsafe : Safe s a) (hs : s.step a = some s') :
    Inv s' := by
  cases a with
  | call peer form side =>
    cases hs
    exact h.begin
  | initRequest localId =>
    rw [Channel.step] at hs
    split at hs
    · cases hs
      exact h.initRequest
    · cases hs
  | exchangeRequest localId hs' =>
    rw [Channel.step] at hs
    split at hs
    · cases hs
      exact h.exchangeRequest
    · cases hs
  | remoteEnds localId hs' =>
    rw [Channel.step] at hs
    split at hs
    · cases hs
      exact h.settle hsafe
    · cases hs
  | run i =>
    rw [Channel.step] at hs
    rw [Safe] at hsafe
    rcases hhead : s.head i with _ | ⟨t, op, rest⟩ <;> rw [hhead] at hs hsafe
    · cases hs
    obtain ⟨hi, hops⟩ := head_eq hhead
    exact h.exec hi hops hsafe hs
  | reply i r =>
    rw [Channel.step] at hs
    rw [Safe] at hsafe
    rcases hhead : s.head i with _ | ⟨t, op, rest⟩ <;> rw [hhead] at hs hsafe
    · cases hs
    obtain ⟨hi, hops⟩ := head_eq hhead
    cases op with
    | ask a =>
      cases hs
      split
      · exact h.next hi hops rfl
      · next hacc =>
        have hmay : Channel.MayRaise t := hsafe.resolve_left hacc
        exact h.raises hi hops rfl (h.head_tidy hi hops) hmay
    | _ => cases hs
  | fails i =>
    rw [Channel.step] at hs
    rw [Safe] at hsafe
    rcases hhead : s.head i with _ | ⟨t, op, rest⟩ <;> rw [hhead] at hs hsafe
    · cases hs
    obtain ⟨hi, hops⟩ := head_eq hhead
    exact h.fail hi hops hsafe hs

theorem Inv.sound (h : Inv s) : s.Sound where
  absent := h.raised
  again p hp form side := by
    unfold Channel.lazyInitPeerConnection
    apply if_neg
    rintro ⟨hkind, hexists⟩
    unfold Channel.remoteXferHandlerExists at hexists
    rw [hkind] at hexists
    simp only [h.failed hkind p hp] at hexists
    cases hexists
  whole p hp := by
    unfold Channel.remoteXferHandlerExists at hp
    unfold Channel.Open
    cases hkind : s.cfg.kind with
    | oneSided =>
      rw [hkind] at hp
      obtain ⟨st, hst⟩ := isSome_iff_exists.1 hp
      exact .inl ⟨st, hst, h.peers p st hst⟩
    | _ =>
      rw [hkind] at hp
      obtain ⟨hs, hhs⟩ := isSome_iff_exists.1 hp
      rcases h.whole (by rw [hkind]; simp) p hs hhs with hw | hw
      · exact .inl ⟨hs, hhs, hw⟩
      · exact .inr ⟨by simp, hs, hhs, hw⟩
  comms c hc := by rw [h.owners c, if_pos hc]

/-- In every run that meets the conditions no peer is left half open, and every communicator has
one owner. -/
theorem peers_sound {cfg : Config} (h : (channel cfg).ReachableIf Safe s) : s.Sound := by
  have hinv : (channel cfg).InductiveIf Safe Inv := by
    constructor
    · rintro s rfl
      exact Inv.init cfg
    · intro s a s' hI hsafe hs
      exact hI.step hsafe hs
  exact (hinv.reachable h).sound

/-- A call whose first communicator could not be prepared. -/
theorem peers_sound_retry : ∃ s : Channel, s.peers.get? "p" = some ⟨1, 0, 0⟩ ∧
    s.destroyed = [0] ∧ s.Sound := by
  have h0 : (channel ⟨.oneSided, 1, 2, 1⟩).ReachableIf Safe
      (Channel.init ⟨.oneSided, 1, 2, 1⟩) := .start rfl
  have hcall := h0.step (.call "p" .sync true) (by trivial) rfl
  have hinit := hcall.step (.reply 0 .init) (by exact .inl rfl) rfl
  have hdevice := hinit.step (.run 0) (by trivial) rfl
  have hpopped := hdevice.step (.run 0) (by trivial) rfl
  have hcreated := hpopped.step (.run 0) (by trivial) rfl
  have hbound := hcreated.step (.run 0) (by trivial) rfl
  have hprepare := hbound.step (.run 0) (by trivial) rfl
  have hfailed := hprepare.step (.fails 0) (by trivial) rfl
  have hcleanup := hfailed.step (.run 0) (by trivial) rfl
  have hunbound := hcleanup.step (.run 0) (by trivial) rfl
  have hdestroyed := hunbound.step (.run 0) (by trivial) rfl
  have hcreated' := hdestroyed.step (.run 0) (by trivial) rfl
  have hbound' := hcreated'.step (.run 0) (by trivial) rfl
  have hprepare' := hbound'.step (.run 0) (by trivial) rfl
  have hprepared := hprepare'.step (.run 0) (by trivial) rfl
  have hstored := hprepared.step (.run 0) (by
    refine ⟨fun j t hj hne => ?_, rfl, by decide⟩
    cases j with
    | zero => exact absurd rfl hne
    | succ j => cases hj) rfl
  have hready := hstored.step (.reply 0 (.ready true)) (by exact .inl rfl) rfl
  exact ⟨_, rfl, rfl, peers_sound hready⟩

/-- The memory exchange fails, and the entry of the connection stays. -/
theorem half_open_peer : ∃ s, (channel ⟨.hccl, 1, 3, 10⟩).Reachable s ∧ ¬ s.Sound := by
  have hrun : ∃ s, (channel ⟨.hccl, 1, 3, 10⟩).run (Channel.init ⟨.hccl, 1, 3, 10⟩)
      [.call "p" .sync false, .reply 0 .init, .run 0, .run 0, .reply 0 .other] = some s ∧
      s.raised = [("p", true)] := ⟨_, rfl, rfl⟩
  obtain ⟨s, hs, hraised⟩ := hrun
  refine ⟨s, Machine.reachable_of_run rfl hs, fun hsound => ?_⟩
  have habsent := hsound.absent ("p", true) (hraised ▸ mem_singleton_self _)
  cases habsent

end PeerSetup
