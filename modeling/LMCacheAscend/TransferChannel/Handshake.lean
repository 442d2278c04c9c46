import LMCacheAscend.TransferChannel.SideChannel

/-!
# The handshake of the HCCL channel

While a request is being served the log ends with it, and what was imported so
far went into the connection that was looked up (`Ok`).  Each step of the loop
keeps that; the threads and the channel's own connections only write to the
dictionaries, which are read once for each request.
-/

namespace SideChannel

open Lib List

variable {s s' : Channel}

/-! ## The log -/

theorem Alternates.snoc {l : List LoopEvent} (h : Alternates l) (req : Request) (reply : Reply) :
    Alternates (l ++ [.recv req, .send reply]) := by
  induction l using Alternates.induct with
  | case1 => trivial
  | case2 req' reply' rest ih => exact ih h
  | case3 l hne hno =>
    match l, hne, hno, h with
    | [], hne, _, _ => exact absurd rfl hne
    | .recv r :: .send x :: rest, _, hno, _ => exact absurd rfl (hno r x rest)

/-- The loop is serving the request at the end of the log. -/
def Serving (log : List LoopEvent) : Prop :=
  ∃ l req, log = l ++ [.recv req] ∧ Alternates l

theorem Serving.answered {log : List LoopEvent} (h : Serving log) (reply : Reply) :
    Alternates (log ++ [.send reply]) := by
  obtain ⟨l, req, rfl, hl⟩ := h
  rw [append_assoc]
  exact hl.snoc req reply

/-! ## The invariant -/

/-- What the phase says of the log, and of the imports. -/
def PhaseOk (s : Channel) : Prop :=
  match s.phase with
  | .receiving => Alternates s.log
  | .closed => Alternates s.log
  | .importing localId handles conn imported todo => Serving s.log ∧
      (∃ i, s.latest localId = some i ∧ conn = .accepted i) ∧
      imported ++ todo.map (fun h => (conn, h)) = handles.map fun h => (conn, h)
  | _ => Serving s.log

structure Ok (s : Channel) : Prop where
  phase : PhaseOk s
  memRegs : ∀ m ∈ s.memRegs, m.Agreed

theorem Ok.beside (h : Ok s) (hphase : s'.phase = s.phase) (hlog : s'.log = s.log)
    (hinits : s'.inits = s.inits) (hmem : s'.memRegs = s.memRegs) : Ok s' := by
  have hlatest : ∀ localId, s'.latest localId = s.latest localId := by
    intro localId
    unfold Channel.latest
    rw [hinits]
  constructor
  · have hp := h.phase
    unfold PhaseOk at hp ⊢
    rw [hphase, hlog]
    cases hph : s.phase with
    | importing localId handles conn imported todo =>
      rw [hph] at hp
      simp only [hlatest]
      exact hp
    | _ =>
      rw [hph] at hp
      exact hp
  · rw [hmem]
    exact h.memRegs

theorem Ok.init (loop : Loop) : Ok (Channel.init loop) := ⟨trivial, fun _ hm => nomatch hm⟩

/-! ## Steps of the loop -/

theorem Ok.serving (h : Ok s) (hph : s.phase ≠ .receiving ∧ s.phase ≠ .closed) :
    Serving s.log := by
  have hp := h.phase
  unfold PhaseOk at hp
  cases hphase : s.phase with
  | receiving => exact absurd hphase hph.1
  | closed => exact absurd hphase hph.2
  | importing localId handles conn imported todo =>
    rw [hphase] at hp
    exact hp.1
  | _ =>
    rw [hphase] at hp
    exact hp

theorem Ok.receive (h : Ok s) {req : Request} (hs : s.receive req = some s') : Ok s' := by
  unfold Channel.receive at hs
  split at hs
  · next hc =>
    cases hs
    refine ⟨?_, h.memRegs⟩
    have hp := h.phase
    unfold PhaseOk at hp
    rw [hc.1] at hp
    exact ⟨s.log, req, rfl, hp⟩
  · cases hs

theorem Ok.send (h : Ok s) (hs : s.send = some s') : Ok s' := by
  unfold Channel.send at hs
  split at hs
  · next reply hphase =>
    cases hs
    have hserving : Serving s.log := h.serving (by rw [hphase]; exact ⟨nofun, nofun⟩)
    exact ⟨hserving.answered reply, h.memRegs⟩
  · cases hs

theorem Ok.raised (h : Ok s) {e : Exc} (hans : s.loop.answers e) (hserving : Serving s.log)
    (hplain : s.abandoned = s) : Ok (s.raised e) := by
  unfold Channel.raised
  rw [if_pos hans, hplain]
  exact ⟨hserving, h.memRegs⟩

theorem Ok.raises (h : Ok s) {e : Exc} (hsafe : Safe s (.raises e)) (hs : s.raises e = some s') :
    Ok s' := by
  obtain ⟨hans, hkind⟩ := hsafe
  unfold Channel.raises at hs
  cases hphase : s.phase with
  | handling req =>
    rw [hphase] at hs hkind
    cases hs
    have hserving : Serving s.log := h.serving (by rw [hphase]; exact ⟨nofun, nofun⟩)
    refine h.raised hans hserving ?_
    unfold Channel.abandoned
    rw [hphase]
    cases req with
    | memReg localId handles => exact hkind.elim
    | _ => rfl
  | waiting i =>
    rw [hphase] at hs
    have hserving : Serving s.log := h.serving (by rw [hphase]; exact ⟨nofun, nofun⟩)
    by_cases hc : s.accepts i = .spawned ∧ e = .timeout
    · simp only [if_pos hc] at hs
      cases hs
      refine h.raised hans hserving ?_
      unfold Channel.abandoned
      rw [hphase]
    · simp only [if_neg hc] at hs
      cases hs
  | importing localId handles conn imported todo =>
    rw [hphase] at hkind
    exact hkind.elim
  | _ =>
    rw [hphase] at hs
    cases hs

theorem Ok.register (h : Ok s) {localId : String} {handles : List MemHandle}
    {conn : Conn} {imported : List (Conn × MemHandle)}
    (hphase : s.phase = .importing localId handles conn imported [])
    (hnone : (s.remoteIndexAddr.get? localId).getD [] = []) :
    Ok (s.register localId handles imported) := by
  have hp := h.phase
  unfold PhaseOk at hp
  rw [hphase] at hp
  obtain ⟨hserving, ⟨i, hlatest, rfl⟩, himported⟩ := hp
  rw [map_nil, append_nil] at himported
  refine ⟨hserving, fun m hm => ?_⟩
  rcases mem_append.1 hm with hm | hm
  · exact h.memRegs m hm
  rw [mem_singleton.1 hm]
  refine ⟨rfl, ⟨i, hlatest, himported⟩, ?_⟩
  show (s.remoteIndexAddr.set localId _).get? localId = some handles
  rw [Dict.get?_set_self]
  cases hold : s.remoteIndexAddr.get? localId with
  | none => rfl
  | some old =>
    rw [hold] at hnone
    obtain rfl : old = [] := hnone
    rfl

theorem Ok.handle (h : Ok s) (hsafe : Safe s .handle) (hs : s.handle = some s') : Ok s' := by
  unfold Safe at hsafe
  unfold Channel.handle at hs
  cases hphase : s.phase with
  | handling req =>
    rw [hphase] at hs hsafe
    have hserving : Serving s.log := h.serving (by rw [hphase]; exact ⟨nofun, nofun⟩)
    cases req with
    | init | other =>
      cases hs
      exact ⟨hserving, h.memRegs⟩
    | memReg localId handles =>
      cases hs
      obtain ⟨i, hlatest, hconn⟩ := hsafe
      unfold Channel.lookup
      rw [hconn]
      exact ⟨⟨hserving, ⟨i, hlatest, rfl⟩, rfl⟩, h.memRegs⟩
  | waiting i =>
    rw [hphase] at hs
    have hserving : Serving s.log := h.serving (by rw [hphase]; exact ⟨nofun, nofun⟩)
    by_cases hc : s.accepts i = .spawned
    · simp only [if_pos hc] at hs
      cases hs
    · simp only [if_neg hc] at hs
      cases hs
      exact ⟨hserving, h.memRegs⟩
  | importing localId handles conn imported todo =>
    rw [hphase] at hs hsafe
    cases todo with
    | nil =>
      cases hs
      exact h.register hphase hsafe
    | cons x todo =>
      cases hs
      have hp := h.phase
      unfold PhaseOk at hp
      rw [hphase] at hp
      obtain ⟨hserving, hconn, himported⟩ := hp
      refine ⟨⟨hserving, hconn, ?_⟩, h.memRegs⟩
      rw [append_assoc]
      exact himported
  | _ =>
    rw [hphase] at hs
    cases hs

/-! ## Runs -/

theorem Ok.step (h : Ok s) {a : Action} (hsafe : Safe s a) (hs : s.step a = some s') : Ok s' := by
  cases a with
  | receive req => exact h.receive hs
  | handle => exact h.handle hsafe hs
  | raises e => exact h.raises hsafe hs
  | send => exact h.send hs
  | accepting i =>
    rw [Channel.step] at hs
    split at hs
    · cases hs
      exact h.beside rfl rfl rfl rfl
    · cases hs
  | accepted i =>
    rw [Channel.step] at hs
    split at hs
    · by_cases hc : s.accepts i = .accepting
      · simp only [if_pos hc] at hs
        cases hs
        exact h.beside rfl rfl rfl rfl
      · simp only [if_neg hc] at hs
        cases hs
    · cases hs
  | acceptFailed i =>
    rw [Channel.step] at hs
    split at hs
    · cases hs
      exact h.beside rfl rfl rfl rfl
    · cases hs
  | connected | registered =>
    cases hs
    exact h.beside rfl rfl rfl rfl

theorem Ok.agreed (h : Ok s) : s.Agreed where
  replies hph := by
    have hp := h.phase
    unfold PhaseOk at hp
    rcases hph with hph | hph <;> rw [hph] at hp <;> exact hp
  memRegs := h.memRegs

/-- In every run that meets the conditions the handshakes agree and no reply is missing. -/
theorem handshakes_agree {loop : Loop} (h : (channel loop).ReachableIf Safe s) : s.Agreed := by
  have hinv : (channel loop).InductiveIf Safe Ok := by
    constructor
    · rintro s rfl
      exact Ok.init loop
    · intro s a s' hok hsafe hs
      exact hok.step hsafe hs
  exact (hinv.reachable h).agreed

/-- A client's handshake: the connection is stored before its handles come. -/
theorem handshakes_agree_one :
    ∃ s : Channel, s.log = [.recv (.init "c"), .send .init,
        .recv (.memReg "c" [⟨"m", 1, 4096, 8192, 512⟩]), .send .memReg] ∧ s.Agreed := by
  have hinit : (channel .hcclAsync).ReachableIf Safe (Channel.init .hcclAsync) := .start rfl
  have hreceived := hinit.step (.receive (.init "c")) (by trivial) rfl
  have hspawned := hreceived.step .handle (by trivial) rfl
  have haccepting := hspawned.step (.accepting 0) (by trivial) rfl
  have hreplying := haccepting.step .handle (by trivial) rfl
  have hreplied := hreplying.step .send (by trivial) rfl
  have hstored := hreplied.step (.accepted 0) (by trivial) rfl
  have hrequest := hstored.step (.receive (.memReg "c" [⟨"m", 1, 4096, 8192, 512⟩]))
    (by trivial) rfl
  have hlookup := hrequest.step .handle (by exact ⟨0, rfl, rfl⟩) rfl
  have himported := hlookup.step .handle (by trivial) rfl
  have hregistered := himported.step .handle (by exact rfl) rfl
  have hdone := hregistered.step .send (by trivial) rfl
  exact ⟨_, rfl, handshakes_agree hdone⟩

/-- The handles come before the connection is stored: the request is answered with an error. -/
theorem handles_before_connection :
    ∃ s, (channel .hcclSync).Reachable s ∧ ¬ s.Agreed := by
  have hrun : ∃ s, (channel .hcclSync).run (Channel.init .hcclSync)
      [.receive (.init "c"), .handle, .accepting 0, .handle, .send,
        .receive (.memReg "c" [⟨"m", 1, 4096, 8192, 512⟩]), .handle] = some s ∧
      s.memRegs = [⟨"c", [⟨"m", 1, 4096, 8192, 512⟩], some 0, [], none, false⟩] :=
    ⟨_, rfl, rfl⟩
  obtain ⟨s, hs, hmem⟩ := hrun
  refine ⟨s, Machine.reachable_of_run rfl hs, fun hagreed => ?_⟩
  have hm := hagreed.memRegs _ (hmem ▸ mem_singleton_self _)
  exact Bool.noConfusion hm.answered

end SideChannel
