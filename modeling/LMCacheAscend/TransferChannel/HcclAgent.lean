import LMCacheAscend.Lib.Machine

/-!
# The memory that an HCCL agent registers

`registeredMems_` has an entry for each pointer that is registered, with the number of its
users.  `registrations` are those that the driver holds, and the answers of the driver to a
call are arguments of it.

`balance` counts for a pointer the calls that returned success since its entry was made.
An entry counts right along a run just when no export and no deregistration fails
(`registrations_counted`): both change the count before they call the driver.
-/

namespace HcclAgent

open Lib List Option Function

/-! ## The agent and the driver -/

inductive HcclError where
  | HCCL_E_PARA
  | HCCL_E_INTERNAL
  | HCCL_E_NOT_FOUND
  | driver (code : Nat)
deriving DecidableEq, Repr

inductive State where
  | CREATED
  | INITIALIZED
  | ERROR
deriving DecidableEq, Repr

/-- `memoryType` of `rtPointerAttributes_t`. -/
inductive RtMemoryType where
  | RT_MEMORY_TYPE_HOST
  | RT_MEMORY_TYPE_DEVICE
  | RT_MEMORY_TYPE_SVM
  | RT_MEMORY_TYPE_USER
deriving DecidableEq, Repr

inductive HcclMemType where
  | HCCL_MEM_TYPE_DEVICE
  | HCCL_MEM_TYPE_HOST
deriving DecidableEq, Repr

structure HcclMem where
  type : HcclMemType
  addr : Nat
  size : Nat
deriving DecidableEq, Repr

/-- The memory that `RegisterMem` describes to the driver. -/
def memOf (memoryType : RtMemoryType) (ptr size : Nat) : HcclMem where
  type :=
    if memoryType = .RT_MEMORY_TYPE_HOST ∨ memoryType = .RT_MEMORY_TYPE_USER then
      .HCCL_MEM_TYPE_HOST
    else .HCCL_MEM_TYPE_DEVICE
  addr := ptr
  size := size

/-- What a handle points to. -/
structure RmaBuffer where
  id : Nat
  devAddr : Nat
deriving DecidableEq, Repr

structure HcclBuf where
  addr : Nat
  len : Nat
  handle : RmaBuffer
deriving DecidableEq, Repr

structure MemInfo where
  handle : HcclBuf
  refCount : BitVec 64
  devAddr : Nat
deriving DecidableEq, Repr

structure RmaMemDesc where
  memDesc : List UInt8
  localRankId : Nat
deriving DecidableEq, Repr

/-- A registration that the driver holds. -/
structure Registration where
  mem : HcclMem
  rma : RmaBuffer
deriving DecidableEq, Repr

def Registration.buf (r : Registration) : HcclBuf := ⟨r.mem.addr, r.mem.size, r.rma⟩

structure Config where
  devId : Nat
  /-- `TRANSPORT_EMD_ESC_SIZE`. -/
  memDescSize : Nat

structure Agent where
  state : State
  registeredMems : Nat → Option MemInfo
  registrations : List Registration

variable (s : Agent)

/-- What the driver answers to the calls of a registration. -/
structure Driver where
  rtPointerGetAttributes : Except Nat RtMemoryType
  hcclMemReg : Except HcclError RmaBuffer
  hcclMemExport : Except HcclError (List UInt8)

namespace Agent

def setMem (ptr : Nat) (info : MemInfo) : Agent :=
  { s with registeredMems := update s.registeredMems ptr (some info) }

/-- The driver has the registration, with its entry. -/
def enter (ptr : Nat) (mem : HcclMem) (rma : RmaBuffer) : Agent :=
  let r : Registration := ⟨mem, rma⟩
  { s.setMem ptr ⟨r.buf, 1, rma.devAddr⟩ with registrations := r :: s.registrations }

/-- `HcclMemDereg` of the handle, and the entry is erased. -/
def leave (ptr : Nat) (handle : HcclBuf) : Agent :=
  { s with
    registeredMems := update s.registeredMems ptr none
    registrations := s.registrations.filter fun r => r.buf ≠ handle }

end Agent

/-! ## Calls -/

/-- What a call returns, with the agent after it. -/
abbrev Result (α : Type) := Except HcclError α × Agent

namespace Agent

/-- The end of `RegisterMem`. -/
def exportMem (c : Config) (d : Driver) : Result RmaMemDesc :=
  match d.hcclMemExport with
  | .error e => (.error e, s)
  | .ok desc =>
    (.ok ⟨desc ++ replicate (c.memDescSize - desc.length) 0, c.devId⟩, s)

/-- `RegisterMem`. -/
def registerMem (c : Config) (d : Driver) (ptr size : Nat) : Result RmaMemDesc :=
  if s.state ≠ .INITIALIZED then (.error .HCCL_E_INTERNAL, s)
  else match s.registeredMems ptr with
    | some info => (s.setMem ptr { info with refCount := info.refCount + 1 }).exportMem c d
    | none => match d.rtPointerGetAttributes with
      | .error _ => (.error .HCCL_E_INTERNAL, s)
      | .ok memoryType => match d.hcclMemReg with
        | .error e => (.error e, s)
        | .ok rma => (s.enter ptr (memOf memoryType ptr size) rma).exportMem c d

/-- `DeregisterMem`. -/
def deregisterMem (hcclMemDereg : Except HcclError Unit) (ptr : Nat) : Result Unit :=
  if s.state ≠ .INITIALIZED then (.error .HCCL_E_INTERNAL, s)
  else match s.registeredMems ptr with
    | none => (.error .HCCL_E_NOT_FOUND, s)
    | some info =>
      let refCount := info.refCount - 1
      if refCount = 0 then
        match hcclMemDereg with
        | .error e => (.error e, s.setMem ptr { info with refCount := refCount })
        | .ok () => (.ok (), s.leave ptr info.handle)
      else (.ok (), s.setMem ptr { info with refCount := refCount })

end Agent

/-! ## Runs -/

inductive Call where
  | registerMem (ptr size : Nat) (d : Driver)
  | deregisterMem (ptr : Nat) (hcclMemDereg : Except HcclError Unit)

def Call.ptr : Call → Nat
  | registerMem ptr _ _ => ptr
  | deregisterMem ptr _ => ptr

/-- What a call that returns success adds. -/
def Call.weight : Call → Int
  | registerMem .. => 1
  | deregisterMem .. => -1

def Call.result (c : Config) (s : Agent) : Call → Result Unit
  | registerMem ptr size d =>
    let (r, s') := s.registerMem c d ptr size
    (r.map fun _ => (), s')
  | deregisterMem ptr hcclMemDereg => s.deregisterMem hcclMemDereg ptr

structure Book where
  agent : Agent
  balance : Nat → Int

/-- The balance that a call adds to: of an entry that it makes, zero. -/
def Book.since (b : Book) (ptr : Nat) (after : Agent) : Int :=
  if b.agent.registeredMems ptr = none ∧ after.registeredMems ptr ≠ none then 0
  else b.balance ptr

def Book.balanceAfter (b : Book) (call : Call) : Result Unit → Int
  | (.ok (), after) => b.since call.ptr after + call.weight
  | (.error _, after) => b.since call.ptr after

def Book.step (c : Config) (b : Book) (call : Call) : Book :=
  let r := call.result c b.agent
  ⟨r.2, update b.balance call.ptr (b.balanceAfter call r)⟩

/-- Entries are the registrations, with the number of their users. -/
structure Book.Counted (b : Book) : Prop where
  entry : ∀ ptr, (b.agent.registeredMems ptr).isSome ↔
    ∃ r ∈ b.agent.registrations, r.mem.addr = ptr
  count : ∀ ptr info, b.agent.registeredMems ptr = some info →
    1 ≤ info.refCount.toNat ∧ (info.refCount.toNat : Int) = b.balance ptr

/-- A call leaves the entries right, and if it fails, as they were. -/
def Book.Kept (c : Config) (b : Book) (call : Call) : Prop :=
  (b.step c call).Counted ∧
  ∀ e, (call.result c b.agent).1 = .error e →
    (b.step c call).agent.registeredMems call.ptr = b.agent.registeredMems call.ptr ∧
    (b.step c call).agent.registrations = b.agent.registrations

/-- No driver call fails that is behind a change of the count, and the count has room. -/
def Book.Sound (b : Book) : Call → Prop
  | .registerMem ptr _ d =>
    b.agent.state = .INITIALIZED →
      match b.agent.registeredMems ptr with
      | some info => d.hcclMemExport.isOk ∧ info.refCount.toNat + 1 < 2 ^ 64
      | none => d.rtPointerGetAttributes.isOk → d.hcclMemReg.isOk → d.hcclMemExport.isOk
  | .deregisterMem ptr hcclMemDereg =>
    b.agent.state = .INITIALIZED →
      ∀ info, b.agent.registeredMems ptr = some info → info.refCount = 1 → hcclMemDereg.isOk

def Book.new (state : State) : Book := ⟨⟨state, fun _ => none, []⟩, fun _ => 0⟩

/-! ## Entries and registrations -/

/-- The registration of an entry is that of its handle. -/
structure Book.Inv (b : Book) : Prop where
  counted : b.Counted
  handle : ∀ ptr info, b.agent.registeredMems ptr = some info →
    ∀ r ∈ b.agent.registrations, r.mem.addr = ptr → r.buf = info.handle

namespace Book

theorem inv_new (state : State) : (Book.new state).Inv where
  counted :=
    { entry := fun _ => by simp [Book.new]
      count := fun _ _ h => by cases h }
  handle := fun _ _ h => by cases h

variable {b : Book} {info : MemInfo} {ptr : Nat} {c : Config} {call : Call}

theorem Inv.setMem (h : b.Inv)
    (hinfo : b.agent.registeredMems ptr = some info) {refCount : BitVec 64} {x : Int}
    (hpos : 1 ≤ refCount.toNat) (hx : (refCount.toNat : Int) = x) :
    Inv ⟨b.agent.setMem ptr { info with refCount := refCount },
      update b.balance ptr x⟩ where
  counted :=
    { entry := fun p => by
        rw [Agent.setMem, ← h.counted.entry p]
        by_cases hp : p = ptr
        · subst hp
          simp [hinfo]
        · simp [hp]
      count := fun p i hi => by
        rw [Agent.setMem] at hi
        by_cases hp : p = ptr
        · subst hp
          simp only [update_self, some.injEq] at hi ⊢
          subst hi
          exact ⟨hpos, hx⟩
        · simp only [update_of_ne hp] at hi ⊢
          exact h.counted.count p i hi }
  handle := fun p i hi r hr hp => by
    rw [Agent.setMem] at hi
    by_cases hp' : p = ptr
    · subst hp'
      simp only [update_self, some.injEq] at hi
      subst hi
      exact h.handle p info hinfo r hr hp
    · simp only [update_of_ne hp'] at hi
      exact h.handle p i hi r hr hp

theorem Inv.enter (h : b.Inv) (hnone : b.agent.registeredMems ptr = none)
    {mem : HcclMem} (hmem : mem.addr = ptr) (rma : RmaBuffer) :
    Inv ⟨b.agent.enter ptr mem rma, update b.balance ptr 1⟩ := by
  have hfresh : ∀ r ∈ b.agent.registrations, r.mem.addr ≠ ptr := by
    intro r hr hp
    have hsome := (h.counted.entry ptr).2 ⟨r, hr, hp⟩
    rw [hnone] at hsome
    cases hsome
  refine ⟨⟨fun p => ?_, fun p i hi => ?_⟩, fun p i hi r hr hp => ?_⟩
  · simp only [Agent.enter, Agent.setMem, mem_cons, exists_eq_or_imp]
    by_cases hp : p = ptr
    · subst hp
      simp [hmem]
    · rw [update_of_ne hp, h.counted.entry p]
      simp [hmem, Ne.symm hp]
  · simp only [Agent.enter, Agent.setMem] at hi ⊢
    by_cases hp : p = ptr
    · subst hp
      simp only [update_self, some.injEq] at hi ⊢
      subst hi
      exact ⟨Nat.le_refl 1, rfl⟩
    · simp only [update_of_ne hp] at hi ⊢
      exact h.counted.count p i hi
  · simp only [Agent.enter, Agent.setMem] at hi hr
    by_cases hp' : p = ptr
    · subst hp'
      simp only [update_self, some.injEq] at hi
      subst hi
      rcases mem_cons.1 hr with rfl | hr
      · rfl
      · exact absurd hp (hfresh r hr)
    · simp only [update_of_ne hp'] at hi
      rcases mem_cons.1 hr with rfl | hr
      · exact absurd (hp.symm.trans hmem) hp'
      · exact h.handle p i hi r hr hp

theorem Inv.leave (h : b.Inv) (hinfo : b.agent.registeredMems ptr = some info) (x : Int) :
    Inv ⟨b.agent.leave ptr info.handle, update b.balance ptr x⟩ := by
  -- the handle is that of a registration of the pointer
  have haddr : info.handle.addr = ptr := by
    obtain ⟨r, hr, hp⟩ := (h.counted.entry ptr).1 (by rw [hinfo]; rfl)
    rw [← h.handle ptr info hinfo r hr hp]
    exact hp
  refine ⟨⟨fun p => ?_, fun p i hi => ?_⟩, fun p i hi r hr hp => ?_⟩
  · simp only [Agent.leave, mem_filter, decide_eq_true_eq]
    by_cases hp : p = ptr
    · subst hp
      simp only [update_self, isSome_none, Bool.false_eq_true, false_iff]
      rintro ⟨r, ⟨hr, hne⟩, hp⟩
      exact hne (h.handle p info hinfo r hr hp)
    · rw [update_of_ne hp, h.counted.entry p]
      constructor
      · rintro ⟨r, hr, hrp⟩
        refine ⟨r, ⟨hr, fun hbuf => hp ?_⟩, hrp⟩
        rw [← hrp, ← haddr, ← hbuf]
        rfl
      · rintro ⟨r, ⟨hr, -⟩, hrp⟩
        exact ⟨r, hr, hrp⟩
  · simp only [Agent.leave] at hi ⊢
    by_cases hp : p = ptr
    · subst hp
      rw [update_self] at hi
      cases hi
    · simp only [update_of_ne hp] at hi ⊢
      exact h.counted.count p i hi
  · simp only [Agent.leave] at hi hr
    by_cases hp' : p = ptr
    · subst hp'
      rw [update_self] at hi
      cases hi
    · rw [update_of_ne hp'] at hi
      exact h.handle p i hi r (mem_filter.1 hr).1 hp

/-! ## Calls and their failures -/

theorem step_eq {r : Result Unit} (hr : call.result c b.agent = r) :
    b.step c call = ⟨r.2, update b.balance call.ptr (b.balanceAfter call r)⟩ := by
  subst hr
  rfl

theorem since_same (b : Book) (ptr : Nat) : b.since ptr b.agent = b.balance ptr :=
  if_neg fun h => h.2 h.1

theorem since_some (hinfo : b.agent.registeredMems ptr = some info) (after : Agent) :
    b.since ptr after = b.balance ptr :=
  if_neg fun h => by rw [hinfo] at h; cases h.1

theorem since_enter (hnone : b.agent.registeredMems ptr = none)
    (mem : HcclMem) (rma : RmaBuffer) : b.since ptr (b.agent.enter ptr mem rma) = 0 :=
  if_pos ⟨hnone, by simp [Agent.enter, Agent.setMem]⟩

/-- What a call comes to: right entries, or a failure that has changed one. -/
def Settled (c : Config) (b : Book) (call : Call) : Prop :=
  (b.Sound call ∧ (b.step c call).Inv ∧ b.Kept c call) ∨ (¬ b.Sound call ∧ ¬ b.Kept c call)

theorem Inv.settled_error (h : b.Inv) {e : HcclError}
    (hr : call.result c b.agent = (.error e, b.agent)) (hsound : b.Sound call) :
    b.Settled c call := by
  have hstep : b.step c call = b := by
    rw [step_eq hr, balanceAfter, since_same, update_eq_self]
  refine .inl ⟨hsound, ?_⟩
  unfold Kept
  rw [hstep]
  exact ⟨h, h.counted, fun _ _ => ⟨rfl, rfl⟩⟩

theorem Inv.settled_ok {after : Agent}
    (hr : call.result c b.agent = (.ok (), after)) (hsound : b.Sound call) {x : Int}
    (hx : b.since call.ptr after + call.weight = x)
    (h : Inv ⟨after, update b.balance call.ptr x⟩) : b.Settled c call := by
  rw [← hx, ← balanceAfter, ← step_eq hr] at h
  refine .inl ⟨hsound, h, h.counted, fun e he => ?_⟩
  rw [hr] at he
  cases he

theorem settled_changed {e : HcclError} {after : Agent}
    (hr : call.result c b.agent = (.error e, after)) (hsound : ¬ b.Sound call)
    (hchanged : after.registeredMems call.ptr ≠ b.agent.registeredMems call.ptr) :
    b.Settled c call := by
  refine .inr ⟨hsound, fun hkept => hchanged ?_⟩
  have hsame := (hkept.2 e (by rw [hr])).1
  rwa [step_eq hr] at hsame

theorem toNat_succ {n : BitVec 64} (h : n.toNat + 1 < 2 ^ 64) : (n + 1).toNat = n.toNat + 1 := by
  rw [BitVec.toNat_add]
  exact Nat.mod_eq_of_lt h

theorem succ_ne (n : BitVec 64) : n + 1 ≠ n := by
  bv_omega

theorem Inv.register_some (h : b.Inv) {ptr size : Nat} {d : Driver}
    (hstate : b.agent.state = .INITIALIZED) (hinfo : b.agent.registeredMems ptr = some info) :
    b.Settled c (.registerMem ptr size d) := by
  have hsound : b.Sound (.registerMem ptr size d) ↔
      d.hcclMemExport.isOk ∧ info.refCount.toNat + 1 < 2 ^ 64 := by
    unfold Sound
    simp only [hstate, hinfo, forall_const]
  obtain ⟨hpos, hcount⟩ := h.counted.count ptr info hinfo
  cases hexport : d.hcclMemExport with
  | error e =>
    have hresult : Call.result c b.agent (.registerMem ptr size d) =
        (.error e, b.agent.setMem ptr { info with refCount := info.refCount + 1 }) := by
      simp [Call.result, Agent.registerMem, Agent.exportMem, hstate, hinfo, hexport, Except.map]
    refine settled_changed hresult ?_ ?_
    · rw [hsound, hexport]
      exact fun h => Bool.false_ne_true h.1
    · intro hsame
      have hinfo' := (update_self ..).symm.trans (hsame.trans hinfo)
      exact succ_ne info.refCount (congrArg MemInfo.refCount (some.inj hinfo'))
  | ok desc =>
    have hresult : Call.result c b.agent (.registerMem ptr size d) =
        (.ok (), b.agent.setMem ptr { info with refCount := info.refCount + 1 }) := by
      simp [Call.result, Agent.registerMem, Agent.exportMem, hstate, hinfo, hexport, Except.map]
    by_cases hroom : info.refCount.toNat + 1 < 2 ^ 64
    · refine Inv.settled_ok hresult (hsound.2 ⟨by rw [hexport]; rfl, hroom⟩)
        (x := b.balance ptr + 1) (congrArg (· + 1) (since_some hinfo _)) ?_
      have hsucc := toNat_succ hroom
      exact h.setMem hinfo (by omega) (by omega)
    · refine .inr ⟨fun h => hroom (hsound.1 h).2, fun hkept => ?_⟩
      have hentry : (b.step c (.registerMem ptr size d)).agent.registeredMems ptr =
          some { info with refCount := info.refCount + 1 } := by
        rw [step_eq hresult]
        exact update_self ..
      have hpos' : 1 ≤ (info.refCount + 1).toNat := (hkept.1.count ptr _ hentry).1
      bv_omega

theorem Inv.register_none (h : b.Inv) {ptr size : Nat} {d : Driver}
    (hstate : b.agent.state = .INITIALIZED) (hnone : b.agent.registeredMems ptr = none) :
    b.Settled c (.registerMem ptr size d) := by
  have hsound : b.Sound (.registerMem ptr size d) ↔ (d.rtPointerGetAttributes.isOk →
      d.hcclMemReg.isOk → d.hcclMemExport.isOk) := by
    unfold Sound
    simp only [hstate, hnone, forall_const]
  cases hattributes : d.rtPointerGetAttributes with
  | error e =>
    refine h.settled_error (e := .HCCL_E_INTERNAL) ?_ (hsound.2 fun hok => ?_)
    · simp [Call.result, Agent.registerMem, hstate, hnone, hattributes, Except.map]
    · rw [hattributes] at hok
      cases hok
  | ok memoryType =>
    cases hreg : d.hcclMemReg with
    | error e =>
      refine h.settled_error (e := e) ?_ (hsound.2 fun _ hok => ?_)
      · simp [Call.result, Agent.registerMem, hstate, hnone, hattributes, hreg, Except.map]
      · rw [hreg] at hok
        cases hok
    | ok rma =>
      cases hexport : d.hcclMemExport with
      | error e =>
        have hresult : Call.result c b.agent (.registerMem ptr size d) =
            (.error e, b.agent.enter ptr (memOf memoryType ptr size) rma) := by
          simp [Call.result, Agent.registerMem, Agent.exportMem, hstate, hnone, hattributes, hreg,
            hexport, Except.map]
        refine settled_changed hresult (fun h => ?_) ?_
        · have hok := hsound.1 h (by rw [hattributes]; rfl) (by rw [hreg]; rfl)
          rw [hexport] at hok
          cases hok
        · intro hsame
          have hentry := (update_self ..).symm.trans (hsame.trans hnone)
          cases hentry
      | ok desc =>
        have hresult : Call.result c b.agent (.registerMem ptr size d) =
            (.ok (), b.agent.enter ptr (memOf memoryType ptr size) rma) := by
          simp [Call.result, Agent.registerMem, Agent.exportMem, hstate, hnone, hattributes, hreg,
            hexport, Except.map]
        exact Inv.settled_ok hresult (hsound.2 fun _ _ => by rw [hexport]; rfl) (x := 1)
          (congrArg (· + 1) (since_enter hnone _ rma)) (h.enter hnone rfl rma)

theorem Inv.deregister_some (h : b.Inv)
    {hcclMemDereg : Except HcclError Unit} (hstate : b.agent.state = .INITIALIZED)
    (hinfo : b.agent.registeredMems ptr = some info) :
    b.Settled c (.deregisterMem ptr hcclMemDereg) := by
  have hsound : b.Sound (.deregisterMem ptr hcclMemDereg) ↔
      (info.refCount = 1 → hcclMemDereg.isOk) := by
    unfold Sound
    simp only [hstate, hinfo, forall_const, some.injEq, forall_eq']
  obtain ⟨hpos, hcount⟩ := h.counted.count ptr info hinfo
  by_cases hlast : info.refCount = 1
  · have hzero : info.refCount - 1#64 = 0#64 := by
      rw [hlast]
      rfl
    cases hcclMemDereg with
    | error e =>
      have hresult : Call.result c b.agent (.deregisterMem ptr (.error e)) =
          (.error e, b.agent.setMem ptr { info with refCount := info.refCount - 1 }) := by
        simp [Call.result, Agent.deregisterMem, hstate, hinfo, hzero]
      refine settled_changed hresult (fun h => ?_) ?_
      · cases hsound.1 h hlast
      · intro hsame
        have hinfo' := (update_self ..).symm.trans (hsame.trans hinfo)
        have hpred := congrArg MemInfo.refCount (some.inj hinfo')
        rw [hlast] at hpred
        cases hpred
    | ok _ =>
      have hresult : Call.result c b.agent (.deregisterMem ptr (.ok ())) =
          (.ok (), b.agent.leave ptr info.handle) := by
        simp [Call.result, Agent.deregisterMem, hstate, hinfo, hzero]
      exact Inv.settled_ok hresult (hsound.2 fun _ => rfl) rfl (h.leave hinfo _)
  · have hne : info.refCount - 1#64 ≠ 0#64 := by
      bv_omega
    have hresult : Call.result c b.agent (.deregisterMem ptr hcclMemDereg) =
        (.ok (), b.agent.setMem ptr { info with refCount := info.refCount - 1 }) := by
      simp [Call.result, Agent.deregisterMem, hstate, hinfo, hne]
    refine Inv.settled_ok hresult (hsound.2 fun h => absurd h hlast) (x := b.balance ptr + -1)
      (congrArg (· + -1) (since_some hinfo _)) (h.setMem hinfo ?_ ?_)
    · bv_omega
    · have hpred : (info.refCount - 1).toNat = info.refCount.toNat - 1 := by
        bv_omega
      omega

theorem Inv.settled (h : b.Inv) (call : Call) : b.Settled c call := by
  by_cases hstate : b.agent.state = .INITIALIZED
  · cases call with
    | registerMem ptr size d =>
      cases hinfo : b.agent.registeredMems ptr with
      | some info => exact h.register_some hstate hinfo
      | none => exact h.register_none hstate hinfo
    | deregisterMem ptr hcclMemDereg =>
      cases hinfo : b.agent.registeredMems ptr with
      | some info => exact h.deregister_some hstate hinfo
      | none =>
        refine h.settled_error (e := .HCCL_E_NOT_FOUND) ?_ fun _ info hinfo' => ?_
        · simp [Call.result, Agent.deregisterMem, hstate, hinfo]
        · rw [hinfo] at hinfo'
          cases hinfo'
  · refine h.settled_error (e := .HCCL_E_INTERNAL) ?_ ?_
    · cases call <;> simp [Call.result, Agent.registerMem, Agent.deregisterMem, hstate, Except.map]
    · cases call <;> exact fun hstate' => absurd hstate' hstate

end Book

/-- Along a run the entries are right, and failed calls leave them as they were, just when no
export and no deregistration fails behind a change of the count. -/
theorem registrations_counted (c : Config) (state : State) (calls : List Call) :
    Along (Book.step c) (Book.Kept c) (Book.new state) calls ↔
      Along (Book.step c) Book.Sound (Book.new state) calls := by
  refine along_iff (I := Book.Inv) (fun b call h => ?_) (fun b call h hsound => ?_)
    (Book.inv_new state) calls
  · rcases h.settled (c := c) call with ⟨hsound, -, hkept⟩ | ⟨hsound, hkept⟩
    · exact ⟨fun _ => hsound, fun _ => hkept⟩
    · exact ⟨fun h => absurd h hkept, fun h => absurd h hsound⟩
  · rcases h.settled (c := c) call with ⟨-, hinv, -⟩ | ⟨hfails, -⟩
    · exact hinv
    · exact absurd hsound hfails

/-- A registration whose export fails, which leaves an entry of a call that failed. -/
theorem failed_export :
    ¬ ∀ (c : Config) (state : State) (calls : List Call),
      Along (Book.step c) (Book.Kept c) (Book.new state) calls := by
  intro h
  have hkept := (h ⟨0, 512⟩ .INITIALIZED
    [.registerMem 4096 64 ⟨.ok .RT_MEMORY_TYPE_DEVICE, .ok ⟨7, 4096⟩, .error (.driver 4)⟩]).1
  have hsame := (hkept.2 (.driver 4) rfl).1
  cases hsame

end HcclAgent
