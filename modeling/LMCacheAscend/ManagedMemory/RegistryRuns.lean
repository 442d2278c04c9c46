import LMCacheAscend.ManagedMemory.HostRegistry
import Mathlib.Data.List.Pairwise

/-!
# Lookups of registered host memory

The records of the map are the registrations of buffers that are allocated (`Kept`).
With a new driver every call keeps this; an old one keeps it as long as no buffer
with a record is unregistered, freed or registered again, because the HAL branch
neither erases a record nor replaces one.
-/

namespace ManagedMemory

open Lib List Option Function

/-! ## Records of the map -/

section

variable {m : AllocatedMap} {p : Nat} {r : RegisteredMemoryRecord}

theorem eq_of_ptr {x y : RegisteredMemoryRecord} (hx : x ∈ m.records) (hy : y ∈ m.records)
    (h : x.ptr = y.ptr) : x = y := by
  by_contra hne
  have hapart : m.records.Pairwise fun a b => a.ptr ≠ b.ptr :=
    m.sorted.imp fun hlt => Nat.ne_of_lt hlt
  have : Std.Symm fun a b : RegisteredMemoryRecord => a.ptr ≠ b.ptr := ⟨fun _ _ hab => hab.symm⟩
  exact hapart.forall hx hy hne h

theorem find?_eq_some : m.find? p = some r ↔ r ∈ m.records ∧ r.ptr = p := by
  constructor
  · intro h
    exact ⟨mem_of_find?_eq_some h, by simpa using find?_some h⟩
  · rintro ⟨hr, rfl⟩
    cases hfind : m.find? r.ptr with
    | none => exact absurd (List.find?_eq_none.1 hfind r hr) (by simp)
    | some x =>
      have hx : x.ptr = r.ptr := by simpa using find?_some hfind
      rw [eq_of_ptr (mem_of_find?_eq_some hfind) hr hx]

theorem find?_eq_none : m.find? p = none ↔ ∀ r ∈ m.records, r.ptr ≠ p := by
  unfold AllocatedMap.find?
  rw [List.find?_eq_none]
  simp

theorem mem_emplace (h : m.find? r.ptr = none) {x : RegisteredMemoryRecord} :
    x ∈ (m.emplace r).records ↔ x = r ∨ x ∈ m.records := by
  refine ⟨mem_insertRecord, fun hx => ?_⟩
  have hkey := find?_eq_none.1 h
  unfold AllocatedMap.emplace
  dsimp only
  generalize m.records = l at hx hkey
  induction l with
  | nil =>
    rcases hx with rfl | hx
    · exact mem_singleton_self _
    · cases hx
  | cons a l ih =>
    have hne := hkey a mem_cons_self
    unfold insertRecord
    split
    · exact mem_cons.2 hx
    rw [if_pos (by omega)]
    rcases hx with rfl | hx
    · exact mem_cons_of_mem a (ih (.inl rfl) fun b hb => hkey b (mem_cons_of_mem a hb))
    rcases mem_cons.1 hx with rfl | hx
    · exact mem_cons_self
    · exact mem_cons_of_mem a
        (ih (.inr hx) fun b hb => hkey b (mem_cons_of_mem a hb))

theorem mem_erase {x : RegisteredMemoryRecord} :
    x ∈ (m.erase p).records ↔ x ∈ m.records ∧ x.ptr ≠ p := by
  unfold AllocatedMap.erase
  rw [mem_filter, bne_iff_ne]

end

/-! ## The invariant -/

/-- The record of a registration. -/
def Registration.Recorded (reg : Registration) (b : Nat) (r : RegisteredMemoryRecord) : Prop :=
  r.ptr = b ∧ r.buffSize = reg.buffSize ∧ r.devptr = reg.devptr

/-- The records are the registrations, which are of allocated buffers. -/
structure Kept (s : Host) : Prop where
  records : ∀ r ∈ s.allocatedMap.records, ∃ reg, s.registered r.ptr = some reg ∧
    reg.Recorded r.ptr r
  registered : ∀ b reg, s.registered b = some reg → ∃ r ∈ s.allocatedMap.records, reg.Recorded b r
  live : ∀ b reg, s.registered b = some reg →
    ∃ buffer ∈ s.buffers, buffer.base = b ∧ reg.buffSize ≤ buffer.size
  apart : s.buffers.Pairwise fun a b => a.base + a.size ≤ b.base ∨ b.base + b.size ≤ a.base
  pos : ∀ b ∈ s.buffers, 0 < b.base ∧ 0 < b.size

section

variable {s : Host} {p size : Nat}

theorem Kept.find?_eq_none (h : Kept s) : s.allocatedMap.find? p = none ↔ s.registered p = none := by
  rw [ManagedMemory.find?_eq_none]
  constructor
  · intro hnone
    by_contra hsome
    obtain ⟨reg, hreg⟩ := ne_none_iff_exists'.1 hsome
    obtain ⟨r, hr, hptr, -⟩ := h.registered p reg hreg
    exact hnone r hr hptr
  · rintro hnone r hr rfl
    obtain ⟨reg, hreg, -⟩ := h.records r hr
    rw [hnone] at hreg
    cases hreg

theorem Kept.registered_zero (h : Kept s) : s.registered 0 = none := by
  by_contra hsome
  obtain ⟨reg, hreg⟩ := ne_none_iff_exists'.1 hsome
  obtain ⟨buffer, hbuffer, hbase, -⟩ := h.live 0 reg hreg
  have hpos := (h.pos buffer hbuffer).1
  omega

theorem Kept.allocate (h : Kept s) (hfits : s.Fits p size) :
    Kept (s.allocate ⟨p, size⟩) ∧ (s.allocate ⟨p, size⟩).registered p = none := by
  obtain ⟨hp, hsize, -, hapart⟩ := hfits
  constructor
  · constructor
    · exact h.records
    · exact h.registered
    · intro b reg hreg
      obtain ⟨buffer, hbuffer, hlive⟩ := h.live b reg hreg
      exact ⟨buffer, mem_append_left _ hbuffer, hlive⟩
    · refine pairwise_append.2 ⟨h.apart, pairwise_singleton .., fun a ha b hb => ?_⟩
      obtain rfl := mem_singleton.1 hb
      exact (hapart a ha).symm
    · intro b hb
      rcases mem_append.1 hb with hb | hb
      · exact h.pos b hb
      · obtain rfl := mem_singleton.1 hb
        exact ⟨hp, hsize⟩
  · show s.registered p = none
    by_contra hsome
    obtain ⟨reg, hreg⟩ := ne_none_iff_exists'.1 hsome
    obtain ⟨buffer, hbuffer, hbase, -⟩ := h.live p reg hreg
    have := hapart buffer hbuffer
    have := h.pos buffer hbuffer
    omega

theorem Kept.record (h : Kept s) (hnone : s.registered p = none)
    (hlive : ∃ b ∈ s.buffers, b.base = p ∧ size ≤ b.size) (devPtr : Nat) (device : Int) :
    Kept (s.record p size devPtr device) := by
  have hmem : ∀ {x}, x ∈ (s.record p size devPtr device).allocatedMap.records ↔
      x = ⟨p, devPtr, size, device⟩ ∨ x ∈ s.allocatedMap.records :=
    mem_emplace (r := ⟨p, devPtr, size, device⟩) (h.find?_eq_none.2 hnone)
  have hother : ∀ r ∈ s.allocatedMap.records, r.ptr ≠ p :=
    ManagedMemory.find?_eq_none.1 (h.find?_eq_none.2 hnone)
  have hsame : (s.record p size devPtr device).registered p = some ⟨size, devPtr⟩ :=
    update_self ..
  have hne : ∀ b, b ≠ p → (s.record p size devPtr device).registered b = s.registered b :=
    fun b hb => update_of_ne hb ..
  constructor
  · intro r hr
    rcases hmem.1 hr with rfl | hr
    · exact ⟨⟨size, devPtr⟩, hsame, rfl, rfl, rfl⟩
    · rw [hne r.ptr (hother r hr)]
      exact h.records r hr
  · intro b reg hreg
    by_cases hb : b = p
    · subst hb
      rw [hsame] at hreg
      cases hreg
      exact ⟨_, hmem.2 (.inl rfl), rfl, rfl, rfl⟩
    · rw [hne b hb] at hreg
      obtain ⟨r, hr, hrec⟩ := h.registered b reg hreg
      exact ⟨r, hmem.2 (.inr hr), hrec⟩
  · intro b reg hreg
    by_cases hb : b = p
    · subst hb
      rw [hsame] at hreg
      cases hreg
      exact hlive
    · rw [hne b hb] at hreg
      exact h.live b reg hreg
  · exact h.apart
  · exact h.pos

theorem Kept.erase (h : Kept s) (p : Nat) :
    Kept ({ s with allocatedMap := s.allocatedMap.erase p }.forget p) := by
  have hne : ∀ b, b ≠ p → update s.registered p none b = s.registered b :=
    fun b hb => update_of_ne hb ..
  have hback : ∀ b reg, update s.registered p none b = some reg →
      b ≠ p ∧ s.registered b = some reg := by
    intro b reg hreg
    by_cases hb : b = p
    · subst hb
      rw [update_self] at hreg
      cases hreg
    · exact ⟨hb, by rwa [hne b hb] at hreg⟩
  constructor
  · intro r hr
    obtain ⟨hr, hptr⟩ := mem_erase.1 hr
    obtain ⟨reg, hreg, hrec⟩ := h.records r hr
    exact ⟨reg, (hne r.ptr hptr).trans hreg, hrec⟩
  · intro b reg hreg
    obtain ⟨hb, hreg⟩ := hback b reg hreg
    obtain ⟨r, hr, hrec⟩ := h.registered b reg hreg
    exact ⟨r, mem_erase.2 ⟨hr, fun hp => hb (hrec.1 ▸ hp)⟩, hrec⟩
  · intro b reg hreg
    exact h.live b reg (hback b reg hreg).2
  · exact h.apart
  · exact h.pos

theorem Kept.release (h : Kept s) (hnone : s.registered p = none) : Kept (s.release p) := by
  have hsame : (s.release p).registered = s.registered := by
    show update s.registered p none = _
    rw [← hnone, update_eq_self]
  constructor
  · rw [hsame]
    exact h.records
  · rw [hsame]
    exact h.registered
  · rw [hsame]
    intro b reg hreg
    obtain ⟨buffer, hbuffer, hbase, hle⟩ := h.live b reg hreg
    refine ⟨buffer, mem_filter.2 ⟨hbuffer, ?_⟩, hbase, hle⟩
    rw [bne_iff_ne, hbase]
    rintro rfl
    rw [hnone] at hreg
    cases hreg
  · exact h.apart.filter _
  · intro b hb
    exact h.pos b (mem_filter.1 hb).1

theorem Kept.munmap (h : Kept s) (d : Driver) (hnone : s.registered p = none) :
    Kept (s.munmap d p) := by
  unfold Host.munmap
  split
  · exact h.release hnone
  · exact h

end

/-! ## The calls -/

section

variable {s : Host} {p size : Nat} (version : String) (d : Driver)

/-- What a registration leaves: if it fails for a buffer without one, there is still none. -/
structure Registers (s s' : Host) (p : Nat) (r : Except String (Option RegisteredMemoryRecord)) :
    Prop where
  kept : Kept s'
  failed : s.registered p = none → (∀ record, r ≠ .ok (some record)) → s'.registered p = none

theorem Kept.unchanged (h : Kept s) (r : Except String (Option RegisteredMemoryRecord)) :
    Registers s s p r :=
  ⟨h, fun hnone _ => hnone⟩

theorem record_find (h : Kept s) (hnone : s.registered p = none) (devPtr : Nat) (device : Int) :
    (s.record p size devPtr device).allocatedMap.find? p = some ⟨p, devPtr, size, device⟩ :=
  find?_eq_some.2 ⟨(mem_emplace (r := ⟨p, devPtr, size, device⟩)
    (h.find?_eq_none.2 hnone)).2 (.inl rfl), rfl⟩

theorem kept_registerHostPtr (h : Kept s)
    (hlive : ∃ b ∈ s.buffers, b.base = p ∧ size ≤ b.size) :
    Registers s (registerHostPtr s d p size).2 p (registerHostPtr s d p size).1 := by
  unfold registerHostPtr
  split
  · exact h.unchanged _
  split
  · exact h.unchanged _
  · next hfind =>
    have hnone := h.find?_eq_none.1 hfind
    split
    · exact h.unchanged _
    · next devPtr _ =>
      refine ⟨h.record hnone hlive _ _, fun _ hfail => ?_⟩
      exact absurd (congrArg Except.ok (record_find h hnone devPtr.addr (-1))) (hfail _)

theorem kept_registerMappedMem (h : Kept s) (devPtr : Nat)
    (hlive : ∃ b ∈ s.buffers, b.base = p ∧ size ≤ b.size) :
    Kept (registerMappedMem s p devPtr size).2 := by
  unfold registerMappedMem
  split
  · exact h
  split
  · exact h
  · next hfind => exact h.record (h.find?_eq_none.1 hfind) hlive _ _

theorem kept_halRegisterHostPtr (h : Kept s) (hnone : s.registered p = none)
    (hlive : ∃ b ∈ s.buffers, b.base = p ∧ size ≤ b.size) :
    Registers s (halRegisterHostPtr s d p size).2 p (halRegisterHostPtr s d p size).1 := by
  unfold halRegisterHostPtr
  split
  · exact h.unchanged _
  · exact h.unchanged _
  · next device devPtr _ _ =>
    split
    · refine ⟨h.record hnone hlive _ _, fun _ hfail => ?_⟩
      exact absurd (congrArg Except.ok (record_find h hnone devPtr.addr device)) (hfail _)
    split
    · exact h.unchanged _
    refine ⟨h.munmap d hnone, fun _ _ => ?_⟩
    unfold Host.munmap
    split
    · exact update_self ..
    · exact hnone

/-- `register_ptr` gives the device pointer of the branch's record. -/
theorem registerPtr_eq (hp : p ≠ 0) : registerPtr version s d p size =
    let call := if isVersionAtLeast25 version then registerHostPtr s d p size
      else halRegisterHostPtr s d p size
    (call.1.map fun r => r.map RegisteredMemoryRecord.devptr, call.2) := by
  unfold registerPtr
  rw [if_neg hp]

section

variable (h : Kept s) (hok : isVersionAtLeast25 version = true ∨ s.registered p = none)
include h hok

theorem kept_registerPtr (hlive : ∃ b ∈ s.buffers, b.base = p ∧ size ≤ b.size) :
    Kept (registerPtr version s d p size).2 ∧ (s.registered p = none →
      (∀ devPtr, (registerPtr version s d p size).1 ≠ .ok (some devPtr)) →
        (registerPtr version s d p size).2.registered p = none) := by
  by_cases hp : p = 0
  · unfold registerPtr
    rw [if_pos hp]
    exact ⟨h, fun hnone _ => hnone⟩
  rw [registerPtr_eq version d hp]
  dsimp only
  have hregisters : ∀ call : Result (Option RegisteredMemoryRecord),
      Registers s call.2 p call.1 → Kept call.2 ∧ (s.registered p = none →
        (∀ devPtr, call.1.map (fun r => r.map RegisteredMemoryRecord.devptr) ≠
          .ok (some devPtr)) → call.2.registered p = none) := by
    rintro ⟨r, s'⟩ hcall
    refine ⟨hcall.kept, fun hnone hfail => hcall.failed hnone fun record heq => ?_⟩
    dsimp only at heq
    subst heq
    exact hfail _ rfl
  split
  · exact hregisters _ (kept_registerHostPtr d h hlive)
  · next hold =>
    exact hregisters _ (kept_halRegisterHostPtr d h (hok.resolve_left hold) hlive)

theorem kept_unregisterPtr :
    Kept (unregisterPtr version s d p).2 ∧ (unregisterPtr version s d p).2.registered p = none := by
  unfold unregisterPtr
  split
  · next hzero => exact ⟨h, hzero ▸ h.registered_zero⟩
  split
  · unfold aclUnregisterHostPtr
    rw [if_neg (by assumption)]
    split
    · next hfind => exact ⟨h, h.find?_eq_none.1 hfind⟩
    · exact ⟨h.erase p, update_self ..⟩
  · next hold =>
    have hnone := hok.resolve_left hold
    unfold halUnregisterHostPtr
    rw [if_neg (by assumption), h.find?_eq_none.2 hnone]
    exact ⟨h, hnone⟩

theorem kept_freePinnedPtr :
    Kept (freePinnedPtr version s d p).2 := by
  obtain ⟨hkept, hnone⟩ := kept_unregisterPtr version d h hok
  unfold freePinnedPtr
  generalize unregisterPtr version s d p = call at hkept hnone ⊢
  rcases call with ⟨e | _, s'⟩
  · exact hkept
  dsimp only
  split
  · exact hkept
  · exact hkept.release hnone

end

theorem kept_freeMapped (h : Kept s) (unregister unmap : String)
    (hok : isVersionAtLeast25 version = true ∨ s.registered p = none) :
    Kept (freeMapped version s d unregister unmap p).2 := by
  obtain ⟨hkept, hnone⟩ := kept_unregisterPtr version d h hok
  unfold freeMapped
  generalize unregisterPtr version s d p = call at hkept hnone ⊢
  rcases call with ⟨e | _, s'⟩
  · exact hkept
  dsimp only
  split
  · exact hkept.munmap d hnone
  split <;> exact hkept.munmap d hnone

theorem kept_registerNew (h : Kept s) (hfits : s.Fits p size) :
    Kept (s.allocate ⟨p, size⟩) ∧ (s.allocate ⟨p, size⟩).registered p = none ∧
      Kept (registerPtr version (s.allocate ⟨p, size⟩) d p size).2 ∧
      ((∀ devPtr, (registerPtr version (s.allocate ⟨p, size⟩) d p size).1 ≠ .ok (some devPtr)) →
        (registerPtr version (s.allocate ⟨p, size⟩) d p size).2.registered p = none) := by
  obtain ⟨hkept, hnone⟩ := h.allocate hfits
  have hlive : ∃ b ∈ (s.allocate ⟨p, size⟩).buffers, b.base = p ∧ size ≤ b.size :=
    ⟨_, mem_append_right _ (mem_singleton_self _), rfl, Nat.le_refl _⟩
  obtain ⟨hregister, hfail⟩ := kept_registerPtr version d hkept (.inr hnone) hlive
  exact ⟨hkept, hnone, hregister, hfail hnone⟩

theorem kept_allocPinnedPtr (h : Kept s) (malloc : Except Int Nat) (socVersion : Option String)
    (hfits : ∀ ptr ∈ malloc.toOption, s.Fits ptr size) :
    Kept (allocPinnedPtr version s d malloc socVersion size).2 := by
  unfold allocPinnedPtr
  rcases malloc with err | ptr
  · exact h
  obtain ⟨hkept, -, hregister, hfail⟩ :=
    kept_registerNew version d h (hfits ptr rfl)
  dsimp only
  split
  · exact hkept
  generalize registerPtr version (s.allocate ⟨ptr, size⟩) d ptr size = call
    at hregister hfail ⊢
  rcases call with ⟨e | _ | devPtr, s'⟩
  · exact hregister
  · have hfree := kept_freePinnedPtr version d hregister (.inr (hfail nofun))
    dsimp only
    generalize freePinnedPtr version s' d ptr = call at hfree ⊢
    rcases call with ⟨e | _, s''⟩ <;> exact hfree
  · exact hregister

theorem kept_allocMapped (h : Kept s) (mmap : Except String Nat) (prepared : Except String Unit)
    (failure : String) (hfits : ∀ ptr ∈ mmap.toOption, s.Fits ptr size) :
    Kept (allocMapped version s d mmap prepared failure size).2 := by
  unfold allocMapped
  rcases mmap with err | ptr
  · exact h
  obtain ⟨hkept, hnone, hregister, hfail⟩ :=
    kept_registerNew version d h (hfits ptr rfl)
  dsimp only
  rcases prepared with e | _
  · exact hkept.munmap d hnone
  dsimp only
  generalize registerPtr version (s.allocate ⟨ptr, size⟩) d ptr size = call
    at hregister hfail ⊢
  rcases call with ⟨e | _ | devPtr, s'⟩
  · exact hregister
  · exact Kept.munmap hregister d (hfail nofun)
  · exact hregister

end

/-! ## Every run -/

/-- An old driver meets no record where the call unregisters, frees or registers. -/
def Replaces (version : String) (s : Host) : Action → Prop
  | .freePinned _ ptr | .freePinnedNuma _ ptr _ | .freeShmPinned _ ptr _ _
  | .detachShmPinned _ ptr _ | .unregister _ ptr | .register _ ptr _ =>
    isVersionAtLeast25 version = true ∨ s.allocatedMap.find? ptr = none
  | _ => True

theorem kept_perform {version : String} {s : Host} (h : Kept s) {a : Action} (hs : s.Allows a)
    (hok : Replaces version s a) : Kept (perform version s a) := by
  have hdriver : ∀ {p}, (isVersionAtLeast25 version = true ∨ s.allocatedMap.find? p = none) →
      isVersionAtLeast25 version = true ∨ s.registered p = none :=
    fun hp => hp.imp_right h.find?_eq_none.1
  cases a with
  | allocPinned d malloc socVersion size => exact kept_allocPinnedPtr version d h malloc socVersion hs
  | allocPinnedNuma d mmap mbind size =>
    refine kept_allocMapped version d h _ _ _ fun ptr hptr => hs ptr ?_
    rcases mmap with e | q
    · cases hptr
    · exact hptr
  | allocShmPinned d mmap firstTouch shmName size =>
    unfold perform allocShmPinnedPtr
    dsimp only
    split
    · exact h
    split
    · exact h
    · exact kept_allocMapped version d h _ _ _ hs
  | attachShmPinned d mmap shmName size =>
    unfold perform attachShmPinnedPtr
    dsimp only
    split
    · exact h
    split
    · exact h
    · exact kept_allocMapped version d h _ _ _ hs
  | freePinned d ptr => exact kept_freePinnedPtr version d h (hdriver hok)
  | freePinnedNuma d ptr size => exact kept_freeMapped version d h _ _ (hdriver hok)
  | freeShmPinned d ptr size shmName =>
    unfold perform freeShmPinnedPtr
    dsimp only
    split
    · exact h
    split
    · exact h
    · exact kept_freeMapped version d h _ _ (hdriver hok)
  | detachShmPinned d ptr size =>
    unfold perform detachShmPinnedPtr
    dsimp only
    split
    · exact h
    split
    · exact h
    · exact kept_freeMapped version d h _ _ (hdriver hok)
  | register d ptr size => exact (kept_registerPtr version d h (hdriver hok) hs).1
  | registerMapping hostPtr devPtr size =>
    unfold perform ManagedMemory.registerMapping
    dsimp only
    split
    · exact h
    split
    · exact h
    · exact kept_registerMappedMem h devPtr hs
  | unregister d ptr => exact (kept_unregisterPtr version d h (hdriver hok)).1

theorem kept_invariant (version : String) : (machine version).InductiveIf (Replaces version) Kept where
  start s h := by
    cases h
    exact ⟨nofun, nofun, nofun, .nil, nofun⟩
  step s a s' h hok hs := by
    change (if s.Allows a then some (perform version s a) else none) = some s' at hs
    split at hs
    · next hallows =>
      cases hs
      exact kept_perform h hallows hok
    · cases hs

/-! ## Lookups -/

/-- The range lies in a registered buffer; with its address for the device. -/
def Host.Resolves (s : Host) (p n a : Nat) : Prop :=
  ∃ b reg, s.registered b = some reg ∧ b ≤ p ∧ p + n ≤ b + reg.buffSize ∧
    a = (reg.devptr + (p - b)) % 2 ^ 64

/-- A lookup resolves exactly the ranges in registered buffers, all of which are allocated. -/
structure Sound (s : Host) : Prop where
  lookup : ∀ p n a, 0 < n → (getDevicePtr s.allocatedMap p n = some a ↔ s.Resolves p n a)
  live : ∀ b reg, s.registered b = some reg →
    ∃ buffer ∈ s.buffers, buffer.base = b ∧ reg.buffSize ≤ buffer.size

theorem resolve_eq_some {r : RegisteredMemoryRecord} {p n a : Nat} (hn : 0 < n) :
    r.resolve p n = some a ↔
      r.ptr ≤ p ∧ p + n ≤ r.ptr + r.buffSize ∧ a = (r.devptr + (p - r.ptr)) % 2 ^ 64 := by
  unfold RegisteredMemoryRecord.resolve
  constructor
  · intro h
    split at h
    · dsimp only at h
      split at h
      · cases h
        exact ⟨by omega, by omega, rfl⟩
      · cases h
    · cases h
  · rintro ⟨hp, hle, rfl⟩
    rw [if_pos hp]
    exact if_pos ⟨by omega, by omega⟩

section

variable {s : Host} {p n a : Nat}

theorem Kept.unique (h : Kept s) {r x : RegisteredMemoryRecord} (hr : r ∈ s.allocatedMap.records)
    (hx : x ∈ s.allocatedMap.records) (hn : 0 < n) (hpr : r.ptr ≤ p)
    (hnr : p + n ≤ r.ptr + r.buffSize) (hpx : x.ptr ≤ p) (hnx : p + n ≤ x.ptr + x.buffSize) :
    r = x := by
  obtain ⟨reg, hreg, -, hsize, -⟩ := h.records r hr
  obtain ⟨reg', hreg', -, hsize', -⟩ := h.records x hx
  obtain ⟨b, hb, hbase, hle⟩ := h.live _ _ hreg
  obtain ⟨b', hb', hbase', hle'⟩ := h.live _ _ hreg'
  refine eq_of_ptr hr hx ?_
  by_contra hne
  have hbb : b ≠ b' := by
    rintro rfl
    omega
  have : Std.Symm fun a b : Buffer => a.base + a.size ≤ b.base ∨ b.base + b.size ≤ a.base :=
    ⟨fun _ _ hab => hab.symm⟩
  have := h.apart.forall hb hb' hbb
  omega

theorem Kept.sound (h : Kept s) : Sound s := by
  refine ⟨fun p n a hn => ⟨fun hget => ?_, ?_⟩, h.live⟩
  · unfold getDevicePtr at hget
    split at hget
    · cases hget
    obtain ⟨r, hr, hresolve⟩ := exists_of_findSome?_eq_some hget
    obtain ⟨hp, hle, ha⟩ := (resolve_eq_some hn).1 hresolve
    obtain ⟨reg, hreg, -, hsize, hdev⟩ := h.records r hr
    exact ⟨r.ptr, reg, hreg, hp, by omega, by rw [← hdev]; exact ha⟩
  · rintro ⟨b, reg, hreg, hp, hle, rfl⟩
    obtain ⟨r, hr, rfl, hsize, hdev⟩ := h.registered b reg hreg
    have hresolve : r.resolve p n = some ((reg.devptr + (p - r.ptr)) % 2 ^ 64) :=
      (resolve_eq_some hn).2 ⟨hp, by omega, by rw [hdev]⟩
    have hpos : p ≠ 0 := by
      rintro rfl
      rw [Nat.le_zero.1 hp, h.registered_zero] at hreg
      cases hreg
    unfold getDevicePtr
    rw [if_neg (by omega)]
    cases hfind : s.allocatedMap.records.findSome? fun r => r.resolve p n with
    | none =>
      rw [findSome?_eq_none_iff.1 hfind r hr] at hresolve
      cases hresolve
    | some a =>
      obtain ⟨x, hx, hxresolve⟩ := exists_of_findSome?_eq_some hfind
      obtain ⟨hpx, hlex, -⟩ := (resolve_eq_some hn).1 hxresolve
      obtain rfl := h.unique hr hx hn hp (by omega) hpx hlex
      rw [← hxresolve, hresolve]

end

/-- An old driver leaves a buffer that it unregisters resolvable. -/
theorem unsound_of_unregister {version : String} {s : Host} {p : Nat} (h : Kept s)
    (hold : isVersionAtLeast25 version ≠ true) {r : RegisteredMemoryRecord}
    (hfind : s.allocatedMap.find? p = some r) (hsize : 0 < r.buffSize) (d : Driver) :
    ¬Sound (unregisterPtr version s d p).2 := by
  obtain ⟨hr, rfl⟩ := find?_eq_some.1 hfind
  obtain ⟨reg, hreg, -, hbuff, hdev⟩ := h.records r hr
  have hpos : r.ptr ≠ 0 := by
    intro hzero
    rw [hzero, h.registered_zero] at hreg
    cases hreg
  have hafter : (unregisterPtr version s d r.ptr).2 = s.forget r.ptr := by
    unfold unregisterPtr halUnregisterHostPtr
    rw [if_neg hpos, if_neg hold, if_neg hpos, hfind]
  rw [hafter]
  intro hsound
  have hget : getDevicePtr s.allocatedMap r.ptr 1 = some ((reg.devptr + (r.ptr - r.ptr)) % 2 ^ 64) :=
    (h.sound.lookup _ _ _ (by decide)).2 ⟨r.ptr, reg, hreg, Nat.le_refl _, by omega, rfl⟩
  obtain ⟨b, reg', hreg', hb, hle, -⟩ := (hsound.lookup _ _ _ (by decide)).1 hget
  by_cases hne : b = r.ptr
  · subst hne
    rw [show (s.forget r.ptr).registered r.ptr = none from update_self ..] at hreg'
    cases hreg'
  · rw [show (s.forget r.ptr).registered b = s.registered b from update_of_ne hne ..]
      at hreg'
    obtain ⟨x, hx, rfl, hsize', -⟩ := h.registered b reg' hreg'
    have hsame := h.unique hr hx (n := 1) (by decide) (Nat.le_refl _) (by omega) hb (by omega)
    exact hne (congrArg RegisteredMemoryRecord.ptr hsame).symm

/-- **Registered memory.**  With a new driver in every run, and with an old one in the runs that
unregister, free and register no buffer with a record, a lookup resolves exactly the ranges in
registered buffers, and these are allocated. -/
theorem registered_memory {version : String} {s : Host}
    (hs : (machine version).ReachableIf (Replaces version) s) : Sound s :=
  ((kept_invariant version).reachable hs).sound

/-- Every call to the driver succeeds; it maps what it registers at the address. -/
def mapsTo (addr : Nat) (pos : 0 < addr) : Driver where
  aclrtHostRegister := some ⟨addr, pos⟩
  aclrtHostUnregister := 0
  getDevice := .ok 0
  halHostRegister := some ⟨addr, pos⟩
  halHostUnregisterEx := 0
  mlock := true
  munmap := true
  aclrtFreeHost := 0

/-- A buffer is freed, and its address is used again. -/
def reused : List Action :=
  [.allocPinned (mapsTo 8192 (by decide)) (.ok 4096) (some "Ascend910") 64,
    .freePinned (mapsTo 8192 (by decide)) 4096,
    .allocPinned (mapsTo 16384 (by decide)) (.ok 4096) (some "Ascend910") 32]

theorem reused_resolves : ∃ s, (machine "25.2.0").run Host.new reused = some s ∧
    getDevicePtr s.allocatedMap 4100 8 = some 16388 ∧
    getDevicePtr s.allocatedMap 4100 40 = none := by
  obtain ⟨s, hs⟩ : ∃ s, (machine "25.2.0").run Host.new reused = some s := ⟨_, rfl⟩
  have hnew : isVersionAtLeast25 "25.2.0" = true := by decide +kernel
  have hreach : (machine "25.2.0").ReachableIf (Replaces "25.2.0") s := by
    refine Machine.ReachableIf.run (.start rfl) (fun a _ t => ?_) hs
    cases a <;> first | exact trivial | exact .inl hnew
  have hsound := registered_memory hreach
  refine ⟨s, hs, (hsound.lookup 4100 8 16388 (by decide)).2 ?_, ?_⟩
  · cases hs
    exact ⟨4096, ⟨32, 16384⟩, rfl, by decide, by decide, rfl⟩
  · cases hs
    rfl

/-! ## A freed buffer of an old driver -/

/-- The record of the first buffer stays, and is what the second one is found by. -/
theorem freed_resolves : ∃ s s', (machine "24.1.0").run Host.new (reused.take 2) = some s ∧
    s.buffers = [] ∧ getDevicePtr s.allocatedMap 4096 64 = some 8192 ∧ ¬Sound s ∧
    (machine "24.1.0").run Host.new reused = some s' ∧ s'.registered 4096 = some ⟨32, 16384⟩ ∧
    getDevicePtr s'.allocatedMap 4096 64 = some 8192 ∧ ¬Sound s' := by
  obtain ⟨s, hs⟩ : ∃ s, (machine "24.1.0").run Host.new (reused.take 2) = some s := ⟨_, rfl⟩
  obtain ⟨s', hs'⟩ : ∃ s, (machine "24.1.0").run Host.new reused = some s := ⟨_, rfl⟩
  have hget : getDevicePtr s.allocatedMap 4096 64 = some 8192 := by
    cases hs
    rfl
  have hget' : getDevicePtr s'.allocatedMap 4096 64 = some 8192 := by
    cases hs'
    rfl
  have hother : ∀ b, b ≠ 4096 → s.registered b = none ∧ s'.registered b = none := by
    intro b hb
    cases hs
    cases hs'
    exact ⟨(update_of_ne hb ..).trans ((update_of_ne hb ..).trans
        (update_of_ne hb ..)),
      (update_of_ne hb ..).trans ((update_of_ne hb ..).trans
        ((update_of_ne hb ..).trans (update_of_ne hb ..)))⟩
  refine ⟨s, s', hs, ?_, hget, fun h => ?_, hs', ?_, hget', fun h => ?_⟩
  · cases hs
    rfl
  · obtain ⟨b, reg, hreg, -⟩ := (h.lookup 4096 64 8192 (by decide)).1 hget
    by_cases hb : b = 4096
    · subst hb
      cases hs
      cases hreg
    · rw [(hother b hb).1] at hreg
      cases hreg
  · cases hs'
    rfl
  · obtain ⟨b, reg, hreg, -, hle, -⟩ := (h.lookup 4096 64 8192 (by decide)).1 hget'
    by_cases hb : b = 4096
    · subst hb
      cases hs'
      cases hreg
      exact absurd hle (by decide)
    · rw [(hother b hb).2] at hreg
      cases hreg

end ManagedMemory
