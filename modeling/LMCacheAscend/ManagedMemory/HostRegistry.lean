import LMCacheAscend.Lib.Machine
import Mathlib.Data.List.Infix

/-!
# The host memory that is registered with the device

`allocatedMap` has a record for each registered host pointer.  `register_ptr` and
`unregister_ptr` take the aclrt or the HAL branch by the driver version, and the
allocation and the free functions call them.  What the driver and the system
answer to a call is its `Driver`.

`buffers` are the host buffers that are allocated, and `registered` is what the
registrations amount to: for a base its latest registration, until it is
unregistered or freed.
-/

namespace ManagedMemory

open Lib List Function

/-! ## The map -/

structure RegisteredMemoryRecord where
  ptr : Nat
  devptr : Nat
  buffSize : Nat
  device : Int
deriving DecidableEq, Repr

/-- `std::map`, in the order of the host pointers. -/
structure AllocatedMap where
  records : List RegisteredMemoryRecord
  sorted : records.Pairwise fun a b => a.ptr < b.ptr

/-- `emplace`: a record that has the key stays. -/
def insertRecord (r : RegisteredMemoryRecord) :
    List RegisteredMemoryRecord → List RegisteredMemoryRecord
  | [] => [r]
  | a :: l =>
    if r.ptr < a.ptr then r :: a :: l
    else if a.ptr < r.ptr then a :: insertRecord r l
    else a :: l

theorem mem_insertRecord {r x : RegisteredMemoryRecord} {l : List RegisteredMemoryRecord}
    (h : x ∈ insertRecord r l) : x = r ∨ x ∈ l := by
  induction l with
  | nil => exact .inl (mem_singleton.1 h)
  | cons a l ih =>
    unfold insertRecord at h
    split at h
    · exact mem_cons.1 h
    split at h
    · rcases mem_cons.1 h with rfl | h
      · exact .inr mem_cons_self
      · exact (ih h).imp_right (mem_cons_of_mem a)
    · exact .inr h

theorem pairwise_insertRecord (r : RegisteredMemoryRecord) {l : List RegisteredMemoryRecord}
    (h : l.Pairwise fun a b => a.ptr < b.ptr) :
    (insertRecord r l).Pairwise fun a b => a.ptr < b.ptr := by
  induction l with
  | nil => exact pairwise_singleton ..
  | cons a l ih =>
    obtain ⟨hfirst, hl⟩ := pairwise_cons.1 h
    unfold insertRecord
    split
    · next hlt =>
      refine pairwise_cons.2 ⟨fun b hb => ?_, h⟩
      rcases mem_cons.1 hb with rfl | hb
      · exact hlt
      · exact Nat.lt_trans hlt (hfirst b hb)
    · split
      · next hlt =>
        refine pairwise_cons.2 ⟨fun b hb => ?_, ih hl⟩
        rcases mem_insertRecord hb with rfl | hb
        · exact hlt
        · exact hfirst b hb
      · exact h

namespace AllocatedMap

def empty : AllocatedMap := ⟨[], .nil⟩

def find? (m : AllocatedMap) (hostPtr : Nat) : Option RegisteredMemoryRecord :=
  m.records.find? fun r => r.ptr == hostPtr

def emplace (m : AllocatedMap) (r : RegisteredMemoryRecord) : AllocatedMap :=
  ⟨insertRecord r m.records, pairwise_insertRecord r m.sorted⟩

def erase (m : AllocatedMap) (hostPtr : Nat) : AllocatedMap :=
  ⟨m.records.filter fun r => r.ptr != hostPtr, m.sorted.filter _⟩

end AllocatedMap

/-! ## States -/

/-- The device address of a registration that succeeds. -/
structure DevPtr where
  addr : Nat
  pos : 0 < addr

structure Buffer where
  base : Nat
  size : Nat
deriving DecidableEq, Repr

structure Registration where
  buffSize : Nat
  devptr : Nat

structure Host where
  allocatedMap : AllocatedMap
  buffers : List Buffer
  registered : Nat → Option Registration

def Host.new : Host := ⟨AllocatedMap.empty, [], fun _ => none⟩

/-- What the driver and the system answer to a call. -/
structure Driver where
  aclrtHostRegister : Option DevPtr
  aclrtHostUnregister : Int
  getDevice : Except String Int
  halHostRegister : Option DevPtr
  halHostUnregisterEx : Int
  mlock : Bool
  munmap : Bool
  aclrtFreeHost : Int

namespace Host

def allocate (s : Host) (b : Buffer) : Host := { s with buffers := s.buffers ++ [b] }

/-- The memory is given back. -/
def release (s : Host) (base : Nat) : Host :=
  { s with
    buffers := s.buffers.filter fun b => b.base != base
    registered := update s.registered base none }

/-- A registration of the driver, with its record. -/
def record (s : Host) (hostPtr bufferSize : Nat) (devPtr : Nat) (device : Int) : Host :=
  { s with
    allocatedMap := s.allocatedMap.emplace ⟨hostPtr, devPtr, bufferSize, device⟩
    registered := update s.registered hostPtr (some ⟨bufferSize, devPtr⟩) }

/-- The buffer is no longer registered. -/
def forget (s : Host) (hostPtr : Nat) : Host :=
  { s with registered := update s.registered hostPtr none }

def munmap (s : Host) (d : Driver) (base : Nat) : Host := if d.munmap then s.release base else s

end Host

/-! ## Registrations -/

/-- A function that may throw, and the host after it. -/
abbrev Result (α : Type) := Except String α × Host

variable (s : Host) (d : Driver)

def registerHostPtr (hostPtr bufferSize : Nat) : Result (Option RegisteredMemoryRecord) :=
  if hostPtr = 0 ∨ bufferSize = 0 then
    (.error "Error: hostPtr cannot be null and bufferSize must be greater than 0.", s)
  else match s.allocatedMap.find? hostPtr with
    | some r => (.ok (some r), s)
    | none => match d.aclrtHostRegister with
      | none => (.ok none, s)
      | some devPtr =>
        let s' := s.record hostPtr bufferSize devPtr.addr (-1)
        (.ok (s'.allocatedMap.find? hostPtr), s')

def registerMappedMem (hostPtr devPtr bufferSize : Nat) : Result (Option RegisteredMemoryRecord) :=
  if hostPtr = 0 ∨ devPtr = 0 ∨ bufferSize = 0 then
    (.error ("Error: hostPtr and devPtr cannot be null and bufferSize must be greater "
      ++ "than 0."), s)
  else match s.allocatedMap.find? hostPtr with
    | some _ => (.error "Error: hostPtr already registered to host memory manager.", s)
    | none =>
      let s' := s.record hostPtr bufferSize devPtr (-1)
      (.ok (s'.allocatedMap.find? hostPtr), s')

/-- The check of the size is `bufferSize >= 0`, which always holds. -/
def halRegisterHostPtr (hostPtr bufferSize : Nat) : Result (Option RegisteredMemoryRecord) :=
  match d.getDevice, d.halHostRegister with
  | .error e, _ => (.error e, s)
  | .ok _, none => (.ok none, s)
  | .ok device, some devPtr =>
    if d.mlock then
      let s' := s.record hostPtr bufferSize devPtr.addr device
      (.ok (s'.allocatedMap.find? hostPtr), s')
    else if d.halHostUnregisterEx ≠ 0 then
      (.error ("Unable to pin host memory, unable to unregister. Error code: "
        ++ toString d.halHostUnregisterEx), s)
    else (.error "Unable to pin host memory with error code: -1", s.munmap d hostPtr)

def aclUnregisterHostPtr (hostPtr : Nat) : Result Int :=
  if hostPtr = 0 then (.error "Error: hostPtr cannot be null.", s)
  else match s.allocatedMap.find? hostPtr with
    | none => (.ok 0, s)
    | some _ => (.ok d.aclrtHostUnregister,
        { s with allocatedMap := s.allocatedMap.erase hostPtr }.forget hostPtr)

/-- The record is read for its device and stays in the map. -/
def halUnregisterHostPtr (hostPtr : Nat) : Result Int :=
  if hostPtr = 0 then (.error "Error: hostPtr cannot be null.", s)
  else match s.allocatedMap.find? hostPtr with
    | none => (.ok 0, s)
    | some _ => (.ok d.halHostUnregisterEx, s.forget hostPtr)

/-! ## Lookups -/

/-- The record has the range; with the pointer of the device. -/
def RegisteredMemoryRecord.resolve (r : RegisteredMemoryRecord) (hostPtr requiredSize : Nat) :
    Option Nat :=
  if r.ptr ≤ hostPtr then
    let offset := hostPtr - r.ptr
    if offset < r.buffSize ∧ requiredSize ≤ r.buffSize - offset then
      some ((r.devptr + offset) % 2 ^ 64)
    else none
  else none

/-- The first record that has the range. -/
def getDevicePtr (m : AllocatedMap) (hostPtr requiredSize : Nat) : Option Nat :=
  if hostPtr = 0 ∨ requiredSize = 0 then none
  else m.records.findSome? fun r => r.resolve hostPtr requiredSize

/-! ## The driver version -/

/-- `isspace`: the vertical tab and the form feed too. -/
def isSpace (c : Char) : Bool := c.isWhitespace || c.toNat == 11 || c.toNat == 12

/-- `std::stol`: blanks, a sign and digits at the start. -/
def stol (s : List Char) : Option Int :=
  let s := s.dropWhile isSpace
  let (negative, s) := match s with
    | '-' :: s => (true, s)
    | '+' :: s => (false, s)
    | s => (false, s)
  let digits := s.takeWhile Char.isDigit
  if digits = [] then none
  else
    let value : Int := digits.foldl (fun n c => 10 * n + (c.toNat - 48 : Nat)) 0
    let value := if negative then -value else value
    if -2 ^ 63 ≤ value ∧ value < 2 ^ 63 then some value else none

/-- Uncertain versions are old ones. -/
def isVersionAtLeast25 (version : String) : Bool :=
  if version = "" then false
  else match stol version.toList with
    | some major => decide (25 ≤ major)
    | none => false

section

variable (version : String)

/-- `register_ptr`. -/
def registerPtr (s : Host) (d : Driver) (ptr size : Nat) : Result (Option Nat) :=
  if ptr = 0 then (.error "ptr is a nullptr.", s)
  else
    let (record, s') :=
      if isVersionAtLeast25 version then registerHostPtr s d ptr size
      else halRegisterHostPtr s d ptr size
    (record.map fun r => r.map RegisteredMemoryRecord.devptr, s')

def registerMapping (s : Host) (hostPtr devPtr size : Nat) : Result (Option Nat) :=
  if hostPtr = 0 then (.error "hostPtr is a nullptr.", s)
  else if devPtr = 0 then (.error "devPtr is a nullptr.", s)
  else
    let (record, s') := registerMappedMem s hostPtr devPtr size
    (record.map fun r => r.map RegisteredMemoryRecord.devptr, s')

def unregisterPtr (s : Host) (d : Driver) (ptr : Nat) : Result Int :=
  if ptr = 0 then (.error "ptr is a nullptr.", s)
  else if isVersionAtLeast25 version then aclUnregisterHostPtr s d ptr
  else halUnregisterHostPtr s d ptr

/-! ## Allocations -/

def freePinnedPtr (s : Host) (d : Driver) (ptr : Nat) : Result Unit :=
  match unregisterPtr version s d ptr with
  | (.error e, s') => (.error e, s')
  | (.ok _, s') =>
    if d.aclrtFreeHost ≠ 0 then
      (.error ("aclrtFreeHost failed: " ++ toString d.aclrtFreeHost), s')
    else (.ok (), s'.release ptr)

/-- A chip that cannot be asked is not a 310. -/
def is310 (socVersion : Option String) : Bool :=
  socVersion.any fun name => name.toList.tails.any fun s => "310".toList.isPrefixOf s

/-- `aclrtMallocHost` gives the pointer or its error. -/
def allocPinnedPtr (s : Host) (d : Driver) (malloc : Except Int Nat) (socVersion : Option String)
    (size : Nat) : Result Nat :=
  match malloc with
  | .error err => (.error ("aclrtMallocHost failed: " ++ toString err), s)
  | .ok ptr =>
    let s := s.allocate ⟨ptr, size⟩
    if is310 socVersion then (.ok ptr, s)
    else match registerPtr version s d ptr size with
      | (.error e, s') => (.error e, s')
      | (.ok (some _), s') => (.ok ptr, s')
      | (.ok none, s') => match freePinnedPtr version s' d ptr with
        | (.error e, s') => (.error e, s')
        | (.ok _, s') => (.error "register ptr failed", s')

/-- A mapping of the system that is registered; `prepared` is what comes between. -/
def allocMapped (s : Host) (d : Driver) (mmap : Except String Nat) (prepared : Except String Unit)
    (failure : String) (size : Nat) : Result Nat :=
  match mmap with
  | .error e => (.error e, s)
  | .ok ptr =>
    let s := s.allocate ⟨ptr, size⟩
    match prepared with
    | .error e => (.error e, s.munmap d ptr)
    | .ok _ => match registerPtr version s d ptr size with
      | (.error e, s') => (.error e, s')
      | (.ok (some _), s') => (.ok ptr, s')
      | (.ok none, s') => (.error failure, s'.munmap d ptr)

/-- `mbind` prepares it. -/
def allocPinnedNumaPtr (s : Host) (d : Driver) (mmap : Except String Nat)
    (mbind : Except String Unit) (size : Nat) : Result Nat :=
  allocMapped version s d (mmap.mapError ("mmap failed: " ++ ·)) (mbind.mapError
    ("mbind failed: " ++ ·)) "unable to register Pinned Numa HostPtr." size

/-- The first touch prepares it. -/
def allocShmPinnedPtr (s : Host) (d : Driver) (mmap : Except String Nat)
    (firstTouch : Except String Unit) (shmName : String) (size : Nat) : Result Nat :=
  if size = 0 then (.error ("alloc_shm_pinned_ptr requires size > 0 for " ++ shmName), s)
  else if shmName = "" then (.error "alloc_shm_pinned_ptr requires a shm_name", s)
  else allocMapped version s d mmap firstTouch ("register_ptr failed for " ++ shmName) size

def attachShmPinnedPtr (s : Host) (d : Driver) (mmap : Except String Nat) (shmName : String)
    (size : Nat) : Result Nat :=
  if size = 0 then (.error ("attach_shm_pinned_ptr requires size > 0 for " ++ shmName), s)
  else if shmName = "" then (.error "attach_shm_pinned_ptr requires a shm_name", s)
  else allocMapped version s d mmap (.ok ()) ("register_ptr attach failed for " ++ shmName) size

/-- Unregister, then unmap, whatever the first one answers; the answers are looked at last. -/
def freeMapped (s : Host) (d : Driver) (unregister unmap : String) (ptr : Nat) : Result Unit :=
  match unregisterPtr version s d ptr with
  | (.error e, s') => (.error e, s')
  | (.ok unRegErr, s') =>
    let s' := s'.munmap d ptr
    if unRegErr ≠ 0 then (.error (unregister ++ toString unRegErr), s')
    else if d.munmap then (.ok (), s')
    else (.error (unmap ++ "-1"), s')

def freePinnedNumaPtr (s : Host) (d : Driver) (ptr : Nat) : Result Unit :=
  freeMapped version s d "unregister_ptr failed: " "munmap failed: " ptr

def freeShmPinnedPtr (s : Host) (d : Driver) (ptr size : Nat) (shmName : String) : Result Unit :=
  if ptr = 0 then (.error "free_shm_pinned_ptr requires non-null ptr", s)
  else if size = 0 then (.error ("free_shm_pinned_ptr requires size > 0 for " ++ shmName), s)
  else freeMapped version s d "unregister_ptr failed: " "munmap failed: " ptr

def detachShmPinnedPtr (s : Host) (d : Driver) (ptr size : Nat) : Result Unit :=
  if ptr = 0 then (.error "detach_shm_pinned_ptr requires non-null ptr", s)
  else if size = 0 then (.error "detach_shm_pinned_ptr requires size > 0", s)
  else freeMapped version s d "unregister_ptr detach failed: " "munmap detach failed: " ptr

end

/-! ## Runs -/

inductive Action
  | allocPinned (d : Driver) (malloc : Except Int Nat) (socVersion : Option String) (size : Nat)
  | allocPinnedNuma (d : Driver) (mmap : Except String Nat) (mbind : Except String Unit)
      (size : Nat)
  | allocShmPinned (d : Driver) (mmap : Except String Nat) (firstTouch : Except String Unit)
      (shmName : String) (size : Nat)
  | attachShmPinned (d : Driver) (mmap : Except String Nat) (shmName : String) (size : Nat)
  | freePinned (d : Driver) (ptr : Nat)
  | freePinnedNuma (d : Driver) (ptr size : Nat)
  | freeShmPinned (d : Driver) (ptr size : Nat) (shmName : String)
  | detachShmPinned (d : Driver) (ptr size : Nat)
  | register (d : Driver) (ptr size : Nat)
  | registerMapping (hostPtr devPtr size : Nat)
  | unregister (d : Driver) (ptr : Nat)

/-- A new buffer is somewhere in the address space where no other one is. -/
def Host.Fits (ptr size : Nat) : Prop :=
  0 < ptr ∧ 0 < size ∧ ptr + size ≤ 2 ^ 64 ∧
    ∀ b ∈ s.buffers, ptr + size ≤ b.base ∨ b.base + b.size ≤ ptr

instance (s : Host) (ptr size : Nat) : Decidable (s.Fits ptr size) :=
  inferInstanceAs (Decidable (_ ∧ _ ∧ _ ∧ _))

/-- Which calls there are: of the system's new buffers, and of the program with buffers that are
allocated. -/
def Host.Allows : Action → Prop
  | .allocPinned _ malloc _ size => ∀ ptr ∈ malloc.toOption, s.Fits ptr size
  | .allocPinnedNuma _ mmap _ size => ∀ ptr ∈ mmap.toOption, s.Fits ptr size
  | .allocShmPinned _ mmap _ _ size => ∀ ptr ∈ mmap.toOption, s.Fits ptr size
  | .attachShmPinned _ mmap _ size => ∀ ptr ∈ mmap.toOption, s.Fits ptr size
  | .freePinned _ ptr => ∃ b ∈ s.buffers, b.base = ptr
  | .freePinnedNuma _ ptr size => ⟨ptr, size⟩ ∈ s.buffers
  | .freeShmPinned _ ptr size _ => ⟨ptr, size⟩ ∈ s.buffers
  | .detachShmPinned _ ptr size => ⟨ptr, size⟩ ∈ s.buffers
  | .register _ ptr size => ∃ b ∈ s.buffers, b.base = ptr ∧ size ≤ b.size
  | .registerMapping ptr _ size => ∃ b ∈ s.buffers, b.base = ptr ∧ size ≤ b.size
  | .unregister _ _ => True

instance (s : Host) : (a : Action) → Decidable (s.Allows a)
  | .allocPinned _ malloc _ size =>
    inferInstanceAs (Decidable (∀ ptr ∈ malloc.toOption, s.Fits ptr size))
  | .allocPinnedNuma _ mmap _ size | .allocShmPinned _ mmap _ _ size
  | .attachShmPinned _ mmap _ size =>
    inferInstanceAs (Decidable (∀ ptr ∈ mmap.toOption, s.Fits ptr size))
  | .freePinned _ ptr => inferInstanceAs (Decidable (∃ b ∈ s.buffers, b.base = ptr))
  | .freePinnedNuma _ ptr size | .freeShmPinned _ ptr size _ | .detachShmPinned _ ptr size =>
    inferInstanceAs (Decidable (⟨ptr, size⟩ ∈ s.buffers))
  | .register _ ptr size | .registerMapping ptr _ size =>
    inferInstanceAs (Decidable (∃ b ∈ s.buffers, b.base = ptr ∧ size ≤ b.size))
  | .unregister _ _ => .isTrue trivial

def perform (version : String) (s : Host) : Action → Host
  | .allocPinned d malloc socVersion size => (allocPinnedPtr version s d malloc socVersion size).2
  | .allocPinnedNuma d mmap mbind size => (allocPinnedNumaPtr version s d mmap mbind size).2
  | .allocShmPinned d mmap firstTouch shmName size =>
    (allocShmPinnedPtr version s d mmap firstTouch shmName size).2
  | .attachShmPinned d mmap shmName size => (attachShmPinnedPtr version s d mmap shmName size).2
  | .freePinned d ptr => (freePinnedPtr version s d ptr).2
  | .freePinnedNuma d ptr _ => (freePinnedNumaPtr version s d ptr).2
  | .freeShmPinned d ptr size shmName => (freeShmPinnedPtr version s d ptr size shmName).2
  | .detachShmPinned d ptr size => (detachShmPinnedPtr version s d ptr size).2
  | .register d ptr size => (registerPtr version s d ptr size).2
  | .registerMapping hostPtr devPtr size => (ManagedMemory.registerMapping s hostPtr devPtr size).2
  | .unregister d ptr => (unregisterPtr version s d ptr).2

def step (version : String) (s : Host) (a : Action) : Option Host :=
  if s.Allows a then some (perform version s a) else none

/-- Any sequence of calls with one driver. -/
def machine (version : String) : Machine Host Action := ⟨fun s => s = Host.new, step version⟩

end ManagedMemory
