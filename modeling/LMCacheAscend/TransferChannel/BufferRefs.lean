import LMCacheAscend.Lib.Traverse
import Mathlib.Data.List.Pairwise

/-!
# References to pages of registered buffers

A channel registers its buffers and sends their addresses, sizes and page sizes to
its peers.  A page is referred to by the uuid of its buffer and its index in it:
`resolve_buffer_ref` makes the reference on the side of the buffer, and
`resolve_addr` finds the address on the other one.
-/

namespace BufferRefs

open Lib List

inductive Exc
  | valueError (msg : String)
  | indexError (msg : String)
  | assertionError
  | notImplementedError (msg : String)
deriving DecidableEq, Repr

/-! ## Registered buffers -/

inductive BufferType
  | cpu
  | npu
deriving DecidableEq, Repr

structure BufferConfig where
  ptr : Nat
  size : Nat
  deviceType : BufferType
  alignBytes : Nat
deriving DecidableEq, Repr

structure MemHandleMeta where
  bufferPtr : Nat
  bufferSize : Nat
  pageSize : Nat
  localBufferAddrs : Option (List Nat)
  bufferType : BufferType
  uuid : String
deriving DecidableEq, Repr

/-- `range(start, stop, step)`. -/
def pyRange (start stop step : Nat) : Except Exc (List Nat) :=
  if step = 0 then .error (.valueError "range() arg 3 must not be zero")
  else .ok ((range ((stop - start + step - 1) / step)).map fun k => start + k * step)

variable (buf : BufferConfig) (metas : List MemHandleMeta) (channel : Channel)

/-- `_register_buffer` of each channel, as far as the addresses. -/
def registerBuffer (uuid : String) : Except Exc MemHandleMeta :=
  (pyRange buf.ptr (buf.ptr + buf.size) buf.alignBytes).map fun addrs =>
    ⟨buf.ptr, buf.size, buf.alignBytes, some addrs, buf.deviceType, uuid⟩

structure PeerBufferInfo where
  uuid : String
  bufferPtr : Nat
  bufferSize : Nat
  pageSize : Nat
  isDevice : Bool
deriving DecidableEq, Repr

def makeBufferInfos : List PeerBufferInfo :=
  metas.map fun m =>
    ⟨m.uuid, m.bufferPtr, m.bufferSize, m.pageSize, decide (m.bufferType = .npu)⟩

structure RemotePeerBufferHandle where
  uuid : String
  bufferPtr : Nat
  bufferSize : Nat
  pageSize : Nat
  numPages : Nat
deriving DecidableEq, Repr

def RemotePeerBufferHandle.new (info : PeerBufferInfo) : RemotePeerBufferHandle :=
  ⟨info.uuid, info.bufferPtr, info.bufferSize, info.pageSize, info.bufferSize / info.pageSize⟩

structure RemotePeerBufferList where
  handles : List RemotePeerBufferHandle

namespace RemotePeerBufferList

def new (infos : List PeerBufferInfo) : RemotePeerBufferList :=
  ⟨infos.map RemotePeerBufferHandle.new⟩

/-- `_uuid_to_handle` has the last handle of a uuid. -/
def getHandleByUuid (l : RemotePeerBufferList) (bufferUuid : String) :
    Except Exc RemotePeerBufferHandle :=
  match l.handles.reverse.find? fun h => h.uuid == bufferUuid with
  | some h => .ok h
  | none => .error (.valueError
      ("Buffer UUID " ++ bufferUuid ++ " not found in remote peer buffers"))

def resolveAddr (l : RemotePeerBufferList) (bufferUuid : String) (pageIndex : Int) :
    Except Exc Int := do
  let handle ← l.getHandleByUuid bufferUuid
  if 0 ≤ pageIndex ∧ pageIndex < handle.numPages then
    .ok (handle.bufferPtr + pageIndex * handle.pageSize)
  else .error (.indexError ("page_index " ++ toString pageIndex ++ " out of range [0, "
    ++ toString handle.numPages ++ ") for remote buffer " ++ bufferUuid))

end RemotePeerBufferList

/-! ## References -/

/-- The buffer has the pointer. -/
def MemHandleMeta.Has (m : MemHandleMeta) (ptr : Nat) : Prop :=
  m.bufferPtr ≤ ptr ∧ ptr < m.bufferPtr + m.bufferSize

instance (m : MemHandleMeta) (ptr : Nat) : Decidable (m.Has ptr) :=
  inferInstanceAs (Decidable (_ ∧ _))

def notFound (ptr : Nat) : Exc :=
  .valueError ("Pointer " ++ toString ptr ++ " not found in any registered memory handle.")

def resolveBufferRef (dataPtr : Nat) (pageIndex : Int) : Except Exc (String × Int) :=
  match metas.find? fun m => decide (m.Has dataPtr) with
  | none => .error (notFound dataPtr)
  | some m => match m.localBufferAddrs with
    | none => .ok (m.uuid, pageIndex)
    | some addrs =>
      if 0 ≤ pageIndex ∧ pageIndex < addrs.length then .ok (m.uuid, pageIndex)
      else .error (.indexError ("page_index " ++ toString pageIndex ++ " out of range [0, "
        ++ toString addrs.length ++ ") for buffer " ++ m.uuid))

/-- `l[i]`: a negative index counts from the end. -/
def pyGet? {α : Type} (l : List α) (i : Int) : Option α :=
  if 0 ≤ i then l[i.toNat]? else if 0 ≤ i + l.length then l[(i + l.length).toNat]? else none

def resolveLocalAddr (ptr : Nat) (idx : Int) : Except Exc Nat :=
  match metas.find? fun m => decide (m.Has ptr) with
  | none => .error (notFound ptr)
  | some m => match m.localBufferAddrs with
    | none => .error (.valueError ("Buffer " ++ m.uuid ++ " has no local_buffer_addrs"))
    | some addrs => match pyGet? addrs idx with
      | some addr => .ok addr
      | none => .error (.indexError "list index out of range")

structure MemoryObj where
  dataPtr : Nat
  /-- `meta.address`. -/
  address : Int
deriving DecidableEq, Repr

inductive Item
  | obj (o : MemoryObj)
  | bytes
deriving DecidableEq, Repr

/-- The loop over the objects: an assertion wants memory objects only. -/
def Item.ref : Item → Except Exc (String × Int)
  | .obj o => resolveBufferRef metas o.dataPtr o.address
  | .bytes => .error .assertionError

def getLocalBufferRefs (objects : List Item) : Except Exc (List String × List Int) :=
  match objects with
  | [] => .error (.indexError "list index out of range")
  | .bytes :: _ => .error (.notImplementedError "Sending raw bytes is not supported")
  | .obj _ :: _ => (objects.mapM (Item.ref metas)).map List.unzip

/-! ## Descriptors -/

/-- A loop over two lists, which have to be of one length if it is `strict`. -/
def zipWithM {α β γ : Type} (strict : Bool) (f : α → β → Except Exc γ) :
    List α → List β → Except Exc (List γ)
  | a :: as, b :: bs => do
    let c ← f a b
    let cs ← zipWithM strict f as bs
    return c :: cs
  | [], [] => .ok []
  | _, _ => if strict then .error (.valueError "zip() arguments differ in length") else .ok []

structure TransferSpec where
  remoteBufferUuids : Option (List String)
  remoteMemIndexes : Option (List Int)
  remoteIndexes : Option (List Int)

inductive Channel
  | hccl
  | hcomm
  | hixl
deriving DecidableEq, Repr

/-- Without references: the HCCL channel raises, the others count in the first buffer. -/
def firstAddrs (remote : RemotePeerBufferList) (spec : TransferSpec) : Except Exc (List Int) :=
  match channel with
  | .hccl => .error (.valueError ("transfer_spec must contain either "
      ++ "(remote_buffer_uuids, remote_mem_indexes) or remote_addrs"))
  | _ => match spec.remoteIndexes with
    | none => .error (.valueError ("transfer_spec must contain either "
        ++ "(remote_buffer_uuids, remote_mem_indexes) or remote_indexes"))
    | some indexes => match remote.handles with
      | [] => .error (.indexError "list index out of range")
      | first :: _ => .ok (indexes.map fun i => first.bufferPtr + i * first.pageSize)

/-- `_resolve_remote_addrs` of the HCCL channel, `_resolve_transfer_addrs` of the others. -/
def resolveTransferAddrs (remote : RemotePeerBufferList) (spec : TransferSpec) :
    Except Exc (List Int) :=
  match spec.remoteBufferUuids, spec.remoteMemIndexes with
  | some uuids, some indexes => zipWithM true remote.resolveAddr uuids indexes
  | _, _ => firstAddrs channel remote spec

structure Descriptor where
  localAddr : Nat
  remoteAddr : Int
  length : Nat
deriving DecidableEq, Repr

def describe (pageSize : Nat) : Item → Int → Except Exc Descriptor
  | .bytes, _ => .error (.notImplementedError "Sending raw bytes is not supported")
  | .obj o, remoteAddr =>
    (resolveLocalAddr metas o.dataPtr o.address).map fun addr => ⟨addr, remoteAddr, pageSize⟩

/-- The descriptors of a read or write: `_build_op_descs`, and the ends of the operations of
`_build_write_ops` and `_build_read_ops`, whose loop stops with the shorter list. -/
def buildOpDescs (metas : List MemHandleMeta) (pageSize : Nat) (remote : RemotePeerBufferList)
    (objects : List Item) (spec : TransferSpec) : Except Exc (List Descriptor) := do
  let remoteAddrs ← resolveTransferAddrs channel remote spec
  zipWithM (channel != .hccl) (describe metas pageSize) objects remoteAddrs

/-- `HcclWriteOp` and `HcclReadOp`: from `src` to `dst`. -/
structure HcclOp where
  src : Int
  dst : Int
  s : Nat
deriving DecidableEq, Repr

def buildWriteOps (pageSize : Nat) (remote : RemotePeerBufferList) (objects : List Item)
    (spec : TransferSpec) : Except Exc (List HcclOp) :=
  (buildOpDescs .hccl metas pageSize remote objects spec).map fun descs =>
    descs.map fun d => ⟨d.localAddr, d.remoteAddr, d.length⟩

def buildReadOps (pageSize : Nat) (remote : RemotePeerBufferList) (objects : List Item)
    (spec : TransferSpec) : Except Exc (List HcclOp) :=
  (buildOpDescs .hccl metas pageSize remote objects spec).map fun descs =>
    descs.map fun d => ⟨d.remoteAddr, d.localAddr, d.length⟩

/-! ## The buffers of a channel -/

/-- Buffers that can be registered: pages have a size, uuids are unique, and the buffers are
different memory. -/
structure Buffers where
  configs : List (BufferConfig × String)
  nonempty : configs ≠ []
  paged : ∀ c ∈ configs, 0 < c.1.alignBytes
  uuids : (configs.map Prod.snd).Nodup
  apart : configs.Pairwise fun c d =>
    c.1.ptr + c.1.size ≤ d.1.ptr ∨ d.1.ptr + d.1.size ≤ c.1.ptr

/-- The number of addresses of a buffer: a last page that is not whole counts. -/
def BufferConfig.localPages : Nat :=
  (buf.size + buf.alignBytes - 1) / buf.alignBytes

/-- What `registerBuffer` gives. -/
def BufferConfig.metaOf (uuid : String) : MemHandleMeta :=
  ⟨buf.ptr, buf.size, buf.alignBytes,
    some ((range buf.localPages).map fun k => buf.ptr + k * buf.alignBytes),
    buf.deviceType, uuid⟩

theorem registerBuffer_ok {buf : BufferConfig} (h : 0 < buf.alignBytes) (uuid : String) :
    registerBuffer buf uuid = .ok (buf.metaOf uuid) := by
  unfold registerBuffer pyRange
  rw [if_neg (Nat.pos_iff_ne_zero.1 h), Nat.add_sub_cancel_left]
  rfl

namespace Buffers

variable (A : Buffers)

def memHandles : List MemHandleMeta := A.configs.map fun c => c.1.metaOf c.2

theorem register_ok :
    A.configs.mapM (fun c => registerBuffer c.1 c.2) = .ok A.memHandles :=
  mapM_eq_ok fun c hc => registerBuffer_ok (A.paged c hc) c.2

/-- The page size of every transfer of the channel. -/
def pageSize : Nat := (A.configs.head A.nonempty).1.alignBytes

/-- What a peer has of the buffers. -/
def peerList : RemotePeerBufferList := .new (makeBufferInfos A.memHandles)

end Buffers

end BufferRefs
