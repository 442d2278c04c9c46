import LMCacheAscend.TransferChannel.BufferRefs
import Mathlib.Data.List.Nodup

/-!
# Round trips of references

A reference to a whole page comes out as the start of that page.  The side of the
buffer accepts the last page of a buffer also where it is not whole, and the other
side does not.  A descriptor has the page size of the first buffer of its channel,
whatever the pages at its ends have.
-/

namespace BufferRefs

open Lib List

/-- The pages of a buffer that are whole. -/
def BufferConfig.numPages (buf : BufferConfig) : Nat := buf.size / buf.alignBytes

namespace Buffers

variable (A B : Buffers)

/-- A memory object in one of the buffers. -/
structure Object where
  obj : MemoryObj
  buf : BufferConfig × String
  mem : buf ∈ A.configs
  has : (buf.1.metaOf buf.2).Has obj.dataPtr

variable {A B}

/-- The page of the object is a whole one. -/
def Object.Whole (o : A.Object) : Prop :=
  0 ≤ o.obj.address ∧ o.obj.address < o.buf.1.numPages

end Buffers

/-- The start of page `i` of the buffer. -/
def BufferConfig.pageStart (buf : BufferConfig) (i : Int) : Int := buf.ptr + i * buf.alignBytes

/-- The bytes from `start` on are of page `i` of the buffer. -/
def BufferConfig.InPage (buf : BufferConfig) (i start : Int) (length : Nat) : Prop :=
  buf.pageStart i ≤ start ∧ start + length ≤ buf.pageStart (i + 1)

namespace BufferConfig

variable (buf : BufferConfig)

theorem inPage_iff (i : Int) (length : Nat) :
    buf.InPage i (buf.pageStart i) length ↔ length ≤ buf.alignBytes := by
  unfold InPage pageStart
  rw [Int.add_mul, Int.one_mul]
  omega

theorem whole_le_local : buf.numPages ≤ buf.localPages := by
  unfold numPages localPages
  rcases Nat.eq_zero_or_pos buf.alignBytes with h | h
  · simp only [h, Nat.div_zero, Nat.le_refl]
  · exact Nat.div_le_div_right (by omega)

theorem localPages_eq_iff {buf : BufferConfig} (h : 0 < buf.alignBytes) :
    buf.localPages = buf.numPages ↔ buf.alignBytes ∣ buf.size := by
  unfold localPages numPages
  have hmod := Nat.div_add_mod buf.size buf.alignBytes
  have hlt := Nat.mod_lt buf.size h
  rw [Nat.dvd_iff_mod_eq_zero]
  constructor
  · intro heq
    by_contra hne
    have hup : (buf.size / buf.alignBytes + 1) * buf.alignBytes ≤
        buf.size + buf.alignBytes - 1 := by
      rw [Nat.add_mul, Nat.one_mul, Nat.mul_comm]
      omega
    have := (Nat.le_div_iff_mul_le h).2 hup
    omega
  · intro hz
    have hsize : buf.size + buf.alignBytes - 1 =
        buf.alignBytes - 1 + buf.alignBytes * (buf.size / buf.alignBytes) := by omega
    rw [hsize, Nat.add_mul_div_left _ _ h, Nat.div_eq_of_lt (by omega), Nat.zero_add]

end BufferConfig

theorem pyGet?_eq_some {α : Type} {l : List α} {i : Int} {a : α} (h : pyGet? l i = some a) :
    ∃ j : Nat, l[j]? = some a ∧ (0 ≤ i → (j : Int) = i) := by
  unfold pyGet? at h
  split at h
  · exact ⟨i.toNat, h, fun hi => Int.toNat_of_nonneg hi⟩
  split at h
  · exact ⟨_, h, fun hi => absurd hi ‹_›⟩
  · cases h

namespace Buffers

variable {A B : Buffers}

/-! ## Lookups -/

variable (o : A.Object) {addr : Int}

/-- Buffers are different memory: the first buffer that has a pointer is the only one. -/
theorem find_meta :
    A.memHandles.find? (fun m => decide (m.Has o.obj.dataPtr)) = some (o.buf.1.metaOf o.buf.2) := by
  have mem := o.mem
  have has := o.has
  have hap := A.apart
  unfold memHandles
  generalize A.configs = configs at mem hap
  generalize o.buf = buf at mem has ⊢
  induction configs with
  | nil => cases mem
  | cons c cs ih =>
    rw [pairwise_cons] at hap
    rw [map_cons, find?_cons]
    rcases mem_cons.1 mem with rfl | hin
    · rw [decide_eq_true has]
    have hnot : ¬ (c.1.metaOf c.2).Has o.obj.dataPtr := by
      intro hc
      have := hap.1 buf hin
      simp only [MemHandleMeta.Has, BufferConfig.metaOf] at hc has
      omega
    rw [decide_eq_false hnot]
    exact ih hap.2 hin

/-- The handle a peer has of a buffer. -/
def handleOf (c : BufferConfig × String) : RemotePeerBufferHandle :=
  ⟨c.2, c.1.ptr, c.1.size, c.1.alignBytes, c.1.numPages⟩

theorem peerList_handles (A : Buffers) : A.peerList.handles = A.configs.map handleOf := by
  simp only [peerList, RemotePeerBufferList.new, makeBufferInfos, memHandles, map_map]
  rfl

variable {c : BufferConfig × String} {k : Nat} {channel : Channel} {spec : TransferSpec}
  {items : List Item}

/-- Uuids are unique: the last handle of a uuid is the only one. -/
theorem getHandleByUuid_eq (h : c ∈ A.configs) :
    A.peerList.getHandleByUuid c.2 = .ok (handleOf c) := by
  have hmem : handleOf c ∈ A.peerList.handles.reverse :=
    mem_reverse.2 (A.peerList_handles ▸ mem_map_of_mem h)
  unfold RemotePeerBufferList.getHandleByUuid
  cases hf : A.peerList.handles.reverse.find? fun h => h.uuid == c.2 with
  | none => exact absurd (find?_eq_none.1 hf _ hmem) (by simp [handleOf])
  | some x =>
    have hx := mem_reverse.1 (mem_of_find?_eq_some hf)
    rw [peerList_handles] at hx
    obtain ⟨d, hd, rfl⟩ := mem_map.1 hx
    have huuid : d.2 = c.2 := by simpa [handleOf] using find?_some hf
    rw [inj_on_of_nodup_map A.uuids hd h huuid]

/-! ## Range checks -/

theorem resolveBufferRef_eq (i : Int) :
    resolveBufferRef A.memHandles o.obj.dataPtr i =
      if 0 ≤ i ∧ i < o.buf.1.localPages then .ok (o.buf.2, i)
      else .error (.indexError ("page_index " ++ toString i ++ " out of range [0, "
        ++ toString o.buf.1.localPages ++ ") for buffer " ++ o.buf.2)) := by
  simp only [resolveBufferRef, find_meta o, BufferConfig.metaOf, length_map, length_range]

theorem resolveAddr_eq (h : c ∈ A.configs) (i : Int) :
    A.peerList.resolveAddr c.2 i =
      if 0 ≤ i ∧ i < c.1.numPages then .ok (c.1.pageStart i)
      else .error (.indexError ("page_index " ++ toString i ++ " out of range [0, "
        ++ toString c.1.numPages ++ ") for remote buffer " ++ c.2)) := by
  unfold RemotePeerBufferList.resolveAddr
  rw [getHandleByUuid_eq h]
  rfl

theorem resolveBufferRef_isOk (i : Int) :
    (resolveBufferRef A.memHandles o.obj.dataPtr i).isOk = true ↔
      0 ≤ i ∧ i < o.buf.1.localPages := by
  rw [resolveBufferRef_eq]
  split <;> simp [Except.isOk, Except.toBool, *]

theorem resolveAddr_isOk (h : c ∈ A.configs) (i : Int) :
    (A.peerList.resolveAddr c.2 i).isOk = true ↔
      0 ≤ i ∧ i < c.1.numPages := by
  rw [resolveAddr_eq h]
  split <;> simp [Except.isOk, Except.toBool, *]

/-- The sides accept the same indexes exactly for buffers of whole pages. -/
theorem accept_iff :
    (∀ i, (resolveBufferRef A.memHandles o.obj.dataPtr i).isOk = true ↔
      (A.peerList.resolveAddr o.buf.2 i).isOk = true) ↔ o.buf.1.alignBytes ∣ o.buf.1.size := by
  rw [← BufferConfig.localPages_eq_iff (A.paged _ o.mem)]
  simp only [resolveBufferRef_isOk, resolveAddr_isOk o.mem]
  constructor
  · intro h
    refine Nat.le_antisymm ?_ o.buf.1.whole_le_local
    by_contra hlt
    have := (h o.buf.1.numPages).1 ⟨by omega, by omega⟩
    omega
  · intro h i
    rw [h]

/-! ## The round trip -/

theorem ref_eq {o : A.Object} (h : o.Whole) :
    Item.ref A.memHandles (.obj o.obj) = .ok (o.buf.2, o.obj.address) := by
  have hle := o.buf.1.whole_le_local
  have hw := h.2
  show resolveBufferRef A.memHandles o.obj.dataPtr o.obj.address = _
  rw [resolveBufferRef_eq, if_pos ⟨h.1, by omega⟩]

theorem getLocalBufferRefs_eq {os : List A.Object} (hne : os ≠ []) (h : ∀ o ∈ os, o.Whole) :
    getLocalBufferRefs A.memHandles (os.map fun o => .obj o.obj) =
      .ok (os.map fun o => o.buf.2, os.map fun o => o.obj.address) := by
  have hrefs : (os.map fun o => Item.obj o.obj).mapM (Item.ref A.memHandles) =
      .ok (os.map fun o => (o.buf.2, o.obj.address)) := by
    rw [mapM_map]
    exact mapM_eq_ok fun o ho => ref_eq (h o ho)
  cases os with
  | nil => exact absurd rfl hne
  | cons o os =>
    show Except.map List.unzip ((Item.obj o.obj :: os.map fun o => Item.obj o.obj).mapM _) = _
    rw [← map_cons (f := fun o : A.Object => Item.obj o.obj), hrefs]
    simp [Except.map, unzip_eq_map, Function.comp_def]

theorem resolve_refs {os : List A.Object} (h : ∀ o ∈ os, o.Whole) :
    zipWithM true A.peerList.resolveAddr (os.map fun o => o.buf.2)
        (os.map fun o => o.obj.address) =
      .ok (os.map fun o => o.buf.1.pageStart o.obj.address) := by
  induction os with
  | nil => rfl
  | cons o os ih =>
    obtain ⟨ho, hos⟩ := forall_mem_cons.1 h
    simp only [map_cons, zipWithM, ih hos]
    rw [resolveAddr_eq o.mem, if_pos ⟨ho.1, ho.2⟩]
    rfl

/-! ## Descriptors -/

theorem getElem?_zipWithM {α β γ : Type} {strict : Bool} {f : α → β → Except Exc γ} {as : List α}
    {bs : List β} {cs : List γ} (h : zipWithM strict f as bs = .ok cs) {c : γ}
    (hc : cs[k]? = some c) : ∃ a b, as[k]? = some a ∧ bs[k]? = some b ∧ f a b = .ok c := by
  induction as generalizing bs cs k with
  | nil =>
    have hnil : cs = [] := by
      cases bs <;> cases strict <;> simp_all [zipWithM]
    rw [hnil] at hc
    cases hc
  | cons a as ih =>
    cases bs with
    | nil =>
      have hnil : cs = [] := by
        cases strict <;> simp_all [zipWithM]
      rw [hnil] at hc
      cases hc
    | cons b bs =>
      unfold zipWithM at h
      cases ha : f a b with
      | error e =>
        rw [ha] at h
        cases h
      | ok c' =>
        cases hrest : zipWithM strict f as bs with
        | error e =>
          rw [ha, hrest] at h
          cases h
        | ok cs' =>
          rw [ha, hrest] at h
          cases h
          cases k with
          | zero =>
            cases hc
            exact ⟨a, b, rfl, rfl, ha⟩
          | succ k => exact ih hrest hc

theorem resolveLocalAddr_ok {obj : MemoryObj} {addr : Nat}
    (h : resolveLocalAddr A.memHandles obj.dataPtr obj.address = .ok addr) :
    ∃ o : A.Object, o.obj = obj ∧ ∃ j : Nat, j < o.buf.1.localPages ∧
      (0 ≤ obj.address → (j : Int) = obj.address) ∧ (addr : Int) = o.buf.1.pageStart j := by
  unfold resolveLocalAddr at h
  cases hf : A.memHandles.find? fun m => decide (m.Has obj.dataPtr) with
  | none =>
    rw [hf] at h
    cases h
  | some m =>
    obtain ⟨buf, hbuf, rfl⟩ := mem_map.1 (mem_of_find?_eq_some hf)
    have hhas : (buf.1.metaOf buf.2).Has obj.dataPtr := by simpa using find?_some hf
    simp only [hf, BufferConfig.metaOf] at h
    split at h
    · rename_i start hget
      obtain ⟨j, hj, hidx⟩ := pyGet?_eq_some hget
      obtain ⟨hlt, hstart⟩ := List.getElem?_eq_some_iff.1 hj
      rw [getElem_map, getElem_range] at hstart
      cases h
      refine ⟨⟨obj, buf, hbuf, hhas⟩, rfl, j, by simpa using hlt, hidx, ?_⟩
      rw [← hstart]
      unfold BufferConfig.pageStart
      push_cast
      rfl
    · cases h

/-- The local end is the start of a page: of the object's, where its index is not negative. -/
theorem describe_ok {pageSize : Nat} {item : Item} {d : Descriptor}
    (h : describe A.memHandles pageSize item addr = .ok d) :
    ∃ o : A.Object, item = .obj o.obj ∧ ∃ j : Nat, j < o.buf.1.localPages ∧
      (0 ≤ o.obj.address → (j : Int) = o.obj.address) ∧
      (d.localAddr : Int) = o.buf.1.pageStart j ∧ d.remoteAddr = addr ∧ d.length = pageSize := by
  cases item with
  | bytes => cases h
  | obj obj =>
    change (resolveLocalAddr A.memHandles obj.dataPtr obj.address).map _ = _ at h
    cases hr : resolveLocalAddr A.memHandles obj.dataPtr obj.address with
    | error e =>
      rw [hr] at h
      cases h
    | ok start =>
      rw [hr] at h
      cases h
      obtain ⟨o, rfl, j, hlt, hidx, hstart⟩ := resolveLocalAddr_ok hr
      exact ⟨o, rfl, j, hlt, hidx, hstart, rfl, rfl⟩

/-- The page of the other side that item `k` of a transfer names: by a reference, or as a page of
the first buffer. -/
def Names (B : Buffers) (spec : TransferSpec) (k : Nat) (c : BufferConfig × String) (i : Int) :
    Prop :=
  c ∈ B.configs ∧ match spec.remoteBufferUuids, spec.remoteMemIndexes with
    | some uuids, some indexes =>
      uuids[k]? = some c.2 ∧ indexes[k]? = some i ∧ 0 ≤ i ∧ i < c.1.numPages
    | _, _ => c = B.configs.head B.nonempty ∧
      ∃ indexes, spec.remoteIndexes = some indexes ∧ indexes[k]? = some i

theorem resolveAddr_ok {uuid : String} {i : Int} (h : B.peerList.resolveAddr uuid i = .ok addr) :
    ∃ c ∈ B.configs, c.2 = uuid ∧ 0 ≤ i ∧ i < c.1.numPages ∧ addr = c.1.pageStart i := by
  have hc : ∃ c ∈ B.configs, c.2 = uuid := by
    unfold RemotePeerBufferList.resolveAddr RemotePeerBufferList.getHandleByUuid at h
    cases hf : B.peerList.handles.reverse.find? fun h => h.uuid == uuid with
    | none =>
      rw [hf] at h
      cases h
    | some x =>
      have hx := mem_reverse.1 (mem_of_find?_eq_some hf)
      rw [peerList_handles] at hx
      obtain ⟨c, hc, rfl⟩ := mem_map.1 hx
      exact ⟨c, hc, by simpa [handleOf] using find?_some hf⟩
  obtain ⟨c, hc, rfl⟩ := hc
  rw [resolveAddr_eq hc] at h
  split at h
  · rename_i hr
    cases h
    exact ⟨c, hc, rfl, hr.1, hr.2, rfl⟩
  · cases h

theorem firstAddrs_ok {addrs : List Int} (h : firstAddrs channel B.peerList spec = .ok addrs) :
    ∃ indexes, spec.remoteIndexes = some indexes ∧
      addrs = indexes.map (B.configs.head B.nonempty).1.pageStart := by
  unfold firstAddrs at h
  have hhead := cons_head_tail B.nonempty
  cases hs : spec.remoteIndexes with
  | none => cases channel <;> simp [hs] at h
  | some indexes =>
    refine ⟨indexes, rfl, ?_⟩
    rw [hs, peerList_handles, ← hhead] at h
    cases channel <;> cases h <;> rfl

/-- The remote end is the start of the page that is named. -/
theorem resolveTransferAddrs_ok {addrs : List Int}
    (h : resolveTransferAddrs channel B.peerList spec = .ok addrs) (hk : addrs[k]? = some addr) :
    ∃ c i, Names B spec k c i ∧ addr = c.1.pageStart i := by
  unfold resolveTransferAddrs at h
  split at h
  · rename_i uuids indexes hu hi
    obtain ⟨uuid, i, huk, hik, hr⟩ := getElem?_zipWithM h hk
    obtain ⟨c, hc, rfl, h0, hlt, rfl⟩ := resolveAddr_ok hr
    refine ⟨c, i, ?_, rfl⟩
    unfold Names
    rw [hu, hi]
    exact ⟨hc, huk, hik, h0, hlt⟩
  · rename_i hnone
    obtain ⟨indexes, hspec, rfl⟩ := firstAddrs_ok h
    rw [getElem?_map] at hk
    obtain ⟨i, hi, rfl⟩ := Option.map_eq_some_iff.1 hk
    refine ⟨B.configs.head B.nonempty, i, ?_, rfl⟩
    unfold Names
    refine ⟨head_mem B.nonempty, ?_⟩
    split
    · exact absurd ‹_› (hnone _ _ ‹_›)
    · exact ⟨rfl, indexes, hspec, hi⟩

/-- Item `k` of a transfer from or to `A` goes between page `j` of its object's buffer and the
page `i` of `c` that it names, and is within both pages if its length is. -/
def Between (A B : Buffers) (spec : TransferSpec) (items : List Item) (k : Nat)
    (localAddr remoteAddr : Int) (length : Nat) : Prop :=
  ∃ o : A.Object, items[k]? = some (.obj o.obj) ∧ ∃ j : Nat, j < o.buf.1.localPages ∧
    (0 ≤ o.obj.address → (j : Int) = o.obj.address) ∧ ∃ c i, Names B spec k c i ∧
    localAddr = o.buf.1.pageStart j ∧ remoteAddr = c.1.pageStart i ∧ length = A.pageSize ∧
    (o.buf.1.InPage j localAddr length ∧ c.1.InPage i remoteAddr length ↔
      A.pageSize ≤ o.buf.1.alignBytes ∧ A.pageSize ≤ c.1.alignBytes)

theorem between_of_desc {descs : List Descriptor}
    (h : buildOpDescs channel A.memHandles A.pageSize B.peerList items spec = .ok descs)
    {d : Descriptor} (hk : descs[k]? = some d) :
    Between A B spec items k d.localAddr d.remoteAddr d.length := by
  unfold buildOpDescs at h
  cases haddrs : resolveTransferAddrs channel B.peerList spec with
  | error e =>
    rw [haddrs] at h
    cases h
  | ok addrs =>
    rw [haddrs] at h
    obtain ⟨item, addr, hitem, haddr, hd⟩ := getElem?_zipWithM h hk
    obtain ⟨o, rfl, j, hj, hidx, hlocal, hremote, hlen⟩ := describe_ok hd
    obtain ⟨c, i, hn, hstart⟩ := resolveTransferAddrs_ok haddrs haddr
    refine ⟨o, hitem, j, hj, hidx, c, i, hn, hlocal, hremote.trans hstart, hlen, ?_⟩
    rw [hlocal, hremote, hstart, hlen, BufferConfig.inPage_iff, BufferConfig.inPage_iff]

theorem between_of_ops {f : Descriptor → HcclOp} {ops : List HcclOp} (h : (buildOpDescs .hccl
      A.memHandles A.pageSize B.peerList items spec).map (fun descs => descs.map f) = .ok ops)
    {op : HcclOp} (hk : ops[k]? = some op) :
    ∃ d, op = f d ∧ Between A B spec items k d.localAddr d.remoteAddr d.length := by
  cases hd : buildOpDescs .hccl A.memHandles A.pageSize B.peerList items spec with
  | error e =>
    rw [hd] at h
    cases h
  | ok descs =>
    rw [hd] at h
    cases h
    rw [getElem?_map] at hk
    obtain ⟨d, hdk, rfl⟩ := Option.map_eq_some_iff.1 hk
    exact ⟨d, rfl, between_of_desc hd hdk⟩

theorem between_of_write {ops : List HcclOp}
    (h : buildWriteOps A.memHandles A.pageSize B.peerList items spec = .ok ops)
    {op : HcclOp} (hk : ops[k]? = some op) :
    Between A B spec items k op.src op.dst op.s := by
  obtain ⟨d, rfl, hd⟩ := between_of_ops h hk
  exact hd

theorem between_of_read {ops : List HcclOp}
    (h : buildReadOps A.memHandles A.pageSize B.peerList items spec = .ok ops)
    {op : HcclOp} (hk : ops[k]? = some op) :
    Between A B spec items k op.dst op.src op.s := by
  obtain ⟨d, rfl, hd⟩ := between_of_ops h hk
  exact hd

end Buffers

open Buffers

/-- References to whole pages come out as the starts of the pages, what the peer accepts the side
of the buffer accepts, and a descriptor is within its pages exactly if the first page size of its
channel is. -/
theorem buffer_refs (A B : Buffers) :
    (∀ os : List A.Object, os ≠ [] → (∀ o ∈ os, o.Whole) →
      ∃ uuids indexes,
        getLocalBufferRefs A.memHandles (os.map fun o => .obj o.obj) = .ok (uuids, indexes) ∧
        zipWithM true A.peerList.resolveAddr uuids indexes =
          .ok (os.map fun o => o.buf.1.pageStart o.obj.address)) ∧
    (∀ o : A.Object,
      (∀ i, (A.peerList.resolveAddr o.buf.2 i).isOk = true →
        (resolveBufferRef A.memHandles o.obj.dataPtr i).isOk = true) ∧
      ((∀ i, (resolveBufferRef A.memHandles o.obj.dataPtr i).isOk = true ↔
        (A.peerList.resolveAddr o.buf.2 i).isOk = true) ↔
          o.buf.1.alignBytes ∣ o.buf.1.size)) ∧
    ∀ items spec,
      (∀ channel descs,
        buildOpDescs channel A.memHandles A.pageSize B.peerList items spec = .ok descs →
        ∀ k d, descs[k]? = some d → Between A B spec items k d.localAddr d.remoteAddr d.length) ∧
      (∀ ops, buildWriteOps A.memHandles A.pageSize B.peerList items spec = .ok ops →
        ∀ k op, ops[k]? = some op → Between A B spec items k op.src op.dst op.s) ∧
      (∀ ops, buildReadOps A.memHandles A.pageSize B.peerList items spec = .ok ops →
        ∀ k op, ops[k]? = some op → Between A B spec items k op.dst op.src op.s) := by
  refine ⟨fun os hne hw => ⟨_, _, getLocalBufferRefs_eq hne hw, resolve_refs hw⟩,
    fun o => ⟨fun i hi => ?_, accept_iff o⟩, fun items spec => ⟨?_, ?_, ?_⟩⟩
  · obtain ⟨h0, hlt⟩ := (resolveAddr_isOk o.mem i).1 hi
    have := o.buf.1.whole_le_local
    exact (resolveBufferRef_isOk o i).2 ⟨h0, by omega⟩
  · exact fun channel descs h k d hk => between_of_desc h hk
  · exact fun ops h k op hk => between_of_write h hk
  · exact fun ops h k op hk => between_of_read h hk

/-- Two buffers of a channel: the first has pages of eight bytes, the second of four, the last of
which is not whole. -/
def unevenBuffers : Buffers where
  configs := [(⟨0, 16, .npu, 8⟩, "a"), (⟨100, 10, .cpu, 4⟩, "b")]
  nonempty := by decide
  paged := by decide
  uuids := by decide
  apart := by decide

/-- The last page of the second buffer has a reference and no address, and a transfer between its
first pages runs into the next ones. -/
theorem uneven_refs :
    getLocalBufferRefs unevenBuffers.memHandles [.obj ⟨108, 2⟩] = .ok (["b"], [2]) ∧
    (unevenBuffers.peerList.resolveAddr "b" 2).isOk = false ∧
    buildOpDescs .hixl unevenBuffers.memHandles unevenBuffers.pageSize unevenBuffers.peerList
      [.obj ⟨100, 0⟩] ⟨some ["b"], some [0], none⟩ = .ok [⟨100, 100, 8⟩] ∧
    ¬ (⟨100, 10, .cpu, 4⟩ : BufferConfig).InPage 0 100 8 := by
  refine ⟨by decide, by decide, by decide, ?_⟩
  rintro ⟨_, h⟩
  revert h
  decide

end BufferRefs
