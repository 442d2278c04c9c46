import LMCacheAscend.LayerwiseDma.Incremental
import LMCacheAscend.Lib.Copies

/-!
# Rows of native copies

`bindCopyAddresses` turns each segment of a plan and each plane into one native
copy `(dst, src, bytes)`: the host address lies in the page of the segment's
chunk, the device address in the plane at the segment's slot.  A page holds the
planes one after the other, each of the page's physical token count.

`rowsOf` is what it returns (`bindCopyAddresses_eq`).  The rows of a plan are
those of its parts (`rowsOf_append`), and those of a suffix whose chunks are
counted from `k` on are bound with the pages from `k` on (`rowsOf_drop`).

`prepareSourceAddresses` keeps the addresses of the pages of one layer from call
to call; its table holds the addresses of the pages it was last given
(`prepareSourceAddresses_spec`).  A source object is its identity.
-/

namespace LayerwiseDma

open Lib List

/-- A native copy, in bytes. -/
abbrev CopyRow := Copy

/-- A plane: its device address, the bytes of one token, and its offset in a page per physical
token of the page. -/
structure Plane where
  npu : Nat
  byteWidth : Nat
  planeOffset : Nat
  deriving DecidableEq, Repr

/-- A page of the host: its address and its physical token count. -/
structure Page where
  ptr : Nat
  tokens : Nat
  deriving DecidableEq, Repr

def planesOf (npuPtrs planeWidths : List Nat) (elementBytes : Nat) : List Plane :=
  let byteWidth := planeWidths.map (· * elementBytes)
  let planeOffset := (cumsum planeWidths).zipWith (fun s w => (s - w) * elementBytes) planeWidths
  npuPtrs.zipWith (fun npu (b : Nat × Nat) => ⟨npu, b.1, b.2⟩) (byteWidth.zip planeOffset)

def cpuAddress (pages : List Page) (s : Segment) (p : Plane) : Nat :=
  let page := pages.getD s.chunk ⟨0, 0⟩
  page.ptr + page.tokens * p.planeOffset + s.chunkToken * p.byteWidth

def deviceAddress (s : Segment) (p : Plane) : Nat := p.npu + s.slot * p.byteWidth

def copyRow (pages : List Page) (deviceToHost : Bool) (s : Segment) (p : Plane) : CopyRow :=
  let size := s.tokens * p.byteWidth
  if deviceToHost then ⟨cpuAddress pages s p, deviceAddress s p, size⟩
  else ⟨deviceAddress s p, cpuAddress pages s p, size⟩

/-- Segments times planes. -/
def rowsOf (pages : List Page) (planes : List Plane) (deviceToHost : Bool) (plan : DmaPlan) :
    List CopyRow :=
  plan.flatMap fun s => planes.map (copyRow pages deviceToHost s)

def bindCopyAddresses (plan : DmaPlan) (hostPtrs npuPtrs chunkSizes planeWidths : List Nat)
    (elementBytes : Nat) (deviceToHost : Bool) (hostChunkTokens : Option (List Nat)) :
    Except DmaError (List CopyRow) :=
  let physical := hostChunkTokens.getD chunkSizes
  if hostPtrs.length ≠ chunkSizes.length ∨ npuPtrs.length ≠ planeWidths.length then
    .error "DMA pointer count differs from prepared layout"
  else if physical.length ≠ chunkSizes.length ∨ ∃ p ∈ physical.zip chunkSizes, p.1 < p.2 then
    .error "DMA host chunk shorter than copied range"
  else if elementBytes ≤ 0 ∨ ∃ w ∈ planeWidths, w ≤ 0 then
    .error "DMA element and plane widths must be positive"
  else
    .ok (rowsOf (hostPtrs.zipWith Page.mk physical) (planesOf npuPtrs planeWidths elementBytes)
      deviceToHost plan)

/-! ## What is accepted -/

/-- The layout that `bindCopyAddresses` accepts. -/
structure ValidLayout (npuPtrs planeWidths : List Nat) (elementBytes : Nat) : Prop where
  count : npuPtrs.length = planeWidths.length
  bytes_pos : 0 < elementBytes
  width_pos : ∀ w ∈ planeWidths, 0 < w

theorem length_planesOf {npuPtrs planeWidths : List Nat} (elementBytes : Nat)
    (h : npuPtrs.length = planeWidths.length) :
    (planesOf npuPtrs planeWidths elementBytes).length = planeWidths.length := by
  have hcumsum : (cumsum planeWidths).length = planeWidths.length := by simp [cumsum]
  unfold planesOf
  simp only [length_zipWith, length_zip, length_map, hcumsum, h, Nat.min_self]

/-- What `bindCopyAddresses` accepts, and what it returns. -/
theorem bindCopyAddresses_iff (plan : DmaPlan) (deviceToHost : Bool) {pages : List Page}
    {npuPtrs sizes planeWidths : List Nat} {elementBytes : Nat} {rows : List CopyRow} :
    bindCopyAddresses plan (pages.map Page.ptr) npuPtrs sizes planeWidths elementBytes deviceToHost
        (some (pages.map Page.tokens)) = .ok rows ↔
      (ValidLayout npuPtrs planeWidths elementBytes ∧ pages.length = sizes.length ∧
        ∀ p ∈ pages.zip sizes, p.2 ≤ p.1.tokens) ∧
      rows = rowsOf pages (planesOf npuPtrs planeWidths elementBytes) deviceToHost plan := by
  have hpages : (pages.map Page.ptr).zipWith Page.mk (pages.map Page.tokens) = pages := by
    rw [zipWith_map, zipWith_self]
    exact map_id _
  have hroom : (∃ p ∈ (pages.map Page.tokens).zip sizes, p.1 < p.2) ↔
      ¬∀ p ∈ pages.zip sizes, p.2 ≤ p.1.tokens := by
    rw [zip_map_left]
    simp only [mem_map, not_forall, Nat.not_le]
    constructor
    · rintro ⟨_, ⟨p, hp, rfl⟩, hlt⟩
      exact ⟨p, hp, hlt⟩
    · rintro ⟨p, hp, hlt⟩
      exact ⟨_, ⟨p, hp, rfl⟩, hlt⟩
  unfold bindCopyAddresses
  simp only [Option.getD_some, length_map, hpages]
  constructor
  · intro h
    split at h
    · cases h
    next hcount =>
    split at h
    · cases h
    next hphys =>
    split at h
    · cases h
    next hpos =>
    cases h
    rw [not_or, not_not, not_not] at hcount
    rw [not_or, not_not, hroom, not_not] at hphys
    rw [not_or, Nat.not_le] at hpos
    exact ⟨⟨⟨hcount.2, hpos.1, fun w hw => Nat.pos_of_ne_zero fun h0 =>
      hpos.2 ⟨w, hw, Nat.le_of_eq h0⟩⟩, hcount.1, hphys.2⟩, rfl⟩
  · rintro ⟨⟨hvalid, hlen, hfit⟩, rfl⟩
    have hwidth : ¬∃ w ∈ planeWidths, w ≤ 0 := by
      rintro ⟨w, hw, hle⟩
      exact absurd (hvalid.width_pos w hw) (by omega)
    have hbytes := hvalid.bytes_pos
    rw [if_neg (not_or.2 ⟨not_not.2 hlen, not_not.2 hvalid.count⟩),
      if_neg (not_or.2 ⟨not_not.2 hlen, fun h => hroom.1 h hfit⟩),
      if_neg (not_or.2 ⟨by omega, hwidth⟩)]

/-! ## Rows of parts of a plan -/

section

variable {pages : List Page} {planes : List Plane} {deviceToHost : Bool}

theorem rowsOf_append (l m : DmaPlan) : rowsOf pages planes deviceToHost (l ++ m) =
    rowsOf pages planes deviceToHost l ++ rowsOf pages planes deviceToHost m :=
  flatMap_append

theorem length_rowsOf (pages : List Page) (planes : List Plane) (deviceToHost : Bool)
    (plan : DmaPlan) :
    (rowsOf pages planes deviceToHost plan).length = plan.length * planes.length := by
  induction plan with
  | nil => simp [rowsOf]
  | cons s plan ih =>
    have h : rowsOf pages planes deviceToHost (s :: plan) =
        planes.map (copyRow pages deviceToHost s) ++ rowsOf pages planes deviceToHost plan := rfl
    rw [h, length_append, length_map, ih, length_cons, Nat.succ_mul, Nat.add_comm]

theorem rowsOf_congr {pages' : List Page} {plan : DmaPlan}
    (h : ∀ s ∈ plan, pages[s.chunk]? = pages'[s.chunk]?) :
    rowsOf pages planes deviceToHost plan = rowsOf pages' planes deviceToHost plan := by
  unfold rowsOf
  refine flatMap_congr fun s hs => map_congr_left fun p _ => ?_
  unfold copyRow cpuAddress
  rw [getD_eq_getElem?_getD, h s hs, ← getD_eq_getElem?_getD]

theorem rowsOf_drop (k : Nat) (plan : DmaPlan) :
    rowsOf pages planes deviceToHost (plan.map fun s => { s with chunk := s.chunk + k }) =
      rowsOf (pages.drop k) planes deviceToHost plan := by
  unfold rowsOf
  rw [flatMap_map]
  refine flatMap_congr fun s hs => map_congr_left fun p _ => ?_
  unfold copyRow cpuAddress deviceAddress
  simp only [getD_eq_getElem?_getD, getElem?_drop, Nat.add_comm k]

end

/-! ## Source addresses -/

structure SourceAddressCache where
  owners : List Nat
  starts : List Nat
  ends : List Nat
  table : Nat
  reusedChunks : Nat
  rebuiltChunks : Nat
  copiedChunks : Nat
  deriving DecidableEq, Repr

/-- The chunks whose addresses are kept: a replaced last object can keep every earlier chunk. -/
def keepSources (owners starts ends : List Nat) : Option SourceAddressCache → Nat
  | none => 0
  | some p =>
    let keep := reusableRangeChunks starts ends p.starts p.ends
    if keep ≠ 0 ∧ owners.take keep ≠ p.owners.take keep then
      if owners.take (keep - 1) = p.owners.take (keep - 1) then keep - 1 else 0
    else keep

variable (hostPtr hostTokens : Nat → Nat)

/-- The page of a source object. -/
def pageOf (owner : Nat) : Page := ⟨hostPtr owner, hostTokens owner⟩

def prepareSourceAddresses (blank : Page) (sourceObjs starts ends : List Nat)
    (previous : Option SourceAddressCache) (tables : Tables Page) :
    Except DmaError SourceAddressCache × Tables Page :=
  if sourceObjs.length ≠ starts.length ∨ starts.length ≠ ends.length then
    (.error "DMA source metadata differs from ranges", tables)
  else
    let keep := keepSources sourceObjs starts ends previous
    match previous.filter fun _ => keep = sourceObjs.length with
    | some p => (.ok ⟨sourceObjs, starts, ends, p.table, keep, 0, 0⟩, tables)
    | none =>
      let columns := (sourceObjs.drop keep).map (pageOf hostPtr hostTokens)
      let r := appendCpuColumns blank (if keep = 0 then none else previous.map (·.table)) keep
        columns tables
      (.ok ⟨sourceObjs, starts, ends, r.1.1, keep, columns.length, r.1.2⟩, r.2)

/-- The table of the cache holds the pages of its objects. -/
structure SourceAddressCache.Holds (p : SourceAddressCache) (tables : Tables Page) : Prop where
  starts_length : p.owners.length = p.starts.length
  ends_length : p.starts.length = p.ends.length
  pages : tables.Starts p.table (p.owners.map (pageOf hostPtr hostTokens))

variable {hostPtr hostTokens}

theorem reusableRangeChunks_le (starts ends oldStarts oldEnds : List Nat) :
    reusableRangeChunks starts ends oldStarts oldEnds ≤ oldStarts.length ∧
      reusableRangeChunks starts ends oldStarts oldEnds ≤ starts.length := by
  unfold reusableRangeChunks
  simp only
  split
  · omega
  split
  · omega
  split
  · omega
  · split <;> omega

theorem keepSources_spec {owners starts ends : List Nat} {previous : Option SourceAddressCache}
    {tables : Tables Page} (hlen : owners.length = starts.length)
    (hprev : ∀ p ∈ previous, p.Holds hostPtr hostTokens tables) {k : Nat}
    (hk : keepSources owners starts ends previous = k) :
    k ≤ owners.length ∧ (k ≠ 0 → previous ≠ none) ∧ ∀ p ∈ previous,
      tables.Starts p.table ((owners.take k).map (pageOf hostPtr hostTokens)) := by
  rcases hp : previous with - | p
  · rw [hp] at hk
    refine ⟨hk ▸ Nat.zero_le _, fun hk0 => absurd hk.symm hk0, fun p hp => ?_⟩
    cases hp
  have hrep := hprev p hp
  -- an equal prefix of the objects has an equal prefix of addresses
  have hprefix : ∀ n, n ≤ owners.length → owners.take n = p.owners.take n →
      n ≤ owners.length ∧ (n ≠ 0 → some p ≠ none) ∧ ∀ q ∈ some p,
        tables.Starts q.table ((owners.take n).map (pageOf hostPtr hostTokens)) := by
    intro n hn htake
    refine ⟨hn, fun _ => by simp, fun q hq => ?_⟩
    cases hq
    have hpages := hrep.pages
    rw [← take_append_drop n p.owners, map_append, ← htake] at hpages
    exact hpages.left
  have hle := (reusableRangeChunks_le starts ends p.starts p.ends).2
  rw [hp] at hk
  unfold keepSources at hk
  simp only at hk
  split at hk
  · split at hk
    · next heq => exact hk ▸ hprefix _ (by omega) heq
    · exact hk ▸ hprefix 0 (Nat.zero_le _) rfl
  · next hne =>
    rw [hk] at hne hle
    rw [not_and, not_not] at hne
    by_cases hk0 : k = 0
    · exact hk0 ▸ hprefix 0 (Nat.zero_le _) rfl
    · exact hprefix k (by omega) (hne hk0)

theorem prepareSourceAddresses_spec {blank : Page} {sourceObjs starts ends : List Nat}
    {previous : Option SourceAddressCache} {tables : Tables Page}
    (hprev : ∀ p ∈ previous, p.Holds hostPtr hostTokens tables)
    {r : Except DmaError SourceAddressCache} {t : Tables Page}
    (h : prepareSourceAddresses hostPtr hostTokens blank sourceObjs starts ends previous tables =
      (r, t)) :
    (∀ e, r = .error e → t = tables) ∧
      ∀ q, r = .ok q → q.Holds hostPtr hostTokens t ∧ q.owners = sourceObjs ∧ q.starts = starts ∧
        q.ends = ends := by
  unfold prepareSourceAddresses at h
  split at h
  · cases h
    exact ⟨fun _ _ => rfl, nofun⟩
  next hlen =>
  rw [not_or, not_not, not_not] at hlen
  simp only at h
  generalize hk : keepSources sourceObjs starts ends previous = k at h
  obtain ⟨hle, hsome, hkept⟩ := keepSources_spec hlen.1 hprev hk
  have hlength : ((sourceObjs.take k).map (pageOf hostPtr hostTokens)).length = k := by
    rw [length_map, length_take, Nat.min_eq_left hle]
  have hsplit : sourceObjs.map (pageOf hostPtr hostTokens) =
      (sourceObjs.take k).map (pageOf hostPtr hostTokens) ++
        (sourceObjs.drop k).map (pageOf hostPtr hostTokens) := by
    rw [← map_append, take_append_drop]
  rcases hfilter : previous.filter fun _ => decide (k = sourceObjs.length) with - | p
  · rw [hfilter] at h
    cases h
    refine ⟨nofun, fun q hq => ?_⟩
    cases hq
    refine ⟨⟨hlen.1, hlen.2, ?_⟩, rfl, rfl, rfl⟩
    have hkeeps : tables.Keeps ((sourceObjs.take k).map (pageOf hostPtr hostTokens))
        (if k = 0 then none else previous.map (·.table)) := by
      by_cases hk0 : k = 0
      · subst hk0
        rfl
      · obtain ⟨p, hp⟩ := Option.ne_none_iff_exists'.1 (hsome hk0)
        rw [if_neg hk0, hp]
        exact hkept p hp
    have happend := appendCpuColumns_starts blank
      ((sourceObjs.drop k).map (pageOf hostPtr hostTokens)) hkeeps
    rw [hlength] at happend
    rw [hsplit]
    exact happend
  · obtain ⟨hp, hall⟩ := Option.filter_eq_some_iff.1 hfilter
    have hall := of_decide_eq_true hall
    rw [hfilter] at h
    cases h
    refine ⟨nofun, fun q hq => ?_⟩
    cases hq
    have := hkept p hp
    rw [hall, take_length] at this
    exact ⟨⟨hlen.1, hlen.2, this⟩, rfl, rfl, rfl⟩

end LayerwiseDma
