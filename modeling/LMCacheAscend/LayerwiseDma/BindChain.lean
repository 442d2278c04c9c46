import LMCacheAscend.LayerwiseDma.Bind

/-!
# Binding along a chain of plans

`bindIncrementalCopyAddresses` keeps the rows of the chunks that are the same as
in the last call and binds the rest.  What a row depends on besides the chunk's
object and range (the slots of the plan) it cannot see: `slotPrefixUnchanged` is
the caller's word for it.  With a truthful caller the rows of every call are
those that `bindCopyAddresses` makes of the whole plan (`bind_chain_rows`).

The rows are a list that the next call may change in place, so they are kept in
a store and a result names its list.
-/

namespace LayerwiseDma

open Lib List

structure BoundCopyPrefix where
  owners : List Nat
  starts : List Nat
  ends : List Nat
  npuPtrs : List Nat
  planeWidths : List Nat
  elementBytes : Nat
  segmentChunks : List Nat
  rows : Nat
  reusedChunks : Nat
  tailSegmentStart : Option Nat
  deriving DecidableEq, Repr

structure BindCall where
  sourceObjs : List Nat
  starts : List Nat
  ends : List Nat
  npuPtrs : List Nat
  planeWidths : List Nat
  elementBytes : Nat
  slotPrefixUnchanged : Bool
  reuseRowsInPlace : Bool
  deriving DecidableEq, Repr

/-- The cache of source addresses that a call may be given, with its table. -/
abbrev SourceMetadata := SourceAddressCache × List Page

/-- The identities of the objects and the ranges, from the metadata if there is any. -/
structure Sources where
  ids : List Nat
  starts : List Nat
  ends : List Nat
  deriving DecidableEq, Repr

def BindCall.sources (a : BindCall) : Option SourceMetadata → Sources
  | none => ⟨a.sourceObjs, a.starts, a.ends⟩
  | some m => ⟨m.1.owners, m.1.starts, m.1.ends⟩

def BindCall.compatible (a : BindCall) (p : BoundCopyPrefix) : Bool :=
  a.slotPrefixUnchanged ∧ p.owners.length ≤ a.sourceObjs.length ∧ a.npuPtrs = p.npuPtrs ∧
    a.planeWidths = p.planeWidths ∧ a.elementBytes = p.elementBytes

/-- The first `n` chunks have the objects and the ranges they had. -/
def Sources.samePrefix (s : Sources) (p : BoundCopyPrefix) (n : Nat) : Bool :=
  s.ids.take n = p.owners.take n ∧ s.starts.take n = p.starts.take n ∧
    s.ends.take n = p.ends.take n

/-- Chunk `n` has the object and the range it had. -/
def Sources.sameAt (s : Sources) (p : BoundCopyPrefix) (n : Nat) : Bool :=
  s.ids[n]? = p.owners[n]? ∧ s.starts[n]? = p.starts[n]? ∧ s.ends[n]? = p.ends[n]?

def BindCall.stableBeforeTail (a : BindCall) (s : Sources) (p : BoundCopyPrefix) : Bool :=
  a.compatible p ∧ 0 < p.owners.length ∧ s.samePrefix p (p.owners.length - 1)

def BindCall.tailUnchanged (a : BindCall) (s : Sources) (p : BoundCopyPrefix) : Bool :=
  a.stableBeforeTail s p ∧ s.sameAt p (p.owners.length - 1)

def BindCall.beginChunk (a : BindCall) (s : Sources) : Option BoundCopyPrefix → Nat
  | none => 0
  | some p =>
    if a.tailUnchanged s p then p.owners.length
    else if a.stableBeforeTail s p then p.owners.length - 1 else 0

/-- How many segments the rows before have for the chunks before `k`. -/
def BoundCopyPrefix.segmentsBefore (p : BoundCopyPrefix) (rowCount planeCount k : Nat) : Nat :=
  if k = p.owners.length then rowCount / planeCount
  else p.tailSegmentStart.getD (searchsorted p.segmentChunks k)

abbrev RowStore := List (List CopyRow)

variable (hostPtr hostTokens : Nat → Nat)

/-- The pages from chunk `k` on. -/
def BindCall.suffixPages (a : BindCall) (metadata : Option SourceMetadata) (k : Nat) : List Page :=
  match metadata with
  | some m => (m.2.take a.sourceObjs.length).drop k
  | none => (a.sourceObjs.drop k).map (pageOf hostPtr hostTokens)

/-- The rows of the chunks from `k` on, their chunks counted from there. -/
def BindCall.suffixRows (a : BindCall) (plan : DmaPlan) (metadata : Option SourceMetadata)
    (k : Nat) : Except DmaError (List CopyRow) :=
  let firstSegment := searchsorted (plan.map Segment.chunk) k
  let suffixPlan := (plan.drop firstSegment).map fun s => { s with chunk := s.chunk - k }
  let pages := a.suffixPages hostPtr hostTokens metadata k
  let s := a.sources metadata
  if a.sourceObjs.drop k = [] then .ok []
  else
    bindCopyAddresses suffixPlan (pages.map Page.ptr) a.npuPtrs
      ((s.ends.drop k).zipWith (· - ·) (s.starts.drop k)) a.planeWidths a.elementBytes false
      (some (pages.map Page.tokens))

def bindIncrementalCopyAddresses (plan : DmaPlan) (a : BindCall)
    (previous : Option BoundCopyPrefix) (metadata : Option SourceMetadata) (store : RowStore) :
    Except DmaError BoundCopyPrefix × RowStore :=
  let s := a.sources metadata
  let k := a.beginChunk s previous
  let bound (rows : Nat) : BoundCopyPrefix :=
    { owners := s.ids, starts := s.starts, ends := s.ends, npuPtrs := a.npuPtrs
      planeWidths := a.planeWidths, elementBytes := a.elementBytes
      segmentChunks := plan.map Segment.chunk, rows := rows, reusedChunks := k
      tailSegmentStart := some (if a.sourceObjs = [] then 0 else
        searchsorted (plan.map Segment.chunk) (a.sourceObjs.length - 1)) }
  match previous.filter fun _ => k ≠ 0 with
  | none =>
    match a.suffixRows hostPtr hostTokens plan metadata k with
    | .error e => (.error e, store)
    | .ok suffix => (.ok (bound store.length), store ++ [suffix])
  | some p =>
    if k = p.owners.length ∧ a.planeWidths.length = 0 then
      (.error "integer division or modulo by zero", store)
    else
      let lines := store.getD p.rows []
      let kept := lines.take
        (p.segmentsBefore lines.length a.planeWidths.length k * a.planeWidths.length)
      match a.suffixRows hostPtr hostTokens plan metadata k with
      | .error e => (.error e, store)
      | .ok suffix =>
        -- only the next call reads the rows that are changed here
        if a.reuseRowsInPlace then (.ok (bound p.rows), store.set p.rows (kept ++ suffix))
        else (.ok (bound store.length), store ++ [kept ++ suffix])

/-! ## What is kept -/

/-- The chunks kept have their objects and ranges, and the layout of the rows is the same. -/
structure KeepsRows (a : BindCall) (s : Sources) (p : BoundCopyPrefix) (k : Nat) : Prop where
  told : a.slotPrefixUnchanged = true
  room : p.owners.length ≤ a.sourceObjs.length
  npuPtrs : a.npuPtrs = p.npuPtrs
  planeWidths : a.planeWidths = p.planeWidths
  elementBytes : a.elementBytes = p.elementBytes
  ids : s.ids.take k = p.owners.take k
  starts : s.starts.take k = p.starts.take k
  ends : s.ends.take k = p.ends.take k
  count : k = p.owners.length ∨ k + 1 = p.owners.length

theorem take_succ_eq {l m : List Nat} {n : Nat} (h : l.take n = m.take n) (hn : l[n]? = m[n]?) :
    l.take (n + 1) = m.take (n + 1) := by
  rw [take_add_one, take_add_one, h, hn]

theorem beginChunk_spec {a : BindCall} {s : Sources} {previous : Option BoundCopyPrefix} {k : Nat}
    (hk : a.beginChunk s previous = k) (hk0 : k ≠ 0) :
    ∃ p, previous = some p ∧ KeepsRows a s p k := by
  rcases previous with - | p
  · exact absurd hk.symm hk0
  refine ⟨p, rfl, ?_⟩
  have hstable : a.stableBeforeTail s p = true → 0 < p.owners.length ∧
      KeepsRows a s p (p.owners.length - 1) := by
    intro h
    obtain ⟨hcomp, hpos, hsame⟩ := of_decide_eq_true h
    obtain ⟨h1, h2, h3, h4, h5⟩ := of_decide_eq_true hcomp
    obtain ⟨h6, h7, h8⟩ := of_decide_eq_true hsame
    exact ⟨hpos, ⟨h1, h2, h3, h4, h5, h6, h7, h8, .inr (by omega)⟩⟩
  unfold BindCall.beginChunk at hk
  simp only at hk
  split at hk
  · next htail =>
    obtain ⟨hst, hat⟩ := of_decide_eq_true htail
    obtain ⟨hpos, hkeeps⟩ := hstable hst
    obtain ⟨h1, h2, h3⟩ := of_decide_eq_true hat
    have hsucc : p.owners.length - 1 + 1 = k := by omega
    rw [← hsucc]
    exact ⟨hkeeps.told, hkeeps.room, hkeeps.npuPtrs, hkeeps.planeWidths, hkeeps.elementBytes,
      take_succ_eq hkeeps.ids h1, take_succ_eq hkeeps.starts h2, take_succ_eq hkeeps.ends h3,
      .inl (by omega)⟩
  · split at hk
    · next hst => exact hk ▸ (hstable hst).2
    · exact absurd hk.symm hk0

/-! ## One call -/

def BoundCopyPrefix.ranges (p : BoundCopyPrefix) : List (Nat × Nat) := p.starts.zip p.ends

variable {hostPtr hostTokens}

/-- Each range fits in its page. -/
def Fits (hostTokens : Nat → Nat) (owners : List Nat) (ranges : List (Nat × Nat)) : Prop :=
  ∀ (i o : Nat) (r : Nat × Nat), owners[i]? = some o → ranges[i]? = some r →
    r.2 - r.1 ≤ hostTokens o

variable {owners : List Nat}

theorem fits_iff {ranges : List (Nat × Nat)} :
    (∀ p ∈ (owners.map (pageOf hostPtr hostTokens)).zip (ranges.map fun r => r.2 - r.1),
      p.2 ≤ p.1.tokens) ↔ Fits hostTokens owners ranges := by
  constructor
  · intro h i o r ho hr
    refine h (pageOf hostPtr hostTokens o, r.2 - r.1) (mem_of_getElem? (i := i) ?_)
    rw [getElem?_zip_eq_some, getElem?_map, getElem?_map, ho, hr]
    exact ⟨rfl, rfl⟩
  · intro h p hp
    obtain ⟨i, hi⟩ := mem_iff_getElem?.1 hp
    obtain ⟨h1, h2⟩ := getElem?_zip_eq_some.1 hi
    rw [getElem?_map, Option.map_eq_some_iff] at h1 h2
    obtain ⟨o, ho, h1⟩ := h1
    obtain ⟨r, hr, h2⟩ := h2
    rw [← h1, ← h2]
    exact h i o r ho hr

theorem Fits.of_take_drop {ranges : List (Nat × Nat)} (k : Nat)
    (h1 : Fits hostTokens (owners.take k) (ranges.take k))
    (h2 : Fits hostTokens (owners.drop k) (ranges.drop k)) : Fits hostTokens owners ranges := by
  intro i o r ho hr
  by_cases hi : i < k
  · exact h1 i o r (by rwa [getElem?_take_of_lt hi]) (by rwa [getElem?_take_of_lt hi])
  refine h2 (i - k) o r ?_ ?_ <;> rwa [getElem?_drop, Nat.add_sub_cancel' (by omega)]

theorem Fits.take {ranges : List (Nat × Nat)} (h : Fits hostTokens owners ranges) (k : Nat) :
    Fits hostTokens (owners.take k) (ranges.take k) := by
  intro i o r ho hr
  rw [getElem?_take] at ho hr
  split at ho
  · next hi =>
    rw [if_pos hi] at hr
    exact h i o r ho hr
  · cases ho

theorem zipWith_sub (starts ends : List Nat) :
    ends.zipWith (· - ·) starts = (starts.zip ends).map fun r => r.2 - r.1 := by
  rw [map_zip_eq_zipWith, zipWith_comm]
  rfl

theorem take_zip (l m : List Nat) (k : Nat) : (l.zip m).take k = (l.take k).zip (m.take k) :=
  take_zipWith

theorem drop_zip (l m : List Nat) (k : Nat) : (l.zip m).drop k = (l.drop k).zip (m.drop k) :=
  drop_zipWith

section

variable (hostPtr hostTokens)

/-- The rows are those of the plan of the ranges, whose cuts and slots are given. -/
structure BoundCopyPrefix.BoundFor (b : BoundCopyPrefix) (cut : Nat → Bool) (slot : Nat → Nat)
    (store : RowStore) : Prop where
  starts_length : b.owners.length = b.starts.length
  ends_length : b.starts.length = b.ends.length
  rows : store[b.rows]? = some (rowsOf (b.owners.map (pageOf hostPtr hostTokens))
    (planesOf b.npuPtrs b.planeWidths b.elementBytes) false (segmentsFrom cut slot 0 b.ranges))
  tail : b.tailSegmentStart = some (segmentsFrom cut slot 0 b.ranges.dropLast).length
  valid : b.owners ≠ [] → ValidLayout b.npuPtrs b.planeWidths b.elementBytes
  fits : Fits hostTokens b.owners b.ranges

/-- Metadata for the objects and the ranges of the call. -/
def BindCall.Described (a : BindCall) (m : SourceMetadata) : Prop :=
  m.1.owners = a.sourceObjs ∧ m.1.starts = a.starts ∧ m.1.ends = a.ends ∧
    m.2.take a.sourceObjs.length = a.sourceObjs.map (pageOf hostPtr hostTokens)

end

variable {store : RowStore}

theorem BoundCopyPrefix.BoundFor.rows_eq {b : BoundCopyPrefix} {cut : Nat → Bool}
    {slot : Nat → Nat} (h : b.BoundFor hostPtr hostTokens cut slot store) :
    (b.owners = [] → store.getD b.rows [] = []) ∧
    (b.owners ≠ [] → bindCopyAddresses (segmentsFrom cut slot 0 b.ranges) (b.owners.map hostPtr)
      b.npuPtrs (b.ends.zipWith (· - ·) b.starts) b.planeWidths b.elementBytes false
      (some (b.owners.map hostTokens)) = .ok (store.getD b.rows [])) := by
  have hlen : b.ranges.length = b.owners.length := by
    unfold BoundCopyPrefix.ranges
    rw [length_zip, h.starts_length, h.ends_length, Nat.min_self]
  rw [getD_eq_getElem?_getD, h.rows, Option.getD_some, zipWith_sub]
  constructor
  · intro hnil
    have : b.ranges = [] := by
      rw [← length_eq_zero_iff, hlen, hnil]
      rfl
    rw [this]
    rfl
  · intro hne
    have hcount : (b.owners.map (pageOf hostPtr hostTokens)).length =
        (b.ranges.map fun r => r.2 - r.1).length := by
      rw [length_map, length_map, hlen]
    have hbind := (bindCopyAddresses_iff (segmentsFrom cut slot 0 b.ranges) false).2
      ⟨⟨h.valid hne, hcount, fits_iff.2 h.fits⟩, rfl⟩
    rw [map_map, map_map] at hbind
    exact hbind

def BindCall.ranges (a : BindCall) : List (Nat × Nat) := a.starts.zip a.ends

/-- Each range has its object. -/
structure BindCall.Aligned (a : BindCall) : Prop where
  starts_length : a.sourceObjs.length = a.starts.length
  ends_length : a.starts.length = a.ends.length

section

variable {a : BindCall} {metadata : Option SourceMetadata} {cut : Nat → Bool} {slot : Nat → Nat}

theorem sources_eq (hmeta : ∀ m ∈ metadata, a.Described hostPtr hostTokens m) :
    a.sources metadata = ⟨a.sourceObjs, a.starts, a.ends⟩ := by
  cases metadata with
  | none => rfl
  | some m =>
    obtain ⟨h1, h2, h3, -⟩ := hmeta m rfl
    show (⟨m.1.owners, m.1.starts, m.1.ends⟩ : Sources) = _
    rw [h1, h2, h3]

theorem suffixPages_eq (hmeta : ∀ m ∈ metadata, a.Described hostPtr hostTokens m) (k : Nat) :
    a.suffixPages hostPtr hostTokens metadata k =
      (a.sourceObjs.drop k).map (pageOf hostPtr hostTokens) := by
  cases metadata with
  | none => rfl
  | some m =>
    show (m.2.take a.sourceObjs.length).drop k = _
    rw [(hmeta m rfl).2.2.2, map_drop]

theorem BindCall.Aligned.length_ranges (h : a.Aligned) : a.ranges.length = a.sourceObjs.length := by
  unfold BindCall.ranges
  rw [length_zip, h.starts_length, h.ends_length, Nat.min_self]

variable {k : Nat}

theorem searchsorted_take (cut : Nat → Bool) (slot : Nat → Nat) {ranges : List (Nat × Nat)}
    (hk : k ≤ ranges.length) :
    searchsorted ((segmentsFrom cut slot 0 ranges).map Segment.chunk) k =
      (segmentsFrom cut slot 0 (ranges.take k)).length := by
  have hfirst := searchsorted_chunk cut slot 0 (ranges.take k) (ranges.drop k)
  rwa [take_append_drop, length_take, Nat.min_eq_left hk, Nat.zero_add] at hfirst

theorem suffix_segments (cut : Nat → Bool) (slot : Nat → Nat) {ranges : List (Nat × Nat)}
    (hk : k ≤ ranges.length) :
    ((segmentsFrom cut slot 0 ranges).drop
        (searchsorted ((segmentsFrom cut slot 0 ranges).map Segment.chunk) k)).map
      (fun s => { s with chunk := s.chunk - k }) = segmentsFrom cut slot 0 (ranges.drop k) := by
  have hfirst := searchsorted_take cut slot hk
  have hsplit := segmentsFrom_append cut slot 0 (ranges.take k) (ranges.drop k)
  have hadd := segmentsFrom_add cut slot 0 k (ranges.drop k)
  rw [take_append_drop, length_take, Nat.min_eq_left hk, Nat.zero_add] at hsplit
  rw [Nat.zero_add] at hadd
  rw [hfirst, hsplit, drop_left, hadd, map_map]
  refine (map_congr_left fun s _ => ?_).trans (map_id _)
  show (⟨s.chunk + k - k, s.slot, s.chunkToken, s.tokens⟩ : Segment) = s
  rw [Nat.add_sub_cancel]

theorem suffixRows_spec (ha : a.Aligned)
    (hmeta : ∀ m ∈ metadata, a.Described hostPtr hostTokens m) (hk : k ≤ a.sourceObjs.length)
    {suffix : List CopyRow}
    (h : a.suffixRows hostPtr hostTokens (segmentsFrom cut slot 0 a.ranges) metadata k =
      .ok suffix) :
    suffix = rowsOf ((a.sourceObjs.drop k).map (pageOf hostPtr hostTokens))
        (planesOf a.npuPtrs a.planeWidths a.elementBytes) false
        (segmentsFrom cut slot 0 (a.ranges.drop k)) ∧
      (a.sourceObjs.drop k ≠ [] → ValidLayout a.npuPtrs a.planeWidths a.elementBytes) ∧
      Fits hostTokens (a.sourceObjs.drop k) (a.ranges.drop k) := by
  have hlen := ha.length_ranges
  unfold BindCall.suffixRows at h
  simp only at h
  split at h
  · next hnil =>
    cases h
    have hdrop : a.ranges.drop k = [] := by
      rw [drop_eq_nil_iff] at hnil ⊢
      omega
    rw [hdrop, hnil]
    exact ⟨rfl, fun hne => absurd rfl hne, nofun⟩
  · rw [suffixPages_eq hmeta, sources_eq hmeta, bindCopyAddresses_iff] at h
    obtain ⟨⟨hvalid, -, hfit⟩, rfl⟩ := h
    have hsizes : (a.ends.drop k).zipWith (· - ·) (a.starts.drop k) =
        (a.ranges.drop k).map fun r => r.2 - r.1 := by
      rw [zipWith_sub, BindCall.ranges, drop_zip]
    simp only [hsizes] at hfit
    refine ⟨?_, fun _ => hvalid, fits_iff.1 hfit⟩
    rw [suffix_segments cut slot (by omega)]

theorem rowsOf_split (cut : Nat → Bool) (slot : Nat → Nat) (pages : List Page)
    (planes : List Plane) {ranges : List (Nat × Nat)} (hk : k ≤ ranges.length) :
    rowsOf pages planes false (segmentsFrom cut slot 0 ranges) =
      rowsOf pages planes false (segmentsFrom cut slot 0 (ranges.take k)) ++
        rowsOf (pages.drop k) planes false (segmentsFrom cut slot 0 (ranges.drop k)) := by
  have hsplit := segmentsFrom_append cut slot 0 (ranges.take k) (ranges.drop k)
  have hadd := segmentsFrom_add cut slot 0 k (ranges.drop k)
  rw [take_append_drop, length_take, Nat.min_eq_left hk, Nat.zero_add] at hsplit
  rw [Nat.zero_add] at hadd
  rw [hsplit, rowsOf_append, hadd, rowsOf_drop]

/-- The caller's word: ranges that both plans begin with have kept their cuts and slots. -/
def SlotPrefix (cut cut' : Nat → Bool) (slot slot' : Nat → Nat) (ranges old : List (Nat × Nat)) :
    Prop :=
  ∀ k, ranges.take k = old.take k →
    segmentsFrom cut slot 0 (ranges.take k) = segmentsFrom cut' slot' 0 (ranges.take k)

/-- The kept rows are those of the chunks before the first change. -/
theorem kept_rows {p : BoundCopyPrefix} {cut' : Nat → Bool} {slot' : Nat → Nat}
    (hp : p.BoundFor hostPtr hostTokens cut' slot' store)
    (hkeeps : KeepsRows a ⟨a.sourceObjs, a.starts, a.ends⟩ p k) (hk0 : k ≠ 0)
    (hzero : ¬(k = p.owners.length ∧ a.planeWidths.length = 0))
    (hword : SlotPrefix cut cut' slot slot' a.ranges p.ranges) :
    (store.getD p.rows []).take (p.segmentsBefore (store.getD p.rows []).length
        a.planeWidths.length k * a.planeWidths.length) =
      rowsOf (a.sourceObjs.map (pageOf hostPtr hostTokens))
        (planesOf a.npuPtrs a.planeWidths a.elementBytes) false
        (segmentsFrom cut slot 0 (a.ranges.take k)) := by
  have hranges : a.ranges.take k = p.ranges.take k := by
    unfold BindCall.ranges BoundCopyPrefix.ranges
    rw [take_zip, take_zip, hkeeps.starts, hkeeps.ends]
  have hcount : p.ranges.length = p.owners.length := by
    unfold BoundCopyPrefix.ranges
    rw [length_zip, hp.starts_length, hp.ends_length, Nat.min_self]
  have hle : k ≤ p.ranges.length := by
    rcases hkeeps.count with h | h <;> omega
  have hne : p.owners ≠ [] := fun h => by
    rw [hcount, h] at hle
    exact hk0 (Nat.le_zero.1 hle)
  have hvalid := hp.valid hne
  have hplanes := length_planesOf p.elementBytes hvalid.count
  have hlines : store.getD p.rows [] = rowsOf (p.owners.map (pageOf hostPtr hostTokens))
      (planesOf p.npuPtrs p.planeWidths p.elementBytes) false
      (segmentsFrom cut' slot' 0 p.ranges) := by
    rw [getD_eq_getElem?_getD, hp.rows, Option.getD_some]
  have hsplit := rowsOf_split cut' slot' (p.owners.map (pageOf hostPtr hostTokens))
    (planesOf p.npuPtrs p.planeWidths p.elementBytes) hle
  have hsegments : p.segmentsBefore (store.getD p.rows []).length a.planeWidths.length k =
      (segmentsFrom cut' slot' 0 (p.ranges.take k)).length := by
    unfold BoundCopyPrefix.segmentsBefore
    split
    · next hall =>
      rw [hlines, length_rowsOf, hplanes, hkeeps.planeWidths]
      rw [hkeeps.planeWidths] at hzero
      rw [Nat.mul_div_cancel _ (by omega), take_of_length_le (by omega)]
    · next hall =>
      have hlast : k + 1 = p.owners.length := hkeeps.count.resolve_left hall
      rw [hp.tail, Option.getD_some, dropLast_eq_take, hcount, ← hlast, Nat.add_sub_cancel]
  -- the rows before start with those of the kept chunks
  have hlength := length_rowsOf (p.owners.map (pageOf hostPtr hostTokens))
    (planesOf p.npuPtrs p.planeWidths p.elementBytes) false
    (segmentsFrom cut' slot' 0 (p.ranges.take k))
  rw [hplanes] at hlength
  rw [hsegments, hkeeps.planeWidths, ← hlength, hlines, hsplit, take_left, ← hranges,
    ← hword k hranges, hkeeps.npuPtrs, hkeeps.elementBytes]
  refine rowsOf_congr fun s hs => ?_
  have hlt := (chunk_of_mem hs).2
  have hids := congrArg (fun l : List Nat => l[s.chunk]?) hkeeps.ids
  simp only at hids
  rw [length_take] at hlt
  rw [getElem?_take_of_lt (by omega), getElem?_take_of_lt (by omega)] at hids
  rw [getElem?_map, getElem?_map, hids]

/-- What a call that returns leaves behind, if the rows are those of its plan. -/
theorem BindCall.Aligned.bound (ha : a.Aligned) {i k : Nat} (hrows : store[i]? = some (rowsOf
      (a.sourceObjs.map (pageOf hostPtr hostTokens))
      (planesOf a.npuPtrs a.planeWidths a.elementBytes) false (segmentsFrom cut slot 0 a.ranges)))
    (hvalid : a.sourceObjs ≠ [] → ValidLayout a.npuPtrs a.planeWidths a.elementBytes)
    (hfits : Fits hostTokens a.sourceObjs a.ranges) (b : BoundCopyPrefix)
    (hb : (.ok ⟨a.sourceObjs, a.starts, a.ends, a.npuPtrs, a.planeWidths, a.elementBytes,
        (segmentsFrom cut slot 0 a.ranges).map Segment.chunk, i, k,
        some (if a.sourceObjs = [] then 0 else searchsorted
          ((segmentsFrom cut slot 0 a.ranges).map Segment.chunk) (a.sourceObjs.length - 1))⟩ :
      Except DmaError BoundCopyPrefix) = .ok b) :
    b.BoundFor hostPtr hostTokens cut slot store ∧ b.owners = a.sourceObjs ∧
      (b.starts = a.starts ∧ b.ends = a.ends) ∧ b.npuPtrs = a.npuPtrs ∧
      b.planeWidths = a.planeWidths ∧ b.elementBytes = a.elementBytes := by
  have hlen := ha.length_ranges
  have htail : (if a.sourceObjs = [] then 0 else searchsorted
      ((segmentsFrom cut slot 0 a.ranges).map Segment.chunk) (a.sourceObjs.length - 1)) =
      (segmentsFrom cut slot 0 a.ranges.dropLast).length := by
    split
    · next hnil =>
      have : a.ranges = [] := length_eq_zero_iff.1 (by rw [hlen, hnil]; rfl)
      rw [this]
      rfl
    · rw [searchsorted_take cut slot (by omega), dropLast_eq_take, hlen]
  cases hb
  exact ⟨⟨ha.starts_length, ha.ends_length, hrows, congrArg some htail, hvalid, hfits⟩, rfl,
    ⟨rfl, rfl⟩, rfl, rfl, rfl⟩

/-- One binding, whatever was kept: the rows are those of the whole plan, if the rows before were
right for theirs and the caller's word on the slots is true. -/
theorem bind_spec {previous : Option BoundCopyPrefix} (ha : a.Aligned)
    (hmeta : ∀ m ∈ metadata, a.Described hostPtr hostTokens m)
    (hprev : ∀ p ∈ previous, ∃ cut' slot', p.BoundFor hostPtr hostTokens cut' slot' store ∧
      (a.slotPrefixUnchanged = true → SlotPrefix cut cut' slot slot' a.ranges p.ranges))
    {r : Except DmaError BoundCopyPrefix} {store' : RowStore}
    (h : bindIncrementalCopyAddresses hostPtr hostTokens (segmentsFrom cut slot 0 a.ranges) a
      previous metadata store = (r, store')) :
    (∀ e, r = .error e → store' = store) ∧
      ∀ b, r = .ok b → b.BoundFor hostPtr hostTokens cut slot store' ∧ b.owners = a.sourceObjs ∧
        (b.starts = a.starts ∧ b.ends = a.ends) ∧ b.npuPtrs = a.npuPtrs ∧
        b.planeWidths = a.planeWidths ∧ b.elementBytes = a.elementBytes := by
  have hlen := ha.length_ranges
  unfold bindIncrementalCopyAddresses at h
  simp only [sources_eq hmeta] at h
  generalize hk : a.beginChunk ⟨a.sourceObjs, a.starts, a.ends⟩ previous = k at h
  rcases hfilter : previous.filter fun _ => decide (k ≠ 0) with - | p
  · have hk0 : k = 0 := by
      by_contra hk0
      obtain ⟨p, hp, -⟩ := beginChunk_spec hk hk0
      rw [hp, Option.filter_some, if_pos (decide_eq_true hk0)] at hfilter
      cases hfilter
    subst hk0
    simp only [hfilter] at h
    rcases hsuffix : a.suffixRows hostPtr hostTokens (segmentsFrom cut slot 0 a.ranges) metadata 0
      with e | suffix
    · rw [hsuffix] at h
      cases h
      exact ⟨fun _ _ => rfl, nofun⟩
    rw [hsuffix] at h
    cases h
    obtain ⟨hrows, hvalid, hfits⟩ := suffixRows_spec ha hmeta (Nat.zero_le _) hsuffix
    rw [drop_zero, drop_zero] at hrows hfits
    refine ⟨nofun, ha.bound ?_ hvalid hfits⟩
    rw [getElem?_concat_length, hrows]
  · obtain ⟨hp, hk0⟩ := Option.filter_eq_some_iff.1 hfilter
    have hk0 := of_decide_eq_true hk0
    obtain ⟨q, hq, hkeeps⟩ := beginChunk_spec hk hk0
    rw [hp, Option.some.injEq] at hq
    subst hq
    obtain ⟨cut', slot', hbound, hword⟩ := hprev p hp
    have hle : k ≤ a.sourceObjs.length := by
      have := hkeeps.room
      rcases hkeeps.count with h' | h' <;> omega
    simp only [hfilter] at h
    split at h
    · cases h
      exact ⟨fun _ _ => rfl, nofun⟩
    next hzero =>
    rw [kept_rows hbound hkeeps hk0 hzero (hword hkeeps.told)] at h
    rcases hsuffix : a.suffixRows hostPtr hostTokens (segmentsFrom cut slot 0 a.ranges) metadata k
      with e | suffix
    · rw [hsuffix] at h
      cases h
      exact ⟨fun _ _ => rfl, nofun⟩
    rw [hsuffix] at h
    simp only at h
    obtain ⟨hrows, -, hfitsDrop⟩ := suffixRows_spec ha hmeta hle hsuffix
    have hwhole := rowsOf_split cut slot (a.sourceObjs.map (pageOf hostPtr hostTokens))
      (planesOf a.npuPtrs a.planeWidths a.elementBytes) (by omega : k ≤ a.ranges.length)
    rw [← map_drop, ← hrows] at hwhole
    have hne : p.owners ≠ [] := fun hnil => by
      have := hkeeps.count
      rw [hnil, length_nil] at this
      omega
    have hvalid := hbound.valid hne
    rw [← hkeeps.npuPtrs, ← hkeeps.planeWidths, ← hkeeps.elementBytes] at hvalid
    have hranges : a.ranges.take k = p.ranges.take k := by
      unfold BindCall.ranges BoundCopyPrefix.ranges
      rw [take_zip, take_zip, hkeeps.starts, hkeeps.ends]
    have hfitsTake := hbound.fits.take k
    rw [← show a.sourceObjs.take k = p.owners.take k from hkeeps.ids, ← hranges] at hfitsTake
    have hfits := Fits.of_take_drop k hfitsTake hfitsDrop
    split at h
    · cases h
      refine ⟨nofun, ha.bound ?_ (fun _ => hvalid) hfits⟩
      rw [getElem?_set_self (lt_of_getElem? hbound.rows), hwhole]
    · cases h
      refine ⟨nofun, ha.bound ?_ (fun _ => hvalid) hfits⟩
      rw [getElem?_concat_length, hwhole]

end

/-! ## Chains of calls -/

/-- A call with ranges as the callers make them: nonempty, sorted and disjoint, from the base of the
mapping on. -/
abbrev RangedCall := { c : PlanCall // c.Ranged }

/-- A call of the chain: the ranges are planned, then bound.  `withMetadata` asks for the cache of
source addresses, `useBound` is false when the caller has dropped the rows before. -/
structure ChainCall where
  plan : RangedCall
  sourceObjs : List Nat
  npuPtrs : List Nat
  planeWidths : List Nat
  elementBytes : Nat
  slotPrefixUnchanged : Bool
  reuseRowsInPlace : Bool
  withMetadata : Bool
  useBound : Bool
  aligned : sourceObjs.length = plan.1.starts.length

def ChainCall.bindCall (c : ChainCall) : BindCall :=
  ⟨c.sourceObjs, c.plan.1.starts, c.plan.1.ends, c.npuPtrs, c.planeWidths, c.elementBytes,
    c.slotPrefixUnchanged, c.reuseRowsInPlace⟩

/-- `boundPlan` is the plan that the last rows were bound for; only the caller's word is about
it. -/
structure BindChain where
  plans : Tables Segment
  plan : Option IncrementalDmaPlan
  sourceTables : Tables Page
  sources : Option SourceAddressCache
  store : RowStore
  bound : Option BoundCopyPrefix
  boundPlan : Option IncrementalDmaPlan
  deriving DecidableEq, Repr

variable (cycles : Nat → DmaCycle) (blank : Segment) (blankPage : Page)
variable (hostPtr hostTokens)

def ChainCall.bind (c : ChainCall) (q : IncrementalDmaPlan) (metadata : Option SourceMetadata)
    (s : BindChain) : Except DmaError BoundCopyPrefix × BindChain :=
  match bindIncrementalCopyAddresses hostPtr hostTokens (q.plan s.plans) c.bindCall
      (if c.useBound then s.bound else none) metadata s.store with
  | (.error e, store) => (.error e, { s with store := store })
  | (.ok b, store) => (.ok b, { s with store := store, bound := some b, boundPlan := some q })

def ChainCall.run (c : ChainCall) (s : BindChain) : Except DmaError BoundCopyPrefix × BindChain :=
  match planBlockIdRangesIncremental cycles blank c.plan.1 s.plan s.plans with
  | (.error e, plans) => (.error e, { s with plans := plans })
  | (.ok q, plans) =>
    let s := { s with plans := plans, plan := some q }
    if c.withMetadata then
      match prepareSourceAddresses hostPtr hostTokens blankPage c.sourceObjs c.plan.1.starts
          c.plan.1.ends s.sources s.sourceTables with
      | (.error e, tables) => (.error e, { s with sourceTables := tables })
      | (.ok m, tables) =>
        c.bind hostPtr hostTokens q (some (m, tables.getD m.table []))
          { s with sourceTables := tables, sources := some m }
    else c.bind hostPtr hostTokens q none s

/-- The slots of the ranges that the call shares with an earlier plan are the ones they had. -/
structure ChainCall.KeepsSlots (c : ChainCall) (old : IncrementalDmaPlan) : Prop where
  cycle : c.plan.1.cycle = old.cycle
  blockSize : c.plan.1.blockSize = old.blockSize
  slotMappingBase : c.plan.1.slotMappingBase = old.slotMappingBase
  slots : ∀ r ∈ c.plan.1.ranges, r ∈ old.ranges → ∀ t, r.1 ≤ t → t < r.2 →
    slotOf c.plan.1.blockIds old.blockSize 0 old.slotMappingBase t =
      slotOf old.blockIds old.blockSize 0 old.slotMappingBase t

/-- `slot_prefix_unchanged` is true only when it is so of the plan that the rows before were bound
for. -/
def ChainCall.Truthful (s : BindChain) (c : ChainCall) : Prop :=
  c.slotPrefixUnchanged = true → c.useBound = true → ∀ old ∈ s.boundPlan, c.KeepsSlots old

def bindMachine : Machine BindChain ChainCall where
  start s := s.plan = none ∧ s.sources = none ∧ s.bound = none
  step s c := some (c.run hostPtr hostTokens cycles blank blankPage s).2

/-- What holds between calls. -/
structure BindChain.Consistent (s : BindChain) : Prop where
  plan : ∀ p ∈ s.plan, p.Represents cycles s.plans
  sources : ∀ m ∈ s.sources, m.Holds hostPtr hostTokens s.sourceTables
  bound : ∀ b ∈ s.bound, ∃ old, s.boundPlan = some old ∧ b.ranges = old.ranges ∧
    b.BoundFor hostPtr hostTokens (cutAt (cycles old.cycle) old.blockIds old.blockSize 0
      old.slotMappingBase) (slotOf old.blockIds old.blockSize 0 old.slotMappingBase) s.store

variable {cycles} {blank} {blankPage} {hostPtr hostTokens}

variable {c : ChainCall}

theorem ChainCall.KeepsSlots.slotPrefix {q old : IncrementalDmaPlan} {tables : Tables Segment}
    (h : c.KeepsSlots old) (hq : q.Answers c.plan.1) (hrep : q.Represents cycles tables) :
    SlotPrefix (cutAt (cycles q.cycle) q.blockIds q.blockSize 0 q.slotMappingBase)
      (cutAt (cycles old.cycle) old.blockIds old.blockSize 0 old.slotMappingBase)
      (slotOf q.blockIds q.blockSize 0 q.slotMappingBase)
      (slotOf old.blockIds old.blockSize 0 old.slotMappingBase) q.ranges old.ranges := by
  intro k htake
  have hranges : q.ranges = c.plan.1.ranges := by
    unfold IncrementalDmaPlan.ranges PlanCall.ranges
    rw [hq.starts, hq.ends]
  have hcov := hrep.covers.subset (take_subset k q.ranges)
  have hpos := hrep.size_pos
  have hne : ∀ r ∈ q.ranges.take k, r.1 < r.2 :=
    fun r hr => hrep.ordered.nonempty r (mem_of_mem_take hr)
  rw [hq.blockIds] at hcov
  -- the blocks in use place the tokens as the whole table does
  have hwhole := segmentsOf_take (cycles q.cycle) 0 hpos hne hcov
  unfold segmentsOf at hwhole
  rw [hq.blockIds]
  refine hwhole.trans ?_
  rw [hq.cycle, h.cycle, hq.blockSize, h.blockSize, hq.slotMappingBase, h.slotMappingBase]
  rw [hq.blockSize, h.blockSize] at hpos
  refine segmentsFrom_eq_of_slotOf 0 hpos hne (fun r hr => ?_) fun r hr t h1 h2 => ?_
  · have := hcov.base_le r hr
    rwa [hq.slotMappingBase, h.slotMappingBase] at this
  · refine h.slots r (hranges ▸ mem_of_mem_take hr) ?_ t h1 h2
    rw [htake] at hr
    exact mem_of_mem_take hr

theorem ChainCall.keepsSlots_of_sameMap {old : IncrementalDmaPlan}
    (h : c.plan.1.sameMap old = true) (hpos : 0 < old.blockSize)
    (hcov : Covers old.blockIds old.blockSize 0 old.slotMappingBase old.ranges) :
    c.KeepsSlots old := by
  obtain ⟨⟨hcycle, hsize, hbase⟩, hids⟩ := PlanCall.sameMap_iff.1 h
  refine ⟨hcycle.symm, hsize.symm, hbase.symm, fun r _ hr t h1 h2 => ?_⟩
  have hend := hcov.end_le r hr
  have hstart := hcov.base_le r hr
  rw [Nat.zero_add] at hend
  have hindex : (t - old.slotMappingBase) / old.blockSize < old.blockIds.length := by
    rw [Nat.div_lt_iff_lt_mul hpos]
    omega
  have hlen := congrArg List.length hids
  rw [length_take, PlanCall.blocks, length_take] at hlen
  have hget : c.plan.1.blockIds[(t - old.slotMappingBase) / old.blockSize]? =
      old.blockIds[(t - old.slotMappingBase) / old.blockSize]? := by
    rw [← hids, PlanCall.blocks, take_take, getElem?_take_of_lt (by omega)]
  unfold slotOf
  rw [Nat.sub_zero, getD_eq_getElem?_getD, getD_eq_getElem?_getD, hget]

/-- The rows that a call returns are those of the whole plan. -/
def ChainCall.RowsOf (hostPtr hostTokens : Nat → Nat) (c : ChainCall) (plan : DmaPlan)
    (rows : List CopyRow) : Prop :=
  (c.sourceObjs = [] → rows = []) ∧
  (c.sourceObjs ≠ [] → bindCopyAddresses plan (c.sourceObjs.map hostPtr) c.npuPtrs
    (c.plan.1.ends.zipWith (· - ·) c.plan.1.starts) c.planeWidths c.elementBytes false
    (some (c.sourceObjs.map hostTokens)) = .ok rows)

theorem ChainCall.bind_spec {c : ChainCall} {s : BindChain} {q : IncrementalDmaPlan}
    {metadata : Option SourceMetadata}
    (hs : s.Consistent hostPtr hostTokens cycles) (hq : q.Answers c.plan.1)
    (hrep : q.Represents cycles s.plans) (htrue : c.Truthful s)
    (hmeta : ∀ m ∈ metadata, c.bindCall.Described hostPtr hostTokens m) :
    (c.bind hostPtr hostTokens q metadata s).2.Consistent hostPtr hostTokens cycles ∧
      ∀ b, (c.bind hostPtr hostTokens q metadata s).1 = .ok b →
        c.RowsOf hostPtr hostTokens (q.plan s.plans)
          ((c.bind hostPtr hostTokens q metadata s).2.store.getD b.rows []) := by
  have hranges : c.bindCall.ranges = q.ranges := by
    unfold IncrementalDmaPlan.ranges BindCall.ranges
    rw [hq.starts, hq.ends]
    rfl
  have halign : c.bindCall.Aligned := by
    refine ⟨c.aligned, ?_⟩
    have := hrep.lengths
    rwa [hq.starts, hq.ends] at this
  have hplan : q.plan s.plans = segmentsFrom
      (cutAt (cycles q.cycle) q.blockIds q.blockSize 0 q.slotMappingBase)
      (slotOf q.blockIds q.blockSize 0 q.slotMappingBase) 0 c.bindCall.ranges := by
    rw [hrep.plan_eq, hranges]
    rfl
  have hprev : ∀ p ∈ (if c.useBound then s.bound else none), ∃ cut' slot',
      p.BoundFor hostPtr hostTokens cut' slot' s.store ∧ (c.bindCall.slotPrefixUnchanged = true →
        SlotPrefix (cutAt (cycles q.cycle) q.blockIds q.blockSize 0 q.slotMappingBase) cut'
          (slotOf q.blockIds q.blockSize 0 q.slotMappingBase) slot' c.bindCall.ranges
          p.ranges) := by
    intro p hp
    split at hp
    · next huse =>
      obtain ⟨old, hold, hpr, hbound⟩ := hs.bound p hp
      refine ⟨_, _, hbound, fun hword => ?_⟩
      rw [hranges, hpr]
      exact (htrue hword huse old hold).slotPrefix hq hrep
    · cases hp
  unfold ChainCall.bind
  rw [hplan]
  rcases hrun : bindIncrementalCopyAddresses hostPtr hostTokens (segmentsFrom
      (cutAt (cycles q.cycle) q.blockIds q.blockSize 0 q.slotMappingBase)
      (slotOf q.blockIds q.blockSize 0 q.slotMappingBase) 0 c.bindCall.ranges) c.bindCall
      (if c.useBound then s.bound else none) metadata s.store with ⟨r, store⟩
  obtain ⟨herr, hok⟩ := LayerwiseDma.bind_spec halign hmeta hprev hrun
  cases r with
  | error e =>
    rw [herr e rfl]
    exact ⟨hs, nofun⟩
  | ok b =>
    obtain ⟨hbound, hown, ⟨hstarts, hends⟩, hnpu, hwidths, hbytes⟩ := hok b rfl
    have hbr : b.ranges = c.bindCall.ranges := by
      unfold BoundCopyPrefix.ranges BindCall.ranges
      rw [hstarts, hends]
    refine ⟨⟨hs.plan, hs.sources, fun b' hb' => ?_⟩, fun b' hb' => ?_⟩
    · cases hb'
      exact ⟨q, rfl, hbr.trans hranges, hbound⟩
    · cases hb'
      have hrows := hbound.rows_eq
      rw [hbr, hown, hstarts, hends, hnpu, hwidths, hbytes] at hrows
      exact hrows

/-- A call of the chain keeps the records true, and binds the rows of the whole plan. -/
theorem ChainCall.run_spec (blank : Segment) (blankPage : Page)
    (hcycles : ∀ i, (cycles i).Periodic) {s : BindChain}
    (hs : s.Consistent hostPtr hostTokens cycles) (htrue : c.Truthful s) :
    (c.run hostPtr hostTokens cycles blank blankPage s).2.Consistent hostPtr hostTokens cycles ∧
      ∀ b, (c.run hostPtr hostTokens cycles blank blankPage s).1 = .ok b → ∃ plan,
        (cycles c.plan.1.cycle).planBlockIdRanges c.plan.1.blockIds c.plan.1.blockSize
          c.plan.1.starts c.plan.1.ends c.plan.1.slotMappingBase 0 = .ok plan ∧
        c.RowsOf hostPtr hostTokens plan
          ((c.run hostPtr hostTokens cycles blank blankPage s).2.store.getD b.rows []) := by
  unfold ChainCall.run
  rcases hrun : planBlockIdRangesIncremental cycles blank c.plan.1 s.plan s.plans with ⟨r, plans⟩
  cases r with
  | error e =>
    rw [incremental_raise hrun]
    exact ⟨hs, nofun⟩
  | ok q =>
    obtain ⟨hans, hrep, -⟩ := incremental_spec hcycles c.plan.2 hs.plan hrun
    have hfresh := fresh_eq hcycles c.plan.2 hans hrep
    have hplanned : ({ s with plans := plans, plan := some q } : BindChain).Consistent hostPtr
        hostTokens cycles := by
      refine ⟨fun p hp => ?_, hs.sources, hs.bound⟩
      cases hp
      exact hrep
    -- the rows are bound for the plan that the record stands for
    have hbind : ∀ (s' : BindChain) (metadata : Option SourceMetadata),
        s'.Consistent hostPtr hostTokens cycles → s'.plans = plans →
        s'.boundPlan = s.boundPlan →
        (∀ m ∈ metadata, c.bindCall.Described hostPtr hostTokens m) →
        (c.bind hostPtr hostTokens q metadata s').2.Consistent hostPtr hostTokens cycles ∧
          ∀ b, (c.bind hostPtr hostTokens q metadata s').1 = .ok b → ∃ plan,
            (cycles c.plan.1.cycle).planBlockIdRanges c.plan.1.blockIds c.plan.1.blockSize
              c.plan.1.starts c.plan.1.ends c.plan.1.slotMappingBase 0 = .ok plan ∧
            c.RowsOf hostPtr hostTokens plan
              ((c.bind hostPtr hostTokens q metadata s').2.store.getD b.rows []) := by
      intro s' metadata hs' hplans hold hmeta
      have htrue' : c.Truthful s' := fun h1 h2 old h3 => htrue h1 h2 old (hold ▸ h3)
      obtain ⟨h1, h2⟩ := ChainCall.bind_spec hs' hans (hplans ▸ hrep) htrue' hmeta
      refine ⟨h1, fun b hb => ⟨_, hfresh, ?_⟩⟩
      have := h2 b hb
      rwa [(hplans ▸ hrep : q.Represents cycles s'.plans).plan_eq] at this
    simp only
    split
    · rcases hprep : prepareSourceAddresses hostPtr hostTokens blankPage c.sourceObjs
        c.plan.1.starts c.plan.1.ends s.sources s.sourceTables with ⟨r, tables⟩
      obtain ⟨herr', hok'⟩ := prepareSourceAddresses_spec hs.sources hprep
      cases r with
      | error e =>
        rw [herr' e rfl]
        exact ⟨hplanned, nofun⟩
      | ok m =>
        obtain ⟨hholds, hown, hstarts, hends⟩ := hok' m rfl
        refine hbind _ _ ⟨hplanned.plan, fun m' hm' => ?_, hplanned.bound⟩ rfl rfl fun d hd => ?_
        · cases hm'
          exact hholds
        · cases hd
          obtain ⟨table, htable, htake, -⟩ := hholds.pages
          refine ⟨hown, hstarts, hends, ?_⟩
          rw [hown, length_map] at htake
          show (tables.getD m.table []).take _ = _
          rw [getD_eq_getElem?_getD, htable, Option.getD_some]
          exact htake
    · exact hbind _ _ hplanned rfl rfl nofun

/-! ## Main theorem -/

/-- **Bound rows.**  In a chain of calls whose `slot_prefix_unchanged` is truthful, the rows of
every call are those that `bindCopyAddresses` makes of the full plan with the full address table,
whether rows were kept, patched or bound anew. -/
theorem bind_chain_rows (hcycles : ∀ i, (cycles i).Periodic) {s : BindChain}
    (h : (bindMachine hostPtr hostTokens cycles blank blankPage).ReachableIf
      (fun s c => c.Truthful s) s) (c : ChainCall) (hc : c.Truthful s) {b : BoundCopyPrefix}
    {s' : BindChain} (hrun : c.run hostPtr hostTokens cycles blank blankPage s = (.ok b, s')) :
    ∃ plan, (cycles c.plan.1.cycle).planBlockIdRanges c.plan.1.blockIds c.plan.1.blockSize
        c.plan.1.starts c.plan.1.ends c.plan.1.slotMappingBase 0 = .ok plan ∧
      c.RowsOf hostPtr hostTokens plan (s'.store.getD b.rows []) := by
  have hinv : (bindMachine hostPtr hostTokens cycles blank blankPage).InductiveIf
      (fun s c => c.Truthful s) fun s => s.Consistent hostPtr hostTokens cycles := by
    constructor
    · rintro s ⟨h1, h2, h3⟩
      constructor
      · rw [h1]
        exact nofun
      · rw [h2]
        exact nofun
      · rw [h3]
        exact nofun
    · intro s c s' hs htrue hstep
      cases hstep
      exact (c.run_spec blank blankPage hcycles hs htrue).1
  have hspec := (c.run_spec blank blankPage hcycles (hinv.reachable h) hc).2 b
  rw [hrun] at hspec
  exact hspec rfl

/-- A bound call over two planes, the objects numbered from 1. -/
def numberedCall (n : Nat) (plan : RangedCall)
    (aligned : (range' 1 n).length = plan.1.starts.length) : ChainCall :=
  ⟨plan, range' 1 n, [10000, 20000], [2, 1], 2, true, true, true, true, aligned⟩

def partialCall : ChainCall := numberedCall 2 ⟨partialTail, by decide, by decide⟩ (by decide)

/-- The tail has grown and a third chunk has come. -/
def patchedCall : ChainCall := numberedCall 3 ⟨thirdChunk, by decide, by decide⟩ (by decide)

def partialPlan : IncrementalDmaPlan :=
  { cycle := 0, blockSize := 4, slotMappingBase := 0, blockIds := [10, 11], starts := [0, 4]
    ends := [4, 6], table := 0, segmentCount := 2, tailSegmentStart := 1, reusedChunks := 0
    plannedChunks := 2, plannedBlocks := 2, copiedSegments := 0, mappingChanged := false
    maxSlotEnd := 46 }

def partialBound : BoundCopyPrefix :=
  { owners := [1, 2], starts := [0, 4], ends := [4, 6], npuPtrs := [10000, 20000]
    planeWidths := [2, 1], elementBytes := 2, segmentChunks := [0, 1], rows := 0
    reusedChunks := 0, tailSegmentStart := some 1 }

def partialChain : BindChain :=
  { plans := [[⟨0, 40, 0, 4⟩, ⟨1, 44, 0, 2⟩, ⟨0, 0, 0, 0⟩, ⟨0, 0, 0, 0⟩]], plan := some partialPlan
    sourceTables := [[⟨1000, 8⟩, ⟨2000, 8⟩, ⟨0, 0⟩, ⟨0, 0⟩]]
    sources := some ⟨[1, 2], [0, 4], [4, 6], 0, 0, 2, 0⟩
    store := [[⟨10160, 1000, 16⟩, ⟨20080, 1032, 8⟩, ⟨10176, 2000, 8⟩, ⟨20088, 2032, 4⟩]]
    bound := some partialBound, boundPlan := some partialPlan }

def patchedRows : List CopyRow :=
  [⟨10160, 1000, 16⟩, ⟨20080, 1032, 8⟩, ⟨10176, 2000, 16⟩, ⟨20088, 2032, 8⟩,
   ⟨10320, 3000, 16⟩, ⟨20160, 3032, 8⟩, ⟨10336, 3016, 8⟩, ⟨20168, 3040, 4⟩]

theorem bind_chain_rows_patched :
    bindCopyAddresses thirdTable [1000, 2000, 3000] [10000, 20000] [4, 4, 6] [2, 1] 2 false
      (some [8, 8, 8]) = .ok patchedRows := by
  have h0 : (bindMachine (· * 1000) (fun _ => 8) (fun _ => bundledCycle) ⟨0, 0, 0, 0⟩ ⟨0, 0⟩).start
      ⟨[], none, [], none, [], none, none⟩ := ⟨rfl, rfl, rfl⟩
  have hfirst : partialCall.run (· * 1000) (fun _ => 8) (fun _ => bundledCycle) ⟨0, 0, 0, 0⟩ ⟨0, 0⟩
      ⟨[], none, [], none, [], none, none⟩ = (.ok partialBound, partialChain) := by decide +kernel
  have hstep : (bindMachine (· * 1000) (fun _ => 8) (fun _ => bundledCycle) ⟨0, 0, 0, 0⟩
      ⟨0, 0⟩).step ⟨[], none, [], none, [], none, none⟩ partialCall = some partialChain :=
    congrArg (fun r : Except DmaError BoundCopyPrefix × BindChain => some r.2) hfirst
  have htrue : patchedCall.Truthful partialChain := by
    intro _ _ old hold
    cases hold
    exact ChainCall.keepsSlots_of_sameMap (by decide) (by decide)
      ⟨by decide, by decide, by decide⟩
  have hpatched : ∃ b s, patchedCall.run (· * 1000) (fun _ => 8) (fun _ => bundledCycle)
      ⟨0, 0, 0, 0⟩ ⟨0, 0⟩ partialChain = (.ok b, s) ∧ s.store.getD b.rows [] = patchedRows :=
    ⟨_, _, rfl, by decide +kernel⟩
  obtain ⟨b, s, hrun, hrows⟩ := hpatched
  obtain ⟨plan, hplan, -, hbind⟩ := bind_chain_rows (fun _ => bundledCycle_periodic)
    (.step partialCall (.start h0) (nofun) hstep) patchedCall
    htrue hrun
  have hfresh : bundledCycle.planBlockIdRanges [10, 11, 20, 21] 4 [0, 4, 8] [4, 8, 14] 0 0 =
      .ok thirdTable := by decide +kernel
  cases hfresh.symm.trans hplan
  rw [hrows] at hbind
  exact hbind (by decide)

end LayerwiseDma
