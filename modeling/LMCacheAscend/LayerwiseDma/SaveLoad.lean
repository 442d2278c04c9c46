import LMCacheAscend.LayerwiseDma.Bind

/-!
# Saving and loading

A layer is saved by the rows bound device to host with one plan and loaded by
the rows bound host to device with another plan of the same ranges, whose blocks
may all be different.  Each plan cuts the ranges into runs of its own; what the
two share are the cells: the bytes of one token in one plane.  A row moves the
cells of its run (`Bank.row_of_token`, `Bank.token_of_row`), so rows are apart
when cells are.

`save_load_identity` is the round trip: after the load each cell of the second
bank holds what it held in the first, the host side of every row lies in the
page of its chunk, the host sides are apart, and nothing else changes.
-/

namespace LayerwiseDma

open Lib List

/-- A bank of a device, with the block table that places the tokens. -/
structure Bank where
  cycle : DmaCycle
  blockIds : List Nat
  blockSize : Nat
  firstBlock : Nat
  base : Nat
  npuPtrs : List Nat
  deriving DecidableEq, Repr

def Bank.slot (d : Bank) (t : Nat) : Nat := slotOf d.blockIds d.blockSize d.firstBlock d.base t

def Bank.cut (d : Bank) (t : Nat) : Bool :=
  cutAt d.cycle d.blockIds d.blockSize d.firstBlock d.base t

/-- What the plans of both directions share: the ranges of the chunks, their pages on the host,
and the planes. -/
structure Layer where
  ranges : List (Nat × Nat)
  pages : List Page
  planeWidths : List Nat
  elementBytes : Nat
  deriving DecidableEq, Repr

/-- The plan of the ranges, bound with the pages. -/
def Bank.copies (d : Bank) (L : Layer) (hostChunkTokens : Option (List Nat))
    (deviceToHost : Bool) : Except DmaError (List CopyRow) :=
  match d.cycle.planBlockIdRanges d.blockIds d.blockSize (L.ranges.map Prod.fst)
      (L.ranges.map Prod.snd) d.base d.firstBlock with
  | .error e => .error e
  | .ok plan => bindCopyAddresses plan (L.pages.map Page.ptr) d.npuPtrs
      (L.ranges.map fun r => r.2 - r.1) L.planeWidths L.elementBytes deviceToHost hostChunkTokens

/-- Token `t` is in the range of chunk `i`. -/
def InChunk (ranges : List (Nat × Nat)) (i t : Nat) : Prop :=
  ∃ r, ranges[i]? = some r ∧ r.1 ≤ t ∧ t < r.2

/-! ## Cells -/

section

variable (L : Layer)

/-- The bytes of one token in a plane. -/
def Layer.cellBytes (p : Nat) : Nat := L.planeWidths.getD p 0 * L.elementBytes

/-- The bytes of one token in the planes before. -/
def Layer.cellOffset (p : Nat) : Nat := (L.planeWidths.take p).sum * L.elementBytes

/-- The address of a cell on the device. -/
def Bank.cell (d : Bank) (p t : Nat) : Nat := d.npuPtrs.getD p 0 + d.slot t * L.cellBytes p

/-- The bytes of a page. -/
def Page.bytes (page : Page) : Nat := page.tokens * (L.planeWidths.sum * L.elementBytes)

/-- The address, in a page, of the cell of the chunk's token `j`. -/
def Page.cell (page : Page) (p j : Nat) : Nat :=
  page.ptr + page.tokens * L.cellOffset p + j * L.cellBytes p

/-- The address of a cell in the page of its chunk. -/
def Layer.pageCell (p i t : Nat) : Nat :=
  (L.pages.getD i ⟨0, 0⟩).cell L p (t - (L.ranges.getD i (0, 0)).1)

/-- The pages have room for the ranges and are apart. -/
structure Layer.Valid : Prop where
  ordered : Ordered L.ranges
  length_pages : L.pages.length = L.ranges.length
  room : ∀ x ∈ L.pages.zip L.ranges, x.2.2 - x.2.1 ≤ x.1.tokens
  apart : L.pages.Pairwise fun a b => Apart a.ptr (a.bytes L) b.ptr (b.bytes L)

/-- The block table places the tokens of the ranges, and the planes match. -/
structure Bank.Valid (d : Bank) : Prop where
  periodic : d.cycle.Periodic
  blockSize_pos : 0 < d.blockSize
  covers : Covers d.blockIds d.blockSize d.firstBlock d.base L.ranges
  layout : ValidLayout d.npuPtrs L.planeWidths L.elementBytes

/-- Different cells of the ranges are apart on the device: no block is used twice, and no plane
overlaps another. -/
def Bank.CellsApart (d : Bank) : Prop :=
  ∀ i p t j q u, InChunk L.ranges i t → InChunk L.ranges j u → p < L.planeWidths.length →
    q < L.planeWidths.length → p ≠ q ∨ t ≠ u →
    Apart (d.cell L p t) (L.cellBytes p) (d.cell L q u) (L.cellBytes q)

end

section

variable {L : Layer}

variable {p : Nat} {page : Page} {j : Nat}

theorem Layer.cellOffset_succ (hp : p < L.planeWidths.length) :
    L.cellOffset (p + 1) = L.cellOffset p + L.cellBytes p := by
  unfold Layer.cellOffset Layer.cellBytes
  rw [take_add_one, sum_append, Nat.add_mul, getElem?_eq_getElem hp]
  simp [getElem?_eq_getElem hp]

theorem Layer.cellOffset_mono (L : Layer) {q : Nat} (h : p ≤ q) :
    L.cellOffset p ≤ L.cellOffset q := by
  unfold Layer.cellOffset
  refine Nat.mul_le_mul_right _ ?_
  exact (take_sublist_take_left h).sum_le_sum fun _ _ => Nat.zero_le _

theorem Layer.cellOffset_le (L : Layer) (p : Nat) :
    L.cellOffset p ≤ L.planeWidths.sum * L.elementBytes :=
  Nat.mul_le_mul_right _ ((take_sublist _ _).sum_le_sum fun _ _ => Nat.zero_le _)

theorem Page.cell_end_le (hp : p < L.planeWidths.length) (hj : j < page.tokens) :
    page.cell L p j + L.cellBytes p ≤
      page.ptr + page.tokens * L.cellOffset (p + 1) := by
  have hle : (j + 1) * L.cellBytes p ≤
      page.tokens * L.cellBytes p := Nat.mul_le_mul_right _ hj
  unfold Page.cell
  rw [Layer.cellOffset_succ hp, Nat.mul_add]
  rw [Nat.succ_mul] at hle
  omega

theorem Page.cell_inside (hp : p < L.planeWidths.length) (hj : j < page.tokens) :
    page.ptr ≤ page.cell L p j ∧
      page.cell L p j + L.cellBytes p ≤
        page.ptr + page.bytes L := by
  constructor
  · unfold Page.cell
    omega
  · have h1 := Page.cell_end_le hp hj
    have h2 := Nat.mul_le_mul_left page.tokens (L.cellOffset_le (p + 1))
    unfold Page.bytes
    omega

theorem Page.cell_apart {q k : Nat} (hp : p < L.planeWidths.length)
    (hq : q < L.planeWidths.length) (hj : j < page.tokens) (hk : k < page.tokens)
    (hne : p ≠ q ∨ j ≠ k) :
    Apart (page.cell L p j) (L.cellBytes p)
      (page.cell L q k) (L.cellBytes q) := by
  have hplane : ∀ {p q j k : Nat}, p < L.planeWidths.length → j < page.tokens → p < q →
      page.cell L p j + L.cellBytes p ≤
        page.cell L q k := by
    intro p q j k hp hj hlt
    have h1 := Page.cell_end_le hp hj
    have h2 := Nat.mul_le_mul_left page.tokens
      (L.cellOffset_mono (show p + 1 ≤ q from hlt))
    unfold Page.cell at h1 ⊢
    omega
  have htoken : ∀ {j k : Nat}, j < k →
      page.cell L p j + L.cellBytes p ≤
        page.cell L p k := by
    intro j k hlt
    have hle : (j + 1) * L.cellBytes p ≤
        k * L.cellBytes p := Nat.mul_le_mul_right _ hlt
    rw [Nat.succ_mul] at hle
    unfold Page.cell
    omega
  rcases Nat.lt_trichotomy p q with hlt | rfl | hlt
  · exact .inl (hplane hp hj hlt)
  · rcases Nat.lt_or_gt_of_ne (hne.resolve_left fun h => h rfl) with hlt | hlt
    · exact .inl (htoken hlt)
    · exact .inr (htoken hlt)
  · exact .inr (hplane hq hk hlt)

theorem Layer.cellBytes_pos {npuPtrs : List Nat}
    (h : ValidLayout npuPtrs L.planeWidths L.elementBytes) (hp : p < L.planeWidths.length) :
    0 < L.cellBytes p := by
  unfold Layer.cellBytes
  rw [getD_eq_getElem?_getD, getElem?_eq_getElem hp, Option.getD_some]
  exact Nat.mul_pos (h.width_pos _ (getElem_mem hp)) h.bytes_pos

theorem planesOf_eq {npuPtrs : List Nat} (h : npuPtrs.length = L.planeWidths.length) :
    planesOf npuPtrs L.planeWidths L.elementBytes = (range L.planeWidths.length).map fun p =>
      ⟨npuPtrs.getD p 0, L.cellBytes p,
        L.cellOffset p⟩ := by
  have hcumsum : ∀ p < L.planeWidths.length,
      (cumsum L.planeWidths)[p]? = some (L.planeWidths.take (p + 1)).sum := by
    intro p hp
    have hp' : p + 1 < L.planeWidths.inits.length := by
      rw [length_inits]
      omega
    unfold cumsum
    rw [getElem?_map, getElem?_tail, getElem?_eq_getElem hp', getElem_inits]
    rfl
  refine ext_getElem? fun p => ?_
  rw [getElem?_map]
  by_cases hp : p < L.planeWidths.length
  · have hsub : (L.planeWidths.take (p + 1)).sum - L.planeWidths[p] = (L.planeWidths.take p).sum := by
      rw [take_add_one, getElem?_eq_getElem hp, sum_append]
      simp
    have hoffset : ((cumsum L.planeWidths).zipWith (fun s w => (s - w) * L.elementBytes)
        L.planeWidths)[p]? = some (L.cellOffset p) := by
      rw [getElem?_zipWith, hcumsum p hp, getElem?_eq_getElem hp]
      show some ((_ - _) * L.elementBytes) = _
      rw [hsub]
      rfl
    have hwidth : (L.planeWidths.map (· * L.elementBytes))[p]? =
        some (L.cellBytes p) := by
      rw [getElem?_map, getElem?_eq_getElem hp]
      unfold Layer.cellBytes
      rw [getD_eq_getElem?_getD, getElem?_eq_getElem hp]
      rfl
    have hnpu : npuPtrs[p]? = some (npuPtrs.getD p 0) := by
      rw [getD_eq_getElem?_getD, getElem?_eq_getElem (h ▸ hp)]
      rfl
    have hzip := (getElem?_zip_eq_some (z := (_, _))).2 ⟨hwidth, hoffset⟩
    unfold planesOf
    simp only
    rw [getElem?_zipWith, hnpu, hzip, getElem?_range hp]
    rfl
  · rw [getElem?_eq_none (by rw [length_planesOf _ h]; omega),
      getElem?_eq_none (by rw [length_range]; omega)]
    rfl

end

/-! ## Runs -/

variable {x : Run}

section

variable {cut : Nat → Bool}

theorem pairwise_runsFrom (k : Nat) {l : List (Nat × Nat)} (hl : Ordered l) :
    (runsFrom cut k l).Pairwise fun x y => x.last ≤ y.first := by
  induction l generalizing k with
  | nil => exact .nil
  | cons r l ih =>
    have happ : Ordered ([r] ++ l) := hl
    obtain ⟨-, hrest, hlt⟩ := happ.append
    have hne := hl.nonempty r mem_cons_self
    rw [runsFrom, pairwise_append]
    refine ⟨?_, ih (k + 1) hrest, fun x hx y hy => ?_⟩
    · rw [pairwise_map]
      exact pairwise_pieces (pairwise_cutsBetween hne)
    · obtain ⟨p, hp, rfl⟩ := mem_map.1 hx
      obtain ⟨i, q, p', hi, hp', rfl⟩ := mem_runsFrom.1 hy
      have hq := mem_of_getElem? hi
      have h1 := piece_inside hne hp
      have h2 := piece_inside (hrest.nonempty q hq) hp'
      have h3 := hlt r mem_cons_self q hq
      show p.2 ≤ p'.1
      omega

end

/-! ## Rows -/

section

variable (L : Layer) (d : Bank) (deviceToHost : Bool)

/-- The side of a row that is on the host. -/
def hostSide (row : CopyRow) : Nat := if deviceToHost then row.dst else row.src

/-- The side of a row that is on the device. -/
def deviceSide (row : CopyRow) : Nat := if deviceToHost then row.src else row.dst

/-- The row of a run and a plane. -/
def Bank.row (x : Run) (p : Nat) : CopyRow :=
  let host := L.pageCell p x.chunk x.first
  let device := d.cell L p x.first
  let size := (x.last - x.first) * L.cellBytes p
  if deviceToHost then ⟨host, device, size⟩ else ⟨device, host, size⟩

def Bank.rows : List CopyRow :=
  (runsFrom d.cut 0 L.ranges).flatMap fun x =>
    (range L.planeWidths.length).map (d.row L deviceToHost x)

@[simp] theorem Bank.hostSide_row (x : Run) (p : Nat) :
    hostSide deviceToHost (d.row L deviceToHost x p) = L.pageCell p x.chunk x.first := by
  cases deviceToHost <;> rfl

@[simp] theorem Bank.deviceSide_row (x : Run) (p : Nat) :
    deviceSide deviceToHost (d.row L deviceToHost x p) = d.cell L p x.first := by
  cases deviceToHost <;> rfl

@[simp] theorem Bank.size_row (x : Run) (p : Nat) :
    (d.row L deviceToHost x p).size = (x.last - x.first) * L.cellBytes p := by
  cases deviceToHost <;> rfl

end

section

variable {L : Layer} {d : Bank} {deviceToHost : Bool}

/-- What a run of a plan is. -/
structure Run.Inside (L : Layer) (d : Bank) (x : Run) : Prop where
  chunk : ∃ r, L.ranges[x.chunk]? = some r ∧ x.start = r.1 ∧ r.1 ≤ x.first ∧ x.last ≤ r.2
  nonempty : x.first < x.last
  slot : ∀ t, x.first ≤ t → t < x.last → d.slot t = d.slot x.first + (t - x.first)

theorem inside_of_mem (hL : L.Valid) (hd : d.Valid L)
    (hx : x ∈ runsFrom d.cut 0 L.ranges) : x.Inside L d := by
  obtain ⟨i, r, p, hi, hp, rfl⟩ := mem_runsFrom.1 hx
  have hmem := mem_of_getElem? hi
  have hne := hL.ordered.nonempty r hmem
  have hbase := hd.covers.base_le r hmem
  have hin := piece_inside hne hp
  refine ⟨⟨r, by rw [Nat.zero_add]; exact hi, rfl, hin.1, hin.2.2⟩, hin.2.1, fun t h1 h2 => ?_⟩
  exact slot_of_piece hne hp
    (fun x h _ hcut => slotOf_of_uncut hd.blockSize_pos (by omega) hcut) h1 h2

variable {t i p : Nat}

theorem Run.Inside.inChunk (h : x.Inside L d) (h1 : x.first ≤ t) (h2 : t < x.last) :
    InChunk L.ranges x.chunk t := by
  obtain ⟨r, hr, -, h3, h4⟩ := h.chunk
  exact ⟨r, hr, by omega, by omega⟩

theorem exists_run (hL : L.Valid) (cut : Nat → Bool) (h : InChunk L.ranges i t) :
    ∃ x ∈ runsFrom cut 0 L.ranges, x.chunk = i ∧ x.first ≤ t ∧ t < x.last := by
  obtain ⟨r, hi, h1, h2⟩ := h
  have hne := hL.ordered.nonempty r (mem_of_getElem? hi)
  obtain ⟨p, hp, h3, h4⟩ := exists_piece_between cut hne h1 h2
  exact ⟨_, mem_runsFrom.2 ⟨i, r, p, hi, hp, rfl⟩, Nat.zero_add i, h3, h4⟩

theorem Run.Inside.cell_eq (h : x.Inside L d) (p : Nat) (h1 : x.first ≤ t) (h2 : t < x.last) :
    d.cell L p t = d.cell L p x.first + (t - x.first) * L.cellBytes p := by
  unfold Bank.cell
  rw [h.slot t h1 h2, Nat.add_mul, Nat.add_assoc]

theorem Run.Inside.pageCell_eq (h : x.Inside L d) (p : Nat) (h1 : x.first ≤ t) :
    L.pageCell p x.chunk t =
      L.pageCell p x.chunk x.first + (t - x.first) * L.cellBytes p := by
  obtain ⟨r, hr, -, h3, -⟩ := h.chunk
  have hstart : L.ranges.getD x.chunk (0, 0) = r := by
    rw [getD_eq_getElem?_getD, hr]
    rfl
  have hsplit : t - r.1 = x.first - r.1 + (t - x.first) := by omega
  unfold Layer.pageCell Page.cell
  rw [hstart, hsplit, Nat.add_mul, ← Nat.add_assoc]

theorem page_of_chunk (hL : L.Valid) (h : InChunk L.ranges i t) :
    ∃ page r, L.pages[i]? = some page ∧ L.ranges[i]? = some r ∧ r.1 ≤ t ∧
      t - r.1 < page.tokens ∧ ∀ p, L.pageCell p i t = page.cell L p (t - r.1) := by
  obtain ⟨r, hr, h1, h2⟩ := h
  have hi : i < L.pages.length := by
    rw [hL.length_pages]
    exact lt_of_getElem? hr
  have hpage := getElem?_eq_getElem hi
  have hroom := hL.room _ (mem_of_getElem? ((getElem?_zip_eq_some (z := (_, _))).2
    ⟨hpage, hr⟩))
  refine ⟨_, r, hpage, hr, h1, ?_, fun p => ?_⟩
  · show t - r.1 < L.pages[i].tokens
    have : r.2 - r.1 ≤ L.pages[i].tokens := hroom
    omega
  · unfold Layer.pageCell
    rw [getD_eq_getElem?_getD, hpage, getD_eq_getElem?_getD, hr]
    rfl

theorem Layer.pageCell_inside (hL : L.Valid) (h : InChunk L.ranges i t)
    (hp : p < L.planeWidths.length) : ∃ page, L.pages[i]? = some page ∧
      page.ptr ≤ L.pageCell p i t ∧
      L.pageCell p i t + L.cellBytes p ≤ page.ptr + page.bytes L := by
  obtain ⟨page, r, hpage, -, -, hroom, hcell⟩ := page_of_chunk hL h
  rw [hcell p]
  exact ⟨page, hpage, Page.cell_inside hp hroom⟩

theorem Layer.pageCell_apart (hL : L.Valid) {j q u : Nat} (ht : InChunk L.ranges i t)
    (hu : InChunk L.ranges j u) (hp : p < L.planeWidths.length) (hq : q < L.planeWidths.length)
    (hne : p ≠ q ∨ t ≠ u) :
    Apart (L.pageCell p i t) (L.cellBytes p) (L.pageCell q j u) (L.cellBytes q) := by
  by_cases hij : i = j
  · subst hij
    obtain ⟨page, r, hpage, hr, h1, hroom, hcell⟩ := page_of_chunk hL ht
    obtain ⟨page', r', hpage', hr', h1', hroom', hcell'⟩ := page_of_chunk hL hu
    cases hpage.symm.trans hpage'
    cases hr.symm.trans hr'
    rw [hcell, hcell']
    exact Page.cell_apart hp hq hroom hroom' (hne.imp_right fun h => by omega)
  · obtain ⟨page, hpage, h1, h2⟩ := Layer.pageCell_inside hL ht hp
    obtain ⟨page', hpage', h1', h2'⟩ := Layer.pageCell_inside hL hu hq
    have hpages : Apart page.ptr (page.bytes L) page'.ptr (page'.bytes L) := by
      obtain ⟨hi, rfl⟩ := List.getElem?_eq_some_iff.1 hpage
      obtain ⟨hj, rfl⟩ := List.getElem?_eq_some_iff.1 hpage'
      rcases Nat.lt_or_gt_of_ne hij with hlt | hlt
      · exact pairwise_iff_getElem.1 hL.apart i j hi hj hlt
      · exact (pairwise_iff_getElem.1 hL.apart j i hj hi hlt).symm
    rcases hpages with hpages | hpages
    · exact .inl (by omega)
    · exact .inr (by omega)

variable {row : CopyRow}

theorem Bank.mem_rows : row ∈ d.rows L deviceToHost ↔
    ∃ x ∈ runsFrom d.cut 0 L.ranges, ∃ p < L.planeWidths.length,
      row = d.row L deviceToHost x p := by
  unfold Bank.rows
  simp only [mem_flatMap, mem_map, mem_range, eq_comm]

theorem Bank.pairwise_rows (hL : L.Valid) {R : CopyRow → CopyRow → Prop}
    (h : ∀ x ∈ runsFrom d.cut 0 L.ranges, ∀ y ∈ runsFrom d.cut 0 L.ranges, ∀ p q,
      p < L.planeWidths.length → q < L.planeWidths.length → x = y ∧ p ≠ q ∨ x.last ≤ y.first →
      R (d.row L deviceToHost x p) (d.row L deviceToHost y q)) :
    (d.rows L deviceToHost).Pairwise R := by
  unfold Bank.rows
  rw [pairwise_flatMap]
  constructor
  · intro x hx
    rw [pairwise_map]
    refine List.Pairwise.imp_of_mem (fun {p q} hp hq hlt => ?_) pairwise_lt_range
    rw [mem_range] at hp hq
    exact h x hx x hx p q hp hq (.inl ⟨rfl, Nat.ne_of_lt hlt⟩)
  · refine List.Pairwise.imp_of_mem (fun {x y} hx hy hxy a ha b hb => ?_)
      (pairwise_runsFrom 0 hL.ordered)
    obtain ⟨p, hp, rfl⟩ := mem_map.1 ha
    obtain ⟨q, hq, rfl⟩ := mem_map.1 hb
    rw [mem_range] at hp hq
    exact h x hx y hy p q hp hq (.inr hxy)

theorem Run.Inside.size_pos (h : x.Inside L d) (hd : d.Valid L) (hp : p < L.planeWidths.length) :
    0 < (x.last - x.first) * L.cellBytes p :=
  Nat.mul_pos (by have := h.nonempty; omega) (Layer.cellBytes_pos hd.layout hp)

theorem cells_ne {x y : Run} {q u : Nat} (h : x = y ∧ p ≠ q ∨ x.last ≤ y.first)
    (ht : x.first ≤ t ∧ t < x.last) (hu : y.first ≤ u ∧ u < y.last) : p ≠ q ∨ t ≠ u := by
  rcases h with ⟨-, h⟩ | h
  · exact .inl h
  · exact .inr (by omega)

theorem Bank.rows_host_apart (deviceToHost : Bool) (hL : L.Valid) (hd : d.Valid L) :
    (d.rows L deviceToHost).Pairwise fun a b =>
      Apart (hostSide deviceToHost a) a.size (hostSide deviceToHost b) b.size := by
  refine Bank.pairwise_rows hL fun x hx y hy p q hp hq hxy => ?_
  have hx := inside_of_mem hL hd hx
  have hy := inside_of_mem hL hd hy
  simp only [Bank.hostSide_row, Bank.size_row]
  refine apart_of_cells (fun t h1 _ => hx.pageCell_eq p h1) (fun u h1 _ => hy.pageCell_eq q h1)
    (hx.size_pos hd hp) (hy.size_pos hd hq) fun t u ht hu => ?_
  exact Layer.pageCell_apart hL (hx.inChunk ht.1 ht.2) (hy.inChunk hu.1 hu.2) hp hq
    (cells_ne hxy ht hu)

theorem Bank.rows_device_apart (deviceToHost : Bool) (hL : L.Valid) (hd : d.Valid L)
    (hc : d.CellsApart L) :
    (d.rows L deviceToHost).Pairwise fun a b =>
      Apart (deviceSide deviceToHost a) a.size (deviceSide deviceToHost b) b.size := by
  refine Bank.pairwise_rows hL fun x hx y hy p q hp hq hxy => ?_
  have hx := inside_of_mem hL hd hx
  have hy := inside_of_mem hL hd hy
  simp only [Bank.deviceSide_row, Bank.size_row]
  refine apart_of_cells (fun t h1 h2 => hx.cell_eq p h1 h2) (fun u h1 h2 => hy.cell_eq q h1 h2)
    (hx.size_pos hd hp) (hy.size_pos hd hq) fun t u ht hu => ?_
  exact hc _ p t _ q u (hx.inChunk ht.1 ht.2) (hy.inChunk hu.1 hu.2) hp hq (cells_ne hxy ht hu)

theorem Bank.row_of_token (hL : L.Valid) (hd : d.Valid L) (deviceToHost : Bool)
    (h : InChunk L.ranges i t) (hp : p < L.planeWidths.length) :
    ∃ row ∈ d.rows L deviceToHost, ∃ j, hostSide deviceToHost row + j = L.pageCell p i t ∧
      deviceSide deviceToHost row + j = d.cell L p t ∧ j + L.cellBytes p ≤ row.size := by
  obtain ⟨x, hx, rfl, h1, h2⟩ := exists_run hL d.cut h
  have hin := inside_of_mem hL hd hx
  have hle : (t - x.first + 1) * L.cellBytes p ≤ (x.last - x.first) * L.cellBytes p :=
    Nat.mul_le_mul_right _ (by omega)
  refine ⟨_, Bank.mem_rows.2 ⟨x, hx, p, hp, rfl⟩, (t - x.first) * L.cellBytes p, ?_, ?_, ?_⟩
  · rw [Bank.hostSide_row, hin.pageCell_eq p h1]
  · rw [Bank.deviceSide_row, hin.cell_eq p h1 h2]
  · rw [Bank.size_row, ← Nat.succ_mul]
    exact hle

theorem Bank.token_of_row (hL : L.Valid) (hd : d.Valid L)
    (hrow : row ∈ d.rows L deviceToHost) {a : Nat} (h1 : deviceSide deviceToHost row ≤ a)
    (h2 : a < deviceSide deviceToHost row + row.size) :
    ∃ i t p, InChunk L.ranges i t ∧ p < L.planeWidths.length ∧
      d.cell L p t ≤ a ∧ a < d.cell L p t + L.cellBytes p := by
  obtain ⟨x, hx, p, hp, rfl⟩ := Bank.mem_rows.1 hrow
  have hin := inside_of_mem hL hd hx
  rw [Bank.deviceSide_row] at h1 h2
  rw [Bank.size_row] at h2
  obtain ⟨t, ht1, ht2, hat⟩ := exists_cell (fun t h1 h2 => hin.cell_eq p h1 h2) h1 h2
  exact ⟨_, t, p, hin.inChunk ht1 ht2, hp, hat⟩

theorem Bank.row_inside (hL : L.Valid) (hd : d.Valid L) (hrow : row ∈ d.rows L deviceToHost) :
    ∃ i t p page, InChunk L.ranges i t ∧ deviceSide deviceToHost row = d.cell L p t ∧
      L.pages[i]? = some page ∧ page.ptr ≤ hostSide deviceToHost row ∧
      hostSide deviceToHost row + row.size ≤ page.ptr + page.bytes L := by
  obtain ⟨x, hx, p, hp, rfl⟩ := Bank.mem_rows.1 hrow
  have hin := inside_of_mem hL hd hx
  have hlt := hin.nonempty
  have hfirst := hin.inChunk (Nat.le_refl x.first) hlt
  obtain ⟨page, hpage, h1, -⟩ := Layer.pageCell_inside hL hfirst hp
  obtain ⟨page', hpage', -, h2⟩ := Layer.pageCell_inside hL
    (hin.inChunk (t := x.last - 1) (by omega) (by omega)) hp
  cases hpage.symm.trans hpage'
  rw [hin.pageCell_eq p (by omega), Nat.add_assoc, ← Nat.succ_mul] at h2
  have hsize : (x.last - 1 - x.first).succ = x.last - x.first := by omega
  rw [hsize] at h2
  refine ⟨x.chunk, x.first, p, page, hfirst, Bank.deviceSide_row .., hpage, ?_, ?_⟩
  · rw [Bank.hostSide_row]
    exact h1
  · rw [Bank.hostSide_row, Bank.size_row]
    exact h2

/-- **The rows that are bound.** -/
theorem Bank.copies_eq (hL : L.Valid) (hd : d.Valid L) {hostChunkTokens : Option (List Nat)}
    (htokens : hostChunkTokens.getD (L.ranges.map fun r => r.2 - r.1) =
      L.pages.map Page.tokens) :
    d.copies L hostChunkTokens deviceToHost = .ok (d.rows L deviceToHost) := by
  have hroom : ∀ x ∈ L.pages.zip (L.ranges.map fun r => r.2 - r.1), x.2 ≤ x.1.tokens := by
    intro x hx
    rw [zip_map_right] at hx
    obtain ⟨y, hy, rfl⟩ := mem_map.1 hx
    exact hL.room y hy
  have hlen : L.pages.length = (L.ranges.map fun r => r.2 - r.1).length := by
    rw [length_map]
    exact hL.length_pages
  have hbind := (bindCopyAddresses_iff (segmentsFrom d.cut d.slot 0 L.ranges) deviceToHost).2
    ⟨⟨hd.layout, hlen, hroom⟩, rfl⟩
  unfold Bank.copies
  rw [planBlockIdRanges_eq hd.periodic hL.ordered hd.blockSize_pos hd.covers]
  show bindCopyAddresses (segmentsFrom d.cut d.slot 0 L.ranges) _ _ _ _ _ _ _ = _
  unfold bindCopyAddresses at hbind ⊢
  rw [htokens]
  rw [Option.getD_some] at hbind
  rw [hbind]
  congr 1
  unfold rowsOf Bank.rows
  rw [segmentsFrom_eq_runs, flatMap_map, planesOf_eq hd.layout.count]
  refine flatMap_congr fun x hx => ?_
  rw [map_map]
  refine map_congr_left fun p hp => ?_
  have hin := inside_of_mem hL hd hx
  obtain ⟨r, hr, hstart, -⟩ := hin.chunk
  have hget : (L.ranges.getD x.chunk (0, 0)).1 = x.start := by
    rw [getD_eq_getElem?_getD, hr, hstart]
    rfl
  show copyRow _ _ (x.segment d.slot) ⟨_, _, _⟩ = _
  unfold Bank.row Layer.pageCell
  rw [hget]
  rfl

end

/-! ## Block tables that use no block twice -/

theorem slotOf_injective {blockIds : List Nat} {blockSize firstBlock base : Nat}
    {ranges : List (Nat × Nat)} (hbs : 0 < blockSize)
    (hcov : Covers blockIds blockSize firstBlock base ranges) (hnodup : blockIds.Nodup)
    {i j t u : Nat} (ht : InChunk ranges i t) (hu : InChunk ranges j u)
    (h : slotOf blockIds blockSize firstBlock base t =
      slotOf blockIds blockSize firstBlock base u) : t = u := by
  have hindex : ∀ {i t : Nat}, InChunk ranges i t → base ≤ t ∧
      firstBlock ≤ (t - base) / blockSize ∧
      (t - base) / blockSize - firstBlock < blockIds.length := by
    rintro i t ⟨r, hi, h1, h2⟩
    have hmem := mem_of_getElem? hi
    have hb := hcov.base_le r hmem
    have hf := hcov.first_le r hmem
    have he := hcov.end_le r hmem
    have hlo : firstBlock ≤ (t - base) / blockSize :=
      (Nat.le_div_iff_mul_le hbs).2 (by omega)
    have hhi : (t - base) / blockSize < firstBlock + blockIds.length :=
      (Nat.div_lt_iff_lt_mul hbs).2 (by omega)
    exact ⟨by omega, hlo, by omega⟩
  obtain ⟨hbt, hlt, hnt⟩ := hindex ht
  obtain ⟨hbu, hlu, hnu⟩ := hindex hu
  unfold slotOf at h
  have hmod : (t - base) % blockSize = (u - base) % blockSize := by
    have := congrArg (· % blockSize) h
    simpa [Nat.mul_add_mod_self_right] using this
  have hblock : blockIds.getD ((t - base) / blockSize - firstBlock) 0 =
      blockIds.getD ((u - base) / blockSize - firstBlock) 0 := by
    rw [hmod] at h
    exact Nat.eq_of_mul_eq_mul_right hbs (Nat.add_right_cancel h)
  rw [getD_eq_getElem?_getD, getD_eq_getElem?_getD, getElem?_eq_getElem hnt,
    getElem?_eq_getElem hnu, Option.getD_some, Option.getD_some] at hblock
  have hdiv := (hnodup.getElem_inj_iff).1 hblock
  have h1 := Nat.div_add_mod (t - base) blockSize
  have h2 := Nat.div_add_mod (u - base) blockSize
  have hdiv' : (t - base) / blockSize = (u - base) / blockSize := by omega
  rw [hdiv', hmod] at h1
  omega

/-- Blocks that differ, in planes of `capacity` slots that do not overlap. -/
theorem Bank.cellsApart_of_planes {L : Layer} {d : Bank} (hd : d.Valid L) (capacity : Nat)
    (hnodup : d.blockIds.Nodup) (hslot : ∀ i t, InChunk L.ranges i t → d.slot t < capacity)
    (hplanes : ∀ p q, p < q → q < L.planeWidths.length →
      Apart (d.npuPtrs.getD p 0) (capacity * L.cellBytes p) (d.npuPtrs.getD q 0)
        (capacity * L.cellBytes q)) : d.CellsApart L := by
  have hin : ∀ {i t} (p : Nat), InChunk L.ranges i t → d.npuPtrs.getD p 0 ≤ d.cell L p t ∧
      d.cell L p t + L.cellBytes p ≤ d.npuPtrs.getD p 0 + capacity * L.cellBytes p := by
    intro i t p ht
    have hle := Nat.mul_le_mul_right (L.cellBytes p) (Nat.succ_le_of_lt (hslot i t ht))
    rw [Nat.succ_mul] at hle
    unfold Bank.cell
    omega
  have hplane : ∀ {i p t j q u}, InChunk L.ranges i t → InChunk L.ranges j u →
      q < L.planeWidths.length → p < q →
      Apart (d.cell L p t) (L.cellBytes p) (d.cell L q u) (L.cellBytes q) := by
    intro i p t j q u ht hu hq hlt
    have h1 := hin p ht
    have h2 := hin q hu
    rcases hplanes p q hlt hq with h | h
    · exact .inl (by omega)
    · exact .inr (by omega)
  intro i p t j q u ht hu hp hq hne
  rcases Nat.lt_trichotomy p q with hlt | rfl | hlt
  · exact hplane ht hu hq hlt
  · have hslots : d.slot t ≠ d.slot u := fun h =>
      hne.resolve_left (fun h => h rfl)
        (slotOf_injective hd.blockSize_pos hd.covers hnodup ht hu h)
    unfold Bank.cell
    rcases Nat.lt_or_gt_of_ne hslots with hlt | hlt
    · have hle := Nat.mul_le_mul_right (L.cellBytes p) (Nat.succ_le_of_lt hlt)
      rw [Nat.succ_mul] at hle
      exact .inl (by omega)
    · have hle := Nat.mul_le_mul_right (L.cellBytes p) (Nat.succ_le_of_lt hlt)
      rw [Nat.succ_mul] at hle
      exact .inr (by omega)
  · exact (hplane hu ht hp hlt).symm

/-! ## The round trip -/

/-- The host sides of the rows: in the page of their chunk, and apart. -/
structure Bank.HostRows (L : Layer) (d : Bank) (deviceToHost : Bool) (rows : List CopyRow) :
    Prop where
  inside : ∀ row ∈ rows, ∃ i t p page, InChunk L.ranges i t ∧
    deviceSide deviceToHost row = d.cell L p t ∧ L.pages[i]? = some page ∧
    page.ptr ≤ hostSide deviceToHost row ∧
    hostSide deviceToHost row + row.size ≤ page.ptr + page.bytes L
  apart : rows.Pairwise fun a b =>
    Apart (hostSide deviceToHost a) a.size (hostSide deviceToHost b) b.size

theorem Bank.hostRows {L : Layer} {d : Bank} (hL : L.Valid) (hd : d.Valid L)
    (deviceToHost : Bool) : d.HostRows L deviceToHost (d.rows L deviceToHost) :=
  ⟨fun _ hrow => Bank.row_inside hL hd hrow, Bank.rows_host_apart deviceToHost hL hd⟩

section

variable {β : Type*} {L : Layer} {save load : Bank}

theorem saved_cell (hL : L.Valid) (hs : save.Valid L) (device host : Nat → β) {i t p k : Nat}
    (ht : InChunk L.ranges i t) (hp : p < L.planeWidths.length) (hk : k < L.cellBytes p) :
    copyAll (save.rows L true) device host (L.pageCell p i t + k) =
      device (save.cell L p t + k) := by
  obtain ⟨row, hrow, j, hhost, hdevice, hsize⟩ := Bank.row_of_token hL hs true ht hp
  have hapart : (save.rows L true).Pairwise fun a b => Apart a.dst a.size b.dst b.size :=
    Bank.rows_host_apart true hL hs
  rw [← hhost, ← hdevice, Nat.add_assoc, Nat.add_assoc]
  exact copyAll_inside hapart hrow (by omega)

theorem loaded_cell (hL : L.Valid) (hl : load.Valid L) (hc : load.CellsApart L)
    (host device : Nat → β) {i t p k : Nat} (ht : InChunk L.ranges i t)
    (hp : p < L.planeWidths.length) (hk : k < L.cellBytes p) :
    copyAll (load.rows L false) host device (load.cell L p t + k) =
      host (L.pageCell p i t + k) := by
  obtain ⟨row, hrow, j, hhost, hdevice, hsize⟩ := Bank.row_of_token hL hl false ht hp
  have hapart : (load.rows L false).Pairwise fun a b => Apart a.dst a.size b.dst b.size :=
    Bank.rows_device_apart false hL hl hc
  rw [← hhost, ← hdevice, Nat.add_assoc, Nat.add_assoc]
  exact copyAll_inside hapart hrow (by omega)

end

/-- Saving with the first bank's rows and loading with the second's. -/
theorem save_load_identity {β : Type*} {L : Layer} {save load : Bank}
    (saveTokens loadTokens : Option (List Nat)) (hL : L.Valid) (hs : save.Valid L)
    (hl : load.Valid L) (hc : load.CellsApart L)
    (hsave : saveTokens.getD (L.ranges.map fun r => r.2 - r.1) = L.pages.map Page.tokens)
    (hload : loadTokens.getD (L.ranges.map fun r => r.2 - r.1) = L.pages.map Page.tokens) :
    ∃ saved loaded, save.copies L saveTokens true = .ok saved ∧
      load.copies L loadTokens false = .ok loaded ∧
      save.HostRows L true saved ∧ load.HostRows L false loaded ∧
      ∀ device device' host : Nat → β,
        let out := copyAll loaded (copyAll saved device host) device'
        (∀ i t p k, InChunk L.ranges i t → p < L.planeWidths.length → k < L.cellBytes p →
          out (load.cell L p t + k) = device (save.cell L p t + k)) ∧
        ∀ a, (∀ i t p, InChunk L.ranges i t → p < L.planeWidths.length →
          ¬(load.cell L p t ≤ a ∧ a < load.cell L p t + L.cellBytes p)) → out a = device' a := by
  refine ⟨_, _, Bank.copies_eq hL hs hsave, Bank.copies_eq hL hl hload, Bank.hostRows hL hs true,
    Bank.hostRows hL hl false, fun device device' host => ⟨fun i t p k ht hp hk => ?_,
      fun a ha => ?_⟩⟩
  · rw [loaded_cell hL hl hc _ _ ht hp hk, saved_cell hL hs _ _ ht hp hk]
  · refine copyAll_outside fun row hrow hin => ?_
    obtain ⟨i, t, p, ht, hp, hat⟩ := Bank.token_of_row hL hl hrow hin.1 hin.2
    exact ha i t p ht hp hat

/-- Two chunks and two planes, saved from some blocks and loaded into others: the byte of token 6
in the second plane moves from address 537 to 521. -/
theorem save_load_identity_blocks :
    let L : Layer := ⟨[(0, 3), (5, 8)], [⟨1000, 3⟩, ⟨2000, 4⟩], [2, 1], 2⟩
    let save : Bank := ⟨⟨4, 4, 4, [0]⟩, [7, 3, 4, 9], 2, 0, 0, [0, 500]⟩
    let load : Bank := ⟨⟨4, 4, 4, [0]⟩, [1, 2, 6, 5], 2, 0, 0, [0, 500]⟩
    ∃ saved loaded, save.copies L (some [3, 4]) true = .ok saved ∧
      load.copies L (some [3, 4]) false = .ok loaded ∧ saved.length = 8 ∧ loaded.length = 6 ∧
      ∀ device device' host : Nat → Nat,
        copyAll loaded (copyAll saved device host) device' 521 = device 537 := by
  intro L save load
  have hperiodic : DmaCycle.Periodic ⟨4, 4, 4, [0]⟩ := ⟨by decide, by decide, by decide⟩
  have hL : L.Valid := ⟨by decide, rfl, by decide, by decide⟩
  have hs : save.Valid L := ⟨hperiodic, by decide, ⟨by decide, by decide, by decide⟩,
    ⟨rfl, by decide, by decide⟩⟩
  have hl : load.Valid L := ⟨hperiodic, by decide, ⟨by decide, by decide, by decide⟩,
    ⟨rfl, by decide, by decide⟩⟩
  have hslot : ∀ r ∈ L.ranges, ∀ t < r.2, load.slot t < 20 := by decide
  have hplanes : ∀ q < 2, ∀ p < q,
      Apart (load.npuPtrs.getD p 0) (20 * L.cellBytes p) (load.npuPtrs.getD q 0)
        (20 * L.cellBytes q) := by decide
  have hc : load.CellsApart L := Bank.cellsApart_of_planes hl 20 (by decide)
    (fun i t ⟨r, hr, _, h⟩ => hslot r (mem_of_getElem? hr) t h)
    (fun p q hlt hq => hplanes q hq p hlt)
  obtain ⟨saved, loaded, hsaved, hloaded, -, -, h⟩ :=
    save_load_identity (β := Nat) (some [3, 4]) (some [3, 4]) hL hs hl hc rfl rfl
  refine ⟨saved, loaded, hsaved, hloaded, ?_, ?_, fun device device' host => ?_⟩
  · have : save.copies L (some [3, 4]) true = .ok (save.rows L true) :=
      Bank.copies_eq hL hs rfl
    rw [this] at hsaved
    cases hsaved
    decide
  · have : load.copies L (some [3, 4]) false = .ok (load.rows L false) :=
      Bank.copies_eq hL hl rfl
    rw [this] at hloaded
    cases hloaded
    decide
  · have hcell := (h device device' host).1 1 6 1 1 ⟨(5, 8), rfl, by decide, by decide⟩
      (by decide) (by decide)
    have hto : load.cell L 1 6 = 520 := by decide
    have hfrom : save.cell L 1 6 = 536 := by decide
    rw [hto, hfrom] at hcell
    exact hcell

end LayerwiseDma
