import LMCacheAscend.Checkpoint.LocalStoreAcquire

/-!
# The pages of a restore

A target page is tiled by parts of the fragments.  `written` is a layer of the
target after `_assemble`: the copies of its planes and fragments go to slices
that are apart, so each cell holds what the fragment of its token holds
(`written_cell`).
-/

namespace LocalStore

open Lib Checkpoint List

variable {κ α β : Type} {env : Engine κ} {s s' : StoreState κ α} {l : List Page}
  {start end_ : Int}

/-! ## Spans -/

/-- What a fragment has of the target. -/
def clip (start end_ : Int) (f : Fragment) : Int × Int := (max start f.start, min end_ f.end_)

def spanOf (start end_ : Int) (f : Fragment) : Span :=
  ⟨f.page, (max start f.start - f.start).toNat, (max start f.start - start).toNat,
    (min end_ f.end_ - max start f.start).toNat⟩

theorem spansOf_of_chain {frags : List Fragment} {cursor : Int}
    (h : Chain (frags.map (clip start end_)) cursor end_) :
    spansOf start end_ frags cursor = .ok (frags.map (spanOf start end_)) := by
  induction frags generalizing cursor with
  | nil =>
    have h : cursor = end_ := h
    simp [spansOf, h]
  | cons f rest ih =>
    obtain ⟨h1, -, h3⟩ := h
    have h1 : max start f.start = cursor := h1
    have hrest : spansOf start end_ rest (min end_ f.end_) = _ := ih h3
    unfold spansOf
    rw [if_neg (not_not.2 h1), hrest]
    rfl

variable {spans : List Span}

theorem spansOf_cons {f : Fragment} {rest : List Fragment} {cursor : Int}
    (h : spansOf start end_ (f :: rest) cursor = .ok spans) :
    max start f.start = cursor ∧ ∃ more, spansOf start end_ rest (min end_ f.end_) = .ok more := by
  unfold spansOf at h
  simp only at h
  split at h
  · cases h
  · next hc =>
    split at h
    · cases h
    · next more hs => exact ⟨not_not.1 hc, more, hs⟩

theorem chain_of_spansOf {frags : List Fragment} {cursor : Int}
    (h : spansOf start end_ frags cursor = .ok spans)
    (hne : ∀ f ∈ frags, (clip start end_ f).1 < (clip start end_ f).2) :
    Chain (frags.map (clip start end_)) cursor end_ := by
  induction frags generalizing cursor spans with
  | nil =>
    unfold spansOf at h
    split at h
    · cases h
    · next hc => exact not_not.1 hc
  | cons f rest ih =>
    obtain ⟨hf, hrest⟩ := forall_mem_cons.1 hne
    obtain ⟨hstart, more, hmore⟩ := spansOf_cons h
    exact ⟨hstart, hf, ih hmore hrest⟩

/-! ## Planes -/

theorem mem_planes {k : Nat} {widths : List Nat} {p : Nat × Nat} (h : p ∈ planes k widths) :
    k ≤ p.1 ∧ p.1 + p.2 ≤ k + widths.sum := by
  induction widths generalizing k with
  | nil => cases h
  | cons w widths ih =>
    rw [sum_cons]
    rcases mem_cons.1 h with rfl | h
    · exact ⟨Nat.le_refl _, by show k + w ≤ _; omega⟩
    · have := ih h
      omega

theorem pairwise_planes (k : Nat) (widths : List Nat) :
    (planes k widths).Pairwise fun p q => p.1 + p.2 ≤ q.1 := by
  induction widths generalizing k with
  | nil => exact .nil
  | cons w widths ih => exact pairwise_cons.2 ⟨fun q hq => (mem_planes hq).1, ih _⟩

theorem planes_apart {k : Nat} {widths : List Nat} {p q : Nat × Nat} (hp : p ∈ planes k widths)
    (hq : q ∈ planes k widths) : p = q ∨ p.1 + p.2 ≤ q.1 ∨ q.1 + q.2 ≤ p.1 := by
  obtain ⟨i, hi, rfl⟩ := mem_iff_getElem.1 hp
  obtain ⟨j, hj, rfl⟩ := mem_iff_getElem.1 hq
  have hpair := pairwise_iff_getElem.1 (pairwise_planes k widths)
  rcases Nat.lt_trichotomy i j with h | rfl | h
  · exact .inr (.inl (hpair i j hi hj h))
  · exact .inl rfl
  · exact .inr (.inr (hpair j i hj hi h))

theorem slice_fits {n first count width preceding total : Nat} (h : first + count ≤ n)
    (hw : preceding + width ≤ total) :
    n * preceding + first * width + count * width ≤ n * total := by
  have h1 := Nat.mul_le_mul_right width h
  have h2 := Nat.mul_le_mul_left n hw
  rw [Nat.add_mul] at h1
  rw [Nat.mul_add] at h2
  omega

/-! ## One layer -/

/-- The page of a fragment has its tokens, and a layer tensor of its size. -/
structure Fits (env : Engine κ) (data : Page → Nat → List α) (layer : Nat) (widths : List Nat)
    (f : Fragment) : Prop where
  tokens : f.end_ - f.start ≤ env.validTokens f.page
  size : (data f.page layer).length = env.validTokens f.page * widths.sum

/-- What a copy reads. -/
def pieceOf (data : Page → Nat → List α) (layer : Nat) (c : SliceCopy) : Nat × List α :=
  (c.dst, ((data c.page layer).drop c.src).take c.size)

/-- A layer of the target when its copies are made. -/
def written (env : Engine κ) (data : Page → Nat → List α) (destination : Page) (layer : Nat)
    (widths : List Nat) (total : Nat) (spans : List Span) : List α :=
  writeSlices (data destination layer)
    ((layerCopies env widths total spans).map (pieceOf data layer))

section

variable {data : Page → Nat → List α} {layer total : Nat} {widths : List Nat}
  {frags : List Fragment}

theorem mem_layerCopies {c : SliceCopy} :
    c ∈ layerCopies env widths total spans ↔ ∃ sp ∈ spans, ∃ p ∈ planes 0 widths,
      c = ⟨sp.page, env.validTokens sp.page * p.1 + sp.sourceOffset * p.2,
        total * p.1 + sp.targetOffset * p.2, sp.count * p.2⟩ := by
  unfold layerCopies
  simp only [mem_flatMap, mem_map, eq_comm]

/-- The fragments tile the target, and `total` are its tokens. -/
structure Tiled (start end_ : Int) (total : Nat) (frags : List Fragment) : Prop where
  chain : Chain (frags.map (clip start end_)) start end_
  total : (total : Int) = end_ - start

theorem Tiled.bounds (h : Tiled start end_ total frags) {f : Fragment} (hf : f ∈ frags) :
    (max start f.start < min end_ f.end_) ∧
      (spanOf start end_ f).targetOffset + (spanOf start end_ f).count ≤ total := by
  have hmem : clip start end_ f ∈ frags.map (clip start end_) := mem_map_of_mem hf
  have hlt : max start f.start < min end_ f.end_ := by
    obtain ⟨k, m, hkm⟩ := append_of_mem hmem
    have hchain := h.chain
    rw [hkm, Chain.append_iff] at hchain
    obtain ⟨b, -, -, hlt, -⟩ := hchain
    exact hlt
  have htotal := h.total
  refine ⟨hlt, ?_⟩
  show (max start f.start - start).toNat + (min end_ f.end_ - max start f.start).toNat ≤ total
  omega

theorem Fits.source_le {f : Fragment} (h : Fits env data layer widths f)
    (hlt : max start f.start < min end_ f.end_) :
    (spanOf start end_ f).sourceOffset + (spanOf start end_ f).count ≤ env.validTokens f.page := by
  have htokens := h.tokens
  show (max start f.start - f.start).toNat + (min end_ f.end_ - max start f.start).toNat ≤ _
  omega

theorem copies_inside (ht : Tiled start end_ total frags)
    (hfit : ∀ f ∈ frags, Fits env data layer widths f) {c : SliceCopy}
    (hc : c ∈ layerCopies env widths total (frags.map (spanOf start end_))) :
    (∃ f ∈ frags, c.page = f.page) ∧ c.src + c.size ≤ (data c.page layer).length ∧
      c.dst + c.size ≤ total * widths.sum := by
  obtain ⟨sp, hsp, p, hp, rfl⟩ := mem_layerCopies.1 hc
  obtain ⟨f, hf, rfl⟩ := mem_map.1 hsp
  obtain ⟨hlt, htarget⟩ := ht.bounds hf
  have hplane := mem_planes hp
  rw [Nat.zero_add] at hplane
  refine ⟨⟨f, hf, rfl⟩, ?_, slice_fits htarget hplane.2⟩
  show _ ≤ (data f.page layer).length
  rw [(hfit f hf).size]
  exact slice_fits ((hfit f hf).source_le hlt) hplane.2

theorem copies_apart (ht : Tiled start end_ total frags) :
    (layerCopies env widths total (frags.map (spanOf start end_))).Pairwise fun c d =>
      c.dst + c.size ≤ d.dst ∨ d.dst + d.size ≤ c.dst := by
  -- planes of two spans that fit into the target
  have hplanes : ∀ {p q : Nat × Nat} {a m b n : Nat}, p.1 + p.2 ≤ q.1 → a + m ≤ total →
      total * p.1 + a * p.2 + m * p.2 ≤ total * q.1 + b * q.2 := by
    intro p q a m b n hpq ham
    have := @slice_fits total a m p.2 p.1 q.1 ham hpq
    omega
  unfold layerCopies
  rw [pairwise_flatMap]
  constructor
  · intro sp hsp
    obtain ⟨f, hf, rfl⟩ := mem_map.1 hsp
    rw [pairwise_map]
    exact (pairwise_planes 0 widths).imp fun hpq => .inl (hplanes (n := 0) hpq (ht.bounds hf).2)
  · rw [pairwise_map]
    have hfollow := pairwise_map.1 ht.chain.pairwise
    refine hfollow.imp_of_mem fun {f g} hf hg hfg c hc d hd => ?_
    obtain ⟨p, hp, rfl⟩ := mem_map.1 hc
    obtain ⟨q, hq, rfl⟩ := mem_map.1 hd
    obtain ⟨hflt, hft⟩ := ht.bounds hf
    obtain ⟨-, hgt⟩ := ht.bounds hg
    rcases planes_apart hp hq with rfl | hpq | hqp
    · left
      have hfg : min end_ f.end_ ≤ max start g.start := hfg
      have hoff : (spanOf start end_ f).targetOffset + (spanOf start end_ f).count ≤
          (spanOf start end_ g).targetOffset := by
        show (max start f.start - start).toNat + (min end_ f.end_ - max start f.start).toNat ≤
          (max start g.start - start).toNat
        omega
      have hmul := Nat.mul_le_mul_right p.2 hoff
      rw [Nat.add_mul] at hmul
      show total * p.1 + (spanOf start end_ f).targetOffset * p.2 +
        (spanOf start end_ f).count * p.2 ≤ total * p.1 + (spanOf start end_ g).targetOffset * p.2
      omega
    · exact .inl (hplanes (n := 0) hpq hft)
    · exact .inr (hplanes (n := 0) hqp hgt)

theorem written_congr {data' : Page → Nat → List α} {destination : Page}
    (h : ∀ p, data' p layer = data p layer) :
    written env data' destination layer widths total spans =
      written env data destination layer widths total spans := by
  unfold written pieceOf
  simp only [h]

theorem pieceOf_length {c : SliceCopy} (h : c.src + c.size ≤ (data c.page layer).length) :
    (pieceOf data layer c).2.length = c.size := by
  unfold pieceOf
  rw [length_take, length_drop]
  omega

/-- **Each cell of the target is that of the fragment that has its token.** -/
theorem written_cell {destination : Page} (ht : Tiled start end_ total frags)
    (hfit : ∀ f ∈ frags, Fits env data layer widths f)
    (hsize : (data destination layer).length = total * widths.sum) {f : Fragment} (hf : f ∈ frags)
    {p : Nat × Nat} (hp : p ∈ planes 0 widths) {t : Int} (h1 : max start f.start ≤ t)
    (h2 : t < min end_ f.end_) {e : Nat} (he : e < p.2) :
    (written env data destination layer widths total (frags.map (spanOf start end_)))[
        total * p.1 + (t - start).toNat * p.2 + e]? =
      (data f.page layer)[env.validTokens f.page * p.1 + (t - f.start).toNat * p.2 + e]? := by
  have hinside := fun {c} hc => @copies_inside κ α env start end_ data layer total widths frags ht
    hfit c hc
  -- the copy of this plane and fragment
  generalize hc : (⟨f.page, env.validTokens f.page * p.1 + (spanOf start end_ f).sourceOffset * p.2,
    total * p.1 + (spanOf start end_ f).targetOffset * p.2, (spanOf start end_ f).count * p.2⟩ :
      SliceCopy) = c
  have hmem : c ∈ layerCopies env widths total (frags.map (spanOf start end_)) :=
    mem_layerCopies.2 ⟨_, mem_map_of_mem hf, p, hp, hc.symm⟩
  have hlen := pieceOf_length (hinside hmem).2.1
  -- its cell
  obtain ⟨k, hk⟩ : ∃ k : Nat, t = max start f.start + k :=
    ⟨(t - max start f.start).toNat, by omega⟩
  have hkc : k + 1 ≤ (spanOf start end_ f).count := by
    show k + 1 ≤ (min end_ f.end_ - max start f.start).toNat
    omega
  have hcell := Nat.mul_le_mul_right p.2 hkc
  rw [Nat.add_mul, Nat.one_mul] at hcell
  have hi : k * p.2 + e < (pieceOf data layer c).2.length := by
    rw [hlen, ← hc]
    show k * p.2 + e < (spanOf start end_ f).count * p.2
    omega
  have hread := @getElem?_writeSlices α (data destination layer) _ ?inside ?apart _
    (mem_map_of_mem hmem) _ hi
  case inside =>
    intro w hw
    obtain ⟨d, hd, rfl⟩ := mem_map.1 hw
    rw [pieceOf_length (hinside hd).2.1, hsize]
    exact (hinside hd).2.2
  case apart =>
    rw [pairwise_map]
    refine (copies_apart ht).imp_of_mem fun {d d'} hd hd' h => ?_
    rw [pieceOf_length (hinside hd).2.1, pieceOf_length (hinside hd').2.1]
    exact h
  have hdst : (pieceOf data layer c).1 + (k * p.2 + e) =
      total * p.1 + (t - start).toNat * p.2 + e := by
    have hoff : (t - start).toNat = (spanOf start end_ f).targetOffset + k := by
      show (t - start).toNat = (max start f.start - start).toNat + k
      omega
    rw [hoff, ← hc, Nat.add_mul]
    show total * p.1 + (spanOf start end_ f).targetOffset * p.2 + (k * p.2 + e) = _
    omega
  have hsrc : c.src + (k * p.2 + e) =
      env.validTokens f.page * p.1 + (t - f.start).toNat * p.2 + e := by
    have hoff : (t - f.start).toNat = (spanOf start end_ f).sourceOffset + k := by
      show (t - f.start).toNat = (max start f.start - f.start).toNat + k
      omega
    rw [hoff, ← hc, Nat.add_mul]
    show env.validTokens f.page * p.1 + (spanOf start end_ f).sourceOffset * p.2 +
      (k * p.2 + e) = _
    omega
  have hpage : c.page = f.page := by rw [← hc]
  rw [hdst] at hread
  unfold written
  rw [hread]
  rw [hlen] at hi
  unfold pieceOf
  show (((data c.page layer).drop c.src).take c.size)[k * p.2 + e]? = _
  rw [getElem?_take_of_lt hi, getElem?_drop, hsrc, hpage]

end

/-! ## The program -/

theorem setData_setData (s : StoreState κ α) (page : Page) (layer : Nat) (xs ys : List α) :
    (s.setData page layer xs).setData page layer ys = s.setData page layer ys := by
  unfold StoreState.setData
  congr 1
  funext p k
  show (if p = page ∧ k = layer then ys else if p = page ∧ k = layer then xs else s.data p k) = _
  split <;> rfl

theorem setData_data (s : StoreState κ α) (page : Page) (layer : Nat) :
    s.setData page layer (s.data page layer) = s := by
  have hdata : (fun p k => if p = page ∧ k = layer then s.data page layer else s.data p k) =
      s.data := by
    funext p k
    split
    · next h => rw [h.1, h.2]
    · rfl
  unfold StoreState.setData
  rw [hdata]

@[simp] theorem data_setData_self (s : StoreState κ α) (page : Page) (layer : Nat) (xs : List α) :
    (s.setData page layer xs).data page layer = xs := if_pos ⟨rfl, rfl⟩

theorem data_setData_ne {s : StoreState κ α} {page p : Page} {layer k : Nat} {xs : List α}
    (h : ¬(p = page ∧ k = layer)) : (s.setData page layer xs).data p k = s.data p k := if_neg h

theorem copySlices_spec {destination : Page} {layer : Nat} {copies : List SliceCopy}
    (hpage : ∀ c ∈ copies, c.page ≠ destination)
    (hsrc : ∀ c ∈ copies, c.src + c.size ≤ (s.data c.page layer).length)
    (hdst : ∀ c ∈ copies, c.dst + c.size ≤ (s.data destination layer).length) :
    wp (copies.forM (copySlice destination layer)) (post
      (fun _ s' => s' = s.setData destination layer
        (writeSlices (s.data destination layer) (copies.map (pieceOf s.data layer))))
      fun _ _ => False) s := by
  induction copies generalizing s with
  | nil =>
    exact (setData_data s destination layer).symm
  | cons c copies ih =>
    obtain ⟨hp, hps⟩ := forall_mem_cons.1 hpage
    obtain ⟨ha, has⟩ := forall_mem_cons.1 hsrc
    obtain ⟨hb, hbs⟩ := forall_mem_cons.1 hdst
    have hlen := pieceOf_length ha
    have hother : ∀ d : SliceCopy, d.page ≠ destination → ∀ xs,
        (s.setData destination layer xs).data d.page layer = s.data d.page layer :=
      fun d hd xs => data_setData_ne fun h => hd h.1
    change wp (copySlice destination layer c >>= fun _ => copies.forM (copySlice destination layer))
      _ s
    rw [wp_bind]
    unfold copySlice
    rw [wp_get_bind, if_neg ?room, wp_modify, post_ok]
    case room =>
      rw [not_not]
      show (pieceOf s.data layer c).2.length = _
      rw [hlen, length_take, length_drop]
      omega
    have hpiece : ((s.data c.page layer).drop c.src).take c.size = (pieceOf s.data layer c).2 := rfl
    have hwrite : (writeSlice (s.data destination layer) c.dst (pieceOf s.data layer c).2).length =
        (s.data destination layer).length := length_writeSlice (by rw [hlen]; exact hb)
    rw [hpiece]
    refine wp_mono (ih hps (fun d hd => ?_) fun d hd => ?_) ?_
    · rw [hother d (hps d hd)]
      exact has d hd
    · rw [data_setData_self, hwrite]
      exact hbs d hd
    · rintro (e | u) s' h'
      · cases h'
      have hmap : copies.map (pieceOf (s.setData destination layer (writeSlice
          (s.data destination layer) c.dst (pieceOf s.data layer c).2)).data layer) =
          copies.map (pieceOf s.data layer) := by
        refine map_congr_left fun d hd => ?_
        unfold pieceOf
        rw [hother d (hps d hd)]
      have h' : s' = _ := h'
      rw [setData_setData, data_setData_self, hmap] at h'
      exact h'

/-! ## Assembling -/

/-- Nothing but the layer tensors changed. -/
def OnlyData (s s' : StoreState κ α) : Prop := ∃ data, s' = { s with data := data }

instance : IsPreorder (StoreState κ α) OnlyData where
  refl s := ⟨s.data, rfl⟩
  trans := by
    rintro s1 s2 s3 ⟨d, rfl⟩ ⟨d', rfl⟩
    exact ⟨d', rfl⟩

theorem copySlice_onlyData (destination : Page) (layer : Nat) (c : SliceCopy) :
    Preserves (@OnlyData κ α) (copySlice destination layer c) := by
  refine Preserves.get.bind fun t => ?_
  simp only
  split
  · exact Preserves.throw _
  · exact Preserves.modify fun s => ⟨_, rfl⟩

theorem assemble_onlyData (env : Engine κ) (destination : Page) (widths : Widths)
    (sources : List Fragment) (start end_ : Int) :
    Preserves (@OnlyData κ α) (assemble env destination widths sources start end_) := by
  unfold assemble
  split
  · exact Preserves.throw _
  refine Preserves.forM fun layer _ => ?_
  split
  · exact Preserves.throw _
  · exact Preserves.forM fun c _ => copySlice_onlyData destination layer c

/-- The target's layers are written. -/
def filled (env : Engine κ) (s : StoreState κ α) (destination : Page) (ws : Nat → List Nat)
    (total : Nat) (spans : List Span) (layers : List Nat) : StoreState κ α :=
  { s with data := fun p k =>
      if p = destination ∧ k ∈ layers then written env s.data destination k (ws k) total spans
      else s.data p k }

section

variable {total : Nat} {destination : Page} {frags : List Fragment} {widths : Widths}
variable {ws : Nat → List Nat} (ht : Tiled start end_ total frags)
variable (hfresh : ∀ f ∈ frags, f.page ≠ destination)
include ht hfresh

/-- The layers are filled one after the other, each by its own copies. -/
theorem assembleLayers_spec {layers : List Nat} (hnodup : layers.Nodup)
    (hwidths : ∀ k ∈ layers, widths.layer k = some (ws k))
    (hsize : ∀ k ∈ layers, (s.data destination k).length = total * (ws k).sum)
    (hfit : ∀ k ∈ layers, ∀ f ∈ frags, Fits env s.data k (ws k) f) :
    wp (layers.forM fun layer => match widths.layer layer with
        | none => throw (.raised (.exception "tuple index out of range"))
        | some layerWidths => (layerCopies env layerWidths total
            (frags.map (spanOf start end_))).forM (copySlice destination layer) : StoreM κ α Unit)
      (post (fun _ s' => s' = filled env s destination ws total (frags.map (spanOf start end_)) layers)
        fun _ _ => False) s := by
  induction layers generalizing s with
  | nil =>
    show s = filled env s destination ws total _ []
    unfold filled
    simp
  | cons k layers ih =>
    obtain ⟨hk, hnodup⟩ := nodup_cons.1 hnodup
    obtain ⟨hw, hws⟩ := forall_mem_cons.1 hwidths
    obtain ⟨hl, hls⟩ := forall_mem_cons.1 hsize
    obtain ⟨hf, hfs⟩ := forall_mem_cons.1 hfit
    change wp ((match widths.layer k with
        | none => throw (.raised (.exception "tuple index out of range"))
        | some layerWidths => (layerCopies env layerWidths total
            (frags.map (spanOf start end_))).forM (copySlice destination k) : StoreM κ α Unit) >>=
      fun _ => layers.forM _) _ s
    rw [wp_bind, hw]
    have hinside := fun {c} hc => @copies_inside κ α env start end_ s.data k total (ws k) frags ht
      hf c hc
    have hpage : ∀ c ∈ layerCopies env (ws k) total (frags.map (spanOf start end_)),
        c.page ≠ destination := by
      intro c hc
      obtain ⟨⟨f, hmem, he⟩, -⟩ := hinside hc
      rw [he]
      exact hfresh f hmem
    refine wp_mono (copySlices_spec hpage (fun c hc => (hinside hc).2.1) fun c hc => ?_) ?_
    · rw [hl]
      exact (hinside hc).2.2
    rintro (e | u) s1 h1
    · cases h1
    have h1 : s1 = s.setData destination k
        (written env s.data destination k (ws k) total (frags.map (spanOf start end_))) := h1
    subst h1
    -- the other layers and the other pages are as they were
    have hother : ∀ p j, ¬(p = destination ∧ j = k) → (s.setData destination k
        (written env s.data destination k (ws k) total (frags.map (spanOf start end_)))).data p j =
        s.data p j := fun p j h => data_setData_ne h
    have hj : ∀ j ∈ layers, j ≠ k := fun j hj he => hk (he ▸ hj)
    rw [post_ok]
    refine wp_mono (ih hnodup hws (fun j hmem => ?_) fun j hmem f hfm => ?_) ?_
    · rw [hother _ _ fun h => hj j hmem h.2]
      exact hls j hmem
    · obtain ⟨htok, hsz⟩ := hfs j hmem f hfm
      refine ⟨htok, ?_⟩
      rw [hother _ _ fun h => hj j hmem h.2]
      exact hsz
    · rintro (e | u) s2 h2
      · cases h2
      have h2 : s2 = filled env _ destination ws total _ layers := h2
      show s2 = filled env s destination ws total _ (k :: layers)
      rw [h2]
      unfold filled StoreState.setData
      congr 1
      funext p j
      have hwritten : ∀ j ∈ layers, written env (s.setData destination k
          (written env s.data destination k (ws k) total (frags.map (spanOf start end_)))).data
            destination j (ws j) total (frags.map (spanOf start end_)) =
          written env s.data destination j (ws j) total (frags.map (spanOf start end_)) := by
        intro j hmem
        exact written_congr fun p => hother p j fun h => hj j hmem h.2
      by_cases hp : p = destination
      · by_cases hjm : j ∈ layers
        · rw [if_pos ⟨hp, hjm⟩, if_pos ⟨hp, mem_cons_of_mem _ hjm⟩]
          exact hwritten j hjm
        rw [if_neg fun h => hjm h.2]
        by_cases hjk : j = k
        · rw [if_pos ⟨hp, by rw [hjk]; exact mem_cons_self⟩, hp, hjk]
          exact data_setData_self s destination k _
        refine (hother p j fun h => hjk h.2).trans (if_neg ?_).symm
        rintro ⟨-, hmem⟩
        rcases mem_cons.1 hmem with h | h
        · exact hjk h
        · exact hjm h
      · rw [if_neg fun h => hp h.1]
        exact (hother p j fun h => hp h.1).trans (if_neg fun h => hp h.1).symm

theorem assemble_ok (hwidths : ∀ k < env.numLayers destination, widths.layer k = some (ws k))
    (hsize : ∀ k < env.numLayers destination, (s.data destination k).length = total * (ws k).sum)
    (hfit : ∀ k < env.numLayers destination, ∀ f ∈ frags, Fits env s.data k (ws k) f) :
    wp (assemble env destination widths frags start end_) (post
      (fun _ s' => s' = filled env s destination ws total (frags.map (spanOf start end_))
        (range (env.numLayers destination))) fun _ _ => False) s := by
  have htotal : (end_ - start).toNat = total := by
    have := ht.total
    omega
  unfold assemble
  rw [spansOf_of_chain ht.chain, htotal]
  exact assembleLayers_spec ht hfresh nodup_range
    (fun k hk => hwidths k (mem_range.1 hk)) (fun k hk => hsize k (mem_range.1 hk))
    fun k hk => hfit k (mem_range.1 hk)

end

end LocalStore
