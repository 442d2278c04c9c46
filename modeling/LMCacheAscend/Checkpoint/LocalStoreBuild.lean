import LMCacheAscend.Checkpoint.LocalStorePages

/-!
# `build_page`

The references are given back on every way out but one, that of the page that is
returned (`buildPage_refs`).  A page that is not a cached one is made of the
fragments, which then tile the target (`buildPage_cells`).
-/

namespace LocalStore

open Lib Checkpoint Option

variable {κ α β : Type} {env : Engine κ} {s s' : StoreState κ α} {l : List Page}
  {start end_ : Int}

/-! ## References -/

/-- What `normalize` keeps beside the pages is as it was. -/
structure Beside (s s' : StoreState κ α) : Prop where
  covered : s'.covered = s.covered
  owners : s'.owners = s.owners
  published : s'.published = s.published

theorem Beside.refl (s : StoreState κ α) : Beside s s := ⟨rfl, rfl, rfl⟩

theorem Beside.trans {s1 s2 s3 : StoreState κ α} (h : Beside s1 s2) (h' : Beside s2 s3) :
    Beside s1 s3 :=
  ⟨h'.covered.trans h.covered, h'.owners.trans h.owners, h'.published.trans h.published⟩

/-- A factory is tried, and once more after a reclaim; `A` says that it failed. -/
theorem reserve_spec {P : StoreState κ α → Prop} {Q : β → StoreState κ α → Prop} {A : Prop}
    {factory : StoreM κ α β} (group : Nat) (count : Int) (hcalled : ∀ t, P t → P t.called)
    (hreclaimed : ∀ t, P t → P { t with reclaimed := true })
    (h : ∀ t, P t → wp factory (post Q fun _ t' => P t' ∧ A) t) (hs : P s) :
    wp (reserve env factory group count) (post Q fun _ t' => P t' ∧ A) s := by
  unfold reserve
  rw [wp_tryCatch]
  refine wp_mono (h s hs) ?_
  rintro (e | b) s1 h1
  · obtain ⟨hp, ha⟩ := h1
    rw [post_error]
    split
    · next msg =>
      rw [wp_get_bind, wp_ite]
      split
      · exact ⟨hp, ha⟩
      rw [wp_modify_bind, wp_bind, wp_ask]
      have hp' := hreclaimed s1 hp
      refine ⟨fun e _ => ⟨hcalled _ hp', ha⟩, fun ok _ => ?_⟩
      rw [post_ok, wp_ite]
      split
      · exact h _ (hcalled _ hp')
      · exact ⟨hcalled _ hp', ha⟩
    · exact ⟨hp, ha⟩
  · exact h1

theorem factory_refs {γ : Type} {f : Nat → Except PyError γ} {g : γ → Page} (t : StoreState κ α)
    (hb : Beside s t ∧ Holds t l) :
    wp (do let r ← ask f; takeRefs [g r]; pure r : StoreM κ α γ) (post
      (fun r t' => Beside s t' ∧ Holds t' (l ++ [g r]))
      fun _ t' => (Beside s t' ∧ Holds t' l) ∧ True) t := by
  obtain ⟨hb, hh⟩ := hb
  rw [wp_bind, wp_ask]
  refine ⟨fun e _ => ⟨⟨⟨hb.covered, hb.owners, hb.published⟩, hh⟩, trivial⟩, fun r _ => ?_⟩
  rw [post_ok, wp_bind, wp_takeRefs, post_ok, wp_pure]
  exact ⟨⟨hb.covered, hb.owners, hb.published⟩, hh.called.took _⟩

theorem reserve_refs {γ : Type} {f : Nat → Except PyError γ} {g : γ → Page} (group : Nat)
    (count : Int) (h : Holds s l) :
    wp (reserve env (do let r ← ask f; takeRefs [g r]; pure r) group count) (post
      (fun r s' => Beside s s' ∧ Holds s' (l ++ [g r]))
      fun _ s' => (Beside s s' ∧ Holds s' l) ∧ True) s :=
  @reserve_spec κ α γ env s (fun t => Beside s t ∧ Holds t l) _ True _ group count
    (fun _ ht => ⟨⟨ht.1.covered, ht.1.owners, ht.1.published⟩, ht.2⟩)
    (fun _ ht => ⟨⟨ht.1.covered, ht.1.owners, ht.1.published⟩, ht.2⟩)
    (fun t ht => factory_refs t ht) ⟨Beside.refl s, h⟩

theorem OnlyData.beside (h : OnlyData s s') : Beside s s' ∧ s'.refs = s.refs := by
  obtain ⟨d, rfl⟩ := h
  exact ⟨⟨rfl, rfl, rfl⟩, rfl⟩

theorem assemblePage_refs (frags : List Fragment) (group : Nat) (h : Holds s l) :
    wp (assemblePage env frags group start end_) (post
      (fun page s' => Beside s s' ∧ Holds s' (l ++ [page]))
      fun _ s' => Beside s s' ∧ Holds s' l) s := by
  unfold assemblePage
  refine wp_bind_of (reserve_refs (g := Prod.fst) group (end_ - start) h) (fun _ _ h1 => h1.1)
    fun ⟨page, widths⟩ s1 h1 => ?_
  obtain ⟨hb, hh⟩ := h1
  rw [wp_tryCatch, wp_bind]
  refine wp_mono (assemble_onlyData env page widths frags start end_ s1) ?_
  intro r s2 h2
  obtain ⟨hb2, hrefs⟩ := h2.beside
  have hh2 := hh.of_refs hrefs
  cases r with
  | error e =>
    rw [post_error, post_error, wp_bind, wp_dropRefs]
    have hb3 := hb.trans hb2
    exact ⟨⟨hb3.covered, hb3.owners, hb3.published⟩, hh2.dropped⟩
  | ok u => exact ⟨hb.trans hb2, hh2⟩

theorem loadPrefix_refs (m : LocalCheckpoint κ) (selected : Held κ) (group : Nat) (h : Holds s l) :
    wp (loadPrefix env m selected group start) (post
      (fun f s' => Beside s s' ∧ Holds s' (l ++ f.toList.map Fragment.page))
      fun _ s' => Beside s s' ∧ Holds s' l) s := by
  unfold loadPrefix
  split
  · refine ⟨Beside.refl s, ?_⟩
    show Holds s (l ++ [])
    rwa [List.append_nil]
  · refine wp_bind_of (reserve_refs (g := id) group _ h) (fun _ _ h1 => h1.1) fun page s1 h1 => ?_
    exact h1

theorem buildPage_refs (m : LocalCheckpoint κ) (sources : Held κ) (group : Nat) (key : κ)
    (h : Holds s l) :
    wp (buildPage env m sources group start end_ key) (post
      (fun page s' => Beside s s' ∧ Holds s' (l ++ [page]))
      fun _ s' => Beside s s' ∧ Holds s' l) s := by
  unfold buildPage
  simp only
  split
  · next page _ =>
    rw [wp_bind, wp_takeRefs, post_ok, wp_pure]
    exact ⟨⟨rfl, rfl, rfl⟩, h.took _⟩
  rw [wp_bind, wp_ask]
  refine ⟨fun e _ => ⟨⟨rfl, rfl, rfl⟩, h.called⟩, fun r _ => ?_⟩
  cases r with
  | some page =>
    rw [post_ok, wp_bind, wp_takeRefs, post_ok, wp_pure]
    exact ⟨⟨rfl, rfl, rfl⟩, h.called.took _⟩
  | none =>
    rw [post_ok]
    refine wp_bind_of (loadPrefix_refs m _ group h.called)
      (fun _ _ h1 => ⟨⟨h1.1.covered, h1.1.owners, h1.1.published⟩, h1.2⟩) fun f s1 h1 => ?_
    obtain ⟨hb, hh⟩ := h1
    refine wp_finally (wp_mono (assemblePage_refs _ group hh) ?_)
    rintro (e | page) s2 ⟨hb2, hh2⟩
    · rw [wp_dropRefs]
      have hb3 := hb.trans hb2
      exact ⟨⟨hb3.covered, hb3.owners, hb3.published⟩, hh2.dropped⟩
    rw [wp_dropRefs]
    have hb3 := hb.trans hb2
    refine ⟨⟨hb3.covered, hb3.owners, hb3.published⟩, Holds.dropped ?_⟩
    refine hh2.of_times fun x => ?_
    simp only [times_append]
    omega

/-! ## What a page holds -/

/-- The engine's answers to the calls of `build_page`. -/
structure Answers (env : Engine κ) (group : Nat) : Prop where
  cached : ∀ n key count e, env.cached n key group count ≠ .error e
  loadPrefix : ∀ n tokens e, env.loadPrefix n tokens group ≠ .error e
  allocate : ∀ n count e, env.allocate n group count ≠ .error e

/-- A new page is of its own, with room for its tokens; the fragments' pages are of one layout. -/
structure Ready (env : Engine κ) (data : Page → Nat → List α) (group : Nat) (frags : List Fragment)
    (layers : Nat) (ws : Nat → List Nat) : Prop where
  allocated : ∀ {n count page widths}, env.allocate n group count = .ok (page, widths) →
    env.numLayers page = layers ∧ (∀ k < layers, widths.layer k = some (ws k)) ∧
      (∀ k < layers, (data page k).length = count.toNat * (ws k).sum) ∧ ∀ f ∈ frags, f.page ≠ page
  fits : ∀ f ∈ frags, ∀ k < layers, Fits env data k (ws k) f

/-- Each cell of the page is that of a fragment that has its token. -/
def Cells (env : Engine κ) (data data' : Page → Nat → List α) (frags : List Fragment) (layers : Nat)
    (ws : Nat → List Nat) (start end_ : Int) (page : Page) : Prop :=
  ∀ k < layers, ∀ p ∈ planes 0 (ws k), ∀ t, start ≤ t → t < end_ →
    ∃ f ∈ frags, (f.start ≤ t ∧ t < f.end_) ∧ ∀ e < p.2,
      (data' page k)[(end_ - start).toNat * p.1 + (t - start).toNat * p.2 + e]? =
        (data f.page k)[env.validTokens f.page * p.1 + (t - f.start).toNat * p.2 + e]?

theorem filled_cells {frags : List Fragment} {layers : Nat} {ws : Nat → List Nat} {page : Page}
    (ht : Tiled start end_ (end_ - start).toNat frags)
    (hfit : ∀ f ∈ frags, ∀ k < layers, Fits env s.data k (ws k) f)
    (hsize : ∀ k < layers, (s.data page k).length = (end_ - start).toNat * (ws k).sum) :
    Cells env s.data (filled env s page ws (end_ - start).toNat (frags.map (spanOf start end_))
      (List.range layers)).data frags layers ws start end_ page := by
  intro k hk p hp t h1 h2
  obtain ⟨e, he, het⟩ := ht.chain.exists_mem h1 h2
  obtain ⟨f, hf, rfl⟩ := List.mem_map.1 he
  have hleft : max start f.start ≤ t := het.1
  have hright : t < min end_ f.end_ := het.2
  refine ⟨f, hf, by omega, fun e he => ?_⟩
  rw [← written_cell ht (fun f hf => hfit f hf k hk) (hsize k hk) hf hp hleft hright he]
  show (if page = page ∧ k ∈ List.range layers then _ else s.data page k)[_]? = _
  rw [if_pos ⟨rfl, List.mem_range.2 hk⟩]

/-- Where the fragments tile the page, each token comes from its own. -/
theorem assemblePage_cells {frags : List Fragment} {layers : Nat} {ws : Nat → List Nat}
    (group : Nat) (hle : start ≤ end_) (hready : Ready env s.data group frags layers ws) :
    wp (assemblePage env frags group start end_) (post
      (fun page s' => (∃ spans, spansOf start end_ frags start = .ok spans) ∧
        (Chain (frags.map (clip start end_)) start end_ →
          Cells env s.data s'.data frags layers ws start end_ page))
      fun _ _ => Answers env group → ¬Chain (frags.map (clip start end_)) start end_) s := by
  unfold assemblePage
  rw [wp_bind]
  have hfactory : ∀ t : StoreState κ α, t.data = s.data →
      wp (do
          let r ← ask fun n => env.allocate n group (end_ - start)
          takeRefs [r.1]
          pure r : StoreM κ α (Page × Widths)) (post
        (fun r t' => t'.data = s.data ∧ ∃ n, env.allocate n group (end_ - start) = .ok r)
        fun _ t' => t'.data = s.data ∧ ¬Answers env group) t := by
    intro t ht
    rw [wp_bind, wp_ask]
    refine ⟨fun e he => ⟨ht, fun hans => hans.allocate _ _ _ he⟩, fun r hr => ?_⟩
    rw [post_ok, wp_bind, wp_takeRefs, post_ok, wp_pure]
    exact ⟨ht, _, hr⟩
  refine wp_cases (reserve_spec group (end_ - start) (fun _ ht => ht) (fun _ ht => ht) hfactory rfl)
    (fun _ _ h1 => fun hans => absurd hans h1.2) ?_
  rintro ⟨page, widths⟩ s1 h1
  obtain ⟨hdata, n, hn⟩ := h1
  obtain ⟨hlayers, hwidths, hsize, hfresh⟩ := hready.allocated hn
  rw [post_ok, wp_tryCatch, wp_bind]
  cases hspans : spansOf start end_ frags start with
  | error e =>
    unfold assemble
    rw [hspans, wp_throw, post_error, post_error, wp_bind, wp_dropRefs]
    intro _ hchain
    rw [spansOf_of_chain hchain] at hspans
    cases hspans
  | ok spans =>
    by_cases hchain : Chain (frags.map (clip start end_)) start end_
    · have ht : Tiled start end_ (end_ - start).toNat frags := ⟨hchain, by omega⟩
      subst hlayers
      refine wp_mono (assemble_ok ht hfresh hwidths (fun k hk => ?_) fun k hk f hf => ?_) ?_
      · rw [hdata]
        exact hsize k hk
      · obtain ⟨htok, hsz⟩ := hready.fits f hf k hk
        exact ⟨htok, by rw [hdata]; exact hsz⟩
      · rintro (e | u) s2 h2
        · cases h2
        have h2 : s2 = _ := h2
        subst h2
        refine ⟨⟨spans, rfl⟩, fun _ => ?_⟩
        have hcells := @filled_cells κ α env s1 start end_ frags (env.numLayers page) ws page ht
          (fun f hf k hk => by
            obtain ⟨htok, hsz⟩ := hready.fits f hf k hk
            exact ⟨htok, by rw [hdata]; exact hsz⟩)
          (fun k hk => by rw [hdata]; exact hsize k hk)
        rwa [hdata] at hcells
    · refine wp_mono (wp_of_forall (Q := fun _ _ => True) fun _ _ => trivial) ?_
      rintro (e | u) s2 -
      · rw [post_error, post_error, wp_bind, wp_dropRefs]
        exact fun _ => hchain
      · exact ⟨⟨spans, rfl⟩, fun h => absurd h hchain⟩

/-- The tokens that the prefix page and the selected sources are wanted for, in order. -/
def wanted (env : Engine κ) (m : LocalCheckpoint κ) (sources : Held κ) (start end_ : Int) :
    List (Int × Int) :=
  (prefixRange env m (selectedOf sources start end_) start).toList ++
    ranges (selectedOf sources start end_)

/-- The sources, with the retained prefix page in front of them if it is needed, tile the target. -/
def TilesTarget (env : Engine κ) (m : LocalCheckpoint κ) (sources : Held κ) (start end_ : Int) :
    Prop :=
  Chain ((wanted env m sources start end_).map fun r => (max start r.1, min end_ r.2)) start end_

instance (env : Engine κ) (m : LocalCheckpoint κ) (sources : Held κ) (start end_ : Int) :
    Decidable (TilesTarget env m sources start end_) :=
  inferInstanceAs (Decidable (Chain _ _ _))

/-- The pages are of the group's layout, whose planes are `ws layer` wide: an allocated page is of
its own, and the pages of the sources and of the prefix hold the tokens they are kept for. -/
structure Layout (env : Engine κ) (data : Page → Nat → List α) (group : Nat) (m : LocalCheckpoint κ)
    (sources : Held κ) (layers : Nat) (ws : Nat → List Nat) : Prop where
  nonempty : ∀ h ∈ sources, h.1.start < h.1.end_
  held : ∀ h ∈ sources, ∀ k < layers, Fits env data k (ws k) (fragmentOf h)
  loaded : ∀ {n page}, env.loadPrefix n (m.tokens.take m.prefixEnd.toNat) group = .ok page →
    ∀ k < layers, Fits env data k (ws k) ⟨baseOf env m, m.prefixEnd, page⟩
  allocated : ∀ {n count page widths}, env.allocate n group count = .ok (page, widths) →
    env.numLayers page = layers ∧ (∀ k < layers, widths.layer k = some (ws k)) ∧
      (∀ k < layers, (data page k).length = count.toNat * (ws k).sum) ∧
      (∀ h ∈ sources, h.2 ≠ page) ∧
      ∀ n tokens, env.loadPrefix n tokens group ≠ .ok page

/-- The prefix page in front of the sources, as it was loaded. -/
structure Front (env : Engine κ) (m : LocalCheckpoint κ) (selected : Held κ) (group : Nat)
    (start : Int) (front : Option Fragment) : Prop where
  range : front.map (fun f => (f.start, f.end_)) = prefixRange env m selected start
  loaded : ∀ f ∈ front, ∃ n,
    env.loadPrefix n (m.tokens.take m.prefixEnd.toNat) group = .ok f.page

theorem loadPrefix_data (m : LocalCheckpoint κ) (selected : Held κ) (group : Nat) :
    wp (loadPrefix env m selected group start) (post
      (fun f s' => s'.data = s.data ∧ Front env m selected group start f)
      fun _ _ => ¬Answers env group) s := by
  unfold loadPrefix
  split
  · next hrange => exact ⟨rfl, hrange.symm, fun f hf => (nomatch hf)⟩
  · next range hrange =>
    have hfactory : ∀ t : StoreState κ α, t.data = s.data →
        wp (do
            let page ← ask fun n => env.loadPrefix n (m.tokens.take m.prefixEnd.toNat) group
            takeRefs [page]
            pure page : StoreM κ α Page) (post
          (fun page t' => t'.data = s.data ∧ ∃ n,
            env.loadPrefix n (m.tokens.take m.prefixEnd.toNat) group = .ok page)
          fun _ t' => t'.data = s.data ∧ ¬Answers env group) t := by
      intro t ht
      rw [wp_bind, wp_ask]
      refine ⟨fun e he => ⟨ht, fun hans => hans.loadPrefix _ _ _ he⟩, fun page hpage => ?_⟩
      rw [post_ok, wp_bind, wp_takeRefs, post_ok, wp_pure]
      exact ⟨ht, _, hpage⟩
    refine wp_bind_of (reserve_spec group _ (fun _ ht => ht) (fun _ ht => ht) hfactory rfl)
      (fun _ _ h1 => h1.2) fun page s1 h1 => ?_
    refine ⟨h1.1, hrange.symm, fun f hf => ?_⟩
    cases hf
    exact h1.2

variable {front : Option Fragment}

variable {sources : Held κ} {m : LocalCheckpoint κ}

theorem clips_eq {group : Nat}
    (hf : Front env m (selectedOf sources start end_) group start front) :
    (front.toList ++ (selectedOf sources start end_).map fragmentOf).map (clip start end_) =
      (wanted env m sources start end_).map fun r => (max start r.1, min end_ r.2) := by
  unfold wanted ranges
  rw [← hf.range]
  cases front <;> simp [clip, fragmentOf]

theorem prefixRange_late {x : CheckpointPage κ × Page} {rest : Held κ} {r : Int × Int}
    (h : prefixRange env m (x :: rest) start = some r) :
    (start = baseOf env m ∧ r = (start, min m.prefixEnd x.1.start)) ∧ r.1 < x.1.start := by
  change (if start = baseOf env m ∧ x.1.start > baseOf env m then
    some (baseOf env m, min m.prefixEnd x.1.start) else none) = some r at h
  split at h
  · next hc =>
    cases h
    exact ⟨⟨hc.1, by rw [hc.1]⟩, hc.2⟩
  · cases h

theorem prefixRange_bounds {selected : Held κ} {r : Int × Int}
    (h : prefixRange env m selected start = some r) :
    start = baseOf env m ∧ r.1 = start ∧ r.2 ≤ m.prefixEnd := by
  cases selected with
  | nil => cases h
  | cons x rest =>
    obtain ⟨⟨hs, rfl⟩, -⟩ := prefixRange_late h
    exact ⟨hs, rfl, Int.min_le_left _ _⟩

theorem Layout.ready {data : Page → Nat → List α} {group : Nat} {layers : Nat}
    {ws : Nat → List Nat} (h : Layout env data group m sources layers ws)
    (hf : Front env m (selectedOf sources start end_) group start front) :
    Ready env data group (front.toList ++ (selectedOf sources start end_).map fragmentOf) layers
      ws := by
  have hsource : ∀ f ∈ (selectedOf sources start end_).map fragmentOf, ∃ x ∈ sources,
      fragmentOf x = f := by
    intro f hmem
    obtain ⟨x, hx, rfl⟩ := List.mem_map.1 hmem
    exact ⟨x, (List.mem_filter.1 hx).1, rfl⟩
  constructor
  · intro n count page widths hn
    obtain ⟨h1, h2, h3, h4, h5⟩ := h.allocated hn
    refine ⟨h1, h2, h3, fun f hmem => ?_⟩
    rcases List.mem_append.1 hmem with hmem | hmem
    · obtain ⟨k, hk⟩ := hf.loaded f (mem_toList.1 hmem)
      rintro rfl
      exact h5 k _ hk
    · obtain ⟨x, hx, rfl⟩ := hsource f hmem
      exact h4 x hx
  · intro f hmem k hk
    rcases List.mem_append.1 hmem with hmem | hmem
    · have hfront := mem_toList.1 hmem
      obtain ⟨n, hn⟩ := hf.loaded f hfront
      obtain ⟨htok, hsize⟩ := h.loaded hn k hk
      have hrange := hf.range
      rw [mem_def.1 hfront] at hrange
      obtain ⟨hs, h1, h2⟩ := prefixRange_bounds hrange.symm
      have htok : m.prefixEnd - baseOf env m ≤ env.validTokens f.page := htok
      have h1 : f.start = start := h1
      have h2 : f.end_ ≤ m.prefixEnd := h2
      exact ⟨by omega, hsize⟩
    · obtain ⟨x, hx, rfl⟩ := hsource f hmem
      exact h.held x hx k hk

/-- Nothing of the fragments is empty, but for a prefix that ends with a chunk; then the first
source starts too late. -/
theorem tiles_of_spansOf {group : Nat} {spans : List Span}
    (hne : ∀ h ∈ sources, h.1.start < h.1.end_) (hlt : start < end_)
    (hf : Front env m (selectedOf sources start end_) group start front)
    (h : spansOf start end_ (front.toList ++ (selectedOf sources start end_).map fragmentOf) start =
      .ok spans) : TilesTarget env m sources start end_ := by
  have hselected : ∀ f ∈ (selectedOf sources start end_).map fragmentOf,
      (clip start end_ f).1 < (clip start end_ f).2 := by
    intro f hmem
    obtain ⟨x, hx, rfl⟩ := List.mem_map.1 hmem
    obtain ⟨hmem, hover⟩ := List.mem_filter.1 hx
    have hover : x.1.start < end_ ∧ x.1.end_ > start := of_decide_eq_true hover
    have := hne x hmem
    show max start x.1.start < min end_ x.1.end_
    omega
  unfold TilesTarget
  rw [← clips_eq hf]
  cases front with
  | none => exact chain_of_spansOf h hselected
  | some f =>
    have hrange := hf.range
    cases hsel : selectedOf sources start end_ with
    | nil =>
      rw [hsel] at hrange
      cases hrange
    | cons x rest =>
      rw [hsel] at hrange h hselected
      have hx : max start x.1.start < min end_ x.1.end_ := hselected _ List.mem_cons_self
      refine chain_of_spansOf h (List.forall_mem_cons.2 ⟨?_, hselected⟩)
      -- the next fragment starts where the prefix ends
      obtain ⟨hfirst, more, hmore⟩ := spansOf_cons h
      obtain ⟨hnext, -⟩ := spansOf_cons hmore
      have hnext : max start x.1.start = min end_ f.end_ := hnext
      obtain ⟨⟨-, hr⟩, hlate⟩ := prefixRange_late hrange.symm
      have hr : f.start = start := congrArg Prod.fst hr
      have hlate : f.start < x.1.start := hlate
      show max start f.start < min end_ f.end_
      omega

theorem exactSource_eq {selected : Held κ} {page : Page}
    (h : exactSource env selected start end_ = some page) : ∃ source,
      selected = [(source, page)] ∧ source.start = start ∧ source.end_ = end_ ∧
        (env.validTokens page : Int) = end_ - start := by
  unfold exactSource at h
  split at h
  · next source p =>
    split at h
    · next hc =>
      cases h
      exact ⟨source, rfl, hc⟩
    · cases h
  · cases h

theorem exactSource_cells {page : Page} (group : Nat) (layers : Nat) (ws : Nat → List Nat)
    (data : Page → Nat → List α) (hlt : start < end_)
    (h : exactSource env (selectedOf sources start end_) start end_ = some page) :
    TilesTarget env m sources start end_ ∧
      Front env m (selectedOf sources start end_) group start none ∧
      Cells env data data ((selectedOf sources start end_).map fragmentOf) layers ws start end_
        page := by
  obtain ⟨source, hsel, h1, h2, h3⟩ := exactSource_eq h
  have hnone : prefixRange env m [(source, page)] start = none := by
    refine if_neg ?_
    show ¬(start = baseOf env m ∧ source.start > baseOf env m)
    omega
  rw [hsel]
  refine ⟨?_, ⟨hnone.symm, fun f hf => (nomatch hf)⟩, ?_⟩
  · unfold TilesTarget wanted ranges
    rw [hsel, hnone]
    show max start source.start = start ∧ max start source.start < min end_ source.end_ ∧
      min end_ source.end_ = end_
    omega
  · intro k hk p hp t ht1 ht2
    refine ⟨fragmentOf (source, page), List.mem_cons_self, ⟨?_, ?_⟩, fun e he => ?_⟩
    · show source.start ≤ t
      omega
    · show t < source.end_
      omega
    · have hvalid : (end_ - start).toNat = env.validTokens page := by omega
      rw [hvalid, ← h1]
      rfl

/-- What the engine answers, a page comes out of the cache or is made of the fragments that tile the
target; if they do not tile it, nothing else comes out. -/
theorem buildPage_cells {group : Nat} {key : κ} {layers : Nat} {ws : Nat → List Nat}
    (hlt : start < end_) (hlayout : Layout env s.data group m sources layers ws) :
    wp (buildPage env m sources group start end_ key) (post
      (fun page s' => env.cached s.calls key group (end_ - start) = .ok (some page) ∨
        TilesTarget env m sources start end_ ∧ ∃ front,
          Front env m (selectedOf sources start end_) group start front ∧
          Cells env s.data s'.data
            (front.toList ++ (selectedOf sources start end_).map fragmentOf) layers ws start end_
            page)
      fun _ _ => Answers env group → ¬TilesTarget env m sources start end_) s := by
  unfold buildPage
  simp only
  split
  · next page hexact =>
    rw [wp_bind, wp_takeRefs, post_ok, wp_pure]
    obtain ⟨htiles, hfront, hcells⟩ := exactSource_cells group layers ws s.data hlt hexact
    exact .inr ⟨htiles, none, hfront, hcells⟩
  · rw [wp_bind, wp_ask]
    refine ⟨fun e he hans => absurd he (hans.cached _ _ _ _), fun r hr => ?_⟩
    cases r with
    | some page =>
      rw [post_ok, wp_bind, wp_takeRefs, post_ok, wp_pure]
      exact .inl hr
    | none =>
      rw [post_ok]
      refine wp_bind_of (loadPrefix_data m _ group) (fun _ _ h1 => fun hans => absurd hans h1)
        fun front s1 h1 => ?_
      obtain ⟨hdata, hfront⟩ := h1
      refine wp_finally (wp_mono (assemblePage_cells group (Int.le_of_lt hlt)
        (by rw [hdata]; exact hlayout.ready hfront)) ?_)
      rintro (e | page) s2 h2
      · rw [wp_dropRefs]
        intro hans htiles
        refine h2 hans ?_
        rw [clips_eq hfront]
        exact htiles
      · rw [wp_dropRefs]
        obtain ⟨⟨spans, hspans⟩, hcells⟩ := h2
        have htiles := tiles_of_spansOf hlayout.nonempty hlt hfront hspans
        refine .inr ⟨htiles, front, hfront, ?_⟩
        rw [hdata] at hcells
        refine hcells ?_
        rw [clips_eq hfront]
        exact htiles

/-- **A page is built exactly of the fragments that tile it, and nothing else is kept.**  What the
cache has under the key is returned as it is. -/
theorem buildPage_tiles {m : LocalCheckpoint κ} {sources : Held κ} {group : Nat} (key : κ)
    {layers : Nat} {ws : Nat → List Nat} (hlt : start < end_)
    (hlayout : Layout env s.data group m sources layers ws) (h : Holds s l) :
    wp (buildPage env m sources group start end_ key) (post
      (fun page s' => Holds s' (l ++ [page]) ∧
        (env.cached s.calls key group (end_ - start) = .ok (some page) ∨
          TilesTarget env m sources start end_ ∧ ∃ front,
            Front env m (selectedOf sources start end_) group start front ∧
            Cells env s.data s'.data
              (front.toList ++ (selectedOf sources start end_).map fragmentOf) layers ws start end_
              page))
      fun _ s' => Holds s' l ∧ (Answers env group → ¬TilesTarget env m sources start end_)) s := by
  refine wp_mono (wp_and (buildPage_refs m sources group key h) (buildPage_cells hlt hlayout)) ?_
  rintro (e | page) s1 ⟨⟨-, hrefs⟩, hcells⟩ <;> exact ⟨hrefs, hcells⟩

/-- Page 1 has three tokens, the prefix page 2 one, and page 3 is allocated; the planes are one and
two wide. -/
def Engine.boundary : Engine Nat :=
  { Engine.idle with
    validTokens := fun page => if page = 1 then 3 else if page = 2 then 1 else 4
    loadPrefix := fun _ _ _ => .ok 2
    allocate := fun _ _ count =>
      if count = 4 then .ok (3, .shared [1, 2]) else .error (.memoryError "no page") }

def StoreState.boundary : StoreState Nat Nat :=
  { StoreState.idle with
    data := fun page _ => if page = 1 then [51, 61, 71, 52, 53, 62, 63, 72, 73]
      else if page = 2 then [41, 42, 43] else List.replicate 12 0 }

theorem boundary_layout : Layout Engine.boundary StoreState.boundary.data 0 prefixedManifest
    [(⟨5, 8, 0⟩, 1)] 1 fun _ => [1, 2] := by
  constructor
  · decide
  · intro h hmem k _
    rw [List.mem_singleton.1 hmem]
    exact ⟨by decide, rfl⟩
  · intro n page hn k _
    cases hn
    exact ⟨by decide, rfl⟩
  · intro n count page widths hn
    change (if count = 4 then Except.ok (3, Widths.shared [1, 2])
      else Except.error (PyError.memoryError "no page")) = _ at hn
    split at hn
    · next hcount =>
      cases hn
      subst hcount
      exact ⟨rfl, fun _ _ => rfl, fun _ _ => rfl, by decide, fun n tokens h => by cases h⟩
    · cases hn

theorem buildPage_tiles_boundary :
    TilesTarget Engine.boundary prefixedManifest [(⟨5, 8, 0⟩, 1)] 4 8 ∧
      wp (buildPage Engine.boundary prefixedManifest [(⟨5, 8, 0⟩, 1)] 0 4 8 9) (post
        (fun page s' => Holds s' ([] ++ [page]) ∧
          (Engine.boundary.cached 0 9 0 (8 - 4) = .ok (some page) ∨
            TilesTarget Engine.boundary prefixedManifest [(⟨5, 8, 0⟩, 1)] 4 8 ∧ ∃ front,
              Front Engine.boundary prefixedManifest (selectedOf [(⟨5, 8, 0⟩, 1)] 4 8) 0 4 front ∧
              Cells Engine.boundary StoreState.boundary.data s'.data
                (front.toList ++ (selectedOf [(⟨5, 8, 0⟩, 1)] 4 8).map fragmentOf) 1
                (fun _ => [1, 2]) 4 8 page))
        fun _ s' => Holds s' [] ∧ (Answers Engine.boundary 0 →
          ¬TilesTarget Engine.boundary prefixedManifest [(⟨5, 8, 0⟩, 1)] 4 8))
        StoreState.boundary :=
  ⟨by decide, buildPage_tiles 9 (by decide) boundary_layout fun _ => rfl⟩

/-- The cache has a page under the key: it is returned, though no source is there. -/
theorem buildPage_cached_untiled :
    ¬TilesTarget Engine.idle prefixedManifest [] 0 4 ∧
      (buildPage { Engine.idle with cached := fun _ _ _ _ => .ok (some 7) } prefixedManifest [] 0 0 4
        9 StoreState.idle).1 = .ok 7 := by
  decide

end LocalStore
