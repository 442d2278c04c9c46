import LMCacheAscend.DirectStore.ControlPages
import LMCacheAscend.DirectStore.PlanChunks
import LMCacheAscend.Lib.Cuts
import LMCacheAscend.Lib.Traverse

/-!
# Windows that the decoder accepts

The decoder takes a window when its chunks are consecutive and every direct
group has a page of each, with one range and one hash.  Sorted pages of complete
chunks are blocks of one page a group (`eq_pageBlocks`), the page limit is a
multiple of the number of groups, so no window splits a block
(`validateSlices_iff`).

For a batch that leaves exactly one condition (`batch_windows_iff`,
`DirectPageBatch.Fits`); pages of the items of one plan meet it
(`FromPlan.windows`), which is what a probe is made of (`probe_windows`).
-/

namespace DirectStore

open Lib RemoteFill List Dict

/-! ## What the decoder accepts -/

theorem forM_ok {ε α : Type} {l : List α} {f : α → Except ε PUnit} :
    l.forM f = .ok () ↔ ∀ x ∈ l, f x = .ok () := by
  induction l with
  | nil => exact iff_of_true rfl fun x hx => absurd hx not_mem_nil
  | cons a l ih =>
    rw [forall_mem_cons, ← ih]
    show (f a >>= fun _ => l.forM f) = .ok () ↔ _
    rcases h : f a with e | u
    · refine iff_of_false (fun hcon => ?_) fun h => absurd h.1 (by simp)
      cases hcon
    · exact (and_iff_right rfl).symm

/-- Pages chunk by chunk, every direct group of a chunk in order. -/
def pageBlocks (groups : List Nat) (page : Int → Nat → ControlPage) (chunks : List Int) :
    List ControlPage :=
  chunks.flatMap fun chunk => groups.map (page chunk)

variable {x : ControlPage}

section

variable {dcfg : PagesConfig} {page : Int → Nat → ControlPage} {key : ControlPage → PageKey}
  {chunks : List Int}

theorem mem_pageBlocks {groups : List Nat} :
    x ∈ pageBlocks groups page chunks ↔ ∃ chunk ∈ chunks, ∃ g ∈ groups, x = page chunk g := by
  unfold pageBlocks
  simp only [mem_flatMap, mem_map, eq_comm]

theorem chunkIndices_pageBlocks {groups : List Nat} (hgroups : groups ≠ [])
    (hpage : ∀ c ∈ chunks, ∀ g ∈ groups, (page c g).chunkIndex = c)
    (hchunks : chunks.Pairwise (· < ·)) :
    ((pageBlocks groups page chunks).map ControlPage.chunkIndex).dedup.insertionSort (· ≤ ·) =
      chunks := by
  refine eq_of_pairwise_asymm (r := fun a b : Int => a < b) (fun x y h h' => by omega) ?_ hchunks
    fun c => ?_
  · have hle := pairwise_insertionSort (fun a b : Int => a ≤ b)
      ((pageBlocks groups page chunks).map ControlPage.chunkIndex).dedup
    have hne := (perm_insertionSort (fun a b : Int => a ≤ b) _).nodup_iff.2
      (nodup_dedup ((pageBlocks groups page chunks).map ControlPage.chunkIndex))
    exact (hle.and hne).imp fun h => lt_of_le_of_ne h.1 h.2
  · rw [mem_insertionSort, mem_dedup, mem_map]
    constructor
    · rintro ⟨x, hx, rfl⟩
      obtain ⟨c, hc, g, hg, rfl⟩ := mem_pageBlocks.1 hx
      rw [hpage c hc g hg]
      exact hc
    · intro hc
      obtain ⟨g, hg⟩ := exists_mem_of_ne_nil groups hgroups
      exact ⟨_, mem_pageBlocks.2 ⟨c, hc, g, hg, rfl⟩, hpage c hc g hg⟩

theorem zip_map_self {α β : Type} (l : List α) (f : α → β) :
    l.zip (l.map f) = l.map fun x => (x, f x) := by
  rw [zip_map_right, zip_eq_zipWith, zipWith_self, map_map]
  rfl

theorem groupItems_pageBlocks
    (hpage : ∀ c ∈ chunks, ∀ g ∈ dcfg.directGroups,
      (page c g).chunkIndex = c ∧ (page c g).kvGroup = g) {c : Int} (hc : c ∈ chunks) :
    groupItems dcfg ((pageBlocks dcfg.directGroups page chunks).zip
        ((pageBlocks dcfg.directGroups page chunks).map key)) c =
      some (dcfg.directGroups.map fun g => (page c g, key (page c g))) := by
  have hfind : ∀ g ∈ dcfg.directGroups,
      ((pageBlocks dcfg.directGroups page chunks).map fun x => (x, key x)).find?
        (fun e => e.1.chunkIndex = c && e.1.kvGroup = g) = some (page c g, key (page c g)) := by
    intro g hg
    obtain ⟨hc1, hg1⟩ := hpage c hc g hg
    rcases h : ((pageBlocks dcfg.directGroups page chunks).map fun x => (x, key x)).find?
        (fun e => decide (e.1.chunkIndex = c) && decide (e.1.kvGroup = g)) with - | e
    · rw [find?_eq_none] at h
      have := h (page c g, key (page c g))
        (mem_map.2 ⟨_, mem_pageBlocks.2 ⟨c, hc, g, hg, rfl⟩, rfl⟩)
      simp [hc1, hg1] at this
    · have hsel := find?_some h
      obtain ⟨x, hx, rfl⟩ := mem_map.1 (mem_of_find?_eq_some h)
      obtain ⟨c', hc', g', hg', rfl⟩ := mem_pageBlocks.1 hx
      obtain ⟨hc2, hg2⟩ := hpage c' hc' g' hg'
      rw [Bool.and_eq_true, decide_eq_true_eq, decide_eq_true_eq, hc2, hg2] at hsel
      obtain ⟨rfl, rfl⟩ := hsel
      exact h
  unfold groupItems
  rw [zip_map_self]
  exact mapM_eq_some hfind

theorem sameWindowIdentity_refl (e : ControlPage × PageKey) : sameWindowIdentity e e = true := by
  simp [sameWindowIdentity]

theorem validateWindowGroups_pageBlocks
    (hpage : ∀ c ∈ chunks, ∀ g ∈ dcfg.directGroups,
      (page c g).chunkIndex = c ∧ (page c g).kvGroup = g)
    (hchunks : chunks.Pairwise (· < ·)) :
    validateWindowGroups dcfg (pageBlocks dcfg.directGroups page chunks)
        ((pageBlocks dcfg.directGroups page chunks).map key) = .ok () ↔
      chunks ≠ [] ∧ (chunks.IsChain fun a b => b = a + 1) ∧
        ∀ c ∈ chunks, ∀ g ∈ dcfg.directGroups,
          sameWindowIdentity (page c 0, key (page c 0)) (page c g, key (page c g)) := by
  have hgroups : dcfg.directGroups ≠ [] := by
    rcases dcfg.directGroups_valid with h | h <;> rw [h] <;> simp
  unfold validateWindowGroups
  simp only
  rw [chunkIndices_pageBlocks hgroups (fun c hc g hg => (hpage c hc g hg).1) hchunks]
  by_cases hnil : chunks = []
  · subst hnil
    refine iff_of_false (fun hcon => ?_) fun h => h.1 rfl
    cases hcon
  obtain ⟨first, hfirst⟩ : ∃ first, chunks.head? = some first :=
    ⟨_, head?_eq_some_head hnil⟩
  obtain ⟨last, hlast⟩ : ∃ last, chunks.getLast? = some last :=
    ⟨_, getLast?_eq_some_getLast hnil⟩
  have hrange : (List.map (fun i => first + i) do
      let a ← range (last + 1 - first).toNat
      pure (a : Int)) = (range (last + 1 - first).toNat).map fun i : Nat => first + i := by
    rw [bind_pure_comp, map_eq_map, map_map]
    rfl
  rw [hfirst, hlast]
  simp only [hrange]
  by_cases hchain : chunks.IsChain fun a b => b = a + 1
  · rw [if_neg (not_not.2 ((eq_range_iff hfirst hlast).2 hchain)), and_iff_right hnil,
      and_iff_right hchain, forM_ok]
    refine forall₂_congr fun c hc => ?_
    rw [groupItems_pageBlocks hpage hc]
    rcases dcfg.directGroups_valid with h | h
    · rw [h]
      exact iff_of_true rfl fun g hg => by
        rw [mem_singleton.1 hg]
        exact sameWindowIdentity_refl _
    · rw [h]
      by_cases hsame : sameWindowIdentity (page c 0, key (page c 0)) (page c 1, key (page c 1)) = true
      · refine iff_of_true ?_ fun g hg => ?_
        · simp [hsame]
          rfl
        · rcases mem_cons.1 hg with rfl | hg
          · exact sameWindowIdentity_refl _
          · rw [mem_singleton.1 hg]
            exact hsame
      · refine iff_of_false ?_ fun hcon => hsame (hcon 1 (by simp))
        simp [hsame]
  · rw [if_pos fun h => hchain ((eq_range_iff hfirst hlast).1 h)]
    refine iff_of_false (fun hcon => ?_) fun h => hchain h.2.1
    cases hcon

end

/-! ## Complete chunks -/

/-- One page of every group for each chunk. -/
structure Paired (groups : List Nat) (pages : List ControlPage) : Prop where
  nonempty : pages ≠ []
  unique : ∀ x ∈ pages, ∀ y ∈ pages, x.chunkIndex = y.chunkIndex → x.kvGroup = y.kvGroup → x = y
  nodup : pages.Nodup
  group : ∀ x ∈ pages, x.kvGroup ∈ groups
  complete : ∀ x ∈ pages, ∀ g ∈ groups, ∃ y ∈ pages, y.chunkIndex = x.chunkIndex ∧ y.kvGroup = g

/-- What the loop of `_remote_fill_validate_page_pairs` knows of the pages before. -/
structure GroupsOf (pages : List ControlPage) (byChunk : Dict Int (List Nat)) : Prop where
  groups : ∀ c, (byChunk.get? c).getD [] =
    (pages.filter fun x => x.chunkIndex = c).map ControlPage.kvGroup
  keys : ∀ c, c ∈ byChunk.keys ↔ ∃ x ∈ pages, x.chunkIndex = c
  nodup : (pages.map fun x => (x.chunkIndex, x.kvGroup)).Nodup

theorem ProducerConfig.zero_mem {H : Type} (cfg : ProducerConfig H) : 0 ∈ cfg.directGroups := by
  rcases cfg.directGroups_valid with h | h <;> rw [h] <;> decide

theorem pageGroups_ok {pages seen : List ControlPage} {byChunk out : Dict Int (List Nat)}
    (hseen : GroupsOf seen byChunk) (h : pageGroups pages byChunk = .ok out) :
    GroupsOf (seen ++ pages) out := by
  induction pages generalizing seen byChunk with
  | nil =>
    cases h
    rw [append_nil]
    exact hseen
  | cons x pages ih =>
    unfold pageGroups at h
    simp only at h
    split at h
    · cases h
    · next hnew =>
      rw [hseen.groups] at hnew
      rw [← singleton_append, ← append_assoc]
      refine ih ⟨fun c => ?_, fun c => ?_, ?_⟩ h
      · rw [get?_set, filter_append, map_append]
        by_cases hc : c = x.chunkIndex
        · subst hc
          rw [if_pos rfl, Option.getD_some, hseen.groups]
          simp
        · rw [if_neg hc, hseen.groups]
          have hne : ¬x.chunkIndex = c := fun h => hc h.symm
          simp [hne]
      · rw [mem_keys_set, hseen.keys]
        simp only [mem_append, mem_singleton]
        constructor
        · rintro (rfl | ⟨y, hy, rfl⟩)
          · exact ⟨x, .inr rfl, rfl⟩
          · exact ⟨y, .inl hy, rfl⟩
        · rintro ⟨y, hy | rfl, rfl⟩
          · exact .inr ⟨y, hy, rfl⟩
          · exact .inl rfl
      · rw [map_append]
        refine nodup_snoc hseen.nodup fun ha => ?_
        obtain ⟨y, hy, hsel⟩ := mem_map.1 ha
        rw [Prod.mk.injEq] at hsel
        refine hnew (mem_map.2 ⟨y, mem_filter.2 ⟨hy, ?_⟩, hsel.2⟩)
        exact decide_eq_true hsel.1

theorem validatePagePairs_ok {H : Type} {cfg : ProducerConfig H} {pages : List ControlPage}
    (h : validatePagePairs cfg pages = .ok ()) : Paired cfg.directGroups pages := by
  unfold validatePagePairs at h
  split at h
  · cases h
  · next byChunk hgroups =>
    split at h
    · cases h
    · next hexact =>
      have hseen : GroupsOf [] Dict.empty := ⟨fun c => rfl, fun c => by simp, nodup_nil⟩
      have hout := pageGroups_ok hseen hgroups
      rw [nil_append] at hout
      rw [not_or] at hexact
      have hchunk : ∀ x ∈ pages, ∀ g, (g ∈ cfg.directGroups ↔
          ∃ y ∈ pages, y.chunkIndex = x.chunkIndex ∧ y.kvGroup = g) := by
        intro x hx g
        obtain ⟨gs, hgs⟩ := Dict.mem_keys.1 ((hout.keys x.chunkIndex).2 ⟨x, hx, rfl⟩)
        have hmem : ∀ g, g ∈ gs ↔ ∃ y ∈ pages, y.chunkIndex = x.chunkIndex ∧ y.kvGroup = g := by
          intro g
          have hlist := hout.groups x.chunkIndex
          rw [hgs, Option.getD_some] at hlist
          rw [hlist, mem_map]
          simp only [mem_filter, decide_eq_true_eq, and_assoc]
        have hnone : ¬((∃ g ∈ gs, g ∉ cfg.directGroups) ∨ ∃ g ∈ cfg.directGroups, g ∉ gs) :=
          fun hcon => hexact.2 ⟨_, mem_entries.2 hgs, hcon⟩
        rw [not_or] at hnone
        rw [← hmem]
        constructor
        · intro hg
          by_contra hcon
          exact hnone.2 ⟨g, hg, hcon⟩
        · intro hg
          by_contra hcon
          exact hnone.1 ⟨g, hg, hcon⟩
      refine ⟨?_, ?_, hout.nodup.of_map _, fun x hx => (hchunk x hx _).2 ⟨x, hx, rfl, rfl⟩,
        fun x hx g hg => (hchunk x hx g).1 hg⟩
      · rintro rfl
        refine hexact.1 (eq_nil_iff_forall_not_mem.2 fun e he => ?_)
        obtain ⟨x, hx, -⟩ := (hout.keys e.1).1 (Dict.mem_keys.2 ⟨e.2, mem_entries.1 he⟩)
        cases hx
      · intro x hx y hy hc hg
        exact inj_on_of_nodup_map hout.nodup hx hy (by rw [hc, hg])

/-! ## Sorted pages -/

/-- The strict order of pages. -/
def PageLt (a b : ControlPage) : Prop :=
  a.chunkIndex < b.chunkIndex ∨ a.chunkIndex = b.chunkIndex ∧ a.kvGroup < b.kvGroup

theorem PageLt.asymm {a b : ControlPage} (h : PageLt a b) : ¬PageLt b a := by
  unfold PageLt at h ⊢
  omega

theorem sortPages_pairwise (pages : List ControlPage) : (sortPages pages).Pairwise PageLe := by
  have htotal : Std.Total PageLe := ⟨fun a b => by unfold PageLe; omega⟩
  have htrans : IsTrans ControlPage PageLe := ⟨fun a b c h h' => by unfold PageLe at *; omega⟩
  exact pairwise_insertionSort _ _

theorem mem_sortPages {pages : List ControlPage} :
    x ∈ sortPages pages ↔ x ∈ pages := mem_insertionSort _

/-- The page of a chunk and a group. -/
def pageAt (pages : List ControlPage) (c : Int) (g : Nat) : ControlPage :=
  (pages.find? fun x => x.chunkIndex = c ∧ x.kvGroup = g).getD ⟨"", g, c, 0, 0, 0, 0, 0, 0, ""⟩

/-- The chunks of some pages, in order. -/
def chunksOf (pages : List ControlPage) : List Int :=
  (pages.map ControlPage.chunkIndex).dedup.insertionSort (· ≤ ·)

theorem mem_chunksOf {pages : List ControlPage} {c : Int} :
    c ∈ chunksOf pages ↔ ∃ x ∈ pages, x.chunkIndex = c := by
  unfold chunksOf
  rw [mem_insertionSort, mem_dedup, mem_map]

theorem chunksOf_pairwise (pages : List ControlPage) : (chunksOf pages).Pairwise (· < ·) := by
  have hle : (chunksOf pages).Pairwise (· ≤ ·) := pairwise_insertionSort _ _
  have hne : (chunksOf pages).Pairwise (· ≠ ·) :=
    (perm_insertionSort _ _).nodup_iff.2 (nodup_dedup _)
  exact (hle.and hne).imp fun h => lt_of_le_of_ne h.1 h.2

section

variable {groups : List Nat} {pages : List ControlPage}

theorem pageAt_eq (hp : Paired groups pages) (hx : x ∈ pages) :
    pageAt pages x.chunkIndex x.kvGroup = x := by
  unfold pageAt
  rcases h : pages.find? fun y => decide (y.chunkIndex = x.chunkIndex ∧ y.kvGroup = x.kvGroup)
    with - | y
  · rw [find?_eq_none] at h
    exact absurd (h x hx) (by simp)
  have hsel : y.chunkIndex = x.chunkIndex ∧ y.kvGroup = x.kvGroup := by
    simpa using find?_some h
  rw [h, Option.getD_some]
  exact hp.unique y (mem_of_find?_eq_some h) x hx hsel.1 hsel.2

theorem pageAt_spec (hp : Paired groups pages) {c : Int} (hc : c ∈ chunksOf pages) {g : Nat}
    (hg : g ∈ groups) : pageAt pages c g ∈ pages ∧ (pageAt pages c g).chunkIndex = c ∧
      (pageAt pages c g).kvGroup = g := by
  obtain ⟨x, hx, rfl⟩ := mem_chunksOf.1 hc
  obtain ⟨y, hy, hyc, rfl⟩ := hp.complete x hx g hg
  rw [← hyc, pageAt_eq hp hy]
  exact ⟨hy, rfl, rfl⟩

theorem eq_pageBlocks (hgroups : groups.Pairwise (· < ·)) (hsorted : pages.Pairwise PageLe)
    (hp : Paired groups pages) : pages = pageBlocks groups (pageAt pages) (chunksOf pages) := by
  refine eq_of_pairwise_asymm (r := PageLt) (fun _ _ h => h.asymm) ?_ ?_ fun x => ?_
  · refine List.Pairwise.imp_of_mem (fun {x y} hx hy h => ?_) (hsorted.and hp.nodup)
    obtain ⟨hle, hne⟩ := h
    have hsel : ¬(x.chunkIndex = y.chunkIndex ∧ x.kvGroup = y.kvGroup) :=
      fun h => hne (hp.unique x hx y hy h.1 h.2)
    unfold PageLe at hle
    unfold PageLt
    omega
  · unfold pageBlocks
    rw [pairwise_flatMap]
    constructor
    · intro c hc
      rw [pairwise_map]
      refine List.Pairwise.imp_of_mem (fun {g g'} hg hg' hlt => ?_) hgroups
      obtain ⟨-, h1, h2⟩ := pageAt_spec hp hc hg
      obtain ⟨-, h1', h2'⟩ := pageAt_spec hp hc hg'
      exact .inr ⟨by rw [h1, h1'], by rw [h2, h2']; exact hlt⟩
    · refine List.Pairwise.imp_of_mem (fun {c c'} hc hc' hlt x hx y hy => ?_) (chunksOf_pairwise _)
      obtain ⟨g, hg, rfl⟩ := mem_map.1 hx
      obtain ⟨g', hg', rfl⟩ := mem_map.1 hy
      exact .inl (by rw [(pageAt_spec hp hc hg).2.1, (pageAt_spec hp hc' hg').2.1]; exact hlt)
  · rw [mem_pageBlocks]
    constructor
    · intro hx
      exact ⟨_, mem_chunksOf.2 ⟨x, hx, rfl⟩, _, hp.group x hx, (pageAt_eq hp hx).symm⟩
    · rintro ⟨c, hc, g, hg, rfl⟩
      exact (pageAt_spec hp hc hg).1

/-- Sorted pages of complete chunks, cut into slices of `k` chunks: the decoder accepts each slice
when no two chunks of a slice leave a gap and the pages of a chunk agree. -/
theorem validateSlices_iff {dcfg : PagesConfig} {key : ControlPage → PageKey} {k : Nat}
    (hk : 0 < k) (hsorted : pages.Pairwise PageLe) (hp : Paired dcfg.directGroups pages) :
    (∀ w ∈ slices (k * dcfg.directGroups.length) pages,
        validateWindowGroups dcfg w (w.map key) = .ok ()) ↔
      (∀ i (h : i + 1 < (chunksOf pages).length), (i + 1) % k ≠ 0 →
        (chunksOf pages)[i + 1] = (chunksOf pages)[i] + 1) ∧
      ∀ x ∈ pages, ∀ y ∈ pages, x.chunkIndex = y.chunkIndex →
        sameWindowIdentity (x, key x) (y, key y) = true := by
  have hgroups : dcfg.directGroups.Pairwise (· < ·) := by
    rcases dcfg.directGroups_valid with h | h <;> rw [h] <;> decide
  have hlen : 0 < dcfg.directGroups.length := by
    rcases dcfg.directGroups_valid with h | h <;> rw [h] <;> decide
  have hzero : 0 ∈ dcfg.directGroups := by
    rcases dcfg.directGroups_valid with h | h <;> rw [h] <;> decide
  have hsame : (∀ c ∈ chunksOf pages, ∀ g ∈ dcfg.directGroups,
        sameWindowIdentity (pageAt pages c 0, key (pageAt pages c 0))
          (pageAt pages c g, key (pageAt pages c g)) = true) ↔
      ∀ x ∈ pages, ∀ y ∈ pages, x.chunkIndex = y.chunkIndex →
        sameWindowIdentity (x, key x) (y, key y) = true := by
    constructor
    · intro h x hx y hy hxy
      have hc := mem_chunksOf.2 ⟨x, hx, rfl⟩
      have h1 := h x.chunkIndex hc x.kvGroup (hp.group x hx)
      have h2 := h x.chunkIndex hc y.kvGroup (hp.group y hy)
      rw [pageAt_eq hp hx] at h1
      rw [hxy, pageAt_eq hp hy, ← hxy] at h2
      simp only [sameWindowIdentity, Bool.and_eq_true, decide_eq_true_eq] at h1 h2 ⊢
      obtain ⟨⟨⟨⟨a1, a2⟩, a3⟩, a4⟩, a5⟩ := h1
      obtain ⟨⟨⟨⟨b1, b2⟩, b3⟩, b4⟩, b5⟩ := h2
      exact ⟨⟨⟨⟨a1.symm.trans b1, a2.symm.trans b2⟩, a3.symm.trans b3⟩, a4.symm.trans b4⟩,
        a5.symm.trans b5⟩
    · intro h c hc g hg
      obtain ⟨h1, h2, -⟩ := pageAt_spec hp hc hzero
      obtain ⟨h1', h2', -⟩ := pageAt_spec hp hc hg
      exact h _ h1 _ h1' (h2.trans h2'.symm)
  have hslices : slices (k * dcfg.directGroups.length) pages =
      (slices k (chunksOf pages)).map (pageBlocks dcfg.directGroups (pageAt pages)) := by
    conv_lhs => rw [eq_pageBlocks hgroups hsorted hp]
    exact slices_flatMap hlen (fun _ _ => length_map ..) k
  have hslice : ∀ s ∈ slices k (chunksOf pages),
      (validateWindowGroups dcfg (pageBlocks dcfg.directGroups (pageAt pages) s)
          ((pageBlocks dcfg.directGroups (pageAt pages) s).map key) = .ok () ↔
        (s.IsChain fun a b => b = a + 1) ∧ ∀ c ∈ s, ∀ g ∈ dcfg.directGroups,
          sameWindowIdentity (pageAt pages c 0, key (pageAt pages c 0))
            (pageAt pages c g, key (pageAt pages c g)) = true) := by
    intro s hs
    have hmem : ∀ c ∈ s, c ∈ chunksOf pages := fun c hc => mem_of_mem_slices hs hc
    have hstrict : s.Pairwise (· < ·) := by
      obtain ⟨i, -, rfl⟩ := (mem_slices hk).1 hs
      exact (chunksOf_pairwise pages).sublist ((take_sublist _ _).trans (drop_sublist _ _))
    rw [validateWindowGroups_pageBlocks (fun c hc g hg => (pageAt_spec hp (hmem c hc) hg).2)
      hstrict, and_iff_right (ne_nil_of_mem_slices hs)]
  have hchain := forall_slices_isChain (R := fun a b : Int => b = a + 1) hk (l := chunksOf pages)
  rw [hslices, forall_mem_map, ← hsame, ← hchain]
  constructor
  · intro h
    refine ⟨fun s hs => ((hslice s hs).1 (h s hs)).1, fun c hc => ?_⟩
    obtain ⟨s, hs, hcs⟩ := exists_slice hk hc
    exact ((hslice s hs).1 (h s hs)).2 c hcs
  · intro h s hs
    exact (hslice s hs).2 ⟨h.1 s hs, fun c hc => h.2 c (mem_of_mem_slices hs hc)⟩

end

/-! ## Windows of batches -/

/-- What the decoder reads of the keys it parses: `from_string` of `to_string` is the key, equal
hashes are printed alike, and the keys of a request differ in no tag but `dsa_idx`. -/
structure RoundTrips {H : Type} (cfg : ProducerConfig H) (parse : String → PageKey)
    (keys : List (CacheKey H)) : Prop where
  parse_text : ∀ k ∈ keys, parse (cfg.pageKey k).text = cfg.pageKey k
  hash : ∀ k ∈ keys, ∀ k' ∈ keys,
    (cfg.pageKey k).chunkHash = (cfg.pageKey k').chunkHash ↔ k.chunkHash = k'.chunkHash
  tags : ∀ k ∈ keys, ∀ k' ∈ keys,
    sharedKeyTags (cfg.pageKey k) = sharedKeyTags (cfg.pageKey k')

/-- The decoder accepts a window. -/
def WindowPasses (dcfg : PagesConfig) (parse : String → PageKey) (w : List ControlPage) : Prop :=
  validateWindowGroups dcfg w (w.map fun x => parse x.canonicalKey) = .ok ()

section

variable {H : Type} {cfg : ProducerConfig H} {dcfg : PagesConfig} {parse : String → PageKey}
  {keys : List (CacheKey H)}

theorem sameWindowIdentity_controlPage (hkeys : RoundTrips cfg parse keys) {chunkSize : Nat}
    {k k' : CacheKey H} (hk : k ∈ keys) (hk' : k' ∈ keys) (g g' : Nat) (r r' : Nat × Nat)
    (b b' : Nat) :
    sameWindowIdentity (controlPage cfg chunkSize k g r b, parse (cfg.pageKey k).text)
        (controlPage cfg chunkSize k' g' r' b', parse (cfg.pageKey k').text) = true ↔
      r = r' ∧ k.chunkHash = k'.chunkHash := by
  rw [hkeys.parse_text k hk, hkeys.parse_text k' hk']
  simp only [sameWindowIdentity, Bool.and_eq_true, decide_eq_true_eq]
  rw [hkeys.hash k hk k' hk', and_iff_left (hkeys.tags k hk k' hk')]
  refine and_congr_left fun _ => ?_
  show (((r.1 : Int) = r'.1 ∧ (r.2 : Int) = r'.2) ∧ (r.2 : Int) - r.1 = (r'.2 : Int) - r'.1) ↔ _
  rw [Prod.ext_iff]
  omega

/-- The chunks of the pages of the direct groups. -/
def DirectPageBatch.chunks (cfg : ProducerConfig H) (batch : DirectPageBatch H) : List Nat :=
  uniqueSorted ((batch.items cfg).map fun x => x.2.2.1 / cfg.chunkSize)

/-- No two neighbouring chunks that fall into one window of `perWindow` leave a gap. -/
def NoGap (perWindow : Nat) (chunks : List Nat) : Prop :=
  ∀ i (h : i + 1 < chunks.length), (i + 1) % perWindow ≠ 0 → chunks[i + 1] = chunks[i] + 1

/-- The chunks of a window. -/
def chunksPerWindow (cfg : ProducerConfig H) : Nat :=
  remoteFillPagesPerWindow cfg / cfg.directGroups.length

/-- No two chunks of one window leave a gap, and the groups agree in every chunk. -/
structure DirectPageBatch.Fits (cfg : ProducerConfig H) (batch : DirectPageBatch H) : Prop where
  consecutive : NoGap (chunksPerWindow cfg) (batch.chunks cfg)
  agree : ∀ x ∈ batch.items cfg, ∀ y ∈ batch.items cfg,
    x.2.2.1 / cfg.chunkSize = y.2.2.1 / cfg.chunkSize →
      x.2.2 = y.2.2 ∧ x.1.chunkHash = y.1.chunkHash

theorem remoteFillPagesPerWindow_eq (cfg : ProducerConfig H) : remoteFillPagesPerWindow cfg =
    remoteFillPagesPerWindow cfg / cfg.directGroups.length * cfg.directGroups.length := by
  have hdvd : cfg.directGroups.length ∣ remoteFillPagesPerWindow cfg := Nat.dvd_sub_mod _
  exact (Nat.div_mul_cancel hdvd).symm

variable {batch : DirectPageBatch H} {plans : Plans H}

theorem remoteFillControlPages_ok {pages : List ControlPage}
    (h : remoteFillControlPages cfg batch = .ok pages) :
    pages.Pairwise PageLe ∧ Paired cfg.directGroups pages ∧
      ∀ x, x ∈ pages ↔ ∃ e ∈ batch.items cfg,
        x = controlPage cfg cfg.chunkSize e.1 e.1.kvGroup e.2.2 e.2.1.sum := by
  unfold remoteFillControlPages at h
  split at h
  · cases h
  simp only at h
  split at h
  · cases h
  split at h
  · cases h
  · next hpairs =>
    cases h
    refine ⟨sortPages_pairwise _, validatePagePairs_ok hpairs, fun x => ?_⟩
    rw [mem_sortPages, mem_map]
    simp only [eq_comm]

theorem chunksOf_eq {pages : List ControlPage} (hmem : ∀ x, x ∈ pages ↔ ∃ e ∈ batch.items cfg,
      x = controlPage cfg cfg.chunkSize e.1 e.1.kvGroup e.2.2 e.2.1.sum) :
    chunksOf pages = (batch.chunks cfg).map fun n : Nat => (n : Int) := by
  refine eq_of_pairwise_asymm (r := fun a b : Int => a < b) (fun x y h h' => by omega)
    (chunksOf_pairwise pages) ?_ fun m => ?_
  · rw [pairwise_map]
    exact (pairwise_uniqueSorted _).imp fun h => Int.ofNat_lt.2 h
  · rw [mem_chunksOf, mem_map]
    unfold DirectPageBatch.chunks
    constructor
    · rintro ⟨x, hx, rfl⟩
      obtain ⟨e, he, rfl⟩ := (hmem x).1 hx
      exact ⟨_, mem_uniqueSorted.2 (mem_map.2 ⟨e, he, rfl⟩), rfl⟩
    · rintro ⟨n, hn, rfl⟩
      obtain ⟨e, he, rfl⟩ := mem_map.1 (mem_uniqueSorted.1 hn)
      exact ⟨_, (hmem _).2 ⟨e, he, rfl⟩, rfl⟩

theorem batch_windows_iff {pages : List ControlPage}
    (hgroups : dcfg.directGroups = cfg.directGroups)
    (hkeys : RoundTrips cfg parse ((batch.items cfg).map Prod.fst))
    (h : remoteFillControlPages cfg batch = .ok pages) :
    (∀ w ∈ controlWindows cfg pages, WindowPasses dcfg parse w) ↔
      remoteFillPagesPerWindow cfg = 0 ∨ batch.Fits cfg := by
  obtain ⟨hsorted, hp, hmem⟩ := remoteFillControlPages_ok h
  unfold controlWindows
  by_cases hzero : remoteFillPagesPerWindow cfg = 0
  · rw [hzero]
    exact iff_of_true (fun w hw => by simp [slices] at hw) (.inl rfl)
  have hk : 0 < remoteFillPagesPerWindow cfg / cfg.directGroups.length := by
    refine Nat.pos_of_ne_zero fun h => hzero ?_
    rw [remoteFillPagesPerWindow_eq, h, Nat.zero_mul]
  rw [← hgroups] at hp
  rw [or_iff_right hzero, remoteFillPagesPerWindow_eq, ← hgroups]
  refine (validateSlices_iff (hgroups ▸ hk) hsorted hp).trans ?_
  rw [hgroups]
  constructor
  · rintro ⟨hgap, hsame⟩
    refine ⟨fun i hi hmod => ?_, fun x hx y hy hxy => ?_⟩
    · have hi' : i + 1 < (chunksOf pages).length := by
        rw [chunksOf_eq hmem, length_map]
        exact hi
      have hnext := hgap i hi' hmod
      simp only [chunksOf_eq hmem, getElem_map] at hnext
      omega
    · have hx' := (hmem _).2 ⟨x, hx, rfl⟩
      have hy' := (hmem _).2 ⟨y, hy, rfl⟩
      have hpage := hsame _ hx' _ hy' (congrArg Int.ofNat hxy)
      exact (sameWindowIdentity_controlPage hkeys (mem_map_of_mem hx)
        (mem_map_of_mem hy) ..).1 hpage
  · intro hfits
    refine ⟨fun i hi hmod => ?_, fun x hx y hy hxy => ?_⟩
    · simp only [chunksOf_eq hmem, getElem_map]
      have hi' : i + 1 < (batch.chunks cfg).length := by
        rw [chunksOf_eq hmem, length_map] at hi
        exact hi
      have := hfits.consecutive i hi' hmod
      omega
    · obtain ⟨e, he, rfl⟩ := (hmem x).1 hx
      obtain ⟨e', he', rfl⟩ := (hmem y).1 hy
      have hchunk : e.2.2.1 / cfg.chunkSize = e'.2.2.1 / cfg.chunkSize := Int.ofNat_inj.1 hxy
      exact (sameWindowIdentity_controlPage hkeys (mem_map_of_mem he)
        (mem_map_of_mem he') ..).2 (hfits.agree e he e' he' hchunk)

/-- Pages of the items of one plan whose ends are above a bound of their group and at most `hi`. -/
structure FromPlan (cfg : ProducerConfig H) (chunkSize : Nat) (ids : List (Nat × Nat × H))
    (lo : Nat → Nat) (hi : Nat) (keys : List (CacheKey H)) (pages : List ControlPage) : Prop where
  page : ∀ x ∈ pages, ∃ id ∈ ids, ∃ k ∈ keys, ∃ b, k.chunkHash = id.2.2 ∧
    x = controlPage cfg chunkSize k x.kvGroup (id.1, id.2.1) b ∧ lo x.kvGroup < id.2.1 ∧ id.2.1 ≤ hi
  all : ∀ id ∈ ids, lo 0 < id.2.1 → id.2.1 ≤ hi →
    ∃ x ∈ pages, x.chunkIndex = (id.1 / chunkSize : Nat)

theorem FromPlan.windows {chunkSize : Nat} {ids : List (Nat × Nat × H)} {lo : Nat → Nat} {hi : Nat}
    {pages : List ControlPage} (h : FromPlan cfg chunkSize ids lo hi keys pages)
    (hids : Contiguous chunkSize ids) (hpos : 0 < chunkSize) (hkeys : RoundTrips cfg parse keys)
    (hgroups : dcfg.directGroups = cfg.directGroups) (hsorted : pages.Pairwise PageLe)
    (hp : Paired cfg.directGroups pages) :
    ∀ w ∈ controlWindows cfg pages, WindowPasses dcfg parse w := by
  have hzero : 0 ∈ dcfg.directGroups := by
    rcases dcfg.directGroups_valid with h | h <;> rw [h] <;> decide
  rw [← hgroups] at hp
  unfold controlWindows
  rw [remoteFillPagesPerWindow_eq, ← hgroups]
  rcases Nat.eq_zero_or_pos (remoteFillPagesPerWindow cfg / dcfg.directGroups.length) with hk | hk
  · rw [hk, Nat.zero_mul]
    intro w hw
    simp [slices] at hw
  refine (validateSlices_iff hk hsorted hp).2 ⟨?_, fun x hx y hy hxy => ?_⟩
  · have hchain : (chunksOf pages).IsChain fun a b => b = a + 1 := by
      refine isChain_succ_of_convex (chunksOf_pairwise pages) fun a ha b hb m h1 h2 => ?_
      -- the pages of group 0 in the chunks on both sides
      obtain ⟨x, hx, hxa⟩ := mem_chunksOf.1 ha
      obtain ⟨x', hx', hxa', hx0⟩ := hp.complete x hx 0 hzero
      obtain ⟨id, hid, k, -, bytes, -, hpage, hlo, hhi⟩ := h.page x' hx'
      obtain ⟨y, hy, hyb⟩ := mem_chunksOf.1 hb
      obtain ⟨y', hy', hyb', hy0⟩ := hp.complete y hy 0 hzero
      obtain ⟨id', hid', k', -, bytes', -, hpage', -, hhi'⟩ := h.page y' hy'
      have hca : x'.chunkIndex = (id.1 / chunkSize : Nat) := congrArg ControlPage.chunkIndex hpage
      have hcb : y'.chunkIndex = (id'.1 / chunkSize : Nat) :=
        congrArg ControlPage.chunkIndex hpage'
      have hna : 0 ≤ x'.chunkIndex := hca ▸ Int.natCast_nonneg _
      have hnb : 0 ≤ y'.chunkIndex := hcb ▸ Int.natCast_nonneg _
      obtain ⟨z, hz, hzm, hz1, hz2⟩ := hids.between hpos hid hid' (m := m.toNat) (by omega)
        (by omega)
      rw [hx0] at hlo
      obtain ⟨u, hu, hum⟩ := h.all z hz (by omega) (by omega)
      exact mem_chunksOf.2 ⟨u, hu, by omega⟩
    intro i hi _
    exact hchain.getElem i hi
  · obtain ⟨id, hid, k, hk1, b, hhash, hpage, -⟩ := h.page x hx
    obtain ⟨id', hid', k', hk2, b', hhash', hpage', -⟩ := h.page y hy
    have hca : x.chunkIndex = (id.1 / chunkSize : Nat) := congrArg ControlPage.chunkIndex hpage
    have hcb : y.chunkIndex = (id'.1 / chunkSize : Nat) := congrArg ControlPage.chunkIndex hpage'
    have heq := hids.unique hpos hid hid' (by omega)
    rw [hpage, hpage']
    refine (sameWindowIdentity_controlPage hkeys hk1 hk2 ..).2 ⟨by rw [heq], ?_⟩
    rw [hhash, hhash', heq]

variable {probeStart probeEnd : Nat}

theorem mem_probeItems {g : Nat} {x : PlanItem H} :
    (g, x) ∈ probeItems cfg plans probeStart probeEnd ↔ g ∈ cfg.directGroups ∧
      x ∈ (plans.get? g).getD [] ∧ probeStart < x.stop ∧ x.stop ≤ probeEnd := by
  unfold probeItems
  simp [mem_flatMap, and_assoc]

theorem remoteFillProbeControlPages_ok {pages : List ControlPage}
    (h : remoteFillProbeControlPages cfg plans probeStart probeEnd = .ok pages) :
    pages = [] ∨ pages.Pairwise PageLe ∧ Paired cfg.directGroups pages ∧
      ∀ x, x ∈ pages ↔ ∃ e ∈ probeItems cfg plans probeStart probeEnd,
        x = controlPage cfg cfg.layoutChunkSize e.2.key e.1 (e.2.start, e.2.stop)
          (cfg.expectedBytes e.1 (e.2.stop - e.2.start)) := by
  unfold remoteFillProbeControlPages at h
  simp only at h
  split at h
  · cases h
    exact .inl rfl
  split at h
  · cases h
  · next hpairs =>
    cases h
    refine .inr ⟨sortPages_pairwise _, validatePagePairs_ok hpairs, fun x => ?_⟩
    rw [mem_sortPages, mem_map]
    simp only [eq_comm]

theorem probe_windows {pages : List ControlPage}
    (hplans : PlansAgree cfg.layoutChunkSize cfg.directGroups plans)
    (hpos : 0 < cfg.layoutChunkSize) (hgroups : dcfg.directGroups = cfg.directGroups)
    (hkeys : RoundTrips cfg parse ((probeItems cfg plans probeStart probeEnd).map fun x => x.2.key))
    (h : remoteFillProbeControlPages cfg plans probeStart probeEnd = .ok pages) :
    ∀ w ∈ controlWindows cfg pages, WindowPasses dcfg parse w := by
  obtain ⟨ids, hids, hagree⟩ := hplans
  rcases remoteFillProbeControlPages_ok h with rfl | ⟨hsorted, hp, hmem⟩
  · intro w hw
    rw [controlWindows, slices_nil] at hw
    cases hw
  have hfrom : FromPlan cfg cfg.layoutChunkSize ids (fun _ => probeStart) probeEnd
      ((probeItems cfg plans probeStart probeEnd).map fun x => x.2.key) pages := by
    refine ⟨fun x hx => ?_, fun id hid h1 h2 => ?_⟩
    · obtain ⟨⟨g, e⟩, he, rfl⟩ := (hmem x).1 hx
      obtain ⟨hg, hitem, h1, h2⟩ := mem_probeItems.1 he
      exact ⟨e.identity, hagree g hg ▸ mem_map_of_mem hitem, e.key,
        mem_map.2 ⟨_, he, rfl⟩, _, rfl, rfl, h1, h2⟩
    · have hzero := cfg.zero_mem
      rw [← hagree 0 hzero] at hid
      obtain ⟨e, he, rfl⟩ := mem_map.1 hid
      exact ⟨_, (hmem _).2 ⟨_, mem_probeItems.2 ⟨hzero, he, h1, h2⟩, rfl⟩, rfl⟩
  exact hfrom.windows hids hpos hkeys hgroups hsorted hp

end

end DirectStore
