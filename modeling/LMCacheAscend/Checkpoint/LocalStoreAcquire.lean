import LMCacheAscend.Checkpoint.AcquireCovers
import LMCacheAscend.Checkpoint.LocalStore
import LMCacheAscend.Checkpoint.Worker

/-!
# What an acquire of a local checkpoint holds

`Holds s l`: each page reference taken was dropped, except one for each entry of
`l`.  The loop over a group covers what it walks (`acquireSources_spec`), so an
acquire holds, for both groups, pages that cover the range from the prefix to the
common end.  That end is within the requested one exactly if the prefix is.
-/

namespace LocalStore

open Lib Checkpoint List

variable {κ α β : Type} {env : Engine κ} {s s' : StoreState κ α} {l m : List Page}

/-! ## References -/

def Holds (s : StoreState κ α) (l : List Page) : Prop := s.refs.Holds l

theorem Holds.of_times (h : Holds s l) (hm : ∀ x, times m x = times l x) : Holds s m :=
  h.congr hm

theorem Holds.of_refs (h : Holds s l) (hr : s'.refs = s.refs) : Holds s' l := by
  unfold Holds
  rw [hr]
  exact h

/-- The cache hands over as many pages as it says, and no more than it was asked for. -/
structure Engine.Lawful (env : Engine κ) : Prop where
  count : ∀ {n keys pages count}, env.pagePrefix n keys = .ok (pages, count) → pages.length = count
  le : ∀ {n keys pages count}, env.pagePrefix n keys = .ok (pages, count) → count ≤ keys.length

/-- One more call was made. -/
def StoreState.called (s : StoreState κ α) : StoreState κ α := { s with calls := s.calls + 1 }

def StoreState.took (s : StoreState κ α) (pages : List Page) : StoreState κ α :=
  { s with refs := s.refs.take pages }

def StoreState.dropped (s : StoreState κ α) (pages : List Page) : StoreState κ α :=
  { s with refs := s.refs.give pages }

@[simp] theorem groups_dropped (s : StoreState κ α) (pages : List Page) :
    (s.dropped pages).groups = s.groups := rfl

theorem wp_ask {f : Nat → Except PyError β} {Q : Except StoreError β → StoreState κ α → Prop} :
    wp (ask f) Q s ↔ (∀ e, f s.calls = .error e → Q (.error (.raised e)) s.called) ∧
      ∀ b, f s.calls = .ok b → Q (.ok b) s.called := by
  unfold ask
  simp only [wp_bind, wp_get, post_ok, wp_modify]
  cases f s.calls with
  | error e =>
    refine ⟨fun h => ⟨fun e' he => ?_, by simp⟩, fun h => h.1 e rfl⟩
    cases he
    exact h
  | ok b =>
    refine ⟨fun h => ⟨by simp, fun b' hb => ?_⟩, fun h => h.2 b rfl⟩
    cases hb
    exact h

@[simp] theorem wp_takeRefs {pages : List Page} {Q : Except StoreError Unit → StoreState κ α → Prop} :
    wp (takeRefs pages) Q s ↔ Q (.ok ()) (s.took pages) := Iff.rfl

@[simp] theorem wp_dropRefs {pages : List Page} {Q : Except StoreError Unit → StoreState κ α → Prop} :
    wp (dropRefs pages) Q s ↔ Q (.ok ()) (s.dropped pages) := Iff.rfl

theorem Holds.called (h : Holds s l) : Holds s.called l := h

theorem Holds.took (h : Holds s l) (pages : List Page) : Holds (s.took pages) (l ++ pages) :=
  Ledger.Holds.take h pages

theorem Holds.dropped {pages : List Page} (h : Holds s (l ++ pages)) : Holds (s.dropped pages) l :=
  Ledger.Holds.give h

/-- Nothing but the references, the counter and the groups changed. -/
structure Quiet (s s' : StoreState κ α) : Prop where
  data : s'.data = s.data
  reclaimed : s'.reclaimed = s.reclaimed
  covered : s'.covered = s.covered
  owners : s'.owners = s.owners
  published : s'.published = s.published

theorem Quiet.refl (s : StoreState κ α) : Quiet s s := ⟨rfl, rfl, rfl, rfl, rfl⟩

theorem Quiet.called (h : Quiet s s') : Quiet s s'.called :=
  ⟨h.data, h.reclaimed, h.covered, h.owners, h.published⟩

theorem Quiet.took (h : Quiet s s') (pages : List Page) : Quiet s (s'.took pages) :=
  ⟨h.data, h.reclaimed, h.covered, h.owners, h.published⟩

theorem Quiet.dropped (h : Quiet s s') (pages : List Page) : Quiet s (s'.dropped pages) :=
  ⟨h.data, h.reclaimed, h.covered, h.owners, h.published⟩

theorem Quiet.trans {s1 s2 s3 : StoreState κ α} (h : Quiet s1 s2) (h' : Quiet s2 s3) :
    Quiet s1 s3 :=
  ⟨h'.data.trans h.data, h'.reclaimed.trans h.reclaimed, h'.covered.trans h.covered,
    h'.owners.trans h.owners, h'.published.trans h.published⟩

/-! ## The loop over a group -/

theorem getPage_spec (hlaw : env.Lawful) (group : Nat) (source : CheckpointPage κ) (h : Holds s l) :
    wp (getPage env group source) (post
      (fun r s' => (Quiet s s' ∧ s'.groups = s.groups) ∧ Holds s' (l ++ r.toList))
      fun _ s' => (Quiet s s' ∧ s'.groups = s.groups) ∧ Holds s' l) s := by
  have hs : Quiet s s.called := (Quiet.refl s).called
  unfold getPage
  rw [wp_bind, wp_ask]
  refine ⟨fun e _ => ⟨⟨hs, rfl⟩, h.called⟩, fun r hr => ?_⟩
  obtain ⟨pages, count⟩ := r
  have hlen := hlaw.count hr
  have hle := hlaw.le hr
  simp only [post_ok, wp_bind, wp_takeRefs]
  have h1 := h.called.took pages
  have hs1 := hs.took pages
  by_cases hcount : count = 0
  · have hnil : pages = [] := length_eq_zero_iff.1 (hlen.trans hcount)
    subst hnil
    rw [if_pos hcount]
    exact ⟨⟨hs1, rfl⟩, h1⟩
  rw [if_neg hcount]
  rw [length_singleton] at hle
  obtain ⟨page, rfl⟩ : ∃ page, pages = [page] := length_eq_one_iff.1 (by omega)
  simp only [wp_tryCatch, wp_bind]
  rw [wp_ask]
  refine ⟨by simp, fun valid _ => ?_⟩
  rw [post_ok, wp_ite]
  split
  · rw [wp_bind, wp_throw, post_error, post_error, wp_bind, wp_dropRefs]
    exact ⟨⟨hs1.called.dropped [page], rfl⟩, h1.called.dropped⟩
  rw [wp_bind, wp_ask]
  refine ⟨fun e _ => ?_, fun u _ => ⟨⟨hs1.called.called, rfl⟩, h1⟩⟩
  rw [post_error, post_error, wp_bind, wp_dropRefs]
  exact ⟨⟨hs1.called.called.dropped [page], rfl⟩, h1.called.called.dropped⟩

def ranges (new : Held κ) : List (Int × Int) := new.map fun h => (h.1.start, h.1.end_)

/-- `new` joined the list of a group. -/
structure Grown (group : Nat) (s s' : StoreState κ α) (new : Held κ) : Prop where
  quiet : Quiet s s'
  groups : s'.groups = setGroup s.groups group (ofGroup s.groups group ++ new)

theorem Grown.nil (group : Nat) (h : Quiet s s') (hg : s'.groups = s.groups) :
    Grown group s s' [] :=
  ⟨h, by rw [hg]; simp⟩

theorem Grown.trans {group : Nat} {s1 s2 s3 : StoreState κ α} {k n : Held κ}
    (h : Grown group s1 s2 k) (h' : Grown group s2 s3 n) : Grown group s1 s3 (k ++ n) :=
  ⟨h.quiet.trans h'.quiet, by rw [h'.groups, h.groups]; simp⟩

theorem heldPages_append (k n : Held κ) : heldPages (k ++ n) = heldPages k ++ heldPages n :=
  map_append

/-- What the loop over a group leaves: the new pages cover the way to the cursor. -/
structure Walked (sources : List (CheckpointPage κ)) (cursor end_ c : Int) (new : Held κ) :
    Prop where
  covers : Covers (ranges new) cursor c
  sources : (new.map Prod.fst).Sublist sources
  le : cursor ≤ c
  within : cursor ≤ end_ → c ≤ end_
  none : end_ ≤ cursor → c = cursor ∧ new = []

theorem Walked.nil (sources : List (CheckpointPage κ)) (cursor end_ : Int) :
    Walked sources cursor end_ cursor [] :=
  ⟨Int.le_refl cursor, nil_sublist _, Int.le_refl _, id, fun _ => ⟨rfl, rfl⟩⟩

/-- The sources from the cursor on, each retained page with a reference. -/
theorem acquireSources_spec (hlaw : env.Lawful) (group : Nat) (end_ : Int)
    (sources : List (CheckpointPage κ)) (cursor : Int) (h : Holds s l) :
    wp (acquireSources env group end_ sources cursor) (post
      (fun c s' => ∃ new, Grown group s s' new ∧ Holds s' (l ++ heldPages new) ∧
        Walked sources cursor end_ c new)
      fun _ s' => cursor < end_ ∧ ∃ new, Grown group s s' new ∧ Holds s' (l ++ heldPages new)) s := by
  induction sources generalizing cursor s l with
  | nil =>
    have hl : Holds s (l ++ heldPages ([] : Held κ)) := by
      show Holds s (l ++ [])
      rwa [append_nil]
    exact ⟨[], .nil group (Quiet.refl s) rfl, hl, .nil _ _ _⟩
  | cons source rest ih =>
    have hl : ∀ {t : StoreState κ α}, Holds t l → Holds t (l ++ heldPages ([] : Held κ)) := by
      intro t ht
      show Holds t (l ++ [])
      rwa [append_nil]
    unfold acquireSources
    split
    · refine wp_ok (ih cursor h) fun c s1 h1 => ?_
      obtain ⟨new, hg, hh, hw⟩ := h1
      exact ⟨new, hg, hh, hw.covers, hw.sources.trans (sublist_cons_self _ _), hw.le,
        hw.within, hw.none⟩
    · next hpast =>
      split
      · exact ⟨[], .nil group (Quiet.refl s) rfl, hl h, .nil _ _ _⟩
      · next hstop =>
        have hlt : cursor < end_ := by omega
        refine wp_bind_of (getPage_spec hlaw group source h)
          (fun _ _ ⟨⟨hs1, hg1⟩, h1⟩ => ⟨hlt, [], .nil group hs1 hg1, hl h1⟩) ?_
        rintro r s1 ⟨⟨hs1, hg1⟩, h1⟩
        cases r with
        | none =>
          rw [Option.toList_none, append_nil] at h1
          exact ⟨[], .nil group hs1 hg1, hl h1, .nil _ _ _⟩
        | some page =>
          simp only [post_ok, wp_bind, wp_modify]
          have hone : Grown group s { s1 with
              groups := setGroup s1.groups group (ofGroup s1.groups group ++ [(source, page)]) }
              [(source, page)] := by
            refine ⟨⟨hs1.data, hs1.reclaimed, hs1.covered, hs1.owners, hs1.published⟩, ?_⟩
            show setGroup s1.groups group _ = _
            rw [hg1]
          refine wp_mono (ih (min source.end_ end_) (Holds.of_refs h1 rfl)) ?_
          rintro (e | c) s2 h2
          · obtain ⟨-, new, hg, hh⟩ := h2
            refine ⟨hlt, _, hone.trans hg, ?_⟩
            rw [heldPages_append, ← append_assoc]
            exact hh
          · obtain ⟨new, hg, hh, hw⟩ := h2
            refine ⟨_, hone.trans hg, ?_, ?_⟩
            · rw [heldPages_append, ← append_assoc]
              exact hh
            · have hle := hw.le
              have hwithin := hw.within (Int.min_le_right _ _)
              refine ⟨⟨?_, hw.covers.mono ?_ (Int.le_refl c)⟩, hw.sources.cons_cons source, ?_,
                fun _ => hwithin, ?_⟩
              · show source.start ≤ cursor
                omega
              · show min source.end_ end_ ≤ max cursor source.end_
                omega
              · omega
              · intro hend
                omega

/-! ## Both groups -/

/-- A manifest as it is published: both groups in token order, the prefix within the tokens. -/
structure Published (m : LocalCheckpoint κ) : Prop where
  sorted0 : m.groups.1.Pairwise fun p q => p.start ≤ q.start
  sorted1 : m.groups.2.Pairwise fun p q => p.start ≤ q.start
  prefix_le : m.prefixEnd ≤ m.tokens.length

/-- The store thread publishes such manifests: a seal is refused unless it passes the prefix. -/
theorem sealedManifest_published {cfg : WorkerConfig κ} {job : CaptureJob κ} {tokens : List Int}
    (h : max job.spec.base job.spec.prefixEnd < tokens.length) :
    Published (sealedManifest cfg job tokens) := by
  refine ⟨pairwise_insertionSort _ _, pairwise_insertionSort _ _, ?_⟩
  show job.spec.prefixEnd ≤ tokens.length
  omega

/-- The pages held of one group. -/
structure HeldOk (prefixEnd common : Int) (h : Held κ) : Prop where
  covers : Covers (ranges h) prefixEnd common
  ordered : (h.map Prod.fst).Pairwise fun p q => p.start ≤ q.start
  below : ∀ e ∈ h, e.1.start < common

structure Acquired (m : LocalCheckpoint κ) (end_ : Int) (out : Int × Held κ × Held κ) : Prop where
  le : m.prefixEnd ≤ out.1
  within : out.1 ≤ end_
  first : HeldOk m.prefixEnd out.1 out.2.1
  second : HeldOk m.prefixEnd out.1 out.2.2

theorem below_of_sorted {new : Held κ} (c : Int)
    (h : (new.map Prod.fst).Pairwise fun p q => p.start ≤ q.start) :
    ∀ e ∈ new.rdropWhile fun h => h.1.start ≥ c, e.1.start < c := by
  intro e he
  have hpre := rdropWhile_prefix (fun h : CheckpointPage κ × Page => decide (h.1.start ≥ c))
    (l := new)
  have hsorted := (pairwise_map.1 h).sublist hpre.sublist
  rcases eq_nil_or_concat (new.rdropWhile fun h => h.1.start ≥ c) with hnil | ⟨k, last, hk⟩
  · rw [hnil] at he
    cases he
  have hne : new.rdropWhile (fun h => h.1.start ≥ c) ≠ [] := by
    rw [hk]
    simp
  have hlast := rdropWhile_last_not (fun h => decide (h.1.start ≥ c)) new hne
  simp only [hk, concat_eq_append, getLast_append_singleton, decide_eq_true_eq] at hlast
  rw [hk, concat_eq_append] at he hsorted
  rcases mem_append.1 he with he | he
  · have := (pairwise_append.1 hsorted).2.2 e he last mem_cons_self
    omega
  · rw [mem_singleton.1 he]
    omega

theorem HeldOk.of_walked {sources : List (CheckpointPage κ)} {prefixEnd end_ c d : Int}
    {new : Held κ} (h : Walked sources prefixEnd end_ c new)
    (hsorted : sources.Pairwise fun p q => p.start ≤ q.start) (hd : d ≤ c) :
    HeldOk prefixEnd d (new.rdropWhile fun h => h.1.start ≥ d) := by
  have hnew := hsorted.sublist h.sources
  have hpre := rdropWhile_prefix (fun h : CheckpointPage κ × Page => decide (h.1.start ≥ d))
    (l := new)
  refine ⟨?_, hnew.sublist (hpre.sublist.map Prod.fst), below_of_sorted d hnew⟩
  have hcov := h.covers
  rw [← rdropWhile_append_rtakeWhile (l := new)
    (p := fun h : CheckpointPage κ × Page => decide (h.1.start ≥ d))] at hcov
  unfold ranges at hcov ⊢
  rw [map_append] at hcov
  refine hcov.of_append (fun e he => ?_) hd
  obtain ⟨x, hx, rfl⟩ := mem_map.1 he
  have hlate := mem_rtakeWhile_imp hx
  exact of_decide_eq_true hlate

theorem times_trim (new : Held κ) (q : CheckpointPage κ × Page → Bool) (x : Page) :
    times (heldPages new) x =
      times (heldPages (new.rdropWhile q)) x + times (heldPages (new.rtakeWhile q)) x := by
  rw [← times_append, ← heldPages_append, rdropWhile_append_rtakeWhile]

/-- Both groups end at one common end; a call that raises holds nothing. -/
theorem acquire_spec (hlaw : env.Lawful) {m : LocalCheckpoint κ} (hm : Published m) (end_ : Int)
    (h : Holds s l) :
    wp (acquire env m end_) (post
      (fun out s' => Quiet s s' ∧ Holds s' (l ++ pagesOf out.2) ∧
        (m.prefixEnd ≤ end_ → Acquired m end_ out) ∧
        (end_ ≤ m.prefixEnd → out = (m.prefixEnd, [], [])))
      fun _ s' => m.prefixEnd < end_ ∧ Quiet s s' ∧ Holds s' l) s := by
  unfold acquire
  rw [wp_modify_bind, wp_tryCatch, wp_bind]
  have hstart : Quiet s { s with groups := ([], []) } := ⟨rfl, rfl, rfl, rfl, rfl⟩
  -- the handler gives back what the groups hold
  have hfail : ∀ (e : StoreError) (s' : StoreState κ α), m.prefixEnd < end_ → Quiet s s' →
      Holds s' (l ++ pagesOf s'.groups) →
      wp (do let s ← get; release s.groups; throw e : StoreM κ α (Int × Held κ × Held κ)) (post
        (fun out s' => Quiet s s' ∧ Holds s' (l ++ pagesOf out.2) ∧
          (m.prefixEnd ≤ end_ → Acquired m end_ out) ∧
          (end_ ≤ m.prefixEnd → out = (m.prefixEnd, [], [])))
        fun _ s' => m.prefixEnd < end_ ∧ Quiet s s' ∧ Holds s' l) s' :=
    fun e s' hlt hq hh => ⟨hlt, hq.dropped _, hh.dropped⟩
  refine wp_mono (acquireSources_spec hlaw 0 end_ m.groups.1 m.prefixEnd
    (Holds.of_refs h rfl : Holds { s with groups := ([], []) } l)) ?_
  rintro (e | e0) s1 h1
  · obtain ⟨hlt, new0, hg0, hh0⟩ := h1
    refine hfail e s1 hlt (hstart.trans hg0.quiet) (hh0.of_times fun x => ?_)
    rw [hg0.groups]
    simp [setGroup, ofGroup, pagesOf, heldPages, times_append]
  obtain ⟨new0, hg0, hh0, hw0⟩ := h1
  rw [post_ok, wp_bind]
  refine wp_mono (acquireSources_spec hlaw 1 end_ m.groups.2 m.prefixEnd hh0) ?_
  have hgroups : ∀ {t : StoreState κ α} {new1 : Held κ}, Grown 1 s1 t new1 →
      t.groups = (new0, new1) := by
    intro t new1 hg1
    rw [hg1.groups, hg0.groups]
    simp [setGroup, ofGroup]
  rintro (e | e1) s2 h2
  · obtain ⟨hlt, new1, hg1, hh1⟩ := h2
    refine hfail e s2 hlt ((hstart.trans hg0.quiet).trans hg1.quiet) (hh1.of_times fun x => ?_)
    rw [hgroups hg1]
    simp only [pagesOf, times_append]
    omega
  obtain ⟨new1, hg1, hh1, hw1⟩ := h2
  have hquiet := (hstart.trans hg0.quiet).trans hg1.quiet
  have hg2 := hgroups hg1
  simp only [post_ok, trim, wp_bind, wp_get, wp_dropRefs, wp_modify, wp_pure, groups_dropped, hg2]
  have hle0 := hw0.le
  have hle1 := hw1.le
  refine ⟨⟨hquiet.data, hquiet.reclaimed, hquiet.covered, hquiet.owners, hquiet.published⟩, ?_,
    fun hend => ?_, fun hend => ?_⟩
  · refine Holds.dropped (hh1.of_times fun x => ?_)
    have h0 := times_trim new0 (fun h => h.1.start ≥ min e0 e1) x
    have h1 := times_trim new1 (fun h => h.1.start ≥ min e0 e1) x
    simp only [pagesOf, times_append]
    omega
  · have hin0 := hw0.within hend
    refine ⟨?_, ?_, .of_walked hw0 hm.sorted0 (Int.min_le_left _ _),
      .of_walked hw1 hm.sorted1 (Int.min_le_right _ _)⟩
    · show m.prefixEnd ≤ min e0 e1
      omega
    · show min e0 e1 ≤ end_
      omega
  · obtain ⟨he0, rfl⟩ := hw0.none hend
    obtain ⟨he1, rfl⟩ := hw1.none hend
    rw [he0, he1, Int.min_self]
    rfl

theorem available_spec (hlaw : env.Lawful) {m : LocalCheckpoint κ} (hm : Published m) (end_ : Int)
    (h : Holds s l) :
    wp (available env (some m) end_) (post
      (fun c s' => Holds s' l ∧ (m.prefixEnd ≤ end_ → m.prefixEnd ≤ c ∧ c ≤ end_) ∧
        (end_ ≤ m.prefixEnd → c = m.prefixEnd))
      fun _ s' => m.prefixEnd < end_ ∧ Holds s' l) s := by
  have hprefix := hm.prefix_le
  unfold available
  simp only [wp_bind]
  refine wp_mono (acquire_spec hlaw hm _ h) ?_
  rintro (e | ⟨c, groups⟩) s1 h1
  · obtain ⟨hlt, -, hh⟩ := h1
    exact ⟨by omega, hh⟩
  obtain ⟨-, hh, hin, hshort⟩ := h1
  simp only [post_ok, release, wp_bind, wp_dropRefs, wp_pure]
  refine ⟨hh.dropped, fun hend => ?_, fun hend => ?_⟩
  · have hacq := hin (by omega)
    have hle : m.prefixEnd ≤ c := hacq.le
    have hwithin : c ≤ min end_ m.tokens.length := hacq.within
    omega
  · exact congrArg Prod.fst (hshort (by omega))

/-- **An acquire stays within what is asked for exactly if the prefix does.**  Its cursor starts at
the prefix, so a request that ends before the prefix gets the prefix as its common end. -/
theorem acquire_within_iff (hlaw : env.Lawful) {m : LocalCheckpoint κ} (hm : Published m)
    (end_ : Int) (h : Holds s l) :
    (wp (acquire env m end_) (post
        (fun out s' => Acquired m end_ out ∧ Holds s' (l ++ pagesOf out.2)) fun _ s' => Holds s' l) s ↔
      m.prefixEnd ≤ end_) ∧
    (wp (available env (some m) end_) (post (fun c s' => c ≤ end_ ∧ Holds s' l)
        fun _ s' => Holds s' l) s ↔ m.prefixEnd ≤ end_) ∧
    (wp (available env none end_) (post (fun c s' => c ≤ end_ ∧ Holds s' l)
        fun _ s' => Holds s' l) s ↔ 0 ≤ end_) := by
  refine ⟨⟨fun hok => ?_, fun hend => ?_⟩, ⟨fun hok => ?_, fun hend => ?_⟩,
    ⟨fun hok => hok.1, fun hend => ⟨hend, h⟩⟩⟩
  · by_contra hlt
    have hall := acquire_spec hlaw hm end_ h
    unfold wp at hok hall
    rcases hr : (acquire env m end_ s).1 with e | out
    · rw [hr] at hall
      have := hall.1
      omega
    · rw [hr] at hall hok
      have hwithin := hok.1.within
      rw [hall.2.2.2 (by omega)] at hwithin
      have hwithin : m.prefixEnd ≤ end_ := hwithin
      omega
  · refine wp_cases (acquire_spec hlaw hm end_ h) (fun _ _ h1 => h1.2.2) fun out s1 h1 => ?_
    exact ⟨h1.2.2.1 hend, h1.2.1⟩
  · by_contra hlt
    have hall := available_spec hlaw hm end_ h
    unfold wp at hok hall
    rcases hr : (available env (some m) end_ s).1 with e | c
    · rw [hr] at hall
      have := hall.1
      omega
    · rw [hr] at hall hok
      have hc := hall.2.2 (by omega)
      have hwithin : c ≤ end_ := hok.1
      omega
  · refine wp_cases (available_spec hlaw hm end_ h) (fun _ _ h1 => h1.2) fun c s1 h1 => ?_
    exact ⟨(h1.2.1 hend).2, h1.1⟩

/-- An engine whose cache is empty. -/
def Engine.idle : Engine Nat where
  chunkSize := 4
  chunkSize_pos := by decide
  numLayers _ := 1
  validTokens _ := 4
  isValid _ _ := true
  validate _ _ _ := .ok ()
  pagePrefix _ _ := .ok ([], 0)
  cached _ _ _ _ := .ok none
  loadPrefix _ _ _ := .error (.exception "no prefix")
  allocate _ _ _ := .error (.memoryError "no page")
  reclaim _ _ _ := .ok false
  tokenResults _ _ _ _ := ([], none)
  submit _ _ _ := .ok ()
  isCheckpointPageKey _ := true
  remove _ _ := .ok ()
  stillListed _ := true

def StoreState.idle : StoreState Nat Nat :=
  { calls := 0, refs := .empty, data := fun _ _ => [], groups := ([], []), reclaimed := false,
    covered := 0, owners := [], published := [] }

/-- Eight tokens, of which five are an uploaded prefix. -/
def prefixedManifest : LocalCheckpoint Nat :=
  { tokens := [1, 2, 3, 4, 5, 6, 7, 8], prefixEnd := 5, groups := ([⟨5, 8, 0⟩], [⟨4, 8, 1⟩]),
    identity := none, retentionId := none }

theorem prefixedManifest_published : Published prefixedManifest :=
  ⟨by decide, by decide, by decide⟩

/-- Each key has a page; the prefix page is 2, and each call allocates another page. -/
def Engine.stocked : Engine Nat :=
  { Engine.idle with
    pagePrefix := fun _ keys => .ok (keys.map (· + 10), keys.length)
    loadPrefix := fun _ _ _ => .ok 2
    allocate := fun n _ _ => .ok (200 + n, .shared [1])
    tokenResults := fun _ tokens group base => ([(base, tokens.length, 90 + group)], none) }

theorem Engine.stocked_lawful : Engine.stocked.Lawful := by
  constructor
  · intro n keys pages count h
    cases h
    exact length_map _
  · intro n keys pages count h
    cases h
    exact Nat.le_refl _

/-- Both groups hand over their page, up to the sixth token. -/
theorem acquire_within_iff_prefixed :
    (acquire Engine.stocked prefixedManifest 6 StoreState.idle).1 =
      .ok (6, [(⟨5, 8, 0⟩, 10)], [(⟨4, 8, 1⟩, 11)]) ∧
    wp (acquire Engine.stocked prefixedManifest 6) (post
      (fun out s' => Acquired prefixedManifest 6 out ∧ Holds s' ([] ++ pagesOf out.2))
      fun _ s' => Holds s' []) StoreState.idle ∧
    wp (available Engine.stocked (some prefixedManifest) 6) (post
      (fun c s' => c ≤ 6 ∧ Holds s' []) fun _ s' => Holds s' []) StoreState.idle := by
  have hnone : Holds StoreState.idle [] := fun _ => rfl
  obtain ⟨hacquire, havailable, -⟩ :=
    acquire_within_iff Engine.stocked_lawful prefixedManifest_published 6 hnone
  exact ⟨by decide, hacquire.2 (by decide), havailable.2 (by decide)⟩

/-- A request for three tokens gets five. -/
theorem acquire_past_request :
    (acquire Engine.idle prefixedManifest 3 StoreState.idle).1 = .ok (5, [], []) ∧
      (available Engine.idle (some prefixedManifest) 3 StoreState.idle).1 = .ok 5 := by
  decide

end LocalStore
