import LMCacheAscend.Checkpoint.Worker

/-!
# What a capture leaves behind

`Sound spec extra s`: every reference the capture took is given back, owned by the
job, in the candidate of the current window, or one of `extra`.  Both loops keep
`Kept`, which adds that the fragments of each group tile their range up to the
cursor inside chunks; every exception leaves `Sound`.
-/

namespace Checkpoint

open Lib List Dict

variable {κ : Type} {env : CaptureEnv κ} {chunkSize blockSize : Nat} {spec : CaptureSpec}
  {s : CaptureState κ}

/-! ## Engine calls -/

@[simp] theorem wp_call {α : Type} (f : Nat → Except PyError α)
    (Q : Except PyError α → CaptureState κ → Prop) :
    wp (call f) Q s ↔ Q (f s.calls) { s with calls := s.calls + 1 } := by
  unfold call
  simp only [wp_bind, wp_get, post_ok, wp_modify]
  cases f s.calls <;> rfl

@[simp] theorem wp_check (c : Prop) [Decidable c] (e : PyError)
    (Q : Except PyError Unit → CaptureState κ → Prop) :
    wp (check c e) Q s ↔ Q (if c then .ok () else .error e) s := by
  unfold check
  split <;> rfl

/-! ## References -/

def candidatePages (s : CaptureState κ) : List Page := s.candidate.map (·.2.page)

/-- Every reference taken is accounted for, and the job is not yet in use. -/
structure Sound (spec : CaptureSpec) (extra : List Page) (s : CaptureState κ) : Prop where
  held : ∀ p, s.taken.count p =
    s.released.count p + s.job.pages.count p + (candidatePages s).count p + extra.count p
  reclaims : s.reclaims = s.reclaimed.toNat
  fresh : s.job.spec = spec ∧ s.job.quarantined = false ∧ s.job.cancelled = false ∧
    s.job.future = none

theorem Sound.of_eq {extra : List Page} {s' : CaptureState κ} (h : Sound spec extra s)
    (hj : s'.job = s.job) (hc : s'.candidate = s.candidate) (ht : s'.taken = s.taken)
    (hr : s'.released = s.released) (hn : s'.reclaims = s.reclaims)
    (hb : s'.reclaimed = s.reclaimed) : Sound spec extra s' := by
  refine ⟨?_, ?_, ?_⟩
  · intro p
    unfold candidatePages
    rw [hj, hc, ht, hr]
    exact h.held p
  · rw [hn, hb]
    exact h.reclaims
  · rw [hj]
    exact h.fresh

theorem Sound.calls {extra : List Page} (h : Sound spec extra s) (n : Nat) :
    Sound spec extra { s with calls := n } :=
  h.of_eq rfl rfl rfl rfl rfl rfl

theorem CaptureJob.pages_count (job : CaptureJob κ) (p : Page) :
    job.pages.count p = job.fragments.weigh (fun e => (e.2.map Fragment.page).count p) +
      job.prefixOwners.count p := by
  unfold CaptureJob.pages Dict.weigh
  rw [count_append, count_flatMap]
  rfl

theorem Sound.releaseCandidate (h : Sound spec [] s) :
    Sound spec [] s.releaseCandidate ∧ s.releaseCandidate.candidate = [] ∧
      s.releaseCandidate.job = s.job := by
  refine ⟨⟨fun p => ?_, h.reclaims, h.fresh⟩, rfl, rfl⟩
  have := h.held p
  simp only [CaptureState.releaseCandidate, candidatePages, count_append, map_nil,
    count_nil] at this ⊢
  omega

/-! ## Committing a window -/

variable (d : Dict Nat (List Fragment)) {end_ : Int}

variable (e : Nat × Fragment)

/-- `d.setdefault(group, []).append(fragment)`. -/
def addFragment : Dict Nat (List Fragment) :=
  d.set e.1 ((d.get? e.1).getD [] ++ [e.2])

theorem addFragment_get? (g : Nat) :
    ((addFragment d e).get? g).getD [] =
      (d.get? g).getD [] ++ if g = e.1 then [e.2] else [] := by
  unfold addFragment
  rw [get?_set]
  split
  · next h => simp [h]
  · simp

theorem addFragment_weigh (p : Page) :
    (addFragment d e).weigh (fun e => (e.2.map Fragment.page).count p) =
      d.weigh (fun e => (e.2.map Fragment.page).count p) + [e.2.page].count p := by
  unfold addFragment
  cases hg : d.get? e.1 with
  | none =>
    rw [weigh_append _ _ _ (get?_eq_none.1 hg)]
    simp
  | some l =>
    have := weigh_put (f := fun e : Nat × List Fragment => (e.2.map Fragment.page).count p)
      hg (l ++ [e.2])
    simp only [Option.getD_some, map_append, count_append, map_cons,
      map_nil] at this ⊢
    omega

theorem commit_fragmentsOf (s : CaptureState κ) (g : Nat) :
    s.commitCandidate.job.fragmentsOf g =
      s.job.fragmentsOf g ++ (s.candidate.filter (·.1 = g)).map (·.2) := by
  have h : ∀ (l : List (Nat × Fragment)) (d : Dict Nat (List Fragment)),
      ((l.foldl addFragment d).get? g).getD [] =
        (d.get? g).getD [] ++ (l.filter (·.1 = g)).map (·.2) := by
    intro l
    induction l with
    | nil => simp
    | cons e l ih =>
      intro d
      rw [foldl_cons, ih, addFragment_get?]
      by_cases he : e.1 = g
      · simp [he]
      · have : ¬ g = e.1 := fun h => he h.symm
        simp [he, this]
  exact h s.candidate s.job.fragments

theorem Sound.commitCandidate (h : Sound spec [] s) :
    Sound spec [] s.commitCandidate ∧ s.commitCandidate.candidate = [] := by
  have hw : ∀ (p : Page) (l : List (Nat × Fragment)) (d : Dict Nat (List Fragment)),
      (l.foldl addFragment d).weigh (fun e => (e.2.map Fragment.page).count p) =
        d.weigh (fun e => (e.2.map Fragment.page).count p) + (l.map (·.2.page)).count p := by
    intro p l
    induction l with
    | nil => simp
    | cons e l ih =>
      intro d
      rw [foldl_cons, ih, addFragment_weigh, map_cons]
      simp only [count_cons, count_nil]
      omega
  refine ⟨⟨fun p => ?_, h.reclaims, h.fresh⟩, rfl⟩
  have h1 := h.held p
  have h2 := hw p s.candidate s.job.fragments
  rw [CaptureJob.pages_count] at h1 ⊢
  simp only [CaptureState.commitCandidate, candidatePages, map_nil, count_nil] at h1 ⊢
  change _ = _ + ((s.candidate.foldl addFragment s.job.fragments).weigh _ + _) + _ + _
  omega

/-! ## Allocation -/

/-- The job and the candidate of `s'` are those of `s`. -/
def SameWork (s s' : CaptureState κ) : Prop := s'.job = s.job ∧ s'.candidate = s.candidate

variable {group : Nat} {cursor : Int}

theorem allocateFragment_spec {tokens : Int} (h : Sound spec [] s) :
    wp (allocateFragment env chunkSize group tokens)
      (post (fun page s' => Sound spec [page] s' ∧ SameWork s s')
        fun _ s' => Sound spec [] s' ∧ SameWork s s') s := by
  unfold allocateFragment
  rw [wp_bind, wp_check]
  split
  · rw [post_ok, wp_bind, wp_call]
    cases env.allocate s.calls group tokens with
    | error e => exact ⟨h.calls _, rfl, rfl⟩
    | ok page =>
      rw [post_ok, wp_modify_bind, wp_pure, post_ok]
      refine ⟨⟨fun p => ?_, h.reclaims, h.fresh⟩, rfl, rfl⟩
      have := h.held p
      simp only [candidatePages, count_append, count_nil] at this ⊢
      omega
  · exact ⟨h, rfl, rfl⟩

/-- The reclaim is used at most once, and a page comes with its reference. -/
theorem allocateOrReclaim_spec {start : Int} (h : Sound spec [] s) :
    wp (allocateOrReclaim env chunkSize group cursor start end_)
      (post (fun page s' => Sound spec [page] s' ∧ SameWork s s')
        fun _ s' => Sound spec [] s' ∧ SameWork s s') s := by
  unfold allocateOrReclaim
  rw [wp_tryCatch]
  refine wp_mono (allocateFragment_spec h) ?_
  rintro (e | page) s1 ⟨h1, hj1, hc1⟩
  · rw [post_error]
    split
    · rw [wp_get_bind]
      split
      · exact ⟨h1, hj1, hc1⟩
      · next hr =>
        have hr0 : s1.reclaims = 0 := by
          rw [h1.reclaims]
          simp [hr]
        have h2 : Sound spec [] { s1 with reclaimed := true, reclaims := s1.reclaims + 1 } := by
          refine ⟨h1.held, ?_, h1.fresh⟩
          simp [hr0]
        simp only [wp_bind, wp_modify, post_ok, wp_call]
        generalize env.reclaim _ _ _ = freed
        cases freed with
        | error e' => exact ⟨h2.calls _, hj1, hc1⟩
        | ok b =>
          rw [post_ok]
          cases b with
          | false => exact ⟨h2.calls _, hj1, hc1⟩
          | true =>
            refine wp_cases (allocateFragment_spec (h2.calls _))
              (fun _ _ h3 => ⟨h3.1, h3.2.1.trans hj1, h3.2.2.trans hc1⟩) ?_
            rintro page s3 ⟨h3, hj3, hc3⟩
            exact ⟨h3, hj3.trans hj1, hc3.trans hc1⟩
    · exact ⟨h1, hj1, hc1⟩
  · exact ⟨h1, hj1, hc1⟩

/-- Where a group's page of the window `[cursor, end)` starts. -/
def pageStart (spec : CaptureSpec) (cursor : Int) (group : Nat) : Int :=
  if group = 0 then max cursor spec.residentStart else cursor

/-- The page of a group is `[pageStart, end)`, or none. -/
def groupRange (spec : CaptureSpec) (cursor end_ : Int) (group : Nat) : List (Nat × Int × Int) :=
  if pageStart spec cursor group ≥ end_ then [] else [(group, pageStart spec cursor group, end_)]

def candidateRanges (s : CaptureState κ) : List (Nat × Int × Int) :=
  s.candidate.map fun e => (e.1, e.2.range)

theorem allocateGroup_spec (h : Sound spec [] s) :
    wp (allocateGroup env chunkSize spec cursor end_ group)
      (post (fun _ s' => Sound spec [] s' ∧ s'.job = s.job ∧
          candidateRanges s' = candidateRanges s ++ groupRange spec cursor end_ group)
        fun _ s' => Sound spec [] s' ∧ s'.job = s.job) s := by
  unfold allocateGroup
  change wp (if pageStart spec cursor group ≥ end_ then _ else _) _ s
  unfold groupRange
  split
  · exact ⟨h, rfl, (append_nil _).symm⟩
  refine wp_bind_of (allocateOrReclaim_spec h) (fun _ _ ⟨h1, hj1, hc1⟩ => ⟨h1, hj1⟩)
    fun page s1 ⟨h1, hj1, hc1⟩ => ?_
  rw [wp_modify, post_ok]
  refine ⟨⟨fun p => ?_, h1.reclaims, h1.fresh⟩, hj1, ?_⟩
  · have := h1.held p
    simp only [candidatePages, map_append, map_cons, map_nil,
      count_append, count_nil] at this ⊢
    omega
  · simp [candidateRanges, hc1, Fragment.range, pageStart]

/-! ## The loops -/

/-- At `cursor`: the fragments tile the range of each group, inside chunks. -/
structure Kept (spec : CaptureSpec) (chunkSize : Nat) (cursor : Int) (s : CaptureState κ) :
    Prop where
  sound : Sound spec [] s
  idle : s.candidate = []
  tiles0 : Tiles ((s.job.fragmentsOf 0).map Fragment.range)
    (max spec.base spec.residentStart) cursor
  tiles1 : Tiles ((s.job.fragmentsOf 1).map Fragment.range) spec.base cursor
  inChunk : ∀ g, ∀ f ∈ s.job.fragmentsOf g, f.start / chunkSize = (f.end_ - 1) / chunkSize

theorem windowEnd_inChunk {a b : Int} (hc : chunkSize ≠ 0) (ha : cursor ≤ a) (hab : a < b)
    (hb : b ≤ windowEnd chunkSize spec cursor) : a / chunkSize = (b - 1) / chunkSize := by
  have hpos : (0 : Int) < chunkSize := by omega
  have hb' : b ≤ (cursor / chunkSize + 1) * chunkSize := by
    unfold windowEnd at hb
    omega
  have h1 : cursor / chunkSize ≤ a / chunkSize := Int.ediv_le_ediv hpos ha
  have h2 : a / chunkSize ≤ (b - 1) / chunkSize := Int.ediv_le_ediv hpos (by omega)
  have h3 : (b - 1) / chunkSize < cursor / chunkSize + 1 :=
    Int.ediv_lt_of_lt_mul hpos (by omega)
  omega

/-- A committed candidate extends the tiles of both groups to its end. -/
theorem Kept.commit (h : Kept spec chunkSize cursor s) {s' : CaptureState κ}
    (hs : Sound spec [] s') (hj : s'.job = s.job)
    (hr : candidateRanges s' = groupRange spec cursor end_ 0 ++ groupRange spec cursor end_ 1)
    (hc : chunkSize ≠ 0) (hbase : spec.base ≤ cursor) (hlt : cursor < end_)
    (hend : end_ ≤ windowEnd chunkSize spec cursor) :
    Kept spec chunkSize end_ s'.commitCandidate := by
  have hfr : ∀ g, (s'.commitCandidate.job.fragmentsOf g).map Fragment.range =
      (s.job.fragmentsOf g).map Fragment.range ++
        ((candidateRanges s').filter (·.1 = g)).map (·.2) := by
    intro g
    rw [commit_fragmentsOf, hj, map_append, candidateRanges, filter_map]
    simp [Function.comp_def]
  have hnew : ∀ g, ∀ f ∈ s'.commitCandidate.job.fragmentsOf g,
      f ∈ s.job.fragmentsOf g ∨ (g, f.range) ∈ candidateRanges s' := by
    intro g f hf
    rw [commit_fragmentsOf, hj, mem_append] at hf
    rcases hf with hf | hf
    · exact .inl hf
    obtain ⟨e, he, rfl⟩ := mem_map.1 hf
    obtain ⟨he, hg⟩ := mem_filter.1 he
    exact .inr (mem_map.2 ⟨e, he, by simpa using hg⟩)
  obtain ⟨hsound, hidle⟩ := hs.commitCandidate
  refine ⟨hsound, hidle, ?_, ?_, ?_⟩
  · rw [hfr, hr]
    have h1 : ((groupRange spec cursor end_ 0 ++ groupRange spec cursor end_ 1).filter
        (·.1 = 0)).map (·.2) = (groupRange spec cursor end_ 0).map (·.2) := by
      unfold groupRange
      split <;> split <;> simp
    rw [h1]
    unfold groupRange
    have hstart : pageStart spec cursor 0 = max (max spec.base spec.residentStart) cursor := by
      simp only [pageStart, if_true]
      omega
    split
    · have hnil := h.tiles0.2 (by omega)
      rw [hnil]
      exact Tiles.nil (by omega)
    · rw [map_cons, map_nil, hstart]
      exact h.tiles0.snoc (by omega)
  · rw [hfr, hr]
    have h1 : ((groupRange spec cursor end_ 0 ++ groupRange spec cursor end_ 1).filter
        (·.1 = 1)).map (·.2) = [(cursor, end_)] := by
      unfold groupRange
      have : ¬ pageStart spec cursor 1 ≥ end_ := by
        simp only [pageStart]
        omega
      rw [if_neg this]
      split <;> simp [pageStart]
    have := h.tiles1.snoc (c := end_) (by omega)
    rw [Int.max_eq_right hbase] at this
    rw [h1]
    exact this
  · intro g f hf
    rcases hnew g f hf with hf | hf
    · exact h.inChunk g f hf
    rw [hr] at hf
    have hrange : ∃ g', (g, f.range) ∈ groupRange spec cursor end_ g' := by
      rcases mem_append.1 hf with hf | hf
      · exact ⟨0, hf⟩
      · exact ⟨1, hf⟩
    obtain ⟨g', hf⟩ := hrange
    unfold groupRange at hf
    split at hf
    · cases hf
    · next hge =>
      rw [mem_singleton, Fragment.range, Prod.mk.injEq, Prod.mk.injEq] at hf
      obtain ⟨-, hstart, hend'⟩ := hf
      rw [hstart, hend']
      have : cursor ≤ pageStart spec cursor g' := by
        unfold pageStart
        split <;> omega
      exact windowEnd_inChunk hc this (by omega) hend

theorem forM_pair (f : Nat → CaptureM κ PUnit) :
    ([0, 1].forM f) = f 0 >>= fun _ => f 1 >>= fun _ => pure () := rfl

theorem allocateGroups_spec (h : Sound spec [] s) (hi : s.candidate = []) :
    wp ([0, 1].forM (allocateGroup env chunkSize spec cursor end_))
      (post (fun _ s' => Sound spec [] s' ∧ s'.job = s.job ∧ candidateRanges s' =
          groupRange spec cursor end_ 0 ++ groupRange spec cursor end_ 1)
        fun _ s' => Sound spec [] s' ∧ s'.job = s.job) s := by
  rw [forM_pair]
  refine wp_bind_ok (allocateGroup_spec h) fun u s1 h1 => ?_
  obtain ⟨h1, hj1, hc1⟩ := h1
  refine wp_bind_of (allocateGroup_spec h1) (fun _ _ h2 => ⟨h2.1, h2.2.trans hj1⟩)
    fun u s2 h2 => ?_
  refine ⟨h2.1, h2.2.1.trans hj1, ?_⟩
  change candidateRanges s2 = _
  rw [h2.2.2, hc1]
  simp [candidateRanges, hi]

theorem tryWindow_spec (h : Sound spec [] s) (hi : s.candidate = []) :
    wp (tryWindow env chunkSize spec cursor end_)
      (post (fun fits s' => Sound spec [] s' ∧ s'.job = s.job ∧ if fits then candidateRanges s' =
          groupRange spec cursor end_ 0 ++ groupRange spec cursor end_ 1 else s'.candidate = [])
        fun _ s' => Sound spec [] s' ∧ s'.candidate = []) s := by
  unfold tryWindow
  rw [wp_tryCatch, wp_bind]
  refine wp_mono (allocateGroups_spec h hi) ?_
  rintro (e | u) s1 h1
  · obtain ⟨hs, hc, hj⟩ := h1.1.releaseCandidate
    simp only [post_error, wp_bind, wp_modify, post_ok]
    cases e with
    | memoryError m => exact ⟨hs, hj.trans h1.2, hc⟩
    | valueError | overflowError | transferUnknown | exception => exact ⟨hs, hc⟩
  · exact h1

/-- The inner loop ends at its cursor or at the end of the window it committed. -/
theorem allocateWindow_spec (fuel : Nat) (end_ : Int) {s : CaptureState κ}
    (h : Kept spec chunkSize cursor s) (hc : chunkSize ≠ 0) (hbase : spec.base ≤ cursor)
    (hend : end_ ≤ windowEnd chunkSize spec cursor) (hfuel : (end_ - cursor).toNat ≤ fuel) :
    wp (allocateWindow env chunkSize spec cursor fuel end_)
      (post (fun e s' => e ≤ end_ ∧ if cursor < e then Kept spec chunkSize e s'
          else Kept spec chunkSize cursor s')
        fun _ s' => Sound spec [] s' ∧ s'.candidate = []) s := by
  induction fuel generalizing end_ s with
  | zero =>
    have : ¬ cursor < end_ := by omega
    exact ⟨Int.le_refl _, by rw [if_neg this]; exact h⟩
  | succ fuel ih =>
    unfold allocateWindow
    split
    · next hlt =>
      refine wp_bind_ok (tryWindow_spec h.sound h.idle) fun fits s1 h1 => ?_
      obtain ⟨hs, hj, hr⟩ := h1
      cases fits with
      | true =>
        simp only [if_true, wp_bind, wp_modify, post_ok, wp_pure]
        refine ⟨Int.le_refl _, ?_⟩
        rw [if_pos hlt]
        exact h.commit hs hj hr hc hbase hlt hend
      | false =>
        -- nothing of the window was kept: the loop goes on with half of it
        have hk : Kept spec chunkSize cursor s1 :=
          ⟨hs, hr, by rw [hj]; exact h.tiles0, by rw [hj]; exact h.tiles1,
            by rw [hj]; exact h.inChunk⟩
        simp only [Bool.false_eq_true, if_false]
        refine wp_ok (ih (cursor + (end_ - cursor) / 2) hk (by omega) (by omega)) fun e' s2 h2 => ?_
        exact ⟨by have := h2.1; omega, h2.2⟩
    · next hge =>
      exact ⟨Int.le_refl _, by rw [if_neg hge]; exact h⟩

theorem allocateWindows_spec (fuel : Nat) (cursor : Int) {s : CaptureState κ}
    (h : Kept spec chunkSize cursor s) (hbase : spec.base ≤ cursor) (hend : cursor ≤ spec.end_)
    (hfuel : (spec.end_ - cursor).toNat ≤ fuel) :
    wp (allocateWindows env chunkSize spec fuel cursor)
      (post (fun c s' => c ≤ spec.end_ ∧ Kept spec chunkSize c s')
        fun _ s' => Sound spec [] s' ∧ s'.candidate = []) s := by
  induction fuel generalizing cursor s with
  | zero => exact ⟨hend, h⟩
  | succ fuel ih =>
    unfold allocateWindows
    split
    · next hlt =>
      rw [wp_bind, wp_check]
      split
      · next hc =>
        have hpos : (0 : Int) < chunkSize := by omega
        have hnext : cursor < (cursor / chunkSize + 1) * chunkSize :=
          Int.lt_ediv_add_one_mul_self cursor hpos
        have hw : windowEnd chunkSize spec cursor ≤ spec.end_ := by
          unfold windowEnd
          omega
        rw [post_ok]
        refine wp_bind_ok (allocateWindow_spec _ _ h hc hbase (Int.le_refl _) (Nat.le_refl _))
          fun e s1 h1 => ?_
        obtain ⟨hle, h1⟩ := h1
        have hadv : e = windowEnd chunkSize spec cursor → cursor < e := by
          rintro rfl
          unfold windowEnd
          omega
        split at h1
        · next hce =>
          rw [if_pos hce]
          split
          · exact ih e h1 (by omega) (by omega) (by omega)
          · exact ⟨by omega, h1⟩
        · next hce =>
          have hne : ¬ e = windowEnd chunkSize spec cursor := fun he => hce (hadv he)
          rw [if_neg hce, if_neg hne]
          exact ⟨hend, h1⟩
      · exact ⟨h.sound, h.idle⟩
    · exact ⟨hend, h⟩

/-! ## The capture -/

/-- Before the loops: no fragment yet. -/
def Started (spec : CaptureSpec) (s : CaptureState κ) : Prop :=
  Sound spec [] s ∧ s.candidate = [] ∧ s.job.fragments = Dict.empty

def Stopped (spec : CaptureSpec) (s : CaptureState κ) : Prop := Sound spec [] s ∧ s.candidate = []

theorem Started.stopped (h : Started spec s) : Stopped spec s := ⟨h.1, h.2.1⟩

theorem Started.call {α : Type} (f : Nat → Except PyError α) (h : Started spec s) :
    wp (call f) (post (fun _ => Started spec) fun _ => Stopped spec) s := by
  rw [wp_call]
  have h' : Started spec { s with calls := s.calls + 1 } := ⟨h.1.calls _, h.2⟩
  cases f s.calls with
  | ok a => exact h'
  | error e => exact h'.stopped

theorem Started.check {c : Prop} [Decidable c] {e : PyError} (h : Started spec s) :
    wp (check c e) (post (fun _ s' => c ∧ Started spec s') fun _ => Stopped spec) s := by
  rw [wp_check]
  split
  · next hc => exact ⟨hc, h⟩
  · exact h.stopped

theorem takePrefixOwner_spec {source : CheckpointPage κ} (h : Started spec s) :
    wp (takePrefixOwner env source) (post (fun _ => Started spec) fun _ => Stopped spec) s := by
  unfold takePrefixOwner
  rw [wp_bind, wp_call]
  cases env.layerPagePrefix s.calls source.key with
  | error e => exact ⟨h.1.calls _, h.2.1⟩
  | ok r =>
    obtain ⟨pages, count⟩ := r
    simp only [post_ok, wp_bind, wp_modify]
    have h' : Started spec { s with
        calls := s.calls + 1
        taken := s.taken ++ pages
        job := { s.job with prefixOwners := s.job.prefixOwners ++ pages } } := by
      refine ⟨⟨fun p => ?_, h.1.reclaims, h.1.fresh⟩, h.2⟩
      have := h.1.held p
      rw [CaptureJob.pages_count] at this ⊢
      simp only [candidatePages, count_append] at this ⊢
      omega
    split
    · exact h'
    · cases pages with
      | nil => exact h'.stopped
      | cons page rest => exact h'.call _

theorem takePrefix_spec (h : Started spec s) :
    wp (takePrefix env spec) (post (fun _ => Started spec) fun _ => Stopped spec) s := by
  unfold takePrefix
  split
  · exact h
  · next p _ =>
    split
    · exact h
    refine wp_bind_ok (h.call _) fun sources s1 h1 => ?_
    simp only [post_ok, wp_bind, wp_modify]
    have h2 : Started spec { s1 with job := { s1.job with prefixSources := sources } } :=
      ⟨⟨h1.1.held, h1.1.reclaims, h1.1.fresh⟩, h1.2⟩
    split
    · exact wp_forM (fun source _ s' hs' => takePrefixOwner_spec hs') h2
    · exact h2

theorem deviceWork_spec {job : CaptureJob κ} (h : Stopped spec s) (hj : s.job = job) :
    wp (deviceWork env blockSize spec)
      (post (fun _ s' => Stopped spec s' ∧ s'.job = job) fun _ s' => Stopped spec s' ∧ s'.job = job) s := by
  have hcall : ∀ {α : Type} (f : Nat → Except PyError α) (t : CaptureState κ),
      Stopped spec t ∧ t.job = job → wp (call f) (post (fun _ s' => Stopped spec s' ∧ s'.job = job)
        fun _ s' => Stopped spec s' ∧ s'.job = job) t := by
    intro α f t ht
    rw [wp_call]
    cases f t.calls <;> exact ⟨⟨ht.1.1.calls _, ht.1.2⟩, ht.2⟩
  have hgroup : ∀ (e : Nat × List Fragment) (t : CaptureState κ), Stopped spec t ∧ t.job = job →
      wp (prepareGroup env blockSize spec e) (post (fun _ s' => Stopped spec s' ∧ s'.job = job)
        fun _ s' => Stopped spec s' ∧ s'.job = job) t := by
    intro e t ht
    unfold prepareGroup
    split
    · refine wp_bind_ok (hcall _ t ht) fun slots t1 ht1 => ?_
      refine wp_bind_ok (hcall _ t1 ht1) fun u t2 ht2 => ?_
      have ht2' : Stopped spec { t2 with deviceWorkStarted := true } ∧ t2.job = job :=
        ⟨⟨ht2.1.1.of_eq rfl rfl rfl rfl rfl rfl, ht2.1.2⟩, ht2.2⟩
      rw [wp_modify_bind]
      refine wp_bind_ok (hcall _ _ ht2') fun u t3 ht3 => ?_
      exact ⟨⟨ht3.1.1.of_eq rfl rfl rfl rfl rfl rfl, ht3.1.2⟩, ht3.2⟩
    · exact ht
  unfold deviceWork
  rw [wp_get_bind]
  refine wp_bind_ok (wp_forM (fun e _ => hgroup e) ⟨h, hj⟩) fun u s1 h1 => ?_
  rw [wp_get_bind]
  refine wp_bind_ok (wp_forM (fun _ _ => hcall _) h1) fun u s2 h2 => ?_
  rw [wp_bind, wp_check]
  split
  · exact hcall _ s2 h2
  · exact h2

theorem Started.forM {f : Nat → CaptureM κ PUnit} (h : Started spec s)
    (hf : ∀ g s, Started spec s → wp (f g) (post (fun _ => Started spec) fun _ => Stopped spec) s) :
    wp ([0, 1].forM f) (post (fun _ => Started spec) fun _ => Stopped spec) s :=
  wp_forM (fun g _ => hf g) h

theorem Started.kept (h : Started spec s) : Kept spec chunkSize spec.base s := by
  have hf : ∀ g, s.job.fragmentsOf g = [] := by
    intro g
    rw [CaptureJob.fragmentsOf, h.2.2]
    rfl
  refine ⟨h.1, h.2.1, ?_, ?_, ?_⟩
  · rw [hf]
    exact Tiles.nil (by omega)
  · rw [hf]
    exact Tiles.nil (Int.le_refl _)
  · intro g f hfg
    rw [hf] at hfg
    cases hfg

/-- What a capture that ended without an exception has built. -/
structure Captured (spec : CaptureSpec) (chunkSize : Nat) (job : CaptureJob κ) : Prop where
  tiles0 : Tiles ((job.fragmentsOf 0).map Fragment.range)
    (max spec.base spec.residentStart) job.capturedEnd
  tiles1 : Tiles ((job.fragmentsOf 1).map Fragment.range) spec.base job.capturedEnd
  inChunk : ∀ g, ∀ f ∈ job.fragmentsOf g, f.start / chunkSize = (f.end_ - 1) / chunkSize
  end_bounds : spec.prefixEnd < job.capturedEnd ∧ job.capturedEnd ≤ spec.end_

theorem captureBody_spec {jobCount maxJobs : Nat} (h : Started spec s) :
    wp (captureBody env chunkSize blockSize spec jobCount maxJobs)
      (post (fun _ s' => Stopped spec s' ∧ Captured spec chunkSize s'.job) fun _ => Stopped spec) s := by
  unfold captureBody
  refine wp_bind_ok h.check fun u s1 h1 => ?_
  refine wp_bind_ok h1.2.check fun u s2 h2 => ?_
  refine wp_bind_ok h2.2.check fun u s3 h3 => ?_
  refine wp_bind_ok h3.2.check fun u s4 h4 => ?_
  obtain ⟨⟨hfront, -⟩, h4⟩ := h4
  refine wp_bind_ok (takePrefix_spec h4) fun u s5 h5 => ?_
  rw [wp_bind]
  refine wp_mono (Started.forM h5 fun g t ht => ?_) ?_
  · unfold checkBlocks
    refine wp_bind_ok ht.check fun u t1 ht1 => ?_
    refine wp_ok ht1.2.check fun u t2 ht2 => ?_
    exact ht2.2
  rintro (e | u) s6 h6
  · exact h6
  rw [post_ok, wp_bind]
  refine wp_mono (Started.forM h6 fun g t ht => ?_) ?_
  · split
    · exact ht.call _
    · exact ht
  rintro (e | u) s7 h7
  · exact h7
  rw [post_ok]
  refine wp_bind_ok (allocateWindows_spec _ _ h7.kept (Int.le_refl _) (by omega) (Nat.le_refl _))
    fun cursor s8 h8 => ?_
  obtain ⟨hend, hk⟩ := h8
  rw [wp_bind, wp_check]
  split
  · next hgt =>
    rw [post_ok, wp_modify_bind]
    have hs : Stopped spec { s8 with job := { s8.job with capturedEnd := cursor } } :=
      ⟨⟨hk.sound.held, hk.sound.reclaims, hk.sound.fresh⟩, hk.idle⟩
    refine wp_cases (deviceWork_spec hs rfl) (fun _ _ ⟨h9, hj9⟩ => h9) fun u s9 ⟨h9, hj9⟩ => ?_
    refine ⟨h9, ?_⟩
    rw [hj9]
    exact ⟨hk.tiles0, hk.tiles1, hk.inChunk, hgt, hend⟩
  · exact ⟨hk.sound, hk.idle⟩

theorem started_new (started : Nat) : Started spec (CaptureState.new spec started : CaptureState κ) :=
  ⟨⟨fun _ => rfl, rfl, rfl, rfl, rfl, rfl⟩, rfl, rfl⟩

theorem CaptureState.releaseJob_of_sound (h : Sound spec [] s) :
    s.releaseJob = { s with released := s.released ++ s.job.pages, job := s.job.clear } := by
  simp [CaptureState.releaseJob, h.fresh.2.1]

theorem capture_spec (env : CaptureEnv κ) (chunkSize blockSize : Nat) (spec : CaptureSpec)
    (jobCount maxJobs started : Nat) :
    match capture env chunkSize blockSize spec jobCount maxJobs started with
    | (.captured job, s) => Stopped spec s ∧ s.job = job ∧ Captured spec chunkSize job
    | (.failed _, s) => (∀ p, s.released.count p = s.taken.count p) ∧ s.reclaims ≤ 1
    | (.quarantined job, s) =>
      (∀ p, s.taken.count p = s.released.count p + job.pages.count p) ∧ s.reclaims ≤ 1 ∧
        job.spec = spec ∧ job.quarantined = true ∧ job.cancelled = false ∧ job.future = none := by
  have hbody : wp (captureBody env chunkSize blockSize spec jobCount maxJobs) _
    (CaptureState.new spec started) := captureBody_spec (started_new started)
  unfold wp at hbody
  unfold capture
  generalize captureBody env chunkSize blockSize spec jobCount maxJobs
    (CaptureState.new spec started) = run at hbody ⊢
  obtain ⟨r, s⟩ := run
  cases r with
  | ok u => exact ⟨hbody.1, rfl, hbody.2⟩
  | error e =>
    obtain ⟨hs, hi⟩ : Stopped spec s := hbody
    have hcand : candidatePages s = [] := by
      rw [candidatePages, hi]
      rfl
    have hheld : ∀ p, s.taken.count p = s.released.count p + s.job.pages.count p := by
      intro p
      have := hs.held p
      rw [hcand] at this
      simpa using this
    have hrec : s.reclaims ≤ 1 := by
      rw [hs.reclaims]
      exact Bool.toNat_le _
    by_cases hq : s.deviceWorkStarted = true ∧ env.finishCapture.isOk = false
    · simp only [if_pos hq]
      exact ⟨hheld, hrec, hs.fresh.1, trivial, hs.fresh.2.2⟩
    simp only [if_neg hq]
    rw [CaptureState.releaseJob_of_sound hs]
    refine ⟨fun p => ?_, hrec⟩
    rw [count_append, hheld p]

/-- **Capture.**  A capture that succeeds has tiled both groups up to its frontier,
inside chunks, and owns what it took; one that fails has released everything it
took and adds no job; a quarantined one keeps its pages.  Capacity is reclaimed at
most once. -/
theorem capture_tiles (cfg : WorkerConfig κ) (w : Worker κ) (env : CaptureEnv κ)
    (spec : CaptureSpec) (started : Nat) :
    match Checkpoint.capture env cfg.chunkSize cfg.blockSize spec w.jobs.keys.length cfg.maxJobs
      started with
    | (.captured job, s) =>
      Tiles ((job.fragmentsOf 0).map Fragment.range) (max spec.base spec.residentStart)
        job.capturedEnd ∧
      Tiles ((job.fragmentsOf 1).map Fragment.range) spec.base job.capturedEnd ∧
      (∀ g, ∀ f ∈ job.fragmentsOf g, f.start / cfg.chunkSize = (f.end_ - 1) / cfg.chunkSize) ∧
      (spec.prefixEnd < job.capturedEnd ∧ job.capturedEnd ≤ spec.end_) ∧
      (∀ p, s.taken.count p = s.released.count p + job.pages.count p) ∧ s.reclaims ≤ 1
    | (.failed _, s) =>
      (∀ p, s.released.count p = s.taken.count p) ∧
      (w.capture cfg env spec started).jobs = w.jobs ∧ s.reclaims ≤ 1
    | (.quarantined job, s) =>
      (∀ p, s.taken.count p = s.released.count p + job.pages.count p) ∧
      job.quarantined = true ∧ s.reclaims ≤ 1 := by
  have h := capture_spec env cfg.chunkSize cfg.blockSize spec w.jobs.keys.length cfg.maxJobs started
  have hjobs : ∀ e, (Checkpoint.capture env cfg.chunkSize cfg.blockSize spec w.jobs.keys.length
      cfg.maxJobs started).1 = .failed e → (w.capture cfg env spec started).jobs = w.jobs := by
    intro e he
    unfold Worker.capture
    split
    · split <;> rfl
    · rw [he]
  generalize Checkpoint.capture env cfg.chunkSize cfg.blockSize spec w.jobs.keys.length cfg.maxJobs
    started = out at h hjobs ⊢
  obtain ⟨r, s⟩ := out
  cases r with
  | captured job =>
    obtain ⟨⟨hs, hi⟩, rfl, hc⟩ := h
    refine ⟨hc.tiles0, hc.tiles1, hc.inChunk, hc.end_bounds, fun p => ?_, ?_⟩
    · have := hs.held p
      rw [candidatePages, hi] at this
      simpa using this
    · rw [hs.reclaims]
      exact Bool.toNat_le _
  | failed e => exact ⟨h.1, hjobs e rfl, h.2⟩
  | quarantined job => exact ⟨h.1, h.2.2.2.1, h.2.1⟩

/-- Whole chunks can no longer be allocated after six calls. -/
def tightEnv : CaptureEnv Nat :=
  { frozen := false, caches := [0, 1], prefixState := none, writeback := false,
    withoutLayer := id, layerPagePrefix := fun _ _ => .ok ([], 0),
    validatePage := fun _ _ => .ok (), prepareAllocator := fun _ => .ok (),
    allocate := fun n _ tokens => if tokens > 3 ∧ n > 6 then .error (.memoryError "") else .ok n,
    reclaim := fun _ _ _ => .ok false, pinnedSlots := fun _ => .ok (),
    prepareCapture := fun _ => .ok (), enqueueCapture := fun _ => .ok (), synchronize := .ok (),
    finishCapture := .ok () }

def tightSpec : CaptureSpec :=
  { reqId := "r", generation := 1, base := 2, prefixEnd := 3, end_ := 20, residentStart := 6,
    blocks := (replicate 5 1, replicate 5 1) }

-- the last window is halved and ends the capture
example : (match (capture tightEnv 4 4 tightSpec 0 2 0).1 with
    | .captured job =>
      ((job.fragmentsOf 0).map Fragment.range, (job.fragmentsOf 1).map Fragment.range)
    | _ => ([], [])) =
    ([(6, 8), (8, 12), (12, 14)], [(2, 4), (4, 8), (8, 12), (12, 14)]) := by decide +kernel

end Checkpoint
