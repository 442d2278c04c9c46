import LMCacheAscend.Lib.Sweep
import LMCacheAscend.Checkpoint.LocalStoreRestore
import LMCacheAscend.Checkpoint.Spill

/-!
# The source selector

`_source_selector` keeps a cursor into the sources of a group and hands out, window
by window, the slice from the first source that does not end before the window to
the first one that starts behind it.  Nothing is filtered, so what it hands out
depends on the order of the sources.  It is the overlap filter over the whole list,
for every run of increasing windows, exactly on sources whose starts and ends are both
in order (`selector_exact_iff`).  `acquire` retains its sources so (`acquire_inOrder`).

Where only the starts are in order, a source that has ended can come along behind a
longer one, but none is missing: `build_page`, which filters once more, makes the same
pages as from the whole list, in a restore (`buildWindows_eq`) and in a spill
(`LocalSpill.putWindows_eq`).
-/

namespace LocalStore

open Lib Checkpoint List

variable {κ α : Type}

/-! ## The closure -/

/-- `while index < len(sources) and sources[index][0].end <= start: index += 1`, over the sources
from `index` on. -/
def skipEnded (start : Int) : Held κ → Nat → Nat
  | [], index => index
  | s :: rest, index => if s.1.end_ ≤ start then skipEnded start rest (index + 1) else index

/-- `while stop < len(sources) and sources[stop][0].start < end: stop += 1`. -/
def stopBefore (end_ : Int) : Held κ → Nat → Nat
  | [], stop => stop
  | s :: rest, stop => if s.1.start < end_ then stopBefore end_ rest (stop + 1) else stop

/-- `select`: the sources of a window, and `index` as it leaves it. -/
def select (sources : Held κ) (index : Nat) (start end_ : Int) : Held κ × Nat :=
  let index := skipEnded start (sources.drop index) index
  let stop := stopBefore end_ (sources.drop index) index
  ((sources.drop index).take (stop - index), index)

/-- The selector is called for one window after the other. -/
def selections (sources : Held κ) : Nat → List (Int × Int) → List (Held κ)
  | _, [] => []
  | index, w :: rest =>
    let (selected, index) := select sources index w.1 w.2
    selected :: selections sources index rest

/-! ## The cursor as a list -/

theorem drop_skipEnded (start : Int) (left : Held κ) (index : Nat) :
    index ≤ skipEnded start left index ∧
      left.drop (skipEnded start left index - index) =
        left.dropWhile fun s => decide (s.1.end_ ≤ start) := by
  induction left generalizing index with
  | nil => simp [skipEnded]
  | cons s rest ih =>
    unfold skipEnded
    by_cases hs : s.1.end_ ≤ start
    · obtain ⟨hle, hdrop⟩ := ih (index + 1)
      have hsub : skipEnded start rest (index + 1) - index =
          skipEnded start rest (index + 1) - (index + 1) + 1 := by omega
      rw [if_pos hs, hsub, drop_succ_cons, dropWhile_cons_of_pos (by simpa using hs)]
      exact ⟨by omega, hdrop⟩
    · rw [if_neg hs, dropWhile_cons_of_neg (by simpa using hs)]
      simp

theorem take_stopBefore (end_ : Int) (left : Held κ) (stop : Nat) :
    stop ≤ stopBefore end_ left stop ∧
      left.take (stopBefore end_ left stop - stop) =
        left.takeWhile fun s => decide (s.1.start < end_) := by
  induction left generalizing stop with
  | nil => simp [stopBefore]
  | cons s rest ih =>
    unfold stopBefore
    by_cases hs : s.1.start < end_
    · obtain ⟨hle, htake⟩ := ih (stop + 1)
      have hsub : stopBefore end_ rest (stop + 1) - stop =
          stopBefore end_ rest (stop + 1) - (stop + 1) + 1 := by omega
      rw [if_pos hs, hsub, take_succ_cons, takeWhile_cons_of_pos (by simpa using hs),
        htake]
      exact ⟨by omega, rfl⟩
    · rw [if_neg hs, takeWhile_cons_of_neg (by simpa using hs)]
      simp

theorem select_eq (sources : Held κ) (index : Nat) (start end_ : Int) :
    ((select sources index start end_).1, sources.drop (select sources index start end_).2) =
      selectSources (sources.drop index) start end_ := by
  obtain ⟨hle, hdrop⟩ := drop_skipEnded start (sources.drop index) index
  rw [drop_drop, Nat.add_sub_cancel' hle] at hdrop
  unfold select selectSources
  simp only
  rw [(take_stopBefore end_ _ _).2, hdrop]

/-! ## The overlap filter -/

def startOf (h : CheckpointPage κ × Page) : Int := h.1.start

def endOf (h : CheckpointPage κ × Page) : Int := h.1.end_

/-- The sources of a window are a sweep over their ranges. -/
theorem selectSources_eq (sources : Held κ) (w : Int × Int) :
    selectSources sources w.1 w.2 = sweep startOf endOf sources w := rfl

theorem selectedOf_eq (sources : Held κ) (w : Int × Int) :
    selectedOf sources w.1 w.2 = overlaps startOf endOf sources w := rfl

theorem selections_eq (sources : Held κ) (index : Nat) (windows : List (Int × Int)) :
    selections sources index windows = sweepAll startOf endOf (sources.drop index) windows := by
  induction windows generalizing index with
  | nil => rfl
  | cons w rest ih =>
    have hselect := select_eq sources index w.1 w.2
    rw [selectSources_eq] at hselect
    have hfst := congrArg Prod.fst hselect
    have hsnd := congrArg Prod.snd hselect
    unfold selections sweepAll
    simp only at hfst hsnd ⊢
    rw [ih, hfst, hsnd]

/-- **The selector is the overlap filter over the whole list, for every run of increasing windows,
exactly on sources in order.** -/
theorem selector_exact_iff (sources : Held κ) :
    (sources.Pairwise fun a b => a.1.start ≤ b.1.start ∧ a.1.end_ ≤ b.1.end_) ↔
      ∀ windows : List (Int × Int), (windows.Pairwise fun v w => v.1 ≤ w.1) →
        selections sources 0 windows = windows.map fun w => selectedOf sources w.1 w.2 := by
  simp only [selections_eq, drop_zero, selectedOf_eq]
  exact inOrder_iff_sweepAll

/-! ## What an acquire retains -/

variable {env : Engine κ} {s : StoreState κ α}

/-- What the loop over a group retains: some of the sources, with ends that do not go back. -/
structure Rising (sources : List (CheckpointPage κ)) (cursor end_ : Int) (new : Held κ) : Prop where
  sources : (new.map Prod.fst).Sublist sources
  ends : new.Pairwise fun a b => a.1.end_ ≤ b.1.end_
  later : ∀ h ∈ new, cursor < h.1.end_
  none : end_ ≤ cursor → new = []

theorem Rising.nil (sources : List (CheckpointPage κ)) (cursor end_ : Int) :
    Rising sources cursor end_ [] :=
  ⟨nil_sublist _, .nil, fun _ h => absurd h not_mem_nil, fun _ => rfl⟩

/-- The groups are left as they are. -/
def SameGroups (s s' : StoreState κ α) : Prop := s'.groups = s.groups

instance : IsPreorder (StoreState κ α) SameGroups where
  refl _ := rfl
  trans _ _ _ h h' := Eq.trans h' h

theorem ask_groups {β : Type} (f : Nat → Except PyError β) :
    Preserves SameGroups (ask f : StoreM κ α β) := by
  intro s
  rw [wp_ask]
  exact ⟨fun _ _ => rfl, fun _ _ => rfl⟩

theorem getPage_groups (group : Nat) (source : CheckpointPage κ) :
    Preserves SameGroups (getPage env group source : StoreM κ α (Option Page)) := by
  refine .bind (ask_groups _) fun r => .bind (.modify fun _ => rfl) fun _ => ?_
  split
  · exact .pure none
  split
  · exact .throw _
  refine .tryCatch (.bind (ask_groups _) fun valid => ?_) fun e =>
    .bind (.modify fun _ => rfl) fun _ => .throw e
  split
  · exact .bind (.throw _) fun _ => .bind (ask_groups _) fun _ => .pure _
  · exact .bind (ask_groups _) fun _ => .pure _

theorem SameGroups.rising {s' : StoreState κ α} (h : SameGroups s s') (group : Nat)
    (sources : List (CheckpointPage κ)) (cursor end_ : Int) :
    ∃ new, s'.groups = setGroup s.groups group (ofGroup s.groups group ++ new) ∧
      Rising sources cursor end_ new := by
  refine ⟨[], ?_, .nil sources cursor end_⟩
  rw [show s'.groups = s.groups from h]
  simp

theorem acquireSources_rising (group : Nat) (end_ : Int) (sources : List (CheckpointPage κ))
    (cursor : Int) :
    wp (acquireSources env group end_ sources cursor) (post
      (fun _ s' => ∃ new, s'.groups = setGroup s.groups group (ofGroup s.groups group ++ new) ∧
        Rising sources cursor end_ new)
      fun _ _ => True) s := by
  induction sources generalizing cursor s with
  | nil => exact SameGroups.rising (refl_of SameGroups s) group [] cursor end_
  | cons source rest ih =>
    unfold acquireSources
    split
    · refine wp_any (ih cursor) fun c s1 h1 => ?_
      obtain ⟨new, hg, hr⟩ := h1
      exact ⟨new, hg, hr.sources.trans (sublist_cons_self _ _), hr.ends, hr.later, hr.none⟩
    · next hpast =>
      split
      · exact SameGroups.rising (refl_of SameGroups s) group _ cursor end_
      · next hstop =>
        have hlt : cursor < end_ := by omega
        refine wp_bind_of (getPage_groups group source s) (fun _ _ _ => trivial) fun r s1 hs1 => ?_
        cases r with
        | none => exact SameGroups.rising hs1 group _ cursor end_
        | some page =>
          have hs1 : s1.groups = s.groups := hs1
          simp only [wp_bind, wp_modify, post_ok]
          refine wp_any (ih (min source.end_ end_)) fun c s2 h2 => ?_
          obtain ⟨new, hg, hr⟩ := h2
          refine ⟨(source, page) :: new, by rw [hg, hs1]; simp, hr.sources.cons_cons source,
            pairwise_cons.2 ⟨fun h hh => ?_, hr.ends⟩, ?_, fun hend => by omega⟩
          · -- behind a source that reaches the end nothing is retained
            have hlater := hr.later h hh
            by_cases hend : end_ ≤ source.end_
            · rw [hr.none (by omega)] at hh
              cases hh
            · show source.end_ ≤ h.1.end_
              omega
          · refine forall_mem_cons.2 ⟨?_, fun h hh => ?_⟩
            · show cursor < source.end_
              omega
            · have hlater := hr.later h hh
              omega

theorem Rising.inOrder {sources : List (CheckpointPage κ)} {cursor end_ c : Int} {new : Held κ}
    (h : Rising sources cursor end_ new) (hs : sources.Pairwise fun p q => p.start ≤ q.start) :
    InOrder startOf endOf (new.rdropWhile fun h => h.1.start ≥ c) := by
  have hsources : (new.map Prod.fst).Pairwise fun p q => p.start ≤ q.start := hs.sublist h.sources
  rw [pairwise_map] at hsources
  exact (hsources.and h.ends).sublist (List.rdropWhile_prefix _ new).sublist

/-- Both groups of an acquire are in order, if the manifest has them in the order of their starts. -/
theorem acquire_inOrder {m : LocalCheckpoint κ} (hm : Published m)
    (end_ : Int) :
    wp (acquire env m end_) (post
      (fun out _ => InOrder startOf endOf out.2.1 ∧ InOrder startOf endOf out.2.2)
      fun _ _ => True) s := by
  unfold acquire
  rw [wp_modify_bind, wp_tryCatch, wp_bind]
  have hfail : ∀ (e : StoreError) (s' : StoreState κ α),
      wp (do let s ← get; release s.groups; throw e : StoreM κ α (Int × Held κ × Held κ)) (post
        (fun out _ => InOrder startOf endOf out.2.1 ∧ InOrder startOf endOf out.2.2)
        fun _ _ => True) s' := fun _ _ => trivial
  refine wp_cases (acquireSources_rising 0 end_ m.groups.1 m.prefixEnd) (fun e s1 h1 => hfail e s1)
    fun e0 s1 h1 => ?_
  obtain ⟨new0, hg0, hr0⟩ := h1
  rw [post_ok]
  refine wp_bind_of (acquireSources_rising 1 end_ m.groups.2 m.prefixEnd)
    (fun e s2 h2 => hfail e s2) fun e1 s2 h2 => ?_
  obtain ⟨new1, hg1, hr1⟩ := h2
  have hgroups : s2.groups = (new0, new1) := by
    rw [hg1, hg0]
    simp [setGroup, ofGroup]
  simp only [post_ok, trim, wp_bind, wp_get, wp_dropRefs, wp_modify, wp_pure, groups_dropped,
    hgroups]
  exact ⟨hr0.inOrder hm.sorted0, hr1.inOrder hm.sorted1⟩

theorem acquire_inOrder_prefixed :
    (acquire Engine.stocked prefixedManifest 8 StoreState.idle).1 =
      .ok (8, [(⟨5, 8, 0⟩, 10)], [(⟨4, 8, 1⟩, 11)]) ∧
    wp (acquire Engine.stocked prefixedManifest 8) (post
      (fun out _ => InOrder startOf endOf out.2.1 ∧ InOrder startOf endOf out.2.2)
      fun _ _ => True) StoreState.idle :=
  ⟨by decide, acquire_inOrder prefixedManifest_published 8⟩

/-! ## The pages that are built -/

theorem buildPage_congr {sources sources' : Held κ} {start end_ : Int}
    (h : selectedOf sources start end_ = selectedOf sources' start end_) (m : LocalCheckpoint κ)
    (group : Nat) (key : κ) :
    (buildPage env m sources group start end_ key : StoreM κ α Page) =
      buildPage env m sources' group start end_ key := by
  unfold buildPage
  rw [h]

/-- `left` are the sources from the cursor on, where windows start at `covered` or later. -/
structure LeftOf (sources left : Held κ) (covered : Int) : Prop where
  starts : left.Pairwise fun a b => startOf a ≤ startOf b
  overlaps : ∀ start end_, covered ≤ start → selectedOf left start end_ = selectedOf sources start end_

section

variable {left sources : Held κ} {covered start end_ : Int} (h : LeftOf sources left covered)
variable (hle : covered ≤ start)
include h hle

theorem LeftOf.next (hlt : start < end_) :
    LeftOf sources (selectSources left start end_).2 end_ := by
  refine ⟨h.starts.sublist (dropWhile_sublist _), fun start' end' hle' => ?_⟩
  rw [← h.overlaps start' end' (by omega)]
  exact overlaps_left (w := (start', end')) (v := (start, end_)) (by show start ≤ start'; omega)

theorem LeftOf.buildPage_eq (m : LocalCheckpoint κ) (group : Nat) (key : κ) :
    (buildPage env m (selectSources left start end_).1 group start end_ key : StoreM κ α Page) =
      buildPage env m sources group start end_ key := by
  refine buildPage_congr ?_ m group key
  rw [← h.overlaps start end_ hle]
  exact overlaps_sweep (w := (start, end_)) h.starts

end

/-- The loop of `normalize` over the windows of a group, with all sources for each of them. -/
def buildWindowsOf (env : Engine κ) (manifest : LocalCheckpoint κ) (length : Int) (group : Nat)
    (sources : Held κ) : List (Int × Int × κ) → StoreM κ α (Held κ)
  | [] => pure []
  | (start, end_, key) :: rest => do
    let s ← get
    if start ≠ s.covered ∨ ¬(start < end_ ∧ end_ ≤ length) then
      throw (valueError "Normalized checkpoint coverage has a gap or overlap")
    else do
      let page ← buildPage env manifest sources group start end_ key
      modify fun s => { s with owners := s.owners ++ [page], covered := end_ }
      let more ← buildWindowsOf env manifest length group sources rest
      pure ((⟨start, end_, key⟩, page) :: more)

theorem LeftOf.buildWindows_run {sources left : Held κ} (m : LocalCheckpoint κ) (length : Int)
    (group : Nat) (windows : List (Int × Int × κ)) (h : LeftOf sources left s.covered) :
    buildWindows env m length group windows left s =
      buildWindowsOf env m length group sources windows s := by
  induction windows generalizing left s with
  | nil => rfl
  | cons w rest ih =>
    obtain ⟨start, end_, key⟩ := w
    unfold buildWindows buildWindowsOf
    refine run_bind_congr fun s0 s0' hs0 => ?_
    cases hs0
    split
    · rfl
    · next hwindow =>
      have hstart : start = s.covered ∧ start < end_ := by omega
      simp only
      rw [h.buildPage_eq (by omega)]
      refine run_bind_congr fun page s1 _ => run_bind_congr fun u s2 hs2 => ?_
      cases hs2
      have hnext : LeftOf sources (selectSources left start end_).2 end_ :=
        h.next (by omega) hstart.2
      show (buildWindows env m length group rest _ >>= _) _ =
        (buildWindowsOf env m length group sources rest >>= _) _
      exact run_bind_same (ih hnext) _

/-- **A restore builds each page from all sources that overlap it**, as if nothing were skipped. -/
theorem buildWindows_eq (m : LocalCheckpoint κ) (length : Int) (group : Nat)
    (windows : List (Int × Int × κ)) {sources : Held κ}
    (h : sources.Pairwise fun a b => startOf a ≤ startOf b) :
    (buildWindows env m length group windows sources : StoreM κ α (Held κ)) =
      buildWindowsOf env m length group sources windows :=
  funext fun _ => LeftOf.buildWindows_run m length group windows ⟨h, fun _ _ _ => rfl⟩

/-- Two sources that are side by side. -/
theorem buildWindows_eq_two :
    (buildWindows Engine.idle prefixedManifest 8 0 [(5, 6, 0), (6, 8, 1)]
        [(⟨0, 6, 7⟩, 70), (⟨6, 8, 8⟩, 80)] : StoreM Nat Nat (Held Nat)) =
      buildWindowsOf Engine.idle prefixedManifest 8 0 [(⟨0, 6, 7⟩, 70), (⟨6, 8, 8⟩, 80)]
        [(5, 6, 0), (6, 8, 1)] :=
  buildWindows_eq _ _ _ _ (by decide)

end LocalStore

namespace LocalSpill

open Lib Checkpoint LocalStore

variable {κ α : Type} {sources left : Held κ}

/-- The loop of a spill over the windows of a group, with all sources for each of them. -/
def putWindowsOf (env : SpillEngine κ) (manifest : LocalCheckpoint κ) (group : Nat)
    (sources : Held κ) :
    List (Int × Int × κ) → Int → SpillM κ α (Option (Int × List (CheckpointPage κ)))
  | [], covered => pure (some (covered, []))
  | (start, end_, key) :: rest, covered => do
    if ← withdrawn env then pure none
    else if start ≠ covered ∨ ¬(start < end_ ∧ end_ ≤ manifest.tokens.length) then
      throw (valueError "Checkpoint persistence has a range gap")
    else do
      let page ← inStore (buildPage env.toEngine manifest sources group start end_ key)
      if ← putPage env manifest group ⟨start, end_, key⟩ page then
        match ← putWindowsOf env manifest group sources rest end_ with
        | none => pure none
        | some (covered, more) => pure (some (covered, ⟨start, end_, key⟩ :: more))
      else pure none

theorem putWindows_left (env : SpillEngine κ) (m : LocalCheckpoint κ) (group : Nat)
    (windows : List (Int × Int × κ)) (covered : Int) (h : LeftOf sources left covered) :
    (putWindows env m group windows left covered :
        SpillM κ α (Option (Int × List (CheckpointPage κ)))) =
      putWindowsOf env m group sources windows covered := by
  induction windows generalizing left covered with
  | nil => rfl
  | cons w rest ih =>
    obtain ⟨start, end_, key⟩ := w
    unfold putWindows putWindowsOf
    refine bind_congr fun gone => ?_
    split
    · rfl
    split
    · rfl
    · next hwindow =>
      have hstart : start = covered ∧ start < end_ := by omega
      simp only
      rewrite [h.buildPage_eq (by omega), ih end_ (h.next (by omega) hstart.2)]
      rfl

/-- **A spill builds each page from all sources that overlap it.** -/
theorem putWindows_eq (env : SpillEngine κ) (m : LocalCheckpoint κ) (group : Nat)
    (windows : List (Int × Int × κ)) (covered : Int)
    (h : sources.Pairwise fun a b => startOf a ≤ startOf b) :
    (putWindows env m group windows sources covered :
        SpillM κ α (Option (Int × List (CheckpointPage κ)))) =
      putWindowsOf env m group sources windows covered :=
  putWindows_left env m group windows covered ⟨h, fun _ _ _ => rfl⟩

theorem putWindows_eq_two :
    (putWindows SpillEngine.confirming prefixedManifest 0 [(5, 6, 0), (6, 8, 1)]
        [(⟨0, 6, 7⟩, 70), (⟨6, 8, 8⟩, 80)] 5 :
        SpillM Nat Nat (Option (Int × List (CheckpointPage Nat)))) =
      putWindowsOf SpillEngine.confirming prefixedManifest 0 [(⟨0, 6, 7⟩, 70), (⟨6, 8, 8⟩, 80)]
        [(5, 6, 0), (6, 8, 1)] 5 :=
  putWindows_eq _ _ _ _ _ (by decide)

end LocalSpill
