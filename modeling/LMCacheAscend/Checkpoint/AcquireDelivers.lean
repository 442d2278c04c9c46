import LMCacheAscend.Checkpoint.AcquireCovers

/-!
# An acquire of a reachable store

The descriptors that a record ever holds were written by a spill, so they are
chains from at or before the end of the prefix (`remote_spilled`, `spill_ranges`).
The probe of `available` runs like the acquire up to the last loop and is not
stopped where that one is (`acquire_follows`).
-/

namespace Checkpoint

open Lib List Option

variable {κ : Type} [DecidableEq κ] {env : AcquireEnv κ} {s : AcquireState κ}

/-! ## The probe -/

/-- Where the last loop of a probe stops. -/
def probeEnd (present : Dict κ Bool) : List (Plan κ) → Int → Int
  | [], cursor => cursor
  | plan :: rest, cursor =>
    if plan.held = [] ∧ (present.get? plan.descriptor.key).getD false = false then cursor
    else probeEnd present rest plan.right

variable (present : Dict κ Bool) {common : Int} {l : List (HeldPage κ)}

theorem le_probeEnd {all : List (CheckpointPage κ)} {plans : List (Plan κ)} {cursor : Int}
    (h : Linked all plans cursor) : cursor ≤ probeEnd present plans cursor := by
  induction plans generalizing cursor with
  | nil => exact Int.le_refl cursor
  | cons plan rest ih =>
    rw [probeEnd]
    split
    · exact Int.le_refl cursor
    · exact Int.le_trans (Int.le_of_lt h.1.right) (ih h.2)

theorem collectGroup_probe (group : Nat) (plans : List (Plan κ)) (cursor : Int)
    (s : AcquireState κ) :
    wp (collectGroup env present true group plans cursor)
      (post (fun c _ => c = probeEnd present plans cursor) fun _ _ => False) s := by
  induction plans generalizing cursor s with
  | nil => rfl
  | cons plan rest ih =>
    rw [collectGroup, probeEnd]
    split
    · next hheld =>
      rw [if_neg (fun h => hheld h.1), wp_modify_bind]
      exact ih plan.right _
    · next hheld =>
      rw [not_not] at hheld
      split
      · next hpresent =>
        rw [if_pos ⟨hheld, hpresent⟩]
        rfl
      · next hpresent =>
        rw [if_pos rfl, if_neg (fun h => hpresent h.2), wp_modify_bind]
        exact ih plan.right _

theorem collectGroup_le {all : List (CheckpointPage κ)} (group : Nat) {plans : List (Plan κ)}
    {cursor : Int} (s : AcquireState κ) (h : Linked all plans cursor) :
    wp (collectGroup env present false group plans cursor)
      (post (fun c _ => c ≤ probeEnd present plans cursor) fun _ _ => True) s := by
  induction plans generalizing cursor s with
  | nil => exact Int.le_refl cursor
  | cons plan rest ih =>
    have hle := le_probeEnd present h
    have hstop : ∀ s', wp (pure cursor : AcquireM κ Int)
        (post (fun c _ => c ≤ probeEnd present (plan :: rest) cursor) fun _ _ => True) s' :=
      fun _ => hle
    rw [collectGroup]
    split
    · next hheld =>
      rw [wp_modify_bind, probeEnd, if_neg (fun h => hheld h.1)]
      exact ih _ h.2
    split
    · exact hstop s
    · next hpresent =>
      rw [if_neg Bool.false_ne_true, wp_bind]
      refine wp_of_forall ?_
      rintro (e | r) s1
      · exact trivial
      rw [post_ok]
      cases r with
      | none => exact hstop s1
      | some page =>
        simp only [wp_bind, wp_modify, post_ok]
        rw [probeEnd, if_neg (fun h => hpresent h.2)]
        exact ih _ h.2

omit [DecidableEq κ] in
theorem takeCommon_common (ends : Int × Int) (s : AcquireState κ) :
    wp (takeCommon ends) (post (fun out _ => out.1 = min ends.1 ends.2) fun _ _ => False) s := by
  simp only [takeCommon, wp_bind, wp_modify, post_ok, wp_get, wp_pure]

/-- What the probe finds for the windows that are planned. -/
def probeCommon (m : LocalCheckpoint κ) (present : Dict κ Bool) (s : AcquireState κ) : Int :=
  min (probeEnd present s.plans.1 m.prefixEnd) (probeEnd present s.plans.2 m.prefixEnd)

theorem collectWindows_probe (m : LocalCheckpoint κ) (present : Dict κ Bool)
    (s : AcquireState κ) :
    wp (collectWindows env m true present)
      (post (fun out _ => out.1 = probeCommon m present s) fun _ _ => False) s := by
  simp only [collectWindows, wp_bind, wp_get, post_ok]
  refine wp_returns (collectGroup_probe present 0 s.plans.1 m.prefixEnd s) fun e0 s1 h1 => ?_
  rw [post_ok]
  refine wp_bind_returns (collectGroup_probe present 1 s.plans.2 m.prefixEnd s1) fun e1 s2 h2 => ?_
  have hc := takeCommon_common (e0, e1) s2
  rw [h1, h2] at hc
  rw [h1, h2]
  exact hc

variable {m : LocalCheckpoint κ} {remote : List (CheckpointPage κ) × List (CheckpointPage κ)}
  {w' : Store κ}

theorem collectWindows_le (h : Windows m remote s) :
    wp (collectWindows env m false present)
      (post (fun out _ => out.1 ≤ probeCommon m present s) fun _ _ => True) s := by
  simp only [collectWindows, wp_bind, wp_get, post_ok]
  refine wp_cases (collectGroup_le present 0 s h.linked0) (fun _ _ h1 => trivial) fun e0 s1 h1 => ?_
  rw [post_ok, wp_bind]
  refine wp_cases (collectGroup_le present 1 s1 h.linked1) (fun _ _ _ => trivial) fun e1 s2 h2 => ?_
  rw [post_ok] at h1 h2
  rw [post_ok]
  refine wp_cases (takeCommon_common (e0, e1) s2) (fun _ _ h => False.elim h)
    fun out s3 h3 => ?_
  rw [post_ok] at h3 ⊢
  rw [h3, probeCommon]
  omega

/-- The results of the two runs of `_acquire`. -/
abbrev ReachesFurther (out out' : Int × List (HeldPage κ) × List (HeldPage κ)) : Prop :=
  out.1 ≤ out'.1

theorem remoteAcquire_follows (m : LocalCheckpoint κ) (end_ : Int)
    (hr : SpillRanges m.prefixEnd remote) (h : Settled s ([], [])) :
    Follows ReachesFurther (remoteAcquire env m end_ false remote)
      (remoteAcquire env m end_ true remote) s := by
  refine Follows.modify _ _ (Follows.tryCatch _ (fun _ _ => trivial) (Follows.bind_same ?_))
  refine wp_any (planWindows_spec m end_ hr h) fun present s1 h1 => ?_
  refine Follows.of_wp (collectWindows_le present h1) ?_
  refine wp_cases (collectWindows_probe m present s1) (fun _ _ h => h) fun out s2 h2 => ?_
  intro a ha
  rw [post_ok] at h2
  change a.1 ≤ out.1
  omega

theorem acquire_follows (record : Option (Retention κ)) (manifest : LocalCheckpoint κ) (end_ : Int)
    (hm : effectiveManifest (sameRetention record manifest) manifest = m)
    (hr : ∀ remote, FoundRemote env (sameRetention record manifest) remote →
      SpillRanges m.prefixEnd remote) (h : Settled s ([], [])) :
    Follows ReachesFurther (acquire env record manifest end_ false)
      (acquire env record manifest end_ true) s := by
  unfold acquire
  simp only [hm]
  split
  · exact Follows.refl (fun out => Int.le_refl out.1) _ s
  split
  · next remote hrem => exact remoteAcquire_follows m end_ (hr remote (.inl hrem)) h
  refine Follows.bind_same ?_
  refine wp_any (localAcquire_spec m end_ h) fun out s1 h1 => ?_
  split
  · exact Follows.refl (fun out => Int.le_refl out.1) _ s1
  split
  · exact Follows.refl (fun out => Int.le_refl out.1) _ s1
  · next remote hrem =>
    refine Follows.bind_same ?_
    rw [wp_modify, post_ok]
    have hrec : env.recheck = some remote := by
      split at hrem
      · exact hrem
      · cases hrem
    exact remoteAcquire_follows m end_ (hr remote (.inr hrec)) h1.1.release

/-! ## Descriptors come from a spill -/

variable {cfg : Config} {w : Store κ}

/-- Every remote tuple of a retention was the result of a spill of its manifest. -/
def RemoteSpilled (cfg : Config) (retentions : Nat → Option (Retention κ)) : Prop :=
  ∀ rid r, retentions rid = some r → ∀ remote, r.remote = some remote →
    ∃ results, spill cfg r.manifest results = some remote

omit [DecidableEq κ] in
theorem RemoteSpilled.update {retentions : Nat → Option (Retention κ)} {rid : Nat}
    {r : Retention κ} (h : RemoteSpilled cfg retentions)
    (hr : ∀ remote, r.remote = some remote →
      ∃ results, spill cfg r.manifest results = some remote) :
    RemoteSpilled cfg (Function.update retentions rid (some r)) := by
  intro j r' hj
  rw [Function.update_apply] at hj
  split at hj
  · cases hj
    exact hr
  · exact h j r' hj

omit [DecidableEq κ] in
@[simp] theorem uncharge_retentions (w : Store κ) (owners : List Page) :
    (w.uncharge cfg owners).retentions = w.retentions := by
  unfold Store.uncharge
  split <;> rfl

omit [DecidableEq κ] in
theorem RemoteSpilled.forget {reqId : String} {generation : Option Int}
    (h : RemoteSpilled cfg w.retentions) :
    RemoteSpilled cfg (w.forget reqId generation).retentions :=
  w.forget_retentions h fun _ _ r hr hf => hf.update (hf _ r hr)

theorem RemoteSpilled.publish {identity : Identity} {manifest : LocalCheckpoint κ} {end_ : Int}
    {groups : Groups κ} {starts : Bool} (h : RemoteSpilled cfg w.retentions) :
    RemoteSpilled cfg (w.publish cfg identity manifest end_ groups starts).retentions := by
  have hnew : ∀ (m : LocalCheckpoint κ) rid, RemoteSpilled cfg
      (Function.update w.retentions rid (some (Retention.new m groups))) := fun m rid =>
    h.update (by rintro remote ⟨⟩)
  unfold Store.publish
  split
  · exact h
  split
  · exact h
  simp only
  split
  · split
    · split
      · exact hnew _ _
      · rw [uncharge_retentions]
        exact hnew _ _
    · exact hnew _ _
  · exact h

omit [DecidableEq κ] in
theorem RemoteSpilled.restoreEvent {identity : Identity} {attempt : Int} {event : RestoreEvent}
    (h : RemoteSpilled cfg w.retentions) :
    RemoteSpilled cfg (w.restoreEvent identity attempt event).retentions := by
  unfold Store.restoreEvent
  split
  · exact h
  next rid hk =>
  split
  · exact h
  next r hr =>
  split
  · exact h
  next attempts retire _ =>
  have hset : RemoteSpilled cfg (w.setRetention rid { r with attempts := attempts }).retentions :=
    h.update (h rid r hr)
  split <;> exact hset

omit [DecidableEq κ] in
theorem RemoteSpilled.spilled {results : Option (List (Int × Int × κ) × List (Int × Int × κ))}
    (h : RemoteSpilled cfg w.retentions) (hs : w.spilled cfg results = some w') :
    RemoteSpilled cfg w'.retentions := by
  unfold Store.spilled at hs
  split at hs
  · next rid groups hm =>
    obtain ⟨r, hr, hs⟩ := bind_eq_some_iff.1 hs
    split at hs
    · cases hs
      exact h
    obtain ⟨remote, hrem, hs⟩ := bind_eq_some_iff.1 hs
    split at hs
    · cases hs
      exact h
    · cases hs
      refine h.update ?_
      rintro remote' ⟨⟩
      exact ⟨_, hrem⟩
  · cases hs

omit [DecidableEq κ] in
theorem RemoteSpilled.spillFailed {now : Nat}
    (h : RemoteSpilled cfg w.retentions) (hs : w.spillFailed now = some w') :
    RemoteSpilled cfg w'.retentions := by
  unfold Store.spillFailed at hs
  split at hs
  · next rid groups hm =>
    obtain ⟨r, hr, hs⟩ := bind_eq_some_iff.1 hs
    cases hs
    exact h.update (h rid r hr)
  · cases hs

theorem step_retentions {a : Action κ} (hs : w.step cfg a = some w') :
    w'.retentions = w.retentions ∨ (∃ i m e g b, a = .publish i m e g b) ∨
      (∃ r g, a = .forget r g) ∨ (∃ i n e, a = .restoreEvent i n e) ∨ (∃ i, a = .runForget i) ∨
      (∃ r, a = .spilled r) ∨ ∃ n, a = .spillFailed n := by
  cases a with
  | publish | forget | restoreEvent | runForget | spilled | spillFailed => simp
  | retire i =>
    left
    obtain ⟨g, -, hs⟩ := bind_eq_some_iff.1 hs
    cases hs
    exact uncharge_retentions _ _
  | select now =>
    left
    simp only [Store.step, Store.select] at hs
    split at hs
    · split at hs <;> cases hs <;> rfl
    · cases hs
  | spillDied =>
    left
    simp only [Store.step, Store.spillDied] at hs
    split at hs <;> cases hs
    rfl
  | spillUnknown page =>
    left
    simp only [Store.step, Store.spillUnknown] at hs
    split at hs <;> cases hs
    rfl
  | retireConfirmed =>
    left
    simp only [Store.step, Store.retireConfirmed] at hs
    split at hs <;> cases hs
    exact uncharge_retentions _ _
  | finishSpill =>
    left
    simp only [Store.step, Store.finishSpill] at hs
    split at hs
    · next groups died _ =>
      cases hs
      cases died <;> exact uncharge_retentions _ _
    · cases hs
  | monitorExit raised =>
    left
    simp only [Store.step, Store.monitorExit] at hs
    split at hs
    · split at hs
      · cases hs
        rfl
      · split at hs <;> cases hs
        rfl
    · cases hs
  | close =>
    left
    cases hs
    rfl

theorem remoteSpilled_inductive :
    (writebackMachine cfg).Inductive fun w : Store κ => RemoteSpilled cfg w.retentions := by
  constructor
  · rintro w ⟨limit, reserve, rfl, -⟩ rid r ⟨⟩
  · intro w a w' h hs
    rcases step_retentions hs with heq | ⟨i, m, e, g, b, rfl⟩ | ⟨r, g, rfl⟩ | ⟨i, n, e, rfl⟩ |
      ⟨i, rfl⟩ | ⟨r, rfl⟩ | ⟨n, rfl⟩
    · rw [heq]
      exact h
    · cases hs
      exact h.publish
    · cases hs
      exact h.forget
    · cases hs
      exact h.restoreEvent
    · obtain ⟨identity, -, hs⟩ := bind_eq_some_iff.1 hs
      cases hs
      exact RemoteSpilled.forget (w := { w with dueForgets := w.dueForgets.eraseIdx i }) h
    · exact h.spilled hs
    · exact h.spillFailed hs

omit [DecidableEq κ] in
theorem spillGroup_chain {tokens : Int} {results : List (Int × Int × κ)} {covered : Int}
    {ds : List (CheckpointPage κ)} (h : spillGroup tokens covered results = some ds) :
    Chain (ds.map pageRange) covered tokens := by
  induction results generalizing covered ds with
  | nil =>
    rw [spillGroup] at h
    split at h
    · next heq =>
      cases h
      exact heq
    · cases h
  | cons e rest ih =>
    obtain ⟨start, end_, key⟩ := e
    rw [spillGroup] at h
    split at h
    · next hfit =>
      obtain ⟨ds', hd, rfl⟩ := map_eq_some_iff.1 h
      exact ⟨hfit.1, hfit.2.1, ih hd⟩
    · cases h

omit [DecidableEq κ] in
theorem spill_ranges {results : List (Int × Int × κ) × List (Int × Int × κ)}
    (h : spill cfg m results = some remote) : SpillRanges m.prefixEnd remote := by
  obtain ⟨g0, h0, h⟩ := bind_eq_some_iff.1 h
  obtain ⟨g1, h1, h⟩ := bind_eq_some_iff.1 h
  cases h
  exact ⟨_, _, Int.ediv_mul_le m.prefixEnd (Int.ne_of_gt cfg.chunkSize_pos),
    spillGroup_chain h0, spillGroup_chain h1⟩

/-! ## Pages in order -/

variable {prefixEnd : Int}

omit [DecidableEq κ] in
theorem Delivered.below (h : Delivered prefixEnd common l)
    (hl : l.Pairwise fun h k => h.source.start ≤ k.source.start) :
    ∀ e ∈ l, e.source.start < common := by
  rcases eq_nil_or_concat' l with rfl | ⟨front, last, rfl⟩
  · intro e he
    cases he
  have hlast := h.last last (by simp)
  intro e he
  rcases mem_append.1 he with he | he
  · have := (pairwise_append.1 hl).2.2 e he last (mem_singleton_self last)
    omega
  · cases mem_singleton.1 he
    exact hlast

/-- Pages that lead through `[prefixEnd, common)`, each starting where the one before ended. -/
structure Contiguous (prefixEnd common : Int) (l : List (HeldPage κ)) : Prop where
  chain : ∃ a b, a ≤ prefixEnd ∧ common ≤ b ∧ Chain (ranges l) a b
  below : ∀ e ∈ l, e.source.start < common

omit [DecidableEq κ] in
theorem Delivered.contiguous (h : Delivered prefixEnd common l)
    (hl : l.Pairwise fun h k => h.source.end_ ≤ k.source.start) :
      Contiguous prefixEnd common l where
  chain := h.covers.chain (pairwise_map.2 hl) fun e he => by
    obtain ⟨d, hd, rfl⟩ := mem_map.1 he
    exact h.past d hd
  below := by
    refine h.below (hl.imp_of_mem fun {d e} hd _ hde => ?_)
    have := (h.past d hd).1
    omega

/-- The pages returned of a group none of whose raw sources crosses the border of a window. -/
structure Tiled (sources : List (CheckpointPage κ)) (prefixEnd common : Int)
    (l : List (HeldPage κ)) : Prop where
  apart : Apart l
  below : (sources.Pairwise fun p q => p.start ≤ q.start) → ∀ e ∈ l, e.source.start < common
  contiguous : (sources.Pairwise fun p q => p.end_ ≤ q.start) → Contiguous prefixEnd common l

omit [DecidableEq κ] in
theorem Parted.tiled {sources : List (CheckpointPage κ)} (h : Parted sources l)
    (hl : Delivered prefixEnd common l) : Tiled sources prefixEnd common l where
  apart := h.apart
  below hsorted := hl.below (h.sorted hsorted)
  contiguous hdisjoint := hl.contiguous (h.disjoint hdisjoint)

/-- **What an acquire of a retained record delivers.**  The record is that of a
reachable store, the offer may list other sources than it does, and a recheck
finds what the record holds in some later store.  An acquire that returns covers
`[prefixEnd, common)` with the pages of each group, and each returned page has
one of the references taken; when no raw source crosses the border of a window,
no raw page overlaps a remote one, and sources that follow each other give pages
that do.  An acquire that raises gave every reference back.  `available` reports
no less than an acquire of the same state. -/
theorem acquire_delivers {rid : Nat} {r : Retention κ} (hw : (writebackMachine cfg).Reachable w)
    (hr : w.retentions rid = some r) (env : AcquireEnv κ)
    (hlater : ∀ remote, env.recheck = some remote → ∃ w' r', (writebackMachine cfg).Reachable w' ∧
      w'.retentions rid = some r' ∧ r'.manifest = r.manifest ∧ r'.remote = some remote)
    (groups : List (CheckpointPage κ) × List (CheckpointPage κ)) (end_ : Int) :
    wp (acquire env (some r) { r.manifest with groups := groups } end_ false) (post
        (fun out s =>
          Delivered r.manifest.prefixEnd out.1 out.2.1 ∧
          Delivered r.manifest.prefixEnd out.1 out.2.2 ∧
          (∀ p, s.taken.count p = s.released.count p + (heldPages out.2.1).count p +
            (heldPages out.2.2).count p) ∧
          let m := effectiveManifest (some r) { r.manifest with groups := groups }
          ((∀ remote, FoundRemote env (some r) remote → Aligned m remote) →
            Tiled m.groups.1 m.prefixEnd out.1 out.2.1 ∧
            Tiled m.groups.2 m.prefixEnd out.1 out.2.2))
        fun _ s => ∀ p, s.taken.count p = s.released.count p) .new ∧
      Follows (fun out common => out.1 ≤ common)
        (acquire env (some r) { r.manifest with groups := groups }
          (min end_ r.manifest.tokens.length) false)
        (available env (some r) (some { r.manifest with groups := groups }) end_) .new := by
  set offer : LocalCheckpoint κ := { r.manifest with groups := groups } with hoffer
  have hsame : sameRetention (some r) offer = some r := by
    simp [sameRetention, hoffer]
  have hpre : (effectiveManifest (some r) offer).prefixEnd = r.manifest.prefixEnd := by
    unfold effectiveManifest
    simp only
    split <;> rfl
  have hranges : ∀ remote, FoundRemote env (some r) remote →
      SpillRanges (effectiveManifest (some r) offer).prefixEnd remote := by
    intro remote hf
    rw [hpre]
    rcases hf with hf | hf
    · obtain ⟨results, hs⟩ := remoteSpilled_inductive.reachable hw rid r hr remote hf
      exact spill_ranges hs
    · obtain ⟨w', r', hw', hr', hm, hrem⟩ := hlater remote hf
      obtain ⟨results, hs⟩ := remoteSpilled_inductive.reachable hw' rid r' hr' remote hrem
      exact hm ▸ spill_ranges hs
  rw [← hsame] at hranges
  refine ⟨?_, ?_⟩
  · have hspec := acquire_spec (some r) offer end_ false rfl hranges Settled.new
    rw [hsame, hpre] at hspec
    refine wp_mono hspec ?_
    rintro (e | out) s1 h1
    · intro p
      have := Settled.count h1 p
      simpa [heldPages] using this
    · obtain ⟨hset, hdel⟩ := h1
      obtain ⟨hdel, hparted⟩ := hdel rfl
      refine ⟨hdel.group0, hdel.group1, hset.count, fun hal => ?_⟩
      rw [hpre]
      obtain ⟨hparted0, hparted1⟩ := hparted hal
      exact ⟨hparted0.tiled hdel.group0, hparted1.tiled hdel.group1⟩
  · have hf := acquire_follows (some r) offer (min end_ r.manifest.tokens.length) rfl hranges
      Settled.new
    refine wp_any hf fun out s1 h1 => ?_
    change wp (do
      let out ← acquire env (some r) offer (min end_ r.manifest.tokens.length) true
      modify AcquireState.releaseGroups
      pure out.1) _ _
    refine wp_bind_returns h1 fun out' s2 h2 => ?_
    exact h2

/-! ## A spilled record -/

def spillConfig : Config := ⟨fun _ => 4, 2, twoTokens_pos, 64⟩

def spillManifest : LocalCheckpoint Nat :=
  { tokens := [5, 6, 7, 8], prefixEnd := 0, groups := ([⟨0, 4, 70⟩], [⟨0, 4, 71⟩]),
    identity := none, retentionId := none }

/-- A generation is published and its spill confirmed: two windows in each group. -/
def spillRun : List (Action Nat) :=
  [.publish ("r", 1) spillManifest 4 ([(⟨0, 4, 70⟩, 7)], [(⟨0, 4, 71⟩, 8)]) true, .select 0,
   .spilled (some ([(0, 2, 90), (2, 4, 91)], [(0, 2, 92), (2, 4, 93)]))]

def spilledStore : Store Nat :=
  ((writebackMachine spillConfig).run (Store.init 16 4) spillRun).getD (Store.init 16 4)

def spilledRecord : Retention Nat :=
  (spilledStore.retentions 0).getD (.new spillManifest ([], []))

/-- Every raw source is cached, every remote page is there. -/
def cachedEnv : AcquireEnv Nat :=
  { frozen := false
    getPage := fun _ _ source => .ok (some source.key)
    recheck := none
    probePages := fun keys => .ok (keys.map fun _ => true)
    loadPage := fun _ key _ _ => .ok (some key) }

theorem spilledStore_reachable : (writebackMachine spillConfig).Reachable spilledStore := by
  have hr : (writebackMachine spillConfig).run (Store.init 16 4) spillRun = some spilledStore :=
    rfl
  exact Machine.reachable_of_run ⟨16, 4, rfl, by unfold Store.validCapacity; decide⟩ hr

theorem spilled_aligned : Aligned { spilledRecord.manifest with groups := ([⟨0, 2, 70⟩], []) }
    ([⟨0, 2, 90⟩, ⟨2, 4, 91⟩], [⟨0, 2, 92⟩, ⟨2, 4, 93⟩]) := by
  unfold Aligned WithinWindows
  decide

/-- Group 0 has the raw page of its first window, the other windows are fetched. -/
theorem acquire_delivers_mixed : ∃ out,
    (acquire cachedEnv (some spilledRecord)
      { spilledRecord.manifest with groups := ([⟨0, 2, 70⟩], []) } 4 false .new).1 = .ok out ∧
    out.1 = 4 ∧ heldPages out.2.1 = [70, 91] ∧ Contiguous 0 4 out.2.1 ∧ Contiguous 0 4 out.2.2 := by
  have hr : spilledStore.retentions 0 = some spilledRecord := rfl
  have hlater : ∀ remote, cachedEnv.recheck = some remote → ∃ w' r',
      (writebackMachine spillConfig).Reachable w' ∧ w'.retentions 0 = some r' ∧
      r'.manifest = spilledRecord.manifest ∧ r'.remote = some remote := by
    rintro remote ⟨⟩
  have h := (acquire_delivers spilledStore_reachable hr cachedEnv hlater ([⟨0, 2, 70⟩], []) 4).1
  have hrun : (acquire cachedEnv (some spilledRecord)
      { spilledRecord.manifest with groups := ([⟨0, 2, 70⟩], []) } 4 false .new).1 =
      .ok (4, [⟨⟨0, 2, 70⟩, 70, false⟩, ⟨⟨2, 4, 91⟩, 91, true⟩],
        [⟨⟨0, 2, 92⟩, 92, true⟩, ⟨⟨2, 4, 93⟩, 93, true⟩]) := rfl
  rw [wp, hrun] at h
  obtain ⟨htiled0, htiled1⟩ := h.2.2.2 (by
    rintro remote (hfound | hfound)
    · cases hfound
      exact spilled_aligned
    · cases hfound)
  exact ⟨_, hrun, rfl, rfl, htiled0.contiguous (by decide), htiled1.contiguous (by decide)⟩

/-- Descriptors with a gap, which no spill writes. -/
def gapRecord : Retention Nat :=
  { spilledRecord with remote := some ([⟨0, 1, 90⟩, ⟨3, 4, 91⟩], [⟨0, 4, 92⟩]) }

/-- A raw source that crosses a window is returned beside the remote page it
overlaps; descriptors with a gap are returned as if they covered it; raw sources
that overlap are returned so, and those out of order are not all cut at the
common end. -/
theorem acquire_overlap_and_gap :
    (∃ out, (acquire cachedEnv (some spilledRecord)
        { spilledRecord.manifest with groups := ([⟨0, 3, 70⟩], []) } 4 false .new).1 = .ok out ∧
      ¬ Apart out.2.1) ∧
    (∃ out, (acquire cachedEnv (some gapRecord)
        { spilledRecord.manifest with groups := ([], []) } 4 false .new).1 = .ok out ∧
      out.1 = 4 ∧ ¬ Covers (ranges out.2.1) 0 4) ∧
    (∃ out, (acquire cachedEnv (some spilledRecord)
        { spilledRecord.manifest with groups := ([⟨0, 1, 70⟩, ⟨0, 2, 71⟩], []) } 4 false .new).1 =
          .ok out ∧ out.1 = 4 ∧ ranges out.2.1 = [(0, 1), (0, 2), (2, 4)]) ∧
    ∃ out, (acquire { cachedEnv with frozen := true } (some spilledRecord)
        { spilledRecord.manifest with
          groups := ([⟨0, 1, 70⟩, ⟨1, 3, 71⟩, ⟨0, 4, 72⟩], [⟨0, 1, 73⟩]) } 4 false .new).1 =
        .ok out ∧ out.1 = 1 ∧ ranges out.2.1 = [(0, 1), (1, 3), (0, 4)] := by
  refine ⟨?_, ?_, ?_, ?_⟩
  · refine ⟨(4, [⟨⟨0, 3, 70⟩, 70, false⟩, ⟨⟨2, 4, 91⟩, 91, true⟩],
      [⟨⟨0, 2, 92⟩, 92, true⟩, ⟨⟨2, 4, 93⟩, 93, true⟩]), rfl, fun h => ?_⟩
    have := h _ (.head _) _ (.tail _ (.head _)) rfl rfl
    revert this
    decide
  · exact ⟨(4, [⟨⟨0, 1, 90⟩, 90, true⟩, ⟨⟨3, 4, 91⟩, 91, true⟩], [⟨⟨0, 4, 92⟩, 92, true⟩]),
      rfl, rfl, by decide⟩
  · exact ⟨_, rfl, rfl, rfl⟩
  · exact ⟨_, rfl, rfl, rfl⟩

end Checkpoint
