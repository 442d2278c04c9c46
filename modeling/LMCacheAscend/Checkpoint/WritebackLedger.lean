import LMCacheAscend.Lib.Tally
import LMCacheAscend.Checkpoint.Writeback

/-!
# The ledger of the write-back store

Every page that some owner set holds is charged once per set, whatever the
order of the regions: `charges` is the tally of `liveOwnerSets` (`Balanced`),
`used` its weight, and no region overdraws it.  `Wired` says that the records
name different retention objects and that the object of a running spill is
recorded unless it was cancelled.  A region that still has to uncharge a set is
balanced with that set in debt (`owed`), and `uncharge_balanced` pays it.

    writeback_ledger : Reachable w →
      used = Σ size over charges ∧ count = holders ≥ 1 ∧ used ≤ limit ∧ no KeyError
-/

namespace Checkpoint

open Lib List Option Function Dict

/-! ## Charging and uncharging an owner set -/

variable {owners : List Page} {rid : Nat}

section Charges

variable {size : Page → Nat} {c : Charges} {f : Page → Nat}

/-- One more (`charge`) or one less (`uncharge`) at the pages of `owners`. -/
def plusSet (f : Page → Nat) (owners : List Page) (p : Page) : Nat :=
  f p + if p ∈ owners then 1 else 0

@[simp] theorem plusSet_nil : plusSet f [] = f := by
  funext p
  simp [plusSet]

theorem plusSet_cons {p : Page} (h : p ∉ owners) :
    plusSet (update f p (f p + 1)) owners = plusSet f (p :: owners) := by
  funext q
  unfold plusSet
  rw [update_apply]
  by_cases hq : q = p
  · subst hq
    simp [h]
  · simp [hq]

def weight (size : Page → Nat) (d : Dict Page Nat) : Nat := d.weigh fun e => size e.1

theorem chargeOne_tally (h : Tally c.counts f) (p : Page) :
    Tally (chargeOne size c p).counts (update f p (f p + 1)) := by
  unfold chargeOne
  split
  · next hn =>
    have h0 : f p = 0 := by
      by_contra h0
      rw [h.get?_pos (by omega)] at hn
      cases hn
    rw [h0]
    exact h.set p (by omega)
  · next n hn =>
    obtain ⟨-, rfl⟩ := h.eq_of_get? hn
    exact h.set p (by omega)

theorem chargeOne_weight (hu : c.used = weight size c.counts) (p : Page) :
    (chargeOne size c p).used = weight size (chargeOne size c p).counts := by
  unfold chargeOne weight at *
  split
  · next hn =>
    rw [weigh_append _ _ _ (get?_eq_none.1 hn)]
    simp [hu]
  · next n hn =>
    rw [weigh_set (mem_keys_of_get? hn)]
    exact hu

theorem chargeLocked_tally (h : Tally c.counts f) (hnd : owners.Nodup) :
    Tally (chargeLocked size c owners).counts (plusSet f owners) := by
  unfold chargeLocked
  induction owners generalizing c f with
  | nil => simpa using h
  | cons p owners ih =>
    rw [nodup_cons] at hnd
    rw [foldl_cons, ← plusSet_cons hnd.1]
    exact ih (chargeOne_tally h p) hnd.2

theorem chargeLocked_weight (hu : c.used = weight size c.counts) :
    (chargeLocked size c owners).used = weight size (chargeLocked size c owners).counts := by
  unfold chargeLocked
  induction owners generalizing c with
  | nil => exact hu
  | cons p owners ih => exact ih (chargeOne_weight hu p)

theorem chargeOne_used (p : Page) :
    (chargeOne size c p).used = c.used + if p ∈ c.counts.keys then 0 else (size p : Int) := by
  unfold chargeOne
  split
  · next hn => simp [get?_eq_none.1 hn]
  · next n hn => simp [mem_keys_of_get? hn]

theorem mem_keys_chargeOne (p q : Page) :
    q ∈ (chargeOne size c p).counts.keys ↔ q = p ∨ q ∈ c.counts.keys := by
  unfold chargeOne
  split <;> exact mem_keys_set

theorem chargeLocked_used (hnd : owners.Nodup) :
    (chargeLocked size c owners).used = c.used + (addedBytes size c owners : Int) := by
  unfold chargeLocked
  induction owners generalizing c with
  | nil => simp [addedBytes]
  | cons p owners ih =>
    rw [nodup_cons] at hnd
    rw [foldl_cons, ih hnd.2, chargeOne_used]
    have hf : owners.filter (fun q => q ∉ (chargeOne size c p).counts.keys) =
        owners.filter fun q => q ∉ c.counts.keys := by
      apply filter_congr
      intro q hq
      have hqp : q ≠ p := fun h => hnd.1 (h ▸ hq)
      simp [mem_keys_chargeOne, hqp]
    unfold addedBytes
    rw [hf]
    by_cases hp : p ∈ c.counts.keys
    · simp [hp]
    · simp [hp, Int.add_assoc]

theorem addedBytes_eq_zero (h : ∀ p ∈ owners, p ∈ c.counts.keys) :
    addedBytes size c owners = 0 := by
  unfold addedBytes
  rw [filter_eq_nil_iff.2 (by simpa using h)]
  rfl

theorem unchargeLocked_some (h : Tally c.counts (plusSet f owners))
    (hu : c.used = weight size c.counts) (hnd : owners.Nodup) :
    ∃ c' released, unchargeLocked size c owners = some (c', released) ∧ Tally c'.counts f ∧
      c'.used = weight size c'.counts ∧ c'.used ≤ c.used := by
  induction owners generalizing c f with
  | nil => exact ⟨c, 0, rfl, by simpa using h, hu, Int.le_refl _⟩
  | cons p owners ih =>
    rw [nodup_cons] at hnd
    rw [← plusSet_cons hnd.1] at h
    have hfp : plusSet (update f p (f p + 1)) owners p = f p + 1 := by
      simp [plusSet, hnd.1]
    have hn := h.get?_pos (k := p) (by omega)
    rw [hfp] at hn
    have hrest : ∀ n, n = f p → update (plusSet (update f p (f p + 1)) owners) p n =
        plusSet f owners := by
      rintro n rfl
      funext q
      unfold plusSet
      rw [update_apply, update_apply]
      by_cases hq : q = p
      · subst hq
        simp [hnd.1]
      · simp [hq]
    have hmem := mem_keys_of_get? hn
    by_cases h1 : f p = 0
    · have hw := weigh_pop (f := fun e : Page × Nat => size e.1) hn
      have hpop := h.pop p
      rw [hrest 0 h1.symm] at hpop
      obtain ⟨c', released, he, ht, hu', hle⟩ := ih (c := ⟨c.counts.pop p, c.used - size p⟩) hpop
        (by unfold weight at *; simp only at hw ⊢; omega) hnd.2
      refine ⟨c', size p + released, ?_, ht, hu', ?_⟩
      · simp [unchargeLocked, hn, h1, he]
      · simp only at hle
        omega
    · have hset := h.set p (n := f p) (by omega)
      rw [hrest _ rfl] at hset
      obtain ⟨c', released, he, ht, hu', hle⟩ := ih (c := ⟨c.counts.set p (f p), c.used⟩) hset
        (by unfold weight at *; simp only; rw [weigh_set hmem]; exact hu) hnd.2
      refine ⟨c', released, ?_, ht, hu', hle⟩
      simp [unchargeLocked, hn, h1, he]

end Charges

/-! ## Live owner sets -/

variable {κ : Type}

/-- The owner set of a retention's current group lists. -/
def ownersAt (retentions : Nat → Option (Retention κ)) (rid : Nat) : List Page :=
  match retentions rid with
  | some r => ownersOf r.groups
  | none => []

@[simp] theorem ownersAt_update_self (retentions : Nat → Option (Retention κ)) (rid : Nat)
    (r : Retention κ) :
    ownersAt (update retentions rid (some r)) rid = ownersOf r.groups := by
  simp [ownersAt]

theorem ownersAt_update_ne {retentions : Nat → Option (Retention κ)} {rid j : Nat}
    {r : Option (Retention κ)} (h : j ≠ rid) :
    ownersAt (update retentions rid r) j = ownersAt retentions j := by
  simp [ownersAt, h]

def recordSets (w : Store κ) : List (List Page) :=
  w.records.entries.map fun e => ownersAt w.retentions e.2

/-- The group lists the monitor holds: its in-flight copy and a list it is retiring. -/
def monitorSets : Monitor κ → List (List Page)
  | .spilling _ groups => [ownersOf groups]
  | .retiring retired groups => [ownersOf retired, ownersOf groups]
  | .finishing groups _ => [ownersOf groups]
  | .notStarted | .idle | .stopped => []

def quarantineSets (q : List (Quarantined κ)) : List (List Page) :=
  q.filterMap fun
    | .groups g => some (ownersOf g)
    | .page _ => none

/-- Retained record groups, lists handed to an unfinished `_retire`, the monitor's
copies, and quarantined lists. -/
def liveOwnerSets (w : Store κ) : List (List Page) :=
  recordSets w ++ w.retiring.map ownersOf ++ monitorSets w.monitor ++ quarantineSets w.quarantine

theorem holders_liveOwnerSets (w : Store κ) (p : Page) :
    holders (liveOwnerSets w) p = holders (recordSets w) p + holders (w.retiring.map ownersOf) p +
      holders (monitorSets w.monitor) p + holders (quarantineSets w.quarantine) p := by
  simp [liveOwnerSets, holders_append, Nat.add_assoc]

theorem holders_recordSets (w : Store κ) (p : Page) :
    holders (recordSets w) p =
      w.records.weigh fun e => if p ∈ ownersAt w.retentions e.2 then 1 else 0 := by
  unfold recordSets Dict.weigh
  induction w.records.entries with
  | nil => rfl
  | cons e es ih =>
    rw [map_cons, holders_cons, ih, map_cons, sum_cons]
    omega

/-! ## The invariant -/

/-- Records name different retention objects, and the monitor's is among them
unless it was cancelled. -/
structure Wired (w : Store κ) : Prop where
  present : ∀ k rid, w.records.get? k = some rid → ∃ r, w.retentions rid = some r
  inj : ∀ k k' rid, w.records.get? k = some rid → w.records.get? k' = some rid → k = k'
  fresh : ∀ rid r, w.retentions rid = some r → rid < w.nextRetention
  spilling : ∀ rid g, w.monitor = .spilling rid g →
    ∃ r, w.retentions rid = some r ∧ (r.cancelled = false → ∃ k, w.records.get? k = some rid)

/-- The charges are the tally of the live owner sets and of the sets `owed`. -/
structure Balanced (cfg : Config) (owed : List (List Page)) (w : Store κ) : Prop where
  tally : Tally w.charges.counts (holders (owed ++ liveOwnerSets w))
  used : w.charges.used = weight cfg.size w.charges.counts
  le : w.charges.used ≤ w.limit
  noKeyError : w.keyError = false

variable {cfg : Config} {w : Store κ}

variable {w' : Store κ} {r : Retention κ} {identity : Identity} {groups : Groups κ}
  {manifest : LocalCheckpoint κ}

theorem Balanced.of_holders {owed owed' : List (List Page)}
    (h : Balanced cfg owed w) (hc : w'.charges = w.charges) (hl : w'.limit = w.limit)
    (hk : w'.keyError = w.keyError) (hh : ∀ p, holders owed p + holders (liveOwnerSets w) p =
      holders owed' p + holders (liveOwnerSets w') p) : Balanced cfg owed' w' := by
  refine ⟨?_, ?_, ?_, ?_⟩
  · rw [hc]
    apply h.tally.congr
    intro p
    rw [holders_append, holders_append]
    exact hh p
  · rw [hc]
    exact h.used
  · rw [hc, hl]
    exact h.le
  · rw [hk]
    exact h.noKeyError

theorem uncharge_balanced {w : Store κ} (h : Balanced cfg [owners] w)
    (hnd : owners.Nodup) : Balanced cfg [] (w.uncharge cfg owners) := by
  have ht : Tally w.charges.counts (plusSet (holders (liveOwnerSets w)) owners) := by
    apply h.tally.congr
    intro p
    rw [singleton_append, holders_cons]
    rfl
  obtain ⟨c', released, he, ht', hu, hle⟩ := unchargeLocked_some ht h.used hnd
  have hw : w.uncharge cfg owners = { w with charges := c' } := by
    simp [Store.uncharge, he]
  rw [hw]
  exact ⟨ht', hu, Int.le_trans hle h.le, h.noKeyError⟩

theorem uncharge_wired (h : Wired w) : Wired (w.uncharge cfg owners) := by
  unfold Store.uncharge
  split <;> exact ⟨h.present, h.inj, h.fresh, h.spilling⟩

theorem charge_balanced {w w' : Store κ} (h : Balanced cfg [] w)
    (hnd : owners.Nodup) (hc : w'.charges = chargeLocked cfg.size w.charges owners)
    (hl : w'.limit = w.limit) (hk : w'.keyError = w.keyError)
    (hfit : w.charges.used + (addedBytes cfg.size w.charges owners : Int) ≤ w.limit)
    (hh : ∀ p, holders (liveOwnerSets w') p = plusSet (holders (liveOwnerSets w)) owners p) :
    Balanced cfg [] w' := by
  refine ⟨?_, ?_, ?_, ?_⟩
  · rw [hc]
    exact (chargeLocked_tally h.tally hnd).congr fun p => (hh p).symm
  · rw [hc]
    exact chargeLocked_weight h.used
  · rw [hc, hl, chargeLocked_used hnd]
    exact hfit
  · rw [hk]
    exact h.noKeyError

theorem holders_recordSets_update {k : Identity} {rid : Nat} (hw : Wired w)
    (hk : w.records.get? k = some rid) (w' : Store κ) (hr : w'.records = w.records)
    (hret : w'.retentions = update w.retentions rid (some r)) (p : Page) :
    holders (recordSets w') p + (if p ∈ ownersAt w.retentions rid then 1 else 0) =
      holders (recordSets w) p + if p ∈ ownersOf r.groups then 1 else 0 := by
  rw [holders_recordSets, holders_recordSets, hr, hret]
  have hoff : ∀ e ∈ w.records.entries, e.1 ≠ k →
      (if p ∈ ownersAt w.retentions e.2 then 1 else 0) =
        if p ∈ ownersAt (update w.retentions rid (some r)) e.2 then 1 else 0 := by
    intro e he hek
    have : e.2 ≠ rid := by
      intro hrid
      exact hek (hw.inj _ _ rid (by rw [← hrid]; exact mem_entries.1 he) hk)
    rw [ownersAt_update_ne this]
  have := weigh_congr_off hk hoff
  rw [ownersAt_update_self] at this
  omega

theorem recordSets_update_same {r s : Retention κ} (hr : w.retentions rid = some r)
    (hg : s.groups = r.groups) (w' : Store κ) (hrec : w'.records = w.records)
    (hret : w'.retentions = update w.retentions rid (some s)) :
    recordSets w' = recordSets w := by
  unfold recordSets
  rw [hrec, hret]
  apply map_congr_left
  intro e _
  by_cases he : e.2 = rid
  · rw [he, ownersAt_update_self, hg, ownersAt, hr]
  · rw [ownersAt_update_ne he]

theorem setRetention_wired {r r' : Retention κ} (h : Wired w)
    (hr : w.retentions rid = some r) (hc : r'.cancelled = r.cancelled) :
    Wired (w.setRetention rid r') := by
  refine ⟨?_, h.inj, ?_, ?_⟩
  · intro k j hk
    unfold Store.setRetention
    by_cases hj : j = rid
    · simp [hj]
    · simpa [hj] using h.present k j hk
  · intro j s hs
    unfold Store.setRetention at hs
    by_cases hj : j = rid
    · rw [hj]
      exact h.fresh rid r hr
    · exact h.fresh j s (by simpa [hj] using hs)
  · intro j g hm
    obtain ⟨s, hs, hk⟩ := h.spilling j g hm
    unfold Store.setRetention
    by_cases hj : j = rid
    · subst hj
      rw [hr] at hs
      cases hs
      exact ⟨r', by simp, fun h' => hk (hc ▸ h')⟩
    · exact ⟨s, by simpa [hj] using hs, hk⟩

theorem holders_recordSets_pop {k : Identity} (hk : w.records.get? k = some rid)
    (w' : Store κ) (hr : w'.records = w.records.pop k) (hret : w'.retentions = w.retentions)
    (p : Page) :
    holders (recordSets w') p + (if p ∈ ownersAt w.retentions rid then 1 else 0) =
      holders (recordSets w) p := by
  rw [holders_recordSets, holders_recordSets, hr, hret]
  exact weigh_pop (f := fun e => if p ∈ ownersAt w.retentions e.2 then 1 else 0) hk

/-! ## Regions -/

theorem dropRecord_wired {key : Identity} {rid : Nat} (h : Wired w)
    (hk : w.records.get? key = some rid) (hr : w.retentions rid = some r) :
    Wired (w.dropRecord key rid r) := by
  have hoff : ∀ k j, (w.records.pop key).get? k = some j → w.records.get? k = some j ∧ j ≠ rid := by
    intro k j hj
    rw [get?_pop] at hj
    split at hj
    · cases hj
    · next hne => exact ⟨hj, fun he => hne (h.inj k key rid (he ▸ hj) hk)⟩
  have hat : ∀ j, j ≠ rid → (w.dropRecord key rid r).retentions j = w.retentions j :=
    fun j hj => update_of_ne hj ..
  refine ⟨?_, ?_, ?_, ?_⟩
  · intro k j hj
    obtain ⟨hj, hne⟩ := hoff k j hj
    rw [hat j hne]
    exact h.present k j hj
  · intro k k' j hj hj'
    exact h.inj k k' j (hoff k j hj).1 (hoff k' j hj').1
  · intro j s hs
    by_cases he : j = rid
    · exact he ▸ h.fresh rid r hr
    · rw [hat j he] at hs
      exact h.fresh j s hs
  · intro j g hm
    obtain ⟨s, hs, hc⟩ := h.spilling j g hm
    by_cases hj : j = rid
    · exact ⟨r.tombstone, hj ▸ update_self .., fun h' => by cases h'⟩
    refine ⟨s, (hat j hj).trans hs, fun hcan => ?_⟩
    obtain ⟨k, hkj⟩ := hc hcan
    have hne : k ≠ key := by
      rintro rfl
      rw [hk] at hkj
      cases hkj
      exact hj rfl
    exact ⟨k, by simpa [Store.dropRecord, get?_pop, hne] using hkj⟩

theorem dropRecord_balanced {key : Identity} {rid : Nat} (hw : Wired w)
    (h : Balanced cfg [] w) (hk : w.records.get? key = some rid) (hr : w.retentions rid = some r) :
    Balanced cfg [] (w.dropRecord key rid r) := by
  refine h.of_holders rfl rfl rfl fun p => ?_
  have h1 := holders_recordSets_update (r := r.tombstone) hw hk
    (w.setRetention rid r.tombstone) rfl rfl p
  have h2 := holders_recordSets_pop (w := w.setRetention rid r.tombstone) hk
    (w.dropRecord key rid r) rfl rfl p
  have ha : ownersAt w.retentions rid = ownersOf r.groups := by
    rw [ownersAt, hr]
  have hu : ownersAt (w.setRetention rid r.tombstone).retentions rid = [] :=
    ownersAt_update_self _ _ _
  have ht : (w.dropRecord key rid r).retiring = w.retiring ++ [r.groups] := rfl
  rw [ha] at h1
  rw [hu] at h2
  rw [holders_liveOwnerSets, holders_liveOwnerSets, ht, map_append, holders_append,
    map_cons, map_nil, holders_cons, holders_nil]
  change _ = _ + (_ + _ + holders (monitorSets w.monitor) p + holders (quarantineSets w.quarantine) p)
  simp only [Retention.tombstone, ownersOf_nil, not_mem_nil, if_false] at h1 h2
  omega

theorem forgetKey_good (key : Identity) (hw : Wired w) (h : Balanced cfg [] w) :
    Wired (w.forgetKey key) ∧ Balanced cfg [] (w.forgetKey key) := by
  have hw' : Wired { w with manifests := w.manifests.pop key } :=
    ⟨hw.present, hw.inj, hw.fresh, hw.spilling⟩
  have h' : Balanced cfg [] { w with manifests := w.manifests.pop key } :=
    ⟨h.tally, h.used, h.le, h.noKeyError⟩
  unfold Store.forgetKey
  simp only
  split
  · exact ⟨hw', h'⟩
  next rid hk =>
  obtain ⟨r, hr⟩ := hw.present key rid hk
  rw [hr]
  exact ⟨dropRecord_wired hw' hk hr, dropRecord_balanced hw' h' hk hr⟩

theorem forget_good {reqId : String} {generation : Option Int} (hw : Wired w)
    (h : Balanced cfg [] w) :
    Wired (w.forget reqId generation) ∧ Balanced cfg [] (w.forget reqId generation) :=
  w.forget_induction (P := fun w => Wired w ∧ Balanced cfg [] w) ⟨hw, h⟩ fun _ key _ h =>
    forgetKey_good key h.1 h.2

theorem restoreEvent_good {attempt : Int} {event : RestoreEvent}
    (hw : Wired w) (h : Balanced cfg [] w) :
    Wired (w.restoreEvent identity attempt event) ∧
      Balanced cfg [] (w.restoreEvent identity attempt event) := by
  unfold Store.restoreEvent
  split
  · exact ⟨hw, h⟩
  next rid hk =>
  split
  · exact ⟨hw, h⟩
  next r hr =>
  split
  · exact ⟨hw, h⟩
  next attempts retire _ =>
  have hw' : Wired (w.setRetention rid { r with attempts := attempts }) :=
    setRetention_wired hw hr rfl
  have h' : Balanced cfg [] (w.setRetention rid { r with attempts := attempts }) := by
    refine h.of_holders rfl rfl rfl fun p => ?_
    have he := recordSets_update_same (s := { r with attempts := attempts }) hr rfl
      (w.setRetention rid { r with attempts := attempts }) rfl rfl
    rw [holders_liveOwnerSets, holders_liveOwnerSets, he]
    rfl
  split
  · exact ⟨⟨hw'.present, hw'.inj, hw'.fresh, hw'.spilling⟩,
      h'.tally, h'.used, h'.le, h'.noKeyError⟩
  · exact ⟨hw', h'⟩

theorem retire_good {i : Nat} (hw : Wired w) (h : Balanced cfg [] w)
    (hs : w.retire cfg i = some w') : Wired w' ∧ Balanced cfg [] w' := by
  unfold Store.retire at hs
  cases hg : w.retiring[i]? with
  | none => simp [hg] at hs
  | some g =>
    simp only [hg, bind_eq_bind, bind_some, Option.pure_def, some.injEq] at hs
    subst hs
    refine ⟨uncharge_wired ⟨hw.present, hw.inj, hw.fresh, hw.spilling⟩,
      uncharge_balanced (h.of_holders rfl rfl rfl fun p => ?_) (ownersOf_nodup g)⟩
    have := holders_eraseIdx ownersOf hg p
    rw [holders_liveOwnerSets, holders_liveOwnerSets, holders_cons]
    change _ = holders [] p + _ + (holders (recordSets w) p +
      holders ((w.retiring.eraseIdx i).map ownersOf) p + holders (monitorSets w.monitor) p +
      holders (quarantineSets w.quarantine) p)
    omega

theorem select_good {now : Nat} (hw : Wired w) (h : Balanced cfg [] w)
    (hs : w.select cfg now = some w') : Wired w' ∧ Balanced cfg [] w' := by
  unfold Store.select at hs
  split at hs
  · next hm =>
    simp only at hs
    split at hs
    · cases hs
      exact ⟨hw, h⟩
    · next rid r hfound =>
      cases hs
      obtain ⟨e, he, hsel⟩ := exists_of_findSome?_eq_some hfound
      obtain ⟨r', hr, hif⟩ := bind_eq_some_iff.1 hsel
      split at hif
      · next hel =>
        cases hif
        refine ⟨⟨hw.present, hw.inj, hw.fresh, ?_⟩, ?_⟩
        · rintro j g ⟨⟩
          exact ⟨r, hr, fun _ => ⟨e.1, mem_entries.1 he⟩⟩
        · have hown : ownersAt w.retentions e.2 = ownersOf r.groups := by
            rw [ownersAt, hr]
          have hcharged : ∀ p ∈ ownersOf r.groups, p ∈ w.charges.counts.keys := by
            intro p hp
            rw [h.tally.mem_keys, nil_append, holders_liveOwnerSets]
            have : 0 < holders (recordSets w) p :=
              holders_pos (mem_map.2 ⟨e, he, hown⟩) hp
            omega
          refine charge_balanced h (ownersOf_nodup r.groups) rfl rfl rfl ?_ fun p => ?_
          · rw [addedBytes_eq_zero hcharged]
            simpa using h.le
          · rw [holders_liveOwnerSets, plusSet, holders_liveOwnerSets, hm]
            simp only [monitorSets, holders_cons, holders_nil, recordSets]
            omega
      · cases hif
  · cases hs

theorem Balanced.of_monitor {m : Monitor κ} (h : Balanced cfg [] w)
    (hm : ∀ p, holders (monitorSets w.monitor) p = holders (monitorSets m) p) :
    Balanced cfg [] { w with monitor := m } := by
  refine h.of_holders rfl rfl rfl fun p => ?_
  rw [holders_liveOwnerSets, holders_liveOwnerSets, hm p]
  rfl

theorem Wired.of_monitor {m : Monitor κ} (h : Wired w) (hm : ∀ rid g, m ≠ .spilling rid g) :
    Wired { w with monitor := m } :=
  ⟨h.present, h.inj, h.fresh, fun rid g he => absurd he (hm rid g)⟩

theorem spilled_good {results : Option (List (Int × Int × κ) × List (Int × Int × κ))}
    (hw : Wired w) (h : Balanced cfg [] w) (hs : w.spilled cfg results = some w') :
    Wired w' ∧ Balanced cfg [] w' := by
  unfold Store.spilled at hs
  split at hs
  · next rid groups hm =>
    obtain ⟨r, hr, hrec⟩ := hw.spilling rid groups hm
    have hidle : ∀ p, holders (monitorSets w.monitor) p =
        holders (monitorSets (.retiring ([], []) groups)) p := by
      intro p
      rw [hm]
      simp [monitorSets, holders_cons]
    have hwm : Wired { w with monitor := Monitor.retiring ([], []) groups } :=
      hw.of_monitor (by simp)
    rw [hr] at hs
    simp only [bind_eq_bind, bind_some] at hs
    split at hs
    · cases hs
      exact ⟨hwm, h.of_monitor hidle⟩
    · next res =>
      obtain ⟨remote, -, hs⟩ := bind_eq_some_iff.1 hs
      split at hs
      · cases hs
        exact ⟨hwm, h.of_monitor hidle⟩
      · next hcan =>
        cases hs
        obtain ⟨k, hk⟩ := hrec (by simpa using hcan)
        have hset : Wired (w.setRetention rid (r.confirm remote)) := setRetention_wired hw hr rfl
        refine ⟨hset.of_monitor (by simp), h.of_holders rfl rfl rfl fun p => ?_⟩
        -- the raw owners move from the record to the list being retired
        have h1 := holders_recordSets_update (r := r.confirm remote) hw hk
          { w.setRetention rid (r.confirm remote) with monitor := .retiring r.groups groups }
          rfl rfl p
        have ha : ownersAt w.retentions rid = ownersOf r.groups := by
          rw [ownersAt, hr]
        rw [ha] at h1
        simp only [Retention.confirm, ownersOf_nil, not_mem_nil, if_false] at h1
        rw [holders_liveOwnerSets, holders_liveOwnerSets, hm]
        simp only [Retention.confirm, Store.setRetention, monitorSets, holders_cons,
          holders_nil] at h1 ⊢
        omega
  · cases hs

theorem spillFailed_good {now : Nat} (hw : Wired w) (h : Balanced cfg [] w)
    (hs : w.spillFailed now = some w') : Wired w' ∧ Balanced cfg [] w' := by
  unfold Store.spillFailed at hs
  split at hs
  · next rid groups hm =>
    obtain ⟨r, hr, -⟩ := hw.spilling rid groups hm
    simp only [hr, bind_eq_bind, bind_some, some.injEq] at hs
    subst hs
    have hset : Wired (w.setRetention rid { r with retryAt := now + second }) :=
      setRetention_wired hw hr rfl
    refine ⟨hset.of_monitor (by simp), h.of_holders rfl rfl rfl fun p => ?_⟩
    have he := recordSets_update_same (s := { r with retryAt := now + second }) hr rfl
      { w.setRetention rid { r with retryAt := now + second } with
        monitor := .finishing groups false } rfl rfl
    rw [holders_liveOwnerSets, holders_liveOwnerSets, he, hm]
    rfl
  · cases hs

theorem spillDied_good (hw : Wired w) (h : Balanced cfg [] w)
    (hs : w.spillDied = some w') : Wired w' ∧ Balanced cfg [] w' := by
  unfold Store.spillDied at hs
  split at hs
  · next rid groups hm =>
    cases hs
    exact ⟨hw.of_monitor (by simp), h.of_monitor fun p => by rw [hm]; rfl⟩
  · cases hs

theorem spillUnknown_good {page : Option Page} (hw : Wired w)
    (h : Balanced cfg [] w) (hs : w.spillUnknown page = some w') :
    Wired w' ∧ Balanced cfg [] w' := by
  unfold Store.spillUnknown at hs
  split at hs
  · next rid groups hm =>
    cases hs
    refine ⟨⟨hw.present, hw.inj, hw.fresh, by rintro j g ⟨⟩⟩, h.of_holders rfl rfl rfl fun p => ?_⟩
    have hq : quarantineSets (w.quarantine ++ (page.map Quarantined.page).toList ++ [.groups groups]) =
        quarantineSets w.quarantine ++ [ownersOf groups] := by
      cases page <;> simp [quarantineSets]
    rw [holders_liveOwnerSets, holders_liveOwnerSets, hq, holders_append, hm]
    simp only [recordSets, monitorSets, holders_nil]
    omega
  · cases hs

theorem retireConfirmed_good (hw : Wired w) (h : Balanced cfg [] w)
    (hs : w.retireConfirmed cfg = some w') : Wired w' ∧ Balanced cfg [] w' := by
  unfold Store.retireConfirmed at hs
  split at hs
  · next retired groups hm =>
    cases hs
    refine ⟨uncharge_wired (hw.of_monitor (by simp)),
      uncharge_balanced (h.of_holders rfl rfl rfl fun p => ?_) (ownersOf_nodup retired)⟩
    rw [holders_liveOwnerSets, holders_liveOwnerSets, hm]
    simp only [recordSets, monitorSets, holders_cons, holders_nil]
    omega
  · cases hs

theorem finishSpill_good (hw : Wired w) (h : Balanced cfg [] w)
    (hs : w.finishSpill cfg = some w') : Wired w' ∧ Balanced cfg [] w' := by
  unfold Store.finishSpill at hs
  split at hs
  · next groups died hm =>
    cases hs
    have hh : ∀ p, holders [] p + holders (liveOwnerSets w) p = holders [ownersOf groups] p +
        holders (liveOwnerSets { w with monitor := .stopped }) p := by
      intro p
      rw [holders_liveOwnerSets, holders_liveOwnerSets, hm]
      simp only [recordSets, monitorSets, holders_cons, holders_nil]
      omega
    cases died with
    | true =>
      exact ⟨uncharge_wired ⟨hw.present, hw.inj, hw.fresh, by rintro j g ⟨⟩⟩,
        uncharge_balanced (h.of_holders rfl rfl rfl hh) (ownersOf_nodup groups)⟩
    | false =>
      exact ⟨uncharge_wired (hw.of_monitor (by simp)),
        uncharge_balanced (h.of_holders rfl rfl rfl hh) (ownersOf_nodup groups)⟩
  · cases hs

theorem monitorExit_good {raised : Bool} (hw : Wired w) (h : Balanced cfg [] w)
    (hs : w.monitorExit raised = some w') : Wired w' ∧ Balanced cfg [] w' := by
  unfold Store.monitorExit at hs
  split at hs
  · next hm =>
    have hst : Balanced cfg [] { w with monitor := .stopped } :=
      h.of_monitor fun p => by rw [hm]; rfl
    split at hs
    · cases hs
      exact ⟨⟨hw.present, hw.inj, hw.fresh, by rintro j g ⟨⟩⟩,
        hst.tally, hst.used, hst.le, hst.noKeyError⟩
    split at hs
    · cases hs
      exact ⟨hw.of_monitor (by simp), hst⟩
    · cases hs
  · cases hs

theorem runForget_good {i : Nat} (hw : Wired w) (h : Balanced cfg [] w)
    (hs : w.runForget i = some w') : Wired w' ∧ Balanced cfg [] w' := by
  unfold Store.runForget at hs
  obtain ⟨identity, -, hs⟩ := bind_eq_some_iff.1 hs
  cases hs
  exact forget_good ⟨hw.present, hw.inj, hw.fresh, hw.spilling⟩
    ⟨h.tally, h.used, h.le, h.noKeyError⟩

theorem unretain_good {w : Store κ}
    (hw : Wired w) (h : Balanced cfg [] w) (hk : w.records.get? identity = some rid)
    (hg : ownersAt w.retentions rid = ownersOf groups) (hm : w.monitor = .notStarted) :
    Wired (Store.uncharge cfg { w with records := w.records.pop identity } (ownersOf groups)) ∧
      Balanced cfg []
        (Store.uncharge cfg { w with records := w.records.pop identity } (ownersOf groups)) := by
  constructor
  · apply uncharge_wired
    refine ⟨?_, ?_, hw.fresh, ?_⟩
    · intro k j hj
      simp only [get?_pop] at hj
      split at hj
      · cases hj
      · exact hw.present k j hj
    · intro k k' j hj hj'
      simp only [get?_pop] at hj hj'
      split at hj
      · cases hj
      split at hj'
      · cases hj'
      · exact hw.inj k k' j hj hj'
    · intro j g hj
      simp only [hm] at hj
      cases hj
  · apply uncharge_balanced _ (ownersOf_nodup groups)
    refine h.of_holders rfl rfl rfl fun p => ?_
    have := holders_recordSets_pop hk { w with records := w.records.pop identity } rfl rfl p
    rw [hg] at this
    rw [holders_liveOwnerSets, holders_liveOwnerSets, holders_cons]
    simp only [holders_nil]
    omega

variable [DecidableEq κ]

theorem retain_wired (h : Wired w) (hn : identity ∉ w.records.keys) :
    Wired (w.retain cfg identity manifest groups) := by
  have hne : ∀ k rid, w.records.get? k = some rid → rid ≠ w.nextRetention := by
    intro k rid hk
    obtain ⟨r, hr⟩ := h.present k rid hk
    exact Nat.ne_of_lt (h.fresh rid r hr)
  refine ⟨?_, ?_, ?_, ?_⟩
  · intro k rid hk
    simp only [Store.retain, get?_set] at hk ⊢
    split at hk
    · cases hk
      exact ⟨_, update_self ..⟩
    · rw [update_of_ne (hne k rid hk)]
      exact h.present k rid hk
  · intro k k' rid hk hk'
    simp only [Store.retain, get?_set] at hk hk'
    split at hk <;> split at hk'
    · next h1 h2 => rw [h1, h2]
    · cases hk
      exact absurd rfl (hne _ _ hk')
    · cases hk'
      exact absurd rfl (hne _ _ hk)
    · exact h.inj k k' rid hk hk'
  · intro rid r hr
    simp only [Store.retain] at hr ⊢
    by_cases he : rid = w.nextRetention
    · omega
    · rw [update_of_ne he] at hr
      exact Nat.lt_succ_of_lt (h.fresh rid r hr)
  · intro rid g hm
    obtain ⟨r, hr, hc⟩ := h.spilling rid g hm
    have he : rid ≠ w.nextRetention := Nat.ne_of_lt (h.fresh rid r hr)
    refine ⟨r, by simpa only [Store.retain, update_of_ne he] using hr, fun hcan => ?_⟩
    obtain ⟨k, hk⟩ := hc hcan
    have hki : k ≠ identity := fun he => hn (he ▸ mem_keys_of_get? hk)
    exact ⟨k, by simpa only [Store.retain, get?_set_ne hki] using hk⟩

theorem retain_balanced (hw : Wired w) (h : Balanced cfg [] w) (hn : identity ∉ w.records.keys)
    (hfit : w.charges.used + (addedBytes cfg.size w.charges (ownersOf groups) : Int) ≤ w.limit) :
    Balanced cfg [] (w.retain cfg identity manifest groups) := by
  refine charge_balanced h (ownersOf_nodup groups) rfl rfl rfl hfit fun p => ?_
  have hrec : holders (recordSets (w.retain cfg identity manifest groups)) p =
      holders (recordSets w) p + if p ∈ ownersOf groups then 1 else 0 := by
    have hold : ∀ e ∈ w.records.entries,
        ownersAt (w.retain cfg identity manifest groups).retentions e.2 =
          ownersAt w.retentions e.2 := by
      intro e he
      obtain ⟨r, hr⟩ := hw.present _ _ (mem_entries.1 he)
      exact ownersAt_update_ne (Nat.ne_of_lt (hw.fresh _ r hr))
    have hnew : ownersAt (w.retain cfg identity manifest groups).retentions w.nextRetention =
        ownersOf groups := ownersAt_update_self _ _ _
    rw [holders_recordSets, holders_recordSets]
    change Dict.weigh _ (w.records.set identity w.nextRetention) = _
    rw [weigh_append _ _ _ hn, hnew]
    congr 1
    unfold Dict.weigh
    congr 1
    apply map_congr_left
    intro e he
    rw [hold e he]
  rw [holders_liveOwnerSets, hrec, plusSet, holders_liveOwnerSets]
  simp only [Store.retain]
  omega

theorem publish_good {end_ : Int} {starts : Bool} (hw : Wired w) (h : Balanced cfg [] w) :
    Wired (w.publish cfg identity manifest end_ groups starts) ∧
      Balanced cfg [] (w.publish cfg identity manifest end_ groups starts) := by
  unfold Store.publish
  split
  · exact ⟨hw, h⟩
  split
  · exact ⟨hw, h⟩
  next hn =>
  simp only
  split
  · next hfit =>
    obtain ⟨-, hfit⟩ := hfit
    set m : LocalCheckpoint κ :=
      { manifest with identity := some identity, retentionId := some w.nextObject }
    set w1 : Store κ := { w with
      manifests := w.manifests.set identity m
      nextObject := w.nextObject + 1 } with hw1
    have hw' : Wired w1 := ⟨hw.present, hw.inj, hw.fresh, hw.spilling⟩
    have h' : Balanced cfg [] w1 := ⟨h.tally, h.used, h.le, h.noKeyError⟩
    have hwr : Wired (w1.retain cfg identity m groups) := retain_wired hw' hn
    have hbr : Balanced cfg [] (w1.retain cfg identity m groups) := retain_balanced hw' h' hn hfit
    split
    · next hm =>
      split
      · refine ⟨⟨hwr.present, hwr.inj, hwr.fresh, ?_⟩, ?_⟩
        · rintro rid g ⟨⟩
        · refine hbr.of_holders rfl rfl rfl fun p => ?_
          rw [holders_liveOwnerSets, holders_liveOwnerSets, hm]
          rfl
      · apply unretain_good hwr hbr _ _ hm
        · exact w1.nextRetention
        · simp [Store.retain]
        · simp [Store.retain, ownersAt, Retention.new]
    · exact ⟨hwr, hbr⟩
  · exact ⟨⟨hw.present, hw.inj, hw.fresh, hw.spilling⟩, h.tally, h.used, h.le, h.noKeyError⟩

/-! ## Runs -/

theorem step_good {a : Action κ} (hw : Wired w) (h : Balanced cfg [] w)
    (hs : w.step cfg a = some w') : Wired w' ∧ Balanced cfg [] w' := by
  cases a with
  | publish => cases hs; exact publish_good hw h
  | forget => cases hs; exact forget_good hw h
  | restoreEvent => cases hs; exact restoreEvent_good hw h
  | runForget => exact runForget_good hw h hs
  | retire => exact retire_good hw h hs
  | select => exact select_good hw h hs
  | spilled => exact spilled_good hw h hs
  | spillFailed => exact spillFailed_good hw h hs
  | spillDied => exact spillDied_good hw h hs
  | spillUnknown => exact spillUnknown_good hw h hs
  | retireConfirmed => exact retireConfirmed_good hw h hs
  | finishSpill => exact finishSpill_good hw h hs
  | monitorExit => exact monitorExit_good hw h hs
  | close =>
    cases hs
    exact ⟨⟨hw.present, hw.inj, hw.fresh, hw.spilling⟩, h.tally, h.used, h.le, h.noKeyError⟩

theorem writeback_inductive :
    (writebackMachine cfg).Inductive fun w : Store κ => Wired w ∧ Balanced cfg [] w := by
  constructor
  · rintro w ⟨limit, reserve, rfl, ⟨hpos, -⟩, -⟩
    refine ⟨⟨?_, ?_, ?_, ?_⟩, Tally.empty, rfl, ?_, rfl⟩
    · rintro k rid ⟨⟩
    · rintro k k' rid ⟨⟩
    · rintro rid r ⟨⟩
    · rintro rid g ⟨⟩
    · exact Int.le_of_lt hpos
  · rintro w a w' ⟨hw, h⟩ hs
    exact step_good hw h hs

/-- **The ledger.**  In every reachable state `used` is the size of the charged
pages, every count is the number of live owner sets holding the page (so at
least one), `used` stays within the limit and no region met a missing key. -/
theorem writeback_ledger (h : (writebackMachine cfg).Reachable w) :
    w.charges.used = ((w.charges.counts.keys.map cfg.size).sum : Nat) ∧
    (∀ p n, w.charges.counts.get? p = some n → 1 ≤ n ∧ n = holders (liveOwnerSets w) p) ∧
    w.charges.used ≤ w.limit ∧ w.keyError = false := by
  obtain ⟨-, hb⟩ := writeback_inductive.reachable h
  refine ⟨?_, ?_, hb.le, hb.noKeyError⟩
  · rw [hb.used]
    simp [weight, Dict.weigh, Dict.keys, comp_def]
  · intro p n hn
    exact hb.tally.eq_of_get? hn

def sharedConfig : Config := ⟨fun _ => 4, 2, twoTokens_pos, 64⟩

def sharedManifest : LocalCheckpoint Nat :=
  { tokens := [5, 6], prefixEnd := 0, groups := ([⟨0, 2, 70⟩], [⟨0, 2, 71⟩]),
    identity := none, retentionId := none }

def sharedGroups : Groups Nat := ([(⟨0, 2, 70⟩, 7)], [(⟨0, 2, 71⟩, 8)])

/-- Two generations share their pages; the first is forgotten while it is spilled. -/
def sharedRun : List (Action Nat) :=
  [.publish ("r", 1) sharedManifest 2 sharedGroups true,
   .publish ("r", 2) sharedManifest 2 sharedGroups true,
   .select 0, .forget "r" (some 1)]

def sharedStore : Store Nat :=
  ((writebackMachine sharedConfig).run (Store.init 16 4) sharedRun).getD (Store.init 16 4)

theorem writeback_ledger_shared :
    sharedStore.charges.counts.get? 7 = some 3 ∧ holders (liveOwnerSets sharedStore) 7 = 3 ∧
      sharedStore.charges.used = 8 ∧ sharedStore.keyError = false := by
  have hr : (writebackMachine sharedConfig).run (Store.init 16 4) sharedRun = some sharedStore :=
    rfl
  have h := writeback_ledger
    (Machine.reachable_of_run ⟨16, 4, rfl, by unfold Store.validCapacity; decide⟩ hr)
  have h7 : sharedStore.charges.counts.get? 7 = some 3 := rfl
  exact ⟨h7, (h.2.1 7 3 h7).2.symm, h.1.trans rfl, h.2.2.2⟩

end Checkpoint
