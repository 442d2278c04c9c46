import LMCacheAscend.DirectStore.PendingStores

/-!
# Where the futures of the direct store are

The part of the engine that says where each put future is (`Book`): a future
that has not counted down is held by the waits of its request, as one to be
drained or as one that failed in the wait of the moment, or it is abandoned
(`Book.Kept`).  What a step does with a future keeps this, one lemma for each.
-/

namespace PendingStores

open Lib List Function Dict

/-! ## Where the futures are -/

/-- The futures that failed in the wait of the phase. -/
def Phase.failed : Phase → List Nat
  | .draining failed => failed.map Prod.fst
  | .repairing failed => failed.map Prod.fst
  | _ => []

/-- The futures alone. -/
structure Book where
  owners : List String
  outcome : Nat → Option Outcome
  completed : Finset Nat
  countedDown : List Nat
  abandoned : List Nat
  callbacks : Dict Nat (String × Finset String)
  retryArgs : Dict Nat (Finset String)
  futures : String → List Nat
  failed : String → List Nat

def Engine.book (s : Engine) : Book where
  owners := s.owners
  outcome := s.outcome
  completed := s.completed
  countedDown := s.countedDown
  abandoned := s.abandoned
  callbacks := s.callbacks
  retryArgs := s.retryArgs
  futures := s.futures
  failed reqId := (s.phase reqId).failed

/-- The futures that the waits of the request have still to take. -/
def Book.held (b : Book) (reqId : String) : List Nat := b.failed reqId ++ b.futures reqId

/-- Each future that has not counted down is held by a wait to come, or it is abandoned. -/
structure Book.Kept (b : Book) : Prop where
  running : ∀ f, b.owners.length ≤ f → b.outcome f = none
  bound : ∀ f ∈ b.completed, f < b.owners.length
  ended : ∀ f ∈ b.completed, b.outcome f = some .ok ∨
    b.outcome f = some .failed ∧ ∀ q, f ∉ b.held q
  once : b.countedDown.Nodup
  counted : ∀ f, f ∈ b.countedDown ↔ f ∈ b.completed
  owned : ∀ q, ∀ f ∈ b.held q, b.owners[f]? = some q
  nodup : ∀ q, (b.held q).Nodup
  failed : ∀ q, ∀ f ∈ b.failed q, b.outcome f = some .failed ∧ f ∉ b.completed
  retry : ∀ q, ∀ f ∈ b.futures q, f ∈ b.retryArgs.keys
  callback : ∀ f q keys, b.callbacks.get? f = some (q, keys) → b.owners[f]? = some q
  held : ∀ f q, b.owners[f]? = some q → f ∉ b.completed → f ∈ b.held q ∨ f ∈ b.abandoned
  abandoned : ∀ f ∈ b.abandoned, f ∉ b.completed ∧
    (b.outcome f = some .failed ∨ b.outcome f = some .unknown) ∧ ∀ q, f ∉ b.held q
  fatal : ∀ f ∈ b.abandoned, ∃ q, b.owners[f]? = some q ∧
    ∃ g ∈ b.abandoned, b.owners[g]? = some q ∧ b.outcome g = some .unknown

section

variable {b : Book} {reqId : String} {f : Nat}

theorem Book.Kept.same (h : b.Kept) {q : String} (hf : f ∈ b.held reqId) (hq : f ∈ b.held q) :
    q = reqId := by
  have hother := h.owned q f hq
  rw [h.owned reqId f hf] at hother
  exact (Option.some.inj hother).symm

/-- A new future. -/
def Book.put (b : Book) (reqId : String) (keys : Finset String) : Book :=
  { b with
    owners := b.owners ++ [reqId]
    callbacks := b.callbacks.set b.owners.length (reqId, keys)
    retryArgs := b.retryArgs.set b.owners.length keys
    futures := update b.futures reqId (b.futures reqId ++ [b.owners.length]) }

theorem Book.getElem?_put (b : Book) (reqId : String) (keys : Finset String) {q : String}
    (h : b.owners[f]? = some q) : (b.put reqId keys).owners[f]? = some q :=
  getElem?_append_some h [reqId]

/-- A submitted future is held by its request. -/
theorem Book.Kept.put (h : b.Kept) (reqId : String) (keys : Finset String) :
    (b.put reqId keys).Kept := by
  have hmem : ∀ q g, g ∈ (b.put reqId keys).held q ↔
      g ∈ b.held q ∨ g = b.owners.length ∧ q = reqId := by
    intro q g
    show g ∈ b.failed q ++ update b.futures reqId _ q ↔ g ∈ b.failed q ++ b.futures q ∨ _
    rw [update_apply]
    by_cases hq : q = reqId
    · subst hq
      simp [or_assoc]
    · simp [hq]
  have hlt : ∀ q, ∀ g ∈ b.held q, g < b.owners.length := fun q g hg =>
    lt_of_getElem? (h.owned q g hg)
  have hlast : (b.put reqId keys).owners[b.owners.length]? = some reqId := getElem?_snoc_self ..
  refine ⟨fun g hg => h.running g ?_, fun g hg => ?_, fun g hg => ?_, h.once, h.counted,
    fun q g hg => ?_, fun q => ?_, h.failed, fun q g hg => ?_, fun g q ks hg => ?_,
    fun g q hg hc => ?_, fun g hg => ?_, fun g hg => ?_⟩
  · have hg : (b.owners ++ [reqId]).length ≤ g := hg
    rw [length_append] at hg
    exact Nat.le_of_succ_le hg
  · show g < (b.owners ++ [reqId]).length
    rw [length_append]
    exact Nat.lt_succ_of_lt (h.bound g hg)
  · refine (h.ended g hg).imp_right fun ho => ⟨ho.1, fun q hq => ?_⟩
    rcases (hmem q g).1 hq with hq | ⟨rfl, -⟩
    · exact ho.2 q hq
    · exact absurd (h.bound _ hg) (Nat.lt_irrefl _)
  · rcases (hmem q g).1 hg with hg | ⟨rfl, rfl⟩
    · exact b.getElem?_put reqId keys (h.owned q g hg)
    · exact hlast
  · show (b.failed q ++ update b.futures reqId _ q).Nodup
    rw [update_apply]
    split
    · next hq =>
      subst hq
      rw [← append_assoc]
      exact nodup_snoc (h.nodup q) fun hmem => Nat.lt_irrefl _ (hlt q _ hmem)
    · exact h.nodup q
  · refine mem_keys_set.2 ?_
    have hg : g ∈ update b.futures reqId (b.futures reqId ++ [b.owners.length]) q := hg
    rw [update_apply] at hg
    split at hg
    · rcases mem_append.1 hg with hg | hg
      · exact .inr (h.retry _ g hg)
      · exact .inl (mem_singleton.1 hg)
    · exact .inr (h.retry q g hg)
  · have hg : (b.callbacks.set b.owners.length (reqId, keys)).get? g = some (q, ks) := hg
    rw [get?_set] at hg
    split at hg
    · next hlen =>
      cases hg
      rw [hlen]
      exact hlast
    · exact b.getElem?_put reqId keys (h.callback g q ks hg)
  · have hg : (b.owners ++ [reqId])[g]? = some q := hg
    rcases getElem?_snoc.1 hg with hg | hlast
    · exact (h.held g q hg hc).imp_left fun hg => (hmem q g).2 (.inl hg)
    · exact .inl ((hmem q g).2 (.inr hlast))
  · obtain ⟨hc, ho, hh⟩ := h.abandoned g hg
    refine ⟨hc, ho, fun q hq => ?_⟩
    rcases (hmem q g).1 hq with hq | ⟨rfl, -⟩
    · exact hh q hq
    · rw [h.running _ (Nat.le_refl _)] at ho
      simp at ho
  · obtain ⟨q, hq, g', hg', hq', ho⟩ := h.fatal g hg
    exact ⟨q, b.getElem?_put reqId keys hq, g', hg', b.getElem?_put reqId keys hq', ho⟩

theorem Book.Kept.complete (h : b.Kept) (hlt : f < b.owners.length) (hopen : b.outcome f = none)
    (outcome : Outcome) :
    Book.Kept { b with outcome := update b.outcome f (some outcome) } := by
  -- an end that was known before is not touched
  have hsame : ∀ {g : Nat} {o : Outcome}, b.outcome g = some o →
      update b.outcome f (some outcome) g = some o := by
    intro g o hg
    rw [update_apply, if_neg, hg]
    rintro rfl
    rw [hopen] at hg
    cases hg
  refine ⟨fun g hg => ?_, h.bound,
    fun g hg => (h.ended g hg).imp hsame fun ho => ⟨hsame ho.1, ho.2⟩, h.once, h.counted,
    h.owned, h.nodup, fun q g hg => ⟨hsame (h.failed q g hg).1, (h.failed q g hg).2⟩, h.retry,
    h.callback, h.held, fun g hg => ?_, fun g hg => ?_⟩
  · show update b.outcome f (some outcome) g = none
    rw [update_apply, if_neg (by rintro rfl; exact absurd hlt (Nat.not_lt.2 hg))]
    exact h.running g hg
  · obtain ⟨hc, ho, hh⟩ := h.abandoned g hg
    exact ⟨hc, ho.imp hsame hsame, hh⟩
  · obtain ⟨q, hq, g', hg', hq', ho⟩ := h.fatal g hg
    exact ⟨q, hq, g', hg', hq', hsame ho⟩

theorem Book.Kept.ran (h : b.Kept) (f : Nat) :
    Book.Kept { b with callbacks := b.callbacks.pop f } := by
  refine ⟨h.running, h.bound, h.ended, h.once, h.counted, h.owned, h.nodup, h.failed, h.retry,
    fun g q keys hg => ?_, h.held, h.abandoned, h.fatal⟩
  have hg : (b.callbacks.pop f).get? g = some (q, keys) := hg
  rw [get?_pop] at hg
  split at hg
  · cases hg
  · exact h.callback g q keys hg

/-- The future counts down. -/
def Book.reap (b : Book) (f : Nat) : Book :=
  { b with completed := insert f b.completed, countedDown := b.countedDown ++ [f] }

theorem nodup_countedDown (h : b.Kept) (hc : f ∉ b.completed) : (b.countedDown ++ [f]).Nodup :=
  nodup_snoc h.once fun hmem => hc ((h.counted f).1 hmem)

theorem mem_reap_countedDown (h : b.Kept) (g : Nat) :
    g ∈ (b.reap f).countedDown ↔ g ∈ (b.reap f).completed := by
  show g ∈ b.countedDown ++ [f] ↔ g ∈ insert f b.completed
  rw [mem_append, mem_singleton, h.counted, Finset.mem_insert, or_comm]

theorem Book.Kept.reap (h : b.Kept) (hlt : f < b.owners.length) (hc : f ∉ b.completed)
    (ho : b.outcome f = some .ok) : (b.reap f).Kept := by
  refine ⟨h.running, fun g hg => ?_, fun g hg => ?_, nodup_countedDown h hc, mem_reap_countedDown h,
    h.owned, h.nodup, fun q g hg => ⟨(h.failed q g hg).1, fun hg' => ?_⟩, h.retry, h.callback,
    fun g q hg hc' => h.held g q hg fun hg' => hc' (Finset.mem_insert_of_mem hg'),
    fun g hg => ⟨fun hg' => ?_, (h.abandoned g hg).2⟩, h.fatal⟩
  · rcases Finset.mem_insert.1 hg with rfl | hg
    · exact hlt
    · exact h.bound g hg
  · rcases Finset.mem_insert.1 hg with rfl | hg
    · exact .inl ho
    · exact h.ended g hg
  · rcases Finset.mem_insert.1 hg' with rfl | hg'
    · have hfailed := (h.failed q g hg).1
      rw [ho] at hfailed
      cases hfailed
    · exact (h.failed q g hg).2 hg'
  · rcases Finset.mem_insert.1 hg' with rfl | hg'
    · have hend := (h.abandoned g hg).2.1
      rw [ho] at hend
      exact hend.elim nofun nofun
    · exact (h.abandoned g hg).1 hg'

/-- A repaired future is reaped, and no longer among the failed ones. -/
theorem Book.Kept.repaired (h : b.Kept) {failed : List Nat} (hfailed : b.failed reqId = f :: failed) :
    Book.Kept { b.reap f with failed := update b.failed reqId failed } := by
  obtain ⟨ho, hc⟩ := h.failed reqId f (hfailed ▸ mem_cons_self)
  have hheld : ∀ q, ({ b.reap f with failed := update b.failed reqId failed } : Book).held q =
      if q = reqId then failed ++ b.futures q else b.held q := by
    intro q
    show update b.failed reqId failed q ++ b.futures q = _
    rw [update_apply]
    split <;> rfl
  have hself : b.held reqId = f :: (failed ++ b.futures reqId) := by
    show b.failed reqId ++ _ = _
    rw [hfailed]
    rfl
  have hsub : ∀ q g, g ∈ ({ b.reap f with
      failed := update b.failed reqId failed } : Book).held q → g ∈ b.held q := by
    intro q g hg
    rw [hheld] at hg
    split at hg
    · next hq =>
      rw [hq] at hg ⊢
      rw [hself]
      exact mem_cons_of_mem f hg
    · exact hg
  have howner := h.owned reqId f (by rw [hself]; exact mem_cons_self)
  have hlt := lt_of_getElem? howner
  refine ⟨h.running, fun g hg => ?_, fun g hg => ?_, nodup_countedDown h hc, mem_reap_countedDown h,
    fun q g hg => h.owned q g (hsub q g hg), fun q => ?_, fun q g hg => ?_, h.retry, h.callback,
    fun g q hg hc' => ?_, fun g hg => ?_, h.fatal⟩
  · rcases Finset.mem_insert.1 hg with rfl | hg
    · exact hlt
    · exact h.bound g hg
  · rcases Finset.mem_insert.1 hg with rfl | hg
    · refine .inr ⟨ho, fun q hq => ?_⟩
      rw [hheld] at hq
      split at hq
      · next heq =>
        have hnodup := h.nodup reqId
        rw [hself] at hnodup
        rw [heq] at hq
        exact (nodup_cons.1 hnodup).1 hq
      · next hne => exact hne (h.same (by rw [hself]; exact mem_cons_self) hq)
    · exact (h.ended g hg).imp_right fun ho' => ⟨ho'.1, fun q hq => ho'.2 q (hsub q g hq)⟩
  · rw [hheld]
    split
    · next hq =>
      have hnodup := h.nodup reqId
      rw [hself] at hnodup
      rw [hq]
      exact hnodup.of_cons
    · exact h.nodup q
  · have hmem : g ∈ b.failed q ∧ g ≠ f := by
      change g ∈ update b.failed reqId failed q at hg
      rw [update_apply] at hg
      split at hg
      · next hq =>
        rw [hq, hfailed]
        refine ⟨mem_cons_of_mem f hg, ?_⟩
        rintro rfl
        have hnodup := h.nodup reqId
        rw [hself] at hnodup
        exact (nodup_cons.1 hnodup).1 (mem_append_left _ hg)
      · next hq =>
        refine ⟨hg, ?_⟩
        rintro rfl
        exact hq (h.same (by rw [hself]; exact mem_cons_self) (mem_append_left _ hg))
    refine ⟨(h.failed q g hmem.1).1, fun hg' => ?_⟩
    rcases Finset.mem_insert.1 hg' with rfl | hg'
    · exact hmem.2 rfl
    · exact (h.failed q g hmem.1).2 hg'
  · have hgf : g ≠ f := by
      rintro rfl
      exact hc' (Finset.mem_insert_self _ _)
    refine (h.held g q hg fun hg' => hc' (Finset.mem_insert_of_mem hg')).imp_left fun hg' => ?_
    rw [hheld]
    split
    · next hq =>
      rw [hq, hself] at hg'
      rw [hq]
      exact (mem_cons.1 hg').resolve_left hgf
    · exact hg'
  · obtain ⟨hc', ho', hh⟩ := h.abandoned g hg
    refine ⟨fun hg' => ?_, ho', fun q hq => hh q (hsub q g hq)⟩
    rcases Finset.mem_insert.1 hg' with rfl | hg'
    · exact hh reqId (by rw [hself]; exact mem_cons_self)
    · exact hc' hg'

/-- The wait takes the first future. -/
def Book.take (b : Book) (reqId : String) (f : Nat) (futures : List Nat) : Book :=
  { b with
    futures := update b.futures reqId futures
    retryArgs := b.retryArgs.pop f }

theorem held_take (b : Book) (reqId : String) (f : Nat) (futures : List Nat) (q : String) : (b.take reqId f futures).held q =
    if q = reqId then b.failed reqId ++ futures else b.held q := by
  show b.failed q ++ update b.futures reqId futures q = _
  rw [update_apply]
  split
  · next hq => rw [hq]
  · rfl

section

variable {futures : List Nat} (hfutures : b.futures reqId = f :: futures)

include hfutures

theorem mem_held_head : f ∈ b.held reqId := by
  refine mem_append_right _ ?_
  rw [hfutures]
  exact mem_cons_self

theorem not_mem_rest (h : b.Kept) : f ∉ b.failed reqId ++ futures := by
  have hnodup := h.nodup reqId
  unfold Book.held at hnodup
  rw [hfutures, nodup_middle] at hnodup
  exact (nodup_cons.1 hnodup).1

theorem mem_held_iff {g : Nat} : g ∈ b.held reqId ↔ g = f ∨ g ∈ b.failed reqId ++ futures := by
  unfold Book.held
  rw [hfutures, mem_append, mem_cons, mem_append, or_left_comm]

theorem retry_take (h : b.Kept) (q : String) :
    ∀ g ∈ (b.take reqId f futures).futures q, g ∈ (b.take reqId f futures).retryArgs.keys := by
  intro g hg
  change g ∈ update b.futures reqId futures q at hg
  show g ∈ (b.retryArgs.pop f).keys
  rw [mem_keys_pop]
  rw [update_apply] at hg
  split at hg
  · refine ⟨h.retry reqId g (by rw [hfutures]; exact mem_cons_of_mem f hg), ?_⟩
    rintro rfl
    exact not_mem_rest hfutures h (mem_append_right _ hg)
  · next hq =>
    refine ⟨h.retry q g hg, ?_⟩
    rintro rfl
    exact hq (h.same (mem_held_head hfutures) (mem_append_right _ hg))

theorem held_take_subset {q : String} {g : Nat} (hg : g ∈ (b.take reqId f futures).held q) :
    g ∈ b.held q := by
  rw [held_take] at hg
  split at hg
  · next hq =>
    rw [hq]
    exact (mem_held_iff hfutures).2 (.inr hg)
  · exact hg

theorem nodup_take (h : b.Kept) (q : String) : ((b.take reqId f futures).held q).Nodup := by
  rw [held_take]
  split
  · have hnodup := h.nodup reqId
    unfold Book.held at hnodup
    rw [hfutures, nodup_middle] at hnodup
    exact hnodup.of_cons
  · exact h.nodup q

theorem Book.Kept.take (h : b.Kept) (hc : f ∈ b.completed) : (b.take reqId f futures).Kept := by
  refine ⟨h.running, h.bound, fun g hg => ?_, h.once, h.counted,
    fun q g hg => h.owned q g (held_take_subset hfutures hg), nodup_take hfutures h, h.failed,
    retry_take hfutures h, h.callback, fun g q hg hc' => ?_, fun g hg => ?_, h.fatal⟩
  · exact (h.ended g hg).imp_right fun ho =>
      ⟨ho.1, fun q hq => ho.2 q (held_take_subset hfutures hq)⟩
  · refine (h.held g q hg hc').imp_left fun hg' => ?_
    rw [held_take]
    split
    · next hq =>
      rw [hq] at hg'
      refine ((mem_held_iff hfutures).1 hg').resolve_left ?_
      rintro rfl
      exact hc' hc
    · exact hg'
  · obtain ⟨hc', ho, hh⟩ := h.abandoned g hg
    exact ⟨hc', ho, fun q hq => hh q (held_take_subset hfutures hq)⟩

theorem Book.Kept.fail (h : b.Kept) (ho : b.outcome f = some .failed) :
    Book.Kept { b.take reqId f futures with
      failed := update b.failed reqId (b.failed reqId ++ [f]) } := by
  have hheld : ∀ q, ({ b.take reqId f futures with
      failed := update b.failed reqId (b.failed reqId ++ [f]) } : Book).held q =
        b.held q := by
    intro q
    show update b.failed reqId _ q ++ update b.futures reqId futures q =
      b.failed q ++ b.futures q
    rw [update_apply, update_apply]
    split
    · next hq =>
      rw [hq, hfutures, append_assoc]
      rfl
    · rfl
  have hc : f ∉ b.completed := by
    intro hc
    rcases h.ended f hc with hok | ⟨-, hh⟩
    · rw [ho] at hok
      cases hok
    · exact hh reqId (mem_held_head hfutures)
  refine ⟨h.running, h.bound, fun g hg => ?_, h.once, h.counted, fun q g hg => ?_, fun q => ?_,
    fun q g hg => ?_, retry_take hfutures h, h.callback, fun g q hg hc' => ?_, fun g hg => ?_,
    h.fatal⟩
  · refine (h.ended g hg).imp_right fun ho => ⟨ho.1, fun q hq => ho.2 q ?_⟩
    rwa [hheld] at hq
  · rw [hheld] at hg
    exact h.owned q g hg
  · rw [hheld]
    exact h.nodup q
  · change g ∈ update b.failed reqId _ q at hg
    rw [update_apply] at hg
    split at hg
    · rcases mem_append.1 hg with hg | hg
      · exact h.failed reqId g hg
      · rw [mem_singleton.1 hg]
        exact ⟨ho, hc⟩
    · exact h.failed q g hg
  · rw [hheld]
    exact h.held g q hg hc'
  · obtain ⟨hc', ho, hh⟩ := h.abandoned g hg
    refine ⟨hc', ho, fun q hq => hh q ?_⟩
    rwa [hheld] at hq

/-- A wait that meets an unknown state abandons its failed futures and that one. -/
theorem Book.Kept.abandon (h : b.Kept) (ho : b.outcome f = some .unknown) :
    Book.Kept { b with
      futures := update b.futures reqId futures
      failed := update b.failed reqId []
      abandoned := b.abandoned ++ b.failed reqId ++ [f] } := by
  generalize hb' : ({ b with
      futures := update b.futures reqId futures
      failed := update b.failed reqId []
      abandoned := b.abandoned ++ b.failed reqId ++ [f] } : Book) = b'
  have hheld : ∀ q, b'.held q = if q = reqId then futures else b.held q := by
    intro q
    rw [← hb']
    show update b.failed reqId [] q ++ update b.futures reqId futures q = _
    rw [update_apply, update_apply]
    split <;> rfl
  have hsub : ∀ q g, g ∈ b'.held q → g ∈ b.held q := by
    intro q g hg
    rw [hheld] at hg
    split at hg
    · next hq =>
      rw [hq]
      exact (mem_held_iff hfutures).2 (.inr (mem_append_right _ hg))
    · exact hg
  have hmem : ∀ g, g ∈ b'.abandoned ↔ g ∈ b.abandoned ∨ g ∈ b.failed reqId ∨ g = f := by
    intro g
    rw [← hb']
    show g ∈ b.abandoned ++ b.failed reqId ++ [f] ↔ _
    rw [mem_append, mem_append, mem_singleton, or_assoc]
  have hc : f ∉ b.completed := by
    intro hc
    rcases h.ended f hc with hok | ⟨hok, -⟩
    all_goals
      rw [ho] at hok
      cases hok
  have hnodup := h.nodup reqId
  unfold Book.held at hnodup
  rw [hfutures] at hnodup
  -- what is abandoned is held no more
  have hgone : ∀ q g, g ∈ b.failed reqId ∨ g = f → g ∉ b'.held q := by
    intro q g hg hq
    have hheldg : g ∈ b.held reqId := by
      rw [mem_held_iff hfutures]
      rcases hg with hg | hg
      · exact .inr (mem_append_left _ hg)
      · exact .inl hg
    have hqr := h.same hheldg (hsub q g hq)
    rw [hheld, if_pos hqr] at hq
    rcases hg with hg | rfl
    · exact (nodup_append.1 hnodup).2.2 g hg g (mem_cons_of_mem f hq) rfl
    · exact (nodup_cons.1 (nodup_append.1 hnodup).2.1).1 hq
  have howner := h.owned reqId f (mem_held_head hfutures)
  subst hb'
  refine ⟨h.running, h.bound, fun g hg => ?_, h.once, h.counted,
    fun q g hg => h.owned q g (hsub q g hg), fun q => ?_, fun q g hg => ?_, fun q g hg => ?_,
    h.callback, fun g q hg hc' => ?_, fun g hg => ?_, fun g hg => ?_⟩
  · exact (h.ended g hg).imp_right fun ho => ⟨ho.1, fun q hq => ho.2 q (hsub q g hq)⟩
  · rw [hheld]
    split
    · exact (nodup_append.1 hnodup).2.1.of_cons
    · exact h.nodup q
  · change g ∈ update b.failed reqId [] q at hg
    rw [update_apply] at hg
    split at hg
    · cases hg
    · exact h.failed q g hg
  · change g ∈ update b.futures reqId futures q at hg
    rw [update_apply] at hg
    split at hg
    · exact h.retry reqId g (by rw [hfutures]; exact mem_cons_of_mem f hg)
    · exact h.retry q g hg
  · rcases h.held g q hg hc' with hg' | hg'
    · by_cases hq : q = reqId
      · rw [hq, mem_held_iff hfutures] at hg'
        rcases hg' with rfl | hg'
        · exact .inr ((hmem g).2 (.inr (.inr rfl)))
        rcases mem_append.1 hg' with hg' | hg'
        · exact .inr ((hmem g).2 (.inr (.inl hg')))
        refine .inl ?_
        rw [hheld, if_pos hq]
        exact hg'
      · refine .inl ?_
        rw [hheld, if_neg hq]
        exact hg'
    · exact .inr ((hmem g).2 (.inl hg'))
  · rcases (hmem g).1 hg with hg | hg | rfl
    · obtain ⟨hc', ho', hh⟩ := h.abandoned g hg
      exact ⟨hc', ho', fun q hq => hh q (hsub q g hq)⟩
    · obtain ⟨ho', hc'⟩ := h.failed reqId g hg
      exact ⟨hc', .inl ho', fun q => hgone q g (.inl hg)⟩
    · exact ⟨hc, .inr ho, fun q => hgone q g (.inr rfl)⟩
  · have hf := (hmem f).2 (.inr (.inr rfl))
    rcases (hmem g).1 hg with hg | hg | rfl
    · obtain ⟨q, hq, g', hg', hrest⟩ := h.fatal g hg
      exact ⟨q, hq, g', (hmem g').2 (.inl hg'), hrest⟩
    · exact ⟨reqId, h.owned reqId g (mem_append_left _ hg), f, hf, howner, ho⟩
    · exact ⟨reqId, howner, g, hf, howner, ho⟩

end

end

end PendingStores
