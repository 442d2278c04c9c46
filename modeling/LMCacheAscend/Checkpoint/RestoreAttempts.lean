import Mathlib.Data.List.Induction
import LMCacheAscend.Checkpoint.WritebackLedger

/-!
# Restore attempts

`restore_event` joins the events of one attempt, which workers send in any order.
`openSince` is what an attempt has seen since the `begin` that opened it, read
off the calls alone; in every run the store's own sets agree with it (`Tracks`).
An attempt is `Confirmed` by `admitted` and `ack` without `failed`, and only then
does the record retire; `failed` and `ack` close the attempt and keep the record.
-/

namespace Checkpoint

open Lib List Option Function Dict

variable {κ : Type} {cfg : Config} {w : Store κ}

/-! ## The history of an attempt -/

/-- The events since the `begin` that opened the attempt, or `none` while it is not open. -/
def attemptStep : Option (List RestoreEvent) → RestoreEvent → Option (List RestoreEvent)
  | none, event => if event = .begin then some [] else none
  | some since, event =>
    if .failed ∈ since ++ [event] ∧ .ack ∈ since ++ [event] then none else some (since ++ [event])

variable (history : List RestoreEvent) (log : List RestoreCall)

def openSince : Option (List RestoreEvent) :=
  history.foldl attemptStep none

/-- Since the `begin` that opened it the attempt has seen `admitted` and `ack` and not `failed`. -/
def Confirmed : Prop :=
  ∃ before since, history = before ++ .begin :: since ∧ openSince before = none ∧
    .admitted ∈ since ∧ .ack ∈ since ∧ .failed ∉ since

/-- `event` completes `failed` and `ack` of an open attempt. -/
def Refused (event : RestoreEvent) : Prop :=
  ∃ since, openSince history = some since ∧ .failed ∈ since ++ [event] ∧ .ack ∈ since ++ [event]

theorem openSince_append (event : RestoreEvent) :
    openSince (history ++ [event]) = attemptStep (openSince history) event := by
  rw [openSince, foldl_append]
  rfl

theorem openSince_eq_some {history since : List RestoreEvent} (h : openSince history = some since) :
    ∃ before, history = before ++ .begin :: since ∧ openSince before = none := by
  induction history using List.reverseRecOn generalizing since with
  | nil => cases h
  | append_singleton history event ih =>
    rw [openSince_append] at h
    cases hst : openSince history with
    | none =>
      rw [hst, attemptStep] at h
      split at h
      · next he =>
        cases h
        exact ⟨history, by rw [he], hst⟩
      · cases h
    | some old =>
      rw [hst, attemptStep] at h
      split at h
      · cases h
      · cases h
        obtain ⟨before, rfl, hb⟩ := ih hst
        exact ⟨before, by simp, hb⟩

theorem openSince_of_append {before since : List RestoreEvent} (hb : openSince before = none)
    (hs : ¬ (.failed ∈ since ∧ .ack ∈ since)) : openSince (before ++ .begin :: since) = some since := by
  induction since using List.reverseRecOn with
  | nil => rw [openSince_append, hb]; rfl
  | append_singleton since event ih =>
    have hprev : ¬ (.failed ∈ since ∧ .ack ∈ since) := fun h =>
      hs ⟨mem_append_left _ h.1, mem_append_left _ h.2⟩
    have hsplit : before ++ .begin :: (since ++ [event]) =
        (before ++ .begin :: since) ++ [event] := by simp
    rw [hsplit, openSince_append, ih hprev, attemptStep, if_neg hs]

theorem confirmed_iff {history : List RestoreEvent} :
    Confirmed history ↔ ∃ since, openSince history = some since ∧
      .admitted ∈ since ∧ .ack ∈ since ∧ .failed ∉ since := by
  constructor
  · rintro ⟨before, since, rfl, hb, hadm, hack, hfail⟩
    exact ⟨since, openSince_of_append hb fun h => hfail h.1, hadm, hack, hfail⟩
  · rintro ⟨since, hs, hrest⟩
    obtain ⟨before, hsplit, hb⟩ := openSince_eq_some hs
    exact ⟨before, since, hsplit, hb, hrest⟩

/-! ## `restore_event` against the history -/

/-- The stored set of an attempt holds the `begin` and what came since. -/
def Tracks : Option (List RestoreEvent) → Option (List RestoreEvent) → Prop
  | none, none => True
  | some events, some since => ∀ e, e ∈ events ↔ e = .begin ∨ e ∈ since
  | _, _ => False

/-- The set an event joins, once the attempt is open. -/
def joined (attempts : Dict Int (List RestoreEvent)) (attempt : Int) (event : RestoreEvent) :
    List RestoreEvent :=
  ((attempts.get? attempt).getD []).insert event

theorem joinEvent_eq (attempts : Dict Int (List RestoreEvent)) (attempt : Int)
    (event : RestoreEvent) : joinEvent attempts attempt event =
      if event = .begin ∨ (attempts.get? attempt).isSome then
        some (if .failed ∈ joined attempts attempt event ∧ .ack ∈ joined attempts attempt event
            then attempts.pop attempt else attempts.set attempt (joined attempts attempt event),
          decide (.admitted ∈ joined attempts attempt event ∧
            .ack ∈ joined attempts attempt event ∧ .failed ∉ joined attempts attempt event))
      else none := by
  have hjoin : ∀ events : List RestoreEvent, events.insert event = joined attempts attempt event → (do
      let retire : Bool := .admitted ∈ events.insert event ∧ .ack ∈ events.insert event ∧
        .failed ∉ events.insert event
      if .failed ∈ events.insert event ∧ .ack ∈ events.insert event then
        some (attempts.pop attempt, retire)
      else some (attempts.set attempt (events.insert event), retire)) =
      some (if .failed ∈ joined attempts attempt event ∧ .ack ∈ joined attempts attempt event
            then attempts.pop attempt else attempts.set attempt (joined attempts attempt event),
          decide (.admitted ∈ joined attempts attempt event ∧
            .ack ∈ joined attempts attempt event ∧ .failed ∉ joined attempts attempt event)) := by
    intro events he
    simp only [he]
    split <;> rfl
  unfold joinEvent
  by_cases he : event = .begin
  · rw [if_pos he, if_pos (.inl he)]
    exact hjoin _ rfl
  rw [if_neg he]
  cases hg : attempts.get? attempt with
  | none => simp [he]
  | some events =>
    rw [if_pos (.inr rfl)]
    exact hjoin events (by simp [joined, hg])

variable {attempt : Int} {attempts : Dict Int (List RestoreEvent)} {event : RestoreEvent}
  {st : Option (List RestoreEvent)} {gone : Identity → Prop} {w' : Store κ} {r : Retention κ}
  {rid : Nat} {a : Action κ}

theorem joinEvent_none (ht : Tracks (attempts.get? attempt) st)
    (h : joinEvent attempts attempt event = none) : st = none ∧ attemptStep st event = none := by
  rw [joinEvent_eq] at h
  split at h
  · cases h
  · next hclosed =>
    rw [not_or, not_isSome_iff_eq_none] at hclosed
    rw [hclosed.2] at ht
    cases st with
    | none => exact ⟨rfl, by rw [attemptStep, if_neg hclosed.1]⟩
    | some since => exact ht.elim

theorem mem_joined (ht : Tracks (attempts.get? attempt) st)
    (hopen : event = .begin ∨ (attempts.get? attempt).isSome) :
    ∃ since, (st = none ∧ event = .begin ∧ since = [] ∨ ∃ old, st = some old ∧ since = old ++ [event]) ∧
      ∀ e, e ∈ joined attempts attempt event ↔ e = .begin ∨ e ∈ since := by
  unfold joined
  cases hg : attempts.get? attempt with
  | none =>
    rw [hg] at ht hopen
    have he : event = .begin := hopen.resolve_right (by simp)
    cases st with
    | none => exact ⟨[], .inl ⟨rfl, he, rfl⟩, by simp [he]⟩
    | some since => exact ht.elim
  | some events =>
    rw [hg] at ht
    cases st with
    | none => exact ht.elim
    | some old =>
      refine ⟨old ++ [event], .inr ⟨old, rfl, rfl⟩, fun e => ?_⟩
      have := ht e
      simp only [getD_some, mem_insert_iff, mem_append, mem_singleton]
      tauto

theorem joinEvent_some {attempts attempts' : Dict Int (List RestoreEvent)} {retire : Bool}
    (ht : Tracks (attempts.get? attempt) st)
    (h : joinEvent attempts attempt event = some (attempts', retire)) :
    (∀ a, a ≠ attempt → attempts'.get? a = attempts.get? a) ∧
    Tracks (attempts'.get? attempt) (attemptStep st event) ∧
    (retire = true ↔ ∃ since, attemptStep st event = some since ∧
      .admitted ∈ since ∧ .ack ∈ since ∧ .failed ∉ since) := by
  rw [joinEvent_eq] at h
  split at h
  · next hopen =>
    cases h
    obtain ⟨since, hst, hmem⟩ := mem_joined ht hopen
    have hboth : (.failed ∈ joined attempts attempt event ∧
        .ack ∈ joined attempts attempt event) ↔ .failed ∈ since ∧ .ack ∈ since := by
      simp [hmem]
    have hstep : attemptStep st event =
        if .failed ∈ since ∧ .ack ∈ since then none else some since := by
      rcases hst with ⟨rfl, rfl, rfl⟩ | ⟨old, rfl, rfl⟩
      · simp [attemptStep]
      · rfl
    refine ⟨?_, ?_, ?_⟩
    · intro a ha
      split
      · rw [get?_pop, if_neg ha]
      · rw [get?_set_ne ha]
    · rw [hstep]
      by_cases hclose : .failed ∈ since ∧ .ack ∈ since
      · rw [if_pos hclose, if_pos (hboth.2 hclose), get?_pop_self]
        exact trivial
      · rw [if_neg hclose, if_neg (hclose ∘ hboth.1), get?_set_self]
        exact hmem
    · rw [decide_eq_true_iff, hstep]
      simp only [hmem, reduceCtorEq, false_or]
      constructor
      · rintro ⟨hadm, hack, hfail⟩
        exact ⟨since, if_neg fun hc => hfail hc.1, hadm, hack, hfail⟩
      · rintro ⟨since', hs, hadm, hack, hfail⟩
        split at hs
        · cases hs
        · cases hs
          exact ⟨hadm, hack, hfail⟩
  · cases h

/-! ## Steps that are not about attempts -/

/-- What a step other than `restore_event` does: it changes no attempt, and no record
leaves but those of `gone`. -/
structure Quietly (gone : Identity → Prop) (w w' : Store κ) : Prop where
  attempts : ∀ rid r', w'.retentions rid = some r' →
    (∃ r, w.retentions rid = some r ∧ r'.attempts = r.attempts) ∨
      w.nextRetention ≤ rid ∧ r'.attempts = Dict.empty
  next : w.nextRetention ≤ w'.nextRetention
  covered : (∀ k ∈ w.records.keys, k ∈ w.manifests.keys) →
    ∀ k ∈ w'.records.keys, k ∈ w'.manifests.keys
  kept : ∀ k ∈ w.records.keys, ¬ gone k → k ∈ w'.records.keys
  due : ∀ d ∈ w'.dueForgets, d ∈ w.dueForgets ∨ w'.closed = true
  closed : w.closed = true → w'.closed = true

theorem Quietly.of_eq (hr : w'.retentions = w.retentions) (hn : w'.nextRetention = w.nextRetention)
    (hk : w'.records = w.records) (hm : w'.manifests = w.manifests)
    (hd : w'.dueForgets = w.dueForgets) (hc : w'.closed = w.closed) : Quietly gone w w' where
  attempts rid r' h := .inl ⟨r', hr ▸ h, rfl⟩
  next := Nat.le_of_eq hn.symm
  covered h := by rw [hk, hm]; exact h
  kept k h _ := by rw [hk]; exact h
  due d h := .inl (hd ▸ h)
  closed h := hc.trans h

theorem Quietly.trans {w1 w2 w3 : Store κ} (h : Quietly gone w1 w2)
    (h' : Quietly gone w2 w3) : Quietly gone w1 w3 where
  attempts rid r'' hr := by
    rcases h'.attempts rid r'' hr with ⟨r', hr', he'⟩ | ⟨hn, he'⟩
    · rcases h.attempts rid r' hr' with ⟨r, hr, he⟩ | ⟨hn, he⟩
      · exact .inl ⟨r, hr, he'.trans he⟩
      · exact .inr ⟨hn, he'.trans he⟩
    · exact .inr ⟨Nat.le_trans h.next hn, he'⟩
  next := Nat.le_trans h.next h'.next
  covered hc := h'.covered (h.covered hc)
  kept k hk hg := h'.kept k (h.kept k hk hg) hg
  due d hd := by
    rcases h'.due d hd with hd | hc
    · exact (h.due d hd).imp id h'.closed
    · exact .inr hc
  closed hc := h'.closed (h.closed hc)

theorem Quietly.setRetention
    (r' : Retention κ) (hr : w.retentions rid = some r) (he : r'.attempts = r.attempts) :
    Quietly gone w (w.setRetention rid r') where
  attempts j s h := by
    by_cases hj : j = rid
    · subst hj
      refine .inl ⟨r, hr, ?_⟩
      have : s = r' := by simpa [Store.setRetention] using h.symm
      rw [this, he]
    · refine .inl ⟨s, ?_, rfl⟩
      simpa [Store.setRetention, update_of_ne hj] using h
  next := Nat.le_refl _
  covered h := h
  kept k h _ := h
  due d h := .inl h
  closed h := h

theorem uncharge_quietly (owners : List Page) :
    Quietly gone w (w.uncharge cfg owners) := by
  unfold Store.uncharge
  split <;> exact .of_eq rfl rfl rfl rfl rfl rfl

theorem forgetKey_quietly {key : Identity} (hg : gone key) :
    Quietly gone w (w.forgetKey key) := by
  unfold Store.forgetKey
  simp only
  -- the record leaves together with the manifest
  have hpop : ∀ (records : Dict Identity Nat), records = w.records.pop key ∨
      records = w.records ∧ key ∉ w.records.keys →
      (∀ k ∈ records.keys, k ∈ w.records.keys ∧ k ≠ key) ∧
        ∀ k ∈ w.records.keys, ¬ gone k → k ∈ records.keys := by
    rintro records (rfl | ⟨rfl, hnot⟩)
    · refine ⟨fun k hk => mem_keys_pop.1 hk, fun k hk hne => mem_keys_pop.2 ⟨hk, ?_⟩⟩
      rintro rfl
      exact hne hg
    · exact ⟨fun k hk => ⟨hk, fun he => hnot (he ▸ hk)⟩, fun k hk _ => hk⟩
  have hcov : ∀ (records : Dict Identity Nat), (∀ k ∈ records.keys, k ∈ w.records.keys ∧ k ≠ key) →
      (∀ k ∈ w.records.keys, k ∈ w.manifests.keys) →
      ∀ k ∈ records.keys, k ∈ (w.manifests.pop key).keys := fun records hsub h k hk =>
    mem_keys_pop.2 ⟨h k (hsub k hk).1, (hsub k hk).2⟩
  split
  · next hnone =>
    obtain ⟨hsub, hkept⟩ := hpop w.records (.inr ⟨rfl, get?_eq_none.1 hnone⟩)
    exact ⟨fun rid r h => .inl ⟨r, h, rfl⟩, Nat.le_refl _, hcov _ hsub, hkept, fun d h => .inl h, id⟩
  obtain ⟨hsub, hkept⟩ := hpop _ (.inl rfl)
  split
  · exact ⟨fun rid r h => .inl ⟨r, h, rfl⟩, Nat.le_refl _, hcov _ hsub, hkept, fun d h => .inl h,
      id⟩
  · next r hr =>
    have hset : Quietly gone w (w.setRetention _ r.tombstone) := .setRetention _ hr rfl
    exact ⟨hset.attempts, Nat.le_refl _, hcov _ hsub, hkept, fun d h => .inl h, id⟩

theorem forget_quietly (reqId : String) (generation : Option Int) :
    Quietly (fun k => matchesIdentity reqId generation k = true) w (w.forget reqId generation) :=
  w.forget_induction (.of_eq rfl rfl rfl rfl rfl rfl) fun _ _ hk h => h.trans (forgetKey_quietly hk)

section

variable [DecidableEq κ]

theorem publish_quietly (identity : Identity)
    (manifest : LocalCheckpoint κ) (end_ : Int) (groups : Groups κ) (starts : Bool) :
    Quietly gone w (w.publish cfg identity manifest end_ groups starts) := by
  unfold Store.publish
  split
  · exact .of_eq rfl rfl rfl rfl rfl rfl
  split
  · exact .of_eq rfl rfl rfl rfl rfl rfl
  next hfresh =>
  -- the offer alone, and the offer with its record
  have hmem : ∀ k (m : LocalCheckpoint κ), k ∈ w.manifests.keys →
      k ∈ (w.manifests.set identity m).keys := fun k m hk => mem_keys_set.2 (.inr hk)
  have hoffer : ∀ m : LocalCheckpoint κ, Quietly gone w { w with
      manifests := w.manifests.set identity m
      nextObject := w.nextObject + 1 } := fun m =>
    ⟨fun rid r h => .inl ⟨r, h, rfl⟩, Nat.le_refl _, fun h k hk => hmem k m (h k hk),
      fun k hk _ => hk, fun d h => .inl h, id⟩
  have hretain : ∀ m : LocalCheckpoint κ, Quietly gone w (Store.retain cfg { w with
      manifests := w.manifests.set identity m
      nextObject := w.nextObject + 1 } identity m groups) := by
    intro m
    refine ⟨?_, Nat.le_succ _, ?_, ?_, fun d h => .inl h, id⟩
    · intro rid r h
      by_cases hr : rid = w.nextRetention
      · refine .inr ⟨Nat.le_of_eq hr.symm, ?_⟩
        have : r = Retention.new m groups := by simpa [Store.retain, hr] using h.symm
        rw [this]
        rfl
      · refine .inl ⟨r, ?_, rfl⟩
        simpa [Store.retain, update_of_ne hr] using h
    · intro h k hk
      rcases mem_keys_set.1 hk with rfl | hk
      · exact mem_keys_set.2 (.inl rfl)
      · exact hmem k m (h k hk)
    · exact fun k hk _ => mem_keys_set.2 (.inr hk)
  simp only
  split
  · split
    · split
      · exact (hretain _).trans (.of_eq rfl rfl rfl rfl rfl rfl)
      refine Quietly.trans ?_ (uncharge_quietly _)
      have hr := hretain
        { manifest with identity := some identity, retentionId := some w.nextObject }
      refine ⟨hr.attempts, hr.next, ?_, ?_, hr.due, hr.closed⟩
      · intro h k hk
        exact hr.covered h k (mem_keys_pop.1 hk).1
      · intro k hk hne
        refine mem_keys_pop.2 ⟨hr.kept k hk hne, ?_⟩
        rintro rfl
        exact hfresh hk
    · exact hretain _
  · exact hoffer _

end

theorem select_quietly {now : Nat} (h : w.select cfg now = some w') : Quietly gone w w' := by
  unfold Store.select at h
  split at h
  · simp only at h
    split at h
    all_goals
      cases h
      exact .of_eq rfl rfl rfl rfl rfl rfl
  · cases h

theorem spilled_quietly {results : Option (List (Int × Int × κ) × List (Int × Int × κ))}
    (h : w.spilled cfg results = some w') : Quietly gone w w' := by
  unfold Store.spilled at h
  split at h
  · simp only [bind_eq_bind, bind_eq_some_iff] at h
    obtain ⟨r, hr, h⟩ := h
    split at h
    · cases h
      exact .of_eq rfl rfl rfl rfl rfl rfl
    rw [bind_eq_some_iff] at h
    obtain ⟨remote, -, h⟩ := h
    split at h
    · cases h
      exact .of_eq rfl rfl rfl rfl rfl rfl
    · cases h
      exact Quietly.trans (.setRetention (r.confirm remote) hr rfl)
        (.of_eq rfl rfl rfl rfl rfl rfl)
  · cases h

theorem spillFailed_quietly {now : Nat} (h : w.spillFailed now = some w') : Quietly gone w w' := by
  unfold Store.spillFailed at h
  split at h
  · simp only [bind_eq_bind, bind_eq_some_iff] at h
    obtain ⟨r, hr, h⟩ := h
    cases h
    exact Quietly.trans (.setRetention { r with retryAt := now + second } hr rfl)
      (.of_eq rfl rfl rfl rfl rfl rfl)
  · cases h

theorem close_quietly : Quietly gone w w.close :=
  ⟨fun _ r h => .inl ⟨r, h, rfl⟩, Nat.le_refl _, id, fun _ hk _ => hk, fun _ _ => .inr rfl,
    fun _ => rfl⟩

/-! ## Runs with their calls -/

/-- A `restore_event` that found the record `rid`. -/
structure RestoreCall where
  identity : Identity
  rid : Nat
  attempt : Int
  event : RestoreEvent

/-- The calls that a step adds. -/
def Store.heard (w : Store κ) : Action κ → List RestoreCall
  | .restoreEvent identity attempt event =>
    (w.records.get? identity).toList.map fun rid => ⟨identity, rid, attempt, event⟩
  | _ => []

structure Logged (κ : Type) where
  store : Store κ
  log : List RestoreCall

/-- The store, and the calls of `restore_event` that found a record. -/
def restoreMachine [DecidableEq κ] (cfg : Config) : Machine (Logged κ) (Action κ) where
  start g := (writebackMachine cfg).start g.store ∧ g.log = []
  step g a := (g.store.step cfg a).map fun w => ⟨w, g.log ++ g.store.heard a⟩

/-- The events of one attempt on one record. -/
def historyOf (rid : Nat) (attempt : Int) : List RestoreEvent :=
  (log.filter fun c => c.rid = rid ∧ c.attempt = attempt).map RestoreCall.event

/-- A call of `log` confirmed its attempt on `identity`. -/
def ConfirmedBy (identity : Identity) : Prop :=
  ∃ before c after, log = before ++ c :: after ∧ c.identity = identity ∧
    Confirmed (historyOf before c.rid c.attempt ++ [c.event])

variable {identity : Identity} {g : Logged κ}

theorem ConfirmedBy.append {log : List RestoreCall}
    (h : ConfirmedBy log identity) (more : List RestoreCall) : ConfirmedBy (log ++ more) identity := by
  obtain ⟨before, c, after, rfl, hrest⟩ := h
  exact ⟨before, c, after ++ more, by simp, hrest⟩

theorem historyOf_append (c : RestoreCall) (rid : Nat) (attempt : Int) :
    historyOf (log ++ [c]) rid attempt =
      historyOf log rid attempt ++ if c.rid = rid ∧ c.attempt = attempt then [c.event] else [] := by
  unfold historyOf
  rw [filter_append, map_append]
  congr 1
  by_cases h : c.rid = rid ∧ c.attempt = attempt
  · simp [h]
  · rw [filter_cons_of_neg (by simpa using h), if_neg h]
    rfl

/-- The store's attempts agree with the calls, and every forget that is due has its reason. -/
structure Tracking (g : Logged κ) : Prop where
  wired : Wired g.store
  covered : ∀ k ∈ g.store.records.keys, k ∈ g.store.manifests.keys
  known : ∀ c ∈ g.log, c.rid < g.store.nextRetention
  tracks : ∀ rid r, g.store.retentions rid = some r →
    ∀ a, Tracks (r.attempts.get? a) (openSince (historyOf g.log rid a))
  due : ∀ d ∈ g.store.dueForgets, g.store.closed = true ∨ ConfirmedBy g.log d

theorem historyOf_of_fresh {log : List RestoreCall} {n rid : Nat} (h : ∀ c ∈ log, c.rid < n)
    (hn : n ≤ rid) (attempt : Int) : historyOf log rid attempt = [] := by
  unfold historyOf
  rw [filter_eq_nil_iff.2, map_nil]
  intro c hc hr
  have h1 := h c hc
  have h2 : c.rid = rid := (of_decide_eq_true hr).1
  omega

theorem Tracking.quietly (hg : Tracking g)
    (h : Quietly gone g.store w') (hw : Wired w') : Tracking ⟨w', g.log⟩ where
  wired := hw
  covered := h.covered hg.covered
  known c hc := Nat.lt_of_lt_of_le (hg.known c hc) h.next
  tracks rid r' hr' a := by
    rcases h.attempts rid r' hr' with ⟨r, hr, he⟩ | ⟨hn, he⟩
    · rw [he]
      exact hg.tracks rid r hr a
    · rw [he, historyOf_of_fresh hg.known hn]
      exact trivial
  due d hd := by
    rcases h.due d hd with hd | hc
    · exact (hg.due d hd).imp h.closed id
    · exact .inl hc

/-- What a `restore_event` does to the record it finds. -/
inductive RestoreOutcome (w : Store κ) (identity : Identity) (attempt : Int) (event : RestoreEvent) :
    Store κ → Prop
  | unknown : w.records.get? identity = none → RestoreOutcome w identity attempt event w
  | stale (rid : Nat) (r : Retention κ) : w.records.get? identity = some rid →
      w.retentions rid = some r → joinEvent r.attempts attempt event = none →
      RestoreOutcome w identity attempt event w
  | joined (rid : Nat) (r : Retention κ) (attempts : Dict Int (List RestoreEvent)) (retire : Bool) :
      w.records.get? identity = some rid → w.retentions rid = some r →
      joinEvent r.attempts attempt event = some (attempts, retire) →
      RestoreOutcome w identity attempt event { w.setRetention rid { r with attempts := attempts } with
        dueForgets := w.dueForgets ++ if retire then [identity] else [] }

theorem restoreEvent_outcome (hw : Wired w) (identity : Identity) (attempt : Int)
    (event : RestoreEvent) :
    RestoreOutcome w identity attempt event (w.restoreEvent identity attempt event) := by
  unfold Store.restoreEvent
  split
  · next hk => exact .unknown hk
  next rid hk =>
  obtain ⟨r, hr⟩ := hw.present identity rid hk
  rw [hr]
  simp only
  split
  · next hj => exact .stale rid r hk hr hj
  next attempts retire hj =>
  have h := RestoreOutcome.joined rid r attempts retire hk hr hj
  cases retire with
  | true => exact h
  | false => simpa [Store.setRetention] using h

theorem openSince_heard (c : RestoreCall) (rid : Nat) (a : Int) :
    openSince (historyOf (log ++ [c]) rid a) =
      if c.rid = rid ∧ c.attempt = a then attemptStep (openSince (historyOf log rid a)) c.event
      else openSince (historyOf log rid a) := by
  rw [historyOf_append]
  split
  · rw [openSince_append]
  · rw [append_nil]

/-- An event is added to the history of its own attempt. -/
theorem Tracking.restoreEvent (hg : Tracking g) (identity : Identity)
    (attempt : Int) (event : RestoreEvent)
    (hw : Wired (g.store.restoreEvent identity attempt event)) :
    Tracking ⟨g.store.restoreEvent identity attempt event,
      g.log ++ g.store.heard (.restoreEvent identity attempt event)⟩ := by
  have hout := restoreEvent_outcome hg.wired identity attempt event
  generalize g.store.restoreEvent identity attempt event = w' at hw hout ⊢
  have hheard : ∀ rid, g.store.records.get? identity = some rid →
      g.store.heard (.restoreEvent identity attempt event) =
        [⟨identity, rid, attempt, event⟩] := fun rid hk => by simp [Store.heard, hk]
  have hknown : ∀ rid r, g.store.retentions rid = some r →
      ∀ c ∈ g.log ++ [(⟨identity, rid, attempt, event⟩ : RestoreCall)],
        c.rid < g.store.nextRetention := by
    intro rid r hr c hc
    rcases mem_append.1 hc with hc | hc
    · exact hg.known c hc
    · cases mem_singleton.1 hc
      exact hg.wired.fresh rid r hr
  cases hout with
  | unknown hk =>
    have hnil : g.store.heard (.restoreEvent identity attempt event) = [] := by
      simp [Store.heard, hk]
    rw [hnil, append_nil]
    exact hg
  | stale rid r hk hr hj =>
    rw [hheard rid hk]
    refine ⟨hg.wired, hg.covered, hknown rid r hr, ?_, fun d hd =>
      (hg.due d hd).imp id fun h => h.append _⟩
    intro rid' r' hr' a
    rw [openSince_heard]
    split
    · next hsame =>
      obtain ⟨rfl, rfl⟩ := hsame
      cases hr.symm.trans hr'
      obtain ⟨hnone, hstep⟩ := joinEvent_none (hg.tracks rid r hr attempt) hj
      have := hg.tracks rid r hr attempt
      rw [hnone] at this
      rw [hstep]
      exact this
    · exact hg.tracks rid' r' hr' a
  | joined rid r attempts retire hk hr hj =>
    rw [hheard rid hk]
    obtain ⟨hother, htrack, hretire⟩ := joinEvent_some (hg.tracks rid r hr attempt) hj
    refine ⟨hw, hg.covered, hknown rid r hr, ?_, ?_⟩
    · intro rid' r' hr' a
      rw [openSince_heard]
      by_cases hrid : rid' = rid
      · subst hrid
        have he : r' = { r with attempts := attempts } := by
          simpa [Store.setRetention] using hr'.symm
        rw [he]
        split
        · next hsame =>
          obtain ⟨-, rfl⟩ := hsame
          exact htrack
        · next hne =>
          have ha : a ≠ attempt := fun h => hne ⟨rfl, h.symm⟩
          rw [hother a ha]
          exact hg.tracks rid' r hr a
      · rw [if_neg fun h => hrid h.1.symm]
        refine hg.tracks rid' r' ?_ a
        simpa [Store.setRetention, update_of_ne hrid] using hr'
    · intro d hd
      rcases mem_append.1 hd with hd | hd
      · exact (hg.due d hd).imp id fun h => h.append _
      · cases retire with
        | false => cases hd
        | true =>
          cases mem_singleton.1 hd
          refine .inr ⟨g.log, ⟨identity, rid, attempt, event⟩, [], rfl, rfl, ?_⟩
          rw [confirmed_iff, openSince_append]
          exact hretire.1 rfl

variable [DecidableEq κ]

/-- The records that a step takes out of the store. -/
def Action.Gone (w : Store κ) : Action κ → Identity → Prop
  | .forget reqId generation, k => matchesIdentity reqId generation k = true
  | .runForget i, k => w.dueForgets[i]? = some k
  | _, _ => False

/-- No step but `restore_event` adds to a history. -/
theorem step_quietly (ha : ∀ identity attempt event, a ≠ .restoreEvent identity attempt event)
    (hs : w.step cfg a = some w') : Quietly (a.Gone w) w w' := by
  cases a with
  | publish => cases hs; exact publish_quietly _ _ _ _ _
  | forget => cases hs; exact forget_quietly _ _
  | restoreEvent identity attempt event => exact absurd rfl (ha identity attempt event)
  | runForget i =>
    simp only [Store.step, Store.runForget, bind_eq_bind, bind_eq_some_iff] at hs
    obtain ⟨identity, hi, hs⟩ := hs
    cases hs
    have hdrop : Quietly (Action.Gone w (.runForget i)) w
        { w with dueForgets := w.dueForgets.eraseIdx i } :=
      ⟨fun _ r h => .inl ⟨r, h, rfl⟩, Nat.le_refl _, id, fun _ hk _ => hk,
        fun d hd => .inl (mem_of_mem_eraseIdx hd), id⟩
    have hforget := forget_quietly (w := { w with dueForgets := w.dueForgets.eraseIdx i })
      identity.1 (some identity.2)
    refine hdrop.trans ⟨hforget.attempts, hforget.next, hforget.covered, ?_, hforget.due,
      hforget.closed⟩
    intro k hk hgone
    refine hforget.kept k hk fun hm => hgone ?_
    rw [matchesIdentity_some.1 hm]
    exact hi
  | retire i =>
    simp only [Store.step, Store.retire, bind_eq_bind, bind_eq_some_iff] at hs
    obtain ⟨pages, -, hs⟩ := hs
    cases hs
    refine Quietly.trans ?_ (uncharge_quietly _)
    exact .of_eq rfl rfl rfl rfl rfl rfl
  | select => exact select_quietly hs
  | spilled => exact spilled_quietly hs
  | spillFailed => exact spillFailed_quietly hs
  | spillDied =>
    simp only [Store.step, Store.spillDied] at hs
    split at hs <;> cases hs
    exact .of_eq rfl rfl rfl rfl rfl rfl
  | spillUnknown =>
    simp only [Store.step, Store.spillUnknown] at hs
    split at hs <;> cases hs
    exact .of_eq rfl rfl rfl rfl rfl rfl
  | retireConfirmed =>
    simp only [Store.step, Store.retireConfirmed] at hs
    split at hs <;> cases hs
    refine Quietly.trans ?_ (uncharge_quietly _)
    exact .of_eq rfl rfl rfl rfl rfl rfl
  | finishSpill =>
    simp only [Store.step, Store.finishSpill] at hs
    split at hs
    · cases hs
      refine Quietly.trans ?_ (uncharge_quietly _)
      split <;> exact .of_eq rfl rfl rfl rfl rfl rfl
    · cases hs
  | monitorExit =>
    simp only [Store.step, Store.monitorExit] at hs
    split at hs
    · split at hs
      · cases hs
        exact .of_eq rfl rfl rfl rfl rfl rfl
      · split at hs <;> cases hs
        exact .of_eq rfl rfl rfl rfl rfl rfl
    · cases hs
  | close => cases hs; exact close_quietly

theorem restore_inductive (cfg : Config) :
    (restoreMachine cfg).Inductive fun g : Logged κ =>
      Balanced cfg [] g.store ∧ Tracking g where
  start := by
    rintro ⟨w, log⟩ ⟨hw, rfl⟩
    obtain ⟨hwired, hbal⟩ := writeback_inductive.start w hw
    obtain ⟨limit, reserve, rfl, -⟩ := hw
    refine ⟨hbal, hwired, ?_, ?_, ?_, ?_⟩
    · rintro k ⟨⟩
    · rintro c ⟨⟩
    · rintro rid r ⟨⟩
    · rintro d ⟨⟩
  step := by
    rintro g a g' ⟨hbal, hg⟩ hstep
    simp only [restoreMachine, map_eq_some_iff] at hstep
    obtain ⟨w', hs, rfl⟩ := hstep
    obtain ⟨hw', hbal'⟩ := step_good hg.wired hbal hs
    refine ⟨hbal', ?_⟩
    by_cases ha : ∃ identity attempt event, a = .restoreEvent identity attempt event
    · obtain ⟨identity, attempt, event, rfl⟩ := ha
      cases hs
      exact hg.restoreEvent identity attempt event hw'
    · have hother : ∀ identity attempt event, a ≠ .restoreEvent identity attempt event :=
        fun identity attempt event he => ha ⟨identity, attempt, event, he⟩
      have hnil : g.store.heard a = [] := by
        cases a with
        | restoreEvent identity attempt event => exact absurd rfl (hother identity attempt event)
        | _ => rfl
      rw [hnil, append_nil]
      exact hg.quietly (step_quietly hother hs) hw'

/-! ## Retirement -/

theorem record_leaves (hg : Tracking g)
    (hs : g.store.step cfg a = some w') {k : Identity} (hk : k ∈ g.store.records.keys)
    (hgone : k ∉ w'.records.keys) :
    (∃ reqId generation, a = .forget reqId generation ∧ matchesIdentity reqId generation k = true) ∨
      ∃ i, a = .runForget i ∧ g.store.dueForgets[i]? = some k ∧
        (g.store.closed = true ∨ ConfirmedBy g.log k) := by
  by_cases ha : ∃ identity attempt event, a = .restoreEvent identity attempt event
  · obtain ⟨identity, attempt, event, rfl⟩ := ha
    cases hs
    have hout := restoreEvent_outcome hg.wired identity attempt event
    generalize g.store.restoreEvent identity attempt event = w' at hout hgone
    cases hout with
    | unknown | stale | joined => exact absurd hk hgone
  · have hq := step_quietly (fun identity attempt event he => ha ⟨identity, attempt, event, he⟩) hs
    have hin : a.Gone g.store k := Classical.not_not.1 fun hne => hgone (hq.kept k hk hne)
    cases a with
    | forget reqId generation => exact .inl ⟨reqId, generation, rfl, hin⟩
    | runForget i => exact .inr ⟨i, rfl, hin, hg.due k (mem_of_getElem? hin)⟩
    | _ => exact hin.elim

omit [DecidableEq κ]

/-- An event asks for a forget exactly when it confirms its attempt. -/
theorem retires_iff (hg : Tracking g)
    (hk : g.store.records.get? identity = some rid) (attempt : Int) (event : RestoreEvent) :
    (g.store.restoreEvent identity attempt event).dueForgets =
        g.store.dueForgets ++ [identity] ↔
      Confirmed (historyOf g.log rid attempt ++ [event]) := by
  have hout := restoreEvent_outcome hg.wired identity attempt event
  generalize g.store.restoreEvent identity attempt event = w' at hout ⊢
  rw [confirmed_iff, openSince_append]
  cases hout with
  | unknown h => rw [hk] at h; cases h
  | stale rid' r hk' hr hj =>
    cases hk.symm.trans hk'
    obtain ⟨-, hstep⟩ := joinEvent_none (hg.tracks rid r hr attempt) hj
    simp [hstep]
  | joined rid' r attempts retire hk' hr hj =>
    cases hk.symm.trans hk'
    obtain ⟨-, -, hretire⟩ := joinEvent_some (hg.tracks rid r hr attempt) hj
    rw [← hretire]
    cases retire with
    | true | false => simp

theorem refused_closes (hg : Tracking g) (hk : g.store.records.get? identity = some rid)
    (h : Refused (historyOf g.log rid attempt) event) :
    ∃ r attempts, g.store.retentions rid = some r ∧ attempts.get? attempt = none ∧
      g.store.restoreEvent identity attempt event =
        g.store.setRetention rid { r with attempts := attempts } := by
  obtain ⟨since, hopen, hfail, hack⟩ := h
  have hout := restoreEvent_outcome hg.wired identity attempt event
  generalize g.store.restoreEvent identity attempt event = w' at hout ⊢
  cases hout with
  | unknown h => rw [hk] at h; cases h
  | stale rid' r hk' hr hj =>
    cases hk.symm.trans hk'
    obtain ⟨hnone, -⟩ := joinEvent_none (hg.tracks rid r hr attempt) hj
    rw [hopen] at hnone
    cases hnone
  | joined rid' r attempts retire hk' hr hj =>
    cases hk.symm.trans hk'
    obtain ⟨-, htrack, hretire⟩ := joinEvent_some (hg.tracks rid r hr attempt) hj
    have hclosed : attemptStep (openSince (historyOf g.log rid attempt)) event = none := by
      rw [hopen, attemptStep, if_pos ⟨hfail, hack⟩]
    rw [hclosed] at htrack hretire
    have hno : retire = false := by simpa using hretire
    refine ⟨r, attempts, hr, ?_, ?_⟩
    · cases hg : attempts.get? attempt with
      | none => rfl
      | some events =>
        rw [hg] at htrack
        exact htrack.elim
    · rw [hno]
      simp [Store.setRetention]

/-! ## The order of one attempt's events -/

/-- `restore_event` with its forget, when nothing comes between them. -/
def Store.restoreCall (w : Store κ) (identity : Identity) (attempt : Int) (event : RestoreEvent) :
    Store κ :=
  let w' := w.restoreEvent identity attempt event
  (w'.runForget w.dueForgets.length).getD w'

/-- `failed` comes when `admitted` and `ack` have retired the record. -/
def Late (events : List RestoreEvent) : Prop :=
  ∃ before after, events = before ++ .failed :: after ∧
    .admitted ∈ before ∧ .ack ∈ before ∧ .failed ∉ before

/-- Equal up to the order in which the events of an attempt are stored. -/
def Retention.Alike (r r' : Retention κ) : Prop :=
  r' = { r with attempts := r'.attempts } ∧ ∀ a e,
    (∃ events, r.attempts.get? a = some events ∧ e ∈ events) ↔
      ∃ events, r'.attempts.get? a = some events ∧ e ∈ events

structure Store.Alike (w w' : Store κ) : Prop where
  rest : w' = { w with retentions := w'.retentions }
  retentions : ∀ rid, (w.retentions rid = none ∧ w'.retentions rid = none) ∨
    ∃ r r', w.retentions rid = some r ∧ w'.retentions rid = some r' ∧ r.Alike r'

/-- The attempts of `r` with those of `attempt` as `seen` says. -/
structure Sees (r : Retention κ) (attempt : Int) (seen : Option (RestoreEvent → Prop))
    (attempts : Dict Int (List RestoreEvent)) : Prop where
  own : match attempts.get? attempt, seen with
    | some events, some seen => ∀ e, e ∈ events ↔ e = .begin ∨ seen e
    | none, none => True
    | _, _ => False
  others : ∀ a, a ≠ attempt → attempts.get? a = r.attempts.get? a

theorem Sees.alike {r r1 r2 : Retention κ} {seen : Option (RestoreEvent → Prop)}
    {attempts1 attempts2 : Dict Int (List RestoreEvent)} (h1 : Sees r attempt seen attempts1)
    (h2 : Sees r attempt seen attempts2) (he1 : r1.attempts = attempts1)
    (he2 : r2 = { r1 with attempts := attempts2 }) : r1.Alike r2 := by
  subst he1 he2
  refine ⟨rfl, fun a e => ?_⟩
  by_cases ha : a = attempt
  · subst ha
    have o1 := h1.own
    have o2 := h2.own
    cases seen with
    | none =>
      cases hg1 : r1.attempts.get? a with
      | some events => rw [hg1] at o1; exact o1.elim
      | none =>
        cases hg2 : attempts2.get? a with
        | some events => rw [hg2] at o2; exact o2.elim
        | none => simp
    | some seen =>
      cases hg1 : r1.attempts.get? a with
      | none => rw [hg1] at o1; exact o1.elim
      | some events1 =>
        cases hg2 : attempts2.get? a with
        | none => rw [hg2] at o2; exact o2.elim
        | some events2 =>
          rw [hg1] at o1
          rw [hg2] at o2
          simp only [some.injEq, exists_eq_left']
          rw [o1 e, o2 e]
  · rw [h1.others a ha, h2.others a ha]

inductive Fate
  | open_
  | refused
  | retired

/-- What the events of an attempt come to. -/
def fate (events : List RestoreEvent) : Fate :=
  if .failed ∈ events ∧ .ack ∈ events then .refused
  else if .admitted ∈ events ∧ .ack ∈ events then .retired
  else .open_

/-- The store `w` once `attempt` of its record `rid` has seen `events`. -/
def AfterEvents (w : Store κ) (identity : Identity) (rid : Nat) (r : Retention κ) (attempt : Int)
    (events : List RestoreEvent) (w' : Store κ) : Prop :=
  match fate events with
  | .open_ => ∃ attempts, Sees r attempt (some (· ∈ events)) attempts ∧
      w' = w.setRetention rid { r with attempts := attempts }
  | .refused => ∃ attempts, Sees r attempt none attempts ∧
      w' = w.setRetention rid { r with attempts := attempts }
  | .retired => ∃ attempts, Sees r attempt (some (· ∈ events)) attempts ∧
      w' = Store.dropRecord { w with manifests := w.manifests.pop identity } identity rid
        { r with attempts := attempts }

theorem setRetention_alike {r1 r2 : Retention κ} (h : r1.Alike r2) :
    (w.setRetention rid r1).Alike (w.setRetention rid r2) := by
  refine ⟨rfl, fun j => ?_⟩
  by_cases hj : j = rid
  · subst hj
    exact .inr ⟨r1, r2, by simp [Store.setRetention], by simp [Store.setRetention], h⟩
  simp only [Store.setRetention, update_of_ne hj]
  cases w.retentions j with
  | none => exact .inl ⟨rfl, rfl⟩
  | some r => exact .inr ⟨r, r, rfl, rfl, rfl, fun _ _ => Iff.rfl⟩

theorem AfterEvents.alike
    {events1 events2 : List RestoreEvent} {w1 w2 : Store κ} (h : ∀ e, e ∈ events1 ↔ e ∈ events2)
    (h1 : AfterEvents w identity rid r attempt events1 w1)
    (h2 : AfterEvents w identity rid r attempt events2 w2) : w1.Alike w2 := by
  have hfate : fate events1 = fate events2 := by simp only [fate, h]
  have hseen : (fun e => e ∈ events1) = fun e => e ∈ events2 := funext fun e => propext (h e)
  unfold AfterEvents at h1 h2
  rw [hfate, hseen] at h1
  cases hf : fate events2 with
  | open_ | refused =>
    rw [hf] at h1 h2
    obtain ⟨attempts1, hs1, rfl⟩ := h1
    obtain ⟨attempts2, hs2, rfl⟩ := h2
    exact setRetention_alike (hs1.alike hs2 rfl rfl)
  | retired =>
    rw [hf] at h1 h2
    obtain ⟨attempts1, hs1, rfl⟩ := h1
    obtain ⟨attempts2, hs2, rfl⟩ := h2
    have ha : Retention.Alike { r with attempts := attempts1 } { r with attempts := attempts2 } :=
      hs1.alike hs2 rfl rfl
    have htomb : Retention.Alike (Retention.tombstone { r with attempts := attempts1 })
        (Retention.tombstone { r with attempts := attempts2 }) := ⟨rfl, ha.2⟩
    have hset : Store.Alike (w.setRetention rid (Retention.tombstone { r with attempts := attempts1 }))
        (w.setRetention rid (Retention.tombstone { r with attempts := attempts2 })) :=
      setRetention_alike htomb
    exact ⟨rfl, hset.retentions⟩

theorem runForget_last (identity : Identity) (due : List Identity) :
    Store.runForget { w with dueForgets := due ++ [identity] } due.length =
      some (Store.forget { w with dueForgets := due } identity.1 (some identity.2)) := by
  simp only [Store.runForget, getElem?_concat_length, bind_eq_bind, bind_some,
    Option.pure_def]
  rw [eraseIdx_append_of_length_le (Nat.le_refl _)]
  simp

theorem forget_identity (hm : identity ∈ w.manifests.keys) (hk : w.records.get? identity = some rid)
    (hr : w.retentions rid = some r) :
    w.forget identity.1 (some identity.2) =
      Store.dropRecord { w with manifests := w.manifests.pop identity } identity rid r := by
  have hkeys : w.manifests.keys.filter (matchesIdentity identity.1 (some identity.2)) =
      [identity] := keys_filter_eq hm fun j => matchesIdentity_some
  rw [Store.forget, hkeys, foldl_cons, foldl_nil, Store.forgetKey]
  simp only [hk, hr]

theorem setRetention_twice (rid : Nat) (r1 r2 : Retention κ) :
    (w.setRetention rid r1).setRetention rid r2 = w.setRetention rid r2 := by
  simp [Store.setRetention, update_idem]

theorem restoreCall_eq {retire : Bool}
    (hm : identity ∈ w.manifests.keys) (hk : w.records.get? identity = some rid)
    (hr : w.retentions rid = some r)
    (hj : joinEvent r.attempts attempt event = some (attempts, retire)) :
    w.restoreCall identity attempt event =
      if retire then Store.dropRecord { w with manifests := w.manifests.pop identity } identity rid
        { r with attempts := attempts }
      else w.setRetention rid { r with attempts := attempts } := by
  unfold Store.restoreCall Store.restoreEvent
  simp only [hk, hr, hj]
  cases retire with
  | true =>
    simp only [if_true]
    have hlast := runForget_last (w := w.setRetention rid { r with attempts := attempts })
      identity w.dueForgets
    have hforget := forget_identity (w := w.setRetention rid { r with attempts := attempts })
      hm hk (r := { r with attempts := attempts }) (by simp [Store.setRetention])
    simp only [Store.setRetention] at hlast hforget ⊢
    rw [hlast, getD_some, hforget]
    simp [Store.dropRecord, Store.setRetention, update_idem]
  | false => simp [Store.runForget, Store.setRetention]

theorem sees_joined {seen : RestoreEvent → Prop} (hs : Sees r attempt (some seen) attempts)
    (event : RestoreEvent) :
    (attempts.get? attempt).isSome ∧
      ∀ e, e ∈ joined attempts attempt event ↔ e = .begin ∨ seen e ∨ e = event := by
  have hown := hs.own
  cases hg : attempts.get? attempt with
  | none => rw [hg] at hown; exact hown.elim
  | some old =>
    rw [hg] at hown
    refine ⟨rfl, fun e => ?_⟩
    have := hown e
    simp only [joined, hg, getD_some, mem_insert_iff]
    tauto

theorem restoreCall_open {events : List RestoreEvent}
    (hm : identity ∈ w.manifests.keys) (hk : w.records.get? identity = some rid)
    (hs : Sees r attempt (some (· ∈ events)) attempts) (event : RestoreEvent) :
    AfterEvents w identity rid r attempt (events ++ [event])
      ((w.setRetention rid { r with attempts := attempts }).restoreCall identity attempt event) := by
  obtain ⟨hsome, hmem⟩ := sees_joined hs event
  have hiff : ∀ e, e ≠ .begin → (e ∈ joined attempts attempt event ↔ e ∈ events ++ [event]) := by
    intro e he
    rw [hmem, mem_append, mem_singleton]
    simp [he]
  have hfail := hiff .failed (by decide)
  have hack := hiff .ack (by decide)
  have hadm := hiff .admitted (by decide)
  have hj := joinEvent_eq attempts attempt event
  rw [if_pos (.inr hsome)] at hj
  simp only [hfail, hack, hadm] at hj
  have hcall := restoreCall_eq (w := w.setRetention rid { r with attempts := attempts })
    (r := { r with attempts := attempts }) hm hk (by simp [Store.setRetention]) hj
  rw [hcall]
  -- the attempts with the event in them
  have hset : Sees r attempt (some (· ∈ events ++ [event]))
      (attempts.set attempt (joined attempts attempt event)) := by
    refine ⟨?_, fun a ha => ?_⟩
    · rw [get?_set_self]
      intro e
      rw [hmem]
      simp
    · rw [get?_set_ne ha]
      exact hs.others a ha
  unfold AfterEvents fate
  by_cases hboth : .failed ∈ events ++ [event] ∧ .ack ∈ events ++ [event]
  · simp only [if_pos hboth]
    refine ⟨attempts.pop attempt, ⟨?_, fun a ha => ?_⟩, ?_⟩
    · rw [get?_pop_self]
      exact trivial
    · rw [get?_pop, if_neg ha]
      exact hs.others a ha
    · rw [if_neg fun h => (of_decide_eq_true h).2.2 hboth.1]
      exact setRetention_twice _ _ _
  · simp only [if_neg hboth]
    by_cases hdone : .admitted ∈ events ++ [event] ∧ .ack ∈ events ++ [event]
    · simp only [if_pos hdone]
      refine ⟨_, hset, ?_⟩
      rw [if_pos (decide_eq_true ⟨hdone.1, hdone.2, fun h => hboth ⟨h, hdone.2⟩⟩)]
      simp [Store.dropRecord, Store.setRetention, update_idem]
    · simp only [if_neg hdone]
      refine ⟨_, hset, ?_⟩
      rw [if_neg fun h => hdone ⟨(of_decide_eq_true h).1, (of_decide_eq_true h).2.1⟩]
      exact setRetention_twice _ _ _

theorem restoreCall_stale (hk : w.records.get? identity = some rid)
    (hr : w.retentions rid = some r) (hclosed : r.attempts.get? attempt = none)
    (he : event ≠ .begin) : w.restoreCall identity attempt event = w := by
  have hj : joinEvent r.attempts attempt event = none := by
    rw [joinEvent_eq, if_neg (by simp [he, hclosed])]
  unfold Store.restoreCall Store.restoreEvent
  simp only [hk, hr, hj]
  simp [Store.runForget]

theorem restoreCall_unknown
    (hk : w.records.get? identity = none) : w.restoreCall identity attempt event = w := by
  unfold Store.restoreCall Store.restoreEvent
  simp only [hk]
  simp [Store.runForget]

section

variable (hm : identity ∈ w.manifests.keys) (hk : w.records.get? identity = some rid)
variable (hr : w.retentions rid = some r) (hclosed : r.attempts.get? attempt = none)
include hm hk hr hclosed

theorem restoreCall_begin :
    AfterEvents w identity rid r attempt [] (w.restoreCall identity attempt .begin) := by
  have hjoined : joined r.attempts attempt .begin = [.begin] := by simp [joined, hclosed]
  have hj := joinEvent_eq r.attempts attempt .begin
  rw [if_pos (.inl rfl), hjoined] at hj
  rw [restoreCall_eq hm hk hr hj]
  refine ⟨r.attempts.set attempt [.begin], ⟨?_, fun a ha => get?_set_ne ha⟩, ?_⟩
  · rw [get?_set_self]
    simp
  · simp

/-- The store after a `begin` and other events of one attempt, in any order that is not late. -/
theorem afterEvents {events : List RestoreEvent} (hbegin : .begin ∉ events)
    (hlate : ¬ Late events) :
    AfterEvents w identity rid r attempt events
      ((.begin :: events).foldl (fun w => w.restoreCall identity attempt) w) := by
  induction events using List.reverseRecOn with
  | nil => exact restoreCall_begin hm hk hr hclosed
  | append_singleton events event ih =>
    have he : event ≠ .begin := fun h => hbegin (by simp [h])
    have hstep := ih (fun h => hbegin (mem_append_left _ h)) (by
      rintro ⟨before, after, rfl, hrest⟩
      exact hlate ⟨before, after ++ [event], by simp, hrest⟩)
    rw [← cons_append, foldl_append, foldl_cons, foldl_nil]
    generalize (RestoreEvent.begin :: events).foldl (fun w => w.restoreCall identity attempt) w = w'
      at hstep ⊢
    unfold AfterEvents at hstep
    cases hf : fate events with
    | open_ =>
      rw [hf] at hstep
      obtain ⟨attempts, hs, rfl⟩ := hstep
      exact restoreCall_open hm hk hs event
    | refused =>
      rw [hf] at hstep
      obtain ⟨attempts, hs, rfl⟩ := hstep
      have hnone : attempts.get? attempt = none := by
        have := hs.own
        cases hg : attempts.get? attempt with
        | none => rfl
        | some old => rw [hg] at this; exact this.elim
      have hstale := restoreCall_stale (w := w.setRetention rid { r with attempts := attempts })
        (r := { r with attempts := attempts }) hk (by simp [Store.setRetention]) hnone he
      rw [hstale]
      have hboth : .failed ∈ events ∧ .ack ∈ events := by
        unfold fate at hf
        split at hf
        · assumption
        · split at hf <;> cases hf
      have hf' : fate (events ++ [event]) = .refused := by
        rw [fate, if_pos ⟨mem_append_left _ hboth.1, mem_append_left _ hboth.2⟩]
      unfold AfterEvents
      rw [hf']
      exact ⟨attempts, hs, rfl⟩
    | retired =>
      rw [hf] at hstep
      obtain ⟨attempts, hs, rfl⟩ := hstep
      rw [restoreCall_unknown (by simp [Store.dropRecord])]
      have hdone : .failed ∉ events ∧ .admitted ∈ events ∧ .ack ∈ events := by
        unfold fate at hf
        split at hf
        · cases hf
        · next hno =>
          split at hf
          · next hdone => exact ⟨fun h => hno ⟨h, hdone.2⟩, hdone⟩
          · cases hf
      have hfail : event ≠ .failed := by
        rintro rfl
        exact hlate ⟨events, [], rfl, hdone.2.1, hdone.2.2, hdone.1⟩
      have hin : event ∈ events := by
        cases event with
        | begin => exact absurd rfl he
        | admitted => exact hdone.2.1
        | ack => exact hdone.2.2
        | failed => exact absurd rfl hfail
      have hmem : ∀ e, e ∈ events ++ [event] ↔ e ∈ events := by
        intro e
        rw [mem_append, mem_singleton]
        constructor
        · rintro (h | rfl)
          · exact h
          · exact hin
        · exact .inl
      have hseen : (fun e => e ∈ events ++ [event]) = fun e => e ∈ events :=
        funext fun e => propext (hmem e)
      have hf' : fate (events ++ [event]) = .retired := by
        rw [← hf]
        simp only [fate, hmem]
      unfold AfterEvents
      rw [hf', hseen]
      exact ⟨attempts, hs, rfl⟩

end

/-! ## The monitor -/

theorem uncharge_monitor (owners : List Page) : (w.uncharge cfg owners).monitor = w.monitor := by
  unfold Store.uncharge
  split <;> rfl

theorem forget_monitor (reqId : String) (generation : Option Int) :
    (w.forget reqId generation).monitor = w.monitor := by
  refine w.forget_induction (P := fun v => v.monitor = w.monitor) rfl fun v key _ hv => ?_
  unfold Store.forgetKey
  simp only
  split
  · exact hv
  · split <;> exact hv

theorem publish_monitor [DecidableEq κ] {manifest : LocalCheckpoint κ}
    {end_ : Int} {groups pages : Groups κ} {starts : Bool}
    (h : (w.publish cfg identity manifest end_ groups starts).monitor = .spilling rid pages) :
    w.monitor = .spilling rid pages := by
  unfold Store.publish at h
  split at h
  · exact h
  split at h
  · exact h
  simp only at h
  split at h
  · split at h
    · split at h
      · cases h
      · rw [uncharge_monitor] at h
        exact h
    · exact h
  · exact h

/-- A spill is started on records without restore attempts only. -/
theorem spill_starts [DecidableEq κ] (hs : w.step cfg a = some w') {groups : Groups κ}
    (hnew : w.monitor ≠ .spilling rid groups) (h : w'.monitor = .spilling rid groups) :
    ∃ r, w.retentions rid = some r ∧ r.attempts.entries = [] := by
  cases a with
  | publish => cases hs; exact absurd (publish_monitor h) hnew
  | forget => cases hs; rw [forget_monitor] at h; exact absurd h hnew
  | restoreEvent identity attempt event =>
    cases hs
    unfold Store.restoreEvent at h
    split at h
    · exact absurd h hnew
    split at h
    · exact absurd h hnew
    split at h
    · exact absurd h hnew
    · simp only at h
      split at h <;> exact absurd h hnew
  | runForget i =>
    simp only [Store.step, Store.runForget, bind_eq_bind, bind_eq_some_iff] at hs
    obtain ⟨identity, -, hs⟩ := hs
    cases hs
    rw [forget_monitor] at h
    exact absurd h hnew
  | retire i =>
    simp only [Store.step, Store.retire, bind_eq_bind, bind_eq_some_iff] at hs
    obtain ⟨pages, -, hs⟩ := hs
    cases hs
    rw [uncharge_monitor] at h
    exact absurd h hnew
  | select now =>
    simp only [Store.step, Store.select] at hs
    split at hs
    · split at hs
      · cases hs
        exact absurd h hnew
      · next found rid' r hfound =>
        cases hs
        cases h
        obtain ⟨e, -, he⟩ := exists_of_findSome?_eq_some hfound
        rw [bind_eq_some_iff] at he
        obtain ⟨found, hr', he⟩ := he
        split at he
        · next hel =>
          cases he
          refine ⟨_, hr', ?_⟩
          simp only [Retention.eligible, Bool.and_eq_true, List.isEmpty_iff] at hel
          exact hel.1.2
        · cases he
    · cases hs
  | spilled results =>
    simp only [Store.step, Store.spilled] at hs
    split at hs
    · simp only [bind_eq_bind, bind_eq_some_iff] at hs
      obtain ⟨r, -, hs⟩ := hs
      split at hs
      · cases hs
        cases h
      · rw [bind_eq_some_iff] at hs
        obtain ⟨remote, -, hs⟩ := hs
        split at hs <;> cases hs <;> cases h
    · cases hs
  | spillFailed now =>
    simp only [Store.step, Store.spillFailed] at hs
    split at hs
    · simp only [bind_eq_bind, bind_eq_some_iff] at hs
      obtain ⟨r, -, hs⟩ := hs
      cases hs
      cases h
    · cases hs
  | spillDied =>
    simp only [Store.step, Store.spillDied] at hs
    split at hs <;> cases hs
    cases h
  | spillUnknown page =>
    simp only [Store.step, Store.spillUnknown] at hs
    split at hs <;> cases hs
    cases h
  | retireConfirmed =>
    simp only [Store.step, Store.retireConfirmed] at hs
    split at hs <;> cases hs
    rw [uncharge_monitor] at h
    cases h
  | finishSpill =>
    simp only [Store.step, Store.finishSpill] at hs
    split at hs
    · cases hs
      rw [uncharge_monitor] at h
      split at h <;> cases h
    · cases hs
  | monitorExit raised =>
    simp only [Store.step, Store.monitorExit] at hs
    split at hs
    · split at hs
      · cases hs
        cases h
      · split at hs <;> cases hs
        cases h
    · cases hs
  | close => cases hs; exact absurd h hnew

/-! ## Main theorem -/

theorem attempt_closed (hg : Tracking g) (hr : g.store.retentions rid = some r) :
    r.attempts.get? attempt = none ↔ openSince (historyOf g.log rid attempt) = none := by
  have ht := hg.tracks rid r hr attempt
  cases hg : r.attempts.get? attempt with
  | none =>
    rw [hg] at ht
    refine iff_of_true rfl ?_
    cases hs : openSince (historyOf g.log rid attempt) with
    | none => rfl
    | some since => rw [hs] at ht; exact ht.elim
  | some events =>
    rw [hg] at ht
    refine iff_of_false (by simp) fun hs => ?_
    rw [hs] at ht
    exact ht.elim

/-- **Restore attempts.**  In every run a record leaves only through a `forget`, `close` or
the forget of a confirmed attempt; an event asks for that forget exactly when it confirms its
attempt; `failed` with `ack` closes the attempt and keeps the record; the order of the events
does not matter unless `failed` is late; and no spill starts under an open attempt. -/
theorem restore_attempts [DecidableEq κ] (cfg : Config) {g : Logged κ}
    (h : (restoreMachine cfg).Reachable g) :
    (∀ a w' k, g.store.step cfg a = some w' → k ∈ g.store.records.keys → k ∉ w'.records.keys →
      (∃ reqId generation, a = .forget reqId generation ∧
        matchesIdentity reqId generation k = true) ∨
      ∃ i, a = .runForget i ∧ g.store.dueForgets[i]? = some k ∧
        (g.store.closed = true ∨ ConfirmedBy g.log k)) ∧
    (∀ identity rid attempt event, g.store.records.get? identity = some rid →
      ((g.store.restoreEvent identity attempt event).dueForgets =
          g.store.dueForgets ++ [identity] ↔
        Confirmed (historyOf g.log rid attempt ++ [event]))) ∧
    (∀ identity rid attempt event, g.store.records.get? identity = some rid →
      Refused (historyOf g.log rid attempt) event →
      ∃ r attempts, g.store.retentions rid = some r ∧ attempts.get? attempt = none ∧
        g.store.restoreEvent identity attempt event =
          g.store.setRetention rid { r with attempts := attempts }) ∧
    (∀ identity rid attempt events events', g.store.records.get? identity = some rid →
      openSince (historyOf g.log rid attempt) = none → .begin ∉ events →
      (∀ e, e ∈ events ↔ e ∈ events') → ¬ Late events → ¬ Late events' →
      Store.Alike ((.begin :: events).foldl (fun w => w.restoreCall identity attempt) g.store)
        ((.begin :: events').foldl (fun w => w.restoreCall identity attempt) g.store)) ∧
    (∀ a w' rid groups, g.store.step cfg a = some w' → g.store.monitor ≠ .spilling rid groups →
      w'.monitor = .spilling rid groups →
      ∀ attempt, openSince (historyOf g.log rid attempt) = none) := by
  have hg : Tracking g := ((restore_inductive cfg).reachable h).2
  refine ⟨fun a w' k hs hk hgone => record_leaves hg hs hk hgone, fun identity rid attempt event hk =>
    retires_iff hg hk attempt event, fun identity rid attempt event hk => refused_closes hg hk,
    ?_, ?_⟩
  · intro identity rid attempt events events' hk hopen hbegin hsame hlate hlate'
    obtain ⟨r, hr⟩ := hg.wired.present identity rid hk
    have hm := hg.covered identity (mem_keys_of_get? hk)
    have hclosed := (attempt_closed hg hr).2 hopen
    exact AfterEvents.alike hsame (afterEvents hm hk hr hclosed hbegin hlate)
      (afterEvents hm hk hr hclosed (fun hb => hbegin ((hsame _).2 hb)) hlate')
  · intro a w' rid groups hs hnew hspill attempt
    obtain ⟨r, hr, hempty⟩ := spill_starts hs hnew hspill
    refine (attempt_closed hg hr).1 ?_
    simp [Dict.get?, hempty]

/-- A published record with an attempt that was admitted. -/
def admittedRun : List (Action Nat) :=
  [.publish ("r", 1) sharedManifest 2 sharedGroups true, .restoreEvent ("r", 1) 7 .begin,
   .restoreEvent ("r", 1) 7 .admitted]

def admittedStore : Logged Nat :=
  ((restoreMachine sharedConfig).run ⟨Store.init 16 4, []⟩ admittedRun).getD ⟨Store.init 16 4, []⟩

theorem restore_attempts_admitted :
    (admittedStore.store.restoreEvent ("r", 1) 7 .ack).dueForgets =
      admittedStore.store.dueForgets ++ [("r", 1)] := by
  have hr : (restoreMachine sharedConfig).run ⟨Store.init 16 4, []⟩ admittedRun =
      some admittedStore := rfl
  have hstart : (restoreMachine sharedConfig).start (⟨Store.init 16 4, []⟩ : Logged Nat) :=
    ⟨⟨16, 4, rfl, by unfold Store.validCapacity; decide⟩, rfl⟩
  have h := restore_attempts sharedConfig (Machine.reachable_of_run hstart hr)
  exact (h.2.1 ("r", 1) 0 7 .ack rfl).2
    ⟨[], [.admitted, .ack], rfl, rfl, by decide, by decide, by decide⟩

/-- `failed` after `admitted` and `ack` finds the record retired; before them it keeps it. -/
theorem failed_order_matters :
    ¬ ∀ (g : Logged Nat), (restoreMachine sharedConfig).Reachable g →
      ∀ identity rid attempt events events', g.store.records.get? identity = some rid →
        openSince (historyOf g.log rid attempt) = none → events.Perm events' →
        (∀ e ∈ events, e = .admitted ∨ e = .ack ∨ e = .failed) →
        Store.Alike ((.begin :: events).foldl (fun w => w.restoreCall identity attempt) g.store)
          ((.begin :: events').foldl (fun w => w.restoreCall identity attempt) g.store) := by
  intro h
  have hr : (restoreMachine sharedConfig).run ⟨Store.init 16 4, []⟩ admittedRun =
      some admittedStore := rfl
  have hstart : (restoreMachine sharedConfig).start (⟨Store.init 16 4, []⟩ : Logged Nat) :=
    ⟨⟨16, 4, rfl, by unfold Store.validCapacity; decide⟩, rfl⟩
  have halike := h admittedStore (Machine.reachable_of_run hstart hr) ("r", 1) 0 8
    [.admitted, .ack, .failed] [.failed, .admitted, .ack] rfl rfl (by decide) (by decide)
  have hrecords := congrArg (fun w => w.records.get? ("r", 1)) halike.rest
  have h1 : (([.begin, .admitted, .ack, .failed] : List RestoreEvent).foldl
      (fun w => w.restoreCall ("r", 1) 8) admittedStore.store).records.get? ("r", 1) = none := rfl
  have h2 : (([.begin, .failed, .admitted, .ack] : List RestoreEvent).foldl
      (fun w => w.restoreCall ("r", 1) 8) admittedStore.store).records.get? ("r", 1) = some 0 := rfl
  have hrecords' : (none : Option Nat) = some 0 := h1.symm.trans (hrecords.symm.trans h2)
  cases hrecords'

end Checkpoint
