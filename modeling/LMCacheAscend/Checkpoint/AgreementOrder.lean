import LMCacheAscend.Checkpoint.Agreement

/-!
# The ranks agree

Every rank contributes to the collective in the order of the markers, and the
`m`-th contributions of all ranks are for the `m`-th marker (`LeaderOk`,
`PassiveOk`).  What is in a mailbox, and what a call returned, is the outcome
of a reduction that all ranks have made (`Decided`), which no later
contribution changes.
-/

namespace CheckpointAgreement

open Lib List Function Dict

variable {n : Nat} {w w' : World n} {r : Fin n} {p q : Passive} {k : Key}

/-! ## Reductions that all ranks have made -/

/-- The outcome of a reduction under the identity. -/
def Decided (w : World n) (k : Key) (ready : Bool) : Prop :=
  ∃ m, w.reduced m = true ∧ (keys w.leader.contributed)[m]? = some k ∧
    (∀ r, (keys (w.passives r).contributed)[m]? = some k) ∧ ready = w.outcome m

variable {m : Nat} {ready : Bool}

theorem reduced_iff : w.reduced m = true ↔
    m < w.leader.contributed.length ∧ ∀ r, m < (w.passives r).contributed.length := by
  unfold World.reduced
  exact decide_eq_true_iff

theorem getElem?_of_isPrefix {α : Type} {l l' : List α} (h : l <+: l')
    (hm : m < l.length) : l'[m]? = l[m]? := by
  obtain ⟨t, rfl⟩ := h
  exact getElem?_append_left hm

theorem said_of_isPrefix {l l' : List (Key × Bool)} (h : l <+: l') (hm : m < l.length) :
    said l' m = said l m := by
  unfold said
  rw [getElem?_of_isPrefix h hm]

theorem Decided.mono (h : Decided w k ready)
    (hleader : w.leader.contributed <+: w'.leader.contributed)
    (hpassives : ∀ r, (w.passives r).contributed <+: (w'.passives r).contributed) :
    Decided w' k ready := by
  obtain ⟨m, hreduced, hkey, hkeys, rfl⟩ := h
  obtain ⟨hm, hms⟩ := reduced_iff.1 hreduced
  have hreduced' : w'.reduced m = true := by
    refine reduced_iff.2 ⟨?_, fun r => ?_⟩
    · exact Nat.lt_of_lt_of_le hm hleader.length_le
    · exact Nat.lt_of_lt_of_le (hms r) (hpassives r).length_le
  refine ⟨m, hreduced', ?_, fun r => ?_, ?_⟩
  · unfold keys at hkey ⊢
    rw [getElem?_map, getElem?_of_isPrefix hleader hm, ← getElem?_map]
    exact hkey
  · have hr := hkeys r
    unfold keys at hr ⊢
    rw [getElem?_map, getElem?_of_isPrefix (hpassives r) (hms r), ← getElem?_map]
    exact hr
  · unfold World.outcome
    congr 1
    rw [said_of_isPrefix hleader hm]
    have hsaid : ∀ r, said (w'.passives r).contributed m = said (w.passives r).contributed m :=
      fun r => said_of_isPrefix (hpassives r) (hms r)
    simp only [hsaid]

/-! ## A rank's own values -/

/-- The identities and values of the rank's calls. -/
def Passive.own (p : Passive) : List (Key × Bool) := p.calls.map fun c => (c.key, c.ready)

def Passive.ready? (p : Passive) (k : Key) : Option Bool :=
  (p.own.find? fun e => e.1 = k).map Prod.snd

theorem mem_own :
    (k, ready) ∈ p.own ↔ ∃ c ∈ p.calls, c.key = k ∧ c.ready = ready := by
  unfold Passive.own
  rw [mem_map]
  simp only [Prod.mk.injEq]

theorem mem_own_of_ready? (h : p.ready? k = some ready) : (k, ready) ∈ p.own := by
  unfold Passive.ready? at h
  obtain ⟨e, he, rfl⟩ := Option.map_eq_some_iff.1 h
  have hkey : e.1 = k := by simpa using find?_some he
  rw [← hkey]
  exact mem_of_find?_eq_some he

theorem ready?_isSome (h : (k, ready) ∈ p.own) : (p.ready? k).isSome := by
  unfold Passive.ready?
  rw [Option.isSome_map, find?_isSome]
  exact ⟨(k, ready), h, by simp⟩

theorem ready?_eq_none (h : ∀ c ∈ p.calls, c.key ≠ k) : p.ready? k = none := by
  unfold Passive.ready?
  rw [Option.map_eq_none_iff, find?_eq_none]
  intro e he
  obtain ⟨c, hc, rfl⟩ := mem_map.1 he
  simpa using h c hc

theorem ready?_append (hq : q.own = p.own ++ [(k, ready)])
    (h : ∀ c ∈ p.calls, c.key ≠ k) (j : Key) :
    q.ready? j = if j = k then some ready else p.ready? j := by
  have hnone := ready?_eq_none h
  unfold Passive.ready? at hnone ⊢
  rw [hq, find?_append]
  by_cases hj : j = k
  · subst hj
    rw [if_pos rfl, Option.map_eq_none_iff.1 hnone]
    simp
  · have hkj : ¬ k = j := fun heq => hj heq.symm
    rw [if_neg hj]
    simp [hkj]

/-! ## The invariant -/

/-- The marker that was received and not contributed to. -/
def Reader.awaits : Reader → List Key
  | .awaiting k _ => [k]
  | _ => []

structure PassiveOk (w : World n) (p : Passive) : Prop where
  taken : p.taken ≤ w.sent.length
  received : keys p.contributed ++ p.reader.awaits =
    (w.sent.take p.taken).filter Key.agreement
  cells : ∀ k f, p.prefixResults.get? k = some f → p.cells[f]? = some ⟨k, p.ready? k⟩
  waits : ∀ k f, p.reader = .awaiting k f → p.prefixResults.get? k = some f
  turn : ∀ k m, p.reader = .reducing k m → p.contributed.length = m + 1 ∧
    (keys p.contributed)[m]? = some k
  own : ∀ e ∈ p.contributed, e ∈ p.own
  distinct : (p.calls.map Call.key).Nodup
  states : ∀ c ∈ p.calls, (c.state = .waiting ∧ ∃ f, p.prefixResults.get? c.key = some f) ∨
    ∃ ready, c.state = .returned ready ∧ Decided w c.key ready
  pending : ∀ e ∈ p.pending, Decided w e.1 e.2

/-- The marker that was broadcast and not contributed to. -/
def Stage.owes : Stage → List Key
  | .marked k _ => [k]
  | _ => []

structure LeaderOk (w : World n) : Prop where
  sent : keys w.leader.contributed ++ w.leader.stage.owes = w.markers
  distinct : w.markers.Nodup
  own : ∀ e ∈ w.leader.contributed, e ∈ w.leader.calls
  marked : ∀ k ready, w.leader.stage = .marked k ready → (k, ready) ∈ w.leader.calls
  turn : ∀ k m, w.leader.stage = .reducing k m → w.leader.contributed.length = m + 1 ∧
    w.leader.results.length = m ∧ (keys w.leader.contributed)[m]? = some k
  done : (∀ k m, w.leader.stage ≠ .reducing k m) →
    w.leader.results.length = w.leader.contributed.length
  followed : ∀ r, w.leader.results.length ≤ (w.passives r).contributed.length
  results : ∀ e ∈ w.leader.results, Decided w e.1 e.2

structure Inv (w : World n) : Prop where
  leader : LeaderOk w
  passives : ∀ r, PassiveOk w (w.passives r)

theorem Inv.init : Inv (World.init : World n) where
  leader := {
    sent := rfl
    distinct := nodup_nil
    own := fun _ he => nomatch he
    marked := fun _ _ he => nomatch he
    turn := fun _ _ he => nomatch he
    done := fun _ => rfl
    followed := fun _ => Nat.le_refl _
    results := fun _ he => nomatch he }
  passives _ := {
    taken := Nat.le_refl _
    received := rfl
    cells := nofun
    waits := nofun
    turn := nofun
    own := fun _ he => nomatch he
    distinct := nodup_nil
    states := fun _ hc => nomatch hc
    pending := fun _ he => nomatch he }

/-! ## What is the same in a later world -/

theorem PassiveOk.mono (h : PassiveOk w p) (hsent : w.sent <+: w'.sent)
    (hleader : w.leader.contributed <+: w'.leader.contributed)
    (hpassives : ∀ r, (w.passives r).contributed <+: (w'.passives r).contributed) :
    PassiveOk w' p where
  taken := Nat.le_trans h.taken hsent.length_le
  received := by
    obtain ⟨t, ht⟩ := hsent
    rw [← ht, take_append_of_le_length h.taken]
    exact h.received
  cells := h.cells
  waits := h.waits
  turn := h.turn
  own := h.own
  distinct := h.distinct
  states c hc := by
    rcases h.states c hc with hw | ⟨ready, hstate, hd⟩
    · exact .inl hw
    · exact .inr ⟨ready, hstate, hd.mono hleader hpassives⟩
  pending e he := (h.pending e he).mono hleader hpassives

theorem Inv.setPassive (h : Inv w) (hmore : (w.passives r).contributed <+: p.contributed)
    (hp : PassiveOk w p) : Inv (w.setPassive r p) := by
  have hpassives : ∀ j, (w.passives j).contributed <+:
      ((w.setPassive r p).passives j).contributed := by
    intro j
    show _ <+: (update w.passives r p j).contributed
    by_cases hj : j = r
    · subst hj
      rw [update_self]
      exact hmore
    · rw [update_of_ne hj]
  have hok : ∀ j, PassiveOk w ((w.setPassive r p).passives j) := by
    intro j
    show PassiveOk w (update w.passives r p j)
    by_cases hj : j = r
    · subst hj
      rw [update_self]
      exact hp
    · rw [update_of_ne hj]
      exact h.passives j
  constructor
  · exact {
      sent := h.leader.sent
      distinct := h.leader.distinct
      own := h.leader.own
      marked := h.leader.marked
      turn := h.leader.turn
      done := h.leader.done
      followed := fun j => Nat.le_trans (h.leader.followed j) (hpassives j).length_le
      results := fun e he => (h.leader.results e he).mono (prefix_refl _) hpassives }
  · intro j
    exact (hok j).mono (prefix_refl _) (prefix_refl _) hpassives

/-! ## Futures -/

/-- The cell of an identity is in place, and is what it was when there was one. -/
theorem prefixResult_get? (p : Passive) (k : Key) :
    (p.prefixResult k).1.prefixResults.get? k = some (p.prefixResult k).2 := by
  unfold Passive.prefixResult
  cases hget : p.prefixResults.get? k with
  | some f => exact hget
  | none => exact get?_set_self _ _ _

/-- The future of an identity whose call is over is not looked for, so that a new one belongs to a
call that is still to come. -/
theorem PassiveOk.prefixResult (h : PassiveOk w p) (hk : p.prefixResults.get? k = none →
    p.ready? k = none) : PassiveOk w (p.prefixResult k).1 := by
  unfold Passive.prefixResult
  cases hget : p.prefixResults.get? k with
  | some f => exact h
  | none =>
    refine { h with cells := ?_, waits := ?_, states := ?_ }
    · intro j f hf
      show (p.cells ++ [⟨k, none⟩])[f]? = some ⟨j, p.ready? j⟩
      have hf : (p.prefixResults.set k p.cells.length).get? j = some f := hf
      rw [get?_set] at hf
      by_cases hj : j = k
      · subst hj
        rw [if_pos rfl] at hf
        cases hf
        rw [getElem?_append_right (Nat.le_refl _), Nat.sub_self, hk hget]
        rfl
      · rw [if_neg hj] at hf
        exact getElem?_append_some (h.cells j f hf) _
    · intro j f hf
      have hj := h.waits j f hf
      show (p.prefixResults.set k p.cells.length).get? j = some f
      by_cases hjk : j = k
      · subst hjk
        rw [hget] at hj
        cases hj
      · rw [get?_set_ne hjk]
        exact hj
    · intro c hc
      rcases h.states c hc with ⟨hstate, f, hf⟩ | hd
      · refine .inl ⟨hstate, ?_⟩
        exact Dict.mem_keys.1 (mem_keys_set.2 (.inr (mem_keys_of_get? hf)))
      · exact .inr hd

/-- A call begins with nothing decided. -/
theorem PassiveOk.call (h : PassiveOk w p) (hnew : ∀ c ∈ p.calls, c.key ≠ k) :
    PassiveOk w (p.call k ready) := by
  have hready : p.ready? k = none := ready?_eq_none hnew
  have hq : PassiveOk w (p.enable.prefixResult k).1 := by
    have henable : PassiveOk w p.enable := { h with }
    exact henable.prefixResult fun _ => hready
  have hget := prefixResult_get? p.enable k
  have hcalls : (p.enable.prefixResult k).1.calls = p.calls := by
    unfold Passive.prefixResult
    cases p.enable.prefixResults.get? k <;> rfl
  unfold Passive.call
  generalize (p.enable.prefixResult k).1 = q at hq hget hcalls ⊢
  generalize (p.enable.prefixResult k).2 = f at hget ⊢
  have hreadyq : ∀ j, q.ready? j = p.ready? j := by
    intro j
    unfold Passive.ready? Passive.own
    rw [hcalls]
  have hcell := hq.cells k f hget
  rw [hreadyq k, hready] at hcell
  have hvalue : q.value f = none := by
    unfold Passive.value
    rw [hcell]
    rfl
  simp only [hvalue]
  have hown : (q.calls ++ [(⟨k, ready, .waiting⟩ : Call)]).map (fun c => (c.key, c.ready)) =
      q.own ++ [(k, ready)] := by
    rw [map_append]
    rfl
  have hafter : ∀ j, ({ q with cells := q.cells.set f ⟨k, some ready⟩,
                               calls := q.calls ++ [⟨k, ready, .waiting⟩] } : Passive).ready? j =
      if j = k then some ready else q.ready? j :=
    ready?_append hown (hcalls ▸ hnew)
  refine { hq with cells := ?_, own := ?_, distinct := ?_, states := ?_ }
  · intro j g hg
    rw [hafter j]
    show (q.cells.set f ⟨k, some ready⟩)[g]? = _
    have hold := hq.cells j g hg
    by_cases hj : j = k
    · subst hj
      obtain rfl : f = g := Option.some.inj (hget.symm.trans hg)
      rw [if_pos rfl]
      exact getElem?_set_self (lt_of_getElem? hold)
    · have hfg : f ≠ g := by
        rintro rfl
        rw [hcell] at hold
        exact hj (congrArg Cell.key (Option.some.inj hold)).symm
      rw [if_neg hj, getElem?_set_ne hfg]
      exact hold
  · intro e he
    show e ∈ (q.calls ++ [(⟨k, ready, .waiting⟩ : Call)]).map (fun c => (c.key, c.ready))
    rw [hown]
    exact mem_append_left _ (hq.own e he)
  · show ((q.calls ++ [(⟨k, ready, .waiting⟩ : Call)]).map Call.key).Nodup
    rw [map_append]
    refine nodup_snoc hq.distinct fun hmem => ?_
    obtain ⟨c, hc, hck⟩ := mem_map.1 hmem
    exact hnew c (hcalls ▸ hc) hck
  · intro c hc
    rcases mem_append.1 hc with hc | hc
    · exact hq.states c hc
    · rw [mem_singleton.1 hc]
      exact .inl ⟨rfl, f, hget⟩

/-- A call ends with the decision of its key. -/
theorem PassiveOk.endCall (h : PassiveOk w p) {i : Nat} {c : Call}
    (hi : p.calls[i]? = some c) (hd : Decided w c.key ready)
    (hread : ∀ f, p.reader ≠ .awaiting c.key f) :
    PassiveOk w (p.endCall i c (.returned ready)) := by
  have hlt : i < p.calls.length := lt_of_getElem? hi
  have hci : p.calls[i] = c := (List.getElem?_eq_some_iff.1 hi).2
  have hown : (p.endCall i c (.returned ready)).own = p.own := by
    show (p.calls.set i { c with state := .returned ready }).map (fun c => (c.key, c.ready)) = _
    have hget : p.own[i]? = some (c.key, c.ready) := by
      unfold Passive.own
      rw [getElem?_map, hi]
      rfl
    obtain ⟨hltm, helem⟩ := List.getElem?_eq_some_iff.1 hget
    rw [map_set]
    show p.own.set i (c.key, c.ready) = p.own
    rw [← helem]
    exact set_getElem_self hltm
  have hkeys : (p.calls.set i { c with state := .returned ready }).map Call.key =
      p.calls.map Call.key := by
    have hkey := congrArg (List.map Prod.fst) hown
    unfold Passive.own at hkey
    rw [map_map, map_map] at hkey
    exact hkey
  have hready : ∀ k, (p.endCall i c (.returned ready)).ready? k = p.ready? k := by
    intro k
    unfold Passive.ready?
    rw [hown]
  have hpop : ∀ j f, (p.prefixResults.pop c.key).get? j = some f →
      p.prefixResults.get? j = some f := by
    intro j f hf
    rw [get?_pop] at hf
    split at hf
    · cases hf
    · exact hf
  refine { h with cells := ?_, waits := ?_, own := ?_, distinct := ?_, states := ?_ }
  · intro j f hf
    rw [hready]
    exact h.cells j f (hpop j f hf)
  · intro j f hj
    show (p.prefixResults.pop c.key).get? j = some f
    have hne : j ≠ c.key := by
      rintro rfl
      exact hread f hj
    rw [get?_pop, if_neg hne]
    exact h.waits j f hj
  · intro e he
    rw [hown]
    exact h.own e he
  · show ((p.calls.set i { c with state := .returned ready }).map Call.key).Nodup
    rw [hkeys]
    exact h.distinct
  · intro x hx
    obtain ⟨j, hj⟩ := getElem?_of_mem hx
    by_cases hji : j = i
    · subst hji
      have hself : (p.calls.set j { c with state := .returned ready })[j]? =
        some { c with state := .returned ready } := getElem?_set_self hlt
      obtain rfl := Option.some.inj (hself.symm.trans hj)
      exact .inr ⟨ready, rfl, hd⟩
    · have hget : p.calls[j]? = some x := by
        rw [← hj]
        exact (getElem?_set_ne (Ne.symm hji)).symm
      rcases h.states x (mem_of_getElem? hget) with ⟨hstate, f, hf⟩ | hd'
      · refine .inl ⟨hstate, f, ?_⟩
        have hne : x.key ≠ c.key := by
          intro heq
          have hj : j < (p.calls.map Call.key).length := by
            rw [length_map]
            exact lt_of_getElem? hget
          have hi : i < (p.calls.map Call.key).length := by
            rw [length_map]
            exact hlt
          have hsame : (p.calls.map Call.key)[j] = (p.calls.map Call.key)[i] := by
            rw [getElem_map, getElem_map, hci, (List.getElem?_eq_some_iff.1 hget).2]
            exact heq
          exact hji (h.distinct.getElem_inj_iff.1 hsame)
        show (p.prefixResults.pop c.key).get? x.key = some f
        rw [get?_pop, if_neg hne]
        exact hf
      · exact .inr hd'

/-! ## The order of the reductions -/

theorem PassiveOk.received_prefix (h : PassiveOk w p) :
    keys p.contributed ++ p.reader.awaits <+: w.markers := by
  rw [h.received]
  exact (List.take_prefix _ _).filter _

theorem PassiveOk.order (h : PassiveOk w p) : keys p.contributed <+: w.markers :=
  (prefix_append _ _).trans h.received_prefix

theorem LeaderOk.order (h : LeaderOk w) : keys w.leader.contributed <+: w.markers := by
  rw [← h.sent]
  exact prefix_append _ _

theorem nodup_of_prefix {α : Type} {l l' : List α} (h : l <+: l') (hl : l'.Nodup) : l.Nodup :=
  hl.sublist h.sublist

/-- All ranks make their `m`-th contribution for the `m`-th marker. -/
theorem Inv.decided (h : Inv w) (hreduced : w.reduced m = true)
    (hk : w.markers[m]? = some k) : Decided w k (w.outcome m) := by
  obtain ⟨hm, hms⟩ := reduced_iff.1 hreduced
  refine ⟨m, hreduced, ?_, fun r => ?_, rfl⟩
  · have hlen : m < (keys w.leader.contributed).length := by
      unfold keys
      rw [length_map]
      exact hm
    rw [← getElem?_of_isPrefix h.leader.order hlen]
    exact hk
  · have hlen : m < (keys (w.passives r).contributed).length := by
      unfold keys
      rw [length_map]
      exact hms r
    rw [← getElem?_of_isPrefix (h.passives r).order hlen]
    exact hk

theorem marker_at {l : List (Key × Bool)} (h : keys l <+: w.markers)
    (hk : (keys l)[m]? = some k) : w.markers[m]? = some k := by
  rw [getElem?_of_isPrefix h (lt_of_getElem? hk)]
  exact hk

theorem Decided.mem (h : Decided w k ready) (r : Fin n) :
    k ∈ keys (w.passives r).contributed := by
  obtain ⟨m, -, -, hkeys, -⟩ := h
  exact mem_of_getElem? (hkeys r)

/-! ## Steps of a passive rank -/

theorem Inv.take (h : Inv w) {i : Nat} (hs : (w.passives r).take i = some p) :
    Inv (w.setPassive r p) := by
  have hok := h.passives r
  unfold Passive.take at hs
  cases hi : (w.passives r).calls[i]? with
  | none =>
    rw [hi] at hs
    cases hs
  | some c =>
    simp only [hi] at hs
    split at hs
    · cases he : (w.passives r).pending.find? fun e => e.1 = c.key with
      | none =>
        simp only [he] at hs
        cases hs
      | some e =>
        simp only [he] at hs
        cases hs
        have hkey : e.1 = c.key := by simpa using find?_some he
        have hd : Decided w c.key e.2 := by
          rw [← hkey]
          exact hok.pending e (mem_of_find?_eq_some he)
        have hread : ∀ f, (w.passives r).reader ≠ .awaiting c.key f := by
          intro f hf
          have hnodup := nodup_of_prefix hok.received_prefix h.leader.distinct
          rw [hf] at hnodup
          exact (nodup_append.1 hnodup).2.2 c.key (hd.mem r) c.key
            (mem_singleton_self _) rfl
        have hend := hok.endCall hi hd hread
        refine h.setPassive (prefix_refl _) { hend with pending := ?_ }
        intro x hx
        exact hok.pending x (mem_of_mem_erase hx)
    · cases hs

theorem Inv.read (h : Inv w) (hs : (w.passives r).read = some p) : Inv (w.setPassive r p) := by
  have hok := h.passives r
  unfold Passive.read at hs
  split at hs
  · next hidle =>
    cases hs
    have hreceived := hok.received
    rw [hidle] at hreceived
    exact h.setPassive (prefix_refl _)
      { hok with received := hreceived, waits := nofun
                 turn := nofun }
  · cases hs

theorem filter_take_succ {l : List Key} (hk : l[m]? = some k) :
    (l.take (m + 1)).filter Key.agreement =
      (l.take m).filter Key.agreement ++ if k.agreement then [k] else [] := by
  have hlt : m < l.length := lt_of_getElem? hk
  have htake : l.take (m + 1) = l.take m ++ [k] := by
    rw [take_add_one, hk]
    rfl
  rw [htake, filter_append]
  split
  all_goals
    next hagree =>
    simp [hagree]

theorem Inv.fresh_marker (h : Inv w) (hreader : (w.passives r).reader.awaits = [])
    (hk : w.sent[(w.passives r).taken]? = some k) (hagree : k.agreement = true)
    (hget : (w.passives r).prefixResults.get? k = none) : (w.passives r).ready? k = none := by
  have hok := h.passives r
  apply ready?_eq_none
  rintro c hc rfl
  rcases hok.states c hc with ⟨-, f, hf⟩ | ⟨ready, -, hd⟩
  · rw [hget] at hf
    cases hf
  have hsplit := filter_take_succ hk
  rw [← hok.received, hreader, append_nil, if_pos hagree] at hsplit
  have hprefix : keys (w.passives r).contributed ++ [c.key] <+: w.markers := by
    rw [← hsplit]
    exact (List.take_prefix _ _).filter _
  have hnodup := nodup_of_prefix hprefix h.leader.distinct
  exact (nodup_append.1 hnodup).2.2 c.key (hd.mem r) c.key (mem_singleton_self _) rfl

theorem prefixResult_same (p : Passive) (k : Key) : (p.prefixResult k).1.contributed =
    p.contributed ∧ (p.prefixResult k).1.reader = p.reader ∧ (p.prefixResult k).1.taken =
    p.taken := by
  unfold Passive.prefixResult
  cases p.prefixResults.get? k <;> exact ⟨rfl, rfl, rfl⟩

theorem Inv.receive (h : Inv w) (hk : w.sent[(w.passives r).taken]? = some k)
    (hsafe : (w.passives r).reader = .reading false → k.agreement = false)
    (hs : (w.passives r).receive k = some p) : Inv (w.setPassive r p) := by
  have hok := h.passives r
  have htaken : (w.passives r).taken + 1 ≤ w.sent.length := lt_of_getElem? hk
  have hsplit := filter_take_succ hk
  -- an envelope of another kind is only counted
  have hother : k.agreement = false → (w.passives r).reader.awaits = [] →
      keys (w.passives r).contributed ++ [] =
        (w.sent.take ((w.passives r).taken + 1)).filter Key.agreement := by
    intro hagree hawaits
    rw [hsplit, ← hok.received, hawaits, hagree]
    simp
  unfold Passive.receive at hs
  cases hreader : (w.passives r).reader with
  | reading armed =>
    have hawaits : (w.passives r).reader.awaits = [] := by
      rw [hreader]
      rfl
    cases armed with
    | true =>
      simp only [hreader] at hs
      split at hs
      · next hagree =>
        cases hs
        have hq := hok.prefixResult (h.fresh_marker hawaits hk hagree)
        have hget := prefixResult_get? (w.passives r) k
        obtain ⟨hcontributed, -, -⟩ := prefixResult_same (w.passives r) k
        refine h.setPassive ?_
          { hq with taken := htaken, received := ?_, waits := ?_, turn := nofun }
        · show _ <+: ((w.passives r).prefixResult k).1.contributed
          rw [hcontributed]
        · show keys ((w.passives r).prefixResult k).1.contributed ++ [k] = _
          rw [hcontributed, hsplit, ← hok.received, hawaits, if_pos hagree, append_nil]
        · intro j f hf
          cases hf
          exact hget
      · next hagree =>
        cases hs
        exact h.setPassive (prefix_refl _)
          { hok with taken := htaken, received := hother (by simpa using hagree) hawaits
                     waits := nofun, turn := nofun }
    | false =>
      have hagree : k.agreement = false := hsafe hreader
      simp only [hreader] at hs
      cases hs
      refine h.setPassive (prefix_refl _)
        { hok with taken := htaken, received := hother hagree hawaits
                   waits := nofun, turn := nofun
                   pending := ?_ }
      rw [hagree]
      exact hok.pending
  | _ =>
    simp only [hreader] at hs
    cases hs

theorem Inv.contribute (h : Inv w) (hs : (w.passives r).contribute = some p) :
    Inv (w.setPassive r p) := by
  have hok := h.passives r
  unfold Passive.contribute at hs
  cases hreader : (w.passives r).reader with
  | awaiting k f =>
    simp only [hreader] at hs
    cases hvalue : (w.passives r).value f with
    | none =>
      simp only [hvalue] at hs
      cases hs
    | some ready =>
      simp only [hvalue] at hs
      cases hs
      have hcell := hok.cells k f (hok.waits k f hreader)
      have hown : (k, ready) ∈ (w.passives r).own := by
        unfold Passive.value at hvalue
        rw [hcell] at hvalue
        exact mem_own_of_ready? hvalue
      have hkeys : keys ((w.passives r).contributed ++ [(k, ready)]) =
          keys (w.passives r).contributed ++ [k] := by
        unfold keys
        rw [map_append]
        rfl
      refine h.setPassive (prefix_append _ _)
        { hok with received := ?_, waits := nofun, turn := ?_, own := ?_ }
      · show keys ((w.passives r).contributed ++ [(k, ready)]) ++ [] = _
        rw [hkeys, append_nil, ← hok.received, hreader]
        rfl
      · intro j m hj
        cases hj
        refine ⟨by simp, ?_⟩
        have hlen : (keys (w.passives r).contributed).length =
            (w.passives r).contributed.length := length_map _
        show (keys ((w.passives r).contributed ++ [(k, ready)]))[_]? = _
        rw [hkeys, getElem?_append_right (Nat.le_of_eq hlen), hlen, Nat.sub_self]
        rfl
      · intro e he
        rcases mem_append.1 he with he | he
        · exact hok.own e he
        · rw [mem_singleton.1 he]
          exact hown
  | _ =>
    simp only [hreader] at hs
    cases hs

theorem Inv.conclude (h : Inv w) (hs : w.conclude r = some w') : Inv w' := by
  have hok := h.passives r
  unfold World.conclude at hs
  cases hreader : (w.passives r).reader with
  | reducing k turn =>
    simp only [hreader] at hs
    split at hs
    · next hreduced =>
      cases hs
      have hkey := (hok.turn k turn hreader).2
      have hd := h.decided hreduced (marker_at hok.order hkey)
      have hreceived := hok.received
      rw [hreader] at hreceived
      refine h.setPassive (prefix_refl _)
        { hok with received := hreceived, waits := nofun
                   turn := nofun, pending := ?_ }
      intro e he
      rcases mem_append.1 he with he | he
      · exact hok.pending e he
      · rw [mem_singleton.1 he]
        exact hd
    · cases hs
  | _ =>
    simp only [hreader] at hs
    cases hs

/-! ## Steps of rank 0 -/

theorem Inv.sends (h : Inv w) (hfree : w.leader.stage = .free) (stage : Stage)
    (calls : List (Key × Bool)) (hcalls : w.leader.calls ⊆ calls)
    (howes : stage.owes = if k.agreement then [k] else [])
    (hmarked : ∀ j ready, stage = .marked j ready → (j, ready) ∈ calls)
    (hturn : ∀ j m, stage ≠ .reducing j m) (hnew : k.agreement = true → k ∉ w.sent) :
    Inv { w with sent := w.sent ++ [k]
                 leader := { w.leader with stage := stage, calls := calls } } := by
  have hmarkers : (w.sent ++ [k]).filter Key.agreement = w.markers ++ stage.owes := by
    rw [filter_append, howes]
    unfold World.markers
    split
    all_goals
      next hagree =>
      simp [hagree]
  have hsent := h.leader.sent
  rw [hfree] at hsent
  constructor
  · refine { h.leader with sent := ?_, distinct := ?_, own := ?_, marked := hmarked
                           turn := fun j m hj => absurd hj (hturn j m), done := ?_, results := ?_ }
    · show keys w.leader.contributed ++ stage.owes = (w.sent ++ [k]).filter Key.agreement
      rw [hmarkers, ← hsent]
      simp [Stage.owes]
    · show ((w.sent ++ [k]).filter Key.agreement).Nodup
      rw [hmarkers, howes, nodup_append]
      refine ⟨h.leader.distinct, by split <;> simp, fun a ha b hb => ?_⟩
      split at hb
      · next hagree =>
        rw [mem_singleton] at hb
        rintro rfl
        exact hnew hagree (hb ▸ (mem_filter.1 ha).1)
      · cases hb
    · intro e he
      exact hcalls (h.leader.own e he)
    · intro _
      exact h.leader.done fun j m => by rw [hfree]; nofun
    · intro e he
      exact (h.leader.results e he).mono (prefix_refl _) fun _ => prefix_refl _
  · intro r
    exact (h.passives r).mono (prefix_append _ _) (prefix_refl _)
      fun _ => prefix_refl _

theorem Inv.lead (h : Inv w) (hnew : k ∉ w.sent) (hs : w.lead k ready = some w') :
    Inv w' := by
  unfold World.lead at hs
  split at hs
  · next hc =>
    cases hs
    refine h.sends hc.1 _ _ (subset_append_left _ _) (if_pos hc.2).symm ?_ nofun fun _ => hnew
    intro j b hj
    cases hj
    exact mem_append_right _ (mem_singleton_self _)
  · cases hs

theorem Inv.broadcast (h : Inv w) (hfree : w.leader.stage = .free) (hk : k.agreement = false) :
    Inv { w with sent := w.sent ++ [k] } := by
  have howes : w.leader.stage.owes = if k.agreement then [k] else [] := by
    rw [hfree, hk]
    rfl
  have hnew : k.agreement = true → k ∉ w.sent := by
    intro hagree
    rw [hk] at hagree
    cases hagree
  exact h.sends hfree w.leader.stage w.leader.calls (Subset.refl _) howes h.leader.marked
    (fun j m => by rw [hfree]; nofun) hnew

theorem Inv.leadContribute (h : Inv w) (hs : w.leadContribute = some w') : Inv w' := by
  unfold World.leadContribute at hs
  cases hstage : w.leader.stage with
  | marked k ready =>
    simp only [hstage] at hs
    cases hs
    have hkeys : keys (w.leader.contributed ++ [(k, ready)]) = keys w.leader.contributed ++ [k] := by
      unfold keys
      rw [map_append]
      rfl
    have hsent := h.leader.sent
    rw [hstage] at hsent
    have hdone : w.leader.results.length = w.leader.contributed.length :=
      h.leader.done fun j m => by rw [hstage]; nofun
    constructor
    · refine { h.leader with sent := ?_, own := ?_, marked := nofun, turn := ?_, done := ?_,
                             results := ?_ }
      · show keys (w.leader.contributed ++ [(k, ready)]) ++ [] = w.markers
        rw [hkeys, append_nil]
        exact hsent
      · intro e he
        rcases mem_append.1 he with he | he
        · exact h.leader.own e he
        · rw [mem_singleton.1 he]
          exact h.leader.marked k ready hstage
      · intro j m hj
        cases hj
        have hlen : (keys w.leader.contributed).length = w.leader.contributed.length :=
          length_map _
        refine ⟨by simp, hdone, ?_⟩
        show (keys (w.leader.contributed ++ [(k, ready)]))[_]? = _
        rw [hkeys, getElem?_append_right (Nat.le_of_eq hlen), hlen, Nat.sub_self]
        rfl
      · intro hno
        exact absurd rfl (hno k _)
      · intro e he
        exact (h.leader.results e he).mono (prefix_append _ _) fun _ => prefix_refl _
    · intro r
      exact (h.passives r).mono (prefix_refl _) (prefix_append _ _)
        fun _ => prefix_refl _
  | _ =>
    simp only [hstage] at hs
    cases hs

theorem Inv.leadConclude (h : Inv w) (hs : w.leadConclude = some w') : Inv w' := by
  unfold World.leadConclude at hs
  cases hstage : w.leader.stage with
  | reducing k turn =>
    simp only [hstage] at hs
    split at hs
    · next hreduced =>
      cases hs
      obtain ⟨hlen, hresults, hkey⟩ := h.leader.turn k turn hstage
      have hd := h.decided hreduced (marker_at h.leader.order hkey)
      have hsent := h.leader.sent
      rw [hstage] at hsent
      have hmono : ∀ {j b}, Decided w j b → Decided { w with leader := { w.leader with
          stage := .free, results := w.leader.results ++ [(k, w.outcome turn)] } } j b :=
        fun hj => hj.mono (prefix_refl _) fun _ => prefix_refl _
      constructor
      · refine { h.leader with sent := hsent, marked := nofun, turn := nofun, done := ?_,
                               followed := ?_, results := ?_ }
        · intro _
          show (w.leader.results ++ [(k, w.outcome turn)]).length = w.leader.contributed.length
          rw [length_append, hresults, hlen]
          rfl
        · intro r
          show (w.leader.results ++ [(k, w.outcome turn)]).length ≤ _
          rw [length_append, hresults]
          exact (reduced_iff.1 hreduced).2 r
        · intro e he
          rcases mem_append.1 he with he | he
          · exact hmono (h.leader.results e he)
          · rw [mem_singleton.1 he]
            exact hmono hd
      · intro r
        exact (h.passives r).mono (prefix_refl _) (prefix_refl _)
          fun _ => prefix_refl _
    · cases hs
  | _ =>
    simp only [hstage] at hs
    cases hs

/-! ## Runs -/

theorem call_contributed (p : Passive) (k : Key) (ready : Bool) :
    (p.call k ready).contributed = p.contributed := by
  have hcontributed := (prefixResult_same p.enable k).1
  unfold Passive.call
  simp only
  split <;> exact hcontributed

theorem Inv.step (h : Inv w) {a : Action n} (hsafe : Safe w a) (hs : w.step a = some w') :
    Inv w' := by
  cases a with
  | lead k ready => exact h.lead hsafe hs
  | leadContribute => exact h.leadContribute hs
  | leadConclude => exact h.leadConclude hs
  | broadcast k =>
    rw [World.step] at hs
    split at hs
    · next hc =>
      cases hs
      exact h.broadcast hc.1 hc.2
    · cases hs
  | enable r =>
    cases hs
    exact h.setPassive (prefix_refl _) { h.passives r with }
  | call r k ready =>
    rw [World.step] at hs
    split at hs
    · cases hs
      refine h.setPassive ?_ ((h.passives r).call hsafe)
      rw [call_contributed]
    · cases hs
  | take r i =>
    obtain ⟨p, hp, rfl⟩ := Option.map_eq_some_iff.1 hs
    exact h.take hp
  | timeout r i => exact hsafe.elim
  | read r =>
    obtain ⟨p, hp, rfl⟩ := Option.map_eq_some_iff.1 hs
    exact h.read hp
  | receive r =>
    rw [World.step] at hs
    split at hs
    · next k hk =>
      obtain ⟨p, hp, rfl⟩ := Option.map_eq_some_iff.1 hs
      exact h.receive hk (fun hreader => hsafe hreader k hk) hp
    · cases hs
  | contribute r =>
    obtain ⟨p, hp, rfl⟩ := Option.map_eq_some_iff.1 hs
    exact h.contribute hp
  | conclude r => exact h.conclude hs

/-! ## Agreement -/

theorem Inv.consensus (h : Inv w) (hd : Decided w k ready) :
    w.Consensus k ready := by
  obtain ⟨m, -, hkey, hkeys, rfl⟩ := hd
  unfold keys at hkey hkeys
  rw [getElem?_map] at hkey
  obtain ⟨e, he, hek⟩ := Option.map_eq_some_iff.1 hkey
  have hfirst : said w.leader.contributed m = e.2 := by
    unfold said
    rw [he]
    rfl
  refine ⟨e.2, ?_, fun r => said (w.passives r).contributed m, fun r => ?_, ?_⟩
  · rw [← hek]
    exact h.leader.own e (mem_of_getElem? he)
  · have hr := hkeys r
    rw [getElem?_map] at hr
    obtain ⟨e', he', hek'⟩ := Option.map_eq_some_iff.1 hr
    have hsaid : said (w.passives r).contributed m = e'.2 := by
      unfold said
      rw [he']
      rfl
    show ∃ c ∈ (w.passives r).calls, c.key = k ∧ c.ready = said (w.passives r).contributed m
    rw [hsaid, ← mem_own, ← hek']
    exact (h.passives r).own e' (mem_of_getElem? he')
  · unfold World.outcome
    rw [hfirst]
    cases e.2 <;> simp

theorem Inv.awaited (h : Inv w) {f : Nat} (hreader : (w.passives r).reader = .awaiting k f)
    (hcall : ∃ c ∈ (w.passives r).calls, c.key = k) : ((w.passives r).value f).isSome := by
  have hok := h.passives r
  obtain ⟨c, hc, hkey⟩ := hcall
  unfold Passive.value
  rw [hok.cells k f (hok.waits k f hreader)]
  exact ready?_isSome (mem_own.2 ⟨c, hc, hkey, rfl⟩)

/-- A rank whose turn is to come has an internal step. -/
theorem Inv.passive_goesOn (h : Inv w) {turn : Nat} (hstage : w.leader.stage = .reducing k turn)
    (hbehind : (w.passives r).contributed.length ≤ turn)
    (hcall : ∃ c ∈ (w.passives r).calls, c.key = k) :
    ∃ a : Action n, a.internal ∧ (w.step a).isSome := by
  have hok := h.passives r
  obtain ⟨hlen, hresults, hkey⟩ := h.leader.turn k turn hstage
  have hfollowed := h.leader.followed r
  have hsame : (w.passives r).contributed.length = turn := by omega
  have hkeyslen : (keys (w.passives r).contributed).length = turn := by
    unfold keys
    rw [length_map]
    exact hsame
  have hmarker := marker_at h.leader.order hkey
  cases hreader : (w.passives r).reader with
  | idle =>
    refine ⟨.read r, rfl, ?_⟩
    simp [World.step, Passive.read, hreader]
  | reading armed =>
    -- the marker of this reduction is still to be received
    have htaken : (w.passives r).taken < w.sent.length := by
      by_contra hno
      have hall := hok.received
      rw [hreader, take_of_length_le (Nat.le_of_not_lt hno)] at hall
      have hlt := lt_of_getElem? hmarker
      have hlength := congrArg List.length hall
      rw [length_append, hkeyslen] at hlength
      have hmarkers : (w.sent.filter Key.agreement).length = w.markers.length := rfl
      simp only [Reader.awaits, length_nil] at hlength
      omega
    refine ⟨.receive r, rfl, ?_⟩
    rw [World.step, getElem?_eq_getElem htaken]
    cases armed with
    | true =>
      by_cases hagree : (w.sent[(w.passives r).taken]).agreement <;>
        simp [Passive.receive, hreader, hagree]
    | false => simp [Passive.receive, hreader]
  | awaiting j f =>
    have hj : j = k := by
      have hprefix := hok.received_prefix
      rw [hreader] at hprefix
      have hat : (keys (w.passives r).contributed ++ [j])[turn]? = some j := by
        rw [← hkeyslen, getElem?_append_right (Nat.le_refl _), Nat.sub_self]
        rfl
      have hlt : turn < (keys (w.passives r).contributed ++ [j]).length := by
        rw [length_append, hkeyslen]
        exact Nat.lt_succ_self _
      have hmj := (getElem?_of_isPrefix hprefix hlt).trans hat
      exact Option.some.inj (hmj.symm.trans hmarker)
    subst hj
    obtain ⟨b, hb⟩ := Option.isSome_iff_exists.1 (h.awaited hreader hcall)
    refine ⟨.contribute r, rfl, ?_⟩
    simp [World.step, Passive.contribute, hreader, hb]
  | reducing j m =>
    have hm := (hok.turn j m hreader).1
    have hreduced : w.reduced m = true := by
      refine reduced_iff.2 ⟨by omega, fun q => ?_⟩
      have hq := h.leader.followed q
      omega
    refine ⟨.conclude r, rfl, ?_⟩
    simp [World.step, World.conclude, hreader, hreduced]

theorem Inv.goesOn (h : Inv w) (hlead : w.leading k)
    (hcalls : ∀ r, ∃ c ∈ (w.passives r).calls, c.key = k) :
    ∃ a : Action n, a.internal ∧ (w.step a).isSome := by
  rcases hlead with ⟨ready, hstage⟩ | ⟨turn, hstage⟩
  · refine ⟨.leadContribute, rfl, ?_⟩
    simp [World.step, World.leadContribute, hstage]
  by_cases hreduced : w.reduced turn
  · refine ⟨.leadConclude, rfl, ?_⟩
    simp [World.step, World.leadConclude, hstage, hreduced]
  have hlen := (h.leader.turn k turn hstage).1
  have hbehind : ∃ r, (w.passives r).contributed.length ≤ turn := by
    by_contra hno
    refine hreduced (reduced_iff.2 ⟨by omega, fun r => ?_⟩)
    by_contra hle
    exact hno ⟨r, Nat.le_of_not_lt hle⟩
  obtain ⟨r, hr⟩ := hbehind
  exact h.passive_goesOn hstage hr (hcalls r)

theorem Inv.agreed (h : Inv w) : w.Agreed where
  leaderOrder := h.leader.order
  order r := (h.passives r).order
  leaderOnce := nodup_of_prefix h.leader.order h.leader.distinct
  once r := nodup_of_prefix (h.passives r).order h.leader.distinct
  leaderOwn := h.leader.own
  own r e he := mem_own.1 ((h.passives r).own e he)
  leaderObtains e he := h.consensus (h.leader.results e he)
  obtains r c hc := by
    rcases (h.passives r).states c hc with ⟨hstate, -⟩ | ⟨ready, hstate, hd⟩
    · exact .inl hstate
    · exact .inr ⟨ready, hstate, h.consensus hd⟩
  awaited _ _ _ hreader hcall := h.awaited hreader hcall
  goesOn _ hlead hcalls := h.goesOn hlead hcalls

/-- In every run that meets the conditions the ranks agree, in rank 0's order. -/
theorem ranks_agree (h : (ranks n).ReachableIf Safe w) : w.Agreed := by
  have hinv : (ranks n).InductiveIf Safe Inv := by
    constructor
    · rintro w rfl
      exact Inv.init
    · intro w a w' hI hsafe hs
      exact hI.step hsafe hs
  exact (hinv.reachable h).agreed

/-- Two ranks, of which the passive one is not ready. -/
theorem ranks_agree_two : ∃ w : World 1,
    w.leader.results = [(⟨"r", "checkpoint_index_prefix", 7, 0, 1⟩, false)] ∧
    (w.passives 0).calls =
      [⟨⟨"r", "checkpoint_index_prefix", 7, 0, 1⟩, false, .returned false⟩] ∧ w.Agreed := by
  have h0 : (ranks 1).ReachableIf Safe World.init := .start rfl
  have henabled := h0.step (.enable 0) (by trivial) rfl
  have hread := henabled.step (.read 0) (by trivial) rfl
  have hmarked := hread.step (.lead ⟨"r", "checkpoint_index_prefix", 7, 0, 1⟩ true)
    (by exact not_mem_nil) rfl
  have hreceived := hmarked.step (.receive 0) (by exact fun hreader => nomatch hreader) rfl
  have hled := hreceived.step .leadContribute (by trivial) rfl
  have hcalled := hled.step (.call 0 ⟨"r", "checkpoint_index_prefix", 7, 0, 1⟩ false)
    (by exact fun c hc => nomatch hc) rfl
  have hcontributed := hcalled.step (.contribute 0) (by trivial) rfl
  have hconcluded := hcontributed.step (.conclude 0) (by trivial) rfl
  have htaken := hconcluded.step (.take 0 0) (by trivial) rfl
  have hdone := htaken.step .leadConclude (by trivial) rfl
  exact ⟨_, rfl, rfl, ranks_agree hdone⟩

/-- The passive rank's call times out before its marker comes; the marker makes its future anew. -/
theorem waits_for_nobody : ∃ w : World 1, (ranks 1).Reachable w ∧ ¬ w.Agreed := by
  have hrun : ∃ w, (ranks 1).run World.init
      [.call 0 ⟨"r", "checkpoint_index_prefix", 7, 0, 1⟩ true, .timeout 0 0,
        .lead ⟨"r", "checkpoint_index_prefix", 7, 0, 1⟩ true, .leadContribute, .read 0,
        .receive 0] = some w ∧
      (w.passives 0).reader = .awaiting ⟨"r", "checkpoint_index_prefix", 7, 0, 1⟩ 1 ∧
      (w.passives 0).calls = [⟨⟨"r", "checkpoint_index_prefix", 7, 0, 1⟩, true, .timedOut⟩] ∧
      (w.passives 0).value 1 = none := ⟨_, rfl, rfl, rfl, rfl⟩
  obtain ⟨w, hw, hreader, hcalls, hvalue⟩ := hrun
  refine ⟨w, Machine.reachable_of_run rfl hw, fun hagreed => ?_⟩
  have hset := hagreed.awaited 0 _ _ hreader ⟨_, hcalls ▸ mem_singleton_self _, rfl⟩
  rw [hvalue] at hset
  cases hset

end CheckpointAgreement
