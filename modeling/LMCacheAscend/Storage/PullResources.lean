import LMCacheAscend.Storage.PullServer

/-!
# Who unpins what the server pinned

A pin is held by a handler in progress or by an entry of
`pending_pull_resources`, and each holder gives it back once (`Accounted`).  Two
steps of the code drop a holder without that: a `batched_get_non_blocking` that
raises leaves `mem_objs` unset, so the `finally` releases nothing; and an entry
installed under a `lookup_id` that still has one, as a client's retry does,
takes the place of it.  `Safe` excludes just these.
-/

namespace PullServer

open Lib List Dict

/-! ## Definitions -/

/-- The pins of a handler in progress. -/
def Handler.pinned : Handler → List MemoryObj
  | .looking _ => []
  | .getting _ hits => hits
  | .writing memObjs => memObjs

/-- Its references. -/
def Handler.referenced : Handler → List MemoryObj
  | .looking _ => []
  | .getting _ _ => []
  | .writing memObjs => memObjs

def Server.inEntries (s : Server) (x : MemoryObj) : Nat :=
  s.pendingPullResources.weigh fun e => times e.2.2 x

def Server.heldPins (s : Server) (x : MemoryObj) : Nat :=
  (s.handlers.map fun h => times h.pinned x).sum + s.inEntries x

def Server.heldRefs (s : Server) (x : MemoryObj) : Nat :=
  (s.handlers.map fun h => times h.referenced x).sum + s.inEntries x

/-- Every pin and every reference was given back once or is held. -/
structure Accounted (s : Server) : Prop where
  pins : s.pins.Balanced s.heldPins
  refs : s.refs.Balanced s.heldRefs

/-- The objects that were pinned come back, and an entry finds its place free. -/
def Safe (s : Server) : Action → Prop
  | .get i raised _ prepared => ∀ msg hits, s.handlers[i]? = some (.getting msg hits) → hits ≠ [] →
      raised = false ∧ (msg.pullMode = true → prepared.isSome = true →
        msg.lookupId ∉ s.pendingPullResources.keys)
  | _ => True

/-- No entry is empty. -/
def Filled (s : Server) : Prop :=
  ∀ lookupId entry, s.pendingPullResources.get? lookupId = some entry → entry.2 ≠ []

/-! ## Holders -/

section Steps

variable {ttl : Int} {s s' : Server}

theorem Accounted.init : Accounted Server.init := ⟨fun _ => rfl, fun _ => rfl⟩

variable {i : Nat} {raised : Bool} {hits : List MemoryObj} {msg : LookupAndGetMsg}

theorem Accounted.endHandler (h : Accounted s) {handler : Handler}
    (hi : s.handlers[i]? = some handler) (hsame : handler.pinned = handler.referenced) :
    Accounted ({ s with handlers := s.handlers.eraseIdx i }.release handler.pinned) := by
  refine ⟨h.pins.give fun x => ?_, h.refs.give fun x => ?_⟩
  · have := sum_eraseIdx (fun h => times h.pinned x) hi
    show _ = ((s.handlers.eraseIdx i).map _).sum + s.inEntries x + _
    unfold Server.heldPins
    omega
  · have := sum_eraseIdx (fun h => times h.referenced x) hi
    show _ = ((s.handlers.eraseIdx i).map _).sum + s.inEntries x + _
    unfold Server.heldRefs
    rw [hsame]
    omega

theorem Accounted.setHandler (h : Accounted s) {handler : Handler}
    (hi : s.handlers[i]? = some handler) (handler' : Handler) (pinned referenced : List MemoryObj)
    (hp : ∀ x, times handler'.pinned x = times handler.pinned x + times pinned x)
    (hr : ∀ x, times handler'.referenced x = times handler.referenced x + times referenced x) :
    Accounted { s with handlers := s.handlers.set i handler', pins := s.pins.take pinned,
                       refs := s.refs.take referenced } := by
  refine ⟨h.pins.take fun x => ?_, h.refs.take fun x => ?_⟩
  · have := sum_set (fun h => times h.pinned x) hi handler'
    have := hp x
    show ((s.handlers.set i handler').map _).sum + s.inEntries x = _
    unfold Server.heldPins
    omega
  · have := sum_set (fun h => times h.referenced x) hi handler'
    have := hr x
    show ((s.handlers.set i handler').map _).sum + s.inEntries x = _
    unfold Server.heldRefs
    omega

theorem Accounted.reply (h : Accounted s) (r : Reply) : Accounted (s.reply r) := ⟨h.pins, h.refs⟩

theorem accounted_reply {r : Reply} : Accounted (s.reply r) ↔ Accounted s :=
  ⟨fun h => ⟨h.pins, h.refs⟩, fun h => h.reply r⟩

theorem Accounted.request (h : Accounted s) (msg : LookupAndGetMsg) (handlerExists parsed : Bool) :
    Accounted (s.request msg handlerExists parsed) := by
  unfold Server.request
  split
  · exact h.reply _
  split
  · exact h.reply _
  refine ⟨h.pins.congr fun x => ?_, h.refs.congr fun x => ?_⟩
  · unfold Server.heldPins
    simp only [map_append, map_cons, map_nil, sum_append, sum_cons,
      sum_nil, Handler.pinned, times_nil]
    rfl
  · unfold Server.heldRefs
    simp only [map_append, map_cons, map_nil, sum_append, sum_cons,
      sum_nil, Handler.referenced, times_nil]
    rfl

theorem Accounted.contains (h : Accounted s) {hits : Option (List MemoryObj)}
    (hs : s.contains i hits = some s') : Accounted s' := by
  unfold Server.contains at hs
  split at hs
  · next msg hi =>
    split at hs
    · next hits =>
      cases hs
      have := h.setHandler hi (.getting msg hits) hits []
        (fun x => by simp [Handler.pinned]) (fun x => by simp [Handler.referenced])
      simpa [Ledger.take] using this
    · cases hs
      refine Accounted.reply ?_ _
      have := h.endHandler hi rfl
      simpa [Server.release, Handler.pinned, Ledger.give] using this
  · cases hs

theorem Accounted.written (h : Accounted s) (hs : s.written i raised = some s') : Accounted s' := by
  unfold Server.written at hs
  split at hs
  · next memObjs hi =>
    cases hs
    exact (h.endHandler hi rfl).reply _
  · cases hs

theorem Accounted.popPending (h : Accounted s) (lookupId : LookupId) :
    Accounted (s.popPending lookupId) := by
  unfold Server.popPending
  split
  · next entry he =>
    refine ⟨h.pins.give fun x => ?_, h.refs.give fun x => ?_⟩
    · have := weigh_pop (f := fun e => times e.2.2 x) he
      unfold Server.heldPins Server.inEntries
      simp only [Server.release] at this ⊢
      omega
    · have := weigh_pop (f := fun e => times e.2.2 x) he
      unfold Server.heldRefs Server.inEntries
      simp only [Server.release] at this ⊢
      omega
  · exact h

theorem Accounted.sweep (h : Accounted s) (now : Int) : Accounted (s.sweep ttl now) := by
  unfold Server.sweep
  simp only
  generalize (s.pendingPullResources.entries.filter _).map Prod.fst = expiredIds
  induction expiredIds generalizing s with
  | nil => exact h
  | cons lookupId rest ih => exact ih (h.popPending lookupId)

/-! ## The objects of a lookup -/

theorem Accounted.got (h : Accounted s) (hi : s.handlers[i]? = some (.getting msg hits)) :
    Accounted { s with handlers := s.handlers.set i (.writing hits), refs := s.refs.take hits } := by
  have := h.setHandler hi (.writing hits) [] hits
    (fun x => by simp [Handler.pinned]) (fun x => by simp [Handler.referenced])
  simpa [Ledger.take] using this

theorem Accounted.getReleased (h : Accounted s) (hi : s.handlers[i]? = some (.getting msg hits)) :
    Accounted ({ s with handlers := s.handlers.eraseIdx i,
                        refs := s.refs.take hits }.release hits) := by
  have hlen := lt_of_getElem? hi
  have := (h.got hi).endHandler (i := i) (getElem?_set_self hlen) rfl
  simpa only [eraseIdx_set_eq, Handler.pinned] using this

theorem pins_erase (hi : s.handlers[i]? = some (.getting msg hits)) (x : MemoryObj) :
    ((s.handlers.eraseIdx i).map fun h => times h.pinned x).sum + times hits x =
      (s.handlers.map fun h => times h.pinned x).sum :=
  sum_eraseIdx (fun h => times h.pinned x) hi

theorem refs_erase (hi : s.handlers[i]? = some (.getting msg hits)) (x : MemoryObj) :
    ((s.handlers.eraseIdx i).map fun h => times h.referenced x).sum =
      (s.handlers.map fun h => times h.referenced x).sum :=
  sum_eraseIdx (fun h : Handler => times h.referenced x) hi

/-- An entry is accounted for exactly when nobody's is overwritten. -/
theorem accounted_install (h : Accounted s) (hf : Filled s)
    (hi : s.handlers[i]? = some (.getting msg hits)) (now : Int) :
    Accounted { s with handlers := s.handlers.eraseIdx i, refs := s.refs.take hits,
                       pendingPullResources :=
                         s.pendingPullResources.set msg.lookupId (now, hits) } ↔
      msg.lookupId ∉ s.pendingPullResources.keys := by
  have hpins := pins_erase hi
  have hrefs := refs_erase hi
  constructor
  · intro h' hkey
    obtain ⟨old, hold⟩ := Dict.mem_keys.1 hkey
    obtain ⟨x, hx⟩ := exists_mem_of_ne_nil old.2 (hf _ _ hold)
    have hpos := times_pos hx
    have hput := weigh_put (f := fun e => times e.2.2 x) hold (now, hits)
    have hunique := h'.pins.unique h.pins x
    have hp := hpins x
    unfold Server.heldPins Server.inEntries at hunique
    simp only at hunique hput
    omega
  · intro hkey
    have happend := fun x => weigh_append (fun e => times e.2.2 x) s.pendingPullResources
      (now, hits) hkey
    refine ⟨h.pins.congr fun x => ?_, h.refs.take fun x => ?_⟩
    · have := hpins x
      have := happend x
      unfold Server.heldPins Server.inEntries
      simp only at this ⊢
      omega
    · have := hrefs x
      have := happend x
      unfold Server.heldRefs Server.inEntries
      simp only at this ⊢
      omega

/-- A lookup whose objects do not come back leaves its pins. -/
theorem accounted_raised (h : Accounted s) (hi : s.handlers[i]? = some (.getting msg hits)) :
    Accounted { s with handlers := s.handlers.eraseIdx i } ↔ hits = [] := by
  have hpins := pins_erase hi
  constructor
  · intro h'
    by_contra hne
    obtain ⟨x, hx⟩ := exists_mem_of_ne_nil hits hne
    have hpos := times_pos hx
    have hunique := h'.pins.unique h.pins x
    have hp := hpins x
    unfold Server.heldPins Server.inEntries at hunique
    simp only at hunique
    omega
  · rintro rfl
    simpa [Server.release, Ledger.give, Ledger.take] using h.getReleased hi

theorem accounted_get (h : Accounted s) (hf : Filled s) {now : Int}
    {prepared : Option (List BufferRef)} (hs : s.get i raised now prepared = some s') :
    Accounted s' ↔ Safe s (.get i raised now prepared) := by
  unfold Server.get at hs
  split at hs
  · next msg hits hi =>
    have hsafe : Safe s (.get i raised now prepared) ↔ (hits ≠ [] → raised = false ∧
        (msg.pullMode = true → prepared.isSome = true →
          msg.lookupId ∉ s.pendingPullResources.keys)) := by
      refine ⟨fun hsafe => hsafe msg hits hi, fun hsafe msg' hits' hi' => ?_⟩
      cases hi.symm.trans hi'
      exact hsafe
    rw [hsafe]
    simp only at hs
    split at hs
    · next hraised =>
      cases hs
      rw [accounted_reply, accounted_raised h hi]
      constructor
      · exact fun hempty hne => absurd hempty hne
      · intro hall
        by_contra hne
        exact absurd (hall hne).1 (by rw [hraised]; decide)
    · next hraised =>
      have hraised : raised = false := Bool.not_eq_true _ ▸ hraised
      split at hs
      · next hpull =>
        split at hs
        · next hne =>
          split at hs
          · cases hs
            rw [accounted_reply]
            refine (accounted_install h hf hi now).trans ⟨fun hkey _ => ⟨hraised, fun _ _ => hkey⟩,
              fun hall => (hall hne).2 hpull rfl⟩
          · cases hs
            refine iff_of_true ((h.getReleased hi).reply _) fun _ => ⟨hraised, ?_⟩
            rintro - ⟨⟩
        · next hempty =>
          cases hs
          exact iff_of_true ((h.getReleased hi).reply _) fun hne => absurd hne hempty
      · next hpush =>
        split at hs
        · cases hs
          exact iff_of_true (h.got hi) fun _ => ⟨hraised, fun hp => absurd hp hpush⟩
        · cases hs
          exact iff_of_true ((h.getReleased hi).reply _) fun _ => ⟨hraised, fun hp => absurd hp hpush⟩
  · cases hs

theorem accounted_step (h : Accounted s) (hf : Filled s) {a : Action}
    (hs : s.step ttl a = some s') : Accounted s' ↔ Safe s a := by
  cases a with
  | request msg handlerExists parsed =>
    cases hs
    exact iff_of_true (h.request msg handlerExists parsed) trivial
  | contains i hits => exact iff_of_true (h.contains hs) trivial
  | get i raised now prepared => exact accounted_get h hf hs
  | written i raised => exact iff_of_true (h.written hs) trivial
  | done lookupId => cases hs; exact iff_of_true (h.popPending lookupId) trivial
  | sweep now => cases hs; exact iff_of_true (h.sweep now) trivial

/-! ## Entries -/

theorem Filled.popPending (hf : Filled s) (lookupId : LookupId) :
    Filled (s.popPending lookupId) := by
  unfold Server.popPending
  split
  · intro j entry he
    have he : (s.pendingPullResources.pop lookupId).get? j = some entry := he
    rw [get?_pop] at he
    split at he
    · cases he
    · exact hf j entry he
  · exact hf

theorem Filled.sweep (hf : Filled s) (now : Int) : Filled (s.sweep ttl now) := by
  unfold Server.sweep
  simp only
  generalize (s.pendingPullResources.entries.filter _).map Prod.fst = expiredIds
  induction expiredIds generalizing s with
  | nil => exact hf
  | cons lookupId rest ih => exact ih (hf.popPending lookupId)

theorem Filled.get (hf : Filled s) {now : Int}
    {prepared : Option (List BufferRef)} (hs : s.get i raised now prepared = some s') :
    Filled s' := by
  unfold Server.get at hs
  split at hs
  · next msg hits _ =>
    simp only at hs
    split at hs
    · cases hs; exact hf
    split at hs
    · split at hs
      · next hne =>
        split at hs
        · cases hs
          intro j entry he
          have he : (s.pendingPullResources.set msg.lookupId (now, hits)).get? j = some entry := he
          by_cases hj : j = msg.lookupId
          · subst hj
            rw [get?_set_self] at he
            cases he
            exact hne
          · rw [get?_set_ne hj] at he
            exact hf j entry he
        · cases hs; exact hf
      · cases hs; exact hf
    · split at hs <;> cases hs <;> exact hf
  · cases hs

theorem Filled.step (hf : Filled s) {a : Action} (hs : s.step ttl a = some s') : Filled s' := by
  cases a with
  | request msg handlerExists parsed =>
    cases hs
    unfold Server.request
    split
    · exact hf
    split
    · exact hf
    exact hf
  | contains i hits =>
    simp only [Server.step, Server.contains] at hs
    split at hs
    · split at hs <;> cases hs <;> exact hf
    · cases hs
  | get i raised now prepared => exact hf.get hs
  | written i raised =>
    simp only [Server.step, Server.written] at hs
    split at hs <;> cases hs
    exact hf
  | done lookupId => cases hs; exact hf.popPending lookupId
  | sweep now => cases hs; exact hf.sweep now

end Steps

theorem safe_inductive (ttl : Int) :
    (serverMachine ttl).InductiveIf Safe fun s => Accounted s ∧ Filled s := by
  constructor
  · rintro s rfl
    exact ⟨Accounted.init, fun j entry he => by cases he⟩
  · intro s a s' h hok hs
    exact ⟨(accounted_step h.1 h.2 hs).2 hok, h.2.step hs⟩

/-! ## Main theorem -/

/-- **Pull resources.**  In the runs whose lookups bring back what was pinned and install no
entry over another, and only there, every pin and every reference is held by a handler in
progress or an entry, or was given back once. -/
theorem pull_resources (ttl : Int) :
    (∀ s, (serverMachine ttl).ReachableIf Safe s → Accounted s) ∧
    ∀ s a s', (serverMachine ttl).ReachableIf Safe s → s.step ttl a = some s' →
      (Accounted s' ↔ Safe s a) := by
  refine ⟨fun s h => ((safe_inductive ttl).reachable h).1, fun s a s' h hs => ?_⟩
  have ⟨hacc, hfilled⟩ := (safe_inductive ttl).reachable h
  exact accounted_step hacc hfilled hs

/-- A pull of one object, before it was told done. -/
def servedOnce : Server :=
  { Server.init with pendingPullResources := Dict.empty.set "L" (0, [5]),
                     replies := [.found 1 [("u", 0)]],
                     pins := { taken := [5], given := [] }, refs := { taken := [5], given := [] } }

theorem pull_resources_served : Accounted servedOnce := by
  have h0 : (serverMachine 360).ReachableIf Safe Server.init := .start rfl
  have h1 := Machine.ReachableIf.step (Action.request ⟨"L", true⟩ true true) h0 trivial rfl
  have h2 := Machine.ReachableIf.step (Action.contains 0 (some [5])) h1 trivial rfl
  refine (pull_resources 360).1 servedOnce
    (.step (.get 0 false 0 (some [("u", 0)])) h2 (fun msg hits hi _ => ?_) rfl)
  cases hi
  exact ⟨rfl, fun _ _ => not_mem_nil⟩

/-- The client's first answer is lost and it asks again; then it says done, once. -/
def retriedRun : List Action :=
  let answer := fun k : Nat => if k = 0 then Answer.zmqError else .reply (.found 1 [("u", 0)])
  let sent := (sendLookupRequestWithRetry ⟨"L", true⟩ answer 3 0).1
  sent.flatMap (fun msg => [.request msg true true, .contains 0 (some [5]),
    .get 0 false 0 (some [("u", 0)])]) ++ [.done "L"]

theorem retry_leaves_pin :
    ¬∀ s, (serverMachine 360).Reachable s → Accounted s := by
  intro h
  have hr : (serverMachine 360).run Server.init retriedRun =
      some { Server.init with replies := [.found 1 [("u", 0)], .found 1 [("u", 0)]],
                              pins := { taken := [5, 5], given := [5] },
                              refs := { taken := [5, 5], given := [5] } } := rfl
  have hpins := (h _ (Machine.reachable_of_run rfl hr)).pins 5
  cases hpins

/-- **What a peer may still read is pinned.**  In the safe runs each object of an entry that waits for
its Done, and each object that a handler writes, has a pin and a reference that are not given back. -/
theorem readable_pinned (h : (serverMachine ttl).ReachableIf Safe s) {x : MemoryObj}
    (hx : (∃ lookupId entry, s.pendingPullResources.get? lookupId = some entry ∧ x ∈ entry.2) ∨
      ∃ memObjs, .writing memObjs ∈ s.handlers ∧ x ∈ memObjs) :
    times s.pins.given x < times s.pins.taken x ∧ times s.refs.given x < times s.refs.taken x := by
  have hacc := ((safe_inductive ttl).reachable h).1
  have hpins : times s.pins.taken x = times s.pins.given x +
      ((s.handlers.map fun h => times h.pinned x).sum + s.inEntries x) := hacc.pins x
  have hrefs : times s.refs.taken x = times s.refs.given x +
      ((s.handlers.map fun h => times h.referenced x).sum + s.inEntries x) := hacc.refs x
  rcases hx with ⟨lookupId, entry, hentry, hmem⟩ | ⟨memObjs, hhandler, hmem⟩
  · have hpop : _ + times entry.2 x = s.inEntries x :=
      weigh_pop (f := fun e => times e.2.2 x) hentry
    have hpos := times_pos hmem
    omega
  · obtain ⟨i, hi⟩ := mem_iff_getElem?.1 hhandler
    have hp : _ + times memObjs x = _ := sum_eraseIdx (fun h => times (Handler.pinned h) x) hi
    have hr : _ + times memObjs x = _ := sum_eraseIdx (fun h => times (Handler.referenced h) x) hi
    have hpos := times_pos hmem
    omega

theorem readable_pinned_served :
    times servedOnce.pins.given 5 < times servedOnce.pins.taken 5 := by
  have h0 : (serverMachine 360).ReachableIf Safe Server.init := .start rfl
  have h1 := Machine.ReachableIf.step (Action.request ⟨"L", true⟩ true true) h0 trivial rfl
  have h2 := Machine.ReachableIf.step (Action.contains 0 (some [5])) h1 trivial rfl
  have h3 : (serverMachine 360).ReachableIf Safe servedOnce := by
    refine .step (.get 0 false 0 (some [("u", 0)])) h2 (fun msg hits hi _ => ?_) rfl
    cases hi
    exact ⟨rfl, fun _ _ => not_mem_nil⟩
  exact (readable_pinned h3 (.inl ⟨"L", (0, [5]), rfl, mem_singleton_self _⟩)).1

end PullServer
