import LMCacheAscend.LayerwiseFill.FillLeases

/-!
# Every lease is settled once

A lease waits in the sources of its request, is held by the callback of a future that has not
ended, was released, or is in quarantine (`Book.once`).  A call takes leases out of these places
and puts them back into one (`loc` are the ones it has in hand), so the count is the same after
it, however it ends.

What a lease retained it keeps until it is released (`Book.pages`), and then gives back, one
`ref_count_down` for each `ref_count_up` (`Book.refs`).
-/

namespace FillLeases

open Lib DirectStore List Option Dict

variable {H : Type} {s s' : FillState H} {loc : List LeaseId}

/-! ## Where a lease is -/

namespace FillState

/-- In the sources of a request. -/
def waiting (s : FillState H) (x : LeaseId) : Nat :=
  s.sources.weigh fun e => times (FillGroups.leases e.2) x

/-- Held by the callbacks of a future that has not ended. -/
def held (x : LeaseId) (r : FillFuture) : Nat :=
  if r.ended = none then times r.callbacks.flatten x else 0

def inFlight (s : FillState H) (x : LeaseId) : Nat := (s.futures.map (held x)).sum

/-- A future that held the lease ended with a fatal error. -/
def FatalEnd (s : FillState H) (x : LeaseId) : Prop :=
  ∃ (f : FutureId) (r : FillFuture) (e : FutureEnd), s.futures[f]? = some r ∧ r.ended = some e ∧
    e.fatal = true ∧ x ∈ r.callbacks.flatten

end FillState

structure Book (s : FillState H) (loc : List LeaseId) : Prop where
  once : ∀ x : Nat, s.waiting x + s.inFlight x + times s.released x + times s.quarantine x +
    times loc x = if x < s.leases.length then 1 else 0
  pages : ∀ (x : Nat) l, s.leases[x]? = some l →
    l.pages = if x ∈ s.released then [] else l.retained
  refs : s.refs.Balanced fun p => (s.leases.map fun l => times l.pages p).sum
  states : ∀ r g, s.sources.get? r = some g → g.entries ≠ [] →
    ∃ fill, s.states.get? r = some (some fill)
  last : ∀ r fill (f : Nat), s.states.get? r = some (some fill) → fill.lastFuture = some f →
    f < s.futures.length
  fatal : ∀ x ∈ s.quarantine, s.FatalEnd x

theorem Book.new : Book (FillState.new : FillState H) [] where
  once x := by simp [FillState.new, FillState.waiting, FillState.inFlight]
  pages x l h := by cases h
  refs x := rfl
  states r g h := by cases h
  last r fill f h := by cases h
  fatal x hx := absurd hx not_mem_nil

variable {x : Nat} {xs : List LeaseId} {reqId : String} {ended : FutureEnd} {f : FutureId}
  {r : FillFuture}

theorem Book.lt (h : Book s loc) (hx : x ∈ loc) : x < s.leases.length := by
  have hone := h.once x
  have hpos := times_pos hx
  by_contra hn
  rw [if_neg hn] at hone
  omega

theorem Book.not_released (h : Book s loc) {x : LeaseId} (hx : x ∈ loc) : x ∉ s.released := by
  intro hr
  have hone := h.once x
  have hpos := times_pos hx
  have hpos' := times_pos hr
  split at hone <;> omega

/-! ## Leases and their pages -/

theorem sum_modify {β : Type} {l : List β} {i : Nat} {a : β} (f : β → Nat) (h : l[i]? = some a)
    (g : β → β) : ((l.modify i g).map f).sum + f a = (l.map f).sum + f (g a) := by
  have hset : l.modify i g = l.set i (g a) := by
    rw [modify_eq_set_getElem?, h]
    rfl
  rw [hset]
  exact sum_set f h (g a)

theorem times_singleton (x y : LeaseId) : times [x] y = if x = y then 1 else 0 := by
  unfold times
  rw [count_singleton]
  by_cases h : x = y <;> simp [h]

theorem times_cons (x : LeaseId) (xs : List LeaseId) (y : LeaseId) :
    times (x :: xs) y = times [x] y + times xs y := times_append [x] xs y

theorem Book.allocate (h : Book s loc) : Book s.allocate (s.leases.length :: loc) where
  once x := by
    have hone := h.once x
    rw [times_cons, times_singleton]
    show s.waiting x + s.inFlight x + times s.released x + times s.quarantine x +
      ((if s.leases.length = x then 1 else 0) + times loc x) =
      if x < (s.leases ++ [_]).length then 1 else 0
    rw [length_append, length_singleton]
    split at hone <;> split <;> split <;> omega
  pages x l hl := by
    change (s.leases ++ [_])[x]? = some l at hl
    rcases getElem?_snoc.1 hl with hl | ⟨-, rfl⟩
    · exact h.pages x l hl
    · rw [ite_self]
  refs := h.refs.congr fun p => by simp [FillState.allocate]
  states := h.states
  last := h.last
  fatal := h.fatal

theorem getElem?_lease {g : Lease → Lease} {y : Nat} {l : Lease}
    (hl : (s.leases.modify x g)[y]? = some l) :
    ∃ l', s.leases[y]? = some l' ∧ l = if x = y then g l' else l' := by
  rw [getElem?_modify] at hl
  obtain ⟨l', hl', rfl⟩ := Option.map_eq_some_iff.1 hl
  refine ⟨l', hl', ?_⟩
  split <;> rfl

theorem Book.retain (h : Book s (x :: loc)) (page : PageId) :
    Book (s.retain x page) (x :: loc) where
  once y := by
    have hone := h.once y
    rw [← length_modify (l := s.leases) (i := x)
      (f := fun l => ⟨l.pages ++ [page], l.retained ++ [page]⟩)] at hone
    exact hone
  pages y l hl := by
    obtain ⟨l', hy, rfl⟩ := getElem?_lease hl
    have hp := h.pages y l' hy
    split
    · next hxy =>
      have hn := h.not_released mem_cons_self
      subst hxy
      rw [if_neg hn] at hp
      show l'.pages ++ [page] = if x ∈ s.released then [] else l'.retained ++ [page]
      rw [if_neg hn, hp]
    · exact hp
  refs := h.refs.take fun p => by
    have hlt := h.lt mem_cons_self
    have hsum := sum_modify (fun l => times l.pages p) (getElem?_eq_getElem hlt)
      fun l => ⟨l.pages ++ [page], l.retained ++ [page]⟩
    simp only [times_append] at hsum
    show ((s.leases.modify x _).map _).sum = _
    omega
  states := h.states
  last := h.last
  fatal := h.fatal

theorem Book.release (h : Book s (x :: loc)) : Book (s.release x) loc where
  once y := by
    have hone := h.once y
    rw [times_cons] at hone
    show s.waiting y + s.inFlight y + times (s.released ++ [x]) y + times s.quarantine y +
      times loc y = if y < (s.leases.modify x _).length then 1 else 0
    rw [length_modify, times_append]
    omega
  pages y l hl := by
    obtain ⟨l', hy, rfl⟩ := getElem?_lease hl
    have hp := h.pages y l' hy
    show _ = if y ∈ s.released ++ [x] then [] else _
    split
    · next hxy => rw [if_pos (by simp [hxy])]
    next hxy =>
    have hmem : y ∈ s.released ++ [x] ↔ y ∈ s.released := by
      simp [Ne.symm hxy]
    simp only [hmem]
    exact hp
  refs := h.refs.give fun p => by
    have hlt := h.lt mem_cons_self
    have hsum := sum_modify (fun l => times l.pages p) (getElem?_eq_getElem hlt)
      fun l => ⟨[], l.retained⟩
    rw [getElem?_eq_getElem hlt]
    show _ = ((s.leases.modify x _).map _).sum + times (s.leases[x]).pages p
    simp only [times_nil] at hsum
    omega
  states := h.states
  last := h.last
  fatal := h.fatal

/-- The releases of `releaseAll`. -/
def FillState.releaseAll (s : FillState H) (xs : List LeaseId) : FillState H :=
  xs.foldl FillState.release s

theorem wp_releaseAll {Q : Except FillError PUnit → FillState H → Prop} :
    wp (releaseAll xs) Q s ↔ Q (.ok ⟨⟩) (s.releaseAll xs) := by
  induction xs generalizing s with
  | nil => rfl
  | cons x xs ih =>
    show wp (FillLeases.release x >>= fun _ => releaseAll xs) Q s ↔ _
    unfold FillLeases.release
    rw [wp_modify_bind, ih]
    rfl

/-- A release changes the leases only. -/
structure Kept (s s' : FillState H) : Prop where
  sources : s'.sources = s.sources
  states : s'.states = s.states
  futures : s'.futures = s.futures
  quarantine : s'.quarantine = s.quarantine
  size : s'.leases.length = s.leases.length

theorem releaseAll_kept (s : FillState H) (xs : List LeaseId) : Kept s (s.releaseAll xs) := by
  induction xs generalizing s with
  | nil => exact ⟨rfl, rfl, rfl, rfl, rfl⟩
  | cons x xs ih =>
    obtain ⟨h1, h2, h3, h4, h5⟩ := ih (s.release x)
    exact ⟨h1, h2, h3, h4, h5.trans (length_modify ..)⟩

theorem releaseAll_append (s : FillState H) (xs ys : List LeaseId) :
    s.releaseAll (xs ++ ys) = (s.releaseAll xs).releaseAll ys := foldl_append

theorem Book.releaseAll (h : Book s (xs ++ loc)) :
    Book (s.releaseAll xs) loc := by
  induction xs generalizing s with
  | nil => exact h
  | cons x xs ih => exact ih h.release

/-! ## A new lease -/

/-- The sources and the direct states are as they were. -/
structure Beside (s s' : FillState H) : Prop where
  sources : s'.sources = s.sources
  states : s'.states = s.states

theorem retainPage_book {x : LeaseId} (calls : PageCalls) (page : PageId) {t : FillState H}
    (h : Book t (x :: loc) ∧ Beside s t) :
    wp (retainPage calls x page) (post (fun _ s' => Book s' (x :: loc) ∧ Beside s s')
      fun _ s' => Book s' (x :: loc) ∧ Beside s s') t := by
  unfold retainPage
  rw [wp_bind, wp_call]
  generalize calls.refused page = r
  rcases r with e | refused
  · exact h
  rw [post_ok, wp_ite]
  split
  · exact h
  rw [wp_bind, wp_call]
  generalize calls.refCountUp page = r
  rcases r with e | u
  · exact h
  · exact ⟨h.1.retain page, h.2.sources, h.2.states⟩

theorem newLease_book (calls : PageCalls) (pages : List PageId) (h : Book s loc) :
    wp (newLease calls pages) (post (fun x s' => Book s' (x :: loc) ∧ Beside s s')
      fun _ s' => Book s' loc ∧ Beside s s') s := by
  unfold newLease
  rw [wp_get_bind, wp_modify_bind, wp_bind, wp_tryCatch]
  refine wp_mono (wp_forM (I := fun t => Book t (s.leases.length :: loc) ∧ Beside s t)
    (fun page _ t ht => retainPage_book calls page ht) ⟨h.allocate, rfl, rfl⟩) ?_
  rintro (e | u) s1 ⟨h1, hb⟩
  · rw [post_error, wp_bind]
    exact ⟨h1.release, hb.sources, hb.states⟩
  · exact ⟨h1, hb⟩

/-! ## Sources and direct states -/

theorem Book.setFill (h : Book s loc) (reqId : String) {fill : Option RequestFill}
    (hfill : (∃ old, s.states.get? reqId = some (some old)) → fill.isSome)
    (hlast : ∀ r (f : Nat), fill = some r → r.lastFuture = some f → f < s.futures.length) :
    Book (s.setFill reqId fill) loc where
  once := h.once
  pages := h.pages
  refs := h.refs
  states r g hg hne := by
    obtain ⟨old, hold⟩ := h.states r g hg hne
    show ∃ fill', (s.states.set reqId fill).get? r = some (some fill')
    rw [get?_set]
    split
    · next hr =>
      obtain ⟨new, hnew⟩ := isSome_iff_exists.1 (hfill ⟨old, hr ▸ hold⟩)
      exact ⟨new, by rw [hnew]⟩
    · exact ⟨old, hold⟩
  last r old f hold hf := by
    change (s.states.set reqId fill).get? r = some (some old) at hold
    rw [get?_set] at hold
    split at hold
    · exact hlast old f (some.inj hold) hf
    · exact h.last r old f hold hf
  fatal := h.fatal

theorem Book.lastFuture (h : Book s loc) {f : Nat}
    (hf : s.lastFuture reqId = some f) : f < s.futures.length := by
  unfold FillState.lastFuture at hf
  rcases hs : s.states.get? reqId with _ | _ | fill
  · rw [hs] at hf
    cases hf
  · rw [hs] at hf
    cases hf
  · rw [hs] at hf
    exact h.last reqId fill f hs hf

theorem updateFill_book {f : RequestFill → RequestFill} (h : Book s loc) (reqId : String)
    (hf : ∀ fill (n : Nat), (f fill).lastFuture = some n →
      fill.lastFuture = some n ∨ n < s.futures.length) :
    wp (updateFill reqId f) (fun _ s' => Book s' loc) s := by
  unfold updateFill
  rw [wp_modify]
  split
  · next fill hs =>
    refine h.setFill reqId (fun _ => rfl) ?_
    intro r n hr hn
    cases hr
    rcases hf fill n hn with hn | hn
    · exact h.last reqId fill n hs hn
    · exact hn
  · exact h

theorem disable_book (h : Book s loc) (reqId reason : String) :
    wp (disable reqId reason) (fun _ s' => Book s' loc) s :=
  updateFill_book h reqId fun _ _ hn => .inl hn

theorem Book.openState (h : Book s loc) (reqId : String) :
    Book (s.setFill reqId ((s.states.get? reqId).getD none)) loc := by
  refine h.setFill reqId ?_ ?_
  · rintro ⟨old, hold⟩
    rw [hold]
    rfl
  · intro r f hr hf
    refine h.lastFuture (?_ : s.lastFuture reqId = some f)
    unfold FillState.lastFuture
    cases hs : s.states.get? reqId with
    | none =>
      rw [hs] at hr
      cases hr
    | some fill =>
      rw [hs] at hr
      change fill = some r at hr
      rw [hr]
      exact hf

theorem Book.prepare (h : Book s loc) (reqId reason : String) (handoff : Bool) :
    Book (s.setFill reqId (some ⟨handoff, reason, s.lastFuture reqId⟩)) loc := by
  refine h.setFill reqId (fun _ => rfl) ?_
  intro r f hr hf
  cases hr
  exact h.lastFuture hf

theorem waiting_groupsOf (s : FillState H) (reqId : String) (x : LeaseId) :
    (s.popSources reqId).waiting x + times (s.groupsOf reqId).leases x = s.waiting x := by
  unfold FillState.waiting FillState.popSources FillState.groupsOf
  cases hs : s.sources.get? reqId with
  | none =>
    rw [pop_of_not_mem (get?_eq_none.1 hs)]
    rfl
  | some g => exact weigh_pop (f := fun e => times (FillGroups.leases e.2) x) hs

theorem Book.popSources (h : Book s loc) (reqId : String) :
    Book (s.popSources reqId) ((s.groupsOf reqId).leases ++ loc) where
  once x := by
    have hone := h.once x
    have hw := waiting_groupsOf s reqId x
    rw [times_append]
    show (s.popSources reqId).waiting x + s.inFlight x + times s.released x +
      times s.quarantine x + (times (s.groupsOf reqId).leases x + times loc x) =
      if x < s.leases.length then 1 else 0
    omega
  pages := h.pages
  refs := h.refs
  states r g hg hne := by
    change (s.sources.pop reqId).get? r = some g at hg
    rw [get?_pop] at hg
    split at hg
    · cases hg
    · exact h.states r g hg hne
  last := h.last
  fatal := h.fatal

theorem waiting_setGroups (s : FillState H) (reqId : String) (groups : FillGroups H) (x : LeaseId) :
    (s.setGroups reqId groups).waiting x + times (s.groupsOf reqId).leases x =
      s.waiting x + times groups.leases x := by
  unfold FillState.waiting FillState.setGroups FillState.groupsOf
  cases hs : s.sources.get? reqId with
  | none => exact weigh_append _ _ _ (get?_eq_none.1 hs)
  | some g => exact weigh_put (f := fun e => times (FillGroups.leases e.2) x) hs groups

theorem Book.setGroups {groups : FillGroups H} (h : Book s (xs ++ loc))
    (hx : ∀ x, times groups.leases x = times (s.groupsOf reqId).leases x + times xs x)
    (hfill : groups.entries ≠ [] → ∃ fill, s.states.get? reqId = some (some fill)) :
    Book (s.setGroups reqId groups) loc where
  once x := by
    have hone := h.once x
    have hw := waiting_setGroups s reqId groups x
    have hx' := hx x
    rw [times_append] at hone
    show (s.setGroups reqId groups).waiting x + s.inFlight x + times s.released x +
      times s.quarantine x + times loc x = if x < s.leases.length then 1 else 0
    omega
  pages := h.pages
  refs := h.refs
  states r g hg hne := by
    change (s.sources.set reqId groups).get? r = some g at hg
    rw [get?_set] at hg
    split at hg
    · next hr =>
      cases hg
      rw [hr]
      exact hfill hne
    · exact h.states r g hg hne
  last := h.last
  fatal := h.fatal

theorem leases_set {groups : FillGroups H} {kvGroup : Nat} (hk : kvGroup ∉ groups.keys)
    (batch : DirectPageBatch H) (x : LeaseId) :
    FillGroups.leases (groups.set kvGroup (batch, x)) = groups.leases ++ [x] := by
  unfold FillGroups.leases Dict.set
  rw [dif_neg hk, map_append]
  rfl

/-! ## `_queue_layerwise_cpu_fill` -/

variable (env : QueueCalls) (args : FillArgs H)

theorem prepareRequest_book (h : Book s loc) (reqId : String) :
    wp (prepareRequest env reqId) (post
      (fun ok s' => Book s' loc ∧ (ok = true → ∃ fill, s'.states.get? reqId = some (some fill)))
      fun _ s' => Book s' loc) s := by
  unfold prepareRequest
  rw [wp_get_bind]
  dsimp only
  split
  · exact ⟨h, by simp⟩
  split
  · exact ⟨h, by simp⟩
  rw [wp_modify_bind, wp_call]
  have hs := h.prepare reqId env.disabledReason env.handoff
  generalize env.prepared = r
  rcases r with e | ok
  · exact hs
  · exact ⟨hs, fun _ => ⟨_, get?_set_self _ _ _⟩⟩

theorem leaseGroup_book (fences : List Nat) (h : Book s loc)
    (hk : args.kvGroup ∉ (s.groupsOf args.reqId).keys)
    (hfill : ∃ fill, s.states.get? args.reqId = some (some fill)) :
    wp (leaseGroup env args fences) (fun _ s' => Book s' loc) s := by
  unfold leaseGroup
  refine wp_bind_of (newLease_book env.pages args.pages h) (fun _ _ ⟨h1, hb⟩ => h1)
    fun x s1 ⟨h1, hb⟩ => ?_
  rw [wp_tryCatch, wp_bind, wp_call]
  generalize cpuBatch env.pages args fences = r
  rcases r with e | batch
  · exact h1.release
  have hg : s1.groupsOf args.reqId = s.groupsOf args.reqId := by
    unfold FillState.groupsOf
    rw [hb.sources]
  refine Book.setGroups (show Book s1 ([x] ++ loc) from h1) ?_ ?_
  · intro y
    rw [hg, leases_set hk, times_append]
  · intro _
    rw [hb.states]
    exact hfill

theorem queueGroup_book (fences : List Nat) (h : Book s loc)
    (hfill : ∃ fill, s.states.get? args.reqId = some (some fill)) :
    wp (queueGroup env args fences) (fun _ s' => Book s' loc) s := by
  unfold queueGroup
  rw [wp_modify_bind, wp_get_bind, wp_ite]
  have h1 : Book (s.setGroups args.reqId (s.groupsOf args.reqId)) loc :=
    Book.setGroups (show Book s ([] ++ loc) from h) (fun _ => rfl) fun _ => hfill
  split
  · exact h1
  · next hk => exact leaseGroup_book env args fences h1 hk hfill

theorem queueLayerwiseCpuFill_book (h : Book s loc) :
    wp (queueLayerwiseCpuFill env args) (fun _ s' => Book s' loc) s := by
  unfold queueLayerwiseCpuFill
  rw [wp_ite]
  split
  · exact h
  rw [wp_modify_bind]
  refine wp_bind_of (prepareRequest_book env (h.openState args.reqId) args.reqId) (fun _ _ h1 => h1)
    fun ok s1 h1 => ?_
  obtain ⟨h1, hfill⟩ := h1
  rw [wp_ite]
  split
  · exact h1
  · next hok =>
    have hok' : ok = true := by
      rcases ok with _ | _
      · exact absurd (.inl rfl) hok
      · rfl
    rw [wp_ite]
    split
    · exact disable_book h1 _ _
    rw [wp_bind, wp_call]
    generalize env.fences = r
    rcases r with e | fences
    · exact h1
    rw [post_ok, wp_ite]
    split
    · exact disable_book h1 _ _
    · exact queueGroup_book env args fences h1 (hfill hok')

/-! ## Futures -/

theorem Book.newFuture (h : Book s loc) (ended : Option FutureEnd) :
    Book { s with futures := s.futures ++ [⟨ended, []⟩] } loc where
  once x := by
    have hone := h.once x
    have hw : ((s.futures ++ [(⟨ended, []⟩ : FillFuture)]).map (FillState.held x)).sum =
        s.inFlight x := by
      rw [map_append, sum_append]
      simp [FillState.held, FillState.inFlight]
    show s.waiting x + ((s.futures ++ [_]).map (FillState.held x)).sum + times s.released x +
      times s.quarantine x + times loc x = if x < s.leases.length then 1 else 0
    rw [hw]
    exact hone
  pages := h.pages
  refs := h.refs
  states := h.states
  last r fill f hs hf := by
    have := h.last r fill f hs hf
    show f < (s.futures ++ [_]).length
    rw [length_append]
    omega
  fatal x hx := by
    obtain ⟨f, r, e, hr, hend⟩ := h.fatal x hx
    exact ⟨f, r, e, getElem?_append_some hr _, hend⟩

theorem newFuture_book (h : Book s loc) (reqId : String) (ended : Option FutureEnd) :
    wp (newFuture reqId ended) (fun _ s' => Book s' loc) s := by
  unfold newFuture
  rw [wp_get_bind, wp_modify_bind]
  refine updateFill_book (h.newFuture ended) reqId ?_
  intro fill n hn
  cases hn
  refine .inr ?_
  show s.futures.length < (s.futures ++ [_]).length
  rw [length_append, length_singleton]
  omega

/-- Some callback of a future that has ended holds each of `xs`. -/
def HeldBy (s : FillState H) (ended : FutureEnd) (xs : List LeaseId) : Prop :=
  ∃ (f : FutureId) (r : FillFuture), s.futures[f]? = some r ∧ r.ended = some ended ∧
    ∀ x ∈ xs, x ∈ r.callbacks.flatten

theorem releaseSources_book (h : Book s (xs ++ loc)) (hf : HeldBy s ended xs) :
    wp (releaseSources ended xs) (post
      (fun _ s' => Book s' loc ∧ s'.futures = s.futures) fun _ _ => False) s := by
  unfold releaseSources
  rw [wp_ite]
  split
  · next hfatal =>
    refine ⟨⟨fun x => ?_, h.pages, h.refs, h.states, h.last, ?_⟩, rfl⟩
    · have hone := h.once x
      rw [times_append] at hone
      show s.waiting x + s.inFlight x + times s.released x + times (s.quarantine ++ xs) x +
        times loc x = if x < s.leases.length then 1 else 0
      rw [times_append]
      omega
    · intro x hx
      rcases mem_append.1 hx with hx | hx
      · exact h.fatal x hx
      · obtain ⟨f, r, hr, hend, hall⟩ := hf
        exact ⟨f, r, ended, hr, hend, hfatal, hall x hx⟩
  · rw [wp_releaseAll]
    exact ⟨h.releaseAll, (releaseAll_kept s xs).futures⟩

theorem getElem?_futures {g : FillFuture → FillFuture} {n : FutureId}
    (hr : s.futures[n]? = some r) :
    (s.futures.modify f g)[n]? = some (if f = n then g r else r) := by
  rw [getElem?_modify, hr]
  rfl

/-- A future changes, and stays the reason of what it ended fatally. -/
theorem Book.modifyFuture {g : FillFuture → FillFuture} {loc' : List LeaseId} (h : Book s loc')
    (hr : s.futures[f]? = some r)
    (hheld : ∀ x, FillState.held x (g r) + times loc x = FillState.held x r + times loc' x)
    (hend : ∀ e x, r.ended = some e → x ∈ r.callbacks.flatten →
      (g r).ended = some e ∧ x ∈ (g r).callbacks.flatten) :
    Book { s with futures := s.futures.modify f g } loc where
  once x := by
    have hone := h.once x
    have hsum := sum_modify (FillState.held x) hr g
    have hx := hheld x
    show s.waiting x + ((s.futures.modify f _).map (FillState.held x)).sum + times s.released x +
      times s.quarantine x + times loc x = if x < s.leases.length then 1 else 0
    unfold FillState.inFlight at hone
    omega
  pages := h.pages
  refs := h.refs
  states := h.states
  last r' fill n hs hn := by
    show n < (s.futures.modify f _).length
    rw [length_modify]
    exact h.last r' fill n hs hn
  fatal x hx := by
    obtain ⟨n, r', e, hr', hend', hfatal, hmem⟩ := h.fatal x hx
    refine ⟨n, _, e, getElem?_futures hr', ?_⟩
    split
    · next hfn =>
      subst hfn
      cases hr.symm.trans hr'
      obtain ⟨h1, h2⟩ := hend e x hend' hmem
      exact ⟨h1, hfatal, h2⟩
    · exact ⟨hend', hfatal, hmem⟩

theorem Book.addCallback {xs loc' : List LeaseId} (h : Book s loc') (hr : s.futures[f]? = some r)
    (hloc : ∀ x, times loc' x = (if r.ended = none then times xs x else 0) + times loc x) :
    Book (s.addCallback f xs) loc := by
  refine h.modifyFuture hr (fun x => ?_) fun e x he hx => ⟨he, ?_⟩
  · unfold FillState.held
    rw [hloc x]
    dsimp only
    split
    · rw [flatten_append, times_append, flatten_singleton, Nat.add_assoc]
    · omega
  · show x ∈ (r.callbacks ++ [xs]).flatten
    rw [flatten_append]
    exact mem_append_left _ hx

theorem addDoneCallback_book (h : Book s (xs ++ loc)) (hf : f < s.futures.length) :
    wp (addDoneCallback f xs) (post (fun _ s' => Book s' loc) fun _ _ => False) s := by
  have hr := getElem?_eq_getElem hf
  unfold addDoneCallback
  rw [wp_get_bind, wp_modify_bind, hr]
  cases hend : s.futures[f].ended with
  | none =>
    simp only [bind_some, hend]
    refine h.addCallback hr fun x => ?_
    rw [if_pos hend, times_append]
  | some ended =>
    simp only [bind_some, hend]
    have h1 : Book (s.addCallback f xs) (xs ++ loc) := by
      refine h.addCallback hr fun x => ?_
      rw [if_neg (by rw [hend]; exact nofun), Nat.zero_add]
    refine wp_mono (releaseSources_book h1 ⟨f, _, getElem?_futures hr, ?_, ?_⟩) ?_
    · rw [if_pos rfl]
      exact hend
    · intro x hx
      rw [if_pos rfl]
      show x ∈ (s.futures[f].callbacks ++ [xs]).flatten
      rw [flatten_append, flatten_singleton]
      exact mem_append_right _ hx
    · rintro (e | u) s1 h1
      · exact h1
      · exact h1.1

theorem Book.endFuture (h : Book s loc)
    (hr : s.futures[f]? = some r) (hpending : r.ended = none) (ended : FutureEnd) :
    Book (s.endFuture f ended) (r.callbacks.flatten ++ loc) := by
  refine h.modifyFuture hr (fun x => ?_) fun e x he => absurd (hpending.symm.trans he) nofun
  have hheld : FillState.held x r = times r.callbacks.flatten x := if_pos hpending
  have hheld' : FillState.held x { r with ended := some ended } = 0 := if_neg nofun
  rw [hheld, hheld', times_append, Nat.zero_add]

theorem callbacks_book {callbacks : List (List LeaseId)}
    (h : Book s (callbacks.flatten ++ loc)) (hf : HeldBy s ended callbacks.flatten) :
    wp (callbacks.forM (releaseSources ended))
      (post (fun _ s' => Book s' loc) fun _ _ => False) s := by
  induction callbacks generalizing s with
  | nil => exact h
  | cons xs callbacks ih =>
    rw [flatten_cons, append_assoc] at h
    obtain ⟨f, r, hr, hend, hall⟩ := hf
    show wp (releaseSources ended xs >>= fun _ => callbacks.forM (releaseSources ended)) _ s
    rw [wp_bind]
    refine wp_mono (releaseSources_book h ⟨f, r, hr, hend, fun x hx => hall x ?_⟩) ?_
    · rw [flatten_cons]
      exact mem_append_left _ hx
    · rintro (e | u) s1 h1
      · cases h1
      refine ih h1.1 ⟨f, r, ?_, hend, fun x hx => hall x ?_⟩
      · rw [h1.2]
        exact hr
      · rw [flatten_cons]
        exact mem_append_right _ hx

theorem completeFuture_book (h : Book s loc)
    (hf : (s.futures[f]?).map FillFuture.ended = some none) :
    wp (completeFuture f ended) (post (fun _ s' => Book s' loc) fun _ _ => False) s := by
  obtain ⟨r, hr, hpending⟩ := map_eq_some_iff.1 hf
  unfold completeFuture
  rw [wp_get_bind, wp_modify_bind, hr]
  refine callbacks_book (h.endFuture hr hpending ended) ⟨f, _, getElem?_futures hr, ?_, ?_⟩
  · rw [if_pos rfl]
  · intro x hx
    rw [if_pos rfl]
    exact hx

/-! ## `submit_layerwise_prefill_fills` -/

theorem scheduleRemoteFillBatch_book (env : Submission) (h : Book s loc) (reqId : String) :
    wp (scheduleRemoteFillBatch env reqId) (fun _ s' => Book s' loc) s := by
  unfold scheduleRemoteFillBatch
  rw [wp_get_bind]
  split
  · exact h
  rw [wp_ite]
  split
  · exact h
  · cases env with
    | raised e => exact h
    | refused reason => exact disable_book h reqId reason
    | submitted ended => exact newFuture_book h reqId ended

theorem submitBatches_book (env : SubmitCalls) (h : Book s loc) (reqId : String)
    (groups : FillGroups H) :
    wp (submitBatches env reqId groups) (fun _ s' => Book s' loc) s := by
  unfold submitBatches
  dsimp only
  rw [wp_ite]
  split
  · exact disable_book h _ _
  rw [wp_ite]
  split
  · exact disable_book h _ _
  unfold liftDirect
  rw [wp_bind, wp_call]
  generalize Except.mapError _ _ = r
  rcases r with e | batch
  · exact h
  · exact scheduleRemoteFillBatch_book env.submission h reqId

theorem settleLeases_book (reqId : String) (previous : Option FutureId) (h : Book s (xs ++ loc)) :
    wp (settleLeases reqId previous xs) (post (fun _ s' => Book s' loc) fun _ _ => False) s := by
  unfold settleLeases
  rw [wp_get_bind]
  split
  · rw [wp_releaseAll]
    exact h.releaseAll
  · next f hf =>
    rw [wp_ite]
    split
    · rw [wp_releaseAll]
      exact h.releaseAll
    · exact addDoneCallback_book h (h.lastFuture hf)

theorem submitRequest_book (reqId : String) (env : SubmitCalls) (h : Book s loc) :
    wp (submitRequest reqId env) (fun _ s' => Book s' loc) s := by
  unfold submitRequest
  rw [wp_get_bind, wp_modify_bind]
  have h1 := h.popSources reqId
  split
  · next hnil =>
    unfold FillGroups.leases at h1
    rw [hnil] at h1
    exact h1
  · next hne =>
    -- A request with sources has a direct state, so the lookup before the `try` finds one.
    have hstate : ∃ fill, s.states.get? reqId = some (some fill) := by
      unfold FillState.groupsOf at hne
      cases hs : s.sources.get? reqId with
      | none =>
        rw [hs] at hne
        exact absurd rfl hne
      | some g =>
        rw [hs] at hne
        exact h.states reqId g hs hne
    obtain ⟨fill, hfill⟩ := hstate
    rw [hfill]
    refine wp_finally (wp_mono (submitBatches_book env h1 reqId _) ?_)
    intro r s1 h2
    exact settleLeases_book reqId fill.lastFuture h2

/-! ## `drop_direct_store_states` and `close` -/

theorem Book.popState (h : Book s loc) (hnone : s.sources.get? reqId = none) :
    Book (s.setStates (s.states.pop reqId)) loc where
  once := h.once
  pages := h.pages
  refs := h.refs
  states r g hg hne := by
    obtain ⟨fill, hfill⟩ := h.states r g hg hne
    refine ⟨fill, ?_⟩
    show (s.states.pop reqId).get? r = _
    rw [get?_pop, if_neg]
    · exact hfill
    · rintro rfl
      change s.sources.get? r = some g at hg
      rw [hnone] at hg
      cases hg
  last r fill f hs hf := by
    change (s.states.pop reqId).get? r = _ at hs
    rw [get?_pop] at hs
    split at hs
    · cases hs
    · exact h.last r fill f hs hf
  fatal := h.fatal

theorem dropRequest_kept (reqId : String) (env : DropCalls) (s : FillState H) :
    wp (dropRequest reqId env) (fun _ s' =>
      s' = (s.popSources reqId).releaseAll (s.groupsOf reqId).leases ∨
      s' = ((s.popSources reqId).releaseAll (s.groupsOf reqId).leases).setStates
        (s.states.pop reqId)) s := by
  unfold dropRequest
  rw [wp_get_bind, wp_modify_bind, wp_bind, wp_releaseAll, post_ok]
  split
  · exact .inl rfl
  · next fill _ =>
    rw [wp_bind, wp_call]
    generalize releasable env fill = r
    rcases r with e | ready
    · exact .inl rfl
    rw [post_ok, wp_ite]
    split
    · rw [wp_modify, (releaseAll_kept (s.popSources reqId) (s.groupsOf reqId).leases).states]
      exact .inr rfl
    · exact .inl rfl

theorem dropRequest_book (reqId : String) (env : DropCalls) (h : Book s loc) :
    wp (dropRequest reqId env) (fun _ s' => Book s' loc) s := by
  have h1 : Book ((s.popSources reqId).releaseAll (s.groupsOf reqId).leases) loc :=
    (h.popSources reqId).releaseAll
  have hk := releaseAll_kept (s.popSources reqId) (s.groupsOf reqId).leases
  refine wp_mono (dropRequest_kept reqId env s) ?_
  rintro r s' (rfl | rfl)
  · exact h1
  have hst : s.states = (s.popSources reqId).states := rfl
  rw [hst, ← hk.states]
  refine h1.popState ?_
  rw [hk.sources]
  exact get?_pop_self _ _

theorem wp_forM_releaseAll {es : List (String × FillGroups H)}
    {Q : Except FillError PUnit → FillState H → Prop} :
    wp (es.forM fun e => releaseAll e.2.leases) Q s ↔
      Q (.ok ⟨⟩) (s.releaseAll (es.flatMap fun e => e.2.leases)) := by
  induction es generalizing s with
  | nil => rfl
  | cons e es ih =>
    show wp (releaseAll e.2.leases >>= fun _ => es.forM fun e => releaseAll e.2.leases) Q s ↔ _
    rw [wp_bind, wp_releaseAll, post_ok, ih, flatMap_cons, releaseAll_append]

theorem releaseAll_clearSources (s : FillState H) (xs : List LeaseId) :
    s.clearSources.releaseAll xs = (s.releaseAll xs).clearSources := by
  induction xs generalizing s with
  | nil => rfl
  | cons x xs ih => exact ih (s.release x)

theorem Book.clearSources (h : Book s loc) :
    Book s.clearSources ((s.sources.entries.flatMap fun e => e.2.leases) ++ loc) where
  once x := by
    have hone := h.once x
    have hw : s.waiting x = times (s.sources.entries.flatMap fun e => e.2.leases) x := by
      unfold times
      rw [count_flatMap]
      rfl
    rw [times_append]
    show 0 + s.inFlight x + times s.released x + times s.quarantine x + (_ + times loc x) =
      if x < s.leases.length then 1 else 0
    rw [← hw]
    omega
  pages := h.pages
  refs := h.refs
  states r g hg := by cases hg
  last := h.last
  fatal := h.fatal

theorem closeRemoteFillProducer_book (env : CloseCalls) (h : Book s loc) :
    wp (closeRemoteFillProducer env) (post (fun _ s' => Book s' loc ∧ s'.sources = Dict.empty)
      fun _ s' => Book s' loc) s := by
  unfold closeRemoteFillProducer
  rw [wp_bind, wp_call]
  rcases env.polled with e | u
  · exact h
  rw [post_ok, wp_bind, wp_call]
  rcases env.closed with e | u
  · exact h
  rw [post_ok, wp_get_bind, wp_bind, wp_forM_releaseAll, post_ok, wp_modify]
  have h1 := h.clearSources.releaseAll
  rw [releaseAll_clearSources] at h1
  exact ⟨h1, rfl⟩

theorem closeEngine_book (env : CloseCalls) (h : Book s loc) :
    wp (closeEngine env) (fun _ s' => Book s' loc) s := by
  unfold closeEngine
  refine wp_bind_of (closeRemoteFillProducer_book env h) (fun _ _ h1 => h1) fun u s1 h1 => ?_
  obtain ⟨h1, hempty⟩ := h1
  rw [wp_bind, wp_call]
  rcases env.waited with e | u
  · exact h1
  refine ⟨h1.once, h1.pages, h1.refs, ?_, ?_, h1.fatal⟩
  · intro r g hg
    change s1.sources.get? r = some g at hg
    rw [hempty] at hg
    cases hg
  · intro r fill f hs
    cases hs

/-! ## Runs -/

theorem step_book (a : FillAction H) (ha : a.Enabled s) (h : Book s []) :
    wp a.prog (fun _ s' => Book s' []) s := by
  have hforM : ∀ {β : Type} (reqs : List β) (f : β → FillM H PUnit),
      (∀ b s, Book s [] → wp (f b) (fun _ s' => Book s' []) s) →
      wp (reqs.forM f) (fun _ s' => Book s' []) s := by
    intro β reqs f hf
    refine wp_mono (wp_forM (I := fun s => Book s []) (E := fun _ s => Book s []) ?_ h) ?_
    · intro b _ s hs
      refine wp_cases (hf b s hs) (fun _ _ h => h) fun u s1 h1 => ?_
      exact h1
    · rintro (e | u) s1 h1 <;> exact h1
  cases a with
  | queue env args => exact queueLayerwiseCpuFill_book env args h
  | submit reqs => exact hforM reqs _ fun b s hs => submitRequest_book b.1 b.2 hs
  | drop reqs => exact hforM reqs _ fun b s hs => dropRequest_book b.1 b.2 hs
  | close env => exact closeEngine_book env h
  | openState reqId => exact h.openState reqId
  | prepare reqId handoff reason => exact h.prepare reqId reason handoff
  | produce reqId => exact newFuture_book h reqId none
  | complete f ended =>
    refine wp_returns (completeFuture_book h ha) fun u s1 h1 => ?_
    exact h1

theorem fill_inductive : (fillMachine H).Inductive fun s => Book s [] where
  start s hs := by
    cases hs
    exact Book.new
  step s a s' h hs := by
    change (if a.Enabled s then _ else _) = _ at hs
    split at hs
    · next ha =>
      cases hs
      exact step_book a ha h
    · cases hs

/-! ## What ends a wait -/

/-- The callbacks of a future either release or put into quarantine. -/
structure Settles (ended : FutureEnd) (s s' : FillState H) : Prop where
  sources : s'.sources = s.sources
  futures : s'.futures = s.futures
  size : s'.leases.length = s.leases.length
  released : ended.fatal = true → s'.released = s.released
  quarantine : ended.fatal = false → s'.quarantine = s.quarantine

theorem releaseSources_settles (ended : FutureEnd) (xs : List LeaseId) {t : FillState H}
    (h : Settles ended s t) :
    wp (releaseSources ended xs) (post (fun _ => Settles ended s) fun _ => Settles ended s) t := by
  unfold releaseSources
  rw [wp_ite]
  split
  · next hfatal =>
    exact ⟨h.sources, h.futures, h.size, h.released, fun hn => absurd (hfatal.symm.trans hn) nofun⟩
  · next hfatal =>
    rw [wp_releaseAll]
    have hk := releaseAll_kept t xs
    exact ⟨hk.sources.trans h.sources, hk.futures.trans h.futures, hk.size.trans h.size,
      fun hy => absurd hy hfatal, fun hn => hk.quarantine.trans (h.quarantine hn)⟩

theorem Book.in_hand (h : Book s loc) (hx : x ∈ loc) :
    s.waiting x = 0 ∧ s.inFlight x = 0 ∧ times s.released x = 0 ∧ times s.quarantine x = 0 := by
  have hone := h.once x
  have hpos := times_pos hx
  rw [if_pos (h.lt hx)] at hone
  omega

theorem not_mem_of_times {x : LeaseId} (h : times xs x = 0) : x ∉ xs :=
  count_eq_zero.1 h

theorem completeFuture_settles (h : Book s [])
    (hr : s.futures[f]? = some r) (hpending : r.ended = none) (ended : FutureEnd)
    (hx : x ∈ r.callbacks.flatten) :
    wp (completeFuture f ended) (fun _ s' =>
      if ended.fatal = true then x ∉ s'.released ∧ times s'.quarantine x = 1
      else times s'.released x = 1 ∧ x ∉ s'.quarantine) s := by
  have hbook := h.endFuture hr hpending ended
  obtain ⟨hwait, hflight, hrel, hqua⟩ := hbook.in_hand (mem_append_left _ hx)
  have hlt := hbook.lt (mem_append_left _ hx)
  unfold completeFuture
  rw [wp_get_bind, wp_modify_bind, hr]
  have hheld : HeldBy (s.endFuture f ended) ended r.callbacks.flatten :=
    ⟨f, _, getElem?_futures hr, by rw [if_pos rfl], fun y hy => by rw [if_pos rfl]; exact hy⟩
  refine wp_mono (wp_and (callbacks_book hbook hheld)
    (wp_forM (I := Settles ended (s.endFuture f ended)) (E := fun _ => Settles ended _)
      (fun xs _ t ht => releaseSources_settles ended xs ht)
      ⟨rfl, rfl, rfl, fun _ => rfl, fun _ => rfl⟩)) ?_
  rintro (e | u) s1 ⟨h1, hs1⟩
  · cases h1
  rw [post_ok] at h1 hs1
  have hone := h1.once x
  have hwait1 : s1.waiting x = 0 := by
    unfold FillState.waiting
    rw [hs1.sources]
    exact hwait
  have hflight1 : s1.inFlight x = 0 := by
    unfold FillState.inFlight
    rw [hs1.futures]
    exact hflight
  rw [times_nil, hs1.size, if_pos hlt] at hone
  split
  · next hfatal =>
    rw [hs1.released hfatal] at hone ⊢
    exact ⟨not_mem_of_times hrel, by omega⟩
  · next hfatal =>
    rw [hs1.quarantine (Bool.not_eq_true _ ▸ hfatal)] at hone ⊢
    exact ⟨by omega, not_mem_of_times hqua⟩

theorem dropRequest_released (h : Book s [])
    (hx : x ∈ (s.groupsOf reqId).leases) (env : DropCalls) :
    wp (dropRequest reqId env) (fun _ s' => times s'.released x = 1 ∧ x ∉ s'.quarantine) s := by
  have hbook := h.popSources reqId
  obtain ⟨hwait, hflight, -, hqua⟩ := hbook.in_hand (mem_append_left _ hx)
  have hlt := hbook.lt (mem_append_left _ hx)
  have hone := hbook.releaseAll.once x
  have hk := releaseAll_kept (s.popSources reqId) (s.groupsOf reqId).leases
  have hwait1 : ((s.popSources reqId).releaseAll (s.groupsOf reqId).leases).waiting x = 0 := by
    unfold FillState.waiting
    rw [hk.sources]
    exact hwait
  have hflight1 : ((s.popSources reqId).releaseAll (s.groupsOf reqId).leases).inFlight x = 0 := by
    unfold FillState.inFlight
    rw [hk.futures]
    exact hflight
  rw [times_nil, hk.size, if_pos hlt, hk.quarantine] at hone
  have hend : times ((s.popSources reqId).releaseAll (s.groupsOf reqId).leases).released x = 1 ∧
      x ∉ ((s.popSources reqId).releaseAll (s.groupsOf reqId).leases).quarantine := by
    rw [hk.quarantine]
    exact ⟨by omega, not_mem_of_times hqua⟩
  refine wp_mono (dropRequest_kept reqId env s) ?_
  rintro r s' (rfl | rfl) <;> exact hend

/-- Over every run each lease is in one place: it waits, a future that has not ended holds it, it
was released once, or it is in quarantine, where a fatal error put it.  It keeps its pages until
it is released.  A drop of the request ends the wait, the end of the future ends the flight. -/
theorem lease_settled_once (h : (fillMachine H).Reachable s) {x : Nat} (hx : x < s.leases.length) :
    s.waiting x + s.inFlight x + times s.released x + times s.quarantine x = 1 ∧
    (x ∈ s.quarantine → s.FatalEnd x) ∧
    (s.waiting x = 0 → s.inFlight x = 0 →
      (times s.released x = 1 ∧ x ∉ s.quarantine) ∨
      (x ∉ s.released ∧ times s.quarantine x = 1 ∧ s.FatalEnd x)) ∧
    (∀ l, s.leases[x]? = some l → l.pages = if x ∈ s.released then [] else l.retained) ∧
    (s.refs.Balanced fun p => (s.leases.map fun l => times l.pages p).sum) ∧
    (∀ reqId env, x ∈ (s.groupsOf reqId).leases →
      wp (dropRequest reqId env) (fun _ s' => times s'.released x = 1 ∧ x ∉ s'.quarantine) s) ∧
    (∀ f r ended, s.futures[f]? = some r → r.ended = none → x ∈ r.callbacks.flatten →
      wp (completeFuture f ended) (fun _ s' =>
        if ended.fatal = true then x ∉ s'.released ∧ times s'.quarantine x = 1
        else times s'.released x = 1 ∧ x ∉ s'.quarantine) s) := by
  have hbook := fill_inductive.reachable h
  have hone := hbook.once x
  rw [times_nil, Nat.add_zero, if_pos hx] at hone
  refine ⟨hone, hbook.fatal x, ?_, hbook.pages x, hbook.refs,
    fun reqId env hmem => dropRequest_released hbook hmem env,
    fun f r ended hr hpending hmem => completeFuture_settles hbook hr hpending ended hmem⟩
  intro hwait hflight
  by_cases hqua : x ∈ s.quarantine
  · have hpos := times_pos hqua
    exact .inr ⟨not_mem_of_times (by omega), by omega, hbook.fatal x hqua⟩
  · have hzero := times_eq_zero hqua
    exact .inl ⟨by omega, hqua⟩

/-! One group of one page is queued and submitted, and its future ends with a fatal error. -/

def onePage : PageCalls :=
  ⟨fun _ => .ok true, fun _ => .ok "cpu", fun _ => .ok (), fun p => .ok (1000 + p),
    fun p => .ok (1000 + p), fun _ => .ok 64, fun _ => true⟩

def fatalFill : List (FillAction Nat) :=
  [.queue ⟨[0], true, true, true, "", .ok true, true, .ok [7], onePage⟩
      ⟨"r", 0, [⟨0, 5⟩], [3], [0], [128]⟩,
    .submit [("r", ⟨[0], .submitted none⟩)],
    .complete 0 (.exception (.fatal "native completion unknown"))]

def fatalFillEnd : FillState Nat := fatalFill.foldl (fun s a => (a.prog s).2) .new

theorem fatal_fill_reachable : (fillMachine Nat).run .new fatalFill = some fatalFillEnd := rfl

theorem fatal_fill_quarantined :
    fatalFillEnd.waiting 0 + fatalFillEnd.inFlight 0 + times fatalFillEnd.released 0 +
      times fatalFillEnd.quarantine 0 = 1 ∧ 0 ∈ fatalFillEnd.quarantine ∧
      fatalFillEnd.FatalEnd 0 := by
  have h := lease_settled_once (Machine.reachable_of_run rfl fatal_fill_reachable)
    (x := 0) (by decide)
  exact ⟨h.1, by decide, h.2.1 (by decide)⟩

/-- **No page of a fill in flight is given back.**  While a lease waits or a future holds it, each of
its pages has a reference that was taken and not given back. -/
theorem pages_in_flight (h : (fillMachine H).Reachable s) {x : LeaseId} {l : Lease}
    (hx : s.leases[x]? = some l) (hheld : 0 < s.waiting x + s.inFlight x) {p : PageId}
    (hp : p ∈ l.retained) : times s.refs.given p < times s.refs.taken p := by
  have hbook := fill_inductive.reachable h
  have hlt := lt_of_getElem? hx
  have hone := hbook.once x
  rw [times_nil, Nat.add_zero, if_pos hlt] at hone
  have hnot : x ∉ s.released := not_mem_of_times (by omega)
  have hpages := hbook.pages x l hx
  rw [if_neg hnot] at hpages
  have hsum : _ + times l.pages p = _ := sum_eraseIdx (fun l => times l.pages p) hx
  have hpos : 0 < times l.pages p := times_pos (hpages ▸ hp)
  have hbalance : times s.refs.taken p = times s.refs.given p +
      (s.leases.map fun l => times l.pages p).sum := hbook.refs p
  omega

/-- The group waits before its fill is submitted. -/
theorem pages_in_flight_queued : ∃ s, (fillMachine Nat).run .new (fatalFill.take 1) = some s ∧
    times s.refs.given 3 < times s.refs.taken 3 := by
  obtain ⟨s, hs⟩ : ∃ s, (fillMachine Nat).run .new (fatalFill.take 1) = some s := ⟨_, rfl⟩
  have hreach : (fillMachine Nat).Reachable s := Machine.reachable_of_run rfl hs
  refine ⟨s, hs, ?_⟩
  cases hs
  exact pages_in_flight hreach (x := 0) rfl (by decide) (by decide)

end FillLeases
