import LMCacheAscend.RemoteFill.PageOwnership
import LMCacheAscend.Lib.Traverse

/-!
# What `prepare_pages` returns

A call that returns gives one result for each input page: the answer of the last
`classify_pages`, or a handle that the call has made (`PreparedAs`).  The steps
are followed through the list of results (`LookedUp`, then `Filled`); who owns
the pages is known already (`preparePages_spec`).
-/

namespace RemoteFill

open Lib List

variable {cfg : PagesConfig} {env : PrepareEnv} {w w' : PageHeap} {s s' : PrepareState}

/-! ## Results -/

/-- The result of `classify_pages`. -/
def lookedUp (present : Bool) : PreparedPage :=
  { handle := .none, destination := none,
    disposition := if present then .existing else .missing }

/-- The indices that `classify_pages` returns. -/
def missingFrom (env : PrepareEnv) (pass : Nat) : List PageKey → Nat → List Nat
  | [], _ => []
  | key :: rest, index => match env.contains pass key with
    | .ok false => index :: missingFrom env pass rest (index + 1)
    | _ => missingFrom env pass rest (index + 1)

/-- The pass of `classify_pages` whose answers stand: the second one, if the capacity was refused
and there is a reclaimer. -/
def lastPass (env : PrepareEnv) (pages : List ControlPage) (keys : List PageKey)
    (reserveMissing : Bool) : Nat :=
  let requested := requestedBytes pages (missingFrom env 0 keys 0)
  if reserveMissing = false ∨ requested = 0 then 0
  else match env.capacityAvailable 0 requested with
    | .ok false => if env.capacityReclaimer.isSome then 1 else 0
    | _ => 0

/-- The result holds a page of its own: new, pinned, of the expected size, under a new handle. -/
def HeldFresh (env : PrepareEnv) (w w' : PageHeap) (page : ControlPage) (key : PageKey)
    (q : PreparedPage) : Prop :=
  ∃ i p ptr, q.handle = .hidden i ∧ w.handles.length ≤ i ∧
    w'.handles[i]? = some ⟨key, p, false, false, false⟩ ∧ w.nextPage ≤ p ∧ p < w'.nextPage ∧
    (calls w'.log p).Taken true ∧ env.getSize p = .ok page.expectedBytes ∧
    env.dataPtr p = .ok ptr ∧ q.destination = some (ptr, page.expectedBytes)

structure PreparedAs (env : PrepareEnv) (w w' : PageHeap) (pass : Nat) (page : ControlPage)
    (key : PageKey) (q : PreparedPage) : Prop where
  existing : q.disposition = .existing ↔ env.contains pass key = .ok true
  allocated : q.disposition = .allocated ↔
    env.contains pass key = .ok false ∧ HeldFresh env w w' page key q
  plain : q.disposition ≠ .allocated → q.handle = .none ∧ q.destination = none

/-- A call that started on `w` returned `prepared`: one result for each page, in order, no two with
one handle, and every new page with one of them. -/
structure Prepared (cfg : PagesConfig) (env : PrepareEnv) (w : PageHeap) (pages : List ControlPage)
    (reserveMissing : Bool) (prepared : List PreparedPage) (w' : PageHeap) : Prop where
  length : prepared.length = pages.length
  each : ∃ keys, pages.mapM cfg.validateControlPage = .ok keys ∧
    ∀ (i : Nat) (page : ControlPage) (key : PageKey) (q : PreparedPage), pages[i]? = some page →
      keys[i]? = some key → prepared[i]? = some q →
        PreparedAs env w w' (lastPass env pages keys reserveMissing) page key q
  distinct : ∀ (i j : Nat) (a b : PreparedPage) (n : Nat), prepared[i]? = some a →
    prepared[j]? = some b → a.handle = .hidden n → b.handle = .hidden n → i = j
  handedOut : HandedOut w prepared w'

/-! ## `classify_pages` -/

theorem mem_missingFrom {pass : Nat} {keys : List PageKey} {index i : Nat} :
    i ∈ missingFrom env pass keys index ↔
      ∃ k key, i = index + k ∧ keys[k]? = some key ∧ env.contains pass key = .ok false := by
  induction keys generalizing index with
  | nil =>
    constructor
    · exact fun h => nomatch h
    · rintro ⟨k, key, _, hk, _⟩
      cases hk
  | cons key rest ih =>
    have hrest : i ∈ missingFrom env pass rest (index + 1) ↔ ∃ k key', i = index + (k + 1) ∧
        (key :: rest)[k + 1]? = some key' ∧ env.contains pass key' = .ok false := by
      rw [ih]
      constructor
      all_goals
        rintro ⟨k, key', rfl, hk, hc⟩
        exact ⟨k, key', by omega, hk, hc⟩
    have hsplit : (∃ k key', i = index + k ∧ (key :: rest)[k]? = some key' ∧
          env.contains pass key' = .ok false) ↔
        (i = index ∧ env.contains pass key = .ok false) ∨
          i ∈ missingFrom env pass rest (index + 1) := by
      rw [hrest]
      constructor
      · rintro ⟨k, key', rfl, hk, hc⟩
        cases k with
        | zero =>
          cases hk
          exact .inl ⟨rfl, hc⟩
        | succ k => exact .inr ⟨k, key', rfl, hk, hc⟩
      · rintro (⟨rfl, hc⟩ | ⟨k, key', rfl, hk, hc⟩)
        · exact ⟨0, key, rfl, rfl, hc⟩
        · exact ⟨k + 1, key', rfl, hk, hc⟩
    rw [hsplit, missingFrom]
    split
    · next hc => simp [hc]
    · next hc =>
      constructor
      · exact .inr
      · rintro (⟨_, habs⟩ | h)
        · exact absurd habs hc
        · exact h

/-- The results of a pass over `keys` are those of its answers. -/
def LookedUp (env : PrepareEnv) (pass : Nat) (keys : List PageKey) (s : PrepareState) : Prop :=
  ∀ (i : Nat) (key : PageKey), keys[i]? = some key → ∃ present, env.contains pass key = .ok present ∧
    s.results[i]? = some (some (lookedUp present))

theorem classifyPages_results (pass : Nat) (keys : List PageKey) (index : Nat) (s : PrepareState)
    (hlen : index + keys.length ≤ s.results.length) :
    wp (classifyPages env pass keys index) (post
      (fun missing s' => missing = missingFrom env pass keys index ∧
        (∀ j < index, s'.results[j]? = s.results[j]?) ∧
        ∀ (i : Nat) (key : PageKey), keys[i]? = some key → ∃ present,
          env.contains pass key = .ok present ∧
          s'.results[index + i]? = some (some (lookedUp present)))
      fun _ _ => True) s := by
  induction keys generalizing index s with
  | nil => exact ⟨rfl, fun _ _ => rfl, fun _ _ hk => nomatch hk⟩
  | cons key rest ih =>
    rw [length_cons] at hlen
    rw [classifyPages, wp_bind, wp_lift]
    cases hc : env.contains pass key with
    | error e => trivial
    | ok present =>
      rw [post_ok, wp_modify_bind, wp_bind]
      have hlen' : index + 1 + rest.length ≤
          (s.setResult index (lookedUp present)).results.length := by
        show _ ≤ (s.results.set index _).length
        rw [length_set]
        omega
      refine wp_cases (ih (index + 1) (s.setResult index (lookedUp present)) hlen')
        (fun _ _ _ => trivial) fun missing s1 h1 => ?_
      rw [post_ok] at h1
      obtain ⟨hmissing, hlow, hrest⟩ := h1
      rw [post_ok, wp_pure, post_ok]
      refine ⟨?_, fun j hj => ?_, fun i key' hi => ?_⟩
      · rw [missingFrom, hc, hmissing]
        cases present <;> rfl
      · rw [hlow j (Nat.lt_succ_of_lt hj)]
        exact getElem?_set_ne (Nat.ne_of_gt hj)
      · cases i with
        | zero =>
          cases hi
          refine ⟨present, hc, ?_⟩
          rw [Nat.add_zero, hlow index (Nat.lt_succ_self index)]
          exact getElem?_set_self (by omega)
        | succ i =>
          obtain ⟨p, hp, hres⟩ := hrest i key' hi
          refine ⟨p, hp, ?_⟩
          rw [← hres]
          congr 1
          omega

theorem classifyPages_lookedUp (pass : Nat) (keys : List PageKey) (s : PrepareState)
    (hlen : keys.length ≤ s.results.length) :
    wp (classifyPages env pass keys 0) (post
      (fun missing s' => missing = missingFrom env pass keys 0 ∧ LookedUp env pass keys s' ∧
        Classified s s' ∧ missing.Nodup)
      fun _ s' => Classified s s') s := by
  have hresults : wp (classifyPages env pass keys 0) _ s :=
    classifyPages_results pass keys 0 s (by omega)
  have hspec : wp (classifyPages env pass keys 0) _ s := classifyPages_spec pass keys 0 s
  unfold wp at hresults hspec ⊢
  cases hr : (classifyPages env pass keys 0 s).1 with
  | error e =>
    rw [hr] at hspec
    exact hspec
  | ok missing =>
    rw [hr] at hresults hspec
    obtain ⟨hmissing, _, hall⟩ := hresults
    obtain ⟨hclass, hnd, _⟩ := hspec
    refine ⟨hmissing, fun i key hi => ?_, hclass, hnd⟩
    obtain ⟨present, hp, hres⟩ := hall i key hi
    rw [Nat.zero_add] at hres
    exact ⟨present, hp, hres⟩

/-! ## The capacity check -/

/-- The answers that stand are those of the last pass. -/
theorem reserveCapacity_lookedUp (pages : List ControlPage) (keys : List PageKey)
    (hlook : LookedUp env 0 keys s) (hlen : keys.length ≤ s.results.length)
    (hnd : (missingFrom env 0 keys 0).Nodup) :
    wp (reserveCapacity env pages keys (missingFrom env 0 keys 0)) (post
      (fun r s' => LookedUp env (lastPass env pages keys true) keys s' ∧ Classified s s' ∧
        ∀ missing, r = some missing → missing.Nodup ∧
          missing = missingFrom env (lastPass env pages keys true) keys 0)
      fun _ s' => Classified s s') s := by
  have hself : Classified s s := ⟨rfl, rfl, rfl, rfl, rfl⟩
  by_cases hzero : requestedBytes pages (missingFrom env 0 keys 0) = 0
  · have hlast : lastPass env pages keys true = 0 := if_pos (.inr hzero)
    rw [reserveCapacity]
    simp only [if_pos hzero, wp_pure, post_ok, hlast]
    refine ⟨hlook, hself, ?_⟩
    rintro missing ⟨⟩
    exact ⟨hnd, rfl⟩
  · have hno : ¬ (true = false ∨ requestedBytes pages (missingFrom env 0 keys 0) = 0) := by
      simp [hzero]
    rw [reserveCapacity]
    simp only [if_neg hzero]
    rw [wp_bind, wp_lift]
    cases havail : env.capacityAvailable 0 (requestedBytes pages (missingFrom env 0 keys 0)) with
    | error e => exact hself
    | ok available =>
      rw [post_ok]
      cases available with
      | true =>
        have hlast : lastPass env pages keys true = 0 := by
          rw [lastPass]
          simp only [if_neg hno, havail]
        rw [if_pos rfl, wp_pure, post_ok, hlast]
        refine ⟨hlook, hself, ?_⟩
        rintro missing ⟨⟩
        exact ⟨hnd, rfl⟩
      | false =>
        rw [if_neg Bool.false_ne_true]
        cases hreclaim : env.capacityReclaimer with
        | none =>
          have hlast : lastPass env pages keys true = 0 := by
            rw [lastPass]
            simp [hzero, havail, hreclaim]
          simp only [wp_pure, post_ok, hlast]
          exact ⟨hlook, hself, by simp⟩
        | some reclaim =>
          have hlast : lastPass env pages keys true = 1 := by
            rw [lastPass]
            simp [hzero, havail, hreclaim]
          rw [hlast]
          simp only
          rw [wp_bind, wp_lift]
          cases reclaim (requestedBytes pages (missingFrom env 0 keys 0)) with
          | error e => exact hself
          | ok reclaimed =>
            rw [post_ok, wp_bind]
            refine wp_cases (classifyPages_lookedUp 1 keys s hlen) (fun _ _ h1 => h1)
              fun missing s1 h1 => ?_
            obtain ⟨rfl, hlook1, hclass1, hnd1⟩ := h1
            rw [post_ok]
            split
            · rw [wp_bind, wp_lift]
              cases env.capacityAvailable 1 (requestedBytes pages (missingFrom env 1 keys 0)) with
              | error e => exact hclass1
              | ok available =>
                rw [post_ok, wp_pure, post_ok]
                refine ⟨hlook1, hclass1, fun missing hm => ?_⟩
                cases available with
                | true =>
                  cases hm
                  exact ⟨hnd1, rfl⟩
                | false => cases hm
            · rw [wp_pure, post_ok]
              exact ⟨hlook1, hclass1, by simp⟩

/-! ## The handles -/

/-- The places of `done` have their handles; the others are as in `base`. -/
structure Filled (env : PrepareEnv) (pages : List ControlPage) (keys : List PageKey)
    (base : List (Option PreparedPage)) (done : List (Nat × Nat)) (s : PrepareState) : Prop where
  length : s.fresh.length = done.length
  filled : ∀ (k : Nat) (e : Nat × Nat), done[k]? = some e → ∃ key ptr, keys[e.1]? = some key ∧
    env.getSize e.2 = .ok (expectedBytesAt pages e.1) ∧ env.dataPtr e.2 = .ok ptr ∧
    s.fresh[k]? = some ⟨key, e.2, false, false, false⟩ ∧
    s.results[e.1]? = some (some
      { handle := .hidden (s.heap.handles.length + k),
        destination := some (ptr, expectedBytesAt pages e.1), disposition := .allocated })
  others : ∀ i, i ∉ done.map Prod.fst → s.results[i]? = base[i]?

variable {key : PageKey} {q : PreparedPage}

theorem Filled.snoc {pages : List ControlPage} {keys : List PageKey}
    {base : List (Option PreparedPage)} {done : List (Nat × Nat)}
    (h : Filled env pages keys base done s) {index page : Nat} {ptr : Int}
    (hlt : index < s.results.length) (hnew : index ∉ done.map Prod.fst)
    (hkey : keys[index]? = some key) (hsize : env.getSize page = .ok (expectedBytesAt pages index))
    (hptr : env.dataPtr page = .ok ptr) :
    Filled env pages keys base (done ++ [(index, page)]) { s.setResult index
        { handle := .hidden (s.heap.handles.length + s.fresh.length),
          destination := some (ptr, expectedBytesAt pages index), disposition := .allocated } with
      fresh := s.fresh ++ [⟨key, page, false, false, false⟩] } := by
  constructor
  · show (s.fresh ++ [_]).length = (done ++ [_]).length
    simp [h.length]
  · intro k e hk
    rcases getElem?_snoc.1 hk with hold | ⟨rfl, rfl⟩
    · obtain ⟨key', ptr', h1, h2, h3, h4, h5⟩ := h.filled k e hold
      have hne : index ≠ e.1 := by
        rintro rfl
        exact hnew (mem_map_of_mem (mem_of_getElem? hold))
      refine ⟨key', ptr', h1, h2, h3, ?_, ?_⟩
      · show (s.fresh ++ [_])[k]? = _
        exact getElem?_append_some h4 _
      · show (s.results.set index _)[e.1]? = _
        rw [getElem?_set_ne hne, h5]
        rfl
    · refine ⟨key, ptr, hkey, hsize, hptr, ?_, ?_⟩
      · show (s.fresh ++ [_])[done.length]? = _
        rw [← h.length, getElem?_snoc_self]
      · show (s.results.set index _)[index]? = _
        rw [getElem?_set_self hlt, h.length]
        rfl
  · intro i hi
    rw [map_append, mem_append, not_or] at hi
    have hne : index ≠ i := by
      rintro rfl
      exact hi.2 (mem_singleton_self _)
    show (s.results.set index _)[i]? = _
    rw [getElem?_set_ne hne]
    exact h.others i hi.1

theorem installHandles_filled (pages : List ControlPage) (keys : List PageKey)
    (base : List (Option PreparedPage)) (todo done : List (Nat × Nat))
    (h : Filled env pages keys base done s) (hnd : ((done ++ todo).map Prod.fst).Nodup)
    (hlt : ∀ i ∈ (done ++ todo).map Prod.fst, i < s.results.length) :
    wp (installHandles env pages keys todo) (post
      (fun _ s' => Filled env pages keys base (done ++ todo) s') fun _ _ => True) s := by
  induction todo generalizing s done with
  | nil =>
    rw [append_nil]
    exact h
  | cons e rest ih =>
    obtain ⟨index, page⟩ := e
    have hassoc : done ++ (index, page) :: rest = done ++ [(index, page)] ++ rest := by simp
    rw [installHandles, wp_bind, wp_lift]
    cases hsize : env.getSize page with
    | error e => trivial
    | ok size =>
      rw [post_ok]
      by_cases hbytes : size ≠ expectedBytesAt pages index
      · rw [if_pos hbytes]
        trivial
      rw [if_neg hbytes, wp_bind, wp_lift]
      cases hptr : env.dataPtr page with
      | error e => trivial
      | ok ptr =>
        rw [post_ok]
        cases hkey : keys[index]? with
        | none => trivial
        | some key =>
          simp only [wp_bind, wp_modify, post_ok]
          obtain rfl : size = expectedBytesAt pages index := not_not.1 hbytes
          have hmem : index ∈ (done ++ (index, page) :: rest).map Prod.fst := by simp
          have hnew : index ∉ done.map Prod.fst := by
            rw [map_append, map_cons, nodup_append] at hnd
            intro hd
            exact hnd.2.2 index hd index mem_cons_self rfl
          have hone := h.snoc (hlt index hmem) hnew hkey hsize hptr
          rw [hassoc] at hnd ⊢
          refine ih (done ++ [(index, page)]) hone hnd ?_
          intro i hi
          show i < (s.results.set index _).length
          rw [length_set]
          rw [← hassoc] at hi
          exact hlt i hi

/-! ## A call that allocates -/

/-- How a call that allocated ends: `done` are the pages that it allocated for places of the
manifest, `base` the results of the last `classify_pages`. -/
structure Listed (env : PrepareEnv) (w : PageHeap) (pages : List ControlPage) (keys : List PageKey)
    (missing : List Nat) (base : List (Option PreparedPage)) (prepared : List PreparedPage)
    (w' : PageHeap) (done : List (Nat × Nat)) (s : PrepareState) : Prop where
  filled : Filled env pages keys base done s
  results : s.results = prepared.map some
  length : s.results.length = base.length
  heap : s.heap.handles = w.handles
  handles : w'.handles = w.handles ++ s.fresh
  indices : ∀ i ∈ done.map Prod.fst, i ∈ missing
  range : ∀ e ∈ done, w.nextPage ≤ e.2

theorem releasingAllocated_ok {α : Type} {p : PrepareM α} {Q : α → PrepareState → Prop}
    (h : wp p (post Q fun _ _ => True) s) :
    wp (releasingAllocated p) (post Q fun _ _ => True) s := by
  rw [releasingAllocated, wp_tryCatch]
  refine wp_any h fun a s' h' => ?_
  exact h'

theorem length_installHandles (pages : List ControlPage) (keys : List PageKey)
    (todo : List (Nat × Nat)) (s : PrepareState) :
    wp (installHandles env pages keys todo) (post
      (fun _ s' => s'.results.length = s.results.length ∧ s'.heap = s.heap ∧
        s'.allocated = s.allocated) fun _ _ => True) s := by
  induction todo generalizing s with
  | nil => exact ⟨rfl, rfl, rfl⟩
  | cons e rest ih =>
    obtain ⟨index, page⟩ := e
    rw [installHandles, wp_bind, wp_lift]
    cases env.getSize page with
    | error e => trivial
    | ok size =>
      rw [post_ok]
      split
      · trivial
      rw [wp_bind, wp_lift]
      cases env.dataPtr page with
      | error e => trivial
      | ok ptr =>
        rw [post_ok]
        cases keys[index]? with
        | none => trivial
        | some key =>
          simp only [wp_bind, wp_modify, post_ok]
          refine wp_any (ih _) fun u s' h' => ?_
          obtain ⟨hlen, hheap, halloc⟩ := h'
          refine ⟨?_, hheap, halloc⟩
          rw [hlen]
          exact length_set

/-- The allocated pages stand in the results at the places that were missing. -/
theorem allocatePages_listed (pages : List ControlPage) (keys : List PageKey) {missing : List Nat}
    (hnd : missing.Nodup) (ha : Allocating w s) (hempty : s.allocated = [])
    (hlen : s.results.length = pages.length) :
    wp (allocatePages cfg env pages keys missing) (post
      (fun prepared s' => ∃ done s3, Listed env w pages keys missing s.results prepared s'.heap
        done s3) fun _ _ => True) s := by
  have hgroups : cfg.directGroups.Nodup := by
    rcases cfg.directGroups_valid with hg | hg <;> simp [hg]
  rw [allocatePages, wp_bind]
  have hbody : wp (do
      cfg.directGroups.forM (allocateGroup env pages missing)
      pinAllocated env
      let s ← get
      installHandles env pages keys s.allocated) (post
        (fun _ s' => Filled env pages keys s.results s'.allocated s' ∧
          s'.results.length = s.results.length ∧ s'.heap.handles = w.handles ∧
          (∀ i ∈ s'.allocated.map Prod.fst, i ∈ missing) ∧
          ∀ e ∈ s'.allocated, w.nextPage ≤ e.2)
        fun _ _ => True) s := by
    refine wp_bind_any (allocateGroups_spec pages missing cfg.directGroups ha) fun u s1 h1 => ?_
    obtain ⟨ha1, hr1, hm1⟩ := h1
    rw [hempty, map_nil, nil_append] at hm1
    refine wp_bind_any (pinAllocated_spec ha1) fun u s2 h2 => ?_
    obtain ⟨hp2, hal2, hr2, -, hf2, -⟩ := h2
    have hbase : s2.results = s.results := hr2.trans hr1
    have hindices : s2.allocated.map Prod.fst =
        cfg.directGroups.flatMap (groupIndices pages missing) := by rw [hal2, hm1]
    rw [wp_get_bind]
    have hnone : Filled env pages keys s.results [] s2 := by
      constructor
      · rw [hf2]
        rfl
      · intro k e hk
        cases hk
      · intro i _
        rw [hbase]
    have hnodup : ((([] : List (Nat × Nat)) ++ s2.allocated).map Prod.fst).Nodup := by
      rw [nil_append, hindices]
      exact nodup_groupIndices pages hnd hgroups
    have hbound : ∀ i ∈ (([] : List (Nat × Nat)) ++ s2.allocated).map Prod.fst,
        i < s2.results.length := by
      intro i hi
      rw [nil_append, hindices] at hi
      rw [hbase, hlen]
      exact groupIndices_lt hi
    have hfilled : wp (installHandles env pages keys s2.allocated) _ s2 :=
      installHandles_filled pages keys s.results s2.allocated [] hnone hnodup hbound
    have hlength : wp (installHandles env pages keys s2.allocated) _ s2 :=
      length_installHandles pages keys s2.allocated s2
    unfold wp at hfilled hlength ⊢
    cases hr : (installHandles env pages keys s2.allocated s2).1 with
    | error e => trivial
    | ok u =>
      rw [hr] at hfilled hlength
      obtain ⟨hl, hheap, halloc⟩ := hlength
      rw [post_ok, nil_append] at hfilled
      rw [post_ok, halloc, hl, hheap]
      refine ⟨hfilled, congrArg List.length hbase, hp2.handles, ?_, ?_⟩
      · intro i hi
        rw [hindices] at hi
        obtain ⟨group, _, hg⟩ := mem_flatMap.1 hi
        exact mem_of_mem_filter hg
      · intro e he
        exact (hp2.range e.2 (mem_map_of_mem he)).1
  refine wp_cases (releasingAllocated_ok hbody) (fun _ _ _ => trivial) fun u s1 h1 => ?_
  obtain ⟨hfilled, hlength, hheap, hindices, hrange⟩ := h1
  have hfin : wp finishResults (post
      (fun prepared s' => s' = s1 ∧ s1.results = prepared.map some) fun _ _ => True) s1 := by
    refine wp_cases (finishResults_spec s1) (fun _ _ _ => trivial) fun prepared s2 h2 => ?_
    exact h2
  rw [post_ok]
  refine wp_bind_any (releasingAllocated_ok hfin) fun prepared s2 h2 => ?_
  obtain ⟨rfl, hr⟩ := h2
  rw [wp_modify_bind, wp_pure, post_ok]
  refine ⟨s2.allocated, s2, hfilled, hr, hlength, hheap, ?_, hindices, hrange⟩
  show s2.heap.handles ++ s2.fresh = _
  rw [hheap]

/-! ## What is returned -/

theorem preparedAs_lookedUp {pass : Nat} {page : ControlPage} {present : Bool}
    (hc : env.contains pass key = .ok present) :
    PreparedAs env w w' pass page key (lookedUp present) := by
  constructor
  · rw [hc]
    cases present <;> simp [lookedUp]
  · constructor
    · intro h
      cases present <;> cases h
    · rintro ⟨_, i, p, ptr, h, _⟩
      cases h
  · exact fun _ => ⟨rfl, rfl⟩

theorem lookedUp_of_results {keys : List PageKey} {pass : Nat} {prepared : List PreparedPage}
    (hlook : LookedUp env pass keys s) (hr : s.results = prepared.map some) {i : Nat}
    (hkey : keys[i]? = some key) (hq : prepared[i]? = some q) :
    ∃ present, env.contains pass key = .ok present ∧ q = lookedUp present := by
  obtain ⟨present, hc, hres⟩ := hlook i key hkey
  rw [hr, getElem?_map, hq] at hres
  cases hres
  exact ⟨present, hc, rfl⟩

section

variable {pages : List ControlPage} {keys : List PageKey} {missing : List Nat} {pass : Nat}
  {prepared : List PreparedPage} {done : List (Nat × Nat)} {s3 : PrepareState}

section

variable {i : Nat} (h : Listed env w pages keys missing s.results prepared w' done s3)
variable (hlook : LookedUp env pass keys s)
include h hlook

theorem Listed.cases_result (hkey : keys[i]? = some key) (hq : prepared[i]? = some q) :
    (∃ present, env.contains pass key = .ok present ∧ q = lookedUp present) ∨
      ∃ k p ptr, done[k]? = some (i, p) ∧ env.getSize p = .ok (expectedBytesAt pages i) ∧
        env.dataPtr p = .ok ptr ∧ s3.fresh[k]? = some ⟨key, p, false, false, false⟩ ∧
        q = { handle := .hidden (w.handles.length + k),
              destination := some (ptr, expectedBytesAt pages i), disposition := .allocated } := by
  have hres : s3.results[i]? = some (some q) := by
    rw [h.results, getElem?_map, hq]
    rfl
  by_cases hi : i ∈ done.map Prod.fst
  · right
    obtain ⟨e, he, rfl⟩ := mem_map.1 hi
    obtain ⟨k, hk⟩ := mem_iff_getElem?.1 he
    obtain ⟨key', ptr, h1, h2, h3, h4, h5⟩ := h.filled.filled k e hk
    rw [hkey] at h1
    rw [hres, h.heap] at h5
    cases h1
    cases h5
    exact ⟨k, e.2, ptr, hk, h2, h3, h4, rfl⟩
  · left
    obtain ⟨present, hc, hbase⟩ := hlook i key hkey
    rw [h.filled.others i hi, hbase] at hres
    cases hres
    exact ⟨present, hc, rfl⟩

theorem Listed.preparedAs (hmissing : missing = missingFrom env pass keys 0) (howned : Owned w')
    {page : ControlPage} (hpage : pages[i]? = some page) (hkey : keys[i]? = some key)
    (hq : prepared[i]? = some q) :
    PreparedAs env w w' pass page key q := by
  rcases h.cases_result hlook hkey hq with
    ⟨present, hc, rfl⟩ | ⟨k, p, ptr, hk, hsize, hptr, hfresh, rfl⟩
  · exact preparedAs_lookedUp hc
  have habsent : env.contains pass key = .ok false := by
    have hmem := h.indices i (mem_map_of_mem (mem_of_getElem? hk))
    rw [hmissing, mem_missingFrom] at hmem
    obtain ⟨k', key', hi, hkey', hc⟩ := hmem
    obtain rfl : i = k' := by omega
    rw [hkey] at hkey'
    cases hkey'
    exact hc
  have hbytes : expectedBytesAt pages i = page.expectedBytes := by
    rw [expectedBytesAt, hpage]
    rfl
  have hget : w'.handles[w.handles.length + k]? = some ⟨key, p, false, false, false⟩ := by
    rw [h.handles, getElem?_append_right (Nat.le_add_right _ k), Nat.add_sub_cancel_left]
    exact hfresh
  rw [hbytes] at hsize
  constructor
  · rw [habsent]
    constructor
    all_goals
      intro hd
      cases hd
  · constructor
    · intro _
      refine ⟨habsent, w.handles.length + k, p, ptr, rfl, Nat.le_add_right _ k, hget,
        h.range _ (mem_of_getElem? hk), howned.page _ _ hget, howned.live _ _ hget rfl, hsize,
        hptr, ?_⟩
      rw [hbytes]
    · exact fun _ => rfl
  · exact fun hne => absurd rfl hne

theorem Listed.distinct (hlen : prepared.length = keys.length) {j n : Nat} {a b : PreparedPage}
    (ha : prepared[i]? = some a) (hb : prepared[j]? = some b) (hna : a.handle = .hidden n)
    (hnb : b.handle = .hidden n) : i = j := by
  have hkey : ∀ {i : Nat} {q : PreparedPage}, prepared[i]? = some q → ∃ key, keys[i]? = some key := by
    intro i q hq
    have hlt := lt_of_getElem? hq
    exact ⟨_, getElem?_eq_getElem (by omega)⟩
  obtain ⟨ka, hka⟩ := hkey ha
  obtain ⟨kb, hkb⟩ := hkey hb
  rcases h.cases_result hlook hka ha with ⟨_, _, rfl⟩ | ⟨k, p, _, hk, _, _, _, rfl⟩
  · cases hna
  rcases h.cases_result hlook hkb hb with ⟨_, _, rfl⟩ | ⟨k', p', _, hk', _, _, _, rfl⟩
  · cases hnb
  simp only [Handle.hidden.injEq] at hna hnb
  obtain rfl : k = k' := by omega
  rw [hk] at hk'
  cases hk'
  rfl

end

end

/-! ## One call -/

/-- The results of the call, besides who owns what. -/
def Results (cfg : PagesConfig) (env : PrepareEnv) (w : PageHeap) (pages : List ControlPage)
    (reserveMissing : Bool) (prepared : List PreparedPage) (w' : PageHeap) : Prop :=
  prepared.length = pages.length ∧ ∃ keys, pages.mapM cfg.validateControlPage = .ok keys ∧
    keys.length = pages.length ∧ ∃ s : PrepareState,
      LookedUp env (lastPass env pages keys reserveMissing) keys s ∧
        (s.results = prepared.map some ∨ ∃ done s3, Listed env w pages keys
          (missingFrom env (lastPass env pages keys reserveMissing) keys 0) s.results prepared w'
          done s3)

theorem length_of_mapM {pages : List ControlPage} {keys : List PageKey}
    (h : pages.mapM cfg.validateControlPage = .ok keys) : keys.length = pages.length :=
  (forall₂_of_mapM_ok h).length_eq.symm

/-- The lookup, then the capacity, then the pages: each adds to the results. -/
theorem preparePages_results (pages : List ControlPage) (reserveMissing : Bool) (h : Owned w) :
    wp (preparePages cfg env pages reserveMissing) (post
      (fun prepared s' => Results cfg env w pages reserveMissing prepared s'.heap)
      fun _ _ => True) (.new w) := by
  have hstart : Preparing w (.new w) := .start h
  rw [preparePages, wp_bind, wp_lift]
  cases hkeys : pages.mapM cfg.validateControlPage with
  | error e => trivial
  | ok keys =>
    have hlen : keys.length = pages.length := length_of_mapM hkeys
    -- what `finish_results` returns is the list of results
    have hfinish : ∀ s1 : PrepareState, s1.results.length = pages.length →
        LookedUp env (lastPass env pages keys reserveMissing) keys s1 → wp finishResults (post
          (fun prepared s' => Results cfg env w pages reserveMissing prepared s'.heap)
          fun _ _ => True) s1 := by
      intro s1 hlen1 hlook
      refine wp_any (finishResults_spec s1) fun prepared s2 h2 => ?_
      obtain ⟨rfl, hr⟩ := h2
      refine ⟨?_, keys, hkeys, hlen, s2, hlook, .inl hr⟩
      rw [← hlen1, hr, length_map]
    rw [post_ok]
    simp only
    split
    · trivial
    rw [wp_bind, wp_lift]
    cases validateWindowGroups cfg pages keys with
    | error e => trivial
    | ok u =>
      rw [post_ok, wp_modify_bind, wp_bind]
      have hlen0 : keys.length ≤ ({ PrepareState.new w with
          results := replicate pages.length none } : PrepareState).results.length := by
        show _ ≤ (replicate pages.length none).length
        rw [length_replicate, hlen]
      refine wp_cases (classifyPages_lookedUp 0 keys _ hlen0) (fun _ _ _ => trivial)
        fun missing s1 h1 => ?_
      rw [post_ok] at h1
      obtain ⟨rfl, hlook1, hclass1, hnd1⟩ := h1
      have hlen1 : s1.results.length = pages.length := by
        rw [hclass1.length]
        exact length_replicate
      rw [post_ok]
      by_cases hreserve : reserveMissing = true
      · subst hreserve
        rw [if_pos rfl, wp_bind]
        refine wp_cases (reserveCapacity_lookedUp pages keys hlook1 (by omega) hnd1)
          (fun _ _ _ => trivial) fun r s2 h2 => ?_
        rw [post_ok] at h2
        obtain ⟨hlook2, hclass2, hr⟩ := h2
        have hclass := hclass1.trans hclass2
        have hlen2 : s2.results.length = pages.length := by rw [hclass2.length, hlen1]
        rw [post_ok]
        cases r with
        | none => exact hfinish s2 hlen2 hlook2
        | some missing =>
          obtain ⟨hnd2, rfl⟩ := hr missing rfl
          have hp2 : Preparing w s2 := hstart.of_eq hclass.heap hclass.allocated hclass.pinned
          have halloc : Allocating w s2 := by
            refine ⟨hp2, hclass.pinned, hclass.fresh, ?_⟩
            intro p hp1 hp3
            rw [hclass.heap] at hp3
            exact absurd hp3 (Nat.not_lt.2 hp1)
          refine wp_any (allocatePages_listed pages keys hnd2 halloc hclass.allocated hlen2)
            fun prepared s3 h3 => ?_
          obtain ⟨done, s4, hlisted⟩ := h3
          refine ⟨?_, keys, hkeys, hlen, s2, hlook2, .inr ⟨done, s4, hlisted⟩⟩
          rw [← hlen2, ← hlisted.length, hlisted.results, length_map]
      · obtain rfl : reserveMissing = false := Bool.eq_false_iff.2 hreserve
        rw [if_neg Bool.false_ne_true]
        have hlast : lastPass env pages keys false = 0 := by
          rw [lastPass]
          exact if_pos (.inl rfl)
        refine hfinish s1 hlen1 ?_
        rw [hlast]
        exact hlook1

theorem Results.prepared {pages : List ControlPage} {reserveMissing : Bool}
    {prepared : List PreparedPage} (h : Results cfg env w pages reserveMissing prepared w')
    (howned : Owned w') (hout : HandedOut w prepared w') :
    Prepared cfg env w pages reserveMissing prepared w' := by
  obtain ⟨hlen, keys, hkeys, hlenk, s, hlook, hcase⟩ := h
  refine ⟨hlen, ⟨keys, hkeys, ?_⟩, ?_, hout⟩
  · intro i page key q hpage hkey hq
    rcases hcase with hr | ⟨done, s3, hlisted⟩
    · obtain ⟨present, hc, rfl⟩ := lookedUp_of_results hlook hr hkey hq
      exact preparedAs_lookedUp hc
    · exact hlisted.preparedAs hlook rfl howned hpage hkey hq
  · intro i j a b n ha hb hna hnb
    rcases hcase with hr | ⟨done, s3, hlisted⟩
    · have hkey : ∃ key, keys[i]? = some key := by
        have hlt := lt_of_getElem? ha
        exact ⟨_, getElem?_eq_getElem (by omega)⟩
      obtain ⟨key, hkey⟩ := hkey
      obtain ⟨present, _, rfl⟩ := lookedUp_of_results hlook hr hkey ha
      cases hna
    · exact hlisted.distinct hlook (hlen.trans hlenk.symm) ha hb hna hnb

/-- **`prepare_pages` is atomic.**  A call that raises has given up every page that it allocated, has
touched no other page and made no handle; a call that returns is as `Prepared` says. -/
theorem prepare_atomic (h : (pagesMachine cfg).Reachable w) (env : PrepareEnv)
    (pages : List ControlPage) (reserveMissing : Bool) :
    wp (preparePages cfg env pages reserveMissing) (post
      (fun prepared s' => Prepared cfg env w pages reserveMissing prepared s'.heap)
      fun _ s' => Quiet w s'.heap) (.new w) := by
  have howned : Owned w := pages_inductive.reachable h
  have hspec : wp (preparePages cfg env pages reserveMissing) _ (.new w) :=
    preparePages_spec pages reserveMissing howned
  have hresults : wp (preparePages cfg env pages reserveMissing) _ (.new w) :=
    preparePages_results pages reserveMissing howned
  unfold wp at hspec hresults ⊢
  cases hr : (preparePages cfg env pages reserveMissing (.new w)).1 with
  | error e =>
    rw [hr] at hspec
    exact hspec
  | ok prepared =>
    rw [hr] at hspec hresults
    obtain ⟨howned', hout⟩ := hspec
    exact Results.prepared hresults howned' hout

/-- One absent page, and room for it. -/
theorem prepare_atomic_one : ∃ prepared w',
    prepared = [⟨.hidden 0, some (0, 8), .allocated⟩] ∧
      Prepared onePageConfig (roomyEnv true) emptyHeap [onePage] true prepared w' := by
  have h := prepare_atomic (.start rfl : (pagesMachine onePageConfig).Reachable emptyHeap)
    (roomyEnv true) [onePage] true
  have hr : (preparePages onePageConfig (roomyEnv true) [onePage] true (.new emptyHeap)).1 =
      .ok [⟨.hidden 0, some (0, 8), .allocated⟩] := by decide +kernel
  unfold wp at h
  rw [hr] at h
  exact ⟨_, _, rfl, h⟩

end RemoteFill
