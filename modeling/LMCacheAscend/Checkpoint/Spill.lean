import LMCacheAscend.Checkpoint.AcquireDelivers
import LMCacheAscend.Checkpoint.LocalStoreBuild
import LMCacheAscend.Checkpoint.WritebackLedger

/-!
# Spilling a record

`_spill` as a program over the local store: each canonical page of a record is
built, put to the remote backend and dropped again.  Where it returns descriptors
it is the `spill` of the write-back machine, with every put confirmed
(`spill_spec`).  In a run of that machine a record keeps its raw groups until such
a spill or until it is cancelled (`Evolves`).
-/

namespace LocalSpill

open Lib Checkpoint LocalStore List Option Function

/-- What a spill asks besides the local store. -/
structure SpillEngine (κ : Type) extends Engine κ where
  /-- `record.cancelled or record.attempts or self.closed or self.engine.is_frozen()`. -/
  withdrawn : Nat → Bool
  /-- `persist_checkpoint_page(..).result()`. -/
  persist : Nat → κ → Page → String → Except PyError Unit

structure SpillState (κ α : Type) where
  store : StoreState κ α
  quarantine : List Page
  /-- The pages whose put was confirmed. -/
  stored : List (Nat × CheckpointPage κ)

abbrev SpillM (κ α : Type) := Prog StoreError (SpillState κ α)

section

variable {κ α β : Type}

def inStore (p : StoreM κ α β) : SpillM κ α β :=
  zoom SpillState.store (fun s store => { s with store := store }) p

variable (env : SpillEngine κ)

def withdrawn : SpillM κ α Bool := inStore (ask fun n => .ok (env.withdrawn n))

/-- The `finally` of a put. -/
def putDone (page : Page) : SpillM κ α Unit := do
  let s ← get
  if page ∈ s.quarantine then pure () else inStore (dropRefs [page])

variable (manifest : LocalCheckpoint κ)

/-- The `try` around the put of a page that was built. -/
def putPage (group : Nat) (source : CheckpointPage κ) (page : Page) : SpillM κ α Bool :=
  finally_
    (tryCatch
      (do
        if ← withdrawn env then pure false
        else match manifest.identity with
          | none => throw (.raised (.exception "'NoneType' object is not subscriptable"))
          | some identity => do
            inStore (ask fun n => env.persist n source.key page identity.1)
            modify fun s => { s with stored := s.stored ++ [(group, source)] }
            pure true)
      fun e => match e with
        | .raised (.transferUnknown _) => do
          modify fun s => { s with quarantine := s.quarantine ++ [page] }
          throw e
        | e => throw e)
    (putDone page)

/-- The loop over the windows of a group: where it ends and its descriptors, or nothing where the
spill was withdrawn. -/
def putWindows (manifest : LocalCheckpoint κ) (group : Nat) :
    List (Int × Int × κ) → Held κ → Int → SpillM κ α (Option (Int × List (CheckpointPage κ)))
  | [], _, covered => pure (some (covered, []))
  | (start, end_, key) :: rest, sources, covered => do
    if ← withdrawn env then pure none
    else if start ≠ covered ∨ ¬(start < end_ ∧ end_ ≤ manifest.tokens.length) then
      throw (valueError "Checkpoint persistence has a range gap")
    else do
      let (selected, left) := selectSources sources start end_
      let page ← inStore (buildPage env.toEngine manifest selected group start end_ key)
      if ← putPage env manifest group ⟨start, end_, key⟩ page then
        match ← putWindows manifest group rest left end_ with
        | none => pure none
        | some (covered, more) => pure (some (covered, ⟨start, end_, key⟩ :: more))
      else pure none

def putGroup (group : Nat) (held : Held κ) : SpillM κ α (Option (List (CheckpointPage κ))) := do
  let base := baseOf env.toEngine manifest
  let (windows, failure) ←
    inStore (ask fun n => .ok (env.tokenResults n manifest.tokens group base))
  match ← putWindows env manifest group windows held base with
  | none => pure none
  | some (covered, pages) => match failure with
    | some e => throw (.raised e)
    | none =>
      if covered ≠ manifest.tokens.length then
        throw (valueError "Checkpoint persistence omits the accepted tail")
      else pure (some pages)

/-- `_spill`; nothing for `()`. -/
def spill (groups : Held κ × Held κ) :
    SpillM κ α (Option (List (CheckpointPage κ) × List (CheckpointPage κ))) := do
  if ← withdrawn env then pure none
  else do
    modify fun s => { s with store := { s.store with reclaimed := false } }
    match ← putGroup env manifest 0 groups.1 with
    | none => pure none
    | some first => match ← putGroup env manifest 1 groups.2 with
      | none => pure none
      | some second => pure (some (first, second))

end

/-! ## References -/

section

variable {κ α : Type} {env : SpillEngine κ} {s s' : SpillState κ α} {q l : List Page}

/-- The references held are those of `l`, and of pages that were in the quarantine `q` before. -/
def Settled (q l : List Page) (s : SpillState κ α) : Prop :=
  s.quarantine = q ∧ ∃ kept, Holds s.store (l ++ kept) ∧ ∀ p ∈ kept, p ∈ q

/-- Besides, each page that was quarantined since has one. -/
def Quarantined (q l : List Page) (s : SpillState κ α) : Prop :=
  ∃ added, s.quarantine = q ++ added ∧ ∃ kept, Holds s.store (l ++ added ++ kept) ∧
    ∀ p ∈ kept, p ∈ q

theorem Settled.of_holds (h : Holds s.store l) : Settled s.quarantine l s :=
  ⟨rfl, [], by rw [append_nil]; exact h, fun p hp => (nomatch hp)⟩

theorem Settled.quarantined (h : Settled q l s) : Quarantined q l s := by
  obtain ⟨hq, kept, hh, hkept⟩ := h
  exact ⟨[], by rw [append_nil]; exact hq, kept, by rw [append_nil]; exact hh, hkept⟩

variable {page : Page} (m : LocalCheckpoint κ) (group : Nat)

theorem Settled.drop (h : Settled q (l ++ [page]) s) (hs : s'.store = s.store.dropped [page])
    (hq : s'.quarantine = s.quarantine) : Settled q l s' := by
  obtain ⟨hq0, kept, hh, hkept⟩ := h
  refine ⟨hq.trans hq0, kept, ?_, hkept⟩
  rw [hs]
  refine Holds.dropped (hh.of_times fun x => ?_)
  simp only [times_append]
  omega

theorem Settled.keep (h : Settled q (l ++ [page]) s) (hp : page ∈ s.quarantine) :
    Settled q l s := by
  obtain ⟨hq, kept, hh, hkept⟩ := h
  refine ⟨hq, page :: kept, hh.of_times fun x => ?_, forall_mem_cons.2 ⟨hq ▸ hp, hkept⟩⟩
  rw [append_cons]

theorem wp_withdrawn {Q : Except StoreError Bool → SpillState κ α → Prop} :
    wp (withdrawn env) Q s ↔
      Q (.ok (env.withdrawn s.store.calls)) { s with store := s.store.called } := by
  unfold withdrawn inStore
  rw [wp_zoom, wp_ask]
  refine ⟨fun h => h.2 _ rfl, fun h => ⟨fun e he => (nomatch he), fun b hb => ?_⟩⟩
  cases hb
  exact h

theorem wp_putDone (h : Settled q (l ++ [page]) s) :
    wp (putDone page)
      (post (fun _ t => Settled q l t ∧ t.stored = s.stored) fun _ _ => False) s := by
  unfold putDone
  rw [wp_get_bind, wp_ite]
  split
  · next hp => exact ⟨h.keep hp, rfl⟩
  · exact ⟨h.drop rfl rfl, rfl⟩

theorem wp_putDone_quarantined (hp : page ∈ s.quarantine) (h : Quarantined q l s) :
    wp (putDone page) (post (fun _ t => Quarantined q l t) fun _ _ => False) s := by
  unfold putDone
  rw [wp_get_bind, if_pos hp]
  exact h

theorem putPage_spec (source : CheckpointPage κ) (h : Settled q (l ++ [page]) s) :
    wp (putPage env m group source page) (post
      (fun b s' => Settled q l s' ∧ (b = true → s'.stored = s.stored ++ [(group, source)]))
      fun _ s' => Quarantined q l s') s := by
  have hthrow : ∀ (e : StoreError) (t : SpillState κ α), Settled q (l ++ [page]) t →
      wp (putDone page) (post (fun _ t' => post (fun (b : Bool) s' => Settled q l s' ∧
        (b = true → s'.stored = s.stored ++ [(group, source)])) (fun _ s' => Quarantined q l s')
          (.error e) t') fun _ _ => False) t :=
    fun e t ht => wp_cases (wp_putDone ht) (fun _ _ h => h) fun u t' ht' => ht'.1.quarantined
  refine wp_finally ?_
  rw [wp_tryCatch, wp_bind, wp_withdrawn, post_ok, wp_ite]
  split
  · rw [wp_pure, post_ok]
    exact wp_ok (wp_putDone h) fun u t ht => ⟨ht.1, fun hb => (nomatch hb)⟩
  cases m.identity with
  | none => exact hthrow _ _ h
  | some identity =>
    simp only
    rw [wp_bind]
    unfold inStore
    rw [wp_zoom, wp_ask]
    refine ⟨fun e _ => ?_, fun u _ => ?_⟩
    · rw [post_error, post_error]
      split
      · rw [wp_modify_bind]
        -- the page keeps its reference, as one that this put has quarantined
        obtain ⟨hq, kept, hh, hkept⟩ := h
        show wp (putDone page) _ _
        exact wp_ok (wp_putDone_quarantined
          (mem_append_right _ (mem_singleton_self page))
          ⟨[page], congrArg (· ++ [page]) hq, kept, hh, hkept⟩) fun u t ht => ht
      · exact hthrow _ _ h
    · rw [post_ok, wp_modify_bind, wp_pure, post_ok]
      exact wp_ok (wp_putDone h) fun u t ht => ⟨ht.1, fun _ => ht.2⟩

/-- Each window is put before the next, and keeps a reference of a quarantined page only. -/
theorem putWindows_spec (windows : List (Int × Int × κ)) (sources : Held κ) (covered : Int)
    (h : Settled q l s) :
    wp (putWindows env m group windows sources covered) (post
      (fun r s' => Settled q l s' ∧ ∀ c pages, r = some (c, pages) →
        s'.stored = s.stored ++ pages.map (fun p => (group, p)) ∧
        (c = m.tokens.length → spillGroup m.tokens.length covered windows = some pages))
      fun _ s' => Quarantined q l s') s := by
  induction windows generalizing s sources covered with
  | nil =>
    refine ⟨h, fun c pages hr => ?_⟩
    cases hr
    refine ⟨(append_nil _).symm, fun hc => ?_⟩
    unfold spillGroup
    rw [if_pos hc]
  | cons w rest ih =>
    obtain ⟨start, end_, key⟩ := w
    unfold putWindows
    rw [wp_bind, wp_withdrawn, post_ok, wp_ite]
    split
    · exact ⟨h, by simp⟩
    rw [wp_ite]
    split
    · exact h.quarantined
    next hwindow =>
    have hwindow : start = covered ∧ start < end_ ∧ end_ ≤ m.tokens.length := by omega
    simp only
    rw [wp_bind]
    obtain ⟨hq, kept, hh, hkept⟩ := h
    unfold inStore
    rw [wp_zoom]
    refine wp_mono (buildPage_refs m _ group key hh.called) ?_
    rintro (e | page) s1 ⟨-, h1⟩
    · exact Settled.quarantined ⟨hq, kept, h1, hkept⟩
    rw [post_ok, wp_bind]
    have hbuilt : Settled q (l ++ [page]) { s with store := s1 } := by
      refine ⟨hq, kept, h1.of_times fun x => ?_, hkept⟩
      simp only [times_append]
      omega
    refine wp_cases (putPage_spec m group ⟨start, end_, key⟩ hbuilt) (fun _ _ h => h)
      fun put s2 h2 => ?_
    obtain ⟨h2, hput⟩ := h2
    rw [post_ok, wp_ite]
    split
    · next hok =>
      have hstored := hput hok
      refine wp_bind_ok (ih _ end_ h2) fun r s3 h3 => ?_
      obtain ⟨h3, hr⟩ := h3
      cases r with
      | none => exact ⟨h3, by simp⟩
      | some r =>
        obtain ⟨c, more⟩ := r
        obtain ⟨hlog, hgroup⟩ := hr c more rfl
        simp only
        rw [wp_pure, post_ok]
        refine ⟨h3, fun c' pages hr => ?_⟩
        cases hr
        refine ⟨?_, fun hc => ?_⟩
        · rw [hlog, hstored]
          exact append_assoc _ _ _
        · unfold spillGroup
          rw [if_pos hwindow, hgroup hc]
          rfl
    · exact ⟨h2, by simp⟩

theorem putGroup_spec (held : Held κ) (h : Settled q l s) :
    wp (putGroup env m group held) (post
      (fun r s' => Settled q l s' ∧ ∀ pages, r = some pages →
        s'.stored = s.stored ++ pages.map (fun p => (group, p)) ∧
        ∃ windows, spillGroup m.tokens.length (baseOf env.toEngine m) windows = some pages)
      fun _ s' => Quarantined q l s') s := by
  unfold putGroup
  simp only
  rw [wp_bind]
  unfold inStore
  rw [wp_zoom, wp_ask]
  refine ⟨fun e he => (nomatch he), fun r hr => ?_⟩
  obtain ⟨windows, failure⟩ := r
  rw [post_ok, wp_bind]
  have h1 : Settled q l { s with store := s.store.called } := h
  refine wp_cases (putWindows_spec m group windows held _ h1) (fun _ _ h => h) fun r s2 h2 => ?_
  obtain ⟨h2, hr⟩ := h2
  rw [post_ok]
  cases r with
  | none => exact ⟨h2, fun pages hr => (nomatch hr)⟩
  | some r =>
    obtain ⟨c, pages⟩ := r
    obtain ⟨hlog, hgroup⟩ := hr c pages rfl
    cases failure with
    | some e => exact h2.quarantined
    | none =>
      simp only
      rw [wp_ite]
      split
      · exact h2.quarantined
      · next hc =>
        refine ⟨h2, fun pages' he => ?_⟩
        cases he
        exact ⟨hlog, windows, hgroup (not_not.1 hc)⟩

/-- What a spill leaves, however it ends: descriptors come out of the write-back machine's `spill`
of some windows, and the puts of all of them were confirmed. -/
theorem spill_spec {cfg : Config} (hchunk : cfg.chunkSize = env.chunkSize) (m : LocalCheckpoint κ)
    (groups : Held κ × Held κ) (h : Settled q l s) :
    wp (spill env m groups) (post
      (fun r s' => Settled q l s' ∧ ∀ remote, r = some remote →
        (∃ results, Checkpoint.spill cfg m results = some remote) ∧
        s'.stored = s.stored ++ remote.1.map (fun p => (0, p)) ++ remote.2.map fun p => (1, p))
      fun _ s' => Quarantined q l s') s := by
  have hbase : m.prefixEnd / cfg.chunkSize * cfg.chunkSize = baseOf env.toEngine m := by
    rw [hchunk]
    rfl
  unfold spill
  rw [wp_bind, wp_withdrawn, post_ok, wp_ite]
  split
  · exact ⟨h, fun remote hr => (nomatch hr)⟩
  rw [wp_modify_bind, wp_bind]
  have h1 : Settled q l { s with store := { s.store.called with reclaimed := false } } := h
  refine wp_cases (putGroup_spec m 0 groups.1 h1) (fun _ _ h => h) fun r s2 h2 => ?_
  obtain ⟨h2, hr⟩ := h2
  rw [post_ok]
  cases r with
  | none => exact ⟨h2, fun remote hr => (nomatch hr)⟩
  | some first =>
    obtain ⟨hlog, w0, hw0⟩ := hr first rfl
    simp only
    refine wp_bind_ok (putGroup_spec m 1 groups.2 h2) fun r s3 h3 => ?_
    obtain ⟨h3, hr⟩ := h3
    cases r with
    | none => exact ⟨h3, fun remote hr => (nomatch hr)⟩
    | some second =>
      obtain ⟨hlog2, w1, hw1⟩ := hr second rfl
      simp only
      rw [wp_pure, post_ok]
      refine ⟨h3, fun remote hr => ?_⟩
      cases hr
      refine ⟨⟨(w0, w1), ?_⟩, ?_⟩
      · unfold Checkpoint.spill
        simp only [hbase, hw0, hw1]
        rfl
      · rw [hlog2, hlog]

end

/-! ## The raw groups of a record -/

section

variable {κ : Type} {cfg : Config} {r r' : Retention κ}

/-- A spill of the record's manifest was confirmed for both groups. -/
def Confirmed (cfg : Config) (r : Retention κ) : Prop :=
  ∃ remote results, r.remote = some remote ∧ Checkpoint.spill cfg r.manifest results = some remote

theorem Confirmed.covers (h : Confirmed cfg r) : ∃ remote, r.remote = some remote ∧
    Chain (remote.1.map pageRange) (r.manifest.prefixEnd / cfg.chunkSize * cfg.chunkSize)
      r.manifest.tokens.length ∧
    Chain (remote.2.map pageRange) (r.manifest.prefixEnd / cfg.chunkSize * cfg.chunkSize)
      r.manifest.tokens.length := by
  obtain ⟨remote, results, hr, hs⟩ := h
  obtain ⟨g0, h0, hs⟩ := bind_eq_some_iff.1 hs
  obtain ⟨g1, h1, hs⟩ := bind_eq_some_iff.1 hs
  cases hs
  exact ⟨(g0, g1), hr, spillGroup_chain h0, spillGroup_chain h1⟩

/-- A record later: it has its groups unless it was cancelled or its spill was confirmed. -/
structure Later (cfg : Config) (r r' : Retention κ) : Prop where
  manifest : r'.manifest = r.manifest
  cancelled : r.cancelled = true → r'.cancelled = true
  confirmed : Confirmed cfg r → Confirmed cfg r'
  groups : r'.groups = r.groups ∨ r'.cancelled = true ∨ Confirmed cfg r'

theorem Later.refl (r : Retention κ) : Later cfg r r := ⟨rfl, id, id, .inl rfl⟩

theorem Later.trans {r1 r2 r3 : Retention κ} (h : Later cfg r1 r2) (h' : Later cfg r2 r3) :
    Later cfg r1 r3 := by
  refine ⟨h'.manifest.trans h.manifest, fun hc => h'.cancelled (h.cancelled hc),
    fun hc => h'.confirmed (h.confirmed hc), ?_⟩
  rcases h'.groups with hg | hc
  · rcases h.groups with hg1 | hc | hc
    · exact .inl (hg.trans hg1)
    · exact .inr (.inl (h'.cancelled hc))
    · exact .inr (.inr (h'.confirmed hc))
  · exact .inr hc

theorem Later.tombstone (r : Retention κ) : Later cfg r r.tombstone :=
  ⟨rfl, fun _ => rfl, id, .inr (.inl rfl)⟩

theorem Later.confirm {results : List (Int × Int × κ) × List (Int × Int × κ)}
    {remote : List (CheckpointPage κ) × List (CheckpointPage κ)}
    (h : Checkpoint.spill cfg r.manifest results = some remote) : Later cfg r (r.confirm remote) :=
  have hc : Confirmed cfg (r.confirm remote) := ⟨remote, results, rfl, h⟩
  ⟨rfl, id, fun _ => hc, .inr (.inr hc)⟩

/-- Every record is still there, later. -/
def Evolves (cfg : Config) (f f' : Nat → Option (Retention κ)) : Prop :=
  ∀ rid r, f rid = some r → ∃ r', f' rid = some r' ∧ Later cfg r r'

theorem Evolves.refl (f : Nat → Option (Retention κ)) : Evolves cfg f f :=
  fun _ r hr => ⟨r, hr, .refl r⟩

theorem Evolves.trans {f g k : Nat → Option (Retention κ)} (h : Evolves cfg f g)
    (h' : Evolves cfg g k) : Evolves cfg f k := by
  intro rid r hr
  obtain ⟨r1, hr1, hl1⟩ := h rid r hr
  obtain ⟨r2, hr2, hl2⟩ := h' rid r1 hr1
  exact ⟨r2, hr2, hl1.trans hl2⟩

theorem Evolves.update {f : Nat → Option (Retention κ)} {rid : Nat} (hr : f rid = some r)
    (h : Later cfg r r') : Evolves cfg f (Function.update f rid (some r')) := by
  intro j rj hj
  by_cases he : j = rid
  · subst he
    rw [hr] at hj
    cases hj
    exact ⟨r', update_self .., h⟩
  · exact ⟨rj, (update_of_ne he ..).trans hj, .refl rj⟩

theorem Evolves.insert {f : Nat → Option (Retention κ)} {rid : Nat} (hr : f rid = none)
    (r' : Retention κ) : Evolves cfg f (Function.update f rid (some r')) := by
  intro j rj hj
  have he : j ≠ rid := by
    rintro rfl
    rw [hr] at hj
    cases hj
  exact ⟨rj, (update_of_ne he ..).trans hj, .refl rj⟩

variable {w w' : Store κ}

theorem forget_evolves (w : Store κ) (reqId : String) (generation : Option Int) :
    Evolves cfg w.retentions (w.forget reqId generation).retentions :=
  w.forget_retentions (.refl _) fun _ _ r hr hf => hf.trans (.update hr (.tombstone r))

theorem restoreEvent_evolves (w : Store κ) (identity : Identity) (attempt : Int)
    (event : RestoreEvent) :
    Evolves cfg w.retentions (w.restoreEvent identity attempt event).retentions := by
  unfold Store.restoreEvent
  split
  · exact .refl _
  split
  · exact .refl _
  next r hr =>
  split
  · exact .refl _
  next attempts retire _ =>
  have hset : Evolves cfg w.retentions (w.setRetention _ { r with attempts := attempts }).retentions :=
    .update hr ⟨rfl, id, id, .inl rfl⟩
  split <;> exact hset

theorem spilled_evolves {results : Option (List (Int × Int × κ) × List (Int × Int × κ))}
    (hs : w.spilled cfg results = some w') : Evolves cfg w.retentions w'.retentions := by
  unfold Store.spilled at hs
  split at hs
  · obtain ⟨r, hr, hs⟩ := bind_eq_some_iff.1 hs
    split at hs
    · cases hs
      exact .refl _
    obtain ⟨remote, hrem, hs⟩ := bind_eq_some_iff.1 hs
    split at hs
    · cases hs
      exact .refl _
    · cases hs
      exact .update hr (.confirm hrem)
  · cases hs

theorem spillFailed_evolves {now : Nat} (hs : w.spillFailed now = some w') :
    Evolves cfg w.retentions w'.retentions := by
  unfold Store.spillFailed at hs
  split at hs
  · obtain ⟨r, hr, hs⟩ := bind_eq_some_iff.1 hs
    cases hs
    exact .update hr ⟨rfl, id, id, .inl rfl⟩
  · cases hs

variable [DecidableEq κ]

theorem publish_evolves (hw : Wired w) (identity : Identity) (m : LocalCheckpoint κ) (end_ : Int)
    (groups : Groups κ) (starts : Bool) :
    Evolves cfg w.retentions (w.publish cfg identity m end_ groups starts).retentions := by
  have hfresh : w.retentions w.nextRetention = none := by
    cases hr : w.retentions w.nextRetention with
    | none => rfl
    | some r => exact absurd (hw.fresh _ r hr) (Nat.lt_irrefl _)
  unfold Store.publish
  split
  · exact .refl _
  split
  · exact .refl _
  simp only
  split
  · split
    · split
      · exact .insert hfresh _
      · rw [uncharge_retentions]
        exact .insert hfresh _
    · exact .insert hfresh _
  · exact .refl _

theorem step_evolves (hw : Wired w) {a : Action κ} (hs : w.step cfg a = some w') :
    Evolves cfg w.retentions w'.retentions := by
  rcases step_retentions hs with heq | ⟨i, m, e, g, b, rfl⟩ | ⟨q, g, rfl⟩ | ⟨i, n, e, rfl⟩ |
    ⟨i, rfl⟩ | ⟨q, rfl⟩ | ⟨n, rfl⟩
  · rw [heq]
    exact .refl _
  · cases hs
    exact publish_evolves hw i m e g b
  · cases hs
    exact forget_evolves w q g
  · cases hs
    exact restoreEvent_evolves w i n e
  · obtain ⟨identity, -, hs⟩ := bind_eq_some_iff.1 hs
    cases hs
    exact forget_evolves { w with dueForgets := w.dueForgets.eraseIdx i } _ _
  · exact spilled_evolves hs
  · exact spillFailed_evolves hs

theorem run_evolves (hw : (writebackMachine cfg).Reachable w)
    (hrun : ((writebackMachine cfg).after w).Reachable w') :
    Evolves cfg w.retentions w'.retentions := by
  have hboth : (writebackMachine cfg).Reachable w' ∧ Evolves cfg w.retentions w'.retentions := by
    induction hrun with
    | start h0 =>
      cases h0
      exact ⟨hw, .refl _⟩
    | step a _ _ hstep ih =>
      obtain ⟨hreach, hev⟩ := ih
      have hwired := writeback_inductive.reachable hreach
      exact ⟨hreach.step a hstep, hev.trans (step_evolves hwired.1 hstep)⟩
  exact hboth.2

/-- **A spill gives up nothing before it is confirmed.**  However `_spill` ends, the references held
are those of before and one for each page that it quarantined (and of pages that were quarantined
before, of which there are none when it starts); descriptors that it returns cover both groups and
were all put.  In a run of the store a record has its raw groups until such descriptors are
installed or it is cancelled. -/
theorem spill_confirms {α : Type} (env : SpillEngine κ) (hchunk : cfg.chunkSize = env.chunkSize)
    (m : LocalCheckpoint κ) (groups : Held κ × Held κ) {s : SpillState κ α} {l : List Page}
    (h : Holds s.store l) :
    wp (spill env m groups) (post
      (fun r s' => Settled s.quarantine l s' ∧ ∀ remote, r = some remote →
        (∃ results, Checkpoint.spill cfg m results = some remote) ∧
        Chain (remote.1.map pageRange) (m.prefixEnd / cfg.chunkSize * cfg.chunkSize)
          m.tokens.length ∧
        Chain (remote.2.map pageRange) (m.prefixEnd / cfg.chunkSize * cfg.chunkSize)
          m.tokens.length ∧
        s'.stored = s.stored ++ remote.1.map (fun p => (0, p)) ++ remote.2.map fun p => (1, p))
      fun _ s' => Quarantined s.quarantine l s') s ∧
    ∀ {w w' : Store κ} {rid : Nat} {r : Retention κ}, (writebackMachine cfg).Reachable w →
      w.retentions rid = some r → ((writebackMachine cfg).after w).Reachable w' →
      ∃ r', w'.retentions rid = some r' ∧ (r'.groups = r.groups ∨ r'.cancelled = true ∨
        ∃ remote, r'.remote = some remote ∧
          Chain (remote.1.map pageRange) (r.manifest.prefixEnd / cfg.chunkSize * cfg.chunkSize)
            r.manifest.tokens.length ∧
          Chain (remote.2.map pageRange) (r.manifest.prefixEnd / cfg.chunkSize * cfg.chunkSize)
            r.manifest.tokens.length) := by
  refine ⟨?_, fun {w w' rid r} hw hr hrun => ?_⟩
  · refine wp_ok (spill_spec hchunk m groups (.of_holds h)) fun r s' h' => ?_
    refine ⟨h'.1, fun remote hr => ?_⟩
    obtain ⟨⟨results, hs⟩, hstored⟩ := h'.2 remote hr
    have hconf : Confirmed cfg ((Retention.new m ([], [])).confirm remote) :=
      ⟨remote, results, rfl, hs⟩
    obtain ⟨remote', hr', h0, h1⟩ := hconf.covers
    cases hr'
    exact ⟨⟨results, hs⟩, h0, h1, hstored⟩
  · obtain ⟨r', hr', hl⟩ := run_evolves hw hrun rid r hr
    refine ⟨r', hr', ?_⟩
    rcases hl.groups with hg | hc | hc
    · exact .inl hg
    · exact .inr (.inl hc)
    have hcov := hc.covers
    rw [hl.manifest] at hcov
    exact .inr (.inr hcov)

end

/-- A new page for each window; every put is confirmed. -/
@[irreducible] def SpillEngine.confirming : SpillEngine Nat :=
  { Engine.idle with
    chunkSize := 2
    chunkSize_pos := Nat.two_pos
    allocate := fun n _ _ => .ok (100 + n, .shared [])
    tokenResults := fun _ _ group _ =>
      if group = 0 then ([(0, 2, 90), (2, 4, 91)], none) else ([(0, 2, 92), (2, 4, 93)], none)
    withdrawn := fun _ => false
    persist := fun _ _ _ _ => .ok () }

def SpillState.idle : SpillState Nat Nat := ⟨StoreState.idle, [], []⟩

def publishedStore : Store Nat :=
  ((writebackMachine spillConfig).run (Store.init 16 4) (spillRun.take 1)).getD (Store.init 16 4)

def publishedRecord : Retention Nat :=
  (publishedStore.retentions 0).getD (.new spillManifest ([], []))

theorem publishedStore_reachable : (writebackMachine spillConfig).Reachable publishedStore := by
  have hr : (writebackMachine spillConfig).run (Store.init 16 4) (spillRun.take 1) =
      some publishedStore := rfl
  exact Machine.reachable_of_run ⟨16, 4, rfl, by unfold Store.validCapacity; decide⟩ hr

theorem confirming_chunkSize : spillConfig.chunkSize = SpillEngine.confirming.chunkSize := by
  decide +kernel

theorem spill_confirms_published :
    (spill SpillEngine.confirming publishedRecord.manifest publishedRecord.groups
      SpillState.idle).1 = .ok (some ([⟨0, 2, 90⟩, ⟨2, 4, 91⟩], [⟨0, 2, 92⟩, ⟨2, 4, 93⟩])) ∧
    wp (spill SpillEngine.confirming publishedRecord.manifest publishedRecord.groups) (post
      (fun r s' => Settled [] [] s' ∧ ∀ remote, r = some remote →
        Chain (remote.1.map pageRange) 0 4 ∧ Chain (remote.2.map pageRange) 0 4 ∧
        s'.stored = remote.1.map (fun p => (0, p)) ++ remote.2.map fun p => (1, p))
      fun _ s' => Quarantined [] [] s') SpillState.idle ∧
    ∃ r', spilledStore.retentions 0 = some r' ∧ (r'.groups = publishedRecord.groups ∨
      r'.cancelled = true ∨ ∃ remote, r'.remote = some remote ∧
        Chain (remote.1.map pageRange) 0 4 ∧ Chain (remote.2.map pageRange) 0 4) := by
  obtain ⟨hspill, hkept⟩ := @spill_confirms Nat spillConfig _ Nat SpillEngine.confirming
    confirming_chunkSize publishedRecord.manifest publishedRecord.groups SpillState.idle []
    fun _ => rfl
  refine ⟨by decide +kernel, ?_, ?_⟩
  · refine wp_ok hspill fun r s' h' => ?_
    exact ⟨h'.1, fun remote hr => (h'.2 remote hr).2⟩
  · have hrun : ((writebackMachine spillConfig).after publishedStore).run publishedStore
        (spillRun.drop 1) = some spilledStore := rfl
    exact hkept publishedStore_reachable rfl (Machine.reachable_of_run rfl hrun)

/-- A record that is forgotten gives up its raw groups, which no spill has confirmed. -/
theorem forgotten_unconfirmed :
    ∃ w r, (writebackMachine spillConfig).run publishedStore [.forget "r" (some 1), .retire 0] =
        some w ∧ w.retentions 0 = some r ∧ publishedRecord.groups.1 ≠ [] ∧ r.groups = ([], []) ∧
      r.remote = none ∧ w.charges.counts.keys = [] :=
  ⟨_, _, rfl, rfl, by decide, rfl, rfl, rfl⟩

end LocalSpill
