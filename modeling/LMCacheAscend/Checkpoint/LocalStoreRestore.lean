import LMCacheAscend.Checkpoint.LocalStoreBuild

/-!
# The restore of a local checkpoint

However `normalize` ends, the references that it took and did not return are
dropped.  A miss that it raises is below the number of tokens asked for unless it
knows no manifest and no token was asked for, or the tokens end inside the
uploaded prefix: the coverage of an acquire starts at the prefix's end.
-/

namespace LocalStore

open Lib Checkpoint List

variable {κ α β : Type} {env : Engine κ} {s s' : StoreState κ α} {l : List Page}
  {start end_ : Int}

/-! ## Exceptions that are not misses -/

def IsRaised (e : StoreError) : Prop := ∃ x, e = .raised x

theorem ask_raises (f : Nat → Except PyError β) : Raises IsRaised (ask f : StoreM κ α β) := by
  intro s
  rw [wp_ask]
  exact ⟨fun e _ => ⟨e, rfl⟩, fun _ _ => trivial⟩

theorem takeRefs_raises (pages : List Page) : Raises IsRaised (takeRefs pages : StoreM κ α Unit) :=
  Raises.modify _

theorem dropRefs_raises (pages : List Page) : Raises IsRaised (dropRefs pages : StoreM κ α Unit) :=
  Raises.modify _

theorem reraise_raises {p : StoreM κ α β} {f : StoreM κ α Unit} (hp : Raises IsRaised p)
    (hf : Raises IsRaised f) :
    Raises IsRaised (tryCatch p fun e => do f; throw e) :=
  hp.tryCatch fun _ he => hf.bind fun _ => Raises.throw he

theorem finally_raises {p : StoreM κ α β} {f : StoreM κ α Unit} (hp : Raises IsRaised p)
    (hf : Raises IsRaised f) : Raises IsRaised (finally_ p f) :=
  (reraise_raises hp hf).bind fun b => hf.bind fun _ => Raises.pure b

theorem getPage_raises (group : Nat) (source : CheckpointPage κ) :
    Raises IsRaised (getPage env group source : StoreM κ α (Option Page)) := by
  refine (ask_raises _).bind fun r => (takeRefs_raises _).bind fun _ => ?_
  split
  · exact Raises.pure none
  split
  · exact Raises.throw ⟨_, rfl⟩
  refine reraise_raises ((ask_raises _).bind fun valid => ?_) (dropRefs_raises _)
  split
  · exact (Raises.throw ⟨_, rfl⟩).bind fun _ => (ask_raises _).bind fun _ => Raises.pure _
  · exact (ask_raises _).bind fun _ => Raises.pure _

theorem acquireSources_raises (group : Nat) (sources : List (CheckpointPage κ)) (cursor : Int) :
    Raises IsRaised (acquireSources env group end_ sources cursor : StoreM κ α Int) := by
  induction sources generalizing cursor with
  | nil => exact Raises.pure cursor
  | cons source rest ih =>
    unfold acquireSources
    split
    · exact ih cursor
    split
    · exact Raises.pure cursor
    refine (getPage_raises group source).bind fun page => ?_
    cases page with
    | none => exact Raises.pure cursor
    | some page => exact (Raises.modify _).bind fun _ => ih _

variable (m : LocalCheckpoint κ)

theorem acquire_raises :
    Raises IsRaised (acquire env m end_ : StoreM κ α (Int × Held κ × Held κ)) := by
  refine (Raises.modify _).bind fun _ => ?_
  refine Raises.tryCatch (F := IsRaised) ?_ fun e he =>
    Raises.get.bind fun s => (dropRefs_raises _).bind fun _ => Raises.throw he
  refine (acquireSources_raises 0 _ _).bind fun _ => (acquireSources_raises 1 _ _).bind fun _ => ?_
  exact (Raises.get.bind fun _ => (dropRefs_raises _).bind fun _ => Raises.modify _).bind fun _ =>
    Raises.get.bind fun _ => Raises.pure _

theorem spansOf_raises {frags : List Fragment} {cursor : Int} {e : StoreError}
    (h : spansOf start end_ frags cursor = .error e) : IsRaised e := by
  induction frags generalizing cursor with
  | nil =>
    unfold spansOf at h
    split at h
    · cases h
      exact ⟨_, rfl⟩
    · cases h
  | cons f rest ih =>
    unfold spansOf at h
    simp only at h
    split at h
    · cases h
      exact ⟨_, rfl⟩
    split at h
    · next hrest =>
      cases h
      exact ih hrest
    · cases h

theorem assemble_raises (destination : Page) (widths : Widths) (frags : List Fragment) :
    Raises IsRaised (assemble env destination widths frags start end_ : StoreM κ α Unit) := by
  unfold assemble
  split
  · next hspans => exact Raises.throw (spansOf_raises hspans)
  refine Raises.forM (fun layer => ?_) _
  split
  · exact Raises.throw ⟨_, rfl⟩
  refine Raises.forM (fun c => Raises.get.bind fun s => ?_) _
  simp only
  split
  · exact Raises.throw ⟨_, rfl⟩
  · exact Raises.modify _

theorem reserve_raises {factory : StoreM κ α β} (h : Raises IsRaised factory) (group : Nat)
    (count : Int) : Raises IsRaised (reserve env factory group count) := by
  refine h.tryCatch fun e he => ?_
  split
  · refine Raises.get.bind fun s => ?_
    split
    · exact Raises.throw he
    refine (Raises.modify _).bind fun _ => (ask_raises _).bind fun ok => ?_
    split
    · exact h
    · exact Raises.throw he
  · exact Raises.throw he

theorem buildPage_raises (sources : Held κ) (group : Nat) (key : κ) :
    Raises IsRaised (buildPage env m sources group start end_ key : StoreM κ α Page) := by
  unfold buildPage
  simp only
  split
  · exact (takeRefs_raises _).bind fun _ => Raises.pure _
  refine (ask_raises _).bind fun cached => ?_
  cases cached with
  | some page => exact (takeRefs_raises _).bind fun _ => Raises.pure page
  | none =>
    refine Raises.bind ?_ fun front => finally_raises ?_ (dropRefs_raises _)
    · unfold loadPrefix
      split
      · exact Raises.pure none
      · refine Raises.bind (reserve_raises ?_ _ _) fun page => Raises.pure _
        exact (ask_raises _).bind fun page => (takeRefs_raises _).bind fun _ => Raises.pure page
    · refine Raises.bind (reserve_raises ?_ _ _) fun r => ?_
      · exact (ask_raises _).bind fun r => (takeRefs_raises _).bind fun _ => Raises.pure r
      · exact reraise_raises ((assemble_raises _ _ _).bind fun _ => Raises.pure _)
          (dropRefs_raises _)

/-! ## One group -/

/-- The references held are those of `l` and of the owners; what was published since `old` is as a
manifest is to be. -/
structure Inv (l : List Page) (old : List (LocalCheckpoint κ)) (s : StoreState κ α) : Prop where
  holds : Holds s (l ++ s.owners)
  published : ∀ x ∈ s.published, x ∈ old ∨ Published x

variable {old : List (LocalCheckpoint κ)}

theorem Inv.called (h : Inv l old s) : Inv l old s.called := ⟨h.holds, h.published⟩

/-- Where a group of `normalize` raises. -/
def Misses (length : Int) (e : StoreError) : Prop :=
  ∀ end_ message, e = .restoreMiss end_ message → end_ < length

theorem IsRaised.misses {e : StoreError} (h : IsRaised e) (length : Int) : Misses length e := by
  obtain ⟨x, rfl⟩ := h
  exact fun _ _ h => nomatch h

theorem wp_ask_inv {f : Nat → Except PyError β} {Q : β → StoreState κ α → Prop} {length : Int}
    (h : Inv l old s) (hQ : ∀ b, f s.calls = .ok b → Inv l old s.called → Q b s.called) :
    wp (ask f) (post Q fun e s' => Inv l old s' ∧ Misses length e) s := by
  rw [wp_ask]
  exact ⟨fun e _ => ⟨h.called, IsRaised.misses ⟨e, rfl⟩ length⟩, fun b hb => hQ b hb h.called⟩

theorem wp_ask_bind {γ : Type} {f : Nat → Except PyError β} {g : β → StoreM κ α γ}
    {Q : γ → StoreState κ α → Prop} {length : Int} (h : Inv l old s)
    (hg : ∀ b, f s.calls = .ok b → Inv l old s.called →
      wp (g b) (post Q fun e s' => Inv l old s' ∧ Misses length e) s.called) :
    wp (ask f >>= g) (post Q fun e s' => Inv l old s' ∧ Misses length e) s := by
  rw [wp_bind]
  exact wp_ask_inv h hg

theorem buildWindows_spec (length : Int) (group : Nat) (windows : List (Int × Int × κ))
    (sources : Held κ) (h : Inv l old s) :
    wp (buildWindows env m length group windows sources) (post
      (fun built s' => Inv l old s' ∧ Chain (ranges built) s.covered s'.covered)
      fun e s' => Inv l old s' ∧ Misses length e) s := by
  induction windows generalizing s sources with
  | nil => exact ⟨h, rfl⟩
  | cons w rest ih =>
    obtain ⟨start, end_, key⟩ := w
    unfold buildWindows
    rw [wp_get_bind, wp_ite]
    split
    · exact ⟨h, IsRaised.misses ⟨_, rfl⟩ length⟩
    · next hwindow =>
      have hwindow : start = s.covered ∧ start < end_ ∧ end_ ≤ length := by omega
      simp only
      rw [wp_bind]
      refine wp_mono (wp_and (buildPage_refs m _ group key h.holds)
        (buildPage_raises m (selectSources sources start end_).1 group key s)) ?_
      rintro (e | page) s1 ⟨⟨hb, hh⟩, hraised⟩
      · refine ⟨⟨?_, ?_⟩, hraised.misses length⟩
        · rw [hb.owners]
          exact hh
        · rw [hb.published]
          exact h.published
      · rw [post_ok, wp_modify_bind, wp_bind]
        have hinv : Inv l old { s1 with owners := s1.owners ++ [page], covered := end_ } := by
          refine ⟨?_, ?_⟩
          · show Holds s1 (l ++ (s1.owners ++ [page]))
            rw [hb.owners, ← append_assoc]
            exact hh
          · show ∀ x ∈ s1.published, _
            rw [hb.published]
            exact h.published
        refine wp_ok (ih _ hinv) fun more s2 h2 => ?_
        exact ⟨h2.1, hwindow.1, hwindow.2.1, h2.2⟩

theorem published_withGroup {m : LocalCheckpoint κ} (hm : Published m) (group : Nat)
    {built : Held κ} {a b : Int} (h : Chain (ranges built) a b) :
    Published (withGroup m group (built.map Prod.fst)) := by
  have hsorted : (built.map Prod.fst).Pairwise fun p q => p.start ≤ q.start := by
    have hs := h.sorted
    unfold ranges at hs
    rw [pairwise_map] at hs ⊢
    exact hs
  unfold withGroup setGroup
  split
  · exact ⟨hsorted, hm.sorted1, hm.prefix_le⟩
  · exact ⟨hm.sorted0, hsorted, hm.prefix_le⟩

theorem retainInstalled_spec (hlaw : env.Lawful) (group : Nat) {normalized : List (CheckpointPage κ)}
    {length : Int} (hlt : ∀ p ∈ normalized, p.start < length) (h : Inv l old s) :
    wp (retainInstalled env group normalized) (post
      (fun _ s' => Inv l old s') fun e s' => Inv l old s' ∧ Misses length e) s := by
  unfold retainInstalled
  simp only
  refine wp_ask_bind h fun r hr hinv => ?_
  obtain ⟨installed, count⟩ := r
  have hle := hlaw.le hr
  rw [length_map] at hle
  rw [wp_bind, wp_takeRefs, post_ok, wp_modify_bind, wp_ite]
  have hinv : Inv l old { s.called.took installed with owners := s.owners ++ installed } := by
    refine ⟨?_, hinv.published⟩
    show Holds (s.called.took installed) (l ++ (s.owners ++ installed))
    rw [← append_assoc]
    exact hinv.holds.took installed
  split
  · next hcount =>
    rw [length_map] at hcount
    have hget : normalized[count]? = some normalized[count] :=
      getElem?_eq_getElem (by omega)
    rw [hget]
    refine ⟨hinv, fun end_ message he => ?_⟩
    cases he
    exact hlt _ (getElem_mem _)
  · exact wp_forM (fun page _ t ht => wp_ask_inv ht fun _ _ h => h) hinv

/-- A normalized group leaves a published manifest, or a miss within the tokens. -/
theorem normalizeGroup_spec (hlaw : env.Lawful) {m : LocalCheckpoint κ} (hm : Published m)
    (tokens : List Int) (group : Nat) (held : Held κ) (base : Int) (h : Inv l old s) :
    wp (normalizeGroup env m tokens group held base) (post
      (fun m' s' => Inv l old s' ∧ Published m')
      fun e s' => Inv l old s' ∧ Misses tokens.length e) s := by
  unfold normalizeGroup
  rw [wp_modify_bind]
  have h0 : Inv l old { s with covered := base } := ⟨h.holds, h.published⟩
  refine wp_ask_bind h0 fun r _ h1 => ?_
  obtain ⟨windows, failure⟩ := r
  simp only
  refine wp_bind_ok (buildWindows_spec m tokens.length group windows held h1) fun built s2 h2 => ?_
  obtain ⟨hinv, hchain⟩ := h2
  cases failure with
  | some e => exact ⟨hinv, IsRaised.misses ⟨e, rfl⟩ _⟩
  | none =>
    simp only
    rw [wp_get_bind, wp_ite]
    split
    · exact ⟨hinv, IsRaised.misses ⟨_, rfl⟩ _⟩
    next hcovered =>
    have hpub := published_withGroup hm group hchain
    have hlt : ∀ p ∈ built.map Prod.fst, p.start < tokens.length := by
      intro p hp
      obtain ⟨x, hx, rfl⟩ := mem_map.1 hp
      have hbelow := hchain.lt_of_mem (mem_map_of_mem hx)
      have hbelow : x.1.start < s2.covered := hbelow
      omega
    -- the rest is the same whether or not the manifest is put in place of the other
    have hrest : ∀ t : StoreState κ α, Inv l old t →
        wp (do
            held.forM fun h =>
              if env.isCheckpointPageKey h.1.key then ask fun n => env.remove n h.1.key else pure ()
            retainInstalled env group (built.map Prod.fst)
            pure (withGroup m group (built.map Prod.fst)) : StoreM κ α (LocalCheckpoint κ)) (post
          (fun m' s' => Inv l old s' ∧ Published m')
          fun e s' => Inv l old s' ∧ Misses tokens.length e) t := by
      intro t ht
      rw [wp_bind]
      refine wp_mono (wp_forM (I := Inv l old)
        (E := fun e t' => Inv l old t' ∧ Misses tokens.length e) (fun x _ t1 ht1 => ?_) ht) ?_
      · rw [wp_ite]
        split
        · exact wp_ask_inv ht1 fun _ _ h => h
        · exact ht1
      rintro (e | u) s5 h5
      · exact h5
      rw [post_ok] at h5
      rw [post_ok]
      refine wp_bind_ok (retainInstalled_spec hlaw group hlt h5) fun u s6 h6 => ?_
      exact ⟨h6, hpub⟩
    refine wp_ask_bind hinv fun _ _ h3 => wp_ask_bind h3 fun listed _ h4 => ?_
    cases listed with
    | false => exact hrest _ h4
    | true =>
      refine hrest _ ⟨h4.holds, fun x hx => ?_⟩
      rcases mem_append.1 hx with hx | hx
      · exact h4.published x hx
      · rw [mem_singleton.1 hx]
        exact .inr hpub

/-! ## The restore -/

/-- Where a miss is not below what was asked for. -/
def AtMiss (manifest : Option (LocalCheckpoint κ)) (tokens : List Int) : Prop :=
  match manifest with
  | none => tokens = []
  | some m => tokens = m.tokens.take tokens.length ∧ (tokens.length : Int) < m.prefixEnd

theorem normalizeBoth_spec (hlaw : env.Lawful) {m : LocalCheckpoint κ} (hm : Published m)
    (tokens : List Int) (common : Int) (groups : Held κ × Held κ) (h : Inv l old s) :
    wp (normalizeBoth env m tokens common groups) (post
      (fun out s' => Inv l old s' ∧ out.2 = s'.owners)
      fun e s' => Inv l old s' ∧ (common ≤ tokens.length → Misses tokens.length e)) s := by
  unfold normalizeBoth
  rw [wp_ite]
  split
  · refine ⟨h, fun hle end_ message he => ?_⟩
    cases he
    omega
  · simp only
    refine wp_bind_of (normalizeGroup_spec hlaw hm tokens 0 groups.1 _ h)
      (fun _ _ h1 => ⟨h1.1, fun _ => h1.2⟩) fun m1 s1 h1 => ?_
    obtain ⟨h1, hm1⟩ := h1
    refine wp_bind_of (normalizeGroup_spec hlaw hm1 tokens 1 groups.2 _ h1)
      (fun _ _ h2 => ⟨h2.1, fun _ => h2.2⟩) fun m2 s2 h2 => ?_
    exact ⟨h2.1, rfl⟩

/-- The references on every way out, what is published, and how far a miss reaches. -/
theorem normalize_spec (hlaw : env.Lawful) {manifest : Option (LocalCheckpoint κ)}
    (hm : ∀ m ∈ manifest, Published m) (tokens : List Int) (h : Holds s l) :
    wp (normalize env manifest tokens) (post
      (fun out s' => (∀ x ∈ s'.published, x ∈ s.published ∨ Published x) ∧
        Holds s' (l ++ out.2) ∧ ¬AtMiss manifest tokens)
      fun e s' => (∀ x ∈ s'.published, x ∈ s.published ∨ Published x) ∧
        Holds s' l ∧ (¬AtMiss manifest tokens → Misses tokens.length e) ∧
        (AtMiss manifest tokens → ¬Misses tokens.length e)) s := by
  unfold normalize
  cases manifest with
  | none =>
    refine ⟨fun x hx => .inl hx, h, fun hlong end_ message he => ?_, fun hshort hmiss => ?_⟩
    · cases he
      have := length_pos_iff.2 hlong
      omega
    · have hshort : tokens = [] := hshort
      have hlt := hmiss 0 _ rfl
      rw [hshort] at hlt
      exact absurd hlt (by decide)
  | some m =>
    have hm := hm m rfl
    simp only
    rw [wp_ite]
    split
    · next hne =>
      exact ⟨fun x hx => .inl hx, h, fun _ => IsRaised.misses ⟨_, rfl⟩ _,
        fun hshort => absurd hshort.1 hne⟩
    next htokens =>
    rw [wp_bind]
    refine wp_mono (wp_and (acquire_spec hlaw hm tokens.length h)
      (acquire_raises m s)) ?_
    rintro (e | ⟨common, groups⟩) s1 h1
    · obtain ⟨⟨hlt, hquiet, hh⟩, hraised⟩ := h1
      refine ⟨fun x hx => .inl ?_, hh, fun _ => hraised.misses _,
        fun hshort => absurd hshort.2 (by omega)⟩
      rwa [hquiet.published] at hx
    obtain ⟨⟨hquiet, hh, hin, hshort⟩, -⟩ := h1
    have hcommon : ¬AtMiss (some m) tokens → common ≤ tokens.length := by
      intro hlong
      exact (hin (Int.not_lt.1 fun hlt => hlong ⟨not_not.1 htokens, hlt⟩)).within
    rw [post_ok, wp_modify_bind]
    have hinv : Inv (l ++ pagesOf groups) s.published { s1 with
        owners := [], reclaimed := false, covered := m.prefixEnd } := by
      refine ⟨?_, fun x hx => .inl ?_⟩
      · show Holds s1 (l ++ pagesOf groups ++ [])
        rw [append_nil]
        exact hh
      · have hx : x ∈ s1.published := hx
        rwa [hquiet.published] at hx
    refine wp_finally ?_
    rw [wp_tryCatch]
    by_cases hat : AtMiss (some m) tokens
    · -- the tokens end inside the prefix, so the miss comes before any page is built
      have hlt : (tokens.length : Int) < m.prefixEnd := hat.2
      obtain ⟨rfl, rfl⟩ : common = m.prefixEnd ∧ groups = ([], []) := by
        have := hshort (Int.le_of_lt hlt)
        exact ⟨congrArg Prod.fst this, congrArg Prod.snd this⟩
      unfold normalizeBoth
      rw [if_pos (by omega), wp_throw, post_error, wp_get_bind, wp_bind, wp_dropRefs]
      refine ⟨hinv.published, hinv.holds.dropped.dropped, fun hn => absurd hat hn,
        fun _ hmiss => ?_⟩
      have := hmiss _ _ rfl
      omega
    · refine wp_mono (normalizeBoth_spec hlaw hm tokens common groups hinv) ?_
      rintro (e | out) s2 h2
      · obtain ⟨hinv2, hmiss⟩ := h2
        rw [post_error, wp_get_bind, wp_bind, wp_dropRefs, post_ok]
        have hgiven := hinv2.holds.dropped
        split
        · refine ⟨hinv2.published, hgiven.dropped, fun _ end_ message he => ?_,
            fun h => absurd h hat⟩
          cases he
          omega
        · exact ⟨hinv2.published, hgiven.dropped, fun _ => hmiss (hcommon hat),
            fun h => absurd h hat⟩
      · obtain ⟨hinv2, hout⟩ := h2
        refine ⟨hinv2.published, Holds.dropped (hinv2.holds.of_times fun x => ?_), hat⟩
        rw [hout]
        simp only [times_append]
        omega

/-- **Every way out of `normalize` is balanced, and a miss is below the request exactly if there
is a manifest and the request does not end inside the prefix, or there is none and some token was
asked for.** -/
theorem normalize_misses_iff (hlaw : env.Lawful) {manifest : Option (LocalCheckpoint κ)}
    (hm : ∀ m ∈ manifest, Published m) (tokens : List Int) (h : Holds s l) :
    wp (normalize env manifest tokens) (post (fun out s' => Holds s' (l ++ out.2))
      fun e s' => Holds s' l ∧ ∀ end_ message, e = .restoreMiss end_ message →
        end_ < tokens.length) s ↔ ¬AtMiss manifest tokens := by
  have hall := normalize_spec hlaw hm tokens h
  constructor
  · intro hok hat
    unfold wp at hok hall
    rcases hr : (normalize env manifest tokens s).1 with e | out
    · rw [hr] at hall hok
      exact hall.2.2.2 hat hok.2
    · rw [hr] at hall
      exact hall.2.2 hat
  · intro hat
    refine wp_cases hall (fun _ _ h1 => ⟨h1.2.1, h1.2.2.1 hat⟩) fun out s1 h1 => ?_
    exact h1.2.1

/-- Both groups get a new page behind the prefix, and hold it and the installed one. -/
theorem normalize_misses_iff_prefixed :
    (normalize Engine.stocked (some prefixedManifest) [1, 2, 3, 4, 5, 6] StoreState.idle).1 =
      .ok (4, [209, 100, 217, 101]) ∧
    wp (normalize Engine.stocked (some prefixedManifest) [1, 2, 3, 4, 5, 6]) (post
      (fun out s' => Holds s' ([] ++ out.2))
      fun e s' => Holds s' [] ∧ ∀ end_ message, e = .restoreMiss end_ message →
        end_ < ([1, 2, 3, 4, 5, 6] : List Int).length) StoreState.idle := by
  have hnone : Holds StoreState.idle [] := fun _ => rfl
  refine ⟨by decide, (normalize_misses_iff Engine.stocked_lawful (fun m hm => ?_) _ hnone).2
    fun h => ?_⟩
  · cases hm
    exact prefixedManifest_published
  · exact absurd h.2 (by decide)

/-- Three tokens are asked for; the miss says that five are available. -/
theorem normalize_miss_past_request :
    (normalize Engine.idle (some prefixedManifest) [1, 2, 3] StoreState.idle).1 =
      .error (.restoreMiss 5 "Local checkpoint was evicted before restore") := by
  decide

/-- A request is shortened to the end of the miss, which is not negative, and tried again with what
the store has then. -/
def Retried (env : Engine κ) (next tokens : List Int) : Prop :=
  ∃ (s : StoreState κ α) (l : List Page) (manifest : Option (LocalCheckpoint κ)) (end_ : Int)
    (message : String), Holds s l ∧ (∀ m ∈ manifest, Published m) ∧ ¬AtMiss manifest tokens ∧
      (normalize env manifest tokens s).1 = .error (.restoreMiss end_ message) ∧ 0 ≤ end_ ∧
      next = tokens.take end_.toNat

/-- **Retried restores end**: each attempt has fewer tokens. -/
theorem retried_wellFounded (hlaw : env.Lawful) : WellFounded (@Retried κ α env) := by
  refine Subrelation.wf (r := InvImage (· < ·) List.length) ?_ (InvImage.wf _ Nat.lt_wfRel.wf)
  rintro next tokens ⟨s, l, manifest, end_, message, hh, hm, hat, hr, h0, rfl⟩
  have hmiss := normalize_spec hlaw hm tokens hh
  unfold wp at hmiss
  rw [hr] at hmiss
  have hlt := hmiss.2.2.1 hat end_ message rfl
  show (tokens.take end_.toNat).length < tokens.length
  rw [length_take]
  omega

/-- The page of the second group is gone. -/
def Engine.evicted : Engine Nat :=
  { Engine.stocked with pagePrefix := fun _ keys =>
      if keys = [1] then .ok ([], 0) else .ok (keys.map (· + 10), keys.length) }

theorem Engine.evicted_lawful : Engine.evicted.Lawful := by
  constructor <;> intro n keys pages count h <;>
    change (if keys = [1] then _ else _) = _ at h <;> split at h <;> cases h
  · rfl
  · exact length_map _
  · exact Nat.zero_le _
  · exact Nat.le_refl _

/-- A request of six tokens is tried again with the five of the prefix. -/
theorem retried_wellFounded_evicted : WellFounded (@Retried Nat Nat Engine.evicted) ∧
    @Retried Nat Nat Engine.evicted [1, 2, 3, 4, 5] [1, 2, 3, 4, 5, 6] := by
  refine ⟨retried_wellFounded Engine.evicted_lawful, StoreState.idle, [], some prefixedManifest, 5,
    "Local checkpoint was evicted before restore", fun _ => rfl, ?_, ?_, by decide, by decide, rfl⟩
  · intro m hm
    cases hm
    exact prefixedManifest_published
  · exact fun h => absurd h.2 (by decide)

end LocalStore
