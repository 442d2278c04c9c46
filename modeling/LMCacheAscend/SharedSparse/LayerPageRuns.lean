import LMCacheAscend.SharedSparse.LayerPages

/-!
# What a resolution holds

While it goes on, a resolution holds the pages of the keys before the tail, a
reference each.  On success the caller holds these and the tail, a pin and a
reference each.  On failure all is given back but what a remote get answered that
had another number of pages than keys: the count is checked before the pages are
owned.
-/

namespace LayerPages

open Lib List Option

variable {κ : Type}

/-- What the tiers are relied on for: the pages of a prefix of the keys, in order, of the local
tier, and the pages of the keys of the remote one, if there are as many; the legacy resolver
answers with an object for each key. -/
structure Serves (env : Env κ) (PageOf : κ → Page → Prop) (LegacyOf : Key κ → Nat → Prop) :
    Prop where
  prefixed : ∀ n keys pages count, env.batchedGetLayerPagePrefix n keys = .ok (pages, count) →
    count ≤ keys.length ∧ Forall₂ PageOf (keys.take count) pages
  fetched : ∀ n keys pages, env.batchedGetLayerPages n keys = .ok pages →
    pages.length = keys.length → Forall₂ PageOf keys pages
  resolved : ∀ n rows tail, env.pageFirstLayers n rows = .ok tail →
    Forall₂ (Forall₂ LegacyOf) rows tail

/-- A remote get whose pages can be owned: as many as keys, or none. -/
def Exact (f : List κ × List Page) : Prop := f.2.length = f.1.length ∨ f.2 = []

/-- The keys are a matrix: a row for each layer, of one length. -/
structure Call.Rect (c : Call κ) : Prop where
  layers : c.keysLayerMajor.length = c.numLayers
  rows : ∀ row ∈ c.keysLayerMajor, ∀ row' ∈ c.keysLayerMajor, row.length = row'.length

/-- Before the tail. -/
structure Going (PageOf : κ → Page → Prop) (c : Call κ) (pageKeys : List κ) (s : State κ) :
    Prop where
  length : pageKeys.length = c.pageChunks
  refs : s.refs.Holds s.owned
  pins : s.pins.Holds s.pinned
  unpinned : s.pinned = []
  owned : s.owned = s.pages.map .page
  tail : s.tailStart ≤ c.pageChunks
  pages : Forall₂ PageOf (pageKeys.take s.tailStart) s.pages
  exact : ∀ f ∈ s.fetches, Exact f

/-- What is held where the block behind `try` raises. -/
structure Stuck (s : State κ) : Prop where
  pins : s.pins.Holds s.pinned
  refs : ∃ lost, s.refs.Holds (s.owned ++ lost) ∧ (lost = [] ↔ ∀ f ∈ s.fetches, Exact f)

/-- It stops, and holds what it owns. -/
def Raised (stop : Stop) (s : State κ) : Prop := stop ≠ .outOfFuel ∧ Stuck s

variable {β : Type} {E : Stop → State κ → Prop}

theorem wp_ask {f : Nat → Except Exc β} {Q : Except Stop β → State κ → Prop} {s : State κ} :
    wp (ask f) Q s ↔ Q ((f s.calls).mapError .raised) { s with calls := s.calls + 1 } := by
  unfold ask
  rw [wp_get_bind, wp_modify_bind, wp_call]

theorem wp_ask_of {f : Nat → Except Exc β} {P : β → State κ → Prop} {s : State κ}
    (herr : ∀ e, E (.raised e) { s with calls := s.calls + 1 })
    (hok : ∀ b, f s.calls = .ok b → P b { s with calls := s.calls + 1 }) :
    wp (ask f) (post P E) s := by
  rw [wp_ask]
  cases h : f s.calls with
  | error e => exact herr e
  | ok b => exact hok b h

section Loop

variable {PageOf : κ → Page → Prop} {LegacyOf : Key κ → Nat → Prop} {env : Env κ} {c : Call κ}
  {pageKeys : List κ} {s : State κ}

theorem Going.tick (h : Going PageOf c pageKeys s) :
    Going PageOf c pageKeys { s with calls := s.calls + 1 } :=
  ⟨h.length, h.refs, h.pins, h.unpinned, h.owned, h.tail, h.pages, h.exact⟩

theorem Going.stuck (h : Going PageOf c pageKeys s) : Stuck s :=
  ⟨h.pins, [], by rw [append_nil]; exact h.refs, fun _ => h.exact, fun _ => rfl⟩

theorem Going.raised (h : Going PageOf c pageKeys s) (e : Exc) : Raised (.raised e) s :=
  ⟨nofun, h.stuck⟩

variable {pages : List Page} {keys : List κ} {tail : List (List Obj)}

theorem Going.extend (h : Going PageOf c pageKeys s) {count : Nat}
    {fetches : List (List κ × List Page)} (hle : count ≤ (pageKeys.drop s.tailStart).length)
    (hpages : Forall₂ PageOf ((pageKeys.drop s.tailStart).take count) pages)
    (hf : ∀ f ∈ fetches, Exact f) :
    wp (LayerPages.extend pages count) (post (fun _ s' => Going PageOf c pageKeys s' ∧
        s'.tailStart = s.tailStart + count) fun _ _ => False)
      { s with refs := s.refs.take (pages.map .page), fetches := s.fetches ++ fetches } := by
  have hlen := h.length
  have htail := h.tail
  rw [length_drop] at hle
  refine ⟨⟨hlen, ?_, h.pins, h.unpinned, ?_, ?_, ?_, ?_⟩, rfl⟩
  · exact h.refs.take _
  · show s.owned ++ pages.map Obj.page = (s.pages ++ pages).map Obj.page
    rw [h.owned, map_append]
  · show s.tailStart + count ≤ c.pageChunks
    omega
  · show Forall₂ PageOf (pageKeys.take (s.tailStart + count)) (s.pages ++ pages)
    rw [take_add]
    exact rel_append h.pages hpages
  · exact forall_mem_append.2 ⟨h.exact, hf⟩

theorem Going.localRun (h : Going PageOf c pageKeys s) (hs : Serves env PageOf LegacyOf)
    (hkeys : keys = pageKeys.drop s.tailStart)
    {f : List Page × Nat → ResolveM κ β} {Q : β → State κ → Prop}
    (hraise : ∀ e, E (.raised e) { s with calls := s.calls + 1 })
    (hf : ∀ p s', Going PageOf c pageKeys s' → s'.tailStart = s.tailStart + p.2 →
      wp (f p) (post Q E) s') :
    wp (do
      let p ← LayerPages.localRun env keys
      LayerPages.extend p.1 p.2
      f p) (post Q E) s := by
  unfold LayerPages.localRun
  rw [wp_bind, wp_bind, wp_ask]
  cases hp : env.batchedGetLayerPagePrefix s.calls keys with
  | error e => exact hraise e
  | ok p =>
    obtain ⟨hle, hpages⟩ := hs.prefixed _ _ _ _ hp
    rw [hkeys] at hle hpages
    have hnone : ∀ f ∈ ([] : List (List κ × List Page)), Exact f := nofun
    have hext := h.tick.extend hle hpages hnone
    rw [append_nil] at hext
    show wp (LayerPages.extend p.1 p.2 >>= fun _ => f p) (post Q E) _
    refine wp_bind_returns hext fun u s' hs' => ?_
    exact hf p s' hs'.1 hs'.2

/-- What a get answers: pages to own if there are as many as keys, else they are lost. -/
theorem Going.fetch (h : Going PageOf c pageKeys s) (hs : Serves env PageOf LegacyOf)
    (hkeys : keys = pageKeys.drop s.tailStart) {count : Int} (hle : count.toNat ≤ keys.length) :
    wp (LayerPages.fetch env keys count) (post (fun pages s' =>
      (pages.length ≠ count.toNat → Stuck s') ∧ (pages.length = count.toNat →
        wp (LayerPages.extend pages count.toNat) (post (fun _ s2 => Going PageOf c pageKeys s2 ∧
          s2.tailStart = s.tailStart + count.toNat) fun _ _ => False) s')) Raised) s := by
  have hlen : (keys.take count.toNat).length = count.toNat := by
    rw [length_take]
    omega
  unfold LayerPages.fetch
  rw [wp_ite]
  split
  · rename_i hz
    subst hz
    refine ⟨fun hne => absurd rfl hne, fun _ => ?_⟩
    have hnone : ∀ f ∈ ([] : List (List κ × List Page)), Exact f := nofun
    have hext := h.extend (Nat.zero_le _) .nil hnone
    have hrefs : s.refs.take [] = s.refs := by simp [Ledger.take]
    rw [append_nil, map_nil, hrefs] at hext
    exact hext
  · unfold remoteGet
    rw [wp_bind, wp_ask]
    cases hg : env.batchedGetLayerPages s.calls (keys.take count.toNat) with
    | error e => exact h.tick.raised e
    | ok pages =>
      refine ⟨fun hne => ⟨h.pins, pages.map .page, h.refs.take _, ?_⟩, fun heq => ?_⟩
      · rw [map_eq_nil_iff]
        constructor
        · rintro rfl
          refine forall_mem_append.2 ⟨h.exact, fun f hf => ?_⟩
          obtain rfl := mem_singleton.1 hf
          exact .inr rfl
        · intro hall
          rcases hall _ (mem_append_right _ (mem_singleton.2 rfl)) with heq | hnil
          · exact absurd (heq.trans hlen) hne
          · exact hnil
      · have hof := hs.fetched _ _ _ hg (heq.trans hlen.symm)
        rw [hkeys] at hle hof
        refine h.tick.extend hle hof fun f hf => ?_
        obtain rfl := mem_singleton.1 hf
        exact .inl (heq.trans hlen.symm)

/-- A run from the remote tier.  Where as many pages were answered as keys were asked for, all of
them are owned. -/
theorem Going.remoteRun (h : Going PageOf c pageKeys s) (hs : Serves env PageOf LegacyOf)
    (hkeys : keys = pageKeys.drop s.tailStart) :
    wp (LayerPages.remoteRun env keys)
      (post (fun _ s' => Going PageOf c pageKeys s' ∧ s.tailStart ≤ s'.tailStart) Raised) s := by
  unfold LayerPages.remoteRun
  rw [wp_get_bind, wp_ite]
  split
  · exact h.raised _
  rw [wp_bind]
  refine wp_ask_of (fun e => h.tick.raised e) fun count _ => ?_
  rw [wp_ite]
  split
  · exact h.tick.raised _
  rename_i hcount
  obtain ⟨h0, hle⟩ := Decidable.not_not.1 hcount
  refine wp_bind_ok (h.tick.fetch hs hkeys (by omega)) fun pages s' hs' => ?_
  rw [wp_ite]
  obtain ⟨lost, hext⟩ := hs'
  split
  · rename_i hne
    exact ⟨nofun, lost hne⟩
  · rename_i heq
    refine wp_returns (hext (Decidable.not_not.1 heq)) fun u s2 h2 => ?_
    exact ⟨h2.1, by have : s2.tailStart = s.tailStart + count.toNat := h2.2; omega⟩

theorem Going.rest_eq (h : Going PageOf c pageKeys s) :
    (pageKeys.take c.pageChunks).drop s.tailStart = pageKeys.drop s.tailStart := by
  rw [← h.length, take_length]

/-- Each turn that goes on has moved the tail, so the turns end. -/
theorem Going.resolveRuns (hs : Serves env PageOf LegacyOf) (fuel : Nat)
    (h : Going PageOf c pageKeys s) (hfuel : c.pageChunks - s.tailStart < fuel) :
    wp (LayerPages.resolveRuns env c pageKeys fuel)
      (post (fun _ s' => Going PageOf c pageKeys s') Raised) s := by
  induction fuel generalizing s with
  | zero => omega
  | succ fuel ih =>
    unfold LayerPages.resolveRuns rest
    rw [wp_bind, wp_get_bind, wp_pure, post_ok, h.rest_eq]
    split
    · exact h
    rename_i key keys hrest
    have hpos : s.tailStart < c.pageChunks := by
      have := congrArg List.length hrest
      rw [length_drop, h.length, length_cons] at this
      omega
    rw [wp_bind]
    refine wp_ask_of (fun e => h.tick.raised e) fun legacy _ => ?_
    rw [wp_ite]
    split
    · exact h.tick
    refine wp_bind_ok (h.tick.remoteRun hs hrest.symm) fun u s1 h1 => ?_
    obtain ⟨hg, hmono⟩ := h1
    have hmono : s.tailStart ≤ s1.tailStart := hmono
    rw [wp_bind, wp_get_bind, wp_pure, post_ok, hg.rest_eq]
    split
    · exact hg
    rename_i key' keys' hrest'
    refine hg.localRun hs hrest'.symm (fun e => hg.tick.raised e) fun p s2 h2 hmove => ?_
    rw [wp_ite]
    split
    · exact h2
    · have := h2.tail
      exact ih h2 (by omega)

/-! ## The tail -/

/-- With the tail: the objects of each layer, in key order. -/
structure Ended (PageOf : κ → Page → Prop) (LegacyOf : Key κ → Nat → Prop) (c : Call κ)
    (pageKeys : List κ) (tail : List (List Obj)) (s : State κ) : Prop where
  refs : s.refs.Holds s.owned
  pins : s.pins.Holds s.pinned
  owned : s.owned = s.pages.map .page ++ tail.flatten
  pinned : s.pinned = tail.flatten
  bound : s.tailStart ≤ c.pageChunks
  pages : Forall₂ PageOf (pageKeys.take s.tailStart) s.pages
  exact : ∀ f ∈ s.fetches, Exact f
  layers : tail.length = c.numLayers
  rows : ∀ l row, tail[l]? = some row → ∃ keys, c.keysLayerMajor[l]? = some keys ∧
    Forall₂ (fun key obj => ∃ id, obj = Obj.legacy id ∧ LegacyOf key id)
      ((pageKeys.drop s.tailStart).map (Key.layer · l) ++ keys.drop c.pageChunks) row

theorem tailRow_ok {tailStart l : Nat} {row : List (Key κ)} (hlen : pageKeys.length = c.pageChunks)
    (h : tailRow c pageKeys tailStart l = .ok row) : ∃ keys, c.keysLayerMajor[l]? = some keys ∧
      row = (pageKeys.drop tailStart).map (Key.layer · l) ++ keys.drop c.pageChunks := by
  unfold tailRow at h
  rw [← hlen, take_length, hlen] at h
  cases hk : c.keysLayerMajor[l]? with
  | none =>
    rw [hk] at h
    cases h
  | some keys =>
    rw [hk] at h
    cases h
    exact ⟨keys, rfl, rfl⟩

theorem getElem?_tailRows {tailStart : Nat} {tailKeys : List (List (Key κ))}
    (hlen : pageKeys.length = c.pageChunks)
    (h : (range c.numLayers).mapM (tailRow c pageKeys tailStart) = .ok tailKeys) :
    tailKeys.length = c.numLayers ∧ ∀ l row, tailKeys[l]? = some row →
      ∃ keys, c.keysLayerMajor[l]? = some keys ∧
        row = (pageKeys.drop tailStart).map (Key.layer · l) ++ keys.drop c.pageChunks := by
  have hall := forall₂_of_mapM_ok h
  refine ⟨by rw [← hall.length_eq, length_range], fun l row hrow => ?_⟩
  obtain ⟨hl, hget⟩ := List.getElem?_eq_some_iff.1 hrow
  have hr := (forall₂_iff_get.1 hall).2 l (by rw [hall.length_eq]; exact hl) hl
  rw [get_eq_getElem, get_eq_getElem, getElem_range, hget] at hr
  exact tailRow_ok hlen hr

theorem Ended.stuck (h : Ended PageOf LegacyOf c pageKeys tail s) :
    Stuck s :=
  ⟨h.pins, [], by rw [append_nil]; exact h.refs, fun _ => h.exact, fun _ => rfl⟩

/-- Without keys in the tail there are only pages: the rows have one length. -/
theorem drop_eq_nil_of_rect (hc : c.Rect) {keys keys' : List (Key κ)} {l l' : Nat}
    (hk : c.keysLayerMajor[l]? = some keys) (hk' : c.keysLayerMajor[l']? = some keys')
    (h : keys.drop c.pageChunks = []) : keys'.drop c.pageChunks = [] := by
  rw [drop_eq_nil_iff] at h ⊢
  rw [← hc.rows keys (mem_of_getElem? hk) keys' (mem_of_getElem? hk')]
  exact h

/-- The legacy objects of the tail are owned and pinned. -/
theorem Going.legacyTail (h : Going PageOf c pageKeys s) (hs : Serves env PageOf LegacyOf)
    (hc : c.Rect) {tailKeys : List (List (Key κ))}
    (hkeys : (range c.numLayers).mapM (tailRow c pageKeys s.tailStart) = .ok tailKeys)
    {f : List (List Obj) → ResolveM κ β} {Q : β → State κ → Prop}
    (hf : ∀ tail s', Ended PageOf LegacyOf c pageKeys tail s' → s'.tailStart = s.tailStart →
      wp (f tail) (post Q Raised) s') :
    wp (do
      let tail ← LayerPages.legacyTail env c tailKeys
      modify fun s' => { s' with
        owned := s'.owned ++ tail.flatten
        pinned := s'.pinned ++ tail.flatten }
      f tail) (post Q Raised) s := by
  obtain ⟨hlen, hrows⟩ := getElem?_tailRows h.length hkeys
  rw [wp_bind]
  unfold LayerPages.legacyTail
  split
  · exact h.raised _
  · rename_i others
    rw [wp_pure, post_ok, wp_modify_bind]
    obtain ⟨keys0, hk0, hnil⟩ := hrows 0 [] rfl
    obtain ⟨hpages, hdrop⟩ := append_eq_nil_iff.1 hnil.symm
    have hflat : (c.keysLayerMajor.map fun _ => ([] : List Obj)).flatten = [] := by simp
    refine hf _ _ ⟨?_, ?_, ?_, ?_, h.tail, h.pages, h.exact, ?_, fun l row hrow => ?_⟩ rfl
    · simp only [hflat, append_nil]
      exact h.refs
    · simp only [hflat, append_nil]
      exact h.pins
    · simp only [hflat, append_nil]
      exact h.owned
    · simp only [hflat, append_nil]
      exact h.unpinned
    · rw [length_map, hc.layers]
    · rw [getElem?_map] at hrow
      obtain ⟨keys, hk, rfl⟩ := map_eq_some_iff.1 hrow
      refine ⟨keys, hk, ?_⟩
      rw [drop_eq_nil_of_rect hc hk0 hk hdrop, map_eq_nil_iff.1 hpages]
      exact .nil
  · rw [wp_bind, wp_ask]
    cases hr : env.pageFirstLayers s.calls tailKeys with
    | error e => exact h.tick.raised e
    | ok rows =>
      have hof := hs.resolved _ _ _ hr
      show wp (modify _ >>= fun _ => f _) (post Q Raised) _
      rw [wp_modify_bind]
      refine hf _ _ ⟨h.refs.take _, h.pins.take _, ?_, ?_, h.tail, h.pages, h.exact, ?_,
        fun l row hrow => ?_⟩ rfl
      · show s.owned ++ _ = s.pages.map Obj.page ++ _
        rw [h.owned]
      · show s.pinned ++ _ = _
        rw [h.unpinned, nil_append]
      · rw [length_map, ← hof.length_eq, hlen]
      · rw [getElem?_map] at hrow
        obtain ⟨ids, hids, rfl⟩ := map_eq_some_iff.1 hrow
        obtain ⟨hl, hget⟩ := List.getElem?_eq_some_iff.1 hids
        have hlt : l < tailKeys.length := by rw [hof.length_eq]; exact hl
        have hrel := (forall₂_iff_get.1 hof).2 l hlt hl
        rw [get_eq_getElem, get_eq_getElem, hget] at hrel
        obtain ⟨keys, hk, heq⟩ := hrows l tailKeys[l] (getElem?_eq_getElem hlt)
        have hobjs : Forall₂ (fun key obj => ∃ id, obj = Obj.legacy id ∧ LegacyOf key id)
            tailKeys[l] (ids.map Obj.legacy) :=
          forall₂_map_right_iff.2 (hrel.imp fun key id hid => ⟨id, rfl, hid⟩)
        rw [heq] at hobjs
        exact ⟨keys, hk, hobjs⟩

/-! ## Pins -/

theorem Ended.tick (h : Ended PageOf LegacyOf c pageKeys tail s) :
    Ended PageOf LegacyOf c pageKeys tail { s with calls := s.calls + 1 } :=
  ⟨h.refs, h.pins, h.owned, h.pinned, h.bound, h.pages, h.exact, h.layers, h.rows⟩

section

variable {P : State κ → Prop} (htick : ∀ s, P s → P { s with calls := s.calls + 1 })
variable (hraise : ∀ e s, P s → E (.raised e) s)
include htick hraise

theorem wp_checkPages (pages : List Page) (h : P s) :
    wp (checkPages env c pages) (post (fun _ => P) E) s := by
  induction pages generalizing s with
  | nil => exact h
  | cons page pages ih =>
    unfold checkPages
    rw [wp_bind]
    refine wp_ask_of (fun e => hraise e _ (htick s h)) fun shape _ => ?_
    refine wp_bind_ok (ih (htick s h)) fun b s' hs' => ?_
    exact hs'

theorem wp_validatePages (pages : List Page) (h : P s) :
    wp (validatePages env pages) (post (fun _ => P) E) s :=
  wp_forM (fun _ _ s' h' => wp_ask_of (fun e => hraise e _ (htick s' h')) fun _ _ => htick s' h') h

end

/-- A result: in each layer's row the pages of the keys before the tail, then the objects of the
layer, all of them referenced and pinned once. -/
structure Resolved (PageOf : κ → Page → Prop) (LegacyOf : Key κ → Nat → Prop) (c : Call κ)
    (pageKeys : List κ) (r : List (List Obj) × Nat) (s : State κ) : Prop where
  bound : r.2 ≤ c.pageChunks
  layers : r.1.length = c.numLayers
  exact : ∀ f ∈ s.fetches, Exact f
  rows : ∃ (pages : List Page) (tail : List (List Obj)),
    r.1 = tail.map (fun layer => pages.map .page ++ layer) ∧
    Forall₂ PageOf (pageKeys.take r.2) pages ∧
    (∀ l row, tail[l]? = some row → ∃ keys, c.keysLayerMajor[l]? = some keys ∧
      Forall₂ (fun key obj => ∃ id, obj = Obj.legacy id ∧ LegacyOf key id)
        ((pageKeys.drop r.2).map (Key.layer · l) ++ keys.drop c.pageChunks) row) ∧
    s.refs.Holds (pages.map .page ++ tail.flatten) ∧
    s.pins.Holds (pages.map .page ++ tail.flatten)

/-- All is pinned. -/
structure Pinned (tail : List (List Obj)) (pages : List Page) (s : State κ) : Prop where
  refs : s.refs.Holds s.owned
  pins : s.pins.Holds s.pinned
  owned : s.owned = pages.map .page ++ tail.flatten
  pinned : s.pinned = tail.flatten ++ pages.map .page
  exact : ∀ f ∈ s.fetches, Exact f

theorem Pinned.tick (h : Pinned tail pages s) :
    Pinned tail pages { s with calls := s.calls + 1 } :=
  ⟨h.refs, h.pins, h.owned, h.pinned, h.exact⟩

theorem Pinned.stuck (h : Pinned tail pages s) :
    Stuck s :=
  ⟨h.pins, [], by rw [append_nil]; exact h.refs, fun _ => h.exact, fun _ => rfl⟩

theorem Ended.pinChecked (h : Ended PageOf LegacyOf c pageKeys tail s) :
    wp (LayerPages.pinChecked env c s.pages) (post (fun ok s' =>
      if ok then Pinned tail s.pages { s' with pinned := s'.pinned ++ s.pages.map .page }
      else Stuck s') Raised) s := by
  have hraise : ∀ e s', Ended PageOf LegacyOf c pageKeys tail s' ∧ s'.pages = s.pages →
      Raised (.raised e) s' := fun e s' h' => ⟨nofun, h'.1.stuck⟩
  unfold LayerPages.pinChecked
  rw [wp_bind]
  have htick : ∀ s', Ended PageOf LegacyOf c pageKeys tail s' ∧ s'.pages = s.pages →
      Ended PageOf LegacyOf c pageKeys tail { s' with calls := s'.calls + 1 } ∧
        s'.pages = s.pages := fun s' h' => ⟨h'.1.tick, h'.2⟩
  refine wp_ok (wp_checkPages htick hraise s.pages ⟨h, rfl⟩) fun bad s1 h1 => ?_
  rw [wp_ite]
  split
  · exact h1.1.stuck
  unfold pinPages
  rw [wp_bind, wp_ask]
  cases env.pinMany s1.calls s.pages with
  | error e => exact ⟨nofun, h1.1.tick.stuck⟩
  | ok pinned =>
    cases pinned with
    | false => exact h1.1.tick.stuck
    | true =>
      refine ⟨h1.1.refs, h1.1.pins.take _, ?_, ?_, h1.1.exact⟩
      · rw [← h1.2]
        exact h1.1.owned
      · show s1.pinned ++ _ = _
        rw [h1.1.pinned]

theorem Ended.finish (h : Ended PageOf LegacyOf c pageKeys tail s) :
    wp (LayerPages.finish env c tail s.tailStart)
      (post (fun r s' => Resolved PageOf LegacyOf c pageKeys r s') Raised) s := by
  unfold LayerPages.finish
  rw [wp_get_bind, wp_ite]
  split
  · exact ⟨nofun, h.stuck⟩
  refine wp_bind_ok h.pinChecked fun ok s1 h1 => ?_
  cases ok with
  | false => exact ⟨nofun, h1⟩
  | true =>
    have h1 : Pinned tail s.pages { s1 with pinned := s1.pinned ++ s.pages.map .page } := h1
    show wp (modify _ >>= fun _ => validatePages env s.pages >>= fun _ => pure _) (post _ _) _
    rw [wp_modify_bind, wp_bind]
    have hraise : ∀ e (s' : State κ), Pinned tail s.pages s' → Raised (.raised e) s' :=
      fun e s' h' => ⟨nofun, h'.stuck⟩
    refine wp_ok (wp_validatePages (fun s' h' => h'.tick) hraise s.pages h1) fun u s2 h2 => ?_
    refine ⟨h.bound, by rw [length_map, h.layers], h2.exact, s.pages, tail, rfl, h.pages,
      h.rows, ?_, ?_⟩
    · rw [← h2.owned]
      exact h2.refs
    · have hpins := h2.pins
      rw [h2.pinned] at hpins
      exact hpins.of_times fun x => by rw [times_append, times_append, Nat.add_comm]

/-- The block behind `try` ends with a result or holds what it owns. -/
theorem Going.resolveBody (h : Going PageOf c pageKeys s) (hs : Serves env PageOf LegacyOf)
    (hc : c.Rect) :
    wp (LayerPages.resolveBody env c pageKeys)
      (post (fun r s' => Resolved PageOf LegacyOf c pageKeys r s') Raised) s := by
  unfold LayerPages.resolveBody
  refine wp_bind_ok (h.resolveRuns hs _ (by omega)) fun u s1 h1 => ?_
  rw [wp_get_bind, wp_bind, wp_call]
  cases hkeys : (range c.numLayers).mapM (tailRow c pageKeys s1.tailStart) with
  | error e => exact h1.raised e
  | ok tailKeys =>
    refine h1.legacyTail hs hc hkeys fun tail s2 h2 htail => ?_
    rw [← htail]
    exact h2.finish

end Loop

/-! ## The whole call -/

/-- What a call comes to. -/
def Meets (env : Env κ) (c : Call κ) (PageOf : κ → Page → Prop) (LegacyOf : Key κ → Nat → Prop) :
    Prop :=
  wp (resolveSharedRank0LayerPages env c) (post
    (fun r s => ∃ pageKeys, checkedKeys c = .ok pageKeys ∧
      Resolved PageOf LegacyOf c pageKeys r s)
    fun stop s => stop ≠ .outOfFuel ∧ s.refs.Holds [] ∧ s.pins.Holds []) .start

/-- The remote gets of the call. -/
def fetchesOf (env : Env κ) (c : Call κ) : List (List κ × List Page) :=
  (resolveSharedRank0LayerPages env c .start).2.fetches

theorem length_checkedKeys {c : Call κ} {pageKeys : List κ} (h : checkedKeys c = .ok pageKeys) :
    pageKeys.length = c.pageChunks := by
  unfold checkedKeys at h
  split at h
  · cases h
  split at h
  · cases h
  split at h
  · cases h
  split at h
  · cases h
  rename_i hlen
  cases h
  exact Decidable.not_not.1 hlen

/-- On failure a call has given back all but what a get answered too few or too many pages with. -/
theorem resolve_spec {env : Env κ} {PageOf : κ → Page → Prop} {LegacyOf : Key κ → Nat → Prop}
    (hs : Serves env PageOf LegacyOf) {c : Call κ} (hc : c.Rect) :
    wp (resolveSharedRank0LayerPages env c) (post
      (fun r s => ∃ pageKeys, checkedKeys c = .ok pageKeys ∧
        Resolved PageOf LegacyOf c pageKeys r s)
      fun stop s => stop ≠ .outOfFuel ∧ s.pins.Holds [] ∧
        ∃ lost, s.refs.Holds lost ∧ (lost = [] ↔ ∀ f ∈ s.fetches, Exact f)) .start := by
  have hempty : (Ledger.empty : Ledger Obj).Holds [] := fun _ => rfl
  have hraise : ∀ n e, Stop.raised e ≠ .outOfFuel ∧ ({ State.start with calls := n } :
      State κ).pins.Holds [] ∧ ∃ lost, ({ State.start with calls := n } : State κ).refs.Holds lost ∧
        (lost = [] ↔ ∀ f ∈ ({ State.start with calls := n } : State κ).fetches, Exact f) :=
    fun n e => ⟨nofun, hempty, [], hempty, fun _ => nofun, fun _ => rfl⟩
  unfold resolveSharedRank0LayerPages
  rw [wp_bind, wp_call]
  cases hk : checkedKeys c with
  | error e => exact hraise 0 e
  | ok pageKeys =>
    rw [show (Except.ok pageKeys : Except Exc _).mapError Stop.raised = .ok pageKeys from rfl,
      post_ok, wp_bind]
    refine wp_ask_of (fun e => hraise 1 e) fun _ _ => ?_
    have hgo : Going PageOf c pageKeys ({ State.start with calls := 1 } : State κ) :=
      ⟨length_checkedKeys hk, hempty, hempty, rfl, rfl, Nat.zero_le _, .nil, nofun⟩
    refine hgo.localRun hs rfl (fun e => hraise 2 e) fun p s1 h1 _ => ?_
    rw [wp_tryCatch]
    refine wp_mono (h1.resolveBody hs hc) ?_
    rintro (stop | r) s2 h2
    · obtain ⟨hfuel, hstuck⟩ := h2
      obtain ⟨lost, hlost, hiff⟩ := hstuck.refs
      rw [post_error, wp_bind]
      unfold unwind
      rw [wp_modify, post_ok, wp_throw, post_error]
      refine ⟨hfuel, ?_, lost, ?_, hiff⟩
      · exact Ledger.Balanced.give hstuck.pins fun x => by
          rw [times_perm (reverse_perm s2.pinned)]
          exact (Nat.zero_add _).symm
      · exact Ledger.Balanced.give hlost fun x => by rw [times_append, Nat.add_comm]
    · exact ⟨pageKeys, rfl, h2⟩

/-- A call returns the rows with all their objects pinned once, or gives back all references and
pins, exactly if each remote get answered with as many pages as keys, or with none. -/
theorem layer_pages_resolved {env : Env κ} {PageOf : κ → Page → Prop}
    {LegacyOf : Key κ → Nat → Prop} (hs : Serves env PageOf LegacyOf) {c : Call κ} (hc : c.Rect) :
    Meets env c PageOf LegacyOf ↔ ∀ f ∈ fetchesOf env c, Exact f := by
  have hspec := resolve_spec hs hc
  unfold Meets fetchesOf
  unfold wp at hspec ⊢
  generalize resolveSharedRank0LayerPages env c .start = out at hspec ⊢
  rcases out with ⟨stop | r, s⟩
  · obtain ⟨hfuel, hpins, lost, hrefs, hlost⟩ := hspec
    show (stop ≠ .outOfFuel ∧ s.refs.Holds [] ∧ s.pins.Holds []) ↔ _
    rw [← hlost]
    constructor
    · rintro ⟨_, hnone, _⟩
      have hlost' : s.refs.Holds ([] ++ lost) := hrefs
      exact hnone.eq_nil hlost'
    · rintro rfl
      exact ⟨hfuel, hrefs, hpins⟩
  · obtain ⟨pageKeys, _, hres⟩ := hspec
    exact ⟨fun _ => hres.exact, fun _ => ⟨pageKeys, ‹_›, hres⟩⟩

/-! ## Two runs -/

def pageAt (key : Nat) : Page := ⟨key, 4, 2, [4]⟩

def legacyAt : Key Nat → Nat
  | .page key => key
  | .layer key layerId => 10 * key + layerId

/-- A connector that knows no groups. -/
def ungrouped : Metadata where
  layerBytes := none
  useMla := false
  dsaTwoGroups := false
  hiddenDimSizes := []
  getShape := some fun tokens group =>
    if group.isNone then .ok [tokens] else .error (.typeError "unexpected keyword argument")
  dtypeAndFormat _ := .ok ()
  base _ _ := .error (.external "no shape")

/-- The even keys are in the local tier, the others in the remote one, which answers with the pages
of the first `most` keys; key 3 is there as objects of its layers. -/
def turns (most : Nat) : Env Nat where
  sharedLocalCpuBackend _ := .ok ()
  batchedGetLayerPagePrefix _ keys :=
    let found := keys.takeWhile fun key => key % 2 = 0
    .ok (found.map pageAt, found.length)
  containsAllExact _ keys := .ok (keys = splitLayers 3 2)
  supportsPages _ := true
  batchedContainsLayerPages _ keys := .ok (keys.takeWhile fun key => key % 2 = 1 ∨ 3 < key).length
  batchedGetLayerPages _ keys := .ok ((keys.take most).map pageAt)
  pageFirstLayers _ rows := .ok (rows.map fun row => row.map legacyAt)
  metadata _ := ungrouped
  pinMany _ _ := .ok true
  validate _ _ _ := .ok ()

theorem turns_serves (most : Nat) :
    Serves (turns most) (fun key p => p = pageAt key) fun key id => id = legacyAt key where
  prefixed := by
    intro n keys pages count h
    cases h
    refine ⟨(List.takeWhile_prefix _).length_le, ?_⟩
    rw [← prefix_iff_eq_take.1 (List.takeWhile_prefix _), forall₂_map_right_iff]
    exact forall₂_same.2 fun _ _ => rfl
  fetched := by
    intro n keys pages h hlen
    cases h
    rw [length_map, length_take] at hlen
    rw [take_of_length_le (by omega), forall₂_map_right_iff]
    exact forall₂_same.2 fun _ _ => rfl
  resolved := by
    intro n rows tail h
    cases h
    rw [forall₂_map_right_iff]
    refine forall₂_same.2 fun row _ => ?_
    rw [forall₂_map_right_iff]
    exact forall₂_same.2 fun _ _ => rfl

/-- Keys `0` to `n - 1` in two layers, the first `pageChunks` of them as pages. -/
def twoLayers (n pageChunks : Nat) : Call Nat where
  kvGroup := 0
  numLayers := 2
  keysLayerMajor := (range 2).map fun l => (range n).map (Key.layer · l)
  pageChunks := pageChunks
  basePageKeys := none

theorem twoLayers_rect (n pageChunks : Nat) : (twoLayers n pageChunks).Rect where
  layers := rfl
  rows := by
    intro row hrow row' hrow'
    obtain ⟨l, _, rfl⟩ := mem_map.1 hrow
    obtain ⟨l', _, rfl⟩ := mem_map.1 hrow'
    rw [length_map, length_map]

instance (f : List κ × List Page) : Decidable (Exact f) := inferInstanceAs (Decidable (_ ∨ _))

/-- A local page, a remote one, a local one, and two keys in the tail. -/
theorem turns_resolved :
    (resolveSharedRank0LayerPages (turns 2) (twoLayers 5 4) .start).1 =
      .ok ([[.page (pageAt 0), .page (pageAt 1), .page (pageAt 2), .legacy 30, .legacy 40],
        [.page (pageAt 0), .page (pageAt 1), .page (pageAt 2), .legacy 31, .legacy 41]], 3) ∧
    Meets (turns 2) (twoLayers 5 4) (fun key p => p = pageAt key)
      fun key id => id = legacyAt key :=
  ⟨by decide, (layer_pages_resolved (turns_serves 2) (twoLayers_rect 5 4)).2 (by decide)⟩

/-- Two pages of the remote tier. -/
def remoteCall : Call Nat :=
  ⟨0, 2, (range 2).map fun l => [5, 7].map (Key.layer · l), 2, none⟩

/-- A get of two pages answers with one of them, which is not given back. -/
theorem short_get_lost :
    (resolveSharedRank0LayerPages (turns 1) remoteCall .start).1 =
      .error (.raised (.valueError "Remote layer-page result count is inconsistent")) ∧
    ¬ Meets (turns 1) remoteCall (fun key p => p = pageAt key) fun key id => id = legacyAt key := by
  refine ⟨by decide, fun h => ?_⟩
  have hrun : resolveSharedRank0LayerPages (turns 1) remoteCall .start =
      (.error (.raised (.valueError "Remote layer-page result count is inconsistent")),
        (⟨5, ⟨[.page (pageAt 5)], []⟩, ⟨[], []⟩, [], [], [], 0, [([5, 7], [pageAt 5])]⟩ :
          State Nat)) := rfl
  unfold Meets wp at h
  rw [hrun] at h
  have hlost := h.2.1 (.page (pageAt 5))
  revert hlost
  decide

end LayerPages
