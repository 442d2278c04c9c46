import Mathlib.Data.List.Count
import LMCacheAscend.Lib.Tiles
import LMCacheAscend.Checkpoint.Acquire

/-!
# What an acquire returns

`Refs s`: every reference taken is given back or held by a group list, a plan or
the open window.  The two local loops cover what they walk (`acquireGroup_spec`,
`windowSources_spec`); the plans of a spilled record are linked windows
(`Linked`), so the pages collected from them cover the range up to the cursor.
-/

namespace Checkpoint

open Lib List

variable {κ : Type} {env : AcquireEnv κ} {s : AcquireState κ}

/-! ## References -/

def planPages (l : List (Plan κ)) : List Page := l.flatMap (heldPages ·.held)

/-- References that are held somewhere. -/
def AcquireState.owned (s : AcquireState κ) (p : Page) : Nat :=
  (heldPages s.groups.1).count p + (heldPages s.groups.2).count p +
    (planPages s.plans.1).count p + (planPages s.plans.2).count p + (heldPages s.window).count p

def Refs (s : AcquireState κ) : Prop := ∀ p, s.taken.count p = s.released.count p + s.owned p

variable (l : List (HeldPage κ)) (group : Nat) {α : Type} (p : α × α) {page : Page}
variable {s' : AcquireState κ} {e : HeldPage κ} {c : Int} {all : List (CheckpointPage κ)}
variable {rest : List (Plan κ)} {plan : Plan κ} {ds : List (CheckpointPage κ)}
variable (m : LocalCheckpoint κ)

theorem heldPages_append (m : List (HeldPage κ)) :
    heldPages (l ++ m) = heldPages l ++ heldPages m :=
  map_append

theorem planPages_append (l m : List (Plan κ)) : planPages (l ++ m) = planPages l ++ planPages m :=
  flatMap_append

@[simp] theorem ofGroup_setGroup (group : Nat) (a : α) :
    ofGroup (setGroup p group a) group = a := by
  unfold ofGroup setGroup
  split <;> rfl

/-- A page that a call handed over is held by the caller. -/
def RefsPlus (page : Page) (s : AcquireState κ) : Prop :=
  ∀ p, s.taken.count p = s.released.count p + s.owned p + [page].count p

/-- `s'` differs from `s` in its call counter and its reference log only. -/
structure SameLists (s s' : AcquireState κ) : Prop where
  groups : s'.groups = s.groups
  plans : s'.plans = s.plans
  window : s'.window = s.window

theorem callPage_spec (f : Nat → Except PyError (Option Page)) (h : Refs s) :
    wp (callPage f) (post (fun r s' => SameLists s s' ∧ match r with
        | none => Refs s'
        | some page => RefsPlus page s')
      fun _ s' => SameLists s s' ∧ Refs s') s := by
  unfold callPage
  simp only [wp_bind, wp_get, post_ok, wp_modify]
  cases f s.calls with
  | error e => exact ⟨⟨rfl, rfl, rfl⟩, h⟩
  | ok r =>
    cases r with
    | none => exact ⟨⟨rfl, rfl, rfl⟩, h⟩
    | some page =>
      simp only [wp_bind, wp_modify, post_ok, wp_pure]
      refine ⟨⟨rfl, rfl, rfl⟩, fun p => ?_⟩
      have := h p
      simp only [AcquireState.owned, count_append] at this ⊢
      omega

theorem owned_hold (s : AcquireState κ) (group : Nat) (l : List (HeldPage κ)) (p : Page) :
    (s.hold group l).owned p = s.owned p + (heldPages l).count p := by
  unfold AcquireState.owned AcquireState.hold setGroup ofGroup
  split
  all_goals
    simp only [heldPages_append, count_append]
    omega

theorem RefsPlus.hold (h : RefsPlus page s) (group : Nat) (source : CheckpointPage κ)
    (remote : Bool) : Refs (s.hold group [⟨source, page, remote⟩]) := by
  intro p
  have := h p
  rw [owned_hold]
  change s.taken.count p = s.released.count p + _
  simp only [heldPages, map_cons, map_nil]
  omega

theorem RefsPlus.window (h : RefsPlus page s) (source : CheckpointPage κ) :
    Refs { s with window := s.window ++ [⟨source, page, false⟩] } := by
  intro p
  have := h p
  simp only [AcquireState.owned, heldPages, map_append, map_cons, map_nil,
    count_append] at this ⊢
  omega

theorem Refs.releaseGroups (h : Refs s) : Refs s.releaseGroups := by
  intro p
  have := h p
  simp only [AcquireState.releaseGroups, AcquireState.owned, count_append, heldPages,
    map_nil, count_nil] at this ⊢
  omega

theorem Refs.releasePlans (h : Refs s) : Refs s.releasePlans := by
  intro p
  have := h p
  simp only [AcquireState.releasePlans, AcquireState.owned, count_append, planPages,
    flatMap_nil, heldPages, map_nil, count_nil] at this ⊢
  omega

theorem heldPages_trim (q : HeldPage κ → Bool) (p : Page) :
    (heldPages (l.rtakeWhile q)).count p + (heldPages (l.rdropWhile q)).count p =
      (heldPages l).count p := by
  have := congrArg (fun l => (heldPages l).count p) (rdropWhile_append_rtakeWhile (p := q)
    (l := l))
  simp only [heldPages_append, count_append] at this
  omega

theorem Refs.trim (h : Refs s) (common : Int) : Refs (s.trim common) := by
  intro p
  have := h p
  have h1 := heldPages_trim s.groups.1 (fun h => h.source.start ≥ common) p
  have h2 := heldPages_trim s.groups.2 (fun h => h.source.start ≥ common) p
  simp only [AcquireState.trim, AcquireState.owned, count_append] at this ⊢
  omega

theorem Refs.dropWindow (h : Refs s) (key : κ) : Refs (s.dropWindow key) := by
  intro p
  have := h p
  simp only [AcquireState.dropWindow, AcquireState.owned, count_append, heldPages,
    map_nil, count_nil] at this ⊢
  omega

theorem Refs.closeWindow (h : Refs s) (group : Nat) (descriptor : CheckpointPage κ)
    (right : Int) : Refs (s.closeWindow group descriptor right) := by
  intro p
  have := h p
  have hone : planPages [⟨descriptor, s.window, right⟩] = heldPages s.window := by
    simp [planPages]
  simp only [AcquireState.closeWindow, AcquireState.owned, setGroup, ofGroup] at this ⊢
  split
  all_goals
    simp only [planPages_append, count_append, hone, heldPages, map_nil,
      count_nil] at this ⊢
    omega

theorem Refs.popPlan (h : Refs s) {group : Nat} {plan : Plan κ} {rest : List (Plan κ)}
    (hp : ofGroup s.plans group = plan :: rest) : Refs (s.popPlan group plan) := by
  intro p
  have := h p
  have hh := owned_hold s group plan.held p
  simp only [AcquireState.popPlan, AcquireState.owned, AcquireState.hold] at this hh ⊢
  rw [hp]
  unfold ofGroup at hp
  unfold setGroup at hh ⊢
  split at hp
  · next hg =>
    simp only [hg, if_true, hp, tail_cons, planPages, flatMap_cons,
      count_append] at this hh ⊢
    omega
  · next hg =>
    simp only [hg, if_false, hp, tail_cons, planPages, flatMap_cons,
      count_append] at this hh ⊢
    omega

/-! ## The local loops -/

def ranges (l : List (HeldPage κ)) : List (Int × Int) := l.map HeldPage.range

theorem ranges_append (m : List (HeldPage κ)) : ranges (l ++ m) = ranges l ++ ranges m :=
  map_append

@[simp] theorem setGroup_setGroup (group : Nat) (a b : α) :
    setGroup (setGroup p group a) group b = setGroup p group b := by
  unfold setGroup
  split <;> rfl

@[simp] theorem setGroup_ofGroup (group : Nat) :
    setGroup p group (ofGroup p group) = p := by
  unfold setGroup ofGroup
  split <;> rfl

/-- `new` joined the list of the group; plans and window are as they were. -/
structure Grown (group : Nat) (s s' : AcquireState κ) (new : List (HeldPage κ)) : Prop where
  refs : Refs s'
  groups : s'.groups = setGroup s.groups group (ofGroup s.groups group ++ new)
  plans : s'.plans = s.plans
  window : s'.window = s.window

theorem Grown.of_same (h : Refs s') (hs : SameLists s s') :
    Grown group s s' [] :=
  ⟨h, by rw [hs.groups]; simp, hs.plans, hs.window⟩

theorem Grown.trans {group : Nat} {s1 s2 s3 : AcquireState κ} {l m : List (HeldPage κ)}
    (h : Grown group s1 s2 l) (h' : Grown group s2 s3 m) : Grown group s1 s3 (l ++ m) :=
  ⟨h'.refs, by rw [h'.groups, h.groups]; simp, h'.plans.trans h.plans, h'.window.trans h.window⟩

theorem Grown.of_hold (hs : SameLists s s') (h : RefsPlus page s') (group : Nat)
    (source : CheckpointPage κ) (remote : Bool) :
    Grown group s (s'.hold group [⟨source, page, remote⟩]) [⟨source, page, remote⟩] := by
  refine ⟨h.hold group source remote, ?_, hs.plans, hs.window⟩
  change setGroup s'.groups group _ = _
  rw [hs.groups]

/-- Raw pages of some of the sources, in their order. -/
structure AllRaw (new : List (HeldPage κ)) (sources : List (CheckpointPage κ)) : Prop where
  raw : ∀ h ∈ new, h.remote = false
  sublist : (new.map HeldPage.source).Sublist sources

theorem AllRaw.nil (sources : List (CheckpointPage κ)) :
    AllRaw ([] : List (HeldPage κ)) sources :=
  ⟨(fun _ h => nomatch h), nil_sublist sources⟩

theorem AllRaw.cons {new : List (HeldPage κ)} {sources : List (CheckpointPage κ)}
    {source : CheckpointPage κ} (h : AllRaw new sources) :
    AllRaw (⟨source, page, false⟩ :: new) (source :: sources) := by
  refine ⟨?_, h.sublist.cons_cons source⟩
  rintro e (he | ⟨he⟩)
  · rfl
  · next he => exact h.raw e he

theorem AllRaw.mono {new : List (HeldPage κ)} {l m : List (CheckpointPage κ)} (h : AllRaw new l)
    (hlm : l.Sublist m) : AllRaw new m :=
  ⟨h.raw, h.sublist.trans hlm⟩

theorem AllRaw.mem {new : List (HeldPage κ)} {sources : List (CheckpointPage κ)}
    (h : AllRaw new sources) (he : e ∈ new) : e.source ∈ sources :=
  h.sublist.subset (mem_map_of_mem he)

/-- The pages are not empty, and each ends behind the cursor. -/
def AllPast (new : List (HeldPage κ)) (cursor : Int) : Prop :=
  ∀ h ∈ new, h.source.start < h.source.end_ ∧ cursor < h.source.end_

theorem AllPast.nil (cursor : Int) : AllPast ([] : List (HeldPage κ)) cursor :=
  fun _ h => nomatch h

theorem AllPast.cons {new : List (HeldPage κ)} {cursor : Int} (h : AllPast new c)
    (hc : cursor ≤ c) (he : e.source.start < e.source.end_ ∧ cursor < e.source.end_) :
    AllPast (e :: new) cursor := by
  rintro d (hd | ⟨hd⟩)
  · exact he
  · next hd =>
    have := h d hd
    omega

theorem AllPast.append {new more : List (HeldPage κ)} {cursor : Int} (h : AllPast new cursor)
    (hmore : AllPast more c) (hc : cursor ≤ c) : AllPast (new ++ more) cursor := by
  intro d hd
  rcases mem_append.1 hd with hd | hd
  · exact h d hd
  · have := hmore d hd
    omega

/-- The lists that an exception leaves. -/
structure Unwound (s s' : AcquireState κ) : Prop where
  refs : Refs s'
  plans : s'.plans = s.plans
  window : s'.window = s.window

variable (end_ : Int) {plans : List (Plan κ)}

theorem acquireGroup_spec (sources : List (CheckpointPage κ)) (cursor : Int) (h : Refs s) :
    wp (acquireGroup env group end_ sources cursor) (post
      (fun c s' => ∃ new, Grown group s s' new ∧ Covers (ranges new) cursor c ∧
        AllRaw new sources ∧ AllPast new cursor)
      fun _ s' => Unwound s s') s := by
  induction sources generalizing cursor s with
  | nil => exact ⟨[], .of_same group h ⟨rfl, rfl, rfl⟩, Int.le_refl cursor, .nil _, .nil _⟩
  | cons source rest ih =>
    unfold acquireGroup
    split
    · refine wp_ok (ih cursor h) fun c s' h' => ?_
      obtain ⟨new, hg, hcov, hraw, hpast⟩ := h'
      exact ⟨new, hg, hcov, hraw.mono (sublist_cons_self _ _), hpast⟩
    · split
      · exact ⟨[], .of_same group h ⟨rfl, rfl, rfl⟩, Int.le_refl cursor, .nil _, .nil _⟩
      · next hpast hstop =>
        refine wp_bind_of (callPage_spec _ h)
          (fun _ _ ⟨hsame, hr⟩ => ⟨hr, hsame.plans, hsame.window⟩) fun r s1 ⟨hsame, hr⟩ => ?_
        cases r with
        | none =>
          exact ⟨[], .of_same group hr hsame, Int.le_refl cursor, .nil _, .nil _⟩
        | some page =>
          have hone := Grown.of_hold hsame hr group source false
          simp only [post_ok, wp_bind, wp_modify]
          refine wp_cases (ih (min source.end_ end_) hone.refs)
            (fun _ _ h2 => ⟨h2.refs, h2.plans.trans hone.plans, h2.window.trans hone.window⟩) ?_
          rintro c s2 h2
          obtain ⟨new, hg, hcov, hraw, hrest⟩ := h2
          refine ⟨_, hone.trans hg, ⟨?_, hcov.mono ?_ (Int.le_refl c)⟩, hraw.cons,
            hrest.cons ?_ ?_⟩
          · change source.start ≤ cursor
            omega
          · change min source.end_ end_ ≤ max cursor source.end_
            omega
          · omega
          · change source.start < source.end_ ∧ cursor < source.end_
            omega

/-- The pages start in the window that ends at `right`. -/
def AllInWindow (new : List (HeldPage κ)) (right : Int) : Prop :=
  ∀ h ∈ new, h.source.start < right

/-- `new` joined the open window. -/
structure Filled (s s' : AcquireState κ) (new : List (HeldPage κ)) : Prop where
  refs : Refs s'
  groups : s'.groups = s.groups
  plans : s'.plans = s.plans
  window : s'.window = s.window ++ new

theorem Filled.of_same (h : Refs s') (hs : SameLists s s') :
    Filled s s' [] :=
  ⟨h, hs.groups, hs.plans, by rw [hs.window, append_nil]⟩

/-- The raw pages of a window, from the cursor on. -/
theorem windowSources_spec (right : Int) (sources : List (CheckpointPage κ)) (cursor : Int)
    (h : Refs s) :
    wp (windowSources env group right sources cursor) (post
      (fun r s' => ∃ new, Filled s s' new ∧ Covers (ranges new) cursor r.1 ∧
        AllRaw new sources ∧ AllPast new cursor ∧ AllInWindow new right ∧ r.2.Sublist sources)
      fun _ s' => Refs s') s := by
  induction sources generalizing cursor s with
  | nil =>
    exact ⟨[], .of_same h ⟨rfl, rfl, rfl⟩, Int.le_refl cursor, .nil _, .nil _,
      (fun _ he => nomatch he), .slnil⟩
  | cons source rest ih =>
    have hstop : ∀ s' : AcquireState κ, Refs s' → SameLists s s' → ∃ new, Filled s s' new ∧
        Covers (ranges new) cursor cursor ∧ AllRaw new (source :: rest) ∧ AllPast new cursor ∧
        AllInWindow new right ∧ (source :: rest).Sublist (source :: rest) := fun s' hr hs =>
      ⟨[], .of_same hr hs, Int.le_refl cursor, .nil _, .nil _, (fun _ he => nomatch he), .refl _⟩
    unfold windowSources
    split
    · refine wp_ok (ih cursor h) fun r s' h' => ?_
      obtain ⟨new, hf, hcov, hraw, hpast, hin, hsub⟩ := h'
      exact ⟨new, hf, hcov, hraw.mono (sublist_cons_self _ _), hpast, hin, hsub.cons source⟩
    · split
      · exact hstop s h ⟨rfl, rfl, rfl⟩
      · next hpast hopen =>
        refine wp_bind_of (callPage_spec _ h) (fun _ _ ⟨hsame, hr⟩ => hr) fun r s1 ⟨hsame, hr⟩ => ?_
        cases r with
        | none => exact hstop s1 hr hsame
        | some page =>
          simp only [post_ok, wp_bind, wp_modify]
          have hlong : source.start < source.end_ ∧ cursor < source.end_ := by omega
          have hstart : source.start ≤ cursor := by omega
          have hin1 : source.start < right := by omega
          have hrefs := hr.window source
          split
          · refine wp_ok (ih source.end_ hrefs) fun r s2 h2 => ?_
            obtain ⟨new, hf, hcov, hraw, hrest, hin, hsub⟩ := h2
            refine ⟨⟨source, page, false⟩ :: new, ⟨hf.refs, hf.groups.trans hsame.groups,
              hf.plans.trans hsame.plans, ?_⟩, ⟨hstart, hcov.mono ?_ (Int.le_refl _)⟩,
              hraw.cons, hrest.cons (Int.le_of_lt hlong.2) hlong, ?_, hsub.cons source⟩
            · rw [hf.window, hsame.window]
              simp
            · change source.end_ ≤ max cursor source.end_
              omega
            · rintro e (he | ⟨he⟩)
              · exact hin1
              · next he => exact hin e he
          · rw [wp_pure, post_ok]
            refine ⟨[⟨source, page, false⟩], ⟨hrefs, hsame.groups, hsame.plans,
              by rw [hsame.window]⟩, ?_, (AllRaw.nil rest).cons,
              (AllPast.nil cursor).cons (Int.le_refl cursor) hlong, ?_, .refl _⟩
            · exact Covers.singleton hstart (by change right ≤ source.end_; omega)
            · intro e he
              cases mem_singleton.1 he
              exact hin1

/-! ## Linked windows -/

def pageRange (d : CheckpointPage κ) : Int × Int := (d.start, d.end_)

/-- A plan whose window starts at `cursor`. -/
structure PlanOk (sources : List (CheckpointPage κ)) (cursor : Int) (plan : Plan κ) : Prop where
  start : plan.descriptor.start ≤ cursor
  right : cursor < plan.right
  end_ : plan.right ≤ plan.descriptor.end_
  covers : plan.held = [] ∨ Covers (ranges plan.held) cursor plan.right
  raw : AllRaw plan.held sources
  past : AllPast plan.held cursor
  window : AllInWindow plan.held plan.descriptor.end_

/-- The windows of the plans follow each other from the cursor on. -/
def Linked (sources : List (CheckpointPage κ)) : List (Plan κ) → Int → Prop
  | [], _ => True
  | plan :: rest, cursor => PlanOk sources cursor plan ∧ Linked sources rest plan.right

/-- `new` joined the plans of the group; no window is open. -/
structure Planned (group : Nat) (s s' : AcquireState κ) (new : List (Plan κ)) : Prop where
  refs : Refs s'
  groups : s'.groups = s.groups
  plans : s'.plans = setGroup s.plans group (ofGroup s.plans group ++ new)
  window : s'.window = []

theorem Planned.refl (h : Refs s) (hw : s.window = []) : Planned group s s [] :=
  ⟨h, rfl, by simp, hw⟩

theorem Planned.trans {group : Nat} {s1 s2 s3 : AcquireState κ} {l m : List (Plan κ)}
    (h : Planned group s1 s2 l) (h' : Planned group s2 s3 m) : Planned group s1 s3 (l ++ m) :=
  ⟨h'.refs, h'.groups.trans h.groups, by rw [h'.plans, h.plans]; simp, h'.window⟩

/-- The window of a descriptor is planned: with its raw pages when they reach its
end, else without any. -/
theorem planned_window {new : List (HeldPage κ)} (hw : s.window = []) (hf : Filled s s' new)
    (descriptor : CheckpointPage κ) (cursor right : Int) :
    Planned group s
      ((if cursor ≠ right then s'.dropWindow descriptor.key else s').closeWindow group descriptor
        right)
      [⟨descriptor, if cursor = right then new else [], right⟩] := by
  have hnew : s'.window = new := by rw [hf.window, hw, nil_append]
  by_cases hc : cursor = right
  · rw [if_neg (not_not.2 hc), if_pos hc]
    refine ⟨hf.refs.closeWindow group descriptor right, hf.groups, ?_, rfl⟩
    change setGroup s'.plans group (ofGroup s'.plans group ++ [⟨descriptor, s'.window, right⟩]) = _
    rw [hf.plans, hnew]
  · rw [if_pos hc, if_neg hc]
    refine ⟨(hf.refs.dropWindow descriptor.key).closeWindow group descriptor right, hf.groups,
      ?_, rfl⟩
    change setGroup s'.plans group (ofGroup s'.plans group ++ [⟨descriptor, [], right⟩]) = _
    rw [hf.plans]

/-- The plans of a group are linked and take the descriptors in order. -/
theorem planGroup_spec (prefixEnd end_ : Int) {b : Int}
    (descriptors sources : List (CheckpointPage κ)) (a : Int) (hsub : sources.Sublist all)
    (hd : Chain (descriptors.map pageRange) a b) (h : Refs s) (hw : s.window = []) :
    wp (planGroup env group prefixEnd end_ descriptors sources) (post
      (fun _ s' => ∃ new, Planned group s s' new ∧
        Linked all new (max prefixEnd (min end_ a)) ∧ (new.map Plan.descriptor).Sublist descriptors)
      fun _ s' => Refs s') s := by
  induction descriptors generalizing s sources a with
  | nil => exact ⟨[], .refl group h hw, trivial, .slnil⟩
  | cons d rest ih =>
    obtain ⟨ha, hlt, hrest⟩ := hd
    change d.start = a at ha
    change d.start < d.end_ at hlt
    change Chain (rest.map pageRange) d.end_ b at hrest
    unfold planGroup
    simp only
    split
    · next hskip =>
      have hcur : max prefixEnd (min end_ d.end_) = max prefixEnd (min end_ a) := by omega
      refine wp_ok (ih sources d.end_ hsub hrest h hw) fun u s' h' => ?_
      obtain ⟨new, hp, hl, hs⟩ := h'
      exact ⟨new, hp, hcur ▸ hl, hs.cons d⟩
    · next hopen =>
      have hleft : max prefixEnd (min end_ a) = max prefixEnd d.start := by omega
      have hright : max prefixEnd (min end_ d.end_) = min end_ d.end_ := by omega
      refine wp_bind_ok (windowSources_spec group _ sources _ h) ?_
      rintro ⟨cursor, left⟩ s1 h1
      obtain ⟨new, hf, hcov, hraw, hpast, hin, hsl⟩ := h1
      simp only [post_ok, wp_bind, wp_modify]
      have hone := planned_window group hw hf d cursor (min end_ d.end_)
      refine wp_ok (ih left d.end_ (hsl.trans hsub) hrest hone.refs hone.window) fun u s2 h2 => ?_
      obtain ⟨plans, hp, hl, hs⟩ := h2
      rw [hright] at hl
      -- the window keeps its raw pages only when they reach its end
      have hkept : ∀ P : List (HeldPage κ) → Prop, P new → P [] →
          P (if cursor = min end_ d.end_ then new else []) := by
        intro P hnew hnil
        split
        · exact hnew
        · exact hnil
      refine ⟨_, hone.trans hp, ⟨⟨?_, ?_, Int.min_le_right _ _, ?_, ?_, ?_, ?_⟩, hl⟩,
        hs.cons_cons d⟩
      · change d.start ≤ _
        omega
      · change _ < min end_ d.end_
        omega
      · change (if cursor = _ then new else []) = [] ∨ _
        split
        · next hc =>
          rw [hleft]
          exact .inr (by simpa [hc] using hcov)
        · exact .inl rfl
      · exact hkept (AllRaw · all) (hraw.mono hsub) (.nil all)
      · rw [hleft]
        exact hkept (AllPast · _) hpast (.nil _)
      · refine hkept (AllInWindow · d.end_) (fun e he => ?_) fun _ he => absurd he not_mem_nil
        have := hin e he
        change e.source.start < d.end_
        omega

/-! ## Collecting the windows -/

/-- `new` joined the list of the group, whose plans in front are gone. -/
structure Collected (group : Nat) (s s' : AcquireState κ) (new : List (HeldPage κ)) : Prop where
  refs : Refs s'
  groups : s'.groups = setGroup s.groups group (ofGroup s.groups group ++ new)
  plans : ∃ rest, s'.plans = setGroup s.plans group rest
  window : s'.window = s.window

theorem Collected.of_same (h : Refs s') (hs : SameLists s s') : Collected group s s' [] :=
  ⟨h, by rw [hs.groups]; simp, ⟨ofGroup s.plans group, by rw [hs.plans]; simp⟩, hs.window⟩

theorem Collected.trans {group : Nat} {s1 s2 s3 : AcquireState κ} {l m : List (HeldPage κ)}
    (h : Collected group s1 s2 l) (h' : Collected group s2 s3 m) :
    Collected group s1 s3 (l ++ m) := by
  obtain ⟨rest, hr⟩ := h.plans
  obtain ⟨rest', hr'⟩ := h'.plans
  exact ⟨h'.refs, by rw [h'.groups, h.groups]; simp, ⟨rest', by rw [hr', hr]; simp⟩,
    h'.window.trans h.window⟩

/-- The pages that the plans give from one cursor to another: the raw pages of a
window that has them, else its remote page. -/
inductive Drawn : List (Plan κ) → Int → List (HeldPage κ) → Int → Prop
  | stop (plans : List (Plan κ)) (cursor : Int) : Drawn plans cursor [] cursor
  | raw {plan : Plan κ} {rest : List (Plan κ)} {cursor c : Int} {new : List (HeldPage κ)} :
    plan.held ≠ [] → Drawn rest plan.right new c → Drawn (plan :: rest) cursor (plan.held ++ new) c
  | remote {plan : Plan κ} {rest : List (Plan κ)} {cursor c : Int} {new : List (HeldPage κ)}
    (page : Page) : Drawn rest plan.right new c →
      Drawn (plan :: rest) cursor (⟨plan.descriptor, page, true⟩ :: new) c

theorem Collected.of_pop {s0 : AcquireState κ} {group : Nat} (hs : SameLists s0 s) (h : Refs s)
    (hp : ofGroup s0.plans group = plan :: rest) :
    Collected group s0 (s.popPlan group plan) plan.held ∧
      ofGroup (s.popPlan group plan).plans group = rest := by
  have htail : (ofGroup s.plans group).tail = rest := by rw [hs.plans, hp, tail_cons]
  have hplans : (s.popPlan group plan).plans = setGroup s0.plans group rest := by
    change setGroup s.plans group (ofGroup s.plans group).tail = _
    rw [htail, hs.plans]
  refine ⟨⟨h.popPlan (by rw [hs.plans, hp]), ?_, ⟨rest, hplans⟩, hs.window⟩, ?_⟩
  · change setGroup s.groups group (ofGroup s.groups group ++ plan.held) = _
    rw [hs.groups]
  · rw [hplans, ofGroup_setGroup]

theorem Collected.of_load {s0 : AcquireState κ} {group : Nat} (hs : SameLists s0 s)
    (h : RefsPlus page s) (hheld : plan.held = []) (hp : ofGroup s0.plans group = plan :: rest) :
    Collected group s0 ((s.popPlan group plan).hold group [⟨plan.descriptor, page, true⟩])
        [⟨plan.descriptor, page, true⟩] ∧
      ofGroup ((s.popPlan group plan).hold group [⟨plan.descriptor, page, true⟩]).plans group =
        rest := by
  have hpop : s.popPlan group plan =
      { s with plans := setGroup s.plans group (ofGroup s.plans group).tail } := by
    simp only [AcquireState.popPlan, AcquireState.hold, hheld, append_nil, setGroup_ofGroup]
  have htail : (ofGroup s.plans group).tail = rest := by rw [hs.plans, hp, tail_cons]
  have hdrop : RefsPlus page (s.popPlan group plan) := by
    intro p
    have := h p
    rw [hpop]
    have howned : ({ s with plans := setGroup s.plans group (ofGroup s.plans group).tail } :
        AcquireState κ).owned p = s.owned p := by
      rw [← hs.plans] at hp
      unfold ofGroup at hp
      unfold AcquireState.owned ofGroup setGroup
      split at hp <;> next hg => simp [hg, hp, planPages, hheld, heldPages]
    rw [howned]
    exact this
  refine ⟨⟨hdrop.hold group plan.descriptor true, ?_, ⟨rest, ?_⟩, ?_⟩, ?_⟩
  · rw [hpop]
    change setGroup s.groups group (ofGroup s.groups group ++ _) = _
    rw [hs.groups]
  · rw [hpop]
    change setGroup s.plans group (ofGroup s.plans group).tail = _
    rw [htail, hs.plans]
  · rw [hpop]
    exact hs.window
  · rw [hpop]
    change ofGroup (setGroup s.plans group (ofGroup s.plans group).tail) group = _
    rw [ofGroup_setGroup, htail]

theorem collectGroup_spec [DecidableEq κ] (present : Dict κ Bool) (probe : Bool) (group : Nat)
    (plans : List (Plan κ)) (cursor : Int) (h : Refs s) (hp : ofGroup s.plans group = plans) :
    wp (collectGroup env present probe group plans cursor) (post
      (fun c s' => ∃ new, Collected group s s' new ∧ (probe = false → Drawn plans cursor new c))
      fun _ s' => Refs s') s := by
  induction plans generalizing cursor s with
  | nil => exact ⟨[], .of_same group h ⟨rfl, rfl, rfl⟩, fun _ => .stop [] cursor⟩
  | cons plan rest ih =>
    have hstop : ∀ s', Refs s' → SameLists s s' → ∃ new, Collected group s s' new ∧
        (probe = false → Drawn (plan :: rest) cursor new cursor) := fun s' hr hs =>
      ⟨[], .of_same group hr hs, fun _ => .stop _ cursor⟩
    unfold collectGroup
    split
    · next hheld =>
      obtain ⟨hone, hrest⟩ := Collected.of_pop ⟨rfl, rfl, rfl⟩ h hp
      simp only [wp_bind, wp_modify, post_ok]
      refine wp_ok (ih plan.right hone.refs hrest) fun c s' h' => ?_
      obtain ⟨new, hc, hd⟩ := h'
      exact ⟨_, hone.trans hc, fun hpr => .raw hheld (hd hpr)⟩
    · next hheld =>
      rw [not_not] at hheld
      split
      · exact hstop s h ⟨rfl, rfl, rfl⟩
      split
      · next hprobe =>
        obtain ⟨hone, hrest⟩ := Collected.of_pop ⟨rfl, rfl, rfl⟩ h hp
        simp only [wp_bind, wp_modify, post_ok]
        refine wp_ok (ih plan.right hone.refs hrest) fun c s' h' => ?_
        obtain ⟨new, hc, -⟩ := h'
        exact ⟨_, hone.trans hc, fun hpr => by simp [hprobe] at hpr⟩
      · rw [wp_bind, wp_tryCatch]
        refine wp_mono (callPage_spec _ h) ?_
        rintro (e | r) s1 ⟨hsame, hr⟩
        · -- out of memory stops the group, any other exception leaves the loop
          cases e with
          | memoryError m => exact hstop s1 hr hsame
          | valueError | overflowError | transferUnknown | exception => exact hr
        · cases r with
          | none => exact hstop s1 hr hsame
          | some page =>
            obtain ⟨hone, hrest⟩ := Collected.of_load hsame hr hheld hp
            simp only [post_ok, wp_bind, wp_modify]
            refine wp_ok (ih plan.right hone.refs hrest) fun c s2 h2 => ?_
            obtain ⟨new, hc, hd⟩ := h2
            exact ⟨_, hone.trans hc, fun hpr => .remote page (hd hpr)⟩

/-! ## What the plans give -/

theorem Drawn.covers {all : List (CheckpointPage κ)} {plans : List (Plan κ)} {cursor c : Int}
    {new : List (HeldPage κ)} (h : Drawn plans cursor new c) (hl : Linked all plans cursor) :
    Covers (ranges new) cursor c := by
  induction h with
  | stop plans cursor => exact Int.le_refl cursor
  | raw hheld hd ih =>
    obtain ⟨hok, hrest⟩ := hl
    rw [ranges_append]
    exact (hok.covers.resolve_left hheld).append (ih hrest)
  | @remote plan rest cursor c new page hd ih =>
    obtain ⟨hok, hrest⟩ := hl
    refine ⟨hok.start, (ih hrest).mono ?_ (Int.le_refl c)⟩
    have := hok.end_
    change plan.right ≤ max cursor plan.descriptor.end_
    omega

theorem Drawn.past {all : List (CheckpointPage κ)} {plans : List (Plan κ)} {cursor c : Int}
    {new : List (HeldPage κ)} (h : Drawn plans cursor new c) (hl : Linked all plans cursor) :
    AllPast new cursor := by
  induction h with
  | stop plans cursor => exact .nil cursor
  | raw hheld hd ih =>
    obtain ⟨hok, hrest⟩ := hl
    exact hok.past.append (ih hrest) (Int.le_of_lt hok.right)
  | @remote plan rest cursor c new page hd ih =>
    obtain ⟨hok, hrest⟩ := hl
    obtain ⟨hstart, hright, hend, -, -, -, -⟩ := hok
    refine (ih hrest).cons (Int.le_of_lt hright) ?_
    change plan.descriptor.start < plan.descriptor.end_ ∧ cursor < plan.descriptor.end_
    omega

/-- A raw source that overlaps a window lies in it. -/
def WithinWindows (sources descriptors : List (CheckpointPage κ)) : Prop :=
  ∀ s ∈ sources, ∀ d ∈ descriptors, s.start < d.end_ → d.start < s.end_ →
    d.start ≤ s.start ∧ s.end_ ≤ d.end_

/-- No raw page overlaps a remote page. -/
def Apart (l : List (HeldPage κ)) : Prop :=
  ∀ h ∈ l, ∀ k ∈ l, h.remote = false → k.remote = true →
    h.source.end_ ≤ k.source.start ∨ k.source.end_ ≤ h.source.start

/-- The page lies in the window of a plan. -/
def Inside (plans : List (Plan κ)) (h : HeldPage κ) : Prop :=
  ∃ plan ∈ plans, plan.descriptor.start ≤ h.source.start ∧
    h.source.end_ ≤ plan.descriptor.end_

theorem PlanOk.inside {cursor : Int} (hok : PlanOk all cursor plan) (hw : WithinWindows all ds)
    (hd : plan.descriptor ∈ ds) :
    ∀ e ∈ plan.held, plan.descriptor.start ≤ e.source.start ∧
      e.source.end_ ≤ plan.descriptor.end_ := by
  intro e he
  refine hw _ (hok.raw.mem he) _ hd (hok.window e he) ?_
  have := hok.start
  have := (hok.past e he).2
  omega

theorem Drawn.inside {all ds : List (CheckpointPage κ)} {plans : List (Plan κ)}
    {cursor c : Int} {new : List (HeldPage κ)} (h : Drawn plans cursor new c)
    (hl : Linked all plans cursor) (hw : WithinWindows all ds)
    (hs : plans.map Plan.descriptor ⊆ ds) : ∀ e ∈ new, Inside plans e := by
  induction h with
  | stop plans cursor => intro e he; cases he
  | @raw plan rest cursor c new hheld hd ih =>
    obtain ⟨hok, hrest⟩ := hl
    intro e he
    rcases mem_append.1 he with he | he
    · exact ⟨plan, mem_cons_self, hok.inside hw (hs mem_cons_self) e he⟩
    · obtain ⟨q, hq, hin⟩ := ih hrest (subset_of_cons_subset hs) e he
      exact ⟨q, mem_cons_of_mem _ hq, hin⟩
  | @remote plan rest cursor c new page hd ih =>
    obtain ⟨hok, hrest⟩ := hl
    intro e he
    rcases mem_cons.1 he with rfl | he
    · exact ⟨plan, mem_cons_self, Int.le_refl _, Int.le_refl _⟩
    · obtain ⟨q, hq, hin⟩ := ih hrest (subset_of_cons_subset hs) e he
      exact ⟨q, mem_cons_of_mem _ hq, hin⟩

theorem Inside.behind (h : Inside rest e)
    (hord : ∀ q ∈ rest, plan.descriptor.end_ ≤ q.descriptor.start) :
    plan.descriptor.end_ ≤ e.source.start := by
  obtain ⟨q, hq, hstart, -⟩ := h
  exact Int.le_trans (hord q hq) hstart

/-- The pages of a window end before those of the windows behind it start, so a relation that this
gives holds along the pages when it holds along raw pages of one window. -/
theorem Drawn.pairwise {cursor : Int} {new : List (HeldPage κ)}
    {R : HeldPage κ → HeldPage κ → Prop} (h : Drawn plans cursor new c)
    (hR : ∀ a b, a.source.start < a.source.end_ → a.source.end_ ≤ b.source.start → R a b)
    (hraw : ∀ held, AllRaw held all → held.Pairwise R) (hl : Linked all plans cursor)
    (hw : WithinWindows all ds) (hs : plans.map Plan.descriptor ⊆ ds)
    (hord : plans.Pairwise fun p q => p.descriptor.end_ ≤ q.descriptor.start) : new.Pairwise R := by
  induction h with
  | stop plans cursor => exact .nil
  | @raw plan rest cursor c new hheld hd ih =>
    obtain ⟨hok, hrest⟩ := hl
    obtain ⟨hp, hord⟩ := pairwise_cons.1 hord
    have hs' := subset_of_cons_subset hs
    refine pairwise_append.2 ⟨hraw _ hok.raw, ih hrest hs' hord, fun a ha b hb => ?_⟩
    have hbehind := (hd.inside hrest hw hs' b hb).behind hp
    have hend := (hok.inside hw (hs mem_cons_self) a ha).2
    exact hR a b (hok.past a ha).1 (Int.le_trans hend hbehind)
  | @remote plan rest cursor c new page hd ih =>
    obtain ⟨hok, hrest⟩ := hl
    obtain ⟨hp, hord⟩ := pairwise_cons.1 hord
    have hs' := subset_of_cons_subset hs
    refine .cons (fun b hb => hR _ b ?_ ((hd.inside hrest hw hs' b hb).behind hp))
      (ih hrest hs' hord)
    obtain ⟨hstart, hright, hend, -, -, -, -⟩ := hok
    change plan.descriptor.start < plan.descriptor.end_
    omega

/-- Pages of the sources and remote pages, in the order of the sources. -/
structure Parted (sources : List (CheckpointPage κ)) (l : List (HeldPage κ)) : Prop where
  apart : Apart l
  sorted : (sources.Pairwise fun p q => p.start ≤ q.start) →
    l.Pairwise fun h k => h.source.start ≤ k.source.start
  disjoint : (sources.Pairwise fun p q => p.end_ ≤ q.start) →
    l.Pairwise fun h k => h.source.end_ ≤ k.source.start

theorem Parted.sublist {sources : List (CheckpointPage κ)} {l m : List (HeldPage κ)}
    (h : Parted sources m) (hs : l.Sublist m) : Parted sources l where
  apart a ha b hb := h.apart a (hs.subset ha) b (hs.subset hb)
  sorted hsorted := (h.sorted hsorted).sublist hs
  disjoint hdisjoint := (h.disjoint hdisjoint).sublist hs

theorem AllRaw.pairwise {sources : List (CheckpointPage κ)} {l : List (HeldPage κ)}
    {R : CheckpointPage κ → CheckpointPage κ → Prop} (h : AllRaw l sources)
    (hR : sources.Pairwise R) : l.Pairwise fun h k => R h.source k.source :=
  pairwise_map.1 (hR.sublist h.sublist)

theorem AllRaw.parted {sources : List (CheckpointPage κ)} {l : List (HeldPage κ)}
    (h : AllRaw l sources) : Parted sources l where
  apart _ _ k hk _ hremote := by simp [h.raw k hk] at hremote
  sorted := h.pairwise
  disjoint := h.pairwise

theorem Drawn.parted {cursor : Int} {new : List (HeldPage κ)} (h : Drawn plans cursor new c)
    (hl : Linked all plans cursor) (hw : WithinWindows all ds)
    (hs : plans.map Plan.descriptor ⊆ ds)
    (hord : plans.Pairwise fun p q => p.descriptor.end_ ≤ q.descriptor.start) : Parted all new where
  apart := by
    have hsep : new.Pairwise fun h k => h.remote = k.remote ∨
        h.source.end_ ≤ k.source.start ∨ k.source.end_ ≤ h.source.start := by
      refine h.pairwise (fun a b _ hab => .inr (.inl hab)) (fun held hraw => ?_) hl hw hs hord
      refine pairwise_of_forall_mem_list fun a ha b hb => .inl ?_
      rw [hraw.raw a ha, hraw.raw b hb]
    intro a ha b hb hraw hremote
    have hab := List.Pairwise.forall_of_forall_of_flip (fun a _ => .inl rfl) hsep
      (hsep.imp fun hab => hab.imp Eq.symm Or.symm) ha hb
    rw [hraw, hremote] at hab
    exact hab.resolve_left Bool.false_ne_true
  sorted hsorted :=
    h.pairwise (fun a b ha hab => by omega) (fun held hraw => hraw.pairwise hsorted) hl hw hs hord
  disjoint hdisjoint :=
    h.pairwise (fun a b _ hab => hab) (fun held hraw => hraw.pairwise hdisjoint) hl hw hs hord

/-! ## Both groups -/

/-- Nothing but the group lists holds a reference. -/
structure Settled (s : AcquireState κ) (groups : List (HeldPage κ) × List (HeldPage κ)) : Prop where
  refs : Refs s
  groups : s.groups = groups
  plans : s.plans = ([], [])
  window : s.window = []

/-- Each returned page has one of the references taken; the others were given back. -/
theorem Settled.count {groups : List (HeldPage κ) × List (HeldPage κ)} (h : Settled s groups)
    (p : Page) :
    s.taken.count p = s.released.count p + (heldPages groups.1).count p +
      (heldPages groups.2).count p := by
  have := h.refs p
  rw [AcquireState.owned, h.groups, h.plans, h.window] at this
  simp only [planPages, heldPages, flatMap_nil, map_nil, count_nil] at this ⊢
  omega

theorem Settled.new : Settled (AcquireState.new : AcquireState κ) ([], []) :=
  ⟨fun p => by simp [AcquireState.new, AcquireState.owned, heldPages, planPages], rfl, rfl, rfl⟩

theorem Settled.release {groups : List (HeldPage κ) × List (HeldPage κ)} (h : Settled s groups) :
    Settled s.releaseGroups ([], []) :=
  ⟨h.refs.releaseGroups, rfl, h.plans, h.window⟩

/-- The pages that an acquire returns for a group: they leave no gap up to the common end, and none
at the end of the list lies behind it. -/
structure Delivered (prefixEnd common : Int) (l : List (HeldPage κ)) : Prop where
  covers : Covers (ranges l) prefixEnd common
  past : AllPast l prefixEnd
  last : ∀ h ∈ l.getLast?, h.source.start < common

/-- What an acquire delivers from `prefixEnd`. -/
structure Delivers (prefixEnd : Int) (out : Int × List (HeldPage κ) × List (HeldPage κ)) : Prop where
  group0 : Delivered prefixEnd out.1 out.2.1
  group1 : Delivered prefixEnd out.1 out.2.2

theorem delivered_of_cut {l : List (HeldPage κ)} {prefixEnd common end_ : Int}
    (hend : common ≤ end_) (hcov : Covers (ranges l) prefixEnd end_) (hpast : AllPast l prefixEnd) :
    Delivered prefixEnd common (l.rdropWhile fun h => h.source.start ≥ common) := by
  refine ⟨?_, fun h hh => hpast h ((List.rdropWhile_prefix _ _).subset hh), fun h hh => ?_⟩
  · rw [← rdropWhile_append_rtakeWhile (l := l) (p := fun h => h.source.start ≥ common),
      ranges_append] at hcov
    refine hcov.of_append ?_ hend
    intro e he
    obtain ⟨h, hh, rfl⟩ := mem_map.1 he
    simpa [HeldPage.range] using mem_rtakeWhile_imp hh
  · obtain ⟨hne, rfl⟩ := mem_getLast?_eq_getLast hh
    have := rdropWhile_last_not (fun h : HeldPage κ => decide (h.source.start ≥ common)) l hne
    simpa using this

theorem takeCommon_spec (ends : Int × Int) (h : Refs s) :
    wp (takeCommon ends) (post (fun out s' => Refs s' ∧ s'.groups = out.2 ∧ s'.plans = s.plans ∧
        s'.window = s.window ∧ out.2.1.Sublist s.groups.1 ∧ out.2.2.Sublist s.groups.2 ∧
        ∀ a, Covers (ranges s.groups.1) a ends.1 ∧ AllPast s.groups.1 a →
          Covers (ranges s.groups.2) a ends.2 ∧ AllPast s.groups.2 a → Delivers a out)
      fun _ _ => False) s := by
  simp only [takeCommon, wp_bind, wp_modify, post_ok, wp_get, wp_pure]
  refine ⟨h.trim _, trivial, rfl, rfl, (List.rdropWhile_prefix _ _).sublist,
    (List.rdropWhile_prefix _ _).sublist, fun a h0 h1 => ⟨?_, ?_⟩⟩
  · exact delivered_of_cut (Int.min_le_left _ _) h0.1 h0.2
  · exact delivered_of_cut (Int.min_le_right _ _) h1.1 h1.2

theorem localAcquire_spec (h : Settled s ([], [])) :
    wp (localAcquire env m end_) (post (fun out s' => Settled s' out.2 ∧
        Delivers m.prefixEnd out ∧ Parted m.groups.1 out.2.1 ∧ Parted m.groups.2 out.2.2)
      fun _ s' => Settled s' ([], [])) s := by
  have hfail : ∀ s', Unwound s s' → Settled s'.releaseGroups ([], []) := fun s' hu =>
    ⟨hu.refs.releaseGroups, rfl, hu.plans.trans h.plans, hu.window.trans h.window⟩
  rw [localAcquire, wp_tryCatch]
  refine wp_bind_of (acquireGroup_spec 0 end_ m.groups.1 m.prefixEnd h.refs)
    (fun _ s1 h1 => hfail s1 h1) fun e0 s1 h1 => ?_
  obtain ⟨new0, hg0, hc0, hr0, hp0⟩ := h1
  refine wp_bind_of (acquireGroup_spec 1 end_ m.groups.2 m.prefixEnd hg0.refs)
    (fun _ s2 h2 => hfail s2 ⟨h2.refs, h2.plans.trans hg0.plans, h2.window.trans hg0.window⟩)
    fun e1 s2 h2 => ?_
  obtain ⟨new1, hg1, hc1, hr1, hp1⟩ := h2
  have hgroups : s2.groups = (new0, new1) := by
    rw [hg1.groups, hg0.groups, h.groups]
    rfl
  refine wp_returns (takeCommon_spec (e0, e1) hg1.refs) fun out s3 h3 => ?_
  obtain ⟨hrefs, hout, hplans, hwin, hs0, hs1, hdel⟩ := h3
  rw [hgroups] at hs0 hs1 hdel
  exact ⟨⟨hrefs, hout, hplans.trans ((hg1.plans.trans hg0.plans).trans h.plans),
    hwin.trans ((hg1.window.trans hg0.window).trans h.window)⟩,
    hdel _ ⟨hc0, hp0⟩ ⟨hc1, hp1⟩, hr0.parted.sublist hs0, hr1.parted.sublist hs1⟩

/-- The descriptors of both groups are chains from at or before `prefixEnd`. -/
def SpillRanges (prefixEnd : Int)
    (remote : List (CheckpointPage κ) × List (CheckpointPage κ)) : Prop :=
  ∃ a b, a ≤ prefixEnd ∧ Chain (remote.1.map pageRange) a b ∧ Chain (remote.2.map pageRange) a b

/-- The windows of both groups are planned, and nothing is collected yet. -/
structure Windows (m : LocalCheckpoint κ)
    (remote : List (CheckpointPage κ) × List (CheckpointPage κ)) (s : AcquireState κ) : Prop where
  refs : Refs s
  groups : s.groups = ([], [])
  window : s.window = []
  linked0 : Linked m.groups.1 s.plans.1 m.prefixEnd
  linked1 : Linked m.groups.2 s.plans.2 m.prefixEnd
  sub0 : (s.plans.1.map Plan.descriptor).Sublist remote.1
  sub1 : (s.plans.2.map Plan.descriptor).Sublist remote.2

theorem probeMissing_spec [DecidableEq κ] (s : AcquireState κ) :
    wp (probeMissing env) (post (fun _ s' => s' = s) fun _ s' => s' = s) s := by
  simp only [probeMissing, wp_bind, wp_get, post_ok]
  split
  · rfl
  split
  · rfl
  · split <;> rfl

theorem planWindows_spec [DecidableEq κ]
    {remote : List (CheckpointPage κ) × List (CheckpointPage κ)}
    (hr : SpillRanges m.prefixEnd remote) (h : Settled s ([], [])) :
    wp (planWindows env m end_ remote) (post (fun _ s' => Windows m remote s')
      fun _ s' => Refs s') s := by
  obtain ⟨a, b, ha, hd0, hd1⟩ := hr
  have hcur : max m.prefixEnd (min end_ a) = m.prefixEnd := by omega
  rw [planWindows]
  refine wp_bind_ok (planGroup_spec 0 m.prefixEnd end_ remote.1 m.groups.1 a (.refl _)
    hd0 h.refs h.window) fun u s1 h1 => ?_
  obtain ⟨new0, hp0, hl0, hs0⟩ := h1
  rw [wp_bind]
  refine wp_cases (planGroup_spec 1 m.prefixEnd end_ remote.2 m.groups.2 a
    (.refl _) hd1 hp0.refs hp0.window) (fun _ _ h2 => h2) fun u s2 h2 => ?_
  obtain ⟨new1, hp1, hl1, hs1⟩ := h2
  have hplans : s2.plans = (new0, new1) := by
    rw [hp1.plans, hp0.plans, h.plans]
    rfl
  rw [hcur] at hl0 hl1
  have hwin : Windows m remote s2 :=
    ⟨hp1.refs, hp1.groups.trans (hp0.groups.trans h.groups), hp1.window,
      hplans ▸ hl0, hplans ▸ hl1, hplans ▸ hs0, hplans ▸ hs1⟩
  rw [post_ok]
  refine wp_cases (probeMissing_spec s2) (fun _ _ h3 => h3 ▸ hwin.refs) fun r s3 h3 => ?_
  exact h3 ▸ hwin

theorem ordered_of_sublist {a b : Int} (hd : Chain (ds.map pageRange) a b)
    (hs : (plans.map Plan.descriptor).Sublist ds) :
    plans.Pairwise fun p q => p.descriptor.end_ ≤ q.descriptor.start :=
  pairwise_map.1 ((pairwise_map.1 hd.pairwise).sublist hs)

/-- The raw sources of both groups respect the windows of their descriptors. -/
def Aligned (m : LocalCheckpoint κ)
    (remote : List (CheckpointPage κ) × List (CheckpointPage κ)) : Prop :=
  WithinWindows m.groups.1 remote.1 ∧ WithinWindows m.groups.2 remote.2

theorem collectWindows_spec [DecidableEq κ] {m : LocalCheckpoint κ}
    {remote : List (CheckpointPage κ) × List (CheckpointPage κ)}
    (hr : SpillRanges m.prefixEnd remote) (probe : Bool) (present : Dict κ Bool)
    (h : Windows m remote s) :
    wp (collectWindows env m probe present) (post
      (fun out s' => Refs s' ∧ s'.groups = out.2 ∧ (probe = false →
        Delivers m.prefixEnd out ∧ (Aligned m remote →
          Parted m.groups.1 out.2.1 ∧ Parted m.groups.2 out.2.2)))
      fun _ s' => Refs s') s := by
  obtain ⟨a, b, -, hd0, hd1⟩ := hr
  simp only [collectWindows, wp_bind, wp_get, post_ok]
  refine wp_cases (collectGroup_spec present probe 0 s.plans.1 m.prefixEnd h.refs rfl)
    (fun _ _ h => h) fun e0 s1 h1 => ?_
  obtain ⟨new0, hc0, hdrawn0⟩ := h1
  have hplans1 : ofGroup s1.plans 1 = s.plans.2 := by
    obtain ⟨rest, hrest⟩ := hc0.plans
    rw [hrest]
    rfl
  rw [post_ok, wp_bind]
  refine wp_mono (collectGroup_spec present probe 1 s.plans.2 m.prefixEnd hc0.refs hplans1) ?_
  rintro (e | e1) s2 h2
  · exact h2
  obtain ⟨new1, hc1, hdrawn1⟩ := h2
  have hgroups : s2.groups = (new0, new1) := by
    rw [hc1.groups, hc0.groups, h.groups]
    rfl
  rw [post_ok]
  refine wp_returns (takeCommon_spec (e0, e1) hc1.refs) fun out s3 h3 => ?_
  obtain ⟨hrefs, hout, -, -, hs0, hs1, hdel⟩ := h3
  rw [hgroups] at hs0 hs1 hdel
  refine ⟨hrefs, hout, fun hp => ?_⟩
  have hr0 := hdrawn0 hp
  have hr1 := hdrawn1 hp
  refine ⟨hdel _ ⟨hr0.covers h.linked0, hr0.past h.linked0⟩
    ⟨hr1.covers h.linked1, hr1.past h.linked1⟩, fun hal => ⟨?_, ?_⟩⟩
  · exact (hr0.parted h.linked0 hal.1 h.sub0.subset (ordered_of_sublist hd0 h.sub0)).sublist hs0
  · exact (hr1.parted h.linked1 hal.2 h.sub1.subset (ordered_of_sublist hd1 h.sub1)).sublist hs1

theorem remoteAcquire_spec [DecidableEq κ] (probe : Bool)
    {remote : List (CheckpointPage κ) × List (CheckpointPage κ)}
    (hr : SpillRanges m.prefixEnd remote) (h : Settled s ([], [])) :
    wp (remoteAcquire env m end_ probe remote) (post
      (fun out s' => Settled s' out.2 ∧ (probe = false → Delivers m.prefixEnd out ∧
        (Aligned m remote →
          Parted m.groups.1 out.2.1 ∧ Parted m.groups.2 out.2.2)))
      fun _ s' => Settled s' ([], [])) s := by
  have hfail : ∀ s' : AcquireState κ, Refs s' → Settled s'.releaseGroups.releasePlans ([], []) :=
    fun s' h' => ⟨h'.releaseGroups.releasePlans, rfl, rfl, rfl⟩
  rw [remoteAcquire, wp_bind, wp_tryCatch]
  refine wp_bind_of (planWindows_spec m end_ hr h) (fun _ s1 h1 => hfail s1 h1)
    fun present s1 h1 => ?_
  refine wp_cases (collectWindows_spec hr probe present h1) (fun _ s2 h2 => hfail s2 h2)
    fun out s2 h2 => ?_
  obtain ⟨hrefs, hout, hdel⟩ := h2
  exact ⟨⟨hrefs.releasePlans, hout, rfl, rfl⟩, hdel⟩

/-! ## The whole acquire -/

/-- What an acquire can find as the remote pages of the record. -/
def FoundRemote (env : AcquireEnv κ) (record : Option (Retention κ))
    (remote : List (CheckpointPage κ) × List (CheckpointPage κ)) : Prop :=
  record.bind (·.remote) = some remote ∨ env.recheck = some remote

theorem acquire_spec [DecidableEq κ] (record : Option (Retention κ))
    (manifest : LocalCheckpoint κ) (end_ : Int) (probe : Bool) {m : LocalCheckpoint κ}
    (hm : effectiveManifest (sameRetention record manifest) manifest = m)
    (hr : ∀ remote, FoundRemote env (sameRetention record manifest) remote →
      SpillRanges m.prefixEnd remote)
    (h : Settled s ([], [])) :
    wp (acquire env record manifest end_ probe) (post
      (fun out s' => Settled s' out.2 ∧ (probe = false → Delivers m.prefixEnd out ∧
        ((∀ remote, FoundRemote env (sameRetention record manifest) remote → Aligned m remote) →
          Parted m.groups.1 out.2.1 ∧ Parted m.groups.2 out.2.2)))
      fun _ s' => Settled s' ([], [])) s := by
  have hlocal : wp (localAcquire env m end_) (post
      (fun out s' => Settled s' out.2 ∧ Delivers m.prefixEnd out ∧
        Parted m.groups.1 out.2.1 ∧ Parted m.groups.2 out.2.2)
      fun _ s' => Settled s' ([], [])) s := localAcquire_spec m end_ h
  have hremote : ∀ remote s', FoundRemote env (sameRetention record manifest) remote →
      Settled s' ([], []) → wp (remoteAcquire env m end_ probe remote) (post
        (fun out s' => Settled s' out.2 ∧ (probe = false → Delivers m.prefixEnd out ∧
          ((∀ remote, FoundRemote env (sameRetention record manifest) remote → Aligned m remote) →
            Parted m.groups.1 out.2.1 ∧ Parted m.groups.2 out.2.2)))
        fun _ s' => Settled s' ([], [])) s' := by
    intro remote s' hf hs
    refine wp_ok (remoteAcquire_spec m end_ probe (hr remote hf) hs) fun out s2 h2 => ?_
    exact ⟨h2.1, fun hp => ⟨(h2.2 hp).1, fun hal => (h2.2 hp).2 (hal remote hf)⟩⟩
  rw [acquire]
  simp only [hm]
  split
  · refine wp_ok hlocal fun out s1 h1 => ?_
    exact ⟨h1.1, fun _ => ⟨h1.2.1, fun _ => h1.2.2⟩⟩
  split
  · next remote hrem => exact hremote remote s (.inl hrem) h
  refine wp_bind_ok hlocal fun out s1 h1 => ?_
  split
  · exact ⟨h1.1, fun _ => ⟨h1.2.1, fun _ => h1.2.2⟩⟩
  split
  · exact ⟨h1.1, fun _ => ⟨h1.2.1, fun _ => h1.2.2⟩⟩
  · next remote hrem =>
    rw [wp_modify_bind]
    have hrec : env.recheck = some remote := by
      split at hrem
      · exact hrem
      · cases hrem
    exact hremote remote _ (.inr hrec) h1.1.release

end Checkpoint
