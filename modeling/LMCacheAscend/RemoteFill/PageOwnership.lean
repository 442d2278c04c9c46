import Mathlib.Data.List.Count
import LMCacheAscend.RemoteFill.Pages

/-!
# Hidden pages are given up exactly once

`Owned`: a page is either given up (one `ref_count_down`, and an `unpin` if it was
pinned) or pinned once and owned by a handle that is not released.  The step
lemmas are those of one release (`Owned.releaseHandle`) and of one
`prepare_pages`, whose loops keep `Preparing`.
-/

namespace RemoteFill

open Lib List Option Dict

/-! ## Calls on a page -/

/-- How often each operation was called on `p`. -/
structure Calls where
  pins : Nat
  unpins : Nat
  downs : Nat
deriving DecidableEq

def calls (log : List PageEvent) (p : Nat) : Calls :=
  ⟨log.count (.pin p), log.count (.unpin p), log.count (.refCountDown p)⟩

def Calls.add (a b : Calls) : Calls := ⟨a.pins + b.pins, a.unpins + b.unpins, a.downs + b.downs⟩

def Calls.zero : Calls := ⟨0, 0, 0⟩

theorem calls_append (l m : List PageEvent) (p : Nat) :
    calls (l ++ m) p = (calls l p).add (calls m p) := by
  simp [calls, Calls.add, count_append]

@[simp] theorem Calls.add_zero (a : Calls) : a.add .zero = a := rfl

@[simp] theorem calls_nil (p : Nat) : calls [] p = .zero := rfl

/-- Given up: as many unpins as pins, and the one reference. -/
def Calls.GivenUp (c : Calls) : Prop := c.downs = 1 ∧ c.unpins = c.pins ∧ c.pins ≤ 1

/-- Still owned. -/
def Calls.Taken (pinned : Bool) (c : Calls) : Prop :=
  c.downs = 0 ∧ c.unpins = 0 ∧ c.pins = if pinned then 1 else 0

theorem calls_releaseUnpinned {pages : List Nat} (hnd : pages.Nodup) (p : Nat) :
    calls (releaseUnpinned pages) p = ⟨0, 0, if p ∈ pages then 1 else 0⟩ := by
  induction pages with
  | nil => rfl
  | cons q rest ih =>
    rw [nodup_cons] at hnd
    have h := ih hnd.2
    simp only [releaseUnpinned, calls, Calls.mk.injEq, map_cons] at h ⊢
    by_cases hp : p = q
    · subst hp
      simp [hnd.1] at h
      simp [h]
    · have hq : ¬ q = p := fun h => hp h.symm
      simp [h, hp, hq]

theorem calls_releaseAllocated {pages : List Nat} (hnd : pages.Nodup) (pinned : Bool) (p : Nat) :
    calls (releaseAllocated pages pinned) p =
      if p ∈ pages then ⟨0, if pinned then 1 else 0, 1⟩ else .zero := by
  induction pages with
  | nil => rfl
  | cons q rest ih =>
    rw [nodup_cons] at hnd
    have hcons : releaseAllocated (q :: rest) pinned =
        releaseAllocated [q] pinned ++ releaseAllocated rest pinned := by
      simp [releaseAllocated]
    rw [hcons, calls_append, ih hnd.2]
    by_cases hp : p = q
    · subst hp
      simp [hnd.1, releaseAllocated, calls]
      cases pinned <;> simp
    · have hq : ¬ q = p := fun h => hp h.symm
      have hone : calls (releaseAllocated [q] pinned) p = .zero := by
        cases pinned <;> simp [releaseAllocated, calls, Calls.zero, hq]
      rw [hone]
      simp [hp, Calls.add, Calls.zero]

theorem calls_pin {pages : List Nat} (hnd : pages.Nodup) (p : Nat) :
    calls (pages.map PageEvent.pin) p = ⟨if p ∈ pages then 1 else 0, 0, 0⟩ := by
  induction pages with
  | nil => rfl
  | cons q rest ih =>
    rw [nodup_cons] at hnd
    have h := ih hnd.2
    simp only [calls, Calls.mk.injEq, map_cons] at h ⊢
    by_cases hp : p = q
    · subst hp
      simp [hnd.1] at h
      simp [h]
    · have hq : ¬ q = p := fun h => hp h.symm
      simp [h, hp, hq]

/-! ## Ownership -/

/-- A handle that is not released owns the page. -/
def OwnedByHandle (w : PageHeap) (p : Nat) : Prop :=
  ∃ (i : Nat) (h : HiddenPage), w.handles[i]? = some h ∧ h.page = p ∧ h.released = false

structure Owned (w : PageHeap) : Prop where
  born : ∀ p < w.nextPage, (calls w.log p).GivenUp ∨ OwnedByHandle w p
  unborn : ∀ p, w.nextPage ≤ p → calls w.log p = .zero
  live : ∀ (i : Nat) (h : HiddenPage), w.handles[i]? = some h → h.released = false → (calls w.log h.page).Taken true
  flags : ∀ (i : Nat) (h : HiddenPage), w.handles[i]? = some h →
    h.unpinned = h.released ∧ h.referenceReleased = h.released
  page : ∀ (i : Nat) (h : HiddenPage), w.handles[i]? = some h → h.page < w.nextPage
  distinct : (w.handles.map HiddenPage.page).Nodup

theorem release_calls {h : HiddenPage} (hf : h.unpinned = h.released)
    (hr : h.referenceReleased = h.released) (p : Nat) :
    calls h.release.2 p = if p = h.page ∧ h.released = false then ⟨0, 1, 1⟩ else .zero := by
  cases hrel : h.released with
  | true => simp [HiddenPage.release, hrel]
  | false =>
    rw [hrel] at hf hr
    by_cases hp : p = h.page
    · simp [HiddenPage.release, hrel, hf, hr, hp, calls]
    · have hq : ¬ h.page = p := fun h => hp h.symm
      simp [HiddenPage.release, hrel, hf, hr, hp, hq, calls, Calls.zero]

theorem release_page (h : HiddenPage) : h.release.1.page = h.page := by
  unfold HiddenPage.release
  split <;> rfl

theorem release_released (h : HiddenPage) : h.release.1.released = true := by
  unfold HiddenPage.release
  split
  · next hr => exact hr
  · rfl

theorem release_flags {h : HiddenPage} (hf : h.unpinned = h.released)
    (hr : h.referenceReleased = h.released) :
    h.release.1.unpinned = h.release.1.released ∧
      h.release.1.referenceReleased = h.release.1.released := by
  unfold HiddenPage.release
  split
  · exact ⟨hf, hr⟩
  · exact ⟨rfl, rfl⟩

variable {i : Nat} {missing : List Nat}

theorem releaseHandle_getElem? {w : PageHeap} {h : HiddenPage} (hi : w.handles[i]? = some h)
    (j : Nat) :
    (w.releaseHandle i).handles[j]? = if j = i then some h.release.1 else w.handles[j]? := by
  have hlt : i < w.handles.length := lt_of_getElem? hi
  simp only [PageHeap.releaseHandle, hi, getElem?_set]
  by_cases hj : j = i
  · simp [hj, hlt]
  · rw [if_neg hj, if_neg fun h => hj h.symm]

theorem Owned.place_eq {w : PageHeap} (h : Owned w) {j : Nat} {a b : HiddenPage}
    (hi : w.handles[i]? = some a) (hj : w.handles[j]? = some b) (hp : a.page = b.page) : i = j := by
  have hlt : i < w.handles.length := lt_of_getElem? hi
  refine (getElem?_inj (by simpa using hlt) h.distinct).1 ?_
  simp [hi, hj, hp]

/-- A released handle gives up the pin and the reference of its page. -/
theorem Owned.releaseHandle {w : PageHeap} (h : Owned w) (i : Nat) : Owned (w.releaseHandle i) := by
  cases hi : w.handles[i]? with
  | none =>
    have : w.releaseHandle i = w := by simp [PageHeap.releaseHandle, hi]
    rw [this]
    exact h
  | some a =>
    have hget := releaseHandle_getElem? hi
    obtain ⟨hfl, hrf⟩ := h.flags i a hi
    have hlog : (w.releaseHandle i).log = w.log ++ a.release.2 := by
      simp [PageHeap.releaseHandle, hi]
    have hnext : (w.releaseHandle i).nextPage = w.nextPage := by
      simp [PageHeap.releaseHandle, hi]
    have hcalls : ∀ p, calls (w.releaseHandle i).log p = (calls w.log p).add
        (if p = a.page ∧ a.released = false then ⟨0, 1, 1⟩ else .zero) := by
      intro p
      rw [hlog, calls_append, release_calls hfl hrf]
    have hpage := h.page i a hi
    refine ⟨?_, ?_, ?_, ?_, ?_, ?_⟩
    · intro p hp
      rw [hnext] at hp
      rw [hcalls]
      by_cases hpa : p = a.page ∧ a.released = false
      · -- the page of the handle: it was owned, now it is given up
        obtain ⟨hd, hu, hn⟩ := h.live i a hi hpa.2
        rw [if_pos hpa, hpa.1]
        refine .inl ⟨?_, ?_, ?_⟩
        · simp [Calls.add, hd]
        · simp [Calls.add, hu, hn]
        · simp [Calls.add, hn]
      · rw [if_neg hpa, Calls.add_zero]
        refine (h.born p hp).imp_right ?_
        rintro ⟨j, b, hj, hb, hrel⟩
        have hji : j ≠ i := by
          rintro rfl
          cases hi.symm.trans hj
          exact hpa ⟨hb.symm, hrel⟩
        exact ⟨j, b, by rw [hget, if_neg hji, hj], hb, hrel⟩
    · intro p hp
      rw [hnext] at hp
      have hpa : ¬ (p = a.page ∧ a.released = false) := by omega
      rw [hcalls, if_neg hpa, Calls.add_zero]
      exact h.unborn p hp
    · intro j b hj hrel
      rw [hget] at hj
      split at hj
      · cases hj
        rw [release_released] at hrel
        cases hrel
      · next hji =>
        have hpa : ¬ (b.page = a.page ∧ a.released = false) :=
          fun hp => hji (h.place_eq hj hi hp.1)
        rw [hcalls, if_neg hpa, Calls.add_zero]
        exact h.live j b hj hrel
    · intro j b hj
      rw [hget] at hj
      split at hj
      · cases hj
        exact release_flags hfl hrf
      · exact h.flags j b hj
    · intro j b hj
      rw [hnext]
      rw [hget] at hj
      split at hj
      · cases hj
        rw [release_page]
        exact hpage
      · exact h.page j b hj
    · have hmap : (w.releaseHandle i).handles.map HiddenPage.page =
          w.handles.map HiddenPage.page := by
        refine ext_getElem? fun j => ?_
        rw [getElem?_map, getElem?_map, hget]
        split
        · next hji => simp [hji, hi, release_page]
        · rfl
      rw [hmap]
      exact h.distinct

/-! ## A call of `prepare_pages` -/

def PrepareState.pages (s : PrepareState) : List Nat := s.allocated.map Prod.snd

/-- Between two steps of a call that started on `w`. -/
structure Preparing (w : PageHeap) (s : PrepareState) : Prop where
  handles : s.heap.handles = w.handles
  next : w.nextPage ≤ s.heap.nextPage
  old : ∀ p < w.nextPage, calls s.heap.log p = calls w.log p
  taken : ∀ p ∈ s.pages, (calls s.heap.log p).Taken s.pinned
  givenUp : ∀ p, w.nextPage ≤ p → p < s.heap.nextPage → p ∉ s.pages →
    (calls s.heap.log p).GivenUp
  unborn : ∀ p, s.heap.nextPage ≤ p → calls s.heap.log p = .zero
  nodup : s.pages.Nodup
  range : ∀ p ∈ s.pages, w.nextPage ≤ p ∧ p < s.heap.nextPage

/-- A call that owns nothing: every page it allocated is given up. -/
structure Quiet (w w' : PageHeap) : Prop where
  handles : w'.handles = w.handles
  next : w.nextPage ≤ w'.nextPage
  old : ∀ p < w.nextPage, calls w'.log p = calls w.log p
  givenUp : ∀ p, w.nextPage ≤ p → p < w'.nextPage → (calls w'.log p).GivenUp
  unborn : ∀ p, w'.nextPage ≤ p → calls w'.log p = .zero

theorem Quiet.owned {w w' : PageHeap} (hq : Quiet w w') (h : Owned w) : Owned w' := by
  refine ⟨?_, hq.unborn, ?_, ?_, ?_, ?_⟩
  · intro p hp
    rcases Nat.lt_or_ge p w.nextPage with hlt | hge
    · rw [hq.old p hlt]
      exact (h.born p hlt).imp_right fun ⟨i, a, hi, ha⟩ => ⟨i, a, hq.handles ▸ hi, ha⟩
    · exact .inl (hq.givenUp p hge hp)
  · intro i a hi hr
    rw [hq.handles] at hi
    rw [hq.old _ (h.page i a hi)]
    exact h.live i a hi hr
  · intro i a hi
    exact h.flags i a (hq.handles ▸ hi)
  · intro i a hi
    exact Nat.lt_of_lt_of_le (h.page i a (hq.handles ▸ hi)) hq.next
  · rw [hq.handles]
    exact h.distinct

theorem Preparing.start {w : PageHeap} (h : Owned w) : Preparing w (.new w) := by
  refine ⟨rfl, Nat.le_refl _, fun _ _ => rfl, ?_, ?_, h.unborn, nodup_nil, ?_⟩
  · rintro p ⟨⟩
  · intro p h1 h2
    exact absurd h2 (Nat.not_lt.2 h1)
  · rintro p ⟨⟩

section

variable {w : PageHeap} {s : PrepareState} (h : Preparing w s)
include h

theorem Preparing.quiet (he : s.allocated = []) : Quiet w s.heap :=
  ⟨h.handles, h.next, h.old, fun p h1 h2 => h.givenUp p h1 h2 (by simp [PrepareState.pages, he]),
    h.unborn⟩

theorem Preparing.release :
    Quiet w (s.logAll (releaseAllocated s.pages s.pinned)).heap := by
  have hcalls : ∀ p, calls (s.heap.log ++ releaseAllocated s.pages s.pinned) p =
      (calls s.heap.log p).add
        (if p ∈ s.pages then ⟨0, if s.pinned then 1 else 0, 1⟩ else .zero) := by
    intro p
    rw [calls_append, calls_releaseAllocated h.nodup]
  have hout : ∀ p, p ∉ s.pages →
      calls (s.heap.log ++ releaseAllocated s.pages s.pinned) p = calls s.heap.log p := by
    intro p hp
    rw [hcalls, if_neg hp, Calls.add_zero]
  refine ⟨h.handles, h.next, ?_, ?_, ?_⟩
  · intro p hp
    exact (hout p fun hm => by have := h.range p hm; omega).trans (h.old p hp)
  · intro p h1 h2
    change (calls (s.heap.log ++ releaseAllocated s.pages s.pinned) p).GivenUp
    by_cases hm : p ∈ s.pages
    · obtain ⟨hd, hu, hn⟩ := h.taken p hm
      rw [hcalls, if_pos hm]
      refine ⟨?_, ?_, ?_⟩
      · simp [Calls.add, hd]
      · simp [Calls.add, hu, hn]
      · simp only [Calls.add, hn]
        split <;> omega
    · rw [hout p hm]
      exact h.givenUp p h1 h2 hm
  · intro p hp
    exact (hout p fun hm => Nat.not_lt.2 hp (h.range p hm).2).trans (h.unborn p hp)

theorem Preparing.of_eq {s' : PrepareState} (hh : s'.heap = s.heap)
    (ha : s'.allocated = s.allocated) (hp : s'.pinned = s.pinned) :
    Preparing w s' := by
  have hpages : s'.pages = s.pages := congrArg (List.map Prod.snd) ha
  refine ⟨?_, ?_, ?_, ?_, ?_, ?_, ?_, ?_⟩
  all_goals simp only [hh, hp, hpages]
  · exact h.handles
  · exact h.next
  · exact h.old
  · exact h.taken
  · exact h.givenUp
  · exact h.unborn
  · exact h.nodup
  · exact h.range

theorem Preparing.keep (hpin : s.pinned = false) {indices : List Nat} {n : Nat}
    (hn : n = indices.length) :
    Preparing w { s.newPages n with
      allocated := s.allocated ++ indices.zip (range' s.heap.nextPage n) } := by
  have hpages : (s.allocated ++ indices.zip (range' s.heap.nextPage n)).map Prod.snd =
      s.pages ++ range' s.heap.nextPage n := by
    rw [map_append, map_snd_zip (by simp [hn])]
    rfl
  have hnext := h.next
  refine ⟨h.handles, Nat.le_trans h.next (Nat.le_add_right _ n), h.old, ?_, ?_, ?_, ?_, ?_⟩
  · intro p hp
    change p ∈ List.map Prod.snd _ at hp
    rw [hpages] at hp
    rcases mem_append.1 hp with hp | hp
    · exact h.taken p hp
    have hlo := (mem_range'_1.1 hp).1
    change (calls s.heap.log p).Taken s.pinned
    rw [h.unborn p hlo, hpin]
    exact ⟨rfl, rfl, rfl⟩
  · intro p h1 h2 hnot
    change p ∉ List.map Prod.snd _ at hnot
    change p < s.heap.nextPage + n at h2
    rw [hpages, mem_append, not_or] at hnot
    have hlt : p < s.heap.nextPage := by
      by_contra hge
      exact hnot.2 (mem_range'_1.2 ⟨by omega, h2⟩)
    exact h.givenUp p h1 hlt hnot.1
  · intro p hp
    exact h.unborn p (Nat.le_trans (Nat.le_add_right _ n) hp)
  · change (List.map Prod.snd _).Nodup
    rw [hpages]
    refine h.nodup.append nodup_range' ?_
    intro p hp hq
    have := h.range p hp
    have := (mem_range'_1.1 hq).1
    omega
  · intro p hp
    change p ∈ List.map Prod.snd _ at hp
    change w.nextPage ≤ p ∧ p < s.heap.nextPage + n
    rw [hpages] at hp
    rcases mem_append.1 hp with hp | hp
    · have := h.range p hp
      omega
    · have := mem_range'_1.1 hp
      omega

theorem Preparing.mismatch (n : Nat) :
    Preparing w ((s.newPages n).logAll (releaseUnpinned (range' s.heap.nextPage n))) := by
  have hcalls : ∀ p, calls (s.heap.log ++ releaseUnpinned (range' s.heap.nextPage n)) p =
      (calls s.heap.log p).add
        ⟨0, 0, if p ∈ range' s.heap.nextPage n then 1 else 0⟩ := by
    intro p
    rw [calls_append, calls_releaseUnpinned nodup_range']
  have hout : ∀ p, p ∉ range' s.heap.nextPage n →
      calls (s.heap.log ++ releaseUnpinned (range' s.heap.nextPage n)) p =
        calls s.heap.log p := by
    intro p hp
    rw [hcalls, if_neg hp]
    rfl
  have hnext := h.next
  have hlow : ∀ p, p < s.heap.nextPage → p ∉ range' s.heap.nextPage n := by
    intro p hp hm
    have := (mem_range'_1.1 hm).1
    omega
  refine ⟨h.handles, Nat.le_trans h.next (Nat.le_add_right _ n), ?_, ?_, ?_, ?_, h.nodup, ?_⟩
  · intro p hp
    exact (hout p (hlow p (by omega))).trans (h.old p hp)
  · intro p hp
    have := hout p (hlow p (h.range p hp).2)
    change (calls (s.heap.log ++ _) p).Taken s.pinned
    rw [this]
    exact h.taken p hp
  · intro p h1 h2 hnot
    change (calls (s.heap.log ++ _) p).GivenUp
    by_cases hm : p ∈ range' s.heap.nextPage n
    · rw [hcalls, if_pos hm, h.unborn p (mem_range'_1.1 hm).1]
      exact ⟨rfl, rfl, Nat.zero_le 1⟩
    rw [hout p hm]
    have hlt : p < s.heap.nextPage := by
      by_contra hge
      exact hm (mem_range'_1.2 ⟨by omega, h2⟩)
    exact h.givenUp p h1 hlt hnot
  · intro p hp
    change s.heap.nextPage + n ≤ p at hp
    have hm : p ∉ range' s.heap.nextPage n := by
      intro hm
      have := (mem_range'_1.1 hm).2
      omega
    exact (hout p hm).trans (h.unborn p (by omega))
  · intro p hp
    have := h.range p hp
    change w.nextPage ≤ p ∧ p < s.heap.nextPage + n
    omega

end

theorem Preparing.pin {w : PageHeap} {s : PrepareState} (h : Preparing w s)
    (hpin : s.pinned = false) :
    Preparing w { s.logAll (s.pages.map PageEvent.pin) with pinned := true } := by
  have hcalls : ∀ p, calls (s.heap.log ++ s.pages.map PageEvent.pin) p =
      (calls s.heap.log p).add ⟨if p ∈ s.pages then 1 else 0, 0, 0⟩ := by
    intro p
    rw [calls_append, calls_pin h.nodup]
  have hout : ∀ p, p ∉ s.pages →
      calls (s.heap.log ++ s.pages.map PageEvent.pin) p = calls s.heap.log p := by
    intro p hp
    rw [hcalls, if_neg hp]
    rfl
  refine ⟨h.handles, h.next, ?_, ?_, ?_, ?_, h.nodup, h.range⟩
  · intro p hp
    exact (hout p fun hm => by have := h.range p hm; omega).trans (h.old p hp)
  · intro p hp
    change p ∈ s.pages at hp
    obtain ⟨hd, hu, hn⟩ := h.taken p hp
    change (calls (s.heap.log ++ _) p).Taken true
    rw [hcalls, if_pos hp]
    exact ⟨by simp [Calls.add, hd], by simp [Calls.add, hu], by simp [Calls.add, hn, hpin]⟩
  · intro p h1 h2 hnot
    change (calls (s.heap.log ++ _) p).GivenUp
    rw [hout p hnot]
    exact h.givenUp p h1 h2 hnot
  · intro p hp
    refine (hout p fun hm => ?_).trans (h.unborn p hp)
    have := (h.range p hm).2
    change s.heap.nextPage ≤ p at hp
    omega

/-! ## The loops of `prepare_pages` -/

variable {cfg : PagesConfig} {env : PrepareEnv} {w : PageHeap} {s : PrepareState}

@[simp] theorem wp_lift {σ α : Type} (x : Except PageError α) (Q : Except PageError α → σ → Prop)
    (s : σ) : wp (lift x) Q s ↔ Q x s := by
  cases x <;> rfl

/-- Only the results changed. -/
structure Classified (s s' : PrepareState) : Prop where
  heap : s'.heap = s.heap
  allocated : s'.allocated = s.allocated
  pinned : s'.pinned = s.pinned
  fresh : s'.fresh = s.fresh
  length : s'.results.length = s.results.length

theorem Classified.trans {s1 s2 s3 : PrepareState} (h : Classified s1 s2)
    (h' : Classified s2 s3) : Classified s1 s3 :=
  ⟨h'.heap.trans h.heap, h'.allocated.trans h.allocated, h'.pinned.trans h.pinned,
    h'.fresh.trans h.fresh, h'.length.trans h.length⟩

theorem classifyPages_spec (pass : Nat) (keys : List PageKey) (index : Nat) (s : PrepareState) :
    wp (classifyPages env pass keys index) (post
      (fun missing s' => Classified s s' ∧ missing.Nodup ∧ ∀ i ∈ missing, index ≤ i)
      fun _ s' => Classified s s') s := by
  induction keys generalizing index s with
  | nil => exact ⟨⟨rfl, rfl, rfl, rfl, rfl⟩, nodup_nil, by simp⟩
  | cons key rest ih =>
    rw [classifyPages, wp_bind, wp_lift]
    cases env.contains pass key with
    | error e => exact ⟨rfl, rfl, rfl, rfl, rfl⟩
    | ok present =>
      rw [post_ok, wp_modify_bind, wp_bind]
      have hone : Classified s (s.setResult index
          { handle := .none, destination := none,
            disposition := if present then .existing else .missing }) :=
        ⟨rfl, rfl, rfl, rfl, by simp [PrepareState.setResult]⟩
      refine wp_cases (ih (index + 1) _) (fun _ _ h' => hone.trans h') fun missing s' h' => ?_
      obtain ⟨hc, hnd, hlow⟩ := h'
      rw [post_ok, wp_pure, post_ok]
      refine ⟨hone.trans hc, ?_, ?_⟩
      · split
        · exact hnd
        · exact nodup_cons.2 ⟨fun hm => by have := hlow _ hm; omega, hnd⟩
      · intro i hi
        split at hi
        · have := hlow i hi
          omega
        rcases mem_cons.1 hi with rfl | hi
        · exact Nat.le_refl _
        · have := hlow i hi
          omega

theorem reserveCapacity_spec (pages : List ControlPage) (keys : List PageKey)
    (hnd : missing.Nodup) (s : PrepareState) :
    wp (reserveCapacity env pages keys missing) (post
      (fun r s' => Classified s s' ∧ ∀ missing', r = some missing' → missing'.Nodup)
      fun _ s' => Classified s s') s := by
  have hself : Classified s s := ⟨rfl, rfl, rfl, rfl, rfl⟩
  have hkeep : Classified s s ∧ ∀ missing', some missing = some missing' → missing'.Nodup :=
    ⟨hself, by rintro _ ⟨⟩; exact hnd⟩
  unfold reserveCapacity
  simp only
  split
  · exact hkeep
  rw [wp_bind, wp_lift]
  cases env.capacityAvailable 0 (requestedBytes pages missing) with
  | error e => exact hself
  | ok available =>
    rw [post_ok]
    split
    · exact hkeep
    split
    · exact ⟨hself, by rintro _ ⟨⟩⟩
    · next reclaim _ =>
      rw [wp_bind, wp_lift]
      cases reclaim (requestedBytes pages missing) with
      | error e => exact hself
      | ok reclaimed =>
        rw [post_ok]
        refine wp_bind_ok (classifyPages_spec 1 keys 0 s) fun missing' s1 h1 => ?_
        obtain ⟨hc, hnd', -⟩ := h1
        split
        · rw [wp_bind, wp_lift]
          cases env.capacityAvailable 1 (requestedBytes pages missing') with
          | error e => exact hc
          | ok available =>
            rw [post_ok, wp_pure, post_ok]
            refine ⟨hc, fun m hm => ?_⟩
            split at hm
            · cases hm
              exact hnd'
            · cases hm
        · exact ⟨hc, by rintro _ ⟨⟩⟩

/-- Before the pin: what a call took is all that it allocated. -/
structure Allocating (w : PageHeap) (s : PrepareState) : Prop where
  preparing : Preparing w s
  pinned : s.pinned = false
  fresh : s.fresh = []
  full : ∀ p, w.nextPage ≤ p → p < s.heap.nextPage → p ∈ s.pages

theorem allocateGroup_spec (pages : List ControlPage) (missing : List Nat) (group : Nat)
    (h : Allocating w s) :
    wp (allocateGroup env pages missing group) (post
      (fun _ s' => Allocating w s' ∧ s'.results = s.results ∧
        s'.allocated.map Prod.fst = s.allocated.map Prod.fst ++ groupIndices pages missing group)
      fun _ s' => Preparing w s') s := by
  unfold allocateGroup
  simp only
  split
  · next hnil =>
    rw [wp_pure, post_ok, hnil, append_nil]
    exact ⟨h, rfl, rfl⟩
  rw [wp_bind, wp_lift]
  cases env.allocate group (groupIndices pages missing group).length with
  | error e => exact h.preparing
  | ok r =>
    rw [post_ok]
    cases r with
    | none => exact h.preparing
    | some n =>
      simp only [wp_bind, wp_get, wp_modify, post_ok]
      split
      · exact h.preparing.mismatch n
      · next hn =>
        rw [not_not] at hn
        have hk := h.preparing.keep h.pinned hn
        rw [wp_modify, post_ok]
        refine ⟨⟨hk, h.pinned, h.fresh, ?_⟩, rfl, ?_⟩
        · intro p h1 h2
          change p ∈ List.map Prod.snd (s.allocated ++
            (groupIndices pages missing group).zip (range' s.heap.nextPage n))
          change p < s.heap.nextPage + n at h2
          rw [map_append, map_snd_zip (by simp [hn]), mem_append]
          rcases Nat.lt_or_ge p s.heap.nextPage with hlt | hge
          · exact .inl (h.full p h1 hlt)
          · exact .inr (mem_range'_1.2 ⟨hge, h2⟩)
        · change List.map Prod.fst (s.allocated ++
            (groupIndices pages missing group).zip (range' s.heap.nextPage n)) = _
          rw [map_append, map_fst_zip (by simp [hn])]

theorem allocateGroups_spec (pages : List ControlPage) (missing : List Nat) (groups : List Nat)
    (h : Allocating w s) :
    wp (groups.forM (allocateGroup env pages missing)) (post
      (fun _ s' => Allocating w s' ∧ s'.results = s.results ∧
        s'.allocated.map Prod.fst =
          s.allocated.map Prod.fst ++ groups.flatMap (groupIndices pages missing))
      fun _ s' => Preparing w s') s := by
  induction groups generalizing s with
  | nil => exact ⟨h, rfl, (append_nil _).symm⟩
  | cons group rest ih =>
    change wp (allocateGroup env pages missing group >>= fun _ =>
      rest.forM (allocateGroup env pages missing)) _ s
    refine wp_bind_ok (allocateGroup_spec pages missing group h) fun u s1 h1 => ?_
    obtain ⟨ha, hr, hm⟩ := h1
    refine wp_ok (ih ha) fun u s2 h2 => ?_
    obtain ⟨ha', hr', hm'⟩ := h2
    exact ⟨ha', hr'.trans hr, by rw [hm', hm]; simp⟩

theorem nodup_groupIndices (pages : List ControlPage) (hnd : missing.Nodup) {groups : List Nat}
    (hg : groups.Nodup) : (groups.flatMap (groupIndices pages missing)).Nodup := by
  induction groups with
  | nil => exact nodup_nil
  | cons group rest ih =>
    rw [nodup_cons] at hg
    rw [flatMap_cons]
    refine (hnd.filter _).append (ih hg.2) ?_
    intro i hi hj
    obtain ⟨g, hgr, hj⟩ := mem_flatMap.1 hj
    have h1 := (mem_filter.1 hi).2
    have h2 := (mem_filter.1 hj).2
    simp only [decide_eq_true_eq] at h1 h2
    rw [h1] at h2
    cases h2
    exact hg.1 hgr

theorem groupIndices_lt {pages : List ControlPage} {groups : List Nat}
    (hi : i ∈ groups.flatMap (groupIndices pages missing)) : i < pages.length := by
  obtain ⟨g, -, hi⟩ := mem_flatMap.1 hi
  have h := (mem_filter.1 hi).2
  simp only [decide_eq_true_eq] at h
  by_contra hge
  rw [getElem?_eq_none (Nat.not_lt.1 hge)] at h
  cases h

theorem pinAllocated_spec (h : Allocating w s) :
    wp (pinAllocated env) (post
      (fun _ s' => Preparing w s' ∧ s'.allocated = s.allocated ∧ s'.results = s.results ∧
        s'.heap.nextPage = s.heap.nextPage ∧ s'.fresh = [] ∧ (s.pages ≠ [] → s'.pinned = true))
      fun _ s' => Preparing w s') s := by
  simp only [pinAllocated, wp_bind, wp_get, post_ok]
  split
  · next hnil =>
    rw [wp_pure, post_ok]
    exact ⟨h.preparing, rfl, rfl, rfl, h.fresh, fun hne => absurd hnil hne⟩
  rw [wp_bind, wp_lift]
  cases env.pinPages (s.allocated.map Prod.snd) with
  | error e => exact h.preparing
  | ok pinned =>
    rw [post_ok]
    split
    · rw [wp_modify, post_ok]
      exact ⟨h.preparing.pin h.pinned, rfl, rfl, rfl, h.fresh, fun _ => rfl⟩
    · exact h.preparing

/-- The handles of the first pages are made and are in the results. -/
structure Installed (done : List (Nat × Nat)) (s : PrepareState) : Prop where
  pages : s.fresh.map HiddenPage.page = done.map Prod.snd
  flags : ∀ h ∈ s.fresh, h.unpinned = false ∧ h.referenceReleased = false ∧ h.released = false
  results : ∀ (k : Nat) (e : Nat × Nat), done[k]? = some e → ∃ q, s.results[e.1]? = some (some q) ∧
    q.disposition = .allocated ∧ q.handle = .hidden (s.heap.handles.length + k)

theorem Installed.snoc {done : List (Nat × Nat)} (h : Installed done s) (index page : Nat)
    (key : PageKey) (destination : Option (Int × Int)) (hlt : index < s.results.length)
    (hnew : index ∉ done.map Prod.fst) :
    Installed (done ++ [(index, page)]) { s.setResult index
        { handle := .hidden (s.heap.handles.length + s.fresh.length),
          destination := destination, disposition := .allocated } with
      fresh := s.fresh ++ [⟨key, page, false, false, false⟩] } := by
  have hlen : s.fresh.length = done.length := by
    have := congrArg List.length h.pages
    simpa using this
  refine ⟨?_, ?_, ?_⟩
  · simp [h.pages]
  · intro a ha
    rcases mem_append.1 ha with ha | ha
    · exact h.flags a ha
    · cases mem_singleton.1 ha
      exact ⟨rfl, rfl, rfl⟩
  · intro k e he
    change ∃ q, (s.results.set index _)[e.1]? = some (some q) ∧ _ ∧
      q.handle = .hidden (s.heap.handles.length + k)
    rcases getElem?_snoc.1 he with hold | ⟨rfl, rfl⟩
    · obtain ⟨q, hq, hd, hh⟩ := h.results k e hold
      have hne : index ≠ e.1 := by
        rintro rfl
        exact hnew (mem_map_of_mem (mem_of_getElem? hold))
      exact ⟨q, by rw [getElem?_set_ne hne, hq], hd, hh⟩
    · exact ⟨_, getElem?_set_self hlt, rfl, by rw [hlen]⟩

theorem installHandles_spec (pages : List ControlPage) (keys : List PageKey)
    (todo done : List (Nat × Nat)) (h : Preparing w s) (hall : s.allocated = done ++ todo)
    (hi : Installed done s) (hnd : (s.allocated.map Prod.fst).Nodup)
    (hlt : ∀ i ∈ s.allocated.map Prod.fst, i < s.results.length) :
    wp (installHandles env pages keys todo) (post
      (fun _ s' => Preparing w s' ∧ s'.allocated = s.allocated ∧ s'.pinned = s.pinned ∧
        s'.heap = s.heap ∧ Installed s.allocated s')
      fun _ s' => Preparing w s') s := by
  induction todo generalizing s done with
  | nil =>
    rw [append_nil] at hall
    exact ⟨h, rfl, rfl, rfl, hall ▸ hi⟩
  | cons e rest ih =>
    obtain ⟨index, page⟩ := e
    rw [installHandles, wp_bind, wp_lift]
    cases env.getSize page with
    | error e => exact h
    | ok size =>
      rw [post_ok]
      split
      · exact h
      rw [wp_bind, wp_lift]
      cases env.dataPtr page with
      | error e => exact h
      | ok ptr =>
        rw [post_ok]
        split
        · exact h
        · next key _ =>
          rw [wp_modify_bind]
          have hmem : index ∈ s.allocated.map Prod.fst := by simp [hall]
          have hnew : index ∉ done.map Prod.fst := by
            rw [hall, map_append, map_cons, nodup_append] at hnd
            intro hd
            exact hnd.2.2 index hd index mem_cons_self rfl
          have hone := hi.snoc index page key (some (ptr, size)) (hlt index hmem) hnew
          refine wp_mono (ih (done ++ [(index, page)]) (h.of_eq rfl rfl rfl) ?_ hone hnd ?_) ?_
          · change s.allocated = _
            rw [hall, append_assoc]
            rfl
          · intro i hi'
            change i < (s.results.set index _).length
            rw [length_set]
            exact hlt i hi'
          · rintro (e | u) s' h' <;> exact h'

theorem finishResults_spec (s : PrepareState) :
    wp finishResults (post (fun prepared s' => s' = s ∧ s.results = prepared.map some)
      fun _ s' => s' = s) s := by
  simp only [finishResults, wp_bind, wp_get, post_ok]
  split
  · rfl
  · next prepared hm =>
    rw [wp_pure, post_ok]
    refine ⟨rfl, ?_⟩
    generalize s.results = results at hm
    induction results generalizing prepared with
    | nil =>
      cases hm
      rfl
    | cons r rest ih =>
      rw [mapM_cons] at hm
      obtain ⟨a, ha, hm⟩ := bind_eq_some_iff.1 hm
      obtain ⟨as, has, hm⟩ := bind_eq_some_iff.1 hm
      cases hm
      cases ha
      simp [ih _ has]

theorem releasingAllocated_spec {α : Type} {p : PrepareM α} {Q : α → PrepareState → Prop}
    (h : wp p (post Q fun _ s' => Preparing w s') s) :
    wp (releasingAllocated p) (post Q fun _ s' => Quiet w s'.heap) s := by
  rw [releasingAllocated, wp_tryCatch]
  refine wp_mono h ?_
  rintro (e | a) s' h'
  · rw [post_error] at h'
    rw [post_error, wp_modify_bind, wp_throw, post_error]
    exact h'.release
  · exact h'

/-- Every page that a call allocated is in what it returned. -/
def HandedOut (w : PageHeap) (prepared : List PreparedPage) (w' : PageHeap) : Prop :=
  ∀ p, w.nextPage ≤ p → p < w'.nextPage → ∃ q ∈ prepared, ∃ (i : Nat) (h : HiddenPage),
    q.disposition = .allocated ∧ q.handle = .hidden i ∧ w'.handles[i]? = some h ∧
      h.page = p ∧ h.released = false

/-- Handed out pages are owned by their new handles. -/
theorem handOut_owned (h : Owned w) (hp : Preparing w s) (hi : Installed s.allocated s)
    (hpin : s.pages ≠ [] → s.pinned = true) : Owned s.handOut.heap := by
  have hhandles : s.handOut.heap.handles = w.handles ++ s.fresh := by
    change s.heap.handles ++ s.fresh = _
    rw [hp.handles]
  have hnew : ∀ a ∈ s.fresh, a.page ∈ s.pages := by
    intro a ha
    have : a.page ∈ s.fresh.map HiddenPage.page := mem_map_of_mem ha
    rwa [hi.pages] at this
  have hsplit : ∀ (i : Nat) (a : HiddenPage), s.handOut.heap.handles[i]? = some a →
      w.handles[i]? = some a ∨ a ∈ s.fresh := by
    intro i a ha
    rw [hhandles, getElem?_append] at ha
    split at ha
    · exact .inl ha
    · exact .inr (mem_of_getElem? ha)
  refine ⟨?_, hp.unborn, ?_, ?_, ?_, ?_⟩
  · intro p hlt
    rcases Nat.lt_or_ge p w.nextPage with hold | hge
    · change (calls s.heap.log p).GivenUp ∨ _
      rw [hp.old p hold]
      refine (h.born p hold).imp_right ?_
      rintro ⟨i, a, hai, ha⟩
      refine ⟨i, a, ?_, ha⟩
      rw [hhandles]
      exact getElem?_append_some hai _
    · by_cases hm : p ∈ s.pages
      · right
        change p ∈ s.allocated.map Prod.snd at hm
        rw [← hi.pages] at hm
        obtain ⟨a, ha, hap⟩ := mem_map.1 hm
        obtain ⟨k, hk⟩ := mem_iff_getElem?.1 ha
        refine ⟨w.handles.length + k, a, ?_, hap, (hi.flags a ha).2.2⟩
        rw [hhandles, getElem?_append_right (Nat.le_add_right _ k)]
        simpa using hk
      · exact .inl (hp.givenUp p hge hlt hm)
  · intro i a ha hr
    change (calls s.heap.log a.page).Taken true
    rcases hsplit i a ha with hold | hfr
    · rw [hp.old _ (h.page i a hold)]
      exact h.live i a hold hr
    · have := hp.taken a.page (hnew a hfr)
      rwa [hpin (ne_nil_of_mem (hnew a hfr))] at this
  · intro i a ha
    rcases hsplit i a ha with hold | hfr
    · exact h.flags i a hold
    · obtain ⟨h1, h2, h3⟩ := hi.flags a hfr
      exact ⟨h1.trans h3.symm, h2.trans h3.symm⟩
  · intro i a ha
    change a.page < s.heap.nextPage
    rcases hsplit i a ha with hold | hfr
    · exact Nat.lt_of_lt_of_le (h.page i a hold) hp.next
    · exact (hp.range _ (hnew a hfr)).2
  · rw [hhandles, map_append, hi.pages]
    refine h.distinct.append hp.nodup ?_
    intro p hp1 hp2
    obtain ⟨a, ha, rfl⟩ := mem_map.1 hp1
    obtain ⟨k, hk⟩ := mem_iff_getElem?.1 ha
    have h1 := h.page k a hk
    have h2 := (hp.range _ hp2).1
    omega

theorem handOut_handedOut {prepared : List PreparedPage}
    (hfull : ∀ p, w.nextPage ≤ p → p < s.heap.nextPage → p ∈ s.pages)
    (hi : Installed s.allocated s) (hr : s.results = prepared.map some) :
    HandedOut w prepared s.handOut.heap := by
  intro p h1 h2
  obtain ⟨e, he, rfl⟩ := mem_map.1 (hfull p h1 h2)
  obtain ⟨k, hk⟩ := mem_iff_getElem?.1 he
  obtain ⟨q, hq, hd, hh⟩ := hi.results k e hk
  have hqm : q ∈ prepared := by
    have hm := mem_of_getElem? hq
    rw [hr] at hm
    obtain ⟨q', hq', heq⟩ := mem_map.1 hm
    cases heq
    exact hq'
  have hfk : (s.fresh.map HiddenPage.page)[k]? = some e.2 := by
    rw [hi.pages, getElem?_map, hk]
    rfl
  rw [getElem?_map] at hfk
  obtain ⟨a, ha, hap⟩ := map_eq_some_iff.1 hfk
  refine ⟨q, hqm, s.heap.handles.length + k, a, hd, hh, ?_, hap,
    (hi.flags a (mem_of_getElem? ha)).2.2⟩
  change (s.heap.handles ++ s.fresh)[s.heap.handles.length + k]? = some a
  rw [getElem?_append_right (Nat.le_add_right _ k)]
  simpa using ha

/-- The allocated pages are owned by handles, or given up. -/
theorem allocatePages_spec (pages : List ControlPage) (keys : List PageKey) (hnd : missing.Nodup)
    (h : Owned w) (ha : Allocating w s) (hempty : s.allocated = [])
    (hlen : s.results.length = pages.length) :
    wp (allocatePages cfg env pages keys missing) (post
      (fun prepared s' => Owned s'.heap ∧ HandedOut w prepared s'.heap)
      fun _ s' => Quiet w s'.heap) s := by
  have hgroups : cfg.directGroups.Nodup := by
    rcases cfg.directGroups_valid with hg | hg <;> simp [hg]
  rw [allocatePages, wp_bind]
  -- the allocations, the pin and the handles
  have hbody : wp (do
      cfg.directGroups.forM (allocateGroup env pages missing)
      pinAllocated env
      let s ← get
      installHandles env pages keys s.allocated) (post
        (fun _ s' => Preparing w s' ∧ Installed s'.allocated s' ∧
          (s'.pages ≠ [] → s'.pinned = true) ∧
          ∀ p, w.nextPage ≤ p → p < s'.heap.nextPage → p ∈ s'.pages)
        fun _ s' => Preparing w s') s := by
    refine wp_bind_ok (allocateGroups_spec pages missing cfg.directGroups ha) fun u s1 h1 => ?_
    obtain ⟨ha1, hr1, hm1⟩ := h1
    rw [hempty, map_nil, nil_append] at hm1
    refine wp_bind_ok (pinAllocated_spec ha1) fun u s2 h2 => ?_
    obtain ⟨hp2, hal2, hr2, hn2, hf2, hpin2⟩ := h2
    have hpages : s2.pages = s1.pages := congrArg (List.map Prod.snd) hal2
    rw [wp_get_bind]
    have hnone : Installed [] s2 := by
      refine ⟨by rw [hf2]; rfl, ?_, ?_⟩
      · intro a ha'
        rw [hf2] at ha'
        cases ha'
      · rintro k e ⟨⟩
    refine wp_mono (installHandles_spec pages keys s2.allocated [] hp2 rfl hnone ?_ ?_) ?_
    · rw [hal2, hm1]
      exact nodup_groupIndices pages hnd hgroups
    · intro i hi
      rw [hal2, hm1] at hi
      rw [hr2, hr1, hlen]
      exact groupIndices_lt hi
    · rintro (e | u) s3 h3
      · exact h3
      obtain ⟨hp3, hal3, hpn3, hh3, hi3⟩ := h3
      have hpages3 : s3.pages = s2.pages := congrArg (List.map Prod.snd) hal3
      refine ⟨hp3, hal3 ▸ hi3, fun hne => ?_, fun p h1 h2 => ?_⟩
      · rw [hpn3]
        exact hpin2 (hpages ▸ hpages3 ▸ hne)
      · rw [hpages3, hpages]
        rw [hh3, hn2] at h2
        exact ha1.full p h1 h2
  refine wp_cases (releasingAllocated_spec hbody) (fun _ _ h => h) fun u s1 h1 => ?_
  obtain ⟨hp1, hi1, hpin1, hfull1⟩ := h1
  have hfin : wp finishResults (post
      (fun prepared s' => s' = s1 ∧ s1.results = prepared.map some)
      fun _ s' => Preparing w s') s1 := by
    refine wp_mono (finishResults_spec s1) ?_
    rintro (e | prepared) s2 h2
    · rw [post_error] at h2 ⊢
      exact h2 ▸ hp1
    · exact h2
  rw [post_ok]
  refine wp_bind_ok (releasingAllocated_spec hfin) fun prepared s2 h2 => ?_
  obtain ⟨rfl, hr⟩ := h2
  rw [wp_modify_bind, wp_pure, post_ok]
  exact ⟨handOut_owned h hp1 hi1 hpin1, handOut_handedOut hfull1 hi1 hr⟩

/-- **One call of `prepare_pages`.**  If it returns, what it returns owns every page it
allocated; if it raises, every page it allocated is given up. -/
theorem preparePages_spec (pages : List ControlPage) (reserveMissing : Bool) (h : Owned w) :
    wp (preparePages cfg env pages reserveMissing) (post
      (fun prepared s' => Owned s'.heap ∧ HandedOut w prepared s'.heap)
      fun _ s' => Quiet w s'.heap) (.new w) := by
  have hstart : Preparing w (.new w) := .start h
  have hquiet : Quiet w w := hstart.quiet rfl
  have hret : ∀ s' : PrepareState, s'.heap = w → Owned s'.heap ∧
      ∀ prepared, HandedOut w prepared s'.heap := by
    rintro s' hs
    rw [hs]
    exact ⟨h, fun prepared p h1 h2 => absurd h2 (Nat.not_lt.2 h1)⟩
  have hfinish : ∀ s' : PrepareState, s'.heap = w → wp finishResults (post
      (fun prepared s' => Owned s'.heap ∧ HandedOut w prepared s'.heap)
      fun _ s' => Quiet w s'.heap) s' := by
    intro s' hs
    refine wp_mono (finishResults_spec s') ?_
    rintro (e | prepared) s2 h2
    · rw [post_error] at h2 ⊢
      rw [h2, hs]
      exact hquiet
    · obtain ⟨rfl, -⟩ := h2
      exact ⟨(hret s2 hs).1, (hret s2 hs).2 prepared⟩
  rw [preparePages, wp_bind, wp_lift]
  cases pages.mapM cfg.validateControlPage with
  | error e => exact hquiet
  | ok keys =>
    rw [post_ok]
    simp only
    split
    · exact hquiet
    rw [wp_bind, wp_lift]
    cases validateWindowGroups cfg pages keys with
    | error e => exact hquiet
    | ok u =>
      rw [post_ok, wp_modify_bind, wp_bind]
      refine wp_mono (classifyPages_spec 0 keys 0 _) ?_
      rintro (e | missing) s1 h1
      · rw [post_error] at h1
        change Quiet w s1.heap
        rw [h1.heap]
        exact hquiet
      · obtain ⟨hc, hnd⟩ := h1
        rw [post_ok]
        split
        · rw [wp_bind]
          refine wp_mono (reserveCapacity_spec pages keys hnd.1 s1) ?_
          rintro (e | r) s2 h2
          · rw [post_error] at h2
            change Quiet w s2.heap
            rw [(hc.trans h2).heap]
            exact hquiet
          · obtain ⟨hc2, hnd2⟩ := h2
            have hall := hc.trans hc2
            rw [post_ok]
            cases r with
            | none => exact hfinish s2 hall.heap
            | some missing' =>
              have hp2 := hstart.of_eq hall.heap hall.allocated hall.pinned
              refine allocatePages_spec pages keys (hnd2 _ rfl) h
                ⟨hp2, hall.pinned, hall.fresh, ?_⟩ hall.allocated ?_
              · intro p h1 h2
                rw [hall.heap] at h2
                exact absurd h2 (Nat.not_lt.2 h1)
              · rw [hall.length]
                exact length_replicate
        · exact hfinish s1 hc.heap

/-! ## Releases and the commit -/

def Released (w : PageHeap) (i : Nat) : Prop :=
  ∃ h : HiddenPage, w.handles[i]? = some h ∧ h.released = true

theorem releaseHandle_none (hi : w.handles[i]? = none) : w.releaseHandle i = w := by
  simp [PageHeap.releaseHandle, hi]

theorem length_releaseHandle (w : PageHeap) (i : Nat) :
    (w.releaseHandle i).handles.length = w.handles.length := by
  unfold PageHeap.releaseHandle
  split
  · rfl
  · simp

theorem Released.releaseHandle {j : Nat} (h : Released w j) (i : Nat) :
    Released (w.releaseHandle i) j := by
  obtain ⟨a, ha, hr⟩ := h
  cases hi : w.handles[i]? with
  | none => exact ⟨a, by rw [releaseHandle_none hi, ha], hr⟩
  | some b =>
    by_cases hji : j = i
    · exact ⟨b.release.1, by rw [releaseHandle_getElem? hi, if_pos hji], release_released b⟩
    · exact ⟨a, by rw [releaseHandle_getElem? hi, if_neg hji, ha], hr⟩

theorem released_releaseHandle (hi : i < w.handles.length) : Released (w.releaseHandle i) i :=
  ⟨_, by rw [releaseHandle_getElem? (getElem?_eq_getElem hi), if_pos rfl],
    release_released _⟩

theorem Owned.givenUp {a : HiddenPage} (h : Owned w) (hi : w.handles[i]? = some a)
    (hr : a.released = true) : (calls w.log a.page).GivenUp := by
  rcases h.born a.page (h.page i a hi) with hg | ⟨j, b, hj, hp, hb⟩
  · exact hg
  obtain rfl := h.place_eq hj hi hp
  cases hj.symm.trans hi
  rw [hr] at hb
  cases hb

/-- The pages of the hidden handles of a list are given up. -/
def AllGivenUp (pages : List PreparedPage) (w : PageHeap) : Prop :=
  ∀ q ∈ pages, q.disposition = .allocated → ∀ (i : Nat) (h : HiddenPage), q.handle = .hidden i →
    w.handles[i]? = some h → (calls w.log h.page).GivenUp

theorem releaseEach_spec (pages : List PreparedPage) (h : Owned w) :
    Owned (releaseEach pages w).1 ∧ (releaseEach pages w).1.handles.length = w.handles.length ∧
      (∀ j, Released w j → Released (releaseEach pages w).1 j) ∧
      ∀ q ∈ pages, q.disposition = .allocated → ∀ i, w.hidden? q.handle = some i →
        Released (releaseEach pages w).1 i := by
  induction pages generalizing w with
  | nil => exact ⟨h, rfl, fun _ hj => hj, by simp⟩
  | cons q rest ih =>
    rw [releaseEach]
    split
    · next hd =>
      obtain ⟨h1, h2, h3, h4⟩ := ih h
      refine ⟨h1, h2, h3, fun q' hq' hal => ?_⟩
      rcases mem_cons.1 hq' with rfl | hq'
      · exact absurd hal hd
      · exact h4 q' hq' hal
    · split
      · next hnone =>
        obtain ⟨h1, h2, h3, h4⟩ := ih h
        refine ⟨h1, h2, h3, fun q' hq' hal i hi => ?_⟩
        rcases mem_cons.1 hq' with rfl | hq'
        · rw [hnone] at hi
          cases hi
        · exact h4 q' hq' hal i hi
      · next i hsome =>
        obtain ⟨h1, h2, h3, h4⟩ := ih (h.releaseHandle i)
        have hlt : i < w.handles.length := by
          unfold PageHeap.hidden? at hsome
          split at hsome
          · split at hsome
            · cases hsome
              assumption
            · cases hsome
          · cases hsome
        have hhid : ∀ q' : Handle, (w.releaseHandle i).hidden? q' = w.hidden? q' := by
          intro q'
          unfold PageHeap.hidden?
          rw [length_releaseHandle]
        refine ⟨h1, h2.trans (length_releaseHandle w i), fun j hj => h3 j (hj.releaseHandle i),
          fun q' hq' hal j hj => ?_⟩
        rcases mem_cons.1 hq' with rfl | hq'
        · rw [hsome] at hj
          cases hj
          exact h3 i (released_releaseHandle hlt)
        · exact h4 q' hq' hal j ((hhid q'.handle).trans hj)

theorem releaseEach_givenUp (pages : List PreparedPage) (h : Owned w) :
    AllGivenUp pages (releaseEach pages w).1 := by
  obtain ⟨h1, hlen, -, h4⟩ := releaseEach_spec pages h
  intro q hq hal i a hh ha
  have hlt : i < w.handles.length := by
    rw [← hlen]
    exact lt_of_getElem? ha
  have hhid : w.hidden? q.handle = some i := by rw [hh, PageHeap.hidden?, if_pos hlt]
  obtain ⟨b, hb, hr⟩ := h4 q hq hal i hhid
  cases ha.symm.trans hb
  exact h1.givenUp ha hr

theorem releaseHandles_spec (what : String) (pages : List PreparedPage) (h : Owned w) :
    wp (releaseHandles what pages) (post (fun _ w' => Owned w' ∧ AllGivenUp pages w')
      fun _ w' => Owned w' ∧ AllGivenUp pages w') w := by
  have hend : Owned (releaseEach pages w).1 ∧ AllGivenUp pages (releaseEach pages w).1 :=
    ⟨(releaseEach_spec pages h).1, releaseEach_givenUp pages h⟩
  simp only [releaseHandles, wp_bind, wp_get, post_ok, wp_modify]
  split <;> exact hend

/-- Ready pages have handles, and every allocated view's handle is among them. -/
theorem readyPages_spec {required : Dict Nat (List PageKey)} {views : List ReservedPageView}
    {ready : Dict PageKey Nat} {handles : List Nat} {ready' : Dict PageKey Nat}
    {handles' : List Nat}
    (hpages : ∀ i ∈ handles, ∃ (h : HiddenPage) (k : PageKey), w.handles[i]? = some h ∧
      ready.get? k = some h.page)
    (hr : readyPages cfg w required views ready handles = .ok (ready', handles')) :
    (∀ i ∈ handles', ∃ (h : HiddenPage) (k : PageKey), w.handles[i]? = some h ∧
      ready'.get? k = some h.page) ∧ handles ⊆ handles' ∧
    ∀ v ∈ views, v.prepared.disposition = .allocated → ∀ i, w.hidden? v.prepared.handle = some i →
      i ∈ handles' := by
  induction views generalizing ready handles with
  | nil =>
    cases hr
    exact ⟨hpages, Subset.refl _, by simp⟩
  | cons v rest ih =>
    rw [readyPages] at hr
    split at hr
    · next hd =>
      obtain ⟨h1, h2, h3⟩ := ih hpages hr
      refine ⟨h1, h2, fun v' hv' hal => ?_⟩
      rcases mem_cons.1 hv' with rfl | hv'
      · exact absurd hal hd
      · exact h3 v' hv' hal
    · split at hr
      · cases hr
      · next i hsome =>
        split at hr
        · cases hr
        simp only at hr
        split at hr
        · cases hr
        split at hr
        · next key handle _ hi =>
          split at hr
          · cases hr
          · next hfresh =>
            rw [not_or, not_not] at hfresh
            have hkey := hfresh.2
            have hnext : ∀ j ∈ handles ++ [i], ∃ (h : HiddenPage) (k : PageKey),
                w.handles[j]? = some h ∧ (ready.set key handle.page).get? k = some h.page := by
              intro j hj
              rcases mem_append.1 hj with hj | hj
              · obtain ⟨a, k, ha, hk⟩ := hpages j hj
                have hne : k ≠ key := by
                  rintro rfl
                  exact hkey (mem_keys_of_get? hk)
                exact ⟨a, k, ha, by rw [get?_set_ne hne, hk]⟩
              · cases mem_singleton.1 hj
                exact ⟨handle, key, hi, get?_set_self _ _ _⟩
            obtain ⟨h1, h2, h3⟩ := ih hnext hr
            refine ⟨h1, fun j hj => h2 (mem_append_left _ hj), fun v' hv' hal j hj => ?_⟩
            rcases mem_cons.1 hv' with rfl | hv'
            · rw [hsome] at hj
              cases hj
              exact h2 (mem_append_right _ mem_cons_self)
            · exact h3 v' hv' hal j hj
        · cases hr

theorem release_events (h : HiddenPage) :
    ∀ e ∈ h.release.2, e = .unpin h.page ∨ e = .refCountDown h.page := by
  intro e he
  unfold HiddenPage.release at he
  split at he
  · cases he
  rcases mem_append.1 he with he | he
  · split at he
    · cases he
    · exact .inl (mem_singleton.1 he)
  · split at he
    · cases he
    · exact .inr (mem_singleton.1 he)

theorem releaseAll_spec (handles : List Nat) {pages : List Nat} (h : Owned w)
    (hin : ∀ i ∈ handles, ∃ h : HiddenPage, w.handles[i]? = some h ∧ h.page ∈ pages) :
    Owned (handles.foldl PageHeap.releaseHandle w) ∧
      (handles.foldl PageHeap.releaseHandle w).handles.length = w.handles.length ∧
      (∀ j, Released w j → Released (handles.foldl PageHeap.releaseHandle w) j) ∧
      (∀ i ∈ handles, Released (handles.foldl PageHeap.releaseHandle w) i) ∧
      ∃ rest, (handles.foldl PageHeap.releaseHandle w).log = w.log ++ rest ∧
        ∀ e ∈ rest, ∃ p ∈ pages, e = .unpin p ∨ e = .refCountDown p := by
  induction handles generalizing w with
  | nil => exact ⟨h, rfl, fun _ hj => hj, by simp, [], by simp, by simp⟩
  | cons i rest ih =>
    rw [foldl_cons]
    obtain ⟨a, ha, hap⟩ := hin i mem_cons_self
    have hlt : i < w.handles.length := lt_of_getElem? ha
    have hnext : ∀ j ∈ rest, ∃ h : HiddenPage, (w.releaseHandle i).handles[j]? = some h ∧
        h.page ∈ pages := by
      intro j hj
      obtain ⟨b, hb, hbp⟩ := hin j (mem_cons_of_mem i hj)
      rw [releaseHandle_getElem? ha]
      split
      · exact ⟨_, rfl, (release_page a).symm ▸ hap⟩
      · exact ⟨b, hb, hbp⟩
    obtain ⟨h1, h2, h3, h4, ev, hlog, hev⟩ := ih (h.releaseHandle i) hnext
    refine ⟨h1, h2.trans (length_releaseHandle w i), fun j hj => h3 j (hj.releaseHandle i), ?_,
      a.release.2 ++ ev, ?_, ?_⟩
    · intro j hj
      rcases mem_cons.1 hj with rfl | hj
      · exact h3 j (released_releaseHandle hlt)
      · exact h4 j hj
    · rw [hlog]
      simp [PageHeap.releaseHandle, ha]
    · intro e he
      rcases mem_append.1 he with he | he
      · exact ⟨a.page, hap, release_events a e he⟩
      · exact hev e he

/-- What a commit did: first the local backend reported the ready pages as committed, then
nothing was called but on those. -/
def CommittedFirst (w w' : PageHeap) : Prop :=
  ∃ ready rest, w'.log = w.log ++ .committed ready :: rest ∧
    ∀ e ∈ rest, ∃ p ∈ ready, e = .unpin p ∨ e = .refCountDown p

theorem Owned.committed (h : Owned w) (pages : List Nat) :
    Owned { w with log := w.log ++ [.committed pages] } := by
  have hcalls : ∀ p, calls (w.log ++ [.committed pages]) p = calls w.log p := by
    intro p
    rw [calls_append]
    simp [calls, Calls.add]
  refine ⟨?_, ?_, ?_, h.flags, h.page, h.distinct⟩
  · intro p hp
    change (calls (w.log ++ _) p).GivenUp ∨ _
    rw [hcalls]
    exact h.born p hp
  · intro p hp
    change calls (w.log ++ _) p = _
    rw [hcalls]
    exact h.unborn p hp
  · intro i a hi hr
    change (calls (w.log ++ _) a.page).Taken true
    rw [hcalls]
    exact h.live i a hi hr

theorem commitPages_spec (requiredPages : List ControlPage) (views : List ReservedPageView)
    (finish : FinishRequest)
    (localCommit : Dict Nat (List PageKey) → Dict PageKey Nat → LocalCommit) (h : Owned w) :
    wp (commitPages cfg requiredPages views finish localCommit) (post
      (fun committed w' => Owned w' ∧ (committed = false → w' = w) ∧ (committed = true →
        AllGivenUp (views.map ReservedPageView.prepared) w' ∧ CommittedFirst w w'))
      fun _ w' => w' = w) w := by
  rw [commitPages, wp_bind, wp_lift]
  cases validateRequiredPrefix cfg requiredPages finish with
  | error e => rfl
  | ok required =>
    rw [post_ok, wp_get_bind, wp_bind, wp_lift]
    cases hready : readyPages cfg w required views Dict.empty [] with
    | error e => rfl
    | ok r =>
      obtain ⟨ready, handles⟩ := r
      obtain ⟨hpages, -, hviews⟩ := readyPages_spec (by simp) hready
      rw [post_ok]
      simp only
      cases localCommit required ready with
      | rollbackError | raised => rfl
      | returned committed =>
        cases committed with
        | false => exact ⟨h, fun _ => rfl, by rintro ⟨⟩⟩
        | true =>
          rw [wp_modify_bind, wp_modify_bind, wp_pure, post_ok]
          have hin : ∀ i ∈ handles, ∃ h : HiddenPage, w.handles[i]? = some h ∧
              h.page ∈ ready.entries.map Prod.snd := by
            intro i hi
            obtain ⟨a, k, ha, hk⟩ := hpages i hi
            exact ⟨a, ha, mem_map.2 ⟨(k, a.page), mem_entries.2 hk, rfl⟩⟩
          obtain ⟨h1, hlen, -, hrel, rest, hlog, hrest⟩ :=
            releaseAll_spec handles (h.committed (ready.entries.map Prod.snd)) hin
          refine ⟨h1, by rintro ⟨⟩, fun _ => ⟨?_, ready.entries.map Prod.snd, rest, ?_, hrest⟩⟩
          · intro q hq hal i a hh ha
            obtain ⟨v, hv, rfl⟩ := mem_map.1 hq
            have hlt : i < w.handles.length := by
              have := lt_of_getElem? ha
              rw [hlen] at this
              exact this
            have hhid : w.hidden? v.prepared.handle = some i := by
              rw [hh, PageHeap.hidden?, if_pos hlt]
            obtain ⟨b, hb, hr⟩ := hrel i (hviews v hv hal i hhid)
            cases ha.symm.trans hb
            exact h1.givenUp ha hr
          · rw [hlog, append_assoc]
            rfl

/-! ## Runs -/

theorem releaseHandles_owned (what : String) (pages : List PreparedPage) (h : Owned w) :
    wp (releaseHandles what pages) (fun _ w' => Owned w') w := by
  refine wp_cases (releaseHandles_spec what pages h) (fun _ _ h' => h'.1) fun u w' h' => ?_
  exact h'.1

theorem pages_inductive : (pagesMachine cfg).Inductive Owned := by
  constructor
  · rintro w rfl
    refine ⟨?_, fun _ _ => rfl, ?_, ?_, ?_, nodup_nil⟩
    · rintro p ⟨⟩
    · rintro i a ⟨⟩
    · rintro i a ⟨⟩
    · rintro i a ⟨⟩
  · intro w a w' h hs
    cases a with
    | preparePages env pages reserveMissing =>
      cases hs
      have hkeep : wp (preparePages cfg env pages reserveMissing) (fun _ s' => Owned s'.heap)
          (.new w) := by
        refine wp_cases (preparePages_spec pages reserveMissing h) (fun _ _ h' => Quiet.owned h' h)
          fun prepared s' h' => ?_
        exact h'.1
      exact hkeep
    | releasePreparedPages pages => cases hs; exact releaseHandles_owned "prepared" pages h
    | releasePages views =>
      cases hs
      exact releaseHandles_owned "reserved" (views.map ReservedPageView.prepared) h
    | commitPages requiredPages views finish localCommit =>
      cases hs
      have hkeep : wp (commitPages cfg requiredPages views finish localCommit)
          (fun _ w' => Owned w') w := by
        refine wp_mono (commitPages_spec requiredPages views finish localCommit h) ?_
        rintro (e | committed) w' h'
        · rw [post_error] at h'
          exact h' ▸ h
        · exact h'.1
      exact hkeep

/-- **Ownership of hidden pages.**  After any sequence of calls a page is either given up,
with one `ref_count_down` and as many `unpin` as it was pinned, or it is pinned, untouched
and owned by a handle that is not released.  A `prepare_pages` that returns hands out every
page it allocated, one that raises has given them up; the releases and a commit that
returns `True` give up the pages of the handles passed to them, and a commit touches
no page before the local backend has reported it committed. -/
theorem hidden_page_ownership (h : (pagesMachine cfg).Reachable w) :
    (∀ p < w.nextPage, (calls w.log p).GivenUp ∨
      (calls w.log p).Taken true ∧ OwnedByHandle w p) ∧
    (∀ env pages reserveMissing, wp (preparePages cfg env pages reserveMissing) (post
      (fun prepared s' => HandedOut w prepared s'.heap)
      fun _ s' => ∀ p, w.nextPage ≤ p → p < s'.heap.nextPage →
        (calls s'.heap.log p).GivenUp) (.new w)) ∧
    (∀ pages, wp (releasePreparedPages pages) (post (fun _ w' => AllGivenUp pages w')
      fun _ w' => AllGivenUp pages w') w) ∧
    (∀ views, wp (releasePages views) (post
      (fun _ w' => AllGivenUp (views.map ReservedPageView.prepared) w')
      fun _ w' => AllGivenUp (views.map ReservedPageView.prepared) w') w) ∧
    ∀ requiredPages views finish localCommit,
      wp (commitPages cfg requiredPages views finish localCommit) (post
        (fun committed w' => (committed = false → w' = w) ∧ (committed = true →
          AllGivenUp (views.map ReservedPageView.prepared) w' ∧ CommittedFirst w w'))
        fun _ w' => w' = w) w := by
  have ho := pages_inductive.reachable h
  refine ⟨?_, ?_, ?_, ?_, ?_⟩
  · intro p hp
    rcases ho.born p hp with hg | hown
    · exact .inl hg
    · obtain ⟨i, a, hi, rfl, hr⟩ := hown
      exact .inr ⟨ho.live i a hi hr, i, a, hi, rfl, hr⟩
  · intro env pages reserveMissing
    refine wp_cases (preparePages_spec pages reserveMissing ho) (fun _ _ h' => Quiet.givenUp h')
      fun prepared s' h' => ?_
    exact h'.2
  · intro pages
    refine wp_cases (releaseHandles_spec "prepared" pages ho) (fun _ _ h' => h'.2) fun u w' h' => ?_
    exact h'.2
  · intro views
    refine wp_cases (releaseHandles_spec "reserved" (views.map ReservedPageView.prepared) ho)
      (fun _ _ h' => h'.2) fun u w' h' => ?_
    exact h'.2
  · intro requiredPages views finish localCommit
    refine wp_ok (commitPages_spec requiredPages views finish localCommit ho)
      fun committed w' h' => ?_
    exact h'.2

def onePageConfig : PagesConfig :=
  { directGroups := [0]
    directGroups_valid := .inl rfl
    chunkSize := 2
    validateControlPage := fun page => .ok ⟨page.canonicalKey, "m", 1, 0, page.canonicalKey, []⟩ }

def onePage : ControlPage := ⟨"k", 0, 0, 0, 2, 2, 8, 0, 1, "layout"⟩

/-- Everything is absent, and there is room; `pins` is what the pin returns. -/
def roomyEnv (pins : Bool) : PrepareEnv :=
  { contains := fun _ _ => .ok false
    capacityAvailable := fun _ _ => .ok true
    capacityReclaimer := none
    allocate := fun _ n => .ok (some n)
    pinPages := fun _ => .ok pins
    getSize := fun _ => .ok 8
    dataPtr := fun page => .ok (4096 * page) }

def emptyHeap : PageHeap := ⟨[], 0, []⟩

/-- A page is prepared and committed; the release after it finds nothing to do. -/
def commitRun : List PagesAction :=
  [.preparePages (roomyEnv true) [onePage] true,
   .commitPages [onePage] [⟨onePage, ⟨.hidden 0, some (0, 8), .allocated⟩⟩] ⟨2, 2, "", 0⟩
     fun _ _ => .returned true,
   .releasePages [⟨onePage, ⟨.hidden 0, some (0, 8), .allocated⟩⟩]]

def committedHeap : PageHeap :=
  { handles := [⟨⟨"k", "m", 1, 0, "k", []⟩, 0, true, true, true⟩]
    nextPage := 1
    log := [.pin 0, .committed [0], .unpin 0, .refCountDown 0] }

theorem hidden_page_ownership_committed :
    (calls committedHeap.log 0).GivenUp ∨
      (calls committedHeap.log 0).Taken true ∧ OwnedByHandle committedHeap 0 := by
  have hr : (pagesMachine onePageConfig).run emptyHeap commitRun = some committedHeap := by
    decide +kernel
  exact (hidden_page_ownership (Machine.reachable_of_run rfl hr)).1 0 (by decide)

/-- A page whose pin is refused loses its reference without an unpin, and nothing owns it. -/
theorem refused_pin_not_unpinned : ∃ w, (pagesMachine onePageConfig).Reachable w ∧
    0 < w.nextPage ∧ ¬ OwnedByHandle w 0 ∧ calls w.log 0 = ⟨0, 0, 1⟩ := by
  have hr : (pagesMachine onePageConfig).run emptyHeap
      [.preparePages (roomyEnv false) [onePage] true] = some ⟨[], 1, [.refCountDown 0]⟩ := by
    decide +kernel
  refine ⟨_, Machine.reachable_of_run rfl hr, by decide, ?_, by decide⟩
  rintro ⟨i, a, ha, -⟩
  cases ha

end RemoteFill
