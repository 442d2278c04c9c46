import Mathlib.Order.Lattice
import Mathlib.Data.List.TakeWhile
import Mathlib.Data.List.Basic

/-!
# A sweep over intervals

A list of intervals `[lo a, hi a)` is asked, window by window, for those that overlap
the window.  `sweep` answers without a filter: it drops from the front what ends before
the window, for good, and takes from there what starts before the end of the window.

`InOrder` intervals start and end no later than those behind them.  On these, and on no
other lists, the sweep gives the overlapping ones for every run of windows whose starts
do not go back (`inOrder_iff_sweepAll`).  If only the starts are in order it misses none
(`overlaps_sweep`).
-/

namespace Lib

open List

section

variable {α : Type*} {p q : α → Bool} {l : List α}

theorem takeWhile_eq_filter (h : l.Pairwise fun a b => p b → p a) :
    l.takeWhile p = l.filter p := by
  induction l with
  | nil => rfl
  | cons a l ih =>
    obtain ⟨ha, hl⟩ := pairwise_cons.1 h
    by_cases hp : p a = true
    · rw [takeWhile_cons_of_pos hp, filter_cons_of_pos hp, ih hl]
    · have hnone : l.filter p = [] := filter_eq_nil_iff.2 fun b hb hpb => hp (ha b hb hpb)
      rw [takeWhile_cons_of_neg hp, filter_cons_of_neg hp, hnone]

theorem dropWhile_eq_filter (h : l.Pairwise fun a b => p b → p a) :
    l.dropWhile p = l.filter fun a => !p a := by
  induction l with
  | nil => rfl
  | cons a l ih =>
    obtain ⟨ha, hl⟩ := pairwise_cons.1 h
    by_cases hp : p a = true
    · rw [dropWhile_cons_of_pos hp, filter_cons_of_neg (by simp [hp]), ih hl]
    have hall : l.filter (fun a => !p a) = l :=
      filter_eq_self.2 fun b hb => by simpa using fun hpb => hp (ha b hb hpb)
    rw [dropWhile_cons_of_neg hp, filter_cons_of_pos (by simp [hp]), hall]

/-- What is dropped from the front does not pass the filter anyway. -/
theorem filter_dropWhile (h : ∀ a ∈ l, p a → ¬q a) : (l.dropWhile p).filter q = l.filter q := by
  induction l with
  | nil => rfl
  | cons a l ih =>
    obtain ⟨ha, hl⟩ := forall_mem_cons.1 h
    by_cases hp : p a = true
    · rw [dropWhile_cons_of_pos hp, filter_cons_of_neg (ha hp), ih hl]
    · rw [dropWhile_cons_of_neg hp]

end

variable {α β : Type*} [LinearOrder β] (lo hi : α → β)

/-- The intervals that overlap a window. -/
def overlaps (l : List α) (w : β × β) : List α := l.filter fun a => lo a < w.2 ∧ hi a > w.1

/-- What a window gets, and what later windows look at. -/
def sweep (l : List α) (w : β × β) : List α × List α :=
  let left := l.dropWhile fun a => hi a ≤ w.1
  (left.takeWhile fun a => lo a < w.2, left)

def sweepAll : List α → List (β × β) → List (List α)
  | _, [] => []
  | l, w :: rest => (sweep lo hi l w).1 :: sweepAll (sweep lo hi l w).2 rest

/-- Each interval starts and ends no later than those behind it. -/
def InOrder (l : List α) : Prop := l.Pairwise fun a b => lo a ≤ lo b ∧ hi a ≤ hi b

/-- No window starts before the ones in front of it. -/
def Increasing (windows : List (β × β)) : Prop := windows.Pairwise fun v w => v.1 ≤ w.1

variable {lo hi} {l : List α} {w : β × β} {windows : List (β × β)}

theorem InOrder.starts (h : InOrder lo hi l) : l.Pairwise fun a b => lo a ≤ lo b :=
  h.imp fun hab => hab.1

/-- A window that starts no later drops nothing that overlaps. -/
theorem overlaps_left {v : β × β} (hv : v.1 ≤ w.1) :
    overlaps lo hi (sweep lo hi l v).2 w = overlaps lo hi l w := by
  refine filter_dropWhile fun a _ hpast => ?_
  have hpast : hi a ≤ v.1 := of_decide_eq_true hpast
  simpa using fun _ => hpast.trans hv

theorem sweep_eq_filter (h : l.Pairwise fun a b => lo a ≤ lo b) :
    (sweep lo hi l w).1 = (sweep lo hi l w).2.filter fun a => lo a < w.2 := by
  have hleft := h.sublist (dropWhile_sublist fun a => decide (hi a ≤ w.1))
  exact takeWhile_eq_filter (hleft.imp fun hab hb => by
    simpa using lt_of_le_of_lt hab (of_decide_eq_true hb))

theorem overlaps_sweep (h : l.Pairwise fun a b => lo a ≤ lo b) :
    overlaps lo hi (sweep lo hi l w).1 w = overlaps lo hi l w := by
  rw [sweep_eq_filter h, ← overlaps_left (l := l) (le_refl w.1)]
  unfold overlaps
  rw [filter_filter]
  exact filter_congr fun a _ => by simpa using fun hstart _ => hstart

theorem sweep_eq (h : InOrder lo hi l) : (sweep lo hi l w).1 = overlaps lo hi l w := by
  have hends : (sweep lo hi l w).2 = l.filter fun a => !decide (hi a ≤ w.1) :=
    dropWhile_eq_filter (h.imp fun hab hb => by
      simpa using hab.2.trans (of_decide_eq_true hb))
  rw [sweep_eq_filter h.starts, hends, filter_filter]
  exact filter_congr fun a _ => by simp [← decide_not]

theorem InOrder.left (h : InOrder lo hi l) : InOrder lo hi (sweep lo hi l w).2 :=
  h.sublist (dropWhile_sublist _)

theorem sweepAll_eq (h : InOrder lo hi l) (hw : Increasing windows) :
    sweepAll lo hi l windows = windows.map (overlaps lo hi l) := by
  induction windows generalizing l with
  | nil => rfl
  | cons w rest ih =>
    obtain ⟨hfirst, hrest⟩ := pairwise_cons.1 hw
    have hlater : rest.map (overlaps lo hi (sweep lo hi l w).2) =
        rest.map (overlaps lo hi l) :=
      map_congr_left fun v hv => overlaps_left (hfirst v hv)
    rw [sweepAll, map_cons, sweep_eq h, ih h.left hrest, hlater]

/-! ## The order is needed -/

theorem exists_gt_forall [NoMaxOrder β] [Nonempty β] (lo : α → β) (l : List α) :
    ∃ e, ∀ a ∈ l, lo a < e := by
  induction l with
  | nil => exact ⟨Classical.arbitrary β, by simp⟩
  | cons a l ih =>
    obtain ⟨e, he⟩ := ih
    obtain ⟨e', he'⟩ := exists_gt (max (lo a) e)
    refine ⟨e', forall_mem_cons.2 ⟨lt_of_le_of_lt (le_max_left _ _) he', fun b hb => ?_⟩⟩
    exact (he b hb).trans (lt_of_le_of_lt (le_max_right _ _) he')

theorem exists_lt_forall [NoMinOrder β] [Nonempty β] (hi : α → β) (l : List α) :
    ∃ s, ∀ a ∈ l, s < hi a := by
  induction l with
  | nil => exact ⟨Classical.arbitrary β, by simp⟩
  | cons a l ih =>
    obtain ⟨s, hs⟩ := ih
    obtain ⟨s', hs'⟩ := exists_lt (min (hi a) s)
    refine ⟨s', forall_mem_cons.2 ⟨lt_of_lt_of_le hs' (min_le_left _ _), fun b hb => ?_⟩⟩
    exact (lt_of_lt_of_le hs' (min_le_right _ _)).trans (hs b hb)

theorem pairwise_of_takeWhile {f : α → β}
    (h : ∀ e, l.takeWhile (fun a => f a < e) = l.filter fun a => f a < e) :
    l.Pairwise fun a b => f a ≤ f b := by
  induction l with
  | nil => exact .nil
  | cons a l ih =>
    have hpast : ∀ e, ¬f a < e → ∀ b ∈ l, ¬f b < e := by
      intro e he
      have heq := h e
      rw [takeWhile_cons_of_neg (by simpa using he),
        filter_cons_of_neg (by simpa using he)] at heq
      simpa using filter_eq_nil_iff.1 heq.symm
    refine pairwise_cons.2 ⟨fun b hb => not_lt.1 (hpast (f a) (lt_irrefl _) b hb),
      ih fun e => ?_⟩
    by_cases he : f a < e
    · have heq := h e
      rw [takeWhile_cons_of_pos (by simpa using he),
        filter_cons_of_pos (by simpa using he)] at heq
      exact (cons.inj heq).2
    · have hnone : l.filter (fun a => f a < e) = [] :=
        filter_eq_nil_iff.2 fun b hb => by simpa using hpast e he b hb
      rw [hnone]
      cases l with
      | nil => rfl
      | cons b l => exact takeWhile_cons_of_neg (by simpa using hpast e he b (by simp))

theorem pairwise_of_dropWhile {f : α → β}
    (h : ∀ s, l.dropWhile (fun a => f a ≤ s) = l.filter fun a => f a > s) :
    l.Pairwise fun a b => f a ≤ f b := by
  induction l with
  | nil => exact .nil
  | cons a l ih =>
    have hlate : ∀ s, f a > s → l = l.filter fun a => f a > s := by
      intro s hs
      have heq := h s
      rw [dropWhile_cons_of_neg (by simpa using hs),
        filter_cons_of_pos (by simpa using hs)] at heq
      exact (cons.inj heq).2
    refine pairwise_cons.2 ⟨fun b hb => ?_, ih fun s => ?_⟩
    · by_contra hlt
      rw [hlate (f b) (not_le.1 hlt)] at hb
      have hself := (mem_filter.1 hb).2
      simp at hself
    · by_cases hs : f a ≤ s
      · have heq := h s
        rwa [dropWhile_cons_of_pos (by simpa using hs),
          filter_cons_of_neg (by simpa using hs)] at heq
      · have hall := hlate s (not_le.1 hs)
        rw [← hall]
        cases l with
        | nil => rfl
        | cons b l =>
          have hb : f b > s := by
            have hmem : b ∈ (b :: l).filter fun a => f a > s := hall ▸ mem_cons_self
            simpa using (mem_filter.1 hmem).2
          exact dropWhile_cons_of_neg (by simpa using hb)

/-- A window that ends behind all starts drops what has ended, and a window that starts before all
ends takes what has started. -/
theorem inOrder_of_sweep [NoMaxOrder β] [NoMinOrder β] [Nonempty β]
    (h : ∀ w, (sweep lo hi l w).1 = overlaps lo hi l w) : InOrder lo hi l := by
  obtain ⟨s, hs⟩ := exists_lt_forall hi l
  obtain ⟨e, he⟩ := exists_gt_forall lo l
  have hstarts : l.Pairwise fun a b => lo a ≤ lo b := by
    refine pairwise_of_takeWhile fun x => ?_
    have hkept : l.dropWhile (fun a => hi a ≤ s) = l :=
      dropWhile_eq_self_iff.2 fun hl => by simpa using hs _ (getElem_mem hl)
    have heq := h (s, x)
    unfold sweep overlaps at heq
    simp only [hkept] at heq
    rw [heq]
    exact filter_congr fun a ha => by simp [hs a ha]
  have hends : l.Pairwise fun a b => hi a ≤ hi b := by
    refine pairwise_of_dropWhile fun x => ?_
    have heq := h (x, e)
    unfold sweep overlaps at heq
    simp only at heq
    have htaken : (l.dropWhile fun a => decide (hi a ≤ x)).takeWhile (fun a => decide (lo a < e)) =
        l.dropWhile fun a => decide (hi a ≤ x) :=
      takeWhile_eq_self_iff.2 fun a ha => by
        simpa using he a ((dropWhile_sublist _).subset ha)
    rw [htaken] at heq
    rw [heq]
    exact filter_congr fun a ha => by simp [he a ha]
  exact hstarts.and hends

/-- **A sweep is the overlap filter exactly on ordered intervals.** -/
theorem inOrder_iff_sweepAll [NoMaxOrder β] [NoMinOrder β] [Nonempty β] :
    InOrder lo hi l ↔ ∀ windows, Increasing windows →
      sweepAll lo hi l windows = windows.map (overlaps lo hi l) := by
  constructor
  · exact fun h windows hw => sweepAll_eq h hw
  · intro h
    refine inOrder_of_sweep fun w => ?_
    have hone := h [w] (pairwise_singleton _ w)
    exact (cons.inj hone).1

end Lib
