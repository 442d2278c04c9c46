import Mathlib.Data.List.Nodup
import LMCacheAscend.Lib.Ledger
import LMCacheAscend.StoreLayer.Program

/-!
# The memory objects of a call

What a run has allocated, handed over to the storage and given back, as a
ledger.  `Accounts s left held`: of the objects that are neither handed over nor
given back, the call still holds `held`, and `left` others are left behind.
-/

namespace StoreLayer

open Lib List

def Event.allocated : Event → List MemoryObj
  | .alloc obj => [obj]
  | _ => []

def Event.released : Event → List MemoryObj
  | .release obj => [obj]
  | _ => []

def Event.handed : Event → List MemoryObj
  | .put items => items.map PutItem.obj
  | _ => []

def allocated (events : List Event) : List MemoryObj := events.flatMap Event.allocated

def released (events : List Event) : List MemoryObj := events.flatMap Event.released

def handed (events : List Event) : List MemoryObj := events.flatMap Event.handed

variable (events es es' : List Event)

/-- An object is handed over once or given back once, and never both. -/
def Settled : Prop :=
  ∀ obj ∈ allocated events,
    (times (handed events) obj = 1 ∧ times (released events) obj = 0) ∨
      (times (handed events) obj = 0 ∧ times (released events) obj = 1)

@[simp] theorem allocated_append :
    allocated (es ++ es') = allocated es ++ allocated es' := flatMap_append

@[simp] theorem released_append :
    released (es ++ es') = released es ++ released es' := flatMap_append

@[simp] theorem handed_append : handed (es ++ es') = handed es ++ handed es' := flatMap_append

@[simp] theorem allocated_alloc (objs : List MemoryObj) : allocated (objs.map .alloc) = objs := by
  induction objs with
  | nil => rfl
  | cons obj objs ih => exact congrArg (obj :: ·) ih

@[simp] theorem released_release (objs : List MemoryObj) :
    released (objs.map .release) = objs := by
  induction objs with
  | nil => rfl
  | cons obj objs ih => exact congrArg (obj :: ·) ih

/-- An event that is about no object. -/
def Event.neutral : Event → Bool
  | .suspend _ => true
  | .copy _ => true
  | _ => false

def ledger : Ledger MemoryObj :=
  ⟨allocated events, handed events ++ released events⟩

theorem times_taken (x : MemoryObj) :
    times (ledger events).taken x = times (allocated events) x := rfl

theorem times_given (x : MemoryObj) :
    times (ledger events).given x = times (handed events) x + times (released events) x :=
  times_append _ _ x

structure Accounts (s : Run) (left : Nat) (held : List MemoryObj) : Prop where
  fresh : ∀ obj ∈ allocated s.events, obj.id < s.nextId
  nodup : (allocated s.events).Nodup
  books : ∃ gone : List MemoryObj, gone.length = left ∧ (ledger s.events).Holds (held ++ gone)

theorem Accounts.init : Accounts Run.init 0 [] :=
  { fresh := fun _ h => absurd h not_mem_nil
    nodup := nodup_nil
    books := ⟨[], rfl, fun _ => rfl⟩ }

namespace Accounts

variable {s s' : Run} {left : Nat} {held held' : List MemoryObj}

theorem congr (h : Accounts s left held) (ha : allocated s'.events = allocated s.events)
    (hh : handed s'.events = handed s.events) (hr : released s'.events = released s.events)
    (hid : s'.nextId = s.nextId) : Accounts s' left held := by
  have hl : ledger s'.events = ledger s.events := by
    unfold ledger
    rw [ha, hh, hr]
  refine ⟨?_, ?_, ?_⟩
  · rw [ha, hid]
    exact h.fresh
  · rw [ha]
    exact h.nodup
  · rw [hl]
    exact h.books

theorem of_times (h : Accounts s left held) (ht : ∀ x, times held' x = times held x) :
    Accounts s left held' := by
  obtain ⟨gone, hg, hb⟩ := h.books
  refine ⟨h.fresh, h.nodup, gone, hg, hb.of_times fun x => ?_⟩
  rw [times_append, times_append, ht x]

theorem abandon {lost : List MemoryObj} (h : Accounts s left (held ++ lost)) :
    Accounts s (left + lost.length) held := by
  obtain ⟨gone, hg, hb⟩ := h.books
  refine ⟨h.fresh, h.nodup, lost ++ gone, by simp [hg, Nat.add_comm], hb.of_times fun x => ?_⟩
  simp only [times_append]
  omega

theorem abandon_all (h : Accounts s left held) : Accounts s (left + held.length) [] :=
  abandon (show Accounts s left ([] ++ held) by simpa using h)

theorem neutral {es : List Event} (h : Accounts s left held) (he : ∀ e ∈ es, e.neutral = true)
    (hs : s'.events = s.events ++ es) (hid : s'.nextId = s.nextId) : Accounts s' left held := by
  have hzero : allocated es = [] ∧ handed es = [] ∧ released es = [] := by
    clear hs
    induction es with
    | nil => exact ⟨rfl, rfl, rfl⟩
    | cons e es ih =>
      obtain ⟨h1, h2, h3⟩ := ih fun e' he' => he e' (mem_cons_of_mem e he')
      have hn := he e mem_cons_self
      cases e with
      | suspend | copy => exact ⟨h1, h2, h3⟩
      | alloc | release | put => cases hn
  refine h.congr ?_ ?_ ?_ hid
  · rw [hs, allocated_append, hzero.1, append_nil]
  · rw [hs, handed_append, hzero.2.1, append_nil]
  · rw [hs, released_append, hzero.2.2, append_nil]

theorem allocate {count : Nat} {objs : List MemoryObj} {page : Bool} (h : Accounts s left held)
    (ho : objs = (range count).map fun i => ⟨s.nextId + i, page⟩)
    (hs : s'.events = s.events ++ objs.map .alloc) (hid : s'.nextId = s.nextId + count) :
    Accounts s' left (held ++ objs) := by
  have ha : allocated s'.events = allocated s.events ++ objs := by
    rw [hs, allocated_append, allocated_alloc]
  have hnone : handed (objs.map .alloc) = [] ∧ released (objs.map .alloc) = [] := by
    clear hs ha ho
    induction objs with
    | nil => exact ⟨rfl, rfl⟩
    | cons obj objs ih => exact ih
  have hmem : ∀ obj ∈ objs, s.nextId ≤ obj.id ∧ obj.id < s.nextId + count := by
    intro obj hobj
    rw [ho, mem_map] at hobj
    obtain ⟨i, hi, rfl⟩ := hobj
    rw [mem_range] at hi
    show s.nextId ≤ s.nextId + i ∧ s.nextId + i < s.nextId + count
    omega
  have hnd : objs.Nodup := by
    rw [ho]
    refine Nodup.map (fun i j hij => ?_) nodup_range
    have := congrArg MemoryObj.id hij
    simp only at this
    omega
  refine ⟨?_, ?_, ?_⟩
  · intro obj hobj
    rw [ha, mem_append] at hobj
    rw [hid]
    rcases hobj with hobj | hobj
    · have := h.fresh obj hobj
      omega
    · exact (hmem obj hobj).2
  · rw [ha, nodup_append]
    refine ⟨h.nodup, hnd, fun a ha' b hb hab => ?_⟩
    have h1 := h.fresh a ha'
    have h2 := (hmem b hb).1
    rw [hab] at h1
    omega
  · obtain ⟨gone, hg, hb⟩ := h.books
    refine ⟨gone, hg, fun x => ?_⟩
    have := hb x
    rw [times_taken, times_given, times_append] at this
    rw [times_taken, times_given, ha, hs, handed_append, released_append, hnone.1, hnone.2]
    simp only [times_append, times_nil]
    omega

theorem release {objs : List MemoryObj} (h : Accounts s left (held ++ objs))
    (hs : s'.events = s.events ++ objs.map .release) (hid : s'.nextId = s.nextId) :
    Accounts s' left held := by
  have hnone : handed (objs.map .release) = [] ∧ allocated (objs.map .release) = [] := by
    clear hs h
    induction objs with
    | nil => exact ⟨rfl, rfl⟩
    | cons obj objs ih => exact ih
  have ha : allocated s'.events = allocated s.events := by
    rw [hs, allocated_append, hnone.2, append_nil]
  refine ⟨?_, ?_, ?_⟩
  · rw [ha, hid]
    exact h.fresh
  · rw [ha]
    exact h.nodup
  · obtain ⟨gone, hg, hb⟩ := h.books
    refine ⟨gone, hg, fun x => ?_⟩
    have := hb x
    rw [times_taken, times_given, times_append, times_append] at this
    rw [times_taken, times_given, ha, hs, handed_append, released_append, hnone.1,
      released_release]
    simp only [times_append, times_nil]
    omega

theorem put {items : List PutItem} (h : Accounts s left held)
    (ht : ∀ x, times held x = times held' x + times (items.map PutItem.obj) x)
    (hs : s'.events = s.events ++ [.put items]) (hid : s'.nextId = s.nextId) :
    Accounts s' left held' := by
  have ha : allocated s'.events = allocated s.events := by
    rw [hs, allocated_append]
    exact append_nil _
  have hp : handed [.put items] = items.map PutItem.obj := append_nil _
  have hr : released [.put items] = [] := rfl
  refine ⟨?_, ?_, ?_⟩
  · rw [ha, hid]
    exact h.fresh
  · rw [ha]
    exact h.nodup
  · obtain ⟨gone, hg, hb⟩ := h.books
    refine ⟨gone, hg, fun x => ?_⟩
    have := hb x
    rw [times_taken, times_given, times_append, ht x] at this
    rw [times_taken, times_given, ha, hs, handed_append, released_append, hp, hr]
    simp only [times_append, times_nil]
    omega

theorem times_allocated_le (h : Accounts s left held) (x : MemoryObj) :
    times (allocated s.events) x ≤ 1 := nodup_iff_count_le_one.1 h.nodup x

theorem times_le (h : Accounts s left held) (x : MemoryObj) :
    times (handed s.events) x + times (released s.events) x + times held x ≤ 1 := by
  obtain ⟨gone, -, hb⟩ := h.books
  have hx := hb x
  rw [times_taken, times_given, times_append] at hx
  have := h.times_allocated_le x
  omega

theorem nodup_held (h : Accounts s left held) : held.Nodup := by
  rw [nodup_iff_count_le_one]
  intro x
  have := h.times_le x
  unfold times at this
  omega

theorem not_released (h : Accounts s left held) {x : MemoryObj} (hx : x ∈ held) :
    x ∉ released s.events := by
  intro hr
  have := h.times_le x
  have := times_pos hx
  have := times_pos hr
  omega

/-- When nothing is held any more, the objects are settled but for those left behind. -/
theorem settled_iff (h : Accounts s left []) : Settled s.events ↔ left = 0 := by
  obtain ⟨gone, rfl, hb⟩ := h.books
  have hbal : ∀ x, times (allocated s.events) x =
      times (handed s.events) x + times (released s.events) x + times gone x := by
    intro x
    have := hb x
    rw [times_taken, times_given, nil_append] at this
    exact this
  rw [length_eq_zero_iff]
  constructor
  · intro hset
    rw [eq_nil_iff_forall_not_mem]
    intro x hx
    have hpos := times_pos hx
    have hx' := hbal x
    have hmem : x ∈ allocated s.events :=
      count_pos_iff.1 (show 0 < times (allocated s.events) x by omega)
    have hone := h.times_allocated_le x
    have hx1 := hset x hmem
    omega
  · rintro rfl x hx
    have hx' := hbal x
    rw [times_nil] at hx'
    have hone := h.times_allocated_le x
    have hpos := times_pos hx
    omega

end Accounts

end StoreLayer
