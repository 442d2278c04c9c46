import LMCacheAscend.Lib.Places
import Mathlib.Data.List.Induction

/-!
# Streams of a device

A host issues commands one after the other: an operation put at the end of a
stream, an event recorded on a stream, a stream that waits for an event, an
operation that the host itself does before it goes on, or the host's wait for a
stream.  A stream is a queue that is worked off in order; an event stands for
what was on its stream when it was last recorded.  A command is named by its
place in the program, and a `Schedule` gives each a start and a finish.

`known` follows a program and collects what is over before the next operation
of each stream, and of the host, may start; `Schedule.sound` says that it is so
in every schedule.  `Schedule.delay` is a schedule that is late on one stream
for as long as nothing waits for it.
-/

namespace Lib

open List Option

inductive Cmd (σ ε ω : Type)
  | launch (stream : σ) (op : ω)
  | record (event : ε) (stream : σ)
  | wait (stream : σ) (event : ε)
  | call (op : ω)
  | sync (stream : σ)
deriving DecidableEq, Repr

variable {σ ε ω : Type}

namespace Cmd

/-- The stream in whose queue a command stands. -/
def stream : Cmd σ ε ω → Option σ
  | .launch s _ => some s
  | .record _ s => some s
  | .wait s _ => some s
  | .call _ => none
  | .sync _ => none

/-- The host goes on when the command is over. -/
def Blocks : Cmd σ ε ω → Prop
  | .call _ => True
  | .sync _ => True
  | _ => False

end Cmd

/-- The command at a place stands in the queue of a stream. -/
def Queued (p : List (Cmd σ ε ω)) (s : σ) (j : Nat) : Prop :=
  ∃ c, p[j]? = some c ∧ c.stream = some s

theorem queued_iff {p : List (Cmd σ ε ω)} {s : σ} {j : Nat} :
    Queued p s j ↔ p[j]?.bind Cmd.stream = some s := by
  unfold Queued
  rw [bind_eq_some_iff]

/-- Times that a device may give to the commands of a program. -/
structure Schedule (p : List (Cmd σ ε ω)) where
  start : Nat → Nat
  finish : Nat → Nat
  start_le : ∀ j, start j ≤ finish j
  queue : ∀ i j s, i < j → Queued p s i → Queued p s j → finish i ≤ start j
  event : ∀ r j e s t, r < j → p[r]? = some (.record e s) → p[j]? = some (.wait t e) →
    (∀ m u, r < m → m < j → p[m]? ≠ some (.record e u)) → finish r ≤ finish j
  blocks : ∀ i j c, i < j → j < p.length → p[i]? = some c → c.Blocks → finish i ≤ start j
  sync : ∀ i j s, i < j → Queued p s i → p[j]? = some (.sync s) → finish i ≤ finish j

/-! ## What is known to be over -/

/-- The commands that are over before the next one of a stream, or of the host, may start, and
those that an event stands for. -/
structure Known (σ ε : Type) where
  size : Nat
  stream : σ → Nat → Prop
  host : Nat → Prop
  event : ε → Nat → Prop

namespace Known

def empty : Known σ ε := ⟨0, fun _ _ => False, fun _ => False, fun _ _ => False⟩

def add (k : Known σ ε) : Cmd σ ε ω → Known σ ε
  | .launch s _ =>
    { k with size := k.size + 1, stream := fun t n => k.stream t n ∨ (t = s ∧ n = k.size) }
  | .record e s =>
    { k with size := k.size + 1,
             event := fun f n => (f = e ∧ (k.stream s n ∨ k.host n)) ∨ (f ≠ e ∧ k.event f n) }
  | .wait s e =>
    { k with size := k.size + 1, stream := fun t n => k.stream t n ∨ (t = s ∧ k.event e n) }
  | .call _ => { k with size := k.size + 1, host := fun n => k.host n ∨ n = k.size }
  | .sync s => { k with size := k.size + 1, host := fun n => k.host n ∨ k.stream s n }

variable {k : Known σ ε} {s t : σ} {e f : ε} {o : ω} {n : Nat}

variable (c : Cmd σ ε ω)

@[simp] theorem size_add : (k.add c).size = k.size + 1 := by
  cases c <;> rfl

theorem stream_add (h : k.stream s n) : (k.add c).stream s n := by
  cases c with
  | launch | wait => exact .inl h
  | record | call | sync => exact h

theorem host_add (h : k.host n) : (k.add c).host n := by
  cases c with
  | call | sync => exact .inl h
  | launch | record | wait => exact h

theorem event_add {c : Cmd σ ε ω} (hc : ∀ s, c ≠ .record e s) (h : k.event e n) :
    (k.add c).event e n := by
  cases c with
  | record f s =>
    refine .inr ⟨?_, h⟩
    rintro rfl
    exact hc s rfl
  | launch | wait | call | sync => exact h

theorem event_record (h : k.stream s n ∨ k.host n) :
    (k.add (.record e s : Cmd σ ε ω)).event e n :=
  .inl ⟨rfl, h⟩

theorem stream_wait (h : k.event e n) : (k.add (.wait s e : Cmd σ ε ω)).stream s n :=
  .inr ⟨rfl, h⟩

theorem stream_launch : (k.add (.launch s o : Cmd σ ε ω)).stream s k.size := .inr ⟨rfl, rfl⟩

theorem host_call : (k.add (.call o : Cmd σ ε ω)).host k.size := .inr rfl

theorem host_sync (h : k.stream s n) : (k.add (.sync s : Cmd σ ε ω)).host n := .inr h

end Known

def known (p : List (Cmd σ ε ω)) : Known σ ε := p.foldl Known.add Known.empty

theorem known_append (p : List (Cmd σ ε ω)) (c : Cmd σ ε ω) :
    known (p ++ [c]) = (known p).add c := by
  unfold known
  rw [foldl_append]
  rfl

theorem host_known_append {p : List (Cmd σ ε ω)} {n : Nat} (h : (known p).host n)
    (q : List (Cmd σ ε ω)) : (known (p ++ q)).host n := by
  induction q generalizing p with
  | nil =>
    rw [append_nil]
    exact h
  | cons c q ih =>
    rw [append_cons]
    refine ih ?_
    rw [known_append]
    exact Known.host_add c h

theorem stream_known_append {p : List (Cmd σ ε ω)} {s : σ} {n : Nat} (h : (known p).stream s n)
    (q : List (Cmd σ ε ω)) : (known (p ++ q)).stream s n := by
  induction q generalizing p with
  | nil =>
    rw [append_nil]
    exact h
  | cons c q ih =>
    rw [append_cons]
    refine ih ?_
    rw [known_append]
    exact Known.stream_add c h

theorem event_known_append {p q : List (Cmd σ ε ω)} {e : ε} {n : Nat} (h : (known p).event e n)
    (hq : ∀ s, .record e s ∉ q) : (known (p ++ q)).event e n := by
  induction q generalizing p with
  | nil =>
    rw [append_nil]
    exact h
  | cons c q ih =>
    rw [append_cons]
    refine ih ?_ fun s hs => hq s (mem_cons_of_mem c hs)
    rw [known_append]
    refine Known.event_add ?_ h
    intro s hs
    rw [hs] at hq
    exact hq s mem_cons_self

theorem stream_of_wait {p q : List (Cmd σ ε ω)} {s : σ} {e : ε} {n : Nat}
    (h : (known p).event e n) (hwait : .wait s e ∈ q) (hq : ∀ t, .record e t ∉ q) :
    (known (p ++ q)).stream s n := by
  obtain ⟨q1, q2, rfl⟩ := append_of_mem hwait
  rw [← append_assoc, append_cons]
  refine stream_known_append ?_ q2
  rw [known_append]
  refine Known.stream_wait (event_known_append h fun t ht => ?_)
  exact hq t (mem_append_left _ ht)

theorem host_of_sync {p q : List (Cmd σ ε ω)} {s : σ} {n : Nat} (h : (known p).stream s n)
    (hsync : .sync s ∈ q) : (known (p ++ q)).host n := by
  obtain ⟨q1, q2, rfl⟩ := append_of_mem hsync
  rw [← append_assoc, append_cons]
  refine host_known_append ?_ q2
  rw [known_append]
  exact Known.host_sync (stream_known_append h q1)

/-- `s.wait_stream(t)`: an event is recorded, and waited for. -/
def waitStream (s t : σ) (e : ε) : List (Cmd σ ε ω) := [.record e t, .wait s e]

theorem stream_waitStream {p : List (Cmd σ ε ω)} {s t : σ} {e : ε} {n : Nat}
    (h : (known p).stream t n) : (known (p ++ waitStream s t e)).stream s n := by
  unfold waitStream
  rw [append_cons, known_append, known_append]
  exact Known.stream_wait (Known.event_record (.inl h))

@[simp] theorem size_known (p : List (Cmd σ ε ω)) : (known p).size = p.length := by
  induction p using List.reverseRecOn with
  | nil => rfl
  | append_singleton p c ih => rw [known_append, Known.size_add, ih, length_append,
      length_singleton]

/-! ## Operations -/

/-- An operation is launched at a place of the program. -/
def Launched (p : List (Cmd σ ε ω)) (j : Nat) (o : ω) : Prop :=
  ∃ s, p[j]? = some (.launch s o)

/-- The command at `i` is known to be over before the one at `j` starts. -/
def Ahead (p : List (Cmd σ ε ω)) (i j : Nat) : Prop :=
  ∃ c, p[j]? = some c ∧
    ((known (p.take j)).host i ∨ ∃ s, c.stream = some s ∧ (known (p.take j)).stream s i)

section

variable {p q : List (Cmd σ ε ω)} {i j : Nat} {o : ω}

theorem launched_append : Launched (p ++ q) j o ↔
    Launched p j o ∨ ∃ m, j = p.length + m ∧ Launched q m o := by
  unfold Launched
  by_cases hj : j < p.length
  · rw [getElem?_append_left hj]
    constructor
    · exact .inl
    · rintro (h | ⟨m, hm, -⟩)
      · exact h
      · omega
  · rw [getElem?_append_right (by omega)]
    constructor
    · exact fun h => .inr ⟨j - p.length, by omega, h⟩
    · rintro (⟨s, hs⟩ | ⟨m, rfl, h⟩)
      · exact absurd (lt_of_getElem? hs) hj
      · rw [Nat.add_sub_cancel_left]
        exact h

theorem Ahead.append (h : Ahead p i j) (q : List (Cmd σ ε ω)) : Ahead (p ++ q) i j := by
  obtain ⟨c, hc, hknown⟩ := h
  have hj : j < p.length := lt_of_getElem? hc
  refine ⟨c, ?_, ?_⟩
  · rw [getElem?_append_left hj]
    exact hc
  · rw [take_append_of_le_length (Nat.le_of_lt hj)]
    exact hknown

theorem ahead_launch {s : σ} {r : List (Cmd σ ε ω)}
    (h : (known p).host i ∨ (known p).stream s i) :
    Ahead (p ++ .launch s o :: r) i p.length := by
  refine ⟨.launch s o, ?_, ?_⟩
  · rw [getElem?_append_right (Nat.le_refl _), Nat.sub_self, getElem?_cons_zero]
  · rw [take_left']
    · exact h.imp id fun h => ⟨s, rfl, h⟩
    · rfl

end

namespace Schedule

variable {p : List (Cmd σ ε ω)} (S : Schedule p)

/-- What `k` says of the first `m` commands holds: what a stream knows of is behind a command in
its queue, and what an event stands for is behind its last record. -/
structure Meets (k : Known σ ε) (m : Nat) : Prop where
  stream : ∀ s n, k.stream s n → ∃ i, i < m ∧ Queued p s i ∧ S.finish n ≤ S.finish i
  host : ∀ n, k.host n → ∀ j, m ≤ j → j < p.length → S.finish n ≤ S.start j
  event : ∀ e n, k.event e n → ∃ r s, r < m ∧ p[r]? = some (.record e s) ∧
    (∀ i u, r < i → i < m → p[i]? ≠ some (.record e u)) ∧ S.finish n ≤ S.finish r

variable {S} {k : Known σ ε} {m : Nat}

theorem Meets.before (h : S.Meets k m) {s : σ} {n j : Nat} (hn : k.stream s n) (hj : m ≤ j)
    (hq : Queued p s j) : S.finish n ≤ S.start j := by
  obtain ⟨i, hi, hqi, hle⟩ := h.stream s n hn
  exact Nat.le_trans hle (S.queue i j s (by omega) hqi hq)

theorem Meets.streams (h : S.Meets k m) (s : σ) (n : Nat) (hn : k.stream s n) :
    ∃ i, i < m + 1 ∧ Queued p s i ∧ S.finish n ≤ S.finish i := by
  obtain ⟨i, hi, hq, hle⟩ := h.stream s n hn
  exact ⟨i, Nat.lt_succ_of_lt hi, hq, hle⟩

theorem Meets.hosts (h : S.Meets k m) (n : Nat) (hn : k.host n) (j : Nat) (hj : m + 1 ≤ j)
    (hjp : j < p.length) : S.finish n ≤ S.start j :=
  h.host n hn j (Nat.le_of_succ_le hj) hjp

theorem Meets.events (h : S.Meets k m) {e : ε} {n : Nat} (hn : k.event e n)
    (hrecord : ∀ u, p[m]? ≠ some (.record e u)) : ∃ r s, r < m + 1 ∧
      p[r]? = some (.record e s) ∧ (∀ i u, r < i → i < m + 1 → p[i]? ≠ some (.record e u)) ∧
      S.finish n ≤ S.finish r := by
  obtain ⟨r, s, hr, hp, hlast, hle⟩ := h.event e n hn
  refine ⟨r, s, Nat.lt_succ_of_lt hr, hp, fun i u hi him => ?_, hle⟩
  rcases Nat.lt_succ_iff_lt_or_eq.1 him with him | rfl
  · exact hlast i u hi him
  · exact hrecord u

theorem Meets.add (h : S.Meets k m) (hm : k.size = m) {c : Cmd σ ε ω} (hc : p[m]? = some c) :
    S.Meets (k.add c) (m + 1) := by
  subst hm
  have hlt : k.size < p.length := lt_of_getElem? hc
  cases c with
  | launch s o =>
    refine ⟨fun t n hn => ?_, h.hosts, fun e n hn => h.events hn fun u hu => ?_⟩
    · rcases hn with hn | ⟨rfl, rfl⟩
      · exact h.streams t n hn
      · exact ⟨k.size, Nat.lt_succ_self _, ⟨_, hc, rfl⟩, Nat.le_refl _⟩
    · cases hc.symm.trans hu
  | record e s =>
    refine ⟨h.streams, h.hosts, fun f n hn => ?_⟩
    rcases hn with ⟨rfl, hn⟩ | ⟨hne, hn⟩
    · refine ⟨k.size, s, Nat.lt_succ_self _, hc, fun i u hi hi' => absurd hi' (by omega), ?_⟩
      refine Nat.le_trans ?_ (S.start_le k.size)
      rcases hn with hn | hn
      · exact h.before hn (Nat.le_refl _) ⟨_, hc, rfl⟩
      · exact h.host n hn k.size (Nat.le_refl _) hlt
    · refine h.events hn fun u hu => ?_
      cases hc.symm.trans hu
      exact hne rfl
  | wait s e =>
    refine ⟨fun t n hn => ?_, h.hosts, fun e n hn => h.events hn fun u hu => ?_⟩
    · rcases hn with hn | ⟨rfl, hn⟩
      · exact h.streams t n hn
      obtain ⟨r, u, hr, hp, hlast, hle⟩ := h.event e n hn
      have hwait : S.finish r ≤ S.finish k.size := S.event r k.size e u t hr hp hc hlast
      exact ⟨k.size, Nat.lt_succ_self _, ⟨_, hc, rfl⟩, Nat.le_trans hle hwait⟩
    · cases hc.symm.trans hu
  | call o =>
    refine ⟨h.streams, fun n hn j hj hjp => ?_, fun e n hn => h.events hn fun u hu => ?_⟩
    · rcases hn with hn | rfl
      · exact h.hosts n hn j hj hjp
      · exact S.blocks k.size j _ hj hjp hc trivial
    · cases hc.symm.trans hu
  | sync s =>
    refine ⟨h.streams, fun n hn j hj hjp => ?_, fun e n hn => h.events hn fun u hu => ?_⟩
    · rcases hn with hn | hn
      · exact h.hosts n hn j hj hjp
      obtain ⟨i, hi, hq, hle⟩ := h.stream s n hn
      have hsync : S.finish i ≤ S.finish k.size := S.sync i k.size s hi hq hc
      have hnext : S.finish k.size ≤ S.start j := S.blocks k.size j _ hj hjp hc trivial
      exact Nat.le_trans hle (Nat.le_trans hsync hnext)
    · cases hc.symm.trans hu

theorem meets_known (S : Schedule p) (q r : List (Cmd σ ε ω)) (hp : p = q ++ r) :
    S.Meets (known q) q.length := by
  induction q using List.reverseRecOn generalizing r with
  | nil =>
    exact ⟨fun s n hn => (nomatch hn), fun n hn => (nomatch hn), fun e n hn => (nomatch hn)⟩
  | append_singleton q c ih =>
    have hpq : p = q ++ c :: r := by rw [hp, append_assoc, singleton_append]
    have hc : p[q.length]? = some c := by
      rw [hpq, getElem?_append_right (Nat.le_refl _), Nat.sub_self, getElem?_cons_zero]
    rw [known_append, length_append, length_singleton]
    exact (ih (c :: r) hpq).add (size_known q) hc

/-- What is known when a command is issued is over when it starts. -/
theorem sound (S : Schedule p) {q r : List (Cmd σ ε ω)} {c : Cmd σ ε ω} (hp : p = q ++ c :: r)
    {n : Nat} (hn : (known q).host n ∨ ∃ s, c.stream = some s ∧ (known q).stream s n) :
    S.finish n ≤ S.start q.length := by
  have hc : p[q.length]? = some c := by
    rw [hp, getElem?_append_right (Nat.le_refl _), Nat.sub_self, getElem?_cons_zero]
  have hmeets := meets_known S q (c :: r) hp
  rcases hn with hn | ⟨s, hs, hn⟩
  · exact hmeets.host n hn _ (Nat.le_refl _) (lt_of_getElem? hc)
  · exact hmeets.before hn (Nat.le_refl _) ⟨c, hc, hs⟩

theorem ahead (S : Schedule p) {i j : Nat} (h : Ahead p i j) : S.finish i ≤ S.start j := by
  obtain ⟨c, hc, hknown⟩ := h
  have hj : j < p.length := lt_of_getElem? hc
  have hp : p = p.take j ++ c :: p.drop (j + 1) := by
    have hget : p.get ⟨j, hj⟩ = c := by
      rw [getElem?_eq_getElem hj] at hc
      exact some.inj hc
    rw [← hget, get_eq_getElem, ← drop_eq_getElem_cons hj, take_append_drop]
  have hlen : (p.take j).length = j := by
    rw [length_take, Nat.min_eq_left (Nat.le_of_lt hj)]
  have hsound := S.sound hp hknown
  rw [hlen] at hsound
  exact hsound

/-! ## A late stream -/

section

variable [DecidableEq σ]

/-- The times of the late schedule: the commands of `s` from `i` on, before `d`, come late. -/
def late (p : List (Cmd σ ε ω)) (s : σ) (i d j : Nat) : Nat :=
  if j < d then
    if i ≤ j ∧ p[j]?.bind Cmd.stream = some s then d + j else j
  else 2 * d + j

variable {s : σ} {i d : Nat}

theorem le_late (j : Nat) : j ≤ late p s i d j := by
  unfold late
  split
  · split <;> omega
  · omega

variable {b a : Nat}

theorem late_mono_queue {t : σ} (hab : a < b) (ha : Queued p t a) (hb : Queued p t b) :
    late p s i d a ≤ late p s i d b := by
  rw [queued_iff] at ha hb
  unfold late
  rw [ha, hb]
  split
  · split
    · next h =>
      have hts : i ≤ b ∧ some t = some s := ⟨by omega, h.2⟩
      rw [if_pos hts]
      split <;> omega
    · split
      · split <;> omega
      · omega
  · rw [if_neg (by omega)]
    omega

/-- A command that is not late is not after a later one. -/
theorem late_le_of_not (hab : a < b) (ha : b < d → ¬ (i ≤ a ∧ p[a]?.bind Cmd.stream = some s)) :
    late p s i d a ≤ late p s i d b := by
  have hb := le_late (p := p) (s := s) (i := i) (d := d) b
  by_cases hbd : b < d
  · have haa : late p s i d a = a := by
      unfold late
      rw [if_pos (by omega), if_neg (ha hbd)]
    omega
  · have hbb : late p s i d b = 2 * d + b := by
      unfold late
      rw [if_neg hbd]
    have haa : late p s i d a ≤ 2 * d + a := by
      unfold late
      split
      · split <;> omega
      · omega
    omega

/-- Nothing before `d` waits for what the stream does from `i` on: it may all be late. -/
def delay (p : List (Cmd σ ε ω)) (s : σ) (i d : Nat)
    (hwait : ∀ r j e t, i ≤ r → r < j → j < d → p[r]? = some (.record e s) →
      p[j]? ≠ some (.wait t e))
    (hsync : ∀ j, i ≤ j → j < d → p[j]? ≠ some (.sync s)) : Schedule p where
  start := late p s i d
  finish := late p s i d
  start_le _ := Nat.le_refl _
  queue a b t hab ha hb := late_mono_queue hab ha hb
  event r j e u t hrj hr hj _ := by
    refine late_le_of_not hrj fun hjd h => ?_
    rw [hr] at h
    cases h.2
    exact hwait r j e t h.1 hrj hjd hr hj
  blocks a b c hab _ hc hblocks := by
    refine late_le_of_not hab fun _ h => ?_
    rw [hc] at h
    cases c <;> first | exact hblocks | cases h.2
  sync a b t hab ha hb := by
    refine late_le_of_not hab fun hbd h => ?_
    rw [queued_iff.1 ha] at h
    cases h.2
    exact hsync b (by omega) hbd hb

/-- In the late schedule the stream is not done when another command starts. -/
theorem late_lt (ha : Queued p s a) (hia : i ≤ a) (had : a < d) (hbd : b < d)
    (hb : p[b]?.bind Cmd.stream ≠ some s) : late p s i d b < late p s i d a := by
  rw [queued_iff] at ha
  unfold late
  rw [if_pos hbd, if_neg fun h => hb h.2, if_pos had, if_pos ⟨hia, ha⟩]
  omega

end

end Schedule

end Lib
