import LMCacheAscend.Lib.Places
import Mathlib.Algebra.Order.Ring.Int

/-!
# Machines: steps that may be refused, runs and invariants

A machine is a set of start states and a step function; `none` is a step that
is not enabled.  `ReachableIf ok` are the states of the runs whose steps all
meet `ok` (a condition on the state before the step and the action), and
`Reachable` those of every run.  An invariant is proved once per action
(`Inductive`, `InductiveIf`) and then holds along every run
(`Inductive.reachable`, `InductiveIf.reachable`).
-/

namespace Lib

open List

structure Machine (σ α : Type) where
  start : σ → Prop
  step : σ → α → Option σ

namespace Machine

variable {σ α : Type} (M : Machine σ α)

/-- States of the runs whose steps all meet `ok`. -/
inductive ReachableIf (ok : σ → α → Prop) : σ → Prop
  | start {s : σ} : M.start s → ReachableIf ok s
  | step {s s' : σ} (a : α) : ReachableIf ok s → ok s a → M.step s a = some s' → ReachableIf ok s'

/-- States of every run. -/
def Reachable : σ → Prop := M.ReachableIf fun _ _ => True

/-- `I` holds at the start and is kept by every step that meets `ok`. -/
structure InductiveIf (ok : σ → α → Prop) (I : σ → Prop) : Prop where
  start : ∀ s, M.start s → I s
  step : ∀ s a s', I s → ok s a → M.step s a = some s' → I s'

/-- `I` holds at the start and is kept by every step. -/
structure Inductive (I : σ → Prop) : Prop where
  start : ∀ s, M.start s → I s
  step : ∀ s a s', I s → M.step s a = some s' → I s'

variable {M}

theorem InductiveIf.reachable {ok : σ → α → Prop} {I : σ → Prop} (h : M.InductiveIf ok I) {s : σ}
    (hs : M.ReachableIf ok s) : I s := by
  induction hs with
  | start h0 => exact h.start _ h0
  | step a _ hok hstep ih => exact h.step _ a _ ih hok hstep

theorem Inductive.reachable {I : σ → Prop} (h : M.Inductive I) {s : σ} (hs : M.Reachable s) :
    I s :=
  InductiveIf.reachable ⟨h.start, fun s a s' hI _ => h.step s a s' hI⟩ hs

variable (M)

/-- The run of a list of actions (`none` as soon as one is refused). -/
def run (s : σ) : List α → Option σ
  | [] => some s
  | a :: as => match M.step s a with
    | some s' => run s' as
    | none => none

variable {M}

variable {s s' : σ} {as : List α} {ok : σ → α → Prop}

theorem Reachable.step (h : M.Reachable s) (a : α) (hs : M.step s a = some s') :
    M.Reachable s' :=
  ReachableIf.step a h trivial hs

/-- A run of actions that meet `ok` in every state. -/
theorem ReachableIf.run (h : M.ReachableIf ok s)
    (hok : ∀ a ∈ as, ∀ t, ok t a) (hr : M.run s as = some s') : M.ReachableIf ok s' := by
  induction as generalizing s with
  | nil => cases hr; exact h
  | cons a as ih =>
    rw [Machine.run] at hr
    split at hr
    · next s1 hs =>
      exact ih (.step a h (hok a mem_cons_self s) hs)
        (fun b hb => hok b (mem_cons_of_mem a hb)) hr
    · cases hr

theorem Reachable.run (h : M.Reachable s) (hr : M.run s as = some s') :
    M.Reachable s' :=
  ReachableIf.run h (fun _ _ _ => trivial) hr

theorem reachable_of_run (h0 : M.start s) (hr : M.run s as = some s') :
    M.Reachable s' :=
  Reachable.run (.start h0) hr

variable (M)

/-- The run of a list of actions, refused as soon as one does not meet `ok`. -/
def runIf (ok : σ → α → Prop) [∀ s a, Decidable (ok s a)] (s : σ) : List α → Option σ
  | [] => some s
  | a :: as =>
    if ok s a then
      match M.step s a with
      | some s' => runIf ok s' as
      | none => none
    else none

variable {M}

theorem ReachableIf.runIf [∀ s a, Decidable (ok s a)]
    (h : M.ReachableIf ok s) (hr : M.runIf ok s as = some s') :
    M.ReachableIf ok s' := by
  induction as generalizing s with
  | nil => cases hr; exact h
  | cons a as ih =>
    rw [Machine.runIf] at hr
    split at hr
    · next hok =>
      split at hr
      · next s1 hs => exact ih (.step a h hok hs) hr
      · cases hr
    · cases hr

variable (M)

/-- The machine that goes on from one state. -/
def after (s : σ) : Machine σ α := { M with start := fun t => t = s }

variable {M}

theorem ReachableIf.trans_after (h : M.ReachableIf ok s)
    (h' : (M.after s).ReachableIf ok s') : M.ReachableIf ok s' := by
  induction h' with
  | start h0 =>
    cases h0
    exact h
  | step a _ hok hstep ih => exact .step a ih hok hstep

end Machine

/-! ## Steps that always go on -/

section Along

variable {σ α : Type} (step : σ → α → σ)

/-- `P` holds of each step of a run, at the state it is taken in. -/
def Along (P : σ → α → Prop) : σ → List α → Prop
  | _, [] => True
  | s, a :: as => P s a ∧ Along P (step s a) as

variable {step}

/-- What two conditions agree on under an invariant that they keep, they agree on along runs. -/
theorem along_iff {P Q : σ → α → Prop} {I : σ → Prop} (hiff : ∀ s a, I s → (P s a ↔ Q s a))
    (hstep : ∀ s a, I s → Q s a → I (step s a)) {s : σ} (hs : I s) (as : List α) :
    Along step P s as ↔ Along step Q s as := by
  induction as generalizing s with
  | nil => exact Iff.rfl
  | cons a as ih =>
    constructor
    · rintro ⟨hp, has⟩
      have hq := (hiff s a hs).1 hp
      exact ⟨hq, (ih (hstep s a hs hq)).1 has⟩
    · rintro ⟨hq, has⟩
      exact ⟨(hiff s a hs).2 hq, (ih (hstep s a hs hq)).2 has⟩

end Along

end Lib
