import Mathlib.Data.Nat.Find

/-!
# A first-in first-out pool whose jobs wait for earlier ones

The jobs of a pool are numbered in the order they were submitted and started in
that order, so those before `started` were started.  A job may wait for the end
of one that was submitted before it.  However few workers there are, the jobs
that wait never hold all of them: of the jobs that have not ended the first one
waits for nothing (`FifoPool.unblocked`).
-/

namespace Lib

structure FifoPool where
  jobs : Nat
  started : Nat
  /-- The job that a job waits for. -/
  previous : Nat → Option Nat
  finished : Nat → Prop

namespace FifoPool

variable (pool : FifoPool)

structure WellFormed : Prop where
  started_le : pool.started ≤ pool.jobs
  finished_lt : ∀ j, pool.finished j → j < pool.started
  previous_lt : ∀ j p, pool.previous j = some p → p < j

def Running (j : Nat) : Prop := j < pool.started ∧ ¬ pool.finished j

/-- The job that `j` waits for has ended. -/
def Unblocked (j : Nat) : Prop := ∀ p, pool.previous j = some p → pool.finished p

variable {pool}

theorem WellFormed.first (h : pool.WellFormed) {j : Nat}
    (hfirst : ∀ i, i < j → pool.finished i) : pool.Unblocked j :=
  fun p hp => hfirst p (h.previous_lt j p hp)

/-- **Jobs that wait never block the pool.**  While a job has not ended, one that runs waits for
nothing, or none runs and the next to start waits for nothing. -/
theorem WellFormed.unblocked (h : pool.WellFormed) (hleft : ∃ j, j < pool.jobs ∧ ¬ pool.finished j) :
    (∃ j, pool.Running j ∧ pool.Unblocked j) ∨
      (∀ j, ¬ pool.Running j) ∧ pool.started < pool.jobs ∧ pool.Unblocked pool.started := by
  classical
  have hex : ∃ j, ¬ pool.finished j := hleft.imp fun _ h => h.2
  have hleast := Nat.find_spec hex
  have hfirst : ∀ i, i < Nat.find hex → pool.finished i := fun i hi => not_not.1 (Nat.find_min hex hi)
  by_cases hstarted : Nat.find hex < pool.started
  · exact .inl ⟨Nat.find hex, ⟨hstarted, hleast⟩, h.first hfirst⟩
  -- every job that was started has ended
  have hnext : Nat.find hex = pool.started := by
    refine Nat.le_antisymm ?_ (Nat.le_of_not_lt hstarted)
    exact Nat.find_min' hex fun hf => Nat.lt_irrefl _ (h.finished_lt _ hf)
  obtain ⟨j, hj, hleft⟩ := hleft
  rw [hnext] at hfirst hleast
  refine .inr ⟨fun i hi => hi.2 (hfirst i hi.1), ?_, h.first hfirst⟩
  have hge : pool.started ≤ j := Nat.le_of_not_lt fun hlt => hleft (hfirst j hlt)
  exact Nat.lt_of_le_of_lt hge hj

end FifoPool

end Lib
