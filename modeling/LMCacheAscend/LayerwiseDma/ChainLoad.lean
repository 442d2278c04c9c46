import LMCacheAscend.LayerwiseDma.BindChain
import LMCacheAscend.LayerwiseDma.SaveLoad

/-!
# Loading along a chain

A layer that was saved once is loaded again and again, by rows that a chain of calls plans
incrementally, keeps, patches in place or binds anew.  They are the rows of a load that starts from
scratch, so each load brings every cell to where the blocks of its own call have it.
-/

namespace LayerwiseDma

open Lib List

variable {cycles : Nat → DmaCycle} {blank : Segment} {blankPage : Page}
  {hostPtr hostTokens : Nat → Nat} {c : ChainCall} {L : Layer} {save load : Bank}

/-- The call loads the layer, from the pages of its objects into the bank. -/
structure ChainCall.Loads (cycles : Nat → DmaCycle) (hostPtr hostTokens : Nat → Nat)
    (c : ChainCall) (L : Layer) (d : Bank) : Prop where
  starts : c.plan.1.starts = L.ranges.map Prod.fst
  ends : c.plan.1.ends = L.ranges.map Prod.snd
  pages : c.sourceObjs.map (fun o => ⟨hostPtr o, hostTokens o⟩) = L.pages
  planeWidths : c.planeWidths = L.planeWidths
  elementBytes : c.elementBytes = L.elementBytes
  bank : d = ⟨cycles c.plan.1.cycle, c.plan.1.blockIds, c.plan.1.blockSize, 0,
    c.plan.1.slotMappingBase, c.npuPtrs⟩

theorem ChainCall.Loads.rows_eq (h : c.Loads cycles hostPtr hostTokens L load) (hL : L.Valid)
    (hl : load.Valid L) {plan : DmaPlan} {rows : List CopyRow}
    (hplan : (cycles c.plan.1.cycle).planBlockIdRanges c.plan.1.blockIds c.plan.1.blockSize
      c.plan.1.starts c.plan.1.ends c.plan.1.slotMappingBase 0 = .ok plan)
    (hrows : c.RowsOf hostPtr hostTokens plan rows) : rows = load.rows L false := by
  by_cases hnone : c.sourceObjs = []
  · have hranges : L.ranges = [] := by
      rw [← length_eq_zero_iff, ← hL.length_pages, ← h.pages, hnone]
      rfl
    rw [hrows.1 hnone, Bank.rows, hranges]
    rfl
  · have hcopies : load.copies L (some (L.pages.map Page.tokens)) false =
        .ok (load.rows L false) := Bank.copies_eq hL hl rfl
    have hsizes : (L.ranges.map fun r => r.2 - r.1) =
        c.plan.1.ends.zipWith (· - ·) c.plan.1.starts := by
      rw [h.starts, h.ends, zipWith_map, zipWith_self]
    unfold Bank.copies at hcopies
    rw [hsizes, ← h.starts, ← h.ends, ← h.planeWidths, ← h.elementBytes, ← h.pages, h.bank] at hcopies
    simp only [hplan, map_map] at hcopies
    rw [h.bank]
    exact Except.ok.inj ((hrows.2 hnone).symm.trans hcopies)

/-- **Loads along a chain restore what was saved.**  After any chain of truthful calls, the rows of
the next call take each cell of the layer, saved from another bank, to where its own blocks have
it, and change nothing else. -/
theorem chain_load_identity {β : Type*} (hcycles : ∀ i, (cycles i).Periodic) {s : BindChain}
    (h : (bindMachine hostPtr hostTokens cycles blank blankPage).ReachableIf
      (fun s c => c.Truthful s) s) (hc : c.Truthful s) {b : BoundCopyPrefix} {s' : BindChain}
    (hrun : c.run hostPtr hostTokens cycles blank blankPage s = (.ok b, s'))
    (hloads : c.Loads cycles hostPtr hostTokens L load) (hL : L.Valid) (hs : save.Valid L)
    (hl : load.Valid L) (hcells : load.CellsApart L) {saved : List CopyRow}
    (hsaved : save.copies L (some (L.pages.map Page.tokens)) true = .ok saved)
    (device device' host : Nat → β) :
    let out := copyAll (s'.store.getD b.rows []) (copyAll saved device host) device'
    (∀ i t p k, InChunk L.ranges i t → p < L.planeWidths.length → k < L.cellBytes p →
      out (load.cell L p t + k) = device (save.cell L p t + k)) ∧
    ∀ a, (∀ i t p, InChunk L.ranges i t → p < L.planeWidths.length →
      ¬(load.cell L p t ≤ a ∧ a < load.cell L p t + L.cellBytes p)) → out a = device' a := by
  have hinv : (bindMachine hostPtr hostTokens cycles blank blankPage).InductiveIf
      (fun s c => c.Truthful s) fun s => s.Consistent hostPtr hostTokens cycles := by
    constructor
    · rintro s ⟨h1, h2, h3⟩
      refine ⟨?_, ?_, ?_⟩
      · simp [h1]
      · simp [h2]
      · simp [h3]
    · intro s c s' hs htrue hstep
      cases hstep
      exact (c.run_spec blank blankPage hcycles hs htrue).1
  obtain ⟨plan, hplan, hrows⟩ :=
    (c.run_spec blank blankPage hcycles (hinv.reachable h) hc).2 b (by rw [hrun])
  rw [hrun] at hrows
  have heq := hloads.rows_eq hL hl hplan hrows
  cases (Bank.copies_eq hL hs rfl).symm.trans hsaved
  refine ⟨fun i t p k ht hp hk => ?_, fun a ha => ?_⟩
  · rw [heq, loaded_cell hL hl hcells _ _ ht hp hk, saved_cell hL hs _ _ ht hp hk]
  · rw [heq]
    refine copyAll_outside fun row hrow hin => ?_
    obtain ⟨i, t, p, ht, hp, hat⟩ := Bank.token_of_row hL hl hrow hin.1 hin.2
    exact ha i t p ht hp hat

/-- Three chunks, the last of them new to the chain: a byte of token 9 moves from address 20026 to
20162. -/
theorem chain_load_identity_patched : ∃ b s' saved,
    patchedCall.run (· * 1000) (fun _ => 8) (fun _ => bundledCycle) ⟨0, 0, 0, 0⟩ ⟨0, 0⟩ partialChain =
      (.ok b, s') ∧
    ∀ device device' host : Nat → Nat,
      copyAll (s'.store.getD b.rows []) (copyAll saved device host) device' 20162 = device 20026 := by
  let L : Layer := ⟨[(0, 4), (4, 8), (8, 14)], [⟨1000, 8⟩, ⟨2000, 8⟩, ⟨3000, 8⟩], [2, 1], 2⟩
  let save : Bank := ⟨bundledCycle, [1, 2, 3, 4], 4, 0, 0, [10000, 20000]⟩
  let load : Bank := ⟨bundledCycle, [10, 11, 20, 21], 4, 0, 0, [10000, 20000]⟩
  have hfirst : partialCall.run (· * 1000) (fun _ => 8) (fun _ => bundledCycle) ⟨0, 0, 0, 0⟩ ⟨0, 0⟩
      ⟨[], none, [], none, [], none, none⟩ = (.ok partialBound, partialChain) := by decide +kernel
  have hreach : (bindMachine (· * 1000) (fun _ => 8) (fun _ => bundledCycle) ⟨0, 0, 0, 0⟩
      ⟨0, 0⟩).ReachableIf (fun s c => c.Truthful s) partialChain :=
    .step partialCall (.start ⟨rfl, rfl, rfl⟩) (fun _ _ old hold => by cases hold)
      (congrArg (fun r : Except DmaError BoundCopyPrefix × BindChain => some r.2) hfirst)
  have htrue : patchedCall.Truthful partialChain := by
    intro _ _ old hold
    cases hold
    exact ChainCall.keepsSlots_of_sameMap (by decide) (by decide) ⟨by decide, by decide, by decide⟩
  have hloads : patchedCall.Loads (fun _ => bundledCycle) (· * 1000) (fun _ => 8) L load :=
    ⟨rfl, rfl, rfl, rfl, rfl, rfl⟩
  have hL : L.Valid := ⟨by decide, rfl, by decide, by decide⟩
  have hs : save.Valid L := ⟨bundledCycle_periodic, by decide, ⟨by decide, by decide, by decide⟩,
    ⟨rfl, by decide, by decide⟩⟩
  have hl : load.Valid L := ⟨bundledCycle_periodic, by decide, ⟨by decide, by decide, by decide⟩,
    ⟨rfl, by decide, by decide⟩⟩
  have hslot : ∀ r ∈ L.ranges, ∀ t < r.2, load.slot t < 100 := by decide
  have hplanes : ∀ q < 2, ∀ p < q,
      Apart (load.npuPtrs.getD p 0) (100 * L.cellBytes p) (load.npuPtrs.getD q 0)
        (100 * L.cellBytes q) := by decide
  have hcells : load.CellsApart L := Bank.cellsApart_of_planes hl 100 (by decide)
    (fun i t ⟨r, hr, _, h⟩ => hslot r (mem_of_getElem? hr) t h)
    (fun p q hlt hq => hplanes q hq p hlt)
  obtain ⟨b, s', hrun⟩ : ∃ b s', patchedCall.run (· * 1000) (fun _ => 8) (fun _ => bundledCycle)
      ⟨0, 0, 0, 0⟩ ⟨0, 0⟩ partialChain = (.ok b, s') := ⟨_, _, rfl⟩
  refine ⟨b, s', save.rows L true, hrun, fun device device' host => ?_⟩
  have hcell := (chain_load_identity (fun _ => bundledCycle_periodic) hreach htrue hrun hloads hL hs hl
    hcells (Bank.copies_eq hL hs rfl) device device' host).1 2 9 1 0
    ⟨(8, 14), rfl, by decide, by decide⟩ (by decide) (by decide)
  have hto : load.cell L 1 9 = 20162 := by decide
  have hfrom : save.cell L 1 9 = 20026 := by decide
  rw [hto, hfrom] at hcell
  exact hcell

end LayerwiseDma
