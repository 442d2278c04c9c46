import LMCacheAscend.Connector.StoreDestinations

/-!
# The operations of every mode are in a safe order

`Safe` follows the operations of a call with the pages it still has and the
pages that copies may be running into: a page is put when no copy runs into it,
and at the end none does.  The operations of each mode are safe for any number
of layers and chunks, by induction on the layers.
-/

namespace StoreDestinations

open Lib List

variable {cfg : Config} {c : Call} {gen async pf : Bool} {P D : List Nat} {ops tail : List Op}
variable {rows rest : List (List Nat)} {row : List Nat} {layer : Nat}

/-! ## Safe operations -/

def Op.launches : Op → Bool
  | .copy _ _ => true
  | _ => false

def NoCopies (ops : List Op) : Prop := ∀ op ∈ ops, op.launches = false

/-- The pages `pending` are the call's, and copies may be running into `dirty`; `gen` says that the
generator is there. -/
def Safe (cfg : Config) (c : Call) : Bool → List Nat → List Nat → List Op → Prop
  | _, _, dirty, [] => dirty = []
  | gen, pending, dirty, .copy row stream :: ops =>
    (gen = true ∨ c.group = true) ∧ (∀ page ∈ row, page ∈ pending) ∧
      ((row = [] ∧ c.group = true) ∨ ∃ l, l < cfg.layers c.kvGroup ∧ stream = c.streamOf cfg l) ∧
      Safe cfg c gen pending (row ++ dirty) ops
  | gen, pending, _, .sync :: ops => c.dma cfg = false ∧ Safe cfg c gen pending [] ops
  | gen, pending, _, .drain :: ops => c.deferred cfg = true ∧ Safe cfg c gen pending [] ops
  | gen, pending, _, .register :: ops =>
    c.async cfg = true ∧ NoCopies ops ∧ Safe cfg c gen pending [] ops
  | gen, pending, dirty, .put pages :: ops =>
    (∀ page ∈ pages, page ∉ dirty) ∧
      Safe cfg c gen (pending.filter fun page => page ∉ pages) dirty ops
  | gen, pending, dirty, .free :: ops =>
    dirty = [] ∧ NoCopies ops ∧ Safe cfg c gen pending dirty ops
  | _, pending, dirty, .generate :: ops => Safe cfg c true pending dirty ops
  | gen, pending, dirty, .pause :: ops => Safe cfg c gen pending dirty ops
  | gen, pending, dirty, .check :: ops => Safe cfg c gen pending dirty ops
  | gen, pending, dirty, .prepare :: ops => Safe cfg c gen pending dirty ops

/-! ## Puts -/

theorem NoCopies.append (h : NoCopies ops) (h' : NoCopies tail) : NoCopies (ops ++ tail) := by
  intro op hop
  rcases mem_append.1 hop with hop | hop
  · exact h op hop
  · exact h' op hop

theorem noCopies_putRow : NoCopies (putRow pf row) := by
  cases pf <;> simp [NoCopies, putRow, Op.launches]

theorem noCopies_putRows : NoCopies (rows.flatMap (putRow pf)) := by
  intro op hop
  obtain ⟨row, -, hop⟩ := mem_flatMap.1 hop
  exact noCopies_putRow op hop

theorem noCopies_putPages : NoCopies (putPages pf P D) := by
  cases pf <;> simp [NoCopies, putPages, Op.launches]

theorem safe_putRow (hdirty : pf = false → ∀ page ∈ row, page ∉ D)
    (h : Safe cfg c gen (if pf then P else P.filter fun page => page ∉ row) D tail) :
    Safe cfg c gen P D (putRow pf row ++ tail) := by
  unfold putRow
  cases pf with
  | false => exact ⟨hdirty rfl, h⟩
  | true => exact h

theorem safe_putRows (h : ∀ P, Safe cfg c gen P [] tail) :
    Safe cfg c gen P [] (rows.flatMap (putRow pf) ++ tail) := by
  induction rows generalizing P with
  | nil => exact h P
  | cons row rows ih =>
    rw [flatMap_cons, append_assoc]
    exact safe_putRow (fun _ page _ => not_mem_nil) ih

theorem safe_putPages (layerPages pages : List Nat) :
    Safe cfg c gen P [] (putPages pf layerPages pages) := by
  unfold putPages
  cases pf with
  | false => exact rfl
  | true => exact ⟨fun page _ => not_mem_nil, fun page _ => not_mem_nil, rfl⟩

/-! ## The modes -/

theorem safe_plainLayers (hstream : ∃ l, l < cfg.layers c.kvGroup ∧ .store = c.streamOf cfg l)
    (hdma : c.dma cfg = false) (hrows : ∀ r ∈ rest, ∀ page ∈ r, page ∈ P)
    (hdisjoint : pf = false → (row :: rest).Pairwise List.Disjoint)
    (hcopies : NoCopies tail) (h : ∀ P, Safe cfg c true P [] tail) :
    Safe cfg c true P D (plainLayers pf row rest ++ tail) := by
  induction rest generalizing row P D with
  | nil =>
    refine ⟨hdma, rfl, noCopies_putRow.append hcopies, ?_⟩
    exact safe_putRow (fun _ page _ => not_mem_nil) (h _)
  | cons next rest ih =>
    refine ⟨hdma, .inl rfl, hrows next mem_cons_self, .inr hstream, ?_⟩
    show Safe cfg c true P (next ++ []) ((putRow pf row ++ plainLayers pf next rest) ++ tail)
    rw [append_nil, append_assoc]
    refine safe_putRow (fun hpf page hrow hnext => ?_) (ih ?_ ?_)
    · have hpair := (pairwise_cons.1 (hdisjoint hpf)).1 next mem_cons_self
      exact hpair hrow hnext
    · intro r hr page hpage
      have hmem := hrows r (mem_cons_of_mem _ hr) page hpage
      cases pf with
      | true => exact hmem
      | false =>
        have hpair := (pairwise_cons.1 (hdisjoint rfl)).1 r (mem_cons_of_mem _ hr)
        have hnot : page ∉ row := fun hrow => hpair hrow hpage
        exact mem_filter.2 ⟨hmem, decide_eq_true hnot⟩
    · intro hpf
      exact (pairwise_cons.1 (hdisjoint hpf)).2

theorem safe_sendLayers (hrows : ∀ r ∈ rows, ∀ page ∈ r, page ∈ P)
    (hlayers : layer + rows.length ≤ cfg.layers c.kvGroup)
    (h : ∀ D, Safe cfg c true P D tail) :
    Safe cfg c true P D (sendLayers (c.streamOf cfg) layer rows ++ tail) := by
  induction rows generalizing layer D with
  | nil => exact h D
  | cons row rows ih =>
    rw [length_cons] at hlayers
    refine ⟨.inl rfl, hrows row mem_cons_self, .inr ⟨layer, by omega, rfl⟩, ?_⟩
    exact ih (fun r hr => hrows r (mem_cons_of_mem _ hr)) (by omega)

theorem mem_sendLayers {streamOf : Nat → Stream} {k : Nat} (hk : k < rows.length) :
    ∃ row, Op.copy row (streamOf (layer + k)) ∈ sendLayers streamOf layer rows := by
  induction rows generalizing layer k with
  | nil => exact absurd hk (Nat.not_lt_zero k)
  | cons row rows ih =>
    by_cases h0 : k = 0
    · subst h0
      exact ⟨row, mem_cons_of_mem _ mem_cons_self⟩
    have hlt : k - 1 < rows.length := by
      rw [length_cons] at hk
      omega
    obtain ⟨r, hr⟩ := @ih (layer + 1) (k - 1) hlt
    have heq : layer + 1 + (k - 1) = layer + k := by omega
    rw [heq] at hr
    have hmem : Op.copy r (streamOf (layer + k)) ∈ .prepare :: .copy row (streamOf layer) ::
        .pause :: .pause :: sendLayers streamOf (layer + 1) rows := by
      simp only [mem_cons, hr, or_true]
    exact ⟨r, hmem⟩

theorem safe_pauses (h : Safe cfg c gen P D tail) :
    Safe cfg c gen P D (rows.map (fun _ => .pause) ++ tail) := by
  induction rows with
  | nil => exact h
  | cons row rows ih => exact ih

/-- The operations of a call are safe in every mode but the deferred group store. -/
theorem safe_ops (hlen : c.rows.length = cfg.layers c.kvGroup)
    (hgroup : ¬ (c.group = true ∧ c.deferred cfg = true))
    (hdisjoint : c.pageFirst = false → c.rows.Pairwise List.Disjoint) :
    Safe cfg c false c.rows.flatten [] (c.ops cfg) := by
  have hmem : ∀ r ∈ c.rows, ∀ page ∈ r, page ∈ c.rows.flatten := by
    intro r hr page hpage
    exact mem_flatten.2 ⟨r, hr, hpage⟩
  have hpages : ∀ gen P, Safe cfg c gen P []
      (putPages c.pageFirst c.layerPages c.rows.flatten) :=
    fun gen P => safe_putPages c.layerPages c.rows.flatten
  have hplain : c.deferred cfg = false → c.dma cfg = false := by
    intro hd
    unfold Call.dma
    rw [hd]
    rfl
  have hstream : c.dma cfg = false → ∀ r ∈ c.rows,
      ∃ l, l < cfg.layers c.kvGroup ∧ .store = c.streamOf cfg l := by
    intro hdma r hr
    refine ⟨0, ?_, ?_⟩
    · rw [← hlen]
      exact length_pos_of_mem hr
    · unfold Call.streamOf
      rw [hdma]
      rfl
  unfold Call.ops
  show Safe cfg c false c.rows.flatten [] (_ ++ _)
  by_cases hg : c.group = true
  · have hd : c.deferred cfg = false := by
      rw [← Bool.not_eq_true]
      exact fun hd => hgroup ⟨hg, hd⟩
    rw [if_pos hg]
    unfold groupOps
    rw [append_assoc]
    apply safe_pauses
    refine ⟨.inr hg, fun page h => h, ?_, hplain hd, safe_putRows (hpages false)⟩
    by_cases hrows : c.rows = []
    · left
      rw [hrows]
      exact ⟨rfl, hg⟩
    · obtain ⟨r, hr⟩ := exists_mem_of_ne_nil _ hrows
      exact .inr (hstream (hplain hd) r hr)
  · rw [if_neg hg]
    split
    · next hd =>
      unfold deferredOps
      show Safe cfg c true c.rows.flatten [] ((_ ++ _) ++ _)
      rw [append_assoc]
      refine safe_sendLayers hmem (by omega) fun D => ?_
      have hrest : ∀ P, Safe cfg c true P [] (c.rows.flatMap (putRow c.pageFirst) ++
          ([.free] ++ putPages c.pageFirst c.layerPages c.rows.flatten)) :=
        fun P => safe_putRows fun P => ⟨rfl, noCopies_putPages, hpages true P⟩
      by_cases ha : c.async cfg = true
      · rw [if_pos ha]
        show Safe cfg c true _ D (.register :: ((_ ++ _) ++ _))
        rw [append_assoc]
        refine ⟨ha, noCopies_putRows.append ?_, hrest _⟩
        exact NoCopies.append (by simp [NoCopies, Op.launches]) noCopies_putPages
      · rw [if_neg ha]
        show Safe cfg c true _ D (.drain :: ((_ ++ _) ++ _))
        rw [append_assoc]
        exact ⟨hd, hrest _⟩
    · next hd =>
      have hd : c.deferred cfg = false := by
        rw [← Bool.not_eq_true]
        exact hd
      cases hrows : c.rows with
      | nil => exact ⟨rfl, noCopies_putPages, safe_putPages _ _⟩
      | cons row rest =>
        have hstream := hstream (hplain hd) row (hrows ▸ mem_cons_self)
        refine ⟨.inl rfl, ?_, .inr hstream, ?_⟩
        · intro page hpage
          exact mem_append_left _ hpage
        · refine safe_plainLayers hstream (hplain hd) ?_ ?_ noCopies_putPages
            fun P => safe_putPages _ _
          · intro r hr page hpage
            exact mem_flatten.2 ⟨r, mem_cons_of_mem _ hr, hpage⟩
          · intro hpf
            rw [← hrows]
            exact hdisjoint hpf

theorem launches_all (hlen : c.rows.length = cfg.layers c.kvGroup)
    (hgroup : ¬ (c.group = true ∧ c.deferred cfg = true)) (hd : c.deferred cfg = true) {l : Nat}
    (hl : l < cfg.layers c.kvGroup) : ∃ row, Op.copy row (c.streamOf cfg l) ∈ c.ops cfg := by
  have hg : ¬ c.group = true := fun hg => hgroup ⟨hg, hd⟩
  obtain ⟨row, hrow⟩ := @mem_sendLayers c.rows 0 (c.streamOf cfg) l (by omega)
  rw [Nat.zero_add] at hrow
  refine ⟨row, ?_⟩
  unfold Call.ops
  rw [if_neg hg, if_pos hd]
  unfold deferredOps
  simp only [mem_cons, mem_append, hrow, true_or, or_true]

end StoreDestinations
