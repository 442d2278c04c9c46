import LMCacheAscend.Lib.Prog
import Mathlib.Data.List.Basic

/-!
# Cache blending

`process_qkv` and `blend_layer` of `blender.py`, `compute_layer` of `qwen3.py` and the masks of
`attention.py`.  A tensor is the list of its rows.  What the layers do to a row is a parameter
(`Ops`), as are the cached rows, the indices that `torch.topk` returns, the calls outside that
raise and how often the caller resumes the blend.  The metadata of the blender outlives a blend,
also one that raises.
-/

namespace Blending

open Lib List

/-! ## Parameters -/

/-- The rows, and what the layers do to them. -/
structure Ops where
  H : Type
  Q : Type
  K : Type
  V : Type
  O : Type
  embed : Nat → H
  /-- `input_layernorm(hidden_states)`, of the first layer -/
  firstLayernorm : Nat → H → H
  /-- `input_layernorm(hidden_states, residual)` -/
  inputLayernorm : Nat → H → H → H × H
  qkvProj : Nat → H → Q × K × V
  /-- The norms and the rotary embedding, at a position. -/
  qkPostProcessing : Nat → Nat → Q → K → Q × K
  /-- One row of the attention: its query, the keys that are masked, the keys and the values. -/
  attention : Nat → Q → List Bool → List K → List V → O
  oProj : Nat → O → H
  postAttentionLayernorm : Nat → H → H → H × H
  mlp : Nat → H → H
  /-- What `torch.empty` leaves in a row. -/
  empty : Nat → O

/-- The layers of the model and `LMCBlendCommonMetadata`. -/
structure Config where
  numLayers : Nat
  checkLayers : List Nat
  /-- `recomp_ratios[0] > 0` -/
  recomputes : Bool
  /-- `int(total_len * recomp_ratios[0])` -/
  scaled : Nat → Nat

/-- The layer checks which tokens to compute. -/
def Config.Checks (config : Config) (layer : Nat) : Prop :=
  layer ∈ config.checkLayers ∧ config.recomputes = true

instance (config : Config) (layer : Nat) : Decidable (config.Checks layer) :=
  inferInstanceAs (Decidable (_ ∧ _))

/-- `topk_num` -/
def Config.topkNum (config : Config) (totalLen : Nat) : Nat := max (config.scaled totalLen) 1

/-- Where a layer calls something outside that may raise. -/
inductive Stage where
  | projection
  | getKv
  | rotary
  | attention
deriving DecidableEq, Repr

/-- A call of `blend_layer` and how it goes on. -/
structure Blend where
  tokens : List Nat
  mask : Option (List Bool)
  /-- The sorted indices of the `k` largest of `n` values, at a layer. -/
  topk : Nat → Nat → Nat → List Nat
  topk_length : ∀ layer k n, k ≤ n → (topk layer k n).length = k
  topk_sorted : ∀ layer k n, k ≤ n → (topk layer k n).Pairwise (· < ·)
  topk_lt : ∀ layer k n, k ≤ n → ∀ i ∈ topk layer k n, i < n
  /-- The calls of `next(layerwise_retriever)` that raise. -/
  retrieverRaises : Nat → Bool
  layerRaises : Nat → Option Stage
  /-- How often the caller resumes the blend. -/
  nexts : Nat

/-- `num_falses` -/
def Blend.numFalses (b : Blend) : Nat :=
  match b.mask with
  | none => 0
  | some mask => mask.count false

/-- The cached rows: one for each token after the leading ones that the mask leaves out. -/
structure Cached (T : Ops) (b : Blend) where
  k : Nat → List T.K
  v : Nat → List T.V
  k_length : ∀ layer, (k layer).length = b.tokens.length - b.numFalses
  v_length : ∀ layer, (v layer).length = b.tokens.length - b.numFalses

/-! ## State -/

/-- `LMCBlendMetadata` -/
structure Metadata where
  positions : Option (List Nat)
  impIndices : Option (List Nat)
deriving DecidableEq, Repr

/-- `LMCBlendMetadata.clean` -/
def Metadata.clean : Metadata := ⟨none, none⟩

/-- What `process_qkv` works on and returns. -/
structure Rows (T : Ops) where
  q : List T.Q
  k : List T.K
  v : List T.V
  residual : List T.H
  attnOutput : List T.O

/-- The rows of a layer, with the positions and the masks they were used with. -/
structure Record (T : Ops) where
  q : List T.Q
  k : List T.K
  v : List T.V
  residual : List T.H
  attnOutput : List T.O
  positions : List Nat
  masks : List (List Bool)

structure State (T : Ops) where
  metadata : Metadata
  log : List (Record T)

/-- The variables of `compute_layer` between two layers. -/
structure Local (T : Ops) where
  hidden : List T.H
  residual : Option (List T.H)
  attnOutput : Option (List T.O)
  noMoreQueries : Bool

/-! ## Rows of a layer -/

section

variable {α : Type}

/-- `t[indices]` -/
def gather (indices : List Nat) (t : List α) : List α := indices.filterMap (t[·]?)

/-- `t[indices] = rows` -/
def setRows (t : List α) (indices : List Nat) (rows : List α) : List α :=
  (indices.zip rows).foldl (fun t p => t.set p.1 p.2) t

end

section

variable {T : Ops} (config : Config) (b : Blend) (cached : Cached T b)

variable (layer : Nat)

/-- The part of `process_qkv` for a layer that checks. -/
def pickRows (rows : Rows T) : Prog String Metadata (Rows T) := do
  let totalLen := (rows.k.drop b.numFalses).length
  if totalLen ≠ (cached.k layer).length then
    throw "Mismatch between number of tokens in k (after skipping falses) and old_k"
  else
    let topkNum := config.topkNum totalLen
    if totalLen < topkNum then throw "selected index k out of range"
    else
      let topIndices := b.topk layer topkNum totalLen
      modify fun m =>
        { positions := m.positions.map (gather topIndices), impIndices := some topIndices }
      pure
        { q := gather topIndices rows.q
          k := gather topIndices rows.k
          v := gather topIndices rows.v
          residual := gather topIndices rows.residual
          attnOutput := rows.attnOutput.take topkNum }

/-- The rows of the selected tokens go among the cached ones. -/
def blendRows (rows : Rows T) : Prog String Metadata (Rows T) := do
  match (← get).impIndices with
  | none => pure rows
  | some impIndices =>
    -- one row alone would be broadcast, but from clean metadata the lengths do not differ
    if impIndices.length ≠ rows.k.length ∨ ∃ i ∈ impIndices, (cached.k layer).length ≤ i then
      throw "shape mismatch"
    else
      pure
        { rows with
          k := setRows (cached.k layer) impIndices rows.k
          v := setRows (cached.v layer) impIndices rows.v }

def processQkv (q : List T.Q) (k : List T.K) (v : List T.V) (residual : List T.H)
    (attnOutput : Option (List T.O)) : Prog String Metadata (Rows T) := do
  if b.layerRaises layer = some .getKv then throw "get_kv"
  else
    let attnOutput := attnOutput.getD ((range q.length).map T.empty)
    let positions := (← get).positions.getD (range q.length)
    modify fun m => { m with positions := some positions }
    if b.layerRaises layer = some .rotary ∨ positions.length ≠ q.length then throw "rotary_emb"
    else
      let qk := zipWith (fun p (r : T.Q × T.K) => T.qkPostProcessing layer p r.1 r.2)
        positions (q.zip k)
      let rows : Rows T :=
        { q := qk.map Prod.fst, k := qk.map Prod.snd, v := v, residual := residual,
          attnOutput := attnOutput }
      let rows ← (if config.Checks layer then pickRows config b cached layer rows else pure rows)
      blendRows b cached layer rows

/-- The keys that a row at a position does not see. -/
def causalMask (position keys : Nat) : List Bool :=
  (range keys).map fun key => decide (position < key)

/-- `forward_contiguous`: the masks and the rows of the attention. -/
def forwardContiguous (impIndices : Option (List Nat)) (rows : Rows T) :
    Except String (List (List Bool) × List T.O) :=
  let qPositions := impIndices.getD (range rows.q.length)
  if qPositions.length ≠ rows.q.length ∨ rows.attnOutput.length ≠ rows.q.length then
    .error "shape mismatch"
  else
    let masks := qPositions.map fun position => causalMask position rows.k.length
    .ok (masks, zipWith (fun q mask => T.attention layer q mask rows.k rows.v) rows.q masks)

/-! ## Layers -/

/-- `input_layernorm`: the normed rows with the residuals. -/
def inputLayernorm (layer : Nat) (st : Local T) : List (T.H × T.H) :=
  match st.residual with
  | none => st.hidden.map fun h => (T.firstLayernorm layer h, h)
  | some residual => zipWith (T.inputLayernorm layer) st.hidden residual

/-- The part of a turn after `process_qkv`: the attention, its projection and the MLP. -/
def attendLayer (st : Local T) (rows : Rows T) : Prog String (State T) (Local T) := do
  if rows.q = [] then pure { st with noMoreQueries := true }
  else if b.layerRaises layer = some .attention then throw "attention"
  else
    let metadata := (← get).metadata
    let (masks, attnOutput) ← call (forwardContiguous layer metadata.impIndices rows)
    let record : Record T :=
      { q := rows.q, k := rows.k, v := rows.v, residual := rows.residual,
        attnOutput := attnOutput, positions := metadata.positions.getD [], masks := masks }
    modify fun s => { s with log := s.log ++ [record] }
    let normed := zipWith
      (fun o residual => T.postAttentionLayernorm layer (T.oProj layer o) residual)
      attnOutput rows.residual
    pure
      { hidden := normed.map fun r => T.mlp layer r.1
        residual := some (normed.map Prod.snd)
        attnOutput := some attnOutput
        noMoreQueries := false }

/-- One turn of the loop of `compute_layer`. -/
def computeLayer (st : Local T) : Prog String (State T) (Local T) := do
  if st.noMoreQueries then pure st
  else if b.layerRaises layer = some .projection then throw "projection"
  else
    let normed := inputLayernorm layer st
    let qkv := normed.map fun r => T.qkvProj layer r.1
    let rows ← zoom State.metadata (fun s m => { s with metadata := m })
      (processQkv config b cached layer (qkv.map fun r => r.1) (qkv.map fun r => r.2.1)
        (qkv.map fun r => r.2.2) (normed.map Prod.snd) st.attnOutput)
    attendLayer b layer st rows

/-- What `blend_layer` does between two of its yields. -/
def blendNext (i : Nat) (st : Local T) : Prog String (State T) (Local T) := do
  if b.retrieverRaises i then throw "retrieve_layer"
  else if i = 0 then pure st
  else if i ≤ config.numLayers then computeLayer config b cached (i - 1) st
  else do
    modify fun s => { s with metadata := .clean }
    pure st

/-- `n` more calls of `next`. -/
def blendFrom : Nat → Nat → Local T → Prog String (State T) (Local T)
  | _, 0, st => pure st
  | i, n + 1, st => do
    let st ← blendNext config b cached i st
    blendFrom (i + 1) n st

/-- `blend`, or what the caller makes of `blend_layer`. -/
def blend : Prog String (State T) (Local T) :=
  blendFrom config b cached 0 (min b.nexts (config.numLayers + 2))
    { hidden := b.tokens.map T.embed
      residual := none
      attnOutput := none
      noMoreQueries := false }

end

end Blending
