import Mathlib.Tactic.Linarith
import Mathlib.Tactic.Ring

/-!
# On-chip buffer sizes

`compute_multi_layer_ub_params` and `compute_single_layer_max_tokens_per_loop` divide the size of
the on-chip buffer by that of a double buffer for one token.  Both are computed here on the machine
integers of the source; `stored` has what each of them was to be and what its type made of it.

The tokens per loop are right just when two double buffers fit (one, for a single layer), the width
of a token is positive, and for the index-only layout the planes are not wider than the layout
that they are sized by (`ub_params_sized`).
-/

namespace TransferParams

open List

/-! ## Machine integers -/

def int32 (x : Int) : Int := x.bmod (2 ^ 32)
def int64 (x : Int) : Int := x.bmod (2 ^ 64)
def uint32 (x : Int) : Int := x % 2 ^ 32
def uint64 (x : Int) : Int := x % 2 ^ 64

theorem int32_eq_iff {x : Int} : int32 x = x ↔ -2 ^ 31 ≤ x ∧ x < 2 ^ 31 := by
  unfold int32
  constructor
  · intro h
    have hle := Int.le_bmod (x := x) (m := 2 ^ 32) (by decide)
    have hlt := Int.bmod_lt (x := x) (m := 2 ^ 32) (by decide)
    omega
  · rintro ⟨hle, hlt⟩
    exact Int.bmod_eq_of_le (by omega) (by omega)

theorem int64_eq_iff {x : Int} : int64 x = x ↔ -2 ^ 63 ≤ x ∧ x < 2 ^ 63 := by
  unfold int64
  constructor
  · intro h
    have hle := Int.le_bmod (x := x) (m := 2 ^ 64) (by decide)
    have hlt := Int.bmod_lt (x := x) (m := 2 ^ 64) (by decide)
    omega
  · rintro ⟨hle, hlt⟩
    exact Int.bmod_eq_of_le (by omega) (by omega)

theorem uint32_eq_iff {x : Int} : uint32 x = x ↔ 0 ≤ x ∧ x < 2 ^ 32 := by
  unfold uint32
  omega

theorem uint64_eq_iff {x : Int} : uint64 x = x ↔ 0 ≤ x ∧ x < 2 ^ 64 := by
  unfold uint64
  omega

/-! ## Formats -/

inductive KVCacheFormat where
  | UNDEFINED
  | MERGED_KV
  | SEPARATE_KV
  | MLA_KV
  | DSA_KV
  | MLA_LATENT
  | DSA_INDEX
deriving DecidableEq, Repr

/-- What a call comes to; a division by zero is not caught. -/
inductive Outcome (α : Type) where
  | raised (message : String)
  | dividedByZero
  | returned (a : α)
deriving DecidableEq, Repr

/-- The tokens per loop, with the integers on the way: what they are, and as they are stored. -/
structure UbParams where
  aivNum : Int
  maxTokensPerLoop : Int
  /-- Of multiple layers only. -/
  singlePerLoopBuffer : Option Int
  stored : List (Int × Int)
deriving DecidableEq, Repr

/-- No integer was truncated, and the tokens of a loop fit for each plane. -/
structure UbParams.Sized (p : UbParams) (numTokens : Int) (planes : List Int) (elementSize : Nat)
    (ubSize : Nat) : Prop where
  stored : ∀ s ∈ p.stored, s.2 = s.1
  pos : 1 ≤ p.maxTokensPerLoop
  le : p.maxTokensPerLoop ≤ numTokens
  fits : ∀ plane ∈ planes, 2 * (p.maxTokensPerLoop * (plane * elementSize)) ≤ ubSize

/-- The tokens per loop of a call that returns. -/
def Outcome.tokensPerLoop : Outcome UbParams → Option Int
  | .returned p => some p.maxTokensPerLoop
  | _ => none

/-- A call raises or has right sizes. -/
def Outcome.Sized (o : Outcome UbParams) (numTokens : Int) (planes : List Int) (elementSize : Nat)
    (ubSize : Nat) : Prop :=
  match o with
  | .raised _ => True
  | .dividedByZero => False
  | .returned p => p.Sized numTokens planes elementSize ubSize

theorem Outcome.sized_iff {o : Outcome UbParams} {numTokens : Int} {planes : List Int}
    {elementSize ubSize : Nat} {P : Prop}
    (hreturned : ∀ p, o = .returned p → p.Sized numTokens planes elementSize ubSize → P)
    (hsized : P → o.Sized numTokens planes elementSize ubSize) :
    o.Sized numTokens planes elementSize ubSize ↔ (∃ message, o = .raised message) ∨ P := by
  constructor
  · intro h
    cases o with
    | raised message => exact .inl ⟨message, rfl⟩
    | dividedByZero => exact h.elim
    | returned p => exact .inr (hreturned p rfl h)
  · rintro (⟨message, rfl⟩ | h)
    · trivial
    · exact hsized h

/-! ## Multiple layers -/

/-- The sizes of the tensors and the arguments. -/
structure MultiLayer where
  format : KVCacheFormat
  lastSize : BitVec 64
  layers : BitVec 64
  tokens : BitVec 64
  kHiddenDims : BitVec 64
  vHiddenDims : BitVec 64
  dsaHiddenDims : BitVec 64
  elementSize : Nat
  ubSize : BitVec 64

namespace MultiLayer

variable (x : MultiLayer)

/-- `config.hidden_dims`, as `prepare_multi_layer_kv_config` has it from its format. -/
def hiddenDims : Int :=
  match x.format with
  | .UNDEFINED => 0
  | .MERGED_KV => x.lastSize.toInt
  | .SEPARATE_KV => x.lastSize.toInt
  | .MLA_KV => x.kHiddenDims.toInt
  | .MLA_LATENT => x.kHiddenDims.toInt
  | .DSA_KV => x.kHiddenDims.toInt
  | .DSA_INDEX => x.dsaHiddenDims.toInt

/-- `max_hidden_dims`, from the stored hidden size. -/
def maxHiddenDims (hiddenDims : Int) : Int :=
  match x.format with
  | .MLA_KV => max x.kHiddenDims.toInt x.vHiddenDims.toInt
  | .MLA_LATENT => max x.kHiddenDims.toInt x.vHiddenDims.toInt
  | .DSA_INDEX => max x.kHiddenDims.toInt x.vHiddenDims.toInt
  | .DSA_KV => max (max x.kHiddenDims.toInt x.vHiddenDims.toInt) x.dsaHiddenDims.toInt
  | _ => hiddenDims

/-- The hidden sizes of the planes that the kernel of the format copies. -/
def planes : List Int :=
  match x.format with
  | .UNDEFINED => []
  | .MERGED_KV => [x.lastSize.toInt]
  | .SEPARATE_KV => [x.lastSize.toInt]
  | .MLA_KV => [x.kHiddenDims.toInt, x.vHiddenDims.toInt]
  | .MLA_LATENT => [x.kHiddenDims.toInt, x.vHiddenDims.toInt]
  | .DSA_KV => [x.kHiddenDims.toInt, x.vHiddenDims.toInt, x.dsaHiddenDims.toInt]
  | .DSA_INDEX => [x.dsaHiddenDims.toInt]

def ub : Nat := x.ubSize.toNat

/-- `prepare_multi_layer_kv_config`, then `compute_multi_layer_ub_params`. -/
def computeUbParams : Outcome UbParams :=
  if x.format = .UNDEFINED then .raised "Unsupported KVCacheFormat: 0"
  else
    let numLayers := int32 x.layers.toInt
    let numTokens := int32 x.tokens.toInt
    let hiddenDims := int32 x.hiddenDims
    let maxHiddenDims := x.maxHiddenDims hiddenDims
    let doubled := int64 (2 * maxHiddenDims)
    let baseBuffSize := int64 (doubled * x.elementSize)
    if (x.ub : Int) < uint64 baseBuffSize then
      .raised ("Per TokenBuffer Size: " ++ toString baseBuffSize ++ " exceeds UB Size: "
        ++ toString x.ub ++ " Please contact us.")
    else if uint64 baseBuffSize = 0 then .dividedByZero
    else
      let quotient := (x.ub : Int) / uint64 baseBuffSize
      let tokensPerLoop := int32 (int32 quotient - 1)
      let maxTokensPerLoop := min tokensPerLoop numTokens
      let totalPerLoopBuffer := int64 (maxTokensPerLoop * baseBuffSize)
      if (x.ub : Int) < uint64 totalPerLoopBuffer then
        .raised ("Per Loop Buffer Size: " ++ toString totalPerLoopBuffer ++ " exceeds UB Size: "
          ++ toString x.ub ++ " Please contact us.")
      else .returned {
        aivNum := uint32 (min numLayers 4)
        maxTokensPerLoop := maxTokensPerLoop
        singlePerLoopBuffer := some (totalPerLoopBuffer.tdiv 2)
        stored := [(x.layers.toInt, numLayers), (x.tokens.toInt, numTokens),
          (x.hiddenDims, hiddenDims), (min numLayers 4, uint32 (min numLayers 4)),
          (2 * maxHiddenDims, doubled), (doubled * x.elementSize, baseBuffSize),
          (baseBuffSize, uint64 baseBuffSize), (quotient, int32 quotient),
          (int32 quotient - 1, tokensPerLoop),
          (maxTokensPerLoop * baseBuffSize, totalPerLoopBuffer),
          (totalPerLoopBuffer, uint64 totalPerLoopBuffer)] }

/-- The bytes of a double buffer for a token. -/
def tokenBuffer : Int := 2 * x.maxHiddenDims x.hiddenDims * x.elementSize

/-- Two double buffers fit, the integers fit their types, and the loops of an index-only layout
fit with the width of its own plane. -/
structure Roomy : Prop where
  layers : 0 ≤ x.layers.toInt ∧ x.layers.toInt < 2 ^ 31
  tokens : x.tokens.toInt < 2 ^ 31
  hidden : -2 ^ 31 ≤ x.hiddenDims ∧ x.hiddenDims < 2 ^ 31
  pos : 0 < x.tokenBuffer
  room : 2 * x.tokenBuffer ≤ x.ub
  quotient : (x.ub : Int) / x.tokenBuffer < 2 ^ 31
  loops : ∀ t : Int, 1 ≤ t → t ≤ x.tokens.toInt → (t + 1) * x.tokenBuffer ≤ x.ub →
    t * x.tokenBuffer < 2 ^ 63 ∧
    (x.format = .DSA_INDEX → 2 * (t * (x.dsaHiddenDims.toInt * x.elementSize)) ≤ x.ub)

/-- The planes are not wider than what they are sized by, but for index-only layouts. -/
theorem planes_le (h : x.format ≠ .DSA_INDEX) :
    ∀ plane ∈ x.planes, plane ≤ x.maxHiddenDims x.hiddenDims := by
  unfold planes maxHiddenDims hiddenDims
  cases hformat : x.format with
  | UNDEFINED | MERGED_KV | SEPARATE_KV | MLA_KV | MLA_LATENT | DSA_KV => simp
  | DSA_INDEX => exact absurd hformat h

/-- What tokens take in a plane, from what they take in double buffers. -/
theorem double_le {plane width t ub : Int} {elementSize : Nat} (ht : 0 ≤ t) (hle : plane ≤ width)
    (hfits : t * (2 * width * elementSize) ≤ ub) : 2 * (t * (plane * elementSize)) ≤ ub := by
  have hplane : plane * elementSize ≤ width * elementSize :=
    Int.mul_le_mul_of_nonneg_right hle (Int.natCast_nonneg _)
  have hmul := Int.mul_le_mul_of_nonneg_left hplane ht
  have heq : t * (2 * width * elementSize) = 2 * (t * (width * elementSize)) := by ring
  omega

theorem double_pos {width : Int} {elementSize : Nat} (hpos : 0 < 2 * width * elementSize) :
    0 < 2 * width ∧ 2 * width ≤ 2 * width * elementSize := by
  have helement : (0 : Int) ≤ elementSize := Int.natCast_nonneg _
  have hwidth : 0 < 2 * width := by
    by_contra hle
    nlinarith
  have hone : (1 : Int) ≤ elementSize := by
    by_contra hlt
    have hzero : (elementSize : Int) = 0 := by omega
    rw [hzero, Int.mul_zero] at hpos
    omega
  exact ⟨hwidth, by nlinarith⟩

theorem ub_lt : (x.ub : Int) < 2 ^ 64 := by
  have h := x.ubSize.isLt
  unfold ub
  omega

theorem plane_mono {t t' plane ub : Int} (hle : t ≤ t') (ht : 0 ≤ t) (hub : 0 ≤ ub)
    (h : 2 * (t' * plane) ≤ ub) : 2 * (t * plane) ≤ ub := by
  rcases Int.le_total 0 plane with hplane | hplane
  · have hmul := Int.mul_le_mul_of_nonneg_right hle hplane
    omega
  · have hneg : t * plane ≤ 0 := Int.mul_nonpos_of_nonneg_of_nonpos ht hplane
    omega

theorem loops_le {ub base t : Int} (hbase : 0 < base) (ht : t ≤ ub / base - 1) :
    (t + 1) * base ≤ ub := by
  have hquotient : (t + 1) * base ≤ ub / base * base :=
    Int.mul_le_mul_of_nonneg_right (by omega) hbase.le
  have hdiv := Int.ediv_mul_le ub hbase.ne'
  omega

theorem Roomy.sized {x : MultiLayer} (h : x.Roomy) (hformat : x.format ≠ .UNDEFINED)
    (htokens : 1 ≤ x.tokens.toInt) :
    x.computeUbParams.Sized x.tokens.toInt x.planes x.elementSize x.ub := by
  obtain ⟨hdouble, hbase⟩ := double_pos h.pos
  have hroom := h.room
  have hub := x.ub_lt
  have hpos := h.pos
  have hquotient : 2 ≤ (x.ub : Int) / x.tokenBuffer := (Int.le_ediv_iff_mul_le hpos).2 hroom
  have hquotient' := h.quotient
  obtain ⟨t, ht⟩ : ∃ t, t = min ((x.ub : Int) / x.tokenBuffer - 1) x.tokens.toInt := ⟨_, rfl⟩
  have hle : t ≤ (x.ub : Int) / x.tokenBuffer - 1 := by omega
  have hloop := loops_le hpos hle
  obtain ⟨htotal, hindex⟩ := h.loops t (by omega) (by omega) hloop
  have htotal' : t * x.tokenBuffer ≤ x.ub := by
    rw [Int.add_mul, Int.one_mul] at hloop
    omega
  have hnonneg : 0 ≤ t * x.tokenBuffer := Int.mul_nonneg (by omega) hpos.le
  have hbuffer : x.tokenBuffer < 2 ^ 63 := by omega
  have hlayers : int32 x.layers.toInt = x.layers.toInt :=
    int32_eq_iff.2 ⟨by have := h.layers; omega, h.layers.2⟩
  have htokens' : int32 x.tokens.toInt = x.tokens.toInt := int32_eq_iff.2 ⟨by omega, h.tokens⟩
  have hhidden : int32 x.hiddenDims = x.hiddenDims := int32_eq_iff.2 h.hidden
  have hdoubled : int64 (2 * x.maxHiddenDims x.hiddenDims) = 2 * x.maxHiddenDims x.hiddenDims :=
    int64_eq_iff.2 ⟨by omega, hbase.trans_lt hbuffer⟩
  have hbuffer' : int64 (2 * x.maxHiddenDims x.hiddenDims * x.elementSize) = x.tokenBuffer :=
    int64_eq_iff.2 ⟨by omega, hbuffer⟩
  have hunsigned : uint64 x.tokenBuffer = x.tokenBuffer := uint64_eq_iff.2 ⟨hpos.le, by omega⟩
  have hq : int32 ((x.ub : Int) / x.tokenBuffer) = x.ub / x.tokenBuffer :=
    int32_eq_iff.2 ⟨by omega, hquotient'⟩
  have hq' : int32 ((x.ub : Int) / x.tokenBuffer - 1) = x.ub / x.tokenBuffer - 1 :=
    int32_eq_iff.2 ⟨by omega, by omega⟩
  have hstored : int64 (t * x.tokenBuffer) = t * x.tokenBuffer :=
    int64_eq_iff.2 ⟨by omega, htotal⟩
  have hstored' : uint64 (t * x.tokenBuffer) = t * x.tokenBuffer :=
    uint64_eq_iff.2 ⟨hnonneg, by omega⟩
  have hcores : uint32 (min x.layers.toInt 4) = min x.layers.toInt 4 :=
    uint32_eq_iff.2 ⟨by have := h.layers; omega, by omega⟩
  unfold computeUbParams
  simp only [hhidden, hdoubled, hbuffer', hunsigned, hq, hq', htokens', ← ht, hstored, hstored']
  rw [if_neg hformat, if_neg (by omega), if_neg hpos.ne', if_neg (by omega)]
  refine ⟨?_, by show 1 ≤ t; omega, by show t ≤ _; omega, fun plane hplane => ?_⟩
  · simp only [hlayers, hcores, forall_mem_cons, not_mem_nil, false_implies, implies_true,
      true_and, and_true]
    rfl
  · show 2 * (t * (plane * x.elementSize)) ≤ x.ub
    by_cases hdsa : x.format = .DSA_INDEX
    · unfold planes at hplane
      rw [hdsa] at hplane
      rw [mem_singleton.1 hplane]
      exact hindex hdsa
    · exact double_le (by omega) (x.planes_le hdsa plane hplane) htotal'

theorem roomy_of_sized {p : UbParams} (hp : x.computeUbParams = .returned p)
    (h : p.Sized x.tokens.toInt x.planes x.elementSize x.ub) : x.Roomy := by
  unfold computeUbParams at hp
  simp only at hp
  split at hp
  · cases hp
  split at hp
  · cases hp
  next hfits =>
  split at hp
  · cases hp
  next hzero =>
  split at hp
  · cases hp
  cases hp
  obtain ⟨hstored, hpos, hle, hplanes⟩ := h
  simp only [forall_mem_cons] at hstored
  obtain ⟨hlayers, htokens, hhidden, hcores, hdoubled, hbase, hunsigned, hquotient, hpred, htotal,
    -, -⟩ := hstored
  -- the stored integers are the exact ones
  rw [htokens] at hle hpos hplanes htotal
  simp only [hhidden] at hfits hzero
  simp only [hhidden] at hdoubled hbase hunsigned hquotient hpred htotal hle hpos hplanes
  simp only [hdoubled] at hbase hunsigned hquotient hpred htotal hle hpos hplanes hfits hzero
  simp only [hbase] at hunsigned hquotient hpred htotal hle hpos hplanes hfits hzero
  simp only [hunsigned] at hquotient hpred htotal hle hpos hplanes hfits hzero
  simp only [hquotient] at hpred htotal hle hpos hplanes
  simp only [hpred] at htotal hle hpos hplanes
  have hbuffer : 2 * x.maxHiddenDims x.hiddenDims * x.elementSize = x.tokenBuffer := rfl
  rw [hbuffer] at hunsigned hquotient hpred htotal hfits hzero hpos hle
  have hbase' : 0 < x.tokenBuffer := by
    have := (uint64_eq_iff.1 hunsigned).1
    omega
  have hcores' := uint32_eq_iff.1 hcores
  have hlayers' := int32_eq_iff.1 hlayers
  have hbelow : ∀ t : Int, t ≤ x.tokens.toInt → (t + 1) * x.tokenBuffer ≤ x.ub →
      t ≤ min ((x.ub : Int) / x.tokenBuffer - 1) x.tokens.toInt := by
    intro t ht hloop
    have := (Int.le_ediv_iff_mul_le hbase').2 hloop
    omega
  refine ⟨⟨by omega, hlayers'.2⟩, (int32_eq_iff.1 htokens).2, int32_eq_iff.1 hhidden, hbase', ?_,
    (int32_eq_iff.1 hquotient).2, fun t ht htle hloop => ⟨?_, fun hdsa => ?_⟩⟩
  · refine (Int.le_ediv_iff_mul_le hbase').1 ?_
    omega
  · have hmul := Int.mul_le_mul_of_nonneg_right (hbelow t htle hloop) hbase'.le
    exact hmul.trans_lt (int64_eq_iff.1 htotal).2
  · have hmem : x.dsaHiddenDims.toInt ∈ x.planes := by
      unfold planes
      rw [hdsa]
      exact mem_cons_self
    exact plane_mono (hbelow t htle hloop) (by omega) (Int.natCast_nonneg _) (hplanes _ hmem)

theorem sized_iff (htokens : 1 ≤ x.tokens.toInt) :
    x.computeUbParams.Sized x.tokens.toInt x.planes x.elementSize x.ub ↔
      (∃ message, x.computeUbParams = .raised message) ∨ x.Roomy := by
  refine Outcome.sized_iff (fun _ => x.roomy_of_sized) fun hroomy => ?_
  by_cases hformat : x.format = .UNDEFINED
  · unfold computeUbParams
    rw [if_pos hformat]
    trivial
  · exact hroomy.sized hformat htokens

end MultiLayer

/-! ## A single layer -/

/-- The dims of a transfer and the arguments. -/
structure SingleLayer where
  format : KVCacheFormat
  kvSize : BitVec 32
  numHeads : BitVec 32
  headDims : BitVec 32
  numTokens : BitVec 32
  kHiddenDims : BitVec 64
  vHiddenDims : BitVec 64
  dsaHiddenDims : BitVec 64
  elementSize : Nat
  ubSize : BitVec 64

namespace SingleLayer

variable (x : SingleLayer)

/-- `perTokenBufferElems`, from the stored product of the dims. -/
def perTokenBufferElems (product : Int) : Int :=
  match x.format with
  | .MLA_KV => max x.kHiddenDims.toInt x.vHiddenDims.toInt
  | .MLA_LATENT => max x.kHiddenDims.toInt x.vHiddenDims.toInt
  | .DSA_INDEX => max x.kHiddenDims.toInt x.vHiddenDims.toInt
  | .DSA_KV => max (max x.kHiddenDims.toInt x.vHiddenDims.toInt) x.dsaHiddenDims.toInt
  | _ => product

/-- The planes that the kernel copies; the one of `MLA_KV` has index-only layouts too. -/
def planes : List Int :=
  match x.format with
  | .MLA_KV => [x.kHiddenDims.toInt, x.vHiddenDims.toInt]
  | .MLA_LATENT => [x.kHiddenDims.toInt, x.vHiddenDims.toInt]
  | .DSA_INDEX => [x.kHiddenDims.toInt, x.vHiddenDims.toInt]
  | .DSA_KV => [x.kHiddenDims.toInt, x.vHiddenDims.toInt, x.dsaHiddenDims.toInt]
  | _ => [x.numHeads.toInt * x.headDims.toInt]

def ub : Nat := x.ubSize.toNat

/-- `compute_single_layer_max_tokens_per_loop`, in `compute_single_layer_ub_params`. -/
def computeUbParams : Outcome UbParams :=
  let heads := int32 (x.kvSize.toInt * x.numHeads.toInt)
  let product := int32 (heads * x.headDims.toInt)
  let elems := x.perTokenBufferElems product
  let doubled := int64 (2 * elems)
  let bytes := int64 (doubled * x.elementSize)
  let baseBuffSize := uint64 bytes
  if (x.ub : Int) < baseBuffSize then
    .raised ("Per Token Cache Buffer Size: " ++ toString baseBuffSize ++ " exceeds UB Size: "
      ++ toString x.ub ++ " Please contact LMCache Ascend.")
  else if baseBuffSize = 0 then .dividedByZero
  else
    let quotient := (x.ub : Int) / baseBuffSize
    .returned {
      aivNum := uint32 (min 4 x.numTokens.toInt)
      maxTokensPerLoop := min (int32 quotient) x.numTokens.toInt
      singlePerLoopBuffer := none
      stored := [(x.kvSize.toInt * x.numHeads.toInt, heads), (heads * x.headDims.toInt, product),
        (2 * elems, doubled), (doubled * x.elementSize, bytes), (bytes, baseBuffSize),
        (quotient, int32 quotient), (min 4 x.numTokens.toInt, uint32 (min 4 x.numTokens.toInt))] }

/-- The product of the dims. -/
def product : Int := x.kvSize.toInt * x.numHeads.toInt * x.headDims.toInt

/-- The bytes of a double buffer for a token. -/
def tokenBuffer : Int := 2 * x.perTokenBufferElems x.product * x.elementSize

/-- The width is positive, and the integers fit their types. -/
structure Roomy : Prop where
  heads : -2 ^ 31 ≤ x.kvSize.toInt * x.numHeads.toInt ∧
    x.kvSize.toInt * x.numHeads.toInt < 2 ^ 31
  product : -2 ^ 31 ≤ x.product ∧ x.product < 2 ^ 31
  pos : 0 < x.tokenBuffer
  buffer : x.tokenBuffer < 2 ^ 63
  room : x.tokenBuffer ≤ x.ub
  quotient : (x.ub : Int) / x.tokenBuffer < 2 ^ 31

theorem planes_le (hpos : 0 < x.tokenBuffer) :
    ∀ plane ∈ x.planes, plane ≤ x.perTokenBufferElems x.product ∨ plane ≤ 0 := by
  have hdims (h : 0 < 2 * x.product * x.elementSize) :
      x.numHeads.toInt * x.headDims.toInt ≤ x.product ∨
        x.numHeads.toInt * x.headDims.toInt ≤ 0 := by
    have hproduct := (MultiLayer.double_pos h).1
    have hassoc : x.product = x.kvSize.toInt * (x.numHeads.toInt * x.headDims.toInt) :=
      Int.mul_assoc ..
    rcases Int.lt_or_le 0 (x.numHeads.toInt * x.headDims.toInt) with hplane | hplane
    · have hkv : 1 ≤ x.kvSize.toInt := by
        by_contra hlt
        have := Int.mul_nonpos_of_nonpos_of_nonneg (a := x.kvSize.toInt) (by omega) hplane.le
        omega
      exact .inl (by nlinarith)
    · exact .inr hplane
  unfold tokenBuffer at hpos
  unfold planes
  unfold perTokenBufferElems at hpos ⊢
  cases hformat : x.format with
  | UNDEFINED | MERGED_KV | SEPARATE_KV => rw [hformat] at hpos; simpa using hdims hpos
  | MLA_KV | MLA_LATENT | DSA_KV | DSA_INDEX => simp

theorem ub_lt : (x.ub : Int) < 2 ^ 64 := by
  have h := x.ubSize.isLt
  unfold ub
  omega

theorem Roomy.sized {x : SingleLayer} (h : x.Roomy) (htokens : 1 ≤ x.numTokens.toInt) :
    x.computeUbParams.Sized x.numTokens.toInt x.planes x.elementSize x.ub := by
  obtain ⟨hdouble, hbase⟩ := MultiLayer.double_pos h.pos
  have hpos := h.pos
  have hbuffer := h.buffer
  have hub := x.ub_lt
  have hroom := h.room
  have hquotient : 1 ≤ (x.ub : Int) / x.tokenBuffer :=
    (Int.le_ediv_iff_mul_le hpos).2 (by omega)
  have hheads : int32 (x.kvSize.toInt * x.numHeads.toInt) = x.kvSize.toInt * x.numHeads.toInt :=
    int32_eq_iff.2 h.heads
  have hproduct : int32 (x.kvSize.toInt * x.numHeads.toInt * x.headDims.toInt) = x.product :=
    int32_eq_iff.2 h.product
  have hdoubled :
      int64 (2 * x.perTokenBufferElems x.product) = 2 * x.perTokenBufferElems x.product :=
    int64_eq_iff.2 ⟨by omega, hbase.trans_lt hbuffer⟩
  have hbytes : int64 (2 * x.perTokenBufferElems x.product * x.elementSize) = x.tokenBuffer :=
    int64_eq_iff.2 ⟨by omega, hbuffer⟩
  have hunsigned : uint64 x.tokenBuffer = x.tokenBuffer := uint64_eq_iff.2 ⟨hpos.le, by omega⟩
  have hq : int32 ((x.ub : Int) / x.tokenBuffer) = x.ub / x.tokenBuffer :=
    int32_eq_iff.2 ⟨by omega, h.quotient⟩
  have hcores : uint32 (min 4 x.numTokens.toInt) = min 4 x.numTokens.toInt :=
    uint32_eq_iff.2 ⟨by omega, by omega⟩
  obtain ⟨t, ht⟩ : ∃ t, t = min ((x.ub : Int) / x.tokenBuffer) x.numTokens.toInt := ⟨_, rfl⟩
  have htotal : t * x.tokenBuffer ≤ x.ub := by
    have hle : t - 1 ≤ (x.ub : Int) / x.tokenBuffer - 1 := by omega
    have hloop := MultiLayer.loops_le hpos hle
    rwa [Int.sub_add_cancel] at hloop
  unfold computeUbParams
  simp only [hheads, hproduct, hdoubled, hbytes, hunsigned, hq, hcores, ← ht]
  rw [if_neg (by omega), if_neg hpos.ne']
  refine ⟨?_, by show 1 ≤ t; omega, by show t ≤ _; omega, fun plane hplane => ?_⟩
  · simp only [forall_mem_cons, not_mem_nil, false_implies, implies_true, true_and,
      and_true]
    exact ⟨rfl, rfl⟩
  · show 2 * (t * (plane * x.elementSize)) ≤ x.ub
    rcases x.planes_le hpos plane hplane with hle | hle
    · exact MultiLayer.double_le (by omega) hle htotal
    have hneg := Int.mul_nonpos_of_nonpos_of_nonneg hle (Int.natCast_nonneg x.elementSize)
    have hneg' := Int.mul_nonpos_of_nonneg_of_nonpos (a := t) (by omega) hneg
    omega

theorem roomy_of_sized {p : UbParams} (hp : x.computeUbParams = .returned p)
    (h : p.Sized x.numTokens.toInt x.planes x.elementSize x.ub) : x.Roomy := by
  unfold computeUbParams at hp
  simp only at hp
  split at hp
  · cases hp
  next hfits =>
  split at hp
  · cases hp
  next hzero =>
  cases hp
  obtain ⟨hstored, -, -, -⟩ := h
  simp only [forall_mem_cons] at hstored
  obtain ⟨hheads, hproduct, hdoubled, hbytes, hunsigned, hquotient, -⟩ := hstored
  -- the stored integers are the exact ones
  simp only [hheads] at hproduct hdoubled hbytes hunsigned hquotient hfits hzero
  simp only [hproduct] at hdoubled hbytes hunsigned hquotient hfits hzero
  simp only [hdoubled] at hbytes hunsigned hquotient hfits hzero
  simp only [hbytes] at hunsigned hquotient hfits hzero
  simp only [hunsigned] at hquotient hfits hzero
  have hbuffer : 2 * x.perTokenBufferElems (x.kvSize.toInt * x.numHeads.toInt * x.headDims.toInt) *
      x.elementSize = x.tokenBuffer := rfl
  rw [hbuffer] at hbytes hunsigned hquotient hfits hzero
  have hunsigned' := uint64_eq_iff.1 hunsigned
  exact ⟨int32_eq_iff.1 hheads, int32_eq_iff.1 hproduct, by omega, (int64_eq_iff.1 hbytes).2,
    by omega, (int32_eq_iff.1 hquotient).2⟩

theorem sized_iff (htokens : 1 ≤ x.numTokens.toInt) :
    x.computeUbParams.Sized x.numTokens.toInt x.planes x.elementSize x.ub ↔
      (∃ message, x.computeUbParams = .raised message) ∨ x.Roomy :=
  Outcome.sized_iff (fun _ => x.roomy_of_sized) fun hroomy => hroomy.sized htokens

end SingleLayer

/-! ## Both -/

/-- **UB parameters** have right sizes exactly if the call raises or has room for them. -/
theorem ub_params_sized (x : MultiLayer) (y : SingleLayer) (hx : 1 ≤ x.tokens.toInt)
    (hy : 1 ≤ y.numTokens.toInt) :
    (x.computeUbParams.Sized x.tokens.toInt x.planes x.elementSize x.ub ↔
      (∃ message, x.computeUbParams = .raised message) ∨ x.Roomy) ∧
    (y.computeUbParams.Sized y.numTokens.toInt y.planes y.elementSize y.ub ↔
      (∃ message, y.computeUbParams = .raised message) ∨ y.Roomy) :=
  ⟨x.sized_iff hx, y.sized_iff hy⟩

/-- A latent layout on a buffer of 192 KiB. -/
def latentLayers : MultiLayer :=
  ⟨.MLA_LATENT, 0, 61, 256, 512, 64, 0, 2, 196608⟩

def latentLayer : SingleLayer :=
  ⟨.MLA_LATENT, 2, 1, 512, 256, 512, 64, 0, 2, 196608⟩

theorem latent_sized :
    (latentLayers.computeUbParams.Sized 256 latentLayers.planes 2 latentLayers.ub ↔
      (∃ message, latentLayers.computeUbParams = .raised message) ∨ latentLayers.Roomy) ∧
    (latentLayer.computeUbParams.Sized 256 latentLayer.planes 2 latentLayer.ub ↔
      (∃ message, latentLayer.computeUbParams = .raised message) ∨ latentLayer.Roomy) :=
  ub_params_sized latentLayers latentLayer (by decide) (by decide)

/-- Latent layers on a buffer of 2 KiB, which is one double buffer. -/
def tightLayers : MultiLayer :=
  ⟨.MLA_LATENT, 0, 61, 256, 512, 64, 0, 2, 2048⟩

/-- Index-only layers, without other planes. -/
def indexLayers : MultiLayer :=
  ⟨.DSA_INDEX, 0, 61, 256, 0, 0, 128, 2, 196608⟩

theorem unsized_layers :
    tightLayers.computeUbParams.tokensPerLoop = some 0 ∧
    indexLayers.computeUbParams = .dividedByZero ∧
    ¬ ∀ x : MultiLayer, 1 ≤ x.tokens.toInt →
      x.computeUbParams.Sized x.tokens.toInt x.planes x.elementSize x.ub := by
  have hindex : indexLayers.computeUbParams = .dividedByZero := by decide
  refine ⟨by decide +kernel, hindex, fun h => ?_⟩
  have hsized := h indexLayers (by decide)
  rw [hindex] at hsized
  exact hsized

end TransferParams
