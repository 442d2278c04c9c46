import LMCacheAscend.Blending.Program

/-!
# Blending, token by token

What a blend is to compute, without tensors: each token has a hidden state and a residual of its
own.  `Tokens` has those that are still computed, in order; the others keep their cached rows.
`expected` is what a layer's tensors hold when row for row they are those of the tokens.
`RunAligned` says of a sequence of blends that their layers do, and that each of them leaves clean
metadata, however it ends.
-/

namespace Blending

open Lib List

/-- The state between two layers. -/
structure Tokens (T : Ops) where
  /-- The positions of the tokens that are computed. -/
  active : List Nat
  /-- The others have cached rows. -/
  selected : Bool
  hidden : Nat → T.H
  residual : Option (Nat → T.H)

section

variable {T : Ops} (config : Config) (b : Blend) (cached : Cached T b)

namespace Tokens

variable (layer : Nat) (s : Tokens T)

variable (t : Nat)

/-- The normed hidden state of a token, and its residual. -/
def normed : T.H × T.H :=
  match s.residual with
  | none => (T.firstLayernorm layer (s.hidden t), s.hidden t)
  | some residual => T.inputLayernorm layer (s.hidden t) (residual t)

/-- The query and the key of a token, at its own position. -/
def qk : T.Q × T.K :=
  let qkv := T.qkvProj layer (s.normed layer t).1
  T.qkPostProcessing layer t qkv.1 qkv.2.1

def value : T.V := (T.qkvProj layer (s.normed layer t).1).2.2

/-- The tokens that a checking layer selects: its indices count from the first cached token. -/
def select : Tokens T :=
  if config.Checks layer then
    let total := b.tokens.length - b.numFalses
    { s with
      active := (b.topk layer (config.topkNum total) total).map (b.numFalses + ·)
      selected := true }
  else s

/-- Computed rows among the cached ones. -/
def among {α : Type} (row : Nat → α) (rows : List α) : List α :=
  rows.mapIdx fun i old => if b.numFalses + i ∈ s.active then row (b.numFalses + i) else old

def keys : List T.K :=
  if s.selected then s.among b (fun t => (s.qk layer t).2) (cached.k layer)
  else (range b.tokens.length).map fun t => (s.qk layer t).2

def values : List T.V :=
  if s.selected then s.among b (s.value layer) (cached.v layer)
  else (range b.tokens.length).map (s.value layer)

/-- The position of the token of a key. -/
def keyPosition (key : Nat) : Nat := if s.selected then b.numFalses + key else key

/-- A token does not see the keys of later ones. -/
def mask : List Bool :=
  (range (s.keys b cached layer).length).map fun key => decide (t < s.keyPosition b key)

def attention (t : Nat) : T.O :=
  T.attention layer (s.qk layer t).1 (s.mask b cached layer t) (s.keys b cached layer)
    (s.values b cached layer)

/-- After the attention: the normed row and the residual. -/
def attended : T.H × T.H :=
  T.postAttentionLayernorm layer (T.oProj layer (s.attention b cached layer t)) (s.normed layer t).2

def record : Record T :=
  { q := s.active.map fun t => (s.qk layer t).1
    k := s.keys b cached layer
    v := s.values b cached layer
    residual := s.active.map fun t => (s.normed layer t).2
    attnOutput := s.active.map (s.attention b cached layer)
    positions := s.active
    masks := s.active.map (s.mask b cached layer) }

def next : Tokens T :=
  { s with
    hidden := fun t => T.mlp layer (s.attended b cached layer t).1
    residual := some fun t => (s.attended b cached layer t).2 }

end Tokens

/-- The state before a layer. -/
def tokensAt : Nat → Tokens T
  | 0 =>
    { active := range b.tokens.length
      selected := false
      hidden := fun t => T.embed (b.tokens.getD t 0)
      residual := none }
  | layer + 1 => ((tokensAt layer).select config b layer).next b cached layer

/-- What the tensors of a layer are to hold. -/
def expected (layer : Nat) : Record T :=
  ((tokensAt config b cached layer).select config b layer).record b cached layer

end

/-- What a blend is to end with: its layers held the rows of the tokens, and nothing is left. -/
def Final {T : Ops} (config : Config) (b : Blend) (cached : Cached T b) (s : State T) : Prop :=
  (∃ n, s.log = (range n).map (expected config b cached)) ∧ s.metadata = .clean

/-- So does a blend from clean metadata, however it ends. -/
def BlendAligned (config : Config) (b : Blend) : Prop :=
  ∀ (T : Ops) (cached : Cached T b),
    wp (blend config b cached) (fun _ => Final config b cached) ⟨.clean, []⟩

/-- One blend after the other, each with the metadata that the ones before leave. -/
def RunAligned (config : Config) : Metadata → List Blend → Prop
  | _, [] => True
  | m, b :: blends => ∀ (T : Ops) (cached : Cached T b),
    wp (blend config b cached) (fun _ s => Final config b cached s ∧
      RunAligned config s.metadata blends) ⟨m, []⟩

end Blending
