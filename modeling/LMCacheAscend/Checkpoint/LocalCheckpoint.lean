import LMCacheAscend.Lib.Dict

/-!
# Local checkpoint offers

The data of `local_checkpoint.py`: a manifest lists, for each of the two KV
groups, the token ranges of its pages and their cache keys.  A page object is
its address (`Page`), a group list pairs each range with the page held for it,
and an owner set is the set of the different pages of both group lists
(`{id(p): p for g in groups for _, p in g}`).  Positions are unbounded integers.
-/

namespace Checkpoint

/-- A page object, by its `id`. -/
abbrev Page := Nat

/-- `(req_id, generation)`. -/
abbrev Identity := String × Int

/-- The exceptions that some handler tells apart. -/
inductive PyError
  | memoryError (message : String)
  | valueError (message : String)
  | overflowError (message : String)
  | transferUnknown (message : String)
  | exception (message : String)
deriving DecidableEq, Repr

structure CheckpointPage (κ : Type) where
  start : Int
  end_ : Int
  key : κ
deriving DecidableEq, Repr

structure LocalCheckpoint (κ : Type) where
  tokens : List Int
  prefixEnd : Int
  groups : List (CheckpointPage κ) × List (CheckpointPage κ)
  identity : Option Identity
  retentionId : Option Nat

/-- `groups[0]`, `groups[1]`: the ranges of a group and the pages held for them. -/
abbrev Groups (κ : Type) := List (CheckpointPage κ × Page) × List (CheckpointPage κ × Page)

variable {κ : Type}

/-- `groups[group]` for a pair indexed by `group in (0, 1)`. -/
def ofGroup {α : Type} (p : α × α) (group : Nat) : α := if group = 0 then p.1 else p.2

def groupPages (g : Groups κ) : List Page := g.1.map Prod.snd ++ g.2.map Prod.snd

/-- `{id(p): p for g in groups for _, p in g}`. -/
def ownersOf (g : Groups κ) : List Page := (Lib.Dict.fromKeys (groupPages g)).keys

theorem ownersOf_nodup (g : Groups κ) : (ownersOf g).Nodup := Lib.Dict.keys_nodup _

@[simp] theorem ownersOf_nil : ownersOf (([], []) : Groups κ) = [] := rfl

/-- `{(g, s): p for g, entries in enumerate(groups) for s, p in entries}`. -/
def pageTable [DecidableEq κ] (g : Groups κ) : Lib.Dict (Nat × CheckpointPage κ) Page :=
  let d := g.1.foldl (fun d e => d.set (0, e.1) e.2) Lib.Dict.empty
  g.2.foldl (fun d e => d.set (1, e.1) e.2) d

/-- `req_id` and an optional `generation` of a `forget` or a `cancel`. -/
def matchesIdentity (reqId : String) (generation : Option Int) (key : Identity) : Bool :=
  key.1 = reqId && generation.all fun g => key.2 = g

theorem matchesIdentity_some {reqId : String} {generation : Int} {key : Identity} :
    matchesIdentity reqId (some generation) key = true ↔ key = (reqId, generation) := by
  obtain ⟨r, g⟩ := key
  simp [matchesIdentity]

end Checkpoint
