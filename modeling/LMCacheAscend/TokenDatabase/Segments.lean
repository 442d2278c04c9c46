import Mathlib.Algebra.Order.Ring.Int
import Mathlib.Data.List.Basic

/-!
# Segments of tokens between separators

`process_tokens` has two forms.  The one for tokens splits them at the separators and yields
each piece at its place; the one for hashes gets the lengths of the pieces and lays them end to
end, without separators.  So what the second yields for the hashes and lengths of the first has
the same keys, but each piece is further to the front by the start of the first one and by the
separators between (`segments_process`).
-/

namespace TokenDatabase

open List

/-- What a segment is named by. -/
inductive KeyOrHash (Key : Type) where
  | key (k : Key)
  | hash (h : Int)
deriving DecidableEq, Repr

structure Segment (Key : Type) where
  start : Nat
  stop : Nat
  name : KeyOrHash Key
deriving DecidableEq, Repr

/-- A mask `FFFFTTTT`. -/
structure Mask where
  bits : List Bool
  falses : Nat
  trues : Nat
  even : bits = replicate falses false ++ replicate trues true

/-- The database, with what it takes from its base class. -/
structure SegmentTokenDatabase (Key Configs : Type) where
  sepTokens : List Int
  fastSplitBySubtensor : List Int → List (List Int)
  hashFunc : Option Int × List Int → Int
  makeKeyByHash : Int → Option Configs → Key

namespace SegmentTokenDatabase

variable {Key Configs : Type} (db : SegmentTokenDatabase Key Configs)

def sepLen : Nat := db.sepTokens.length

/-- `_hash_tokens`, without a prefix. -/
def hashTokens (tokens : List Int) : Int := db.hashFunc (none, tokens)

variable (makeKey : Bool) (requestConfigs : Option Configs) (idx : Nat)

def name (hash : Int) : KeyOrHash Key :=
  if makeKey then .key (db.makeKeyByHash hash requestConfigs) else .hash hash

/-- The pieces at and behind the mask, from the piece `idx` on. -/
def processChunks (makeKey : Bool) (requestConfigs : Option Configs) (numFalses : Nat) :
    Nat → Nat → List (List Int) → List (Segment Key)
  | _, _, [] => []
  | idx, startIdx, tokenChunk :: tokenChunks =>
    let endIdx := startIdx + tokenChunk.length
    let (startIdx, endIdx) :=
      if 0 < idx then (startIdx + db.sepLen, endIdx + db.sepLen) else (startIdx, endIdx)
    let rest := processChunks makeKey requestConfigs numFalses (idx + 1) endIdx tokenChunks
    if numFalses ≤ startIdx then
      ⟨startIdx, endIdx, db.name makeKey requestConfigs (db.hashTokens tokenChunk)⟩ :: rest
    else rest

/-- The hashes, end to end. -/
def processHashes (makeKey : Bool) (requestConfigs : Option Configs) :
    Nat → List (Int × Nat) → List (Segment Key)
  | _, [] => []
  | startIdx, (hashVal, offset) :: rest =>
    let endIdx := startIdx + offset
    ⟨startIdx, endIdx, db.name makeKey requestConfigs hashVal⟩ ::
      processHashes makeKey requestConfigs endIdx rest

/-- `mask.numel() - mask.long().sum().item()`. -/
def numFalses : Option Mask → Nat
  | some mask => mask.bits.length - mask.bits.count true
  | none => 0

/-- `TokenDatabase_process_tokens`. -/
def processTokens (tokens : Option (List Int)) (hashes : Option (List Int))
    (offsets : Option (List Nat)) (mask : Option Mask) (makeKey : Bool)
    (requestConfigs : Option Configs) : Except String (List (Segment Key)) :=
  match tokens, hashes with
  | some tokens, _ =>
    if tokens.length = 0 then .ok []
    else if numFalses mask = tokens.length then .ok []
    else if tokens.length < numFalses mask then
      .error ("AssertionError:The number of Falses in the mask shouldn't "
        ++ "be less than the length of tokens.")
    else .ok (db.processChunks makeKey requestConfigs (numFalses mask) 0 0
      (db.fastSplitBySubtensor tokens))
  | none, some hashes =>
    match offsets with
    | none =>
      .error "AssertionError:If hashes are provided, offsets must also be provided."
    | some offsets => .ok (db.processHashes makeKey requestConfigs 0 (hashes.zip offsets))
  | none, none => .error "ValueError:Either tokens or hashes must be provided."

/-! ## Places of pieces -/

/-- Pieces with a gap between, from a start. -/
def place (f : List Int → KeyOrHash Key) (gap : Nat) : Nat → List (List Int) → List (Segment Key)
  | _, [] => []
  | start, piece :: pieces =>
    ⟨start, start + piece.length, f piece⟩ :: place f gap (start + piece.length + gap) pieces

/-- The start of the piece `idx`. -/
def pieceStart (startIdx : Nat) : Nat := if 0 < idx then startIdx + db.sepLen else startIdx

theorem processChunks_cons (numFalses idx startIdx : Nat) (piece : List Int)
    (pieces : List (List Int)) :
    db.processChunks makeKey requestConfigs numFalses idx startIdx (piece :: pieces) =
      let rest := db.processChunks makeKey requestConfigs numFalses (idx + 1)
        (db.pieceStart idx startIdx + piece.length) pieces
      if numFalses ≤ db.pieceStart idx startIdx then
        ⟨db.pieceStart idx startIdx, db.pieceStart idx startIdx + piece.length,
          db.name makeKey requestConfigs (db.hashTokens piece)⟩ :: rest
      else rest := by
  rw [processChunks, pieceStart]
  by_cases hidx : 0 < idx
  · simp only [if_pos hidx, Nat.add_right_comm startIdx piece.length]
  · simp only [if_neg hidx]

theorem processChunks_place {numFalses : Nat} (startIdx : Nat) (pieces : List (List Int))
    (h : numFalses ≤ db.pieceStart idx startIdx) :
    db.processChunks makeKey requestConfigs numFalses idx startIdx pieces =
      place (fun piece => db.name makeKey requestConfigs (db.hashTokens piece)) db.sepLen
        (db.pieceStart idx startIdx) pieces := by
  induction pieces generalizing idx startIdx with
  | nil => rfl
  | cons piece pieces ih =>
    have hnext : db.pieceStart (idx + 1) (db.pieceStart idx startIdx + piece.length) =
        db.pieceStart idx startIdx + piece.length + db.sepLen := if_pos (Nat.succ_pos idx)
    rw [processChunks_cons, if_pos h, ih, place, hnext]
    rw [hnext]
    omega

/-- The pieces of a list, joined with the separator, from the piece `idx` on. -/
def joined (pieces : List (List Int)) : List Int :=
  match idx, pieces with
  | 0, pieces => db.sepTokens.intercalate pieces
  | _ + 1, pieces => (pieces.map (db.sepTokens ++ ·)).flatten

theorem joined_succ (piece : List Int) (pieces : List (List Int)) :
    db.joined idx (piece :: pieces) =
      (if 0 < idx then db.sepTokens else []) ++ piece ++ db.joined (idx + 1) pieces := by
  cases idx with
  | succ idx =>
    rw [joined, joined, map_cons, flatten_cons]
    rfl
  | zero =>
    rw [joined, joined]
    induction pieces generalizing piece with
    | nil => simp
    | cons next pieces ih =>
      rw [intercalate_cons_cons, ih, map_cons, flatten_cons]
      simp

/-- What is yielded is a piece, at its place in the tokens. -/
structure Yielded (tokens : List Int) (makeKey : Bool) (requestConfigs : Option Configs)
    (numFalses : Nat) (pieces : List (List Int)) (s : Segment Key) : Prop where
  piece : (tokens.drop s.start).take (s.stop - s.start) ∈ pieces
  le : s.start ≤ s.stop
  stop_le : s.stop ≤ tokens.length
  name : s.name = db.name makeKey requestConfigs
    (db.hashTokens ((tokens.drop s.start).take (s.stop - s.start)))
  unmasked : numFalses ≤ s.start

theorem processChunks_yielded (tokens : List Int) (makeKey : Bool)
    (requestConfigs : Option Configs) (numFalses idx startIdx : Nat) (pieces : List (List Int))
    (hle : startIdx ≤ tokens.length) (h : tokens.drop startIdx = db.joined idx pieces) :
    ∀ s ∈ db.processChunks makeKey requestConfigs numFalses idx startIdx pieces,
      db.Yielded tokens makeKey requestConfigs numFalses pieces s := by
  induction pieces generalizing idx startIdx with
  | nil => exact nofun
  | cons piece pieces ih =>
    rw [joined_succ] at h
    have hstart : tokens.drop (db.pieceStart idx startIdx) =
        piece ++ db.joined (idx + 1) pieces := by
      unfold pieceStart
      split
      · next hidx =>
        rw [if_pos hidx] at h
        rw [← drop_drop, h, append_assoc]
        exact drop_left
      · next hidx =>
        rw [if_neg hidx] at h
        exact h
    have hlen := congrArg List.length h
    rw [length_drop, length_append, length_append] at hlen
    have hle' : db.pieceStart idx startIdx + piece.length ≤ tokens.length := by
      unfold pieceStart
      split
      · next hidx =>
        rw [if_pos hidx] at hlen
        have hsep : db.sepLen = db.sepTokens.length := rfl
        omega
      · omega
    have htake : (tokens.drop (db.pieceStart idx startIdx)).take
        (db.pieceStart idx startIdx + piece.length - db.pieceStart idx startIdx) = piece := by
      rw [hstart, Nat.add_sub_cancel_left]
      exact take_left
    have hrest := ih (idx + 1) (db.pieceStart idx startIdx + piece.length) hle' (by
      rw [← drop_drop, hstart]
      exact drop_left)
    have hrest' : ∀ s ∈ db.processChunks makeKey requestConfigs numFalses (idx + 1)
        (db.pieceStart idx startIdx + piece.length) pieces,
        db.Yielded tokens makeKey requestConfigs numFalses (piece :: pieces) s := fun s hs =>
      { hrest s hs with piece := mem_cons_of_mem _ (hrest s hs).piece }
    rw [processChunks_cons]
    split
    · next hunmasked =>
      refine forall_mem_cons.2 ⟨⟨?_, Nat.le_add_right _ _, hle', ?_, hunmasked⟩, hrest'⟩
      · rw [htake]
        exact mem_cons_self
      · rw [htake]
    · exact hrest'

theorem processChunks_suffix (numFalses idx startIdx : Nat) (pieces : List (List Int)) :
    ∃ start suffix, ∀ (makeKey : Bool) (requestConfigs : Option Configs),
      db.processChunks makeKey requestConfigs numFalses idx startIdx pieces =
        place (fun piece => db.name makeKey requestConfigs (db.hashTokens piece)) db.sepLen start
          suffix := by
  induction pieces generalizing idx startIdx with
  | nil => exact ⟨0, [], fun _ _ => rfl⟩
  | cons piece pieces ih =>
    by_cases h : numFalses ≤ db.pieceStart idx startIdx
    · exact ⟨_, _, fun makeKey requestConfigs =>
        db.processChunks_place makeKey requestConfigs idx startIdx _ h⟩
    obtain ⟨start, suffix, hsuffix⟩ := ih (idx + 1) (db.pieceStart idx startIdx + piece.length)
    refine ⟨start, suffix, fun makeKey requestConfigs => ?_⟩
    rw [processChunks_cons, if_neg h]
    exact hsuffix makeKey requestConfigs

end SegmentTokenDatabase

/-! ## Lengths and hashes -/

/-- The hashes that are yielded. -/
def hashesOf {Key : Type} (segments : List (Segment Key)) : List Int :=
  segments.filterMap fun s => match s.name with
    | .hash h => some h
    | .key _ => none

def lengthsOf {Key : Type} (segments : List (Segment Key)) : List Nat :=
  segments.map fun s => s.stop - s.start

namespace SegmentTokenDatabase

variable {Key Configs : Type} (db : SegmentTokenDatabase Key Configs)

variable (f : List Int → KeyOrHash Key) (gap : Nat)

variable (start : Nat)

theorem length_place (pieces : List (List Int)) :
    (place f gap start pieces).length = pieces.length := by
  induction pieces generalizing start with
  | nil => rfl
  | cons piece pieces ih => exact congrArg (· + 1) (ih _)

theorem processHashes_place (requestConfigs requestConfigs' : Option Configs)
    (gap start startIdx : Nat) (pieces : List (List Int)) :
    let segments := place (fun piece => db.name false requestConfigs' (db.hashTokens piece)) gap
      start pieces
    db.processHashes true requestConfigs startIdx ((hashesOf segments).zip (lengthsOf segments)) =
      place (fun piece => db.name true requestConfigs (db.hashTokens piece)) 0 startIdx pieces := by
  induction pieces generalizing start startIdx with
  | nil => rfl
  | cons piece pieces ih =>
    have hlen : start + piece.length - start = piece.length := Nat.add_sub_cancel_left ..
    have hrest := ih (start + piece.length + gap) (startIdx + piece.length)
    simp only [place, hashesOf, lengthsOf, name, filterMap_cons, map_cons, hlen,
      Nat.add_zero] at hrest ⊢
    exact congrArg _ hrest

theorem place_shift (start' : Nat) (pieces : List (List Int)) (i : Nat) {a b : Segment Key}
    (ha : (place f gap (start' + start) pieces)[i]? = some a)
    (hb : (place f 0 start' pieces)[i]? = some b) :
    b.name = a.name ∧ a.start = b.start + start + i * gap ∧ a.stop = b.stop + start + i * gap := by
  induction pieces generalizing start start' i with
  | nil => cases ha
  | cons piece pieces ih =>
    cases i with
    | zero =>
      cases ha
      cases hb
      refine ⟨rfl, by simp, ?_⟩
      simp only
      omega
    | succ i =>
      rw [place, getElem?_cons_succ] at ha hb
      have hstart : start' + start + piece.length + gap =
          start' + piece.length + 0 + (start + gap) := by omega
      rw [hstart] at ha
      obtain ⟨hname, hs, he⟩ := ih (start + gap) (start' + piece.length + 0) i ha hb
      rw [Nat.succ_mul]
      exact ⟨hname, by omega, by omega⟩

/-- Placements with and without gaps are the same just when nothing is before the first piece and
there are no gaps. -/
theorem place_eq_iff (pieces : List (List Int)) :
    place f 0 0 pieces = place f gap start pieces ↔
      pieces.length = 0 ∨ (start = 0 ∧ (pieces.length ≤ 1 ∨ gap = 0)) := by
  constructor
  · intro h
    match pieces, h with
    | [], _ => exact .inl rfl
    | [piece], h =>
      have hstart := congrArg Segment.start (head_eq_of_cons_eq h)
      exact .inr ⟨hstart.symm, .inl (Nat.le_refl 1)⟩
    | piece :: next :: pieces, h =>
      have hstart : 0 = start := congrArg Segment.start (head_eq_of_cons_eq h)
      have hnext : 0 + piece.length + 0 = start + piece.length + gap :=
        congrArg Segment.start (head_eq_of_cons_eq (tail_eq_of_cons_eq h))
      exact .inr ⟨hstart.symm, .inr (by omega)⟩
  · rintro (hnil | ⟨rfl, hone | rfl⟩)
    · rw [length_eq_zero_iff.1 hnil]
      rfl
    · match pieces, hone with
      | [], _ => rfl
      | [piece], _ => rfl
    · rfl

/-- The start of the first segment that is yielded. -/
def firstStart (segments : List (Segment Key)) : Nat := (segments.map (·.start)).headD 0

theorem firstStart_place {pieces : List (List Int)} (h : pieces ≠ []) :
    firstStart (place f gap start pieces) = start := by
  cases pieces with
  | nil => exact absurd rfl h
  | cons piece pieces => rfl

/-- The segments that are yielded for tokens: the last pieces, at their places. -/
theorem processTokens_place (tokens : List Int) (mask : Option Mask) :
    (∃ e, ∀ (makeKey : Bool) (requestConfigs : Option Configs),
      db.processTokens (some tokens) none none mask makeKey requestConfigs = .error e) ∨
    ∃ start suffix, ∀ (makeKey : Bool) (requestConfigs : Option Configs),
      db.processTokens (some tokens) none none mask makeKey requestConfigs = .ok
        (place (fun piece => db.name makeKey requestConfigs (db.hashTokens piece)) db.sepLen start
          suffix) := by
  unfold processTokens
  by_cases hempty : tokens.length = 0
  · exact .inr ⟨0, [], fun _ _ => if_pos hempty⟩
  by_cases hfull : numFalses mask = tokens.length
  · refine .inr ⟨0, [], fun _ _ => ?_⟩
    simp only [if_neg hempty, if_pos hfull]
    rfl
  by_cases hlong : tokens.length < numFalses mask
  · exact .inl ⟨_, fun _ _ => (if_neg hempty).trans ((if_neg hfull).trans (if_pos hlong))⟩
  obtain ⟨start, suffix, hsuffix⟩ :=
    db.processChunks_suffix (numFalses mask) 0 0 (db.fastSplitBySubtensor tokens)
  refine .inr ⟨start, suffix, fun makeKey requestConfigs => ?_⟩
  simp only [if_neg hempty, if_neg hfull, if_neg hlong, hsuffix]

/-- Each yielded piece is at its place behind the mask; from the hashes and the lengths come the
same keys and lengths, end to end from zero. -/
theorem segments_process (tokens : List Int) (mask : Option Mask)
    (requestConfigs requestConfigs' : Option Configs)
    (hsplit : db.sepTokens.intercalate (db.fastSplitBySubtensor tokens) = tokens) :
    (∀ makeKey segments,
      db.processTokens (some tokens) none none mask makeKey requestConfigs = .ok segments →
      ∀ s ∈ segments, db.Yielded tokens makeKey requestConfigs (numFalses mask)
        (db.fastSplitBySubtensor tokens) s ∧ ∀ m, mask = some m → m.falses ≤ s.start) ∧
    ∀ segments,
      db.processTokens (some tokens) none none mask false requestConfigs' = .ok segments →
      ∃ direct rebuilt,
        db.processTokens (some tokens) none none mask true requestConfigs = .ok direct ∧
        db.processTokens none (some (hashesOf segments)) (some (lengthsOf segments)) none true
          requestConfigs = .ok rebuilt ∧
        rebuilt.length = direct.length ∧
        (∀ (i : Nat) (a b : Segment Key), direct[i]? = some a → rebuilt[i]? = some b →
          b.name = a.name ∧ a.start = b.start + firstStart direct + i * db.sepLen ∧
          a.stop = b.stop + firstStart direct + i * db.sepLen) ∧
        (rebuilt = direct ↔ direct.length = 0 ∨
          (firstStart direct = 0 ∧ (direct.length ≤ 1 ∨ db.sepLen = 0))) := by
  constructor
  · intro makeKey segments hsegments s hs
    have hyielded : db.Yielded tokens makeKey requestConfigs (numFalses mask)
        (db.fastSplitBySubtensor tokens) s := by
      simp only [processTokens] at hsegments
      split at hsegments
      · cases hsegments
        cases hs
      split at hsegments
      · cases hsegments
        cases hs
      split at hsegments
      · cases hsegments
      · cases hsegments
        exact db.processChunks_yielded tokens makeKey requestConfigs _ 0 0 _ (Nat.zero_le _)
          hsplit.symm s hs
    refine ⟨hyielded, fun m hm => ?_⟩
    have hfalses : numFalses mask = m.falses := by
      subst hm
      rw [numFalses, m.even]
      simp [count_replicate]
    exact hfalses ▸ hyielded.unmasked
  · intro segments hsegments
    rcases db.processTokens_place tokens mask with ⟨e, herror⟩ | ⟨start, suffix, hplace⟩
    · rw [herror] at hsegments
      cases hsegments
    rw [hplace] at hsegments
    cases hsegments
    refine ⟨_, _, hplace true requestConfigs,
      congrArg Except.ok (db.processHashes_place requestConfigs requestConfigs' _ _ _ _),
      ?_, ?_, ?_⟩
    · rw [length_place, length_place]
    · intro i a b ha hb
      have hne : suffix ≠ [] := by
        rintro rfl
        cases ha
      rw [firstStart_place _ _ _ hne]
      rw [← Nat.zero_add start] at ha
      exact place_shift _ _ _ _ _ _ ha hb
    · rw [place_eq_iff, length_place]
      by_cases hne : suffix = []
      · simp [hne]
      · rw [firstStart_place _ _ _ hne]

/-- A database with the separator 0. -/
def zeroSeparated : SegmentTokenDatabase Nat Unit where
  sepTokens := [0]
  fastSplitBySubtensor tokens := tokens.splitOn 0
  hashFunc tokens := tokens.2.sum
  makeKeyByHash hash _ := hash.toNat

theorem zeroSeparated_process :
    let mask : Mask := ⟨[false, true, true, true], 1, 3, rfl⟩
    (∀ makeKey segments,
      zeroSeparated.processTokens (some [1, 0, 2, 3]) none none (some mask) makeKey none =
        .ok segments →
      ∀ s ∈ segments, zeroSeparated.Yielded [1, 0, 2, 3] makeKey none (numFalses (some mask))
        (zeroSeparated.fastSplitBySubtensor [1, 0, 2, 3]) s ∧
        ∀ m, some mask = some m → m.falses ≤ s.start) ∧
    ∃ direct rebuilt,
      zeroSeparated.processTokens (some [1, 0, 2, 3]) none none (some mask) true none =
        .ok direct ∧
      zeroSeparated.processTokens none (some [5]) (some [2]) none true none = .ok rebuilt ∧
      rebuilt.length = direct.length ∧
      (∀ (i : Nat) (a b : Segment Nat), direct[i]? = some a → rebuilt[i]? = some b →
        b.name = a.name ∧ a.start = b.start + firstStart direct + i * zeroSeparated.sepLen ∧
        a.stop = b.stop + firstStart direct + i * zeroSeparated.sepLen) ∧
      (rebuilt = direct ↔ direct.length = 0 ∨
        (firstStart direct = 0 ∧ (direct.length ≤ 1 ∨ zeroSeparated.sepLen = 0))) := by
  obtain ⟨hyielded, hrebuilt⟩ := segments_process zeroSeparated [1, 0, 2, 3]
    (some ⟨[false, true, true, true], 1, 3, rfl⟩) none none (by decide)
  exact ⟨hyielded, hrebuilt [⟨2, 4, .hash 5⟩] (by decide)⟩

/-- Two pieces: the second is at 2 behind the separator, and at 1 from the lengths. -/
theorem rebuilt_without_separator :
    zeroSeparated.fastSplitBySubtensor [1, 0, 2] = [[1], [2]] ∧
    zeroSeparated.processTokens (some [1, 0, 2]) none none none false none =
      .ok [⟨0, 1, .hash 1⟩, ⟨2, 3, .hash 2⟩] ∧
    zeroSeparated.processTokens (some [1, 0, 2]) none none none true none =
      .ok [⟨0, 1, .key 1⟩, ⟨2, 3, .key 2⟩] ∧
    zeroSeparated.processTokens none (some [1, 2]) (some [1, 1]) none true none =
      .ok [⟨0, 1, .key 1⟩, ⟨1, 2, .key 2⟩] := by
  decide

end SegmentTokenDatabase

end TokenDatabase
