import Mathlib.Data.List.Perm.Subperm
import LMCacheAscend.Lib.Traverse
import LMCacheAscend.RemoteFill.Pages

/-!
# The required prefix

`_validate_control_page` with the layout and the keys of the decoder, and what
`_validate_required_prefix` accepts with it: the rectangle of the chunks below the
required end and the negotiated groups (`Rectangle`).  Each page is that of its
place, there are as many pages as places and no two of one place, so a full set of
pages is found by counting.

The parser of a `CacheEngineKey`, its text and its tags are fields of `Decoder`.
-/

namespace RemoteFill

open Lib List

/-! ## Control pages -/

/-- `RemoteFillGroupLayout`. -/
structure GroupLayout where
  rawTokenDim : Int
  dtype : String
  itemsize : Int
  layerTokenDims : List Int

/-- `RemoteFillDecoderLayout`. -/
structure DecoderLayout where
  layoutTag : String
  modelName : String
  keyWorldSize : Int
  chunkSize : Int
  chunkSize_pos : 0 < chunkSize
  numLayers : Int
  groupLayerCounts : Option (Int × Int)
  groups : GroupLayout × GroupLayout

/-- A chunk hash is the text of an integer, or of bytes with a character each. -/
structure CacheEngineKey where
  modelName : String
  worldSize : Int
  workerId : Int
  chunkHash : String
  dtype : String
  requestConfigs : Dict String String
  kvGroup : Nat

/-- The page lifecycle's arguments, and what it calls of a key. -/
structure Decoder where
  layout : DecoderLayout
  directGroups : List Nat
  directGroups_valid : directGroups = [0] ∨ directGroups = [0, 1]
  /-- The width of a digest, where chunk hashes are bytes. -/
  chunkHashBytes : Option Nat
  /-- `MOONCAKE_VALID_TOKENS_TAG`. -/
  validTokensTag : String
  fromString : String → Except PageError CacheEngineKey
  /-- `mooncake_valid_tokens`. -/
  validTokens : CacheEngineKey → Int → Except PageError Int
  keyText : CacheEngineKey → String
  keyTags : CacheEngineKey → List (String × String)

def GroupLayout.expectedBytes (group : GroupLayout) (validTokens numLayers : Int) :
    Except PageError Int :=
  if group.layerTokenDims ≠ [] then
    if (group.layerTokenDims.length : Int) ≠ numLayers then
      .error (.valueError "RemoteFill precision policy disagrees with layer count")
    else .ok (validTokens * group.layerTokenDims.sum * group.itemsize)
  else .ok (validTokens * group.rawTokenDim * group.itemsize * numLayers)

def DecoderLayout.numLayersForGroup (layout : DecoderLayout) (kvGroup : Nat) :
    Except PageError Int :=
  if kvGroup = 0 then .ok (layout.groupLayerCounts.elim layout.numLayers Prod.fst)
  else if kvGroup = 1 then .ok (layout.groupLayerCounts.elim layout.numLayers Prod.snd)
  else .error (.valueError ("Invalid KV group: " ++ toString kvGroup))

def DecoderLayout.group (layout : DecoderLayout) (kvGroup : Nat) : Except PageError GroupLayout :=
  if kvGroup = 0 then .ok layout.groups.1
  else if kvGroup = 1 then .ok layout.groups.2
  else .error (.valueError ("remote fill requires KV group 0 or 1, got " ++ toString kvGroup))

/-- A `ValueError` unless `c`. -/
def ensure (c : Prop) [Decidable c] (message : String) : Except PageError Unit :=
  if c then .ok () else .error (.valueError message)

variable (dec : Decoder)

/-- The key with the tag of its valid tokens, unless it is a full chunk's. -/
def Decoder.tagged (key : CacheEngineKey) (validTokens : Int) : CacheEngineKey :=
  if validTokens ≠ dec.layout.chunkSize then
    { key with requestConfigs := key.requestConfigs.set dec.validTokensTag (toString validTokens) }
  else key

/-- `_validate_control_page`. -/
def Decoder.validateControlPage (page : ControlPage) : Except PageError CacheEngineKey := do
  ensure (page.kvGroup ∈ dec.directGroups) "remote-fill page group was not negotiated"
  let parsed ← dec.fromString page.canonicalKey
  let keyValidTokens ← dec.validTokens parsed dec.layout.chunkSize
  let key := dec.tagged parsed keyValidTokens
  ensure (∀ width ∈ dec.chunkHashBytes, key.chunkHash.length = width)
    "remote-fill page chunk hash has an unexpected digest width"
  ensure (dec.keyText key = page.canonicalKey) "remote-fill page key is not canonical"
  ensure (key.kvGroup = page.kvGroup) "remote-fill key group does not match control page"
  ensure (key.workerId = 0) "remote-fill physical page must be owned by TP0"
  ensure (key.modelName = dec.layout.modelName) "remote-fill page model identity mismatch"
  ensure (key.worldSize = dec.layout.keyWorldSize) "remote-fill page key world size mismatch"
  ensure (page.destinationTpRank = 0) "remote-fill destination TP rank must be zero"
  let numLayers ← dec.layout.numLayersForGroup page.kvGroup
  ensure (page.layerCount = numLayers) "remote-fill page layer count mismatch"
  ensure (page.layoutTag = dec.layout.layoutTag) "remote-fill page layout tag mismatch"
  ensure (0 ≤ page.chunkIndex ∧ page.chunkStart = page.chunkIndex * dec.layout.chunkSize)
    "remote-fill page chunk position mismatch"
  ensure (page.chunkEnd - page.chunkStart = page.validTokens)
    "remote-fill page valid-token interval mismatch"
  ensure (0 < page.validTokens ∧ page.validTokens ≤ dec.layout.chunkSize)
    "remote-fill page valid-token count is out of range"
  ensure (keyValidTokens = page.validTokens) "remote-fill key valid-token tag mismatch"
  let group ← dec.layout.group page.kvGroup
  ensure (key.dtype = group.dtype) "remote-fill page key dtype mismatch"
  let expectedBytes ← group.expectedBytes page.validTokens numLayers
  ensure (page.expectedBytes = expectedBytes) "remote-fill page expected byte count mismatch"
  return key

/-- What the lifecycle compares of a key. -/
def Decoder.pageKey (key : CacheEngineKey) : PageKey where
  text := dec.keyText key
  modelName := key.modelName
  worldSize := key.worldSize
  workerId := key.workerId
  chunkHash := key.chunkHash
  tags := dec.keyTags key

def Decoder.pagesConfig : PagesConfig where
  directGroups := dec.directGroups
  directGroups_valid := dec.directGroups_valid
  chunkSize := dec.layout.chunkSize
  validateControlPage page := do
    let key ← dec.validateControlPage page
    return dec.pageKey key

/-! ## What a valid page is -/

/-- A page that the decoder accepts, and its key. -/
structure Canonical (page : ControlPage) (key : CacheEngineKey) : Prop where
  group : page.kvGroup ∈ dec.directGroups
  parsed : ∃ parsed, dec.fromString page.canonicalKey = .ok parsed ∧
    dec.validTokens parsed dec.layout.chunkSize = .ok page.validTokens ∧
    key = dec.tagged parsed page.validTokens
  width : ∀ width ∈ dec.chunkHashBytes, key.chunkHash.length = width
  text : dec.keyText key = page.canonicalKey
  keyGroup : key.kvGroup = page.kvGroup
  worker : key.workerId = 0
  model : key.modelName = dec.layout.modelName
  world : key.worldSize = dec.layout.keyWorldSize
  rank : page.destinationTpRank = 0
  layers : dec.layout.numLayersForGroup page.kvGroup = .ok page.layerCount
  layoutTag : page.layoutTag = dec.layout.layoutTag
  index : 0 ≤ page.chunkIndex
  start : page.chunkStart = page.chunkIndex * dec.layout.chunkSize
  interval : page.chunkEnd - page.chunkStart = page.validTokens
  tokens : 0 < page.validTokens ∧ page.validTokens ≤ dec.layout.chunkSize
  bytes : ∃ group, dec.layout.group page.kvGroup = .ok group ∧ key.dtype = group.dtype ∧
    group.expectedBytes page.validTokens page.layerCount = .ok page.expectedBytes

theorem bind_ok {α β : Type} {x : Except PageError α} {f : α → Except PageError β} {b : β} :
    (x >>= f) = .ok b ↔ ∃ a, x = .ok a ∧ f a = .ok b := by
  cases x with
  | error e =>
    refine ⟨fun h => ?_, fun ⟨a, h, _⟩ => ?_⟩ <;> cases h
  | ok a =>
    refine ⟨fun h => ⟨a, rfl, h⟩, fun ⟨a', h, hf⟩ => ?_⟩
    cases h
    exact hf

theorem ensure_ok {c : Prop} [Decidable c] {message : String} {u : Unit} :
    ensure c message = .ok u ↔ c := by
  unfold ensure
  split
  · next h => exact ⟨fun _ => h, fun _ => rfl⟩
  · next h =>
    refine ⟨fun hf => ?_, fun hf => absurd hf h⟩
    cases hf

theorem validateControlPage_ok {page : ControlPage} {key : CacheEngineKey} :
    dec.validateControlPage page = .ok key ↔ Canonical dec page key := by
  unfold Decoder.validateControlPage
  simp only [bind_ok, ensure_ok, exists_const]
  constructor
  · rintro ⟨h1, parsed, h2, valid, h3, h4, h5, h6, h7, h8, h9, h10, layers, h11, h12, h13,
      ⟨h14, h15⟩, h16, h17, h18, group, h19, h20, bytes, h21, h22, h23⟩
    cases h23
    subst h12 h18 h22
    exact ⟨h1, ⟨parsed, h2, h3, rfl⟩, h4, h5, h6, h7, h8, h9, h10, h11, h13, h14, h15, h16, h17,
      group, h19, h20, h21⟩
  · rintro ⟨h1, ⟨parsed, h2, h3, rfl⟩, h4, h5, h6, h7, h8, h9, h10, h11, h13, h14, h15, h16, h17,
      group, h19, h20, h21⟩
    exact ⟨h1, parsed, h2, _, h3, h4, h5, h6, h7, h8, h9, h10, _, h11, rfl, h13, ⟨h14, h15⟩, h16,
      h17, rfl, group, h19, h20, _, h21, rfl, rfl⟩

theorem pagesConfig_validate {page : ControlPage} {key : PageKey} :
    dec.pagesConfig.validateControlPage page = .ok key ↔
      ∃ parsed, Canonical dec page parsed ∧ key = dec.pageKey parsed := by
  unfold Decoder.pagesConfig
  simp only [bind_ok, validateControlPage_ok]
  constructor
  · rintro ⟨parsed, hc, h⟩
    cases h
    exact ⟨parsed, hc, rfl⟩
  · rintro ⟨parsed, hc, rfl⟩
    exact ⟨parsed, hc, rfl⟩

/-! ## Items by selector -/

variable {group : List (ControlPage × PageKey)}

section

variable {cfg : PagesConfig} {items : List (ControlPage × PageKey)}

/-- `(page.chunk_index, page.kv_group)`. -/
def ControlPage.selector (page : ControlPage) : Int × Nat := (page.chunkIndex, page.kvGroup)

def selectors (items : List (ControlPage × PageKey)) : List (Int × Nat) :=
  items.map fun e => e.1.selector

/-- An item is a page with the key that its validation returned. -/
def ItemOf (cfg : PagesConfig) (page : ControlPage) (e : ControlPage × PageKey) : Prop :=
  e.1 = page ∧ cfg.validateControlPage page = .ok e.2

theorem selectors_nil : (selectors []).Nodup := nodup_nil

theorem requiredItems_ok {pages : List ControlPage} {acc : List (ControlPage × PageKey)}
    (hacc : (selectors acc).Nodup) :
    requiredItems cfg pages acc = .ok items ↔ ∃ new, items = acc ++ new ∧
      Forall₂ (ItemOf cfg) pages new ∧ (selectors items).Nodup := by
  induction pages generalizing acc with
  | nil =>
    constructor
    · intro h
      cases h
      exact ⟨[], (append_nil _).symm, .nil, hacc⟩
    · rintro ⟨new, rfl, hnew, -⟩
      cases hnew
      rw [append_nil]
      rfl
  | cons page rest ih =>
    unfold requiredItems
    rw [bind_ok]
    have hany : ∀ key, (acc.any fun e =>
        e.1.chunkIndex = page.chunkIndex && e.1.kvGroup = page.kvGroup) = false ↔
          (selectors (acc ++ [(page, key)])).Nodup := by
      intro key
      unfold selectors at hacc ⊢
      rw [map_append, nodup_append, any_eq_false]
      constructor
      · intro h
        refine ⟨hacc, nodup_singleton _, fun a ha b hb hab => ?_⟩
        obtain ⟨e, he, rfl⟩ := mem_map.1 ha
        rw [map_cons, map_nil, mem_singleton] at hb
        have heq := hab.trans hb
        have := h e he
        simp [show e.1.chunkIndex = page.chunkIndex from congrArg Prod.fst heq,
          show e.1.kvGroup = page.kvGroup from congrArg Prod.snd heq] at this
      · rintro ⟨-, -, h⟩ e he hsame
        simp only [Bool.and_eq_true, decide_eq_true_eq] at hsame
        exact h _ (mem_map.2 ⟨e, he, rfl⟩) page.selector (mem_singleton_self _)
          (Prod.ext hsame.1 hsame.2)
    constructor
    · rintro ⟨key, hkey, h⟩
      split at h
      · cases h
      next hnew =>
      have hnodup := (hany key).1 (Bool.eq_false_iff.2 hnew)
      obtain ⟨new, rfl, hrest, hall⟩ := (ih hnodup).1 h
      exact ⟨(page, key) :: new, (append_cons _ _ _).symm, .cons ⟨rfl, hkey⟩ hrest, hall⟩
    · rintro ⟨new, rfl, hnew, hall⟩
      obtain ⟨⟨page', key⟩, new', ⟨hpage, hkey⟩, hrest, rfl⟩ := forall₂_cons_left_iff.1 hnew
      cases hpage
      have hnodup : (selectors (acc ++ [(page', key)])).Nodup := by
        unfold selectors at hall ⊢
        rw [append_cons, map_append] at hall
        exact (nodup_append.1 hall).1
      refine ⟨key, hkey, ?_⟩
      rw [(hany key).2 hnodup]
      exact (ih hnodup).2 ⟨new', append_cons _ _ _, hrest, hall⟩

variable {c : Int}

theorem find?_selector (hitems : (selectors items).Nodup) {g : Nat} {e : ControlPage × PageKey} :
    (items.find? fun e => e.1.chunkIndex = c && e.1.kvGroup = g) = some e ↔
      e ∈ items ∧ e.1.selector = (c, g) := by
  constructor
  · intro h
    have hp := find?_some h
    simp only [Bool.and_eq_true, decide_eq_true_eq] at hp
    exact ⟨mem_of_find?_eq_some h, Prod.ext hp.1 hp.2⟩
  · rintro ⟨he, hsel⟩
    cases hf : items.find? fun e => e.1.chunkIndex = c && e.1.kvGroup = g with
    | none =>
      have := find?_eq_none.1 hf e he
      simp [show e.1.chunkIndex = c from congrArg Prod.fst hsel,
        show e.1.kvGroup = g from congrArg Prod.snd hsel] at this
    | some e' =>
      have hp := find?_some hf
      simp only [Bool.and_eq_true, decide_eq_true_eq] at hp
      have hsel' : e'.1.selector = e.1.selector := by rw [hsel]; exact Prod.ext hp.1 hp.2
      rw [inj_on_of_nodup_map hitems (mem_of_find?_eq_some hf) he hsel']

theorem groupItems_eq (hitems : (selectors items).Nodup) {cell : Nat → ControlPage × PageKey}
    (hcell : ∀ g ∈ cfg.directGroups, cell g ∈ items ∧ (cell g).1.selector = (c, g)) :
    groupItems cfg items c = some (cfg.directGroups.map cell) :=
  mapM_eq_some fun g hg => (find?_selector hitems).2 (hcell g hg)

/-! ## The checks of a prefix -/

/-- `{group: ... for group in self._direct_groups}`. -/
def keysByGroup (groups : List Nat) (keys : Nat → List PageKey) : Dict Nat (List PageKey) :=
  groups.foldl (fun d group => d.set group (keys group)) Dict.empty

/-- How many tokens of a chunk are below the end. -/
def validBelow (chunkSize stop c : Int) : Int := min stop ((c + 1) * chunkSize) - c * chunkSize

theorem PagesConfig.zero_mem (cfg : PagesConfig) : 0 ∈ cfg.directGroups := by
  rcases cfg.directGroups_valid with h | h <;> rw [h] <;> decide

variable {finish : FinishRequest}

theorem requiredChunk_ok (hitems : (selectors items).Nodup) (cell : Nat → ControlPage × PageKey)
    (hcell : ∀ g ∈ cfg.directGroups, cell g ∈ items ∧ (cell g).1.selector = (c, g)) :
    requiredChunk cfg items finish c = .ok group ↔ group = cfg.directGroups.map cell ∧
      ∀ g ∈ cfg.directGroups, samePrefixIdentity
        (validBelow cfg.chunkSize finish.requiredStoreEnd c) (cell 0) (cell g) = true := by
  have hhead : (cfg.directGroups.map cell).head? = some (cell 0) := by
    rcases cfg.directGroups_valid with h | h <;> rw [h] <;> rfl
  have hall : ((cfg.directGroups.map cell).all (samePrefixIdentity
        (validBelow cfg.chunkSize finish.requiredStoreEnd c) (cell 0))) = true ↔
      ∀ g ∈ cfg.directGroups, samePrefixIdentity
        (validBelow cfg.chunkSize finish.requiredStoreEnd c) (cell 0) (cell g) = true := by
    rw [all_eq_true, forall_mem_map]
  rw [← hall]
  unfold requiredChunk
  rw [groupItems_eq hitems hcell]
  simp only
  rw [hhead]
  simp only
  unfold validBelow
  split
  · next h =>
    refine ⟨fun hok => ?_, fun hok => ?_⟩
    · cases hok
      exact ⟨rfl, h⟩
    · rw [hok.1]
      rfl
  · next h =>
    refine ⟨fun hok => ?_, fun hok => absurd hok.2 h⟩
    cases hok

theorem requiredChunk_items (h : requiredChunk cfg items finish c = .ok group)
    (hitems : (selectors items).Nodup) :
    ∀ g ∈ cfg.directGroups, ∃ e ∈ items, e.1.selector = (c, g) := by
  unfold requiredChunk at h
  split at h
  · cases h
  next group' hgroup =>
  intro g hg
  obtain ⟨e, -, he⟩ := exists_right (forall₂_of_mapM hgroup) g hg
  exact ⟨e, (find?_selector hitems).1 he⟩

/-- When the check passes, and what it returns. -/
theorem validateRequiredPrefix_ok {pages : List ControlPage} {result : Dict Nat (List PageKey)} :
    validateRequiredPrefix cfg pages finish = .ok result ↔
      (finish.requiredStoreEnd = 0 ∧ pages = [] ∧ finish.finalPartialValidTokens = 0 ∧
        result = keysByGroup cfg.directGroups fun _ => []) ∨ (0 < finish.requiredStoreEnd ∧
        (pages.length : Int) = (finish.requiredStoreEnd + cfg.chunkSize - 1) / cfg.chunkSize *
          cfg.directGroups.length ∧
        finish.finalPartialValidTokens = finish.requiredStoreEnd % cfg.chunkSize ∧
        ∃ items, requiredItems cfg pages [] = .ok items ∧ ∃ chunks,
          ((range ((finish.requiredStoreEnd + cfg.chunkSize - 1) / cfg.chunkSize).toNat).map
            (Nat.cast : Nat → Int)).mapM (requiredChunk cfg items finish) = .ok chunks ∧
          result = keysByGroup cfg.directGroups fun group =>
            (chunks.flatten.filter fun e => e.1.kvGroup = group).map Prod.snd) := by
  unfold validateRequiredPrefix
  simp only
  split
  · next hneg =>
    refine ⟨fun h => ?_, fun h => ?_⟩
    · cases h
    · omega
  split
  · next hzero =>
    split
    · next hbad =>
      refine ⟨fun h => ?_, fun h => ?_⟩
      · cases h
      · obtain ⟨-, hpages, hfinal, -⟩ | ⟨hpos, -⟩ := h
        · exact absurd hbad (by simp [hpages, hfinal])
        · omega
    · next hgood =>
      rw [not_or, not_not, not_not] at hgood
      refine ⟨fun h => ?_, fun h => ?_⟩
      · cases h
        exact .inl ⟨hzero, hgood.1, hgood.2, rfl⟩
      · obtain ⟨-, -, -, rfl⟩ | ⟨hpos, -⟩ := h
        · rfl
        · omega
  next hneg hzero =>
  have hpos : 0 < finish.requiredStoreEnd := by omega
  split
  · next hlen =>
    refine ⟨fun h => ?_, fun h => ?_⟩
    · cases h
    · obtain ⟨h0, -⟩ | ⟨-, h1, -⟩ := h
      · omega
      · exact absurd h1 hlen
  next hlen =>
  rw [not_not] at hlen
  simp only [bind_ok, bind_pure_comp, map_eq_map]
  constructor
  · rintro ⟨items, hitems, chunks, hchunks, h⟩
    split at h
    · cases h
    next hfinal =>
    cases h
    exact .inr ⟨hpos, hlen, not_not.1 hfinal, items, hitems, chunks, hchunks, rfl⟩
  · rintro (⟨h0, -⟩ | ⟨-, -, hfinal, items, hitems, chunks, hchunks, rfl⟩)
    · omega
    refine ⟨items, hitems, chunks, hchunks, ?_⟩
    rw [if_neg (not_not.2 hfinal)]
    rfl

end

/-! ## The rectangle -/

/-- `ceil(stop / chunk_size)`. -/
def Decoder.chunks (stop : Int) : Nat :=
  ((stop + dec.layout.chunkSize - 1) / dec.layout.chunkSize).toNat

/-- The page of a chunk and a group, with its token interval, and its key. -/
structure Cell (stop : Int) (c g : Nat) (page : ControlPage) (key : CacheEngineKey) : Prop where
  canonical : Canonical dec page key
  chunkIndex : page.chunkIndex = c
  kvGroup : page.kvGroup = g
  start : page.chunkStart = c * dec.layout.chunkSize
  stop : page.chunkEnd = min stop ((c + 1) * dec.layout.chunkSize)

/-- The places of the rectangle, chunk by chunk. -/
def Decoder.places {α : Type} (stop : Int) (f : Nat → Nat → α) : List α :=
  (range (dec.chunks stop)).flatMap fun c => dec.directGroups.map (f c)

/-- The pages are those of all chunks below the end and all groups, each once; the groups of a
chunk share its hash, and the tags but `dsa_idx`. -/
structure Rectangle (stop : Int) (page : Nat → Nat → ControlPage) (key : Nat → Nat → CacheEngineKey)
    (pages : List ControlPage) : Prop where
  perm : pages.Perm (dec.places stop page)
  cell : ∀ c < dec.chunks stop, ∀ g ∈ dec.directGroups, Cell dec stop c g (page c g) (key c g)
  hash : ∀ c < dec.chunks stop, ∀ g ∈ dec.directGroups, (key c g).chunkHash = (key c 0).chunkHash
  tags : ∀ c < dec.chunks stop, ∀ g ∈ dec.directGroups,
    sharedKeyTags (dec.pageKey (key c g)) = sharedKeyTags (dec.pageKey (key c 0))

section

variable {dec : Decoder} {stop : Int} {page : Nat → Nat → ControlPage}
  {key : Nat → Nat → CacheEngineKey} {pages : List ControlPage}

theorem Decoder.lt_chunks (c : Nat) : c < dec.chunks stop ↔ c * dec.layout.chunkSize < stop := by
  have hpos := dec.layout.chunkSize_pos
  unfold Decoder.chunks
  rw [Int.lt_toNat, ← Int.add_one_le_iff, Int.le_ediv_iff_mul_le hpos, Int.add_mul, Int.one_mul]
  omega

variable {α : Type} {n : Nat}

theorem mem_places {f : Nat → Nat → α} {a : α} :
    a ∈ dec.places stop f ↔ ∃ c < dec.chunks stop, ∃ g ∈ dec.directGroups, f c g = a := by
  unfold Decoder.places
  simp only [mem_flatMap, mem_range, mem_map]

theorem length_places (f : Nat → Nat → α) :
    (dec.places stop f).length = dec.chunks stop * dec.directGroups.length := by
  unfold Decoder.places
  rw [length_flatMap]
  simp

theorem directGroups_nodup : dec.directGroups.Nodup := by
  rcases dec.directGroups_valid with h | h <;> rw [h] <;> decide

theorem nodup_places {f : Nat → Nat → α} {place : α → Int × Nat}
    (h : ∀ c < dec.chunks stop, ∀ g ∈ dec.directGroups, place (f c g) = ((c : Int), g)) :
    ((dec.places stop f).map place).Nodup := by
  have heq : (dec.places stop f).map place = dec.places stop fun c g => ((c : Int), g) := by
    unfold Decoder.places
    rw [map_flatMap]
    refine flatMap_congr fun c hc => ?_
    rw [map_map]
    exact map_congr_left fun g hg => h c (mem_range.1 hc) g hg
  rw [heq]
  unfold Decoder.places
  rw [nodup_flatMap]
  refine ⟨fun c _ => directGroups_nodup.map fun g g' h => congrArg Prod.snd h, ?_⟩
  refine nodup_range.imp fun {c c'} hne x hx hx' => hne ?_
  obtain ⟨g, -, rfl⟩ := mem_map.1 hx
  obtain ⟨g', -, hg'⟩ := mem_map.1 hx'
  exact Int.ofNat.inj (congrArg Prod.fst hg').symm

/-- **As many pages as places, one of each place**: the pages are those of the places. -/
theorem perm_places (hlen : pages.length = dec.chunks stop * dec.directGroups.length)
    (hmem : ∀ c < dec.chunks stop, ∀ g ∈ dec.directGroups,
      page c g ∈ pages ∧ (page c g).selector = ((c : Int), g)) :
    pages.Perm (dec.places stop page) := by
  have hnodup : (dec.places stop page).Nodup :=
    Nodup.of_map _ (nodup_places fun c hc g hg => (hmem c hc g hg).2)
  have hsub : dec.places stop page ⊆ pages := by
    intro x hx
    obtain ⟨c, hc, g, hg, rfl⟩ := mem_places.1 hx
    exact (hmem c hc g hg).1
  refine ((hnodup.subperm hsub).perm_of_length_le ?_).symm
  rw [hlen, length_places]

/-- An item of the place `c`, `g`. -/
structure Placed (dec : Decoder) (items : List (ControlPage × PageKey)) (c g : Nat)
    (page : ControlPage) (key : CacheEngineKey) : Prop where
  mem : (page, dec.pageKey key) ∈ items
  selector : page.selector = ((c : Int), g)
  canonical : Canonical dec page key

theorem samePrefixIdentity_iff {items : List (ControlPage × PageKey)} {c g g' : Nat}
    {p p' : ControlPage} {k k' : CacheEngineKey} (h : Placed dec items c g p k)
    (h' : Placed dec items c g' p' k') :
    samePrefixIdentity (validBelow dec.layout.chunkSize stop c) (p, dec.pageKey k)
        (p', dec.pageKey k') = true ↔
      p.chunkEnd = min stop ((c + 1) * dec.layout.chunkSize) ∧
      p'.chunkEnd = min stop ((c + 1) * dec.layout.chunkSize) ∧ k'.chunkHash = k.chunkHash ∧
      sharedKeyTags (dec.pageKey k') = sharedKeyTags (dec.pageKey k) := by
  have hstart := h.canonical.start
  have hstart' := h'.canonical.start
  rw [show p.chunkIndex = c from congrArg Prod.fst h.selector] at hstart
  rw [show p'.chunkIndex = c from congrArg Prod.fst h'.selector] at hstart'
  have hinterval := h'.canonical.interval
  have hcommon : (dec.pageKey k').modelName = (dec.pageKey k).modelName ∧
      (dec.pageKey k').worldSize = (dec.pageKey k).worldSize ∧
      (dec.pageKey k').workerId = (dec.pageKey k).workerId :=
    ⟨h'.canonical.model.trans h.canonical.model.symm,
      h'.canonical.world.trans h.canonical.world.symm,
      h'.canonical.worker.trans h.canonical.worker.symm⟩
  unfold samePrefixIdentity validBelow
  simp only [Bool.and_eq_true, decide_eq_true_eq]
  constructor
  · rintro ⟨⟨⟨⟨⟨⟨⟨hvalid, -⟩, hend⟩, hhash⟩, -⟩, -⟩, -⟩, htags⟩
    exact ⟨by omega, by omega, hhash, htags⟩
  · rintro ⟨hend, hend', hhash, htags⟩
    exact ⟨⟨⟨⟨⟨⟨⟨by omega, by omega⟩, by omega⟩, hhash⟩, hcommon.1⟩, hcommon.2.1⟩, hcommon.2.2⟩,
      htags⟩

/-- What the rectangle says of its cells. -/
structure Cells (dec : Decoder) (stop : Int) (page : Nat → Nat → ControlPage)
    (key : Nat → Nat → CacheEngineKey) (c g : Nat) : Prop where
  cell : Cell dec stop c g (page c g) (key c g)
  hash : (key c g).chunkHash = (key c 0).chunkHash
  tags : sharedKeyTags (dec.pageKey (key c g)) = sharedKeyTags (dec.pageKey (key c 0))

variable {items : List (ControlPage × PageKey)} {finish : FinishRequest}

theorem chunk_ok {c : Nat} (hitems : (selectors items).Nodup)
    (hplaced : ∀ g ∈ dec.directGroups, Placed dec items c g (page c g) (key c g)) :
    requiredChunk dec.pagesConfig items finish c = .ok group ↔
      group = dec.directGroups.map (fun g => (page c g, dec.pageKey (key c g))) ∧
        ∀ g ∈ dec.directGroups, Cells dec finish.requiredStoreEnd page key c g := by
  have hzero := dec.pagesConfig.zero_mem
  rw [requiredChunk_ok hitems (fun g => (page c g, dec.pageKey (key c g)))
    fun g hg => ⟨(hplaced g hg).mem, (hplaced g hg).selector⟩]
  refine and_congr_right fun _ => ⟨fun h g hg => ?_, fun h g hg => ?_⟩
  · obtain ⟨-, hend, hhash, htags⟩ :=
      (samePrefixIdentity_iff (hplaced 0 hzero) (hplaced g hg)).1 (h g hg)
    have hp := hplaced g hg
    have hindex : (page c g).chunkIndex = c := congrArg Prod.fst hp.selector
    exact ⟨⟨hp.canonical, hindex, congrArg Prod.snd hp.selector,
      by rw [hp.canonical.start, hindex], hend⟩, hhash, htags⟩
  · exact (samePrefixIdentity_iff (hplaced 0 hzero) (hplaced g hg)).2
      ⟨(h 0 hzero).cell.stop, (h g hg).cell.stop, (h g hg).hash, (h g hg).tags⟩

variable {groups : List (List (ControlPage × PageKey))}

theorem chunks_ok (hitems : (selectors items).Nodup)
    (hplaced : ∀ c < n, ∀ g ∈ dec.directGroups, Placed dec items c g (page c g) (key c g)) :
    ((range n).map (Nat.cast : Nat → Int)).mapM
        (requiredChunk dec.pagesConfig items finish) = .ok groups ↔
      groups = (range n).map (fun c =>
          dec.directGroups.map fun g => (page c g, dec.pageKey (key c g))) ∧
        ∀ c < n, ∀ g ∈ dec.directGroups, Cells dec finish.requiredStoreEnd page key c g := by
  have hchunk : ∀ c < n, ∀ group, requiredChunk dec.pagesConfig items finish c = .ok group ↔ _ :=
    fun c hc group => chunk_ok hitems (hplaced c hc)
  have hall : (∀ c < n, ∀ g ∈ dec.directGroups, Cells dec finish.requiredStoreEnd page key c g) →
      (range n).mapM (requiredChunk dec.pagesConfig items finish ∘ Nat.cast) =
        .ok ((range n).map fun c =>
          dec.directGroups.map fun g => (page c g, dec.pageKey (key c g))) := fun h =>
    mapM_eq_ok fun c hc => (hchunk c (mem_range.1 hc) _).2 ⟨rfl, h c (mem_range.1 hc)⟩
  rw [mapM_map]
  constructor
  · intro h
    have hcells : ∀ c < n, ∀ g ∈ dec.directGroups,
        Cells dec finish.requiredStoreEnd page key c g := by
      intro c hc
      obtain ⟨group, -, hgroup⟩ := exists_right (forall₂_of_mapM_ok h) c (mem_range.2 hc)
      exact ((hchunk c hc group).1 hgroup).2
    exact ⟨Except.ok.inj (h.symm.trans (hall hcells)), hcells⟩
  · rintro ⟨rfl, hcells⟩
    exact hall hcells

theorem keys_of_group {g : Nat} (hg : g ∈ dec.directGroups)
    (hgroup : ∀ c < n, ∀ g' ∈ dec.directGroups, (page c g').kvGroup = g') :
    ((((range n).map fun c =>
        dec.directGroups.map fun g' => (page c g', dec.pageKey (key c g'))).flatten.filter
          fun e => e.1.kvGroup = g).map Prod.snd) =
      (range n).map fun c => dec.pageKey (key c g) := by
  induction n with
  | zero => rfl
  | succ n ih =>
    have hlast : ((dec.directGroups.map fun g' => (page n g', dec.pageKey (key n g'))).filter
        fun e => e.1.kvGroup = g).map Prod.snd = [dec.pageKey (key n g)] := by
      have hn := hgroup n (Nat.lt_succ_self n)
      rcases dec.directGroups_valid with h | h
      · rw [h] at hg hn ⊢
        obtain rfl := mem_singleton.1 hg
        simp [hn 0 (by simp)]
      rw [h] at hg hn ⊢
      have h0 := hn 0 (by simp)
      have h1 := hn 1 (by simp)
      rcases mem_pair.1 hg with rfl | rfl <;> simp [h0, h1]
    rw [range_succ, map_append, map_append, flatten_append, filter_append,
      map_append, ih fun c hc => hgroup c (Nat.lt_succ_of_lt hc)]
    congr 1
    simpa using hlast

theorem keysByGroup_congr {groups : List Nat} {f f' : Nat → List PageKey}
    (h : ∀ g ∈ groups, f g = f' g) : keysByGroup groups f = keysByGroup groups f' := by
  unfold keysByGroup
  generalize (Dict.empty : Dict Nat (List PageKey)) = d
  induction groups generalizing d with
  | nil => rfl
  | cons g groups ih =>
    obtain ⟨hg, hgroups⟩ := forall_mem_cons.1 h
    rw [foldl_cons, foldl_cons, hg, ih hgroups]

/-- The keys of a rectangle, by group. -/
def Decoder.prefixKeys (dec : Decoder) (stop : Int) (key : Nat → Nat → CacheEngineKey) :
    Dict Nat (List PageKey) :=
  keysByGroup dec.directGroups fun g =>
    (range (dec.chunks stop)).map fun c => dec.pageKey (key c g)

theorem result_eq (hgroups : groups = (range (dec.chunks stop)).map fun c =>
      dec.directGroups.map fun g => (page c g, dec.pageKey (key c g)))
    (hgroup : ∀ c < dec.chunks stop, ∀ g ∈ dec.directGroups, (page c g).kvGroup = g) :
    (keysByGroup dec.directGroups fun group =>
      (groups.flatten.filter fun e => e.1.kvGroup = group).map Prod.snd) =
      dec.prefixKeys stop key := by
  subst hgroups
  exact keysByGroup_congr fun g hg => keys_of_group hg hgroup

theorem exists_placed (hitems : Forall₂ (ItemOf dec.pagesConfig) pages items)
    (hnodup : (selectors items).Nodup)
    (h : ((range n).map (Nat.cast : Nat → Int)).mapM (requiredChunk dec.pagesConfig items finish) =
      .ok groups) :
    ∃ (page : Nat → Nat → ControlPage) (key : Nat → Nat → CacheEngineKey),
      ∀ c < n, ∀ g ∈ dec.directGroups,
        page c g ∈ pages ∧ Placed dec items c g (page c g) (key c g) := by
  rw [mapM_map] at h
  have hcells : ∀ c g, c < n → g ∈ dec.directGroups →
      ∃ page key, page ∈ pages ∧ Placed dec items c g page key := by
    intro c g hc hg
    obtain ⟨group, -, hgroup⟩ := exists_right (forall₂_of_mapM_ok h) c (mem_range.2 hc)
    obtain ⟨⟨page, text⟩, he, hsel⟩ := requiredChunk_items hgroup hnodup g hg
    obtain ⟨page', hpage, hitem, hvalid⟩ := exists_right hitems.flip (page, text) he
    cases hitem
    obtain ⟨key, hcanonical, rfl⟩ := (pagesConfig_validate dec).1 hvalid
    exact ⟨page, key, hpage, he, hsel, hcanonical⟩
  have : Nonempty ControlPage := ⟨⟨"", 0, 0, 0, 0, 0, 0, 0, 0, ""⟩⟩
  have : Nonempty CacheEngineKey := ⟨⟨"", 0, 0, "", "", Dict.empty, 0⟩⟩
  choose! page key hplaced using hcells
  exact ⟨page, key, fun c hc g hg => hplaced c g hc hg⟩

theorem Rectangle.read (h : Rectangle dec stop page key pages) :
    ∃ items, requiredItems dec.pagesConfig pages [] = .ok items ∧ (selectors items).Nodup ∧
      ∀ c < dec.chunks stop, ∀ g ∈ dec.directGroups, Placed dec items c g (page c g) (key c g) := by
  have hvalid : ∀ p ∈ pages, ∃ k, dec.pagesConfig.validateControlPage p = .ok k := by
    intro p hp
    obtain ⟨c, hc, g, hg, rfl⟩ := mem_places.1 (h.perm.mem_iff.1 hp)
    exact ⟨_, (pagesConfig_validate dec).2 ⟨_, (h.cell c hc g hg).canonical, rfl⟩⟩
  have : Nonempty PageKey := ⟨⟨"", "", 0, 0, "", []⟩⟩
  choose! k hk using hvalid
  have hsel : ∀ c < dec.chunks stop, ∀ g ∈ dec.directGroups,
      (page c g).selector = ((c : Int), g) := fun c hc g hg =>
    Prod.ext (h.cell c hc g hg).chunkIndex (h.cell c hc g hg).kvGroup
  have hnodup : (selectors (pages.map fun p => (p, k p))).Nodup := by
    unfold selectors
    rw [map_map]
    exact (h.perm.map _).nodup_iff.2 (nodup_places hsel)
  have hitems : Forall₂ (ItemOf dec.pagesConfig) pages (pages.map fun p => (p, k p)) := by
    rw [forall₂_map_right_iff, forall₂_same]
    exact fun p hp => ⟨rfl, hk p hp⟩
  refine ⟨_, (requiredItems_ok selectors_nil).2 ⟨_, rfl, hitems, hnodup⟩, hnodup, ?_⟩
  intro c hc g hg
  have hmem := h.perm.mem_iff.2 (mem_places.2 ⟨c, hc, g, hg, rfl⟩)
  have hkey : k (page c g) = dec.pageKey (key c g) := by
    have hcell := (pagesConfig_validate dec).2 ⟨_, (h.cell c hc g hg).canonical, rfl⟩
    exact Except.ok.inj ((hk _ hmem).symm.trans hcell)
  refine ⟨mem_map.2 ⟨_, hmem, ?_⟩, hsel c hc g hg, (h.cell c hc g hg).canonical⟩
  rw [hkey]

theorem Rectangle.of_cells (hlen : pages.length = dec.chunks stop * dec.directGroups.length)
    (hmem : ∀ c < dec.chunks stop, ∀ g ∈ dec.directGroups, page c g ∈ pages)
    (hcells : ∀ c < dec.chunks stop, ∀ g ∈ dec.directGroups, Cells dec stop page key c g) :
    Rectangle dec stop page key pages where
  perm := perm_places hlen fun c hc g hg => ⟨hmem c hc g hg,
    Prod.ext (hcells c hc g hg).cell.chunkIndex (hcells c hc g hg).cell.kvGroup⟩
  cell c hc g hg := (hcells c hc g hg).cell
  hash c hc g hg := (hcells c hc g hg).hash
  tags c hc g hg := (hcells c hc g hg).tags

theorem chunks_eq (hstop : 0 < stop) :
    (dec.chunks stop : Int) = (stop + dec.layout.chunkSize - 1) / dec.layout.chunkSize := by
  have hpos := dec.layout.chunkSize_pos
  exact Int.toNat_of_nonneg (Int.ediv_nonneg (by omega) (by omega))

theorem chunks_zero : dec.chunks 0 = 0 := by
  have h : 0 < dec.chunks 0 ↔ ((0 : Nat) : Int) * dec.layout.chunkSize < 0 := Decoder.lt_chunks 0
  rw [Int.natCast_zero, Int.zero_mul] at h
  omega

theorem length_eq (hstop : 0 < stop) :
    (pages.length : Int) = (stop + dec.layout.chunkSize - 1) / dec.layout.chunkSize *
      dec.directGroups.length ↔ pages.length = dec.chunks stop * dec.directGroups.length := by
  rw [← chunks_eq hstop, ← Int.natCast_mul, Int.natCast_inj]

theorem rectangle_zero : Rectangle dec 0 page key pages ↔ pages = [] := by
  have hplaces : dec.places 0 page = [] := by
    unfold Decoder.places
    rw [chunks_zero]
    rfl
  refine ⟨fun h => (hplaces ▸ h.perm).eq_nil, ?_⟩
  rintro rfl
  refine ⟨hplaces ▸ .nil, ?_, ?_, ?_⟩ <;> rw [chunks_zero]
  all_goals exact fun c hc => absurd hc (Nat.not_lt_zero c)

theorem prefixKeys_zero : dec.prefixKeys 0 key = keysByGroup dec.directGroups fun _ => [] := by
  unfold Decoder.prefixKeys
  rw [chunks_zero]
  rfl

end

/-- **The required prefix.**  The decoder accepts a list of pages exactly if it is the rectangle of
the chunks below the required end and the negotiated groups, and the request says how far the last
chunk is filled; it returns the keys of each group in the order of the chunks. -/
theorem required_prefix_accepted (dec : Decoder) (pages : List ControlPage) (finish : FinishRequest)
    (result : Dict Nat (List PageKey)) :
    validateRequiredPrefix dec.pagesConfig pages finish = .ok result ↔
      0 ≤ finish.requiredStoreEnd ∧
      finish.finalPartialValidTokens = finish.requiredStoreEnd % dec.layout.chunkSize ∧
      ∃ page key, Rectangle dec finish.requiredStoreEnd page key pages ∧
        result = dec.prefixKeys finish.requiredStoreEnd key := by
  rw [validateRequiredPrefix_ok]
  change (_ ∨ (0 < finish.requiredStoreEnd ∧ (pages.length : Int) =
    (finish.requiredStoreEnd + dec.layout.chunkSize - 1) / dec.layout.chunkSize *
      dec.directGroups.length ∧ _ = finish.requiredStoreEnd % dec.layout.chunkSize ∧ _)) ↔ _
  constructor
  · rintro (⟨hstop, rfl, hfinal, rfl⟩ | ⟨hstop, hlen, hfinal, items, hitems, groups, hgroups, rfl⟩)
    · rw [hstop, hfinal, Int.zero_emod]
      exact ⟨le_refl 0, rfl, fun _ _ => ⟨"", 0, 0, 0, 0, 0, 0, 0, 0, ""⟩,
        fun _ _ => ⟨"", 0, 0, "", "", Dict.empty, 0⟩, rectangle_zero.2 rfl, prefixKeys_zero.symm⟩
    obtain ⟨new, rfl, hnew, hnodup⟩ := (requiredItems_ok selectors_nil).1 hitems
    obtain ⟨page, key, hplaced⟩ := exists_placed hnew hnodup hgroups
    obtain ⟨rfl, hcells⟩ := (chunks_ok hnodup fun c hc g hg => (hplaced c hc g hg).2).1 hgroups
    refine ⟨by omega, hfinal, page, key, ?_, ?_⟩
    · exact .of_cells ((length_eq hstop).1 hlen) (fun c hc g hg => (hplaced c hc g hg).1) hcells
    · exact result_eq rfl fun c hc g hg => (hcells c hc g hg).cell.kvGroup
  · rintro ⟨hstop, hfinal, page, key, hrect, rfl⟩
    rcases Int.lt_or_eq_of_le hstop with hstop | hstop
    · right
      obtain ⟨items, hitems, hnodup, hplaced⟩ := hrect.read
      refine ⟨hstop, ?_, hfinal, items, hitems, _, (chunks_ok hnodup hplaced).2 ⟨rfl, ?_⟩, ?_⟩
      · rw [length_eq hstop, hrect.perm.length_eq, length_places]
      · exact fun c hc g hg =>
          ⟨hrect.cell c hc g hg, hrect.hash c hc g hg, hrect.tags c hc g hg⟩
      · exact (result_eq rfl fun c hc g hg => (hrect.cell c hc g hg).kvGroup).symm
    · left
      rw [← hstop] at hrect hfinal ⊢
      rw [Int.zero_emod] at hfinal
      exact ⟨rfl, rectangle_zero.1 hrect, hfinal, prefixKeys_zero⟩

def wholeKey : CacheEngineKey := ⟨"model", 1, 0, "-1", "float16", Dict.empty, 0⟩

theorem twoTokens_pos : (0 : Int) < 2 := by decide

theorem latentOnly_valid : [0] = [0] ∨ [0] = [0, 1] := .inl rfl

/-- Chunks of two tokens, a layer with four values a token, the latent group only. -/
def wholeDecoder : Decoder where
  layout := {
    layoutTag := "flat"
    modelName := "model"
    keyWorldSize := 1
    chunkSize := 2
    chunkSize_pos := twoTokens_pos
    numLayers := 1
    groupLayerCounts := none
    groups := (⟨4, "float16", 2, []⟩, ⟨4, "float16", 2, []⟩) }
  directGroups := [0]
  directGroups_valid := latentOnly_valid
  chunkHashBytes := none
  validTokensTag := "lmcache.tag.internal.valid_tokens"
  fromString _ := .ok wholeKey
  validTokens _ chunkSize := .ok chunkSize
  keyText _ := "model@1@0@-1@float16"
  keyTags _ := []

def wholePage : ControlPage := ⟨"model@1@0@-1@float16", 0, 0, 0, 2, 2, 16, 0, 1, "flat"⟩

theorem wholePage_rectangle :
    Rectangle wholeDecoder 2 (fun _ _ => wholePage) (fun _ _ => wholeKey) [wholePage] := by
  have hcanonical : Canonical wholeDecoder wholePage wholeKey :=
    (validateControlPage_ok _).1 rfl
  have hcell : Cell wholeDecoder 2 0 0 wholePage wholeKey := ⟨hcanonical, rfl, rfl, rfl, rfl⟩
  refine ⟨.refl _, fun c hc g hg => ?_, fun _ _ _ _ => rfl, fun _ _ _ _ => rfl⟩
  obtain rfl : c = 0 := Nat.lt_one_iff.1 hc
  obtain rfl : g = 0 := mem_singleton.1 hg
  exact hcell

/-- A whole last chunk is a partial one of no token: a request that says otherwise is refused. -/
theorem whole_chunk_refused :
    ¬((∃ result, validateRequiredPrefix wholeDecoder.pagesConfig [wholePage] ⟨2, 2, "", 2⟩ =
      .ok result) ↔ ∃ page key, Rectangle wholeDecoder 2 page key [wholePage]) := by
  intro h
  obtain ⟨result, hresult⟩ := h.2 ⟨_, _, wholePage_rectangle⟩
  cases hresult

end RemoteFill
