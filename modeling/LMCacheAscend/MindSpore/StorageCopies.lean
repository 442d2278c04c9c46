import LMCacheAscend.Lib.Traverse

/-!
# Copies of memory objects to an allocator backend

`allocate_and_copy_objects_310p` copies the objects whose keys the backend does not contain,
up to the first allocation that fails, and returns the first keys, as many as there are
copies.  The keys are those of the copies just when none that is contained comes before a
copied one (`copies_paired`); an object without tensor is left to nobody.
-/

namespace StorageCopies

open Lib List Option

/-- The shape, data type and format of an object. -/
structure MemoryObjMetadata where
  shape : List Nat
  dtype : String
  fmt : String
deriving DecidableEq, Repr

/-- A memory object, with the bytes of its tensor. -/
structure MemoryObj where
  metadata : MemoryObjMetadata
  tensor : Option (List UInt8)
deriving DecidableEq, Repr

/-- What the backend contains, and what it answers to its allocations in their order. -/
structure AllocatorBackend (Key : Type) where
  contains : Key → Bool
  allocate : Nat → MemoryObjMetadata → Option MemoryObj

/-- The objects that were allocated, and those of them that the result gets, by position. -/
structure Copies where
  objects : List MemoryObj
  allocatedObjects : List Nat
deriving DecidableEq, Repr

variable {Key : Type}

/-- `memory_obj.tensor.copy_`, of the object that is allocated last. -/
def Copies.push (s : Copies) (obj : MemoryObj) (bytes : List UInt8) : Copies :=
  ⟨s.objects ++ [{ obj with tensor := some bytes }], s.allocatedObjects ++ [s.objects.length]⟩

/-- The loop, with an error if it raises. -/
def copyLoop (b : AllocatorBackend Key) :
    List (Key × MemoryObj) → Copies → Except String Unit × Copies
  | [], s => (.ok (), s)
  | (key, src) :: rest, s =>
    if b.contains key then copyLoop b rest s
    else match b.allocate s.objects.length src.metadata with
      | none => (.ok (), s)
      | some obj =>
        match obj.tensor, src.tensor with
        | none, _ => (.ok (), { s with objects := s.objects ++ [obj] })
        | some _, none =>
          (.error "TypeError:copy_(): argument 'other' must be Tensor, not NoneType",
            { s with objects := s.objects ++ [obj] })
        | some _, some bytes => copyLoop b rest (s.push obj bytes)

/-- `allocate_and_copy_objects_310p`, with the objects it allocated. -/
def allocateAndCopyObjects310p (b : AllocatorBackend Key) (keys : List Key)
    (srcMemoryObjs : List MemoryObj) : Except String (List Key × List Nat) × List MemoryObj :=
  let (r, s) := copyLoop b (keys.zip srcMemoryObjs) ⟨[], []⟩
  (r.map fun _ => (keys.take s.allocatedObjects.length, s.allocatedObjects), s.objects)

/-! ## What is allocated -/

/-- The keys that the backend does not contain, with their sources. -/
def absent (b : AllocatorBackend Key) (pairs : List (Key × MemoryObj)) : List (Key × MemoryObj) :=
  pairs.filter fun p => !b.contains p.1

/-- The allocation for an absent key gives an object with a tensor. -/
def Allocates (b : AllocatorBackend Key) (n : Nat) (p : Key × MemoryObj) : Prop :=
  ∃ obj, b.allocate n p.2.metadata = some obj ∧ obj.tensor ≠ none

/-- The allocations for the keys of `todo` before `n` do. -/
def AllocatesBefore (b : AllocatorBackend Key) (todo : List (Key × MemoryObj)) (n : Nat) : Prop :=
  ∀ m p, m < n → todo[m]? = some p → Allocates b m p

/-- How the loop ends, behind the copies for the first `stop` of `todo`. -/
inductive Ends (b : AllocatorBackend Key) (base : Nat) (todo : List (Key × MemoryObj))
    (stop : Nat) : Except String Unit → List MemoryObj → Prop
  | all : todo.length = stop → Ends b base todo stop (.ok ()) []
  | full {p : Key × MemoryObj} : todo[stop]? = some p →
      b.allocate (base + stop) p.2.metadata = none → Ends b base todo stop (.ok ()) []
  | bare {p : Key × MemoryObj} {obj : MemoryObj} : todo[stop]? = some p →
      b.allocate (base + stop) p.2.metadata = some obj → obj.tensor = none →
      Ends b base todo stop (.ok ()) [obj]
  | raised {p : Key × MemoryObj} {obj : MemoryObj} {e : String} : todo[stop]? = some p →
      b.allocate (base + stop) p.2.metadata = some obj → obj.tensor ≠ none → p.2.tensor = none →
      Ends b base todo stop (.error e) [obj]

/-- The copies for the first `stop` of `todo`, then one of the ends. -/
structure Ran (b : AllocatorBackend Key) (todo : List (Key × MemoryObj)) (s : Copies)
    (r : Except String Unit × Copies) (stop : Nat) (last : List MemoryObj) : Prop where
  le : stop ≤ todo.length
  allocates : ∀ m p, m < stop → todo[m]? = some p →
    Allocates b (s.objects.length + m) p ∧ p.2.tensor ≠ none
  tensors : r.2.objects.map (·.tensor) =
    s.objects.map (·.tensor) ++ (todo.take stop).map (·.2.tensor) ++ last.map (·.tensor)
  allocated : r.2.allocatedObjects =
    s.allocatedObjects ++ (range stop).map (s.objects.length + ·)
  ends : Ends b s.objects.length todo stop r.1 last

variable {b : AllocatorBackend Key} {last : List MemoryObj} {stop : Nat}
  {todo : List (Key × MemoryObj)}

theorem Ends.cons {base : Nat} {r : Except String Unit}
    (h : Ends b (base + 1) todo stop r last) (p : Key × MemoryObj) :
    Ends b base (p :: todo) (stop + 1) r last := by
  have hbase : base + 1 + stop = base + (stop + 1) := by omega
  cases h with
  | all hlen => exact .all (congrArg (· + 1) hlen)
  | full hp hnone => exact .full hp (hbase ▸ hnone)
  | bare hp hobj hbare => exact .bare hp (hbase ▸ hobj) hbare
  | raised hp hobj htensor hsrc => exact .raised hp (hbase ▸ hobj) htensor hsrc

theorem Ran.cons {s : Copies} {p : Key × MemoryObj} {obj : MemoryObj} {bytes : List UInt8}
    {r : Except String Unit × Copies} (h : Ran b todo (s.push obj bytes) r stop last)
    (hobj : b.allocate s.objects.length p.2.metadata = some obj) (htensor : obj.tensor ≠ none)
    (hbytes : p.2.tensor = some bytes) : Ran b (p :: todo) s r (stop + 1) last := by
  have hbase : (s.push obj bytes).objects.length = s.objects.length + 1 := by
    simp [Copies.push]
  refine ⟨Nat.succ_le_succ h.le, fun m q hm hq => ?_, ?_, ?_, (hbase ▸ h.ends).cons p⟩
  · cases m with
    | zero =>
      cases hq
      exact ⟨⟨obj, hobj, htensor⟩, by rw [hbytes]; simp⟩
    | succ m =>
      have hrest := h.allocates m q (Nat.lt_of_succ_lt_succ hm) hq
      rwa [hbase, Nat.add_right_comm] at hrest
  · rw [h.tensors]
    simp [Copies.push, hbytes]
  · rw [h.allocated, hbase, range_succ_eq_map]
    simp [Copies.push, Function.comp_def, Nat.add_assoc, Nat.add_comm 1]

theorem copyLoop_ran (b : AllocatorBackend Key) (pairs : List (Key × MemoryObj)) (s : Copies) :
    ∃ stop last, Ran b (absent b pairs) s (copyLoop b pairs s) stop last := by
  induction pairs generalizing s with
  | nil => exact ⟨0, [], Nat.le_refl 0, nofun, by simp [copyLoop], by simp [copyLoop], .all rfl⟩
  | cons pair rest ih =>
    obtain ⟨key, src⟩ := pair
    unfold copyLoop
    by_cases hkey : b.contains key = true
    · have habsent : absent b ((key, src) :: rest) = absent b rest := by
        simp [absent, hkey]
      rw [if_pos hkey, habsent]
      exact ih s
    · have habsent : absent b ((key, src) :: rest) = (key, src) :: absent b rest := by
        simp [absent, hkey]
      rw [if_neg hkey, habsent]
      cases hobj : b.allocate s.objects.length src.metadata with
      | none =>
        exact ⟨0, [], Nat.zero_le _, nofun, by simp, by simp, .full rfl hobj⟩
      | some obj =>
        cases htensor : obj.tensor with
        | none =>
          simp only [htensor]
          exact ⟨0, [obj], Nat.zero_le _, nofun, by simp, by simp, .bare rfl hobj htensor⟩
        | some old =>
          have hne : obj.tensor ≠ none := by rw [htensor]; simp
          cases hbytes : src.tensor with
          | none =>
            simp only [htensor]
            exact ⟨0, [obj], Nat.zero_le _, nofun, by simp, by simp, .raised rfl hobj hne hbytes⟩
          | some bytes =>
            simp only [htensor]
            obtain ⟨stop, last, ran⟩ := ih (s.push obj bytes)
            exact ⟨stop + 1, last, ran.cons hobj hne hbytes⟩

/-! ## Keys and copies -/

/-- The result has keys with their copies, and all that was allocated. -/
def Paired (b : AllocatorBackend Key) (keys : List Key) (srcs : List MemoryObj) : Prop :=
  ∃ (ks : List Key) (ids : List Nat) (objects : List MemoryObj),
    allocateAndCopyObjects310p b keys srcs = (.ok (ks, ids), objects) ∧
    ks.length = ids.length ∧
    (∀ (i : Nat) (k : Key) (id : Nat), ks[i]? = some k → ids[i]? = some id →
      ∃ src obj : MemoryObj, (k, src) ∈ keys.zip srcs ∧ objects[id]? = some obj ∧
        obj.tensor.isSome ∧ obj.tensor = src.tensor) ∧
    (∀ n p, (absent b (keys.zip srcs))[n]? = some p →
      AllocatesBefore b (absent b (keys.zip srcs)) (n + 1) → p.1 ∈ ks) ∧
    (∀ k ∈ ks, b.contains k = false) ∧
    ∀ id < objects.length, id ∈ ids

/-- No contained key comes before a copied one, the allocation that fails gives no object, and
the sources of copies have tensors. -/
structure Straight (b : AllocatorBackend Key) (pairs : List (Key × MemoryObj)) : Prop where
  first : ∀ n, n < (absent b pairs).length → AllocatesBefore b (absent b pairs) (n + 1) →
    ∀ p, pairs[n]? = some p → b.contains p.1 = false
  objects : ∀ n p obj, (absent b pairs)[n]? = some p → AllocatesBefore b (absent b pairs) n →
    b.allocate n p.2.metadata = some obj → obj.tensor ≠ none
  sources : ∀ n p, (absent b pairs)[n]? = some p → AllocatesBefore b (absent b pairs) (n + 1) →
    p.2.tensor ≠ none

theorem take_filter {α : Type} {f : α → Bool} {l : List α} {n : Nat}
    (h : ∀ m a, m < n → l[m]? = some a → f a = true) : (l.filter f).take n = l.take n := by
  induction l generalizing n with
  | nil => simp
  | cons a l ih =>
    cases n with
    | zero => rfl
    | succ n =>
      have ha : f a = true := h 0 a (Nat.succ_pos n) rfl
      rw [filter_cons_of_pos ha, take_succ_cons, take_succ_cons,
        ih fun m b hm hb => h (m + 1) b (Nat.succ_lt_succ hm) hb]

theorem map_fst_take_zip {α β : Type} {l : List α} {l' : List β} {n : Nat}
    (h : n ≤ (l.zip l').length) : ((l.zip l').take n).map Prod.fst = l.take n := by
  rw [length_zip] at h
  rw [map_take, map_fst_zip_eq_take, take_take, Nat.min_eq_left (by omega)]

theorem AllocatesBefore.mono {m n : Nat}
    (h : AllocatesBefore b todo n) (hmn : m ≤ n) : AllocatesBefore b todo m :=
  fun i p hi hp => h i p (Nat.lt_of_lt_of_le hi hmn) hp

theorem allocateAndCopy_eq {keys : List Key} {srcs : List MemoryObj}
    (ran : Ran b (absent b (keys.zip srcs)) ⟨[], []⟩
      (copyLoop b (keys.zip srcs) ⟨[], []⟩) stop last)
    (hok : (copyLoop b (keys.zip srcs) ⟨[], []⟩).1 = .ok ()) :
    allocateAndCopyObjects310p b keys srcs = (.ok (keys.take stop, range stop),
      (copyLoop b (keys.zip srcs) ⟨[], []⟩).2.objects) := by
  have hids : (copyLoop b (keys.zip srcs) ⟨[], []⟩).2.allocatedObjects = range stop := by
    rw [ran.allocated]
    simp
  unfold allocateAndCopyObjects310p
  simp only [hok, hids, length_range]
  rfl

theorem Ends.lt {stop n : Nat} (h : Ends b 0 todo stop (.ok ()) last) (hn : n < todo.length)
    (hbefore : AllocatesBefore b todo (n + 1)) : n < stop := by
  by_contra hle
  have hstop : stop < n + 1 := by omega
  cases h with
  | all hlen => omega
  | full hp hnone =>
    obtain ⟨obj, hobj, -⟩ := hbefore stop _ hstop hp
    rw [Nat.zero_add, hobj] at hnone
    cases hnone
  | bare hp hobj hbare =>
    obtain ⟨obj, hobj', htensor⟩ := hbefore stop _ hstop hp
    rw [Nat.zero_add, hobj'] at hobj
    cases hobj
    exact htensor hbare

theorem Straight.ends {pairs : List (Key × MemoryObj)}
    (h : Straight b pairs) {r : Except String Unit}
    (hbefore : AllocatesBefore b (absent b pairs) stop)
    (hends : Ends b 0 (absent b pairs) stop r last) : r = .ok () ∧ last = [] := by
  cases hends with
  | all | full => exact ⟨rfl, rfl⟩
  | bare hp hobj hbare =>
    rw [Nat.zero_add] at hobj
    exact absurd hbare (h.objects stop _ _ hp hbefore hobj)
  | raised hp hobj htensor hsrc =>
    rw [Nat.zero_add] at hobj
    refine absurd hsrc (h.sources stop _ hp fun m p hm hp' => ?_)
    rcases Nat.lt_succ_iff_lt_or_eq.1 hm with hm | rfl
    · exact hbefore m p hm hp'
    · cases hp.symm.trans hp'
      exact ⟨_, hobj, htensor⟩

/-- **Keys are paired with their copies** exactly if no contained key comes before a copied one. -/
theorem copies_paired (b : AllocatorBackend Key) (keys : List Key) (srcs : List MemoryObj) :
    Paired b keys srcs ↔ Straight b (keys.zip srcs) := by
  obtain ⟨stop, last, ran⟩ := copyLoop_ran b (keys.zip srcs) ⟨[], []⟩
  have hallocates : AllocatesBefore b (absent b (keys.zip srcs)) stop := by
    intro m p hm hp
    have hcopy := (ran.allocates m p hm hp).1
    rwa [length_nil, Nat.zero_add] at hcopy
  have hends : Ends b 0 (absent b (keys.zip srcs)) stop _ last := ran.ends
  have hobjects := ran.tensors
  constructor
  · rintro ⟨ks, ids, objects, hresult, -, -, -, habsent, howned⟩
    have hok : (copyLoop b (keys.zip srcs) ⟨[], []⟩).1 = .ok () := by
      cases hr : (copyLoop b (keys.zip srcs) ⟨[], []⟩).1 with
      | ok _ => rfl
      | error e =>
        simp [allocateAndCopyObjects310p, hr, Except.map] at hresult
    rw [allocateAndCopy_eq ran hok] at hresult
    rw [hok] at hends
    cases hresult
    have hlast : last = [] := by
      have hlen := congrArg List.length hobjects
      simp only [map_nil, nil_append, length_append, length_map,
        length_take_of_le ran.le] at hlen
      by_contra hne
      have hpos := length_pos_iff.2 hne
      exact Nat.lt_irrefl stop (mem_range.1 (howned stop (by omega)))
    subst hlast
    refine ⟨fun n hn hbefore p hp => ?_, fun n p obj hp hbefore hobj => ?_,
      fun n p hp hbefore => ?_⟩
    · have hlt := hends.lt hn hbefore
      refine habsent p.1 (mem_of_getElem? (i := n) ?_)
      rw [getElem?_take_of_lt hlt]
      exact (getElem?_zip_eq_some.1 hp).1
    · rw [← Nat.zero_add n] at hobj
      rcases Nat.lt_or_ge n stop with hlt | hle
      · obtain ⟨obj', hobj', htensor⟩ := (ran.allocates n p hlt hp).1
        cases hobj.symm.trans hobj'
        exact htensor
      · cases hends with
        | all hlen => exact absurd (lt_of_getElem? hp) (by omega)
        | full hp' hnone =>
          rcases Nat.eq_or_lt_of_le hle with rfl | hlt
          · cases hp.symm.trans hp'
            cases hobj.symm.trans hnone
          · obtain ⟨obj', hobj', -⟩ := hbefore stop _ hlt hp'
            rw [Nat.zero_add, hobj'] at hnone
            cases hnone
    · have hlt := hends.lt (lt_of_getElem? hp) hbefore
      exact (ran.allocates n p hlt hp).2
  · intro h
    obtain ⟨hok, hlast⟩ := h.ends hallocates hends
    subst hlast
    rw [hok] at hends
    -- the keys of the copies are the first keys
    have htake : (absent b (keys.zip srcs)).take stop = (keys.zip srcs).take stop := by
      refine take_filter fun m p hm hp => ?_
      rw [h.first m (Nat.lt_of_lt_of_le hm ran.le) (hallocates.mono hm) p hp]
      rfl
    have hkeys : keys.take stop = ((absent b (keys.zip srcs)).take stop).map Prod.fst := by
      rw [htake, map_fst_take_zip (Nat.le_trans ran.le (length_filter_le _ _))]
    refine ⟨_, _, _, allocateAndCopy_eq ran hok, ?_, ?_, ?_, ?_, ?_⟩
    · rw [hkeys, length_map, length_take_of_le ran.le, length_range]
    · intro i k id hk hid
      obtain ⟨hi, rfl⟩ := List.getElem?_eq_some_iff.1 hid
      rw [length_range] at hi
      rw [getElem_range]
      rw [hkeys, getElem?_map, getElem?_take_of_lt hi, map_eq_some_iff] at hk
      obtain ⟨p, hp, rfl⟩ := hk
      have htensor := congrArg (·[i]?) hobjects
      simp only [map_nil, nil_append, append_nil, getElem?_map,
        getElem?_take_of_lt hi, hp, map_some] at htensor
      obtain ⟨obj, hobj, htensor⟩ := map_eq_some_iff.1 htensor
      refine ⟨p.2, obj, (mem_filter.1 (mem_of_getElem? hp)).1, hobj, ?_, htensor⟩
      rw [htensor]
      exact isSome_iff_ne_none.2 (ran.allocates i p hi hp).2
    · intro n p hp hbefore
      have hlt := hends.lt (lt_of_getElem? hp) hbefore
      rw [hkeys]
      refine mem_map.2 ⟨p, mem_of_getElem? (i := n) ?_, rfl⟩
      rw [getElem?_take_of_lt hlt]
      exact hp
    · intro k hk
      rw [hkeys] at hk
      obtain ⟨p, hp, rfl⟩ := mem_map.1 hk
      have hp' := (mem_filter.1 (mem_of_mem_take hp)).2
      simpa using hp'
    · intro id hid
      have hlen := congrArg List.length hobjects
      simp only [map_nil, nil_append, append_nil, length_map,
        length_take_of_le ran.le] at hlen
      exact mem_range.2 (hlen ▸ hid)

/-- A backend that contains the key 0, with room for all objects. -/
def containsZero : AllocatorBackend Nat where
  contains key := key == 0
  allocate _ metadata := some ⟨metadata, some []⟩

/-- The copy of the second source is returned with the first key, which is contained. -/
theorem contained_key :
    let obj (byte : UInt8) : MemoryObj := ⟨⟨[1], "uint8", "KV_2LTD"⟩, some [byte]⟩
    allocateAndCopyObjects310p containsZero [0, 1] [obj 10, obj 11] = (.ok ([0], [0]), [obj 11]) ∧
    ¬ ∀ (b : AllocatorBackend Nat) (keys : List Nat) (srcs : List MemoryObj),
      Paired b keys srcs := by
  intro obj
  refine ⟨rfl, fun h => ?_⟩
  obtain ⟨ks, ids, objects, hresult, -, -, -, habsent, -⟩ :=
    h containsZero [0, 1] [obj 10, obj 11]
  have hks : ([0], [0]) = (ks, ids) := Except.ok.inj (congrArg Prod.fst hresult)
  cases hks
  cases habsent 0 mem_cons_self

end StorageCopies
