import LMCacheAscend.DirectStore.PlanChunks

/-!
# The plan of a request's tokens

The tokens of a request are the first of one sequence.  `hashAt` is the chain
hash behind each of its chunks, `chunkItems` lists its complete chunks; a token
database that follows the chain gives these items for every number of tokens,
and the same items behind every complete prefix (`processTokens_firstTokens`,
`processTokensFromPrefix_firstTokens`).  So a plan that is continued from
`(end, hash)` of a chunk is the rest of the whole plan.
-/

namespace DirectStore

open Lib List

/-- The first tokens of the request. -/
def firstTokens {τ : Type} (seq : Nat → τ) (n : Nat) : List τ := (range n).map seq

section

variable {τ H : Type} (c : HashChain τ H) (seq : Nat → τ)

/-- Some tokens from the middle of the request. -/
def tokensFrom (start n : Nat) : List τ := (range' start n).map seq

/-- The hash of a number of complete chunks. -/
def HashChain.hashAt : Nat → H
  | 0 => c.noneHash
  | k + 1 => c.chain (HashChain.hashAt k) (tokensFrom seq (k * c.chunkSize) c.chunkSize)

def HashChain.chunkItem (group k : Nat) : PlanItem H :=
  ⟨k * c.chunkSize, (k + 1) * c.chunkSize, ⟨group, c.hashAt seq (k + 1)⟩⟩

/-- The chunks from one to another. -/
def HashChain.chunkItems (group j k : Nat) : List (PlanItem H) :=
  (range' j (k - j)).map (c.chunkItem seq group)

/-- What is planned of `r` tokens behind some complete chunks. -/
def HashChain.partialItems (group k r : Nat) : List (PlanItem H) :=
  if r ≠ 0 ∧ c.saveUnfullChunk = true then
    [⟨k * c.chunkSize, k * c.chunkSize + r,
      ⟨group, c.chain (c.hashAt seq k) (tokensFrom seq (k * c.chunkSize) r)⟩⟩]
  else []

end

/-! ## Tokens -/

section

variable {τ : Type} (seq : Nat → τ)

theorem length_firstTokens (n : Nat) : (firstTokens seq n).length = n := by
  unfold firstTokens
  rw [length_map, length_range]

theorem length_tokensFrom (start n : Nat) : (tokensFrom seq start n).length = n := by
  unfold tokensFrom
  rw [length_map, length_range']

theorem firstTokens_eq (n : Nat) : firstTokens seq n = tokensFrom seq 0 n := by
  unfold firstTokens tokensFrom
  rw [range_eq_range']

theorem take_firstTokens {m n : Nat} (h : m ≤ n) :
    (firstTokens seq n).take m = firstTokens seq m := by
  unfold firstTokens
  rw [← map_take, take_range, Nat.min_eq_left h]

theorem tokensFrom_append (start m n : Nat) :
    tokensFrom seq start m ++ tokensFrom seq (start + m) n = tokensFrom seq start (m + n) := by
  unfold tokensFrom
  rw [← map_append, range'_append_1]

theorem take_tokensFrom {m n : Nat} (start : Nat) (h : m ≤ n) :
    (tokensFrom seq start n).take m = tokensFrom seq start m := by
  obtain ⟨r, rfl⟩ := Nat.exists_eq_add_of_le h
  rw [← tokensFrom_append]
  exact take_left' (length_tokensFrom seq start m)

theorem drop_tokensFrom {m n : Nat} (start : Nat) (h : m ≤ n) :
    (tokensFrom seq start n).drop m = tokensFrom seq (start + m) (n - m) := by
  obtain ⟨r, rfl⟩ := Nat.exists_eq_add_of_le h
  rw [← tokensFrom_append, Nat.add_sub_cancel_left]
  exact drop_left' (length_tokensFrom seq start m)

end

/-! ## Complete chunks -/

section

variable {τ H : Type} {c : HashChain τ H} {seq : Nat → τ}

theorem chunkItems_append {group j k m : Nat} (hjk : j ≤ k) (hkm : k ≤ m) :
    c.chunkItems seq group j k ++ c.chunkItems seq group k m = c.chunkItems seq group j m := by
  unfold HashChain.chunkItems
  rw [← map_append]
  have hk : k = j + (k - j) := by omega
  have happ := range'_append_1 (s := j) (m := k - j) (n := m - k)
  rw [← hk] at happ
  rw [happ, show k - j + (m - k) = m - j by omega]

theorem chunkItems_self (group k : Nat) : c.chunkItems seq group k k = [] := by
  unfold HashChain.chunkItems
  rw [Nat.sub_self]
  rfl

variable {group j k : Nat}

theorem chunkItems_succ (h : j ≤ k) :
    c.chunkItems seq group j (k + 1) =
      c.chunkItems seq group j k ++ [c.chunkItem seq group k] := by
  rw [← chunkItems_append h (Nat.le_succ k)]
  congr 1
  unfold HashChain.chunkItems
  rw [show k + 1 - k = 1 by omega]
  rfl

theorem chunkItems_cons (h : j < k) :
    c.chunkItems seq group j k =
      c.chunkItem seq group j :: c.chunkItems seq group (j + 1) k := by
  rw [← chunkItems_append (Nat.le_succ j) h, chunkItems_succ (Nat.le_refl j), chunkItems_self]
  rfl

theorem mem_chunkItems {x : PlanItem H} :
    x ∈ c.chunkItems seq group j k ↔ ∃ i, j ≤ i ∧ i < k ∧ c.chunkItem seq group i = x := by
  unfold HashChain.chunkItems
  rw [mem_map]
  constructor
  · rintro ⟨i, hi, rfl⟩
    rw [mem_range'_1] at hi
    exact ⟨i, hi.1, by omega, rfl⟩
  · rintro ⟨i, hj, hk, rfl⟩
    exact ⟨i, mem_range'_1.2 ⟨hj, by omega⟩, rfl⟩

theorem getLast?_chunkItems (h : j < k) :
    (c.chunkItems seq group j k).getLast? = some (c.chunkItem seq group (k - 1)) := by
  obtain ⟨m, rfl⟩ := Nat.exists_eq_add_of_lt h
  rw [chunkItems_succ (Nat.le_add_right j m), getLast?_concat, Nat.add_sub_cancel]

theorem chunkItems_eq_nil (h : j ≤ k) :
    c.chunkItems seq group j k = [] ↔ j = k := by
  unfold HashChain.chunkItems
  rw [map_eq_nil_iff, range'_eq_nil_iff]
  omega

variable (c seq)

/-- **Chunks from a complete prefix.** -/
theorem chunks_tokensFrom (group : Nat) {fuel n : Nat} (k : Nat) (h : n ≤ fuel) :
    c.chunks group fuel (k * c.chunkSize) (c.hashAt seq k)
        (tokensFrom seq (k * c.chunkSize) n) =
      c.chunkItems seq group k (k + n / c.chunkSize) ++
        c.partialItems seq group (k + n / c.chunkSize) (n % c.chunkSize) := by
  have hpos := c.chunkSize_pos
  induction fuel generalizing k n with
  | zero =>
    obtain rfl := Nat.le_zero.1 h
    rw [Nat.zero_div, Nat.add_zero, chunkItems_self, Nat.zero_mod]
    unfold HashChain.chunks HashChain.partialItems
    rw [if_neg fun h => h.1 rfl]
    rfl
  | succ fuel ih =>
    unfold HashChain.chunks
    rw [length_tokensFrom]
    by_cases hzero : n = 0
    · subst hzero
      have hnil : tokensFrom seq (k * c.chunkSize) 0 = [] := rfl
      rw [if_pos hnil, Nat.zero_div, Nat.add_zero, chunkItems_self, Nat.zero_mod]
      unfold HashChain.partialItems
      rw [if_neg fun h => h.1 rfl]
      rfl
    rw [if_neg fun hnil => hzero (by rw [← length_tokensFrom seq (k * c.chunkSize) n, hnil]; rfl)]
    by_cases hlt : n < c.chunkSize
    · -- only the partial chunk is left
      rw [if_pos hlt, Nat.div_eq_of_lt hlt, Nat.mod_eq_of_lt hlt, Nat.add_zero, chunkItems_self]
      unfold HashChain.partialItems
      split
      · next hsave =>
        rw [if_pos ⟨hzero, hsave⟩]
        rfl
      · next hsave =>
        rw [if_neg fun h => hsave h.2]
        rfl
    · have hle := Nat.le_of_not_lt hlt
      rw [if_neg hlt, take_tokensFrom seq _ hle, drop_tokensFrom seq _ hle]
      have hstart : k * c.chunkSize + c.chunkSize = (k + 1) * c.chunkSize := by
        rw [Nat.succ_mul]
      have hdiv : k + n / c.chunkSize = k + 1 + (n - c.chunkSize) / c.chunkSize := by
        rw [Nat.div_eq_sub_div hpos hle]
        omega
      have hmod : n % c.chunkSize = (n - c.chunkSize) % c.chunkSize := Nat.mod_eq_sub_mod hle
      have ih := ih (n := n - c.chunkSize) (k + 1) (by omega)
      simp only [hstart]
      show _ :: c.chunks group fuel ((k + 1) * c.chunkSize) (c.hashAt seq (k + 1)) _ = _
      have hnext : k < k + 1 + (n - c.chunkSize) / c.chunkSize :=
        Nat.lt_of_lt_of_le (Nat.lt_succ_self k) (Nat.le_add_right _ _)
      rw [ih, hdiv, hmod, chunkItems_cons hnext]
      rfl

variable {c seq} {db : TokenDatabase τ H}

theorem partialItems_zero (group k : Nat) : c.partialItems seq group k 0 = [] := by
  unfold HashChain.partialItems
  rw [if_neg fun h => h.1 rfl]

/-- **The whole plan.** -/
theorem processTokens_firstTokens (hdb : db.Follows c) (n group : Nat) :
    db.processTokens (firstTokens seq n) group =
      c.chunkItems seq group 0 (n / c.chunkSize) ++
        c.partialItems seq group (n / c.chunkSize) (n % c.chunkSize) := by
  have h := chunks_tokensFrom c seq group 0 (Nat.le_refl n)
  rw [Nat.zero_mul, Nat.zero_add] at h
  rw [hdb.process, length_firstTokens, firstTokens_eq]
  exact h

/-- **The plan behind a complete prefix.** -/
theorem processTokensFromPrefix_firstTokens (hdb : db.Follows c) {n k : Nat} (group : Nat)
    (h : k * c.chunkSize ≤ n) :
    db.processTokensFromPrefix (firstTokens seq n) (k * c.chunkSize) (c.hashAt seq k) group =
      c.chunkItems seq group k (n / c.chunkSize) ++
        c.partialItems seq group (n / c.chunkSize) (n % c.chunkSize) := by
  have hrest := chunks_tokensFrom c seq group k (Nat.le_refl (n - k * c.chunkSize))
  have hdiv : k + (n - k * c.chunkSize) / c.chunkSize = n / c.chunkSize := by
    have hk := (Nat.le_div_iff_mul_le c.chunkSize_pos).2 h
    rw [Nat.mul_comm k, Nat.sub_mul_div]
    omega
  have hmod : (n - k * c.chunkSize) % c.chunkSize = n % c.chunkSize := by
    conv => rhs; rw [← Nat.sub_add_cancel h, Nat.add_mul_mod_self_right]
  rw [hdiv, hmod] at hrest
  rw [hdb.fromPrefix _ _ _ _ (by rw [length_firstTokens]; exact h) (Nat.dvd_mul_left _ _),
    length_firstTokens, firstTokens_eq, drop_tokensFrom seq 0 h, Nat.zero_add]
  exact hrest

theorem processTokens_mul (hdb : db.Follows c) (k group : Nat) :
    db.processTokens (firstTokens seq (k * c.chunkSize)) group =
      c.chunkItems seq group 0 k := by
  rw [processTokens_firstTokens hdb, Nat.mul_div_cancel _ c.chunkSize_pos, Nat.mul_mod_left,
    partialItems_zero, append_nil]

/-- A complete chunk of a plan is a chunk of the chain. -/
theorem eq_chunkItem_of_mem (hdb : db.Follows c) {n group : Nat} {x : PlanItem H}
    (hx : x ∈ db.processTokens (firstTokens seq n) group)
    (hfull : x.stop - x.start = c.chunkSize) : ∃ k, x = c.chunkItem seq group k := by
  rw [processTokens_firstTokens hdb] at hx
  rcases mem_append.1 hx with hx | hx
  · obtain ⟨i, -, -, rfl⟩ := mem_chunkItems.1 hx
    exact ⟨i, rfl⟩
  unfold HashChain.partialItems at hx
  split at hx
  · rw [mem_singleton.1 hx] at hfull
    have hlt := Nat.mod_lt n c.chunkSize_pos
    rw [show ∀ a r : Nat, a + r - a = r from fun a r => by omega] at hfull
    omega
  · cases hx

end

end DirectStore
