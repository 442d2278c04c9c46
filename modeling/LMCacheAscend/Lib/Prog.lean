import LMCacheAscend.Lib.Places
import Mathlib.Order.Defs.Unbundled

/-!
# Programs that change a state and may raise

`Prog ε σ` is a program over the state `σ` that raises `ε`; what it changed
before it raised stays changed, as in a language with exceptions and mutable
variables.  `wp p Q s` says that `p`, run from `s`, ends with a result and a
state that meet `Q` (a result is a value or an exception).  Each constructor of
a program has its rule, so a proof about a program follows its text.
-/

namespace Lib

open List

abbrev Prog (ε σ α : Type) := ExceptT ε (StateM σ) α

variable {ε σ α β : Type}

/-- `p` from `s` ends in `Q`. -/
def wp (p : Prog ε σ α) (Q : Except ε α → σ → Prop) (s : σ) : Prop := Q (p s).1 (p s).2

/-- `Q` of a value, `E` of an exception. -/
def post (Q : α → σ → Prop) (E : ε → σ → Prop) : Except ε α → σ → Prop
  | .ok a => Q a
  | .error e => E e

variable {s : σ} {p : Prog ε σ α} {Q : Except ε α → σ → Prop} {f : α → Prog ε σ β} {I : σ → Prop}
variable {l : List α} {q : Prog ε σ β}

@[simp] theorem post_ok (Q : α → σ → Prop) (E : ε → σ → Prop) (a : α) :
    post Q E (.ok a) = Q a := rfl

@[simp] theorem post_error (Q : α → σ → Prop) (E : ε → σ → Prop) (e : ε) :
    post Q E (.error e) = E e := rfl

theorem wp_mono {R : Except ε α → σ → Prop} (h : wp p Q s) (hQR : ∀ r s', Q r s' → R r s') :
    wp p R s :=
  hQR _ _ h

theorem wp_iff {R : Except ε α → σ → Prop} {P : Prop} (h : wp p R s)
    (hQ : ∀ r s', R r s' → (Q r s' ↔ P)) : wp p Q s ↔ P :=
  hQ _ _ h

theorem wp_of_forall (h : ∀ r s', Q r s') : wp p Q s :=
  h _ _

theorem wp_and {R : Except ε α → σ → Prop} (h : wp p Q s) (h' : wp p R s) :
    wp p (fun r s' => Q r s' ∧ R r s') s :=
  ⟨h, h'⟩

theorem exists_of_wp (h : wp p Q s) :
    ∃ r s', Q r s' :=
  ⟨_, _, h⟩

theorem exists_ok_of_wp {Q : α → σ → Prop} (h : wp p (post Q fun _ _ => False) s) :
    ∃ a s', p s = (.ok a, s') ∧ Q a s' := by
  unfold wp at h
  rcases hp : p s with ⟨e | a, s'⟩
  · rw [hp] at h
    cases h
  · rw [hp] at h
    exact ⟨a, s', rfl, h⟩

@[simp] theorem wp_pure (a : α) (Q : Except ε α → σ → Prop) (s : σ) :
    wp (pure a : Prog ε σ α) Q s ↔ Q (.ok a) s := Iff.rfl

@[simp] theorem wp_throw (e : ε) (Q : Except ε α → σ → Prop) (s : σ) :
    wp (throw e : Prog ε σ α) Q s ↔ Q (.error e) s := Iff.rfl

@[simp] theorem wp_get (Q : Except ε σ → σ → Prop) (s : σ) :
    wp (get : Prog ε σ σ) Q s ↔ Q (.ok s) s := Iff.rfl

@[simp] theorem wp_modify (f : σ → σ) (Q : Except ε PUnit → σ → Prop) (s : σ) :
    wp (modify f : Prog ε σ PUnit) Q s ↔ Q (.ok ⟨⟩) (f s) := Iff.rfl

theorem run_bind (p : Prog ε σ α) (f : α → Prog ε σ β) (s : σ) :
    (p >>= f) s = match p s with
      | (.ok a, s') => f a s'
      | (.error e, s') => (.error e, s') := by
  change (ExceptT.bind p f) s = _
  simp only [ExceptT.bind, ExceptT.mk, bind, StateT.bind]
  rcases p s with ⟨r, s'⟩
  cases r <;> rfl

@[simp] theorem wp_bind (p : Prog ε σ α) (f : α → Prog ε σ β) (Q : Except ε β → σ → Prop) (s : σ) :
    wp (p >>= f) Q s ↔ wp p (post (fun a => wp (f a) Q) fun e => Q (.error e)) s := by
  unfold wp
  rw [run_bind]
  rcases p s with ⟨r, s'⟩
  cases r <;> rfl

theorem wp_get_bind (f : σ → Prog ε σ β) (Q : Except ε β → σ → Prop) (s : σ) :
    wp (get >>= f) Q s ↔ wp (f s) Q s := by
  rw [wp_bind, wp_get, post_ok]

theorem wp_modify_bind (g : σ → σ) (f : PUnit → Prog ε σ β) (Q : Except ε β → σ → Prop) (s : σ) :
    wp (modify g >>= f) Q s ↔ wp (f ⟨⟩) Q (g s) := by
  rw [wp_bind, wp_modify, post_ok]

theorem wp_cases {R : Except ε α → σ → Prop} (h : wp p R s)
    (he : ∀ e s', R (.error e) s' → Q (.error e) s') (ha : ∀ a s', R (.ok a) s' → Q (.ok a) s') :
    wp p Q s := by
  refine wp_mono h ?_
  rintro (e | a) s'
  · exact he e s'
  · exact ha a s'

theorem wp_bind_of {Q : Except ε β → σ → Prop} {R : Except ε α → σ → Prop} (h : wp p R s)
    (he : ∀ e s', R (.error e) s' → Q (.error e) s') (ha : ∀ a s', R (.ok a) s' → wp (f a) Q s') :
    wp (p >>= f) Q s := by
  rw [wp_bind]
  exact wp_cases h he ha

/-- What `p` raises is as it should be already. -/
theorem wp_ok {Q R : α → σ → Prop} {E : ε → σ → Prop} (h : wp p (post R E) s)
    (ha : ∀ a s', R a s' → Q a s') : wp p (post Q E) s :=
  wp_cases h (fun _ _ h => h) ha

theorem wp_bind_ok {Q : β → σ → Prop} {R : α → σ → Prop} {E : ε → σ → Prop}
    (h : wp p (post R E) s) (ha : ∀ a s', R a s' → wp (f a) (post Q E) s') :
    wp (p >>= f) (post Q E) s :=
  wp_bind_of h (fun _ _ h => h) ha

/-- Whatever `p` raises. -/
theorem wp_any {Q R : α → σ → Prop} {E : ε → σ → Prop} (h : wp p (post R E) s)
    (ha : ∀ a s', R a s' → Q a s') : wp p (post Q fun _ _ => True) s :=
  wp_cases h (fun _ _ _ => trivial) ha

theorem wp_bind_any {Q : β → σ → Prop} {R : α → σ → Prop} {E : ε → σ → Prop}
    (h : wp p (post R E) s) (ha : ∀ a s', R a s' → wp (f a) (post Q fun _ _ => True) s') :
    wp (p >>= f) (post Q fun _ _ => True) s :=
  wp_bind_of h (fun _ _ _ => trivial) ha

/-- `p` does not raise. -/
theorem wp_returns {R : α → σ → Prop} (h : wp p (post R fun _ _ => False) s)
    (ha : ∀ a s', R a s' → Q (.ok a) s') : wp p Q s :=
  wp_cases h (fun _ _ h => h.elim) ha

theorem wp_bind_returns {Q : Except ε β → σ → Prop} {R : α → σ → Prop}
    (h : wp p (post R fun _ _ => False) s) (ha : ∀ a s', R a s' → wp (f a) Q s') :
    wp (p >>= f) Q s :=
  wp_bind_of h (fun _ _ h => h.elim) ha

theorem run_tryCatch (p : Prog ε σ α) (f : ε → Prog ε σ α) (s : σ) :
    (tryCatch p f : Prog ε σ α) s = match p s with
      | (.ok a, s') => (.ok a, s')
      | (.error e, s') => f e s' := by
  change (ExceptT.tryCatch p f) s = _
  simp only [ExceptT.tryCatch, ExceptT.mk, bind, StateT.bind]
  rcases p s with ⟨r, s'⟩
  cases r <;> rfl

@[simp] theorem wp_tryCatch (p : Prog ε σ α) (f : ε → Prog ε σ α) (Q : Except ε α → σ → Prop)
    (s : σ) :
    wp (tryCatch p f) Q s ↔ wp p (post (fun a => Q (.ok a)) fun e => wp (f e) Q) s := by
  unfold wp
  rw [run_tryCatch]
  rcases p s with ⟨r, s'⟩
  cases r <;> rfl

/-- `try: p finally: f`. -/
def finally_ (p : Prog ε σ α) (f : Prog ε σ Unit) : Prog ε σ α := do
  let a ← tryCatch p fun e => do
    f
    throw e
  f
  pure a

/-- Whatever `p` ends with, `f` comes after it. -/
theorem wp_finally {f : Prog ε σ Unit}
    (h : wp p (fun r s' => wp f (post (fun _ s2 => Q r s2) fun _ _ => False) s') s) :
    wp (finally_ p f) Q s := by
  unfold finally_
  rw [wp_bind, wp_tryCatch]
  refine wp_mono h ?_
  rintro (e | a) s1 h1
  · rw [post_error]
    exact wp_bind_returns h1 fun _ _ h2 => h2
  · rw [post_ok, post_ok]
    exact wp_bind_returns h1 fun _ _ h2 => h2

/-- A call whose answer is given. -/
def call : Except ε α → Prog ε σ α
  | .error e => throw e
  | .ok a => pure a

theorem wp_call {r : Except ε α} :
    wp (call r : Prog ε σ α) Q s ↔ Q r s := by
  cases r <;> rfl

/-- A program on a part of a larger state. -/
def zoom {τ : Type} (part : τ → σ) (put : τ → σ → τ) (p : Prog ε σ α) : Prog ε τ α :=
  ExceptT.mk fun t => ((p (part t)).1, put t (p (part t)).2)

@[simp] theorem wp_zoom {τ : Type} (part : τ → σ) (put : τ → σ → τ) (p : Prog ε σ α)
    (Q : Except ε α → τ → Prop) (t : τ) :
    wp (zoom part put p) Q t ↔ wp p (fun r s => Q r (put t s)) (part t) := Iff.rfl

theorem wp_ite (c : Prop) [Decidable c] (p q : Prog ε σ α) (Q : Except ε α → σ → Prop) (s : σ) :
    wp (if c then p else q) Q s ↔ if c then wp p Q s else wp q Q s := by
  split <;> rfl

/-- A program that keeps `I` and raises in `E`, over the elements of a list. -/
theorem wp_forM {f : α → Prog ε σ PUnit} {E : ε → σ → Prop}
    (h : ∀ a ∈ l, ∀ s, I s → wp (f a) (post (fun _ => I) E) s) (hs : I s) :
    wp (l.forM f) (post (fun _ => I) E) s := by
  induction l generalizing s with
  | nil => exact hs
  | cons a l ih =>
    change wp (f a >>= fun _ => l.forM f) _ s
    exact wp_bind_ok (h a mem_cons_self s hs) fun _ _ hs' =>
      ih (fun b hb => h b (mem_cons_of_mem a hb)) hs'

/-- The turns of a counting loop lead from each `I i` to the next. -/
theorem wp_forM_range {n : Nat} {f : Nat → Prog ε σ PUnit} {I : Nat → σ → Prop} {E : ε → σ → Prop}
    (h : ∀ i < n, ∀ s, I i s → wp (f i) (post (fun _ => I (i + 1)) E) s) (hs : I 0 s) :
    wp ((range n).forM f) (post (fun _ => I n) E) s := by
  have hloop : ∀ m k, k + m = n → ∀ s, I k s →
      wp ((range' k m).forM f) (post (fun _ => I n) E) s := by
    intro m
    induction m with
    | zero =>
      rintro k rfl s hs
      exact hs
    | succ m ih =>
      intro k hk s hs
      change wp (f k >>= fun _ => (range' (k + 1) m).forM f) _ s
      exact wp_bind_ok (h k (by omega) s hs) fun _ s' hs' => ih (k + 1) (by omega) s' hs'
  rw [range_eq_range']
  exact hloop n 0 (Nat.zero_add n) s hs

/-! ## Relations between the states before and after -/

section

instance preorder_eq {τ : Type} (f : σ → τ) : IsPreorder σ fun s s' => f s' = f s where
  refl _ := rfl
  trans _ _ _ h h' := h'.trans h

instance preorder_and {R N : σ → σ → Prop} [IsPreorder σ R] [IsPreorder σ N] :
    IsPreorder σ fun s s' => R s s' ∧ N s s' where
  refl s := ⟨refl_of R s, refl_of N s⟩
  trans _ _ _ h h' := ⟨trans_of R h.1 h'.1, trans_of N h.2 h'.2⟩

variable {P : α → Prop} {m n : List α}

/-- A log is kept, and what joins it meets `P`. -/
theorem grown_refl (l : List α) : ∃ more, l = l ++ more ∧ ∀ a ∈ more, P a :=
  ⟨[], (append_nil l).symm, nofun⟩

theorem grown_trans (h : ∃ more, m = l ++ more ∧ ∀ a ∈ more, P a)
    (h' : ∃ more, n = m ++ more ∧ ∀ a ∈ more, P a) :
    ∃ more, n = l ++ more ∧ ∀ a ∈ more, P a := by
  obtain ⟨more, rfl, hP⟩ := h
  obtain ⟨more', rfl, hP'⟩ := h'
  exact ⟨more ++ more', append_assoc .., fun a ha => (mem_append.1 ha).elim (hP a) (hP' a)⟩

end

/-- Over the elements of a list, what each turn brings about and `N` keeps. -/
theorem wp_forM_all {f : α → Prog ε σ PUnit} {N : σ → σ → Prop} {P : α → σ → Prop}
    {E : ε → σ → Prop} [IsPreorder σ N] (hP : ∀ a s s', N s s' → P a s → P a s')
    (h : ∀ a ∈ l, ∀ s, I s → wp (f a) (post (fun _ s' => I s' ∧ N s s' ∧ P a s') E) s) (hs : I s) :
    wp (l.forM f) (post (fun _ s' => I s' ∧ N s s' ∧ ∀ a ∈ l, P a s') E) s := by
  induction l generalizing s with
  | nil => exact ⟨hs, refl_of N s, fun a ha => absurd ha not_mem_nil⟩
  | cons a l ih =>
    change wp (f a >>= fun _ => l.forM f) _ s
    refine wp_bind_ok (h a mem_cons_self s hs) fun _ s1 ⟨hI, hN1, ha⟩ => ?_
    refine wp_ok (ih (fun b hb => h b (mem_cons_of_mem a hb)) hI) fun _ s2 ⟨hI2, hN2, hl⟩ => ?_
    exact ⟨hI2, trans_of N hN1 hN2, forall_mem_cons.2 ⟨hP a s1 s2 hN2 ha, hl⟩⟩

/-- The same, with what each element's turn finds out. -/
theorem wp_forM_each {f : α → Prog ε σ PUnit} {P : α → Prop} {E : ε → σ → Prop}
    (h : ∀ a ∈ l, ∀ s, I s → wp (f a) (post (fun _ s' => I s' ∧ P a) E) s) (hs : I s) :
    wp (l.forM f) (post (fun _ s' => I s' ∧ ∀ a ∈ l, P a) E) s := by
  have : IsPreorder σ fun _ _ => True := { refl _ := trivial, trans _ _ _ _ _ := trivial }
  refine wp_ok (wp_forM_all (N := fun _ _ => True) (P := fun a _ => P a) (fun _ _ _ _ ha => ha)
    (fun a ha s hs => ?_) hs) fun _ _ hs' => ⟨hs'.1, hs'.2.2⟩
  exact wp_ok (h a ha s hs) fun _ _ hs' => ⟨hs'.1, trivial, hs'.2⟩

/-- However `p` ends, `R` relates the state before to the state after. -/
def Preserves (R : σ → σ → Prop) (p : Prog ε σ α) : Prop := ∀ s, wp p (fun _ s' => R s s') s

namespace Preserves

variable {R : σ → σ → Prop}

theorem modify {f : σ → σ} (h : ∀ s, R s (f s)) : Preserves R (modify f : Prog ε σ PUnit) := h

variable [IsPreorder σ R]

theorem pure (a : α) : Preserves R (pure a : Prog ε σ α) := refl_of R

theorem throw (e : ε) : Preserves R (throw e : Prog ε σ α) := refl_of R

theorem get : Preserves R (get : Prog ε σ σ) := refl_of R

theorem call (r : Except ε α) : Preserves R (call r : Prog ε σ α) := by
  cases r with
  | error | ok => exact refl_of R

variable {p : Prog ε σ α}

theorem bind {f : α → Prog ε σ β} (hp : Preserves R p)
    (hf : ∀ a, Preserves R (f a)) : Preserves R (p >>= f) := by
  intro s
  refine wp_bind_of (hp s) (fun _ _ h1 => h1) fun a s1 h1 => ?_
  exact wp_mono (hf a s1) fun _ _ h2 => trans_of R h1 h2

theorem tryCatch {f : ε → Prog ε σ α} (hp : Preserves R p)
    (hf : ∀ e, Preserves R (f e)) : Preserves R (tryCatch p f) := by
  intro s
  rw [wp_tryCatch]
  refine wp_mono (hp s) ?_
  rintro (e | a) s1 h1
  · exact wp_mono (hf e s1) fun _ _ h2 => trans_of R h1 h2
  · exact h1

theorem forM {l : List α} {f : α → Prog ε σ PUnit} (hf : ∀ a ∈ l, Preserves R (f a)) :
    Preserves R (l.forM f) := by
  induction l with
  | nil => exact Preserves.pure _
  | cons a l ih =>
    change Preserves R (f a >>= fun _ => l.forM f)
    exact (hf a mem_cons_self).bind fun _ => ih fun b hb => hf b (mem_cons_of_mem a hb)

theorem finally_ {f : Prog ε σ Unit} (hp : Preserves R p) (hf : Preserves R f) :
    Preserves R (finally_ p f) := by
  refine Preserves.bind (hp.tryCatch fun e => ?_) fun a => ?_
  · exact hf.bind fun _ => Preserves.throw e
  · exact hf.bind fun _ => Preserves.pure a

end Preserves

/-! ## What a program raises -/

/-- What `p` raises is in `E`. -/
def Raises (E : ε → Prop) (p : Prog ε σ α) : Prop :=
  ∀ s, wp p (post (fun _ _ => True) fun e _ => E e) s

namespace Raises

variable {E F : ε → Prop}

theorem pure (a : α) : Raises E (pure a : Prog ε σ α) := fun _ => trivial

theorem throw {e : ε} (h : E e) : Raises E (throw e : Prog ε σ α) := fun _ => h

theorem get : Raises E (get : Prog ε σ σ) := fun _ => trivial

theorem modify (f : σ → σ) : Raises E (modify f : Prog ε σ PUnit) := fun _ => trivial

theorem bind {p : Prog ε σ α} {f : α → Prog ε σ β} (hp : Raises E p)
    (hf : ∀ a, Raises E (f a)) : Raises E (p >>= f) := by
  intro s
  refine wp_bind_ok (hp s) fun a s1 h1 => ?_
  exact hf a s1

theorem tryCatch {p : Prog ε σ α} {f : ε → Prog ε σ α} (hp : Raises F p)
    (hf : ∀ e, F e → Raises E (f e)) : Raises E (tryCatch p f) := by
  intro s
  rw [wp_tryCatch]
  refine wp_cases (hp s) (fun e s1 h1 => hf e h1 s1) fun a s1 h1 => ?_
  exact trivial

theorem forM {f : α → Prog ε σ PUnit} (h : ∀ a, Raises E (f a)) (l : List α) :
    Raises E (l.forM f) := by
  induction l with
  | nil => exact Raises.pure _
  | cons a l ih =>
    change Raises E (f a >>= fun _ => l.forM f)
    exact (h a).bind fun _ => ih

end Raises

/-! ## Two runs from one state -/

theorem wp_run (p : Prog ε σ α) (s : σ) : wp p (fun r s' => p s = (r, s')) s := rfl

theorem wp_of_run {s' : σ} {r : Except ε α} (h : p s = (r, s')) : wp p Q s ↔ Q r s' := by
  unfold wp
  rw [h]

/-- The programs go on alike from where the first part ends. -/
theorem run_bind_congr {g : α → Prog ε σ β} (h : ∀ a s', p s = (.ok a, s') → f a s' = g a s') :
    (p >>= f) s = (p >>= g) s := by
  rw [run_bind, run_bind]
  rcases hp : p s with ⟨e | a, s'⟩
  · rfl
  · exact h a s' hp

theorem run_bind_same {q : Prog ε σ α} (h : p s = q s) (f : α → Prog ε σ β) :
    (p >>= f) s = (q >>= f) s := by
  rw [run_bind, run_bind, h]

/-- Where `p` returns from `s`, `q` does too, with results that `R` relates. -/
def Follows (R : α → β → Prop) (p : Prog ε σ α) (q : Prog ε σ β) (s : σ) : Prop :=
  wp p (post (fun a _ => wp q (post (fun b _ => R a b) fun _ _ => False) s) fun _ _ => True) s

theorem Follows.refl {R : α → α → Prop} (hR : ∀ a, R a a) (p : Prog ε σ α) (s : σ) :
    Follows R p p s := by
  unfold Follows wp
  rcases h : p s with ⟨_ | a, s'⟩
  · exact trivial
  · exact hR a

theorem Follows.bind_same {γ : Type} {R : β → γ → Prop} {g : α → Prog ε σ γ}
    (h : wp p (post (fun a s' => Follows R (f a) (g a) s') fun _ _ => True) s) :
    Follows R (p >>= f) (p >>= g) s := by
  unfold Follows at h ⊢
  simp only [wp_bind]
  rcases hp : p s with ⟨e | a, s'⟩
  · rw [wp_of_run hp]
    exact trivial
  rw [wp_of_run hp, post_ok] at h ⊢
  refine wp_any h fun b s2 h2 => ?_
  rw [wp_of_run hp]
  exact h2

/-- A handler that never returns does not make the first program return more often. -/
theorem Follows.tryCatch {R : α → β → Prop} {f : ε → Prog ε σ α} (g : ε → Prog ε σ β)
    (hf : ∀ e t, wp (f e) (post (fun _ _ => False) fun _ _ => True) t) (h : Follows R p q s) :
    Follows R (tryCatch p f) (tryCatch q g) s := by
  unfold Follows at h ⊢
  rw [wp_tryCatch]
  refine wp_cases h (fun e s1 _ => wp_any (hf e s1) fun _ _ h2 => h2.elim) fun a s1 h1 => ?_
  rw [post_ok, post_ok, wp_tryCatch]
  exact wp_returns h1 fun _ _ h2 => h2

theorem Follows.modify {R : α → β → Prop} (k l : σ → σ) (h : Follows R p q s) :
    Follows R (do let a ← p; modify k; pure a) (do let b ← q; modify l; pure b) s := by
  unfold Follows at h ⊢
  refine wp_bind_any h fun a s1 h1 => ?_
  simp only [wp_bind, wp_modify, wp_pure, post_ok]
  exact wp_returns h1 fun _ _ h2 => h2

/-- The results of `p` are below a bound that those of `q` meet. -/
theorem Follows.of_wp {R : α → β → Prop} {P : α → Prop}
    (hp : wp p (post (fun a _ => P a) fun _ _ => True) s)
    (hq : wp q (post (fun b _ => ∀ a, P a → R a b) fun _ _ => False) s) : Follows R p q s :=
  wp_any hp fun a _ h1 => wp_ok hq fun _ _ h2 => h2 a h1

end Lib
