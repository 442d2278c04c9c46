import LMCacheAscend.RemoteFill.Producer

/-!
# What each part of a window call can do

One lemma for each helper of the session: which events it adds (`Ran`), what it
does to the latch, and how it ends.  `execute_spec` is the only one about
`_execute`; the others follow from it.
-/

namespace RemoteFill

open Lib List

variable {cfg : SessionConfig} {exec : Exec} {s : Session}

/-! ## Handlers -/

/-- An exception that both kinds of handlers take. -/
def SessionError.Nonfatal (e : SessionError) : Prop :=
  (∀ m, e ≠ .fatal m) ∧ ∀ m, e ≠ .base m

variable {α : Type} {p : SessionM α} {s1 s' : Session} {m : Message} (args : TransferArgs)
variable {ev : List Event} {attemptId : String}

section

variable {E : SessionError → Session → Prop} {Q : α → Session → Prop}
variable {R : Except SessionError α → Session → Prop} {h : SessionM α} (hp : wp p (post Q E) s)
variable (hok : ∀ a s', Q a s' → R (.ok a) s')
include hp hok

theorem wp_exceptNonfatal (hfatal : ∀ m s', E (.fatal m) s' → R (.error (.fatal m)) s')
    (hbase : ∀ m s', E (.base m) s' → R (.error (.base m)) s')
    (hother : ∀ e s', e.Nonfatal → E e s' → wp h R s') : wp (exceptNonfatal p h) R s := by
  rw [exceptNonfatal, wp_tryCatch]
  refine wp_mono hp ?_
  rintro (e | a) s' h'
  · rw [post_error] at h' ⊢
    cases e with
    | fatal m => exact hfatal m s' h'
    | base m => exact hbase m s' h'
    | replyLost | valueError _ | runtimeError _ | raised _ =>
      exact hother _ s' ⟨by simp, by simp⟩ h'
  · exact hok a s' h'

theorem wp_exceptException (hbase : ∀ m s', E (.base m) s' → R (.error (.base m)) s')
    (hother : ∀ e s', (∀ m, e ≠ .base m) → E e s' → wp h R s') :
    wp (exceptException p h) R s := by
  rw [exceptException, wp_tryCatch]
  refine wp_mono hp ?_
  rintro (e | a) s' h'
  · rw [post_error] at h' ⊢
    cases e with
    | base m => exact hbase m s' h'
    | fatal _ | replyLost | valueError _ | runtimeError _ | raised _ =>
      exact hother _ s' (by simp) h'
  · exact hok a s' h'

end

/-! ## Events of a call -/

/-- The transaction was not ended, and a latch that was set still is. -/
structure Kept (s s' : Session) : Prop where
  closed : s'.closed = s.closed
  terminal : s'.terminal = s.terminal
  latch : s.fatalRestartRequired = true → s'.fatalRestartRequired = true

theorem Kept.refl (s : Session) : Kept s s := ⟨rfl, rfl, id⟩

theorem Kept.trans {s1 s2 s3 : Session} (h : Kept s1 s2) (h' : Kept s2 s3) : Kept s1 s3 :=
  ⟨h'.closed.trans h.closed, h'.terminal.trans h.terminal, fun hl => h'.latch (h.latch hl)⟩

theorem Kept.latched {s : Session} (h : Kept s s1) :
    Kept s { s1 with fatalRestartRequired := true } :=
  ⟨h.closed, h.terminal, fun _ => rfl⟩

theorem Kept.abandoned {s : Session} (h : Kept s s1) :
    Kept s { s1 with directViable := false } :=
  ⟨h.closed, h.terminal, h.latch⟩

/-- Events that meet `P` joined the trace. -/
structure Ran (P : Event → Prop) (s s' : Session) : Prop where
  trace : ∃ ev, s'.trace = s.trace ++ ev ∧ ∀ e ∈ ev, P e
  kept : Kept s s'

theorem Ran.of_eq {P : Event → Prop} (ht : s'.trace = s.trace) (hk : Kept s s') : Ran P s s' :=
  ⟨⟨[], by simp [ht], by simp⟩, hk⟩

theorem Ran.trans {P : Event → Prop} {s1 s2 s3 : Session} (h : Ran P s1 s2) (h' : Ran P s2 s3) :
    Ran P s1 s3 :=
  ⟨grown_trans h.trace h'.trace, h.kept.trans h'.kept⟩

theorem Ran.mono {P Q : Event → Prop} (h : Ran P s s') (hPQ : ∀ e, P e → Q e) :
    Ran Q s s' := by
  obtain ⟨ev, hev, hp⟩ := h.trace
  exact ⟨⟨ev, hev, fun e he => hPQ e (hp e he)⟩, h.kept⟩

section

variable {R : Session → Session → Prop} [IsPreorder Session R] {p handler : SessionM α}

theorem exceptNonfatal_preserves (hp : Preserves R p) (hh : Preserves R handler) :
    Preserves R (exceptNonfatal p handler) := by
  refine hp.tryCatch fun e => ?_
  split
  · exact .throw _
  · exact .throw _
  · exact hh

theorem exceptException_preserves (hp : Preserves R p) (hh : Preserves R handler) :
    Preserves R (exceptException p handler) := by
  refine hp.tryCatch fun e => ?_
  split
  · exact .throw _
  · exact hh

end

/-- A request of one kind was sent while the latch was `latched`. -/
def SentKind (latched : Bool) (k : OperationKind) (e : Event) : Prop :=
  ∃ m reply, e = .sent m reply latched ∧ m.request.kind = k

/-- A response that `_execute` returns. -/
def Valid (cfg : SessionConfig) (m : Message) (r : Response) : Prop :=
  identityMismatches cfg m r = [] ∧ r.fatal = false

/-- A response that latches. -/
def Latching (cfg : SessionConfig) (m : Message) (r : Response) : Prop :=
  identityMismatches cfg m r = [] ∧ r.fatal = true

/-- The events of a call end with an answer `r` to `m`. -/
def EndsWith (s s' : Session) (m : Message) (r : Response) : Prop :=
  ∃ lost, s'.trace = s.trace ++ (lost ++ [.sent m (.response r) s.fatalRestartRequired])

/-- How `_execute` raises: the latch, or an exception that leaves it alone. -/
def Unanswered (cfg : SessionConfig) (request : Request) (s s' : Session) (e : SessionError) :
    Prop :=
  (∃ message, e = .fatal message) ∧ s'.fatalRestartRequired = true ∧
      (∃ m r, m.request = request ∧ Latching cfg m r ∧ EndsWith s s' m r) ∨
    e.Nonfatal ∧ s'.fatalRestartRequired = s.fatalRestartRequired

/-- What the session looks like after a control call. -/
structure Called (request : Request) (s s' : Session) : Prop where
  ran : Ran (SentKind s.fatalRestartRequired request.kind) s s'
  sent : ∃ m reply, m.request = request ∧ .sent m reply s.fatalRestartRequired ∈ s'.trace

theorem Called.once {request : Request} (hm : m.request = request) (reply : Reply) :
    Called request s { s with
      calls := s.calls + 1
      trace := s.trace ++ [.sent m reply s.fatalRestartRequired] } := by
  refine ⟨⟨⟨[.sent m reply s.fatalRestartRequired], rfl, ?_⟩, rfl, rfl, id⟩, m, reply, hm, by simp⟩
  intro e he
  cases mem_singleton.1 he
  exact ⟨m, reply, rfl, congrArg _ hm⟩

theorem Called.trans {request : Request} {s1 s2 : Session} (h : Called request s s1)
    (hf : s1.fatalRestartRequired = s.fatalRestartRequired) (h' : Called request s1 s2) :
    Called request s s2 := by
  obtain ⟨hran, hsent⟩ := h'
  rw [hf] at hran hsent
  exact ⟨h.ran.trans hran, hsent⟩

theorem Called.latched {request : Request} {s1 : Session} (h : Called request s s1) :
    Called request s { s1 with fatalRestartRequired := true } :=
  ⟨⟨h.ran.trace, h.ran.kept.latched⟩, h.sent⟩

theorem callClient_spec {request : Request} (hm : m.request = request) (s : Session) :
    wp (callClient exec m) (post
      (fun r s' => Called request s s' ∧ s'.fatalRestartRequired = s.fatalRestartRequired ∧
        s'.trace = s.trace ++ [.sent m (.response r) s.fatalRestartRequired])
      fun e s' => Called request s s' ∧ s'.fatalRestartRequired = s.fatalRestartRequired ∧
        e.Nonfatal) s := by
  simp only [callClient, wp_bind, wp_get, post_ok, wp_modify]
  cases hr : exec s.calls m with
  | response r =>
    exact ⟨.once hm _, rfl, rfl⟩
  | replyLost | raised => exact ⟨.once hm _, rfl, by simp, by simp⟩

theorem raiseFatal_spec (message : String) (s : Session)
    (Q : Except SessionError α → Session → Prop)
    (h : Q (.error (.fatal message)) { s with fatalRestartRequired := true }) :
    wp (raiseFatal message : SessionM α) Q s := by
  rw [raiseFatal, wp_modify_bind, wp_throw]
  exact h

theorem executeMessage_spec {request : Request} (hm : m.request = request) (s : Session) :
    wp (executeMessage cfg exec m) (post
      (fun r s' => Called request s s' ∧ s'.fatalRestartRequired = s.fatalRestartRequired ∧
        ∃ m, m.request = request ∧ Valid cfg m r ∧ EndsWith s s' m r)
      fun e s' => Called request s s' ∧ Unanswered cfg request s s' e) s := by
  rw [executeMessage, wp_bind]
  refine wp_mono (Q := post
    (fun r s' => Called request s s' ∧ s'.fatalRestartRequired = s.fatalRestartRequired ∧
      EndsWith s s' m r)
    fun e s' => Called request s s' ∧ s'.fatalRestartRequired = s.fatalRestartRequired ∧
      e.Nonfatal) ?_ ?_
  -- the second attempt after a lost reply
  · rw [wp_tryCatch]
    refine wp_mono (callClient_spec hm s) ?_
    rintro (e | r) s1 h1
    · obtain ⟨hc1, hf1, he⟩ := h1
      rw [post_error]
      cases e with
      | replyLost =>
        refine wp_mono (callClient_spec hm s1) ?_
        rintro (e | r) s2 h2
        · obtain ⟨hc2, hf2, he2⟩ := h2
          exact ⟨hc1.trans hf1 hc2, hf2.trans hf1, he2⟩
        obtain ⟨hc2, hf2, htr⟩ := h2
        obtain ⟨lost, hlost, -⟩ := hc1.ran.trace
        refine ⟨hc1.trans hf1 hc2, hf2.trans hf1, lost, ?_⟩
        rw [htr, hlost, hf1, append_assoc]
      | fatal m' => exact absurd rfl (he.1 m')
      | base m' => exact absurd rfl (he.2 m')
      | valueError | runtimeError | raised => exact ⟨hc1, hf1, by simp, by simp⟩
    · obtain ⟨hc1, hf1, htr⟩ := h1
      exact ⟨hc1, hf1, [], htr⟩
  rintro (e | r) s1 h1
  · obtain ⟨hc, hf, he⟩ := h1
    exact ⟨hc, .inr ⟨he, hf⟩⟩
  obtain ⟨hc, hf, hends⟩ := h1
  rw [post_ok]
  simp only
  split
  · exact ⟨hc, .inr ⟨⟨by simp, by simp⟩, hf⟩⟩
  · next hid =>
    rw [not_not] at hid
    split
    · next hfatal =>
      exact raiseFatal_spec _ _ _ ⟨hc.latched, .inl ⟨⟨_, rfl⟩, rfl, m, r, hm, ⟨hid, hfatal⟩,
        hends⟩⟩
    · next hfatal =>
      exact ⟨hc, hf, m, hm, ⟨hid, by simpa using hfatal⟩, hends⟩

variable (request : Request) (window : Window)

theorem execute_spec (s : Session) :
    wp (execute cfg exec request) (post
      (fun r s' => Called request s s' ∧ s'.fatalRestartRequired = s.fatalRestartRequired ∧
        ∃ m, m.request = request ∧ Valid cfg m r ∧ EndsWith s s' m r)
      fun e s' => Called request s s' ∧ Unanswered cfg request s s' e) s := by
  rw [execute, wp_modify_bind, wp_get_bind]
  refine wp_mono (executeMessage_spec (m := ⟨s.operationSequence + 1, request⟩) rfl _) ?_
  have hcalled : ∀ s', Called request
      { s with operationSequence := s.operationSequence + 1 } s' → Called request s s' :=
    fun s' h => ⟨⟨h.ran.trace, h.ran.kept.closed, h.ran.kept.terminal, h.ran.kept.latch⟩, h.sent⟩
  rintro (e | r) s' h' <;> exact ⟨hcalled s' h'.1, h'.2⟩

/-! ## Up to the reservation -/

/-- A request of one of the kinds was sent while the latch was `latched`. -/
def SentIn (latched : Bool) (kinds : List OperationKind) (e : Event) : Prop :=
  ∃ k ∈ kinds, SentKind latched k e

def preludeKinds : List OperationKind := [.negotiate, .open_, .reserveWindow]

/-- Only control requests before ARM were sent. -/
def Prelude (s s' : Session) : Prop := Ran (SentIn s.fatalRestartRequired preludeKinds) s s'

theorem Called.prelude {request : Request} (h : Called request s s')
    (hk : request.kind ∈ preludeKinds) : Prelude s s' :=
  h.ran.mono fun _ he => ⟨_, hk, he⟩

theorem Prelude.refl (s : Session) : Prelude s s := .of_eq rfl (.refl s)

theorem Prelude.of_eq {s1 s2 : Session} (h : Prelude s s1) (ht : s2.trace = s1.trace)
    (hk : Kept s1 s2) : Prelude s s2 :=
  Ran.trans h (.of_eq ht hk)

theorem Prelude.trans {s1 s2 : Session} (h : Prelude s s1)
    (hf : s1.fatalRestartRequired = s.fatalRestartRequired) (h' : Prelude s1 s2) :
    Prelude s s2 := by
  unfold Prelude at h'
  rw [hf] at h'
  exact Ran.trans h h'

/-- A part of a call before ARM: it leaves the latch alone when it returns. -/
def PreludeSpec {α : Type} (p : SessionM α) (s : Session) : Prop :=
  wp p (post (fun _ s' => Prelude s s' ∧ s'.fatalRestartRequired = s.fatalRestartRequired)
    fun _ s' => Prelude s s') s

theorem PreludeSpec.pure (a : α) (s : Session) : PreludeSpec (pure a) s :=
  ⟨.refl s, rfl⟩

theorem PreludeSpec.bind {β : Type} {f : α → SessionM β} (h : PreludeSpec p s)
    (hf : ∀ a s', PreludeSpec (f a) s') : PreludeSpec (p >>= f) s := by
  rw [PreludeSpec]
  refine wp_bind_ok h fun a s1 h1 => ?_
  obtain ⟨hp, hl⟩ := h1
  refine wp_cases (hf a s1) (fun _ _ h2 => hp.trans hl h2) fun b s2 h2 => ?_
  exact ⟨hp.trans hl h2.1, h2.2.trans hl⟩

theorem PreludeSpec.modify (f : Session → Session) (s : Session) (ht : (f s).trace = s.trace)
    (hc : (f s).closed = s.closed) (hm : (f s).terminal = s.terminal)
    (hl : (f s).fatalRestartRequired = s.fatalRestartRequired) :
    PreludeSpec (MonadState.modifyGet fun s => (PUnit.unit, f s) : SessionM PUnit) s :=
  ⟨.of_eq (.refl s) ht ⟨hc, hm, hl.trans⟩, hl⟩

theorem PreludeSpec.get (s : Session) : PreludeSpec (get : SessionM Session) s :=
  ⟨.refl s, rfl⟩

theorem controlUnknown_spec (s : Session) : PreludeSpec controlUnknown s :=
  ⟨.of_eq (.refl s) rfl ⟨rfl, rfl, id⟩, rfl⟩

theorem abandonDirect_spec (s : Session) : PreludeSpec abandonDirect s :=
  ⟨.of_eq (.refl s) rfl ⟨rfl, rfl, id⟩, rfl⟩

theorem invalidReply_spec (r : Response) (s : Session) : PreludeSpec (invalidReply r) s := by
  unfold invalidReply
  split
  · exact controlUnknown_spec s
  · exact abandonDirect_spec s

theorem PreludeSpec.exceptException {h : SessionM α}
    (hp : wp p (fun _ s' => Prelude s s' ∧ s'.fatalRestartRequired = s.fatalRestartRequired) s)
    (hh : ∀ s', PreludeSpec h s') : PreludeSpec (exceptException p h) s := by
  have hpost : wp p (post
      (fun _ s' => Prelude s s' ∧ s'.fatalRestartRequired = s.fatalRestartRequired)
      fun _ s' => Prelude s s' ∧ s'.fatalRestartRequired = s.fatalRestartRequired) s := by
    refine wp_cases hp (fun _ _ h => h) fun a s' h' => ?_
    exact h'
  refine wp_exceptException hpost (fun _ _ h' => h') (fun _ _ h' => h'.1) ?_
  rintro e s1 - ⟨hpre, hl⟩
  refine wp_cases (hh s1) (fun _ _ h2 => hpre.trans hl h2) fun a s2 h2 => ?_
  exact ⟨hpre.trans hl h2.1, h2.2.trans hl⟩

theorem optionalCall_spec (hk : request.kind ∈ preludeKinds) (s : Session) :
    PreludeSpec (exceptNonfatal (do
      let r ← execute cfg exec request
      pure (some r)) (do
      controlUnknown
      pure none)) s := by
  have hcall : wp (do
      let r ← execute cfg exec request
      pure (some r)) (post
        (fun _ s' => Prelude s s' ∧ s'.fatalRestartRequired = s.fatalRestartRequired)
        fun e s' => Prelude s s' ∧ Unanswered cfg request s s' e) s := by
    refine wp_bind_of (execute_spec request s) (fun _ _ h1 => ⟨h1.1.prelude hk, h1.2⟩)
      fun r s1 h1 => ?_
    exact ⟨h1.1.prelude hk, h1.2.1⟩
  refine wp_exceptNonfatal hcall (fun _ _ h => h) (fun _ _ h => h.1) (fun _ _ h => h.1) ?_
  intro e s1 hn h1
  have hl : s1.fatalRestartRequired = s.fatalRestartRequired := by
    rcases h1.2 with ⟨⟨m, rfl⟩, -⟩ | ⟨-, hl⟩
    · exact absurd rfl (hn.1 m)
    · exact hl
  exact ⟨h1.1.of_eq rfl ⟨rfl, rfl, id⟩, hl⟩

theorem negotiated_spec (hk : request.kind ∈ preludeKinds) (s : Session) :
    PreludeSpec (negotiated cfg exec request) s := by
  refine (optionalCall_spec request hk s).bind ?_
  intro response s1
  split
  · exact .pure _ s1
  split
  · exact .pure _ s1
  · exact (abandonDirect_spec s1).bind fun _ s2 => .pure _ s2

theorem openTransaction_spec (s : Session) : PreludeSpec (openTransaction cfg exec) s := by
  refine (negotiated_spec _ (by simp [Request.kind, preludeKinds]) s).bind ?_
  intro response s1
  split
  · exact .pure _ s1
  split
  · exact (abandonDirect_spec s1).bind fun _ s2 => .pure _ s2
  · exact PreludeSpec.bind (.modify _ s1 rfl rfl rfl rfl) fun _ s2 => .pure _ s2

variable (cached : Bool)

theorem openSession_spec (s : Session) : PreludeSpec (openSession cfg exec cached) s := by
  refine (PreludeSpec.get s).bind ?_
  intro s0 s1
  split
  · exact .pure _ s1
  split
  · exact .pure _ s1
  split
  · exact (abandonDirect_spec s1).bind fun _ s2 => .pure _ s2
  split
  · exact openTransaction_spec s1
  refine (negotiated_spec _ (by simp [Request.kind, preludeKinds]) s1).bind ?_
  intro response s2
  split
  · exact .pure _ s2
  · exact openTransaction_spec s2

theorem admitted_spec (s : Session) : PreludeSpec (admitted cfg exec cached) s := by
  refine (PreludeSpec.get s).bind ?_
  intro s0 s1
  split
  · exact openSession_spec cached s1
  · exact .pure _ s1

theorem reserveWindow_spec (reserveMissing : Bool) (unavailable invalid : String) (s : Session) :
    PreludeSpec (reserveWindow cfg exec window reserveMissing unavailable invalid) s := by
  refine (optionalCall_spec _ (by simp [Request.kind, preludeKinds]) s).bind ?_
  intro reserved s1
  split
  · exact .pure _ s1
  split
  · exact (invalidReply_spec _ s1).bind fun _ s2 => .pure _ s2
  · exact PreludeSpec.bind (.modify _ s1 rfl rfl rfl rfl) fun _ s2 => .pure _ s2

theorem prepareSource_spec (s : Session) :
    PreludeSpec (prepareSource args) s := by
  unfold prepareSource
  split
  · refine (PreludeSpec.get s).bind ?_
    intro s0 s1
    split
    · exact .pure _ s1
    refine PreludeSpec.exceptException ?_ fun s2 =>
      (abandonDirect_spec s2).bind fun _ s3 => .pure _ s3
    split
    · exact ⟨.refl s1, rfl⟩
    · exact ⟨.refl s1, rfl⟩
    · exact ⟨.of_eq (.refl s1) rfl ⟨rfl, rfl, id⟩, rfl⟩
  · exact .pure _ s

theorem selectedSources_spec (r : Response) (s : Session) :
    PreludeSpec (selectedSources cfg args window r) s := by
  refine (PreludeSpec.get s).bind ?_
  intro s0 s1
  refine PreludeSpec.exceptException ?_ fun s2 =>
    (abandonDirect_spec s2).bind fun _ s3 => .pure _ s3
  split <;> exact ⟨.refl s1, rfl⟩

/-! ## ARM -/

/-- `p` adds events to the trace and ends as `Q` says of them. -/
def AddsPost {α : Type} (Q : Except SessionError α → List Event → Session → Prop) (s : Session)
    (out : Except SessionError α) (s' : Session) : Prop :=
  ∃ ev, s'.trace = s.trace ++ ev ∧ Kept s s' ∧ Q out ev s'

def Adds {α : Type} (p : SessionM α) (Q : Except SessionError α → List Event → Session → Prop)
    (s : Session) : Prop :=
  wp p (AddsPost Q s) s

theorem Adds.after {Q Q' : Except SessionError α → List Event → Session → Prop}
    (htrace : s1.trace = s.trace ++ ev) (hkept : Kept s s1) (h : Adds p Q' s1)
    (hQ : ∀ out ev2 s', Q' out ev2 s' → Q out (ev ++ ev2) s') : wp p (AddsPost Q s) s1 := by
  refine wp_mono h ?_
  rintro out s2 ⟨ev2, hev2, hk2, hout⟩
  exact ⟨ev ++ ev2, by rw [hev2, htrace, append_assoc], hkept.trans hk2,
    hQ out ev2 s2 hout⟩

theorem exceptLatching_spec (message : String)
    {Q : Except SessionError α → List Event → Session → Prop} {s : Session} (h : Adds p Q s)
    (hbase : ∀ m ev s', ¬ Q (.error (.base m)) ev s') :
    Adds (exceptException p (raiseFatal message)) (fun out ev s' => match out with
      | .ok a => Q (.ok a) ev s'
      | .error e => (∃ m, e = .fatal m) ∧ s'.fatalRestartRequired = true ∧
          ∃ e0 s0, Q (.error e0) ev s0) s := by
  rw [Adds, exceptException, wp_tryCatch]
  refine wp_mono h ?_
  rintro (e | a) s1 ⟨ev, hev, hkept, hout⟩
  · have hend : wp (raiseFatal message : SessionM α) (AddsPost (fun out ev s' => match out with
        | .ok a => Q (.ok a) ev s'
        | .error e => (∃ m, e = .fatal m) ∧ s'.fatalRestartRequired = true ∧
            ∃ e0 s0, Q (.error e0) ev s0) s) s1 :=
      raiseFatal_spec _ _ _ ⟨ev, hev, hkept.latched, ⟨_, rfl⟩, rfl, e, s1, hout⟩
    rw [post_error]
    cases e with
    | base m => exact absurd hout (hbase m ev s1)
    | fatal | replyLost | valueError | runtimeError | raised => exact hend
  · exact ⟨ev, hev, hkept, hout⟩

theorem EndsWith.mem {r : Response} (h : EndsWith s s' m r) (hev : s'.trace = s.trace ++ ev) :
    .sent m (.response r) s.fatalRestartRequired ∈ ev := by
  obtain ⟨lost, htr⟩ := h
  rw [append_cancel_left (hev.symm.trans htr)]
  exact mem_append_right _ mem_cons_self

theorem execute_adds (s : Session) :
    Adds (execute cfg exec request) (fun out ev s' =>
      (∀ e ∈ ev, SentKind s.fatalRestartRequired request.kind e) ∧
      match out with
      | .ok r => s'.fatalRestartRequired = s.fatalRestartRequired ∧
          ∃ m, m.request = request ∧ Valid cfg m r ∧
            .sent m (.response r) s.fatalRestartRequired ∈ ev
      | .error e => Unanswered cfg request s s' e) s := by
  refine wp_mono (execute_spec request s) ?_
  rintro (e | r) s1 h1
  · obtain ⟨ev, hev, hk⟩ := h1.1.ran.trace
    exact ⟨ev, hev, h1.1.ran.kept, hk, h1.2⟩
  · obtain ⟨hcalled, hf, m, hm, hv, hends⟩ := h1
    obtain ⟨ev, hev, hk⟩ := hcalled.ran.trace
    exact ⟨ev, hev, hcalled.ran.kept, hk, hf, m, hm, hv, hends.mem hev⟩

theorem Unanswered.not_base {request : Request} {e : SessionError}
    (h : Unanswered cfg request s s' e) (m : String) : e ≠ .base m := by
  rcases h with ⟨⟨m', rfl⟩, -⟩ | ⟨hn, -⟩
  · simp
  · exact hn.2 m

/-- An OK ARM_WINDOW response, or a STATUS response that proves the attempt armed. -/
def ArmProven (cfg : SessionConfig) (windowId : Int) (attemptId : String) (ev : List Event) : Prop :=
  ∃ m r latched, .sent m (.response r) latched ∈ ev ∧ Valid cfg m r ∧
    ((∃ digest descriptorDigest,
        m.request = .armWindow windowId attemptId digest descriptorDigest ∧ r.code = .ok) ∨
      m.request = .status windowId ∧ provesArmed windowId attemptId r = true)

theorem ArmProven.append {windowId : Int} (h : ArmProven cfg windowId attemptId ev)
    (ev0 : List Event) :
    ArmProven cfg windowId attemptId (ev0 ++ ev) := by
  obtain ⟨m, r, l, hmem, hrest⟩ := h
  exact ⟨m, r, l, mem_append_right _ hmem, hrest⟩

def armKinds : List OperationKind := [.armWindow, .status]

/-- How the ARM step ends: it raises with the latch, or an OK answer proves the attempt armed. -/
def ArmEnds (cfg : SessionConfig) (windowId : Int) (attemptId : String) (s : Session)
    (out : Except SessionError Response) (ev : List Event) (s' : Session) : Prop :=
  (∀ e ∈ ev, SentIn s.fatalRestartRequired armKinds e) ∧
  match out with
  | .ok r => s'.fatalRestartRequired = s.fatalRestartRequired ∧
      (r.code = .ok → ArmProven cfg windowId attemptId ev)
  | .error e => (∃ message, e = .fatal message) ∧ s'.fatalRestartRequired = true

theorem resolveAmbiguousArm_spec (windowId : Int) (attemptId : String) (s : Session) :
    Adds (resolveAmbiguousArm cfg exec windowId attemptId) (fun out ev s' =>
      (∀ e ∈ ev, SentKind s.fatalRestartRequired .status e) ∧
      match out with
      | .ok _ => s'.fatalRestartRequired = s.fatalRestartRequired ∧
          ArmProven cfg windowId attemptId ev
      | .error e => ∀ m, e ≠ .base m) s := by
  rw [Adds, resolveAmbiguousArm, wp_bind]
  refine wp_mono (execute_adds (.status windowId) s) ?_
  rintro (e | r) s1 ⟨ev, hev, hkept, hk, hout⟩
  · exact ⟨ev, hev, hkept, hk, hout.not_base⟩
  obtain ⟨hf, m, hm, hv, hmem⟩ := hout
  rw [post_ok]
  split
  · next hp => exact ⟨ev, hev, hkept, hk, hf, m, r, _, hmem, hv, .inr ⟨hm, hp⟩⟩
  · exact ⟨ev, hev, hkept, hk, by rintro m ⟨⟩⟩

theorem armWindow_spec (windowId : Int) (attemptId digest descriptorDigest : String)
    (s : Session) :
    Adds (armWindow cfg exec windowId attemptId digest descriptorDigest)
      (ArmEnds cfg windowId attemptId s) s := by
  have harm : OperationKind.armWindow ∈ armKinds := by decide
  have hstatus : OperationKind.status ∈ armKinds := by decide
  rw [Adds, armWindow, exceptNonfatal, wp_tryCatch]
  refine wp_mono (execute_adds (.armWindow windowId attemptId digest descriptorDigest) s) ?_
  rintro (e | r) s1 ⟨ev, hev, hkept, hk, hout⟩
  · rw [post_error]
    have hkinds : ∀ e ∈ ev, SentIn s.fatalRestartRequired armKinds e :=
      fun e he => ⟨_, harm, hk e he⟩
    rcases hout with ⟨⟨m, rfl⟩, hl, -⟩ | ⟨hn, hf⟩
    · exact ⟨ev, hev, hkept, hkinds, ⟨m, rfl⟩, hl⟩
    -- the reply is lost: STATUS proves the attempt, or the session latches
    have hres : wp (exceptException (resolveAmbiguousArm cfg exec windowId attemptId)
        (raiseFatal ("ARM_WINDOW acknowledgement is ambiguous and STATUS " ++
          "could not prove the armed attempt")))
        (AddsPost (ArmEnds cfg windowId attemptId s) s) s1 := by
      refine Adds.after hev hkept (exceptLatching_spec _
        (resolveAmbiguousArm_spec windowId attemptId s1)
        fun m ev s' h => h.2 m rfl) ?_
      have hboth : ∀ ev2 : List Event,
          (∀ e ∈ ev2, SentKind s1.fatalRestartRequired .status e) →
          ∀ e ∈ ev ++ ev2, SentIn s.fatalRestartRequired armKinds e := by
        intro ev2 hk2 e he
        rcases mem_append.1 he with he | he
        · exact hkinds e he
        · exact ⟨_, hstatus, hf ▸ hk2 e he⟩
      rintro (e | r) ev2 s2 h2
      · obtain ⟨hfat, hl, e0, s0, hk2, -⟩ := h2
        exact ⟨hboth ev2 hk2, hfat, hl⟩
      · obtain ⟨hk2, hf2, hp⟩ := h2
        exact ⟨hboth ev2 hk2, hf2.trans hf, fun _ => hp.append ev⟩
    cases e with
    | base m => exact absurd rfl (hn.2 m)
    | fatal m => exact absurd rfl (hn.1 m)
    | replyLost | valueError | runtimeError | raised => exact hres
  · obtain ⟨hf, m, hm, hv, hmem⟩ := hout
    exact ⟨ev, hev, hkept, fun e he => ⟨_, harm, hk e he⟩, hf,
      fun hcode => ⟨m, r, _, hmem, hv, .inl ⟨digest, descriptorDigest, hm, hcode⟩⟩⟩

/-! ## The native call and REPORT -/

/-- How the native step ends, if the submitter was called with these sources. -/
def NativeEnds (args : TransferArgs) (window : Window) (sources : List SourcePage)
    (descriptors : List Descriptor) (attemptId : String) (s : Session)
    (out : Except SessionError (Int × Int)) (ev : List Event) (s' : Session) : Prop :=
  (ev = [] ∨ ev = [.submitted window.windowId attemptId sources descriptors
    s.fatalRestartRequired]) ∧
  match out with
  | .ok _ => s'.fatalRestartRequired = s.fatalRestartRequired ∧
      (ev ≠ [] → ∀ m, settleNative (args.submitter sources descriptors) ≠ .escapes m)
  | .error e => (∃ m, e = .fatal m) ∧ s'.fatalRestartRequired = true ∧
        (ev ≠ [] → ∀ m, settleNative (args.submitter sources descriptors) ≠ .escapes m) ∨
      ∃ m, e = .base m ∧ (ev ≠ [] → settleNative (args.submitter sources descriptors) = .escapes m)

theorem submitNative_spec (sources : List SourcePage) (descriptors : List Descriptor)
    (attemptId : String) (expectedBytes : Int) (s : Session) :
    Adds (submitNative args window sources descriptors attemptId expectedBytes)
      (NativeEnds args window sources descriptors attemptId s) s := by
  -- what follows once the outcome is settled, whether or not the submitter was called
  have hend : ∀ (settled : Settled) (ev : List Event) (s1 : Session),
      s1.trace = s.trace ++ ev → Kept s s1 →
      s1.fatalRestartRequired = s.fatalRestartRequired →
      (ev = [] ∨ ev = [.submitted window.windowId attemptId sources descriptors
        s.fatalRestartRequired]) →
      (ev ≠ [] → settled = settleNative (args.submitter sources descriptors)) →
      wp (endNative attemptId expectedBytes settled)
        (AddsPost (NativeEnds args window sources descriptors attemptId s) s) s1 := by
    intro settled ev s1 htr hkept hf hev hset
    have hfatal : ∀ message, (∀ m, settled ≠ .escapes m) →
        wp (raiseFatal message : SessionM (Int × Int))
          (AddsPost (NativeEnds args window sources descriptors attemptId s) s) s1 :=
      fun message hne => raiseFatal_spec _ _ _ ⟨ev, htr, hkept.latched, hev,
        .inl ⟨⟨_, rfl⟩, rfl, fun h m => hset h ▸ hne m⟩⟩
    have hpure : ∀ a : Int × Int, (∀ m, settled ≠ .escapes m) →
        wp (pure a : SessionM (Int × Int))
          (AddsPost (NativeEnds args window sources descriptors attemptId s) s) s1 :=
      fun a hne => ⟨ev, htr, hkept, hev, hf, fun h m => hset h ▸ hne m⟩
    unfold endNative
    split
    · exact hfatal _ (by simp)
    · split <;> exact hpure _ (by simp)
    · exact hpure _ (by simp)
    · exact hpure _ (by simp)
    · exact hfatal _ (by simp)
    · next message =>
      exact ⟨ev, htr, hkept, hev, .inr ⟨message, rfl, fun h => (hset h).symm⟩⟩
  rw [Adds, submitNative]
  split
  · next e _ =>
    exact hend (settleNative (.error e)) [] s (by simp) (.refl s) rfl (.inl rfl) (by simp)
  · rw [wp_modify_bind]
    exact hend _ _ _ rfl ⟨rfl, rfl, id⟩ rfl (.inr rfl) fun _ => rfl

def reportKinds : List OperationKind := [.reportTransferComplete, .status]

/-- A REPORT or STATUS, whatever the latch. -/
def Reporting (e : Event) : Prop := ∃ latched, SentIn latched reportKinds e

/-- The answer `ok` to a report of `returnCode`: that of REPORT, or the one STATUS proves. -/
def Resolved (cfg : SessionConfig) (windowId : Int) (attemptId : String)
    (returnCode completedBytes expectedBytes : Int) (ok : Bool) (ev : List Event) : Prop :=
  ∃ m r latched, .sent m (.response r) latched ∈ ev ∧ Valid cfg m r ∧
    ((∃ digest, m.request = .reportTransferComplete windowId attemptId returnCode completedBytes
        digest ∧ ok = decide (r.code = .ok)) ∨
      m.request = .status windowId ∧ provesReport windowId attemptId
        (returnCode = 0 && completedBytes = expectedBytes) r = some ok)

/-- An answer to REPORT latched and a later one to STATUS proves the result. -/
def ReportContradicted (cfg : SessionConfig) (ev : List Event) (windowId : Int) (attemptId : String)
    (returnCode completedBytes expectedBytes : Int) (ok : Bool) : Prop :=
  ∃ m r latched m' r' latched' digest,
    List.Sublist [.sent m (.response r) latched, .sent m' (.response r') latched'] ev ∧
    m.request = .reportTransferComplete windowId attemptId returnCode completedBytes digest ∧
    Latching cfg m r ∧ m'.request = .status windowId ∧ Valid cfg m' r' ∧
    provesReport windowId attemptId (returnCode = 0 && completedBytes = expectedBytes) r' = some ok

theorem ReportContradicted.sublist {ev' : List Event} {windowId : Int}
    {returnCode completedBytes expectedBytes : Int} {ok : Bool} (hev : ev.Sublist ev')
    (h : ReportContradicted cfg ev windowId attemptId returnCode completedBytes expectedBytes ok) :
    ReportContradicted cfg ev' windowId attemptId returnCode completedBytes expectedBytes ok := by
  obtain ⟨m, r, latched, m', r', latched', digest, hsub, hrest⟩ := h
  exact ⟨m, r, latched, m', r', latched', digest, hsub.trans hev, hrest⟩

/-- How the REPORT step ends. -/
def ReportEnds (cfg : SessionConfig) (windowId : Int) (attemptId : String)
    (returnCode completedBytes expectedBytes : Int) (s : Session)
    (out : Except SessionError Bool) (ev : List Event) (s' : Session) : Prop :=
  (∀ e ∈ ev, Reporting e) ∧
  match out with
  | .ok ok => Resolved cfg windowId attemptId returnCode completedBytes expectedBytes ok ev ∧
      (s'.fatalRestartRequired = s.fatalRestartRequired ∨
        ReportContradicted cfg ev windowId attemptId returnCode completedBytes expectedBytes ok)
  | .error e => (∃ message, e = .fatal message) ∧ s'.fatalRestartRequired = true

theorem Reporting.of_kind {latched : Bool} {k : OperationKind}
    (h : ∀ e ∈ ev, SentKind latched k e) (hk : k ∈ reportKinds) : ∀ e ∈ ev, Reporting e :=
  fun e he => ⟨latched, k, hk, h e he⟩

theorem resolveAmbiguousReport_spec (windowId : Int) (attemptId : String) (success : Bool)
    (s : Session) :
    Adds (resolveAmbiguousReport cfg exec windowId attemptId success) (fun out ev s' =>
      (∀ e ∈ ev, Reporting e) ∧
      match out with
      | .ok ok => s'.fatalRestartRequired = s.fatalRestartRequired ∧
          ∃ m r, m.request = .status windowId ∧ Valid cfg m r ∧
            .sent m (.response r) s.fatalRestartRequired ∈ ev ∧
              provesReport windowId attemptId success r = some ok
      | .error e => ∀ m, e ≠ .base m) s := by
  have hstatus : OperationKind.status ∈ reportKinds := by decide
  rw [Adds, resolveAmbiguousReport, wp_bind]
  refine wp_mono (execute_adds (.status windowId) s) ?_
  rintro (e | r) s1 ⟨ev, hev, hkept, hk, hout⟩
  · exact ⟨ev, hev, hkept, Reporting.of_kind hk hstatus, hout.not_base⟩
  obtain ⟨hf, m, hm, hv, hmem⟩ := hout
  rw [post_ok]
  split
  · next ok hp =>
    exact ⟨ev, hev, hkept, Reporting.of_kind hk hstatus, hf, m, r, hm, hv, hmem, hp⟩
  · exact ⟨ev, hev, hkept, Reporting.of_kind hk hstatus, by rintro m ⟨⟩⟩

theorem reportTransfer_spec (windowId : Int) (attemptId digest : String)
    (returnCode completedBytes expectedBytes : Int) (s : Session) :
    Adds (reportTransfer cfg exec windowId attemptId digest returnCode completedBytes
        expectedBytes)
      (ReportEnds cfg windowId attemptId returnCode completedBytes expectedBytes s) s := by
  have hreport : OperationKind.reportTransferComplete ∈ reportKinds := by decide
  rw [Adds, reportTransfer, exceptException, wp_tryCatch, wp_bind]
  refine wp_mono (execute_adds (.reportTransferComplete windowId attemptId returnCode
    completedBytes digest) s) ?_
  rintro (e | r) s1 ⟨ev, hev, hkept, hk, hout⟩
  · rw [post_error, post_error]
    -- every exception of REPORT, the latch included, is left to STATUS
    have hres : wp (exceptException (resolveAmbiguousReport cfg exec windowId attemptId
          (returnCode = 0 && completedBytes = expectedBytes))
        (raiseFatal ("terminal native report is ambiguous and STATUS could not " ++
          "prove the reported result")))
        (AddsPost (ReportEnds cfg windowId attemptId returnCode completedBytes
          expectedBytes s) s) s1 := by
      refine Adds.after hev hkept (exceptLatching_spec _
        (resolveAmbiguousReport_spec windowId attemptId _ s1) fun m ev s' h => h.2 m rfl) ?_
      have hboth : ∀ ev2 : List Event, (∀ e ∈ ev2, Reporting e) →
          ∀ e ∈ ev ++ ev2, Reporting e := by
        intro ev2 hk2 e he
        exact (mem_append.1 he).elim (Reporting.of_kind hk hreport e) (hk2 e)
      rintro (e2 | ok) ev2 s2 h2
      · obtain ⟨hfat, hl, e0, s0, hk2, -⟩ := h2
        exact ⟨hboth ev2 hk2, hfat, hl⟩
      obtain ⟨hk2, hf2, m, r, hm, hv, hmem, hp⟩ := h2
      refine ⟨hboth ev2 hk2, ⟨m, r, _, mem_append_right _ hmem, hv, .inr ⟨hm, hp⟩⟩, ?_⟩
      rcases hout with ⟨-, -, m0, r0, hm0, hlat, hends⟩ | ⟨-, hf⟩
      · exact .inr ⟨m0, r0, _, m, r, _, digest, Sublist.append
          (singleton_sublist.2 (hends.mem hev)) (singleton_sublist.2 hmem), hm0, hlat,
          hm, hv, hp⟩
      · exact .inl (hf2.trans hf)
    cases e with
    | base m => exact absurd rfl (hout.not_base m)
    | fatal | replyLost | valueError | runtimeError | raised => exact hres
  · obtain ⟨hf, m, hm, hv, hmem⟩ := hout
    rw [post_ok, wp_pure, post_ok]
    exact ⟨ev, hev, hkept, Reporting.of_kind hk hreport,
      ⟨m, r, _, hmem, hv, .inl ⟨digest, hm, rfl⟩⟩, .inl hf⟩

/-! ## A whole window call -/

/-- The submitter raised what no handler around the native call takes. -/
def Escapes
    (submitter : List SourcePage → List Descriptor → Except SubmitError (Option NativeResult))
    (e : Event) : Prop :=
  ∃ windowId attemptId sources descriptors latched message,
    e = .submitted windowId attemptId sources descriptors latched ∧
    settleNative (submitter sources descriptors) = .escapes message

/-- The call sent nothing after ARM. -/
def Unsubmitted (s : Session) (out : Except SessionError WindowResult) (ev : List Event)
    (s' : Session) : Prop :=
  (∀ e ∈ ev, SentIn s.fatalRestartRequired (preludeKinds ++ armKinds) e) ∧
  ∀ r, out = .ok r → s'.fatalRestartRequired = s.fatalRestartRequired

/-- How a call ends that got past ARM. -/
def TransferEnds (cfg : SessionConfig)
    (submitter : List SourcePage → List Descriptor → Except SubmitError (Option NativeResult))
    (windowId : Int) (attemptId : String) (s : Session) (submission after : List Event)
    (out : Except SessionError WindowResult) (s' : Session) : Prop :=
  match out with
  | .ok result => (∀ e ∈ submission, ¬ Escapes submitter e) ∧
      ∃ returnCode completedBytes expectedBytes ok,
        Resolved cfg windowId attemptId returnCode completedBytes expectedBytes ok after ∧
        result.directSatisfied = (returnCode = 0 && ok) ∧
        (s'.fatalRestartRequired = s.fatalRestartRequired ∨
          ReportContradicted cfg after windowId attemptId returnCode completedBytes
            expectedBytes ok)
  | .error e =>
      (∃ message, e = .fatal message) ∧ s'.fatalRestartRequired = true ∧
          (∀ e ∈ submission, ¬ Escapes submitter e) ∨
        (∃ message, e = .base message) ∧ ∀ e ∈ submission, Escapes submitter e

/-- A call that got past ARM: proof that the attempt is armed, at most one native call, and
REPORT. -/
structure PastArm (cfg : SessionConfig)
    (submitter : List SourcePage → List Descriptor → Except SubmitError (Option NativeResult))
    (windowId : Int) (attemptId : String) (before submission after : List Event) (s : Session)
    (out : Except SessionError WindowResult) (s' : Session) : Prop where
  control : ∀ e ∈ before, SentIn s.fatalRestartRequired (preludeKinds ++ armKinds) e
  armed : ArmProven cfg windowId attemptId before
  native : submission = [] ∨ ∃ sources descriptors,
    submission = [.submitted windowId attemptId sources descriptors s.fatalRestartRequired]
  reported : ∀ e ∈ after, Reporting e
  ends : TransferEnds cfg submitter windowId attemptId s submission after out s'

def WindowEnds (cfg : SessionConfig)
    (submitter : List SourcePage → List Descriptor → Except SubmitError (Option NativeResult))
    (windowId : Int) (s : Session) (out : Except SessionError WindowResult) (ev : List Event)
    (s' : Session) : Prop :=
  Unsubmitted s out ev s' ∨ ∃ attemptId before submission after,
    ev = before ++ (submission ++ after) ∧
    PastArm cfg submitter windowId attemptId before submission after s out s'

variable {submitter : List SourcePage → List Descriptor → Except SubmitError (Option NativeResult)}

theorem SentIn.mono {latched : Bool} {kinds kinds' : List OperationKind} {e : Event}
    (h : SentIn latched kinds e) (hk : kinds ⊆ kinds') : SentIn latched kinds' e := by
  obtain ⟨k, hmem, hs⟩ := h
  exact ⟨k, hk hmem, hs⟩

theorem WindowEnds.after_prelude {windowId : Int} {ev2 : List Event}
    {out : Except SessionError WindowResult}
    (hev : ∀ e ∈ ev, SentIn s.fatalRestartRequired preludeKinds e)
    (hl : s1.fatalRestartRequired = s.fatalRestartRequired)
    (h : WindowEnds cfg submitter windowId s1 out ev2 s') :
    WindowEnds cfg submitter windowId s out (ev ++ ev2) s' := by
  have hboth : ∀ l : List Event,
      (∀ e ∈ l, SentIn s1.fatalRestartRequired (preludeKinds ++ armKinds) e) →
      ∀ e ∈ ev ++ l, SentIn s.fatalRestartRequired (preludeKinds ++ armKinds) e := by
    intro l hl' e he
    rcases mem_append.1 he with he | he
    · exact (hev e he).mono (subset_append_left _ _)
    · exact hl ▸ hl' e he
  rcases h with ⟨hk, hok⟩ | ⟨attemptId, before, submission, after, rfl, hsub⟩
  · exact .inl ⟨hboth ev2 hk, fun r hr => (hok r hr).trans hl⟩
  refine .inr ⟨attemptId, ev ++ before, submission, after,
    (append_assoc _ _ _).symm, hboth before hsub.control, hsub.armed.append ev,
    hl ▸ hsub.native, hsub.reported, ?_⟩
  have hends := hsub.ends
  unfold TransferEnds at hends ⊢
  rw [hl] at hends
  exact hends

theorem PreludeSpec.windowEnds {windowId : Int} {p : SessionM WindowResult} (h : PreludeSpec p s) :
    Adds p (WindowEnds cfg submitter windowId s) s := by
  refine wp_mono h ?_
  rintro (e | r) s1 h1
  · obtain ⟨ev, hev, hk⟩ := h1.trace
    exact ⟨ev, hev, h1.kept,
      .inl ⟨fun e he => (hk e he).mono (subset_append_left _ _), by rintro r ⟨⟩⟩⟩
  · obtain ⟨ev, hev, hk⟩ := h1.1.trace
    exact ⟨ev, hev, h1.1.kept,
      .inl ⟨fun e he => (hk e he).mono (subset_append_left _ _), fun _ _ => h1.2⟩⟩

theorem PreludeSpec.bind_windowEnds {windowId : Int} {f : α → SessionM WindowResult}
    (h : PreludeSpec p s) (hf : ∀ a s1, Adds (f a) (WindowEnds cfg submitter windowId s1) s1) :
    Adds (p >>= f) (WindowEnds cfg submitter windowId s) s := by
  rw [Adds, wp_bind]
  refine wp_mono h ?_
  rintro (e | a) s1 h1
  · obtain ⟨ev, hev, hk⟩ := h1.trace
    exact ⟨ev, hev, h1.kept,
      .inl ⟨fun e he => (hk e he).mono (subset_append_left _ _), by rintro r ⟨⟩⟩⟩
  · obtain ⟨⟨ev, hev, hk⟩, hkept⟩ := h1.1
    rw [post_ok]
    exact Adds.after hev hkept (hf a s1) fun out ev2 s2 h2 => h2.after_prelude hk h1.2

theorem probeWindow_spec (s : Session) : PreludeSpec (probeWindow cfg exec window cached) s := by
  refine (admitted_spec cached s).bind ?_
  intro b s1
  split
  · refine (reserveWindow_spec window false _ _ s1).bind ?_
    intro reserved s2
    split
    · exact .pure _ s2
    split
    · exact (abandonDirect_spec s2).bind fun _ s3 => .pure _ s3
    · exact .pure _ s2
  · exact .pure _ s1

theorem reported_spec {windowId : Int} {digest : String} {expectedBytes : Int} {existing : Nat}
    {returnCode completedBytes : Int} {before submission : List Event}
    (htrace : s1.trace = s.trace ++ (before ++ submission)) (hkept : Kept s s1)
    (hl : s1.fatalRestartRequired = s.fatalRestartRequired)
    (hcontrol : ∀ e ∈ before, SentIn s.fatalRestartRequired (preludeKinds ++ armKinds) e)
    (harmed : ArmProven cfg windowId attemptId before)
    (hnative : submission = [] ∨
      ∃ sources descriptors, submission =
      [.submitted windowId attemptId sources descriptors s.fatalRestartRequired])
    (hesc : ∀ e ∈ submission, ¬ Escapes submitter e) :
    wp (do
      let reportSucceeded ← reportTransfer cfg exec windowId attemptId digest returnCode
        completedBytes expectedBytes
      if returnCode = 0 ∧ reportSucceeded then
        pure { windowId := windowId, directSatisfied := true, armed := true, reason := "",
               submittedBytes := expectedBytes, existingPages := existing }
      else do
        abandonDirect
        pure { windowId := windowId, directSatisfied := false, armed := true,
               reason := "native transfer failed", submittedBytes := expectedBytes,
               existingPages := existing })
      (AddsPost (WindowEnds cfg submitter windowId s) s) s1 := by
  rw [wp_bind]
  refine wp_mono (reportTransfer_spec windowId attemptId digest returnCode completedBytes
    expectedBytes s1) ?_
  rintro (e | ok) s2 ⟨ev, hev, hkept2, hk, hout⟩
  · obtain ⟨hfat, hlat⟩ := hout
    rw [post_error]
    exact ⟨before ++ (submission ++ ev), by rw [hev, htrace]; simp only [append_assoc],
      hkept.trans hkept2, .inr ⟨attemptId, before, submission, ev,
        rfl, hcontrol, harmed, hnative, hk, .inl ⟨hfat, hlat, hesc⟩⟩⟩
  · obtain ⟨hres, hlat⟩ := hout
    rw [hl] at hlat
    have hend : ∀ (result : WindowResult) (s3 : Session), s3.trace = s2.trace →
        Kept s s3 → s3.fatalRestartRequired = s2.fatalRestartRequired →
        result.directSatisfied = (returnCode = 0 && ok) →
        AddsPost (WindowEnds cfg submitter windowId s) s (.ok result) s3 := by
      intro result s3 htr hkept3 hf hr
      refine ⟨before ++ (submission ++ ev), ?_, hkept3, .inr ⟨attemptId, before, submission, ev, rfl,
        hcontrol, harmed, hnative, hk, hesc, returnCode, completedBytes, expectedBytes, ok, hres,
        hr, hf.symm ▸ hlat⟩⟩
      rw [htr, hev, htrace]
      simp only [append_assoc]
    rw [post_ok]
    split
    · next h => exact hend _ s2 rfl (hkept.trans hkept2) rfl (by simp [h.1, h.2])
    · next h =>
      rw [wp_bind, abandonDirect, wp_modify, post_ok, wp_pure]
      refine hend _ _ rfl (hkept.trans hkept2).abandoned rfl ?_
      simpa using h

section

variable {windowId : Int} {sub : List Event} {sources : List SourcePage}
variable {descriptors : List Descriptor} {latched : Bool}
variable (hshape : sub = [] ∨ sub = [.submitted windowId attemptId sources descriptors latched])
include hshape

theorem native_not_escapes
    (h : sub ≠ [] → ∀ m, settleNative (submitter sources descriptors) ≠ .escapes m) :
    ∀ e ∈ sub, ¬ Escapes submitter e := by
  rcases hshape with rfl | rfl
  · simp
  rintro e he ⟨w, a, src, desc, l, m, rfl, hm⟩
  cases mem_singleton.1 he
  exact h (by simp) m hm

theorem native_escapes {m : String}
    (h : sub ≠ [] → settleNative (submitter sources descriptors) = .escapes m) :
    ∀ e ∈ sub, Escapes submitter e := by
  rcases hshape with rfl | rfl
  · simp
  intro e he
  cases mem_singleton.1 he
  exact ⟨_, _, _, _, _, m, rfl, h (by simp)⟩

end

theorem transferReserved_spec (reserved : Response) (sources : List SourcePage) (existing : Nat)
    (s : Session) :
    Adds (transferReserved cfg exec args window reserved sources existing)
      (WindowEnds cfg args.submitter window.windowId s) s := by
  have hsub : ∀ {e : Event}, SentIn s.fatalRestartRequired armKinds e →
      SentIn s.fatalRestartRequired (preludeKinds ++ armKinds) e :=
    fun h => h.mono (subset_append_right _ _)
  rw [Adds, transferReserved, wp_bind]
  refine wp_mono (armWindow_spec window.windowId reserved.nativeTransferAttemptId
    (cfg.manifestDigest window.controlPages)
    (cfg.destinationDescriptorDigest reserved.descriptors) s) ?_
  rintro (e | armed) s1 ⟨ev, hev, hkept, hk, hout⟩
  · exact ⟨ev, hev, hkept, .inl ⟨fun e he => hsub (hk e he), by rintro r ⟨⟩⟩⟩
  obtain ⟨hf, harm⟩ := hout
  rw [post_ok]
  split
  · exact ⟨ev, hev, hkept.abandoned, .inl ⟨fun e he => hsub (hk e he), fun _ _ => hf⟩⟩
  · next hcode =>
    have harmed := harm (not_not.1 hcode)
    have hcontrol : ∀ e ∈ ev, SentIn s.fatalRestartRequired (preludeKinds ++ armKinds) e :=
      fun e he => hsub (hk e he)
    rw [wp_bind]
    refine wp_mono (submitNative_spec args window sources reserved.descriptors
      reserved.nativeTransferAttemptId _ s1) ?_
    rintro (e | ⟨returnCode, completedBytes⟩) s2 ⟨sub, hsubm, hkept2, hshape, hout2⟩
    · rw [hf] at hshape
      rw [post_error]
      refine ⟨ev ++ sub, by rw [hsubm, hev, append_assoc], hkept.trans hkept2,
        .inr ⟨_, ev, sub, [], by rw [append_nil], hcontrol, harmed,
          hshape.imp_right fun h => ⟨_, _, h⟩, by simp, ?_⟩⟩
      rcases hout2 with ⟨hfat, hl, hne⟩ | ⟨m, rfl, he⟩
      · exact .inl ⟨hfat, hl, native_not_escapes hshape hne⟩
      · exact .inr ⟨⟨m, rfl⟩, native_escapes hshape he⟩
    · rw [hf] at hshape
      rw [post_ok]
      exact reported_spec (by rw [hsubm, hev, append_assoc]) (hkept.trans hkept2)
        (hout2.1.trans hf) hcontrol harmed (hshape.imp_right fun h => ⟨_, _, h⟩)
        (native_not_escapes hshape hout2.2)

theorem fillReserved_spec (reserved : Response) (dispositions : List PageDisposition)
    (s : Session) :
    Adds (fillReserved cfg exec args window reserved dispositions)
      (WindowEnds cfg args.submitter window.windowId s) s := by
  have hgive : ∀ (reason : String) (existing : Nat) (s : Session), Adds (do
      abandonDirect
      pure (abandonedWindow window.windowId reason existing))
      (WindowEnds cfg args.submitter window.windowId s) s := fun reason existing s =>
    PreludeSpec.windowEnds ((abandonDirect_spec s).bind fun _ s1 => .pure _ s1)
  unfold fillReserved
  simp only
  split
  · exact hgive _ _ s
  split
  · exact hgive _ _ s
  split
  · exact PreludeSpec.windowEnds (.pure _ s)
  refine (selectedSources_spec args window reserved s).bind_windowEnds ?_
  intro sources s1
  split
  · exact PreludeSpec.windowEnds (.pure _ s1)
  · exact transferReserved_spec args window reserved _ _ s1

theorem transferWindow_spec (s : Session) :
    Adds (transferWindow cfg exec args window cached)
      (WindowEnds cfg args.submitter window.windowId s) s := by
  refine (admitted_spec cached s).bind_windowEnds ?_
  intro b s1
  split
  · split
    · exact PreludeSpec.windowEnds ((abandonDirect_spec s1).bind fun _ s2 => .pure _ s2)
    refine (prepareSource_spec args s1).bind_windowEnds ?_
    intro prepared s2
    split
    · refine (reserveWindow_spec window true _ _ s2).bind_windowEnds ?_
      intro r s3
      split
      · exact PreludeSpec.windowEnds (.pure _ s3)
      · exact fillReserved_spec args window _ _ s3
    · exact PreludeSpec.windowEnds (.pure _ s2)
  · exact PreludeSpec.windowEnds (.pure _ s1)

end RemoteFill
