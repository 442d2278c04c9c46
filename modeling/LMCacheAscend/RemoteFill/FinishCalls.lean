import LMCacheAscend.RemoteFill.Operations
import LMCacheAscend.RemoteFill.ProducerEnd

/-!
# Finish calls

Windows, `finish`, `abort` and `close` of one session in any order.  A finish
that returns keeps its result, and it reports local pages only where an answer
to FINISH or STATUS states them.  A finish that raises keeps nothing: unless the
latch is set, the next one sends a second FINISH.  It raises without the latch
only if an answer that came has no terminal state that `_classify_terminal`
takes (`TerminalClear`).
-/

namespace RemoteFill

open Lib List

/-- A call of the session's owner. -/
inductive SessionCall
  | window (call : WindowCall)
  | finish (exec : Exec) (args : FinishArgs)
  | abort (exec : Exec) (reason : String)
  | close

variable (cfg : SessionConfig)

def sessionCall (s : Session) : SessionCall → Session
  | .window call => windowCall cfg s call
  | .finish exec args => (finish cfg exec args s).2
  | .abort exec reason => (abort cfg exec reason s).2
  | .close => (close s).2

/-- Any calls of one session, each after the other. -/
def sessionMachine : Machine Session SessionCall where
  start s := s = Session.new
  step s call := some (sessionCall cfg s call)

def Event.isFinish : Event → Bool
  | .sent m _ _ => m.request.kind = .finish
  | _ => false

/-- A response that states that the pages are local. -/
def Response.StatesLocal (r : Response) (outcome : TerminalOutcome) : Prop :=
  r.terminalOutcome = some outcome ∧
    (r.transactionState = some "LOCAL_FULL" ∧ outcome = .localFull ∨
      r.transactionState = some "GROUP0_LOCAL" ∧ outcome = .persistentOnly ∨
      r.transactionState = none ∧ outcome = .localFull)

variable (trace : List Event) (args : FinishArgs)

/-- An answer to FINISH, or to STATUS of the transaction, stated it. -/
def StatedLocal (outcome : TerminalOutcome) : Prop :=
  ∃ m r latched, .sent m (.response r) latched ∈ trace ∧ Valid cfg m r ∧
    (m.request.kind = .finish ∨ m.request = .status (-1)) ∧ r.StatesLocal outcome

/-- What a finish reports as a local success. -/
def TerminalResult.Local (t : TerminalResult) : Prop :=
  t.directSatisfied = true ∨ t.outcome = .localFull

/-- One FINISH left the session, if any. -/
def OneFinish : Prop :=
  trace.filter Event.isFinish = [] ∨
    ∃ m latched reply, Attempts m latched reply (trace.filter Event.isFinish)

/-- The answers to FINISH, and those to STATUS that name a terminal outcome, have a terminal state
that `_classify_terminal` takes. -/
def TerminalClear : Prop :=
  ∀ m r latched, .sent m (.response r) latched ∈ trace → Valid cfg m r →
    (m.request.kind = .finish ∨ m.request = .status (-1) ∧ r.terminalOutcome ≠ none) →
    ∃ result, classifyTerminal r = .ok result

variable {cfg} {exec : Exec} {s : Session}

theorem TerminalClear.subset {trace trace' : List Event} (hsub : trace ⊆ trace')
    (h : TerminalClear cfg trace') : TerminalClear cfg trace :=
  fun m r latched hmem => h m r latched (hsub hmem)

/-! ## Calls that send no FINISH -/

/-- No FINISH was sent, and what a finish looks at is kept. -/
structure BesideFinish (s s' : Session) : Prop where
  trace : ∃ ev, s'.trace = s.trace ++ ev ∧ ∀ e ∈ ev, e.isFinish = false
  terminal : s'.terminal = s.terminal
  opened : s.opened = true → s'.opened = true
  latch : s.fatalRestartRequired = true → s'.fatalRestartRequired = true

variable {s' : Session}

theorem BesideFinish.of_eq (ht : s'.trace = s.trace)
    (hterminal : s'.terminal = s.terminal) (hopened : s.opened = true → s'.opened = true)
    (hlatch : s.fatalRestartRequired = true → s'.fatalRestartRequired = true) :
    BesideFinish s s' :=
  ⟨⟨[], by rw [ht, append_nil], fun e he => absurd he not_mem_nil⟩, hterminal, hopened,
    hlatch⟩

theorem BesideFinish.trans {s1 s2 s3 : Session} (h : BesideFinish s1 s2)
    (h' : BesideFinish s2 s3) : BesideFinish s1 s3 :=
  ⟨grown_trans h.trace h'.trace, h'.terminal.trans h.terminal,
    fun ho => h'.opened (h.opened ho), fun hl => h'.latch (h.latch hl)⟩

theorem BesideFinish.one (e : Event) (he : e.isFinish = false) :
    BesideFinish s { s with trace := s.trace ++ [e] } :=
  ⟨⟨[e], rfl, fun e' h => by rwa [mem_singleton.1 h]⟩, rfl, id, id⟩

theorem BesideFinish.subset (h : BesideFinish s s') : s.trace ⊆ s'.trace := by
  obtain ⟨ev, hev, -⟩ := h.trace
  rw [hev]
  exact subset_append_left _ _

theorem BesideFinish.filter (h : BesideFinish s s') :
    s'.trace.filter Event.isFinish = s.trace.filter Event.isFinish := by
  obtain ⟨ev, hev, hk⟩ := h.trace
  have hnil : ev.filter Event.isFinish = [] :=
    filter_eq_nil_iff.2 fun e he => by rw [hk e he]; exact Bool.false_ne_true
  rw [hev, filter_append, hnil, append_nil]

theorem Operated.besideFinish {request : Request} {reply : Reply}
    {ev : List Event} (h : Operated request s s' reply ev) (hk : request.kind ≠ .finish) :
    BesideFinish s s' := by
  obtain ⟨hattempts, hs, hlatch⟩ := h
  refine ⟨⟨ev, by rw [hs], fun e he => ?_⟩, by rw [hs], fun ho => by rw [hs]; exact ho, hlatch⟩
  obtain ⟨r, rfl⟩ := hattempts.sent e he
  exact decide_eq_false hk

instance : IsPreorder Session BesideFinish where
  refl _ := .of_eq rfl rfl id id
  trans _ _ _ := .trans

theorem besideFinish_tolerates :
    Tolerates (fun request => request.kind ≠ .finish) BesideFinish where
  silent h := .of_eq h.trace h.terminal h.opened h.latch
  submitted _ _ _ _ _ := .one _ rfl
  operated hk hop := hop.besideFinish hk

theorem ofWindow_not_finish {request : Request} {windowId : Int}
    (h : request.windowId = some windowId) : request.kind ≠ .finish := by
  intro hk
  cases request with
  | finish => cases h
  | negotiate | open_ | reserveWindow | armWindow | reportTransferComplete | abort | status =>
    cases hk

theorem windowCall_besideFinish (call : WindowCall) (s : Session) :
    BesideFinish s (windowCall cfg s call) := by
  have hended : ∀ p : SessionM WindowResult, Preserves BesideFinish p →
      BesideFinish s (callEnded (p s)) := by
    intro p hp
    have hs := hp s
    unfold wp at hs
    rcases hrun : p s with ⟨e | result, s'⟩
    · rw [hrun] at hs
      exact hs
    · rw [hrun] at hs
      exact hs.trans (.one _ rfl)
  cases call with
  | probe exec window cached =>
    exact hended _ (besideFinish_tolerates.probeWindow nofun (fun _ _ _ => nofun)
      (fun _ => ofWindow_not_finish) (fun s digest => .of_eq rfl rfl id id) cached)
  | transfer exec args window cached =>
    exact hended _ (besideFinish_tolerates.transferWindow args nofun (fun _ _ _ => nofun)
      (fun _ => ofWindow_not_finish) (fun s digest => .of_eq rfl rfl id id) cached)
  | giveUp => exact .of_eq rfl rfl id id

theorem abort_besideFinish (reason : String) : Preserves BesideFinish (abort cfg exec reason) := by
  have h := besideFinish_tolerates
  refine .bind (.get) fun s => ?_
  split
  · exact .pure _
  split
  · exact .throw _
  split
  · refine .bind (h.execute nofun) fun r => ?_
    split
    · exact .modify fun _ => .of_eq rfl rfl id id
    · exact .throw _
  · exact .modify fun _ => .of_eq rfl rfl id id

theorem close_besideFinish : Preserves BesideFinish close := by
  have h := besideFinish_tolerates
  refine .bind (.get) fun s => ?_
  split
  · exact .throw _
  · exact .modify fun s => BesideFinish.trans (.one (.clientClosed _) rfl) (.of_eq rfl rfl id id)

/-! ## A finish -/

theorem classifyTerminal_local {r : Response} {outcome : TerminalOutcome} {direct : Bool}
    (h : classifyTerminal r = .ok (outcome, direct)) (hlocal : direct = true ∨ outcome = .localFull) :
    r.StatesLocal outcome := by
  unfold classifyTerminal at h
  split at h
  · cases h
  · next named hout =>
    simp only at h
    by_cases hgroup : r.transactionState = some "GROUP0_LOCAL"
    · rw [if_pos hgroup] at h
      simp only at h
      split at h
      · cases h
      · next hne =>
        rw [not_not] at hne
        cases h
        exact ⟨hout, .inr (.inl ⟨hgroup, hne⟩)⟩
    rw [if_neg hgroup] at h
    by_cases hfull : r.transactionState = some "LOCAL_FULL"
    · rw [if_pos hfull] at h
      simp only at h
      split at h
      · cases h
      · next hne =>
        rw [not_not] at hne
        cases h
        exact ⟨hout, .inl ⟨hfull, hne⟩⟩
    rw [if_neg hfull] at h
    simp only at h
    split at h
    · next hnamed =>
      split at h
      · cases h
      · next hstate =>
        rw [not_not] at hstate
        cases h
        exact ⟨hout, .inr (.inr ⟨hstate, hnamed⟩)⟩
    · next hnamed =>
      cases h
      rcases hlocal with hdirect | hlocal
      · cases hdirect
      · exact absurd hlocal hnamed

theorem tryExecute_operation (request : Request) (s : Session) :
    wp (tryExecute cfg exec request) (fun out s' => ∃ reply ev n,
      Operated request s s' reply ev ∧ exec n (s.next request) = reply ∧
      match out with
      | .ok none => True
      | .ok (some r) => reply = .response r ∧ Valid cfg (s.next request) r
      | .error _ => s'.fatalRestartRequired = true) s := by
  rw [tryExecute, exceptNonfatal, wp_tryCatch, wp_bind]
  refine wp_mono (execute_operation request s) ?_
  rintro (e | r) s' ⟨reply, ev, n, hop, hn, hjudged⟩
  · rcases hjudged.2 with ⟨⟨message, rfl⟩, hlatch⟩ | ⟨hnonfatal, -⟩
    · exact ⟨reply, ev, n, hop, hn, hlatch⟩
    · cases e with
      | fatal m => exact absurd rfl (hnonfatal.1 m)
      | base m => exact absurd rfl (hnonfatal.2 m)
      | replyLost | valueError | runtimeError | raised => exact ⟨reply, ev, n, hop, hn, trivial⟩
  · exact ⟨reply, ev, n, hop, hn, hjudged.1, hjudged.2.1⟩

/-- How a finish that sends FINISH ends. -/
def Concluded (cfg : SessionConfig) (out : Except SessionError (TerminalOutcome × Bool))
    (s' : Session) : Prop :=
  match out with
  | .ok (outcome, direct) =>
    direct = true ∨ outcome = .localFull → StatedLocal cfg s'.trace outcome
  | .error _ => TerminalClear cfg s'.trace → s'.fatalRestartRequired = true

theorem classified_concluded {m : Message} {r : Response} {latched : Bool}
    (hmem : .sent m (.response r) latched ∈ s.trace) (hvalid : Valid cfg m r)
    (hm : m.request.kind = .finish ∨ m.request = .status (-1) ∧ r.terminalOutcome ≠ none) :
    wp (classified r) (fun out s' => s' = s ∧ Concluded cfg out s') s := by
  unfold classified
  cases hclass : classifyTerminal r with
  | ok result =>
    refine ⟨rfl, fun hlocal => ?_⟩
    exact ⟨m, r, latched, hmem, hvalid, hm.imp_right And.left, classifyTerminal_local hclass hlocal⟩
  | error e =>
    refine ⟨rfl, fun hclear => ?_⟩
    obtain ⟨result, hok⟩ := hclear m r latched hmem hvalid hm
    rw [hclass] at hok
    cases hok

theorem not_local_concluded (cfg : SessionConfig) (s' : Session) :
    Concluded cfg (.ok (.persistentOnly, false)) s' := by
  rintro (h | h) <;> cases h

theorem resolveAmbiguousFinish_spec (s : Session) :
    wp (resolveAmbiguousFinish cfg exec)
      (fun out s' => BesideFinish s s' ∧ Concluded cfg out s') s := by
  have hgive : ∀ t, BesideFinish s t → wp (do
      abandonDirect
      pure (.persistentOnly, false) : SessionM (TerminalOutcome × Bool))
      (fun out s' => BesideFinish s s' ∧ Concluded cfg out s') t := fun t ht =>
    ⟨ht.trans (.of_eq rfl rfl id id), not_local_concluded cfg _⟩
  rw [resolveAmbiguousFinish, wp_bind]
  refine wp_mono (tryExecute_operation (.status (-1)) s) ?_
  rintro (e | answer) s1 ⟨reply, ev, n, hop, hn, hout⟩
  · exact ⟨hop.besideFinish nofun, fun _ => hout⟩
  have hs1 : BesideFinish s s1 := hop.besideFinish nofun
  rw [post_ok]
  cases answer with
  | none => exact hgive s1 hs1
  | some r =>
    obtain ⟨rfl, hvalid⟩ := hout
    simp only
    have hlatched : ∀ message : String, wp (raiseFatal message : SessionM (TerminalOutcome × Bool))
        (fun out s' => BesideFinish s s' ∧ Concluded cfg out s') s1 := fun message =>
      raiseFatal_spec message s1 _ ⟨hs1.trans (.of_eq rfl rfl id fun _ => rfl), fun _ => rfl⟩
    split
    · exact hlatched _
    split
    · exact hlatched _
    split
    · next hnamed =>
      have hmem : .sent (s.next (.status (-1))) (.response r) s.fatalRestartRequired ∈ s1.trace := by
        rw [hop.session]
        exact mem_append_right _ hop.attempts.mem
      have hne : r.terminalOutcome ≠ none := by
        rintro hnone
        rw [hnone] at hnamed
        simp at hnamed
      refine wp_mono (classified_concluded hmem hvalid (.inr ⟨rfl, hne⟩)) ?_
      rintro out s2 ⟨rfl, hconcluded⟩
      exact ⟨hs1, hconcluded⟩
    · rw [abortUnconfirmed, wp_bind]
      refine wp_mono (tryExecute_operation _ s1) ?_
      rintro (e | answer) s2 ⟨reply, ev2, n2, hop2, -, hout2⟩
      · exact ⟨hs1.trans (hop2.besideFinish nofun), fun _ => hout2⟩
      · exact hgive s2 (hs1.trans (hop2.besideFinish nofun))

/-- What a finish call does to a session that has no result. -/
structure FinishEnds (cfg : SessionConfig) (args : FinishArgs) (s : Session)
    (out : Except SessionError (TerminalOutcome × Bool)) (s' : Session) : Prop where
  terminal : s'.terminal = s.terminal
  trace : s.trace ⊆ s'.trace
  opened : s.opened = true → s'.opened = true
  latch : s.fatalRestartRequired = true → s'.fatalRestartRequired = true
  finishes : s'.trace.filter Event.isFinish = s.trace.filter Event.isFinish ∨
    s.fatalRestartRequired = false ∧ ∃ m reply ev, Attempts m s.fatalRestartRequired reply ev ∧
      s'.trace.filter Event.isFinish = s.trace.filter Event.isFinish ++ ev
  concluded : Concluded cfg out s'
  sound : ∀ outcome direct, out = .ok (outcome, direct) → direct = true ∨ outcome = .localFull →
    args.requiredStoreEnd ≤ args.persistentCommonEnd ∧ s.opened = true ∧
      s.prearmControlUnknown = false

theorem BesideFinish.finishEnds {args : FinishArgs} (h : BesideFinish s s')
    {outcome : TerminalOutcome} (hne : outcome ≠ .localFull) :
    FinishEnds cfg args s (.ok (outcome, false)) s' where
  terminal := h.terminal
  trace := h.subset
  opened := h.opened
  latch := h.latch
  finishes := .inl h.filter
  concluded hlocal := absurd hlocal (by simp [hne])
  sound := by
    rintro _ _ hout hlocal
    cases hout
    exact absurd hlocal (by simp [hne])

/-- One FINISH, with its answer or the STATUS behind it. -/
theorem finishTransaction_spec {s : Session}
    (hend : args.requiredStoreEnd ≤ args.persistentCommonEnd)
    (hlatch : s.fatalRestartRequired = false) (hopened : s.opened = true)
    (hknown : s.prearmControlUnknown = false) :
    wp (finishTransaction cfg exec args) (FinishEnds cfg args s) s := by
  rw [finishTransaction, wp_get_bind, wp_bind]
  refine wp_mono (tryExecute_operation _ s) ?_
  rintro out s1 ⟨reply, ev, n, hop, hn, hout⟩
  obtain ⟨hattempts, hs1, hl1⟩ := hop
  -- after FINISH only other operations follow
  have hafter : ∀ {out s2}, BesideFinish s1 s2 → Concluded cfg out s2 →
      FinishEnds cfg args s out s2 := by
    intro out s2 h2 hconcluded
    have hfilter : ev.filter Event.isFinish = ev := by
      refine filter_eq_self.2 fun e he => ?_
      obtain ⟨r, rfl⟩ := hattempts.sent e he
      exact decide_eq_true (rfl : OperationKind.finish = .finish)
    refine ⟨h2.terminal.trans (by rw [hs1]), fun e he => h2.subset ?_, fun ho => h2.opened ?_,
      fun hl => h2.latch (hl1 hl), .inr ⟨hlatch, _, reply, ev, hattempts, ?_⟩, hconcluded,
      fun _ _ _ _ => ⟨hend, hopened, hknown⟩⟩
    · rw [hs1]
      exact mem_append_left _ he
    · rw [hs1]
      exact ho
    · rw [h2.filter, hs1, filter_append, hfilter]
  have hsame : BesideFinish s1 s1 := .of_eq rfl rfl id id
  cases out with
  | error e => exact hafter hsame fun _ => hout
  | ok answer =>
    rw [post_ok]
    cases answer with
    | none =>
      refine wp_mono (resolveAmbiguousFinish_spec s1) ?_
      rintro out s2 ⟨h2, hconcluded⟩
      exact hafter h2 hconcluded
    | some r =>
      obtain ⟨rfl, hvalid⟩ := hout
      have hmem : .sent (s.next (.finish (finishRequest cfg s args))) (.response r)
          s.fatalRestartRequired ∈ s1.trace := by
        rw [hs1]
        exact mem_append_right _ hattempts.mem
      simp only
      split
      · refine hafter hsame ?_
        rintro (h | h) <;> cases h
      split
      · next hnone =>
        refine hafter hsame fun hclear => ?_
        obtain ⟨result, hok⟩ := hclear _ r _ hmem hvalid (.inl rfl)
        unfold classifyTerminal at hok
        rw [hnone] at hok
        cases hok
      · refine wp_mono (classified_concluded hmem hvalid (.inl rfl)) ?_
        rintro out s2 ⟨rfl, hconcluded⟩
        exact hafter hsame hconcluded

theorem abortUnknown_spec (s : Session) :
    wp (abortUnknown cfg exec) (fun out s' => out = .ok () ∧ BesideFinish s s') s := by
  rw [abortUnknown, exceptException, wp_tryCatch, wp_bind]
  refine wp_mono (execute_operation _ s) ?_
  rintro (e | r) s1 ⟨reply, ev, n, hop, -, hjudged⟩
  · have hs1 : BesideFinish s s1 := hop.besideFinish (by decide)
    have hbase : ∀ m, e ≠ .base m := by
      rcases hjudged.2 with ⟨⟨message, rfl⟩, -⟩ | ⟨hnonfatal, -⟩
      · simp
      · exact hnonfatal.2
    rw [post_error, post_error]
    cases e with
    | base m => exact absurd rfl (hbase m)
    | fatal | replyLost | valueError | runtimeError | raised => exact ⟨rfl, hs1⟩
  · exact ⟨rfl, hop.besideFinish (by decide)⟩

theorem finishOutcome_spec (s : Session) :
    wp (finishOutcome cfg exec args) (FinishEnds cfg args s) s := by
  have hsame : BesideFinish s s := .of_eq rfl rfl id id
  rw [finishOutcome, wp_get_bind]
  split
  · exact hsame.finishEnds nofun
  next hlatch =>
  split
  · exact hsame.finishEnds nofun
  next hend =>
  split
  · split
    · rw [wp_bind]
      refine wp_mono (abortUnknown_spec s) ?_
      rintro out s1 ⟨rfl, hs1⟩
      exact hs1.finishEnds nofun
    · exact hsame.finishEnds nofun
  · next hknown =>
    rw [not_or, Bool.not_eq_false, Bool.not_eq_true] at hknown
    exact finishTransaction_spec args (Int.not_lt.1 hend) (Bool.not_eq_true _ ▸ hlatch) hknown.1
      hknown.2

theorem finish_spec (cfg : SessionConfig) (exec : Exec) (args : FinishArgs) {s : Session}
    (hs : s.terminal = none) :
    wp (finish cfg exec args) (fun out s' =>
      match out with
      | .ok t => s'.terminal = some t ∧ ∃ s1, FinishEnds cfg args s
          (.ok (t.outcome, t.directSatisfied)) s1 ∧
          s' = { s1 with terminal := some t, closed := true } ∧
          t.requiredStoreEnd = args.requiredStoreEnd ∧
          t.persistentCommonEnd = args.persistentCommonEnd
      | .error e => FinishEnds cfg args s (.error e) s') s := by
  rw [finish, wp_get_bind]
  simp only [hs]
  refine wp_bind_of (finishOutcome_spec args s) (fun _ _ h => h) ?_
  rintro ⟨outcome, direct⟩ s1 h1
  exact ⟨rfl, s1, h1, rfl, rfl, rfl⟩

theorem finish_again (exec : Exec) (args : FinishArgs) {s : Session} {t : TerminalResult}
    (h : s.terminal = some t) : finish cfg exec args s = (.ok t, s) := by
  have hwp : wp (finish cfg exec args) (fun out s' => out = .ok t ∧ s' = s) s := by
    rw [finish, wp_get_bind]
    simp only [h]
    exact ⟨rfl, rfl⟩
  exact Prod.ext hwp.1 hwp.2

/-! ## Runs -/

theorem sessionCall_terminal (call : SessionCall) {s : Session} {t : TerminalResult}
    (h : s.terminal = some t) : (sessionCall cfg s call).terminal = some t := by
  cases call with
  | window call => exact (windowCall_besideFinish call s).terminal.trans h
  | finish exec args =>
    show (finish cfg exec args s).2.terminal = some t
    rw [finish_again exec args h]
    exact h
  | abort exec reason => exact BesideFinish.terminal (abort_besideFinish reason s) |>.trans h
  | close => exact BesideFinish.terminal (close_besideFinish s) |>.trans h

/-- The kept result is sound. -/
def Sound (cfg : SessionConfig) (s : Session) : Prop :=
  ∀ t, s.terminal = some t → t.Local →
    t.requiredStoreEnd ≤ t.persistentCommonEnd ∧ s.opened = true ∧ StatedLocal cfg s.trace t.outcome

theorem BesideFinish.sound (h : BesideFinish s s') (hs : Sound cfg s) :
    Sound cfg s' := by
  intro t ht hlocal
  rw [h.terminal] at ht
  obtain ⟨hend, hopened, m, r, latched, hmem, hrest⟩ := hs t ht hlocal
  exact ⟨hend, h.opened hopened, m, r, latched, h.subset hmem, hrest⟩

theorem finish_sound (exec : Exec) (args : FinishArgs) (hs : Sound cfg s) :
    Sound cfg (finish cfg exec args s).2 := by
  cases hterminal : s.terminal with
  | some t =>
    rw [finish_again exec args hterminal]
    exact hs
  | none =>
    have h := finish_spec cfg exec args hterminal
    unfold wp at h
    rcases hrun : finish cfg exec args s with ⟨e | t, s'⟩
    · rw [hrun] at h
      intro t ht
      rw [h.terminal, hterminal] at ht
      cases ht
    · rw [hrun] at h
      obtain ⟨ht, s1, hends, rfl, hreq, hend⟩ := h
      intro t' ht' hlocal
      cases ht'
      obtain ⟨hle, hopened, -⟩ := hends.sound _ _ rfl hlocal
      refine ⟨?_, hends.opened hopened, hends.concluded hlocal⟩
      rw [hreq, hend]
      exact hle

theorem sound_invariant (cfg : SessionConfig) : (sessionMachine cfg).Inductive (Sound cfg) where
  start := by
    rintro s rfl t ht
    cases ht
  step := by
    rintro s call s' hs hstep
    cases hstep
    cases call with
    | window call => exact (windowCall_besideFinish call s).sound hs
    | finish exec args => exact finish_sound exec args hs
    | abort exec reason => exact BesideFinish.sound (abort_besideFinish reason s) hs
    | close => exact BesideFinish.sound (close_besideFinish s) hs

/-- One FINISH was sent, and then there is a result or the latch. -/
def FinishedOnce (s : Session) : Prop :=
  s.trace.filter Event.isFinish = [] ∨
    (∃ m latched reply, Attempts m latched reply (s.trace.filter Event.isFinish)) ∧
      (s.terminal ≠ none ∨ s.fatalRestartRequired = true)

theorem BesideFinish.finishedOnce (h : BesideFinish s s') (hs : FinishedOnce s) :
    FinishedOnce s' := by
  unfold FinishedOnce at hs ⊢
  rw [h.filter, h.terminal]
  exact hs.imp_right (And.imp_right (Or.imp_right h.latch))

theorem finish_finishedOnce (hs : TerminalClear cfg s.trace → FinishedOnce s)
    (hclear : TerminalClear cfg (finish cfg exec args s).2.trace) :
    FinishedOnce (finish cfg exec args s).2 := by
  cases hterminal : s.terminal with
  | some t =>
    rw [finish_again exec args hterminal] at hclear ⊢
    exact hs hclear
  | none =>
    -- how the FINISH events of the call join those before
    have hjoin : ∀ {out s'}, FinishEnds cfg args s out s' → TerminalClear cfg s'.trace →
        s'.trace.filter Event.isFinish = [] ∨
          (∃ m latched reply, Attempts m latched reply (s'.trace.filter Event.isFinish)) ∧
            (s.trace.filter Event.isFinish ≠ [] → s.fatalRestartRequired = true) := by
      intro out s' h hclear
      have hs := hs (hclear.subset h.trace)
      have hbefore : s.trace.filter Event.isFinish ≠ [] → s.fatalRestartRequired = true := fun hne =>
        (hs.resolve_left hne).2.resolve_left fun h => h hterminal
      rcases h.finishes with hsame | ⟨hlatch, m, reply, ev, hattempts, hadded⟩
      · rw [hsame]
        exact hs.imp_right fun h => ⟨h.1, hbefore⟩
      have hnil : s.trace.filter Event.isFinish = [] := by
        by_contra hne
        rw [hbefore hne] at hlatch
        cases hlatch
      rw [hadded, hnil, nil_append]
      exact .inr ⟨⟨m, _, reply, hattempts⟩, fun h => absurd rfl h⟩
    have h := finish_spec cfg exec args hterminal
    unfold wp at h
    rcases hrun : finish cfg exec args s with ⟨e | t, s'⟩
    · rw [hrun] at h hclear
      exact (hjoin h hclear).imp_right fun hone => ⟨hone.1, .inr (h.concluded hclear)⟩
    · rw [hrun] at h hclear
      obtain ⟨ht, s1, hends, rfl, -⟩ := h
      exact (hjoin hends hclear).imp_right fun hone => ⟨hone.1, .inl nofun⟩

theorem finishedOnce_invariant (cfg : SessionConfig) :
    (sessionMachine cfg).Inductive fun s => TerminalClear cfg s.trace → FinishedOnce s where
  start := by
    rintro s rfl -
    exact .inl rfl
  step := by
    rintro s call s' hs hstep hclear
    cases hstep
    have hbeside : BesideFinish s (sessionCall cfg s call) →
        FinishedOnce (sessionCall cfg s call) := fun h =>
      h.finishedOnce (hs (hclear.subset h.subset))
    cases call with
    | window call => exact hbeside (windowCall_besideFinish call s)
    | finish exec args => exact finish_finishedOnce args hs hclear
    | abort exec reason => exact hbeside (abort_besideFinish reason s)
    | close => exact hbeside (close_besideFinish s)

/-- **Finish calls.**  In every run, a finish that returns reports local pages only if all pages
persisted, the session was opened with no unknown control call, and an answer to FINISH or STATUS
stated it; every later finish returns the same result and changes nothing.  Where the terminal
answers that came are clear, one FINISH at most has left the session. -/
theorem finish_calls (cfg : SessionConfig) :
    (∀ s, (sessionMachine cfg).Reachable s → ∀ exec args t s',
      finish cfg exec args s = (.ok t, s') →
        (t.Local → t.requiredStoreEnd ≤ t.persistentCommonEnd ∧ s'.opened = true ∧
          (s.terminal = none → s.opened = true ∧ s.prearmControlUnknown = false) ∧
          StatedLocal cfg s'.trace t.outcome) ∧
        ∀ (calls : List SessionCall) exec' args',
          finish cfg exec' args' (calls.foldl (sessionCall cfg) s') =
            (.ok t, calls.foldl (sessionCall cfg) s')) ∧
    ∀ s, (sessionMachine cfg).Reachable s → TerminalClear cfg s.trace → OneFinish s.trace := by
  refine ⟨fun s hs exec args t s' hrun => ⟨fun hlocal => ?_, fun calls exec' args' => ?_⟩,
    fun s hs hclear => ?_⟩
  · have hsound := finish_sound exec args ((sound_invariant cfg).reachable hs)
    rw [hrun] at hsound
    cases hterminal : s.terminal with
    | some t' =>
      rw [finish_again exec args hterminal] at hrun
      cases hrun
      obtain ⟨hend, hopened, hstated⟩ := hsound t hterminal hlocal
      exact ⟨hend, hopened, nofun, hstated⟩
    | none =>
      have h := finish_spec cfg exec args hterminal
      rw [wp_of_run hrun] at h
      obtain ⟨ht, s1, hends, -, -, -⟩ := h
      obtain ⟨hend, hopened, hstated⟩ := hsound t ht hlocal
      exact ⟨hend, hopened, fun _ => (hends.sound _ _ rfl hlocal).2, hstated⟩
  · refine finish_again exec' args' ?_
    have hkept : ∀ (calls : List SessionCall) (s : Session), s.terminal = some t →
        (calls.foldl (sessionCall cfg) s).terminal = some t := by
      intro calls
      induction calls with
      | nil => exact fun s h => h
      | cons call calls ih => exact fun s h => ih _ (sessionCall_terminal call h)
    refine hkept calls s' ?_
    cases hterminal : s.terminal with
    | some t' =>
      rw [finish_again exec args hterminal] at hrun
      cases hrun
      exact hterminal
    | none =>
      have h := finish_spec cfg exec args hterminal
      rw [wp_of_run hrun] at h
      exact h.1
  · exact ((finishedOnce_invariant cfg).reachable hs hclear).imp_right And.left

/-! ## One window, and its finish -/

/-- A decoder that finishes the window's transaction. -/
def fullResponse (m : Message) : Response :=
  if m.request.kind = .finish ∨ m.request.kind = .status then
    { soleResponse m with terminalOutcome := some .localFull, transactionState := some "LOCAL_FULL" }
  else soleResponse m

def fullFinish : SessionCall := .finish (fun _ m => .response (fullResponse m)) ⟨256, 256, 0⟩

/-- An answer to FINISH or STATUS that `_classify_terminal` does not take. -/
def Event.unclear : Event → Bool
  | .sent m (.response r) _ =>
    decide (m.request.kind = .finish ∨ m.request.kind = .status) && !(classifyTerminal r).isOk
  | _ => false

theorem finish_calls_full :
    StatedLocal soleConfig
        ([.window satisfiedCall, fullFinish].foldl (sessionCall soleConfig) Session.new).trace
        .localFull ∧
      OneFinish
        ([.window satisfiedCall, fullFinish].foldl (sessionCall soleConfig) Session.new).trace := by
  have hreach : (sessionMachine soleConfig).Reachable
      (windowCall soleConfig Session.new satisfiedCall) :=
    Machine.Reachable.step (.start rfl) (SessionCall.window satisfiedCall) rfl
  have hrun : finish soleConfig (fun _ m => .response (fullResponse m)) ⟨256, 256, 0⟩
      (windowCall soleConfig Session.new satisfiedCall) =
      (.ok ⟨"transfer", .localFull, 256, 256, true⟩,
        [.window satisfiedCall, fullFinish].foldl (sessionCall soleConfig) Session.new) := rfl
  refine ⟨(((finish_calls soleConfig).1 _ hreach _ _ _ _ hrun).1 (.inl rfl)).2.2.2,
    (finish_calls soleConfig).2 _ (hreach.step fullFinish rfl) ?_⟩
  intro m r latched hmem _ hkind
  have hall : ∀ e ∈ ([.window satisfiedCall, fullFinish].foldl (sessionCall soleConfig)
      Session.new).trace, e.unclear = false := by decide +kernel
  have hends : m.request.kind = .finish ∨ m.request.kind = .status :=
    hkind.imp_right fun h => by rw [h.1]; rfl
  have hone : (decide (m.request.kind = .finish ∨ m.request.kind = .status) &&
      !(classifyTerminal r).isOk) = false := hall _ hmem
  rw [decide_eq_true hends] at hone
  rcases hclass : classifyTerminal r with e | result
  · rw [hclass] at hone
    cases hone
  · exact ⟨result, rfl⟩

/-- Both replies to FINISH are lost, and STATUS names an outcome that its state contradicts. -/
def contradictedFinish : SessionCall :=
  .finish (fun _ m =>
    if m.request.kind = .finish then .replyLost
    else .response { soleResponse m with
      terminalOutcome := some .localFull, transactionState := some "PERSISTENT_ONLY" })
    ⟨256, 256, 0⟩

/-- The finish raises, and the next one sends FINISH again as another operation. -/
theorem finish_resubmitted : ¬ ∀ (cfg : SessionConfig) (s : Session),
    (sessionMachine cfg).Reachable s → OneFinish s.trace := by
  intro h
  have hrun : (sessionMachine soleConfig).run Session.new
      [.window satisfiedCall, contradictedFinish, contradictedFinish] =
      some ([.window satisfiedCall, contradictedFinish, contradictedFinish].foldl
        (sessionCall soleConfig) Session.new) := rfl
  have hreach : (sessionMachine soleConfig).Reachable
      ([.window satisfiedCall, contradictedFinish, contradictedFinish].foldl
        (sessionCall soleConfig) Session.new) :=
    Machine.reachable_of_run rfl hrun
  have hids : (([.window satisfiedCall, contradictedFinish, contradictedFinish].foldl
      (sessionCall soleConfig) Session.new).trace.filter Event.isFinish).length = 4 := by
    decide +kernel
  rcases h soleConfig _ hreach with hnil | ⟨m, latched, reply, hattempts⟩
  · rw [hnil] at hids
    cases hids
  · generalize List.filter Event.isFinish _ = ev at hids hattempts
    cases hattempts with
    | once | again => cases hids

end RemoteFill
