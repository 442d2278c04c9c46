import LMCacheAscend.RemoteFill.Operations

/-!
# What one window sends

One call of `probe_window` or `transfer_window` sends RESERVE for its window at
most once (and again after a lost reply), every other message it sends about a
window is about this one, and the manifest is kept exactly if the page results
of the RESERVE were valid (`WindowSent`).  A window that is not satisfied gives
up direct filling.
-/

namespace RemoteFill

open Lib List Option

variable (cfg : SessionConfig)

def Event.isReserve : Event → Bool
  | .sent m _ _ => m.request.kind = .reserveWindow
  | _ => false

/-- The window that an event sends a message about. -/
def Event.windowId : Event → Option Int
  | .sent m _ _ => m.request.windowId
  | _ => none

/-- The manifest of a RESERVE whose result is valid. -/
def manifestOf : Event → Option (Int × String)
  | .sent m (.response r) _ =>
    match m.request with
    | .reserveWindow windowId _ digest pages _ =>
      if identityMismatches cfg m r = [] ∧ r.fatal = false ∧
          (validatePageResults pages r).isSome = true then some (windowId, digest) else none
    | _ => none
  | _ => none

/-- The events and manifests that a call about window `w` adds. -/
structure WindowSent (w : Int) (s s' : Session) (ev : List Event) : Prop where
  trace : s'.trace = s.trace ++ ev
  manifests : s'.windowManifests = s.windowManifests ++ ev.filterMap (manifestOf cfg)
  about : ∀ e ∈ ev, ∀ id ∈ e.windowId, id = w
  reserves : ev.filter Event.isReserve = [] ∨ ∃ m latched reply,
    m.request.windowId = some w ∧ Attempts m latched reply (ev.filter Event.isReserve)
  closed : s'.closed = s.closed
  viable : s'.directViable = true → s.directViable = true

variable {cfg} {exec : Exec} {s : Session}

/-! ## Messages other than RESERVE -/

/-- Not RESERVE, and about no other window than `w`. -/
def Beside (w : Int) (e : Event) : Prop := e.isReserve = false ∧ ∀ id ∈ e.windowId, id = w

theorem manifestOf_eq_none {e : Event} (h : e.isReserve = false) : manifestOf cfg e = none := by
  unfold manifestOf
  split
  · next m r latched =>
    split
    · next hm =>
      have hk : m.request.kind ≠ .reserveWindow := of_decide_eq_false h
      rw [hm] at hk
      exact absurd rfl hk
    · rfl
  · rfl

/-- Such messages only; no manifest was kept. -/
structure SentBeside (w : Int) (s s' : Session) : Prop where
  trace : ∃ ev, s'.trace = s.trace ++ ev ∧ ∀ e ∈ ev, Beside w e
  manifests : s'.windowManifests = s.windowManifests
  closed : s'.closed = s.closed
  viable : s'.directViable = true → s.directViable = true

variable {w : Int} (args : TransferArgs)

theorem SentBeside.of_eq {s' : Session} (ht : s'.trace = s.trace)
    (hm : s'.windowManifests = s.windowManifests) (hc : s'.closed = s.closed)
    (hv : s'.directViable = true → s.directViable = true) : SentBeside w s s' :=
  ⟨⟨[], by rw [ht, append_nil], fun e he => absurd he not_mem_nil⟩, hm, hc, hv⟩

theorem SentBeside.trans {w : Int} {s1 s2 s3 : Session} (h : SentBeside w s1 s2)
    (h' : SentBeside w s2 s3) : SentBeside w s1 s3 :=
  ⟨grown_trans h.trace h'.trace, h'.manifests.trans h.manifests, h'.closed.trans h.closed,
    fun hv => h.viable (h'.viable hv)⟩

instance {w : Int} : IsPreorder Session (SentBeside w) where
  refl _ := .of_eq rfl rfl rfl id
  trans _ _ _ := .trans

theorem sentBeside_tolerates (w : Int) : Tolerates
    (fun request => request.kind ≠ .reserveWindow ∧ ∀ id ∈ request.windowId, id = w)
    (SentBeside w) where
  silent h := .of_eq h.trace h.manifests h.closed h.viable
  submitted s _ _ _ _ := by
    refine ⟨⟨[_], rfl, fun e he => ?_⟩, rfl, rfl, id⟩
    rw [mem_singleton.1 he]
    exact ⟨rfl, nofun⟩
  operated := by
    rintro request s s' reply ev ⟨hk, hw⟩ ⟨hattempts, hs, -⟩
    refine ⟨⟨ev, by rw [hs], fun e he => ?_⟩, by rw [hs], by rw [hs], fun hv => by rw [hs] at hv; exact hv⟩
    obtain ⟨r, rfl⟩ := hattempts.sent e he
    exact ⟨decide_eq_false hk, hw⟩

theorem SentBeside.windowSent (cfg : SessionConfig) {s' : Session} (h : SentBeside w s s') :
    ∃ ev, WindowSent cfg w s s' ev ∧ ev.filter Event.isReserve = [] := by
  obtain ⟨ev, hev, hk⟩ := h.trace
  have hfilter : ev.filter Event.isReserve = [] :=
    filter_eq_nil_iff.2 fun e he => by rw [(hk e he).1]; exact Bool.false_ne_true
  have hmanifests : ev.filterMap (manifestOf cfg) = [] :=
    filterMap_eq_nil_iff.2 fun e he => manifestOf_eq_none (hk e he).1
  exact ⟨ev, ⟨hev, by rw [hmanifests, append_nil]; exact h.manifests,
    fun e he => (hk e he).2, .inl hfilter, h.closed, h.viable⟩, hfilter⟩

theorem WindowSent.around {s1 s2 s3 : Session} {ev : List Event} (h : WindowSent cfg w s1 s2 ev)
    (h0 : SentBeside w s s1) (h3 : SentBeside w s2 s3) :
    ∃ ev', WindowSent cfg w s s3 ev' ∧ ev'.filter Event.isReserve = ev.filter Event.isReserve := by
  obtain ⟨ev0, hsent0, hnil0⟩ := h0.windowSent cfg
  obtain ⟨ev3, hsent3, hnil3⟩ := h3.windowSent cfg
  have hfilter : (ev0 ++ ev ++ ev3).filter Event.isReserve = ev.filter Event.isReserve := by
    rw [filter_append, filter_append, hnil0, hnil3, nil_append, append_nil]
  refine ⟨ev0 ++ ev ++ ev3, ⟨?_, ?_, fun e he => ?_, ?_, ?_, fun hv => ?_⟩, hfilter⟩
  · rw [hsent3.trace, h.trace, hsent0.trace, append_assoc, append_assoc,
      append_assoc]
  · rw [hsent3.manifests, h.manifests, hsent0.manifests, filterMap_append,
      filterMap_append, append_assoc, append_assoc, append_assoc]
  · rcases mem_append.1 he with he | he
    · exact (mem_append.1 he).elim (hsent0.about e) (h.about e)
    · exact hsent3.about e he
  · rw [hfilter]
    exact h.reserves
  · rw [hsent3.closed, h.closed, hsent0.closed]
  · exact hsent0.viable (h.viable (hsent3.viable hv))

/-! ## RESERVE -/

theorem manifestOf_response {m : Message} {r : Response} {latched : Bool}
    {windowId generation : Int} {digest : String} {pages : List ControlPage} {missing : Bool}
    (hm : m.request = .reserveWindow windowId generation digest pages missing) :
    manifestOf cfg (.sent m (.response r) latched) =
      if identityMismatches cfg m r = [] ∧ r.fatal = false ∧
        (validatePageResults pages r).isSome = true then some (windowId, digest) else none := by
  obtain ⟨id, request⟩ := m
  subst hm
  rfl

theorem Attempts.manifest (cfg : SessionConfig) {m : Message} {latched : Bool} {reply : Reply} {ev : List Event}
    (h : Attempts m latched reply ev) :
    ev.filterMap (manifestOf cfg) = (manifestOf cfg (.sent m reply latched)).toList := by
  have hone : ∀ e : Event, [e].filterMap (manifestOf cfg) = (manifestOf cfg e).toList := by
    intro e
    rw [filterMap_cons]
    cases manifestOf cfg e with
    | none | some => rfl
  cases h with
  | once => exact hone _
  | again =>
    rw [filterMap_cons]
    exact hone _

/-- What the page results of a reservation say, for its result. -/
def ReserveEnds (s' : Session) : Except SessionError (WindowResult ⊕ Response × List PageDisposition) → Prop
  | .ok (.inl result) => result.directSatisfied = false ∧ s'.directViable = false
  | _ => True

variable (window : Window) (cached : Bool)

/-- A window sends one RESERVE, perhaps twice the same. -/
theorem reserveWindow_sent (reserveMissing : Bool) (unavailable invalid : String) (s : Session) :
    wp (reserveWindow cfg exec window reserveMissing unavailable invalid) (fun out s' =>
      ∃ ev, WindowSent cfg window.windowId s s' ev ∧ ReserveEnds s' out) s := by
  rw [reserveWindow, wp_bind, exceptNonfatal, wp_tryCatch, wp_bind]
  refine wp_mono (execute_operation _ s) ?_
  rintro out s1 ⟨reply, ev, n, ⟨hattempts, hs1, -⟩, -, hjudged⟩
  -- every event is an attempt of this RESERVE
  have hreserve : ∀ e ∈ ev, e.isReserve = true ∧ e.windowId = some window.windowId := by
    intro e he
    obtain ⟨r, rfl⟩ := hattempts.sent e he
    exact ⟨rfl, rfl⟩
  have hfilter : ev.filter Event.isReserve = ev :=
    filter_eq_self.2 fun e he => (hreserve e he).1
  have hsent : ∀ {s2 : Session} (l : List (Int × String)), s2.trace = s1.trace →
      s2.windowManifests = s1.windowManifests ++ l → s2.closed = s1.closed →
      (s2.directViable = true → s1.directViable = true) → ev.filterMap (manifestOf cfg) = l →
      WindowSent cfg window.windowId s s2 ev := by
    intro s2 l ht hm hc hv hl
    refine ⟨?_, ?_, fun e he id hid => ?_, .inr ⟨_, _, reply, rfl, hfilter.symm ▸ hattempts⟩, ?_,
      fun h => ?_⟩
    · rw [ht, hs1]
    · rw [hm, hs1, hl]
    · rw [(hreserve e he).2] at hid
      exact (some.inj hid).symm
    · rw [hc, hs1]
    · have h := hv h
      rw [hs1] at h
      exact h
  have hnone : ∀ {s2 : Session}, s2.trace = s1.trace → s2.windowManifests = s1.windowManifests →
      s2.closed = s1.closed → (s2.directViable = true → s1.directViable = true) →
      ev.filterMap (manifestOf cfg) = [] → WindowSent cfg window.windowId s s2 ev :=
    fun ht hm hc hv hl => hsent [] ht (by rw [hm, append_nil]) hc hv hl
  have hmanifest := hattempts.manifest cfg
  rcases out with e | r
  · -- no usable answer
    have hnil : ev.filterMap (manifestOf cfg) = [] := by
      rw [hmanifest]
      cases reply with
      | replyLost | raised => rfl
      | response r =>
        rw [manifestOf_response rfl, if_neg fun h => hjudged.1 r rfl ⟨h.1, h.2.1⟩]
        rfl
    have hgive : ∃ ev, WindowSent cfg window.windowId s
        { s1 with prearmControlUnknown := true, directViable := false } ev ∧
          ReserveEnds { s1 with prearmControlUnknown := true, directViable := false }
            (.ok (.inl (abandonedWindow window.windowId unavailable 0))) :=
      ⟨ev, hnone rfl rfl rfl (fun h => by cases h) hnil, rfl, rfl⟩
    rcases hjudged.2 with ⟨⟨message, rfl⟩, -⟩ | ⟨hnonfatal, -⟩
    · exact ⟨ev, hnone rfl rfl rfl id hnil, trivial⟩
    · cases e with
      | fatal m => exact absurd rfl (hnonfatal.1 m)
      | base m => exact absurd rfl (hnonfatal.2 m)
      | replyLost | valueError | runtimeError | raised => exact hgive
  · obtain ⟨rfl, hvalid, -⟩ := hjudged
    rw [post_ok, wp_pure, post_ok, post_ok]
    simp only
    cases hpages : validatePageResults window.controlPages r with
    | none =>
      have hnil : ev.filterMap (manifestOf cfg) = [] := by
        rw [hmanifest, manifestOf_response rfl, hpages, if_neg fun h => by cases h.2.2]
        rfl
      simp only
      rw [wp_bind]
      unfold invalidReply
      split <;> exact ⟨ev, hnone rfl rfl rfl (fun h => by cases h) hnil, rfl, rfl⟩
    | some dispositions =>
      have hkept : ev.filterMap (manifestOf cfg) =
          [(window.windowId, cfg.manifestDigest window.controlPages)] := by
        rw [hmanifest, manifestOf_response rfl, hpages, if_pos ⟨hvalid.1, hvalid.2, rfl⟩]
        rfl
      exact ⟨ev, hsent _ rfl rfl rfl id hkept, trivial⟩

/-! ## Windows -/

/-- A window that is not satisfied gives up direct filling. -/
def GivesUp (s' : Session) : Except SessionError WindowResult → Prop
  | .ok result => result.directSatisfied = false → s'.directViable = false
  | .error _ => True

/-- What one window call does. -/
def WindowCalled (cfg : SessionConfig) (w : Int) (s : Session)
    (out : Except SessionError WindowResult) (s' : Session) : Prop :=
  (∃ ev, WindowSent cfg w s s' ev ∧
    (s.directViable = false → ev.filter Event.isReserve = [])) ∧ GivesUp s' out

theorem unknownCall_gives_up (request : Request) (s : Session) :
    wp (exceptNonfatal (do
      let r ← execute cfg exec request
      pure (some r)) (do
      controlUnknown
      pure none)) (fun out s' => out = .ok none → s'.directViable = false) s := by
  rw [exceptNonfatal, wp_tryCatch, wp_bind]
  refine wp_of_forall ?_
  rintro (e | r) s1
  · cases e with
    | fatal | base => simp
    | replyLost | valueError | runtimeError | raised => exact fun _ => rfl
  · simp

theorem negotiated_gives_up (request : Request) (s : Session) :
    wp (negotiated cfg exec request) (fun out s' => out = .ok none → s'.directViable = false) s := by
  rw [negotiated, wp_bind]
  refine wp_mono (unknownCall_gives_up request s) ?_
  rintro (e | _ | r) s1 h1
  · exact nofun
  · exact fun _ => h1 rfl
  rw [post_ok]
  simp only
  split
  · exact nofun
  · exact fun _ => rfl

theorem openTransaction_gives_up (s : Session) :
    wp (openTransaction cfg exec) (fun out s' => out = .ok false → s'.directViable = false) s := by
  rw [openTransaction, wp_bind]
  refine wp_mono (negotiated_gives_up _ s) ?_
  rintro (e | _ | r) s1 h1
  · exact nofun
  · exact fun _ => h1 rfl
  rw [post_ok]
  simp only
  split
  · exact fun _ => rfl
  · exact nofun

theorem admitted_gives_up (hclosed : s.closed = false) :
    wp (admitted cfg exec cached) (fun out s' => out = .ok false → s'.directViable = false) s := by
  rw [admitted, wp_get_bind]
  split
  · rw [openSession, wp_get_bind]
    split
    · exact nofun
    split
    · next h =>
      intro _
      refine h.resolve_left fun hc => ?_
      rw [hclosed] at hc
      cases hc
    split
    · exact fun _ => rfl
    split
    · exact openTransaction_gives_up s
    rw [wp_bind]
    refine wp_mono (negotiated_gives_up _ s) ?_
    rintro (e | _ | r) s1 h1
    · exact nofun
    · exact fun _ => h1 rfl
    · exact openTransaction_gives_up s1
  · next h => exact fun _ => Bool.eq_false_iff.2 h

theorem admitted_beside (w : Int) (cached : Bool) :
    Preserves (SentBeside w) (admitted cfg exec cached) :=
  (sentBeside_tolerates w).admitted ⟨nofun, nofun⟩ (fun _ _ _ => ⟨nofun, nofun⟩) cached

theorem admitted_of_not_viable (h : s.directViable = false) :
    wp (admitted cfg exec cached) (fun out s' => out = .ok false ∧ s' = s) s := by
  rw [admitted, wp_get_bind, h]
  exact ⟨rfl, rfl⟩

theorem windowCalled_of_admitted {window : Window} {cached : Bool} {abandoned : WindowResult}
    {p : SessionM WindowResult} (hclosed : s.closed = false)
    (hp : ∀ s1, wp p (fun out s' => (∃ ev, WindowSent cfg window.windowId s1 s' ev) ∧
      GivesUp s' out) s1) :
    wp (do
      if ← admitted cfg exec cached then p else pure abandoned)
      (WindowCalled cfg window.windowId s) s := by
  rw [wp_bind]
  by_cases hviable : s.directViable = true
  · have hboth : wp (admitted cfg exec cached) (fun out s' =>
        SentBeside window.windowId s s' ∧ (out = .ok false → s'.directViable = false)) s :=
      ⟨admitted_beside window.windowId cached s, admitted_gives_up cached hclosed⟩
    refine wp_mono hboth ?_
    rintro (e | admitted) s1 ⟨hs1, hfalse⟩
    · obtain ⟨ev, hsent, hnil⟩ := hs1.windowSent cfg
      exact ⟨⟨ev, hsent, fun _ => hnil⟩, trivial⟩
    rw [post_ok]
    split
    · refine wp_mono (hp s1) ?_
      rintro out s2 ⟨⟨ev, hsent⟩, hgives⟩
      obtain ⟨ev', hsent', -⟩ := hsent.around hs1 (.of_eq rfl rfl rfl id)
      refine ⟨⟨ev', hsent', fun h => ?_⟩, hgives⟩
      rw [h] at hviable
      cases hviable
    · next hnot =>
      obtain ⟨ev, hsent, hnil⟩ := hs1.windowSent cfg
      exact ⟨⟨ev, hsent, fun _ => hnil⟩, fun _ => hfalse (by rw [Bool.eq_false_iff.2 hnot])⟩
  · have hviable := Bool.eq_false_iff.2 hviable
    refine wp_mono (admitted_of_not_viable cached hviable) ?_
    rintro out s1 ⟨rfl, rfl⟩
    obtain ⟨ev, hsent, hnil⟩ := (SentBeside.of_eq rfl rfl rfl id : SentBeside window.windowId s1 s1).windowSent cfg
    exact ⟨⟨ev, hsent, fun _ => hnil⟩, fun _ => hviable⟩

theorem probeWindow_called (hclosed : s.closed = false) :
    wp (probeWindow cfg exec window cached) (WindowCalled cfg window.windowId s) s := by
  refine windowCalled_of_admitted hclosed fun s1 => ?_
  rw [wp_bind]
  refine wp_mono (reserveWindow_sent window false _ _ s1) ?_
  rintro (e | result | ⟨reserved, dispositions⟩) s2 ⟨ev, hsent, hends⟩
  · exact ⟨⟨ev, hsent⟩, trivial⟩
  · exact ⟨⟨ev, hsent⟩, fun _ => hends.2⟩
  rw [post_ok]
  simp only
  split
  · have hgiven : SentBeside window.windowId s2 { s2 with directViable := false } :=
      .of_eq rfl rfl rfl fun h => by cases h
    obtain ⟨ev', hsent', -⟩ := hsent.around (.of_eq rfl rfl rfl id) hgiven
    exact ⟨⟨ev', hsent'⟩, fun _ => rfl⟩
  · exact ⟨⟨ev, hsent⟩, nofun⟩

theorem givesUp_bind {α : Type} {p : SessionM α} {f : α → SessionM WindowResult}
    (h : ∀ a s', wp (f a) (fun out s' => GivesUp s' out) s') (s : Session) :
    wp (p >>= f) (fun out s' => GivesUp s' out) s := by
  rw [wp_bind]
  refine wp_of_forall ?_
  rintro (e | a) s'
  · exact trivial
  · exact h a s'

theorem givesUp_abandon (result : WindowResult) (s : Session) :
    wp (do
      abandonDirect
      pure result) (fun out s' => GivesUp s' out) s :=
  fun _ => rfl

theorem selectedSources_gives_up (r : Response) (s : Session) :
    wp (selectedSources cfg args window r)
      (fun out s' => out = .ok none → s'.directViable = false) s := by
  rw [selectedSources, wp_get_bind, exceptException, wp_tryCatch]
  split
  · rw [wp_throw, post_error]
    split
    · simp
    · exact fun _ => rfl
  · simp

theorem prepareSource_gives_up (s : Session) :
    wp (prepareSource args) (fun out s' => out = .ok false → s'.directViable = false) s := by
  unfold prepareSource
  split
  · rw [wp_get_bind]
    split
    · simp
    rw [exceptException, wp_tryCatch]
    split
    · rw [wp_throw, post_error]
      split
      · simp
      · exact fun _ => rfl
    · exact fun _ => rfl
    · intro h
      cases h
  · simp

theorem fillReserved_gives_up (reserved : Response) (dispositions : List PageDisposition)
    (s : Session) :
    wp (fillReserved cfg exec args window reserved dispositions) (fun out s' => GivesUp s' out) s := by
  unfold fillReserved
  simp only
  split
  · exact givesUp_abandon _ s
  split
  · exact givesUp_abandon _ s
  split
  · intro h
    cases h
  rw [wp_bind]
  refine wp_mono (selectedSources_gives_up args window reserved s) ?_
  rintro (e | _ | sources) s1 h1
  · exact trivial
  · exact fun _ => h1 rfl
  refine givesUp_bind (fun armed s2 => ?_) s1
  split
  · exact givesUp_abandon _ s2
  refine givesUp_bind (fun native s3 => ?_) s2
  refine givesUp_bind (fun succeeded s4 => ?_) s3
  split
  · intro h
    cases h
  · exact givesUp_abandon _ s4

theorem transferWindow_called (hclosed : s.closed = false) :
    wp (transferWindow cfg exec args window cached) (WindowCalled cfg window.windowId s) s := by
  have htol := sentBeside_tolerates window.windowId
  refine windowCalled_of_admitted hclosed fun s1 => ?_
  have hbeside : ∀ {s2 : Session}, SentBeside window.windowId s1 s2 →
      ∃ ev, WindowSent cfg window.windowId s1 s2 ev := by
    intro s2 h2
    obtain ⟨ev, hsent, -⟩ := h2.windowSent cfg
    exact ⟨ev, hsent⟩
  split
  · exact ⟨hbeside (.of_eq rfl rfl rfl fun h => by cases h), fun _ => rfl⟩
  rw [wp_bind]
  have hprepare : wp (prepareSource args) (fun out s' => SentBeside window.windowId s1 s' ∧
      (out = .ok false → s'.directViable = false)) s1 :=
    ⟨htol.prepareSource args s1, prepareSource_gives_up args s1⟩
  refine wp_cases hprepare (fun _ _ ⟨h2, hfalse⟩ => ⟨hbeside h2, trivial⟩)
    fun prepared s2 ⟨h2, hfalse⟩ => ?_
  rw [post_ok]
  split
  · rw [wp_bind]
    refine wp_mono (reserveWindow_sent window true _ _ s2) ?_
    rintro (e | result | ⟨reserved, dispositions⟩) s3 ⟨ev, hsent, hends⟩
    · obtain ⟨ev', hsent', -⟩ := hsent.around h2 (.of_eq rfl rfl rfl id)
      exact ⟨⟨ev', hsent'⟩, trivial⟩
    · obtain ⟨ev', hsent', -⟩ := hsent.around h2 (.of_eq rfl rfl rfl id)
      exact ⟨⟨ev', hsent'⟩, fun _ => hends.2⟩
    have hfill : wp (fillReserved cfg exec args window reserved dispositions) (fun out s' =>
        SentBeside window.windowId s3 s' ∧ GivesUp s' out) s3 :=
      ⟨htol.fillReserved args (fun request hw hk => ⟨hk, fun id hid => by
          rw [hw] at hid
          exact (some.inj hid).symm⟩) reserved dispositions s3,
        fillReserved_gives_up args window reserved dispositions s3⟩
    rw [post_ok]
    refine wp_mono hfill ?_
    rintro out s4 ⟨h4, hgives⟩
    obtain ⟨ev', hsent', -⟩ := hsent.around h2 h4
    exact ⟨⟨ev', hsent'⟩, hgives⟩
  · next hnot => exact ⟨hbeside h2, fun _ => hfalse (by rw [Bool.eq_false_iff.2 hnot])⟩

end RemoteFill
