import Mathlib.Data.List.Nodup
import LMCacheAscend.Lib.Traverse
import LMCacheAscend.RemoteFill.Operations

/-!
# What an armed window was checked for

`transfer_window` sends ARM_WINDOW for the answer to its RESERVE only after
`_validate_page_results`, `_validate_descriptors` and the choice of the source
pages.  `Checked` is what these say of the answer and of the sources; the messages
and the native call after them carry exactly these (`Carries`).

The descriptors are checked by identity, a page's canonical key and its group.
Where two control pages have one identity, two page results can share a descriptor.
-/

namespace RemoteFill

open Lib List

/-! ## The checks -/

/-- A canonical key and a group. -/
abbrev Identity := String × Nat

def ControlPage.identity (p : ControlPage) : Identity := (p.canonicalKey, p.kvGroup)

def PageResult.identity (p : PageResult) : Identity := (p.canonicalKey, p.kvGroup)

def Descriptor.identity (d : Descriptor) : Identity := (d.canonicalKey, d.kvGroup)

def SourcePage.identity (p : SourcePage) : Identity := (p.canonicalKey, p.kvGroup)

/-- The identities of the page results with a disposition. -/
def Response.identitiesOf (r : Response) (disposition : PageDisposition) : List Identity :=
  (r.pageResults.filter fun p => p.disposition = disposition).map PageResult.identity

/-- A descriptor is what the transaction expects for a control page. -/
structure Describes (cfg : SessionConfig) (window : Window) (r : Response) (page : ControlPage)
    (d : Descriptor) : Prop where
  control : page ∈ window.controlPages
  identity : d.identity = page.identity
  hmac : cfg.verifyDescriptor d = true
  transferId : d.transferId = cfg.transferId
  requestAttempt : d.requestAttempt = cfg.requestAttempt
  attempt : d.nativeTransferAttemptId = r.nativeTransferAttemptId
  epoch : d.destinationEngineEpoch = cfg.destinationEngineEpoch
  generation : d.sharedCacheGeneration = cfg.sharedCacheGeneration
  dpRank : d.destinationDpRank = cfg.destinationDpRank
  tpRank : d.destinationTpRank = page.destinationTpRank
  length : d.destinationLength = page.expectedBytes
  manifest : d.manifestDigest = cfg.manifestDigest window.controlPages
  pointer : 0 < d.destinationPtr
  windowId : d.windowId = window.windowId
  reservation : d.reservationId ≠ ""

/-- A page result is that of a control page. -/
def Reports (page : ControlPage) (result : PageResult) : Prop :=
  result.identity = page.identity ∧ result.chunkIndex = page.chunkIndex

/-- A source page is that of a descriptor. -/
def Supplies (source : SourcePage) (d : Descriptor) : Prop :=
  source.identity = d.identity ∧ source.sourceLengths.sum = d.destinationLength

/-- What a window was checked for before ARM. -/
structure Checked (cfg : SessionConfig) (window : Window) (r : Response)
    (sources : List SourcePage) : Prop where
  reports : Forall₂ Reports window.controlPages r.pageResults
  missing : r.identitiesOf .missing = []
  unique : (r.descriptors.map Descriptor.identity).Nodup
  allocated : ∀ i, i ∈ r.descriptors.map Descriptor.identity ↔ i ∈ r.identitiesOf .allocated
  describes : ∀ d ∈ r.descriptors, ∃ page, Describes cfg window r page d
  supplies : Forall₂ Supplies sources r.descriptors

section

variable {cfg : SessionConfig} {exec : Exec} {args : TransferArgs} {window : Window}
  {r : Response} {sources : List SourcePage} {s : Session}

theorem validatePageResults_reports {pages : List ControlPage} {dispositions : List PageDisposition}
    (h : validatePageResults pages r = some dispositions) :
    Forall₂ Reports pages r.pageResults ∧
      dispositions = r.pageResults.map PageResult.disposition := by
  unfold validatePageResults at h
  split at h
  · cases h
  next hlen =>
  split at h
  · next hall =>
    cases h
    rw [not_not] at hlen
    refine ⟨forall₂_iff_zip.2 ⟨hlen.symm, fun hmem => ?_⟩, rfl⟩
    have := all_eq_true.1 hall _ hmem
    simp only [Bool.and_eq_true, decide_eq_true_eq] at this
    exact ⟨Prod.ext this.1.1 this.1.2, this.2⟩
  · cases h

theorem identitiesOf_missing (h : .missing ∉ r.pageResults.map PageResult.disposition) :
    r.identitiesOf .missing = [] := by
  unfold Response.identitiesOf
  rw [map_eq_nil_iff, filter_eq_nil_iff]
  intro p hp hd
  exact h (mem_map.2 ⟨p, hp, of_decide_eq_true hd⟩)

theorem validDescriptors_checked
    (h : validDescriptors cfg s window.controlPages (cfg.manifestDigest window.controlPages)
      window.windowId r = true) :
    (r.descriptors.map Descriptor.identity).Nodup ∧
      (∀ i, i ∈ r.descriptors.map Descriptor.identity ↔ i ∈ r.identitiesOf .allocated) ∧
      ∀ d ∈ r.descriptors, ∃ page, Describes cfg window r page d := by
  unfold validDescriptors at h
  simp only [Bool.and_eq_true, decide_eq_true_eq] at h
  obtain ⟨⟨⟨hnodup, hall⟩, hsub⟩, hsup⟩ := h
  refine ⟨hnodup, fun i => ⟨fun hi => ?_, fun hi => ?_⟩, fun d hd => ?_⟩
  · exact of_decide_eq_true (all_eq_true.1 hsub i hi)
  · exact of_decide_eq_true (all_eq_true.1 hsup i hi)
  · have hd := all_eq_true.1 hall d hd
    split at hd
    · cases hd
    next page hpage =>
    have hmem := mem_of_find?_eq_some hpage
    have hid := find?_some hpage
    simp only [Bool.and_eq_true, decide_eq_true_eq] at hd hid
    obtain ⟨⟨⟨⟨⟨⟨⟨⟨⟨⟨⟨⟨⟨hmac, hsession⟩, h1⟩, h2⟩, h3⟩, h4⟩, h5⟩, h6⟩, h7⟩, h8⟩, h9⟩, h10⟩, h11⟩,
      h12⟩ := hd
    exact ⟨page, mem_reverse.1 hmem, Prod.ext hid.1.symm hid.2.symm, hmac, h1, h2, h3, h4, h5,
      h6, h7, h8, h9, h10, h11, h12⟩

theorem sourceAt_identity {pages : List SourcePage} {key : String} {group : Nat} {page : SourcePage}
    (h : sourceAt pages key group = some page) : page.identity = (key, group) := by
  have := find?_some h
  simp only [Bool.and_eq_true, decide_eq_true_eq] at this
  exact Prod.ext this.1 this.2

theorem selectSources_checked (hpages : Forall₂ Reports window.controlPages r.pageResults)
    (hmissing : .missing ∉ r.pageResults.map PageResult.disposition)
    (h : selectSources cfg s args window r = .ok sources) : Checked cfg window r sources := by
  unfold selectSources at h
  simp only at h
  split at h
  · cases h
  next hvalid =>
  split at h
  · cases h
  split at h
  · cases h
  split at h
  · cases h
  next selected hselected =>
  split at h
  · cases h
  next hsizes =>
  cases h
  obtain ⟨hunique, hallocated, hdescribes⟩ :=
    validDescriptors_checked ((Bool.not_eq_false _).mp hvalid)
  have hlookup := forall₂_of_mapM hselected
  refine ⟨hpages, identitiesOf_missing hmissing, hunique, hallocated, hdescribes, ?_⟩
  have hlen := hlookup.length_eq
  refine forall₂_iff_zip.2 ⟨hlen.symm, fun {source d} hmem => ⟨?_, ?_⟩⟩
  · exact sourceAt_identity (forall₂_zip hlookup.flip hmem)
  · rw [Bool.not_eq_true, any_eq_false] at hsizes
    simpa using hsizes _ hmem

/-! ## What is sent -/

variable (P : Request → Prop) {s' : Session}

/-- A message meets `P`; a native call may be any. -/
def Says (e : Event) : Prop :=
  ∀ m reply latched, e = .sent m reply latched → P m.request

/-- The events added meet `Says P`. -/
def SentOnly (s s' : Session) : Prop :=
  ∃ ev, s'.trace = s.trace ++ ev ∧ ∀ e ∈ ev, Says P e

theorem SentOnly.of_eq {P : Request → Prop} (h : s'.trace = s.trace) : SentOnly P s s' :=
  ⟨[], by rw [h, append_nil], fun _ he => absurd he not_mem_nil⟩

theorem SentOnly.trans {P : Request → Prop} {s1 s2 s3 : Session} (h : SentOnly P s1 s2)
    (h' : SentOnly P s2 s3) : SentOnly P s1 s3 := grown_trans h h'

instance {P : Request → Prop} : IsPreorder Session (SentOnly P) where
  refl _ := .of_eq rfl
  trans _ _ _ := .trans

theorem sentOnly_tolerates : Tolerates P (SentOnly P) where
  silent h := .of_eq h.trace
  submitted s _ _ _ _ := by
    refine ⟨[_], rfl, fun e he m reply latched hsent => ?_⟩
    rw [mem_singleton.1 he] at hsent
    cases hsent
  operated := by
    rintro request s s' reply ev hp ⟨hattempts, hs, -⟩
    refine ⟨ev, by rw [hs], fun e he m reply' latched hsent => ?_⟩
    obtain ⟨r, hr⟩ := hattempts.sent e he
    rw [hr, Event.sent.injEq] at hsent
    rw [← hsent.1]
    exact hp

/-- The ARM_WINDOW of an answer. -/
def armRequest (cfg : SessionConfig) (window : Window) (r : Response) : Request :=
  .armWindow window.windowId r.nativeTransferAttemptId (cfg.manifestDigest window.controlPages)
    (cfg.destinationDescriptorDigest r.descriptors)

/-- ARM_WINDOW is that of the answer, and the native call has its descriptors and the sources. -/
def Carries (cfg : SessionConfig) (window : Window) (r : Response) (sources : List SourcePage) :
    Event → Prop
  | .sent m _ _ => m.request.kind = .armWindow → m.request = armRequest cfg window r
  | .submitted windowId attemptId sources' descriptors _ => windowId = window.windowId ∧
      attemptId = r.nativeTransferAttemptId ∧ sources' = sources ∧ descriptors = r.descriptors
  | _ => True

/-- Neither ARM_WINDOW nor a native call. -/
def BeforeArm : Event → Prop
  | .sent m _ _ => m.request.kind ≠ .armWindow
  | .submitted .. => False
  | _ => True

theorem beforeArm_of_sentIn {latched : Bool} {kinds : List OperationKind} {e : Event}
    (h : SentIn latched kinds e) (hk : .armWindow ∉ kinds) : BeforeArm e := by
  obtain ⟨k, hk', m, reply, rfl, rfl⟩ := h
  exact fun harm => hk (harm ▸ hk')

theorem BeforeArm.carries {e : Event} (h : BeforeArm e) : Carries cfg window r sources e := by
  cases e with
  | sent m reply latched => exact fun harm => absurd harm h
  | submitted => cases h
  | returned | clientClosed => exact trivial

theorem armWindow_messages (windowId : Int) (attemptId digest descriptorDigest : String)
    (s : Session) :
    wp (armWindow cfg exec windowId attemptId digest descriptorDigest) (fun _ s' => SentOnly
      (fun request => request = .armWindow windowId attemptId digest descriptorDigest ∨
        request = .status windowId) s s') s := by
  have h := sentOnly_tolerates fun request =>
    request = .armWindow windowId attemptId digest descriptorDigest ∨ request = .status windowId
  refine exceptNonfatal_preserves (h.execute (.inl rfl))
    (exceptException_preserves ?_ (h.raiseFatal _)) s
  refine .bind (h.execute (.inr rfl)) fun response => ?_
  split
  · exact .pure _
  · exact .throw _

theorem armWindow_carries (s : Session) :
    wp (armWindow cfg exec window.windowId r.nativeTransferAttemptId
      (cfg.manifestDigest window.controlPages) (cfg.destinationDescriptorDigest r.descriptors))
      (fun _ s' => Ran (Carries cfg window r sources) s s') s := by
  refine wp_mono (wp_and (armWindow_spec _ _ _ _ s) (armWindow_messages _ _ _ _ s)) ?_
  rintro out s' ⟨⟨ev, hev, hkept, hkinds, -⟩, ev', hev', hsends⟩
  have heq : ev = ev' := append_cancel_left (hev.symm.trans hev')
  subst heq
  refine ⟨⟨ev, hev, fun e he => ?_⟩, hkept⟩
  obtain ⟨k, -, m, reply, rfl, -⟩ := hkinds e he
  intro harm
  rcases hsends _ he m reply _ rfl with hm | hm
  · exact hm
  · rw [hm] at harm
    cases harm

instance {P : Event → Prop} : IsPreorder Session (Ran P) where
  refl s := .of_eq rfl (.refl s)
  trans _ _ _ := .trans

theorem transferReserved_carries (existing : Nat) (s : Session) :
    wp (transferReserved cfg exec args window r sources existing)
      (fun _ s' => Ran (Carries cfg window r sources) s s') s := by
  have hgive : ∀ result : WindowResult, Preserves (Ran (Carries cfg window r sources)) (do
      abandonDirect
      pure result : SessionM WindowResult) := fun result s =>
    .of_eq rfl (Kept.refl s).abandoned
  refine Preserves.bind armWindow_carries (fun armed => ?_) s
  split
  · exact hgive _
  refine .bind (fun s1 => ?_) fun native => .bind (fun s2 => ?_) fun succeeded => ?_
  · refine wp_mono (submitNative_spec args window sources r.descriptors _ _ s1) ?_
    rintro out s2 ⟨ev, hev, hkept, hshape, -⟩
    refine ⟨⟨ev, hev, fun e he => ?_⟩, hkept⟩
    rcases hshape with rfl | rfl
    · cases he
    · rw [mem_singleton.1 he]
      exact ⟨rfl, rfl, rfl, rfl⟩
  · refine wp_mono (reportTransfer_spec _ _ _ _ _ _ s2) ?_
    rintro out s3 ⟨ev, hev, hkept, hreport, -⟩
    refine ⟨⟨ev, hev, fun e he => ?_⟩, hkept⟩
    obtain ⟨latched, h⟩ := hreport e he
    exact (beforeArm_of_sentIn h (by decide)).carries
  · split
    · exact .pure _
    · exact hgive _

/-! ## What comes before ARM_WINDOW -/

/-- The RESERVE_WINDOW of a window was answered with `r`. -/
def AnsweredWith (cfg : SessionConfig) (window : Window) (r : Response) (ev : List Event) : Prop :=
  ∃ m latched, .sent m (.response r) latched ∈ ev ∧ m.request = .reserveWindow window.windowId
    window.sourceGeneration (cfg.manifestDigest window.controlPages) window.controlPages true

/-- Either nothing was armed, or the answer to RESERVE_WINDOW was checked before. -/
def CheckedFirst (cfg : SessionConfig) (window : Window) (s s' : Session) : Prop :=
  ∃ before after, s'.trace = s.trace ++ (before ++ after) ∧ (∀ e ∈ before, BeforeArm e) ∧
    (after = [] ∨ ∃ r sources, AnsweredWith cfg window r before ∧ Checked cfg window r sources ∧
      ∀ e ∈ after, Carries cfg window r sources e)

theorem Prelude.events (h : Prelude s s') :
    ∃ ev, s'.trace = s.trace ++ ev ∧ ∀ e ∈ ev, BeforeArm e := by
  obtain ⟨ev, hev, hk⟩ := h.trace
  exact ⟨ev, hev, fun e he => beforeArm_of_sentIn (hk e he) (by decide)⟩

theorem CheckedFirst.of_prelude (h : Prelude s s') : CheckedFirst cfg window s s' := by
  obtain ⟨ev, hev, hb⟩ := h.events
  exact ⟨ev, [], by rw [append_nil]; exact hev, hb, .inl rfl⟩

theorem CheckedFirst.after_prelude {s1 : Session} (h : Prelude s s1)
    (h' : CheckedFirst cfg window s1 s') : CheckedFirst cfg window s s' := by
  obtain ⟨ev, hev, hb⟩ := h.events
  obtain ⟨before, after, htrace, hbefore, hafter⟩ := h'
  refine ⟨ev ++ before, after, by rw [htrace, hev]; simp only [append_assoc], fun e he => ?_,
    hafter.imp_right ?_⟩
  · exact (mem_append.1 he).elim (hb e) (hbefore e)
  · rintro ⟨r, sources, ⟨m, latched, hmem, hm⟩, hrest⟩
    exact ⟨r, sources, ⟨m, latched, mem_append_right ev hmem, hm⟩, hrest⟩

theorem PreludeSpec.checkedFirst {α : Type} {p : SessionM α} (h : PreludeSpec p s) :
    wp p (fun _ s' => CheckedFirst cfg window s s') s := by
  refine wp_cases h (fun _ _ h' => .of_prelude h') fun a s' h' => ?_
  exact .of_prelude h'.1

theorem PreludeSpec.bind_checkedFirst {α β : Type} {p : SessionM α} {f : α → SessionM β}
    (h : PreludeSpec p s)
    (hf : ∀ a s1, wp (f a) (fun _ s' => CheckedFirst cfg window s1 s') s1) :
    wp (p >>= f) (fun _ s' => CheckedFirst cfg window s s') s := by
  refine wp_bind_of h (fun _ _ h1 => .of_prelude h1) fun a s1 h1 => ?_
  exact wp_mono (hf a s1) fun _ _ h2 => CheckedFirst.after_prelude h1.1 h2

/-- What RESERVE_WINDOW returns is its answer, with the dispositions of the page results. -/
theorem reserveWindow_answers (unavailable invalid : String) (s : Session) :
    wp (reserveWindow cfg exec window true unavailable invalid) (fun out s' =>
      ∀ r dispositions, out = .ok (.inr (r, dispositions)) →
        validatePageResults window.controlPages r = some dispositions ∧
        ∃ ev, s'.trace = s.trace ++ ev ∧ AnsweredWith cfg window r ev) s := by
  rw [reserveWindow, wp_bind, exceptNonfatal, wp_tryCatch, wp_bind]
  refine wp_mono (execute_operation _ s) ?_
  rintro (e | r) s1 ⟨reply, ev, n, ⟨hattempts, hs1, -⟩, -, hjudged⟩
  · rw [post_error, post_error]
    cases e with
    | fatal m | base m =>
      rintro r dispositions hout
      cases hout
    | replyLost | valueError m | runtimeError m | raised m =>
      rintro r dispositions hout
      cases hout
  · obtain ⟨rfl, -, -⟩ := hjudged
    rw [post_ok, wp_pure, post_ok, post_ok]
    simp only
    cases hpages : validatePageResults window.controlPages r with
    | none =>
      simp only
      rw [wp_bind]
      unfold invalidReply
      split
      all_goals
        rintro r dispositions hout
        cases hout
    | some dispositions =>
      rintro _ _ ⟨⟩
      refine ⟨hpages, ev, ?_, _, _, hattempts.mem, rfl⟩
      show s1.trace = s.trace ++ ev
      rw [hs1]

theorem selectedSources_value (s : Session) :
    wp (selectedSources cfg args window r) (fun out _ => ∀ sources, out = .ok (some sources) →
      selectSources cfg s args window r = .ok sources) s := by
  rw [selectedSources, wp_get_bind, exceptException, wp_tryCatch]
  split
  · rw [wp_throw, post_error]
    split
    · simp
    · intro sources hsources
      cases hsources
  · next sources hsources =>
    rintro _ ⟨⟩
    exact hsources

theorem fillReserved_checked {dispositions : List PageDisposition} (s : Session)
    (hpages : validatePageResults window.controlPages r = some dispositions) :
    wp (fillReserved cfg exec args window r dispositions) (fun _ s' => Prelude s s' ∨
      ∃ s1 sources, Prelude s s1 ∧ Checked cfg window r sources ∧
        Ran (Carries cfg window r sources) s1 s') s := by
  obtain ⟨hreports, hdispositions⟩ := validatePageResults_reports hpages
  have hgive : ∀ (result : WindowResult) (s : Session), wp (do
      abandonDirect
      pure result : SessionM WindowResult) (fun _ s' => Prelude s s') s := fun result s =>
    Ran.of_eq rfl (Kept.refl s).abandoned
  unfold fillReserved
  simp only
  split
  · exact wp_mono (hgive _ s) fun _ _ h => .inl h
  split
  · exact wp_mono (hgive _ s) fun _ _ h => .inl h
  next hmissing =>
  split
  · exact .inl (.refl s)
  rw [wp_bind]
  refine wp_mono (wp_and (selectedSources_spec args window r s) (selectedSources_value s)) ?_
  rintro (e | _ | sources) s1 ⟨hprelude, hvalue⟩
  · exact .inl hprelude
  · exact .inl hprelude.1
  rw [post_ok]
  have hchecked := selectSources_checked hreports (hdispositions ▸ hmissing) (hvalue sources rfl)
  exact wp_mono (transferReserved_carries _ s1) fun _ _ h =>
    .inr ⟨s1, sources, hprelude.1, hchecked, h⟩

theorem transferWindow_checked (cached : Bool) (s : Session) :
    wp (transferWindow cfg exec args window cached)
      (fun _ s' => CheckedFirst cfg window s s') s := by
  refine (admitted_spec cached s).bind_checkedFirst fun b s1 => ?_
  split
  · split
    · exact ((abandonDirect_spec s1).bind fun _ s2 => .pure _ s2).checkedFirst
    refine (prepareSource_spec args s1).bind_checkedFirst fun prepared s2 => ?_
    split
    · rw [wp_bind]
      refine wp_mono (wp_and (reserveWindow_spec window true _ _ s2)
        (reserveWindow_answers _ _ s2)) ?_
      rintro (e | result | ⟨r, dispositions⟩) s3 ⟨hprelude, hanswer⟩
      · exact .of_prelude hprelude
      · exact .of_prelude hprelude.1
      obtain ⟨hpages, ev, hev, hanswered⟩ := hanswer r dispositions rfl
      obtain ⟨ev', hev', hbefore⟩ := Prelude.events hprelude.1
      have heq : ev = ev' := append_cancel_left (hev.symm.trans hev')
      subst heq
      rw [post_ok]
      refine wp_mono (fillReserved_checked s3 hpages) ?_
      rintro out s4 (h4 | ⟨s5, sources, h5, hchecked, hran⟩)
      · exact .after_prelude hprelude.1 (.of_prelude h4)
      obtain ⟨ev5, hev5, hb5⟩ := h5.events
      obtain ⟨after, hafter, hcarries⟩ := hran.trace
      refine ⟨ev ++ ev5, after, ?_, fun e he => ?_, .inr ⟨r, sources, ?_, hchecked, hcarries⟩⟩
      · rw [hafter, hev5, hev]
        simp only [append_assoc]
      · exact (mem_append.1 he).elim (hbefore e) (hb5 e)
      · obtain ⟨m, latched, hmem, hm⟩ := hanswered
        exact ⟨m, latched, mem_append_left _ hmem, hm⟩
    · exact PreludeSpec.checkedFirst (.pure _ s2)
  · exact PreludeSpec.checkedFirst (.pure _ s1)

/-! ## Windows whose pages have an identity each -/

theorem Checked.identities (h : Checked cfg window r sources) :
    r.pageResults.map PageResult.identity = window.controlPages.map ControlPage.identity := by
  have hreports := h.reports
  generalize window.controlPages = pages at hreports ⊢
  generalize r.pageResults = results at hreports ⊢
  induction hreports with
  | nil => rfl
  | cons hpage _ ih => rw [map_cons, map_cons, hpage.1, ih]

theorem Checked.one_to_one (h : Checked cfg window r sources)
    (hpages : (window.controlPages.map ControlPage.identity).Nodup) :
    (r.descriptors.map Descriptor.identity).Perm (r.identitiesOf .allocated) ∧
      ∀ i ∈ r.descriptors.map Descriptor.identity, i ∉ r.identitiesOf .existing := by
  rw [← h.identities] at hpages
  have hallocated : (r.identitiesOf .allocated).Nodup :=
    hpages.sublist (filter_sublist.map _)
  refine ⟨(perm_ext_iff_of_nodup h.unique hallocated).2 h.allocated, fun i hi hex => ?_⟩
  obtain ⟨p, hp, rfl⟩ := mem_map.1 ((h.allocated i).1 hi)
  obtain ⟨q, hq, hpq⟩ := mem_map.1 hex
  obtain ⟨hp, hpd⟩ := mem_filter.1 hp
  obtain ⟨hq, hqd⟩ := mem_filter.1 hq
  have heq := inj_on_of_nodup_map hpages hq hp hpq
  rw [heq, of_decide_eq_true hpd] at hqd
  cases of_decide_eq_true hqd

end

/-- **Whenever a window is armed, its descriptors were checked**: the message is that of the answer
to RESERVE_WINDOW, a native call has the answer's descriptors and sources aligned with them, and if
no two control pages have one identity the descriptors are exactly the pages reported ALLOCATED. -/
theorem armed_window_checked (cfg : SessionConfig) (exec : Exec) (args : TransferArgs)
    (window : Window) (cached : Bool) (s : Session) :
    wp (transferWindow cfg exec args window cached) (fun _ s' => ∃ ev, s'.trace = s.trace ++ ev ∧
      ∀ m reply latched, .sent m reply latched ∈ ev → m.request.kind = .armWindow →
        ∃ r sources, AnsweredWith cfg window r ev ∧ m.request = armRequest cfg window r ∧
          Checked cfg window r sources ∧
          (∀ windowId attemptId sources' descriptors latched',
            .submitted windowId attemptId sources' descriptors latched' ∈ ev →
              attemptId = r.nativeTransferAttemptId ∧ sources' = sources ∧
                descriptors = r.descriptors) ∧
          ((window.controlPages.map ControlPage.identity).Nodup →
            (r.descriptors.map Descriptor.identity).Perm (r.identitiesOf .allocated) ∧
              ∀ i ∈ r.descriptors.map Descriptor.identity, i ∉ r.identitiesOf .existing)) s := by
  refine wp_mono (transferWindow_checked cached s) ?_
  rintro out s' ⟨before, after, htrace, hbefore, hafter⟩
  refine ⟨before ++ after, htrace, fun m reply latched hsent harm => ?_⟩
  have hin : .sent m reply latched ∈ after :=
    (mem_append.1 hsent).resolve_left fun hb => hbefore _ hb harm
  obtain ⟨r, sources, hanswered, hchecked, hcarries⟩ :=
    hafter.resolve_left (ne_nil_of_mem hin)
  refine ⟨r, sources, ?_, hcarries _ hin harm, hchecked, ?_, hchecked.one_to_one⟩
  · obtain ⟨m', latched', hmem, hm⟩ := hanswered
    exact ⟨m', latched', mem_append_left _ hmem, hm⟩
  · intro windowId attemptId sources' descriptors latched' hsub
    rcases mem_append.1 hsub with hb | ha
    · exact absurd (hbefore _ hb) id
    · obtain ⟨-, hattempt, hsources, hdescriptors⟩ := hcarries _ ha
      exact ⟨hattempt, hsources, hdescriptors⟩

/-! ## A window with a page twice -/

def twiceWindow : Window :=
  { soleWindow with controlPages := soleWindow.controlPages ++ soleWindow.controlPages }

/-- The second of the two results is EXISTING. -/
def twiceResponse (m : Message) : Response :=
  { soleResponse m with
    pageResults := [⟨"page", 0, 0, .allocated⟩, ⟨"page", 0, 0, .existing⟩] }

def twiceCall : Except SessionError WindowResult × Session :=
  transferWindow soleConfig (fun _ m => .response (twiceResponse m))
    (soleTransfer (.ok (some ⟨"attempt", 0, 4096⟩))) twiceWindow true Session.new

/-- A reply is `twiceResponse`, as far as it is checked. -/
def answersTwice : Event → Bool
  | .sent m (.response r) _ =>
    r.descriptors = (twiceResponse m).descriptors && r.pageResults = (twiceResponse m).pageResults
  | .sent .. => false
  | _ => true

/-- A descriptor addresses a page that was reported EXISTING. -/
theorem repeated_page_existing :
    ¬ ∀ (cfg : SessionConfig) (exec : Exec) (args : TransferArgs) (window : Window)
        (cached : Bool) (s : Session),
      wp (transferWindow cfg exec args window cached) (fun _ s' =>
        ∃ ev, s'.trace = s.trace ++ ev ∧
          ∀ m reply latched, .sent m reply latched ∈ ev → m.request.kind = .armWindow →
            ∃ r, AnsweredWith cfg window r ev ∧
              (r.descriptors.map Descriptor.identity).Perm (r.identitiesOf .allocated) ∧
              ∀ i ∈ r.descriptors.map Descriptor.identity, i ∉ r.identitiesOf .existing) s := by
  intro h
  have hcall : ∃ ev, twiceCall.2.trace = [] ++ ev ∧
      ∀ m reply latched, .sent m reply latched ∈ ev → m.request.kind = .armWindow →
        ∃ r, AnsweredWith soleConfig twiceWindow r ev ∧
          (r.descriptors.map Descriptor.identity).Perm (r.identitiesOf .allocated) ∧
          ∀ i ∈ r.descriptors.map Descriptor.identity, i ∉ r.identitiesOf .existing :=
    h soleConfig (fun _ m => .response (twiceResponse m))
      (soleTransfer (.ok (some ⟨"attempt", 0, 4096⟩))) twiceWindow true Session.new
  obtain ⟨ev, hev, hsent⟩ := hcall
  rw [nil_append] at hev
  subst hev
  have harm : Event.sent ⟨3, .armWindow 0 "attempt" "manifest" "descriptors"⟩
      (.response (twiceResponse ⟨3, .armWindow 0 "attempt" "manifest" "descriptors"⟩)) false ∈
      twiceCall.2.trace := by
    decide +kernel
  have hreplies : twiceCall.2.trace.all answersTwice = true := by decide +kernel
  obtain ⟨r, ⟨m, latched, hmem, -⟩, -, hex⟩ := hsent _ _ _ harm rfl
  have hr := all_eq_true.1 hreplies _ hmem
  simp only [answersTwice, Bool.and_eq_true, decide_eq_true_eq] at hr
  unfold Response.identitiesOf at hex
  rw [hr.1, hr.2] at hex
  exact hex ("page", 0) (mem_singleton_self _) (mem_singleton_self _)

end RemoteFill
