import LMCacheAscend.Connector.RemotePull

/-!
# The order of the reads and the scatters

Each scatter has the read of its own proxy behind it, and no other read of the
buffer in between; no read of a buffer comes before what used the buffer is over
(`Sound`).  This is followed along the commands of a call with `Lib.known`, so
that it holds in every schedule of the device, whatever command raises
(`pulled_iff`).
-/

namespace RemotePull

open Lib List

/-! ## Places of reads and scatters -/

/-- A scatter of a proxy. -/
structure Scatter where
  item : Nat
  start : Nat
  stop : Nat
  buffer : Buffer
deriving DecidableEq, Repr

def reads : Command → List Transfer
  | .launch _ (.read transfers) => transfers
  | .call (.read transfers) => transfers
  | _ => []

def scatter? : Command → Option Scatter
  | .launch _ (.scatter item start stop buffer) => some ⟨item, start, stop, buffer⟩
  | _ => none

variable {x : Scatter} {j : Nat} {t : Transfer}

theorem reads_of_scatter {cmd : Command} (h : scatter? cmd = some x) :
    reads cmd = [] := by
  cases cmd with
  | launch s op =>
    cases op with
    | scatter => rfl
    | _ => cases h
  | _ => cases h

def ReadAt (p : List Command) (j : Nat) (t : Transfer) : Prop :=
  ∃ cmd, p[j]? = some cmd ∧ t ∈ reads cmd

def ScatterAt (p : List Command) (i : Nat) (x : Scatter) : Prop :=
  ∃ cmd, p[i]? = some cmd ∧ scatter? cmd = some x

/-- The transfer is of the remote object of a proxy. -/
structure Transfer.Of (t : Transfer) (x : ProxyItem) : Prop where
  item : t.item = x.idx
  receiverId : t.receiverId = x.proxy.targetPeerUrl
  bufferUuid : t.bufferUuid = x.proxy.remoteBufferUuid
  memIndex : t.memIndex = x.proxy.remoteMemIndex

theorem getElem?_snoc {p : List Command} {cmd d : Command} :
    (p ++ [cmd])[j]? = some d ↔ p[j]? = some d ∨ (j = p.length ∧ d = cmd) := by
  rcases Nat.lt_trichotomy j p.length with hj | rfl | hj
  · rw [getElem?_append_left hj]
    constructor
    · exact .inl
    · rintro (h | ⟨rfl, _⟩)
      · exact h
      · exact absurd hj (Nat.lt_irrefl _)
  · rw [getElem?_append_right (Nat.le_refl _), Nat.sub_self, getElem?_cons_zero,
      getElem?_eq_none (Nat.le_refl _)]
    constructor
    · intro h
      exact .inr ⟨rfl, (Option.some.inj h).symm⟩
    · rintro (h | ⟨_, rfl⟩)
      · cases h
      · rfl
  · rw [getElem?_eq_none (by rw [length_append, length_singleton]; omega),
      getElem?_eq_none (Nat.le_of_lt hj)]
    constructor
    · intro h
      cases h
    · rintro (h | ⟨rfl, _⟩)
      · cases h
      · exact absurd hj (Nat.lt_irrefl _)

theorem readAt_snoc {p : List Command} {cmd : Command} :
    ReadAt (p ++ [cmd]) j t ↔ ReadAt p j t ∨ (j = p.length ∧ t ∈ reads cmd) :=
  exists_getElem?_snoc

variable {i : Nat} {q : List Command}

theorem scatterAt_snoc {p : List Command} {cmd : Command} :
    ScatterAt (p ++ [cmd]) i x ↔ ScatterAt p i x ∨ (i = p.length ∧ scatter? cmd = some x) :=
  exists_getElem?_snoc

theorem ReadAt.lt {p : List Command} (h : ReadAt p j t) :
    j < p.length := by
  obtain ⟨cmd, hcmd, _⟩ := h
  exact lt_of_getElem? hcmd

theorem ScatterAt.lt {p : List Command} (h : ScatterAt p i x) : i < p.length := by
  obtain ⟨cmd, hcmd, _⟩ := h
  exact lt_of_getElem? hcmd

theorem ReadAt.of_append {p r : List Command} (h : ReadAt p j t) (hp : p = q ++ r)
    (hj : j < q.length) : ReadAt q j t := by
  obtain ⟨cmd, hcmd, ht⟩ := h
  rw [hp, getElem?_append_left hj] at hcmd
  exact ⟨cmd, hcmd, ht⟩

theorem ScatterAt.of_append {p r : List Command} (h : ScatterAt p i x) (hp : p = q ++ r)
    (hi : i < q.length) : ScatterAt q i x := by
  obtain ⟨cmd, hcmd, hx⟩ := h
  rw [hp, getElem?_append_left hi] at hcmd
  exact ⟨cmd, hcmd, hx⟩

theorem ReadAt.append (h : ReadAt q j t) (r : List Command) : ReadAt (q ++ r) j t := by
  obtain ⟨cmd, hcmd, ht⟩ := h
  exact ⟨cmd, by rw [getElem?_append_left (lt_of_getElem? hcmd), hcmd], ht⟩

theorem exists_split {p : List Command} {cmd : Command} (h : p[j]? = some cmd) :
    ∃ q r, p = q ++ cmd :: r ∧ q.length = j := by
  obtain ⟨hj, hget⟩ := List.getElem?_eq_some_iff.1 h
  refine ⟨p.take j, p.drop (j + 1), ?_, by rw [length_take]; omega⟩
  rw [← hget, ← drop_eq_getElem_cons hj, take_append_drop]

/-! ## The pull of a call -/

/-- The pull of a call: each proxy is scattered once, to its own tokens; what a scatter reads was
read for its proxy, from its remote object, with no other read of the buffer in between; and a
buffer is not read into before an earlier scatter from it is over. -/
structure Pulled (c : Call) (p : List Command) : Prop where
  once : (p.filterMap scatter?).map (fun x => (x.item, x.start, x.stop)) =
    (proxyItems c.items).map fun x => (x.idx, x.start, x.stop)
  own : ∀ (S : Schedule p) i x, ScatterAt p i x →
    ∃ j t y, ReadAt p j t ∧ y ∈ proxyItems c.items ∧ y.idx = x.item ∧ t.Of y ∧
      t.buffer = x.buffer ∧ S.finish j ≤ S.start i ∧
      ∀ j' t', ReadAt p j' t' → t'.buffer = x.buffer →
        (j' = j ∧ t' = t) ∨ S.finish j' ≤ S.start j ∨ S.finish i ≤ S.start j'
  reuse : ∀ (S : Schedule p) i x j t, i < j → ScatterAt p i x → ReadAt p j t →
    t.buffer = x.buffer → S.finish i ≤ S.start j

/-! ## The same, along the commands -/

/-- The command starts when the one at `n` is over. -/
def Before (p : List Command) (cmd : Command) (n : Nat) : Prop :=
  (known p).host n ∨ ∃ s, cmd.stream = some s ∧ (known p).stream s n

/-- The read whose bytes a scatter takes. -/
structure ReadFor (c : Call) (p : List Command) (item : ProxyItem) (buffer : Buffer) (j : Nat)
    (t : Transfer) : Prop where
  read : ReadAt p j t
  mem : item ∈ proxyItems c.items
  of : t.Of item
  into : t.buffer = buffer
  last : ∀ j' t', ReadAt p j' t' → t'.buffer = buffer → (j' = j ∧ t' = t) ∨ j' < j

/-- A read into buffers of its own, whose earlier users are over. -/
structure GoodRead (p : List Command) (cmd : Command) : Prop where
  apart : ∀ t ∈ reads cmd, ∀ t' ∈ reads cmd, t'.buffer = t.buffer → t' = t
  scatters : ∀ t ∈ reads cmd, ∀ i x, ScatterAt p i x → x.buffer = t.buffer → Before p cmd i
  reads : ∀ t ∈ reads cmd, ∀ j t', ReadAt p j t' → t'.buffer = t.buffer → Before p cmd j

structure Good (c : Call) (p : List Command) (cmd : Command) : Prop where
  scatter : ∀ x, scatter? cmd = some x →
    ∃ j t y, ReadFor c p y x.buffer j t ∧ y.idx = x.item ∧ Before p cmd j
  read : GoodRead p cmd

def Sound (c : Call) (p : List Command) : Prop :=
  ∀ q cmd r, p = q ++ cmd :: r → Good c q cmd

theorem Sound.snoc {c : Call} {p : List Command} (h : Sound c p) {cmd : Command}
    (hcmd : Good c p cmd) : Sound c (p ++ [cmd]) := by
  intro q d r heq
  rcases eq_nil_or_concat r with rfl | ⟨r', e, rfl⟩
  · obtain ⟨hp, hd⟩ := append_inj' heq rfl
    cases hd
    rw [← hp]
    exact hcmd
  · have hshape : p ++ [cmd] = (q ++ d :: r') ++ [e] := by
      rw [heq]
      simp
    obtain ⟨hp, _⟩ := append_inj' hshape rfl
    exact h q d r' hp

theorem good_of_other {c : Call} {p : List Command} {cmd : Command} (hreads : reads cmd = [])
    (hscatter : scatter? cmd = none) : Good c p cmd := by
  refine ⟨fun x hx => ?_, ⟨fun t ht => ?_, fun t ht => ?_, fun t ht => ?_⟩⟩
  · rw [hscatter] at hx
    cases hx
  all_goals
    rw [hreads] at ht
    cases ht

section

variable {c : Call} {p : List Command}

/-- A read waits, in every schedule, for the earlier scatters of its buffer. -/
theorem Sound.reuse (h : Sound c p) (S : Schedule p) {j : Nat} (hij : i < j)
    (hx : ScatterAt p i x) (ht : ReadAt p j t) (hbuf : t.buffer = x.buffer) :
    S.finish i ≤ S.start j := by
  obtain ⟨cmd, hcmd, hmem⟩ := ht
  obtain ⟨q, r, hp, rfl⟩ := exists_split hcmd
  exact S.sound hp ((h q cmd r hp).read.scatters t hmem i x (hx.of_append hp hij) hbuf.symm)

/-- A read waits, in every schedule, for the earlier reads into its buffer. -/
theorem Sound.reads_apart (h : Sound c p) (S : Schedule p) {j : Nat} {t t' : Transfer}
    (hij : i < j) (ht' : ReadAt p i t') (ht : ReadAt p j t) (hbuf : t'.buffer = t.buffer) :
    S.finish i ≤ S.start j := by
  obtain ⟨cmd, hcmd, hmem⟩ := ht
  obtain ⟨q, r, hp, rfl⟩ := exists_split hcmd
  exact S.sound hp ((h q cmd r hp).read.reads t hmem i t' (ht'.of_append hp hij) hbuf)

theorem Sound.own (h : Sound c p) (S : Schedule p) (hx : ScatterAt p i x) :
    ∃ j t y, ReadAt p j t ∧ y ∈ proxyItems c.items ∧ y.idx = x.item ∧ t.Of y ∧
      t.buffer = x.buffer ∧ S.finish j ≤ S.start i ∧
      ∀ j' t', ReadAt p j' t' → t'.buffer = x.buffer →
        (j' = j ∧ t' = t) ∨ S.finish j' ≤ S.start j ∨ S.finish i ≤ S.start j' := by
  obtain ⟨cmd, hcmd, hsc⟩ := id hx
  obtain ⟨q, r, hp, rfl⟩ := exists_split hcmd
  obtain ⟨j, t, y, hread, hitem, hbefore⟩ := (h q cmd r hp).scatter x hsc
  have ht : ReadAt p j t := hp ▸ hread.read.append (cmd :: r)
  refine ⟨j, t, y, ht, hread.mem, hitem, hread.of, hread.into, S.sound hp hbefore,
    fun j' t' ht' hbuf => ?_⟩
  rcases Nat.lt_trichotomy j' q.length with hj' | rfl | hj'
  · rcases hread.last j' t' (ht'.of_append hp hj') hbuf with hsame | hlt
    · exact .inl hsame
    · exact .inr (.inl (h.reads_apart S hlt ht' ht (hbuf.trans hread.into.symm)))
  · -- the scatter itself reads nothing
    obtain ⟨d, hd, hmem⟩ := ht'
    cases hcmd.symm.trans hd
    rw [reads_of_scatter hsc] at hmem
    cases hmem
  · exact .inr (.inr (h.reuse S hj' hx ht' hbuf))

end

/-! ## The condition -/

def SamePeer (batch : List ProxyItem) : Prop :=
  ∀ x ∈ batch, ∀ y ∈ batch, x.proxy.targetPeerUrl = y.proxy.targetPeerUrl

/-- The channel submits its reads, or two micro-batches hold all; each micro-batch has one peer. -/
def Ordered (c : Call) : Prop :=
  (c.channel = .submits ∨ c.microBatches.length ≤ 2) ∧ ∀ batch ∈ c.microBatches, SamePeer batch

/-! ## What is issued -/

/-- A read is in the queue of the transport stream, or the host has made it. -/
def Listed (channel : Channel) (p : List Command) (j : Nat) : Prop :=
  match channel with
  | .submits => (known p).stream .transport j
  | .synchronous => (known p).host j

theorem Listed.snoc {channel : Channel} {p : List Command} (h : Listed channel p j)
    (cmd : Command) : Listed channel (p ++ [cmd]) j := by
  unfold Listed at h ⊢
  rw [known_append]
  cases channel with
  | submits => exact Known.stream_add cmd h
  | synchronous => exact Known.host_add cmd h

/-- The reads and the scatters are in their queues, and, for an ordered call, each came when its
buffers were free. -/
structure Core (c : Call) (p : List Command) : Prop where
  sound : Ordered c → Sound c p
  reads : ∀ j t, ReadAt p j t → Listed c.channel p j
  scatters : ∀ i x, ScatterAt p i x → (known p).stream .load i

section

variable {c : Call} {p : List Command} {cmd : Command}

theorem Core.snoc (h : Core c p) (hgood : Ordered c → Good c p cmd)
    (hread : ∀ t ∈ RemotePull.reads cmd, Listed c.channel (p ++ [cmd]) p.length)
    (hscatter : ∀ x, scatter? cmd = some x → (known (p ++ [cmd])).stream .load p.length) :
    Core c (p ++ [cmd]) := by
  refine ⟨fun ho => (h.sound ho).snoc (hgood ho), fun j t ht => ?_, fun i x hx => ?_⟩
  · rcases readAt_snoc.1 ht with hold | ⟨rfl, hnew⟩
    · exact (h.reads j t hold).snoc cmd
    · exact hread t hnew
  · rcases scatterAt_snoc.1 hx with hold | ⟨rfl, hnew⟩
    · rw [known_append]
      exact Known.stream_add cmd (h.scatters i x hold)
    · exact hscatter x hnew

theorem Core.other (h : Core c p) (hreads : RemotePull.reads cmd = [])
    (hscatter : scatter? cmd = none) : Core c (p ++ [cmd]) := by
  refine h.snoc (fun _ => good_of_other hreads hscatter) (fun t ht => ?_) fun x hx => ?_
  · rw [hreads] at ht
    cases ht
  · rw [hscatter] at hx
    cases hx

/-- The reads that the load stream has not waited for are behind the given events. -/
def Waited (p : List Command) (events : List Event) : Prop :=
  ∀ j t, ReadAt p j t → (known p).stream .load j ∨ (known p).host j ∨
    ∃ e ∈ events, (known p).event e j

theorem Waited.other {events : List Event} (h : Waited p events) (hreads : reads cmd = [])
    (hrecord : ∀ e ∈ events, ∀ s, cmd ≠ .record e s) : Waited (p ++ [cmd]) events := by
  intro j t ht
  rw [known_append]
  rcases readAt_snoc.1 ht with hold | ⟨rfl, hnew⟩
  · rcases h j t hold with hw | hw | ⟨e, he, hw⟩
    · exact .inl (Known.stream_add cmd hw)
    · exact .inr (.inl (Known.host_add cmd hw))
    · exact .inr (.inr ⟨e, he, Known.event_add (hrecord e he) hw⟩)
  · rw [hreads] at hnew
    cases hnew

theorem Waited.wait {e : Event} {events : List Event} (h : Waited p (e :: events)) :
    Waited (p ++ [.wait .load e]) events := by
  intro j t ht
  rw [known_append]
  rcases readAt_snoc.1 ht with hold | ⟨rfl, hnew⟩
  · rcases h j t hold with hw | hw | ⟨f, hf, hw⟩
    · exact .inl (Known.stream_add _ hw)
    · exact .inr (.inl (Known.host_add _ hw))
    rcases mem_cons.1 hf with rfl | hf
    · exact .inl (Known.stream_wait hw)
    · exact .inr (.inr ⟨f, hf, Known.event_add (fun s => nofun) hw⟩)
  · cases hnew

theorem Core.waited (h : Core c p) (hchannel : c.channel = .synchronous) (events : List Event) :
    Waited p events := by
  intro j t ht
  have hlisted := h.reads j t ht
  rw [hchannel] at hlisted
  exact .inr (.inl hlisted)

end

/-! ## When a command raises -/

/-- The wait of the load stream for the last read. -/
def lastWait (c : Call) : Command := .wait .load (.read (c.microBatches.length - 1))

/-- Behind the command lists `reached`: with a channel that submits, a command raises only before
the first read is submitted or after the load stream was told to wait for the last one; and the
clean-up does not raise. -/
structure Tolerates (c : Call) (env : Env) (reached : List Command → Prop) : Prop where
  pipeline : c.channel = .submits → ∀ q cmd, reached q → env q cmd = .returns ∨
    ((∀ j t, ¬ ReadAt q j t) ∧ (reads cmd = [] ∨ env q cmd = .raisesBefore)) ∨ lastWait c ∈ q ∨
    (cmd = lastWait c ∧ env q cmd = .raisesAfter)
  sync : ∀ q, reached q → env q (.sync .load) = .returns
  release : ∀ q pool, reached q → env q (.call (.release pool)) = .returns

/-- The conditions on the answers, wherever a command is issued. -/
abbrev ToleratesAll (c : Call) (env : Env) : Prop := Tolerates c env fun _ => True

/-- What holds when a command has raised. -/
structure Err (c : Call) (env : Env) (p : List Command) : Prop where
  core : Core c p
  waited : ToleratesAll c env → Waited p []
  raises : ∃ q cmd, env q cmd ≠ .returns

section

variable {c : Call} {env : Env} {cmd : Command} {s : Pull}

theorem waited_of_no_read {p : List Command} (h : ∀ j t, ¬ ReadAt p j t) : Waited p [] :=
  fun j t ht => absurd ht (h j t)

theorem wp_emit_err {Q : Pull → Prop} (hcore : Core c s.trace)
    (hcore' : Core c (s.trace ++ [cmd]))
    (hsafe : lastWait c ∉ s.trace ∨ (Waited s.trace [] ∧ reads cmd = []))
    (hfinal : cmd = lastWait c → Waited (s.trace ++ [cmd]) []) (hok : Q (s.push cmd)) :
    wp (emit env cmd) (post (fun _ s' => Q s') fun _ s' => Err c env s'.trace) s := by
  have hsync : ∀ {p}, Core c p → c.channel ≠ .submits → Waited p [] := by
    intro p hp hchannel
    refine hp.waited ?_ []
    cases h : c.channel with
    | submits => exact absurd h hchannel
    | synchronous => rfl
  have hnone : ToleratesAll c env → c.channel = .submits → env s.trace cmd ≠ .returns →
      lastWait c ∉ s.trace →
      ((∀ j t, ¬ ReadAt s.trace j t) ∧ (reads cmd = [] ∨ env s.trace cmd = .raisesBefore)) ∨
        (cmd = lastWait c ∧ env s.trace cmd = .raisesAfter) := by
    intro htol hchannel hraise hlast
    rcases htol.pipeline hchannel s.trace cmd trivial with h | h | h | h
    · exact absurd h hraise
    · exact .inl h
    · exact absurd h hlast
    · exact .inr h
  have hbefore : env s.trace cmd = .raisesBefore → ToleratesAll c env → Waited s.trace [] := by
    intro hraise htol
    by_cases hchannel : c.channel = .submits
    · rcases hsafe with hlast | hw
      · have hne : env s.trace cmd ≠ .returns := by rw [hraise]; exact nofun
        rcases hnone htol hchannel hne hlast with ⟨hno, _⟩ | ⟨_, hafter⟩
        · exact waited_of_no_read hno
        · rw [hraise] at hafter
          cases hafter
      · exact hw.1
    · exact hsync hcore hchannel
  have hafter : env s.trace cmd = .raisesAfter → ToleratesAll c env →
      Waited (s.trace ++ [cmd]) [] := by
    intro hraise htol
    by_cases hchannel : c.channel = .submits
    · rcases hsafe with hlast | hw
      · have hne : env s.trace cmd ≠ .returns := by rw [hraise]; exact nofun
        rcases hnone htol hchannel hne hlast with ⟨hno, hreads⟩ | ⟨heq, _⟩
        · refine (waited_of_no_read hno).other ?_ fun e he => nomatch he
          rcases hreads with hreads | hreads
          · exact hreads
          · rw [hraise] at hreads
            cases hreads
        · exact hfinal heq
      · exact hw.1.other hw.2 fun e he => nomatch he
    · exact hsync hcore' hchannel
  refine wp_emit hok (fun hraise => ⟨hcore, hbefore hraise, s.trace, cmd, ?_⟩) fun hraise =>
    ⟨hcore', hafter hraise, s.trace, cmd, ?_⟩
  all_goals
    rw [hraise]
    exact nofun

end

end RemotePull
