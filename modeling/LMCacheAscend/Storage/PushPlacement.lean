import LMCacheAscend.Storage.PushMode

/-!
# Where a pushed object is written, and when its key is reported

The sender leaves out the indexes that it was told and counts the others off
against the pages of the answer; the receiver allocates one page for each index
that it did not tell (`toSend_spec`, `chunks_layout`).  In every run whose
lookups are of keys with no write to come, each object is written to the page
stored under its key, with its own layout, and only written pages are reported
(`push_placed`).  The page is stored before it is written, so a request that
comes in between is told of an unwritten one (`reported_unwritten`).
-/

namespace PushMode

open Lib List Dict

/-! ## The layout of each page -/

theorem chunks_length (full : Meta) (lastToks : Nat) (payloads : List Bytes) :
    (chunks full lastToks payloads).length = payloads.length := by
  unfold chunks
  rw [length_mapIdx]

theorem getElem?_chunks (full : Meta) (lastToks : Nat) (payloads : List Bytes) (i : Nat) :
    (chunks full lastToks payloads)[i]? = payloads[i]?.map fun bytes =>
      ⟨if i + 1 = payloads.length then full.withTokens lastToks else full, bytes⟩ := by
  unfold chunks
  rw [getElem?_mapIdx]

theorem withTokens_withTokens (m : Meta) (toks : Nat) :
    (m.withTokens toks).withTokens toks = m.withTokens toks := by
  unfold Meta.withTokens
  simp only [set_set]

theorem shape_withTokens {m : Meta} {toks n : Nat}
    (h : (m.withTokens toks).shape[m.fmt.tokenDim]? = some n) : n = toks := by
  unfold Meta.withTokens at h
  simp only [getElem?_set_self'] at h
  cases hd : m.shape[m.fmt.tokenDim]? with
  | none =>
    rw [hd] at h
    cases h
  | some k =>
    rw [hd] at h
    cases h
    rfl

/-- What the receiver allocates has the layout of the object that the sender has. -/
theorem chunks_layout {keys : List Key} {full : Meta} {lastToks : Nat} {payloads : List Bytes}
    {req : AllocRequest} (hlen : keys.length = payloads.length)
    (hreq : req.Describes keys (chunks full lastToks payloads)) :
    ∀ i o, (chunks full lastToks payloads)[i]? = some o → req.layout i = o.layout := by
  obtain ⟨first, hfirst, hlayout⟩ := hreq.first
  obtain ⟨last, hlast, hn⟩ := hreq.last
  rw [head?_eq_getElem?, getElem?_chunks] at hfirst
  rw [getLast?_eq_getElem?, chunks_length, getElem?_chunks] at hlast
  obtain ⟨b, hb, rfl⟩ := Option.map_eq_some_iff.1 hfirst
  obtain ⟨b', _, rfl⟩ := Option.map_eq_some_iff.1 hlast
  have hpos : 0 < payloads.length := lt_of_getElem? hb
  have hend : payloads.length - 1 + 1 = payloads.length := by omega
  simp only [hend, if_true] at hn
  intro i o ho
  rw [getElem?_chunks] at ho
  obtain ⟨bytes, hbytes, rfl⟩ := Option.map_eq_some_iff.1 ho
  have hkeys : req.keys.length = payloads.length := by rw [hreq.keys, hlen]
  unfold AllocRequest.layout adjustLastChunkShape
  rw [hkeys]
  by_cases hone : 0 + 1 = payloads.length
  · -- one object: it is the first and the last
    have hi : i = 0 := by
      have hlt := lt_of_getElem? hbytes
      omega
    subst hi
    simp only [if_pos hone] at hlayout
    have hfmt : req.fmt = full.fmt := (congrArg Meta.fmt hlayout).symm
    rw [hfmt] at hn
    have hset := withTokens_withTokens full lastToks
    simp only [if_pos hone, shape_withTokens hn]
    rw [hlayout] at hset ⊢
    exact hset
  · simp only [if_neg hone] at hlayout
    subst hlayout
    simp only [shape_withTokens hn]
    by_cases hi : i + 1 = payloads.length
    · rw [if_pos hi, if_pos hi]
      rfl
    · rw [if_neg hi, if_neg hi]

/-! ## The page of each object -/

theorem toSend_spec (alreadySent : List Nat) (items : List (Key × MemoryObj)) :
    ∀ (j : Nat) (pre : List Page) (slots : List Slot),
      slots.map (·.idx) = (range' j items.length).filter (· ∉ alreadySent) →
      ∃ sends, toSend alreadySent (pre ++ slots.map (·.page)) items j pre.length = some sends ∧
        sends.map (·.idx) = slots.map (·.idx) ∧
        ∀ x ∈ sends, (∃ slot ∈ slots, slot.idx = x.idx ∧ slot.page = x.page) ∧
          j ≤ x.idx ∧ items[x.idx - j]? = some (x.key, x.obj) := by
  induction items with
  | nil =>
    intro j pre slots hslots
    have hnil : slots = [] := map_eq_nil_iff.1 hslots
    subst hnil
    exact ⟨[], rfl, rfl, fun x hx => nomatch hx⟩
  | cons item items ih =>
    intro j pre slots hslots
    obtain ⟨key, obj⟩ := item
    rw [length_cons, range'_succ] at hslots
    unfold toSend
    by_cases hj : j ∈ alreadySent
    · rw [filter_cons_of_neg (by simpa using hj)] at hslots
      obtain ⟨sends, hsends, hidx, hall⟩ := ih (j + 1) pre slots hslots
      refine ⟨sends, ?_, hidx, fun x hx => ?_⟩
      · rw [if_pos hj, hsends]
      · obtain ⟨hslot, hle, hitem⟩ := hall x hx
        refine ⟨hslot, by omega, ?_⟩
        rw [show x.idx - j = x.idx - (j + 1) + 1 by omega, getElem?_cons_succ]
        exact hitem
    · rw [filter_cons_of_pos (by simpa using hj)] at hslots
      cases slots with
      | nil => cases hslots
      | cons slot slots =>
        rw [map_cons, cons.injEq] at hslots
        obtain ⟨sends, hsends, hidx, hall⟩ := ih (j + 1) (pre ++ [slot.page]) slots hslots.2
        have hpage : (pre ++ (slot :: slots).map (·.page))[pre.length]? = some slot.page := by
          rw [map_cons, getElem?_append_right (Nat.le_refl _), Nat.sub_self,
            getElem?_cons_zero]
        have hremote : pre ++ (slot :: slots).map (·.page) =
            (pre ++ [slot.page]) ++ slots.map (·.page) := by
          rw [map_cons, append_assoc, singleton_append]
        rw [length_append, length_singleton] at hsends
        refine ⟨⟨j, key, obj, slot.page⟩ :: sends, ?_, ?_, fun x hx => ?_⟩
        · rw [if_neg hj, hpage, hremote, Option.bind_eq_bind, Option.bind_some, hsends]
          rfl
        · rw [map_cons, map_cons, hidx, hslots.1]
        · rcases mem_cons.1 hx with rfl | hx
          · refine ⟨⟨slot, mem_cons_self, hslots.1, rfl⟩, Nat.le_refl _, ?_⟩
            rw [Nat.sub_self, getElem?_cons_zero]
          obtain ⟨⟨slot', hmem, heq⟩, hle, hitem⟩ := hall x hx
          refine ⟨⟨slot', mem_cons_of_mem _ hmem, heq⟩, by omega, ?_⟩
          rw [show x.idx - j = x.idx - (j + 1) + 1 by omega, getElem?_cons_succ]
          exact hitem

/-! ## What every run keeps -/

/-- The request being answered: the indexes looked up, told and found new, and the pages stored so
far. -/
structure CallOk (s : System) (c : Call) : Prop where
  lengths : c.req.keys.length = c.objs.length
  nodup : c.req.keys.Nodup
  layout : ∀ i o, c.objs[i]? = some o → c.req.layout i = o.layout
  sent_lt : ∀ i ∈ c.alreadySent, i < c.next
  news : c.newIndexes = (range c.next).filter (· ∉ c.alreadySent)
  looked : c.allocated ≠ [] → c.next = c.req.keys.length
  slots : c.allocated.map (·.idx) = c.newIndexes.take c.allocated.length
  keys : ∀ slot ∈ c.allocated, c.req.keys[slot.idx]? = some slot.key
  stored : ∀ slot ∈ c.allocated, s.data.get? slot.key = some ⟨slot.page, c.req.layout slot.idx⟩
  fresh : ∀ idx ∈ c.newIndexes.drop c.allocated.length, ∀ key, c.req.keys[idx]? = some key →
    s.data.get? key = none
  apart : ∀ slot ∈ c.allocated, ∀ t ∈ s.transfers, ∀ x ∈ t.todo, x.key ≠ slot.key

/-- A batched write: what is left to write goes to what is stored, and with what is written it is
every object not already sent. -/
structure TransferOk (s : System) (t : Transfer) : Prop where
  todo : ∀ x ∈ t.todo, t.keys[x.idx]? = some x.key ∧ t.objs[x.idx]? = some x.obj ∧
    s.data.get? x.key = some ⟨x.page, x.obj.layout⟩
  written : ∀ w ∈ t.written, t.keys[w.send.idx]? = some w.send.key ∧
    t.objs[w.send.idx]? = some w.send.obj ∧ w.stored = some ⟨w.send.page, w.send.obj.layout⟩
  all : (t.written.map (·.send.idx) ++ t.todo.map (·.idx)).Perm
    ((range t.objs.length).filter (· ∉ t.alreadySent))

/-- No page is stored twice; a stored key has no write to come or a written page. -/
structure Inv (s : System) : Prop where
  pages : ∀ k k' e e', s.data.get? k = some e → s.data.get? k' = some e' → e.page = e'.page → k = k'
  call : ∀ c, s.call = some c → CallOk s c
  transfers : ∀ t ∈ s.transfers, TransferOk s t
  settled : ∀ k e, s.data.get? k = some e → k ∉ s.unwritten →
    ∃ bytes, s.mem.get? e.page = some (k, bytes)
  reports : ∀ r ∈ s.reports, r.Written

theorem mem_awaiting {s : System} {k : Key} : k ∈ s.awaiting ↔
    (∃ c, s.call = some c ∧ ∃ slot ∈ c.allocated, slot.key = k) ∨
      ∃ t ∈ s.transfers, ∃ x ∈ t.todo, x.key = k := by
  unfold System.awaiting
  rw [mem_append, mem_flatMap]
  simp only [mem_map]
  cases s.call with
  | none | some => simp

theorem mem_unwritten {s : System} {k : Key} : k ∈ s.unwritten ↔
    (∃ c, s.call = some c ∧ ∃ slot ∈ c.allocated, slot.key = k) ∨
      (∃ t ∈ s.transfers, ∃ x ∈ t.todo, x.key = k) ∨ k ∈ s.orphans := by
  unfold System.unwritten
  rw [mem_append, mem_awaiting, or_assoc]

theorem TransferOk.keep {s s' : System} {t : Transfer} (h : TransferOk s t)
    (hkeep : ∀ x ∈ t.todo, ∀ e, s.data.get? x.key = some e → s'.data.get? x.key = some e) :
    TransferOk s' t :=
  ⟨fun x hx => ⟨(h.todo x hx).1, (h.todo x hx).2.1, hkeep x hx _ (h.todo x hx).2.2⟩, h.written,
    h.all⟩

theorem Inv.init : Inv System.init where
  pages _ _ _ _ h := nomatch h
  call _ h := nomatch h
  transfers _ ht := nomatch ht
  settled _ _ h := nomatch h
  reports _ hr := nomatch hr

/-! ## The steps of the receiver -/

variable {s s' : System}

theorem Inv.request {getRemoteAllocRequest : GetRequest}
    (hdescribes : ∀ keys objs req, getRemoteAllocRequest keys objs = some req →
      req.Describes keys objs)
    (h : Inv s) {keys : List Key} {full : Meta} {lastToks : Nat}
    {payloads : List Bytes} (hnodup : keys.Nodup)
    (hstep : s.request getRemoteAllocRequest keys full lastToks payloads = some s') : Inv s' := by
  unfold System.request at hstep
  split at hstep
  · cases hstep
  · next hcall =>
    split at hstep
    · next hlen =>
      obtain ⟨req, hreq, hmade⟩ := Option.bind_eq_some_iff.1 hstep
      cases hmade
      have hreq := hdescribes _ _ _ hreq
      have hkeys := hreq.keys
      refine ⟨h.pages, fun c hc => ?_, fun t ht => ?_, fun k e he hk => ?_, h.reports⟩
      · cases hc
        exact
          { lengths := by rw [hkeys, chunks_length, hlen]
            nodup := by rw [hkeys]; exact hnodup
            layout := chunks_layout hlen hreq
            sent_lt := fun i hi => nomatch hi
            news := rfl
            looked := fun hne => absurd rfl hne
            slots := rfl
            keys := fun slot hslot => nomatch hslot
            stored := fun slot hslot => nomatch hslot
            fresh := fun idx hidx => nomatch hidx
            apart := fun slot hslot => nomatch hslot }
      · exact { h.transfers t ht with }
      · refine h.settled k e he fun hk' => hk ?_
        unfold System.unwritten System.awaiting at hk' ⊢
        rw [hcall] at hk'
        exact hk'
    · cases hstep

theorem Inv.looked {s : System} (h : Inv s) {c : Call} (c' : Call) (hc : s.call = some c)
    (hc' : CallOk s c') (halloc : c'.allocated = c.allocated) {reports : List Report}
    (hreports : ∀ r ∈ reports, r.Written) :
    Inv { s with call := some c', reports := reports } := by
  refine ⟨h.pages, fun d hd => ?_, fun t ht => ?_, fun k e he hk => ?_, hreports⟩
  · cases hd
    exact { hc' with }
  · exact { h.transfers t ht with }
  · refine h.settled k e he fun hk' => hk ?_
    unfold System.unwritten System.awaiting at hk' ⊢
    rw [hc] at hk'
    simp only [Option.elim_some, halloc] at hk' ⊢
    exact hk'

theorem filter_range_told (n : Nat) (told : List Nat) :
    (range (n + 1)).filter (· ∉ told ++ [n]) = (range n).filter (· ∉ told) := by
  rw [range_succ, filter_append, filter_cons_of_neg (by simp), filter_nil,
    append_nil]
  refine filter_congr fun i hi => ?_
  have hne : i ≠ n := Nat.ne_of_lt (mem_range.1 hi)
  simp only [mem_append, mem_singleton, hne, or_false]

theorem filter_range_new {n : Nat} {told : List Nat} (h : ∀ i ∈ told, i < n) :
    (range (n + 1)).filter (· ∉ told) = (range n).filter (· ∉ told) ++ [n] := by
  have hn : n ∉ told := fun hn => Nat.lt_irrefl n (h n hn)
  rw [range_succ, filter_append, filter_cons_of_pos (by simpa using hn),
    filter_nil]

theorem Inv.lookup (h : Inv s) (hnext : ∀ key ∈ s.nextKey, key ∉ s.unwritten)
    (hstep : s.lookup = some s') : Inv s' := by
  unfold System.lookup at hstep
  obtain ⟨c, hc, hrest⟩ := Option.bind_eq_some_iff.1 hstep
  obtain ⟨key, hkey, hmade⟩ := Option.bind_eq_some_iff.1 hrest
  have hok := h.call c hc
  have hlt : c.next < c.req.keys.length := lt_of_getElem? hkey
  have hnone : c.allocated = [] := by
    by_contra hne
    exact absurd (hok.looked hne) (Nat.ne_of_lt hlt)
  have hunwritten : key ∉ s.unwritten := by
    refine hnext key ?_
    unfold System.nextKey
    rw [hc]
    exact hkey
  split at hmade
  · next e he =>
    cases hmade
    refine h.looked { c with next := c.next + 1, alreadySent := c.alreadySent ++ [c.next] } hc
      { hok with
        sent_lt := fun i hi => ?_
        news := hok.news.trans (filter_range_told _ _).symm
        looked := fun hne => absurd hnone hne } rfl fun r hr => ?_
    · rcases mem_append.1 hi with hi | hi
      · exact Nat.lt_succ_of_lt (hok.sent_lt i hi)
      · rw [mem_singleton.1 hi]
        exact Nat.lt_succ_self _
    · rcases mem_append.1 hr with hr | hr
      · exact h.reports r hr
      · rw [mem_singleton.1 hr]
        exact h.settled key e he hunwritten
  · next he =>
    cases hmade
    refine h.looked { c with next := c.next + 1, newIndexes := c.newIndexes ++ [c.next] } hc
      { hok with
        sent_lt := fun i hi => Nat.lt_succ_of_lt (hok.sent_lt i hi)
        news := (congrArg (· ++ [c.next]) hok.news).trans (filter_range_new hok.sent_lt).symm
        looked := fun hne => absurd hnone hne
        slots := ?_
        fresh := fun idx hidx k hk => ?_ } rfl h.reports
    · simp only [hnone, map_nil, length_nil, take_zero]
    · simp only [hnone, length_nil, drop_zero] at hidx
      rcases mem_append.1 hidx with hidx | hidx
      · refine hok.fresh idx ?_ k hk
        rw [hnone]
        exact hidx
      · rw [mem_singleton.1 hidx] at hk
        cases hkey.symm.trans hk
        exact he

theorem mem_pages {d : Dict Key Stored} {k : Key} {e : Stored} (h : d.get? k = some e) :
    e.page ∈ d.entries.map (·.2.page) :=
  mem_map.2 ⟨(k, e), mem_entries.2 h, rfl⟩

/-- The receiver stores a page under a key before its write. -/
theorem Inv.allocate (h : Inv s) {page : Page} (hstep : s.allocate page = some s') : Inv s' := by
  unfold System.allocate at hstep
  obtain ⟨c, hc, hrest⟩ := Option.bind_eq_some_iff.1 hstep
  obtain ⟨idx, hidx, hrest'⟩ := Option.bind_eq_some_iff.1 hrest
  obtain ⟨key, hkey, hmade⟩ := Option.bind_eq_some_iff.1 hrest'
  have hok := h.call c hc
  split at hmade
  · next hguard =>
    obtain ⟨hnext, hpage⟩ := hguard
    cases hmade
    obtain ⟨hlt, hget⟩ := List.getElem?_eq_some_iff.1 hidx
    have hdrop : c.newIndexes.drop c.allocated.length =
        idx :: c.newIndexes.drop (c.allocated.length + 1) := by
      rw [drop_eq_getElem_cons hlt, hget]
    have hnew : s.data.get? key = none :=
      hok.fresh idx (hdrop ▸ mem_cons_self) key hkey
    have hold : ∀ {k e}, s.data.get? k = some e → k ≠ key := by
      rintro k e he rfl
      cases hnew.symm.trans he
    have hother : ∀ {k e}, s.data.get? k = some e → e.page ≠ page := by
      rintro k e he rfl
      exact hpage (mem_pages he)
    have hnodup : c.newIndexes.Nodup := by
      rw [hok.news]
      exact nodup_range.filter _
    refine ⟨fun k k' e e' he he' heq => ?_, fun d hd => ?_, fun t ht => ?_, fun k e he hk => ?_,
      h.reports⟩
    · rw [get?_set] at he he'
      split at he
      · next hk =>
        split at he'
        · next hk' => rw [hk, hk']
        · cases he
          exact absurd heq.symm (hother he')
      · split at he'
        · cases he'
          exact absurd heq (hother he)
        · exact h.pages k k' e e' he he' heq
    · cases hd
      exact
        { hok with
          looked := fun _ => hnext
          slots := by
            rw [map_append, hok.slots, length_append, length_singleton,
              take_add_one, hidx]
            rfl
          keys := fun slot hslot => by
            rcases mem_append.1 hslot with hslot | hslot
            · exact hok.keys slot hslot
            · rw [mem_singleton.1 hslot]
              exact hkey
          stored := fun slot hslot => by
            rcases mem_append.1 hslot with hslot | hslot
            · have hs := hok.stored slot hslot
              rw [get?_set_ne (hold hs)]
              exact hs
            · rw [mem_singleton.1 hslot, get?_set_self]
          fresh := fun i hi k hk => by
            rw [length_append, length_singleton] at hi
            have hi' : i ∈ c.newIndexes.drop c.allocated.length := by
              rw [hdrop]
              exact mem_cons_of_mem _ hi
            have hne : k ≠ key := by
              rintro rfl
              have heq : i = idx := by
                obtain ⟨hi1, hi2⟩ := List.getElem?_eq_some_iff.1 hk
                obtain ⟨hx1, hx2⟩ := List.getElem?_eq_some_iff.1 hkey
                exact (hok.nodup.getElem_inj_iff).1 (hi2.trans hx2.symm)
              have hcons : (idx :: c.newIndexes.drop (c.allocated.length + 1)).Nodup :=
                hdrop ▸ hnodup.sublist (drop_sublist _ _)
              exact (nodup_cons.1 hcons).1 (heq ▸ hi)
            rw [get?_set_ne hne]
            exact hok.fresh i hi' k hk
          apart := fun slot hslot t ht x hx => by
            rcases mem_append.1 hslot with hslot | hslot
            · exact hok.apart slot hslot t ht x hx
            · rw [mem_singleton.1 hslot]
              exact hold ((h.transfers t ht).todo x hx).2.2 }
    · exact (h.transfers t ht).keep fun x _ e hs => (get?_set_ne (hold hs)).trans hs
    · by_cases hke : k = key
      · refine absurd (mem_unwritten.2 (.inl ⟨_, rfl, ?_⟩)) hk
        exact ⟨_, mem_append_right _ (mem_singleton_self _), hke.symm⟩
      rw [get?_set_ne hke] at he
      show ∃ bytes, (s.mem.pop page).get? e.page = some (k, bytes)
      rw [get?_pop, if_neg (hother he)]
      refine h.settled k e he fun hk' => hk ?_
      refine mem_unwritten.2 ((mem_unwritten.1 hk').imp ?_ id)
      rintro ⟨d, hd, slot, hslot, heq⟩
      cases hc.symm.trans hd
      exact ⟨_, rfl, slot, mem_append_left _ hslot, heq⟩
  · cases hmade

theorem get?_popSlots (slots : List Slot) (d : Dict Key Stored) (k : Key) :
    (slots.foldl (fun d slot => d.pop slot.key) d).get? k =
      if k ∈ slots.map (·.key) then none else d.get? k := by
  induction slots generalizing d with
  | nil => rfl
  | cons slot slots ih =>
    rw [foldl_cons, ih, map_cons, get?_pop]
    by_cases hk : k = slot.key <;> simp [hk]

theorem Inv.allocFailed (h : Inv s) (hstep : s.allocFailed = some s') : Inv s' := by
  unfold System.allocFailed at hstep
  obtain ⟨c, hc, hmade⟩ := Option.bind_eq_some_iff.1 hstep
  have hok := h.call c hc
  split at hmade
  · cases hmade
    have hget : ∀ {k e}, (c.allocated.foldl (fun d slot => d.pop slot.key) s.data).get? k = some e →
        k ∉ c.allocated.map (·.key) ∧ s.data.get? k = some e := by
      intro k e he
      rw [get?_popSlots] at he
      split at he
      · cases he
      · next hk => exact ⟨hk, he⟩
    refine ⟨fun k k' e e' he he' heq => ?_, by simp, fun t ht => ?_,
      fun k e he hk => ?_, h.reports⟩
    · exact h.pages k k' e e' (hget he).2 (hget he').2 heq
    · refine (h.transfers t ht).keep fun x hx e hs => ?_
      have hout : x.key ∉ c.allocated.map (·.key) := by
        intro hmem
        obtain ⟨slot, hslot, heq⟩ := mem_map.1 hmem
        exact hok.apart slot hslot t ht x hx heq.symm
      show (c.allocated.foldl (fun d slot => d.pop slot.key) s.data).get? x.key = _
      rw [get?_popSlots, if_neg hout]
      exact hs
    · obtain ⟨hout, he⟩ := hget he
      refine h.settled k e he fun hk' => hk ?_
      rcases mem_unwritten.1 hk' with ⟨d, hd, slot, hslot, heq⟩ | hk'
      · cases hc.symm.trans hd
        exact absurd (mem_map.2 ⟨slot, hslot, heq⟩) hout
      · exact mem_unwritten.2 (.inr hk')
  · cases hmade

theorem Inv.handlerRaises (h : Inv s) (hstep : s.handlerRaises = some s') :
    Inv s' := by
  unfold System.handlerRaises at hstep
  obtain ⟨c, hc, hmade⟩ := Option.bind_eq_some_iff.1 hstep
  cases hmade
  refine ⟨h.pages, fun d hd => (nomatch hd), fun t ht => ?_, fun k e he hk => ?_, h.reports⟩
  · exact { h.transfers t ht with }
  · refine h.settled k e he fun hk' => hk ?_
    refine mem_unwritten.2 (.inr ?_)
    rcases mem_unwritten.1 hk' with ⟨d, hd, slot, hslot, heq⟩ | hk'
    · cases hc.symm.trans hd
      exact .inr (mem_append_right _ (mem_map.2 ⟨slot, hslot, heq⟩))
    · exact hk'.imp id (mem_append_left _)

theorem CallOk.transfer {s : System} {c : Call} (hok : CallOk s c)
    (hnext : c.next = c.req.keys.length) (hlen : c.allocated.length = c.newIndexes.length)
    {todo : List Send}
    (htodo : toSend c.alreadySent (c.allocated.map (·.page)) (c.req.keys.zip c.objs) 0 0 =
      some todo) :
    TransferOk s ⟨c.req.keys, c.objs, c.alreadySent, todo, []⟩ ∧
      ∀ slot ∈ c.allocated, ∃ x ∈ todo, x.key = slot.key := by
  have hslots : c.allocated.map (·.idx) =
      (range' 0 (c.req.keys.zip c.objs).length).filter (· ∉ c.alreadySent) := by
    rw [hok.slots, hlen, take_length, hok.news, hnext, length_zip, ← hok.lengths,
      Nat.min_self, range_eq_range']
  obtain ⟨sends, hsends, hidx, hall⟩ :=
    toSend_spec c.alreadySent (c.req.keys.zip c.objs) 0 [] c.allocated hslots
  cases htodo.symm.trans hsends
  have hitem : ∀ x ∈ todo, c.req.keys[x.idx]? = some x.key ∧ c.objs[x.idx]? = some x.obj :=
    fun x hx => getElem?_zip_eq_some.1 (hall x hx).2.2
  have hkey : ∀ slot ∈ c.allocated, ∀ x ∈ todo, slot.idx = x.idx → x.key = slot.key := by
    intro slot hslot x hx heq
    have h := hok.keys slot hslot
    rw [heq, (hitem x hx).1] at h
    exact Option.some.inj h
  refine ⟨⟨fun x hx => ?_, fun w hw => (nomatch hw), ?_⟩, fun slot hslot => ?_⟩
  · obtain ⟨slot, hslot, heq, hpage⟩ := (hall x hx).1
    refine ⟨(hitem x hx).1, (hitem x hx).2, ?_⟩
    rw [hkey slot hslot x hx heq, hok.stored slot hslot, hpage, heq,
      hok.layout x.idx x.obj (hitem x hx).2]
  · show (todo.map (·.idx)).Perm _
    rw [hidx, hslots, length_zip, ← hok.lengths, Nat.min_self, ← range_eq_range']
  · have hmem : slot.idx ∈ todo.map (·.idx) := by
      rw [hidx]
      exact mem_map.2 ⟨slot, hslot, rfl⟩
    obtain ⟨x, hx, heq⟩ := mem_map.1 hmem
    exact ⟨x, hx, hkey slot hslot x hx heq.symm⟩

theorem Inv.reply (h : Inv s) (hstep : s.reply = some s') : Inv s' := by
  unfold System.reply at hstep
  obtain ⟨c, hc, hmade⟩ := Option.bind_eq_some_iff.1 hstep
  split at hmade
  · next hguard =>
    obtain ⟨todo, htodo, hmade⟩ := Option.bind_eq_some_iff.1 hmade
    cases hmade
    obtain ⟨hnew, hkeys⟩ := (h.call c hc).transfer hguard.1 hguard.2 htodo
    refine ⟨h.pages, fun d hd => (nomatch hd), fun t ht => ?_, fun k e he hk => ?_, h.reports⟩
    · have hok : TransferOk s t := by
        rcases mem_append.1 ht with ht | ht
        · exact h.transfers t ht
        · rw [mem_singleton.1 ht]
          exact hnew
      exact ⟨hok.todo, hok.written, hok.all⟩
    · refine h.settled k e he fun hk' => hk ?_
      refine mem_unwritten.2 (.inr ?_)
      rcases mem_unwritten.1 hk' with ⟨d, hd, slot, hslot, heq⟩ | ⟨t, ht, hx⟩ | hk'
      · cases hc.symm.trans hd
        obtain ⟨x, hx, hxk⟩ := hkeys slot hslot
        exact .inl ⟨_, mem_append_right _ (mem_singleton_self _), x, hx, hxk.trans heq⟩
      · exact .inl ⟨t, mem_append_left _ ht, hx⟩
      · exact .inr hk'
  · cases hmade

/-! ## The writes and the removals -/

theorem Inv.write (h : Inv s) {t n : Nat} (hstep : s.write t n = some s') :
    Inv s' := by
  unfold System.write at hstep
  obtain ⟨transfer, ht, hrest⟩ := Option.bind_eq_some_iff.1 hstep
  obtain ⟨send, hsend, hmade⟩ := Option.bind_eq_some_iff.1 hrest
  cases hmade
  have hmem : transfer ∈ s.transfers := mem_of_getElem? ht
  have hin : send ∈ transfer.todo := mem_of_getElem? hsend
  obtain ⟨htodo, hwritten, hall⟩ := h.transfers transfer hmem
  obtain ⟨hkey, hobj, hstored⟩ := htodo send hin
  have hperm : transfer.todo.Perm (send :: transfer.todo.eraseIdx n) := by
    obtain ⟨hlt, hget⟩ := List.getElem?_eq_some_iff.1 hsend
    have hp := getElem_cons_eraseIdx_perm hlt
    rw [hget] at hp
    exact hp.symm
  have hrest : ∀ x ∈ transfer.todo.eraseIdx n, x ∈ transfer.todo :=
    fun x hx => hperm.mem_iff.2 (mem_cons_of_mem _ hx)
  refine ⟨h.pages, fun c hc => ?_, fun u hu => ?_, fun k e he hk => ?_, h.reports⟩
  · have hok := h.call c hc
    refine { hok with apart := fun slot hslot u hu x hx => ?_ }
    rcases mem_or_eq_of_mem_set hu with hu | rfl
    · exact hok.apart slot hslot u hu x hx
    · exact hok.apart slot hslot transfer hmem x (hrest x hx)
  · rcases mem_or_eq_of_mem_set hu with hu | rfl
    · exact { h.transfers u hu with }
    refine ⟨fun x hx => htodo x (hrest x hx), fun w hw => ?_, ?_⟩
    · rcases mem_append.1 hw with hw | hw
      · exact hwritten w hw
      · rw [mem_singleton.1 hw]
        exact ⟨hkey, hobj, hstored⟩
    · refine List.Perm.trans ?_ hall
      rw [map_append, append_assoc]
      exact (hperm.map (·.idx)).symm.append_left _
  · show ∃ bytes, (s.mem.set send.page (send.key, send.obj.bytes)).get? e.page = some (k, bytes)
    by_cases hke : k = send.key
    · subst hke
      cases hstored.symm.trans he
      exact ⟨_, get?_set_self _ _ _⟩
    have hpage : e.page ≠ send.page := fun heq => hke (h.pages k send.key e _ he hstored heq)
    rw [get?_set_ne hpage]
    refine h.settled k e he fun hk' => hk ?_
    refine mem_unwritten.2 ((mem_unwritten.1 hk').imp id (Or.imp ?_ id))
    rintro ⟨u, hu, x, hx, hxk⟩
    by_cases hsame : u = transfer
    · subst hsame
      rcases mem_cons.1 (hperm.mem_iff.1 hx) with rfl | hx
      · exact absurd hxk.symm hke
      · exact ⟨_, mem_set (lt_of_getElem? ht) _, x, hx, hxk⟩
    · exact ⟨u, (mem_set_or ht hu _).resolve_left (Ne.symm hsame), x, hx, hxk⟩

theorem Inv.remove {s : System} (h : Inv s) {key : Key} (hkey : key ∉ s.awaiting) :
    Inv (s.remove key) := by
  have hget : ∀ {k e}, (s.data.pop key).get? k = some e → k ≠ key ∧ s.data.get? k = some e := by
    intro k e he
    rw [get?_pop] at he
    split at he
    · cases he
    · next hk => exact ⟨hk, he⟩
  have hkeep : ∀ {k e}, s.data.get? k = some e → k ∈ s.awaiting →
      (s.data.pop key).get? k = some e := by
    intro k e he hk
    have hne : k ≠ key := fun heq => hkey (heq ▸ hk)
    rw [get?_pop, if_neg hne]
    exact he
  refine ⟨fun k k' e e' he he' heq => ?_, fun c hc => ?_, fun t ht => ?_, fun k e he hk => ?_,
    h.reports⟩
  · exact h.pages k k' e e' (hget he).2 (hget he').2 heq
  · have hok := h.call c hc
    refine { hok with stored := fun slot hslot => ?_, fresh := fun idx hidx k hk => ?_ }
    · exact hkeep (hok.stored slot hslot) (mem_awaiting.2 (.inl ⟨c, hc, slot, hslot, rfl⟩))
    · show (s.data.pop key).get? k = none
      rw [get?_pop, hok.fresh idx hidx k hk, ite_self]
  · exact (h.transfers t ht).keep fun x hx e hs =>
      hkeep hs (mem_awaiting.2 (.inr ⟨t, ht, x, hx, rfl⟩))
  · obtain ⟨hne, he⟩ := hget he
    refine h.settled k e he fun hk' => hk ?_
    refine mem_unwritten.2 ((mem_unwritten.1 hk').imp id (Or.imp id fun hk' => ?_))
    · refine mem_filter.2 ⟨hk', ?_⟩
      simpa using hne

theorem inductiveIf_inv {getRemoteAllocRequest : GetRequest}
    (hdescribes : ∀ keys objs req, getRemoteAllocRequest keys objs = some req →
      req.Describes keys objs) :
    (pushMachine getRemoteAllocRequest).InductiveIf Settled Inv where
  start s hs := by
    cases hs
    exact Inv.init
  step s a s' h hok hstep := by
    cases a with
    | request keys full lastToks payloads => exact h.request hdescribes hok hstep
    | lookup => exact h.lookup hok hstep
    | allocate page => exact h.allocate hstep
    | allocFailed => exact h.allocFailed hstep
    | handlerRaises => exact h.handlerRaises hstep
    | reply => exact h.reply hstep
    | write t n => exact h.write hstep
    | remove key =>
      cases hstep
      exact h.remove hok

/-! ## Placement and reports -/

theorem TransferOk.placed {s : System} {t : Transfer} (h : TransferOk s t) : t.Placed where
  once := by
    have hnodup := h.all.nodup_iff.2 (nodup_range.filter _)
    exact (nodup_append.1 hnodup).1
  page w hw := by
    refine ⟨?_, h.written w hw⟩
    have hmem := h.all.mem_iff.1 (mem_append_left _ (mem_map.2 ⟨w, hw, rfl⟩))
    simpa using (mem_filter.1 hmem).2
  every hnil i hi hsent := by
    have hmem := h.all.mem_iff.2 (mem_filter.2 ⟨mem_range.2 hi, by simpa using hsent⟩)
    rw [hnil, map_nil, append_nil] at hmem
    obtain ⟨w, hw, heq⟩ := mem_map.1 hmem
    exact ⟨w, hw, heq⟩

/-- In a run whose lookups are of keys with no write to come, every write is of the object of its
key, to the page stored under that key with the object's layout, each object that was not already
sent has exactly one, and every key reported as already sent has a written page. -/
theorem push_placed {getRemoteAllocRequest : GetRequest}
    (hdescribes : ∀ keys objs req, getRemoteAllocRequest keys objs = some req →
      req.Describes keys objs)
    {s : System} (h : (pushMachine getRemoteAllocRequest).ReachableIf Settled s) :
    (∀ t ∈ s.transfers, t.Placed) ∧ ∀ r ∈ s.reports, r.Written :=
  have hinv := (inductiveIf_inv hdescribes).reachable h
  ⟨fun t ht => (hinv.transfers t ht).placed, hinv.reports⟩

/-- Chunks of two tokens. -/
def twoTokens : Meta := ⟨[2, 1, 2, 4], "bfloat16", ⟨1, 2⟩⟩

/-- The request of the first object's layout and the last object's tokens. -/
def firstAndLast (keys : List Key) (objs : List MemoryObj) : Option AllocRequest := do
  let first ← objs.head?
  let last ← objs.getLast?
  let lastChunkToks ← last.layout.shape[first.layout.fmt.tokenDim]?
  some { keys := keys, fmt := first.layout.fmt, shape := first.layout.shape,
         dtype := first.layout.dtype, lastChunkToks := lastChunkToks }

theorem firstAndLast_describes (keys : List Key) (objs : List MemoryObj) (req : AllocRequest)
    (h : firstAndLast keys objs = some req) : req.Describes keys objs := by
  obtain ⟨first, hfirst, h⟩ := Option.bind_eq_some_iff.1 h
  obtain ⟨last, hlast, h⟩ := Option.bind_eq_some_iff.1 h
  obtain ⟨n, hn, h⟩ := Option.bind_eq_some_iff.1 h
  cases h
  exact ⟨rfl, ⟨first, hfirst, rfl⟩, ⟨last, hlast, hn⟩⟩

/-- Two senders with one key, the second after the answer to the first and before its write. -/
def overlapping : List Action :=
  [.request ["a"] twoTokens 2 [[1]], .lookup, .allocate ("npu", 0), .reply,
    .request ["a"] twoTokens 2 [[1]], .lookup]

/-- The second sender is told that the key was sent; nothing has been written to its page. -/
theorem reported_unwritten : ∃ s, (pushMachine firstAndLast).run System.init overlapping = some s ∧
    ∃ r ∈ s.reports, ¬ r.Written := by
  refine ⟨_, rfl, ⟨"a", none⟩, mem_singleton_self _, ?_⟩
  rintro ⟨bytes, h⟩
  cases h

/-- The second sender comes after the writes of the first, which end with the last chunk. -/
def oneAfterTheOther : List Action :=
  [.request ["a", "b"] twoTokens 1 [[1], [2]], .lookup, .lookup, .allocate ("npu", 0),
    .allocate ("npu", 1), .reply, .write 0 1, .write 0 0, .remove "b",
    .request ["a", "c"] twoTokens 2 [[1], [3]], .lookup, .lookup, .allocate ("npu", 1), .reply,
    .write 1 0]

theorem push_placed_one_after_the_other : ∃ s,
    (pushMachine firstAndLast).runIf Settled System.init oneAfterTheOther = some s ∧
      s.reports = [⟨"a", some ("a", [1])⟩] ∧ (∀ t ∈ s.transfers, t.Placed) ∧
      ∀ r ∈ s.reports, r.Written := by
  obtain ⟨s, hs⟩ : ∃ s, (pushMachine firstAndLast).runIf Settled System.init oneAfterTheOther =
      some s :=
    ⟨_, rfl⟩
  have hreach : (pushMachine firstAndLast).ReachableIf Settled s :=
    Machine.ReachableIf.runIf (.start rfl) hs
  refine ⟨s, hs, ?_, push_placed firstAndLast_describes hreach⟩
  cases hs
  rfl

end PushMode
