import AuraHttpd.Server
import AuraHttpd.Proofs.BufferStore
import AuraHttpd.Proofs.CallReclaim

/-!
# The server's views of calls and buffers

The server knows of a node's calls and of a mountpoint's buffers only what its routes follow
(`NodefsRoutes`, `BufmodRoutes`).  These are views of the models of the calls and of the buffers:
every run of calls in which no deleted record is used, and every run of requests to a buffer
mountpoint, is a run of the view's events, with one event at most for each step of a call and for
each part of an upload, and the routes agree all along (`calls_viewed`, `buffers_viewed`).
-/

namespace AuraHttpd

open CString StepSystem

/-- One event at a mountpoint, on its data and the server's routes. -/
def atStep (L : NodeLibs) (mpoint : Mpoint) (st : Fsdata × Routes) (e : MountEvent) :
    Option (Fsdata × Routes) :=
  mountStep L mpoint st.2 st.1 e

section Lists

theorem map_erase_of_inj {α β : Type*} [BEq α] [LawfulBEq α] [BEq β] [LawfulBEq β] {f : α → β}
    {a : α} : ∀ {l : List α}, (∀ b ∈ l, f b = f a → b = a) →
      (l.map f).erase (f a) = (l.erase a).map f
  | [], _ => rfl
  | b :: l, h => by
    by_cases hb : b = a
    · subst hb
      simp
    · have hf : f b ≠ f a := fun he => hb (h b List.mem_cons_self he)
      rw [List.map_cons, List.erase_cons_tail (by simpa using hf),
        List.erase_cons_tail (by simpa using hb), List.map_cons,
        map_erase_of_inj fun c hc => h c (List.mem_cons_of_mem _ hc)]

theorem find?_map_of_inj {α β γ : Type*} [DecidableEq γ] {f : α → β} {g : β → γ} {a : α} :
    ∀ {l : List α}, a ∈ l → (∀ b ∈ l, g (f b) = g (f a) → b = a) →
      (l.map f).find? (g · = g (f a)) = some (f a)
  | b :: l, ha, h => by
    by_cases hb : b = a
    · subst hb
      simp
    · have hg : g (f b) ≠ g (f a) := fun he => hb (h b List.mem_cons_self he)
      rw [List.map_cons, List.find?_cons_of_neg (by simpa using hg)]
      exact find?_map_of_inj ((List.mem_cons.1 ha).resolve_left (Ne.symm hb))
        fun c hc => h c (List.mem_cons_of_mem _ hc)

end Lists

section Calls

variable {C : UrpcCodes} {W : AuraWire} {mpoint : Mpoint} {s s' : Nodefs} {nd : NodefsRoutes}
  {routes : Routes}

/-- A call as the server's routes follow it. -/
def Nodefs.entry (s : Nodefs) (r : RecId) : RecId × Bytes :=
  (r, ((s.records r).map PendingCall.path).getD [])

/-- The route of a call among those of the server. -/
def readoutHandler (mpoint : Mpoint) (r : RecId) : Handler := ⟨.resourceReadout, .call mpoint.id r⟩

/-- `nd` and `routes` are what the server sees of the calls of `s`. -/
structure CallView (mpoint : Mpoint) (s : Nodefs) (nd : NodefsRoutes) (routes : Routes) :
    Prop where
  callid : nd.callid = s.callid
  next : nd.next = s.next
  pending : nd.pendingCallList = s.pendingCallList.map s.entry
  gc : nd.gcCallList = s.gcCallList.map s.entry
  routes : ∀ i, routes.find (pendingPath mpoint.mountpoint i)
    = (s.routes.find (pendingPath mpoint.mountpoint i)).map (readoutHandler mpoint)

/-- Every record that is not deleted is on a list, and its path is that of a pending call. -/
structure Listed (mountpoint : Bytes) (s : Nodefs) : Prop where
  listed : ∀ r res, s.records r = some res → r ∉ s.deleted →
    r ∈ s.pendingCallList ++ s.gcCallList
  path : ∀ r res, s.records r = some res → ∃ i, res.path = pendingPath mountpoint i

theorem Nodefs.entry_inj (s : Nodefs) {r r' : RecId} (h : s.entry r = s.entry r') : r = r' :=
  congrArg Prod.fst h

theorem map_entry_erase (s : Nodefs) (l : List RecId) (r : RecId) :
    (l.map s.entry).erase (s.entry r) = (l.erase r).map s.entry :=
  (List.map_erase (fun _ _ h => s.entry_inj h) l).symm

/-- What changes no record's path changes no entry. -/
theorem entry_setRecord {r : RecId} {res res' : PendingCall} (hres : s.records r = some res)
    (hpath : res'.path = res.path) : (s.setRecord r res').entry = s.entry := by
  funext q
  rcases eq_or_ne q r with rfl | hne
  · simp [Nodefs.entry, Nodefs.setRecord, hres, hpath]
  · simp [Nodefs.entry, Nodefs.setRecord, Function.update_of_ne hne]

theorem CallView.lookup (h : CallView mpoint s nd routes) {r : RecId}
    (hr : r ∈ s.pendingCallList ++ s.gcCallList) : nd.lookup r = some (s.entry r) := by
  rw [NodefsRoutes.lookup, h.pending, h.gc, ← List.map_append]
  exact find?_map_of_inj (f := s.entry) (g := Prod.fst) hr fun _ _ he => he

theorem CallView.listDel (h : CallView mpoint s nd routes) (r : RecId) :
    (nd.listDel (s.entry r)).pendingCallList = (s.pendingCallList.erase r).map s.entry
      ∧ (nd.listDel (s.entry r)).gcCallList = (s.gcCallList.erase r).map s.entry := by
  rw [NodefsRoutes.listDel, h.pending, h.gc, map_entry_erase, map_entry_erase]
  exact ⟨rfl, rfl⟩

/-- A state that differs in nothing the server sees. -/
theorem CallView.congr (h : CallView mpoint s nd routes) (hid : s'.callid = s.callid)
    (hnext : s'.next = s.next) (hp : s'.pendingCallList = s.pendingCallList)
    (hg : s'.gcCallList = s.gcCallList) (hr : s'.routes = s.routes) (he : s'.entry = s.entry) :
    CallView mpoint s' nd routes :=
  ⟨h.callid.trans hid.symm, h.next.trans hnext.symm, by rw [hp, he, h.pending],
    by rw [hg, he, h.gc], fun i => by rw [hr, h.routes]⟩

/-- The record of a call and its route are gone. -/
theorem CallView.delete (h : CallView mpoint s nd routes) (hl : Listed mpoint.mountpoint s)
    {r : RecId} (hd : r ∉ s.deleted) (hr : ∃ res, s.records r = some res) :
    ∃ nd' routes', nd.callDelete routes r = some (nd', routes')
      ∧ CallView mpoint (ahttpdCallDelete s r) nd' routes' := by
  obtain ⟨res, hres⟩ := hr
  obtain ⟨i, hi⟩ := hl.path r res hres
  have hentry : s.entry r = (r, res.path) := by simp [Nodefs.entry, hres]
  obtain ⟨hp, hg⟩ := h.listDel r
  refine ⟨nd.listDel (s.entry r), routes.del (s.entry r).2, ?_, ?_⟩
  · rw [NodefsRoutes.callDelete, h.lookup (hl.listed r res hres hd), Option.map_some]
  · have hdelete : ahttpdCallDelete s r = { s with
        pendingCallList := s.pendingCallList.erase r
        gcCallList := s.gcCallList.erase r
        routes := s.routes.del res.path
        deleted := s.deleted ++ [r] } := by
      simp only [ahttpdCallDelete, hres]
    rw [hdelete]
    refine ⟨h.callid, h.next, hp, hg, fun k => ?_⟩
    rw [hentry, RouteTable.find_del, RouteTable.find_del]
    split_ifs
    · rfl
    · exact h.routes k

theorem CallView.moveToGc (h : CallView mpoint s nd routes) (hl : Listed mpoint.mountpoint s)
    {r : RecId} (hd : r ∉ s.deleted) (hr : ∃ res, s.records r = some res) :
    ∃ nd', nd.callReadout r = some nd' ∧ CallView mpoint (s.moveToGc r) nd' routes := by
  obtain ⟨res, hres⟩ := hr
  obtain ⟨hp, hg⟩ := h.listDel r
  refine ⟨{ nd.listDel (s.entry r) with
    gcCallList := (nd.listDel (s.entry r)).gcCallList ++ [s.entry r] }, ?_, ?_⟩
  · rw [NodefsRoutes.callReadout, h.lookup (hl.listed r res hres hd), Option.map_some]
  · refine ⟨h.callid, h.next, hp, ?_, h.routes⟩
    simp only [hg, Nodefs.moveToGc, List.map_append]
    rfl

theorem CallView.addCall (h : CallView mpoint s nd routes) (hU : Unlinked s) (c : Conn)
    (o : AuraObject) (isAsync : Bool) :
    CallView mpoint ({ s.nextRequest with callid := wrapS 32 (s.callid + 1) }.addCall
        (newCall mpoint.mountpoint s c o isAsync))
      (nd.callCreate mpoint routes true).1 (nd.callCreate mpoint routes true).2 := by
  have hentry : ∀ r ∈ s.pendingCallList ++ s.gcCallList,
      ({ s.nextRequest with callid := wrapS 32 (s.callid + 1) }.addCall
        (newCall mpoint.mountpoint s c o isAsync)).entry r = s.entry r := by
    intro r hr
    have hne : r ≠ s.next := (hU.lists r hr).2.ne
    simp [Nodefs.entry, Nodefs.addCall, Nodefs.nextRequest, Function.update_of_ne hne]
  refine ⟨by simp [NodefsRoutes.callCreate, h.callid, Nodefs.addCall],
    by simp [NodefsRoutes.callCreate, h.next, Nodefs.addCall, Nodefs.nextRequest], ?_, ?_,
    fun i => ?_⟩
  · change nd.pendingCallList ++ [(nd.next, pendingPath mpoint.mountpoint nd.callid)]
      = (s.pendingCallList ++ [s.next]).map _
    rw [List.map_append, List.map_congr_left fun r hr => hentry r (List.mem_append_left _ hr),
      h.pending, h.next, h.callid]
    simp [Nodefs.entry, Nodefs.addCall, Nodefs.nextRequest, newCall]
  · change nd.gcCallList = s.gcCallList.map _
    rw [List.map_congr_left fun r hr => hentry r (List.mem_append_right _ hr), h.gc]
  · change (routes.set (pendingPath mpoint.mountpoint nd.callid)
        ⟨.resourceReadout, .call mpoint.id nd.next⟩).find _
      = ((s.routes.set (pendingPath mpoint.mountpoint s.callid) s.next).find _).map _
    rw [RouteTable.find_set, RouteTable.find_set, h.routes, h.callid, h.next]
    rcases s.routes.find (pendingPath mpoint.mountpoint i) with _ | r
    · split_ifs <;> rfl
    · rfl

theorem stale_delete (s : Nodefs) (r : RecId) : (ahttpdCallDelete s r).stale = s.stale := by
  unfold ahttpdCallDelete
  split <;> rfl

theorem Listed.enter (h : Listed mpoint.mountpoint s) (r : RecId) :
    Listed mpoint.mountpoint (s.enter r) := by
  unfold Nodefs.enter
  split_ifs
  · exact ⟨h.listed, h.path⟩
  · exact h

theorem Listed.setRecord (h : Listed mpoint.mountpoint s) {r : RecId} {res res' : PendingCall}
    (hres : s.records r = some res) (hpath : res'.path = res.path) :
    Listed mpoint.mountpoint (s.setRecord r res') := by
  refine ⟨fun q x hq hd => ?_, fun q x hq => ?_⟩
  · rcases update_some_cases hq with ⟨rfl, -⟩ | ⟨-, hq⟩
    · exact h.listed q res hres hd
    · exact h.listed q x hq hd
  · rcases update_some_cases hq with ⟨rfl, rfl⟩ | ⟨-, hq⟩
    · rw [hpath]
      exact h.path q res hres
    · exact h.path q x hq

theorem Listed.delete (h : Listed mpoint.mountpoint s) (r : RecId) :
    Listed mpoint.mountpoint (ahttpdCallDelete s r) := by
  unfold ahttpdCallDelete
  split
  · exact h
  refine ⟨fun q x hq hd => ?_, h.path⟩
  simp only [List.mem_append, List.mem_singleton, not_or] at hd
  have := h.listed q x hq hd.1
  rw [List.mem_append] at this ⊢
  exact this.imp (List.mem_erase_of_ne hd.2).2 (List.mem_erase_of_ne hd.2).2

theorem Listed.foldl_delete : ∀ (l : List RecId) {s : Nodefs}, Listed mpoint.mountpoint s →
    Listed mpoint.mountpoint (l.foldl ahttpdCallDelete s)
  | [], _, h => h
  | r :: l, _, h => Listed.foldl_delete l (h.delete r)

theorem Listed.moveToGc (h : Listed mpoint.mountpoint s) (r : RecId) :
    Listed mpoint.mountpoint (s.moveToGc r) := by
  refine ⟨fun q x hq hd => ?_, h.path⟩
  have := h.listed q x hq hd
  simp only [Nodefs.moveToGc, List.mem_append, List.mem_singleton] at this ⊢
  rcases eq_or_ne q r with rfl | hne
  · exact .inr (.inr rfl)
  · rcases this with hp | hg
    · exact .inl ((List.mem_erase_of_ne hne).2 hp)
    · exact .inr (.inl ((List.mem_erase_of_ne hne).2 hg))

theorem Listed.addCall (h : Listed mpoint.mountpoint s) {res : PendingCall}
    (hpath : ∃ i, res.path = pendingPath mpoint.mountpoint i) :
    Listed mpoint.mountpoint (s.addCall res) := by
  refine ⟨fun q x hq hd => ?_, fun q x hq => ?_⟩
  · simp only [Nodefs.addCall, List.mem_append, List.mem_singleton]
    rcases update_some_cases hq with ⟨rfl, -⟩ | ⟨-, hq⟩
    · exact .inl (.inr rfl)
    · exact (List.mem_append.1 (h.listed q x hq hd)).imp_left .inl
  · rcases update_some_cases hq with ⟨-, rfl⟩ | ⟨-, hq⟩
    · exact hpath
    · exact h.path q x hq

/-- What a completed call does to its record is nothing the lists and paths show. -/
theorem Listed.complete (h : Listed mpoint.mountpoint s) {r : RecId} {res res' : PendingCall}
    (hres : s.records r = some res) (hpath : res'.path = res.path) : Listed mpoint.mountpoint
      ((Nodefs.enter { s with inflight := s.inflight.erase r } r).setRecord r res') := by
  have hs : Listed mpoint.mountpoint { s with inflight := s.inflight.erase r } :=
    ⟨h.listed, h.path⟩
  exact (hs.enter r).setRecord (by simpa using hres) hpath

theorem Listed.step (h : Listed mpoint.mountpoint s) {e : CallEvent}
    (ht : CallTrans C W mpoint.mountpoint s e s') : Listed mpoint.mountpoint s' := by
  have hnext : Listed mpoint.mountpoint s.nextRequest := ⟨h.listed, h.path⟩
  cases ht with
  | createdSync hm hc =>
    have hbump : Listed mpoint.mountpoint
        { s.nextRequest with callid := wrapS 32 (s.callid + 1) } := ⟨h.listed, h.path⟩
    exact hbump.addCall ⟨s.callid, rfl⟩
  | @createdAsync c o args hm hc =>
    have hbump : Listed mpoint.mountpoint
        { s.nextRequest with callid := wrapS 32 (s.callid + 1) } := ⟨h.listed, h.path⟩
    have hpath : ∃ i, (newCall mpoint.mountpoint s c o true).path
      = pendingPath mpoint.mountpoint i := ⟨s.callid, rfl⟩
    exact ⟨(hbump.addCall hpath).listed, (hbump.addCall hpath).path⟩
  | completedAsync hm hr hres hj ha => exact h.complete hres rfl
  | @completedSync r result retbuf res j hm hr hres hj ha hc =>
    have hset : ({ res with retbuf := some j } : PendingCall).path = res.path := rfl
    exact ⟨(h.complete hres hset).listed, (h.complete hres hset).path⟩
  | @readResult c path r res j hm hc hr hres hj =>
    have hsent : Listed mpoint.mountpoint ((s.nextRequest.enter r).send (s.request c)
        (.result r j)) := ⟨(hnext.enter r).listed, (hnext.enter r).path⟩
    have hres' : (((s.nextRequest.enter r).send (s.request c) (.result r j)).moveToGc r).records r
        = some res := by
      simpa [Nodefs.moveToGc, Nodefs.send, Nodefs.nextRequest] using hres
    have hset : ({ res with resourceStatus := .dead } : PendingCall).path = res.path := rfl
    have hgc := (hsent.moveToGc r).setRecord hres' hset
    exact ⟨hgc.listed, hgc.path⟩
  | readStatus hm hc hr hres hj => exact ⟨(hnext.enter _).listed, (hnext.enter _).path⟩
  | @closeDelete c r hc hr =>
    have hs : Listed mpoint.mountpoint { s with conns := s.conns.erase c } := ⟨h.listed, h.path⟩
    exact (hs.enter r).delete r
  | unmount hm =>
    have hs : Listed mpoint.mountpoint { s with mounted := false } := ⟨h.listed, h.path⟩
    exact .foldl_delete _ (.foldl_delete _ hs)
  | _ => exact ⟨h.listed, h.path⟩

theorem CallView.enter (h : CallView mpoint s nd routes) (r : RecId) :
    CallView mpoint (s.enter r) nd routes := by
  unfold Nodefs.enter
  split_ifs
  · exact ⟨h.callid, h.next, h.pending, h.gc, h.routes⟩
  · exact h

/-- The server sees nothing of a call's completion. -/
theorem CallView.complete (h : CallView mpoint s nd routes) {r : RecId} {res res' : PendingCall}
    (hres : s.records r = some res) (hpath : res'.path = res.path) : CallView mpoint
      ((Nodefs.enter { s with inflight := s.inflight.erase r } r).setRecord r res') nd routes := by
  have hv : CallView mpoint { s with inflight := s.inflight.erase r } nd routes :=
    ⟨h.callid, h.next, h.pending, h.gc, h.routes⟩
  exact (hv.enter r).congr rfl rfl rfl rfl rfl (entry_setRecord (by simpa using hres) hpath)

/-- A step of a call in which no deleted record is used is one of the view's events, or none. -/
theorem CallView.step (L : NodeLibs) (h : CallView mpoint s nd routes) (hR : Records s)
    (hU : Unlinked s) (hl : Listed mpoint.mountpoint s) {e : CallEvent}
    (ht : CallTrans C W mpoint.mountpoint s e s') (hfresh : s'.stale = s.stale)
    (hun : e ≠ .unmount) : ∃ evs nd' routes', evs.length ≤ 1
      ∧ run (atStep L mpoint) (.node nd, routes) evs = some (.node nd', routes')
      ∧ CallView mpoint s' nd' routes' := by
  have hquiet : ∀ {s₁}, CallView mpoint s₁ nd routes → ∃ evs nd' routes', evs.length ≤ 1
      ∧ run (atStep L mpoint) (.node nd, routes) evs = some (.node nd', routes')
      ∧ CallView mpoint s₁ nd' routes' := fun hv => ⟨[], nd, routes, Nat.zero_le _, rfl, hv⟩
  cases ht with
  | accept => exact hquiet ⟨h.callid, h.next, h.pending, h.gc, h.routes⟩
  | @refused c o args isAsync started k n m hm hc hk =>
    rcases hk with rfl | rfl
    · exact hquiet ⟨h.callid, h.next, h.pending, h.gc, h.routes⟩
    · refine ⟨[.callCreate false], _, _, le_rfl, rfl, ?_⟩
      exact ⟨by simp [h.callid, Nodefs.send], h.next, h.pending, h.gc, h.routes⟩
  | createdSync hm hc => exact ⟨[.callCreate true], _, _, le_rfl, rfl, h.addCall hU _ _ _⟩
  | createdAsync hm hc =>
    obtain ⟨hid, hnext, hp, hg, hr⟩ := h.addCall hU _ _ true
    exact ⟨[.callCreate true], _, _, le_rfl, rfl, hid, hnext, hp, hg, hr⟩
  | completedAsync hm hr hres hj ha => exact hquiet (h.complete hres rfl)
  | @completedSync r result retbuf res j hm hr hres hj ha hc =>
    have hset : ({ res with retbuf := some j } : PendingCall).path = res.path := rfl
    obtain ⟨hid, hnext, hp, hg, hroutes⟩ := h.complete hres hset
    exact hquiet ⟨hid, hnext, hp, hg, hroutes⟩
  | @readResult c path r res j hm hc hr hres hj =>
    have hd : r ∉ s.deleted := hU.routes path r hr
    have hsame : s.nextRequest.enter r = s.nextRequest := if_neg hd
    have hv : CallView mpoint (s.nextRequest.send (s.request c) (.result r j)) nd routes :=
      ⟨h.callid, h.next, h.pending, h.gc, h.routes⟩
    have hl' : Listed mpoint.mountpoint (s.nextRequest.send (s.request c) (.result r j)) :=
      ⟨hl.listed, hl.path⟩
    obtain ⟨nd', hnd, hv'⟩ := hv.moveToGc hl' hd ⟨res, hres⟩
    refine ⟨[.callReadout r], nd', routes, le_rfl, ?_, ?_⟩
    · simp [run, atStep, mountStep, hnd]
    · rw [hsame]
      exact hv'.congr rfl rfl rfl rfl rfl (entry_setRecord hres rfl)
  | readStatus hm hc hr hres hj =>
    have hv : CallView mpoint s.nextRequest nd routes :=
      ⟨h.callid, h.next, h.pending, h.gc, h.routes⟩
    obtain ⟨hid, hnext, hp, hg, hroutes⟩ := hv.enter _
    exact hquiet ⟨hid, hnext, hp, hg, hroutes⟩
  | terminate => exact hquiet ⟨h.callid, h.next, h.pending, h.gc, h.routes⟩
  | @closeDelete c r hc hr =>
    have hd : r ∉ s.deleted := by
      intro hd
      rw [connCloseCb, stale_delete, Nodefs.enter, if_pos hd] at hfresh
      simp at hfresh
    have hv : CallView mpoint { s with conns := s.conns.erase c } nd routes :=
      ⟨h.callid, h.next, h.pending, h.gc, h.routes⟩
    have hl' : Listed mpoint.mountpoint { s with conns := s.conns.erase c } :=
      ⟨hl.listed, hl.path⟩
    obtain ⟨res, j, hres, -⟩ := hR.closecb c r hr
    obtain ⟨nd', routes', hnd, hv'⟩ := hv.delete hl' hd ⟨res, hres⟩
    refine ⟨[.callDelete r], nd', routes', le_rfl, ?_, ?_⟩
    · simp [run, atStep, mountStep, hnd]
    · have hsame : Nodefs.enter { s with conns := s.conns.erase c } r
        = { s with conns := s.conns.erase c } := if_neg hd
      rw [connCloseCb, hsame]
      exact hv'
  | closeQuiet => exact hquiet ⟨h.callid, h.next, h.pending, h.gc, h.routes⟩
  | unmount => exact absurd rfl hun

theorem Listed.init (mountpoint : Bytes) : Listed mountpoint {} := by
  constructor <;> simp

theorem stale_foldl_delete : ∀ (l : List RecId) (s : Nodefs),
    (l.foldl ahttpdCallDelete s).stale = s.stale
  | [], _ => rfl
  | r :: l, s => (stale_foldl_delete l _).trans (stale_delete s r)

theorem stale_enter (s : Nodefs) (r : RecId) : s.stale <+: (s.enter r).stale := by
  unfold Nodefs.enter
  split_ifs
  · exact List.prefix_append _ _
  · exact List.prefix_rfl

/-- The log of uses of deleted records only grows. -/
theorem callTrans_stale {e : CallEvent} (ht : CallTrans C W mpoint.mountpoint s e s') :
    s.stale <+: s'.stale := by
  cases ht with
  | @completedAsync r => exact stale_enter { s with inflight := s.inflight.erase r } r
  | @completedSync r => exact stale_enter { s with inflight := s.inflight.erase r } r
  | @readResult c path r => exact stale_enter s.nextRequest r
  | @readStatus c path r => exact stale_enter s.nextRequest r
  | @closeDelete c r hc hr =>
    rw [connCloseCb, stale_delete]
    exact stale_enter { s with conns := s.conns.erase c } r
  | unmount hm => rw [ahttpdCallresourceCleanup, stale_foldl_delete, stale_foldl_delete]
  | _ => exact List.prefix_rfl

/-- The calls of a run that uses no deleted record are, for the server's routes, a run of the
view's events. -/
theorem calls_viewed (L : NodeLibs) (mpoint : Mpoint) (tbl : Option ExportTable) (routes : Routes)
    (hroutes : ∀ i, routes.find (pendingPath mpoint.mountpoint i) = none) (es : List CallEvent)
    (s : Nodefs) (h : run (callStep C W mpoint.mountpoint) {} es = some s) (hstale : s.stale = [])
    (hm : s.mounted = true) : ∃ evs nd routes', evs.length ≤ es.length
      ∧ run (atStep L mpoint) (.node { tbl := tbl }, routes) evs = some (.node nd, routes')
      ∧ CallView mpoint s nd routes' := by
  have hinv : (Records s ∧ Unlinked s ∧ Listed mpoint.mountpoint s)
      ∧ (s.stale = [] → s.mounted = true → ∃ evs nd routes', evs.length ≤ es.length
        ∧ run (atStep L mpoint) (.node { tbl := tbl }, routes) evs = some (.node nd, routes')
        ∧ CallView mpoint s nd routes') := by
    refine run_history (C := fun _ _ => True)
      (I := fun es s => (Records s ∧ Unlinked s ∧ Listed mpoint.mountpoint s)
        ∧ (s.stale = [] → s.mounted = true → ∃ evs nd routes', evs.length ≤ es.length
          ∧ run (atStep L mpoint) (.node { tbl := tbl }, routes) evs = some (.node nd, routes')
          ∧ CallView mpoint s nd routes')) ?_ (fun es s e s' _ hI _ hs => ?_) es (along_true es _) h
    · exact ⟨⟨.init, .init, .init _⟩,
        fun _ _ => ⟨[], _, _, le_rfl, rfl, rfl, rfl, rfl, rfl, hroutes⟩⟩
    obtain ⟨⟨hR, hU, hl⟩, hview⟩ := hI
    have ht := callTrans_of_step hs
    refine ⟨⟨hR.step ht, hU.step hR ht, hl.step ht⟩, fun hstale hm => ?_⟩
    have hun : e ≠ .unmount := by
      rintro rfl
      cases ht with
      | unmount =>
        obtain ⟨pl, gl, dl, st, rt, heq, -⟩ := freed_cleanup { s with mounted := false }
        rw [heq] at hm
        cases hm
    have hold : s.stale = [] := List.prefix_nil.1 (hstale ▸ callTrans_stale ht)
    obtain ⟨evs, nd, routes₁, hlen, hrun, hv⟩ := hview hold (callTrans_mounted ht hun ▸ hm)
    obtain ⟨evs', nd', routes', hlen', hrun', hv'⟩ :=
      hv.step L hR hU hl ht (hstale.trans hold.symm) hun
    refine ⟨evs ++ evs', nd', routes', ?_, ?_, hv'⟩
    · simp only [List.length_append, List.length_singleton]
      omega
    · rw [run_append, hrun, Option.bind_some, hrun']
  exact hinv.2 hstale hm

theorem entry_delete (s : Nodefs) (r : RecId) : (ahttpdCallDelete s r).entry = s.entry := by
  unfold ahttpdCallDelete
  split <;> rfl

theorem entry_foldl_delete : ∀ (l : List RecId) (s : Nodefs),
    (l.foldl ahttpdCallDelete s).entry = s.entry
  | [], _ => rfl
  | r :: l, s => (entry_foldl_delete l _).trans (entry_delete s r)

theorem gcCallList_foldl_delete : ∀ (l : List RecId) {s : Nodefs},
    (∀ r ∈ l, r ∉ s.gcCallList) → (l.foldl ahttpdCallDelete s).gcCallList = s.gcCallList
  | [], _, _ => rfl
  | r :: l, s, h => by
    have hone : (ahttpdCallDelete s r).gcCallList = s.gcCallList := by
      unfold ahttpdCallDelete
      split
      · rfl
      · exact List.erase_of_not_mem (h r List.mem_cons_self)
    rw [List.foldl_cons, gcCallList_foldl_delete l, hone]
    intro q hq
    rw [hone]
    exact h q (List.mem_cons_of_mem _ hq)

/-- The routes of the calls of a list are deleted alike. -/
theorem foldl_delete_viewed : ∀ (l : List RecId) {s : Nodefs} {routes : Routes},
    (∀ i, routes.find (pendingPath mpoint.mountpoint i)
      = (s.routes.find (pendingPath mpoint.mountpoint i)).map (readoutHandler mpoint)) →
    ∀ i, ((l.map s.entry).foldl (fun routes res => routes.del res.2) routes).find
        (pendingPath mpoint.mountpoint i)
      = ((l.foldl ahttpdCallDelete s).routes.find (pendingPath mpoint.mountpoint i)).map
        (readoutHandler mpoint)
  | [], _, _, h => h
  | r :: l, s, routes, h => by
    rw [← entry_delete s r, List.map_cons, List.foldl_cons, List.foldl_cons]
    refine foldl_delete_viewed l fun i => ?_
    rw [entry_delete, RouteTable.find_del]
    rcases hres : s.records r with _ | res
    · have hne : pendingPath mpoint.mountpoint i ≠ (s.entry r).2 := by
        simp [Nodefs.entry, hres, pendingPath, lit]
      rw [if_neg hne, h i]
      simp only [ahttpdCallDelete, hres]
    · have hentry : (s.entry r).2 = res.path := by simp [Nodefs.entry, hres]
      simp only [ahttpdCallDelete, hres]
      rw [hentry, RouteTable.find_del]
      split_ifs
      · rfl
      · exact h i

/-- The unmount of the node deletes the routes of its calls alike. -/
theorem CallView.cleanup (h : CallView mpoint s nd routes) (hU : Unlinked s) (i : ℤ) :
    (callresourceCleanup nd routes).find (pendingPath mpoint.mountpoint i)
      = ((ahttpdCallresourceCleanup s).routes.find (pendingPath mpoint.mountpoint i)).map
        (readoutHandler mpoint) := by
  have hgc := gcCallList_foldl_delete s.pendingCallList fun r hr hr' =>
    (List.nodup_append.1 hU.lists_nodup).2.2 r hr r hr' rfl
  rw [callresourceCleanup, ahttpdCallresourceCleanup, h.pending, h.gc]
  simp only [hgc]
  rw [← entry_foldl_delete s.pendingCallList s]
  refine foldl_delete_viewed _ (fun k => ?_) i
  rw [entry_foldl_delete]
  exact foldl_delete_viewed _ h.routes k

end Calls

section Buffers

variable {mpoint : Mpoint} {T : AuraTransport} {d d' : BufmodData} {bdata : BufmodRoutes}
  {routes : Routes} {idx : RecordId → RecId}

/-- A stored buffer as the server's routes follow it. -/
def BufmodData.entry (d : BufmodData) (idx : RecordId → RecId) (r : RecordId) : RecId × ℤ :=
  (idx r, ((d.records r).map AvailableBuffer.id).getD 0)

/-- A route of the mountpoint among those of the server. -/
def bufferHandler (mpoint : Mpoint) (idx : RecordId → RecId) : BufferRoute → Handler
  | .list => ⟨.rqListBuffers, .fsdata mpoint.id⟩
  | .post => ⟨.upload, .mpoint mpoint.id⟩
  | .download r => ⟨.rqDownloadBuffer, .buffer mpoint.id (idx r)⟩
  | .drop r => ⟨.rqDropBuffer, .buffer mpoint.id (idx r)⟩

/-- `bdata` and `routes` are what the server sees of the buffers of `d`; it numbers only those that
were stored. -/
structure BufferView (mpoint : Mpoint) (idx : RecordId → RecId) (d : BufmodData)
    (bdata : BufmodRoutes) (routes : Routes) : Prop where
  currentId : bdata.currentId = d.currentId
  buffers : bdata.buffers = d.buffers.map (d.entry idx)
  lt_next : ∀ r ∈ d.buffers, idx r < bdata.next
  inj : ∀ r ∈ d.buffers, ∀ q ∈ d.buffers, idx r = idx q → r = q
  routes : ∀ q, routes.find (mpoint.mountpoint ++ q)
    = (d.routes.find (mpoint.mountpoint ++ q)).map (bufferHandler mpoint idx)

/-- A store that differs in nothing the server sees. -/
theorem BufferView.congr (h : BufferView mpoint idx d bdata routes)
    (hid : d'.currentId = d.currentId) (hb : d'.buffers = d.buffers) (hr : d'.routes = d.routes)
    (he : ∀ r ∈ d.buffers, d'.entry idx r = d.entry idx r) :
    BufferView mpoint idx d' bdata routes :=
  ⟨h.currentId.trans hid.symm, by rw [hb, List.map_congr_left he, h.buffers], hb ▸ h.lt_next,
    hb ▸ h.inj, fun q => by rw [hr, h.routes]⟩

theorem entry_of_records {r : RecordId} (h : d'.records r = d.records r) :
    d'.entry idx r = d.entry idx r := by
  rw [BufmodData.entry, BufmodData.entry, h]

/-- A part that is not stored after all, and one that is put into the store. -/
theorem BufferView.spent (h : BufferView mpoint idx d bdata routes) (hs : SameStore d d')
    (hid : d'.currentId = wrapS 64 (d.currentId + 1)) :
    BufferView mpoint idx d' (bdata.handleData mpoint routes false).1
      (bdata.handleData mpoint routes false).2 := by
  have h' : BufferView mpoint idx { d' with currentId := d.currentId } bdata routes :=
    h.congr rfl hs.buffers hs.routes fun r hr => entry_of_records (hs.records r hr)
  refine ⟨?_, h'.buffers, h'.lt_next, h'.inj, h'.routes⟩
  rw [hid, ← h.currentId]
  rfl

theorem BufferView.put (h : BufferView mpoint idx d bdata routes)
    (hwf : StoreWf mpoint.mountpoint d) {r : RecordId} {b : AvailableBuffer} {aura : AuraBuffer}
    {part : Part} (hr : d.currentBuf = some r)
    (hput : PutInto mpoint.mountpoint d r b aura part d') :
    BufferView mpoint (Function.update idx r bdata.next) d'
      (bdata.handleData mpoint routes true).1 (bdata.handleData mpoint routes true).2 := by
  have hnot := (hwf.loose r hr).1
  have hidx : ∀ q ∈ d.buffers, Function.update idx r bdata.next q = idx q := fun q hq =>
    Function.update_of_ne (ne_of_mem_of_not_mem hq hnot) _ _
  have hentry : ∀ q ∈ d.buffers,
      d'.entry (Function.update idx r bdata.next) q = d.entry idx q := fun q hq => by
    rw [BufmodData.entry, BufmodData.entry, hidx q hq, hput.records,
      Function.update_of_ne (ne_of_mem_of_not_mem hq hnot)]
  have hsame : ∀ p k, d.routes.find p = some k →
      bufferHandler mpoint (Function.update idx r bdata.next) k = bufferHandler mpoint idx k := by
    intro p k hk
    cases hwf.routes p k hk with
    | list => rfl
    | post => rfl
    | download hq hb => rw [bufferHandler, bufferHandler, hidx _ hq]
    | drop hq hb => rw [bufferHandler, bufferHandler, hidx _ hq]
  refine ⟨?_, ?_, ?_, ?_, fun q => ?_⟩
  · rw [hput.currentId, ← h.currentId]
    rfl
  · rw [hput.buffers, List.map_append, List.map_congr_left hentry, ← h.buffers]
    change bdata.buffers ++ [(bdata.next, bdata.currentId)] = _
    simp [BufmodData.entry, hput.records, entered, h.currentId]
  · intro q hq
    rw [hput.buffers, List.mem_append, List.mem_singleton] at hq
    change _ < bdata.next + 1
    rcases hq with hq | rfl
    · rw [hidx q hq]
      exact (h.lt_next q hq).trans (Nat.lt_succ_self _)
    · rw [Function.update_self]
      exact Nat.lt_succ_self _
  · have hold : ∀ q ∈ d.buffers, Function.update idx r bdata.next q ≠ bdata.next := fun q hq =>
      hidx q hq ▸ (h.lt_next q hq).ne
    intro p hp q hq he
    rw [hput.buffers, List.mem_append, List.mem_singleton] at hp hq
    rcases hp with hp | rfl <;> rcases hq with hq | rfl
    · rw [hidx p hp, hidx q hq] at he
      exact h.inj p hp q hq he
    · rw [Function.update_self] at he
      exact absurd he (hold p hp)
    · rw [Function.update_self] at he
      exact absurd he.symm (hold q hq)
    · rfl
  · change ((routes.set (downloadPath mpoint.mountpoint bdata.currentId) _).set
      (dropPath mpoint.mountpoint bdata.currentId) _).find _ = _
    rw [hput.routes, RouteTable.find_set, RouteTable.find_set, RouteTable.find_set,
      RouteTable.find_set, h.routes, h.currentId]
    rcases hf : d.routes.find (mpoint.mountpoint ++ q) with _ | k
    · split_ifs <;> simp [bufferHandler]
    · simp [hsame _ k hf]

theorem BufferView.drop (h : BufferView mpoint idx d bdata routes) {r : RecordId}
    {b : AvailableBuffer} (hr : r ∈ d.buffers) (hb : d.records r = some b)
    (hd : DropFrom mpoint.mountpoint d r b d') :
    ∃ bdata' routes', bdata.drop mpoint routes (idx r) = some (bdata', routes')
      ∧ BufferView mpoint idx d' bdata' routes' := by
  have hentry : ∀ q, d'.entry idx q = d.entry idx q := by
    intro q
    rcases eq_or_ne q r with rfl | hne
    · simp [BufmodData.entry, hd.records, hb]
    · exact entry_of_records (by rw [hd.records, Function.update_of_ne hne])
  have hfind : bdata.buffers.find? (·.1 = idx r) = some (d.entry idx r) := by
    rw [h.buffers]
    exact find?_map_of_inj (f := d.entry idx) (g := Prod.fst) hr fun q hq he => h.inj q hq r hr he
  have hid : (d.entry idx r).2 = b.id := by simp [BufmodData.entry, hb]
  refine ⟨_, _, by rw [BufmodRoutes.drop, hfind, Option.map_some], ?_⟩
  have hmem : ∀ q ∈ d'.buffers, q ∈ d.buffers := fun q hq =>
    List.mem_of_mem_erase (hd.buffers ▸ hq)
  refine ⟨h.currentId.trans hd.currentId.symm, ?_, fun q hq => h.lt_next q (hmem q hq),
    fun p hp q hq => h.inj p (hmem p hp) q (hmem q hq), fun q => ?_⟩
  · rw [hd.buffers, List.map_congr_left fun q _ => hentry q, h.buffers]
    refine map_erase_of_inj fun q hq he => h.inj q hq r hr (congrArg Prod.fst he)
  · rw [hid, hd.routes]
    change ((routes.del (downloadPath mpoint.mountpoint b.id)).del
      (dropPath mpoint.mountpoint b.id)).find _ = _
    rw [RouteTable.find_del, RouteTable.find_del, RouteTable.find_del, RouteTable.find_del,
      h.routes]
    split_ifs <;> rfl

/-- The store is what a run of the view's events makes of the routes. -/
def BufferViewed (L : NodeLibs) (mpoint : Mpoint) (routes : Routes) (d : BufmodData) : Prop :=
  ∃ evs idx bdata routes',
    run (atStep L mpoint) (.upload (.buffer {}), routes) evs
        = some (.upload (.buffer bdata), routes')
      ∧ BufferView mpoint idx d bdata routes'

theorem bufferViewed_rule (L : NodeLibs) (mpoint : Mpoint) (routes : Routes) :
    StoreRule mpoint.mountpoint T (fun _ => True) (BufferViewed L mpoint routes) where
  same := by
    rintro d d' hs hid - ⟨evs, idx, bdata, routes', hrun, hv⟩
    exact ⟨evs, idx, bdata, routes', hrun, hv.congr hid hs.buffers hs.routes
      fun r hr => entry_of_records (hs.records r hr)⟩
  trans := by
    rintro d d' c - hwf ht ⟨evs, idx, bdata, routes', hrun, hv⟩
    have hconcat : ∀ e, run (atStep L mpoint) (.upload (.buffer {}), routes) (evs ++ [e])
        = run (atStep L mpoint) (.upload (.buffer bdata), routes') [e] := fun e => by
      rw [run_append, hrun, Option.bind_some]
    cases ht with
    | same hs hid hp =>
      exact ⟨evs, idx, bdata, routes', hrun, hv.congr hid hs.buffers hs.routes
        fun r hr => entry_of_records (hs.records r hr)⟩
    | spent hs hid hp =>
      exact ⟨evs ++ [.handleData false], idx, _, _, (hconcat _).trans rfl, hv.spent hs hid⟩
    | put hc hsize hr hb hfs ha hput =>
      exact ⟨evs ++ [.handleData true], _, _, _, (hconcat _).trans rfl, hv.put hwf hr hput⟩

/-- The requests of a run at a buffer mountpoint are, for the server's routes, a run of the view's
events. -/
theorem buffers_viewed {E I : Type} [Evbuffer E I] (L : NodeLibs) (T : AuraTransport)
    (mpoint : Mpoint) (routes : Routes)
    (hroutes : ∀ q, routes.find (mpoint.mountpoint ++ q)
      = ((bufferMount mpoint.mountpoint).fsd.modData.routes.find (mpoint.mountpoint ++ q)).map
        (bufferHandler mpoint id))
    (es : List (Bytes × UploadRequest E)) (mp : UploadMount BufmodData)
    (h : run (storeStep T) (bufferMount mpoint.mountpoint) es = some mp) :
    BufferViewed L mpoint routes mp.fsd.modData := by
  have h₀ : BufferView mpoint id (bufferMount mpoint.mountpoint).fsd.modData {} routes :=
    ⟨rfl, rfl, fun r hr => (by cases hr), fun r hr => (by cases hr), hroutes⟩
  have hholds : Holds mpoint.mountpoint (BufferViewed L mpoint routes) mp.fsd := by
    refine run_inv (C := fun _ _ => True)
      (I := fun mp => Holds mpoint.mountpoint (BufferViewed L mpoint routes) mp.fsd)
      (fun mp e mp' hI _ hs => ?_) es ⟨rfl, storeWf_mount, [], id, {}, routes, rfl, h₀⟩
      (along_true es _) h
    refine (bufferViewed_rule L mpoint routes).request id ?_ ?_ hs hI fun _ _ _ _ => trivial
    · rintro d r b aura d' hread hwf ⟨evs, idx, bdata, routes', hrun, hv⟩
      have hb := hread.record
      obtain ⟨pos, st, rfl⟩ := hread.logged
      refine ⟨evs, idx, bdata, routes', hrun, hv.congr rfl rfl rfl fun q hq => ?_⟩
      rcases eq_or_ne q r with rfl | hne
      · simp [BufmodData.entry, hb]
      · exact entry_of_records (setRecord_of_ne hne _)
    · rintro r b d' hf hp hr hb hd hwf ⟨evs, idx, bdata, routes', hrun, hv⟩
      obtain ⟨bdata', routes'', hdrop, hv'⟩ := hv.drop hr hb hd
      refine ⟨evs ++ [.drop (idx r)], idx, bdata', routes'', ?_, hv'⟩
      rw [run_append, hrun, Option.bind_some]
      simp [run, atStep, mountStep, hdrop]
  exact hholds.prop

end Buffers

end AuraHttpd
