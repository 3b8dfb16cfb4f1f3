import AuraHttpd.Proofs.CallDelivery

/-!
# A delivered call is reclaimed when its connection closes

The connection a result was sent on is set to delete the call when it closes.  A connection has
one close callback, and a sync completion, the readout of a completed call and `terminate` each
set it without looking at the one that is there.  So a delivered call is either deleted or the one
its connection will delete (`Scheduled`) as long as no step sets the close callback of a
connection that still has another call to delete (`KeepsDeletion`), and a step that does leaves
that call behind when the connection is closed (`delivered_reclaimed_iff`).
-/

namespace AuraHttpd

open CString StepSystem

variable {C : UrpcCodes} {W : AuraWire} {mountpoint : Bytes}

/-- The close callback of `c` may be set for `r`: it deletes no other call that is still there. -/
def SlotFree (s : Nodefs) (c : Conn) (r : Option RecId) : Prop :=
  ∀ r', s.closecb c = some (.connCloseCb r') → r' ∈ s.deleted ∨ r = some r'

/-- The event sets no close callback of a connection that has another call to delete. -/
def KeepsDeletion (s : Nodefs) : CallEvent → Prop
  | .complete r _ _ => ∀ res, s.records r = some res → res.isAsync = false →
      SlotFree s res.request.conn (some r)
  | .readout c path => ∀ r res j, s.routes.find path = some r → s.records r = some res →
      res.retbuf = some j → SlotFree s c (some r)
  | .terminate c => SlotFree s c none
  | _ => True

/-- A call whose result was sent on a connection that is closed by now was deleted, and neither a
list nor a route of the mountpoint leads to it. -/
def Reclaimed (s : Nodefs) : Prop :=
  ∀ q r j, (q, Answer.result r j) ∈ s.sent → q.conn ∉ s.conns →
    r ∈ s.deleted ∧ r ∉ s.pendingCallList ∧ r ∉ s.gcCallList ∧ ∀ p, s.routes.find p ≠ some r

/-- The connection a result was sent on is open and will delete the call, unless it was deleted. -/
def Scheduled (s : Nodefs) : Prop :=
  ∀ q r j, (q, Answer.result r j) ∈ s.sent →
    r ∈ s.deleted ∨ q.conn ∈ s.conns ∧ s.closecb q.conn = some (.connCloseCb r)

/-- A close callback deletes a call whose result was sent on its connection. -/
def ClosesDelivered (s : Nodefs) : Prop :=
  ∀ c r, s.closecb c = some (.connCloseCb r) → ∃ q j, (q, Answer.result r j) ∈ s.sent ∧ q.conn = c

theorem Unlinked.foldl_delete : ∀ (l : List RecId) {s : Nodefs}, Unlinked s → Records s →
    Unlinked (l.foldl ahttpdCallDelete s)
  | [], _, h, _ => h
  | r :: l, s, h, hR => Unlinked.foldl_delete l (h.delete hR r) (hR.freed (freed_delete s r))

theorem Unlinked.step {s s' : Nodefs} {e : CallEvent} (h : Unlinked s) (hR : Records s)
    (ht : CallTrans C W mountpoint s e s') : Unlinked s' := by
  cases ht with
  | accept hm => exact { h with }
  | refused hm hc hk => exact { h with }
  | createdSync hm hc =>
    exact Unlinked.addCall (s := { s.nextRequest with callid := _ }) { h with } _
  | @createdAsync c o args hm hc =>
    have := Unlinked.addCall (s := { s.nextRequest with callid := wrapS 32 (s.callid + 1) })
      { h with } (newCall mountpoint s c o true)
    exact { this with }
  | @completedAsync r result retbuf res j hm hr hres hj ha =>
    have := Unlinked.enter (s := { s with inflight := s.inflight.erase r }) { h with } r
    exact { this with }
  | @completedSync r result retbuf res j hm hr hres hj ha hc =>
    have := Unlinked.enter (s := { s with inflight := s.inflight.erase r }) { h with } r
    exact { this with }
  | @readResult c path r res j hm hc hr hres hj =>
    have hlive := h.routes path r hr
    have hnext : Unlinked s.nextRequest := { h with }
    rw [enter_of_not_deleted (s := s.nextRequest) hlive]
    have := hnext.moveToGc { hR with } hres hlive
    exact { this with }
  | @readStatus c path r res hm hc hr hres hj =>
    have := Unlinked.enter (s := s.nextRequest) { h with } r
    exact { this with }
  | terminate hm hc => exact { h with }
  | @closeDelete c r hc hr =>
    have h1 := Unlinked.enter (s := { s with conns := s.conns.erase c }) { h with } r
    exact h1.delete ((hR.close c).freed (freed_enter _ r)) r
  | closeQuiet hc hr => exact { h with }
  | unmount hm =>
    have hR1 : Records { s with mounted := false } := { hR with }
    have h1 := Unlinked.foldl_delete s.pendingCallList (s := { s with mounted := false })
      { h with } hR1
    exact h1.foldl_delete _ (hR1.freed (freed_foldl_delete _ _))

/-- A result sent on a connection together with its close callback, set for a free slot. -/
theorem Scheduled.deliver {s s' : Nodefs} (h : Scheduled s) {q : Request} {r : RecId} {j : Json}
    (hc : q.conn ∈ s.conns) (hfree : SlotFree s q.conn (some r))
    (hsent : s'.sent = s.sent ++ [(q, .result r j)]) (hdel : s'.deleted = s.deleted)
    (hconns : s'.conns = s.conns)
    (hcb : s'.closecb = Function.update s.closecb q.conn (some (.connCloseCb r))) :
    Scheduled s' := by
  intro q' r' j' hm
  rw [hdel, hconns, hcb, Function.update_apply]
  rw [hsent, List.mem_append, List.mem_singleton] at hm
  rcases hm with hm | hm
  · rcases h q' r' j' hm with hd | ⟨hopen, hslot⟩
    · exact .inl hd
    by_cases hq : q'.conn = q.conn
    · rcases hfree r' (hq ▸ hslot) with hd | hr
      · exact .inl hd
      · obtain rfl := Option.some.inj hr
        exact .inr ⟨hopen, if_pos hq⟩
    · exact .inr ⟨hopen, (if_neg hq).trans hslot⟩
  · cases hm
    exact .inr ⟨hc, if_pos rfl⟩

/-- What sends no result, opens or closes no connection and leaves the close callbacks alone. -/
theorem Scheduled.of_le {s s' : Nodefs} (h : Scheduled s)
    (hsent : ∀ q r j, (q, Answer.result r j) ∈ s'.sent → (q, Answer.result r j) ∈ s.sent)
    (hdel : ∀ r ∈ s.deleted, r ∈ s'.deleted) (hconns : ∀ c ∈ s.conns, c ∈ s'.conns)
    (hcb : s'.closecb = s.closecb) : Scheduled s' := by
  intro q r j hm
  rcases h q r j (hsent q r j hm) with hd | ⟨hopen, hslot⟩
  · exact .inl (hdel r hd)
  · exact .inr ⟨hconns _ hopen, hcb ▸ hslot⟩

theorem deleted_subset_delete (s : Nodefs) (r : RecId) :
    ∀ r' ∈ s.deleted, r' ∈ (ahttpdCallDelete s r).deleted := by
  unfold ahttpdCallDelete
  split <;> simp +contextual

theorem deleted_subset_foldl : ∀ (l : List RecId) (s : Nodefs),
    ∀ r ∈ s.deleted, r ∈ (l.foldl ahttpdCallDelete s).deleted
  | [], _, _, hr => hr
  | r' :: l, s, r, hr => deleted_subset_foldl l _ r (deleted_subset_delete s r' r hr)

@[simp] theorem enter_deleted (s : Nodefs) (r : RecId) : (s.enter r).deleted = s.deleted := by
  unfold Nodefs.enter
  split_ifs <;> rfl

@[simp] theorem enter_closecb (s : Nodefs) (r : RecId) : (s.enter r).closecb = s.closecb := by
  unfold Nodefs.enter
  split_ifs <;> rfl

/-- Closing a connection deletes the call of its slot, and what was deleted stays so. -/
theorem deleted_connCloseCb {s : Nodefs} {r : RecId} {res : PendingCall}
    (hres : s.records r = some res) :
    (∀ r' ∈ s.deleted, r' ∈ (connCloseCb s r).deleted) ∧ r ∈ (connCloseCb s r).deleted := by
  unfold connCloseCb ahttpdCallDelete
  simp +contextual [hres]

theorem Scheduled.step {s s' : Nodefs} {e : CallEvent} (h : Scheduled s) (hR : Records s)
    (hC : KeepsDeletion s e) (ht : CallTrans C W mountpoint s e s') : Scheduled s' := by
  cases ht with
  | accept hm => exact h.of_le (fun _ _ _ => id) (fun _ => id) (by simp +contextual) rfl
  | refused hm hc hk =>
    exact h.of_le (by simp [Nodefs.send, Nodefs.nextRequest]) (fun _ => id) (fun _ => id) rfl
  | createdSync hm hc => exact h.of_le (fun _ _ _ => id) (fun _ => id) (fun _ => id) rfl
  | createdAsync hm hc =>
    exact h.of_le (by simp [Nodefs.send, Nodefs.addCall, Nodefs.nextRequest]) (fun _ => id)
      (fun _ => id) rfl
  | completedAsync hm hr hres hj ha =>
    refine h.of_le ?_ ?_ ?_ ?_ <;> simp [Nodefs.setRecord]
  | @completedSync r result retbuf res j hm hr hres hj ha hc =>
    refine h.deliver (q := res.request) (j := j) hc (hC res hres ha) ?_ ?_ ?_ ?_ <;>
      simp [Nodefs.setRecord, Nodefs.send, Nodefs.setClosecb]
  | @readResult c path r res j hm hc hr hres hj =>
    refine h.deliver (q := s.request c) (j := j) hc (hC r res j hr hres hj) ?_ ?_ ?_ ?_ <;>
      simp [Nodefs.setRecord, Nodefs.send, Nodefs.setClosecb, Nodefs.moveToGc,
        Nodefs.nextRequest, Nodefs.request]
  | readStatus hm hc hr hres hj =>
    refine h.of_le ?_ ?_ ?_ ?_ <;> simp [Nodefs.send, Nodefs.nextRequest]
  | @terminate c hm hc =>
    intro q r j hm'
    have hm' : (q, Answer.result r j) ∈ s.sent := by
      simpa [Nodefs.send, Nodefs.setClosecb, Nodefs.nextRequest] using hm'
    rcases h q r j hm' with hd | ⟨hopen, hslot⟩
    · exact .inl hd
    by_cases hq : q.conn = c
    · rcases hC r (hq ▸ hslot) with hd | hr
      · exact .inl hd
      · cases hr
    · exact .inr ⟨hopen, (Function.update_of_ne hq ..).trans hslot⟩
  | @closeDelete c r hc hr =>
    obtain ⟨res, j, hres, -⟩ := hR.closecb c r hr
    have hdel := deleted_connCloseCb (s := { s with conns := s.conns.erase c }) (r := r) hres
    obtain ⟨pl, gl, dl, st, rt, hs', -⟩ :=
      freed_connCloseCb { s with conns := s.conns.erase c } r
    rw [hs'] at hdel ⊢
    intro q r' j' hm'
    rcases h q r' j' hm' with hd | ⟨hopen, hslot⟩
    · exact .inl (hdel.1 r' hd)
    by_cases hq : q.conn = c
    · rw [hq, hr] at hslot
      cases hslot
      exact .inl hdel.2
    · exact .inr ⟨(List.mem_erase_of_ne hq).2 hopen, hslot⟩
  | @closeQuiet c hc hr =>
    intro q r j hm'
    rcases h q r j hm' with hd | ⟨hopen, hslot⟩
    · exact .inl hd
    by_cases hq : q.conn = c
    · exact absurd (hq ▸ hslot) (hr r)
    · exact .inr ⟨(List.mem_erase_of_ne hq).2 hopen, hslot⟩
  | unmount hm =>
    obtain ⟨pl, gl, dl, st, rt, hs', -⟩ := freed_cleanup { s with mounted := false }
    have hdel : ∀ r ∈ s.deleted, r ∈ dl := fun r hr => by
      rw [show dl = _ from (congrArg Nodefs.deleted hs').symm]
      exact deleted_subset_foldl _ _ r (deleted_subset_foldl s.pendingCallList _ r hr)
    rw [hs']
    exact h.of_le (fun _ _ _ => id) hdel (fun _ => id) rfl

theorem Scheduled.reclaimed {s : Nodefs} (h : Scheduled s) (hu : Unlinked s) : Reclaimed s := by
  intro q r j hm hclosed
  rcases h q r j hm with hd | ⟨hopen, -⟩
  · have hlist : r ∉ s.pendingCallList ++ s.gcCallList := fun hr => (hu.lists r hr).1 hd
    rw [List.mem_append, not_or] at hlist
    exact ⟨hd, hlist.1, hlist.2, fun p hp => hu.routes p r hp hd⟩
  · exact absurd hopen hclosed

/-- What an event leaves in the slot of a connection: what was there, nothing that deletes a
call, or the deletion of a call whose result it sent there. -/
theorem callTrans_closecb {s s' : Nodefs} {e : CallEvent} (ht : CallTrans C W mountpoint s e s')
    {c : Conn} {r : RecId} (hr : s'.closecb c = some (.connCloseCb r)) :
    s.closecb c = some (.connCloseCb r)
      ∨ ∃ q j, (q, Answer.result r j) ∈ s'.sent ∧ q.conn = c := by
  cases ht with
  | completedAsync hm hr' hres hj ha => exact .inl (by simpa [Nodefs.setRecord] using hr)
  | @completedSync r' result retbuf res j hm hr' hres hj ha hc =>
    rw [closecb_setClosecb] at hr
    split_ifs at hr with hcc
    · cases hr
      exact .inr ⟨res.request, j, by simp [Nodefs.setClosecb, Nodefs.send], hcc.symm⟩
    · exact .inl (by simpa [Nodefs.setRecord, Nodefs.send] using hr)
  | @readResult c' path r' res j hm hc hr' hres hj =>
    rw [closecb_setClosecb] at hr
    split_ifs at hr with hcc
    · cases hr
      exact .inr ⟨s.request c', j, by simp [Nodefs.setClosecb, Nodefs.send, Nodefs.setRecord,
        Nodefs.moveToGc], hcc.symm⟩
    · exact .inl (by simpa [Nodefs.setRecord, Nodefs.send, Nodefs.moveToGc,
        Nodefs.nextRequest] using hr)
  | readStatus hm hc hr' hres hj =>
    exact .inl (by simpa [Nodefs.send, Nodefs.nextRequest] using hr)
  | @terminate c' hm hc =>
    have hr : (s.setClosecb c' .terminateRqCloseCb).closecb c = some (.connCloseCb r) := hr
    rw [closecb_setClosecb] at hr
    split_ifs at hr with hcc
    · cases hr
    · exact .inl hr
  | @closeDelete c' r' hc hr' =>
    obtain ⟨pl, gl, dl, st, rt, hs', -⟩ :=
      freed_connCloseCb { s with conns := s.conns.erase c' } r'
    rw [hs'] at hr
    exact .inl hr
  | unmount hm =>
    obtain ⟨pl, gl, dl, st, rt, hs', -⟩ := freed_cleanup { s with mounted := false }
    rw [hs'] at hr
    exact .inl hr
  | _ => exact .inl hr

theorem conns_nodup_step {s s' : Nodefs} {e : CallEvent} (h : s.conns.Nodup) (hR : Records s)
    (ht : CallTrans C W mountpoint s e s') : s'.conns.Nodup := by
  cases ht with
  | accept hm =>
    have hnew : s.accepted ∉ s.conns := fun hc => Nat.lt_irrefl _ (hR.conns_lt _ hc)
    exact List.nodup_append.2 ⟨h, by simp, fun a ha b hb hab =>
      hnew (List.mem_singleton.1 hb ▸ hab ▸ ha)⟩
  | closeDelete hc hr =>
    obtain ⟨pl, gl, dl, st, rt, hs', -⟩ := freed_connCloseCb { s with conns := s.conns.erase _ } _
    rw [hs']
    exact h.erase _
  | closeQuiet hc hr => exact h.erase _
  | unmount hm =>
    obtain ⟨pl, gl, dl, st, rt, hs', -⟩ := freed_cleanup { s with mounted := false }
    rw [hs']
    exact h
  | completedAsync hm hr' hres hj ha => simpa [Nodefs.setRecord] using h
  | completedSync hm hr' hres hj ha hc =>
    simpa [Nodefs.setRecord, Nodefs.send, Nodefs.setClosecb] using h
  | readResult hm hc hr' hres hj =>
    simpa [Nodefs.setRecord, Nodefs.send, Nodefs.setClosecb, Nodefs.moveToGc,
      Nodefs.nextRequest] using h
  | readStatus hm hc hr' hres hj => simpa [Nodefs.send, Nodefs.nextRequest] using h
  | _ => exact h

/-- An event that does not meet `KeepsDeletion` takes the deletion of a call from its slot. -/
theorem lost_of_not_keepsDeletion {s s' : Nodefs} {e : CallEvent}
    (ht : CallTrans C W mountpoint s e s') (hC : ¬ KeepsDeletion s e) :
    ∃ c r, c ∈ s'.conns ∧ s.closecb c = some (.connCloseCb r) ∧ r ∉ s'.deleted
      ∧ s'.closecb c ≠ some (.connCloseCb r) := by
  cases ht with
  | @completedSync r result retbuf res j hm hr hres hj ha hc =>
    simp only [KeepsDeletion, SlotFree, not_forall, not_or] at hC
    obtain ⟨res', hres', -, r', hslot, hd, hne⟩ := hC
    obtain rfl := Option.some.inj (hres.symm.trans hres')
    refine ⟨res.request.conn, r', ?_, hslot, ?_, ?_⟩
    · simpa [Nodefs.setClosecb, Nodefs.send, Nodefs.setRecord] using hc
    · simpa [Nodefs.setClosecb, Nodefs.send, Nodefs.setRecord] using hd
    · rw [closecb_setClosecb, if_pos rfl]
      simpa using hne
  | @completedAsync r result retbuf res j hm hr hres hj ha =>
    simp only [KeepsDeletion, not_forall] at hC
    obtain ⟨res', hres', ha', -⟩ := hC
    obtain rfl := Option.some.inj (hres.symm.trans hres')
    rw [ha] at ha'
    cases ha'
  | @readResult c path r res j hm hc hr hres hj =>
    simp only [KeepsDeletion, SlotFree, not_forall, not_or] at hC
    obtain ⟨r', res', j', hr', hres', hj', r'', hslot, hd, hne⟩ := hC
    obtain rfl := Option.some.inj (hr.symm.trans hr')
    refine ⟨c, r'', ?_, hslot, ?_, ?_⟩
    · simpa [Nodefs.setClosecb, Nodefs.send, Nodefs.setRecord, Nodefs.moveToGc,
        Nodefs.nextRequest] using hc
    · simpa [Nodefs.setClosecb, Nodefs.send, Nodefs.setRecord, Nodefs.moveToGc,
        Nodefs.nextRequest] using hd
    · rw [closecb_setClosecb, if_pos rfl]
      simpa using hne
  | @readStatus c path r res hm hc hr hres hj =>
    simp only [KeepsDeletion, not_forall] at hC
    obtain ⟨r', res', j', hr', hres', hj', -⟩ := hC
    obtain rfl := Option.some.inj (hr.symm.trans hr')
    obtain rfl := Option.some.inj (hres.symm.trans hres')
    rw [hj] at hj'
    cases hj'
  | @terminate c hm hc =>
    simp only [KeepsDeletion, SlotFree, not_forall, not_or] at hC
    obtain ⟨r', hslot, hd, -⟩ := hC
    refine ⟨c, r', hc, hslot, hd, ?_⟩
    show (s.setClosecb c .terminateRqCloseCb).closecb c ≠ _
    rw [closecb_setClosecb, if_pos rfl]
    simp
  | _ => exact absurd trivial hC

/-- A delivered call whose connection is not going to delete it stays when that closes. -/
theorem not_reclaimed_of_lost {s : Nodefs} {c : Conn} {q : Request} {r : RecId} {j : Json}
    (hn : s.conns.Nodup) (hc : c ∈ s.conns) (hm : (q, Answer.result r j) ∈ s.sent)
    (hq : q.conn = c) (hd : r ∉ s.deleted) (hslot : s.closecb c ≠ some (.connCloseCb r)) :
    ∃ s', callStep C W mountpoint s (.close c) = some s' ∧ ¬ Reclaimed s' := by
  have hclosed : q.conn ∉ s.conns.erase c := hq ▸ hn.not_mem_erase
  simp only [callStep, if_pos hc]
  split
  · rename_i r' hr'
    have hne : r ≠ r' := fun he => hslot (he ▸ hr')
    refine ⟨_, rfl, fun hrec => ?_⟩
    have hlive : r ∉ (connCloseCb { s with conns := s.conns.erase c } r').deleted :=
      deleted_delete (by simpa using hd) hne
    obtain ⟨pl, gl, dl, st, rt, hs', -⟩ := freed_connCloseCb { s with conns := s.conns.erase c } r'
    rw [hs'] at hrec hlive
    exact hlive (hrec q r j hm hclosed).1
  · exact ⟨_, rfl, fun hrec => hd (hrec q r j hm hclosed).1⟩

/-- What is known of a state that a run leads to. -/
structure Reached (s : Nodefs) : Prop where
  records : Records s
  unlinked : Unlinked s
  closes : ClosesDelivered s
  conns_nodup : s.conns.Nodup

theorem Reached.init : Reached {} := by
  refine ⟨.init, .init, ?_, List.nodup_nil⟩
  rintro c r ⟨⟩

theorem Reached.step {s s' : Nodefs} {e : CallEvent} (h : Reached s)
    (ht : CallTrans C W mountpoint s e s') : Reached s' := by
  refine ⟨h.records.step ht, h.unlinked.step h.records ht, fun c r hr => ?_,
    conns_nodup_step h.conns_nodup h.records ht⟩
  rcases callTrans_closecb ht hr with hr | hnew
  · obtain ⟨q, j, hm, hq⟩ := h.closes c r hr
    obtain ⟨l, hl⟩ := callTrans_sent_append ht
    exact ⟨q, j, by rw [hl]; exact List.mem_append_left _ hm, hq⟩
  · exact hnew

theorem reached_of_run {es : List CallEvent} {s : Nodefs}
    (h : run (callStep C W mountpoint) {} es = some s) : Reached s :=
  run_inv (fun _ _ _ hI _ hs => hI.step (callTrans_of_step hs)) es .init (along_true es _) h

theorem scheduled_of_run {es : List CallEvent} {s : Nodefs}
    (hC : Along (callStep C W mountpoint) KeepsDeletion {} es)
    (h : run (callStep C W mountpoint) {} es = some s) : Scheduled s := by
  have hinv : Records s ∧ Scheduled s :=
    run_inv (I := fun s => Records s ∧ Scheduled s) (fun s e s' hI hCe hs =>
      have ht := callTrans_of_step hs
      ⟨hI.1.step ht, hI.2.step hI.1 hCe ht⟩) es ⟨.init, fun _ _ _ hm => by cases hm⟩ hC h
  exact hinv.2

/-- A run reclaims its delivered calls wherever it has got to, and whichever connection is closed
there, exactly when no event takes the close callback of a connection that has another call to
delete. -/
theorem delivered_reclaimed_iff (C : UrpcCodes) (W : AuraWire) (mountpoint : Bytes)
    (es : List CallEvent) (s : Nodefs) (h : run (callStep C W mountpoint) {} es = some s) :
    Along (callStep C W mountpoint) KeepsDeletion {} es ↔
      ∀ es₁ s₁, es₁ <+: es → run (callStep C W mountpoint) {} es₁ = some s₁ →
        Reclaimed s₁ ∧ ∀ c s', callStep C W mountpoint s₁ (.close c) = some s' → Reclaimed s' := by
  constructor
  · intro hC es₁ s₁ hpre hs₁
    have hreach := reached_of_run hs₁
    have hC₁ := hC.of_prefix hpre
    have hsch := scheduled_of_run hC₁ hs₁
    refine ⟨hsch.reclaimed hreach.unlinked, fun c s' hs' => ?_⟩
    have ht := callTrans_of_step hs'
    have hkeep : KeepsDeletion s₁ (.close c) := trivial
    exact (hsch.step hreach.records hkeep ht).reclaimed (hreach.step ht).unlinked
  · intro hrec
    refine along_of_prefix fun es₁ e t hpre ht => ?_
    by_contra hC
    obtain ⟨t', ht'⟩ := run_of_prefix h hpre
    obtain ⟨u, hu, hstep⟩ := run_concat ht'
    obtain rfl : t = u := Option.some.inj (ht.symm.trans hu)
    have htr := callTrans_of_step hstep
    have hreach := reached_of_run ht'
    obtain ⟨c, r, hc, hslot, hd, hlost⟩ := lost_of_not_keepsDeletion htr hC
    obtain ⟨q, j, hm, hq⟩ := (reached_of_run ht).closes c r hslot
    obtain ⟨l, hl⟩ := callTrans_sent_append htr
    have hm' : (q, Answer.result r j) ∈ t'.sent := by
      rw [hl]
      exact List.mem_append_left _ hm
    obtain ⟨s', hs', hnot⟩ :
        ∃ s', callStep C W mountpoint t' (.close c) = some s' ∧ ¬ Reclaimed s' :=
      not_reclaimed_of_lost hreach.conns_nodup hc hm' hq hd hlost
    exact hnot ((hrec _ _ hpre ht').2 c s' hs')

/-- A sync call on each of two connections, which both close. -/
def twoConnsRun : List CallEvent :=
  [.accept, .accept, .create 0 pingObject (.array []) false true,
    .create 1 pingObject (.array []) false true, .complete 0 0 none, .complete 1 0 none,
    .close 0, .close 1]

theorem delivered_reclaimed_twoConnsRun :
    ∃ s, run (callStep .digits .littleEndian (lit "/online")) {} twoConnsRun = some s
      ∧ s.deleted = [0, 1] ∧ Reclaimed s := by
  refine ⟨_, rfl, rfl, (((delivered_reclaimed_iff .digits .littleEndian (lit "/online")
    twoConnsRun _ rfl).1 ?_) twoConnsRun _ (List.prefix_refl _) rfl).1⟩
  refine ⟨trivial, ?_⟩
  rintro _ ⟨⟩
  refine ⟨trivial, ?_⟩
  rintro _ ⟨⟩
  refine ⟨trivial, ?_⟩
  rintro _ ⟨⟩
  refine ⟨trivial, ?_⟩
  rintro _ ⟨⟩
  refine ⟨?_, ?_⟩
  · rintro _ ⟨⟩ - r ⟨⟩
  rintro _ ⟨⟩
  refine ⟨?_, ?_⟩
  · rintro _ ⟨⟩ - r ⟨⟩
  rintro _ ⟨⟩
  exact ⟨trivial, fun _ _ => ⟨trivial, fun _ _ => trivial⟩⟩

/-- Two sync calls one after another on a connection that is kept open. -/
def keepAliveRun : List CallEvent :=
  [.accept, .create 0 pingObject (.array []) false true, .complete 0 0 none,
    .create 0 pingObject (.array []) false true, .complete 1 0 none, .close 0]

theorem keepAliveRun_leaves_first :
    ¬ ∀ (C : UrpcCodes) (W : AuraWire) (mountpoint : Bytes) (es : List CallEvent) (s : Nodefs),
      run (callStep C W mountpoint) {} es = some s → Reclaimed s := by
  intro h
  have hrec := h .digits .littleEndian (lit "/online") keepAliveRun _ rfl
  let j : Json := .object [(lit "status", .string (lit "completed"))]
  have hd := (hrec ⟨0, 0⟩ 0 j (List.mem_cons_self ..) List.not_mem_nil).1
  exact absurd (List.mem_singleton.1 hd) (by decide)

end AuraHttpd
