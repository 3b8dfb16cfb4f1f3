import AuraHttpd.Proofs.CallSteps
import AuraHttpd.Proofs.Serdes

/-!
# A call's record is deleted once and not used afterwards

A record is reached from the two lists, its route, the close callback of a connection and aura's
calls in flight.  As long as a completed record is read out only on a connection no other
connection waits with for its deletion, and the mountpoint goes away only when no open connection
waits so (`SoleReader`), every one of them points to records that are not deleted (`Owned`), and
closing a connection is the only thing left that does.

A second reader on another connection breaks this: both connections then delete the record when
they close.
-/

namespace AuraHttpd

open CString StepSystem

variable {C : UrpcCodes} {W : AuraWire} {mountpoint : Bytes}

/-- A readout of a completed call finds no other open connection set to delete it, and an unmount
no open connection set to delete any call. -/
def SoleReader (s : Nodefs) : CallEvent → Prop
  | .readout c path => ∀ r res j, s.routes.find path = some r → s.records r = some res →
      res.retbuf = some j → ∀ c' ∈ s.conns, s.closecb c' = some (.connCloseCb r) → c' = c
  | .unmount => ∀ c ∈ s.conns, ∀ r, s.closecb c ≠ some (.connCloseCb r)
  | _ => True

/-- No list and no route of the mountpoint leads to a deleted record. -/
structure Unlinked (s : Nodefs) : Prop where
  routes : ∀ p r, s.routes.find p = some r → r ∉ s.deleted
  lists_nodup : (s.pendingCallList ++ s.gcCallList).Nodup
  lists : ∀ r ∈ s.pendingCallList ++ s.gcCallList, r ∉ s.deleted ∧ r < s.next
  deleted_lt : ∀ r ∈ s.deleted, r < s.next

theorem Unlinked.init : Unlinked {} := by
  constructor <;> simp [RouteTable.find, RouteTable.empty]

theorem Unlinked.enter {s : Nodefs} (h : Unlinked s) (r : RecId) : Unlinked (s.enter r) := by
  unfold Nodefs.enter
  split_ifs
  · exact { h with }
  · exact h

theorem Unlinked.delete {s : Nodefs} (h : Unlinked s) (hR : Records s) (r : RecId) :
    Unlinked (ahttpdCallDelete s r) := by
  unfold ahttpdCallDelete
  split
  · exact h
  rename_i res hres
  have hnew : ∀ {r'}, r' ∉ s.deleted → r' ≠ r → r' ∉ s.deleted ++ [r] := fun hr' hne => by
    simp [hr', hne]
  have hsub : (s.pendingCallList.erase r ++ s.gcCallList.erase r).Sublist
      (s.pendingCallList ++ s.gcCallList) := List.erase_sublist.append List.erase_sublist
  have hpend := (List.nodup_append.1 h.lists_nodup).1
  have hgc := (List.nodup_append.1 h.lists_nodup).2.1
  constructor
  · intro p r' hp
    simp only [RouteTable.find_del] at hp
    split_ifs at hp with hpath
    refine hnew (h.routes p r' hp) ?_
    rintro rfl
    obtain ⟨x, hx, rfl⟩ := hR.routes p r' hp
    obtain rfl := Option.some.inj (hres.symm.trans hx)
    exact hpath rfl
  · exact h.lists_nodup.sublist hsub
  · intro r' hr'
    have hmem := h.lists r' (hsub.subset hr')
    refine ⟨hnew hmem.1 ?_, hmem.2⟩
    rintro rfl
    rcases List.mem_append.1 hr' with hr' | hr'
    · exact hpend.not_mem_erase hr'
    · exact hgc.not_mem_erase hr'
  · intro r' hr'
    rcases List.mem_append.1 hr' with hr' | hr'
    · exact h.deleted_lt r' hr'
    · exact (List.mem_singleton.1 hr') ▸ hR.lt_next r res hres

theorem Unlinked.addCall {s : Nodefs} (h : Unlinked s) (res : PendingCall) :
    Unlinked (s.addCall res) := by
  have hnew : s.next ∉ s.deleted := fun hd => Nat.lt_irrefl _ (h.deleted_lt _ hd)
  have hlt : ∀ {r}, r < s.next → r < s.next + 1 := fun hr => hr.trans (Nat.lt_succ_self _)
  refine ⟨fun p r hp => ?_, ?_, fun r hr => ?_, fun r hr => hlt (h.deleted_lt r hr)⟩
  · rcases RouteTable.find_set_cases hp with hp | ⟨-, rfl⟩
    · exact h.routes p r hp
    · exact hnew
  · have hnot : s.next ∉ s.pendingCallList ++ s.gcCallList := fun hm =>
      Nat.lt_irrefl _ (h.lists _ hm).2
    have := h.lists_nodup
    simp only [Nodefs.addCall, List.nodup_append, List.mem_append] at *
    grind
  · have hr' : r ∈ s.pendingCallList ++ s.gcCallList ∨ r = s.next := by
      simp only [Nodefs.addCall, List.mem_append, List.mem_singleton] at *
      tauto
    rcases hr' with hr' | rfl
    · exact ⟨(h.lists r hr').1, hlt (h.lists r hr').2⟩
    · exact ⟨hnew, Nat.lt_succ_self _⟩

theorem Unlinked.moveToGc {s : Nodefs} (h : Unlinked s) (hR : Records s) {r : RecId}
    {res : PendingCall} (hres : s.records r = some res) (hr : r ∉ s.deleted) :
    Unlinked (s.moveToGc r) := by
  have hpend := (List.nodup_append.1 h.lists_nodup).1
  have hgc := (List.nodup_append.1 h.lists_nodup).2.1
  refine { h with lists_nodup := ?_, lists := fun r' hr' => ?_ }
  · have hp := hpend.not_mem_erase (a := r)
    have hg := hgc.not_mem_erase (a := r)
    have hsub : (s.pendingCallList.erase r ++ s.gcCallList.erase r).Sublist
        (s.pendingCallList ++ s.gcCallList) := List.erase_sublist.append List.erase_sublist
    have := h.lists_nodup.sublist hsub
    simp only [Nodefs.moveToGc, List.nodup_append] at *
    grind
  · have hr' : r' ∈ s.pendingCallList ++ s.gcCallList ∨ r' = r := by
      simp only [Nodefs.moveToGc, List.mem_append, List.mem_singleton] at *
      rcases hr' with hr' | hr' | hr'
      · exact .inl (.inl (List.mem_of_mem_erase hr'))
      · exact .inl (.inr (List.mem_of_mem_erase hr'))
      · exact .inr hr'
    rcases hr' with hr' | rfl
    · exact h.lists r' hr'
    · exact ⟨hr, hR.lt_next r' res hres⟩

/-- Nothing points to a deleted record. -/
structure Owned (s : Nodefs) : Prop where
  routes : ∀ p r, s.routes.find p = some r → r ∉ s.deleted
  closecb : ∀ c ∈ s.conns, ∀ r, s.closecb c = some (.connCloseCb r) → r ∉ s.deleted
  closecb_inj : ∀ c ∈ s.conns, ∀ c' ∈ s.conns, ∀ r, s.closecb c = some (.connCloseCb r) →
    s.closecb c' = some (.connCloseCb r) → c = c'
  inflight : s.mounted = true → ∀ r ∈ s.inflight, r ∉ s.deleted
  lists_nodup : (s.pendingCallList ++ s.gcCallList).Nodup
  lists : ∀ r ∈ s.pendingCallList ++ s.gcCallList, r ∉ s.deleted ∧ r < s.next
  deleted_lt : ∀ r ∈ s.deleted, r < s.next
  deleted_nodup : s.deleted.Nodup
  stale : s.stale = []
  conns_nodup : s.conns.Nodup

theorem Owned.init : Owned {} := by
  constructor <;> simp [RouteTable.find, RouteTable.empty]

theorem Owned.unlinked {s : Nodefs} (h : Owned s) : Unlinked s :=
  ⟨h.routes, h.lists_nodup, h.lists, h.deleted_lt⟩

theorem enter_of_not_deleted {s : Nodefs} {r : RecId} (h : r ∉ s.deleted) : s.enter r = s :=
  if_neg h

theorem Owned.delete {s : Nodefs} (h : Owned s) (hR : Records s) {r : RecId}
    (hr : r ∉ s.deleted) (hslot : ∀ c ∈ s.conns, s.closecb c ≠ some (.connCloseCb r))
    (hin : s.mounted = true → r ∉ s.inflight) : Owned (ahttpdCallDelete s r) := by
  have hu := h.unlinked.delete hR r
  unfold ahttpdCallDelete at hu ⊢
  split
  · exact h
  rename_i res hres
  rw [hres] at hu
  have hnew : ∀ {r'}, r' ∉ s.deleted → r' ≠ r → r' ∉ s.deleted ++ [r] := fun hr' hne => by
    simp [hr', hne]
  refine { h with
    routes := hu.routes, lists_nodup := hu.lists_nodup, lists := hu.lists
    deleted_lt := hu.deleted_lt, closecb := fun c hc r' hc' => ?_
    inflight := fun hm r' hr' => ?_, deleted_nodup := ?_ }
  · exact hnew (h.closecb c hc r' hc') fun hr' => hslot c hc (hr' ▸ hc')
  · exact hnew (h.inflight hm r' hr') fun hr'' => hin hm (hr'' ▸ hr')
  · refine List.nodup_append.2 ⟨h.deleted_nodup, by simp, ?_⟩
    rintro a ha b hb rfl
    exact hr (List.mem_singleton.1 hb ▸ ha)

theorem deleted_delete {s : Nodefs} {r r' : RecId} (h : r' ∉ s.deleted) (hne : r' ≠ r) :
    r' ∉ (ahttpdCallDelete s r).deleted := by
  unfold ahttpdCallDelete
  split
  · exact h
  · simp [h, hne]

/-- Deleting the records of a list one after another, after the unmount began and with no open
connection set to delete one. -/
theorem Owned.foldl_delete : ∀ (l : List RecId) {s : Nodefs}, Owned s → Records s →
    s.mounted = false → (∀ c ∈ s.conns, ∀ r, s.closecb c ≠ some (.connCloseCb r)) →
    l.Nodup → (∀ r ∈ l, r ∉ s.deleted) → Owned (l.foldl ahttpdCallDelete s)
  | [], s, h, _, _, _, _, _ => h
  | r :: l, s, h, hR, hm, hslot, hl, hlive => by
    have hr := List.nodup_cons.1 hl
    have hnext := h.delete hR (hlive r (by simp)) (fun c hc => hslot c hc r) (by simp [hm])
    obtain ⟨pl, gl, dl, st, rt, hd, hrt⟩ := freed_delete s r
    refine Owned.foldl_delete l hnext (hR.freed (freed_delete s r)) (by rw [hd]; exact hm)
      (by rw [hd]; exact hslot) hr.2 fun r' hr' => ?_
    exact deleted_delete (hlive r' (by simp [hr'])) fun he => hr.1 (he ▸ hr')

theorem Owned.cleanup {s : Nodefs} (h : Owned s) (hR : Records s) (hm : s.mounted = false)
    (hslot : ∀ c ∈ s.conns, ∀ r, s.closecb c ≠ some (.connCloseCb r)) :
    Owned (ahttpdCallresourceCleanup s) := by
  have h1 := Owned.foldl_delete s.pendingCallList h hR hm hslot
    (List.nodup_append.1 h.lists_nodup).1 fun r hr => (h.lists r (by simp [hr])).1
  have hf := freed_foldl_delete s.pendingCallList s
  refine Owned.foldl_delete _ h1 (hR.freed hf) ?_ ?_ (List.nodup_append.1 h1.lists_nodup).2.1
    fun r hr => (h1.lists r (by simp [hr])).1
  · obtain ⟨pl, gl, dl, st, rt, hd, -⟩ := hf
    rw [hd]
    exact hm
  · obtain ⟨pl, gl, dl, st, rt, hd, -⟩ := hf
    rw [hd]
    exact hslot

theorem Owned.addCall {s : Nodefs} (h : Owned s) (res : PendingCall) : Owned (s.addCall res) := by
  have hu := h.unlinked.addCall res
  have hnew : s.next ∉ s.deleted := fun hd => Nat.lt_irrefl _ (h.deleted_lt _ hd)
  refine { h with
    routes := hu.routes, lists_nodup := hu.lists_nodup, lists := hu.lists
    deleted_lt := hu.deleted_lt, inflight := fun hm r hr => ?_ }
  rcases List.mem_append.1 hr with hr | hr
  · exact h.inflight hm r hr
  · exact List.mem_singleton.1 hr ▸ hnew

theorem Owned.moveToGc {s : Nodefs} (h : Owned s) (hR : Records s) {r : RecId}
    {res : PendingCall} (hres : s.records r = some res) (hr : r ∉ s.deleted) :
    Owned (s.moveToGc r) :=
  have hu := h.unlinked.moveToGc hR hres hr
  { h with lists_nodup := hu.lists_nodup, lists := hu.lists }

theorem Owned.setClosecb {s : Nodefs} (h : Owned s) {c : Conn} {cb : CloseCb}
    (hcb : ∀ r, cb = .connCloseCb r → r ∉ s.deleted ∧
      ∀ c' ∈ s.conns, s.closecb c' = some (.connCloseCb r) → c' = c) :
    Owned (s.setClosecb c cb) := by
  refine { h with closecb := fun c' hc' r hr => ?_, closecb_inj := fun c₁ h₁ c₂ h₂ r hr₁ hr₂ => ?_ }
  · rw [closecb_setClosecb] at hr
    split_ifs at hr
    · exact (hcb r (Option.some.inj hr)).1
    · exact h.closecb c' hc' r hr
  · rw [closecb_setClosecb] at hr₁ hr₂
    split_ifs at hr₁ hr₂ with e₁ e₂ e₂
    · rw [e₁, e₂]
    · exact e₁.trans ((hcb r (Option.some.inj hr₁)).2 c₂ h₂ hr₂).symm
    · exact ((hcb r (Option.some.inj hr₂)).2 c₁ h₁ hr₁).trans e₂.symm
    · exact h.closecb_inj c₁ h₁ c₂ h₂ r hr₁ hr₂

/-- A new connection has no close callback yet. -/
theorem Owned.accept {s : Nodefs} (h : Owned s) (hR : Records s) :
    Owned { s with accepted := s.accepted + 1, conns := s.conns ++ [s.accepted] } := by
  have hnew : s.accepted ∉ s.conns := fun hc => Nat.lt_irrefl _ (hR.conns_lt _ hc)
  have hcb : ∀ c ∈ s.conns ++ [s.accepted], ∀ r, s.closecb c = some (.connCloseCb r) →
      c ∈ s.conns := by
    intro c hc r hr
    rcases List.mem_append.1 hc with hc | hc
    · exact hc
    · obtain rfl := List.mem_singleton.1 hc
      exact absurd (hR.closecb_lt _ (by rw [hr]; simp)) (Nat.lt_irrefl _)
  refine { h with
    closecb := fun c hc r hr => h.closecb c (hcb c hc r hr) r hr
    closecb_inj := fun c hc c' hc' r hr hr' =>
      h.closecb_inj c (hcb c hc r hr) c' (hcb c' hc' r hr') r hr hr'
    conns_nodup := ?_ }
  refine List.nodup_append.2 ⟨h.conns_nodup, by simp, ?_⟩
  rintro a ha b hb rfl
  exact hnew (List.mem_singleton.1 hb ▸ ha)

theorem Owned.close {s : Nodefs} (h : Owned s) (c : Conn) :
    Owned { s with conns := s.conns.erase c } :=
  have herase : ∀ c' ∈ s.conns.erase c, c' ∈ s.conns := fun _ => List.mem_of_mem_erase
  { h with
    closecb := fun c' hc' => h.closecb c' (herase c' hc')
    closecb_inj := fun c₁ h₁ c₂ h₂ => h.closecb_inj c₁ (herase c₁ h₁) c₂ (herase c₂ h₂)
    conns_nodup := h.conns_nodup.erase c }

theorem Owned.step {s s' : Nodefs} {e : CallEvent} (h : Owned s) (hR : Records s)
    (hC : SoleReader s e) (ht : CallTrans C W mountpoint s e s') : Owned s' := by
  cases ht with
  | accept hm => exact h.accept hR
  | refused hm hc hk => exact { h with }
  | createdSync hm hc =>
    exact Owned.addCall (s := { s.nextRequest with callid := _ }) { h with } _
  | @createdAsync c o args hm hc =>
    have := Owned.addCall (s := { s.nextRequest with callid := wrapS 32 (s.callid + 1) })
      { h with } (newCall mountpoint s c o true)
    exact { this with }
  | @completedAsync r result retbuf res j hm hr hres hj ha =>
    rw [enter_of_not_deleted (s := { s with inflight := s.inflight.erase r }) (h.inflight hm r hr)]
    exact { h with inflight := fun hm r' hr' => h.inflight hm r' (List.mem_of_mem_erase hr') }
  | @completedSync r result retbuf res j hm hr hres hj ha hc =>
    rw [enter_of_not_deleted (s := { s with inflight := s.inflight.erase r }) (h.inflight hm r hr)]
    refine Owned.setClosecb ?_ ?_
    · exact { h with inflight := fun hm r' hr' => h.inflight hm r' (List.mem_of_mem_erase hr') }
    · rintro r' ⟨⟩
      refine ⟨h.inflight hm r hr, fun c' hc' hcb => ?_⟩
      obtain ⟨x, j', hx, hj'⟩ := hR.closecb c' r hcb
      exact absurd hr (hR.not_inflight hx hj')
  | @readResult c path r res j hm hc hr hres hj =>
    have hlive := h.routes path r hr
    rw [enter_of_not_deleted (s := s.nextRequest) hlive]
    refine Owned.setClosecb ?_ ?_
    · have := Owned.moveToGc (s := s.nextRequest) { h with } { hR with } hres hlive
      exact { this with }
    · rintro r' ⟨⟩
      exact ⟨hlive, fun c' hc' hcb => hC r res j hr hres hj c' hc' hcb⟩
  | @readStatus c path r res hm hc hr hres hj =>
    rw [enter_of_not_deleted (s := s.nextRequest) (h.routes path r hr)]
    exact { h with }
  | @terminate c hm hc =>
    have h' : Owned s.nextRequest := { h with }
    have : Owned (s.nextRequest.setClosecb c .terminateRqCloseCb) := h'.setClosecb (by simp)
    exact { this with }
  | @closeDelete c r hc hr =>
    have hlive := h.closecb c hc r hr
    unfold connCloseCb
    rw [enter_of_not_deleted (s := { s with conns := s.conns.erase c }) hlive]
    refine (h.close c).delete (hR.close c) hlive (fun c' hc' hcb => ?_) fun _ => ?_
    · obtain rfl := h.closecb_inj c' (List.mem_of_mem_erase hc') c hc r hcb hr
      exact h.conns_nodup.not_mem_erase hc'
    · obtain ⟨x, j, hx, hj⟩ := hR.closecb c r hr
      exact hR.not_inflight hx hj
  | @closeQuiet c hc hr => exact h.close c
  | unmount hm =>
    exact Owned.cleanup (s := { s with mounted := false })
      { h with inflight := fun hf => by cases hf } { hR with } rfl hC

/-- In a run in which every readout and unmount meets `SoleReader`, `ahttpd_call_delete` runs at
most once on each record, and no callback runs on a record it has run on. -/
theorem call_deleted_once (C : UrpcCodes) (W : AuraWire) (mountpoint : Bytes)
    (es : List CallEvent) (s : Nodefs) (hC : Along (callStep C W mountpoint) SoleReader {} es)
    (h : run (callStep C W mountpoint) {} es = some s) : s.deleted.Nodup ∧ s.stale = [] := by
  have hinv : Records s ∧ Owned s :=
    run_inv (I := fun s => Records s ∧ Owned s) (fun s e s' hI hCe hs =>
      have ht := callTrans_of_step hs
      ⟨hI.1.step ht, hI.2.step hI.1 hCe ht⟩) es ⟨.init, .init⟩ hC h
  exact ⟨hinv.2.deleted_nodup, hinv.2.stale⟩

/-- A method without arguments and results. -/
def pingObject : AuraObject := ⟨0, lit "ping", none, none, 0⟩

/-- One reader, whose connection deletes the record. -/
def soleReaderRun : List CallEvent :=
  [.accept, .create 0 pingObject (.array []) true true, .complete 0 0 none,
    .readout 0 (lit "/online/pending/0"), .close 0]

theorem call_deleted_once_soleReaderRun :
    ∃ s, run (callStep .digits .littleEndian (lit "/online")) {} soleReaderRun = some s
      ∧ s.deleted = [0] ∧ s.deleted.Nodup ∧ s.stale = [] := by
  refine ⟨_, rfl, rfl, call_deleted_once .digits .littleEndian (lit "/online") soleReaderRun _
    ?_ rfl⟩
  refine ⟨trivial, ?_⟩
  rintro _ ⟨⟩
  refine ⟨trivial, ?_⟩
  rintro _ ⟨⟩
  refine ⟨trivial, ?_⟩
  rintro _ ⟨⟩
  refine ⟨fun r res j _ _ _ c hc _ => ?_, ?_⟩
  · exact List.mem_singleton.1 hc
  · rintro _ ⟨⟩
    exact ⟨trivial, fun _ _ => trivial⟩

/-- Two readers of one completed call, each on its own connection. -/
def twoReadersRun : List CallEvent :=
  [.accept, .accept, .create 0 pingObject (.array []) true true, .complete 0 0 none,
    .readout 0 (lit "/online/pending/0"), .readout 1 (lit "/online/pending/0"), .close 0, .close 1]

theorem twoReadersRun_deletes_twice :
    ¬ ∀ (C : UrpcCodes) (W : AuraWire) (mountpoint : Bytes) (es : List CallEvent) (s : Nodefs),
      run (callStep C W mountpoint) {} es = some s → s.deleted.Nodup ∧ s.stale = [] := by
  intro h
  have hrun : (run (callStep .digits .littleEndian (lit "/online")) {} twoReadersRun).map
      (fun s => (s.deleted, s.stale)) = some ([0, 0], [0]) := by decide
  obtain ⟨s, hs, hds⟩ := Option.map_eq_some_iff.1 hrun
  have hd := (h _ _ _ _ s hs).1
  rw [(Prod.mk.inj hds).1] at hd
  simp at hd

end AuraHttpd
