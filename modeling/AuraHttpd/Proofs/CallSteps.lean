import AuraHttpd.CallResource

/-!
# What the events of a node mountpoint do

`CallTrans` lists what each event can do, with the facts that choose it, and `callTrans_of_step`
says that there is nothing else; the invariants are proved over it.  `Records` is what holds of
the heap and of everything that points into it in every run: a record in flight has not been
completed, a close callback is only set for a completed record, and a result was sent for exactly
the records that say so.
-/

namespace AuraHttpd

open CString StepSystem

variable (C : UrpcCodes) (W : AuraWire) (mountpoint : Bytes)

/-- The record a call created in `s` gets. -/
def newCall (s : Nodefs) (c : Conn) (o : AuraObject) (isAsync : Bool) : PendingCall :=
  { callid := s.callid, o := o, path := pendingPath mountpoint s.callid
    isAsync := isAsync, request := s.request c }

/-- What an event does to a state. -/
inductive CallTrans (s : Nodefs) : CallEvent → Nodefs → Prop where
  | accept (hm : s.mounted = true) :
    CallTrans s .accept
      { s with conns := s.conns ++ [s.accepted], accepted := s.accepted + 1 }
  | refused {c : Conn} {o : AuraObject} {args : Json} {isAsync started : Bool} {k : ℤ} {n : ℕ}
      {m : Bytes} (hm : s.mounted = true) (hc : c ∈ s.conns)
      (hk : k = s.callid ∨ k = wrapS 32 (s.callid + 1)) :
    CallTrans s (.create c o args isAsync started)
      ({ s.nextRequest with callid := k }.send (s.request c) (.error n m))
  | createdSync {c : Conn} {o : AuraObject} {args : Json} (hm : s.mounted = true)
      (hc : c ∈ s.conns) :
    CallTrans s (.create c o args false true)
      ({ s.nextRequest with callid := wrapS 32 (s.callid + 1) }.addCall
        (newCall mountpoint s c o false))
  | createdAsync {c : Conn} {o : AuraObject} {args : Json} (hm : s.mounted = true)
      (hc : c ∈ s.conns) :
    CallTrans s (.create c o args true true)
      (({ s.nextRequest with callid := wrapS 32 (s.callid + 1) }.addCall
        (newCall mountpoint s c o true)).send (s.request c)
          (.accepted (pendingPath mountpoint s.callid)))
  | completedAsync {r : RecId} {result : ℤ} {retbuf : Option AuraBuffer} {res : PendingCall}
      {j : Json} (hm : s.mounted = true) (hr : r ∈ s.inflight) (hres : s.records r = some res)
      (hj : callResultToJson C W result res.o retbuf = some j) (ha : res.isAsync = true) :
    CallTrans s (.complete r result retbuf)
      (({ s with inflight := s.inflight.erase r }.enter r).setRecord r
        { res with retbuf := some j })
  | completedSync {r : RecId} {result : ℤ} {retbuf : Option AuraBuffer} {res : PendingCall}
      {j : Json} (hm : s.mounted = true) (hr : r ∈ s.inflight) (hres : s.records r = some res)
      (hj : callResultToJson C W result res.o retbuf = some j) (ha : res.isAsync = false)
      (hc : res.request.conn ∈ s.conns) :
    CallTrans s (.complete r result retbuf)
      (((({ s with inflight := s.inflight.erase r }.enter r).setRecord r
        { res with retbuf := some j }).send res.request (.result r j)).setClosecb
          res.request.conn (.connCloseCb r))
  | readResult {c : Conn} {path : Bytes} {r : RecId} {res : PendingCall} {j : Json}
      (hm : s.mounted = true) (hc : c ∈ s.conns) (hr : s.routes.find path = some r)
      (hres : s.records r = some res) (hj : res.retbuf = some j) :
    CallTrans s (.readout c path)
      (((((s.nextRequest.enter r).send (s.request c) (.result r j)).moveToGc r).setRecord r
        { res with resourceStatus := .dead }).setClosecb c (.connCloseCb r))
  | readStatus {c : Conn} {path : Bytes} {r : RecId} {res : PendingCall}
      (hm : s.mounted = true) (hc : c ∈ s.conns) (hr : s.routes.find path = some r)
      (hres : s.records r = some res) (hj : res.retbuf = none) :
    CallTrans s (.readout c path)
      ((s.nextRequest.enter r).send (s.request c) (.status r res.resourceStatus))
  | terminate {c : Conn} (hm : s.mounted = true) (hc : c ∈ s.conns) :
    CallTrans s (.terminate c)
      ((s.nextRequest.setClosecb c .terminateRqCloseCb).send (s.request c)
        (.error 503 (lit "Shutting down")))
  | closeDelete {c : Conn} {r : RecId} (hc : c ∈ s.conns)
      (hr : s.closecb c = some (.connCloseCb r)) :
    CallTrans s (.close c) (connCloseCb { s with conns := s.conns.erase c } r)
  | closeQuiet {c : Conn} (hc : c ∈ s.conns) (hr : ∀ r, s.closecb c ≠ some (.connCloseCb r)) :
    CallTrans s (.close c) { s with conns := s.conns.erase c }
  | unmount (hm : s.mounted = true) :
    CallTrans s .unmount (ahttpdCallresourceCleanup { s with mounted := false })

variable {C W mountpoint}

theorem callTrans_of_create {s s' : Nodefs} {c : Conn} {o : AuraObject} {args : Json}
    {isAsync started : Bool} (hm : s.mounted = true) (hc : c ∈ s.conns)
    (h : ahttpdCallCreate C W mountpoint s.nextRequest (s.request c) o args isAsync started
      = some s') : CallTrans C W mountpoint s (.create c o args isAsync started) s' := by
  simp only [ahttpdCallCreate, Option.bind_eq_bind, Option.bind_eq_some_iff] at h
  obtain ⟨⟨ret, buf⟩, -, h⟩ := h
  simp only at h
  split_ifs at h with h1 h2 h3
  · cases h
    exact .refused hm hc (.inl rfl)
  · cases h
    exact .refused hm hc (.inr rfl)
  · obtain rfl : started = true := by simpa using h2
    subst h3
    cases h
    exact .createdAsync hm hc
  · obtain rfl : started = true := by simpa using h2
    obtain rfl : isAsync = false := by simpa using h3
    cases h
    exact .createdSync hm hc

@[simp] theorem enter_conns (s : Nodefs) (r : RecId) : (s.enter r).conns = s.conns := by
  unfold Nodefs.enter
  split_ifs <;> rfl

@[simp] theorem enter_records (s : Nodefs) (r : RecId) : (s.enter r).records = s.records := by
  unfold Nodefs.enter
  split_ifs <;> rfl

@[simp] theorem enter_sent (s : Nodefs) (r : RecId) : (s.enter r).sent = s.sent := by
  unfold Nodefs.enter
  split_ifs <;> rfl

@[simp] theorem enter_requests (s : Nodefs) (r : RecId) : (s.enter r).requests = s.requests := by
  unfold Nodefs.enter
  split_ifs <;> rfl

@[simp] theorem enter_inflight (s : Nodefs) (r : RecId) : (s.enter r).inflight = s.inflight := by
  unfold Nodefs.enter
  split_ifs <;> rfl

@[simp] theorem enter_accepted (s : Nodefs) (r : RecId) : (s.enter r).accepted = s.accepted := by
  unfold Nodefs.enter
  split_ifs <;> rfl

@[simp] theorem enter_mounted (s : Nodefs) (r : RecId) : (s.enter r).mounted = s.mounted := by
  unfold Nodefs.enter
  split_ifs <;> rfl

theorem callTrans_of_complete {s s' : Nodefs} {r : RecId} {result : ℤ}
    {retbuf : Option AuraBuffer} (hm : s.mounted = true) (hr : r ∈ s.inflight)
    (h : callCompletedCb C W { s with inflight := s.inflight.erase r } r result retbuf = some s') :
    CallTrans C W mountpoint s (.complete r result retbuf) s' := by
  simp only [callCompletedCb, Option.bind_eq_bind, Option.bind_eq_some_iff] at h
  obtain ⟨res, hres, j, hj, h⟩ := h
  split_ifs at h with ha hc
  · cases h
    exact .completedAsync hm hr hres hj ha
  · cases h
    refine .completedSync hm hr hres hj (by simpa using ha) ?_
    simpa [Nodefs.setRecord] using hc

theorem callTrans_of_readout {s s' : Nodefs} {c : Conn} {path : Bytes} {r : RecId}
    (hm : s.mounted = true) (hc : c ∈ s.conns) (hr : s.routes.find path = some r)
    (h : resourceReadout s.nextRequest (s.request c) r = some s') :
    CallTrans C W mountpoint s (.readout c path) s' := by
  simp only [resourceReadout, Option.bind_eq_bind, Option.bind_eq_some_iff] at h
  obtain ⟨res, hres, h⟩ := h
  split at h
  · rename_i j hj
    cases h
    exact .readResult hm hc hr hres hj
  · rename_i hj
    cases h
    exact .readStatus hm hc hr hres hj

theorem callTrans_of_step {s s' : Nodefs} {e : CallEvent}
    (h : callStep C W mountpoint s e = some s') : CallTrans C W mountpoint s e s' := by
  cases e with
  | accept =>
    simp only [callStep] at h
    split_ifs at h with hm
    cases h
    exact .accept hm
  | create c o args isAsync started =>
    simp only [callStep] at h
    split_ifs at h with hm
    exact callTrans_of_create hm.1 hm.2 h
  | complete r result retbuf =>
    simp only [callStep] at h
    split_ifs at h with hm
    exact callTrans_of_complete hm.1 hm.2 h
  | readout c path =>
    simp only [callStep] at h
    split_ifs at h with hm
    simp only [Option.bind_eq_bind, Option.bind_eq_some_iff] at h
    obtain ⟨r, hr, h⟩ := h
    exact callTrans_of_readout hm.1 hm.2 hr h
  | terminate c =>
    simp only [callStep] at h
    split_ifs at h with hm
    cases h
    exact .terminate hm.1 hm.2
  | close c =>
    simp only [callStep] at h
    split_ifs at h with hc
    split at h
    · rename_i r hr
      cases h
      exact .closeDelete hc hr
    · rename_i hr
      cases h
      exact .closeQuiet hc hr
  | unmount =>
    simp only [callStep] at h
    split_ifs at h with hm
    cases h
    exact .unmount hm

theorem update_some_cases {f : RecId → Option PendingCall} {r r' : RecId} {x x' : PendingCall}
    (h : Function.update f r (some x) r' = some x') :
    r' = r ∧ x' = x ∨ r' ≠ r ∧ f r' = some x' := by
  by_cases hr : r' = r
  · subst hr
    rw [Function.update_self] at h
    exact .inl ⟨rfl, (Option.some.inj h).symm⟩
  · rw [Function.update_of_ne hr] at h
    exact .inr ⟨hr, h⟩

/-- `s'` is `s` after callbacks were entered and records freed. -/
def Freed (s s' : Nodefs) : Prop :=
  ∃ pl gl dl st rt, s' = { s with
      pendingCallList := pl, gcCallList := gl, deleted := dl, stale := st, routes := rt }
    ∧ ∀ p r, rt.find p = some r → s.routes.find p = some r

theorem Freed.refl (s : Nodefs) : Freed s s := ⟨_, _, _, _, _, rfl, fun _ _ h => h⟩

theorem Freed.trans {s₁ s₂ s₃ : Nodefs} (h : Freed s₁ s₂) (h' : Freed s₂ s₃) : Freed s₁ s₃ := by
  obtain ⟨pl, gl, dl, st, rt, rfl, hrt⟩ := h
  obtain ⟨pl', gl', dl', st', rt', rfl, hrt'⟩ := h'
  exact ⟨pl', gl', dl', st', rt', rfl, fun p r hp => hrt p r (hrt' p r hp)⟩

theorem freed_enter (s : Nodefs) (r : RecId) : Freed s (s.enter r) := by
  unfold Nodefs.enter
  split_ifs
  · exact ⟨_, _, _, _, _, rfl, fun _ _ h => h⟩
  · exact .refl s

theorem freed_delete (s : Nodefs) (r : RecId) : Freed s (ahttpdCallDelete s r) := by
  unfold ahttpdCallDelete
  split
  · exact .refl s
  · refine ⟨_, _, _, _, _, rfl, fun p r h => ?_⟩
    rw [RouteTable.find_del] at h
    split_ifs at h
    exact h

theorem freed_foldl_delete : ∀ (l : List RecId) (s : Nodefs),
    Freed s (l.foldl ahttpdCallDelete s)
  | [], s => .refl s
  | r :: l, s => (freed_delete s r).trans (freed_foldl_delete l _)

theorem freed_cleanup (s : Nodefs) : Freed s (ahttpdCallresourceCleanup s) :=
  (freed_foldl_delete _ _).trans (freed_foldl_delete _ _)

theorem freed_connCloseCb (s : Nodefs) (r : RecId) : Freed s (connCloseCb s r) :=
  (freed_enter s r).trans (freed_delete _ r)

theorem freed_requests {s s' : Nodefs} (h : Freed s s') :
    s'.requests = s.requests ∧ s'.inflight = s.inflight := by
  obtain ⟨pl, gl, dl, st, rt, rfl, -⟩ := h
  exact ⟨rfl, rfl⟩

/-- Nothing but the unmount ends the node. -/
theorem callTrans_mounted {s s' : Nodefs} {e : CallEvent}
    (ht : CallTrans C W mountpoint s e s') (hun : e ≠ .unmount) :
    s'.mounted = s.mounted := by
  cases ht with
  | completedAsync hm hr hres hj ha => simp [Nodefs.setRecord]
  | completedSync hm hr hres hj ha hc => simp [Nodefs.setRecord, Nodefs.send, Nodefs.setClosecb]
  | readResult hm hc hr hres hj =>
    simp [Nodefs.setRecord, Nodefs.send, Nodefs.setClosecb, Nodefs.moveToGc, Nodefs.nextRequest]
  | readStatus hm hc hr hres hj => simp [Nodefs.send, Nodefs.nextRequest]
  | @closeDelete c r hc hr =>
    obtain ⟨pl, gl, dl, st, rt, hs', -⟩ := freed_connCloseCb { s with conns := s.conns.erase c } r
    rw [hs']
  | unmount hm => exact absurd rfl hun
  | _ => rfl

/-- The call's result has been sent: to the issuing request when a sync call completed, to a
reader otherwise. -/
def HandedOver (res : PendingCall) : Prop :=
  (∃ j, res.retbuf = some j) ∧ (res.isAsync = true → res.resourceStatus = .dead)

/-- The heap and what points into it, in any run. -/
structure Records (s : Nodefs) : Prop where
  lt_next : ∀ r res, s.records r = some res → r < s.next
  inflight : ∀ r ∈ s.inflight, ∃ res, s.records r = some res ∧ res.retbuf = none
  inflight_nodup : s.inflight.Nodup
  status : ∀ r res, s.records r = some res → res.retbuf = none → res.resourceStatus = .pending
  routes : ∀ p r, s.routes.find p = some r → ∃ res, s.records r = some res ∧ res.path = p
  closecb : ∀ c r, s.closecb c = some (.connCloseCb r) →
    ∃ res j, s.records r = some res ∧ res.retbuf = some j
  closecb_lt : ∀ c, s.closecb c ≠ none → c < s.accepted
  conns_lt : ∀ c ∈ s.conns, c < s.accepted
  handed : ∀ r, (∃ q j, (q, Answer.result r j) ∈ s.sent)
    ↔ ∃ res, s.records r = some res ∧ HandedOver res

theorem Records.init : Records {} := by
  constructor <;> simp [RouteTable.find, RouteTable.empty]

theorem Records.freed {s s' : Nodefs} (h : Records s) (hf : Freed s s') : Records s' := by
  obtain ⟨pl, gl, dl, st, rt, rfl, hrt⟩ := hf
  exact { h with routes := fun p r hp => h.routes p r (hrt p r hp) }

theorem Records.nextRequest {s : Nodefs} (h : Records s) : Records s.nextRequest := { h with }

theorem Records.send {s : Nodefs} (h : Records s) (q : Request) {a : Answer}
    (ha : ∀ r j, a ≠ .result r j) : Records (s.send q a) := by
  refine { h with handed := fun r => ?_ }
  refine Iff.trans ?_ (h.handed r)
  simp only [Nodefs.send, List.mem_append, List.mem_singleton, Prod.mk.injEq]
  constructor
  · rintro ⟨q', j, h' | ⟨-, h'⟩⟩
    · exact ⟨q', j, h'⟩
    · exact absurd h'.symm (ha r j)
  · rintro ⟨q', j, h'⟩
    exact ⟨q', j, .inl h'⟩

theorem Records.addCall {s : Nodefs} (h : Records s) {res : PendingCall}
    (hret : res.retbuf = none) (hst : res.resourceStatus = .pending) :
    Records (s.addCall res) := by
  have hold : ∀ r res', s.records r = some res' →
      Function.update s.records s.next (some res) r = some res' := fun r res' hr => by
    rw [Function.update_of_ne (h.lt_next r res' hr).ne, hr]
  refine { h with
    lt_next := fun r res' hr => ?_, inflight := fun r hr => ?_, inflight_nodup := ?_
    status := fun r res' hr hn => ?_, routes := fun p r hp => ?_, closecb := fun c r hc => ?_
    handed := fun r => ?_ }
  · rcases update_some_cases hr with ⟨rfl, -⟩ | ⟨-, h'⟩
    · exact Nat.lt_succ_self _
    · exact (h.lt_next r res' h').trans (Nat.lt_succ_self _)
  · rcases List.mem_append.1 hr with hr | hr
    · obtain ⟨res', hr', hn⟩ := h.inflight r hr
      exact ⟨res', hold r res' hr', hn⟩
    · obtain rfl := List.mem_singleton.1 hr
      exact ⟨res, Function.update_self .., hret⟩
  · refine List.nodup_append.2 ⟨h.inflight_nodup, by simp, ?_⟩
    rintro r hr r' hr' rfl
    obtain ⟨res', hres', -⟩ := h.inflight r hr
    obtain rfl := List.mem_singleton.1 hr'
    exact absurd (h.lt_next _ _ hres') (Nat.lt_irrefl _)
  · rcases update_some_cases hr with ⟨-, rfl⟩ | ⟨-, h'⟩
    · exact hst
    · exact h.status r res' h' hn
  · rcases RouteTable.find_set_cases hp with hp | ⟨rfl, rfl⟩
    · obtain ⟨res', hr', hpath⟩ := h.routes p r hp
      exact ⟨res', hold r res' hr', hpath⟩
    · exact ⟨res, Function.update_self .., rfl⟩
  · obtain ⟨res', j, hr', hj⟩ := h.closecb c r hc
    exact ⟨res', j, hold r res' hr', hj⟩
  · refine (h.handed r).trans ⟨?_, ?_⟩
    · rintro ⟨res', hr', hh⟩
      exact ⟨res', hold r res' hr', hh⟩
    · rintro ⟨res', hr', hh⟩
      rcases update_some_cases hr' with ⟨-, rfl⟩ | ⟨-, h'⟩
      · obtain ⟨⟨j, hj⟩, -⟩ := hh
        rw [hret] at hj
        cases hj
      · exact ⟨res', h', hh⟩

/-- A record that is completed, or read out, with what was sent meanwhile. -/
theorem Records.setRecord {s : Nodefs} (h : Records s) {r : RecId} (res res' : PendingCall)
    {l : List (Request × Answer)} (hres : s.records r = some res) (hpath : res'.path = res.path)
    (hret : ∃ j, res'.retbuf = some j) (hin : r ∉ s.inflight)
    (hl : ∀ r', (∃ q j, (q, Answer.result r' j) ∈ l)
      ↔ r' = r ∧ HandedOver res' ∨ r' ≠ r ∧ ∃ q j, (q, Answer.result r' j) ∈ s.sent) :
    Records { s.setRecord r res' with sent := l } := by
  have hself : Function.update s.records r (some res') r = some res' := Function.update_self ..
  have hne : ∀ {r'}, r' ≠ r → Function.update s.records r (some res') r' = s.records r' :=
    fun hr => Function.update_of_ne hr ..
  refine { h with
    lt_next := fun r' x hx => ?_, inflight := fun r' hr' => ?_, status := fun r' x hx hn => ?_
    routes := fun p r' hp => ?_, closecb := fun c r' hc => ?_, handed := fun r' => ?_ }
  · by_cases hr : r' = r
    · exact hr ▸ h.lt_next r res hres
    · exact h.lt_next r' x (hne hr ▸ hx)
  · obtain ⟨x, hx, hn⟩ := h.inflight r' hr'
    exact ⟨x, (hne (fun hr => hin (hr ▸ hr'))).trans hx, hn⟩
  · by_cases hr : r' = r
    · subst hr
      obtain ⟨j, hj⟩ := hret
      obtain rfl := Option.some.inj (hself.symm.trans hx)
      rw [hj] at hn
      cases hn
    · exact h.status r' x (hne hr ▸ hx) hn
  · obtain ⟨x, hx, hp'⟩ := h.routes p r' hp
    by_cases hr : r' = r
    · subst hr
      obtain rfl := Option.some.inj (hres.symm.trans hx)
      exact ⟨res', hself, hpath.trans hp'⟩
    · exact ⟨x, (hne hr).trans hx, hp'⟩
  · obtain ⟨x, j, hx, hj⟩ := h.closecb c r' hc
    by_cases hr : r' = r
    · subst hr
      obtain ⟨j', hj'⟩ := hret
      exact ⟨res', j', hself, hj'⟩
    · exact ⟨x, j, (hne hr).trans hx, hj⟩
  · refine (hl r').trans ?_
    by_cases hr : r' = r
    · subst hr
      simp [Nodefs.setRecord]
    · rw [h.handed r']
      simp [Nodefs.setRecord, hr]

theorem closecb_setClosecb (s : Nodefs) (c c' : Conn) (cb : CloseCb) :
    (s.setClosecb c cb).closecb c' = if c' = c then some cb else s.closecb c' :=
  Function.update_apply ..

theorem Records.setClosecb {s : Nodefs} (h : Records s) {c : Conn} {cb : CloseCb}
    (hc : c < s.accepted) (hcb : ∀ r, cb = .connCloseCb r →
      ∃ res j, s.records r = some res ∧ res.retbuf = some j) : Records (s.setClosecb c cb) := by
  refine { h with closecb := fun c' r hr => ?_, closecb_lt := fun c' hc' => ?_ }
  · rw [closecb_setClosecb] at hr
    split_ifs at hr with hcc
    · exact hcb r (Option.some.inj hr)
    · exact h.closecb c' r hr
  · rw [closecb_setClosecb] at hc'
    split_ifs at hc' with hcc
    · exact hcc ▸ hc
    · exact h.closecb_lt c' hc'

/-- A record leaves the calls in flight and its completion callback starts. -/
theorem Records.takeInflight {s : Nodefs} (h : Records s) (r : RecId) :
    Records ({ s with inflight := s.inflight.erase r }.enter r)
      ∧ r ∉ ({ s with inflight := s.inflight.erase r }.enter r).inflight := by
  have h' : Records { s with inflight := s.inflight.erase r } := { h with
    inflight := fun r' hr' => h.inflight r' (List.mem_of_mem_erase hr')
    inflight_nodup := h.inflight_nodup.erase r }
  refine ⟨h'.freed (freed_enter _ r), ?_⟩
  obtain ⟨pl, gl, dl, st, rt, he, -⟩ := freed_enter { s with inflight := s.inflight.erase r } r
  rw [he]
  exact h.inflight_nodup.not_mem_erase

theorem Records.handed_none {s : Nodefs} (h : Records s) {r : RecId} {res : PendingCall}
    (hres : s.records r = some res) (hn : res.retbuf = none) :
    ¬ ∃ q j, (q, Answer.result r j) ∈ s.sent := by
  rw [h.handed r]
  rintro ⟨x, hx, ⟨j, hj⟩, -⟩
  obtain rfl := Option.some.inj (hres.symm.trans hx)
  rw [hn] at hj
  cases hj

/-- The answers that name a record, after one more result of `r` was sent. -/
theorem exists_result_append {l : List (Request × Answer)} {q : Request} {r r' : RecId} {j : Json} :
    (∃ q' j', (q', Answer.result r' j') ∈ l ++ [(q, .result r j)])
      ↔ r' = r ∨ r' ≠ r ∧ ∃ q' j', (q', Answer.result r' j') ∈ l := by
  simp only [List.mem_append, List.mem_singleton, Prod.mk.injEq, Answer.result.injEq]
  constructor
  · rintro ⟨q', j', h | ⟨-, rfl, -⟩⟩
    · by_cases hr : r' = r
      · exact .inl hr
      · exact .inr ⟨hr, q', j', h⟩
    · exact .inl rfl
  · rintro (rfl | ⟨-, q', j', h⟩)
    · exact ⟨q, j, .inr ⟨rfl, rfl, rfl⟩⟩
    · exact ⟨q', j', .inl h⟩

/-- The result of a call is sent, and the connection it is sent on deletes the call when it
closes. -/
theorem Records.deliver {s : Nodefs} (h : Records s) {r : RecId} {res res' : PendingCall}
    {q : Request} {j : Json} (hres : s.records r = some res) (hpath : res'.path = res.path)
    (hret : res'.retbuf = some j) (hh : HandedOver res') (hin : r ∉ s.inflight)
    (hc : q.conn < s.accepted) :
    Records (((s.setRecord r res').send q (.result r j)).setClosecb q.conn (.connCloseCb r)) := by
  have hsent : Records ((s.setRecord r res').send q (.result r j)) :=
    h.setRecord res res' hres hpath ⟨j, hret⟩ hin fun r' =>
      exists_result_append.trans (by simp [hh, Nodefs.setRecord])
  refine hsent.setClosecb hc ?_
  rintro r' ⟨⟩
  exact ⟨res', j, Function.update_self .., hret⟩

theorem Records.close {s : Nodefs} (h : Records s) (c : Conn) :
    Records { s with conns := s.conns.erase c } :=
  { h with conns_lt := fun c' hc => h.conns_lt c' (List.mem_of_mem_erase hc) }

theorem Records.not_inflight {s : Nodefs} (hR : Records s) {r : RecId} {res : PendingCall}
    {j : Json} (hres : s.records r = some res) (hj : res.retbuf = some j) : r ∉ s.inflight := by
  intro hr
  obtain ⟨x, hx, hn⟩ := hR.inflight r hr
  obtain rfl := Option.some.inj (hres.symm.trans hx)
  rw [hn] at hj
  cases hj

theorem Records.step {s s' : Nodefs} {e : CallEvent} (h : Records s)
    (ht : CallTrans C W mountpoint s e s') : Records s' := by
  cases ht with
  | accept hm =>
    refine { h with closecb_lt := fun c hc => ?_, conns_lt := fun c hc => ?_ }
    · exact (h.closecb_lt c hc).trans (Nat.lt_succ_self _)
    · rcases List.mem_append.1 hc with hc | hc
      · exact (h.conns_lt c hc).trans (Nat.lt_succ_self _)
      · exact (List.mem_singleton.1 hc) ▸ Nat.lt_succ_self _
  | refused hm hc hk =>
    exact Records.send (s := { s.nextRequest with callid := _ }) { h with } _ (by simp)
  | createdSync hm hc =>
    exact Records.addCall (s := { s.nextRequest with callid := _ }) { h with } rfl rfl
  | createdAsync hm hc =>
    exact (Records.addCall (s := { s.nextRequest with callid := _ }) { h with } rfl rfl).send _
      (by simp)
  | @completedAsync r result retbuf res j hm hr hres hj ha =>
    obtain ⟨h1, hin⟩ := h.takeInflight r
    obtain ⟨res₀, hres₀, hn⟩ := h.inflight r hr
    obtain rfl := Option.some.inj (hres.symm.trans hres₀)
    refine h1.setRecord res _ (by simpa using hres) rfl ⟨j, rfl⟩ hin fun r' => ?_
    have hnot : ¬ HandedOver { res with retbuf := some j } := fun hh => by
      have := hh.2 ha
      rw [h.status r res hres hn] at this
      cases this
    have hnone := h.handed_none hres hn
    rw [enter_sent]
    constructor
    · rintro hs
      exact .inr ⟨fun hr' => hnone (hr' ▸ hs), hs⟩
    · rintro (⟨-, hh⟩ | ⟨-, hs⟩)
      · exact absurd hh hnot
      · exact hs
  | @completedSync r result retbuf res j hm hr hres hj ha hc =>
    obtain ⟨h1, hin⟩ := h.takeInflight r
    have hh : HandedOver { res with retbuf := some j } :=
      ⟨⟨j, rfl⟩, fun hs => by simp [ha] at hs⟩
    have hres1 : ({ s with inflight := s.inflight.erase r }.enter r).records r = some res := by
      simpa using hres
    exact h1.deliver hres1 rfl rfl hh hin (by simpa using h.conns_lt _ hc)
  | @readResult c path r res j hm hc hr hres hj =>
    have hin := h.not_inflight hres hj
    have hh : HandedOver { res with resourceStatus := .dead } := ⟨⟨j, hj⟩, fun _ => rfl⟩
    have h1 : Records ((s.nextRequest.enter r).moveToGc r) := by
      have := h.nextRequest.freed (freed_enter _ r)
      exact { this with }
    have hres1 : ((s.nextRequest.enter r).moveToGc r).records r = some res := by
      simpa [Nodefs.moveToGc, Nodefs.nextRequest] using hres
    exact h1.deliver (q := s.request c) hres1 rfl hj hh
      (by unfold Nodefs.enter; split_ifs <;> exact hin)
      (by simpa [Nodefs.moveToGc, Nodefs.nextRequest, Nodefs.request] using h.conns_lt _ hc)
  | readStatus hm hc hr hres hj =>
    exact (h.nextRequest.freed (freed_enter _ _)).send _ (by simp)
  | terminate hm hc =>
    exact (h.nextRequest.setClosecb (h.conns_lt _ hc) (by simp)).send _ (by simp)
  | closeDelete hc hr =>
    exact Records.freed (h.close _) (freed_connCloseCb _ _)
  | closeQuiet hc hr => exact h.close _
  | unmount hm =>
    exact Records.freed (s := { s with mounted := false }) { h with } (freed_cleanup _)

end AuraHttpd
