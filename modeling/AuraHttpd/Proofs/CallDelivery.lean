import AuraHttpd.Proofs.CallLifetime

/-!
# A call's result is delivered once

`resource_readout` sends the result of every completed call it is asked for; that it has been
handed over is only noted in `resource_status`, which no branch reads once there is a result.  So
a result is sent once, and to the right request, exactly in the runs in which no readout meets a
call that has been handed over (`delivered_once_iff`).
-/

namespace AuraHttpd

open CString StepSystem

variable {C : UrpcCodes} {W : AuraWire} {mountpoint : Bytes}

/-- A readout asks for a call whose result has not been sent to anyone. -/
def FirstReadout (s : Nodefs) : CallEvent → Prop
  | .readout _ path => ∀ r res, s.routes.find path = some r → s.records r = some res →
      ¬ HandedOver res
  | _ => True

/-- Before a call's result is sent its readers are told it is pending, afterwards that it is
dead. -/
def OnceLog (l : List (Request × Answer)) : Prop :=
  ∀ l₁ q r j l₂, l = l₁ ++ (q, .result r j) :: l₂ →
    (∀ x ∈ l₁, x.2.about = some r → x.2 = .status r .pending)
      ∧ ∀ x ∈ l₂, x.2.about = some r → x.2 = .status r .dead

/-- The result of a sync call goes to the request that issued it. -/
def ToIssuer (s : Nodefs) : Prop :=
  ∀ q r j res, (q, Answer.result r j) ∈ s.sent → s.records r = some res →
    res.isAsync = false → q = res.request

/-- Each result is sent to one request, which for a sync call is the one that issued it, and every
later reader of the call is told that it is dead. -/
def DeliveredOnce (s : Nodefs) : Prop := OnceLog s.sent ∧ ToIssuer s

theorem append_singleton_eq_split {α : Type*} {l l₁ l₂ : List α} {x y : α}
    (h : l ++ [x] = l₁ ++ y :: l₂) :
    (l = l₁ ∧ x = y ∧ l₂ = []) ∨ ∃ l₂', l₂ = l₂' ++ [x] ∧ l = l₁ ++ y :: l₂' := by
  rcases List.eq_nil_or_concat l₂ with rfl | ⟨l₂', z, rfl⟩
  · have := List.append_inj' h rfl
    exact .inl ⟨this.1, by simpa using this.2, rfl⟩
  · rw [List.concat_eq_append, ← List.cons_append, ← List.append_assoc] at h
    have := List.append_inj' h rfl
    obtain rfl : x = z := by simpa using this.2
    exact .inr ⟨l₂', List.concat_eq_append, this.1⟩

theorem OnceLog.left {l l' : List (Request × Answer)} (h : OnceLog (l ++ l')) : OnceLog l := by
  intro l₁ q r j l₂ hl
  obtain ⟨h1, h2⟩ := h l₁ q r j (l₂ ++ l') (by rw [hl]; simp)
  exact ⟨h1, fun x hx => h2 x (by simp [hx])⟩

theorem OnceLog.concat {l : List (Request × Answer)} {x : Request × Answer} (h : OnceLog l)
    (hnew : ∀ r, x.2.about = some r → ¬ ∃ q j, (q, Answer.result r j) ∈ l)
    (hold : ∀ r j, x.2 = .result r j → ∀ y ∈ l, y.2.about = some r → y.2 = .status r .pending) :
    OnceLog (l ++ [x]) := by
  intro l₁ q r j l₂ hl
  rcases append_singleton_eq_split hl with ⟨rfl, rfl, rfl⟩ | ⟨l₂', rfl, rfl⟩
  · exact ⟨hold r j rfl, by simp⟩
  · obtain ⟨h1, h2⟩ := h l₁ q r j l₂' rfl
    refine ⟨h1, fun y hy hr => ?_⟩
    rcases List.mem_append.1 hy with hy | hy
    · exact h2 y hy hr
    · obtain rfl := List.mem_singleton.1 hy
      exact absurd ⟨q, j, by simp⟩ (hnew r hr)

theorem OnceLog.not_twice {l : List (Request × Answer)} {q : Request} {r : RecId} {j : Json}
    (h : OnceLog (l ++ [(q, .result r j)])) : ¬ ∃ q' j', (q', Answer.result r j') ∈ l := by
  rintro ⟨q', j', hm⟩
  obtain ⟨l₁, l₂, rfl⟩ := List.append_of_mem hm
  have := (h l₁ q' r j' (l₂ ++ [(q, .result r j)]) (by simp)).2 (q, .result r j) (by simp) rfl
  cases this

/-- A status a reader was told is that of a call without a result. -/
def PendingOnly (s : Nodefs) : Prop := ∀ q r st, (q, Answer.status r st) ∈ s.sent → st = .pending

theorem freed_sent {s s' : Nodefs} (h : Freed s s') :
    s'.sent = s.sent ∧ s'.records = s.records := by
  obtain ⟨pl, gl, dl, st, rt, rfl, -⟩ := h
  exact ⟨rfl, rfl⟩

/-- What a step sends: nothing, an answer that is not out of a record, the status of a call
without a result, or the result of a call, to the request its record names when the call is
sync and completes. -/
theorem callTrans_sent {s s' : Nodefs} {e : CallEvent} (ht : CallTrans C W mountpoint s e s') :
    s'.sent = s.sent
      ∨ (∃ q a, s'.sent = s.sent ++ [(q, a)] ∧ a.about = none)
      ∨ (∃ q r res, s'.sent = s.sent ++ [(q, .status r res.resourceStatus)]
          ∧ s.records r = some res ∧ res.retbuf = none)
      ∨ ∃ q r res j, s'.sent = s.sent ++ [(q, .result r j)] ∧ s.records r = some res
          ∧ ((r ∈ s.inflight ∧ q = res.request)
            ∨ ∃ c path, e = .readout c path ∧ s.routes.find path = some r
              ∧ res.retbuf = some j) := by
  cases ht with
  | accept hm => exact .inl rfl
  | refused hm hc hk => exact .inr (.inl ⟨_, _, rfl, rfl⟩)
  | createdSync hm hc => exact .inl rfl
  | createdAsync hm hc => exact .inr (.inl ⟨_, _, rfl, rfl⟩)
  | completedAsync hm hr hres hj ha => exact .inl (freed_sent (freed_enter _ _)).1
  | @completedSync r result retbuf res j hm hr hres hj ha hc =>
    refine .inr (.inr (.inr ⟨res.request, r, res, j, ?_, hres, .inl ⟨hr, rfl⟩⟩))
    simp [Nodefs.send, Nodefs.setClosecb, Nodefs.setRecord]
  | @readResult c path r res j hm hc hr hres hj =>
    refine .inr (.inr (.inr ⟨s.request c, r, res, j, ?_, hres, .inr ⟨c, path, rfl, hr, hj⟩⟩))
    simp [Nodefs.send, Nodefs.setClosecb, Nodefs.setRecord, Nodefs.moveToGc, Nodefs.nextRequest]
  | @readStatus c path r res hm hc hr hres hj =>
    refine .inr (.inr (.inl ⟨s.request c, r, res, ?_, hres, hj⟩))
    simp [Nodefs.send, Nodefs.nextRequest]
  | terminate hm hc => exact .inr (.inl ⟨_, _, rfl, rfl⟩)
  | closeDelete hc hr => exact .inl (freed_sent (freed_connCloseCb _ _)).1
  | closeQuiet hc hr => exact .inl rfl
  | unmount hm => exact .inl (freed_sent (freed_cleanup _)).1

/-- What a record says of its call never changes. -/
def SameCall (res res' : PendingCall) : Prop :=
  res'.callid = res.callid ∧ res'.o = res.o ∧ res'.path = res.path
    ∧ res'.isAsync = res.isAsync ∧ res'.request = res.request

theorem SameCall.refl (res : PendingCall) : SameCall res res := ⟨rfl, rfl, rfl, rfl, rfl⟩

theorem setRecord_sameCall {s : Nodefs} {r : RecId} {res res' : PendingCall}
    (hres : s.records r = some res) (hsame : SameCall res res') {r' : RecId} {x : PendingCall}
    (hx : s.records r' = some x) :
    ∃ x', Function.update s.records r (some res') r' = some x' ∧ SameCall x x' := by
  by_cases hr : r' = r
  · subst hr
    obtain rfl := Option.some.inj (hres.symm.trans hx)
    exact ⟨res', Function.update_self .., hsame⟩
  · exact ⟨x, (Function.update_of_ne hr ..).trans hx, .refl x⟩

theorem callTrans_records {s s' : Nodefs} {e : CallEvent} (hR : Records s)
    (ht : CallTrans C W mountpoint s e s') {r : RecId} {res : PendingCall}
    (hres : s.records r = some res) : ∃ res', s'.records r = some res' ∧ SameCall res res' := by
  have hnew : ∀ x, Function.update s.records s.next x r = some res := fun x => by
    rw [Function.update_of_ne (hR.lt_next r res hres).ne, hres]
  cases ht with
  | accept hm => exact ⟨res, hres, .refl res⟩
  | refused hm hc hk => exact ⟨res, hres, .refl res⟩
  | createdSync hm hc => exact ⟨res, hnew _, .refl res⟩
  | createdAsync hm hc => exact ⟨res, hnew _, .refl res⟩
  | @completedAsync _ _ _ x j hm hr hx hj ha =>
    have hsame : SameCall x { x with retbuf := some j } := ⟨rfl, rfl, rfl, rfl, rfl⟩
    simpa [Nodefs.setRecord] using setRecord_sameCall hx hsame hres
  | @completedSync _ _ _ x j hm hr hx hj ha hc =>
    have hsame : SameCall x { x with retbuf := some j } := ⟨rfl, rfl, rfl, rfl, rfl⟩
    simpa [Nodefs.setRecord, Nodefs.send, Nodefs.setClosecb]
      using setRecord_sameCall hx hsame hres
  | @readResult _ _ _ x j hm hc hr hx hj =>
    have hsame : SameCall x { x with resourceStatus := .dead } := ⟨rfl, rfl, rfl, rfl, rfl⟩
    simpa [Nodefs.setRecord, Nodefs.send, Nodefs.setClosecb, Nodefs.moveToGc, Nodefs.nextRequest]
      using setRecord_sameCall hx hsame hres
  | readStatus hm hc hr hres' hj =>
    exact ⟨res, by simpa [Nodefs.send, Nodefs.nextRequest] using hres, .refl res⟩
  | terminate hm hc => exact ⟨res, hres, .refl res⟩
  | closeDelete hc hr =>
    exact ⟨res, by rw [(freed_sent (freed_connCloseCb _ _)).2]; exact hres, .refl res⟩
  | closeQuiet hc hr => exact ⟨res, hres, .refl res⟩
  | unmount hm => exact ⟨res, by rw [(freed_sent (freed_cleanup _)).2]; exact hres, .refl res⟩

theorem PendingOnly.step {s s' : Nodefs} {e : CallEvent} (h : PendingOnly s) (hR : Records s)
    (ht : CallTrans C W mountpoint s e s') : PendingOnly s' := by
  intro q r st hm
  rcases callTrans_sent ht with hs | ⟨q', a, hs, ha⟩ | ⟨q', r', res, hs, hres, hn⟩ |
      ⟨q', r', res, j, hs, -⟩
  · exact h q r st (hs ▸ hm)
  · rcases List.mem_append.1 (hs ▸ hm) with hm | hm
    · exact h q r st hm
    · obtain ⟨-, rfl⟩ := Prod.mk.inj (List.mem_singleton.1 hm)
      cases ha
  · rcases List.mem_append.1 (hs ▸ hm) with hm | hm
    · exact h q r st hm
    · obtain ⟨-, hst⟩ := Prod.mk.inj (List.mem_singleton.1 hm)
      cases hst
      exact hR.status r res hres hn
  · rcases List.mem_append.1 (hs ▸ hm) with hm | hm
    · exact h q r st hm
    · obtain ⟨-, hst⟩ := Prod.mk.inj (List.mem_singleton.1 hm)
      cases hst

theorem PendingOnly.about {s : Nodefs} (h : PendingOnly s) {r : RecId}
    (hno : ¬ ∃ q j, (q, Answer.result r j) ∈ s.sent) {x : Request × Answer} (hx : x ∈ s.sent)
    (ha : x.2.about = some r) : x.2 = .status r .pending := by
  obtain ⟨q, a⟩ := x
  cases a with
  | result r' j =>
    obtain rfl : r' = r := by simpa [Answer.about] using ha
    exact absurd ⟨q, j, hx⟩ hno
  | status r' st =>
    obtain rfl : r' = r := by simpa [Answer.about] using ha
    rw [h q r' st hx]
  | accepted l => simp [Answer.about] at ha
  | error n m => simp [Answer.about] at ha

/-- A call in flight, and one that is read out first, has sent no result. -/
theorem Records.not_sent {s : Nodefs} (hR : Records s) {r : RecId} {res : PendingCall}
    (hres : s.records r = some res) (hh : ¬ HandedOver res) :
    ¬ ∃ q j, (q, Answer.result r j) ∈ s.sent := by
  rw [hR.handed r]
  rintro ⟨x, hx, hx'⟩
  obtain rfl := Option.some.inj (hres.symm.trans hx)
  exact hh hx'

theorem not_handedOver_of_none {res : PendingCall} (hn : res.retbuf = none) :
    ¬ HandedOver res := by
  rintro ⟨⟨j, hj⟩, -⟩
  rw [hn] at hj
  cases hj

theorem ToIssuer.step {s s' : Nodefs} {e : CallEvent} (h : ToIssuer s) (hR : Records s)
    (hF : FirstReadout s e) (ht : CallTrans C W mountpoint s e s') : ToIssuer s' := by
  have hold : ∀ q r j res', (q, Answer.result r j) ∈ s.sent → s'.records r = some res' →
      res'.isAsync = false → q = res'.request := by
    intro q r j res' hm hres' ha
    obtain ⟨res, hres, -⟩ := (hR.handed r).1 ⟨q, j, hm⟩
    obtain ⟨x, hx, hsame⟩ := callTrans_records hR ht hres
    obtain rfl := Option.some.inj (hres'.symm.trans hx)
    rw [hsame.2.2.2.2]
    exact h q r j res hm hres (hsame.2.2.2.1 ▸ ha)
  intro q r j res' hm hres' ha
  rcases callTrans_sent ht with hs | ⟨q', a, hs, ha'⟩ | ⟨q', r', x, hs, -, -⟩ |
      ⟨q', r', x, j', hs, hx, hwhy⟩
  · exact hold q r j res' (hs ▸ hm) hres' ha
  · rcases List.mem_append.1 (hs ▸ hm) with hm | hm
    · exact hold q r j res' hm hres' ha
    · obtain ⟨-, rfl⟩ := Prod.mk.inj (List.mem_singleton.1 hm)
      cases ha'
  · rcases List.mem_append.1 (hs ▸ hm) with hm | hm
    · exact hold q r j res' hm hres' ha
    · have := (Prod.mk.inj (List.mem_singleton.1 hm)).2
      cases this
  · rcases List.mem_append.1 (hs ▸ hm) with hm | hm
    · exact hold q r j res' hm hres' ha
    · obtain ⟨rfl, hj⟩ := Prod.mk.inj (List.mem_singleton.1 hm)
      cases hj
      obtain ⟨y, hy, hsame⟩ := callTrans_records hR ht hx
      obtain rfl := Option.some.inj (hres'.symm.trans hy)
      rcases hwhy with ⟨-, hq⟩ | ⟨c, path, rfl, hr, hret⟩
      · exact hq.trans hsame.2.2.2.2.symm
      · refine absurd ⟨⟨j, hret⟩, fun hasy => ?_⟩ (hF r x hr hx)
        rw [← hsame.2.2.2.1, ha] at hasy
        cases hasy

theorem OnceLog.step {s s' : Nodefs} {e : CallEvent} (h : OnceLog s.sent) (hR : Records s)
    (hP : PendingOnly s) (hF : FirstReadout s e) (ht : CallTrans C W mountpoint s e s') :
    OnceLog s'.sent := by
  rcases callTrans_sent ht with hs | ⟨q, a, hs, ha⟩ | ⟨q, r, res, hs, hres, hn⟩ |
      ⟨q, r, res, j, hs, hres, hwhy⟩ <;> rw [hs]
  · exact h
  · refine h.concat (fun r hr => ?_) fun r j hr => ?_
    · simp [ha] at hr
    · simp only at hr
      rw [hr] at ha
      cases ha
  · refine h.concat (fun r' hr => ?_) fun r' j hr => by cases hr
    obtain rfl : r = r' := by simpa [Answer.about] using hr
    exact hR.handed_none hres hn
  · have hno : ¬ ∃ q j, (q, Answer.result r j) ∈ s.sent := by
      refine hR.not_sent hres ?_
      rcases hwhy with ⟨hr, -⟩ | ⟨c, path, rfl, hr, -⟩
      · obtain ⟨x, hx, hn⟩ := hR.inflight r hr
        obtain rfl := Option.some.inj (hres.symm.trans hx)
        exact not_handedOver_of_none hn
      · exact hF r res hr hres
    refine h.concat (fun r' hr => ?_) fun r' j' hr x hx hr' => ?_
    · obtain rfl : r = r' := by simpa [Answer.about] using hr
      exact hno
    · cases hr
      exact hP.about hno hx hr'

/-- Reading a call that has been handed over sends its result again. -/
theorem FirstReadout.of_onceLog {s s' : Nodefs} {e : CallEvent} (hR : Records s)
    (ht : CallTrans C W mountpoint s e s') (h : OnceLog s'.sent) : FirstReadout s e := by
  cases e with
  | readout c path =>
    intro r res hr hres hh
    have hsent := (hR.handed r).2 ⟨res, hres, hh⟩
    obtain ⟨⟨j, hj⟩, -⟩ := hh
    cases ht with
    | @readResult _ _ _ res' j' hm hc hr' hres' hj' =>
      obtain rfl := Option.some.inj (hr.symm.trans hr')
      refine OnceLog.not_twice (q := s.request c) (j := j') ?_ hsent
      simpa [Nodefs.send, Nodefs.setClosecb, Nodefs.setRecord, Nodefs.moveToGc,
        Nodefs.nextRequest] using h
    | readStatus hm hc hr' hres' hj' =>
      obtain rfl := Option.some.inj (hr.symm.trans hr')
      obtain rfl := Option.some.inj (hres.symm.trans hres')
      rw [hj'] at hj
      cases hj
  | _ => trivial

theorem callTrans_sent_append {s s' : Nodefs} {e : CallEvent}
    (ht : CallTrans C W mountpoint s e s') : ∃ l, s'.sent = s.sent ++ l := by
  rcases callTrans_sent ht with hs | ⟨_, _, hs, _⟩ | ⟨_, _, _, hs, _⟩ | ⟨_, _, _, _, hs, _⟩
  · exact ⟨[], by simp [hs]⟩
  all_goals exact ⟨_, hs⟩

theorem records_of_run {es : List CallEvent} {s : Nodefs}
    (h : run (callStep C W mountpoint) {} es = some s) : Records s :=
  run_inv (fun _ _ _ hI _ hs => hI.step (callTrans_of_step hs)) es .init (along_true es _) h

/-- A run delivers each result once exactly when none of its readouts asks for a call whose
result has been sent. -/
theorem delivered_once_iff (C : UrpcCodes) (W : AuraWire) (mountpoint : Bytes)
    (es : List CallEvent) (s : Nodefs) (h : run (callStep C W mountpoint) {} es = some s) :
    DeliveredOnce s ↔ Along (callStep C W mountpoint) FirstReadout {} es := by
  constructor
  · intro hd
    have hlog := hd.1
    clear hd
    induction es using List.reverseRecOn generalizing s with
    | nil => trivial
    | append_singleton es e ih =>
      obtain ⟨t, ht, hs⟩ := run_concat h
      have htr := callTrans_of_step hs
      obtain ⟨l, hl⟩ := callTrans_sent_append htr
      refine along_concat (ih t ht (OnceLog.left (hl ▸ hlog))) fun t' ht' => ?_
      obtain rfl := Option.some.inj (ht.symm.trans ht')
      exact FirstReadout.of_onceLog (records_of_run ht) htr hlog
  · intro hF
    have hinv : Records s ∧ PendingOnly s ∧ OnceLog s.sent ∧ ToIssuer s := by
      refine run_inv (I := fun s => Records s ∧ PendingOnly s ∧ OnceLog s.sent ∧ ToIssuer s)
        (fun s e s' ⟨hR, hP, hO, hT⟩ hFe hs => ?_) es ⟨.init, ?_, ?_, ?_⟩ hF h
      · have ht := callTrans_of_step hs
        exact ⟨hR.step ht, hP.step hR ht, hO.step hR hP hFe ht, hT.step hR hFe ht⟩
      · intro q r st hm
        cases hm
      · intro l₁ q r j l₂ hl
        simp at hl
      · intro q r j res hm
        cases hm
    exact ⟨hinv.2.2.1, hinv.2.2.2⟩

/-- One reader of one call, which is told `pending` before the completion and then the result. -/
def pollRun : List CallEvent :=
  [.accept, .create 0 pingObject (.array []) true true, .readout 0 (lit "/online/pending/0"),
    .complete 0 0 none, .readout 0 (lit "/online/pending/0")]

theorem delivered_once_iff_pollRun :
    ∃ s, run (callStep .digits .littleEndian (lit "/online")) {} pollRun = some s
      ∧ s.sent.length = 3
      ∧ (DeliveredOnce s
        ↔ Along (callStep .digits .littleEndian (lit "/online")) FirstReadout {} pollRun) :=
  ⟨_, rfl, rfl, delivered_once_iff .digits .littleEndian (lit "/online") pollRun _ rfl⟩

/-- A second reader, before the first one's connection is closed, is sent the result too. -/
theorem twoReadersRun_sends_twice :
    ¬ ∀ (C : UrpcCodes) (W : AuraWire) (mountpoint : Bytes) (es : List CallEvent) (s : Nodefs),
      run (callStep C W mountpoint) {} es = some s → DeliveredOnce s := by
  intro h
  let j : Json := .object [(lit "status", .string (lit "completed"))]
  have hlog := (h .digits .littleEndian (lit "/online") (twoReadersRun.take 6) _ rfl).1
  refine OnceLog.not_twice (q := ⟨2, 1⟩) (r := 0) (j := j)
    (l := [(⟨0, 0⟩, .accepted (lit "/online/pending/0")), (⟨1, 0⟩, .result 0 j)]) hlog ?_
  exact ⟨⟨1, 0⟩, j, by simp⟩

end AuraHttpd
