import AuraHttpd.Proofs.NodeTable
import AuraHttpd.Proofs.CallDelivery

/-!
# Every call request is answered once

A step answers the request it handles, which is a new one, or, where a sync call completes, the
request that call was issued by (`nodeTrans_asked`).  So an older request is answered again only
while a sync call of its own is in flight: `Waiting` is kept until that call completes, and
`Settled` holds from the reply on.
-/

namespace AuraHttpd

open CString StepSystem

variable {L : NodeLibs} {mpoint : Mpoint}

/-- The replies a request has got. -/
def NodeFs.repliesTo (s : NodeFs) (q : Request) : List Reply :=
  (s.calls.sent.filter (·.1 = q)).map (·.2.reply)
    ++ (s.replies.filter (·.1 = q)).map fun r => .json r.2

/-- What `issue_call` does: an error is sent, or the call is started, and accepted if async. -/
theorem issueCall_cases {s s' : Nodefs} {tbl : Option ExportTable} {c : Conn}
    {request : CallRequest} {name : Bytes} {isAsync started : Bool}
    (h : issueCall L mpoint s.nextRequest tbl (s.request c) request name isAsync started
      = some s') :
    (∃ n m k, n ∈ [405, 400, 500] ∧ (k = s.callid ∨ k = wrapS 32 (s.callid + 1))
        ∧ s' = { s.nextRequest with callid := k }.send (s.request c) (.error n m))
      ∨ ∃ o, s' = if isAsync then
          ({ s.nextRequest with callid := wrapS 32 (s.callid + 1) }.addCall
            (newCall mpoint.mountpoint s c o true)).send (s.request c)
              (.accepted (pendingPath mpoint.mountpoint s.callid))
        else { s.nextRequest with callid := wrapS 32 (s.callid + 1) }.addCall
          (newCall mpoint.mountpoint s c o false) := by
  unfold issueCall at h
  split_ifs at h with hcmd
  · cases h
    exact .inl ⟨405, _, s.callid, by simp, .inl rfl, rfl⟩
  · split at h
    · cases h
      exact .inl ⟨400, _, s.callid, by simp, .inl rfl, rfl⟩
    · simp only [Option.bind_eq_bind, Option.bind_eq_some_iff] at h
      obtain ⟨tbl, -, h⟩ := h
      split at h
      · cases h
        exact .inl ⟨400, _, s.callid, by simp, .inl rfl, rfl⟩
      · rename_i o ho
        simp only [ahttpdCallCreate, Option.bind_eq_bind, Option.bind_eq_some_iff] at h
        obtain ⟨⟨ret, buf⟩, -, h⟩ := h
        simp only at h
        split_ifs at h with h1 h2 h3
        · cases h
          exact .inl ⟨400, _, s.callid, by simp, .inl rfl, rfl⟩
        · cases h
          exact .inl ⟨500, _, _, by simp, .inr rfl, rfl⟩
        · subst h3
          cases h
          exact .inr ⟨o, rfl⟩
        · obtain rfl : isAsync = false := by simpa using h3
          cases h
          exact .inr ⟨o, rfl⟩

/-- Whose request an event on the calls answers. -/
theorem callTrans_asked {C : UrpcCodes} {W : AuraWire} {mp : Bytes} {s s' : Nodefs} {e : CallEvent}
    (ht : CallTrans C W mp s e s') :
    s.requests ≤ s'.requests
      ∧ (s'.sent = s.sent
        ∨ (∃ c a, s'.sent = s.sent ++ [(s.request c, a)] ∧ s'.requests = s.requests + 1)
        ∨ ∃ r result buf res j, e = .complete r result buf ∧ r ∈ s.inflight
          ∧ s.records r = some res ∧ res.isAsync = false
          ∧ s'.sent = s.sent ++ [(res.request, .result r j)]) := by
  cases ht with
  | accept hm => exact ⟨le_rfl, .inl rfl⟩
  | refused hm hc hk => exact ⟨Nat.le_succ _, .inr (.inl ⟨_, _, rfl, rfl⟩)⟩
  | createdSync hm hc => exact ⟨Nat.le_succ _, .inl rfl⟩
  | createdAsync hm hc => exact ⟨Nat.le_succ _, .inr (.inl ⟨_, _, rfl, rfl⟩)⟩
  | completedAsync hm hr hres hj ha => simp [Nodefs.setRecord]
  | @completedSync r result retbuf res j hm hr hres hj ha hc =>
    refine ⟨by simp [Nodefs.setClosecb, Nodefs.send, Nodefs.setRecord],
      .inr (.inr ⟨r, result, retbuf, res, j, rfl, hr, hres, ha, ?_⟩)⟩
    simp [Nodefs.setClosecb, Nodefs.send, Nodefs.setRecord]
  | @readResult c path r res j hm hc hr hres hj =>
    refine ⟨?_, .inr (.inl ⟨c, .result r j, ?_, ?_⟩)⟩ <;>
      simp [Nodefs.setClosecb, Nodefs.setRecord, Nodefs.moveToGc, Nodefs.send, Nodefs.nextRequest]
  | @readStatus c path r res hm hc hr hres hj =>
    refine ⟨?_, .inr (.inl ⟨c, .status r res.resourceStatus, ?_, ?_⟩)⟩ <;>
      simp [Nodefs.send, Nodefs.nextRequest]
  | terminate hm hc => exact ⟨Nat.le_succ _, .inr (.inl ⟨_, _, rfl, rfl⟩)⟩
  | @closeDelete c r hc hr =>
    have hf := freed_connCloseCb { s with conns := s.conns.erase c } r
    exact ⟨(freed_requests hf).1.ge, .inl (freed_sent hf).1⟩
  | closeQuiet hc hr => exact ⟨le_rfl, .inl rfl⟩
  | unmount hm =>
    have hf := freed_cleanup { s with mounted := false }
    exact ⟨(freed_requests hf).1.ge, .inl (freed_sent hf).1⟩

/-- How the calls in flight change. -/
theorem callTrans_inflight {C : UrpcCodes} {W : AuraWire} {mp : Bytes} {s s' : Nodefs}
    {e : CallEvent} (ht : CallTrans C W mp s e s') :
    (s'.inflight = s.inflight ∧ ∀ r result buf, e ≠ .complete r result buf)
      ∨ (∃ r result buf, e = .complete r result buf ∧ s'.inflight = s.inflight.erase r)
      ∨ ∃ c o isAsync, s'.inflight = s.inflight ++ [s.next]
        ∧ s'.records s.next = some (newCall mp s c o isAsync)
        ∧ s'.requests = s.requests + 1 ∧ ∀ r result buf, e ≠ .complete r result buf := by
  cases ht with
  | createdSync hm hc =>
    exact .inr (.inr ⟨_, _, _, rfl, Function.update_self .., rfl, by simp⟩)
  | createdAsync hm hc =>
    exact .inr (.inr ⟨_, _, _, rfl, Function.update_self .., rfl, by simp⟩)
  | @completedAsync r result retbuf res j hm hr hres hj ha =>
    exact .inr (.inl ⟨r, result, retbuf, rfl, by simp [Nodefs.setRecord]⟩)
  | @completedSync r result retbuf res j hm hr hres hj ha hc =>
    exact .inr (.inl ⟨r, result, retbuf, rfl, by
      simp [Nodefs.setRecord, Nodefs.send, Nodefs.setClosecb]⟩)
  | readResult hm hc hr hres hj =>
    refine .inl ⟨?_, by simp⟩
    simp [Nodefs.setClosecb, Nodefs.setRecord, Nodefs.moveToGc, Nodefs.send, Nodefs.nextRequest]
  | readStatus hm hc hr hres hj =>
    exact .inl ⟨by simp [Nodefs.send, Nodefs.nextRequest], by simp⟩
  | closeDelete hc hr => exact .inl ⟨(freed_requests (freed_connCloseCb _ _)).2, by simp⟩
  | unmount hm => exact .inl ⟨(freed_requests (freed_cleanup _)).2, by simp⟩
  | _ => exact .inl ⟨rfl, by simp⟩

/-- A step of a node handles a request of its own, leaves the calls as they are, or is an event
on the calls; what completes there completed by aura's callback. -/
theorem nodeTrans_calls {s s' : NodeFs} {e : NodeEvent} (ht : NodeTrans L mpoint s e s') :
    (s'.calls = s.calls ∧ s'.replies = s.replies)
      ∨ (∃ c j, s'.calls = s.calls.nextRequest
        ∧ s'.replies = s.replies ++ [(s.calls.request c, j)])
      ∨ s'.replies = s.replies
        ∧ ∃ e', CallTrans L.codes L.wire mpoint.mountpoint s.calls e' s'.calls
          ∧ ∀ r result buf, e' = .complete r result buf → e = .call e' := by
  cases ht with
  | etblChanged hm h => exact .inl ⟨rfl, rfl⟩
  | exports hm hc => exact .inr (.inl ⟨_, _, rfl, rfl⟩)
  | arrive h => exact .inl ⟨rfl, rfl⟩
  | events hm hc h => exact .inr (.inl ⟨_, _, rfl, rfl⟩)
  | @issueCall c request path name isAsync started calls hm hc h =>
    refine .inr (.inr ⟨rfl, ?_⟩)
    rcases issueCall_cases h with ⟨n, m, k, -, hk, rfl⟩ | ⟨o, rfl⟩
    · exact ⟨.create c ⟨0, [], none, none, 0⟩ .null true true, .refused hm hc hk, by simp⟩
    · cases isAsync
      · exact ⟨.create c o .null false true, .createdSync hm hc, by simp⟩
      · exact ⟨.create c o .null true true, .createdAsync hm hc, by simp⟩
  | call h hne => exact .inr (.inr ⟨rfl, _, callTrans_of_step h, fun _ _ _ _ => rfl⟩)

theorem Records.node {s s' : NodeFs} {e : NodeEvent} (h : Records s.calls)
    (ht : NodeTrans L mpoint s e s') : Records s'.calls := by
  rcases nodeTrans_calls ht with ⟨hs, -⟩ | ⟨c, j, hs, -⟩ | ⟨-, e', ht', -⟩
  · rwa [hs]
  · rw [hs]
    exact h.nextRequest
  · exact h.step ht'

/-- A call in flight was so before, or has just been issued. -/
theorem callTrans_inflight_record {C : UrpcCodes} {W : AuraWire} {mp : Bytes} {s s' : Nodefs}
    {e : CallEvent} (hR : Records s) (ht : CallTrans C W mp s e s') {r : RecId}
    {res' : PendingCall} (hr : r ∈ s'.inflight) (hres' : s'.records r = some res') :
    (r ∈ s.inflight ∧ ∃ res, s.records r = some res ∧ SameCall res res')
      ∨ res'.request.id = s.requests ∧ s'.requests = s.requests + 1 := by
  have hold : r ∈ s.inflight → ∃ res, s.records r = some res ∧ SameCall res res' := by
    intro hr
    obtain ⟨res, hres, -⟩ := hR.inflight r hr
    obtain ⟨x, hx, hsame⟩ := callTrans_records hR ht hres
    obtain rfl := Option.some.inj (hres'.symm.trans hx)
    exact ⟨res, hres, hsame⟩
  rcases callTrans_inflight ht with ⟨hi, -⟩ | ⟨r', _, _, -, hi⟩ | ⟨c, o, isAsync, hi, hnew, hq, -⟩
  · rw [hi] at hr
    exact .inl ⟨hr, hold hr⟩
  · rw [hi] at hr
    have hr := List.mem_of_mem_erase hr
    exact .inl ⟨hr, hold hr⟩
  · rw [hi, List.mem_append, List.mem_singleton] at hr
    rcases hr with hr | rfl
    · exact .inl ⟨hr, hold hr⟩
    · obtain rfl := Option.some.inj (hres'.symm.trans hnew)
      exact .inr ⟨rfl, hq⟩

/-- The request is an old one, and no sync call in flight was issued by it, but for `o`. -/
def Quiet (q : Request) (o : Option RecId) (s : Nodefs) : Prop :=
  q.id < s.requests ∧ ∀ r ∈ s.inflight, o ≠ some r → ∀ res, s.records r = some res →
    res.isAsync = false → res.request ≠ q

theorem Quiet.callTrans {C : UrpcCodes} {W : AuraWire} {mp : Bytes} {s s' : Nodefs} {e : CallEvent}
    {q : Request} {o : Option RecId} (h : Quiet q o s) (hR : Records s)
    (ht : CallTrans C W mp s e s') : Quiet q o s' := by
  refine ⟨h.1.trans_le (callTrans_asked ht).1, fun r hr ho res' hres' ha => ?_⟩
  rcases callTrans_inflight_record hR ht hr hres' with ⟨hr, res, hres, hsame⟩ | ⟨hq, -⟩
  · rw [hsame.2.2.2.2]
    exact h.2 r hr ho res hres (hsame.2.2.2.1 ▸ ha)
  · rintro rfl
    exact absurd h.1 (by omega)

theorem Quiet.step {s s' : NodeFs} {e : NodeEvent} {q : Request} {o : Option RecId}
    (h : Quiet q o s.calls) (hR : Records s.calls) (ht : NodeTrans L mpoint s e s') :
    Quiet q o s'.calls := by
  rcases nodeTrans_calls ht with ⟨hs, -⟩ | ⟨c, j, hs, -⟩ | ⟨-, e', ht', -⟩
  · rwa [hs]
  · rw [hs]
    exact ⟨h.1.trans (Nat.lt_succ_self _), h.2⟩
  · exact h.callTrans hR ht'

/-- An old request is answered when its sync call completes, and not otherwise. -/
theorem Quiet.replies {s s' : NodeFs} {e : NodeEvent} {q : Request} {o : Option RecId}
    (h : Quiet q o s.calls) (ht : NodeTrans L mpoint s e s')
    (hne : ∀ r result buf, o = some r → e ≠ .call (.complete r result buf)) :
    s'.repliesTo q = s.repliesTo q := by
  have hnew : ∀ c, s.calls.request c ≠ q := by
    rintro c rfl
    exact Nat.lt_irrefl _ h.1
  unfold NodeFs.repliesTo
  rcases nodeTrans_calls ht with ⟨hs, hl⟩ | ⟨c, j, hs, hl⟩ | ⟨hl, e', ht', hcb⟩
  · rw [hs, hl]
  · rw [hs, hl]
    simp [Nodefs.nextRequest, hnew]
  · rw [hl]
    rcases (callTrans_asked ht').2 with hs | ⟨c, a, hs, -⟩ |
        ⟨r, result, buf, res, j, rfl, hr, hres, ha, hs⟩
    · rw [hs]
    · rw [hs]
      simp [hnew]
    · have hq : res.request ≠ q := by
        refine h.2 r hr (fun ho => ?_) res hres ha
        exact hne r result buf ho (hcb r result buf rfl)
      rw [hs]
      simp [hq]

/-- Whatever was answered, and whoever issued a call in flight, is an old request. -/
structure Numbered (s : NodeFs) : Prop where
  sent : ∀ p ∈ s.calls.sent, p.1.id < s.calls.requests
  replies : ∀ p ∈ s.replies, p.1.id < s.calls.requests
  inflight : ∀ r ∈ s.calls.inflight, ∀ res, s.calls.records r = some res →
    res.request.id < s.calls.requests

theorem Numbered.step {s s' : NodeFs} {e : NodeEvent} (h : Numbered s) (hR : Records s.calls)
    (ht : NodeTrans L mpoint s e s') : Numbered s' := by
  rcases nodeTrans_calls ht with ⟨hs, hl⟩ | ⟨c, j, hs, hl⟩ | ⟨hl, e', ht', -⟩
  · constructor <;> rw [hs] <;> [skip; rw [hl]; skip]
    exacts [h.sent, h.replies, h.inflight]
  · have hlt : ∀ {n}, n < s.calls.requests → n < s'.calls.requests := by
      intro n hn
      rw [hs]
      exact hn.trans (Nat.lt_succ_self _)
    refine ⟨fun p hp => ?_, fun p hp => ?_, fun r hr res hres => ?_⟩
    · exact hlt (h.sent p (by rwa [hs] at hp))
    · rw [hl, List.mem_append, List.mem_singleton] at hp
      rcases hp with hp | rfl
      · exact hlt (h.replies p hp)
      · rw [hs]
        exact Nat.lt_succ_self _
    · rw [hs] at hr hres
      exact hlt (h.inflight r hr res hres)
  · obtain ⟨hle, hsent⟩ := callTrans_asked ht'
    refine ⟨fun p hp => ?_, fun p hp => ?_, fun r hr res hres => ?_⟩
    · rcases hsent with hs | ⟨c, a, hs, hq⟩ | ⟨r, _, _, res, j, -, hr, hres, -, hs⟩ <;>
        rw [hs] at hp
      · exact (h.sent p hp).trans_le hle
      · rcases List.mem_append.1 hp with hp | hp
        · exact (h.sent p hp).trans_le hle
        · obtain rfl := List.mem_singleton.1 hp
          rw [hq]
          exact Nat.lt_succ_self _
      · rcases List.mem_append.1 hp with hp | hp
        · exact (h.sent p hp).trans_le hle
        · obtain rfl := List.mem_singleton.1 hp
          exact (h.inflight r hr res hres).trans_le hle
    · rw [hl] at hp
      exact (h.replies p hp).trans_le hle
    · rcases callTrans_inflight_record hR ht' hr hres with ⟨hr, x, hx, hsame⟩ | ⟨hid, hq⟩
      · rw [hsame.2.2.2.2]
        exact (h.inflight r hr x hx).trans_le hle
      · omega

theorem numbered_of_run {routes : Routes} {es : List NodeEvent} {s : NodeFs}
    (h : run (nodeStep L mpoint) (nodeMount mpoint routes) es = some s) :
    Records s.calls ∧ Numbered s :=
  run_inv (I := fun s => Records s.calls ∧ Numbered s) (fun s e s' hI _ hs =>
    have ht := nodeTrans_of_step hs
    ⟨hI.1.node ht, hI.2.step hI.1 ht⟩) es
    ⟨.init, by constructor <;> simp [nodeMount]⟩ (along_true es _) h

/-- Once no sync call of its own is in flight, a request gets no further reply. -/
theorem Quiet.settled {s s' : NodeFs} {es : List NodeEvent} {q : Request}
    (h : Quiet q none s.calls) (hR : Records s.calls)
    (hrun : run (nodeStep L mpoint) s es = some s') :
    s'.repliesTo q = s.repliesTo q := by
  have hinv : (Quiet q none s'.calls ∧ Records s'.calls) ∧ s'.repliesTo q = s.repliesTo q :=
    run_inv (I := fun t => (Quiet q none t.calls ∧ Records t.calls)
        ∧ t.repliesTo q = s.repliesTo q) (fun t e t' hI _ ht =>
      have ht := nodeTrans_of_step ht
      ⟨⟨hI.1.1.step hI.1.2 ht, hI.1.2.node ht⟩,
        (hI.1.1.replies ht (fun _ _ _ ho => by cases ho)).trans hI.2⟩) es
      ⟨⟨h, hR⟩, rfl⟩ (along_true es _) hrun
  exact hinv.2

/-- The sync call `r` is in flight and will answer `q`. -/
structure Waiting (q : Request) (r : RecId) (s : NodeFs) : Prop where
  quiet : Quiet q (some r) s.calls
  records : Records s.calls
  inflight : r ∈ s.calls.inflight
  record : ∃ res, s.calls.records r = some res ∧ res.request = q ∧ res.isAsync = false
  replies : s.repliesTo q = []

theorem Waiting.step {s s' : NodeFs} {e : NodeEvent} {q : Request} {r : RecId}
    (h : Waiting q r s) (ht : NodeTrans L mpoint s e s')
    (hne : ∀ result buf, e ≠ .call (.complete r result buf)) : Waiting q r s' := by
  have hrec : r ∈ s'.calls.inflight
      ∧ ∃ res, s'.calls.records r = some res ∧ res.request = q ∧ res.isAsync = false := by
    obtain ⟨res, hres, hq, ha⟩ := h.record
    rcases nodeTrans_calls ht with ⟨hs, -⟩ | ⟨c, j, hs, -⟩ | ⟨-, e', ht', hcb⟩
    · rw [hs]
      exact ⟨h.inflight, res, hres, hq, ha⟩
    · rw [hs]
      exact ⟨h.inflight, res, hres, hq, ha⟩
    · obtain ⟨res', hres', hsame⟩ := callTrans_records h.records ht' hres
      refine ⟨?_, res', hres', hsame.2.2.2.2.trans hq, hsame.2.2.2.1.trans ha⟩
      rcases callTrans_inflight ht' with ⟨hi, -⟩ | ⟨r', result, buf, rfl, hi⟩ | ⟨_, _, _, hi, -⟩ <;>
        rw [hi]
      · exact h.inflight
      · have hr : r ≠ r' := by
          rintro rfl
          exact hne result buf (hcb r result buf rfl)
        exact (List.mem_erase_of_ne hr).2 h.inflight
      · exact List.mem_append_left _ h.inflight
  exact
    { quiet := h.quiet.step h.records ht
      records := h.records.node ht
      inflight := hrec.1
      record := hrec.2
      replies := (h.quiet.replies ht fun r' result buf ho => by
        obtain rfl := Option.some.inj ho
        exact hne result buf).trans h.replies }

/-- The completion of a sync call answers the request it was issued by, for good. -/
theorem Waiting.complete {s s' : NodeFs} {q : Request} {r : RecId} {result : ℤ}
    {buf : Option AuraBuffer} (h : Waiting q r s)
    (ht : NodeTrans L mpoint s (.call (.complete r result buf)) s') :
    Quiet q none s'.calls ∧ ∃ j, s'.repliesTo q = [.json j] := by
  obtain ⟨res, hres, hq, ha⟩ := h.record
  have hstep := h.quiet.step h.records ht
  have hrep := h.replies
  cases ht with
  | @call _ calls hc hne =>
    have ht' := callTrans_of_step hc
    have hgone : r ∉ calls.inflight := by
      rcases callTrans_inflight ht' with ⟨-, hn⟩ | ⟨r', _, _, he, hi⟩ | ⟨_, _, _, -, -, -, hn⟩
      · exact absurd rfl (hn r result buf)
      · cases he
        rw [hi]
        exact h.records.inflight_nodup.not_mem_erase
      · exact absurd rfl (hn r result buf)
    refine ⟨⟨hstep.1, fun r' hr' _ => hstep.2 r' hr' ?_⟩, ?_⟩
    · rintro ⟨⟩
      exact hgone hr'
    · simp only [NodeFs.repliesTo, List.append_eq_nil_iff, List.map_eq_nil_iff] at hrep ⊢
      cases ht' with
      | completedAsync hm hr hres' hj ha' =>
        obtain rfl := Option.some.inj (hres.symm.trans hres')
        rw [ha] at ha'
        cases ha'
      | @completedSync _ _ _ res' j hm hr hres' hj ha' hc' =>
        obtain rfl := Option.some.inj (hres.symm.trans hres')
        refine ⟨j, ?_⟩
        simp [Nodefs.setClosecb, Nodefs.send, Nodefs.setRecord, hq, hrep, Answer.reply]

/-- A request that is new has no reply. -/
theorem Numbered.repliesTo_new {s : NodeFs} (h : Numbered s) (c : Conn) :
    s.repliesTo (s.calls.request c) = [] := by
  have hne : ∀ {q : Request}, q.id < s.calls.requests → q ≠ s.calls.request c := by
    rintro q hq rfl
    exact Nat.lt_irrefl _ hq
  simp only [NodeFs.repliesTo, List.append_eq_nil_iff, List.map_eq_nil_iff,
    List.filter_eq_nil_iff, decide_eq_true_eq]
  exact ⟨fun p hp => hne (h.sent p hp), fun p hp => hne (h.replies p hp)⟩

theorem Waiting.answered {s s' : NodeFs} {es : List NodeEvent} {q : Request} {r : RecId}
    (h : Waiting q r s) (hrun : run (nodeStep L mpoint) s es = some s') :
    ((∀ result buf, NodeEvent.call (.complete r result buf) ∉ es) → s'.repliesTo q = [])
      ∧ ((∃ result buf, NodeEvent.call (.complete r result buf) ∈ es) →
        ∃ j, s'.repliesTo q = [.json j]) := by
  induction es generalizing s with
  | nil =>
    cases hrun
    exact ⟨fun _ => h.replies, by simp⟩
  | cons e es ih =>
    obtain ⟨t, ht, hrest⟩ := run_cons hrun
    have htr := nodeTrans_of_step ht
    by_cases he : ∃ result buf, e = .call (.complete r result buf)
    · obtain ⟨result, buf, rfl⟩ := he
      obtain ⟨hq, j, hj⟩ := h.complete htr
      refine ⟨fun hno => absurd List.mem_cons_self (hno result buf), fun _ => ⟨j, ?_⟩⟩
      rw [hq.settled (h.records.node htr) hrest, hj]
    · simp only [not_exists] at he
      obtain ⟨h1, h2⟩ := ih (h.step htr he) hrest
      refine ⟨fun hno => h1 fun result buf hm => hno result buf (List.mem_cons_of_mem _ hm), ?_⟩
      rintro ⟨result, buf, hm⟩
      refine h2 ⟨result, buf, ?_⟩
      exact (List.mem_cons.1 hm).resolve_left fun h' => he result buf h'.symm

def NodeFs.setCalls (s : NodeFs) (calls : Nodefs) : NodeFs := { s with calls := calls }

section Issued

variable {s : NodeFs} (c : Conn)

theorem Numbered.older (h : Numbered s) {r : RecId} (hr : r ∈ s.calls.inflight) {res : PendingCall}
    (hres : s.calls.records r = some res) : res.request ≠ s.calls.request c := by
  intro he
  have := h.inflight r hr res hres
  rw [he] at this
  exact Nat.lt_irrefl _ this

theorem Numbered.refused (h : Numbered s) (k : ℤ) (n : ℕ) (m : Bytes) {calls : Nodefs}
    (hcalls : calls = { s.calls.nextRequest with callid := k }.send (s.calls.request c)
      (.error n m)) :
    Quiet (s.calls.request c) none calls
      ∧ (s.setCalls calls).repliesTo (s.calls.request c) = [.error n m] := by
  have hnew := h.repliesTo_new c
  simp only [NodeFs.repliesTo, List.append_eq_nil_iff, List.map_eq_nil_iff] at hnew
  subst hcalls
  refine ⟨⟨Nat.lt_succ_self _, fun r hr _ res hres _ => h.older c hr hres⟩, ?_⟩
  simp [NodeFs.repliesTo, NodeFs.setCalls, Nodefs.send, Nodefs.nextRequest, hnew, Answer.reply]

/-- Of the calls in flight after a call was started only that one was issued by its request. -/
theorem Numbered.started (h : Numbered s) {r : RecId} {x res : PendingCall}
    (hr : r ∈ s.calls.inflight ++ [s.calls.next])
    (hres : Function.update s.calls.records s.calls.next (some x) r = some res)
    (hq : res.request = s.calls.request c) : r = s.calls.next ∧ res = x := by
  rcases update_some_cases hres with ⟨rfl, rfl⟩ | ⟨hne, hres⟩
  · exact ⟨rfl, rfl⟩
  · refine absurd hq (h.older c ?_ hres)
    exact (List.mem_append.1 hr).resolve_right fun h' => hne (List.mem_singleton.1 h')

theorem Numbered.startedAsync (h : Numbered s) (k : ℤ) (o : AuraObject) {calls : Nodefs}
    (hcalls : calls = ({ s.calls.nextRequest with callid := k }.addCall
      (newCall mpoint.mountpoint s.calls c o true)).send (s.calls.request c)
        (.accepted (pendingPath mpoint.mountpoint s.calls.callid))) :
    Quiet (s.calls.request c) none calls
      ∧ (s.setCalls calls).repliesTo (s.calls.request c)
        = [.accepted (pendingPath mpoint.mountpoint s.calls.callid)] := by
  have hnew := h.repliesTo_new c
  simp only [NodeFs.repliesTo, List.append_eq_nil_iff, List.map_eq_nil_iff] at hnew
  subst hcalls
  refine ⟨⟨Nat.lt_succ_self _, fun r hr _ res hres ha hq => ?_⟩, ?_⟩
  · rw [(h.started c hr hres hq).2] at ha
    cases ha
  · simp [NodeFs.repliesTo, NodeFs.setCalls, Nodefs.send, Nodefs.addCall, Nodefs.nextRequest, hnew,
      Answer.reply]

theorem Numbered.startedSync (h : Numbered s) (k : ℤ) (o : AuraObject) {calls : Nodefs}
    (hcalls : calls = { s.calls.nextRequest with callid := k }.addCall
      (newCall mpoint.mountpoint s.calls c o false)) (hR : Records calls) :
    Waiting (s.calls.request c) s.calls.next (s.setCalls calls) := by
  have hnew := h.repliesTo_new c
  simp only [NodeFs.repliesTo, List.append_eq_nil_iff, List.map_eq_nil_iff] at hnew
  subst hcalls
  exact
    { quiet := ⟨Nat.lt_succ_self _, fun r hr ho res hres _ hq =>
        ho (congrArg some (h.started c hr hres hq).1.symm)⟩
      records := hR
      inflight := List.mem_append_right _ (List.mem_singleton.2 rfl)
      record := ⟨_, Function.update_self .., rfl, rfl⟩
      replies := by
        simp [NodeFs.repliesTo, NodeFs.setCalls, Nodefs.addCall, Nodefs.nextRequest, hnew] }

end Issued

/-- In every run a request handled by `issue_call` is answered at once and never again if it is
refused or the call is async, and if the call is sync it is answered when that call completes and
not before, nor again. -/
theorem issue_answered (L : NodeLibs) (mpoint : Mpoint) (routes : Routes)
    (es₁ es₂ : List NodeEvent) (s₁ s₂ s : NodeFs) (c : Conn) (request : CallRequest)
    (path : Bytes) (isAsync started : Bool)
    (h₁ : run (nodeStep L mpoint) (nodeMount mpoint routes) es₁ = some s₁)
    (hstep : nodeStep L mpoint s₁ (.issueCall c request path isAsync started) = some s₂)
    (h₂ : run (nodeStep L mpoint) s₂ es₂ = some s) :
    (∃ n m, n ∈ [405, 400, 500] ∧ s₂.calls.next = s₁.calls.next
        ∧ s₂.repliesTo (s₁.calls.request c) = [.error n m]
        ∧ s.repliesTo (s₁.calls.request c) = [.error n m])
      ∨ ∃ res, s₂.calls.records s₁.calls.next = some res ∧ res.request = s₁.calls.request c
        ∧ res.isAsync = isAsync
        ∧ (isAsync = true → s₂.repliesTo (s₁.calls.request c) = [.accepted res.path]
          ∧ s.repliesTo (s₁.calls.request c) = [.accepted res.path])
        ∧ (isAsync = false → s₂.repliesTo (s₁.calls.request c) = []
          ∧ ((∀ result buf, NodeEvent.call (.complete s₁.calls.next result buf) ∉ es₂) →
            s.repliesTo (s₁.calls.request c) = [])
          ∧ ((∃ result buf, NodeEvent.call (.complete s₁.calls.next result buf) ∈ es₂) →
            ∃ j, s.repliesTo (s₁.calls.request c) = [.json j])) := by
  obtain ⟨hR, hN⟩ := numbered_of_run h₁
  have htr := nodeTrans_of_step hstep
  have hR₂ := hR.node htr
  cases htr with
  | @issueCall _ _ _ _ _ _ calls hm hc h =>
    rcases issueCall_cases h with ⟨n, m, k, hn, -, hcalls⟩ | ⟨o, hcalls⟩
    · obtain ⟨hq, hnow⟩ := hN.refused c k n m hcalls
      refine .inl ⟨n, m, hn, ?_, hnow, (hq.settled hR₂ h₂).trans hnow⟩
      show calls.next = _
      rw [hcalls]
      rfl
    · have hrec : ∀ b, isAsync = b →
          calls.records s₁.calls.next = some (newCall mpoint.mountpoint s₁.calls c o b) := by
        rintro b rfl
        rw [hcalls]
        cases isAsync <;> exact Function.update_self ..
      refine .inr ⟨_, hrec _ rfl, rfl, rfl, ?_, ?_⟩
      · rintro rfl
        obtain ⟨hq, hnow⟩ := hN.startedAsync c _ o hcalls
        exact ⟨hnow, (hq.settled hR₂ h₂).trans hnow⟩
      · rintro rfl
        have hw := hN.startedSync c _ o hcalls hR₂
        exact ⟨hw.replies, hw.answered h₂⟩

/-- A sync call of the one method, while the node is online. -/
def pingRequest : CallRequest := ⟨.get, some (lit "[]"), []⟩

theorem issue_answered_ping :
    ∃ s₁ s₂ s j, run (nodeStep .plain onlineMpoint) (nodeMount onlineMpoint .empty)
        [.call .accept, .etblChanged (some pingTable)] = some s₁
      ∧ nodeStep .plain onlineMpoint s₁
        (.issueCall 0 pingRequest (lit "/online/call/ping") false true) = some s₂
      ∧ run (nodeStep .plain onlineMpoint) s₂ [.call (.complete 0 0 none)] = some s
      ∧ s₂.repliesTo ⟨0, 0⟩ = [] ∧ s.repliesTo ⟨0, 0⟩ = [.json j] := by
  rcases issue_answered .plain onlineMpoint .empty [.call .accept, .etblChanged (some pingTable)]
    [.call (.complete 0 0 none)] _ _ _ 0 pingRequest (lit "/online/call/ping") false true rfl rfl
    rfl with ⟨n, m, -, hnext, -⟩ | ⟨res, -, -, -, -, hsync⟩
  · exact absurd hnext (by decide)
  · obtain ⟨hnow, -, hdone⟩ := hsync rfl
    obtain ⟨j, hj⟩ := hdone ⟨0, none, List.mem_singleton.2 rfl⟩
    exact ⟨_, _, _, j, rfl, rfl, rfl, hnow, hj⟩

end AuraHttpd
