import AuraHttpd.Proofs.AuraClient
import AuraHttpd.Proofs.CallReclaim

/-!
# Clients left to themselves

While the node stays mounted, no answer is lost on its way and nobody else reads a client's call,
every client whose handler is a function has had it called when it is finished, with the data of its
call wherever the node issued one (`ClientServed`).  And a client that waits needs one more poll for
its result once the call is completed: the record is neither deleted nor about to be (`Unread`), so
the poll comes to it.
-/

namespace AuraHttpd

open CString StepSystem

variable {L : NodeLibs} {mpoint : Mpoint}

/-- The record is not deleted, and no connection deletes it when it closes. -/
structure Unread (s : Nodefs) (r : RecId) : Prop where
  deleted : r ∉ s.deleted
  closecb : ∀ c, s.closecb c ≠ some (.connCloseCb r)

section Unread

variable {C : UrpcCodes} {W : AuraWire} {mountpoint : Bytes} {s s' : Nodefs} {r : RecId}

theorem Unread.of_eq (h : Unread s r) (hd : s'.deleted = s.deleted) (hc : s'.closecb = s.closecb) :
    Unread s' r := ⟨hd ▸ h.deleted, hc ▸ h.closecb⟩

theorem Unread.setClosecb (h : Unread s r) (c : Conn) {cb : CloseCb} (hcb : cb ≠ .connCloseCb r) :
    Unread (s.setClosecb c cb) r := by
  refine ⟨h.deleted, fun c' => ?_⟩
  rw [closecb_setClosecb]
  split_ifs
  · exact fun he => hcb (Option.some.inj he)
  · exact h.closecb c'

/-- Only reading a call's result out and the unmount put an end to it. -/
theorem Unread.call {e : CallEvent} (h : Unread s r) (ht : CallTrans C W mountpoint s e s')
    {res : PendingCall} (hres : s.records r = some res) (ha : res.isAsync = true)
    (hread : ∀ c path, e = .readout c path → s.routes.find path ≠ some r)
    (hun : e ≠ .unmount) : Unread s' r := by
  cases ht with
  | completedAsync hm hr hres hj ha =>
    exact h.of_eq (by simp [Nodefs.setRecord]) (by simp [Nodefs.setRecord])
  | @completedSync r' result retbuf res' j hm hr hres' hj ha' hc =>
    refine Unread.setClosecb (h.of_eq ?_ ?_) _ ?_
    · simp [Nodefs.send, Nodefs.setRecord]
    · simp [Nodefs.send, Nodefs.setRecord]
    · rintro ⟨⟩
      rw [hres] at hres'
      cases hres'
      rw [ha] at ha'
      cases ha'
  | @readResult c path r' res' j hm hc hr hres' hj =>
    refine Unread.setClosecb (h.of_eq ?_ ?_) _ ?_
    · simp [Nodefs.send, Nodefs.setRecord, Nodefs.moveToGc, Nodefs.nextRequest]
    · simp [Nodefs.send, Nodefs.setRecord, Nodefs.moveToGc, Nodefs.nextRequest]
    · rintro ⟨⟩
      exact hread c path rfl hr
  | readStatus hm hc hr hres hj =>
    exact h.of_eq (by simp [Nodefs.send, Nodefs.nextRequest])
      (by simp [Nodefs.send, Nodefs.nextRequest])
  | @terminate c hm hc =>
    exact (Unread.setClosecb (s := s.nextRequest) (h.of_eq rfl rfl) c (by simp)).of_eq rfl rfl
  | @closeDelete c r' hc hr =>
    have hne : r ≠ r' := by
      rintro rfl
      exact h.closecb c hr
    refine ⟨?_, ?_⟩
    · unfold connCloseCb ahttpdCallDelete
      split
      · simpa using h.deleted
      · simpa using ⟨h.deleted, hne⟩
    · obtain ⟨pl, gl, dl, st, rt, hs', -⟩ :=
        freed_connCloseCb { s with conns := s.conns.erase c } r'
      rw [hs']
      exact h.closecb
  | unmount hm => exact absurd rfl hun
  | _ => exact h.of_eq rfl rfl

end Unread

/-- Nobody but the clients reads their calls, the node stays mounted, and every answer arrives. -/
def LeftAlone (w : Web) : WebEvent → Prop
  | .node (.call (.readout _ path)) => ∀ cl ∈ w.clients, ∀ r res,
    OwnCall w.node.calls cl r res → res.path ≠ path
  | .node (.call .unmount) => False
  | .lost _ => False
  | _ => True

/-- The client's call is there to be read. -/
def KeepsCall (s : Nodefs) (cl : Client) : Prop :=
  cl.isAsync = true ∧ ∀ r res, OwnCall s cl r res → Unread s r

/-- The node has issued no call for the client. -/
def NotIssued (s : Nodefs) (cl : Client) : Prop :=
  ∀ r res, s.records r = some res → res.request ≠ cl.request

/-- What the client waits for has not been lost, and when it is finished its handler was called. -/
def PhaseServed (s : Nodefs) (handled : List Handled) (k : ℕ) (cl : Client) : Phase → Prop
  | .calling => cl.isAsync = true → KeepsCall s cl
  | .waiting _ => KeepsCall s cl
  | .polling _ q => ∃ a, (∀ a', (q, a') ∈ s.sent ↔ a' = a)
    ∧ ((∀ r j, a ≠ .result r j) → KeepsCall s cl)
  | .finished => cl.handler = true → ∃ h ∈ handled, h.client = k
    ∧ ∀ err, h.outcome = .error err → NotIssued s cl

structure ClientServed (w : Web) (k : ℕ) (cl : Client) : Prop where
  refused : ∀ n m, (cl.request, .error n m) ∈ w.node.calls.sent → NotIssued w.node.calls cl
  missed : cl.request ∈ w.notFound → NotIssued w.node.calls cl
  phase : PhaseServed w.node.calls w.handled k cl cl.phase

section Served

variable {s s' : Nodefs} {handled : List Handled} {k : ℕ} {cl : Client}

theorem NotIssued.keepsCalls (h : NotIssued s cl) (hs : KeepsCalls s s')
    (hcl : ClientSound s cl) : NotIssued s' cl := by
  intro r res' hres' hq
  obtain ⟨res, hres, hq', -⟩ := hs.old hcl.asked hres' hq
  exact h r res hres hq'

/-- A step of the node that neither reads the client's call nor unmounts keeps what it waits for. -/
theorem PhaseServed.keepsCalls {phase : Phase} (h : PhaseServed s handled k cl phase)
    (hs : KeepsCalls s s') (hcl : ClientSound s cl) (hphase : PhaseSound s cl phase)
    (hkeep : ∀ r res, OwnCall s cl r res → res.isAsync = true → Unread s r → Unread s' r) :
    PhaseServed s' handled k cl phase := by
  have hcall : KeepsCall s cl → KeepsCall s' cl := fun ⟨ha, hr⟩ => by
    refine ⟨ha, fun r res' hown' => ?_⟩
    obtain ⟨res, hres, hq, -⟩ := hs.old hcl.asked hown'.record hown'.request
    have hown := hcl.own r res hres hq
    exact hkeep r res hown (hown.isAsync.trans ha) (hr r res hown)
  rcases phase with _ | loc | ⟨loc, q⟩ | _
  · exact fun ha => hcall (h ha)
  · exact hcall h
  · obtain ⟨a, ha, hk⟩ := h
    obtain ⟨r, res, hpolls⟩ := hphase
    refine ⟨a, fun a' => ⟨fun ha' => ?_, fun he => ?_⟩, fun hne => hcall (hk hne)⟩
    · rcases hs.sent _ ha' with ha' | ⟨hid, -⟩ | ⟨r', x, j, hx, hrec, -⟩
      · exact (ha a').1 ha'
      · exact absurd hid hpolls.asked.ne
      · obtain ⟨y, hy, hyq, -⟩ := hs.old hpolls.asked hrec (Prod.mk.inj hx).1.symm
        exact absurd hyq (hpolls.unissued r' y hy)
    · exact hs.answers ((ha a').2 he)
  · intro hh
    obtain ⟨x, hx, hk, herr⟩ := h hh
    exact ⟨x, hx, hk, fun err he => (herr err he).keepsCalls hs hcl⟩

theorem ClientServed.refused_keepsCalls {w : Web} (h : ClientServed w k cl)
    (hcl : ClientSound w.node.calls cl) (hs : KeepsCalls w.node.calls s') (n : ℕ) (m : Bytes)
    (hsent : (cl.request, .error n m) ∈ s'.sent) : NotIssued s' cl := by
  rcases hs.sent _ hsent with hsent | ⟨hid, -⟩ | ⟨r, x, j, hx, -⟩
  · exact (h.refused n m hsent).keepsCalls hs hcl
  · exact absurd hid hcl.asked.ne
  · cases (Prod.mk.inj hx).2

theorem ClientServed.keepsCalls {w w' : Web} (h : ClientServed w k cl)
    (hcl : ClientSound w.node.calls cl) (hs : KeepsCalls w.node.calls w'.node.calls)
    (hkeep : ∀ r res, OwnCall w.node.calls cl r res → res.isAsync = true →
      Unread w.node.calls r → Unread w'.node.calls r)
    (hmissed : cl.request ∈ w'.notFound → cl.request ∈ w.notFound)
    (hhandled : w.handled ⊆ w'.handled) : ClientServed w' k cl where
  refused := h.refused_keepsCalls hcl hs
  missed hq := (h.missed (hmissed hq)).keepsCalls hs hcl
  phase := by
    have hphase := h.phase.keepsCalls hs hcl hcl.phase hkeep
    generalize cl.phase = phase at hphase ⊢
    rcases phase with _ | loc | ⟨loc, q⟩ | _
    · exact hphase
    · exact hphase
    · exact hphase
    · intro hh
      obtain ⟨x, hx, hrest⟩ := hphase hh
      exact ⟨x, hhandled hx, hrest⟩

theorem KeepsCall.setPhase (h : KeepsCall s cl) (phase : Phase) :
    KeepsCall s { cl with phase := phase } :=
  ⟨h.1, fun r res hown => h.2 r res ⟨hown.record, hown.request, hown.isAsync, hown.method⟩⟩

theorem PhaseServed.setPhase {p : Phase} (h : PhaseServed s handled k cl p) (phase : Phase) :
    PhaseServed s handled k { cl with phase := phase } p := by
  rcases p with _ | loc | ⟨loc, q⟩ | _
  · exact fun ha => (h ha).setPhase phase
  · exact KeepsCall.setPhase h phase
  · obtain ⟨a, ha, hk⟩ := h
    exact ⟨a, ha, fun hne => (hk hne).setPhase phase⟩
  · exact h

/-- What comes of an answer loses nothing. -/
def AnswerServed (s : Nodefs) (cl : Client) (a : Answered) : Prop :=
  (∃ loc, a = (.waiting loc, none) ∧ KeepsCall s cl)
    ∨ ∃ outcome arg, a = (.finished, some (outcome, arg))
      ∧ ∀ err, outcome = .error err → NotIssued s cl

theorem AnswerServed.success (data : Json) (arg : Option Json) :
    AnswerServed s cl (.finished, some (.success data, arg)) :=
  .inr ⟨_, _, rfl, fun _ h => by cases h⟩

theorem AnswerServed.error (h : NotIssued s cl) (err : Bytes) (arg : Option Json) :
    AnswerServed s cl (.finished, some (.error err, arg)) := .inr ⟨_, _, rfl, fun _ _ => h⟩

/-- What a call's result says of itself. -/
theorem callResultToJson_status {C : UrpcCodes} {W : AuraWire} {result : ℤ} {o : AuraObject}
    {buf : Option AuraBuffer} {j : Json} (h : callResultToJson C W result o buf = some j) :
    j.get (lit "status") = .string (lit "completed") := by
  unfold callResultToJson at h
  rcases buf with _ | buf
  · cases h
    rfl
  · obtain ⟨x, -, rfl⟩ := Option.map_eq_some_iff.1 h
    rfl

/-- Every result says that the call is completed. -/
def ResultsCompleted (s : Nodefs) : Prop :=
  ∀ r res j, s.records r = some res → res.retbuf = some j →
    j.get (lit "status") = .string (lit "completed")

theorem ResultsCameIn.completed {es : List WebEvent} (h : ResultsCameIn L es s) :
    ResultsCompleted s := by
  intro r res j hres hj
  obtain ⟨result, buf, -, hj'⟩ := h r res j hres hj
  exact callResultToJson_status hj'

theorem auraCallAnswered_served {w : Web} (h : ClientServed w k cl)
    (hcl : ClientSound w.node.calls cl) (hR : ResultsCompleted w.node.calls)
    (ha : cl.isAsync = false) {reply : Reply} (hr : w.answer cl.request = some reply) :
    AnswerServed w.node.calls cl (auraCallAnswered cl.arg reply) := by
  rcases answer_cases hr with ⟨a, hsent, rfl⟩ | ⟨hmiss, rfl⟩
  · rcases hcl.answered a hsent with ⟨n, m, rfl⟩ | ⟨r, res, hown, ⟨hasync, -⟩ | ⟨-, j, rfl, hj⟩⟩
    · exact .error (h.refused n m hsent) m _
    · rw [ha] at hasync
      cases hasync
    · have hstatus := hR r res j hown.record hj
      cases j with
      | null => cases hstatus
      | _ => exact .success _ _
  · exact .error (h.missed hmiss) _ _

theorem auraCallAsyncAnswered_served {w : Web} (h : ClientServed w k cl)
    (hcl : ClientSound w.node.calls cl) (hp : cl.phase = .calling) (ha : cl.isAsync = true)
    {reply : Reply} (hr : w.answer cl.request = some reply) :
    AnswerServed w.node.calls cl (auraCallAsyncAnswered cl.arg reply) := by
  have hkeep := h.phase
  rw [hp] at hkeep
  rcases answer_cases hr with ⟨a, hsent, rfl⟩ | ⟨hmiss, rfl⟩
  · rcases hcl.answered a hsent with ⟨n, m, rfl⟩ | ⟨r, res, hown, ⟨-, rfl⟩ | ⟨hsync, -⟩⟩
    · exact .error (h.refused n m hsent) m _
    · exact .inl ⟨res.path, rfl, hkeep ha⟩
    · rw [ha] at hsync
      cases hsync
  · exact .error (h.missed hmiss) _ _

/-- What comes of the one answer to a poll. -/
theorem pollAnswered_served {w : Web} {loc : Bytes} {q : Request} {r : RecId} {res : PendingCall}
    (h : PhaseServed w.node.calls w.handled k cl (.polling loc q))
    (hpolls : Polls w.node.calls cl loc q r res) (hR : ResultsCompleted w.node.calls)
    {reply : Reply} (hr : w.answer q = some reply) :
    AnswerServed w.node.calls cl (pollAnswered loc reply) := by
  obtain ⟨a, ha, hkeep⟩ := h
  have hfind : ∃ b, w.node.calls.sent.find? (·.1 = q) = some b := by
    refine Option.isSome_iff_exists.1 (List.find?_isSome.2 ⟨_, (ha a).2 rfl, by simp⟩)
  obtain ⟨b, hb⟩ := hfind
  have hbq : b.1 = q := by simpa using List.find?_some hb
  have hba : b.2 = a := by
    have hmem := List.mem_of_find?_eq_some hb
    exact (ha b.2).1 (by rw [← hbq]; exact hmem)
  have hreply : reply = a.reply := by
    simp only [Web.answer, hb, hba, Option.some.injEq] at hr
    exact hr.symm
  rw [hreply]
  rcases hpolls.answered a ((ha a).2 rfl) with rfl | ⟨j, rfl, hj⟩
  · exact .inl ⟨loc, rfl, hkeep fun _ _ h => by cases h⟩
  · have hstatus := hR r res j hpolls.record hj
    cases j with
    | null => cases hstatus
    | _ =>
      have hne : lit "completed" ≠ lit "pending" := by decide
      simp only [Answer.reply, pollAnswered, hstatus, if_neg hne]
      exact .success _ _

end Served

section ServedSteps

variable {w w' : Web} {s s' : NodeFs}

/-- What a step of the node means for a call that nobody reads. -/
theorem Unread.node {e : NodeEvent} {r : RecId} {res : PendingCall} (h : Unread s.calls r)
    (ht : NodeTrans L mpoint s e s') (hres : s.calls.records r = some res)
    (ha : res.isAsync = true)
    (hread : ∀ c path, e = .call (.readout c path) → s.calls.routes.find path ≠ some r)
    (hun : e ≠ .call .unmount) : Unread s'.calls r := by
  cases ht with
  | etblChanged hm hs => exact h
  | exports hm hc => exact h.of_eq rfl rfl
  | arrive hlt => exact h
  | events hm hc hs => exact h.of_eq rfl rfl
  | @issueCall c request path name isAsync started calls hm hc hs =>
    rcases issueCall_cases hs with ⟨n, m, k, -, -, rfl⟩ | ⟨o, rfl⟩
    · exact h.of_eq rfl rfl
    · cases isAsync <;> exact h.of_eq rfl rfl
  | @call e calls hs hne =>
    exact h.call (callTrans_of_step hs) hres ha (fun c path he => hread c path (by rw [he]))
      (fun he => hun (by rw [he]))

/-- The route of a client's call leads to that call. -/
theorem OwnCall.of_route {cl : Client} {r : RecId} {res : PendingCall} {path : Bytes}
    (hR : Records s.calls) (hown : OwnCall s.calls cl r res)
    (hr : s.calls.routes.find path = some r) : res.path = path := by
  obtain ⟨x, hx, hp⟩ := hR.routes _ _ hr
  obtain rfl := Option.some.inj (hown.record.symm.trans hx)
  exact hp

/-- Every client is served. -/
def WebServed (w : Web) : Prop :=
  ∀ (k : ℕ) cl, w.clients[k]? = some cl → ClientServed w k cl

/-- The answer to the poll of a client whose call is there. -/
theorem phaseServed_polled {k : ℕ} {c : Conn} {cl : Client} {loc : Bytes}
    {handled : List Handled} (hA : AskedBefore s.calls) (hk : KeepsCall s.calls cl)
    (hs : KeepsCalls s.calls s'.calls) (hcl : ClientSound s.calls cl)
    (h : nodeStep L mpoint s (.call (.readout c (decodedPath loc))) = some s') :
    PhaseServed s'.calls handled k cl (.polling loc (s.calls.request c)) := by
  have hfresh : ∀ a, (s.calls.request c, a) ∉ s.calls.sent := fun a ha =>
    Nat.lt_irrefl _ (hA.sent _ ha)
  have hone : ∀ a, s'.calls.sent = s.calls.sent ++ [(s.calls.request c, a)] →
      ∀ a', (s.calls.request c, a') ∈ s'.calls.sent ↔ a' = a := fun a hsent a' => by
    rw [hsent, List.mem_append, List.mem_singleton]
    exact ⟨fun h => h.elim (fun h => absurd h (hfresh a')) fun h => (Prod.mk.inj h).2,
      fun h => .inr (by rw [h])⟩
  rcases nodeTrans_of_step h with _ | _ | _ | _ | _ | ⟨hc, -⟩
  rcases callTrans_of_step hc with _ | _ | _ | _ | _ | _ | ⟨hm, hconn, hr, hx, hj⟩ |
      ⟨hm, hconn, hr, hx, hj⟩
  · rename_i r res j
    refine ⟨.result r j, hone _ ?_, fun hne => absurd rfl (hne r j)⟩
    simp [Nodefs.setClosecb, Nodefs.setRecord, Nodefs.moveToGc, Nodefs.send, Nodefs.nextRequest]
  · rename_i r res
    refine ⟨.status r res.resourceStatus, hone _ ?_, fun _ => ⟨hk.1, fun r' x' hown' => ?_⟩⟩
    · simp [Nodefs.send, Nodefs.nextRequest]
    · obtain ⟨y, hy, hq, -⟩ := hs.old hcl.asked hown'.record hown'.request
      exact (hk.2 r' y (hcl.own r' y hy hq)).of_eq (by simp [Nodefs.send, Nodefs.nextRequest])
        (by simp [Nodefs.send, Nodefs.nextRequest])

/-- The client whose request the node handles now. -/
theorem clientServed_called {n k : ℕ} {c : Conn} {isAsync handler started : Bool}
    {method args : Bytes} {arg : Json} {clients : List Client} {notFound : List Request}
    {handled : List Handled} (hR : Records s.calls) (hP : Paths mpoint.mountpoint n s.calls)
    (hA : AskedBefore s.calls) (hmiss : s.calls.request c ∉ notFound)
    (h : nodeStep L mpoint s (.issueCall c ⟨.put, none, args⟩
      (mpoint.mountpoint ++ (callBase isAsync ++ method)) isAsync started) = some s') :
    ClientServed ⟨s', notFound, clients, handled⟩ k
      { isAsync, method, arg, handler, request := s.calls.request c } := by
  obtain ⟨name, calls, -, hcalls, rfl⟩ := issueCall_of_step h
  have hold : ∀ r res, s.calls.records r = some res → res.request ≠ s.calls.request c :=
    fun r res hres hq => by
      have hlt := hA.records r res hres
      rw [hq] at hlt
      exact Nat.lt_irrefl _ hlt
  have hsent : ∀ a, (s.calls.request c, a) ∉ s.calls.sent := fun a ha =>
    Nat.lt_irrefl _ (hA.sent _ ha)
  refine ⟨fun n m herr => ?_, fun hq => absurd hq hmiss, fun ha => ⟨ha, fun r res hown => ?_⟩⟩
  · rcases issueCall_cases hcalls with ⟨m, msg, k, -, hk, rfl⟩ | ⟨o, rfl⟩
    · exact hold
    · cases isAsync
      · exact absurd herr (hsent _)
      · rcases List.mem_append.1 herr with herr | herr
        · exact absurd herr (hsent _)
        · cases (Prod.mk.inj (List.mem_singleton.1 herr)).2
  · have hnew : r ≠ s.calls.next → False := fun hne => by
      rcases issueCall_cases hcalls with ⟨m, msg, k, -, hk, rfl⟩ | ⟨o, rfl⟩
      · exact hold r res hown.record hown.request
      · have hrec : Function.update s.calls.records s.calls.next
            (some (newCall mpoint.mountpoint s.calls c o isAsync)) r = some res := by
          cases isAsync <;> exact hown.record
        rw [Function.update_of_ne hne] at hrec
        exact hold r res hrec hown.request
    obtain rfl : r = s.calls.next := by_contra hnew
    have hkept : Unread s.calls s.calls.next := by
      refine ⟨fun hd => ?_, fun c' hc' => ?_⟩
      · obtain ⟨x, hx⟩ := hP.deleted _ hd
        exact Nat.lt_irrefl _ (hR.lt_next _ x hx)
      · obtain ⟨x, j, hx, -⟩ := hR.closecb c' _ hc'
        exact Nat.lt_irrefl _ (hR.lt_next _ x hx)
    rcases issueCall_cases hcalls with ⟨m, msg, k, -, hk, rfl⟩ | ⟨o, rfl⟩
    · exact hkept.of_eq rfl rfl
    · cases isAsync <;> exact hkept.of_eq rfl rfl

/-- One client goes on while the others wait. -/
theorem WebServed.set {n k : ℕ} {cl' : Client} (h : WebServed w) (hw : WebSound mpoint n w)
    (hcl : w'.clients = w.clients.set k cl') (hs : KeepsCalls w.node.calls w'.node.calls)
    (hkeep : ∀ (i : ℕ) x, i ≠ k → w.clients[i]? = some x → ∀ r res, OwnCall w.node.calls x r res →
      res.isAsync = true → Unread w.node.calls r → Unread w'.node.calls r)
    (hmissed : w'.notFound = w.notFound) (hhandled : w.handled ⊆ w'.handled)
    (hnew : ClientServed w' k cl') : WebServed w' := by
  intro i x hi
  rw [hcl, List.getElem?_set] at hi
  split_ifs at hi with hik hlt
  · cases hi
    exact hik ▸ hnew
  · exact (h i x hi).keepsCalls (hw.clients i x hi) hs (hkeep i x (Ne.symm hik) hi)
      (fun hq => hmissed ▸ hq) hhandled

theorem WebServed.take {n k : ℕ} {cl : Client} {a : Answered} (h : WebServed w)
    (hw : WebSound mpoint n w) (hk : w.clients[k]? = some cl)
    (ha : AnswerServed w.node.calls cl a) : WebServed (w.take k cl a) := by
  have hcl := h k cl hk
  rcases ha with ⟨loc, rfl, hkeep⟩ | ⟨outcome, arg, rfl, herr⟩
  · refine h.set hw rfl (.refl _) (fun _ _ _ _ _ _ _ _ h => h) rfl (List.Subset.refl _) ?_
    exact ⟨hcl.refused, hcl.missed, hkeep.setPhase _⟩
  · by_cases hh : cl.handler = true
    · have htake : w.take k cl (.finished, some (outcome, arg))
          = { w.setPhase k cl .finished with
              handled := w.handled ++ [⟨k, outcome, arg⟩] } := by
        simp [Web.take, Web.setPhase, hh]
      rw [htake]
      refine h.set hw rfl (.refl _) (fun _ _ _ _ _ _ _ _ h => h) rfl
        (List.subset_append_left ..) ⟨hcl.refused, hcl.missed, fun _ => ?_⟩
      exact ⟨_, List.mem_append_right _ (List.mem_singleton.2 rfl), rfl, herr⟩
    · have htake : w.take k cl (.finished, some (outcome, arg)) = w.setPhase k cl .finished := by
        simp [Web.take, hh]
      rw [htake]
      exact h.set hw rfl (.refl _) (fun _ _ _ _ _ _ _ _ h => h) rfl (List.Subset.refl _)
        ⟨hcl.refused, hcl.missed, fun h => absurd h hh⟩

/-- The poll of a client whose call is there comes to it. -/
theorem OwnCall.route {n : ℕ} {cl : Client} {r : RecId} {res : PendingCall}
    (hown : OwnCall s.calls cl r res) (hP : Paths mpoint.mountpoint n s.calls)
    (hk : Unread s.calls r) (hesc : ¬ HasEscape mpoint.mountpoint) (h0 : 0 ∉ mpoint.mountpoint) :
    s.calls.routes.find (decodedPath res.path) = some r := by
  have hpath := (hP.record r res hown.record).2.2
  have hdec : decodedPath res.path = res.path := by
    rw [hpath, decodedPath_pendingPath hesc h0]
  rw [hdec]
  exact hP.routes r res hown.record hk.deleted

theorem WebServed.step {n : ℕ} {e : WebEvent} (h : WebServed w) (hw : WebSound mpoint n w)
    (hC : ResultsCompleted w.node.calls) (hesc : ¬ HasEscape mpoint.mountpoint)
    (h0 : 0 ∉ mpoint.mountpoint) (hl : LeftAlone w e) (ht : WebTrans L mpoint w e w') :
    WebServed w' := by
  cases ht with
  | @node e node hs =>
    have htr := nodeTrans_of_step hs
    intro k cl hk
    refine (h k cl hk).keepsCalls (hw.clients k cl hk) (nodeTrans_keepsCalls hw.records htr)
      (fun r res hown ha hkept => hkept.node htr hown.record ha ?_ ?_) id (List.Subset.refl _)
    · rintro c path rfl hr
      exact hl cl (List.mem_of_getElem? hk) r res hown (hown.of_route hw.records hr)
    · rintro rfl
      exact hl
  | @callMissed c isAsync handler started method args arg hc =>
    have hnew := hw.request_notMem c
    intro k cl hk
    rw [List.getElem?_append] at hk
    split_ifs at hk with hlt
    · refine (h k cl hk).keepsCalls (hw.clients k cl hk) (keepsCalls_nextRequest _)
        (fun r res _ _ hkept => hkept.of_eq rfl rfl) (fun hq => ?_) (List.Subset.refl _)
      refine (List.mem_append.1 hq).resolve_right fun hq => hnew ?_
      rw [← List.mem_singleton.1 hq]
      exact List.mem_map_of_mem (List.mem_of_getElem? hk)
    · obtain rfl := List.mem_singleton.1 (List.mem_of_getElem? hk)
      have hnot : NotIssued w.node.calls.nextRequest
          { isAsync, method, arg, handler, request := w.node.calls.request c } :=
        fun r res hres hq => by
          have hlt := hw.askedBefore.records r res hres
          rw [hq] at hlt
          exact Nat.lt_irrefl _ hlt
      exact ⟨fun _ _ _ => hnot, fun _ => hnot, fun ha => ⟨ha, fun r res hown =>
        absurd hown.request (hnot r res hown.record)⟩⟩
  | @called c isAsync handler started method args arg node hs =>
    have htr := nodeTrans_of_step hs
    intro k cl hk
    rw [List.getElem?_append] at hk
    split_ifs at hk with hlt
    · exact (h k cl hk).keepsCalls (hw.clients k cl hk) (nodeTrans_keepsCalls hw.records htr)
        (fun r res hown ha hkept => hkept.node htr hown.record ha (by simp) (by simp)) id
        (List.Subset.refl _)
    · obtain rfl := List.mem_singleton.1 (List.mem_of_getElem? hk)
      exact clientServed_called hw.records hw.paths hw.askedBefore
        (fun hq => Nat.lt_irrefl _ (hw.missed _ hq)) hs
  | @pollMissed k c cl loc hk hp hr hc =>
    obtain ⟨r, res, hown, rfl⟩ : PhaseSound w.node.calls cl (.waiting loc) :=
      hp ▸ (hw.clients k cl hk).phase
    have hkeep := (h k cl hk).phase
    rw [hp] at hkeep
    rw [hown.route hw.paths (hkeep.2 r res hown) hesc h0] at hr
    cases hr
  | @polled k c cl loc node hk hp hs =>
    have htr := nodeTrans_of_step hs
    have hkc := nodeTrans_keepsCalls hw.records htr
    have hcl := h k cl hk
    have hsound := hw.clients k cl hk
    have hkeep := hcl.phase
    rw [hp] at hkeep
    obtain ⟨r, res, hown, rfl⟩ : PhaseSound w.node.calls cl (.waiting loc) := hp ▸ hsound.phase
    have hroute := hown.route hw.paths (hkeep.2 r res hown) hesc h0
    refine h.set hw rfl hkc (fun i x hik hi r' x' hown' ha hkept => ?_) rfl
      (List.Subset.refl _) ?_
    · refine hkept.node htr hown'.record ha ?_ (by simp)
      rintro c path he hr
      cases he
      obtain rfl := Option.some.inj (hroute.symm.trans hr)
      obtain rfl := Option.some.inj (hown.record.symm.trans hown'.record)
      exact hik (hw.request_inj hi hk (hown'.request.symm.trans hown.request))
    · exact ⟨hcl.refused_keepsCalls hsound hkc, fun hq => (hcl.missed hq).keepsCalls hkc hsound,
        (phaseServed_polled hw.askedBefore hkeep hkc hsound hs).setPhase _⟩
  | @callAnswered k cl reply hk hp hr =>
    refine h.take hw hk ?_
    split_ifs with ha
    · exact auraCallAsyncAnswered_served (h k cl hk) (hw.clients k cl hk) hp ha hr
    · exact auraCallAnswered_served (h k cl hk) (hw.clients k cl hk) hC (by simpa using ha) hr
  | @pollAnswered k cl loc q reply hk hp hr =>
    obtain ⟨r, res, hpolls⟩ : PhaseSound w.node.calls cl (.polling loc q) :=
      hp ▸ (hw.clients k cl hk).phase
    have hphase := (h k cl hk).phase
    rw [hp] at hphase
    exact h.take hw hk (pollAnswered_served hphase hpolls hC hr)
  | callLost hk hp => exact absurd hl (by simp [LeftAlone])
  | pollLost hk hp => exact absurd hl (by simp [LeftAlone])

end ServedSteps

/-- What holds in every run in which the clients are left alone. -/
theorem webServed_of_run {routes : Routes} {es : List WebEvent} {w : Web}
    (hesc : ¬ HasEscape mpoint.mountpoint) (h0 : 0 ∉ mpoint.mountpoint)
    (hrun : run (webStep L mpoint) (.start mpoint routes) es = some w) (hn : issued es < 2 ^ 31)
    (hl : Along (webStep L mpoint) LeftAlone (.start mpoint routes) es) : WebServed w := by
  refine run_history (I := fun es w => issued es < 2 ^ 31 → WebServed w)
    (fun _ k cl hk => by simp [Web.start] at hk) (fun es w e w' hw hI hl hw' hn => ?_) es hl hrun hn
  have hn' : issued es < 2 ^ 31 := by
    rw [issued_concat] at hn
    split_ifs at hn <;> omega
  exact (hI hn').step (webSound_of_run hw hn') (resultsCameIn_of_run hw).completed hesc h0 hl
    (webTrans_of_step hw')

/-- In every run in which a node stays mounted, no answer is lost and nobody else reads the clients'
calls, a client that is finished has had its handler called: with the data that its own call brought
wherever the node issued one, with an error only where it did not. -/
theorem clients_are_served (L : NodeLibs) (mpoint : Mpoint) (routes : Routes)
    (es : List WebEvent) (w : Web) (hesc : ¬ HasEscape mpoint.mountpoint)
    (h0 : 0 ∉ mpoint.mountpoint)
    (hrun : run (webStep L mpoint) (.start mpoint routes) es = some w) (hn : issued es < 2 ^ 31)
    (hl : Along (webStep L mpoint) LeftAlone (.start mpoint routes) es) (k : ℕ) (cl : Client)
    (hk : w.clients[k]? = some cl) (hp : cl.phase = .finished) (hh : cl.handler = true) :
    (∃ r res j arg, OwnCall w.node.calls cl r res ∧ CompletedIn L es r res.o j
        ∧ ⟨k, .success (j.get (lit "data")), arg⟩ ∈ w.handled)
      ∨ NotIssued w.node.calls cl ∧ ∃ err arg, ⟨k, .error err, arg⟩ ∈ w.handled := by
  have hserved := (webServed_of_run hesc h0 hrun hn hl k cl hk).phase
  rw [hp] at hserved
  obtain ⟨⟨i, outcome, arg⟩, hx, rfl, herr⟩ := hserved hh
  rcases outcome with data | err
  · obtain ⟨cl', hk', -, hdata⟩ := (webSound_of_run hrun hn).handled _ hx
    obtain rfl := Option.some.inj (hk.symm.trans hk')
    obtain ⟨r, res, j, hown, hj, rfl⟩ := hdata data rfl
    exact .inl ⟨r, res, j, arg, hown, resultsCameIn_of_run hrun r res j hown.record hj, hx⟩
  · exact .inr ⟨herr err rfl, err, arg, hx⟩

theorem crossedRun_leftAlone :
    Along (webStep .plain onlineMpoint) LeftAlone (.start onlineMpoint .empty) crossedRun :=
  along_of_always fun e he w => by
    simp only [crossedRun, List.mem_cons, List.not_mem_nil, or_false] at he
    rcases he with rfl | rfl | rfl | rfl | rfl | rfl | rfl | rfl | rfl | rfl | rfl | rfl | rfl |
      rfl | rfl <;> trivial

theorem onlineMpoint_plain :
    ¬ HasEscape onlineMpoint.mountpoint ∧ 0 ∉ onlineMpoint.mountpoint := by decide

/-- The phase of a client at the end of some of the events, and whether it has a handler. -/
def phaseAfter (es : List WebEvent) (k : ℕ) : Option (Phase × Bool) :=
  (run (webStep .plain onlineMpoint) (.start onlineMpoint .empty) es).bind fun w =>
    w.clients[k]?.map fun cl => (cl.phase, cl.handler)

theorem of_phaseAfter {es : List WebEvent} {k : ℕ} {phase : Phase} {handler : Bool}
    (h : phaseAfter es k = some (phase, handler)) :
    ∃ w cl, run (webStep .plain onlineMpoint) (.start onlineMpoint .empty) es = some w
      ∧ w.clients[k]? = some cl ∧ cl.phase = phase ∧ cl.handler = handler := by
  obtain ⟨w, hw, h⟩ := Option.bind_eq_some_iff.1 h
  obtain ⟨cl, hcl, h⟩ := Option.map_eq_some_iff.1 h
  exact ⟨w, cl, hw, hcl, (Prod.mk.inj h).1, (Prod.mk.inj h).2⟩

theorem clients_are_served_crossed :
    ∃ w, run (webStep .plain onlineMpoint) (.start onlineMpoint .empty) crossedRun = some w
      ∧ ∃ h ∈ w.handled, h.client = 0 := by
  obtain ⟨w, cl, hw, hcl, hp, hh⟩ :=
    of_phaseAfter (show phaseAfter crossedRun 0 = some (.finished, true) by decide +kernel)
  refine ⟨w, hw, ?_⟩
  rcases clients_are_served .plain onlineMpoint .empty crossedRun w onlineMpoint_plain.1
    onlineMpoint_plain.2 hw (by decide) crossedRun_leftAlone 0 cl hcl hp hh with
    ⟨r, res, j, arg, -, -, h⟩ | ⟨-, err, arg, h⟩
  · exact ⟨_, h, rfl⟩
  · exact ⟨_, h, rfl⟩

section Returns

variable {s s' : NodeFs} {w w' : Web}

theorem nodeTrans_mounted {e : NodeEvent} (ht : NodeTrans L mpoint s e s')
    (hun : e ≠ .call .unmount) : s'.calls.mounted = s.calls.mounted := by
  cases ht with
  | @issueCall c request path name isAsync started calls hm hc hs =>
    rcases issueCall_cases hs with ⟨n, m, k, -, -, rfl⟩ | ⟨o, rfl⟩
    · rfl
    · cases isAsync <;> rfl
  | call hs hne => exact callTrans_mounted (callTrans_of_step hs) fun he => hun (by rw [he])
  | _ => rfl

theorem webTrans_mounted {e : WebEvent} (ht : WebTrans L mpoint w e w') (hl : LeftAlone w e) :
    w'.node.calls.mounted = w.node.calls.mounted := by
  cases ht with
  | node hs =>
    refine nodeTrans_mounted (nodeTrans_of_step hs) ?_
    rintro rfl
    exact hl
  | called hs => exact nodeTrans_mounted (nodeTrans_of_step hs) (by simp)
  | polled hk hp hs => exact nodeTrans_mounted (nodeTrans_of_step hs) (by simp)
  | callMissed hc => rfl
  | pollMissed hk hp hr hc => rfl
  | callAnswered hk hp hr => rw [take_node]
  | pollAnswered hk hp hr => rw [take_node]
  | callLost hk hp => rw [take_node]
  | pollLost hk hp => rw [take_node]

theorem mounted_of_run {routes : Routes} {es : List WebEvent} {w : Web}
    (hrun : run (webStep L mpoint) (.start mpoint routes) es = some w)
    (hl : Along (webStep L mpoint) LeftAlone (.start mpoint routes) es) :
    w.node.calls.mounted = true :=
  run_inv (I := fun w => w.node.calls.mounted = true)
    (fun _ _ _ hI hl hs => (webTrans_mounted (webTrans_of_step hs) hl).trans hI) es rfl hl hrun

/-- What a record that has not been read yet is answered with. -/
def readoutAnswer (r : RecId) (res : PendingCall) : Answer :=
  match res.retbuf with
  | some j => .result r j
  | none => .status r res.resourceStatus

theorem readout_answers {c : Conn} {path : Bytes} {r : RecId} {res : PendingCall}
    (hm : s.calls.mounted = true) (hc : c ∈ s.calls.conns)
    (hr : s.calls.routes.find path = some r) (hres : s.calls.records r = some res) :
    ∃ node, nodeStep L mpoint s (.call (.readout c path)) = some node
      ∧ node.calls.sent = s.calls.sent ++ [(s.calls.request c, readoutAnswer r res)] := by
  have hread : ∃ calls, resourceReadout s.calls.nextRequest (s.calls.request c) r = some calls
      ∧ calls.sent = s.calls.sent ++ [(s.calls.request c, readoutAnswer r res)] := by
    have hres' : s.calls.nextRequest.records r = some res := hres
    unfold resourceReadout
    rw [hres']
    rcases hj : res.retbuf with _ | j
    · exact ⟨_, by simp only [Option.bind_eq_bind, Option.bind_some, hj]; rfl,
        by simp [Nodefs.send, Nodefs.nextRequest, readoutAnswer, hj]⟩
    · exact ⟨_, by simp only [Option.bind_eq_bind, Option.bind_some, hj]; rfl,
        by simp [Nodefs.send, Nodefs.setClosecb, Nodefs.setRecord, Nodefs.moveToGc,
          Nodefs.nextRequest, readoutAnswer, hj]⟩
  obtain ⟨calls, hcalls, hsent⟩ := hread
  exact ⟨{ s with calls := calls }, by simp [nodeStep, callStep, hm, hc, hr, hcalls], hsent⟩

/-- In every such run the poll of a client that waits comes to its call: with the call's data if
that is completed, and back to waiting if not. -/
theorem poll_brings_result (L : NodeLibs) (mpoint : Mpoint) (routes : Routes)
    (es : List WebEvent) (w : Web) (hesc : ¬ HasEscape mpoint.mountpoint)
    (h0 : 0 ∉ mpoint.mountpoint)
    (hrun : run (webStep L mpoint) (.start mpoint routes) es = some w) (hn : issued es < 2 ^ 31)
    (hl : Along (webStep L mpoint) LeftAlone (.start mpoint routes) es) (k : ℕ) (cl : Client)
    (hk : w.clients[k]? = some cl) (loc : Bytes) (hp : cl.phase = .waiting loc) (c : Conn)
    (hc : c ∈ w.node.calls.conns) :
    ∃ r res w₁ w₂, OwnCall w.node.calls cl r res
      ∧ webStep L mpoint w (.poll k c) = some w₁ ∧ webStep L mpoint w₁ (.receive k) = some w₂
      ∧ (∀ j, res.retbuf = some j → w₂.clients[k]? = some { cl with phase := .finished }
        ∧ w₂.handled = w.handled
          ++ if cl.handler then [⟨k, .success (j.get (lit "data")), none⟩] else [])
      ∧ (res.retbuf = none → w₂.clients[k]? = some cl ∧ w₂.handled = w.handled) := by
  have hw := webSound_of_run hrun hn
  have hserved := (webServed_of_run hesc h0 hrun hn hl k cl hk).phase
  rw [hp] at hserved
  obtain ⟨r, res, hown, rfl⟩ : PhaseSound w.node.calls cl (.waiting loc) :=
    hp ▸ (hw.clients k cl hk).phase
  have hroute := hown.route hw.paths (hserved.2 r res hown) hesc h0
  obtain ⟨node, hnode, hsent⟩ : ∃ node, nodeStep L mpoint w.node
      (.call (.readout c (decodedPath res.path))) = some node ∧ _ :=
    readout_answers (mounted_of_run hrun hl) hc hroute hown.record
  set q := w.node.calls.request c with hq
  set w₁ : Web := { w.setPhase k cl (.polling res.path q) with node := node } with hw₁
  have hpoll : webStep L mpoint w (.poll k c) = some w₁ := by
    simp [webStep, Web.poll, hk, hp, hroute, hnode, hw₁, hq]
  have hlt := (List.getElem?_eq_some_iff.1 hk).1
  have hk₁ : w₁.clients[k]? = some { cl with phase := .polling res.path q } := by
    simp [hw₁, Web.setPhase, hlt]
  have hfresh : w.node.calls.sent.find? (·.1 = q) = none := by
    refine List.find?_eq_none.2 fun p hp hpq => ?_
    have := hw.askedBefore.sent p hp
    rw [show p.1 = q by simpa using hpq] at this
    exact Nat.lt_irrefl _ this
  have hanswer : w₁.answer q = some (readoutAnswer r res).reply := by
    simp only [Web.answer, hw₁, hsent, List.find?_append, hfresh]
    simp
  have hreceive : webStep L mpoint w₁ (.receive k)
      = some (w₁.take k { cl with phase := .polling res.path q }
        (pollAnswered res.path (readoutAnswer r res).reply)) := by
    simp [webStep, Web.receive, hk₁, hanswer]
  refine ⟨r, res, w₁, _, hown, hpoll, hreceive, fun j hj => ?_, fun hj => ?_⟩
  · have hstatus := (resultsCameIn_of_run hrun).completed r res j hown.record hj
    have hpa : pollAnswered res.path (.json j)
        = (.finished, some (.success (j.get (lit "data")), none)) := by
      cases j with
      | null => cases hstatus
      | _ =>
        have hne : lit "completed" ≠ lit "pending" := by decide
        simp only [pollAnswered, hstatus, if_neg hne]
    rw [show (readoutAnswer r res).reply = .json j by simp [readoutAnswer, hj, Answer.reply], hpa]
    cases hh : cl.handler <;> simp [Web.take, Web.setPhase, hh, hw₁, hlt]
  · have hst := hw.records.status r res hown.record hj
    have hpa : pollAnswered res.path (readoutAnswer r res).reply = (.waiting res.path, none) := by
      simp only [readoutAnswer, hj, hst]
      rfl
    rw [hpa]
    have hcl : { cl with phase := .waiting res.path } = cl := by rw [← hp]
    simp [Web.take, Web.setPhase, hw₁, hlt, hcl]

/-- Client 0 polls when both calls are completed. -/
theorem poll_brings_result_crossed :
    ∃ w, run (webStep .plain onlineMpoint) (.start onlineMpoint .empty) (crossedRun.take 11)
        = some w
      ∧ ∃ w₁ w₂, webStep .plain onlineMpoint w (.poll 0 1) = some w₁
        ∧ webStep .plain onlineMpoint w₁ (.receive 0) = some w₂ := by
  obtain ⟨w, cl, hw, hcl, hp, -⟩ := of_phaseAfter (show phaseAfter (crossedRun.take 11) 0
    = some (.waiting (lit "/online/pending/0"), true) by decide +kernel)
  have hconns : ((run (webStep .plain onlineMpoint) (.start onlineMpoint .empty)
      (crossedRun.take 11)).map fun w => w.node.calls.conns) = some [0, 1] := by decide +kernel
  rw [hw, Option.map_some, Option.some.injEq] at hconns
  obtain ⟨r, res, w₁, w₂, -, h₁, h₂, -⟩ := poll_brings_result .plain onlineMpoint .empty
    (crossedRun.take 11) w onlineMpoint_plain.1 onlineMpoint_plain.2 hw (by decide)
    (crossedRun_leftAlone.of_prefix (List.take_prefix 11 crossedRun)) 0 cl hcl _ hp 1
    (by rw [hconns]; decide)
  exact ⟨w, hw, w₁, w₂, h₁, h₂⟩

end Returns

end AuraHttpd
