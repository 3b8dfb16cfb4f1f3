import AuraHttpd.Proofs.ClientSteps
import AuraHttpd.Proofs.NodeTable

/-!
# Clients get the results of their own calls

A client holds the path of its own call only, so what its polls bring is that call's result; and
what its handler is called with as a success is made by the completion of that call.  No handler is
called twice.
-/

namespace AuraHttpd

open CString StepSystem

variable {L : NodeLibs} {mpoint : Mpoint}

/-- The record is the one of the client's call. -/
structure OwnCall (s : Nodefs) (cl : Client) (r : RecId) (res : PendingCall) : Prop where
  record : s.records r = some res
  request : res.request = cl.request
  isAsync : res.isAsync = cl.isAsync
  method : res.o.name = cl.method

/-- What a client's call is answered with: an error, or out of the record of that call. -/
def AnswersCall (s : Nodefs) (cl : Client) (a : Answer) : Prop :=
  (∃ n m, a = .error n m) ∨ ∃ r res, OwnCall s cl r res
    ∧ (cl.isAsync = true ∧ a = .accepted res.path
      ∨ cl.isAsync = false ∧ ∃ j, a = .result r j ∧ res.retbuf = some j)

/-- The client polls the path of its own call, and `q` is no call's request. -/
structure Polls (s : Nodefs) (cl : Client) (loc : Bytes) (q : Request) (r : RecId)
    (res : PendingCall) : Prop extends OwnCall s cl r res where
  path : res.path = loc
  asked : q.id < s.requests
  unissued : ∀ r' res', s.records r' = some res' → res'.request ≠ q
  answered : ∀ a, (q, a) ∈ s.sent →
    a = .status r .pending ∨ ∃ j, a = .result r j ∧ res.retbuf = some j

/-- What a client waits for is its own. -/
def PhaseSound (s : Nodefs) (cl : Client) : Phase → Prop
  | .calling | .finished => True
  | .waiting loc => ∃ r res, OwnCall s cl r res ∧ res.path = loc
  | .polling loc q => ∃ r res, Polls s cl loc q r res

theorem OwnCall.setPhase {s : Nodefs} {cl : Client} {r : RecId} {res : PendingCall}
    (h : OwnCall s cl r res) (phase : Phase) : OwnCall s { cl with phase := phase } r res :=
  ⟨h.record, h.request, h.isAsync, h.method⟩

theorem PhaseSound.setPhase {s : Nodefs} {cl : Client} {p : Phase} (h : PhaseSound s cl p)
    (phase : Phase) : PhaseSound s { cl with phase := phase } p := by
  rcases p with _ | loc | ⟨loc, q⟩ | _
  · trivial
  · obtain ⟨r, res, hown, hpath⟩ := h
    exact ⟨r, res, hown.setPhase phase, hpath⟩
  · obtain ⟨r, res, hpolls⟩ := h
    exact ⟨r, res, { hpolls with toOwnCall := hpolls.toOwnCall.setPhase phase }⟩
  · trivial

structure ClientSound (s : Nodefs) (cl : Client) : Prop where
  asked : cl.request.id < s.requests
  own : ∀ r res, s.records r = some res → res.request = cl.request → OwnCall s cl r res
  answered : ∀ a, (cl.request, a) ∈ s.sent → AnswersCall s cl a
  phase : PhaseSound s cl cl.phase

/-- Requests that have been answered or have issued a call are old ones. -/
structure AskedBefore (s : Nodefs) : Prop where
  sent : ∀ p ∈ s.sent, p.1.id < s.requests
  records : ∀ r res, s.records r = some res → res.request.id < s.requests

section KeepsCalls

variable {s s' : Nodefs} {cl : Client} {r : RecId} {res : PendingCall}

theorem OwnCall.keepsCalls (h : OwnCall s cl r res) (hs : KeepsCalls s s') :
    ∃ res', OwnCall s' cl r res' ∧ SameCall res res'
      ∧ ∀ j, res.retbuf = some j → res'.retbuf = some j := by
  obtain ⟨res', hres', hsame, hret⟩ := hs.keeps r res h.record
  refine ⟨res', ⟨hres', ?_, ?_, ?_⟩, hsame, hret⟩
  · rw [hsame.2.2.2.2, h.request]
  · rw [hsame.2.2.2.1, h.isAsync]
  · rw [hsame.2.1, h.method]

theorem AskedBefore.keepsCalls (h : AskedBefore s) (hs : KeepsCalls s s') : AskedBefore s' := by
  have hrec : ∀ r res', s'.records r = some res' → res'.request.id < s'.requests := by
    intro r res' hres'
    rcases hs.created r res' hres' with ⟨res, hres⟩ | ⟨hid, hlt⟩
    · obtain ⟨x, hx, hsame, -⟩ := hs.keeps r res hres
      obtain rfl := Option.some.inj (hres'.symm.trans hx)
      rw [hsame.2.2.2.2]
      exact (h.records r res hres).trans_le hs.requests_le
    · rwa [hid]
  refine ⟨fun p hp => ?_, hrec⟩
  rcases hs.sent p hp with hp | ⟨hid, hlt⟩ | ⟨r, res', j, rfl, hres', -⟩
  · exact (h.sent p hp).trans_le hs.requests_le
  · rwa [hid]
  · exact hrec r res' hres'

/-- A record that is not a new one was issued by the same request before. -/
theorem KeepsCalls.old (hs : KeepsCalls s s') {q : Request} (hq : q.id < s.requests)
    {res' : PendingCall} (hres' : s'.records r = some res') (hreq : res'.request = q) :
    ∃ res, s.records r = some res ∧ res.request = q ∧ SameCall res res' := by
  rcases hs.created r res' hres' with ⟨res, hres⟩ | ⟨hid, -⟩
  · obtain ⟨x, hx, hsame, -⟩ := hs.keeps r res hres
    obtain rfl := Option.some.inj (hres'.symm.trans hx)
    exact ⟨res, hres, hsame.2.2.2.2.symm.trans hreq, hsame⟩
  · rw [hreq] at hid
    exact absurd hid hq.ne

theorem AnswersCall.keepsCalls {a : Answer} (h : AnswersCall s cl a) (hs : KeepsCalls s s') :
    AnswersCall s' cl a := by
  rcases h with herr | ⟨r, res, hown, h⟩
  · exact .inl herr
  obtain ⟨res', hown', hsame, hret⟩ := hown.keepsCalls hs
  refine .inr ⟨r, res', hown', ?_⟩
  rcases h with ⟨ha, rfl⟩ | ⟨ha, j, rfl, hj⟩
  · exact .inl ⟨ha, by rw [hsame.2.2.1]⟩
  · exact .inr ⟨ha, j, rfl, hret j hj⟩

theorem Polls.keepsCalls {loc : Bytes} {q : Request} (h : Polls s cl loc q r res)
    (hs : KeepsCalls s s') : ∃ res', Polls s' cl loc q r res' := by
  obtain ⟨res', hown', hsame, hret⟩ := h.toOwnCall.keepsCalls hs
  have hunissued : ∀ r' x, s'.records r' = some x → x.request ≠ q := by
    intro r' x hx hreq
    obtain ⟨y, hy, hyq, -⟩ := hs.old h.asked hx hreq
    exact h.unissued r' y hy hyq
  refine ⟨res', hown', by rw [hsame.2.2.1, h.path], h.asked.trans_le hs.requests_le, hunissued,
    fun a ha => ?_⟩
  rcases hs.sent _ ha with ha | ⟨hid, -⟩ | ⟨r', x, j, hx, hrec, -⟩
  · rcases h.answered a ha with rfl | ⟨j, rfl, hj⟩
    · exact .inl rfl
    · exact .inr ⟨j, rfl, hret j hj⟩
  · exact absurd hid h.asked.ne
  · exact absurd (Prod.mk.inj hx).1.symm (hunissued r' x hrec)

theorem ClientSound.keepsCalls (h : ClientSound s cl) (hs : KeepsCalls s s') :
    ClientSound s' cl := by
  have hown : ∀ r res', s'.records r = some res' → res'.request = cl.request →
      OwnCall s' cl r res' := by
    intro r res' hres' hreq
    obtain ⟨res, hres, hq, -⟩ := hs.old h.asked hres' hreq
    obtain ⟨x, hx, -⟩ := (h.own r res hres hq).keepsCalls hs
    obtain rfl := Option.some.inj (hres'.symm.trans hx.record)
    exact hx
  refine ⟨h.asked.trans_le hs.requests_le, hown, fun a ha => ?_, ?_⟩
  · rcases hs.sent _ ha with ha | ⟨hid, -⟩ | ⟨r, res', j, hp, hres', hsync, hj⟩
    · exact (h.answered a ha).keepsCalls hs
    · exact absurd hid h.asked.ne
    · obtain ⟨hreq, rfl⟩ := Prod.mk.inj hp
      have hr := hown r res' hres' hreq.symm
      exact .inr ⟨r, res', hr, .inr ⟨hr.isAsync ▸ hsync, j, rfl, hj⟩⟩
  · have hphase := h.phase
    generalize cl.phase = phase at hphase ⊢
    rcases phase with _ | loc | ⟨loc, q⟩ | _
    · trivial
    · obtain ⟨r, res, hr, hpath⟩ := hphase
      obtain ⟨res', hr', hsame, -⟩ := hr.keepsCalls hs
      exact ⟨r, res', hr', by rw [hsame.2.2.1, hpath]⟩
    · obtain ⟨r, res, hr⟩ := hphase
      exact ⟨r, hr.keepsCalls hs⟩
    · trivial

end KeepsCalls

section Answers

variable {s : Nodefs} {cl : Client} {w : Web} {k : ℕ}

/-- The data is that of a result of the client's own call. -/
def OwnData (s : Nodefs) (cl : Client) (data : Json) : Prop :=
  ∃ r res j, OwnCall s cl r res ∧ res.retbuf = some j ∧ data = j.get (lit "data")

/-- What comes of an answer is the client's own. -/
structure AnswerSound (s : Nodefs) (cl : Client) (a : Answered) : Prop where
  phase : PhaseSound s cl a.1
  finished : a.2 ≠ none → a.1 = .finished
  data : ∀ data arg, a.2 = some (.success data, arg) → OwnData s cl data

theorem AnswerSound.silent {phase : Phase} (h : PhaseSound s cl phase) :
    AnswerSound s cl (phase, none) := ⟨h, fun h => absurd rfl h, fun _ _ h => by cases h⟩

theorem AnswerSound.error (err : Bytes) (arg : Option Json) :
    AnswerSound s cl (.finished, some (.error err, arg)) :=
  ⟨trivial, fun _ => rfl, fun _ _ h => by cases h⟩

theorem AnswerSound.success {data : Json} (h : OwnData s cl data) (arg : Option Json) :
    AnswerSound s cl (.finished, some (.success data, arg)) :=
  ⟨trivial, fun _ => rfl, fun _ _ he => by cases he; exact h⟩

theorem answer_cases {q : Request} {reply : Reply} (h : w.answer q = some reply) :
    (∃ a, (q, a) ∈ w.node.calls.sent ∧ reply = a.reply)
      ∨ q ∈ w.notFound ∧ reply = .error 404 (lit "Not Found") := by
  unfold Web.answer at h
  split at h
  · rename_i a ha
    obtain rfl : a.1 = q := by simpa using List.find?_some ha
    exact .inl ⟨a.2, List.mem_of_find?_eq_some ha, (Option.some.inj h).symm⟩
  · split_ifs at h with hq
    exact .inr ⟨hq, (Option.some.inj h).symm⟩

theorem auraCallAnswered_sound (ha : cl.isAsync = false) {reply : Reply}
    (hr : (∃ a, AnswersCall s cl a ∧ reply = a.reply) ∨ reply = .error 404 (lit "Not Found")) :
    AnswerSound s cl (auraCallAnswered cl.arg reply) := by
  rcases hr with ⟨a, ⟨n, m, rfl⟩ | ⟨r, res, hown, ⟨hasync, -⟩ | ⟨-, j, rfl, hj⟩⟩, rfl⟩ | rfl
  · exact .error m _
  · rw [ha] at hasync
    cases hasync
  · have hdata : OwnData s cl (j.get (lit "data")) := ⟨r, res, j, hown, hj, rfl⟩
    cases j with
    | null => exact .silent trivial
    | _ => exact .success hdata _
  · exact .error _ _

theorem auraCallAsyncAnswered_sound (ha : cl.isAsync = true) {reply : Reply}
    (hr : (∃ a, AnswersCall s cl a ∧ reply = a.reply) ∨ reply = .error 404 (lit "Not Found")) :
    AnswerSound s cl (auraCallAsyncAnswered cl.arg reply) := by
  rcases hr with ⟨a, ⟨n, m, rfl⟩ | ⟨r, res, hown, ⟨-, rfl⟩ | ⟨hsync, -⟩⟩, rfl⟩ | rfl
  · exact .error m _
  · exact .silent ⟨r, res, hown, rfl⟩
  · rw [ha] at hsync
    cases hsync
  · exact .error _ _

theorem pollAnswered_sound {loc : Bytes} {q : Request} {r : RecId} {res : PendingCall}
    (h : Polls s cl loc q r res) {reply : Reply}
    (hr : (∃ a, (q, a) ∈ s.sent ∧ reply = a.reply) ∨ reply = .error 404 (lit "Not Found")) :
    AnswerSound s cl (pollAnswered loc reply) := by
  rcases hr with ⟨a, ha, rfl⟩ | rfl
  · rcases h.answered a ha with rfl | ⟨j, rfl, hj⟩
    · exact .silent ⟨r, res, h.toOwnCall, h.path⟩
    · have hdata : OwnData s cl (j.get (lit "data")) := ⟨r, res, j, h.toOwnCall, hj, rfl⟩
      simp only [Answer.reply, pollAnswered]
      split
      · exact .silent trivial
      · exact .silent trivial
      · rename_i heq
        cases heq
        split
        · split_ifs
          · exact .silent ⟨r, res, h.toOwnCall, h.path⟩
          · exact .success hdata _
        · exact .success hdata _
      · rename_i heq
        cases heq
      · rename_i heq
        cases heq
  · exact .silent trivial

end Answers

/-- What holds of a node and its clients after at most `n` requests for calls. -/
structure WebSound (mpoint : Mpoint) (n : ℕ) (w : Web) : Prop where
  records : Records w.node.calls
  paths : Paths mpoint.mountpoint n w.node.calls
  askedBefore : AskedBefore w.node.calls
  clients : ∀ (k : ℕ) cl, w.clients[k]? = some cl → ClientSound w.node.calls cl
  handled : ∀ h ∈ w.handled, ∃ cl, w.clients[h.client]? = some cl ∧ cl.phase = .finished
    ∧ ∀ data, h.outcome = .success data → OwnData w.node.calls cl data
  once : (w.handled.map Handled.client).Nodup
  distinct : (w.clients.map Client.request).Nodup
  missed : ∀ q ∈ w.notFound, q.id < w.node.calls.requests

theorem WebSound.start (mpoint : Mpoint) (routes : Routes) :
    WebSound mpoint 0 (.start mpoint routes) := by
  have hrec : Records (Web.start mpoint routes).node.calls := .init
  have hpaths : Paths mpoint.mountpoint 0 (Web.start mpoint routes).node.calls := .init
  refine ⟨hrec, hpaths, ?_, ?_, ?_, ?_, ?_, ?_⟩
  · constructor <;> simp [Web.start, nodeMount]
  · simp [Web.start]
  · simp [Web.start]
  · simp [Web.start]
  · simp [Web.start]
  · simp [Web.start]

section WebSteps

variable {n : ℕ} {w : Web}

theorem OwnData.keepsCalls {s s' : Nodefs} {cl : Client} {data : Json} (h : OwnData s cl data)
    (hs : KeepsCalls s s') : OwnData s' cl data := by
  obtain ⟨r, res, j, hown, hj, rfl⟩ := h
  obtain ⟨res', hown', -, hret⟩ := hown.keepsCalls hs
  exact ⟨r, res', j, hown', hret j hj, rfl⟩

/-- A step of the node alone. -/
theorem WebSound.keepsCalls {m : ℕ} (h : WebSound mpoint n w) (node : NodeFs)
    (hR : Records node.calls) (hP : Paths mpoint.mountpoint m node.calls)
    (hs : KeepsCalls w.node.calls node.calls) {notFound : List Request}
    (hmissed : ∀ q ∈ notFound, q.id < node.calls.requests) :
    WebSound mpoint m { w with node := node, notFound := notFound } where
  records := hR
  paths := hP
  askedBefore := h.askedBefore.keepsCalls hs
  clients k cl hk := (h.clients k cl hk).keepsCalls hs
  handled a ha := by
    obtain ⟨cl, hk, hp, hdata⟩ := h.handled a ha
    exact ⟨cl, hk, hp, fun data hd => (hdata data hd).keepsCalls hs⟩
  once := h.once
  distinct := h.distinct
  missed := hmissed

/-- One more client. -/
theorem WebSound.push (h : WebSound mpoint n w) {cl : Client}
    (hcl : ClientSound w.node.calls cl) (hnew : cl.request ∉ w.clients.map Client.request) :
    WebSound mpoint n { w with clients := w.clients ++ [cl] } := by
  refine { h with
    clients := fun k x hk => ?_, handled := fun a ha => ?_, distinct := ?_ }
  · rw [List.getElem?_append] at hk
    split_ifs at hk with hlt
    · exact h.clients k x hk
    · obtain rfl := List.mem_singleton.1 (List.mem_of_getElem? hk)
      exact hcl
  · obtain ⟨x, hx, hp, hdata⟩ := h.handled a ha
    have hlt := (List.getElem?_eq_some_iff.1 hx).1
    exact ⟨x, by rw [List.getElem?_append_left hlt, hx], hp, hdata⟩
  · rw [List.map_append, List.map_singleton, List.nodup_append]
    refine ⟨h.distinct, by simp, ?_⟩
    rintro q hq q' hq' rfl
    obtain rfl := List.mem_singleton.1 hq'
    exact hnew hq

/-- A client goes on with another phase, which is sound where the node is then. -/
theorem WebSound.setPhase {k : ℕ} {cl : Client} {phase : Phase} (h : WebSound mpoint n w)
    (hk : w.clients[k]? = some cl) (hp : cl.phase ≠ .finished)
    (hphase : PhaseSound w.node.calls cl phase) : WebSound mpoint n (w.setPhase k cl phase) := by
  have hlt := (List.getElem?_eq_some_iff.1 hk).1
  have hcl := h.clients k cl hk
  have hmap : (w.clients.set k { cl with phase := phase }).map Client.request
      = w.clients.map Client.request := by
    have hget : (w.clients.map Client.request)[k]? = some cl.request := by simp [hk]
    obtain ⟨hlt', hget⟩ := List.getElem?_eq_some_iff.1 hget
    rw [List.map_set, ← hget, List.set_getElem_self]
  refine { h with
    clients := fun i x hi => ?_, handled := fun a ha => ?_, distinct := hmap ▸ h.distinct }
  · simp only [Web.setPhase, List.getElem?_set] at hi
    split_ifs at hi with hki
    · cases hi
      refine ⟨hcl.asked, fun r res hres hq => (hcl.own r res hres hq).setPhase phase,
        fun a ha => ?_, hphase.setPhase phase⟩
      rcases hcl.answered a ha with herr | ⟨r, res, hown, ha⟩
      · exact .inl herr
      · exact .inr ⟨r, res, hown.setPhase phase, ha⟩
    · exact h.clients i x hi
  · obtain ⟨x, hx, hfin, hdata⟩ := h.handled a ha
    have hne : k ≠ a.client := by
      rintro rfl
      obtain rfl := Option.some.inj (hk.symm.trans hx)
      exact hp hfin
    exact ⟨x, by simp only [Web.setPhase, List.getElem?_set_ne hne, hx], hfin, hdata⟩

theorem WebSound.take {k : ℕ} {cl : Client} {a : Answered} (h : WebSound mpoint n w)
    (hk : w.clients[k]? = some cl) (hp : cl.phase ≠ .finished)
    (ha : AnswerSound w.node.calls cl a) : WebSound mpoint n (w.take k cl a) := by
  have hset := h.setPhase hk hp ha.phase
  have hlt := (List.getElem?_eq_some_iff.1 hk).1
  unfold Web.take
  rcases a with ⟨phase, _ | ⟨outcome, arg⟩⟩
  · exact hset
  obtain rfl : phase = .finished := ha.finished (by simp)
  dsimp only
  split_ifs with hhandler
  · refine { hset with handled := fun x hx => ?_, once := ?_ }
    · rcases List.mem_append.1 hx with hx | hx
      · exact hset.handled x hx
      · obtain rfl := List.mem_singleton.1 hx
        refine ⟨{ cl with phase := .finished }, ?_, rfl, ?_⟩
        · simp [Web.setPhase, hlt]
        · rintro data rfl
          obtain ⟨r, res, j, hown, hj, hd⟩ := ha.data data arg rfl
          exact ⟨r, res, j, hown.setPhase _, hj, hd⟩
    · rw [List.map_append, List.nodup_append]
      refine ⟨h.once, by simp, ?_⟩
      rintro i hi j hj rfl
      obtain ⟨x, hx, rfl⟩ := List.mem_map.1 hi
      obtain ⟨y, hy, hfin, -⟩ := h.handled x hx
      rw [List.map_singleton, List.mem_singleton] at hj
      rw [hj, hk] at hy
      cases hy
      exact hp hfin
  · exact hset

end WebSteps

section WebStep

variable {s s' : NodeFs} {w w' : Web}

/-- The client whose request the node handles now. -/
theorem clientSound_called {c : Conn} {isAsync handler started : Bool} {method args : Bytes}
    {arg : Json} (hR : Records s.calls) (hA : AskedBefore s.calls)
    (h : nodeStep L mpoint s (.issueCall c ⟨.put, none, args⟩
      (mpoint.mountpoint ++ (callBase isAsync ++ method)) isAsync started) = some s') :
    ClientSound s'.calls
      { isAsync, method, arg, handler, request := s.calls.request c } := by
  obtain ⟨name, calls, hname, hcalls, rfl⟩ := issueCall_of_step h
  rw [getCallMethodname_append] at hname
  obtain rfl := Option.some.inj hname
  have hnone : s.calls.nextRequest.records s.calls.nextRequest.next = none := by
    rcases hres : s.calls.nextRequest.records s.calls.nextRequest.next with _ | res
    · rfl
    · exact absurd (hR.lt_next _ res hres) (Nat.lt_irrefl _)
  have hold : ∀ r res, s.calls.records r = some res → res.request ≠ s.calls.request c :=
    fun r res hres hq => by
      have hlt := hA.records r res hres
      rw [hq] at hlt
      exact Nat.lt_irrefl _ hlt
  have hsent : ∀ a, (s.calls.request c, a) ∉ s.calls.sent := fun a ha =>
    Nat.lt_irrefl _ (hA.sent _ ha)
  have hmethod : ∀ res, calls.records s.calls.next = some res → res.o.name = method :=
    fun res hres => issueCall_object hcalls hres hnone
  rcases issueCall_cases hcalls with ⟨m, msg, k, -, hk, rfl⟩ | ⟨o, rfl⟩
  · refine ⟨Nat.lt_succ_self _, fun r res hres hq => absurd hq (hold r res hres), fun a ha => ?_,
      trivial⟩
    rcases List.mem_append.1 ha with ha | ha
    · exact absurd ha (hsent a)
    · exact .inl ⟨m, msg, (Prod.mk.inj (List.mem_singleton.1 ha)).2⟩
  · have hown : ∀ r res, Function.update s.calls.records s.calls.next
        (some (newCall mpoint.mountpoint s.calls c o isAsync)) r = some res →
        res.request = s.calls.request c →
        r = s.calls.next ∧ res = newCall mpoint.mountpoint s.calls c o isAsync := by
      intro r res hres hq
      rcases update_some_cases hres with hnew | ⟨-, hres⟩
      · exact hnew
      · exact absurd hq (hold r res hres)
    cases isAsync
    · refine ⟨Nat.lt_succ_self _, fun r res hres hq => ?_, fun a ha => absurd ha (hsent a), trivial⟩
      obtain ⟨rfl, rfl⟩ := hown r res hres hq
      exact ⟨hres, rfl, rfl, hmethod _ hres⟩
    · have hself : ((({ s.calls.nextRequest with
            callid := wrapS 32 (s.calls.callid + 1) } : Nodefs).addCall
          (newCall mpoint.mountpoint s.calls c o true)).send (s.calls.request c)
            (.accepted (pendingPath mpoint.mountpoint s.calls.callid))).records s.calls.next
          = some (newCall mpoint.mountpoint s.calls c o true) := Function.update_self ..
      refine ⟨Nat.lt_succ_self _, fun r res hres hq => ?_, fun a ha => ?_, trivial⟩
      · obtain ⟨rfl, rfl⟩ := hown r res hres hq
        exact ⟨hres, rfl, rfl, hmethod _ hres⟩
      · rcases List.mem_append.1 ha with ha | ha
        · exact absurd ha (hsent a)
        · obtain rfl := (Prod.mk.inj (List.mem_singleton.1 ha)).2
          exact .inr ⟨_, _, ⟨hself, rfl, rfl, hmethod _ hself⟩, .inl ⟨rfl, rfl⟩⟩

/-- The client that polls now: the route is that of its own call, or there is none. -/
theorem polls_own {n : ℕ} {c : Conn} {cl : Client} {loc : Bytes} (hR : Records s.calls)
    (hP : Paths mpoint.mountpoint n s.calls) (hA : AskedBefore s.calls)
    (hcl : PhaseSound s.calls cl (.waiting loc))
    (h : nodeStep L mpoint s (.call (.readout c (decodedPath loc))) = some s') :
    PhaseSound s'.calls cl (.polling loc (s.calls.request c)) := by
  obtain ⟨r, res, hown, hpath⟩ := hcl
  have hfresh : ∀ a, (s.calls.request c, a) ∉ s.calls.sent := fun a ha =>
    Nat.lt_irrefl _ (hA.sent _ ha)
  have hunissued : ∀ r' x, s.calls.records r' = some x → x.request ≠ s.calls.request c :=
    fun r' x hx hq => by
      have hlt := hA.records r' x hx
      rw [hq] at hlt
      exact Nat.lt_irrefl _ hlt
  -- a path of the node that decodes to another one of it leads to the same call
  have hroute : ∀ r' x, s.calls.routes.find (decodedPath loc) = some r' →
      s.calls.records r' = some x → r = r' := fun r' x hr' hx => by
    obtain ⟨y, hy, hyp⟩ := hR.routes _ _ hr'
    obtain rfl := Option.some.inj (hx.symm.trans hy)
    have hx3 := (hP.record r' x hx).2.2
    have hres3 := (hP.record r res hown.record).2.2
    have hid : res.callid = x.callid := by
      refine pendingPath_of_decoded (m := mpoint.mountpoint) ?_
      rw [← hx3, ← hres3, hpath, hyp]
    exact hP.inj r r' res x hown.record hx (by rw [hx3, hres3, hid])
  rcases nodeTrans_of_step h with _ | _ | _ | _ | _ | ⟨hc, -⟩
  rcases callTrans_of_step hc with _ | _ | _ | _ | _ | _ | ⟨hm, hconn, hr', hx, hj⟩ |
      ⟨hm, hconn, hr', hx, hj⟩
  · obtain rfl := hroute _ _ hr' hx
    obtain rfl := Option.some.inj (hown.record.symm.trans hx)
    refine ⟨_, { res with resourceStatus := .dead }, ⟨⟨Function.update_self .., hown.request,
      hown.isAsync, hown.method⟩, hpath, ?_, fun r' x hx hq => ?_, fun a ha => ?_⟩⟩
    · simp only [Nodefs.setClosecb, Nodefs.setRecord, Nodefs.moveToGc, Nodefs.send,
        enter_requests]
      exact Nat.lt_succ_self _
    · rcases update_some_cases hx with ⟨rfl, rfl⟩ | ⟨-, hx⟩
      · exact hunissued _ res hown.record hq
      · refine hunissued r' x ?_ hq
        simpa [Nodefs.send, Nodefs.moveToGc, Nodefs.nextRequest] using hx
    · simp only [Nodefs.setClosecb, Nodefs.setRecord, Nodefs.moveToGc, Nodefs.send, enter_sent,
        List.mem_append, List.mem_singleton] at ha
      rcases ha with ha | ha
      · exact absurd ha (hfresh a)
      · exact .inr ⟨_, (Prod.mk.inj ha).2, hj⟩
  · obtain rfl := hroute _ _ hr' hx
    obtain rfl := Option.some.inj (hown.record.symm.trans hx)
    have hkeep : ∀ q a, (((s.calls.nextRequest.enter r).send q a)).records = s.calls.records :=
      fun q a => by simp [Nodefs.send, Nodefs.nextRequest]
    refine ⟨_, res, ⟨⟨(congrFun (hkeep _ _) _).trans hown.record, hown.request, hown.isAsync,
      hown.method⟩, hpath, ?_, fun r' x hx hq => ?_, fun a ha => ?_⟩⟩
    · simp only [Nodefs.send, enter_requests]
      exact Nat.lt_succ_self _
    · exact hunissued r' x ((congrFun (hkeep _ _) _).symm.trans hx) hq
    · simp only [Nodefs.send, enter_sent, List.mem_append, List.mem_singleton] at ha
      rcases ha with ha | ha
      · exact absurd ha (hfresh a)
      · rw [hR.status _ res hown.record hj] at ha
        exact .inl (Prod.mk.inj ha).2

/-- A poll that comes to no callback is not answered by the node. -/
theorem polls_missed {c : Conn} {cl : Client} {loc : Bytes} (hA : AskedBefore s.calls)
    (hcl : PhaseSound s.calls cl (.waiting loc)) :
    PhaseSound s.calls.nextRequest cl (.polling loc (s.calls.request c)) := by
  obtain ⟨r, res, hown, hpath⟩ := hcl
  refine ⟨r, res, ⟨⟨hown.record, hown.request, hown.isAsync, hown.method⟩, hpath,
    Nat.lt_succ_self _, fun r' x hx hq => ?_, fun a ha => ?_⟩⟩
  · have hlt := hA.records r' x hx
    rw [hq] at hlt
    exact Nat.lt_irrefl _ hlt
  · exact absurd (hA.sent _ ha) (Nat.lt_irrefl _)

/-- The event is a request that may issue a call. -/
def WebEvent.issues : WebEvent → Bool
  | .node e => e.issues
  | .call .. => true
  | _ => false

theorem WebSound.node {n : ℕ} {e : NodeEvent} (h : WebSound mpoint n w)
    (hn : (if e.issues then n + 1 else n) < 2 ^ 31) (hs : nodeStep L mpoint w.node e = some s') :
    WebSound mpoint (if e.issues then n + 1 else n) { w with node := s' } := by
  have ht := nodeTrans_of_step hs
  exact h.keepsCalls s' (h.records.node ht) (h.paths.node h.records hn ht)
    (nodeTrans_keepsCalls h.records ht) fun q hq => (h.missed q hq).trans_le
      (nodeTrans_keepsCalls h.records ht).requests_le

/-- A request that comes to no callback. -/
theorem WebSound.miss {n m : ℕ} (h : WebSound mpoint n w) (hnm : n ≤ m) (c : Conn) :
    WebSound mpoint m { w with
      node := { w.node with calls := w.node.calls.nextRequest }
      notFound := w.notFound ++ [w.node.calls.request c] } := by
  refine h.keepsCalls { w.node with calls := w.node.calls.nextRequest }
    h.records.nextRequest { h.paths.mono hnm with } (keepsCalls_nextRequest _) fun q hq => ?_
  rcases List.mem_append.1 hq with hq | hq
  · exact (h.missed q hq).trans (Nat.lt_succ_self _)
  · rw [List.mem_singleton.1 hq]
    exact Nat.lt_succ_self _

/-- A client whose call comes to no callback. -/
theorem clientSound_missed {c : Conn} {isAsync handler : Bool} {method : Bytes}
    {arg : Json} (hA : AskedBefore s.calls) :
    ClientSound s.calls.nextRequest
      { isAsync, method, arg, handler, request := s.calls.request c } := by
  refine ⟨Nat.lt_succ_self _, fun r res hres hq => ?_, fun a ha => ?_, trivial⟩
  · have hlt := hA.records r res hres
    rw [hq] at hlt
    exact absurd hlt (Nat.lt_irrefl _)
  · exact absurd (hA.sent _ ha) (Nat.lt_irrefl _)

/-- The request that comes next is not that of a client. -/
theorem WebSound.request_notMem {n : ℕ} (h : WebSound mpoint n w) (c : Conn) :
    w.node.calls.request c ∉ w.clients.map Client.request := by
  intro hin
  obtain ⟨cl, hcl, hq⟩ := List.mem_map.1 hin
  obtain ⟨k, hk⟩ := List.mem_iff_getElem?.1 hcl
  have hlt := (h.clients k cl hk).asked
  rw [hq] at hlt
  exact Nat.lt_irrefl _ hlt

theorem WebSound.request_inj {n i k : ℕ} {x y : Client} (h : WebSound mpoint n w)
    (hi : w.clients[i]? = some x) (hk : w.clients[k]? = some y) (hq : x.request = y.request) :
    i = k := by
  have hi' : (w.clients.map Client.request)[i]? = some x.request := by simp [hi]
  have hk' : (w.clients.map Client.request)[k]? = some x.request := by simp [hk, hq]
  exact (List.getElem?_inj (List.getElem?_eq_some_iff.1 hi').1 h.distinct).1 (hi'.trans hk'.symm)

theorem WebSound.step {n : ℕ} {e : WebEvent} (h : WebSound mpoint n w)
    (hn : (if e.issues then n + 1 else n) < 2 ^ 31) (ht : WebTrans L mpoint w e w') :
    WebSound mpoint (if e.issues then n + 1 else n) w' := by
  cases ht with
  | node hs => exact h.node hn hs
  | @callMissed c isAsync handler started method args arg hc =>
    exact (h.miss (Nat.le_succ n) c).push (clientSound_missed h.askedBefore)
      (h.request_notMem _)
  | @called c isAsync handler started method args arg node hs =>
    exact (h.node (e := .issueCall c ⟨.put, none, args⟩ _ isAsync started) hn hs).push
      (clientSound_called h.records h.askedBefore hs) (h.request_notMem _)
  | @pollMissed k c cl loc hk hp hr hc =>
    have hcl := (h.clients k cl hk).phase
    rw [hp] at hcl
    exact (h.miss le_rfl c).setPhase hk (by simp [hp])
      (polls_missed h.askedBefore hcl)
  | @polled k c cl loc node hk hp hs =>
    have hcl := (h.clients k cl hk).phase
    rw [hp] at hcl
    exact (h.node (e := .call (.readout c (decodedPath loc))) hn hs).setPhase hk (by simp [hp])
      (polls_own h.records h.paths h.askedBefore hcl hs)
  | @callAnswered k cl reply hk hp hr =>
    have hcl := h.clients k cl hk
    have hr' : (∃ a, AnswersCall w.node.calls cl a ∧ reply = a.reply)
        ∨ reply = .error 404 (lit "Not Found") := by
      rcases answer_cases hr with ⟨a, ha, rfl⟩ | ⟨-, rfl⟩
      · exact .inl ⟨a, hcl.answered a ha, rfl⟩
      · exact .inr rfl
    refine h.take hk (by simp [hp]) ?_
    split_ifs with ha
    · exact auraCallAsyncAnswered_sound ha hr'
    · exact auraCallAnswered_sound (by simpa using ha) hr'
  | @pollAnswered k cl loc q reply hk hp hr =>
    have hcl := (h.clients k cl hk).phase
    rw [hp] at hcl
    obtain ⟨r, res, hpolls⟩ := hcl
    exact h.take hk (by simp [hp]) (pollAnswered_sound hpolls
      ((answer_cases hr).imp_right And.right))
  | callLost hk hp => exact h.take hk (by simp [hp]) (.error _ _)
  | pollLost hk hp => exact h.take hk (by simp [hp]) (.silent trivial)

/-- The event brings the result of the call of `r`. -/
def CompletedIn (L : NodeLibs) (es : List WebEvent) (r : RecId) (o : AuraObject) (j : Json) :
    Prop :=
  ∃ result buf, .node (.call (.complete r result buf)) ∈ es
    ∧ callResultToJson L.codes L.wire result o buf = some j

theorem CompletedIn.concat {es : List WebEvent} {r : RecId} {o : AuraObject} {j : Json}
    (h : CompletedIn L es r o j) (e : WebEvent) : CompletedIn L (es ++ [e]) r o j := by
  obtain ⟨result, buf, hmem, hj⟩ := h
  exact ⟨result, buf, List.mem_append_left _ hmem, hj⟩

/-- The results that are there have come in. -/
def ResultsCameIn (L : NodeLibs) (es : List WebEvent) (s : Nodefs) : Prop :=
  ∀ r res j, s.records r = some res → res.retbuf = some j → CompletedIn L es r res.o j

theorem ResultsCameIn.step {es : List WebEvent} {e : WebEvent}
    (h : ResultsCameIn L es w.node.calls) (ht : WebTrans L mpoint w e w') :
    ResultsCameIn L (es ++ [e]) w'.node.calls := by
  intro r res' j hres' hj
  rcases webTrans_node ht with hs | hs | ⟨e', hnode, he⟩
  · rw [hs] at hres'
    exact (h r res' j hres' hj).concat e
  · rw [hs] at hres'
    exact (h r res' j hres' hj).concat e
  · rcases nodeTrans_retbuf hnode hres' hj with ⟨res, hres, ho, hj'⟩ | ⟨result, buf, hcomp, hj'⟩
    · exact ho ▸ (h r res j hres hj').concat e
    · exact ⟨result, buf, by simp [he r result buf hcomp, hcomp], hj'⟩

end WebStep

/-- How many requests may have issued a call. -/
def issued (es : List WebEvent) : ℕ := es.countP WebEvent.issues

theorem issued_concat (es : List WebEvent) (e : WebEvent) :
    issued (es ++ [e]) = if e.issues then issued es + 1 else issued es := by
  simp only [issued, List.countP_append, List.countP_singleton]
  split_ifs <;> rfl

theorem webSound_of_run {routes : Routes} {es : List WebEvent} {w : Web}
    (h : run (webStep L mpoint) (.start mpoint routes) es = some w) (hn : issued es < 2 ^ 31) :
    WebSound mpoint (issued es) w := by
  refine run_history (I := fun es w => issued es < 2 ^ 31 → WebSound mpoint (issued es) w)
    (fun _ => .start mpoint routes) (fun es w e w' _ hI _ hw' hn => ?_) es (along_true es _) h hn
  rw [issued_concat] at hn ⊢
  exact (hI (by split_ifs at hn <;> omega)).step hn (webTrans_of_step hw')

theorem resultsCameIn_of_run {routes : Routes} {es : List WebEvent} {w : Web}
    (h : run (webStep L mpoint) (.start mpoint routes) es = some w) :
    ResultsCameIn L es w.node.calls :=
  run_history (I := fun es w => ResultsCameIn L es w.node.calls) (fun _ _ _ hres => by cases hres)
    (fun _ _ _ _ _ hI _ hw' => hI.step (webTrans_of_step hw')) es (along_true es _) h

/-- In every run in which fewer than `2^31` calls were requested, no handler was called twice, no
two clients share a call, and the data handed to a client as a success is out of what the completion
of its own call brought. -/
theorem clients_get_own_results (L : NodeLibs) (mpoint : Mpoint) (routes : Routes)
    (es : List WebEvent) (w : Web)
    (hrun : run (webStep L mpoint) (.start mpoint routes) es = some w)
    (hn : issued es < 2 ^ 31) :
    (w.handled.map Handled.client).Nodup ∧ (w.clients.map Client.request).Nodup
      ∧ ∀ h ∈ w.handled, ∃ cl, w.clients[h.client]? = some cl ∧ cl.phase = .finished
        ∧ ∀ data, h.outcome = .success data → ∃ r res j, OwnCall w.node.calls cl r res
          ∧ CompletedIn L es r res.o j ∧ data = j.get (lit "data") := by
  have hw := webSound_of_run hrun hn
  refine ⟨hw.once, hw.distinct, fun h hh => ?_⟩
  obtain ⟨cl, hk, hp, hdata⟩ := hw.handled h hh
  refine ⟨cl, hk, hp, fun data hd => ?_⟩
  obtain ⟨r, res, j, hown, hj, rfl⟩ := hdata data hd
  exact ⟨r, res, j, hown, resultsCameIn_of_run hrun r res j hown.record hj, rfl⟩

/-- Two clients call at once; their calls complete in the other order, and one polls before that. -/
def crossedRun : List WebEvent :=
  [.node (.call .accept), .node (.call .accept), .node (.etblChanged (some pingTable)),
    .call 0 true (lit "ping") (lit "[]") .null true true,
    .call 1 true (lit "ping") (lit "[]") (.bool true) true true,
    .receive 0, .receive 1, .poll 0 0, .receive 0,
    .node (.call (.complete 1 0 none)), .node (.call (.complete 0 0 none)),
    .poll 0 1, .poll 1 0, .receive 1, .receive 0]

theorem clients_get_own_results_crossed :
    ∃ w, run (webStep .plain onlineMpoint) (.start onlineMpoint .empty) crossedRun = some w
      ∧ w.handled.map Handled.client = [1, 0] ∧ (w.handled.map Handled.client).Nodup :=
  ⟨_, rfl, rfl, (clients_get_own_results .plain onlineMpoint .empty crossedRun _ rfl
    (by decide)).1⟩

end AuraHttpd
