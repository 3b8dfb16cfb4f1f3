import AuraHttpd.AuraClient
import AuraHttpd.Proofs.CallRoutes
import AuraHttpd.Proofs.NodeCalls
import AuraHttpd.Proofs.CallPaths

/-!
# What happens to a node and its clients

`WebTrans` lists what each event does.  What the clients rely on of the node is `KeepsCalls`: its
records stay, with the results they have, and an answer that is new is one to a new request or the
result of a sync call.
-/

namespace AuraHttpd

open CString StepSystem

variable {L : NodeLibs} {mpoint : Mpoint}

/-- What the clients rely on of a step of the node: no record is lost, and what is new in the heap
or has been sent belongs to a new request or is the result of a sync call. -/
structure KeepsCalls (s s' : Nodefs) : Prop where
  requests_le : s.requests ≤ s'.requests
  keeps : ∀ r res, s.records r = some res → ∃ res', s'.records r = some res' ∧ SameCall res res'
    ∧ ∀ j, res.retbuf = some j → res'.retbuf = some j
  created : ∀ r res', s'.records r = some res' → (∃ res, s.records r = some res)
    ∨ res'.request.id = s.requests ∧ s.requests < s'.requests
  answers : s.sent ⊆ s'.sent
  sent : ∀ p ∈ s'.sent, p ∈ s.sent ∨ (p.1.id = s.requests ∧ s.requests < s'.requests)
    ∨ ∃ r res' j, p = (res'.request, .result r j) ∧ s'.records r = some res'
      ∧ res'.isAsync = false ∧ res'.retbuf = some j

theorem KeepsCalls.refl (s : Nodefs) : KeepsCalls s s where
  requests_le := le_rfl
  keeps _ res hres := ⟨res, hres, .refl res, fun _ => id⟩
  created _ res' hres' := .inl ⟨res', hres'⟩
  answers _ := id
  sent _ hp := .inl hp

theorem keepsCalls_nextRequest (s : Nodefs) : KeepsCalls s s.nextRequest where
  requests_le := Nat.le_succ _
  keeps _ res hres := ⟨res, hres, .refl res, fun _ => id⟩
  created _ res' hres' := .inl ⟨res', hres'⟩
  answers _ := id
  sent _ hp := .inl hp

section Call

variable {C : UrpcCodes} {W : AuraWire} {mountpoint : Bytes} {s s' : Nodefs} {e : CallEvent}

/-- A result stays where it is. -/
theorem callTrans_retbuf (hR : Records s) (ht : CallTrans C W mountpoint s e s') {r : RecId}
    {res res' : PendingCall} {j : Json} (hres : s.records r = some res)
    (hres' : s'.records r = some res') (hj : res.retbuf = some j) : res'.retbuf = some j := by
  rcases callTrans_record ht hres' with ⟨x, hx, -, hret, -⟩ | ⟨x, result, buf, -, -, rfl, -⟩ |
      ⟨c, args, rfl, -⟩
  · obtain rfl := Option.some.inj (hres.symm.trans hx)
    rw [hret, hj]
  · have hin : r ∈ s.inflight := by
      cases ht with
      | completedAsync hm hr => exact hr
      | completedSync hm hr => exact hr
    exact absurd hin (hR.not_inflight hres hj)
  · exact absurd (hR.lt_next _ res hres) (Nat.lt_irrefl _)

theorem callTrans_keepsCalls (hR : Records s) (ht : CallTrans C W mountpoint s e s') :
    KeepsCalls s s' := by
  have hle := (callTrans_asked ht).1
  refine ⟨hle, fun r res hres => ?_, fun r res' hres' => ?_, ?_, fun p hp => ?_⟩
  · obtain ⟨res', hres', hsame⟩ := callTrans_records hR ht hres
    exact ⟨res', hres', hsame, fun j hj => callTrans_retbuf hR ht hres hres' hj⟩
  · rcases callTrans_record ht hres' with ⟨x, hx, -⟩ | ⟨x, _, _, hx, -⟩ |
      ⟨c, args, rfl, rfl, hnew, -⟩
    · exact .inl ⟨x, hx⟩
    · exact .inl ⟨x, hx⟩
    · refine .inr ⟨by rw [hnew]; rfl, ?_⟩
      generalize res'.isAsync = isAsync at ht
      cases ht with
      | createdSync => exact Nat.lt_succ_self _
      | createdAsync => exact Nat.lt_succ_self _
      | refused => exact Nat.lt_succ_self _
  · rcases (callTrans_asked ht).2 with hs | ⟨c, a, hs, -⟩ | ⟨r, result, buf, res, j, -, -, -, -, hs⟩
    · exact hs ▸ List.Subset.refl _
    · exact hs ▸ List.subset_append_left ..
    · exact hs ▸ List.subset_append_left ..
  · rcases (callTrans_asked ht).2 with hs | ⟨c, a, hs, hq⟩ |
        ⟨r, result, buf, res, j, rfl, -, hres, ha, hs⟩ <;>
      rw [hs] at hp
    · exact .inl hp
    · rcases List.mem_append.1 hp with hp | hp
      · exact .inl hp
      · obtain rfl := List.mem_singleton.1 hp
        exact .inr (.inl ⟨rfl, hq ▸ Nat.lt_succ_self _⟩)
    · rcases List.mem_append.1 hp with hp | hp
      · exact .inl hp
      · obtain rfl := List.mem_singleton.1 hp
        refine .inr (.inr ?_)
        cases ht with
        | completedAsync hm hr hres' hj ha' =>
          obtain rfl := Option.some.inj (hres.symm.trans hres')
          rw [ha] at ha'
          cases ha'
        | @completedSync _ _ _ res₁ j' hm hr hres' hj ha' hc =>
          obtain rfl := Option.some.inj (hres.symm.trans hres')
          have hj : j' = j := by
            simpa [Nodefs.setClosecb, Nodefs.send, Nodefs.setRecord] using hs
          subst hj
          refine ⟨r, { res with retbuf := some j' }, j', rfl, ?_, ha, rfl⟩
          simp [Nodefs.setClosecb, Nodefs.send, Nodefs.setRecord]

end Call

theorem nodeTrans_keepsCalls {s s' : NodeFs} {e : NodeEvent} (hR : Records s.calls)
    (ht : NodeTrans L mpoint s e s') : KeepsCalls s.calls s'.calls := by
  rcases nodeTrans_calls ht with ⟨hs, -⟩ | ⟨c, j, hs, -⟩ | ⟨-, e', ht', -⟩
  · rw [hs]
    exact .refl _
  · rw [hs]
    exact keepsCalls_nextRequest _
  · exact callTrans_keepsCalls hR ht'

/-- The event is a request that may issue a call. -/
def NodeEvent.issues : NodeEvent → Bool
  | .issueCall .. => true
  | _ => false

theorem Paths.node {n : ℕ} {s s' : NodeFs} {e : NodeEvent} (h : Paths mpoint.mountpoint n s.calls)
    (hR : Records s.calls) (hn : (if e.issues then n + 1 else n) < 2 ^ 31)
    (ht : NodeTrans L mpoint s e s') :
    Paths mpoint.mountpoint (if e.issues then n + 1 else n) s'.calls := by
  cases ht with
  | etblChanged hm hc => exact h
  | exports hm hc => exact { h with }
  | arrive hlt => exact h
  | events hm hc hl => exact { h with }
  | @issueCall c request path name isAsync started calls hm hc hi =>
    rcases issueCall_cases hi with ⟨m, msg, k, -, hk, rfl⟩ | ⟨o, rfl⟩
    · exact h.step (C := L.codes) (W := L.wire)
        (e := .create c ⟨0, [], none, none, 0⟩ .null true true) hR hn (.refused hm hc hk)
    · cases isAsync
      · exact h.step (C := L.codes) (W := L.wire) (e := .create c o .null false true) hR hn
          (.createdSync hm hc)
      · exact h.step (C := L.codes) (W := L.wire) (e := .create c o .null true true) hR hn
          (.createdAsync hm hc)
  | @call e calls hc hne =>
    have hcreate : e.isCreate = false := by
      cases e with
      | create c o args isAsync started => exact absurd rfl (hne c o args isAsync started)
      | _ => rfl
    have hstep := h.step hR (e := e) (by simpa [hcreate, NodeEvent.issues] using hn)
      (callTrans_of_step hc)
    simpa [hcreate, NodeEvent.issues] using hstep

/-- The call of a request that is not refused is one of the method it names. -/
theorem issueCall_object {s s' : Nodefs} {tbl : Option ExportTable} {q : Request}
    {request : CallRequest} {name : Bytes} {isAsync started : Bool} {res : PendingCall}
    (h : issueCall L mpoint s tbl q request name isAsync started = some s')
    (hres : s'.records s.next = some res) (hnew : s.records s.next = none) : res.o.name = name := by
  have hold : s'.records = s.records → res.o.name = name := fun hrec => by
    rw [hrec, hnew] at hres
    cases hres
  unfold issueCall at h
  split_ifs at h with hcmd
  · cases h
    exact hold rfl
  split at h
  · cases h
    exact hold rfl
  simp only [Option.bind_eq_bind, Option.bind_eq_some_iff] at h
  obtain ⟨tbl, -, h⟩ := h
  split at h
  · cases h
    exact hold rfl
  rename_i o ho
  have hname : o.name = name := by simpa using List.find?_some ho
  simp only [ahttpdCallCreate, Option.bind_eq_bind, Option.bind_eq_some_iff] at h
  obtain ⟨⟨ret, buf⟩, -, h⟩ := h
  simp only at h
  split_ifs at h with h1 h2 h3
  · cases h
    exact hold rfl
  · cases h
    exact hold rfl
  all_goals
    cases h
    simp only [Nodefs.send, Nodefs.addCall, Function.update_self, Option.some.injEq] at hres
    rw [← hres]
    exact hname

variable (L mpoint) in
/-- What an event does to the node and its clients. -/
inductive WebTrans (w : Web) : WebEvent → Web → Prop where
  | node {e : NodeEvent} {node : NodeFs} (h : nodeStep L mpoint w.node e = some node) :
    WebTrans w (.node e) { w with node := node }
  | callMissed {c : Conn} {isAsync handler started : Bool} {method args : Bytes} {arg : Json}
      (hc : c ∈ w.node.calls.conns) :
    WebTrans w (.call c isAsync method args arg handler started)
      { w with
        node := { w.node with calls := w.node.calls.nextRequest }
        notFound := w.notFound ++ [w.node.calls.request c]
        clients := w.clients
          ++ [{ isAsync, method, arg, handler, request := w.node.calls.request c }] }
  | called {c : Conn} {isAsync handler started : Bool} {method args : Bytes} {arg : Json}
      {node : NodeFs}
      (h : nodeStep L mpoint w.node (.issueCall c ⟨.put, none, args⟩
        (mpoint.mountpoint ++ (callBase isAsync ++ method)) isAsync started) = some node) :
    WebTrans w (.call c isAsync method args arg handler started)
      { w with
        node := node
        clients := w.clients
          ++ [{ isAsync, method, arg, handler, request := w.node.calls.request c }] }
  | pollMissed {k : ℕ} {c : Conn} {cl : Client} {loc : Bytes} (hk : w.clients[k]? = some cl)
      (hp : cl.phase = .waiting loc) (hr : w.node.calls.routes.find (decodedPath loc) = none)
      (hc : c ∈ w.node.calls.conns) :
    WebTrans w (.poll k c)
      { w.setPhase k cl (.polling loc (w.node.calls.request c)) with
        node := { w.node with calls := w.node.calls.nextRequest }
        notFound := w.notFound ++ [w.node.calls.request c] }
  | polled {k : ℕ} {c : Conn} {cl : Client} {loc : Bytes} {node : NodeFs}
      (hk : w.clients[k]? = some cl) (hp : cl.phase = .waiting loc)
      (h : nodeStep L mpoint w.node (.call (.readout c (decodedPath loc))) = some node) :
    WebTrans w (.poll k c)
      { w.setPhase k cl (.polling loc (w.node.calls.request c)) with node := node }
  | callAnswered {k : ℕ} {cl : Client} {reply : Reply} (hk : w.clients[k]? = some cl)
      (hp : cl.phase = .calling) (hr : w.answer cl.request = some reply) :
    WebTrans w (.receive k) (w.take k cl (if cl.isAsync then auraCallAsyncAnswered cl.arg reply
      else auraCallAnswered cl.arg reply))
  | pollAnswered {k : ℕ} {cl : Client} {loc : Bytes} {q : Request} {reply : Reply}
      (hk : w.clients[k]? = some cl) (hp : cl.phase = .polling loc q)
      (hr : w.answer q = some reply) :
    WebTrans w (.receive k) (w.take k cl (pollAnswered loc reply))
  | callLost {k : ℕ} {cl : Client} (hk : w.clients[k]? = some cl) (hp : cl.phase = .calling) :
    WebTrans w (.lost k) (w.take k cl (.finished, some (.error [], some cl.arg)))
  | pollLost {k : ℕ} {cl : Client} {loc : Bytes} {q : Request} (hk : w.clients[k]? = some cl)
      (hp : cl.phase = .polling loc q) :
    WebTrans w (.lost k) (w.take k cl (.finished, none))

theorem miss_eq_some {w w' : Web} {c : Conn} (h : w.miss c = some w') :
    c ∈ w.node.calls.conns ∧ w' = { w with
      node := { w.node with calls := w.node.calls.nextRequest }
      notFound := w.notFound ++ [w.node.calls.request c] } := by
  unfold Web.miss at h
  split_ifs at h with hc
  exact ⟨hc, (Option.some.inj h).symm⟩

theorem take_node (w : Web) (k : ℕ) (cl : Client) (a : Answered) :
    (w.take k cl a).node.calls = w.node.calls := by
  unfold Web.take
  split
  · split_ifs <;> rfl
  · rfl

theorem webTrans_of_step {w w' : Web} {e : WebEvent} (h : webStep L mpoint w e = some w') :
    WebTrans L mpoint w e w' := by
  cases e with
  | node e =>
    obtain ⟨node, hnode, rfl⟩ := Option.map_eq_some_iff.1 h
    exact .node hnode
  | call c isAsync method args arg handler started =>
    simp only [webStep, Web.call] at h
    split at h
    · split_ifs at h
      obtain ⟨hc, rfl⟩ := miss_eq_some h
      exact .callMissed hc
    · split_ifs at h
      obtain ⟨node, hnode, h⟩ := Option.bind_eq_some_iff.1 h
      cases h
      exact .called hnode
  | poll k c =>
    obtain ⟨cl, hk, h⟩ := Option.bind_eq_some_iff.1 h
    split at h
    · rename_i loc hp
      dsimp only at h
      split at h
      · rename_i hr
        obtain ⟨hc, rfl⟩ := miss_eq_some h
        exact .pollMissed hk hp hr hc
      · obtain ⟨node, hnode, h⟩ := Option.bind_eq_some_iff.1 h
        cases h
        exact .polled hk hp hnode
    · cases h
  | receive k =>
    obtain ⟨cl, hk, h⟩ := Option.bind_eq_some_iff.1 h
    split at h
    · rename_i hp
      obtain ⟨reply, hr, h⟩ := Option.bind_eq_some_iff.1 h
      cases h
      exact .callAnswered hk hp hr
    · rename_i loc q hp
      obtain ⟨reply, hr, h⟩ := Option.bind_eq_some_iff.1 h
      cases h
      exact .pollAnswered hk hp hr
    · cases h
  | lost k =>
    obtain ⟨cl, hk, h⟩ := Option.bind_eq_some_iff.1 h
    split at h
    · rename_i hp
      cases h
      exact .callLost hk hp
    · rename_i loc q hp
      cases h
      exact .pollLost hk hp
    · cases h

section WebTrans

variable {s s' : NodeFs} {w w' : Web}

/-- A result that is new comes from the completion of its call. -/
theorem nodeTrans_retbuf {e : NodeEvent} (ht : NodeTrans L mpoint s e s') {r : RecId}
    {res' : PendingCall} {j : Json} (hres' : s'.calls.records r = some res')
    (hj : res'.retbuf = some j) :
    (∃ res, s.calls.records r = some res ∧ res.o = res'.o ∧ res.retbuf = some j)
      ∨ ∃ result buf, e = .call (.complete r result buf)
        ∧ callResultToJson L.codes L.wire result res'.o buf = some j := by
  rcases nodeTrans_calls ht with ⟨hs, -⟩ | ⟨c, j', hs, -⟩ | ⟨-, e', ht', he⟩
  · rw [hs] at hres'
    exact .inl ⟨res', hres', rfl, hj⟩
  · rw [hs] at hres'
    exact .inl ⟨res', hres', rfl, hj⟩
  · rcases callTrans_record ht' hres' with ⟨res, hres, hsame, hret, -⟩ |
        ⟨res, result, buf, hres, hsame, hcomp, j', hj', hret⟩ | ⟨c, args, -, -, hnew, -⟩
    · exact .inl ⟨res, hres, hsame.2.1.symm, hret ▸ hj⟩
    · rw [hj] at hret
      obtain rfl := Option.some.inj hret
      exact .inr ⟨result, buf, (he r result buf hcomp).trans (by rw [hcomp]), hsame.2.1 ▸ hj'⟩
    · rw [hnew] at hj
      cases hj

/-- What happens to the node when something happens to it and its clients. -/
theorem webTrans_node {e : WebEvent} (ht : WebTrans L mpoint w e w') :
    w'.node.calls = w.node.calls ∨ w'.node.calls = w.node.calls.nextRequest
      ∨ ∃ e', NodeTrans L mpoint w.node e' w'.node
        ∧ ∀ r result buf, e' = .call (.complete r result buf) → e = .node e' := by
  cases ht with
  | node hs => exact .inr (.inr ⟨_, nodeTrans_of_step hs, fun _ _ _ _ => rfl⟩)
  | callMissed hc => exact .inr (.inl rfl)
  | called hs => exact .inr (.inr ⟨_, nodeTrans_of_step hs, by simp⟩)
  | pollMissed hk hp hr hc => exact .inr (.inl rfl)
  | polled hk hp hs => exact .inr (.inr ⟨_, nodeTrans_of_step hs, by simp⟩)
  | callAnswered hk hp hr => exact .inl (take_node ..)
  | pollAnswered hk hp hr => exact .inl (take_node ..)
  | callLost hk hp => exact .inl (take_node ..)
  | pollLost hk hp => exact .inl (take_node ..)

end WebTrans

section Pending

variable {m : Bytes}

/-- The end of a call's path, from the slash behind the mountpoint on. -/
def pendingTail (z : ℤ) : Bytes := 47 :: (lit "pending/" ++ fmtD z)

theorem pendingPath_eq (m : Bytes) (z : ℤ) : pendingPath m z = m ++ pendingTail z := by
  simp [pendingPath, pendingTail, lit]

theorem pendingTail_bytes {z : ℤ} {c : UInt8} (hc : c ∈ pendingTail z) : c ≠ 37 ∧ c ≠ 0 := by
  have hmark : ∀ c ∈ lit "pending/", c ≠ 37 ∧ c ≠ 0 := by simp [lit]
  rcases List.mem_cons.1 hc with rfl | hc
  · decide
  rcases List.mem_append.1 hc with hc | hc
  · exact hmark c hc
  · rcases fmtD_bytes hc with rfl | hc
    · decide
    · constructor <;> rintro rfl <;> revert hc <;> decide

theorem percentDecode_pendingPath (m : Bytes) (z : ℤ) :
    percentDecode (pendingPath m z) = percentDecode m ++ pendingTail z := by
  have hesc : ¬ HasEscape (pendingTail z) := by
    rintro ⟨x, y, -, hin⟩
    exact (pendingTail_bytes (hin.subset (by simp))).1 rfl
  rw [pendingPath_eq, pendingTail, percentDecode_append (by decide), ← pendingTail,
    percentDecode_eq_self hesc]

/-- The path of a call is found where it decodes to itself. -/
theorem decodedPath_pendingPath (hesc : ¬ HasEscape m) (h0 : 0 ∉ m) (z : ℤ) :
    decodedPath (pendingPath m z) = pendingPath m z := by
  rw [decodedPath, percentDecode_pendingPath, percentDecode_eq_self hesc, ← pendingPath_eq]
  refine cstr_eq_self fun c hc => ?_
  rcases List.mem_append.1 (pendingPath_eq m z ▸ hc) with hc | hc
  · rintro rfl
    exact h0 hc
  · exact (pendingTail_bytes hc).2

theorem strrchr_pendingTail (m : Bytes) (z : ℤ) :
    strrchr (m ++ pendingTail z) 47 = some (47 :: fmtD z) := by
  have hsplit : m ++ pendingTail z = (m ++ lit "/pending") ++ 47 :: fmtD z := by
    simp [pendingTail, lit]
  rw [hsplit, strrchr_append_cons]
  intro hc
  rcases fmtD_bytes hc with hc | hc <;> revert hc <;> decide

/-- No path of another call of the node is found under that of a call. -/
theorem pendingPath_of_decoded {a b : ℤ} (h : decodedPath (pendingPath m a) = pendingPath m b) :
    a = b := by
  rw [decodedPath, percentDecode_pendingPath, cstr, List.takeWhile_append] at h
  split_ifs at h with hm
  · have hall : List.takeWhile (· ≠ 0) (pendingTail a) = pendingTail a :=
      cstr_eq_self fun c hc => (pendingTail_bytes hc).2
    have hr := congrArg (strrchr · 47) h
    simp only [hall, pendingPath_eq, strrchr_pendingTail] at hr
    exact fmtD_inj (List.cons.inj (Option.some.inj hr)).2
  -- a NUL that was encoded cuts the path too short for the number
  · have hlen := congrArg List.length h
    have hle := (List.takeWhile_prefix (· ≠ 0) (l := percentDecode m)).length_le
    have hdle := percentDecode_length_le m
    simp only [pendingPath_eq, pendingTail, List.length_append, List.length_cons] at hlen
    omega

end Pending

theorem issueCall_of_step {s s' : NodeFs} {c : Conn} {request : CallRequest} {path : Bytes}
    {isAsync started : Bool}
    (h : nodeStep L mpoint s (.issueCall c request path isAsync started) = some s') :
    ∃ name calls, getCallMethodname mpoint path (callBase isAsync) = some name
      ∧ issueCall L mpoint s.calls.nextRequest s.table.tbl (s.calls.request c) request name
        isAsync started = some calls
      ∧ s' = { s with calls := calls } := by
  simp only [nodeStep] at h
  split_ifs at h with hm
  simp only [Option.bind_eq_bind, Option.bind_eq_some_iff] at h
  obtain ⟨name, hname, calls, hcalls, h⟩ := h
  exact ⟨name, calls, hname, hcalls, (Option.some.inj h).symm⟩

end AuraHttpd
