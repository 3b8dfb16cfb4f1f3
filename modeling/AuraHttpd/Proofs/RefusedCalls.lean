import AuraHttpd.CallLedger
import AuraHttpd.Proofs.NodeTable

/-!
# What a refused call leaves behind

A request without arguments is refused before anything is allocated.  Where the method is unknown
the arguments stay allocated, where they are rejected the buffer does (`refused_held`).
-/

namespace AuraHttpd

open CString

variable {L : NodeLibs} {mpoint : Mpoint} {s : Nodefs} {held : Held} {tbl : Option ExportTable}
  {q : Request} {request : CallRequest} {name : Bytes} {isAsync started : Bool}

/-- The counts are put beside `ahttpd_call_create`. -/
theorem ahttpdCallCreateHeld_fst (C : UrpcCodes) (W : AuraWire) (mountpoint : Bytes) (s : Nodefs)
    (held : Held) (q : Request) (o : AuraObject) (args : Json) (isAsync started : Bool) :
    (ahttpdCallCreateHeld C W mountpoint s held q o args isAsync started).map Prod.fst
      = ahttpdCallCreate C W mountpoint s q o args isAsync started := by
  simp only [ahttpdCallCreateHeld, ahttpdCallCreate, Option.bind_eq_bind]
  rcases ahttpdBufferFromJson C W { data := List.replicate o.arglen 0 } args o.argFmt
    with _ | ⟨ret, buf⟩
  · rfl
  · simp only [Option.bind_some]
    split_ifs <;> rfl

/-- The counts are put beside `issue_call`. -/
theorem issueCallHeld_fst (L : NodeLibs) (mpoint : Mpoint) (s : Nodefs) (held : Held)
    (tbl : Option ExportTable) (q : Request) (request : CallRequest) (name : Bytes)
    (isAsync started : Bool) :
    (issueCallHeld L mpoint s held tbl q request name isAsync started).map Prod.fst
      = issueCall L mpoint s tbl q request name isAsync started := by
  unfold issueCallHeld issueCall
  split_ifs
  · rfl
  rcases extractJsonFromRequest L request with _ | args
  · rfl
  rcases tbl with _ | tbl
  · rfl
  simp only [Option.bind_eq_bind, Option.bind_some]
  rcases tbl.find name with _ | o
  · rfl
  · dsimp only
    rw [← ahttpdCallCreateHeld_fst L.codes L.wire mpoint.mountpoint s
      { held with jsonObjects := held.jsonObjects + 1 }]
    rcases ahttpdCallCreateHeld L.codes L.wire mpoint.mountpoint s
      { held with jsonObjects := held.jsonObjects + 1 } q o args isAsync started with _ | r <;> rfl

variable (L tbl request name) in
/-- The requests `issue_call` refuses: without arguments, for a method that is not in the table, or
with arguments that do not fit it. -/
inductive Refusal : Prop where
  | noJson (hargs : extractJsonFromRequest L request = none)
  | unknownMethod {args : Json} {t : ExportTable}
      (hargs : extractJsonFromRequest L request = some args) (ht : tbl = some t)
      (hname : t.find name = none)
  | rejected {args : Json} {t : ExportTable} {o : AuraObject} {ret : ℤ} {buf : AuraBuffer}
      (hargs : extractJsonFromRequest L request = some args) (ht : tbl = some t)
      (hname : t.find name = some o)
      (hret : ahttpdBufferFromJson L.codes L.wire { data := List.replicate o.arglen 0 } args
        o.argFmt = some (ret, buf)) (hne : ret ≠ 0)

/-- The lists, the routes, the number of the next call and all that is allocated are as before. -/
structure LeavesNothing (s : Nodefs) (held : Held) (s' : Nodefs) (held' : Held) : Prop where
  pendingCallList : s'.pendingCallList = s.pendingCallList
  gcCallList : s'.gcCallList = s.gcCallList
  routes : s'.routes = s.routes
  callid : s'.callid = s.callid
  held : held' = held

theorem leavesNothing_send (a : Answer) {held' : Held} :
    LeavesNothing s held (s.send q a) held' ↔ held' = held :=
  ⟨fun h => h.held, fun h => ⟨rfl, rfl, rfl, rfl, h⟩⟩

/-- A refused request is answered with an error, and leaves the arguments where the method is
unknown, and a buffer where they are rejected. -/
theorem refused_held (mpoint : Mpoint) (s : Nodefs) (held : Held) (q : Request)
    (isAsync started : Bool) (hcmd : request.command = .get ∨ request.command = .put)
    (h : Refusal L tbl request name) :
    ∃ reason held', issueCallHeld L mpoint s held tbl q request name isAsync started
        = some (s.send q (.error 400 reason), held')
      ∧ (held' = held ↔ extractJsonFromRequest L request = none) := by
  have hallowed : ¬ (request.command ≠ .get ∧ request.command ≠ .put) := by
    rintro ⟨hget, hput⟩
    exact hcmd.elim hget hput
  unfold issueCallHeld
  rw [if_neg hallowed]
  cases h with
  | noJson hargs =>
    rw [hargs]
    exact ⟨_, held, rfl, iff_of_true rfl rfl⟩
  | unknownMethod hargs ht hname =>
    subst ht
    simp only [hargs, Option.bind_eq_bind, Option.bind_some, hname]
    refine ⟨_, _, rfl, iff_of_false (fun heq => ?_) (by simp)⟩
    have := congrArg Held.jsonObjects heq
    simp at this
  | rejected hargs ht hname hret hne =>
    subst ht
    simp only [hargs, Option.bind_eq_bind, Option.bind_some, hname, ahttpdCallCreateHeld, hret,
      ne_eq, hne, not_false_eq_true, if_true]
    refine ⟨_, _, rfl, iff_of_false (fun heq => ?_) (by simp)⟩
    have := congrArg Held.auraBuffers heq
    simp at this

/-- For every request that is refused: the node and all that is allocated are as before, exactly
where it is refused for want of arguments. -/
theorem refused_leaves_nothing_iff (L : NodeLibs) (mpoint : Mpoint) (s : Nodefs) (held : Held)
    (tbl : Option ExportTable) (q : Request) (request : CallRequest) (name : Bytes)
    (isAsync started : Bool) (hcmd : request.command = .get ∨ request.command = .put)
    (h : Refusal L tbl request name) :
    ∃ s' held', issueCallHeld L mpoint s held tbl q request name isAsync started = some (s', held')
      ∧ (LeavesNothing s held s' held' ↔ extractJsonFromRequest L request = none) := by
  obtain ⟨reason, held', hstep, hiff⟩ := refused_held mpoint s held q isAsync started hcmd h
  exact ⟨_, held', hstep, (leavesNothing_send _).trans hiff⟩

/-- A request without a query. -/
theorem refused_leaves_nothing_noQuery : ∃ s' held',
    issueCallHeld .plain ⟨0, lit "/n"⟩ {} {} (some pingTable) ⟨0, 0⟩ { command := .get }
        (lit "ping") true true = some (s', held')
      ∧ LeavesNothing {} {} s' held' := by
  obtain ⟨s', held', hstep, hiff⟩ := refused_leaves_nothing_iff .plain ⟨0, lit "/n"⟩ {} {}
    (some pingTable) ⟨0, 0⟩ { command := .get } (lit "ping") true true (.inl rfl) (.noJson rfl)
  exact ⟨s', held', hstep, hiff.2 rfl⟩

/-- The arguments of a request for an unknown method are not released. -/
theorem unknown_method_leaves_args : ¬ ∀ (L : NodeLibs) (mpoint : Mpoint) (s : Nodefs)
    (held : Held) (tbl : Option ExportTable) (q : Request) (request : CallRequest) (name : Bytes)
    (isAsync started : Bool) (s' : Nodefs) (held' : Held),
    request.command = .get ∨ request.command = .put → Refusal L tbl request name →
    issueCallHeld L mpoint s held tbl q request name isAsync started = some (s', held') →
    LeavesNothing s held s' held' := by
  intro h
  have hleft := h .plain ⟨0, lit "/n"⟩ {} {} (some pingTable) ⟨0, 0⟩
    { command := .put, body := lit "[]" } (lit "g") true true _ _ (.inr rfl)
    (.unknownMethod rfl rfl rfl) rfl
  have := congrArg Held.jsonObjects hleft.held
  simp at this

end AuraHttpd
