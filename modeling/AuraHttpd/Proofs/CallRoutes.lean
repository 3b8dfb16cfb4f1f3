import AuraHttpd.Proofs.CallDelivery

/-!
# No cross-talk between calls

While fewer than `2^31` calls have been issued, the call numbers and with them the paths are
distinct, and the route of a record that is not deleted leads to it (`Paths`).  What a readout
then answers is what the call's own completion brought (`History`): `pending` before it, the JSON
made of its return buffer afterwards.
-/

namespace AuraHttpd

open CString StepSystem

variable {C : UrpcCodes} {W : AuraWire} {mountpoint : Bytes}

def CallEvent.isCreate : CallEvent → Bool
  | create .. => true
  | _ => false

/-- How many calls were issued. -/
def creations (es : List CallEvent) : ℕ := es.countP CallEvent.isCreate

theorem pendingPath_inj {m : Bytes} {a b : ℤ} (h : pendingPath m a = pendingPath m b) : a = b :=
  fmtD_inj (List.append_cancel_left h)

/-- After at most `n` calls: each record has its own number and path, and the route of a record
that is not deleted leads to it. -/
structure Paths (mountpoint : Bytes) (n : ℕ) (s : Nodefs) : Prop where
  callid : 0 ≤ s.callid ∧ s.callid ≤ n
  record : ∀ r res, s.records r = some res →
    0 ≤ res.callid ∧ res.callid < s.callid ∧ res.path = pendingPath mountpoint res.callid
  inj : ∀ r r' res res', s.records r = some res → s.records r' = some res' →
    res.path = res'.path → r = r'
  routes : ∀ r res, s.records r = some res → r ∉ s.deleted → s.routes.find res.path = some r
  deleted : ∀ r ∈ s.deleted, ∃ res, s.records r = some res

theorem Paths.init : Paths mountpoint 0 {} := by
  constructor <;> simp

theorem Paths.delete {n : ℕ} {s : Nodefs} (h : Paths mountpoint n s) (r : RecId) :
    Paths mountpoint n (ahttpdCallDelete s r) := by
  unfold ahttpdCallDelete
  split
  · exact h
  rename_i res hres
  refine { h with routes := fun r' res' hres' hd => ?_, deleted := fun r' hr' => ?_ }
  · simp only [List.mem_append, List.mem_singleton, not_or] at hd
    rw [RouteTable.find_del, if_neg, h.routes r' res' hres' hd.1]
    intro hp
    exact hd.2 (h.inj r' r res' res hres' hres hp)
  · rcases List.mem_append.1 hr' with hr' | hr'
    · exact h.deleted r' hr'
    · exact ⟨res, List.mem_singleton.1 hr' ▸ hres⟩

theorem Paths.foldl_delete {n : ℕ} : ∀ (l : List RecId) {s : Nodefs}, Paths mountpoint n s →
    Paths mountpoint n (l.foldl ahttpdCallDelete s)
  | [], _, h => h
  | r :: l, _, h => Paths.foldl_delete l (h.delete r)

theorem Paths.enter {n : ℕ} {s : Nodefs} (h : Paths mountpoint n s) (r : RecId) :
    Paths mountpoint n (s.enter r) := by
  unfold Nodefs.enter
  split_ifs
  · exact { h with }
  · exact h

/-- Updates that keep what a record says of its call keep the paths. -/
theorem Paths.setRecord {n : ℕ} {s : Nodefs} (h : Paths mountpoint n s) {r : RecId}
    (res res' : PendingCall) (hres : s.records r = some res) (hid : res'.callid = res.callid)
    (hpath : res'.path = res.path) : Paths mountpoint n (s.setRecord r res') := by
  have hback : ∀ r' x', Function.update s.records r (some res') r' = some x' →
      ∃ x, s.records r' = some x ∧ x'.callid = x.callid ∧ x'.path = x.path := by
    intro r' x' hx'
    rcases update_some_cases hx' with ⟨rfl, rfl⟩ | ⟨-, hx'⟩
    · exact ⟨res, hres, hid, hpath⟩
    · exact ⟨x', hx', rfl, rfl⟩
  refine { h with record := fun r' x' hx' => ?_, inj := fun r₁ r₂ x₁ x₂ h₁ h₂ he => ?_
                  routes := fun r' x' hx' hd => ?_, deleted := fun r' hr' => ?_ }
  · obtain ⟨x, hx, hxid, hxp⟩ := hback r' x' hx'
    rw [hxid, hxp]
    exact h.record r' x hx
  · obtain ⟨y₁, hy₁, -, hp₁⟩ := hback r₁ x₁ h₁
    obtain ⟨y₂, hy₂, -, hp₂⟩ := hback r₂ x₂ h₂
    exact h.inj r₁ r₂ y₁ y₂ hy₁ hy₂ (by rw [← hp₁, ← hp₂, he])
  · obtain ⟨x, hx, -, hxp⟩ := hback r' x' hx'
    rw [hxp]
    exact h.routes r' x hx hd
  · by_cases hr : r' = r
    · exact ⟨res', hr ▸ Function.update_self ..⟩
    · obtain ⟨x, hx⟩ := h.deleted r' hr'
      exact ⟨x, (Function.update_of_ne hr ..).trans hx⟩

theorem wrapS_succ {n : ℕ} {k : ℤ} (h0 : 0 ≤ k) (hk : k ≤ n) (hn : n + 1 < 2 ^ 31) :
    wrapS 32 (k + 1) = k + 1 :=
  wrapS_eq (w := 31) (by omega) (by omega)

theorem Paths.mono {m n : ℕ} {s : Nodefs} (h : Paths mountpoint m s) (hmn : m ≤ n) :
    Paths mountpoint n s :=
  { h with callid := ⟨h.callid.1, h.callid.2.trans (by exact_mod_cast hmn)⟩ }

/-- A call number that is used up, by a call that failed to start or by one with a record. -/
theorem Paths.bump {n : ℕ} {s : Nodefs} (h : Paths mountpoint n s) (hn : n + 1 < 2 ^ 31) :
    Paths mountpoint (n + 1) { s with callid := wrapS 32 (s.callid + 1) } := by
  have hw := wrapS_succ h.callid.1 h.callid.2 hn
  have hc := h.callid
  rw [hw]
  refine { h with callid := ⟨?_, ?_⟩, record := fun r res hres => ?_ }
  · exact hc.1.trans (by simp)
  · simpa using hc.2
  · obtain ⟨h0, hlt, hp⟩ := h.record r res hres
    exact ⟨h0, hlt.trans (by simp), hp⟩

theorem Paths.addCall {n : ℕ} {s : Nodefs} (h : Paths mountpoint n s) (hR : Records s)
    {res : PendingCall} (h0 : 0 ≤ res.callid) (hlt : res.callid < s.callid)
    (hpath : res.path = pendingPath mountpoint res.callid)
    (hnew : ∀ r x, s.records r = some x → x.callid < res.callid) :
    Paths mountpoint n (s.addCall res) := by
  have hfresh : ∀ r x, s.records r = some x → x.path ≠ res.path := fun r x hx he => by
    rw [(h.record r x hx).2.2, hpath] at he
    exact absurd (pendingPath_inj he) (hnew r x hx).ne
  have hnone : s.routes.find res.path = none := by
    rcases hf : s.routes.find res.path with _ | r
    · rfl
    · obtain ⟨x, hx, hp⟩ := hR.routes _ _ hf
      exact absurd hp (hfresh r x hx)
  refine { h with record := fun r x hx => ?_, inj := fun r₁ r₂ x₁ x₂ h₁ h₂ he => ?_
                  routes := fun r x hx hd => ?_, deleted := fun r hr => ?_ }
  · rcases update_some_cases hx with ⟨-, rfl⟩ | ⟨-, hx⟩
    · exact ⟨h0, hlt, hpath⟩
    · exact h.record r x hx
  · rcases update_some_cases h₁ with ⟨hr₁, hx₁⟩ | ⟨-, hx₁⟩ <;>
      rcases update_some_cases h₂ with ⟨hr₂, hx₂⟩ | ⟨-, hx₂⟩
    · rw [hr₁, hr₂]
    · exact absurd (hx₁ ▸ he.symm) (hfresh r₂ x₂ hx₂)
    · exact absurd (hx₂ ▸ he) (hfresh r₁ x₁ hx₁)
    · exact h.inj r₁ r₂ x₁ x₂ hx₁ hx₂ he
  · refine (RouteTable.find_set_of_none _ hnone _).trans ?_
    rcases update_some_cases hx with ⟨rfl, rfl⟩ | ⟨-, hx⟩
    · rw [if_pos rfl]
    · rw [if_neg (hfresh r x hx)]
      exact h.routes r x hx hd
  · obtain ⟨x, hx⟩ := h.deleted r hr
    exact ⟨x, (Function.update_of_ne (hR.lt_next r x hx).ne ..).trans hx⟩

/-- The call just created, whose number has been used up. -/
theorem Paths.create {n : ℕ} {s : Nodefs} (h : Paths mountpoint n s) (hR : Records s)
    (hn : n + 1 < 2 ^ 31) (c : Conn) (o : AuraObject) (isAsync : Bool) :
    Paths mountpoint (n + 1) ({ s.nextRequest with callid := wrapS 32 (s.callid + 1) }.addCall
      (newCall mountpoint s c o isAsync)) := by
  have hw := wrapS_succ h.callid.1 h.callid.2 hn
  have hb : Paths mountpoint (n + 1) { s.nextRequest with callid := wrapS 32 (s.callid + 1) } :=
    { h.bump hn with }
  refine hb.addCall { hR with } h.callid.1 ?_ rfl fun r x hx => (h.record r x hx).2.1
  simp only [newCall, hw]
  omega

theorem Paths.step {n : ℕ} {s s' : Nodefs} {e : CallEvent} (h : Paths mountpoint n s)
    (hR : Records s) (hn : (if e.isCreate then n + 1 else n) < 2 ^ 31)
    (ht : CallTrans C W mountpoint s e s') :
    Paths mountpoint (if e.isCreate then n + 1 else n) s' := by
  cases ht with
  | accept hm => exact { h with }
  | refused hm hc hk =>
    rcases hk with rfl | rfl
    · exact { h.mono (Nat.le_succ n) with }
    · exact { h.bump hn with }
  | createdSync hm hc => exact h.create hR hn _ _ _
  | createdAsync hm hc => exact { h.create hR hn _ _ _ with }
  | @completedAsync r result retbuf res j hm hr hres hj ha =>
    have h1 := Paths.enter (s := { s with inflight := s.inflight.erase r }) { h with } r
    exact h1.setRecord res _ (by simpa using hres) rfl rfl
  | @completedSync r result retbuf res j hm hr hres hj ha hc =>
    have h1 := Paths.enter (s := { s with inflight := s.inflight.erase r }) { h with } r
    exact { h1.setRecord (r := r) res { res with retbuf := some j }
      (by simpa using hres) rfl rfl with }
  | @readResult c path r res j hm hc hr hres hj =>
    have h1 := Paths.enter (s := s.nextRequest) { h with } r
    exact { h1.setRecord (r := r) res { res with resourceStatus := .dead }
      (by simpa [Nodefs.nextRequest] using hres) rfl rfl with }
  | @readStatus c path r res hm hc hr hres hj =>
    exact { Paths.enter (s := s.nextRequest) { h with } r with }
  | terminate hm hc => exact { h with }
  | @closeDelete c r hc hr =>
    exact (Paths.enter (s := { s with conns := s.conns.erase c }) { h with } r).delete r
  | closeQuiet hc hr => exact { h with }
  | unmount hm =>
    exact Paths.foldl_delete _ (Paths.foldl_delete _ (s := { s with mounted := false }) { h with })

theorem creations_concat (es : List CallEvent) (e : CallEvent) :
    creations (es ++ [e]) = if e.isCreate then creations es + 1 else creations es := by
  simp only [creations, List.countP_append, List.countP_singleton]
  split_ifs <;> rfl

theorem paths_of_run {es : List CallEvent} {s : Nodefs}
    (h : run (callStep C W mountpoint) {} es = some s) (hn : creations es < 2 ^ 31) :
    Paths mountpoint (creations es) s := by
  refine run_history (I := fun es s => creations es < 2 ^ 31 → Paths mountpoint (creations es) s)
    (fun _ => .init) (fun es s e s' hs hI _ hs' hn => ?_) es (along_true es _) h hn
  rw [creations_concat] at hn ⊢
  exact (hI (by split_ifs at hn <;> omega)).step (records_of_run hs) hn (callTrans_of_step hs')

/-- Where a record comes from: it was there and the event is not its completion, it is completed
now, or it is the one of a call that is started now. -/
theorem callTrans_record {s s' : Nodefs} {e : CallEvent} (ht : CallTrans C W mountpoint s e s')
    {r : RecId} {res' : PendingCall} (hres' : s'.records r = some res') :
    (∃ res, s.records r = some res ∧ SameCall res res' ∧ res'.retbuf = res.retbuf
        ∧ ∀ result buf, e ≠ .complete r result buf)
      ∨ (∃ res result buf, s.records r = some res ∧ SameCall res res'
        ∧ e = .complete r result buf
        ∧ ∃ j, callResultToJson C W result res.o buf = some j ∧ res'.retbuf = some j)
      ∨ ∃ c args, r = s.next ∧ e = .create c res'.o args res'.isAsync true
        ∧ res' = newCall mountpoint s c res'.o res'.isAsync
        ∧ (res'.isAsync = true → (res'.request, Answer.accepted res'.path) ∈ s'.sent) := by
  cases ht with
  | createdSync hm hc =>
    rcases update_some_cases hres' with ⟨rfl, rfl⟩ | ⟨-, hres⟩
    · exact .inr (.inr ⟨_, _, rfl, rfl, rfl, by simp [newCall]⟩)
    · exact .inl ⟨res', hres, .refl _, rfl, by simp⟩
  | createdAsync hm hc =>
    rcases update_some_cases hres' with ⟨rfl, rfl⟩ | ⟨-, hres⟩
    · exact .inr (.inr ⟨_, _, rfl, rfl, rfl, by simp [newCall, Nodefs.send]⟩)
    · exact .inl ⟨res', hres, .refl _, rfl, by simp⟩
  | @completedAsync r' result retbuf res j hm hr hres hj ha =>
    rcases update_some_cases hres' with ⟨rfl, rfl⟩ | ⟨hne, hold⟩
    · exact .inr (.inl ⟨res, _, _, hres, ⟨rfl, rfl, rfl, rfl, rfl⟩, rfl, j, hj, rfl⟩)
    · exact .inl ⟨res', by simpa using hold, .refl _, rfl, by simp [Ne.symm hne]⟩
  | @completedSync r' result retbuf res j hm hr hres hj ha hc =>
    rcases update_some_cases hres' with ⟨rfl, rfl⟩ | ⟨hne, hold⟩
    · exact .inr (.inl ⟨res, _, _, hres, ⟨rfl, rfl, rfl, rfl, rfl⟩, rfl, j, hj, rfl⟩)
    · exact .inl ⟨res', by simpa using hold, .refl _, rfl, by simp [Ne.symm hne]⟩
  | @readResult c path r' res j hm hc hr hres hj =>
    rcases update_some_cases hres' with ⟨rfl, rfl⟩ | ⟨hne, hold⟩
    · exact .inl ⟨res, hres, ⟨rfl, rfl, rfl, rfl, rfl⟩, rfl, by simp⟩
    · refine .inl ⟨res', ?_, .refl _, rfl, by simp⟩
      simpa [Nodefs.send, Nodefs.moveToGc, Nodefs.nextRequest] using hold
  | readStatus hm hc hr hres hj =>
    refine .inl ⟨res', ?_, .refl _, rfl, by simp⟩
    simpa [Nodefs.send, Nodefs.nextRequest] using hres'
  | closeDelete hc hr =>
    rw [(freed_sent (freed_connCloseCb _ _)).2] at hres'
    exact .inl ⟨res', hres', .refl _, rfl, by simp⟩
  | unmount hm =>
    rw [(freed_sent (freed_cleanup _)).2] at hres'
    exact .inl ⟨res', hres', .refl _, rfl, by simp⟩
  | _ => exact .inl ⟨res', hres', .refl _, rfl, by simp⟩

variable (C W mountpoint)

/-- Record `r` is that of the call a `create` among the events `es` started. -/
def IssuedBy (es : List CallEvent) (r : RecId) (res : PendingCall) : Prop :=
  ∃ es₁ s₁ c args, es₁ ++ [.create c res.o args res.isAsync true] <+: es
    ∧ run (callStep C W mountpoint) {} es₁ = some s₁
    ∧ r = s₁.next ∧ res.request = s₁.request c

/-- Among the events is the completion of `r`, and `j` is made of the buffer it brought: it says
`completed` and has, if there is a buffer, the values in it of the call's own format. -/
def CompletedWith (es : List CallEvent) (r : RecId) (res : PendingCall) (j : Json) : Prop :=
  ∃ result retbuf, .complete r result retbuf ∈ es ∧ match retbuf with
    | none => j = .object [(lit "status", .string (lit "completed"))]
    | some buf => ∃ data left, ahttpdBufferToJson C W buf res.o.retFmt = some (data, left)
        ∧ j = .object [(lit "status", .string (lit "completed")), (lit "data", data)]

/-- What a record says was brought by the events of its own call. -/
structure Traced (es : List CallEvent) (s : Nodefs) : Prop where
  issued : ∀ r res, s.records r = some res → IssuedBy C W mountpoint es r res
  location : ∀ r res, s.records r = some res → res.isAsync = true →
    (res.request, Answer.accepted res.path) ∈ s.sent
  pending : ∀ r res, s.records r = some res → res.retbuf = none →
    ∀ result buf, CallEvent.complete r result buf ∉ es
  completed : ∀ r res j, s.records r = some res → res.retbuf = some j →
    CompletedWith C W es r res j
  recorded : ∀ r result buf, CallEvent.complete r result buf ∈ es → ∃ res, s.records r = some res

variable {C W mountpoint}

theorem completedWith_of_result {es : List CallEvent} {r : RecId} {res : PendingCall} {j : Json}
    {result : ℤ} {retbuf : Option AuraBuffer} (hm : .complete r result retbuf ∈ es)
    (hj : callResultToJson C W result res.o retbuf = some j) : CompletedWith C W es r res j := by
  refine ⟨result, retbuf, hm, ?_⟩
  rcases retbuf with _ | buf
  · exact (Option.some.inj hj).symm
  · obtain ⟨⟨data, left⟩, hdata, hj⟩ := Option.map_eq_some_iff.1 hj
    exact ⟨data, left, hdata, hj.symm⟩

theorem IssuedBy.concat {es : List CallEvent} {r : RecId} {res res' : PendingCall}
    (h : IssuedBy C W mountpoint es r res) (hsame : SameCall res res') (e : CallEvent) :
    IssuedBy C W mountpoint (es ++ [e]) r res' := by
  obtain ⟨es₁, s₁, c, args, hpre, hrun, hr, hq⟩ := h
  obtain ⟨-, ho, -, ha, hreq⟩ := hsame
  refine ⟨es₁, s₁, c, args, ?_, hrun, hr, hreq.trans hq⟩
  rw [ho, ha]
  exact hpre.trans (List.prefix_append _ _)

theorem CompletedWith.concat {es : List CallEvent} {r : RecId} {res res' : PendingCall} {j : Json}
    (h : CompletedWith C W es r res j) (hsame : SameCall res res') (e : CallEvent) :
    CompletedWith C W (es ++ [e]) r res' j := by
  obtain ⟨result, retbuf, hm, hj⟩ := h
  exact ⟨result, retbuf, List.mem_append_left _ hm, hsame.2.1 ▸ hj⟩

theorem callTrans_complete {s s' : Nodefs} {r : RecId} {result : ℤ} {buf : Option AuraBuffer}
    (ht : CallTrans C W mountpoint s (.complete r result buf) s') :
    ∃ res, s.records r = some res := by
  cases ht with
  | completedAsync hm hr hres hj ha => exact ⟨_, hres⟩
  | completedSync hm hr hres hj ha hc => exact ⟨_, hres⟩

theorem Traced.step {es : List CallEvent} {s s' : Nodefs} {e : CallEvent}
    (h : Traced C W mountpoint es s) (hR : Records s)
    (hrun : run (callStep C W mountpoint) {} es = some s)
    (ht : CallTrans C W mountpoint s e s') : Traced C W mountpoint (es ++ [e]) s' := by
  have hnew : ∀ result buf, CallEvent.complete s.next result buf ∉ es := fun result buf hm => by
    obtain ⟨x, hx⟩ := h.recorded _ _ _ hm
    exact absurd (hR.lt_next _ _ hx) (Nat.lt_irrefl _)
  constructor
  · intro r res hres
    rcases callTrans_record ht hres with ⟨x, hx, hsame, -⟩ | ⟨x, _, _, hx, hsame, -⟩ |
        ⟨c, args, rfl, rfl, hn, -⟩
    · exact (h.issued r x hx).concat hsame e
    · exact (h.issued r x hx).concat hsame e
    · exact ⟨es, s, c, args, List.prefix_refl _, hrun, rfl, by rw [hn]; rfl⟩
  · intro r res hres ha
    obtain ⟨l, hl⟩ := callTrans_sent_append ht
    rcases callTrans_record ht hres with ⟨x, hx, hsame, -⟩ | ⟨x, _, _, hx, hsame, -⟩ |
        ⟨_, _, -, -, -, hloc⟩
    · rw [hl, hsame.2.2.1, hsame.2.2.2.2]
      exact List.mem_append_left _ (h.location r x hx (hsame.2.2.2.1 ▸ ha))
    · rw [hl, hsame.2.2.1, hsame.2.2.2.2]
      exact List.mem_append_left _ (h.location r x hx (hsame.2.2.2.1 ▸ ha))
    · exact hloc ha
  · intro r res hres hret result buf hm
    rcases callTrans_record ht hres with ⟨x, hx, -, hold, hne⟩ | ⟨x, _, _, hx, -, -, j, -, hj⟩ |
        ⟨c, args, rfl, rfl, -⟩
    · rcases List.mem_append.1 hm with hm | hm
      · exact h.pending r x hx (hold ▸ hret) result buf hm
      · exact hne result buf (List.mem_singleton.1 hm).symm
    · rw [hret] at hj
      cases hj
    · rcases List.mem_append.1 hm with hm | hm
      · exact hnew result buf hm
      · simp at hm
  · intro r res j hres hret
    rcases callTrans_record ht hres with ⟨x, hx, hsame, hold, -⟩ |
        ⟨x, result, buf, hx, hsame, rfl, j', hj', hret'⟩ | ⟨c, args, rfl, rfl, hn, -⟩
    · exact (h.completed r x j hx (hold ▸ hret)).concat hsame e
    · obtain rfl : j' = j := by simpa [hret] using hret'.symm
      exact completedWith_of_result (by simp) (hsame.2.1 ▸ hj')
    · rw [hn] at hret
      cases hret
  · intro r result buf hm
    have hold : ∃ x, s.records r = some x := by
      rcases List.mem_append.1 hm with hm | hm
      · exact h.recorded r result buf hm
      · obtain rfl := List.mem_singleton.1 hm
        exact callTrans_complete ht
    obtain ⟨x, hx⟩ := hold
    obtain ⟨x', hx', -⟩ := callTrans_records hR ht hx
    exact ⟨x', hx'⟩

theorem traced_of_run {es : List CallEvent} {s : Nodefs}
    (h : run (callStep C W mountpoint) {} es = some s) : Traced C W mountpoint es s := by
  refine run_history (I := Traced C W mountpoint) ?_ (fun es s e s' hs hI _ hs' => ?_) es
    (along_true es _) h
  · constructor <;> simp
  · exact hI.step (records_of_run hs) hs (callTrans_of_step hs')

theorem callStep_readout (mountpoint : Bytes) {s : Nodefs} {c : Conn} {path : Bytes} {r : RecId}
    {res : PendingCall}
    (hm : s.mounted = true) (hc : c ∈ s.conns) (hroute : s.routes.find path = some r)
    (hres : s.records r = some res) :
    ∃ s' a, callStep C W mountpoint s (.readout c path) = some s'
      ∧ s'.sent = s.sent ++ [(s.request c, a)]
      ∧ (res.retbuf = none ∧ a = .status r res.resourceStatus
        ∨ ∃ j, res.retbuf = some j ∧ a = .result r j) := by
  have hstep : callStep C W mountpoint s (.readout c path)
      = resourceReadout s.nextRequest (s.request c) r := by
    simp [callStep, hm, hc, hroute]
  rw [hstep]
  simp only [resourceReadout, Nodefs.nextRequest, hres, Option.bind_eq_bind, Option.bind_some]
  rcases hret : res.retbuf with _ | j
  · exact ⟨_, _, rfl, by simp [Nodefs.send], .inl ⟨rfl, rfl⟩⟩
  · refine ⟨_, .result r j, rfl, ?_, .inr ⟨j, rfl, rfl⟩⟩
    simp [Nodefs.send, Nodefs.setClosecb, Nodefs.setRecord, Nodefs.moveToGc]

/-- The record of a call, from its creation until it is deleted. -/
def Live (s : Nodefs) (r : RecId) (res : PendingCall) : Prop :=
  s.records r = some res ∧ r ∉ s.deleted

/-- In every run with fewer than `2^31` calls the records that are not deleted have distinct
paths, each is that of a call issued in the run whose issuer was handed its path if the call is
async, and a request for the path is answered with `pending`, while the call has not completed,
or with the JSON made of what its own completion brought. -/
theorem no_cross_talk (C : UrpcCodes) (W : AuraWire) (mountpoint : Bytes) (es : List CallEvent)
    (s : Nodefs) (h : run (callStep C W mountpoint) {} es = some s)
    (hn : creations es < 2 ^ 31) :
    (∀ r r' res res', Live s r res → Live s r' res' → res.path = res'.path → r = r')
      ∧ ∀ r res, Live s r res →
        IssuedBy C W mountpoint es r res
        ∧ (res.isAsync = true → (res.request, Answer.accepted res.path) ∈ s.sent)
        ∧ (s.mounted = true → ∀ c ∈ s.conns, ∃ s' a,
          callStep C W mountpoint s (.readout c res.path) = some s'
          ∧ s'.sent = s.sent ++ [(s.request c, a)]
          ∧ ((a = .status r .pending ∧ ∀ result buf, CallEvent.complete r result buf ∉ es)
            ∨ ∃ j, a = .result r j ∧ CompletedWith C W es r res j)) := by
  have hP := paths_of_run h hn
  have hT := traced_of_run h
  have hR := records_of_run h
  refine ⟨fun r r' res res' hr hr' he => hP.inj r r' res res' hr.1 hr'.1 he,
    fun r res hlive => ⟨hT.issued r res hlive.1, hT.location r res hlive.1, fun hm c hc => ?_⟩⟩
  obtain ⟨s', a, hs', hsent, ha⟩ := callStep_readout (C := C) (W := W) mountpoint
    hm hc (hP.routes r res hlive.1 hlive.2) hlive.1
  refine ⟨s', a, hs', hsent, ?_⟩
  rcases ha with ⟨hret, rfl⟩ | ⟨j, hret, rfl⟩
  · rw [hR.status r res hlive.1 hret]
    exact .inl ⟨rfl, hT.pending r res hlive.1 hret⟩
  · exact .inr ⟨j, rfl, hT.completed r res j hlive.1 hret⟩

theorem callStep_complete (mountpoint : Bytes) {s : Nodefs} {r : RecId} {result : ℤ}
    {retbuf : Option AuraBuffer} {res : PendingCall} {j : Json} (hm : s.mounted = true)
    (hr : r ∈ s.inflight) (hres : s.records r = some res) (ha : res.isAsync = true)
    (hj : callResultToJson C W result res.o retbuf = some j) :
    ∃ s', callStep C W mountpoint s (.complete r result retbuf) = some s'
      ∧ s'.records = Function.update s.records r (some { res with retbuf := some j })
      ∧ s'.deleted = s.deleted ∧ s'.mounted = true ∧ s'.conns = s.conns
      ∧ s'.inflight = s.inflight.erase r := by
  refine ⟨({ s with inflight := s.inflight.erase r }.enter r).setRecord r
    { res with retbuf := some j }, ?_, ?_⟩
  · simp [callStep, hm, hr, callCompletedCb, hres, hj, ha]
  · unfold Nodefs.enter
    split_ifs <;> exact ⟨rfl, rfl, hm, rfl, rfl⟩

/-- Two methods, one of which returns a byte and the other a signed byte. -/
def byteObject : AuraObject := ⟨0, lit "get", none, some (lit "1"), 0⟩

def signedObject : AuraObject := ⟨1, lit "temp", none, some (lit "7"), 0⟩

/-- Two async calls on two connections, completed in the other order. -/
def crossedCalls : List CallEvent :=
  [.accept, .accept, .create 0 byteObject (.array []) true true,
    .create 1 signedObject (.array []) true true, .complete 1 0 (some { data := [254] }),
    .complete 0 0 (some { data := [7] })]

/-- What a client is sent of a call that returned one integer. -/
def completedJson (v : Int64) : Json :=
  .object [(lit "status", .string (lit "completed")), (lit "data", .array [.int v])]

/-- What a read of one of the two calls is answered by. -/
theorem crossedCalls_answer {r : RecId} {res : PendingCall} {buf left : AuraBuffer} {v : Int64}
    {a : Answer} (hm : ∀ result retbuf, CallEvent.complete r result retbuf ∈ crossedCalls
      ↔ result = 0 ∧ retbuf = some buf)
    (hv : ahttpdBufferToJson .digits .littleEndian buf res.o.retFmt
      = some (.array [.int v], left))
    (ha : (a = .status r .pending ∧ ∀ result buf, CallEvent.complete r result buf ∉ crossedCalls)
      ∨ ∃ j, a = .result r j ∧ CompletedWith .digits .littleEndian crossedCalls r res j) :
    a = .result r (completedJson v) := by
  rcases ha with ⟨-, hnone⟩ | ⟨j, rfl, result, retbuf, hmem, hj⟩
  · exact absurd ((hm 0 (some buf)).2 ⟨rfl, rfl⟩) (hnone 0 (some buf))
  · obtain ⟨rfl, rfl⟩ := (hm result retbuf).1 hmem
    obtain ⟨data, left', hdata, rfl⟩ := hj
    obtain ⟨rfl, -⟩ := Prod.mk.inj (Option.some.inj (hv.symm.trans hdata))
    rfl

/-- Each of the two paths leads to what its own call returned. -/
theorem no_cross_talk_crossedCalls :
    ∃ s s₀ s₁, run (callStep .digits .littleEndian (lit "/online")) {} crossedCalls = some s
      ∧ callStep .digits .littleEndian (lit "/online") s (.readout 1 (lit "/online/pending/0"))
        = some s₀
      ∧ s₀.sent = s.sent ++ [(s.request 1, .result 0 (completedJson 7))]
      ∧ callStep .digits .littleEndian (lit "/online") s (.readout 0 (lit "/online/pending/1"))
        = some s₁
      ∧ s₁.sent = s.sent ++ [(s.request 0, .result 1 (completedJson (-2)))] := by
  obtain ⟨s, hs, res₀, res₁, h₀, h₁, hp₀, hp₁, ho₀, ho₁, ha₀, ha₁, hd, hm, hc, hf⟩ :
      ∃ s, run (callStep .digits .littleEndian (lit "/online")) {} (crossedCalls.take 4) = some s
        ∧ ∃ res₀ res₁, s.records 0 = some res₀ ∧ s.records 1 = some res₁
          ∧ res₀.path = lit "/online/pending/0" ∧ res₁.path = lit "/online/pending/1"
          ∧ res₀.o = byteObject ∧ res₁.o = signedObject ∧ res₀.isAsync = true
          ∧ res₁.isAsync = true ∧ s.deleted = [] ∧ s.mounted = true ∧ s.conns = [0, 1]
          ∧ s.inflight = [0, 1] := by
    refine ⟨_, rfl, _, _, rfl, rfl, ?_⟩
    decide
  have hread₀ : ahttpdBufferToJson .digits .littleEndian { data := [7] } res₀.o.retFmt
      = some (.array [.int 7], { data := [7], pos := 1 }) := by
    rw [ho₀]
    exact congrArg (Option.map _)
      (toJsonLoop_ints (C := .digits) (W := .littleEndian) [.u8] { data := [7] } (by decide))
  have hread₁ : ahttpdBufferToJson .digits .littleEndian { data := [254] } res₁.o.retFmt
      = some (.array [.int (-2)], { data := [254], pos := 1 }) := by
    rw [ho₁]
    exact congrArg (Option.map _)
      (toJsonLoop_ints (C := .digits) (W := .littleEndian) [.s8] { data := [254] } (by decide))
  have hj₀ : callResultToJson .digits .littleEndian 0 res₀.o (some { data := [7] })
      = some (completedJson 7) := congrArg (Option.map _) hread₀
  have hj₁ : callResultToJson .digits .littleEndian 0 res₁.o (some { data := [254] })
      = some (completedJson (-2)) := congrArg (Option.map _) hread₁
  obtain ⟨t, ht, hrec, hdel, hmt, hct, hft⟩ := callStep_complete (lit "/online") hm (by simp [hf])
    h₁ ha₁ hj₁
  have h₀' : t.records 0 = some res₀ := by simpa [hrec] using h₀
  obtain ⟨t', ht', hrec', hdel', hmt', hct', -⟩ := callStep_complete (lit "/online") hmt
    (by simp [hft, hf]) h₀' ha₀ hj₀
  have hrun : run (callStep .digits .littleEndian (lit "/online")) {} crossedCalls = some t' := by
    refine (run_append (crossedCalls.take 4) (crossedCalls.drop 4) _).trans ?_
    rw [hs, Option.bind_some]
    change (callStep _ _ _ s _).bind (fun s => (callStep _ _ _ s _).bind some) = some t'
    rw [ht, Option.bind_some, ht', Option.bind_some]
  have hcalls := (no_cross_talk .digits .littleEndian (lit "/online") crossedCalls t' hrun
    (by decide)).2
  obtain ⟨s₀, a₀, hs₀, hsent₀, hans₀⟩ := (hcalls 0 { res₀ with retbuf := some (completedJson 7) }
    ⟨by simp [hrec'], by simp [hdel', hdel, hd]⟩).2.2 hmt' 1 (by simp [hct', hct, hc])
  obtain ⟨s₁, a₁, hs₁, hsent₁, hans₁⟩ := (hcalls 1 { res₁ with retbuf := some (completedJson (-2)) }
    ⟨by simp [hrec', hrec], by simp [hdel', hdel, hd]⟩).2.2 hmt' 0 (by simp [hct', hct, hc])
  obtain rfl := crossedCalls_answer (by simp [crossedCalls]) hread₀ hans₀
  obtain rfl := crossedCalls_answer (by simp [crossedCalls]) hread₁ hans₁
  simp only [hp₀, hp₁] at hs₀ hs₁
  exact ⟨t', s₀, s₁, hrun, hs₀, hsent₀, hs₁, hsent₁⟩

end AuraHttpd
