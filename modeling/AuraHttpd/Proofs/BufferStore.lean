import AuraHttpd.Proofs.BufferSteps

/-!
# What a request does to the store of buffers

A record that is being filled is not yet in the store: no route leads to it, and dropping it only
frees it.  So a callback leaves the store as it was (`SameStore`), with or without an identifier
spent, or puts the filled record at its end (`StoreTrans`), and only a request for one of a
record's own paths can change it otherwise.  All of this holds in every state of every run
(`StoreWf`), also past the use of a freed record and past the last identifier.
-/

namespace AuraHttpd

open CString Script StepSystem

/-- What the paths of the mountpoint should lead to. -/
inductive LeadsTo (mountpoint : Bytes) (buffers : List RecordId)
    (records : RecordId → Option AvailableBuffer) : Bytes → BufferRoute → Prop where
  | list : LeadsTo mountpoint buffers records (mountpoint ++ lit "/") .list
  | post : LeadsTo mountpoint buffers records (mountpoint ++ lit "/post") .post
  | download {r : RecordId} {b : AvailableBuffer} (hr : r ∈ buffers) (hb : records r = some b) :
    LeadsTo mountpoint buffers records (downloadPath mountpoint b.id) (.download r)
  | drop {r : RecordId} {b : AvailableBuffer} (hr : r ∈ buffers) (hb : records r = some b) :
    LeadsTo mountpoint buffers records (dropPath mountpoint b.id) (.drop r)

/-- The record being filled is known to nothing but `current_buf`. -/
def Loose (d : BufmodData) : Prop :=
  ∀ r, d.currentBuf = some r → r ∉ d.buffers
    ∧ ∃ b, d.records r = some b ∧ b.registered = false ∧ b.linked = false

/-- Stored records are registered and linked, the one being filled is neither, and routes lead to
stored records by their identifiers. -/
structure StoreWf (mountpoint : Bytes) (d : BufmodData) : Prop where
  lt_next : ∀ r b, d.records r = some b → r < d.next
  nodup : d.buffers.Nodup
  stored : ∀ r ∈ d.buffers, ∃ b, d.records r = some b ∧ b.registered = true ∧ b.linked = true
  loose : Loose d
  routes : ∀ p h, d.routes.find p = some h → LeadsTo mountpoint d.buffers d.records p h

/-- The record being filled has the object its info is gathered in. -/
def HasInfo (d : BufmodData) : Prop :=
  ∀ r b, d.currentBuf = some r → d.records r = some b → ∃ fs, b.info = some (.object fs)

/-- The store is left as it was. -/
structure SameStore (d d' : BufmodData) : Prop where
  maxSize : d'.maxSize = d.maxSize
  currentSize : d'.currentSize = d.currentSize
  buffers : d'.buffers = d.buffers
  routes : d'.routes = d.routes
  assigned : d'.assigned = d.assigned
  records : ∀ r ∈ d.buffers, d'.records r = d.records r

/-- A record as it is in the store. -/
def entered (b : AvailableBuffer) (aura : AuraBuffer) (id : ℤ) : AvailableBuffer where
  buf := some aura
  info := b.info.map (·.objectAdd (lit "id") (.int (Int64.ofInt id)))
  registered := true
  linked := true
  id := id

/-- The record `r` is put into the store. -/
structure PutInto (mountpoint : Bytes) (d : BufmodData) (r : RecordId) (b : AvailableBuffer)
    (aura : AuraBuffer) (part : Part) (d' : BufmodData) : Prop where
  maxSize : d'.maxSize = d.maxSize
  currentSize : d'.currentSize = sizeWith d part.length
  buffers : d'.buffers = d.buffers ++ [r]
  routes : d'.routes = (d.routes.set (downloadPath mountpoint d.currentId) (.download r)).set
    (dropPath mountpoint d.currentId) (.drop r)
  assigned : d'.assigned = d.assigned ++ [(d.currentId, part)]
  records : d'.records = Function.update d.records r (some (entered b aura d.currentId))
  currentId : d'.currentId = wrapS 64 (d.currentId + 1)
  parts : d'.parts = d.parts + 1
  next : d'.next = d.next
  currentBuf : d'.currentBuf = none

/-- What a callback does to the store. -/
inductive StoreTrans (mountpoint : Bytes) (T : AuraTransport) (d : BufmodData) (c : Call)
    (d' : BufmodData) : Prop where
  | same (hs : SameStore d d') (hid : d'.currentId = d.currentId) (hp : d.parts ≤ d'.parts)
  | spent (hs : SameStore d d') (hid : d'.currentId = wrapS 64 (d.currentId + 1))
      (hp : d'.parts = d.parts + 1)
  | put {vec : List Bytes} {n : ℤ} {r : RecordId} {b : AvailableBuffer} {aura : AuraBuffer}
      (hc : c = .data vec n) (hsize : sizeWith d n ≤ d.maxSize) (hr : d.currentBuf = some r)
      (hb : d.records r = some b) (hfs : ∃ fs, b.info = some (.object fs))
      (ha : T.fromEviovec vec n = .ok aura) (hput : PutInto mountpoint d r b aura ⟨vec, n⟩ d')

variable {mountpoint : Bytes} {T : AuraTransport} {d d' : BufmodData}

theorem SameStore.refl (d : BufmodData) : SameStore d d := ⟨rfl, rfl, rfl, rfl, rfl, fun _ _ => rfl⟩

theorem SameStore.trans {d₁ : BufmodData} (h : SameStore d d₁) (h' : SameStore d₁ d') :
    SameStore d d' :=
  ⟨h'.maxSize.trans h.maxSize, h'.currentSize.trans h.currentSize, h'.buffers.trans h.buffers,
    h'.routes.trans h.routes, h'.assigned.trans h.assigned, fun r hr =>
      (h'.records r (by rwa [h.buffers])).trans (h.records r hr)⟩

/-- Routes are right for a store with more in it, under the same identifiers. -/
theorem LeadsTo.mono {buffers buffers' : List RecordId}
    {records records' : RecordId → Option AvailableBuffer} {p : Bytes} {h : BufferRoute}
    (hl : LeadsTo mountpoint buffers records p h)
    (hrec : ∀ r ∈ buffers, ∀ b, records r = some b →
      r ∈ buffers' ∧ ∃ b', records' r = some b' ∧ b'.id = b.id) :
    LeadsTo mountpoint buffers' records' p h := by
  cases hl with
  | list => exact .list
  | post => exact .post
  | download hr hb =>
    obtain ⟨hr', b', hb', hid⟩ := hrec _ hr _ hb
    exact hid ▸ .download hr' hb'
  | drop hr hb =>
    obtain ⟨hr', b', hb', hid⟩ := hrec _ hr _ hb
    exact hid ▸ .drop hr' hb'

theorem StoreWf.of_same (h : StoreWf mountpoint d) (hs : SameStore d d')
    (hlt : ∀ r b, d'.records r = some b → r < d'.next) (hl : Loose d') :
    StoreWf mountpoint d' := by
  refine ⟨hlt, hs.buffers ▸ h.nodup, fun r hr => ?_, hl, fun p k hk => ?_⟩
  · rw [hs.buffers] at hr
    rw [hs.records r hr]
    exact h.stored r hr
  · rw [hs.routes] at hk
    rw [hs.buffers]
    exact (h.routes p k hk).mono fun r hr b hb => ⟨hr, b, (hs.records r hr).trans hb, rfl⟩

/-- Freeing a record that is not in the store does nothing but that. -/
theorem bufAvailDrop_loose {r : RecordId} {b : AvailableBuffer} (hb : d.records r = some b)
    (hreg : b.registered = false) (hlink : b.linked = false) :
    bufAvailDrop mountpoint d (some r) = (d.use r).free r := by
  simp only [bufAvailDrop, hb, hreg, hlink, Bool.false_eq_true, if_false]

theorem use_eq (d : BufmodData) (r : RecordId) : ∃ st, d.use r = { d with stale := st } := by
  unfold BufmodData.use
  split_ifs
  · exact ⟨_, rfl⟩
  · exact ⟨d.stale, rfl⟩

/-- Only the logs of what is freed and used afterwards differ. -/
def Logged (d d' : BufmodData) : Prop := ∃ fr st, d' = { d with freed := fr, stale := st }

theorem Logged.trans {d₁ : BufmodData} (h : Logged d d₁) (h' : Logged d₁ d') : Logged d d' := by
  obtain ⟨fr, st, rfl⟩ := h
  obtain ⟨fr', st', rfl⟩ := h'
  exact ⟨fr', st', rfl⟩

theorem logged_use_free (d : BufmodData) (r : RecordId) : Logged d ((d.use r).free r) := by
  obtain ⟨st, h⟩ := use_eq d r
  rw [h]
  exact ⟨_, _, rfl⟩

theorem logged_freeCurrent (d : BufmodData) : Logged d (freeCurrent d) := by
  unfold freeCurrent
  rcases d.currentBuf with _ | r
  · exact ⟨d.freed, d.stale, rfl⟩
  · exact logged_use_free d r

theorem logged_drop (hl : Loose d) : Logged d (bufAvailDrop mountpoint d d.currentBuf) := by
  rcases hr : d.currentBuf with _ | r
  · exact ⟨d.freed, d.stale, rfl⟩
  · obtain ⟨-, b, hb, hreg, hlink⟩ := hl r hr
    rw [bufAvailDrop_loose hb hreg hlink]
    exact logged_use_free d r

/-- The store is left as it was and well formed, and no identifier was spent. -/
structure StoreKept (mountpoint : Bytes) (d d' : BufmodData) : Prop where
  wf : StoreWf mountpoint d'
  same : SameStore d d'
  currentId : d'.currentId = d.currentId
  parts : d'.parts = d.parts

theorem StoreKept.trans {d₁ : BufmodData} (h : StoreKept mountpoint d d₁)
    (h' : StoreKept mountpoint d₁ d') : StoreKept mountpoint d d' :=
  ⟨h'.wf, h.same.trans h'.same, h'.currentId.trans h.currentId, h'.parts.trans h.parts⟩

theorem Logged.kept (h : Logged d d') (hwf : StoreWf mountpoint d) : StoreKept mountpoint d d' := by
  obtain ⟨fr, st, rfl⟩ := h
  exact ⟨⟨hwf.lt_next, hwf.nodup, hwf.stored, hwf.loose, hwf.routes⟩,
    ⟨rfl, rfl, rfl, rfl, rfl, fun _ _ => rfl⟩, rfl, rfl⟩

/-- What a callback that fails does in the end to the record being filled. -/
theorem logged_dropped (hl : Loose d) :
    Logged d (freeCurrent (bufAvailDrop mountpoint d d.currentBuf)) :=
  (logged_drop hl).trans (logged_freeCurrent _)

@[simp] theorem setRecord_self (d : BufmodData) (r : RecordId) (b : AvailableBuffer) :
    (d.setRecord r b).records r = some b := Function.update_self _ _ _

theorem setRecord_of_ne {r q : RecordId} (hq : q ≠ r) (b : AvailableBuffer) :
    (d.setRecord r b).records q = d.records q := Function.update_of_ne hq _ _

theorem same_setRecord {r : RecordId} (hr : r ∉ d.buffers) (b : AvailableBuffer) :
    SameStore d (d.setRecord r b) :=
  ⟨rfl, rfl, rfl, rfl, rfl, fun _ hq => setRecord_of_ne (ne_of_mem_of_not_mem hq hr) b⟩

theorem StoreWf.setCurrent (h : StoreWf mountpoint d) {r : RecordId} (hr : d.currentBuf = some r)
    {b : AvailableBuffer} (hreg : b.registered = false) (hlink : b.linked = false) :
    StoreWf mountpoint (d.setRecord r b) := by
  obtain ⟨hmem, b₀, hb₀, -⟩ := h.loose r hr
  refine h.of_same (same_setRecord hmem b) (fun q b' hq => ?_) (fun q hq => ?_)
  · rcases eq_or_ne q r with rfl | hne
    · exact h.lt_next q b₀ hb₀
    · exact h.lt_next q b' ((setRecord_of_ne hne b).symm.trans hq)
  · obtain rfl : r = q := Option.some.inj (hr.symm.trans hq)
    exact ⟨hmem, b, setRecord_self d r b, hreg, hlink⟩

theorem StoreWf.next_not_mem (h : StoreWf mountpoint d) : d.next ∉ d.buffers := by
  intro hmem
  obtain ⟨b, hb, -⟩ := h.stored _ hmem
  exact absurd (h.lt_next _ b hb) (lt_irrefl _)

theorem StoreWf.newRecord (h : StoreWf mountpoint d) : StoreKept mountpoint d d.newRecord := by
  have hs : SameStore d d.newRecord := ⟨rfl, rfl, rfl, rfl, rfl, fun _ hq =>
    Function.update_of_ne (ne_of_mem_of_not_mem hq h.next_not_mem) _ _⟩
  refine ⟨h.of_same hs (fun q b' hq => ?_) (fun q hq => ?_), hs, rfl, rfl⟩
  · rcases eq_or_ne q d.next with rfl | hne
    · exact Nat.lt_succ_self _
    · exact Nat.lt_succ_of_lt (h.lt_next q b' ((Function.update_of_ne hne _ _).symm.trans hq))
  · obtain rfl : d.next = q := Option.some.inj hq
    exact ⟨h.next_not_mem, {}, Function.update_self _ _ _, rfl, rfl⟩

theorem InfoSet.kept {r : RecordId} (hset : InfoSet d r d') (h : StoreWf mountpoint d)
    (hr : d.currentBuf = some r) : StoreKept mountpoint d d' := by
  cases hset with
  | refl => exact ⟨h, .refl d, rfl, rfl⟩
  | @set b g hg hb =>
    obtain ⟨hmem, b₀, hb₀, hreg, hlink⟩ := h.loose r hr
    obtain rfl : b₀ = b := Option.some.inj (hb₀.symm.trans hb)
    obtain ⟨st, hst⟩ := use_eq d r
    have hlog : Logged d { d with stale := st } := ⟨d.freed, st, rfl⟩
    rw [hst]
    exact ⟨(hlog.kept h).wf.setCurrent hr hreg hlink,
      (hlog.kept h).same.trans (same_setRecord (d := { d with stale := st }) hmem _), rfl, rfl⟩

theorem InfoSet.hasInfo {r : RecordId} (hset : InfoSet d r d') (hr : d.currentBuf = some r)
    (hi : HasInfo d) : HasInfo d' := by
  cases hset with
  | refl => exact hi
  | @set b g hg hb =>
    intro q b' hq hb'
    obtain ⟨st, hst⟩ := use_eq d r
    rw [hst] at hq hb'
    obtain rfl : r = q := Option.some.inj (hr.symm.trans hq)
    obtain ⟨fs, hfs⟩ := hi r b hr hb
    obtain ⟨fs', hfs'⟩ := hg fs
    rw [setRecord_self] at hb'
    cases hb'
    exact ⟨fs', by simp only [hfs, Option.map_some, hfs']⟩

theorem fillRecord_eq (d : BufmodData) (r : RecordId) (b : AvailableBuffer)
    (aura : Option AuraBuffer) : ∃ st, d.fillRecord r b aura
      = { d with currentId := wrapS 64 (d.currentId + 1), stale := st }.setRecord r
        { b with buf := aura, id := d.currentId } := by
  obtain ⟨st, hst⟩ := use_eq d r
  exact ⟨st, by rw [BufmodData.fillRecord, hst]⟩

/-- The record of a part that is refused after all has spent an identifier. -/
theorem StoreWf.fillRecord (h : StoreWf mountpoint d) {r : RecordId} {b : AvailableBuffer}
    (hr : d.currentBuf = some r) (hb : d.records r = some b) (aura : Option AuraBuffer)
    {d₁ : BufmodData} (hd₁ : d.countPart.fillRecord r b aura = d₁) :
    StoreWf mountpoint d₁ ∧ SameStore d d₁ ∧ d₁.currentId = wrapS 64 (d.currentId + 1)
      ∧ d₁.parts = d.parts + 1 ∧ d₁.currentBuf = some r := by
  obtain ⟨hmem, b₀, hb₀, hreg, hlink⟩ := h.loose r hr
  obtain rfl : b₀ = b := Option.some.inj (hb₀.symm.trans hb)
  obtain ⟨st, hst⟩ := fillRecord_eq d.countPart r b₀ aura
  rw [hst] at hd₁
  subst hd₁
  have h₁ : StoreWf mountpoint
      { d.countPart with currentId := wrapS 64 (d.currentId + 1), stale := st } :=
    ⟨h.lt_next, h.nodup, h.stored, h.loose, h.routes⟩
  refine ⟨h₁.setCurrent hr hreg hlink, ?_, rfl, rfl, hr⟩
  have hs := same_setRecord hmem { b₀ with buf := aura, id := d.currentId }
  exact ⟨hs.maxSize, hs.currentSize, hs.buffers, hs.routes, hs.assigned, hs.records⟩

theorem putInto_storeBuffer {r : RecordId} {b : AvailableBuffer} {aura : AuraBuffer}
    {part : Part} : PutInto mountpoint d r b aura part
      (storeBuffer mountpoint (d.countPart.fillRecord r b (some aura)) r
        { b with buf := some aura, id := d.currentId } part) := by
  obtain ⟨st, hst⟩ := fillRecord_eq d.countPart r b (some aura)
  rw [hst]
  refine ⟨rfl, rfl, rfl, rfl, rfl, ?_, rfl, rfl, rfl, rfl⟩
  exact Function.update_idem _ _ _

theorem PutInto.wf {r : RecordId} {b : AvailableBuffer} {aura : AuraBuffer} {part : Part}
    (h : StoreWf mountpoint d) (hr : d.currentBuf = some r) (hb : d.records r = some b)
    (hput : PutInto mountpoint d r b aura part d') : StoreWf mountpoint d' := by
  obtain ⟨hmem, -⟩ := h.loose r hr
  have hself : d'.records r = some (entered b aura d.currentId) := by
    rw [hput.records]
    exact Function.update_self _ _ _
  have hrec : ∀ q ∈ d.buffers, d'.records q = d.records q := fun q hq => by
    rw [hput.records]
    exact Function.update_of_ne (ne_of_mem_of_not_mem hq hmem) _ _
  have hnew : r ∈ d'.buffers := by
    rw [hput.buffers]
    exact List.mem_append_right _ (List.mem_singleton_self r)
  refine ⟨fun q b' hq => ?_, ?_, fun q hq => ?_, fun q hq => ?_, fun p k hk => ?_⟩
  · rw [hput.next]
    rcases eq_or_ne q r with rfl | hne
    · exact h.lt_next q b hb
    · rw [hput.records, Function.update_of_ne hne] at hq
      exact h.lt_next q b' hq
  · rw [hput.buffers]
    exact List.nodup_append.2 ⟨h.nodup, List.nodup_singleton r, by
      rintro a ha c hc rfl
      exact hmem (List.mem_singleton.1 hc ▸ ha)⟩
  · rw [hput.buffers, List.mem_append, List.mem_singleton] at hq
    rcases hq with hq | rfl
    · rw [hrec q hq]
      exact h.stored q hq
    · exact ⟨_, hself, rfl, rfl⟩
  · rw [hput.currentBuf] at hq
    cases hq
  · rw [hput.routes] at hk
    rcases RouteTable.find_set_cases hk with hk | ⟨rfl, rfl⟩
    · rcases RouteTable.find_set_cases hk with hk | ⟨rfl, rfl⟩
      · refine (h.routes p k hk).mono fun q hq b' hb' => ⟨?_, b', (hrec q hq).trans hb', rfl⟩
        rw [hput.buffers]
        exact List.mem_append_left _ hq
      · exact .download (b := entered b aura d.currentId) hnew hself
    · exact .drop (b := entered b aura d.currentId) hnew hself

/-- What a callback leaves: a well formed store, and without an error a record whose info can be
added to. -/
theorem BufTrans.store {c : Call} {err : Bool} (ht : BufTrans mountpoint T d c err d')
    (h : StoreWf mountpoint d) (hi : HasInfo d) :
    StoreTrans mountpoint T d c d' ∧ StoreWf mountpoint d' ∧ (err = false → HasInfo d') := by
  cases ht with
  | headerOpen hr hset =>
    have hk := hset.kept h hr
    exact ⟨.same hk.same hk.currentId hk.parts.ge, hk.wf, fun _ => hset.hasInfo hr hi⟩
  | headerNew hr hset =>
    have hnew := h.newRecord
    have hset₀ : StoreKept mountpoint d.newRecord
        (d.newRecord.setRecord d.next { info := some (.object []) }) :=
      ⟨hnew.wf.setCurrent rfl rfl rfl, same_setRecord (d := d.newRecord) h.next_not_mem _, rfl, rfl⟩
    have hk := (hnew.trans hset₀).trans (hset.kept hset₀.wf rfl)
    refine ⟨.same hk.same hk.currentId hk.parts.ge, hk.wf, fun _ => hset.hasInfo rfl ?_⟩
    intro r b hr hb
    obtain rfl : d.next = r := Option.some.inj hr
    rw [setRecord_self] at hb
    cases hb
    exact ⟨[], rfl⟩
  | headerNoRecord hr =>
    exact ⟨.same (.refl d) rfl le_rfl, h, fun he => by cases he⟩
  | headerNoInfo hr =>
    have hlog : Logged d.newRecord (freeCurrent (bufAvailDrop mountpoint d.newRecord
      (some d.next))) := logged_dropped h.newRecord.wf.loose
    have hk := h.newRecord.trans (hlog.kept h.newRecord.wf)
    exact ⟨.same hk.same hk.currentId hk.parts.ge, hk.wf, fun he => by cases he⟩
  | dataTooBig hsize =>
    have hwf : StoreWf mountpoint d.countPart :=
      ⟨h.lt_next, h.nodup, h.stored, h.loose, h.routes⟩
    have hlog : Logged d.countPart (freeCurrent (bufAvailDrop mountpoint d.countPart
      d.currentBuf)) := logged_dropped h.loose
    have hk := hlog.kept hwf
    have hs : SameStore d d.countPart := ⟨rfl, rfl, rfl, rfl, rfl, fun _ _ => rfl⟩
    exact ⟨.same (hs.trans hk.same) hk.currentId (hk.parts.ge.trans' (Nat.le_succ _)), hk.wf,
      fun he => by cases he⟩
  | @dataRefused vec n r b aura hsize hr hb =>
    generalize hd₁ : d.countPart.fillRecord r b aura = d₁
    obtain ⟨hwf, hs, hid, hp, hcur⟩ := h.fillRecord hr hb aura hd₁
    have hlog : Logged d₁ (freeCurrent (bufAvailDrop mountpoint d₁ d₁.currentBuf)) :=
      logged_dropped hwf.loose
    rw [hcur] at hlog
    have hk := hlog.kept hwf
    exact ⟨.spent (hs.trans hk.same) (hk.currentId.trans hid) (hk.parts.trans hp), hk.wf,
      fun he => by cases he⟩
  | dataStored hsize hr hb ha =>
    exact ⟨.put rfl hsize hr hb (hi _ _ hr hb) ha putInto_storeBuffer,
      putInto_storeBuffer.wf h hr hb, fun _ => fun r b hr => by cases hr⟩

theorem StoreWf.clearStale (h : StoreWf mountpoint d) :
    StoreKept mountpoint d (clearStale mountpoint d) := by
  have hl : Logged
      { d with released := d.released ++ d.currentInfo.toList, currentInfo := none }
      (bufAvailDrop mountpoint
        { d with released := d.released ++ d.currentInfo.toList, currentInfo := none }
        d.currentBuf) := logged_drop h.loose
  obtain ⟨fr, st, hd⟩ := hl
  have hd' : AuraHttpd.clearStale mountpoint d = { d with
      released := d.released ++ d.currentInfo.toList
      currentInfo := none
      freed := fr
      stale := st
      currentBuf := none } := by
    rw [AuraHttpd.clearStale]
    exact congrArg (fun d : BufmodData => { d with currentBuf := none }) hd
  rw [hd']
  exact ⟨⟨h.lt_next, h.nodup, h.stored, (fun r hr => by cases hr), h.routes⟩,
    ⟨rfl, rfl, rfl, rfl, rfl, fun _ _ => rfl⟩, rfl, rfl⟩

theorem StoreWf.newInfo (h : StoreWf mountpoint d) : StoreKept mountpoint d d.newInfo :=
  ⟨⟨h.lt_next, h.nodup, h.stored, h.loose, h.routes⟩,
    ⟨rfl, rfl, rfl, rfl, rfl, fun _ _ => rfl⟩, rfl, rfl⟩

/-- A property of the store, kept by what callbacks do that meet `C`. -/
structure StoreRule (mountpoint : Bytes) (T : AuraTransport) (C : Call → Prop)
    (R : BufmodData → Prop) : Prop where
  same : ∀ {d d' : BufmodData}, SameStore d d' → d'.currentId = d.currentId →
    d.parts ≤ d'.parts → R d → R d'
  trans : ∀ {d d' : BufmodData} {c : Call}, C c → StoreWf mountpoint d →
    StoreTrans mountpoint T d c d' → R d → R d'

variable (mountpoint) in
/-- The mountpoint's path, a well formed store and a property of it. -/
structure Holds (R : BufmodData → Prop) (fsd : Upfs BufmodData) : Prop where
  path : fsd.mountpoint = mountpoint
  wf : StoreWf mountpoint fsd.modData
  prop : R fsd.modData

theorem Holds.kept {C : Call → Prop} {R : BufmodData → Prop} (hR : StoreRule mountpoint T C R)
    {fsd fsd' : Upfs BufmodData} (h : Holds mountpoint R fsd)
    (hmp : fsd'.mountpoint = fsd.mountpoint)
    (hk : StoreKept mountpoint fsd.modData fsd'.modData) : Holds mountpoint R fsd' :=
  ⟨hmp.trans h.path, hk.wf, hR.same hk.same hk.currentId hk.parts.ge h.prop⟩

theorem hook_kept (fsd : Upfs BufmodData) {fsd' : Upfs BufmodData}
    (hmp : fsd.mountpoint = mountpoint) (hwf : StoreWf mountpoint fsd.modData)
    (hh : (buffermod T).callHook fsd = .ok fsd') :
    fsd'.mountpoint = fsd.mountpoint ∧ StoreKept mountpoint fsd.modData fsd'.modData
      ∧ fsd'.modData.currentBuf = none := by
  have hclear := hwf.clearStale
  rw [bufferHook_eq, hmp] at hh
  rcases hf : fsd.fails with _ | _ <;> rw [hf] at hh
  · obtain rfl := Except.ok.inj hh
    exact ⟨rfl, hclear.trans hclear.wf.newInfo, rfl⟩
  · obtain rfl := Except.ok.inj hh
    exact ⟨rfl, hclear, rfl⟩

theorem call_store {fsd fsd' : Upfs BufmodData} {c : Call} (hmp : fsd.mountpoint = mountpoint)
    (hwf : StoreWf mountpoint fsd.modData) (hi : HasInfo fsd.modData)
    (hcall : (buffermod T).call fsd c = .ok fsd') :
    fsd'.mountpoint = mountpoint ∧ StoreWf mountpoint fsd'.modData
      ∧ StoreTrans mountpoint T fsd.modData c fsd'.modData
      ∧ (fsd'.uploadError = false → HasInfo fsd'.modData) := by
  subst hmp
  obtain ⟨err, hcall⟩ := bufCall_of_call hcall
  cases hcall with
  | passed ht =>
    obtain ⟨hst, hwf', hi'⟩ := ht.store hwf hi
    exact ⟨rfl, hwf', hst, fun _ => hi' rfl⟩
  | refused ht =>
    obtain ⟨hst, hwf', -⟩ := ht.store hwf hi
    exact ⟨rfl, hwf', hst, fun he => by cases he⟩

section Uploads

variable {E I : Type} [Evbuffer E I] {C : Call → Prop} {R : BufmodData → Prop}
  (hR : StoreRule mountpoint T C R)

include hR

theorem StoreRule.call {fsd fsd' : Upfs BufmodData} {c : Call} (h : Holds mountpoint R fsd)
    (hi : HasInfo fsd.modData) (hc : C c) (hcall : (buffermod T).call fsd c = .ok fsd') :
    Holds mountpoint R fsd' ∧ (fsd'.uploadError = false → HasInfo fsd'.modData) := by
  obtain ⟨hmp, hwf, hst, hi'⟩ := call_store h.path h.wf hi hcall
  exact ⟨⟨hmp, hwf, hR.trans hc h.wf hst h.prop⟩, hi'⟩

theorem StoreRule.calls {cs : List Call} {fsd fsd' : Upfs BufmodData}
    (hc : ∀ cs₁ c cs₂ fsd₁, cs = cs₁ ++ c :: cs₂ → (buffermod T).replay fsd cs₁ = .ok fsd₁ →
      fsd₁.uploadError = false → C c)
    (h : Holds mountpoint R fsd) (hi : HasInfo fsd.modData) (he : fsd.uploadError = false)
    (hr : (buffermod T).replay fsd cs = .ok fsd') :
    Holds mountpoint R fsd' ∧ (fsd'.uploadError = false → HasInfo fsd'.modData) := by
  refine replay_made (P := fun fsd => Holds mountpoint R fsd
    ∧ (fsd.uploadError = false → HasInfo fsd.modData)) he ⟨h, fun _ => hi⟩ ?_
      (List.append_nil cs).symm hr
  intro cs₁ c cs₂ fsd₁ fsd₂ hcs hr₁ he₁ hp hcall
  exact hR.call hp.1 (hp.2 he₁) (hc cs₁ c cs₂ fsd₁ hcs hr₁ he₁) hcall

theorem StoreRule.hook {fsd fsd' : Upfs BufmodData} (h : Holds mountpoint R fsd)
    (hh : (buffermod T).callHook fsd = .ok fsd') :
    Holds mountpoint R fsd' ∧ HasInfo fsd'.modData := by
  obtain ⟨hmp, hk, hcur⟩ := hook_kept fsd h.path h.wf hh
  refine ⟨h.kept hR hmp hk, fun r b hr => ?_⟩
  rw [hcur] at hr
  cases hr

theorem StoreRule.sendError {fsd fsd' : Upfs BufmodData} (h : Holds mountpoint R fsd)
    (hs : uploadfsUploadSendError (buffermod T).finalize fsd none = .ok fsd') :
    Holds mountpoint R fsd' := by
  obtain rfl := Except.ok.inj ((bufferSendError_eq fsd).symm.trans hs)
  exact h.kept hR rfl ((logged_freeCurrent _).kept h.wf)

theorem StoreRule.endUpload {fsd fsd' : Upfs BufmodData} {α : Type} (h : Holds mountpoint R fsd) :
    ∀ {r : Option (ℤ × α)}, endUpload (buffermod T) fsd r = .ok fsd' → Holds mountpoint R fsd'
  | none, hs => hR.sendError h hs
  | some (ret, _), hs => by
    simp only [AuraHttpd.endUpload] at hs
    split_ifs at hs
    · exact hR.sendError h hs
    · obtain rfl := Except.ok.inj ((bufferFinalize_true fsd).symm.trans hs)
      exact h.kept hR rfl ⟨⟨h.wf.lt_next, h.wf.nodup, h.wf.stored, h.wf.loose, h.wf.routes⟩,
        ⟨rfl, rfl, rfl, rfl, rfl, fun _ _ => rfl⟩, rfl, rfl⟩

theorem StoreRule.upload {mp mp' : UploadMount BufmodData} {request : UploadRequest E}
    (h : upload (buffermod T) mp request = .ok mp') (hr : Holds mountpoint R mp.fsd)
    (hc : ∀ fsd c, request.Makes (buffermod T) mp fsd c → C c) : Holds mountpoint R mp'.fsd := by
  have hstart : Holds mountpoint R (request.start mp) := ⟨hr.path, hr.wf, hr.prop⟩
  by_cases hpost : request.command = .post
  swap
  · obtain ⟨hd, hmp⟩ := upload_notAllowed h hpost
    exact ⟨hmp.trans hr.path, hd ▸ hr.wf, hd ▸ hr.prop⟩
  have hcalls : ∀ {fsd₀ fsd₁}, (buffermod T).callHook (request.start mp) = .ok fsd₀ →
      fsd₀.uploadError = false →
      (buffermod T).replay fsd₀ (request.calls mp.numIovec) = .ok fsd₁ →
      Holds mountpoint R fsd₁ := fun {fsd₀ _} hh he hreplay => by
    obtain ⟨h₀, hi₀⟩ := hR.hook hstart hh
    exact (hR.calls (fun cs c cs' fsd hcs hr₁ he₁ =>
      hc fsd c ⟨hpost, fsd₀, cs, cs', hh, he, hcs, hr₁, he₁⟩) h₀ hi₀ he hreplay).1
  cases upload_run h with
  | notAllowed hd hmp => exact ⟨hmp.trans hr.path, hd ▸ hr.wf, hd ▸ hr.prop⟩
  | hookFails hh he => exact (hR.hook hstart hh).1
  | noBoundary hh he hs => exact hR.sendError (hR.hook hstart hh).1 hs
  | stopped hh he hb hreplay he₁ hs => exact hR.sendError (hcalls hh he hreplay) hs
  | scanned hh he hb hreplay he₁ hx hs => exact hR.endUpload (hcalls hh he hreplay) hs

/-- What holds of a state in which a call is made, if the calls made meet `C`. -/
theorem StoreRule.makes {mp : UploadMount BufmodData} {request : UploadRequest E}
    (hr : Holds mountpoint R mp.fsd) (hc : ∀ fsd c, request.Makes (buffermod T) mp fsd c → C c)
    {fsd : Upfs BufmodData} {c : Call} (hm : request.Makes (buffermod T) mp fsd c) :
    Holds mountpoint R fsd ∧ HasInfo fsd.modData := by
  obtain ⟨hpost, fsd₀, cs, cs', hh, he, hcs, hreplay, he'⟩ := hm
  have hstart : Holds mountpoint R (request.start mp) := ⟨hr.path, hr.wf, hr.prop⟩
  obtain ⟨h₀, hi₀⟩ := hR.hook hstart hh
  have hmade : ∀ cs₁ c₁ cs₂ fsd₁, cs = cs₁ ++ c₁ :: cs₂ →
      (buffermod T).replay fsd₀ cs₁ = .ok fsd₁ → fsd₁.uploadError = false → C c₁ := by
    intro cs₁ c₁ cs₂ fsd₁ hcs₁ hr₁ he₁
    refine hc fsd₁ c₁ ⟨hpost, fsd₀, cs₁, cs₂ ++ c :: cs', hh, he, ?_, hr₁, he₁⟩
    rw [hcs, hcs₁, List.append_assoc, List.cons_append]
  obtain ⟨h, hi⟩ := hR.calls hmade h₀ hi₀ he hreplay
  exact ⟨h, hi he'⟩

end Uploads

/-- A stored record as `buf_avail_drop` leaves the store without it. -/
structure DropFrom (mountpoint : Bytes) (d : BufmodData) (r : RecordId) (b : AvailableBuffer)
    (d' : BufmodData) : Prop where
  maxSize : d'.maxSize = d.maxSize
  currentSize : d'.currentSize = d.currentSize
  buffers : d'.buffers = d.buffers.erase r
  routes : d'.routes = (d.routes.del (downloadPath mountpoint b.id)).del (dropPath mountpoint b.id)
  assigned : d'.assigned = d.assigned
  records : d'.records = Function.update d.records r (some { b with registered := false })
  currentId : d'.currentId = d.currentId
  parts : d'.parts = d.parts
  next : d'.next = d.next
  currentBuf : d'.currentBuf = d.currentBuf

theorem dropFrom_bufAvailDrop {r : RecordId} {b : AvailableBuffer} (hb : d.records r = some b)
    (hreg : b.registered = true) (hlink : b.linked = true) :
    DropFrom mountpoint d r b (bufAvailDrop mountpoint (d.use r) (some r)) := by
  obtain ⟨st, hst⟩ := use_eq d r
  obtain ⟨st', hst'⟩ := use_eq { d with stale := st } r
  rw [hst]
  simp only [bufAvailDrop, hb, hst', hreg, hlink, if_true]
  exact ⟨rfl, rfl, rfl, rfl, rfl, rfl, rfl, rfl, rfl, rfl⟩

theorem DropFrom.wf {r : RecordId} {b : AvailableBuffer} (h : StoreWf mountpoint d)
    (hr : r ∈ d.buffers) (hb : d.records r = some b) (hd : DropFrom mountpoint d r b d') :
    StoreWf mountpoint d' := by
  have hmem : ∀ q, q ∈ d'.buffers ↔ q ≠ r ∧ q ∈ d.buffers := fun q => by
    rw [hd.buffers]
    exact h.nodup.mem_erase_iff
  have hrec : ∀ q, q ≠ r → d'.records q = d.records q := fun q hq => by
    rw [hd.records]
    exact Function.update_of_ne hq _ _
  refine ⟨fun q b' hq => ?_, ?_, fun q hq => ?_, fun q hq => ?_, fun p k hk => ?_⟩
  · rw [hd.next]
    rcases eq_or_ne q r with rfl | hne
    · exact h.lt_next q b hb
    · exact h.lt_next q b' (hrec q hne ▸ hq)
  · rw [hd.buffers]
    exact h.nodup.erase r
  · obtain ⟨hne, hq⟩ := (hmem q).1 hq
    rw [hrec q hne]
    exact h.stored q hq
  · rw [hd.currentBuf] at hq
    obtain ⟨hnot, hb'⟩ := h.loose q hq
    rw [hrec q (ne_of_mem_of_not_mem hr hnot).symm]
    exact ⟨fun hq' => hnot ((hmem q).1 hq').2, hb'⟩
  · rw [hd.routes, RouteTable.find_del, RouteTable.find_del] at hk
    split_ifs at hk with hdrop hdown
    have hne : ∀ q b', d.records q = some b' →
        (p = downloadPath mountpoint b'.id ∨ p = dropPath mountpoint b'.id) → q ≠ r := by
      rintro q b' hb' hp rfl
      obtain rfl : b = b' := Option.some.inj (hb.symm.trans hb')
      exact hp.elim hdown hdrop
    cases h.routes p k hk with
    | list => exact .list
    | post => exact .post
    | @download q b' hq hb' =>
      have := hne q b' hb' (.inl rfl)
      exact .download ((hmem q).2 ⟨this, hq⟩) ((hrec q this).trans hb')
    | @drop q b' hq hb' =>
      have := hne q b' hb' (.inr rfl)
      exact .drop ((hmem q).2 ⟨this, hq⟩) ((hrec q this).trans hb')

/-- A stored buffer was read. -/
structure ReadFrom (d : BufmodData) (r : RecordId) (b : AvailableBuffer) (aura : AuraBuffer)
    (d' : BufmodData) : Prop where
  mem : r ∈ d.buffers
  record : d.records r = some b
  buf : b.buf = some aura
  eq : ∃ pos, d' = (d.use r).setRecord r { b with buf := some { aura with pos := pos } }

theorem ReadFrom.logged {r : RecordId} {b : AvailableBuffer} {aura : AuraBuffer}
    (hd : ReadFrom d r b aura d') : ∃ pos st, d' = { d with stale := st }.setRecord r
      { b with buf := some { aura with pos := pos } } := by
  obtain ⟨pos, hd⟩ := hd.eq
  obtain ⟨st, hst⟩ := use_eq d r
  exact ⟨pos, st, hst ▸ hd⟩

theorem ReadFrom.wf {r : RecordId} {b : AvailableBuffer} {aura : AuraBuffer}
    (hd : ReadFrom d r b aura d') (h : StoreWf mountpoint d) : StoreWf mountpoint d' := by
  have hr := hd.mem
  have hb := hd.record
  obtain ⟨pos, st, rfl⟩ := hd.logged
  have hrec : ∀ q, q ≠ r → ({ d with stale := st }.setRecord r
      { b with buf := some { aura with pos := pos } }).records q = d.records q := fun q hq =>
    setRecord_of_ne hq _
  refine ⟨fun q b' hq => ?_, h.nodup, fun q hq => ?_, fun q hq => ?_, fun p k hk => ?_⟩
  · rcases eq_or_ne q r with rfl | hne
    · exact h.lt_next q b hb
    · exact h.lt_next q b' (hrec q hne ▸ hq)
  · rcases eq_or_ne q r with rfl | hne
    · obtain ⟨b₀, hb₀, hreg, hlink⟩ := h.stored q hr
      obtain rfl : b₀ = b := Option.some.inj (hb₀.symm.trans hb)
      exact ⟨_, setRecord_self _ _ _, hreg, hlink⟩
    · rw [hrec q hne]
      exact h.stored q hq
  · obtain ⟨hnot, hb'⟩ := h.loose q hq
    rw [hrec q (ne_of_mem_of_not_mem hr hnot).symm]
    exact ⟨hnot, hb'⟩
  · have hsame : ∀ q b', d.records q = some b' → ∃ b'', ({ d with stale := st }.setRecord r
        { b with buf := some { aura with pos := pos } }).records q = some b'' ∧ b''.id = b'.id := by
      intro q b' hb'
      rcases eq_or_ne q r with rfl | hne
      · obtain rfl : b = b' := Option.some.inj (hb.symm.trans hb')
        exact ⟨_, setRecord_self _ _ _, rfl⟩
      · exact ⟨b', (hrec q hne).trans hb', rfl⟩
    exact (h.routes p k hk).mono fun q hq b' hb' => ⟨hq, hsame q b' hb'⟩

theorem logged_foldl_use : ∀ (rs : List RecordId) (d : BufmodData),
    Logged d (rs.foldl BufmodData.use d)
  | [], d => ⟨d.freed, d.stale, rfl⟩
  | r :: rs, d => by
    obtain ⟨st, hst⟩ := use_eq d r
    have hlog : Logged d (d.use r) := ⟨d.freed, st, hst⟩
    exact hlog.trans (logged_foldl_use rs _)

/-- A download sends the payload and whatever the transport has put behind it. -/
theorem rqDownloadBuffer_read {fsd : Upfs BufmodData} {r : RecordId} {b : AvailableBuffer}
    {aura : AuraBuffer} (hr : r ∈ fsd.modData.buffers) (hb : fsd.modData.records r = some b)
    (haura : b.buf = some aura) :
    ∃ d', rqDownloadBuffer fsd r false
        = .ok ((fsd.setData d').reply (.data (aura.data ++ aura.extra)))
      ∧ ReadFrom fsd.modData r b aura d' := by
  obtain ⟨st, hst⟩ := use_eq fsd.modData r
  have hb' : (fsd.modData.use r).records r = some b := by
    rw [hst]
    exact hb
  obtain ⟨buf, info, registered, linked, id⟩ := b
  obtain rfl : buf = some aura := haura
  have htake : (aura.rewind.atPos).take aura.rewind.size = aura.data ++ aura.extra := by
    simp [AuraBuffer.rewind, AuraBuffer.atPos, AuraBuffer.size]
  refine ⟨_, ?_, hr, hb, rfl, 0 + aura.payloadLength, rfl⟩
  simp only [rqDownloadBuffer, Bool.false_eq_true, if_false, hb']
  rw [htake]
  rfl

section Requests

variable {E I : Type} [Evbuffer E I]

/-- What a request does that is not refused. -/
inductive RequestRun (mountpoint : Bytes) (T : AuraTransport) (mp : UploadMount BufmodData)
    (e : Bytes × UploadRequest E) (mp' : UploadMount BufmodData) : Prop where
  | post (hf : mp.fsd.modData.routes.find e.1 = some .post)
      (h : upload (buffermod T) mp e.2 = .ok mp')
  | used (rs : List RecordId) (hmp : mp'.fsd.mountpoint = mp.fsd.mountpoint)
      (hrs : ∀ r ∈ rs, r ∈ mp.fsd.modData.buffers)
      (hd : mp'.fsd.modData = rs.foldl BufmodData.use mp.fsd.modData)
  | read {r : RecordId} {b : AvailableBuffer} {aura : AuraBuffer}
      (hmp : mp'.fsd.mountpoint = mp.fsd.mountpoint)
      (hread : ReadFrom mp.fsd.modData r b aura mp'.fsd.modData)
  | drop {r : RecordId} {b : AvailableBuffer} (hf : mp.fsd.modData.routes.find e.1 = some (.drop r))
      (hp : e.1 = dropPath mountpoint b.id) (hr : r ∈ mp.fsd.modData.buffers)
      (hb : mp.fsd.modData.records r = some b) (hmp : mp'.fsd.mountpoint = mp.fsd.mountpoint)
      (hreg : b.registered = true) (hlink : b.linked = true)
      (hd : mp'.fsd.modData = bufAvailDrop mountpoint (mp.fsd.modData.use r) (some r))

theorem storeStep_download {mp : UploadMount BufmodData} {e : Bytes × UploadRequest E}
    {r : RecordId} {b : AvailableBuffer} {aura : AuraBuffer}
    (hf : mp.fsd.modData.routes.find e.1 = some (.download r)) (hr : r ∈ mp.fsd.modData.buffers)
    (hb : mp.fsd.modData.records r = some b) (haura : b.buf = some aura)
    (hfail : e.2.failures.headD false = false) :
    ∃ mp', storeStep T mp e = some mp' ∧ mp'.fsd.mountpoint = mp.fsd.mountpoint
      ∧ mp'.fsd.replies = [.data (aura.data ++ aura.extra)]
      ∧ ReadFrom mp.fsd.modData r b aura mp'.fsd.modData := by
  have hstep : storeStep T mp e = (rqDownloadBuffer { mp.fsd with replies := [] } r
      false).toOption.map fun fsd => { mp with fsd := fsd } := by
    simp only [storeStep, hf, hfail]
  generalize hfsd : ({ mp.fsd with replies := [] } : Upfs BufmodData) = fsd at hstep
  have hr' : r ∈ fsd.modData.buffers := by rwa [← hfsd]
  have hb' : fsd.modData.records r = some b := by rwa [← hfsd]
  obtain ⟨d', hd', hread⟩ := rqDownloadBuffer_read hr' hb' haura
  rw [hd'] at hstep
  subst hfsd
  exact ⟨_, hstep, rfl, rfl, hread⟩

theorem request_run {mp mp' : UploadMount BufmodData} {e : Bytes × UploadRequest E}
    (hmp : mp.fsd.mountpoint = mountpoint) (hwf : StoreWf mountpoint mp.fsd.modData)
    (h : storeStep T mp e = some mp') : RequestRun mountpoint T mp e mp' := by
  have hstep := h
  unfold storeStep at h
  rcases hf : mp.fsd.modData.routes.find e.1 with _ | k <;> simp only [hf] at h
  · cases h
  have hlead := hwf.routes _ _ hf
  cases k with
  | post =>
    rcases hu : upload (buffermod T) mp e.2 with f | mp₁ <;> rw [hu] at h <;> cases h
    exact .post hf hu
  | list =>
    obtain rfl := Option.some.inj h
    simp only [rqListBuffers]
    split_ifs
    · exact .used [] rfl (by simp) rfl
    · exact .used mp.fsd.modData.buffers rfl (fun _ => id) rfl
  | download r =>
    generalize he : e.1 = p at hf hlead
    cases hlead with | @download _ b hr hb =>
    rcases hfail : e.2.failures.headD false with _ | _ <;> rw [hfail] at h
    · rcases haura : b.buf with _ | aura
      · obtain ⟨st, hst⟩ := use_eq mp.fsd.modData r
        obtain ⟨buf, info, registered, linked, id⟩ := b
        obtain rfl : buf = none := haura
        simp only [rqDownloadBuffer, Bool.false_eq_true, if_false, hst, hb] at h
        cases h
      · obtain ⟨mp₁, h₁, hmp₁, -, hread⟩ := storeStep_download (T := T) (he ▸ hf) hr hb haura hfail
        obtain rfl := Option.some.inj (h₁.symm.trans hstep)
        exact .read hmp₁ hread
    · cases h
      exact .used [r] rfl (by simpa using hr) rfl
  | drop r =>
    cases h
    generalize he : e.1 = p at hf hlead
    cases hlead with | @drop _ b hr hb =>
    obtain ⟨b₀, hb₀, hreg, hlink⟩ := hwf.stored r hr
    obtain rfl : b₀ = b := Option.some.inj (hb₀.symm.trans hb)
    exact .drop (he ▸ hf) he hr hb rfl hreg hlink (hmp ▸ rfl)

/-- What a request makes of a property of the store: uploads keep it, reads keep it, and a drop
turns it into what it is to be afterwards. -/
theorem StoreRule.request {C : Call → Prop} {R R' : BufmodData → Prop}
    (hR : StoreRule mountpoint T C R) {mp mp' : UploadMount BufmodData}
    {e : Bytes × UploadRequest E} (hmono : ∀ {d}, R d → R' d)
    (hread : ∀ {d r b aura d'}, ReadFrom d r b aura d' → StoreWf mountpoint d → R d → R' d')
    (hdrop : ∀ {r b d'}, mp.fsd.modData.routes.find e.1 = some (.drop r) →
      e.1 = dropPath mountpoint b.id → r ∈ mp.fsd.modData.buffers →
      mp.fsd.modData.records r = some b → DropFrom mountpoint mp.fsd.modData r b d' →
      StoreWf mountpoint mp.fsd.modData → R mp.fsd.modData → R' d')
    (h : storeStep T mp e = some mp') (hh : Holds mountpoint R mp.fsd)
    (hc : mp.fsd.modData.routes.find e.1 = some .post →
      ∀ fsd c, e.2.Makes (buffermod T) mp fsd c → C c) : Holds mountpoint R' mp'.fsd := by
  cases request_run hh.path hh.wf h with
  | post hf h =>
    have h' := hR.upload h hh (hc hf)
    exact ⟨h'.path, h'.wf, hmono h'.prop⟩
  | used rs hmp _ hd =>
    have hk := hd ▸ (logged_foldl_use rs mp.fsd.modData).kept hh.wf
    exact ⟨hmp.trans hh.path, hk.wf, hmono (hR.same hk.same hk.currentId hk.parts.ge hh.prop)⟩
  | read hmp hd => exact ⟨hmp.trans hh.path, hd.wf hh.wf, hread hd hh.wf hh.prop⟩
  | drop hf hp hr hb hmp hreg hlink hd =>
    have hd : DropFrom mountpoint mp.fsd.modData _ _ mp'.fsd.modData :=
      hd ▸ dropFrom_bufAvailDrop hb hreg hlink
    exact ⟨hmp.trans hh.path, hd.wf hh.wf hr hb, hdrop hf hp hr hb hd hh.wf hh.prop⟩

theorem storeStep_wf {mp mp' : UploadMount BufmodData} {e : Bytes × UploadRequest E}
    (hmp : mp.fsd.mountpoint = mountpoint) (hwf : StoreWf mountpoint mp.fsd.modData)
    (h : storeStep T mp e = some mp') :
    mp'.fsd.mountpoint = mountpoint ∧ StoreWf mountpoint mp'.fsd.modData := by
  have hR : StoreRule mountpoint T (fun _ => True) (fun _ => True) :=
    ⟨fun _ _ _ _ => trivial, fun _ _ _ _ => trivial⟩
  have h' : Holds mountpoint (fun _ => True) mp'.fsd :=
    hR.request id (fun _ _ => id) (fun _ _ _ _ _ _ => id) h ⟨hmp, hwf, trivial⟩
      fun _ _ _ _ => trivial
  exact ⟨h'.path, h'.wf⟩

end Requests

theorem storeWf_mount : StoreWf mountpoint (bufferMount mountpoint).fsd.modData := by
  refine ⟨?_, List.nodup_nil, ?_, ?_, fun p k hk => ?_⟩
  · intro r b hb
    cases hb
  · intro r hr
    cases hr
  · intro r hr
    cases hr
  rcases RouteTable.find_set_cases hk with hk | ⟨rfl, rfl⟩
  · rcases RouteTable.find_set_cases hk with hk | ⟨rfl, rfl⟩
    · cases hk
    · exact .list
  · exact .post

/-- An upload of one part, which is one byte. -/
def byteRequest : UploadRequest Bytes where
  contentType := some (lit "multipart/form-data; boundary=B")
  body := lit "--B\r\nContent-Disposition: form-data; name=\"f\"\r\n\r\nx\r\n--B--\r\n"

/-- An upload of two parts. -/
def pairRequest : UploadRequest Bytes where
  contentType := some (lit "multipart/form-data; boundary=B")
  body := lit "--B\r\nContent-Disposition: form-data; name=\"f\"\r\n\r\nx\r\n"
    ++ lit "--B\r\nA: b\r\n\r\nyz\r\n--B--\r\n"

/-- The upload, by itself. -/
def uploadRun : List (Bytes × UploadRequest Bytes) := [(lit "/buf/post", byteRequest)]

/-- Several uploads, of four parts in all, and a download. -/
def uploadsRun : List (Bytes × UploadRequest Bytes) :=
  [(lit "/buf/post", byteRequest), (lit "/buf/post", pairRequest),
    (lit "/buf/download/1", byteRequest), (lit "/buf/post", byteRequest)]

/-- The upload, whose buffer is then dropped. -/
def dropRun : List (Bytes × UploadRequest Bytes) :=
  [(lit "/buf/post", byteRequest), (lit "/buf/drop/0", byteRequest)]

end AuraHttpd
