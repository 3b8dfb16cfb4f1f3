import AuraHttpd.Proofs.BufferStore

/-!
# Whose record a part's data goes into

A part begins with no record open: the hook has dropped what was left of the request before, and a
data callback that passes has put the record of its part into the store.  The first header callback
of a part makes a record, with a number no record was given before (`RecordsNumbered`), and the
others keep it (`OpenRecord`).  So the data of a part goes into a record of its own exactly where a
line that is not blank stands behind the part's delimiter (`own_record_iff`).
-/

namespace AuraHttpd

open CString Script StepSystem

section Parts

variable {E I : Type} [Evbuffer E I]

/-- The states and inputs with which the loop of `upload` comes to one part after another. -/
inductive ComesToPart {σ : Type} (m : UploadfsModule σ) (boundary : Bytes) :
    Upfs σ → Input E → Upfs σ → Input E → Prop where
  | here (fsd : Upfs σ) (inp : Input E) : ComesToPart m boundary fsd inp fsd inp
  | next {fsd fsd₁ fsd' : Upfs σ} {inp inp₁ inp' : Input E}
      (h : multipartHandleNextFile m boundary fsd inp = .ok (1, fsd₁, inp₁))
      (hrest : ComesToPart m boundary fsd₁ inp₁ fsd' inp') :
      ComesToPart m boundary fsd inp fsd' inp'

/-- What the loop of `upload` begins with. -/
def UploadRequest.input {σ : Type} (request : UploadRequest E) (mp : UploadMount σ) : Input E where
  evb := request.body
  numIovec := mp.numIovec
  failures := request.parserFailures

/-- What is left of the input behind the line of the next delimiter. -/
def Input.behindDelimiter (inp : Input E) (boundary : Bytes) (start : EvbufferPtr I) : Input E :=
  inp.tick.drain ((lit "--" ++ boundary).length + start.pos + 2)

/-- The line behind that of the next delimiter is not blank. -/
def HasHeader (boundary : Bytes) (inp : Input E) : Prop :=
  ∃ start ln, Evbuffer.search inp.evb (lit "--" ++ boundary) = some start
    ∧ (inp.behindDelimiter boundary start).readln.1 = some ln ∧ cstr ln ≠ []

/-- Where the parser gets to the data of a part, its header calls stand before. -/
inductive PartCalls (boundary : Bytes) (inp : Input E) (x : ParserScript (ℤ × Input E)) : Prop where
  | noData (hcs : ∀ vec n, .data vec n ∉ x.calls) (hret : ∀ inp', x.outcome ≠ .ok (1, inp'))
  | data {start : EvbufferPtr I} {inp₁ : Input E} {fuel : ℕ} {vec : List Bytes} {n : ℤ}
      (hstart : Evbuffer.search inp.evb (lit "--" ++ boundary) = some start)
      (hhs : (scanHeaders (fuel + 1) (inp.behindDelimiter boundary start)).outcome = .ok inp₁)
      (hcs : x.calls
        = (scanHeaders (fuel + 1) (inp.behindDelimiter boundary start)).calls ++ [.data vec n])

variable {boundary : Bytes} {inp : Input E}

/-- What stands before the data call are the header calls. -/
theorem headers_eq {hs cs cs' : List Call} {vec vec' : List Bytes} {n n' : ℤ}
    (hhs : ∀ c ∈ hs, ∃ key value, c = .formHeader key value)
    (h : hs ++ [.data vec n] = cs ++ .data vec' n' :: cs') : cs = hs := by
  rcases List.append_eq_append_iff.1 h with ⟨as, rfl, has⟩ | ⟨as, rfl, has⟩
  · rcases as with _ | ⟨a, as⟩
    · exact List.append_nil _
    · have := congrArg List.length has
      simp at this
  · rcases as with _ | ⟨a, as⟩
    · exact (List.append_nil _).symm
    · obtain ⟨_, _, ha⟩ := hhs a (by simp)
      rw [ha] at has
      cases has

theorem partCalls_scanNextFile (boundary : Bytes) (inp : Input E) :
    PartCalls boundary inp (scanNextFile boundary inp) := by
  unfold scanNextFile
  split_ifs with hfails
  · exact .noData (fun _ _ h => by cases h) fun _ h => by cases h
  rcases hstart : Evbuffer.search inp.evb (lit "--" ++ boundary) with _ | start
  · rw [show Evbuffer.search inp.tick.evb (lit "--" ++ boundary) = none from hstart]
    exact .noData (fun _ _ h => by cases h) fun _ h => by cases h
  rw [show Evbuffer.search inp.tick.evb (lit "--" ++ boundary) = some start from hstart]
  change PartCalls boundary inp (scanHeaders (Evbuffer.length
    (inp.behindDelimiter boundary start).evb + 1) (inp.behindDelimiter boundary start) >>= _)
  generalize Evbuffer.length (inp.behindDelimiter boundary start).evb = fuel
  have hheaders := scanHeaders_calls (fuel + 1) (inp.behindDelimiter boundary start)
  rcases hx : scanHeaders (fuel + 1) (inp.behindDelimiter boundary start) with ⟨hs, _ | inp₁⟩ <;>
    rw [hx] at hheaders
  · refine .noData (fun vec n h => ?_) fun _ h => by cases h
    obtain ⟨_, _, h⟩ := hheaders _ h
    cases h
  rw [bind_ok]
  rcases scanData_calls boundary start inp₁ with ⟨hcs, hret⟩ | ⟨vec, n, hcs⟩ <;> rw [hcs]
  · refine .noData (fun vec n h => ?_) hret
    rw [List.append_nil] at h
    obtain ⟨_, _, h⟩ := hheaders _ h
    cases h
  · have hhs : (scanHeaders (fuel + 1) (inp.behindDelimiter boundary start)).outcome
        = .ok inp₁ := by rw [hx]
    have hcs : hs ++ [.data vec (wrapS 32 n)]
        = (scanHeaders (fuel + 1) (inp.behindDelimiter boundary start)).calls
          ++ [.data vec (wrapS 32 n)] := by rw [hx]
    exact .data hstart hhs hcs

/-- The header calls of a part whose headers are read to the end begin with its first line. -/
theorem hasHeader_iff {start : EvbufferPtr I} {inp₁ : Input E} {fuel : ℕ}
    (hstart : Evbuffer.search inp.evb (lit "--" ++ boundary) = some start)
    (hhs : (scanHeaders (fuel + 1) (inp.behindDelimiter boundary start)).outcome = .ok inp₁) :
    HasHeader boundary inp
      ↔ (scanHeaders (fuel + 1) (inp.behindDelimiter boundary start)).calls ≠ [] := by
  have hline : HasHeader boundary inp ↔ ∃ ln,
      (inp.behindDelimiter boundary start).readln.1 = some ln ∧ cstr ln ≠ [] := by
    constructor
    · rintro ⟨start', ln, hs, hln⟩
      obtain rfl : start = start' := Option.some.inj (hstart.symm.trans hs)
      exact ⟨ln, hln⟩
    · rintro ⟨ln, hln⟩
      exact ⟨start, ln, hstart, hln⟩
  rw [hline]
  rw [scanHeaders] at hhs ⊢
  rcases hln : (inp.behindDelimiter boundary start).readln.1 with _ | ln <;> rw [hln] at hhs
  · simp [scanHeaderLine, pure]
  by_cases hblank : cstr ln = []
  · simp [scanHeaderLine, hblank, pure]
  · refine ⟨fun _ => ?_, fun _ => ⟨ln, rfl, hblank⟩⟩
    simp only [scanHeaderLine, hblank, if_false] at hhs ⊢
    split at hhs
    · exact List.cons_ne_nil _ _
    · cases hhs

end Parts

/-- Records are numbered in the order in which they are made. -/
structure RecordsNumbered (d : BufmodData) : Prop where
  records : ∀ r b, d.records r = some b → r < d.next
  current : ∀ r, d.currentBuf = some r → r < d.next
  freed : ∀ r ∈ d.freed, r < d.next

section Numbers

variable {mountpoint : Bytes} {T : AuraTransport} {d d' : BufmodData} {r : RecordId}

theorem RecordsNumbered.use (h : RecordsNumbered d) (r : RecordId) : RecordsNumbered (d.use r) := by
  obtain ⟨st, hst⟩ := use_eq d r
  rw [hst]
  exact ⟨h.records, h.current, h.freed⟩

@[simp] theorem next_use (d : BufmodData) (r : RecordId) : (d.use r).next = d.next := by
  obtain ⟨st, hst⟩ := use_eq d r
  rw [hst]

theorem RecordsNumbered.setRecord (h : RecordsNumbered d) (hr : r < d.next) (b : AvailableBuffer) :
    RecordsNumbered (d.setRecord r b) := by
  refine ⟨fun q b' hq => ?_, h.current, h.freed⟩
  rcases eq_or_ne q r with rfl | hne
  · exact hr
  · rw [setRecord_of_ne hne] at hq
    exact h.records q b' hq

theorem RecordsNumbered.free (h : RecordsNumbered d) (hr : r < d.next) :
    RecordsNumbered (d.free r) := by
  refine ⟨h.records, h.current, fun q hq => ?_⟩
  rcases List.mem_append.1 hq with hq | hq
  · exact h.freed q hq
  · exact List.mem_singleton.1 hq ▸ hr

theorem RecordsNumbered.newRecord (h : RecordsNumbered d) : RecordsNumbered d.newRecord := by
  refine ⟨fun q b hq => ?_, fun q hq => ?_, fun q hq => Nat.lt_succ_of_lt (h.freed q hq)⟩
  · rcases eq_or_ne q d.next with rfl | hne
    · exact Nat.lt_succ_self _
    · have hold : d.newRecord.records q = d.records q := Function.update_of_ne hne _ _
      exact Nat.lt_succ_of_lt (h.records q b (hold ▸ hq))
  · obtain rfl : d.next = q := Option.some.inj hq
    exact Nat.lt_succ_self _

theorem RecordsNumbered.drop (h : RecordsNumbered d) (o : Option RecordId) :
    RecordsNumbered (bufAvailDrop mountpoint d o) := by
  rcases o with _ | r
  · exact h
  rcases hb : d.records r with _ | b
  · simpa only [bufAvailDrop, hb] using h
  have huse := h.use r
  have hr : r < (d.use r).next := next_use d r ▸ h.records r b hb
  simp only [bufAvailDrop, hb]
  generalize d.use r = d₁ at hr huse
  have hroutes : RecordsNumbered { d₁ with routes :=
      (d₁.routes.del (downloadPath mountpoint b.id)).del (dropPath mountpoint b.id) } :=
    ⟨huse.records, huse.current, huse.freed⟩
  have hreg : RecordsNumbered (bufAvailDeregister mountpoint d₁ r b) := hroutes.setRecord hr _
  have hlink : ∀ {d₂ : BufmodData}, RecordsNumbered d₂ → r < d₂.next →
      RecordsNumbered ({ d₂ with buffers := d₂.buffers.erase r }.free r) := fun h hr =>
    RecordsNumbered.free ⟨h.records, h.current, h.freed⟩ hr
  split_ifs
  · exact hlink hreg hr
  · exact hlink huse hr
  · exact hreg.free hr
  · exact huse.free hr

theorem RecordsNumbered.freeCurrent (h : RecordsNumbered d) : RecordsNumbered (freeCurrent d) := by
  unfold AuraHttpd.freeCurrent
  rcases hr : d.currentBuf with _ | r
  · exact h
  · exact (h.use r).free (next_use d r ▸ h.current r hr)

theorem InfoSet.numbered (hset : InfoSet d r d') (h : RecordsNumbered d) : RecordsNumbered d' := by
  cases hset with
  | refl => exact h
  | set _ hb => exact (h.use r).setRecord (next_use d r ▸ h.records r _ hb) _

theorem RecordsNumbered.fillRecord (h : RecordsNumbered d) {b : AvailableBuffer}
    (hb : d.records r = some b) (aura : Option AuraBuffer) :
    RecordsNumbered (d.countPart.fillRecord r b aura) := by
  obtain ⟨st, hst⟩ := fillRecord_eq d.countPart r b aura
  rw [hst]
  have hcount : RecordsNumbered { d.countPart with
      stale := st, currentId := wrapS 64 (d.countPart.currentId + 1) } :=
    ⟨h.records, h.current, h.freed⟩
  exact hcount.setRecord (h.records r b hb) _

theorem RecordsNumbered.store (h : RecordsNumbered d) (hr : r < d.next) (b : AvailableBuffer)
    (part : Part) : RecordsNumbered (storeBuffer mountpoint d r b part) := by
  refine ⟨fun q b' hq => ?_, (fun q hq => by cases hq), h.freed⟩
  rcases eq_or_ne q r with rfl | hne
  · exact hr
  · have hold : (storeBuffer mountpoint d r b part).records q = d.records q :=
      Function.update_of_ne hne _ _
    exact h.records q b' (hold ▸ hq)

theorem BufTrans.numbered {c : Call} {err : Bool} (ht : BufTrans mountpoint T d c err d')
    (h : RecordsNumbered d) : RecordsNumbered d' := by
  cases ht with
  | headerOpen hr hset => exact hset.numbered h
  | headerNew hr hset => exact hset.numbered (h.newRecord.setRecord (Nat.lt_succ_self _) _)
  | headerNoRecord hr => exact h
  | headerNoInfo hr => exact (h.newRecord.drop _).freeCurrent
  | dataTooBig hsize =>
    have hcount : RecordsNumbered d.countPart := ⟨h.records, h.current, h.freed⟩
    exact (hcount.drop _).freeCurrent
  | dataRefused hsize hr hb => exact ((h.fillRecord hb _).drop _).freeCurrent
  | @dataStored vec n r b aura hsize hr hb ha =>
    have hfill := h.fillRecord hb (some aura)
    exact hfill.store (hfill.records _ _ (setRecord_self _ _ _)) _ _

theorem RecordsNumbered.clearStale (h : RecordsNumbered d) :
    RecordsNumbered (clearStale mountpoint d) := by
  have hinfo : RecordsNumbered
      { d with released := d.released ++ d.currentInfo.toList, currentInfo := none } :=
    ⟨h.records, h.current, h.freed⟩
  have hdrop : RecordsNumbered (bufAvailDrop mountpoint
      { d with released := d.released ++ d.currentInfo.toList, currentInfo := none }
      d.currentBuf) := hinfo.drop _
  exact ⟨hdrop.records, (fun q hq => by cases hq), hdrop.freed⟩

/-- No callback makes a record under an old number. -/
theorem recordsNumbered_keeps (T : AuraTransport) : (buffermod T).Keeps RecordsNumbered where
  hook {fsd fsd'} h hh := by
    rw [bufferHook_eq] at hh
    obtain rfl := Except.ok.inj hh
    have hclear : RecordsNumbered (AuraHttpd.clearStale fsd.mountpoint fsd.modData) :=
      h.clearStale
    split_ifs
    · exact hclear
    · exact ⟨hclear.records, hclear.current, hclear.freed⟩
  call h hcall := by
    obtain ⟨err, hcall⟩ := bufCall_of_call hcall
    cases hcall with
    | passed ht => exact ht.numbered h
    | refused ht => exact ht.numbered h
  finalize {fsd fsd' ok} h hf := by
    rcases ok with _ | _
    · rw [bufferFinalize_false] at hf
      obtain rfl := Except.ok.inj hf
      exact h.freeCurrent
    · rw [bufferFinalize_true] at hf
      obtain rfl := Except.ok.inj hf
      exact ⟨h.records, h.current, h.freed⟩

section Requests

variable {E I : Type} [Evbuffer E I]

theorem RecordsNumbered.foldl_use : ∀ (rs : List RecordId) {d : BufmodData}, RecordsNumbered d →
    RecordsNumbered (rs.foldl BufmodData.use d)
  | [], _, h => h
  | r :: rs, _, h => RecordsNumbered.foldl_use rs (h.use r)

theorem recordsNumbered_run {es : List (Bytes × UploadRequest E)} {mp : UploadMount BufmodData}
    (h : run (storeStep T) (bufferMount mountpoint) es = some mp) :
    Holds mountpoint RecordsNumbered mp.fsd := by
  refine run_inv (C := fun _ _ => True) (I := fun mp => Holds mountpoint RecordsNumbered mp.fsd)
    (fun mp e mp' hI _ hs => ?_) es ⟨rfl, storeWf_mount, ?_⟩ (along_true es _) h
  · have hwf := storeStep_wf hI.path hI.wf hs
    refine ⟨hwf.1, hwf.2, ?_⟩
    cases request_run hI.path hI.wf hs with
    | post hf h => exact (recordsNumbered_keeps T).upload h hI.prop
    | used rs hmp hrs hd => exact hd ▸ hI.prop.foldl_use rs
    | @read r b aura hmp hd =>
      obtain ⟨pos, hd'⟩ := hd.eq
      rw [hd']
      have hlt : r < (mp.fsd.modData.use r).next :=
        (next_use mp.fsd.modData r).symm ▸ hI.prop.records r b hd.record
      exact (hI.prop.use r).setRecord hlt _
    | drop hf hp hr hb hmp hreg hlink hd => exact hd ▸ (hI.prop.use _).drop _
  · refine ⟨?_, ?_, ?_⟩ <;> simp [bufferMount]

/-- The record of a part, while its callbacks are made. -/
structure OpenRecord (d₀ d : BufmodData) : Prop where
  current : d.currentBuf = some d₀.next
  next : d.next = d₀.next + 1
  freed : d.freed = d₀.freed
  record : ∃ b, d.records d₀.next = some b

/-- What the first header callback of a part leaves, and every other one keeps. -/
theorem OpenRecord.info {d₀ : BufmodData} (h : OpenRecord d₀ d) (hset : InfoSet d d₀.next d') :
    OpenRecord d₀ d' := by
  cases hset with
  | refl => exact h
  | set hg hb =>
    obtain ⟨st, hst⟩ := use_eq d d₀.next
    rw [hst]
    exact ⟨h.current, h.next, h.freed, _, setRecord_self _ _ _⟩

theorem openRecord_header {key value : Bytes}
    (ht : BufTrans mountpoint T d (.formHeader key value) false d') (hcur : d.currentBuf = none) :
    OpenRecord d d' := by
  cases ht with
  | headerOpen hr hset =>
    rw [hcur] at hr
    cases hr
  | headerNew hr hset =>
    have hnew : OpenRecord d (d.newRecord.setRecord d.next { info := some (.object []) }) :=
      ⟨rfl, rfl, rfl, _, setRecord_self _ _ _⟩
    exact hnew.info hset

theorem OpenRecord.header {d₀ : BufmodData} {key value : Bytes} (h : OpenRecord d₀ d)
    (ht : BufTrans mountpoint T d (.formHeader key value) false d') : OpenRecord d₀ d' := by
  cases ht with
  | headerOpen hr hset =>
    obtain rfl := Option.some.inj (h.current.symm.trans hr)
    exact h.info hset
  | headerNew hr hset =>
    rw [h.current] at hr
    cases hr

theorem openRecord_headers {cs : List Call} (hcs : ∀ c ∈ cs, ∃ key value, c = .formHeader key value)
    (hne : cs ≠ []) {fsd fsd' : Upfs BufmodData} (he : fsd.uploadError = false)
    (hcur : fsd.modData.currentBuf = none) (hr : (buffermod T).replay fsd cs = .ok fsd')
    (he' : fsd'.uploadError = false) : OpenRecord fsd.modData fsd'.modData := by
  rcases cs with _ | ⟨c, cs⟩
  · exact absurd rfl hne
  have hr : (buffermod T).replay fsd ([c] ++ cs) = .ok fsd' := hr
  obtain ⟨fsd₁, hr₁, he₁, hr₂⟩ := replay_append_ok he hr he'
  obtain ⟨key, value, rfl⟩ := hcs c List.mem_cons_self
  have h₁ := openRecord_header (bufTrans_of_call (replay_single hr₁) he₁) hcur
  have hall := replay_along (m := buffermod T)
    (C := fun _ c => ∃ key value, c = .formHeader key value)
    (P := fun fsd₂ => OpenRecord fsd.modData fsd₂.modData) (Q := fun _ => True)
    (fun fsd₂ c fsd₃ _ h hc hcall => ?_) cs he₁ h₁
    (along_of_forall fun c hc => hcs c (List.mem_cons_of_mem _ hc)) hr₂
  · rwa [he', if_neg Bool.false_ne_true] at hall
  · obtain ⟨key, value, rfl⟩ := hc
    split_ifs with he₃
    exact h.header (bufTrans_of_call hcall (by simpa using he₃))

theorem BufTrans.noRecord {vec : List Bytes} {n : ℤ}
    (ht : BufTrans mountpoint T d (.data vec n) false d') : d'.currentBuf = none := by
  cases ht with
  | dataStored => rfl

/-- A part begins. -/
structure PartBegins (fsd : Upfs BufmodData) : Prop where
  noError : fsd.uploadError = false
  numbered : RecordsNumbered fsd.modData
  noRecord : fsd.modData.currentBuf = none

theorem PartBegins.next {boundary : Bytes} {fsd fsd' : Upfs BufmodData} {inp inp' : Input E}
    (h : PartBegins fsd)
    (hp : multipartHandleNextFile (buffermod T) boundary fsd inp = .ok (1, fsd', inp')) :
    PartBegins fsd' := by
  obtain ⟨he, hx, hr⟩ := nextFile_passed h.noError hp
  refine ⟨he, (recordsNumbered_keeps T).replay h.numbered h.noError hr, ?_⟩
  cases partCalls_scanNextFile boundary inp with
  | noData _ hret => exact absurd hx (hret inp')
  | data _ _ hcs =>
    rw [hcs] at hr
    obtain ⟨fsd₁, -, -, hr⟩ := replay_append_ok h.noError hr he
    exact (bufTrans_of_call (replay_single hr) he).noRecord

theorem PartBegins.comes {boundary : Bytes} {fsd fsd' : Upfs BufmodData} {inp inp' : Input E}
    (hc : ComesToPart (buffermod T) boundary fsd inp fsd' inp') : PartBegins fsd →
    PartBegins fsd' := by
  induction hc with
  | here => exact id
  | next h _ ih => exact fun hb => ih (hb.next h)

/-- A live record that was made behind `d₀`. -/
def OwnRecord (d₀ d : BufmodData) : Prop :=
  ∃ r b, d.currentBuf = some r ∧ d₀.next ≤ r ∧ r < d.next ∧ r ∉ d.freed ∧ d.records r = some b

theorem OpenRecord.own {d₀ : BufmodData} (h : OpenRecord d₀ d) (hn : RecordsNumbered d₀) :
    OwnRecord d₀ d := by
  obtain ⟨b, hb⟩ := h.record
  refine ⟨d₀.next, b, h.current, le_rfl, h.next ▸ Nat.lt_succ_self _, fun hf => ?_, hb⟩
  exact lt_irrefl _ (hn.freed _ (h.freed ▸ hf))

/-- In every state requests lead to, whatever of them failed: when an upload comes to the data
callback of a part, the current record is a live one that the header callbacks of this part have
made, exactly where the part has a header line. -/
theorem own_record_iff (T : AuraTransport) (mountpoint : Bytes)
    (es : List (Bytes × UploadRequest E)) (mp : UploadMount BufmodData)
    (h : run (storeStep T) (bufferMount mountpoint) es = some mp) (request : UploadRequest E)
    {fsd₀ fsd₁ fsd₂ : Upfs BufmodData} {boundary : Bytes} {inp₁ : Input E}
    (hhook : (buffermod T).callHook (request.start mp) = .ok fsd₀)
    (he₀ : fsd₀.uploadError = false)
    (hpart : ComesToPart (buffermod T) boundary fsd₀ (request.input mp) fsd₁ inp₁)
    {cs cs' : List Call} {vec : List Bytes} {length : ℤ}
    (hcalls : (scanNextFile boundary inp₁).calls = cs ++ .data vec length :: cs')
    (hcs : (buffermod T).replay fsd₁ cs = .ok fsd₂) (he₂ : fsd₂.uploadError = false) :
    OwnRecord fsd₁.modData fsd₂.modData ↔ HasHeader boundary inp₁ := by
  have hh := recordsNumbered_run h
  have hstart : RecordsNumbered (request.start mp).modData := hh.prop
  have hb : PartBegins fsd₁ := PartBegins.comes hpart
    ⟨he₀, (recordsNumbered_keeps T).hook hstart hhook,
      (hook_kept (request.start mp) hh.path hh.wf hhook).2.2⟩
  cases partCalls_scanNextFile boundary inp₁ with
  | noData hno _ =>
    exact absurd (hcalls ▸ List.mem_append_right cs List.mem_cons_self) (hno vec length)
  | @data start inp₂ fuel vec' n hstart hhs hcs' =>
    have hheaders := scanHeaders_calls (fuel + 1) (inp₁.behindDelimiter boundary start)
    obtain rfl := headers_eq hheaders (hcs'.symm.trans hcalls)
    rw [hasHeader_iff hstart hhs]
    constructor
    · rintro ⟨r, b, hcur, -⟩ hnil
      rw [hnil] at hcs
      cases hcs
      rw [hb.noRecord] at hcur
      cases hcur
    · intro hne
      exact (openRecord_headers hheaders hne hb.noError hb.noRecord hcs he₂).own hb.numbered

end Requests

end Numbers

/-- The record of the part of an upload by itself. -/
theorem own_record_byteRequest : ∃ fsd₀ fsd₁,
    (buffermod (.zeroed 3)).callHook (byteRequest.start (bufferMount (lit "/buf"))) = .ok fsd₀
      ∧ (buffermod (.zeroed 3)).replay fsd₀ [.formHeader (lit "Content-Disposition")
        (lit "form-data; name=\"f\"")] = .ok fsd₁
      ∧ OwnRecord fsd₀.modData fsd₁.modData := by
  have hrun : ((buffermod (.zeroed 3)).callHook (byteRequest.start (bufferMount (lit "/buf")))
      >>= fun fsd => ((buffermod (.zeroed 3)).replay fsd [.formHeader (lit "Content-Disposition")
        (lit "form-data; name=\"f\"")]).map fun fsd' => (fsd.uploadError, fsd'.uploadError))
      = .ok (false, false) := by
    decide +kernel
  obtain ⟨fsd₀, hhook, hrun⟩ := Except.bind_eq_ok.1 hrun
  rcases hr : (buffermod (.zeroed 3)).replay fsd₀ [.formHeader (lit "Content-Disposition")
    (lit "form-data; name=\"f\"")] with f | fsd₁ <;> rw [hr] at hrun
  · cases hrun
  obtain ⟨he₀, he₁⟩ := Prod.mk.inj (Except.ok.inj hrun)
  have hcalls : (scanNextFile (lit "B") (byteRequest.input (bufferMount (lit "/buf")))).calls
      = [.formHeader (lit "Content-Disposition") (lit "form-data; name=\"f\"")]
        ++ .data [lit "x\r\n--B--\r\n"] 1 :: [] := by
    decide +kernel
  refine ⟨fsd₀, fsd₁, hhook, hr, (own_record_iff (.zeroed 3) (lit "/buf") [] _ rfl byteRequest
    hhook he₀ (.here _ _) hcalls hr he₁).2 ?_⟩
  exact ⟨⟨0, ()⟩, lit "Content-Disposition: form-data; name=\"f\"", by rfl, by decide +kernel,
    by decide +kernel⟩

/-- An upload of one part without headers. -/
def headerlessRequest : UploadRequest Bytes where
  contentType := some (lit "multipart/form-data; boundary=B")
  body := lit "--B\r\n\r\nx\r\n--B--\r\n"

/-- The parser takes a part without headers, and its data callback is called without a record. -/
theorem headerless_part_without_record : ¬ ∀ (T : AuraTransport)
    (es : List (Bytes × UploadRequest Bytes)) (mp : UploadMount BufmodData)
    (request : UploadRequest Bytes) (boundary : Bytes) (fsd₀ fsd₁ fsd₂ : Upfs BufmodData)
    (inp₁ : Input Bytes) (cs cs' : List Call) (vec : List Bytes) (length : ℤ),
    run (storeStep T) (bufferMount (lit "/buf")) es = some mp →
    (request.scan boundary mp.numIovec).outcome.map Prod.fst = .ok 0 →
    (buffermod T).callHook (request.start mp) = .ok fsd₀ → fsd₀.uploadError = false →
    ComesToPart (buffermod T) boundary fsd₀ (request.input mp) fsd₁ inp₁ →
    (scanNextFile boundary inp₁).calls = cs ++ .data vec length :: cs' →
    (buffermod T).replay fsd₁ cs = .ok fsd₂ → fsd₂.uploadError = false →
    OwnRecord fsd₁.modData fsd₂.modData := by
  intro h
  have hrun : ((buffermod (.zeroed 3)).callHook (headerlessRequest.start
      (bufferMount (lit "/buf")))).map (fun fsd => (fsd.uploadError, fsd.modData.currentBuf))
        = .ok (false, none) := by
    decide +kernel
  rcases hhook : (buffermod (.zeroed 3)).callHook
    (headerlessRequest.start (bufferMount (lit "/buf"))) with f | fsd₀ <;> rw [hhook] at hrun
  · cases hrun
  obtain ⟨he₀, hcur⟩ := Prod.mk.inj (Except.ok.inj hrun)
  have hown := h (.zeroed 3) [] _ headerlessRequest (lit "B") fsd₀ fsd₀ fsd₀ _ [] []
    [lit "x\r\n--B--\r\n"] 1 rfl (by decide +kernel) hhook he₀ (.here _ _) (by decide +kernel)
    rfl he₀
  obtain ⟨r, b, hr, -⟩ := hown
  rw [hcur] at hr
  cases hr

end AuraHttpd
