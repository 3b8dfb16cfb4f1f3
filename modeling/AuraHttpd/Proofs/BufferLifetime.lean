import AuraHttpd.Proofs.BufferStore

/-!
# When records and infos are released

`buffer_send_result` releases `current_info` or frees the current record and forgets neither, so
whatever is open when it is called stays behind as a dangling pointer: the infos of an upload that
succeeds, the record of one that fails with a record open.  A callback that drops the current
record frees it once more on its way through `uploadfs_upload_send_error`.  An upload that fails
while no record is open leaves nothing behind (`QuietUpload`), and neither do the other requests
(`nothing_dangles`).
-/

namespace AuraHttpd

open CString Script StepSystem

/-- No record was freed twice or used after it was freed, no array was released twice, and what is
kept for the next request was not released. -/
structure NoDangling (d : BufmodData) : Prop where
  freed : d.freed.Nodup
  stale : d.stale = []
  released : d.released.Nodup
  currentBuf : ∀ r, d.currentBuf = some r → r ∉ d.freed
  currentInfo : ∀ i, d.currentInfo = some i → i ∉ d.released

/-- In a call that is refused no record is open, and none was made. -/
def QuietCall (T : AuraTransport) (fsd : Upfs BufmodData) (c : Call) : Prop :=
  fsd.uploadError = true ∨ bufferPasses T fsd c ∨ fsd.modData.currentBuf = none
    ∧ ∀ key value, c = .formHeader key value → fsd.fails = true

section Requests

variable {E I : Type} [Evbuffer E I]

/-- If the calls of an upload's body are made at all, the first that is refused is refused with no
record open, and without one the scan fails, with no record open in the end. -/
def QuietUpload (T : AuraTransport) (mp : UploadMount BufmodData) (request : UploadRequest E) :
    Prop :=
  ∀ fsd₀ boundary, (buffermod T).callHook (request.start mp) = .ok fsd₀ →
    fsd₀.uploadError = false → requestCheckHeaders request.contentType = some boundary →
    Along (buffermod T).step (QuietCall T) fsd₀ (request.calls mp.numIovec)
      ∧ ∀ fsd r, (buffermod T).replay fsd₀ (request.calls mp.numIovec) = .ok fsd →
        fsd.uploadError = false → (request.scan boundary mp.numIovec).outcome = .ok r →
        r.1 < 0 ∧ fsd.modData.currentBuf = none

/-- Uploads are quiet. -/
def QuietRequest (T : AuraTransport) (mp : UploadMount BufmodData)
    (e : Bytes × UploadRequest E) : Prop :=
  mp.fsd.modData.routes.find e.1 = some .post → QuietUpload T mp e.2

end Requests

/-- Moreover no stored record was freed, and only what was allocated was released. -/
structure Tidy (d : BufmodData) : Prop extends NoDangling d where
  freed_lt : ∀ r ∈ d.freed, r < d.next
  stored : ∀ r ∈ d.buffers, r ∉ d.freed
  released_lt : ∀ i ∈ d.released, i < d.nextInfo
  info_lt : ∀ i, d.currentInfo = some i → i < d.nextInfo

variable {mountpoint : Bytes} {T : AuraTransport} {d d' : BufmodData}

theorem use_live {r : RecordId} (h : r ∉ d.freed) : d.use r = d := if_neg h

theorem Tidy.free (h : Tidy d) {r : RecordId} (hr : r ∉ d.freed) (hlt : r < d.next)
    (hbuf : r ∉ d.buffers) (hcur : d.currentBuf ≠ some r) : Tidy (d.free r) := by
  have hnew : ∀ q, q ∉ d.freed → q ≠ r → q ∉ (d.free r).freed := fun q hq hne => by
    simp [BufmodData.free, hq, hne]
  have hnodup : (d.free r).freed.Nodup := by simpa [BufmodData.free] using h.freed.concat hr
  refine ⟨⟨hnodup, h.stale, h.released, fun q hq => ?_, h.currentInfo⟩,
    fun q hq => ?_, fun q hq => ?_, h.released_lt, h.info_lt⟩
  · refine hnew q (h.currentBuf q hq) ?_
    rintro rfl
    exact hcur hq
  · rcases List.mem_append.1 hq with hq | hq
    · exact h.freed_lt q hq
    · exact List.mem_singleton.1 hq ▸ hlt
  · exact hnew q (h.stored q hq) (ne_of_mem_of_not_mem hq hbuf)

theorem Tidy.setRecord (h : Tidy d) (r : RecordId) (b : AvailableBuffer) :
    Tidy (d.setRecord r b) :=
  ⟨⟨h.freed, h.stale, h.released, h.currentBuf, h.currentInfo⟩, h.freed_lt, h.stored,
    h.released_lt, h.info_lt⟩

theorem Tidy.newRecord (h : Tidy d) : Tidy d.newRecord := by
  refine ⟨⟨h.freed, h.stale, h.released, fun r hr => ?_, h.currentInfo⟩,
    fun r hr => Nat.lt_succ_of_lt (h.freed_lt r hr), h.stored, h.released_lt, h.info_lt⟩
  obtain rfl : d.next = r := Option.some.inj hr
  exact fun hf => absurd (h.freed_lt _ hf) (lt_irrefl _)

theorem Tidy.newInfo (h : Tidy d) : Tidy d.newInfo := by
  refine ⟨⟨h.freed, h.stale, h.released, h.currentBuf, fun i hi => ?_⟩, h.freed_lt, h.stored,
    fun i hi => Nat.lt_succ_of_lt (h.released_lt i hi), fun i hi => ?_⟩
  · obtain rfl : d.nextInfo = i := Option.some.inj hi
    exact fun hf => absurd (h.released_lt _ hf) (lt_irrefl _)
  · obtain rfl : d.nextInfo = i := Option.some.inj hi
    exact Nat.lt_succ_self _

/-- The infos left by a request are released and forgotten, and its record is forgotten. -/
def forget (d : BufmodData) : BufmodData :=
  { d with
    released := d.released ++ d.currentInfo.toList
    currentInfo := none
    currentBuf := none }

theorem Tidy.forget (h : Tidy d) : Tidy (forget d) := by
  refine ⟨⟨h.freed, h.stale, ?_, (fun r hr => by cases hr), (fun i hi => by cases hi)⟩, h.freed_lt,
    h.stored, fun i hi => ?_, (fun i hi => by cases hi)⟩
  · rcases hi : d.currentInfo with _ | i
    · simpa [AuraHttpd.forget, hi] using h.released
    · simpa [AuraHttpd.forget, hi] using h.released.concat (h.currentInfo i hi)
  · rcases List.mem_append.1 hi with hi | hi
    · exact h.released_lt i hi
    · exact h.info_lt i (Option.mem_toList.1 hi)

theorem bufAvailDrop_live {r : RecordId} {b : AvailableBuffer} (hb : d.records r = some b)
    (hreg : b.registered = false) (hlink : b.linked = false) (hlive : r ∉ d.freed) :
    bufAvailDrop mountpoint d (some r) = d.free r := by
  rw [bufAvailDrop_loose hb hreg hlink, use_live hlive]

/-- The hook releases what the request before it has left. -/
theorem Tidy.clearStale (h : Tidy d) (hwf : StoreWf mountpoint d) :
    Tidy (clearStale mountpoint d) := by
  rcases hr : d.currentBuf with _ | r
  · have hclear : AuraHttpd.clearStale mountpoint d = AuraHttpd.forget d := by
      rw [AuraHttpd.clearStale, hr]
      rfl
    rw [hclear]
    exact h.forget
  · have hlive := h.currentBuf r hr
    obtain ⟨hnot, b, hb, hreg, hlink⟩ := hwf.loose r hr
    have hdrop : bufAvailDrop mountpoint
        { d with released := d.released ++ d.currentInfo.toList, currentInfo := none } d.currentBuf
        = { d with
            released := d.released ++ d.currentInfo.toList, currentInfo := none }.free r := by
      rw [hr]
      exact bufAvailDrop_live hb hreg hlink hlive
    have hclear : AuraHttpd.clearStale mountpoint d = (AuraHttpd.forget d).free r :=
      congrArg (fun d : BufmodData => { d with currentBuf := none }) hdrop
    rw [hclear]
    exact h.forget.free hlive (hwf.lt_next r b hb) hnot (by simp [AuraHttpd.forget])

theorem InfoSet.tidy {r : RecordId} (hset : InfoSet d r d') (h : Tidy d)
    (hr : d.currentBuf = some r) : Tidy d' := by
  cases hset with
  | refl => exact h
  | set hg hb =>
    rw [use_live (h.currentBuf r hr)]
    exact h.setRecord r _

theorem Tidy.store (h : Tidy d) {r : RecordId} (hr : d.currentBuf = some r) (b : AvailableBuffer)
    (aura : AuraBuffer) (part : Part) :
    Tidy (storeBuffer mountpoint (d.countPart.fillRecord r b (some aura)) r
      { b with buf := some aura, id := d.currentId } part) := by
  have hlive := h.currentBuf r hr
  have huse : d.countPart.use r = d.countPart := use_live hlive
  rw [BufmodData.fillRecord, huse]
  refine ⟨⟨h.freed, h.stale, h.released, (fun q hq => by cases hq), h.currentInfo⟩, h.freed_lt,
    fun q hq => ?_, h.released_lt, h.info_lt⟩
  rcases List.mem_append.1 hq with hq | hq
  · exact h.stored q hq
  · exact List.mem_singleton.1 hq ▸ hlive

theorem Tidy.passed (h : Tidy d) {c : Call} (ht : BufTrans mountpoint T d c false d') :
    Tidy d' := by
  cases ht with
  | headerOpen hr hset => exact hset.tidy h hr
  | headerNew hr hset => exact hset.tidy (h.newRecord.setRecord _ _) rfl
  | dataStored hsize hr hb ha => exact h.store hr _ _ _

/-- Without a record open, a header is refused for want of a record. -/
theorem formHeader_noRecord {fsd fsd' : Upfs BufmodData} {key value : Bytes}
    (hcur : fsd.modData.currentBuf = none) (hf : fsd.fails = true)
    (h : (buffermod T).call fsd (.formHeader key value) = .ok fsd') :
    fsd'.modData = fsd.modData := by
  change bufferHandleFormHeader fsd key value = _ at h
  unfold bufferHandleFormHeader at h
  simp only [hcur, hf, if_true] at h
  rw [errMem_eq] at h
  obtain rfl := Except.ok.inj h
  change freeCurrent fsd.modData = fsd.modData
  simp only [freeCurrent, hcur]

theorem call_tidy {fsd fsd' : Upfs BufmodData} {c : Call} (h : Tidy fsd.modData)
    (he : fsd.uploadError = false) (hq : QuietCall T fsd c)
    (hcall : (buffermod T).call fsd c = .ok fsd') :
    Tidy fsd'.modData ∧ (fsd'.uploadError = true → fsd'.modData.currentBuf = none) := by
  by_cases hp : bufferPasses T fsd c
  · obtain ⟨fsd'', h', hc⟩ := (bufferCall_spec fsd c).pass hp
    obtain rfl := Except.ok.inj (hcall.symm.trans h')
    cases hc with
    | passed ht => exact ⟨h.passed ht, fun he' => by rw [he] at he'; cases he'⟩
  · obtain ⟨hcur, hfails⟩ : fsd.modData.currentBuf = none ∧
        ∀ key value, c = .formHeader key value → fsd.fails = true := by
      rcases hq with hq | hq | hq
      · rw [he] at hq
        cases hq
      · exact absurd hq hp
      · exact hq
    cases c with
    | formHeader key value =>
      rw [formHeader_noRecord hcur (hfails key value rfl) hcall]
      exact ⟨h, fun _ => hcur⟩
    | data vec n =>
      cases (bufferCall_spec fsd (.data vec n)).fail hp fsd' hcall with
      | refused ht =>
        cases ht with
        | dataTooBig hsize =>
          have hd : freeCurrent (bufAvailDrop fsd.mountpoint fsd.modData.countPart
              fsd.modData.currentBuf) = fsd.modData.countPart := by
            simp only [hcur, bufAvailDrop, freeCurrent, BufmodData.countPart]
          refine ⟨?_, fun _ => ?_⟩
          · change Tidy (freeCurrent _)
            rw [hd]
            exact ⟨⟨h.freed, h.stale, h.released, h.currentBuf, h.currentInfo⟩, h.freed_lt,
              h.stored, h.released_lt, h.info_lt⟩
          · change (freeCurrent _).currentBuf = none
            rw [hd]
            exact hcur
        | dataRefused hsize hr hb =>
          rw [hcur] at hr
          cases hr

theorem hook_tidy (fsd : Upfs BufmodData) {fsd' : Upfs BufmodData}
    (hmp : fsd.mountpoint = mountpoint) (hwf : StoreWf mountpoint fsd.modData)
    (h : Tidy fsd.modData) (hh : (buffermod T).callHook fsd = .ok fsd') : Tidy fsd'.modData := by
  have hclear := h.clearStale hwf
  rw [bufferHook_eq, hmp] at hh
  rcases hf : fsd.fails with _ | _ <;> rw [hf] at hh
  · obtain rfl := Except.ok.inj hh
    exact hclear.newInfo
  · obtain rfl := Except.ok.inj hh
    exact hclear

/-- With no record open, an error only answers. -/
theorem sendError_tidy {fsd fsd' : Upfs BufmodData} (h : Tidy fsd.modData)
    (hcur : fsd.modData.currentBuf = none)
    (hs : uploadfsUploadSendError (buffermod T).finalize fsd none = .ok fsd') :
    Tidy fsd'.modData := by
  obtain rfl := Except.ok.inj ((bufferSendError_eq fsd).symm.trans hs)
  change Tidy (freeCurrent fsd.modData)
  rw [freeCurrent, hcur]
  exact h

section Requests

variable {E I : Type} [Evbuffer E I]

theorem upload_tidy {mp mp' : UploadMount BufmodData} {request : UploadRequest E}
    (hup : upload (buffermod T) mp request = .ok mp') (hmp : mp.fsd.mountpoint = mountpoint)
    (hwf : StoreWf mountpoint mp.fsd.modData) (h : Tidy mp.fsd.modData)
    (hq : QuietUpload T mp request) : Tidy mp'.fsd.modData := by
  have hhook : ∀ {fsd₀}, (buffermod T).callHook (request.start mp) = .ok fsd₀ →
      Tidy fsd₀.modData ∧ fsd₀.modData.currentBuf = none := fun hh =>
    ⟨hook_tidy (request.start mp) hmp hwf h hh, (hook_kept (request.start mp) hmp hwf hh).2.2⟩
  have hcalls : ∀ {fsd₀ fsd₁}, Tidy fsd₀.modData → fsd₀.uploadError = false →
      Along (buffermod T).step (QuietCall T) fsd₀ (request.calls mp.numIovec) →
      (buffermod T).replay fsd₀ (request.calls mp.numIovec) = .ok fsd₁ →
      Tidy fsd₁.modData ∧ (fsd₁.uploadError = true → fsd₁.modData.currentBuf = none) := by
    intro fsd₀ fsd₁ h₀ he ha hr
    have := replay_along (P := fun fsd => Tidy fsd.modData)
      (Q := fun fsd => Tidy fsd.modData ∧ fsd.modData.currentBuf = none)
      (fun fsd c fsd' he h hq hcall => ?_) _ he h₀ ha hr
    · split_ifs at this with he₁
      · exact ⟨this.1, fun _ => this.2⟩
      · exact ⟨this, fun he => absurd he he₁⟩
    · obtain ⟨h', hcur'⟩ := call_tidy h he hq hcall
      split_ifs with he'
      · exact ⟨h', hcur' he'⟩
      · exact h'
  cases upload_run hup with
  | notAllowed hd => exact hd ▸ h
  | hookFails hh => exact (hhook hh).1
  | noBoundary hh he hs =>
    obtain ⟨h₀, hcur₀⟩ := hhook hh
    exact sendError_tidy h₀ hcur₀ hs
  | stopped hh he hb hr he₁ hs =>
    obtain ⟨ha, -⟩ := hq _ _ hh he hb
    obtain ⟨h₁, hcur₁⟩ := hcalls (hhook hh).1 he ha hr
    exact sendError_tidy h₁ (hcur₁ he₁) hs
  | @scanned _ _ fsd₁ r hh he hb hr he₁ hx hs =>
    obtain ⟨ha, hend⟩ := hq _ _ hh he hb
    obtain ⟨hret, hcur₁⟩ := hend fsd₁ r hr he₁ hx
    obtain ⟨h₁, -⟩ := hcalls (hhook hh).1 he ha hr
    obtain ⟨ret, inp⟩ := r
    simp only [endUpload, if_pos hret] at hs
    exact sendError_tidy h₁ hcur₁ hs

theorem foldl_use_live : ∀ {rs : List RecordId}, (∀ r ∈ rs, r ∉ d.freed) →
    rs.foldl BufmodData.use d = d
  | [], _ => rfl
  | r :: rs, h => by
    rw [List.foldl_cons, use_live (h r List.mem_cons_self)]
    exact foldl_use_live fun q hq => h q (List.mem_cons_of_mem _ hq)

/-- A stored record that is dropped is freed, and is then not stored. -/
theorem Tidy.drop (h : Tidy d) (hwf : StoreWf mountpoint d) {r : RecordId} {b : AvailableBuffer}
    (hr : r ∈ d.buffers) (hb : d.records r = some b) (hreg : b.registered = true)
    (hlink : b.linked = true) : Tidy (bufAvailDrop mountpoint (d.use r) (some r)) := by
  have hlive := h.stored r hr
  rw [use_live hlive]
  simp only [bufAvailDrop, hb, use_live hlive, hreg, hlink, if_true]
  refine Tidy.free ?_ hlive (hwf.lt_next r b hb) hwf.nodup.not_mem_erase ?_
  · exact ⟨⟨h.freed, h.stale, h.released, h.currentBuf, h.currentInfo⟩, h.freed_lt,
      fun q hq => h.stored q (List.mem_of_mem_erase hq), h.released_lt, h.info_lt⟩
  · exact fun hcur => (hwf.loose r hcur).1 hr

theorem ReadFrom.tidy {r : RecordId} {b : AvailableBuffer} {aura : AuraBuffer}
    (hd : ReadFrom d r b aura d') (h : Tidy d) : Tidy d' := by
  obtain ⟨pos, rfl⟩ := hd.eq
  rw [use_live (h.stored r hd.mem)]
  exact h.setRecord r _

theorem request_tidy {mp mp' : UploadMount BufmodData} {e : Bytes × UploadRequest E}
    (hs : storeStep T mp e = some mp') (hI : Holds mountpoint Tidy mp.fsd)
    (hq : QuietRequest T mp e) : Tidy mp'.fsd.modData := by
  cases request_run hI.path hI.wf hs with
  | post hf h => exact upload_tidy h hI.path hI.wf hI.prop (hq hf)
  | used rs hmp hrs hd =>
    rw [hd, foldl_use_live fun r hr => hI.prop.stored r (hrs r hr)]
    exact hI.prop
  | read hmp hd => exact hd.tidy hI.prop
  | drop hf hp hr hb hmp hreg hlink hd =>
    rw [hd]
    exact hI.prop.drop hI.wf hr hb hreg hlink

theorem tidy_run {es : List (Bytes × UploadRequest E)} {mp : UploadMount BufmodData}
    (h : run (storeStep T) (bufferMount mountpoint) es = some mp)
    (hq : Along (storeStep T) (QuietRequest T) (bufferMount mountpoint) es) :
    Holds mountpoint Tidy mp.fsd := by
  refine run_inv (I := fun mp => Holds mountpoint Tidy mp.fsd) (fun mp e mp' hI hq hs => ?_) es
    ⟨rfl, storeWf_mount, ?_⟩ hq h
  · have hwf := storeStep_wf hI.path hI.wf hs
    exact ⟨hwf.1, hwf.2, request_tidy hs hI hq⟩
  · refine ⟨⟨?_, ?_, ?_, ?_, ?_⟩, ?_, ?_, ?_, ?_⟩ <;> simp [bufferMount]

/-- In a run whose uploads are all quiet no record is freed twice or used after it was freed, no
array of infos is released twice, and between the requests neither `current_buf` nor
`current_info` points to what was released. -/
theorem nothing_dangles (T : AuraTransport) (mountpoint : Bytes)
    (es : List (Bytes × UploadRequest E)) (mp : UploadMount BufmodData)
    (h : run (storeStep T) (bufferMount mountpoint) es = some mp)
    (hq : Along (storeStep T) (QuietRequest T) (bufferMount mountpoint) es) :
    NoDangling mp.fsd.modData := (tidy_run h hq).prop.toNoDangling

end Requests

/-- An upload whose first part is stored and whose second part is missing. -/
def truncatedRequest : UploadRequest Bytes where
  contentType := some (lit "multipart/form-data; boundary=B")
  body := lit "--B\r\nContent-Disposition: form-data; name=\"f\"\r\n\r\nx\r\n--B\r\n"

theorem quiet_truncatedRequest :
    QuietUpload (.zeroed 3) (bufferMount (lit "/buf")) truncatedRequest := by
  intro fsd₀ boundary hh he hb
  have hcalls : truncatedRequest.calls (bufferMount (lit "/buf")).numIovec
      = [.formHeader (lit "Content-Disposition") (lit "form-data; name=\"f\""),
        .data [lit "x\r\n--B\r\n"] 1] := by
    decide +kernel
  have hstart : ∀ {α : Type} (g : Upfs BufmodData → Except Fault α),
      ((buffermod (.zeroed 3)).callHook (truncatedRequest.start (bufferMount (lit "/buf"))) >>= g)
        = g fsd₀ := fun g => by
    rw [hh]
    rfl
  have hhook : ((buffermod (.zeroed 3)).callHook (truncatedRequest.start (bufferMount (lit "/buf")))
      >>= fun fsd => .ok fsd.failures) = .ok [] := by
    decide +kernel
  have hheader : ((buffermod (.zeroed 3)).callHook
      (truncatedRequest.start (bufferMount (lit "/buf"))) >>= fun fsd =>
        ((buffermod (.zeroed 3)).call fsd (.formHeader (lit "Content-Disposition")
          (lit "form-data; name=\"f\""))).map fun fsd => (sizeWith fsd.modData 1,
            fsd.modData.maxSize, fsd.modData.currentBuf, (fsd.modData.records 0).isSome,
            fsd.failures)) = .ok (1, 8388608, some 0, true, []) := by
    decide +kernel
  have hend : ((buffermod (.zeroed 3)).callHook
      (truncatedRequest.start (bufferMount (lit "/buf"))) >>= fun fsd =>
        ((buffermod (.zeroed 3)).replay fsd
          (truncatedRequest.calls (bufferMount (lit "/buf")).numIovec)).map
            fun fsd => fsd.modData.currentBuf) = .ok none := by
    decide +kernel
  rw [hstart] at hhook hheader hend
  obtain rfl : boundary = lit "B" := by
    have : requestCheckHeaders truncatedRequest.contentType = some (lit "B") := by decide +kernel
    exact Option.some.inj (hb.symm.trans this)
  refine ⟨?_, fun fsd r hr he₁ hx => ⟨?_, ?_⟩⟩
  · rw [hcalls]
    refine ⟨.inr (.inl (.inr fun i _ => ?_)), fun fsd₁ hs => ⟨.inr (.inl ?_), fun _ _ => trivial⟩⟩
    · rw [Except.ok.inj hhook]
      rfl
    · rcases hc : (buffermod (.zeroed 3)).call fsd₀ (.formHeader (lit "Content-Disposition")
          (lit "form-data; name=\"f\"")) with f | fsd₂ <;>
        rw [UploadfsModule.step, hc] at hs <;> cases hs
      rw [hc] at hheader
      obtain ⟨hsize, hmax, hcur, hrec, hfail⟩ := by simpa [Except.map] using hheader
      obtain ⟨b, hb⟩ := Option.isSome_iff_exists.1 hrec
      refine ⟨by omega, ⟨0, b, hcur, hb⟩, fun i _ => ?_, _, rfl⟩
      rw [hfail]
      rfl
  · have hret : ((truncatedRequest.scan (lit "B")
        (bufferMount (lit "/buf")).numIovec).outcome.map Prod.fst) = .ok (-74) := by
      decide +kernel
    rw [hx] at hret
    have : r.1 = -74 := Except.ok.inj hret
    omega
  · rw [hr] at hend
    exact Except.ok.inj hend

/-- The upload, and a drop of the part that was stored. -/
def truncatedRun : List (Bytes × UploadRequest Bytes) :=
  [(lit "/buf/post", truncatedRequest), (lit "/buf/drop/0", truncatedRequest)]

theorem nothing_dangles_truncatedRun :
    ∃ mp, run (storeStep (.zeroed 3)) (bufferMount (lit "/buf")) truncatedRun = some mp
      ∧ mp.fsd.modData.freed = [0] ∧ NoDangling mp.fsd.modData := by
  have hpost : (storeStep (.zeroed 3) (bufferMount (lit "/buf"))
      (lit "/buf/post", truncatedRequest)).map (fun mp =>
        mp.fsd.modData.routes.find (lit "/buf/drop/0")) = some (some (.drop 0)) := by
    decide +kernel
  have hrun : (run (storeStep (.zeroed 3)) (bufferMount (lit "/buf")) truncatedRun).map
      (fun mp => mp.fsd.modData.freed) = some [0] := by
    decide +kernel
  obtain ⟨mp, hmp, hfreed⟩ := Option.map_eq_some_iff.1 hrun
  refine ⟨mp, hmp, hfreed, nothing_dangles (.zeroed 3) (lit "/buf") truncatedRun mp hmp ?_⟩
  refine ⟨fun _ => quiet_truncatedRequest, fun mp₁ hs => ⟨fun hf => ?_, fun _ _ => trivial⟩⟩
  rw [hs] at hpost
  cases (Option.some.inj hpost).symm.trans hf

/-- The infos of an upload that succeeded are released again by the next upload. -/
theorem infos_released_twice :
    ¬ ∀ (T : AuraTransport) (mountpoint : Bytes) (es : List (Bytes × UploadRequest Bytes))
      (mp : UploadMount BufmodData), run (storeStep T) (bufferMount mountpoint) es = some mp →
      NoDangling mp.fsd.modData := by
  intro hall
  have hrun : (run (storeStep (.zeroed 0)) (bufferMount (lit "/buf"))
      (uploadRun ++ uploadRun)).map (fun mp => mp.fsd.modData.released) = some [0, 0, 1] := by
    decide +kernel
  obtain ⟨mp, hmp, hreleased⟩ := Option.map_eq_some_iff.1 hrun
  have := (hall _ _ _ mp hmp).released
  rw [hreleased] at this
  simp at this

end AuraHttpd
