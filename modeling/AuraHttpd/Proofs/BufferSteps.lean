import AuraHttpd.UploadBuffer
import AuraHttpd.Proofs.UploadScan

/-!
# What the callbacks of the buffer module do

`BufTrans` lists what a header or data callback can do to the module's data, with the facts that
choose it.  A callback signals no error exactly where `bufferPasses` holds of the state it is
called in (`bufferCall_pass`, `bufferCall_fail`).
-/

namespace AuraHttpd

open CString Script

/-- What `buffer_send_result` does to the current record of a failed upload. -/
def freeCurrent (d : BufmodData) : BufmodData :=
  match d.currentBuf with
  | none => d
  | some r => (d.use r).free r

/-- `upfs_data` after `uploadfs_upload_send_error`. -/
def refused {σ : Type} (fsd : Upfs σ) (d : σ) : Upfs σ :=
  { fsd with
    modData := d
    uploadError := true
    replies := fsd.replies ++ [.error 406 (lit "Not acceptable")]
    finalized := fsd.finalized ++ [false] }

theorem bufferSendError_eq (fsd : Upfs BufmodData) :
    uploadfsUploadSendError (some bufferSendResult) fsd none
      = .ok (refused fsd (freeCurrent fsd.modData)) := by
  simp only [uploadfsUploadSendError, callFinalize, bufferSendResult, Upfs.reply, refused,
    freeCurrent, Bool.false_eq_true, if_false]
  rcases fsd.modData.currentBuf with _ | r <;> rfl

theorem errMem_eq (fsd : Upfs BufmodData) (buf : Option RecordId) :
    errMem fsd buf
      = .ok (refused fsd (freeCurrent (bufAvailDrop fsd.mountpoint fsd.modData buf))) := by
  rw [errMem, bufferSendError_eq]
  rfl

/-- The info of a record was extended, or nothing was done. -/
inductive InfoSet (d : BufmodData) (r : RecordId) : BufmodData → Prop where
  | refl : InfoSet d r d
  | set {b : AvailableBuffer} {g : Json → Json} (hg : ∀ fs, ∃ fs', g (.object fs) = .object fs')
      (hb : d.records r = some b) :
    InfoSet d r ((d.use r).setRecord r { b with info := b.info.map g })

variable (mountpoint : Bytes) (T : AuraTransport)

/-- What a callback does to the data of the module; the flag is whether it signals an error. -/
inductive BufTrans (d : BufmodData) : Call → Bool → BufmodData → Prop where
  | headerOpen {key value : Bytes} {r : RecordId} {d' : BufmodData}
      (hr : d.currentBuf = some r) (hd' : InfoSet d r d') :
    BufTrans d (.formHeader key value) false d'
  | headerNew {key value : Bytes} {d' : BufmodData} (hr : d.currentBuf = none)
      (hd' : InfoSet (d.newRecord.setRecord d.next { info := some (.object []) }) d.next d') :
    BufTrans d (.formHeader key value) false d'
  | headerNoRecord {key value : Bytes} (hr : d.currentBuf = none) :
    BufTrans d (.formHeader key value) true d
  | headerNoInfo {key value : Bytes} (hr : d.currentBuf = none) :
    BufTrans d (.formHeader key value) true
      (freeCurrent (bufAvailDrop mountpoint d.newRecord (some d.next)))
  | dataTooBig {vec : List Bytes} {n : ℤ} (hsize : sizeWith d n > d.maxSize) :
    BufTrans d (.data vec n) true
      (freeCurrent (bufAvailDrop mountpoint d.countPart d.currentBuf))
  | dataRefused {vec : List Bytes} {n : ℤ} {r : RecordId} {b : AvailableBuffer}
      {aura : Option AuraBuffer} (hsize : sizeWith d n ≤ d.maxSize) (hr : d.currentBuf = some r)
      (hb : d.records r = some b) :
    BufTrans d (.data vec n) true
      (freeCurrent (bufAvailDrop mountpoint (d.countPart.fillRecord r b aura) (some r)))
  | dataStored {vec : List Bytes} {n : ℤ} {r : RecordId} {b : AvailableBuffer}
      {aura : AuraBuffer} (hsize : sizeWith d n ≤ d.maxSize) (hr : d.currentBuf = some r)
      (hb : d.records r = some b) (ha : T.fromEviovec vec n = .ok aura) :
    BufTrans d (.data vec n) false
      (storeBuffer mountpoint (d.countPart.fillRecord r b (some aura)) r
        { b with buf := some aura, id := d.currentId } ⟨vec, n⟩)

/-- A header callback has a record or the memory for one; data fits into the store, has a record,
and there is memory for it. -/
def bufferPasses (fsd : Upfs BufmodData) : Call → Prop
  | .formHeader _ _ => fsd.modData.currentBuf ≠ none ∨ ∀ i < 2, fsd.failures.getD i false = false
  | .data vec n => sizeWith fsd.modData n ≤ fsd.modData.maxSize
      ∧ (∃ r b, fsd.modData.currentBuf = some r ∧ fsd.modData.records r = some b)
      ∧ (∀ i < 2, fsd.failures.getD i false = false) ∧ ∃ aura, T.fromEviovec vec n = .ok aura

variable {mountpoint T}

theorem objectAdd_object (fs : List (Bytes × Json)) (k : Bytes) (j : Json) :
    ∃ fs', (Json.object fs).objectAdd k j = .object fs' := by
  simp only [Json.objectAdd]
  split_ifs <;> exact ⟨_, rfl⟩

theorem extractFrom_eq {σ : Type} (fsd : Upfs σ) (key cds : Bytes) :
    ∃ s fs, extractFrom fsd key cds = (s, { fsd with failures := fs }) := by
  unfold extractFrom
  split_ifs
  · exact ⟨_, _, rfl⟩
  · exact ⟨_, fsd.failures, rfl⟩

theorem newString_eq (fsd : Upfs BufmodData) (s : Option Bytes) :
    ∃ j fs, newString fsd s = (j, { fsd with failures := fs }) := by
  cases s with
  | none => exact ⟨_, fsd.failures, rfl⟩
  | some s => exact ⟨_, _, rfl⟩

theorem addDisposition_eq (fsd : Upfs BufmodData) (r : RecordId) (value : Bytes) :
    ∃ fs d', addDisposition fsd r value = { fsd with failures := fs, modData := d' }
      ∧ InfoSet fsd.modData r d' := by
  obtain ⟨s₁, fs₁, h₁⟩ := extractFrom_eq fsd (lit "filename") value
  obtain ⟨j₁, fs₂, h₂⟩ := newString_eq { fsd with failures := fs₁ } s₁
  obtain ⟨s₂, fs₃, h₃⟩ := extractFrom_eq { fsd with failures := fs₂ } (lit "name") value
  obtain ⟨j₂, fs₄, h₄⟩ := newString_eq { fsd with failures := fs₃ } s₂
  simp only [addDisposition, uploadfsGetContentDispositionFilename,
    uploadfsGetContentDispositionName, h₁, h₂, h₃, h₄]
  rcases hb : fsd.modData.records r with _ | b
  · exact ⟨fs₄, fsd.modData, rfl, .refl⟩
  · refine ⟨fs₄, _, rfl, .set (fun fs => ?_) hb⟩
    obtain ⟨fs', h'⟩ := objectAdd_object fs (lit "filename") j₁
    obtain ⟨fs'', h''⟩ := objectAdd_object fs' (lit "name") j₂
    exact ⟨fs'', by rw [h', h'']⟩

theorem disposition_eq (fsd : Upfs BufmodData) (r : RecordId) (key value : Bytes) :
    ∃ fs d', (if key = lit "Content-Disposition" then addDisposition fsd r value else fsd)
        = { fsd with failures := fs, modData := d' } ∧ InfoSet fsd.modData r d' := by
  split_ifs
  · exact addDisposition_eq fsd r value
  · exact ⟨fsd.failures, fsd.modData, rfl, .refl⟩

variable (T) in
/-- How a callback ends: without an error, or refused. -/
inductive BufCall (fsd : Upfs BufmodData) (c : Call) : Bool → Upfs BufmodData → Prop where
  | passed {fs : List Bool} {d' : BufmodData}
      (ht : BufTrans fsd.mountpoint T fsd.modData c false d') :
    BufCall fsd c false { fsd with failures := fs, modData := d' }
  | refused {fs : List Bool} {d' : BufmodData}
      (ht : BufTrans fsd.mountpoint T fsd.modData c true d') :
    BufCall fsd c true (AuraHttpd.refused { fsd with failures := fs } d')

/-- A callback faults, which it does only where its test fails, or ends without an error where
the test passes and is refused where it fails. -/
structure BufSpec (fsd : Upfs BufmodData) (c : Call) (r : Except Fault (Upfs BufmodData)) :
    Prop where
  pass : bufferPasses T fsd c → ∃ fsd', r = .ok fsd' ∧ BufCall T fsd c false fsd'
  fail : ¬ bufferPasses T fsd c → ∀ fsd', r = .ok fsd' → BufCall T fsd c true fsd'

theorem BufSpec.of_pass {fsd fsd' : Upfs BufmodData} {c : Call} (hp : bufferPasses T fsd c)
    (h : BufCall T fsd c false fsd') : BufSpec (T := T) fsd c (.ok fsd') :=
  ⟨fun _ => ⟨fsd', rfl, h⟩, fun hn => absurd hp hn⟩

theorem BufSpec.of_fail {fsd fsd' : Upfs BufmodData} {c : Call} (hn : ¬ bufferPasses T fsd c)
    (h : BufCall T fsd c true fsd') : BufSpec (T := T) fsd c (.ok fsd') :=
  ⟨fun hp => absurd hp hn, fun _ _ h' => Except.ok.inj h' ▸ h⟩

theorem BufSpec.of_fault {fsd : Upfs BufmodData} {c : Call} {f : Fault}
    (hn : ¬ bufferPasses T fsd c) : BufSpec (T := T) fsd c (.error f) :=
  ⟨fun hp => absurd hp hn, fun _ _ h' => by cases h'⟩

theorem formHeader_spec (fsd : Upfs BufmodData) (key value : Bytes) :
    BufSpec (T := T) fsd (.formHeader key value) (bufferHandleFormHeader fsd key value) := by
  unfold bufferHandleFormHeader
  rcases hr : fsd.modData.currentBuf with _ | r
  · have hnot : ∀ i < 2, (Upfs.tick^[i] fsd).fails = true →
        ¬ bufferPasses T fsd (.formHeader key value) := by
      intro i hi hf hp
      rcases hp with hp | hp
      · exact hp hr
      · rw [fails_iterate_tick, hp i hi] at hf
        cases hf
    rcases h0 : fsd.fails with _ | _
    · rcases h1 : fsd.tick.fails with _ | _
      · simp only [h1, fails_setData, Bool.false_eq_true, if_false]
        obtain ⟨fs, d', hd, hset⟩ := disposition_eq
          (fsd.tick.tick.setData (fsd.modData.newRecord.setRecord fsd.modData.next
            { info := some (.object []) })) fsd.modData.next key value
        refine .of_pass (.inr fun i hi => ?_) ?_
        · rw [← fails_iterate_tick]
          match i, hi with
          | 0, _ => exact h0
          | 1, _ => exact h1
        · exact hd ▸ .passed (.headerNew hr hset)
      · simp only [h1, fails_setData, Bool.false_eq_true, if_false, if_true]
        rw [errMem_eq]
        exact .of_fail (hnot 1 (by decide) h1) (.refused (.headerNoInfo hr))
    · simp only [if_true]
      rw [errMem_eq]
      refine .of_fail (hnot 0 (by decide) h0) ?_
      have hfree : freeCurrent fsd.modData = fsd.modData := by
        simp only [freeCurrent, hr]
      exact .refused (hfree.symm ▸ .headerNoRecord hr)
  · obtain ⟨fs, d', hd, hset⟩ := disposition_eq fsd r key value
    refine .of_pass (.inl (by simp [hr])) ?_
    simp only [hd]
    exact .passed (.headerOpen hr hset)

/-- Without a current record the data are stored nowhere. -/
theorem storeData_of_none {fsd : Upfs BufmodData} (vec : List Bytes) (n : ℤ)
    (hnone : fsd.modData.currentBuf.bind fsd.modData.records = none) :
    BufSpec (T := T) fsd (.data vec n)
      (storeData T (fsd.setData fsd.modData.countPart) vec n) := by
  have hnone' : (fsd.setData fsd.modData.countPart).modData.currentBuf.bind
    (fsd.setData fsd.modData.countPart).tick.modData.records = none := hnone
  have hp : ¬ bufferPasses T fsd (.data vec n) := by
    rintro ⟨-, ⟨r, b, hr, hb⟩, -⟩
    rw [hr, Option.bind_some, hb] at hnone
    cases hnone
  unfold storeData
  simp only [hnone']
  rcases auraFrom T (fsd.setData fsd.modData.countPart) vec n with f | aura
  · exact .of_fault hp
  · rcases (fsd.setData fsd.modData.countPart).modData.currentBuf with _ | r <;>
      exact .of_fault hp

/-- With a current record and room for the data they are stored, or a call fails. -/
theorem storeData_of_some {fsd : Upfs BufmodData} (vec : List Bytes) (n : ℤ) {r : RecordId}
    {b : AvailableBuffer} (hsize : sizeWith fsd.modData n ≤ fsd.modData.maxSize)
    (hr : fsd.modData.currentBuf = some r) (hb : fsd.modData.records r = some b) :
    BufSpec (T := T) fsd (.data vec n)
      (storeData T (fsd.setData fsd.modData.countPart) vec n) := by
  have hnot : ∀ i < 2, (Upfs.tick^[i] fsd).fails = true → ¬ bufferPasses T fsd (.data vec n) := by
    intro i hi hf hp
    rw [fails_iterate_tick, hp.2.2.1 i hi] at hf
    cases hf
  have hr' : (fsd.setData fsd.modData.countPart).modData.currentBuf = some r := hr
  have hb' : (fsd.setData fsd.modData.countPart).tick.modData.records r = some b := hb
  unfold storeData
  simp only [hr', hb', Option.bind_some]
  rcases h0 : fsd.fails with _ | _
  · rcases ha : T.fromEviovec vec n with f | aura
    · have hfrom : auraFrom T (fsd.setData fsd.modData.countPart) vec n = .error f := by
        simp [auraFrom, h0, ha, Except.map]
      rw [hfrom, Except.error_bind]
      refine .of_fault ?_
      rintro ⟨-, -, -, aura, ha'⟩
      rw [ha] at ha'
      cases ha'
    · have hfrom : auraFrom T (fsd.setData fsd.modData.countPart) vec n = .ok (some aura) := by
        simp [auraFrom, h0, ha, Except.map]
      rw [hfrom, Except.ok_bind]
      rcases h1 : fsd.tick.fails with _ | _
      · simp only [tick_setData, fails_setData, h1, Bool.false_eq_true, if_false]
        refine .of_pass ⟨hsize, ⟨r, b, hr, hb⟩, fun i hi => ?_, aura, ha⟩
          (.passed (.dataStored hsize hr hb ha))
        rw [← fails_iterate_tick]
        match i, hi with
        | 0, _ => exact h0
        | 1, _ => exact h1
      · simp only [tick_setData, fails_setData, h1, if_true]
        rw [errMem_eq]
        exact .of_fail (hnot 1 (by decide) h1) (.refused (.dataRefused hsize hr hb))
  · have hfrom : auraFrom T (fsd.setData fsd.modData.countPart) vec n = .ok none := by
      simp [auraFrom, h0]
    rw [hfrom, Except.ok_bind]
    simp only
    rw [errMem_eq]
    exact .of_fail (hnot 0 (by decide) h0) (.refused (.dataRefused hsize hr hb))

theorem data_spec (fsd : Upfs BufmodData) (vec : List Bytes) (n : ℤ) :
    BufSpec (T := T) fsd (.data vec n) (bufferHandleData T fsd vec n) := by
  change BufSpec fsd _ (if sizeWith fsd.modData n > fsd.modData.maxSize
    then errMem (fsd.setData fsd.modData.countPart) fsd.modData.currentBuf
    else storeData T (fsd.setData fsd.modData.countPart) vec n)
  split_ifs with hsize
  · rw [errMem_eq]
    have hc : BufCall T fsd (.data vec n) true (refused { fsd with failures := fsd.failures } _) :=
      .refused (.dataTooBig hsize)
    exact .of_fail (fun hp => absurd hp.1 (Nat.not_le.2 hsize)) hc
  rcases hr : fsd.modData.currentBuf with _ | r
  · exact storeData_of_none vec n (by rw [hr]; rfl)
  rcases hb : fsd.modData.records r with _ | b
  · exact storeData_of_none vec n (by rw [hr]; exact hb)
  · exact storeData_of_some vec n (Nat.not_lt.1 hsize) hr hb

theorem bufferCall_spec (fsd : Upfs BufmodData) (c : Call) :
    BufSpec (T := T) fsd c ((buffermod T).call fsd c) := by
  cases c with
  | formHeader key value => exact formHeader_spec fsd key value
  | data vec n => exact data_spec fsd vec n

theorem bufCall_of_call {fsd fsd' : Upfs BufmodData} {c : Call}
    (h : (buffermod T).call fsd c = .ok fsd') : ∃ err, BufCall T fsd c err fsd' := by
  by_cases hp : bufferPasses T fsd c
  · obtain ⟨fsd'', h', hc⟩ := (bufferCall_spec fsd c).pass hp
    obtain rfl := Except.ok.inj (h.symm.trans h')
    exact ⟨false, hc⟩
  · exact ⟨true, (bufferCall_spec fsd c).fail hp fsd' h⟩

theorem bufTrans_of_call {fsd fsd' : Upfs BufmodData} {c : Call}
    (h : (buffermod T).call fsd c = .ok fsd') (he : fsd'.uploadError = false) :
    BufTrans fsd.mountpoint T fsd.modData c false fsd'.modData := by
  obtain ⟨err, hc⟩ := bufCall_of_call h
  cases hc with
  | passed ht => exact ht
  | refused ht => cases he

/-- What a request's hook does to what is left of the request before. -/
def clearStale (mountpoint : Bytes) (d : BufmodData) : BufmodData :=
  { bufAvailDrop mountpoint
      { d with released := d.released ++ d.currentInfo.toList, currentInfo := none } d.currentBuf
    with currentBuf := none }

theorem bufferHook_eq (fsd : Upfs BufmodData) : (buffermod T).callHook fsd
    = .ok (if fsd.fails then refused fsd.tick (clearStale fsd.mountpoint fsd.modData)
        else fsd.tick.setData (clearStale fsd.mountpoint fsd.modData).newInfo) := by
  change bufferHandleRqHeaders fsd = _
  unfold bufferHandleRqHeaders
  rcases h : fsd.fails with _ | _
  · rfl
  · simp only [if_true]
    rw [bufferSendError_eq]
    rfl

/-- `upfs_data` after an upload that succeeded. -/
def finished (fsd : Upfs BufmodData) : Upfs BufmodData :=
  { fsd with
    replies := fsd.replies
      ++ [.json ((fsd.modData.currentInfo.map fsd.modData.infos).getD .null)]
    finalized := fsd.finalized ++ [true]
    modData := { fsd.modData with
      released := fsd.modData.released ++ fsd.modData.currentInfo.toList } }

theorem bufferFinalize_false (fsd : Upfs BufmodData) :
    callFinalize (buffermod T).finalize fsd false = .ok { fsd with
      finalized := fsd.finalized ++ [false], modData := freeCurrent fsd.modData } := by
  change bufferSendResult { fsd with finalized := fsd.finalized ++ [false] } false = _
  simp only [bufferSendResult, freeCurrent, Bool.false_eq_true, if_false]
  rcases fsd.modData.currentBuf with _ | r <;> rfl

theorem bufferFinalize_true (fsd : Upfs BufmodData) :
    callFinalize (buffermod T).finalize fsd true = .ok (finished fsd) := rfl

end AuraHttpd
