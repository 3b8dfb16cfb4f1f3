import AuraHttpd.UploadModules
import AuraHttpd.Proofs.BufferSteps
import AuraHttpd.Proofs.Iovec

/-!
# How often an upload is answered

An error signalled in a callback answers the request and finalizes it, and the negative result
the parser then returns makes `upload` do both again.  The `debug` module moreover answers in
`finalize` whatever the outcome, so there also a failed parse is answered twice.  Requests that
meet neither are answered and finalized once (`answered_once_iff`).

A callback is described by a test on the state it is called in (`Handles`): where it passes the
callback answers nothing, and otherwise it faults or signals an error.
-/

namespace AuraHttpd

open CString Script StepSystem

variable {σ : Type}

/-- No error was signalled, and nothing answered or finalized. -/
structure Kept (fsd fsd' : Upfs σ) : Prop where
  noError : fsd'.uploadError = false
  replies : fsd'.replies = fsd.replies
  finalized : fsd'.finalized = fsd.finalized

/-- An error was signalled, with an answer and a call of `finalize`. -/
structure Failed (fsd fsd' : Upfs σ) : Prop where
  error : fsd'.uploadError = true
  replies : fsd.replies.length < fsd'.replies.length
  finalized : fsd.finalized.length < fsd'.finalized.length

/-- Where the test `P` passes nothing is answered, and where it does not an error is signalled,
unless the process ends. -/
structure Handles (fsd : Upfs σ) (r : Except Fault (Upfs σ)) (P : Prop) : Prop where
  kept : P → ∃ fsd', r = .ok fsd' ∧ Kept fsd fsd'
  failed : ¬ P → ∀ fsd', r = .ok fsd' → Failed fsd fsd'

/-- `finalize` answers a finished upload once and a failed one `onFail` times. -/
def FinalizeAnswers (f : Option (Upfs σ → Bool → Except Fault (Upfs σ))) (onFail : ℕ) : Prop :=
  ∀ fsd ok, ∃ fsd', callFinalize f fsd ok = .ok fsd' ∧ fsd'.uploadError = fsd.uploadError
    ∧ fsd'.replies.length = fsd.replies.length + (if ok then 1 else onFail)
    ∧ fsd'.finalized.length = fsd.finalized.length + 1

theorem FinalizeAnswers.sendError {f : Option (Upfs σ → Bool → Except Fault (Upfs σ))}
    {onFail : ℕ} (hf : FinalizeAnswers f onFail) (fsd : Upfs σ) :
    ∃ fsd', uploadfsUploadSendError f fsd none = .ok fsd' ∧ fsd'.uploadError = true
      ∧ fsd'.replies.length = fsd.replies.length + 1 + onFail
      ∧ fsd'.finalized.length = fsd.finalized.length + 1 := by
  obtain ⟨fsd', h, he, hr, hfin⟩ := hf
    (Upfs.reply { fsd with uploadError := true } (.error 406 (lit "Not acceptable"))) false
  refine ⟨fsd', h, he, ?_, hfin⟩
  simpa [Upfs.reply] using hr

theorem FinalizeAnswers.failed {f : Option (Upfs σ → Bool → Except Fault (Upfs σ))}
    {onFail : ℕ} (hf : FinalizeAnswers f onFail) {fsd fsd₁ : Upfs σ}
    (hr : fsd₁.replies = fsd.replies) (hfin : fsd₁.finalized = fsd.finalized) {fsd' : Upfs σ}
    (h : uploadfsUploadSendError f fsd₁ none = .ok fsd') : Failed fsd fsd' := by
  obtain ⟨fsd'', h', he, hr', hfin'⟩ := hf.sendError fsd₁
  obtain rfl := Except.ok.inj (h.symm.trans h')
  refine ⟨he, ?_, ?_⟩
  · rw [hr', hr]
    omega
  · rw [hfin', hfin]
    omega

theorem FinalizeAnswers.handles {f : Option (Upfs σ → Bool → Except Fault (Upfs σ))}
    {onFail : ℕ} (hf : FinalizeAnswers f onFail) {fsd fsd₁ : Upfs σ} {P : Prop} (hP : ¬ P)
    (hr : fsd₁.replies = fsd.replies) (hfin : fsd₁.finalized = fsd.finalized) :
    Handles fsd (uploadfsUploadSendError f fsd₁ none) P :=
  ⟨fun hp => absurd hp hP, fun _ _ h => hf.failed hr hfin h⟩

theorem Handles.error {fsd : Upfs σ} {f : Fault} {P : Prop} (hP : ¬ P) :
    Handles fsd (.error f) P := ⟨fun hp => absurd hp hP, fun _ _ h => by cases h⟩

theorem Handles.ok {fsd fsd' : Upfs σ} {P : Prop} (hP : P) (hk : Kept fsd fsd') :
    Handles fsd (.ok fsd') P := ⟨fun _ => ⟨fsd', rfl, hk⟩, fun hn => absurd hP hn⟩

variable {m : UploadfsModule σ}

variable {Passes : Upfs σ → Call → Prop}

/-- The calls of a scan are handled as its first refused call is. -/
theorem replay_handles (hc : ∀ fsd c, fsd.uploadError = false →
      Handles fsd (m.call fsd c) (Passes fsd c)) :
    ∀ (cs : List Call) {fsd : Upfs σ}, fsd.uploadError = false →
      Handles fsd (m.replay fsd cs) (Along m.step Passes fsd cs)
  | [], fsd, h => ⟨fun _ => ⟨fsd, rfl, h, rfl, rfl⟩, fun hn => absurd trivial hn⟩
  | c :: cs, fsd, h => by
    have hcall := hc fsd c h
    rw [UploadfsModule.replay, replay_cons]
    by_cases hp : Passes fsd c
    · obtain ⟨fsd₁, h₁, hk⟩ := hcall.kept hp
      have ih := replay_handles hc cs hk.noError
      have hiff : Along m.step Passes fsd (c :: cs) ↔ Along m.step Passes fsd₁ cs := by
        simp only [Along, hp, true_and, step_of_call h₁, Option.some.injEq, forall_eq']
      rw [hiff, h₁]
      simp only [Except.bind, hk.noError, Bool.false_eq_true, if_false]
      refine ⟨fun ha => ?_, fun hn fsd' h' => ?_⟩
      · obtain ⟨fsd', h', hk'⟩ := ih.kept ha
        exact ⟨fsd', h', hk'.noError, hk'.replies.trans hk.replies,
          hk'.finalized.trans hk.finalized⟩
      · have hfail := ih.failed hn fsd' h'
        exact ⟨hfail.error, hk.replies ▸ hfail.replies, hk.finalized ▸ hfail.finalized⟩
    · refine ⟨fun ha => absurd ha.1 hp, fun _ fsd' h' => ?_⟩
      rcases hm : m.call fsd c with e | fsd₁ <;> rw [hm] at h'
      · cases h'
      · have hfail := hcall.failed hp fsd₁ hm
        simp only [Except.bind, hfail.error, if_true] at h'
        exact (Except.ok.inj h') ▸ hfail

/-- One answer and one call of `finalize`. -/
def Once (fsd : Upfs σ) : Prop := fsd.replies.length = 1 ∧ fsd.finalized.length = 1

theorem sendError_once {onFail : ℕ} (hf : FinalizeAnswers m.finalize onFail) {fsd : Upfs σ}
    (hr : fsd.replies = []) (hfin : fsd.finalized = []) :
    (∃ fsd', uploadfsUploadSendError m.finalize fsd none = .ok fsd' ∧ Once fsd')
      ↔ onFail = 0 := by
  obtain ⟨fsd', h, -, hr', hfin'⟩ := hf.sendError fsd
  rw [hr, List.length_nil, Nat.zero_add] at hr'
  rw [hfin, List.length_nil, Nat.zero_add] at hfin'
  constructor
  · rintro ⟨fsd'', h'', ho, -⟩
    obtain rfl := Except.ok.inj (h.symm.trans h'')
    omega
  · rintro rfl
    exact ⟨fsd', h, hr', hfin'⟩

variable {E I : Type} [Evbuffer E I]

theorem endUpload_once {onFail : ℕ} (hf : FinalizeAnswers m.finalize onFail) {fsd : Upfs σ}
    (hr : fsd.replies = []) (hfin : fsd.finalized = []) (r : ℤ × Input E) :
    (∃ fsd', endUpload m fsd (some r) = .ok fsd' ∧ Once fsd') ↔ (r.1 < 0 → onFail = 0) := by
  obtain ⟨ret, inp⟩ := r
  simp only [endUpload]
  split_ifs with hret
  · rw [sendError_once hf hr hfin]
    simp [hret]
  · obtain ⟨fsd', h, -, hr', hfin'⟩ := hf fsd true
    simp [h, Once, hr', hfin', hr, hfin, hret]

theorem not_once_of_failed {onFail : ℕ} (hf : FinalizeAnswers m.finalize onFail)
    {fsd fsd₁ : Upfs σ} (hfail : Failed fsd fsd₁) :
    ¬ ∃ fsd', uploadfsUploadSendError m.finalize fsd₁ none = .ok fsd' ∧ Once fsd' := by
  rintro ⟨fsd', h, hr, -⟩
  obtain ⟨fsd'', h', -, hr', -⟩ := hf.sendError fsd₁
  obtain rfl := Except.ok.inj (h.symm.trans h')
  have := hfail.replies
  omega

/-- The scan of the body meets no fault, each of its calls passes, and if `finalize` answers
failed uploads too the body was parsed to its end. -/
def ScanPasses (m : UploadfsModule σ) (Passes : Upfs σ → Call → Prop) (onFail : ℕ)
    (fsd : Upfs σ) (x : ParserScript (ℤ × Input E)) : Prop :=
  Along m.step Passes fsd x.calls ∧ ∃ r, x.outcome = .ok r ∧ (r.1 < 0 → onFail = 0)

theorem play_once {onFail : ℕ} (hf : FinalizeAnswers m.finalize onFail)
    (hc : ∀ fsd c, fsd.uploadError = false → Handles fsd (m.call fsd c) (Passes fsd c))
    {fsd : Upfs σ} (h : fsd.uploadError = false) (hr : fsd.replies = [])
    (hfin : fsd.finalized = []) (x : ParserScript (ℤ × Input E)) :
    (∃ fsd', (do
        let (fsd, r) ← m.play fsd x
        endUpload m fsd r) = .ok fsd' ∧ Once fsd') ↔ ScanPasses m Passes onFail fsd x := by
  have hh := replay_handles hc x.calls h
  have hplay : m.play fsd x = (m.replay fsd x.calls >>= fun fsd =>
      if fsd.uploadError then .ok (fsd, none) else x.outcome.map fun a => (fsd, some a)) := rfl
  rw [hplay, ScanPasses]
  by_cases ha : Along m.step Passes fsd x.calls
  · obtain ⟨fsd₁, h₁, hk⟩ := hh.kept ha
    rw [h₁]
    simp only [Except.ok_bind, hk.noError, Bool.false_eq_true, if_false, ha, true_and]
    rcases x.outcome with e | r
    · simp [Except.map]
    · simp only [Except.map, Except.ok_bind, Except.ok.injEq, exists_eq_left']
      exact endUpload_once hf (hk.replies.trans hr) (hk.finalized.trans hfin) r
  · simp only [ha, false_and, iff_false]
    rcases hm : m.replay fsd x.calls with e | fsd₁
    · simp
    · have hfail := hh.failed ha fsd₁ hm
      simp only [Except.ok_bind, hfail.error, if_true]
      exact not_once_of_failed hf hfail

theorem dumpIovecToFile_fails {fsd : Upfs σ} (h : fsd.fails = true) (path : Bytes)
    (vec : List Bytes) (n : ℤ) : dumpIovecToFile fsd path vec n = .ok (-5, fsd.tick) := by
  simp [dumpIovecToFile, h]

theorem dumpIovecToFile_covered {fsd : Upfs σ} (h : fsd.fails = false) (path : Bytes)
    {vec : List Bytes} {n : ℤ} (hc : Covered vec n) : dumpIovecToFile fsd path vec n
      = .ok (0, { fsd.tick with files := fsd.files ++ [(path, vec.flatten.take n.toNat)] }) := by
  simp [dumpIovecToFile, h, dumpIovec_covered vec n hc]

theorem dumpIovecToFile_not_covered {fsd : Upfs σ} (h : fsd.fails = false) (path : Bytes)
    {vec : List Bytes} {n : ℤ} (hc : ¬ Covered vec n) :
    dumpIovecToFile fsd path vec n = .error .outOfBounds := by
  simp [dumpIovecToFile, h, dumpIovec_not_covered vec n hc]

/-- Data written to a file, which is refused where the file cannot be opened. -/
theorem dumpIovecToFile_handles {f : Option (Upfs σ → Bool → Except Fault (Upfs σ))} {onFail : ℕ}
    (hf : FinalizeAnswers f onFail) {fsd fsd₁ : Upfs σ} {path : Bytes} {vec : List Bytes} {n : ℤ}
    {P : Prop} (hk : Kept fsd fsd₁) (hP : P ↔ fsd₁.fails = false ∧ Covered vec n) :
    Handles fsd (do
      let (ret, fsd) ← dumpIovecToFile fsd₁ path vec n
      if ret ≠ 0 then uploadfsUploadSendError f fsd none else .ok fsd) P := by
  cases hfails : fsd₁.fails with
  | true =>
    rw [dumpIovecToFile_fails hfails]
    exact hf.handles (by simp [hP, hfails]) hk.replies hk.finalized
  | false =>
    by_cases hc : Covered vec n
    · rw [dumpIovecToFile_covered hfails _ hc]
      exact .ok (hP.2 ⟨hfails, hc⟩) ⟨hk.noError, hk.replies, hk.finalized⟩
    · rw [dumpIovecToFile_not_covered hfails path hc]
      exact .error fun hp => hc (hP.1 hp).2

theorem debugmod_finalize : FinalizeAnswers debugmod.finalize 1 := fun fsd ok =>
  ⟨_, rfl, rfl, by cases ok <;> simp [Upfs.reply], by simp [Upfs.reply]⟩

/-- The file `/tmp/data.bin` can be opened, and the extents are those of the length. -/
def debugPasses (fsd : Upfs Unit) : Call → Prop
  | .formHeader _ _ => True
  | .data vec length => fsd.fails = false ∧ Covered vec length

theorem debugmod_handles (fsd : Upfs Unit) (c : Call) (h : fsd.uploadError = false) :
    Handles fsd (debugmod.call fsd c) (debugPasses fsd c) := by
  cases c with
  | formHeader key value =>
    exact ⟨fun _ => ⟨fsd, rfl, h, rfl, rfl⟩, fun hn => absurd trivial hn⟩
  | data vec n =>
    exact dumpIovecToFile_handles debugmod_finalize ⟨h, rfl, rfl⟩ Iff.rfl

theorem filemod_finalize : FinalizeAnswers filemod.finalize 0 := fun fsd ok =>
  ⟨_, rfl, by cases ok <;> rfl, by cases ok <;> simp [Upfs.reply, Upfs.setData],
    by cases ok <;> simp [Upfs.reply, Upfs.setData]⟩

/-- A Content-Disposition header gives the file a name, if names are taken from it; data needs
memory for the reply and the path, a name, a file that can be opened, and the extents. -/
def filePasses (fsd : Upfs FilemodData) : Call → Prop
  | .formHeader key value => fsd.modData.originalFilename = true →
      key = lit "Content-Disposition" →
      ∃ name, extractKeyValue (lit "filename") value fsd.fails = some name ∧ name ≠ []
  | .data vec length => (∀ i < 5, fsd.failures.getD i false = false)
      ∧ (fsd.modData.originalFilename = true → fsd.modData.filename ≠ none)
      ∧ Covered vec length

theorem extractFrom_kept {fsd : Upfs σ} (h : fsd.uploadError = false) (key cds : Bytes) (d : σ) :
    Kept fsd ((extractFrom fsd key cds).2.setData d) := by
  unfold extractFrom
  split_ifs <;> exact ⟨h, rfl, rfl⟩

theorem fileHandleFormHeader_handles (fsd : Upfs FilemodData) (key value : Bytes)
    (h : fsd.uploadError = false) :
    Handles fsd (fileHandleFormHeader fsd key value)
      (filePasses fsd (.formHeader key value)) := by
  simp only [fileHandleFormHeader, filePasses]
  cases ho : fsd.modData.originalFilename with
  | false => exact ⟨fun _ => ⟨fsd, rfl, h, rfl, rfl⟩, fun hn => absurd (by simp) hn⟩
  | true =>
    simp only [Bool.true_eq_false, if_false, true_implies]
    by_cases hk : key = lit "Content-Disposition"
    · simp only [hk, if_true, true_implies]
      have hkept : ∀ d, Kept fsd ((uploadfsGetContentDispositionFilename fsd value).2.setData d) :=
        extractFrom_kept h (lit "filename") value
      have hname : (uploadfsGetContentDispositionFilename fsd value).1
        = extractKeyValue (lit "filename") value fsd.fails := rfl
      by_cases hnone : (uploadfsGetContentDispositionFilename fsd value).1 = none
        ∨ (uploadfsGetContentDispositionFilename fsd value).1 = some []
      · rw [if_pos hnone]
        refine ⟨?_, fun _ fsd' h' => ?_⟩
        · rintro ⟨name, hex, hne⟩
          rw [hname, hex] at hnone
          simp [hne] at hnone
        · exact filemod_finalize.failed (hkept _).replies (hkept _).finalized h'
      · rw [if_neg hnone]
        refine ⟨fun _ => ⟨_, rfl, hkept _⟩, fun hp => absurd ?_ hp⟩
        rw [hname, not_or] at hnone
        obtain ⟨name, hex⟩ := Option.ne_none_iff_exists'.1 hnone.1
        exact ⟨name, hex, fun hn => hnone.2 (by rw [hex, hn])⟩
    · simp only [hk, if_false, false_implies]
      exact ⟨fun _ => ⟨fsd, rfl, h, rfl, rfl⟩, fun hn => absurd trivial hn⟩

/-- The name `file_handle_data` takes. -/
def fileName (fsd : Upfs FilemodData) : Option Bytes :=
  if fsd.modData.originalFilename then fsd.modData.filename
  else some (lit "up." ++ decimal (fsd.modData.random.headD 0))

/-- The path of a file in the directory. -/
def filePath (fsd : Upfs FilemodData) (name : Bytes) : Bytes :=
  fsd.modData.directory ++ lit "/" ++ name

/-- What no callback for data changes. -/
structure SameNames (d d' : FilemodData) : Prop where
  directory : d'.directory = d.directory
  originalFilename : d'.originalFilename = d.originalFilename
  filename : d'.filename = d.filename

/-- Of the upload only library calls, random numbers and the list of files sent at the end have
been used. -/
structure Prepared (fsd fsd₁ : Upfs FilemodData) : Prop where
  error : fsd₁.uploadError = fsd.uploadError
  replies : fsd₁.replies = fsd.replies
  finalized : fsd₁.finalized = fsd.finalized
  files : fsd₁.files = fsd.files
  names : SameNames fsd.modData fsd₁.modData

/-- How far a callback for data comes: to a library call that fails, to the name that is not there
or to the writing of the file. -/
inductive DataStops (fsd : Upfs FilemodData) (vec : List Bytes) (n : ℤ) :
    Except Fault (Upfs FilemodData) → Prop where
  | fails {i : ℕ} {fsd₁ : Upfs FilemodData} (hi : i < if fileName fsd = none then 3 else 4)
      (hfails : fsd.failures.getD i false = true) (h : Prepared fsd fsd₁) :
      DataStops fsd vec n (uploadfsUploadSendError (some fileSendResult) fsd₁ none)
  | noName (hpass : ∀ i < 3, fsd.failures.getD i false = false) (hname : fileName fsd = none) :
      DataStops fsd vec n (.error .nullPointer)
  | dumps {name : Bytes} {fsd₁ : Upfs FilemodData}
      (hpass : ∀ i < 4, fsd.failures.getD i false = false) (hname : fileName fsd = some name)
      (h : Prepared fsd fsd₁) (hnext : fsd₁.fails = fsd.failures.getD 4 false) :
      DataStops fsd vec n (do
        let (ret, fsd) ← dumpIovecToFile fsd₁ (filePath fsd name) vec n
        if ret ≠ 0 then uploadfsUploadSendError (some fileSendResult) fsd none else .ok fsd)

theorem fileHandleData_stops (fsd : Upfs FilemodData) (vec : List Bytes) (n : ℤ) :
    DataStops fsd vec n (fileHandleData fsd vec n) := by
  have hgetD : ∀ {i : ℕ} {b : Bool}, (Upfs.tick^[i] fsd).fails = b →
      fsd.failures.getD i false = b := fun h => by rwa [fails_iterate_tick] at h
  simp only [fileHandleData, fails_setData, tick_setData, modData_setData, setData_setData]
  cases h0 : fsd.fails with
  | true =>
    exact .fails (i := 0) (by split_ifs <;> decide) (hgetD h0) ⟨rfl, rfl, rfl, rfl, rfl, rfl, rfl⟩
  | false =>
  cases h1 : fsd.tick.fails with
  | true =>
    exact .fails (i := 1) (by split_ifs <;> decide) (hgetD h1) ⟨rfl, rfl, rfl, rfl, rfl, rfl, rfl⟩
  | false =>
  cases h2 : fsd.tick.tick.fails with
  | true =>
    exact .fails (i := 2) (by split_ifs <;> decide) (hgetD h2) ⟨rfl, rfl, rfl, rfl, rfl, rfl, rfl⟩
  | false =>
  have hpass : ∀ i < 3, fsd.failures.getD i false = false
    | 0, _ => hgetD (i := 0) h0
    | 1, _ => hgetD (i := 1) h1
    | 2, _ => hgetD (i := 2) h2
  simp only [Bool.false_eq_true, if_false]
  split
  · rename_i hnone
    exact .noName hpass hnone
  rename_i name hsome
  have hname : fileName fsd = some name := hsome
  cases h3 : fsd.tick.tick.tick.fails with
  | true =>
    exact .fails (i := 3) (by simp [hname]) (hgetD h3) ⟨rfl, rfl, rfl, rfl, rfl, rfl, rfl⟩
  | false =>
  simp only [hsome, Option.getD_some, Bool.false_eq_true, if_false]
  refine .dumps (fun i hi => ?_) hname ⟨rfl, rfl, rfl, rfl, rfl, rfl, rfl⟩
    (fails_iterate_tick 4 fsd)
  rcases Nat.lt_succ_iff_lt_or_eq.1 hi with hlt | rfl
  · exact hpass i hlt
  · exact hgetD (i := 3) h3

theorem fileHandleData_handles (fsd : Upfs FilemodData) (vec : List Bytes) (n : ℤ)
    (h : fsd.uploadError = false) :
    Handles fsd (fileHandleData fsd vec n) (filePasses fsd (.data vec n)) := by
  have hstops := fileHandleData_stops fsd vec n
  generalize fileHandleData fsd vec n = r at hstops
  cases hstops with
  | @fails i fsd₁ hi hfails hprep =>
    refine filemod_finalize.handles (fun hp => ?_) hprep.replies hprep.finalized
    rw [hp.1 i (by split_ifs at hi <;> omega)] at hfails
    cases hfails
  | noName hpass hname =>
    refine .error fun hp => ?_
    unfold fileName at hname
    split_ifs at hname with ho
    exact hp.2.1 ho hname
  | dumps hpass hname hprep hnext =>
    refine dumpIovecToFile_handles filemod_finalize
      ⟨hprep.error.trans h, hprep.replies, hprep.finalized⟩ ?_
    rw [hnext]
    refine ⟨fun hp => ⟨hp.1 4 (by decide), hp.2.2⟩, fun ⟨h4, hc⟩ => ⟨fun i hi => ?_, ?_, hc⟩⟩
    · rcases Nat.lt_succ_iff_lt_or_eq.1 hi with hlt | rfl
      · exact hpass i hlt
      · exact h4
    · intro ho hnone
      cases ((if_pos ho).symm.trans hname).symm.trans hnone

theorem filemod_handles (fsd : Upfs FilemodData) (c : Call) (h : fsd.uploadError = false) :
    Handles fsd (filemod.call fsd c) (filePasses fsd c) := by
  cases c with
  | formHeader key value => exact fileHandleFormHeader_handles fsd key value h
  | data vec n => exact fileHandleData_handles fsd vec n h

theorem buffermod_finalize (T : AuraTransport) : FinalizeAnswers (buffermod T).finalize 0 := by
  intro fsd ok
  cases ok with
  | true =>
    refine ⟨finished fsd, rfl, rfl, ?_, ?_⟩
    · simp [finished]
    · simp [finished]
  | false =>
    simp only [callFinalize, buffermod, bufferSendResult, Bool.false_eq_true, if_false]
    rcases fsd.modData.currentBuf with _ | r
    · exact ⟨_, rfl, rfl, rfl, by simp⟩
    · exact ⟨_, rfl, rfl, rfl, by simp [Upfs.setData]⟩

theorem failed_refused {fsd : Upfs σ} (fs : List Bool) (d : σ) :
    Failed fsd (refused { fsd with failures := fs } d) :=
  ⟨rfl, by simp [refused], by simp [refused]⟩

theorem buffermod_handles (T : AuraTransport) (fsd : Upfs BufmodData) (c : Call)
    (h : fsd.uploadError = false) :
    Handles fsd ((buffermod T).call fsd c) (bufferPasses T fsd c) := by
  refine ⟨fun hp => ?_, fun hn fsd' h' => ?_⟩
  · obtain ⟨fsd', h', hc⟩ := (bufferCall_spec fsd c).pass hp
    cases hc
    exact ⟨_, h', h, rfl, rfl⟩
  · cases (bufferCall_spec fsd c).fail hn fsd' h'
    exact failed_refused _ _

inductive UploadMode where
  | debug | file | buffer
  deriving DecidableEq, Repr

namespace UploadMode

/-- The data of the mode's module. -/
def Data : UploadMode → Type
  | debug => Unit
  | file => FilemodData
  | buffer => BufmodData

variable (T : AuraTransport)

def mod : (mode : UploadMode) → UploadfsModule mode.Data
  | debug => debugmod
  | file => filemod
  | buffer => buffermod T

/-- The test of a callback on the state it is called in. -/
def Accepts : (mode : UploadMode) → Upfs mode.Data → Call → Prop
  | debug => debugPasses
  | file => filePasses
  | buffer => bufferPasses T

/-- How often `finalize` answers a failed upload. -/
def onFail : UploadMode → ℕ
  | debug => 1
  | file | buffer => 0

/-- There is no memory for the array of the reply, which the `file` and `buffer` hooks make. -/
def HookFails (mode : UploadMode) (request : UploadRequest E) : Prop :=
  mode ≠ .debug ∧ request.failures.headD false = true

theorem finalizeAnswers : (mode : UploadMode) → FinalizeAnswers (mode.mod T).finalize mode.onFail
  | debug => debugmod_finalize
  | file => filemod_finalize
  | buffer => buffermod_finalize T

theorem handles : (mode : UploadMode) → ∀ fsd c, fsd.uploadError = false →
    Handles fsd ((mode.mod T).call fsd c) (mode.Accepts T fsd c)
  | debug => debugmod_handles
  | file => filemod_handles
  | buffer => buffermod_handles T

/-- A hook that fails has answered and finalized the request, any other has done neither. -/
def HookSpec (fsd : Upfs σ) (r : Except Fault (Upfs σ)) (fails : Prop) : Prop :=
  ∃ fsd', r = .ok fsd' ∧ (fails ∧ fsd'.uploadError = true
      ∧ fsd'.replies.length = fsd.replies.length + 1
      ∧ fsd'.finalized.length = fsd.finalized.length + 1
    ∨ ¬ fails ∧ Kept fsd fsd')

theorem HookSpec.congr {fsd : Upfs σ} {r : Except Fault (Upfs σ)} {p q : Prop}
    (h : HookSpec fsd r p) (hpq : p ↔ q) : HookSpec fsd r q := by
  rwa [HookSpec, ← hpq]

theorem fileHook_spec (fsd : Upfs FilemodData) (h : fsd.uploadError = false) :
    HookSpec fsd (filemod.callHook fsd) (fsd.fails = true) := by
  change HookSpec fsd (fileHandleRqHeaders fsd) _
  unfold fileHandleRqHeaders
  rcases hf : fsd.fails with _ | _
  · simp only [fails_setData, hf, Bool.false_eq_true, if_false]
    exact ⟨_, rfl, .inr ⟨by simp, h, rfl, rfl⟩⟩
  · simp only [fails_setData, hf, if_true]
    obtain ⟨fsd', h', he, hr, hfin⟩ := filemod_finalize.sendError
      (fsd.tick.setData { fsd.modData with filename := none, reply := none })
    exact ⟨fsd', h', .inl ⟨trivial, he, hr, hfin⟩⟩

theorem bufferHook_spec (fsd : Upfs BufmodData) (h : fsd.uploadError = false) :
    HookSpec fsd ((buffermod T).callHook fsd) (fsd.fails = true) := by
  rw [bufferHook_eq]
  rcases hf : fsd.fails with _ | _
  · exact ⟨_, rfl, .inr ⟨by simp, h, rfl, rfl⟩⟩
  · exact ⟨_, rfl, .inl ⟨rfl, rfl, by simp [refused, Upfs.tick], by simp [refused, Upfs.tick]⟩⟩

theorem hook_spec : (mode : UploadMode) → ∀ fsd : Upfs mode.Data, fsd.uploadError = false →
    HookSpec fsd ((mode.mod T).callHook fsd) (mode ≠ .debug ∧ fsd.fails = true)
  | debug, fsd, h => ⟨fsd, rfl, .inr ⟨by simp, h, rfl, rfl⟩⟩
  | file, fsd, h => (fileHook_spec fsd h).congr ⟨fun hf => ⟨by decide, hf⟩, And.right⟩
  | buffer, fsd, h => (bufferHook_spec T fsd h).congr ⟨fun hf => ⟨by decide, hf⟩, And.right⟩

/-- The condition under which a request is answered once: its hook fails for want of memory, or
nothing goes wrong in the calls its body leads to, and under `debug` nor in the parser. -/
def AnswersOnce (mode : UploadMode) (mp : UploadMount mode.Data) (request : UploadRequest E) :
    Prop :=
  mode.HookFails request ∨ ¬ mode.HookFails request ∧
    match requestCheckHeaders request.contentType with
    | none => mode.onFail = 0
    | some boundary => ∃ fsd, (mode.mod T).callHook (request.start mp) = .ok fsd
        ∧ ScanPasses (mode.mod T) (mode.Accepts T) mode.onFail fsd
          (request.scan boundary mp.numIovec)

end UploadMode

/-- Every POST request is answered and finalized exactly once if and only if its hook fails for
want of memory, or its body is scanned without a fault and no callback refuses a call of the
scan, and, where `finalize` answers failed uploads too, also the parser accepts the body. -/
theorem answered_once_iff (T : AuraTransport) (mode : UploadMode) (mp : UploadMount mode.Data)
    (request : UploadRequest E) (hpost : request.command = .post) :
    (∃ mp', upload (mode.mod T) mp request = .ok mp' ∧ Once mp'.fsd)
      ↔ mode.AnswersOnce T mp request := by
  have hmap : (∃ mp', upload (mode.mod T) mp request = .ok mp' ∧ Once mp'.fsd)
      ↔ ∃ fsd, (upload (mode.mod T) mp request).map UploadMount.fsd = .ok fsd ∧ Once fsd := by
    rcases upload (mode.mod T) mp request with e | mp' <;> simp [Except.map]
  rw [hmap, upload_play mp request hpost]
  obtain ⟨fsd, hhook, hspec⟩ := mode.hook_spec T (request.start mp) rfl
  rw [hhook, Except.ok_bind, UploadMode.AnswersOnce, hhook]
  have hfails : (mode ≠ .debug ∧ (request.start mp).fails = true) ↔ mode.HookFails request :=
    Iff.rfl
  rcases hspec with ⟨hf, he, hr, hfin⟩ | ⟨hf, hk⟩
  · simp only [he, if_true, Except.ok.injEq, exists_eq_left', hfails.1 hf, true_or, iff_true]
    exact ⟨hr, hfin⟩
  · rw [hfails] at hf
    simp only [hk.noError, Bool.false_eq_true, if_false, hf, false_or, not_false_eq_true,
      true_and, uploadPlay]
    rcases requestCheckHeaders request.contentType with _ | boundary
    · exact sendError_once (mode.finalizeAnswers T) hk.replies hk.finalized
    · simp only [Except.ok.injEq, exists_eq_left']
      exact play_once (mode.finalizeAnswers T) (mode.handles T) hk.noError hk.replies
        hk.finalized _

/-- A body of one part whose only header names no file. -/
def noFilenameRequest : UploadRequest Bytes where
  contentType := some (lit "multipart/form-data; boundary=B")
  body := lit "--B\r\nContent-Disposition: form-data; name=\"f\"\r\n\r\nx\r\n--B--\r\n"

theorem once_iff_lengths (r : Except Fault (UploadMount σ)) :
    (∃ mp', r = .ok mp' ∧ Once mp'.fsd)
      ↔ r.map (fun mp => (mp.fsd.replies.length, mp.fsd.finalized.length)) = .ok (1, 1) := by
  rcases r with e | mp <;> simp [Except.map, Once]

theorem answered_once_iff_noFilename :
    UploadMode.debug.AnswersOnce (.zeroed 0) { fsd := { modData := () } } noFilenameRequest :=
  (answered_once_iff (.zeroed 0) .debug { fsd := { modData := () } } noFilenameRequest rfl).1
    ((once_iff_lengths _).2 (by decide +kernel))

/-- Where files keep the names the client gave, the part is refused: the header callback and then
`upload` answer the request. -/
theorem noFilename_answered_twice :
    ¬ ∀ (T : AuraTransport) (mode : UploadMode) (mp : UploadMount mode.Data)
      (request : UploadRequest Bytes), request.command = .post →
      ∃ mp', upload (mode.mod T) mp request = .ok mp' ∧ Once mp'.fsd := by
  intro h
  have htwice : (upload filemod
      { fsd := { modData := { originalFilename := true, directory := lit "/tmp" } } }
      noFilenameRequest).map (fun mp => (mp.fsd.replies.length, mp.fsd.finalized.length))
        = .ok (2, 2) := by
    decide +kernel
  have honce := (once_iff_lengths _).1 (h (.zeroed 0) .file
    { fsd := { modData := { originalFilename := true, directory := lit "/tmp" } } }
    noFilenameRequest rfl)
  cases htwice.symm.trans honce

end AuraHttpd
