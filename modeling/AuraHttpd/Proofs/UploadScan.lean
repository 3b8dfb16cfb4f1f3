import AuraHttpd.UploadScan
import Mathlib.Data.List.Induction
import AuraHttpd.Lib.Run

/-!
# An upload is its module's play of the scan

Every function of the parser does to a module what playing the function's scan does
(`headerLoop_play`, `nextFile_play`, `uploadLoop_play`), for any module, so that what follows is
told about calls, not about buffers.  What is left of the input after an error is forgotten in
these equations: nothing reads it.
-/

namespace AuraHttpd

open CString Script StepSystem

variable {σ E I : Type} [Evbuffer E I] {m : UploadfsModule σ}

@[simp] theorem fails_setData (fsd : Upfs σ) (d : σ) : (fsd.setData d).fails = fsd.fails := rfl

@[simp] theorem tick_setData (fsd : Upfs σ) (d : σ) :
    (fsd.setData d).tick = fsd.tick.setData d := rfl

@[simp] theorem modData_setData (fsd : Upfs σ) (d : σ) : (fsd.setData d).modData = d := rfl

@[simp] theorem setData_setData (fsd : Upfs σ) (d d' : σ) :
    (fsd.setData d).setData d' = fsd.setData d' := rfl

theorem headD_iterate_tail : ∀ (n : ℕ) (l : List Bool),
    (List.tail^[n] l).headD false = l.getD n false
  | 0, l => by cases l <;> rfl
  | n + 1, [] => by
    rw [Function.iterate_succ_apply]
    simpa using headD_iterate_tail n []
  | n + 1, b :: l => by
    rw [Function.iterate_succ_apply]
    simpa using headD_iterate_tail n l

/-- Whether the call after `n` others fails. -/
theorem fails_iterate_tick (n : ℕ) (fsd : Upfs σ) :
    (Upfs.tick^[n] fsd).fails = fsd.failures.getD n false := by
  have hticks : ∀ (n : ℕ) (fsd : Upfs σ),
      (Upfs.tick^[n] fsd).failures = List.tail^[n] fsd.failures := by
    intro n
    induction n with
    | zero => exact fun _ => rfl
    | succ n ih => exact fun fsd => ih fsd.tick
  rw [Upfs.fails, hticks, headD_iterate_tail]

/-- What a function of the parser returned, unless an error was signalled in it. -/
def unlessError {α : Type} (fsd : Upfs σ) (a : α) : Upfs σ × Option α :=
  (fsd, if fsd.uploadError then none else some a)

theorem unlessError_false {α : Type} {fsd : Upfs σ} (h : fsd.uploadError = false) (a : α) :
    unlessError fsd a = (fsd, some a) := by
  simp [unlessError, h]

theorem unlessError_true {α : Type} {fsd : Upfs σ} (h : fsd.uploadError = true) (a : α) :
    unlessError fsd a = (fsd, none) := by
  simp [unlessError, h]

theorem play_pure_ok {α : Type} {fsd : Upfs σ} (h : fsd.uploadError = false) (a : α) :
    m.play fsd (pure a) = .ok (fsd, some a) := Script.play_pure h a

theorem play_fault_error {α : Type} {fsd : Upfs σ} (h : fsd.uploadError = false) (f : Fault) :
    m.play fsd (fault f : ParserScript α) = .error f := Script.play_fault h f

theorem play_bind_ok {α β : Type} {fsd : Upfs σ} (h : fsd.uploadError = false)
    (x : ParserScript α) (f : α → ParserScript β) :
    m.play fsd (x >>= f) = (m.play fsd x).bind fun r =>
      match r.2 with
      | none => .ok (r.1, none)
      | some a => m.play r.1 (f a) := Script.play_bind h x f

theorem play_emit_bind {β : Type} {fsd : Upfs σ} (h : fsd.uploadError = false) (c : Call)
    (f : PUnit → ParserScript β) :
    m.play fsd (emit c >>= f) = (m.call fsd c).bind fun fsd' =>
      if fsd'.uploadError then .ok (fsd', none) else m.play fsd' (f ⟨⟩) := by
  rw [play_bind_ok h, UploadfsModule.play, play_emit]
  rcases m.call fsd c with e | fsd'
  · rfl
  · cases hf : fsd'.uploadError <;> simp [Except.map, Except.bind, hf]

theorem play_of_replay_ok {α : Type} {fsd fsd' : Upfs σ} {x : ParserScript α} {a : α}
    (hx : x.outcome = .ok a) (hr : m.replay fsd x.calls = .ok fsd')
    (hf : fsd'.uploadError = false) : m.play fsd x = .ok (fsd', some a) :=
  Script.play_of_replay hx hr hf

theorem replay_call {fsd fsd' : Upfs σ} {c : Call} (hcall : m.call fsd c = .ok fsd')
    (hf : fsd'.uploadError = false) (cs : List Call) : m.replay fsd (c :: cs) = m.replay fsd' cs :=
  Script.replay_cons_ok hcall hf cs

/-- A module without callbacks lets every call pass. -/
theorem replay_idle {fsd : Upfs σ} (h : fsd.uploadError = false) :
    ∀ cs : List Call, ({} : UploadfsModule σ).replay fsd cs = .ok fsd
  | [] => rfl
  | c :: cs => by
    have hcall : ({} : UploadfsModule σ).call fsd c = .ok fsd := by cases c <;> rfl
    rw [replay_call hcall h]
    exact replay_idle h cs

theorem headerLine_play {fsd : Upfs σ} (h : fsd.uploadError = false) (ln : Option Bytes) :
    (handleFileHeaderLine m fsd ln).map (fun r => unlessError r.2 r.1)
      = m.play fsd (scanHeaderLine ln) := by
  cases ln with
  | none =>
    rw [handleFileHeaderLine, scanHeaderLine, play_pure_ok h]
    simp [Except.map, unlessError_false h]
  | some ln =>
    simp only [handleFileHeaderLine, scanHeaderLine]
    split_ifs with hln
    · rw [play_pure_ok h]
      simp [Except.map, unlessError_false h]
    rcases (strtokR (lit ":") (cstr ln)).1 with _ | key <;>
      rcases (strtokR (lit "\r\n") (strtokR (lit ":") (cstr ln)).2).1 with _ | value
    · exact (play_fault_error h _).symm
    · exact (play_fault_error h _).symm
    · exact (play_fault_error h _).symm
    · simp only
      rw [play_emit_bind h, UploadfsModule.call]
      rcases m.callFormHeader fsd key (value.dropWhile (· = 32)) with e | fsd'
      · rfl
      · cases hf : fsd'.uploadError with
        | true => simp [bind, Except.bind, Except.map, unlessError_true hf, hf]
        | false =>
          simp only [bind, Except.bind, Except.map, hf, Bool.false_eq_true, if_false]
          rw [unlessError_false hf]
          exact (play_pure_ok hf 0).symm

theorem headerLine_error {fsd fsd' : Upfs σ} (h : fsd.uploadError = false) {ln : Option Bytes}
    {ret : ℤ} (hl : handleFileHeaderLine m fsd ln = .ok (ret, fsd'))
    (hf : fsd'.uploadError = true) : ret = 1 := by
  cases ln with
  | none =>
    cases hl
    rw [h] at hf
    cases hf
  | some ln =>
    simp only [handleFileHeaderLine] at hl
    split_ifs at hl with hln
    · cases hl
      rfl
    split at hl
    · simp only [bind, Except.bind] at hl
      split at hl
      · cases hl
      · cases hl
        rw [if_pos hf]
    · cases hl

theorem headerLoop_play : ∀ (fuel : ℕ) {fsd : Upfs σ} (inp : Input E), fsd.uploadError = false →
    (headerLoop m fuel fsd inp).map (fun r => unlessError r.1 r.2)
      = m.play fsd (scanHeaders fuel inp)
  | 0, fsd, inp, h => by
    rw [scanHeaders, play_fault_error h]
    rfl
  | fuel + 1, fsd, inp, h => by
    rw [scanHeaders, play_bind_ok h, ← headerLine_play h]
    simp only [headerLoop, bind]
    rcases hl : handleFileHeaderLine m fsd inp.readln.1 with e | ⟨ret, fsd'⟩
    · rfl
    · cases hf : fsd'.uploadError with
      | true =>
        have hret := headerLine_error h hl hf
        simp [Except.bind, Except.map, unlessError_true hf, hret]
      | false =>
        simp only [Except.bind, Except.map, unlessError_false hf]
        split_ifs with hret
        · rw [play_pure_ok hf]
          simp [unlessError_false hf]
        · exact headerLoop_play fuel _ hf

theorem partData_play {fsd : Upfs σ} (h : fsd.uploadError = false) (boundary : Bytes)
    (start : EvbufferPtr I) (inp : Input E) :
    (handlePartData m boundary start fsd inp).map (fun r => unlessError r.2.1 (r.1, r.2.2))
      = m.play fsd (scanData boundary start inp) := by
  simp only [handlePartData, scanData, h, Bool.false_eq_true, if_false]
  rcases Evbuffer.search inp.evb (lit "--" ++ boundary) with _ | next
  · simp [Except.map, unlessError_false h, play_pure_ok h]
  simp only
  split_ifs with hnext
  · simp [Except.map, unlessError_false h, play_pure_ok h]
  rcases evbufferPeekRealloc (next.pos - 2) start 2 inp with e | ⟨count, vec, inp'⟩
  · exact (play_fault_error h e).symm
  rw [Except.ok_bind]
  simp only
  split_ifs with hcount
  · simp [Except.map, unlessError_false h, play_pure_ok h]
  rw [play_emit_bind h, UploadfsModule.call]
  rcases m.callData fsd vec (wrapS 32 (next.pos - 2)) with e | fsd'
  · rfl
  cases hf : fsd'.uploadError with
  | true => simp [Except.bind, Except.map, unlessError_true hf, hf]
  | false =>
    simp only [Except.ok_bind, Except.bind, scanDelimiter, hf, Bool.false_eq_true, if_false]
    rcases Evbuffer.pullup (inp'.drain next.pos).evb (lit "--" ++ boundary ++ lit "--").length
      with _ | ⟨tmp, evb⟩
    · exact (play_fault_error hf _).symm
    · simp [Except.map, unlessError_false hf, play_pure_ok hf]

theorem partData_error {fsd fsd' : Upfs σ} {boundary : Bytes} {start : EvbufferPtr I}
    {inp inp' : Input E} {ret : ℤ}
    (hp : handlePartData m boundary start fsd inp = .ok (ret, fsd', inp'))
    (hf : fsd'.uploadError = true) : ret = -74 := by
  simp only [handlePartData] at hp
  split_ifs at hp with h
  · cases hp
    rfl
  split at hp
  · cases hp
    rfl
  split_ifs at hp with hnext
  · cases hp
    rfl
  simp only [bind, Except.bind] at hp
  split at hp
  · cases hp
  split_ifs at hp with hcount
  · cases hp
    rfl
  split at hp
  · cases hp
  split_ifs at hp with hdata
  · cases hp
    rfl
  split at hp
  · cases hp
  · cases hp
    exact absurd hf hdata

theorem nextFile_play {fsd : Upfs σ} (h : fsd.uploadError = false) (boundary : Bytes)
    (inp : Input E) :
    (multipartHandleNextFile m boundary fsd inp).map (fun r => unlessError r.2.1 (r.1, r.2.2))
      = m.play fsd (scanNextFile boundary inp) := by
  simp only [multipartHandleNextFile, scanNextFile]
  split_ifs with hfails
  · simp [Except.map, unlessError_false h, play_pure_ok h]
  rcases Evbuffer.search inp.tick.evb (lit "--" ++ boundary) with _ | start
  · simp [Except.map, unlessError_false h, play_pure_ok h]
  simp only
  rw [play_bind_ok h, ← headerLoop_play _ _ h]
  simp only [bind]
  generalize inp.tick.drain ((lit "--" ++ boundary).length + start.pos + 2) = inp₁
  rcases headerLoop m (Evbuffer.length inp₁.evb + 1) fsd inp₁ with e | ⟨fsd', inp₂⟩
  · rfl
  cases hf : fsd'.uploadError with
  | true => simp [Except.bind, Except.map, unlessError_true hf, handlePartData, hf]
  | false =>
    simp only [Except.bind, Except.map, unlessError_false hf]
    exact partData_play hf boundary start inp₂

theorem nextFile_error {fsd fsd' : Upfs σ} (h : fsd.uploadError = false) {boundary : Bytes}
    {inp inp' : Input E} {ret : ℤ}
    (hp : multipartHandleNextFile m boundary fsd inp = .ok (ret, fsd', inp'))
    (hf : fsd'.uploadError = true) : ret = -74 := by
  simp only [multipartHandleNextFile] at hp
  split_ifs at hp with hfails
  · cases hp
    rw [h] at hf
    cases hf
  split at hp
  · cases hp
    rfl
  simp only [bind, Except.bind] at hp
  split at hp
  · cases hp
  · exact partData_error hp hf

theorem uploadLoop_play (boundary : Bytes) : ∀ (fuel : ℕ) {fsd : Upfs σ} (inp : Input E),
    fsd.uploadError = false →
    (uploadLoop m boundary fuel fsd inp).map (fun r => unlessError r.2.1 (r.1, r.2.2))
      = m.play fsd (scanLoop boundary fuel inp)
  | 0, fsd, inp, h => (play_fault_error h _).symm
  | fuel + 1, fsd, inp, h => by
    rw [scanLoop, play_bind_ok h, ← nextFile_play h]
    simp only [uploadLoop, bind]
    rcases hn : multipartHandleNextFile m boundary fsd inp with e | ⟨ret, fsd', inp'⟩
    · rfl
    cases hf : fsd'.uploadError with
    | true =>
      have hret := nextFile_error h hn hf
      simp [Except.bind, Except.map, unlessError_true hf, hret]
    | false =>
      simp only [Except.bind, Except.map, unlessError_false hf]
      split_ifs with hret
      · exact uploadLoop_play boundary fuel inp' hf
      · simp [unlessError_false hf, play_pure_ok hf]

/-- A play that comes to the end of the scan is a run of the loop. -/
theorem uploadLoop_of_play {boundary : Bytes} {fuel : ℕ} {fsd fsd' : Upfs σ} {inp inp' : Input E}
    {ret : ℤ} (h : fsd.uploadError = false)
    (hp : m.play fsd (scanLoop boundary fuel inp) = .ok (fsd', some (ret, inp'))) :
    uploadLoop m boundary fuel fsd inp = .ok (ret, fsd', inp') := by
  rw [← uploadLoop_play boundary fuel inp h] at hp
  rcases hl : uploadLoop m boundary fuel fsd inp with e | ⟨ret₁, fsd₁, inp₁⟩ <;> rw [hl] at hp
  · cases hp
  · simp only [Except.map, unlessError, Except.ok.injEq, Prod.mk.injEq] at hp
    obtain ⟨rfl, hp⟩ := hp
    split_ifs at hp
    obtain ⟨rfl, rfl⟩ := Prod.mk.inj (Option.some.inj hp)
    rfl

theorem uploadLoop_error (boundary : Bytes) : ∀ (fuel : ℕ) {fsd fsd' : Upfs σ}
    {inp inp' : Input E} {ret : ℤ}, fsd.uploadError = false →
    uploadLoop m boundary fuel fsd inp = .ok (ret, fsd', inp') → fsd'.uploadError = true →
    ret = -74
  | 0, _, _, _, _, _, _, hl, _ => by cases hl
  | fuel + 1, fsd, fsd', inp, inp', ret, h, hl, hf => by
    simp only [uploadLoop, bind, Except.bind] at hl
    split at hl
    · cases hl
    rename_i r hn
    obtain ⟨ret₁, fsd₁, inp₁⟩ := r
    simp only at hl
    split_ifs at hl with hret
    · cases hf₁ : fsd₁.uploadError with
      | true =>
        have := nextFile_error h hn hf₁
        omega
      | false => exact uploadLoop_error boundary fuel hf₁ hl hf
    · cases hl
      exact nextFile_error h hn hf

theorem upload_play (mp : UploadMount σ) (request : UploadRequest E)
    (hpost : request.command = .post) :
    (upload m mp request).map UploadMount.fsd = (do
      let fsd ← m.callHook (request.start mp)
      if fsd.uploadError then .ok fsd else uploadPlay m fsd mp.numIovec request) := by
  simp only [upload, hpost, ne_eq, not_true_eq_false, if_false]
  change Except.map _ (m.callHook (request.start mp) >>= _) = _
  rcases m.callHook (request.start mp) with e | fsd
  · rfl
  rw [Except.ok_bind, Except.ok_bind]
  cases h : fsd.uploadError with
  | true => rfl
  | false =>
    simp only [Bool.false_eq_true, if_false, uploadPlay]
    rcases requestCheckHeaders request.contentType with _ | boundary
    · simp only
      rcases uploadfsUploadSendError m.finalize fsd none with e | fsd' <;> rfl
    simp only [UploadRequest.scan]
    rw [← uploadLoop_play boundary _ _ h]
    generalize Evbuffer.length request.body + 1 = fuel
    rcases hl : uploadLoop m boundary fuel fsd
      { evb := request.body, numIovec := mp.numIovec, failures := request.parserFailures }
      with e | ⟨ret, fsd', inp'⟩
    · rfl
    have hend : endUpload m fsd' (unlessError fsd' (ret, inp')).2
        = if ret < 0 then uploadfsUploadSendError m.finalize fsd' none
          else callFinalize m.finalize fsd' true := by
      cases hf : fsd'.uploadError with
      | true =>
        rw [unlessError_true hf, uploadLoop_error boundary fuel h hl hf]
        rfl
      | false => rw [unlessError_false hf, endUpload]
    rw [Except.ok_bind]
    simp only [Except.map, Except.ok_bind]
    change _ = endUpload m fsd' (unlessError fsd' (ret, inp')).2
    rw [hend]
    split_ifs with hret
    · rcases uploadfsUploadSendError m.finalize fsd' none with e | fsd'' <;> rfl
    · rcases callFinalize m.finalize fsd' true with e | fsd'' <;> rfl

theorem scanHeaderLine_calls (ln : Option Bytes) : ∀ c ∈ (scanHeaderLine ln).calls,
    ∃ key value, c = .formHeader key value := by
  intro c h
  unfold scanHeaderLine at h
  split at h
  · cases h
  split_ifs at h
  · cases h
  split at h
  · exact ⟨_, _, List.mem_singleton.1 h⟩
  · cases h

theorem scanHeaders_calls : ∀ (fuel : ℕ) (inp : Input E), ∀ c ∈ (scanHeaders fuel inp).calls,
    ∃ key value, c = .formHeader key value
  | 0, _, _, h => by cases h
  | fuel + 1, inp, c, h => by
    rcases mem_calls_bind h with h | ⟨ret, h⟩
    · exact scanHeaderLine_calls _ c h
    · split_ifs at h
      · cases h
      · exact scanHeaders_calls fuel _ c h

theorem scanDelimiter_calls (boundary : Bytes) (inp : Input E) :
    (scanDelimiter boundary inp).calls = [] := by
  simp only [scanDelimiter]
  split <;> rfl

/-- The data of a part is handed over at most once, and if not, the loop does not go on. -/
theorem scanData_calls (boundary : Bytes) (start : EvbufferPtr I) (inp : Input E) :
    ((scanData boundary start inp).calls = []
        ∧ ∀ inp', (scanData boundary start inp).outcome ≠ .ok (1, inp'))
      ∨ ∃ vec n, (scanData boundary start inp).calls = [.data vec (wrapS 32 n)] := by
  unfold scanData
  split
  · exact .inl ⟨rfl, fun _ h => by cases h⟩
  split_ifs
  · exact .inl ⟨rfl, fun _ h => by cases h⟩
  split
  · exact .inl ⟨rfl, fun _ h => by cases h⟩
  rename_i next _ _ _ count vec inp' _
  split_ifs
  · exact .inl ⟨rfl, fun _ h => by cases h⟩
  · refine .inr ⟨vec, next.pos - 2, ?_⟩
    simp only [emit, bind_ok, scanDelimiter_calls, List.append_nil]

/-- A part the loop goes on behind was scanned to its end, all its calls made. -/
theorem nextFile_passed {fsd fsd' : Upfs σ} (h : fsd.uploadError = false) {boundary : Bytes}
    {inp inp' : Input E}
    (hp : multipartHandleNextFile m boundary fsd inp = .ok (1, fsd', inp')) :
    fsd'.uploadError = false ∧ (scanNextFile boundary inp).outcome = .ok (1, inp')
      ∧ m.replay fsd (scanNextFile boundary inp).calls = .ok fsd' := by
  have hf : fsd'.uploadError = false := by
    rcases hf : fsd'.uploadError with _ | _
    · rfl
    · have := nextFile_error h hp hf
      omega
  have hplay := nextFile_play (m := m) h boundary inp
  rw [hp] at hplay
  have hplay : m.play fsd (scanNextFile boundary inp) = .ok (fsd', some (1, inp')) := by
    rw [← hplay]
    exact congrArg Except.ok (unlessError_false hf _)
  obtain ⟨-, hx, hr⟩ := play_eq_some hplay
  exact ⟨hf, hx, hr⟩

theorem step_of_call {fsd fsd' : Upfs σ} {c : Call} (h : m.call fsd c = .ok fsd') :
    m.step fsd c = some fsd' := by
  simp [UploadfsModule.step, h, Except.toOption]

/-- What every call that meets `C` keeps up to an error, and makes into `Q` with one, holds after
the calls of a scan that meet `C`. -/
theorem replay_along {C : Upfs σ → Call → Prop} {P Q : Upfs σ → Prop}
    (hstep : ∀ fsd c fsd', fsd.uploadError = false → P fsd → C fsd c → m.call fsd c = .ok fsd' →
      if fsd'.uploadError then Q fsd' else P fsd') :
    ∀ (cs : List Call) {fsd fsd' : Upfs σ}, fsd.uploadError = false → P fsd →
      Along m.step C fsd cs → m.replay fsd cs = .ok fsd' →
      if fsd'.uploadError then Q fsd' else P fsd'
  | [], fsd, fsd', h, hP, _, hr => by
    cases hr
    rw [h]
    exact hP
  | c :: cs, fsd, fsd', h, hP, ha, hr => by
    rw [UploadfsModule.replay, replay_cons] at hr
    rcases hc : m.call fsd c with e | fsd₁ <;> rw [hc] at hr
    · cases hr
    have h₁ := hstep fsd c fsd₁ h hP ha.1 hc
    simp only [Except.bind] at hr
    cases he : fsd₁.uploadError with
    | true =>
      rw [he, if_pos rfl] at hr h₁
      cases hr
      rw [he]
      exact h₁
    | false =>
      simp only [he, Bool.false_eq_true, if_false] at hr h₁
      exact replay_along hstep cs he h₁ (ha.2 fsd₁ (step_of_call hc)) hr

/-- As `replay_along`, for a property that every call that is made keeps, also one that signals an
error. -/
theorem replay_made {P : Upfs σ → Prop} {fsd : Upfs σ} (he : fsd.uploadError = false)
    (h : P fsd) {all : List Call}
    (hstep : ∀ cs c cs' fsd₁ fsd₂, all = cs ++ c :: cs' → m.replay fsd cs = .ok fsd₁ →
      fsd₁.uploadError = false → P fsd₁ → m.call fsd₁ c = .ok fsd₂ → P fsd₂) {cs : List Call} :
    ∀ {cs' : List Call} {fsd' : Upfs σ}, all = cs ++ cs' → m.replay fsd cs = .ok fsd' →
      P fsd' := by
  induction cs using List.reverseRecOn with
  | nil =>
    intro cs' fsd' _ hr
    cases hr
    exact h
  | append_singleton cs c ih =>
    intro cs' fsd' hall hr
    rw [List.append_assoc] at hall
    rw [UploadfsModule.replay, replay_append cs [c] fsd he] at hr
    rcases hcs : Script.replay m.call Upfs.uploadError fsd cs with e | fsd₁ <;> rw [hcs] at hr
    · cases hr
    have h₁ := ih hall hcs
    simp only [Except.bind] at hr
    split_ifs at hr with he₁
    · cases hr
      exact h₁
    · exact hstep cs c cs' fsd₁ fsd' hall hcs (by simpa using he₁) h₁ (replay_single hr)

theorem UploadRequest.Makes.mem {request : UploadRequest E} {mp : UploadMount σ} {fsd : Upfs σ}
    {c : Call} (h : request.Makes m mp fsd c) : c ∈ request.calls mp.numIovec := by
  obtain ⟨-, fsd₀, cs, cs', -, -, hcs, -, -⟩ := h
  rw [hcs]
  exact List.mem_append_right cs List.mem_cons_self

/-- Only a POST request is more than answered. -/
theorem upload_notAllowed {mp mp' : UploadMount σ} {request : UploadRequest E}
    (h : upload m mp request = .ok mp') (hpost : request.command ≠ .post) :
    mp'.fsd.modData = mp.fsd.modData ∧ mp'.fsd.mountpoint = mp.fsd.mountpoint := by
  simp only [upload, ne_eq, hpost, not_false_eq_true, if_true] at h
  cases h
  exact ⟨rfl, rfl⟩

variable (m) in
/-- How an upload that comes to an end went. -/
inductive UploadRun (mp : UploadMount σ) (request : UploadRequest E) (fsd : Upfs σ) : Prop where
  | notAllowed (hd : fsd.modData = mp.fsd.modData) (hmp : fsd.mountpoint = mp.fsd.mountpoint)
      (hpost : request.command ≠ .post)
  | hookFails (hh : m.callHook (request.start mp) = .ok fsd) (he : fsd.uploadError = true)
  | noBoundary {fsd₀ : Upfs σ} (hh : m.callHook (request.start mp) = .ok fsd₀)
      (he : fsd₀.uploadError = false)
      (hs : uploadfsUploadSendError m.finalize fsd₀ none = .ok fsd)
  | stopped {boundary : Bytes} {fsd₀ fsd₁ : Upfs σ}
      (hh : m.callHook (request.start mp) = .ok fsd₀) (he : fsd₀.uploadError = false)
      (hb : requestCheckHeaders request.contentType = some boundary)
      (hr : m.replay fsd₀ (request.calls mp.numIovec) = .ok fsd₁) (he₁ : fsd₁.uploadError = true)
      (hs : uploadfsUploadSendError m.finalize fsd₁ none = .ok fsd)
  | scanned {boundary : Bytes} {fsd₀ fsd₁ : Upfs σ} {r : ℤ × Input E}
      (hh : m.callHook (request.start mp) = .ok fsd₀) (he : fsd₀.uploadError = false)
      (hb : requestCheckHeaders request.contentType = some boundary)
      (hr : m.replay fsd₀ (request.calls mp.numIovec) = .ok fsd₁)
      (he₁ : fsd₁.uploadError = false)
      (hx : (request.scan boundary mp.numIovec).outcome = .ok r)
      (hs : endUpload m fsd₁ (some r) = .ok fsd)

theorem upload_run {mp mp' : UploadMount σ} {request : UploadRequest E}
    (h : upload m mp request = .ok mp') : UploadRun m mp request mp'.fsd := by
  by_cases hpost : request.command = .post
  swap
  · obtain ⟨hd, hmp⟩ := upload_notAllowed h hpost
    exact .notAllowed hd hmp hpost
  have hplay := upload_play (m := m) mp request hpost
  rw [h] at hplay
  obtain ⟨fsd₀, hh, hplay⟩ := Except.bind_eq_ok.1 hplay.symm
  cases he : fsd₀.uploadError with
  | true =>
    rw [he, if_pos rfl] at hplay
    cases hplay
    exact .hookFails hh he
  | false =>
    simp only [he, Bool.false_eq_true, if_false, uploadPlay] at hplay
    rcases hb : requestCheckHeaders request.contentType with _ | boundary <;> rw [hb] at hplay
    · exact .noBoundary hh he hplay
    obtain ⟨⟨fsd₁, r⟩, hp, hend⟩ := Except.bind_eq_ok.1 hplay
    have hcalls : request.calls mp.numIovec = (request.scan boundary mp.numIovec).calls := by
      rw [UploadRequest.calls, hb]
    cases r with
    | none =>
      obtain ⟨he₁, hr⟩ := play_eq_none hp
      exact .stopped hh he hb (hcalls ▸ hr) he₁ hend
    | some r =>
      obtain ⟨he₁, hx, hr⟩ := play_eq_some hp
      exact .scanned hh he hb (hcalls ▸ hr) he₁ hx hend

/-- What all the callbacks of a module keep of its data. -/
structure UploadfsModule.Keeps (m : UploadfsModule σ) (P : σ → Prop) : Prop where
  hook : ∀ {fsd fsd'}, P fsd.modData → m.callHook fsd = .ok fsd' → P fsd'.modData
  call : ∀ {fsd fsd' c}, P fsd.modData → m.call fsd c = .ok fsd' → P fsd'.modData
  finalize : ∀ {fsd fsd' ok}, P fsd.modData → callFinalize m.finalize fsd ok = .ok fsd' →
    P fsd'.modData

section Keeps

variable {P : σ → Prop} {fsd fsd' : Upfs σ} (hP : m.Keeps P)

include hP

theorem UploadfsModule.Keeps.replay {cs : List Call} (h : P fsd.modData)
    (he : fsd.uploadError = false) (hr : m.replay fsd cs = .ok fsd') : P fsd'.modData := by
  have := replay_along (P := fun fsd => P fsd.modData) (Q := fun fsd => P fsd.modData)
    (fun fsd c fsd' _ h _ hcall => by split_ifs <;> exact hP.call h hcall) cs he h
    (along_true cs fsd) hr
  split_ifs at this <;> exact this

theorem UploadfsModule.Keeps.sendError (h : P fsd.modData)
    (hs : uploadfsUploadSendError m.finalize fsd none = .ok fsd') : P fsd'.modData := by
  have hfailed : P (({ fsd with uploadError := true } : Upfs σ).reply
    (.error 406 (lit "Not acceptable"))).modData := h
  exact hP.finalize hfailed hs

theorem UploadfsModule.Keeps.upload {mp mp' : UploadMount σ} {request : UploadRequest E}
    (hup : upload m mp request = .ok mp') (h : P mp.fsd.modData) : P mp'.fsd.modData := by
  have hstart : P (request.start mp).modData := h
  have hhook : ∀ {fsd₀}, m.callHook (request.start mp) = .ok fsd₀ → P fsd₀.modData :=
    fun hh => hP.hook hstart hh
  cases upload_run hup with
  | notAllowed hd => exact hd ▸ h
  | hookFails hh => exact hhook hh
  | noBoundary hh he hs => exact hP.sendError (hhook hh) hs
  | stopped hh he hb hr he₁ hs => exact hP.sendError (hP.replay (hhook hh) he hr) hs
  | @scanned _ _ _ r hh he hb hr he₁ hx hs =>
    have h₁ := hP.replay (hhook hh) he hr
    simp only [endUpload] at hs
    split_ifs at hs
    · exact hP.sendError h₁ hs
    · exact hP.finalize h₁ hs

end Keeps

end AuraHttpd
