import AuraHttpd.V4l2Read

/-!
# Initializing a camera

What the `init` of a grabber comes to, by the step at which it fails: before anything is opened,
in `device_common_init`, which closes the descriptor twice, or behind it, where it is closed once
(`Grabber.init_initResult`).
-/

namespace AuraHttpd

/-- `device_common_init` comes to its end. -/
def CommonInits (calls : CameraCalls) : Prop :=
  calls.openDevice = true ∧ calls.queryCap.any (·.videoCapture) = true
    ∧ calls.sFmt.isSome = true

/-- There is memory for the frames. -/
def AllocatesFrames (calls : CameraCalls) (count : ℕ) : Prop :=
  calls.allocFrames = true ∧ ∀ i < count, (calls.frameStart i).isSome = true

/-- The driver tells of a buffer, and it can be mapped. -/
def MapsBuffer (calls : CameraCalls) (i : ℕ) : Prop :=
  (calls.queryBuf i).isSome = true ∧ (calls.mmap i).isSome = true

/-- What an initializer does behind `device_common_init` comes to its end. -/
def Grabber.OwnInits (calls : CameraCalls) : Grabber → Prop
  | .read => calls.queryCap.any (·.readwrite) = true ∧ AllocatesFrames calls 1
  | .mmap => calls.queryCap.any (·.streaming) = true ∧ ∃ count, calls.reqBufs = some count
      ∧ 2 ≤ count ∧ calls.allocBuffers = true ∧ ∀ i < count, MapsBuffer calls i
  | .userptr => calls.queryCap.any (·.streaming) = true ∧ ∃ count, calls.reqBufs = some count
      ∧ AllocatesFrames calls count

/-- What the initializer of a camera that shares no device comes to. -/
inductive InitResult (calls : CameraCalls) (grb : Grabber) (t : Descriptors)
    (data : V4l2fsInstance) : ℤ → Descriptors → V4l2fsInstance → Prop where
  | unopened {data' : V4l2fsInstance} (hopen : calls.openDevice = false) :
      InitResult calls grb t data (-1) t data'
  | closedTwice {data' : V4l2fsInstance} (hopen : calls.openDevice = true)
      (hcommon : ¬ CommonInits calls) :
      InitResult calls grb t data (-1) ((t.openFd.2.close t.unused).close t.unused) data'
  | closedOnce {data' : V4l2fsInstance} (hcommon : CommonInits calls)
      (hown : ¬ grb.OwnInits calls) :
      InitResult calls grb t data (-1) (t.openFd.2.close t.unused) data'
  | started {frames : List V4l2fsBuffer} {count size : ℕ} (hcommon : CommonInits calls)
      (hown : grb.OwnInits calls) (hcount : grb = .mmap → calls.reqBufs = some count)
      (hnone : grb ≠ .mmap → count = data.frameCount) :
      InitResult calls grb t data 0 t.openFd.2 { data with
        fd := (t.unused : ℤ)
        buffers := some frames
        frameCount := count
        frameSize := size }

section Frames

variable {calls : CameraCalls}

theorem isSome_mapM {α β : Type} {f : α → Option β} : ∀ {l : List α},
    (l.mapM f).isSome = true ↔ ∀ a ∈ l, (f a).isSome = true
  | [] => by simp
  | a :: l => by
    have ih := isSome_mapM (f := f) (l := l)
    rcases ha : f a with _ | b
    · simp [List.mapM_cons, ha]
    · rcases hl : l.mapM f with _ | bs <;> rw [hl] at ih
      · simpa [List.mapM_cons, ha, hl] using ih
      · simpa [List.mapM_cons, ha, hl] using ih

theorem isSome_allocateFrames {count size : ℕ} :
    (allocateFrames calls count size).isSome = true ↔ AllocatesFrames calls count := by
  unfold allocateFrames AllocatesFrames
  rcases calls.allocFrames
  · simp
  · simp [isSome_mapM]

/-- The loop maps all the buffers left, or the descriptor is as before. -/
theorem mmapLoop_cases (calls : CameraCalls) : ∀ (n : ℕ) (data : V4l2fsInstance)
    {frames : List V4l2fsBuffer}, data.buffers = some frames →
      ((∀ i < n, MapsBuffer calls (data.frameCount + i)) ∧ ∃ frames', mmapLoop calls n data
        = (true, { data with
          buffers := some frames'
          frameCount := data.frameCount + n }))
      ∨ (¬ ∀ i < n, MapsBuffer calls (data.frameCount + i)) ∧ ∃ data' : V4l2fsInstance,
        data'.fd = data.fd ∧ mmapLoop calls n data = (false, data')
  | 0, data, frames, hframes => .inl ⟨nofun, frames, by simp [mmapLoop, ← hframes]⟩
  | n + 1, data, frames, hframes => by
    simp only [Nat.forall_lt_succ_left, Nat.add_zero]
    rcases hlength : calls.queryBuf data.frameCount with _ | length
    · refine .inr ⟨fun h => ?_, data, rfl, by simp only [mmapLoop, hlength]⟩
      simp [MapsBuffer, hlength] at h
    rcases hstart : calls.mmap data.frameCount with _ | start
    · refine .inr ⟨fun h => ?_, data, rfl, by simp only [mmapLoop, hlength, hstart]⟩
      simp [MapsBuffer, hstart] at h
    have hmaps : MapsBuffer calls data.frameCount := by simp [MapsBuffer, hlength, hstart]
    simp only [mmapLoop, hlength, hstart, hmaps, true_and]
    have ih := mmapLoop_cases calls n
      { data with
        buffers := data.buffers.map (·.set data.frameCount ⟨start, length⟩)
        frameCount := data.frameCount + 1 } (congrArg (Option.map _) hframes)
    simpa only [Nat.add_assoc, Nat.add_comm 1] using ih

end Frames

section Init

variable {calls : CameraCalls} {t : Descriptors} {data : V4l2fsInstance}

theorem deviceCommonInit_of_commonInits (t : Descriptors) (data : V4l2fsInstance)
    (h : CommonInits calls) :
    ∃ size, deviceCommonInit calls t data none = (0, t.openFd.2, { data with
      fd := (t.unused : ℤ)
      frameSize := size }) := by
  obtain ⟨hopen, hcap, hfmt⟩ := h
  obtain ⟨cap, hq, hvideo⟩ := Option.any_eq_true .. |>.1 hcap
  obtain ⟨pix, hpix⟩ := Option.isSome_iff_exists.1 hfmt
  exact ⟨pix.frameSize, by simp [deviceCommonInit, hopen, hq, hvideo, hpix, Descriptors.openFd]⟩

/-- The `bailout` of `device_common_init` closes the descriptor, and so does the cleanup it then
calls. -/
theorem deviceCommonInit_of_not_commonInits (hopen : calls.openDevice = true)
    (h : ¬ CommonInits calls) : deviceCommonInit calls t data none
      = initBailout (t.openFd.2.close t.unused) { data with fd := (t.unused : ℤ) } := by
  unfold deviceCommonInit
  rw [if_neg (by simp [hopen])]
  dsimp only [Descriptors.openFd]
  rcases hq : calls.queryCap with _ | cap
  · rfl
  dsimp only
  split_ifs with hvideo
  · rfl
  rcases hpix : calls.sFmt with _ | pix
  · rfl
  · exact absurd ⟨hopen, by simpa [hq] using hvideo, by simp [hpix]⟩ h

/-- What an initializer comes to behind `device_common_init`: a failure closes the descriptor. -/
inductive OwnResult (calls : CameraCalls) (grb : Grabber) (t : Descriptors)
    (data : V4l2fsInstance) : ℤ × Descriptors × V4l2fsInstance → Prop where
  | fails {data' : V4l2fsInstance} (hown : ¬ grb.OwnInits calls) (hfd : data'.fd = data.fd) :
      OwnResult calls grb t data (initBailout t data')
  | starts {frames : List V4l2fsBuffer} {count : ℕ} (hown : grb.OwnInits calls)
      (hcount : grb = .mmap → calls.reqBufs = some count)
      (hnone : grb ≠ .mmap → count = data.frameCount) : OwnResult calls grb t data
        (0, t, { data with
          buffers := some frames
          frameCount := count })

theorem afterCommonInit_initResult {grb : Grabber}
    {rest : V4l2Capability → Descriptors → V4l2fsInstance → ℤ × Descriptors × V4l2fsInstance}
    (hrest : ∀ cap t data, calls.queryCap = some cap →
      OwnResult calls grb t data (rest cap t data)) {ret : ℤ} {t' : Descriptors}
    {data' : V4l2fsInstance} (h : afterCommonInit calls t data none rest = (ret, t', data')) :
    InitResult calls grb t data ret t' data' := by
  unfold afterCommonInit at h
  by_cases hcommon : CommonInits calls
  · obtain ⟨size, heq⟩ := deviceCommonInit_of_commonInits t data hcommon
    obtain ⟨cap, hcap, -⟩ := Option.any_eq_true .. |>.1 hcommon.2.1
    simp only [heq, lt_self_iff_false, if_false, hcap, Option.getD_some] at h
    have hown := hrest cap t.openFd.2
      { data with
        fd := (t.unused : ℤ)
        frameSize := size } hcap
    rw [h] at hown
    generalize hr : (ret, t', data') = r at hown
    cases hown with
    | fails hown hfd =>
      simp only [initBailout, deviceCommonCleanup, Prod.mk.injEq] at hr
      obtain ⟨rfl, rfl, -⟩ := hr
      rw [hfd]
      exact .closedOnce hcommon hown
    | starts hown hcount hnone =>
      simp only [Prod.mk.injEq] at hr
      obtain ⟨rfl, rfl, rfl⟩ := hr
      exact .started hcommon hown hcount hnone
  · cases hopen : calls.openDevice with
    | false =>
      simp only [deviceCommonInit, hopen, if_true] at h
      obtain ⟨rfl, rfl, -⟩ : -1 = ret ∧ t = t' ∧ _ := by simpa using h
      exact .unopened hopen
    | true =>
      rw [deviceCommonInit_of_not_commonInits hopen hcommon] at h
      simp only [initBailout, deviceCommonCleanup] at h
      obtain ⟨rfl, rfl, -⟩ : -1 = ret ∧ _ = t' ∧ _ := by simpa using h
      exact .closedTwice hopen hcommon

variable {ret : ℤ} {t' : Descriptors} {data' : V4l2fsInstance}

theorem deviceReadInit_initResult (h : deviceReadInit calls t data none = (ret, t', data')) :
    InitResult calls .read t data ret t' data' := by
  unfold deviceReadInit at h
  refine afterCommonInit_initResult (fun cap t data hcap => ?_) h
  split_ifs with hrw
  · exact .fails (fun hown => by simp [Grabber.OwnInits, hcap, hrw] at hown) rfl
  rcases hframes : allocateFrames calls 1 data.frameSize with _ | frames
  · refine .fails (fun hown => ?_) rfl
    have : (allocateFrames calls 1 data.frameSize).isSome = true :=
      isSome_allocateFrames.2 hown.2
    simp [hframes] at this
  · have halloc := isSome_allocateFrames.1 (Option.isSome_iff_exists.2 ⟨frames, hframes⟩)
    exact .starts ⟨by simpa [hcap] using hrw, halloc⟩ nofun fun _ => rfl

theorem deviceMmapInit_initResult (h : deviceMmapInit calls t data none = (ret, t', data')) :
    InitResult calls .mmap t data ret t' data' := by
  unfold deviceMmapInit at h
  refine afterCommonInit_initResult (fun cap t data hcap => ?_) h
  by_cases hstream : cap.streaming = false
  · rw [if_pos hstream]
    exact .fails (fun hown => by simp [Grabber.OwnInits, hcap, hstream] at hown) rfl
  rw [if_neg hstream]
  rcases hreq : calls.reqBufs with _ | count
  · exact .fails (fun hown => by simp [Grabber.OwnInits, hreq] at hown) rfl
  dsimp only
  have hcount : ∀ {n : ℕ}, calls.reqBufs = some n → n = count := fun hn =>
    Option.some.inj (hn.symm.trans hreq)
  by_cases hfew : count < 2
  · rw [if_pos hfew]
    refine .fails (fun ⟨_, n, hn, hle, _⟩ => ?_) rfl
    rw [hcount hn] at hle
    omega
  rw [if_neg hfew]
  cases hmem : calls.allocBuffers with
  | false => exact .fails (fun hown => by simp [Grabber.OwnInits, hmem] at hown) rfl
  | true =>
    rw [if_neg Bool.noConfusion]
    have hloop := mmapLoop_cases calls count
      { data with
        buffers := some (List.replicate count {})
        frameCount := 0 } rfl
    simp only [Nat.zero_add] at hloop
    rcases hloop with ⟨hmaps, frames, heq⟩ | ⟨hmaps, data'', hfd, heq⟩ <;> rw [heq]
    · exact .starts ⟨by simpa [hcap] using hstream, count, hreq, Nat.not_lt.1 hfew, hmem, hmaps⟩
        (fun _ => hreq) fun hne => absurd rfl hne
    · exact .fails (fun ⟨_, n, hn, _, _, hall⟩ => hmaps (hcount hn ▸ hall)) hfd

theorem deviceUserptrInit_initResult
    (h : deviceUserptrInit calls t data none = (ret, t', data')) :
    InitResult calls .userptr t data ret t' data' := by
  unfold deviceUserptrInit at h
  refine afterCommonInit_initResult (fun cap t data hcap => ?_) h
  split_ifs with hstream
  · exact .fails (fun hown => by simp [Grabber.OwnInits, hcap, hstream] at hown) rfl
  rcases hreq : calls.reqBufs with _ | count
  · exact .fails (fun hown => by simp [Grabber.OwnInits, hreq] at hown) rfl
  dsimp only
  rcases hframes : allocateFrames calls count data.frameSize with _ | frames
  · refine .fails (fun hown => ?_) rfl
    obtain ⟨-, n, hn, halloc⟩ := hown
    obtain rfl : count = n := Option.some.inj (hreq.symm.trans hn)
    have : (allocateFrames calls count data.frameSize).isSome = true :=
      isSome_allocateFrames.2 halloc
    simp [hframes] at this
  · have halloc := isSome_allocateFrames.1 (Option.isSome_iff_exists.2 ⟨frames, hframes⟩)
    exact .starts ⟨by simpa [hcap] using hstream, count, hreq, halloc⟩ nofun fun _ => rfl

theorem Grabber.init_initResult {grb : Grabber}
    (h : grb.init calls t data none = (ret, t', data')) :
    InitResult calls grb t data ret t' data' := by
  cases grb with
  | read => exact deviceReadInit_initResult h
  | mmap => exact deviceMmapInit_initResult h
  | userptr => exact deviceUserptrInit_initResult h

theorem InitResult.ret_eq_zero_iff {grb : Grabber} (h : InitResult calls grb t data ret t' data') :
    ret = 0 ↔ CommonInits calls ∧ grb.OwnInits calls := by
  cases h with
  | unopened hopen => simp [CommonInits, hopen]
  | closedTwice _ hcommon => simp [hcommon]
  | closedOnce _ hown => simp [hown]
  | started hcommon hown => simp [hcommon, hown]

theorem InitResult.toGrabberInstance_eq {grb : Grabber}
    (h : InitResult calls grb t data 0 t' data') :
    data'.toGrabberInstance = data.toGrabberInstance := by
  cases h
  rfl

end Init

end AuraHttpd
