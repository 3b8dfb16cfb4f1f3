import AuraHttpd.Proofs.Grabbers
import AuraHttpd.Lib.Run

/-!
# Frames in circulation

`start` queues as many buffers as `init` recorded: all of them with the mmap grabber, none with the
userptr grabber.  A read of a buffer there is takes it off the queue and fails, so the buffers run
out (`run_length_add`) and only a stream that is not read keeps all of them queued (`streams_iff`).
-/

namespace AuraHttpd

open CString StepSystem

/-- All the buffers are queued at the driver. -/
def AllQueued (c : ℕ) (queued : List V4l2Buffer) : Prop :=
  (queued.map (·.index)).Perm (List.range c)

/-- What is queued after a read that takes the buffer. -/
def readStep (grb : Grabber) (data : V4l2fsInstance) (queued : List V4l2Buffer)
    (buf : V4l2Buffer) : Option (List V4l2Buffer) :=
  some (grb.readFrame true data (some buf) true queued).2

/-- The driver hands out one of the buffers that are queued at each read. -/
def Dequeues (grb : Grabber) (data : V4l2fsInstance) (c : ℕ) (queued reads : List V4l2Buffer) :
    Prop :=
  Along (readStep grb data) (fun queued buf => buf ∈ queued ∧ buf.index < c) queued reads

/-- Every read succeeds and leaves all the buffers queued. -/
def Circulates (grb : Grabber) (data : V4l2fsInstance) (c : ℕ) (queued reads : List V4l2Buffer) :
    Prop :=
  Along (readStep grb data) (fun queued buf =>
    (grb.readFrame true data (some buf) true queued).1 = 0
      ∧ AllQueued c (grb.readFrame true data (some buf) true queued).2) queued reads

section Start

variable {qbuf : ℕ → Bool} {streamOn : Bool} {data : V4l2fsInstance}

theorem startLoop_queued {buffer : ℕ → V4l2Buffer} : ∀ {n i : ℕ} {before queued : List V4l2Buffer},
    startLoop qbuf buffer n i before = (true, queued) →
      queued = before ++ (List.range' i n).map buffer
  | 0, i, before, queued, h => by
    obtain rfl : before = queued := by simpa [startLoop] using h
    simp
  | n + 1, i, before, queued, h => by
    unfold startLoop at h
    split_ifs at h
    · rw [startLoop_queued h, List.append_assoc, List.range'_succ]
      rfl
    · simp at h

theorem startStreaming_queued {buffer : ℕ → V4l2Buffer} {queued : List V4l2Buffer}
    (h : startStreaming qbuf streamOn data buffer [] = (0, queued)) :
    queued = (List.range data.frameCount).map buffer := by
  unfold startStreaming at h
  rcases hloop : startLoop qbuf buffer data.frameCount 0 [] with ⟨_ | _, q⟩ <;> rw [hloop] at h
  · simp at h
  · have hq := startLoop_queued hloop
    dsimp only at h
    split_ifs at h
    · obtain rfl : q = queued := by simpa using h
      rw [hq, List.nil_append, List.range_eq_range']
    · simp at h

/-- A start queues the buffers `init` recorded. -/
theorem Grabber.start_indices {grb : Grabber} {queued : List V4l2Buffer} (hgrb : grb ≠ .read)
    (h : grb.start qbuf streamOn data [] = (0, queued)) :
    queued.map (·.index) = List.range data.frameCount := by
  cases grb with
  | read => exact absurd rfl hgrb
  | mmap =>
    rw [startStreaming_queued h, List.map_map]
    exact List.map_id _
  | userptr =>
    rw [startStreaming_queued h, List.map_map]
    exact List.map_id _

end Start

section Read

variable {grb : Grabber} {data : V4l2fsInstance} {c : ℕ}

/-- A buffer with an index below the frame count is taken for an insane one. -/
theorem Grabber.readFrame_of_lt (hgrb : grb ≠ .read) {buf : V4l2Buffer}
    (hlt : buf.index < data.frameCount) (queued : List V4l2Buffer) :
    grb.readFrame true data (some buf) true queued = (-1, queued.erase buf) := by
  cases grb with
  | read => exact absurd rfl hgrb
  | mmap => simp [readFrame, readFrameMmap, readFrameStreaming, hlt]
  | userptr => simp [readFrame, readFrameUserptr, readFrameStreaming, hlt]

/-- Each read takes a buffer out of circulation. -/
theorem run_length_add (hgrb : grb ≠ .read) (hcount : data.frameCount = c) :
    ∀ {reads queued : List V4l2Buffer}, Dequeues grb data c queued reads →
      ∃ queued', run (readStep grb data) queued reads = some queued'
        ∧ queued'.length + reads.length = queued.length
  | [], queued, _ => ⟨queued, rfl, rfl⟩
  | buf :: reads, queued, ⟨⟨hmem, hlt⟩, h⟩ => by
    have hread := Grabber.readFrame_of_lt hgrb (hcount ▸ hlt) queued
    obtain ⟨queued', hrun, hlength⟩ := run_length_add hgrb hcount (h _ rfl)
    refine ⟨queued', ?_, ?_⟩
    · rw [run, readStep, Option.bind_some]
      exact hrun
    · rw [hread, List.length_erase_of_mem hmem] at hlength
      have := List.length_pos_of_mem hmem
      simp only [List.length_cons]
      omega

end Read

/-- For every grabber that streams, every camera it initializes with `c` buffers and every run of
reads: all the buffers stay in circulation exactly if the buffers are mapped and nothing is
read. -/
theorem streams_iff {grb : Grabber} {calls : CameraCalls} {t t' : Descriptors}
    {inst : GrabberInstance} {data : V4l2fsInstance} {c : ℕ} {qbuf : ℕ → Bool} {streamOn : Bool}
    {queued reads : List V4l2Buffer} (hgrb : grb ≠ .read) (hreq : calls.reqBufs = some c)
    (hc : 2 ≤ c) (hinit : grb.init calls t { inst with } none = (0, t', data))
    (hstart : grb.start qbuf streamOn data [] = (0, queued))
    (hreads : Dequeues grb data c queued reads) :
    (AllQueued c queued ∧ Circulates grb data c queued reads) ↔ grb = .mmap ∧ reads = [] := by
  have hindices := Grabber.start_indices hgrb hstart
  unfold AllQueued
  rw [hindices]
  cases Grabber.init_initResult hinit with
  | started hcommon hown hcount hnone =>
    dsimp only at hcount hnone ⊢
    constructor
    · rintro ⟨hall, hcirculates⟩
      have hlength := hall.length_eq
      rw [List.length_range, List.length_range] at hlength
      have hmmap : grb = .mmap := by
        by_contra hne
        have := hnone hne
        omega
      refine ⟨hmmap, ?_⟩
      rcases reads with _ | ⟨buf, reads⟩
      · rfl
      · have hlt : buf.index < c := hreads.1.2
        have hret := hcirculates.1.1
        rw [Grabber.readFrame_of_lt hgrb (hlength ▸ hlt)] at hret
        simp at hret
    · rintro ⟨hmmap, rfl⟩
      obtain rfl := Option.some.inj ((hcount hmmap).symm.trans hreq)
      exact ⟨.refl _, trivial⟩

/-- A camera whose frames are mapped. -/
def mappedCamera : GrabberInstance := ⟨lit "/dev/video0", 0, 640, 480, .mmap, none⟩

/-- A stream of four buffers that is not read. -/
theorem streams_unread : ∃ t data queued,
    Grabber.mmap.init {} ⟨[0, 1, 2], [], []⟩ { mappedCamera with } none = (0, t, data)
      ∧ Grabber.mmap.start (fun _ => true) true data [] = (0, queued)
      ∧ AllQueued 4 queued ∧ Circulates .mmap data 4 queued [] := by
  have hreads : ∀ data queued, Dequeues .mmap data 4 queued [] := fun _ _ => trivial
  obtain ⟨t, data, queued, hinit, hstart⟩ : ∃ t data queued,
      Grabber.mmap.init {} ⟨[0, 1, 2], [], []⟩ { mappedCamera with } none = (0, t, data)
        ∧ Grabber.mmap.start (fun _ => true) true data [] = (0, queued) := ⟨_, _, _, rfl, rfl⟩
  exact ⟨t, data, queued, hinit, hstart,
    (streams_iff (by decide) rfl (by decide) hinit hstart (hreads _ _)).2 ⟨rfl, rfl⟩⟩

/-- The first frame that is read does not go back to the driver. -/
theorem frame_kept : ¬ ∀ (grb : Grabber) (calls : CameraCalls) (t t' : Descriptors)
    (inst : GrabberInstance) (data : V4l2fsInstance) (c : ℕ) (qbuf : ℕ → Bool) (streamOn : Bool)
    (queued reads : List V4l2Buffer), grb ≠ .read → calls.reqBufs = some c → 2 ≤ c →
    grb.init calls t { inst with } none = (0, t', data) →
    grb.start qbuf streamOn data [] = (0, queued) → Dequeues grb data c queued reads →
    AllQueued c queued ∧ Circulates grb data c queued reads := by
  intro h
  have := (h .mmap {} ⟨[0, 1, 2], [], []⟩ _ mappedCamera _ 4 (fun _ => true) true _ [{ index := 0 }]
    (by decide) rfl (by decide) rfl rfl
    ⟨⟨List.mem_cons_self, by decide⟩, fun _ _ => trivial⟩).2.1.1
  exact absurd this (by decide)

end AuraHttpd
