import AuraHttpd.FsV4l2

/-!
# Reading from cameras

`v4l2_read.c`, with the descriptors of the process and the buffers that are queued at the driver.
What the system calls and the allocations made for a camera come to is told from outside.  The
calls whose errors are ignored (`VIDIOC_CROPCAP`, `VIDIOC_S_CROP`) are left out.
-/

namespace AuraHttpd

open CString

/-- The descriptors that are open in the process, and those opened and closed while cameras are
initialized. -/
structure Descriptors where
  fds : List ℕ
  opened : List ℕ := []
  closed : List ℤ := []

namespace Descriptors

/-- The lowest descriptor that is not open. -/
def unused (t : Descriptors) : ℕ :=
  ((List.range (t.fds.length + 1)).find? (· ∉ t.fds)).getD t.fds.length

/-- `open`, where it succeeds. -/
def openFd (t : Descriptors) : ℤ × Descriptors :=
  (t.unused, { t with fds := t.unused :: t.fds, opened := t.opened ++ [t.unused] })

/-- `close`. -/
def close (t : Descriptors) (fd : ℤ) : Descriptors :=
  { t with fds := t.fds.filter fun n => (n : ℤ) ≠ fd, closed := t.closed ++ [fd] }

end Descriptors

/-- The capabilities of a device that are looked at. -/
structure V4l2Capability where
  videoCapture : Bool := true
  readwrite : Bool := true
  streaming : Bool := true

/-- `struct v4l2_pix_format`, as `VIDIOC_S_FMT` leaves it. -/
structure V4l2PixFormat where
  width : ℕ
  height : ℕ
  bytesperline : ℕ
  sizeimage : ℕ

/-- What is called for a camera comes to: whether `open_device` opens it, and what `ioctl`, `calloc`
and `mmap` give, for the frames by their index. -/
structure CameraCalls where
  openDevice : Bool := true
  queryCap : Option V4l2Capability := some {}
  sFmt : Option V4l2PixFormat := some ⟨0, 0, 0, 0⟩
  allocFrames : Bool := true
  frameStart : ℕ → Option ℕ := some
  reqBufs : Option ℕ := some 4
  allocBuffers : Bool := true
  queryBuf : ℕ → Option ℕ := some
  mmap : ℕ → Option ℕ := some
  sInput : Bool := true
  gInput : Option ℤ := some 0
  enumInput : Bool := true

/-- `struct v4l2fs_buffer`. -/
structure V4l2fsBuffer where
  start : ℕ := 0
  length : ℕ := 0
  deriving DecidableEq, Repr

/-- `struct v4l2fs_grabber_instance`. -/
structure V4l2fsInstance extends GrabberInstance where
  fd : ℤ := 0
  buffers : Option (List V4l2fsBuffer) := none
  frameCount : ℕ := 0
  frameSize : ℕ := 0
  initialized : Bool := false

section Init

variable (calls : CameraCalls) (t : Descriptors) (data : V4l2fsInstance)

/-- `allocate_frames`. -/
def allocateFrames (count frameSize : ℕ) : Option (List V4l2fsBuffer) :=
  if calls.allocFrames = false then none
  else (List.range count).mapM fun i => (calls.frameStart i).map fun start => ⟨start, frameSize⟩

/-- `device_common_cleanup`. -/
def deviceCommonCleanup : Descriptors × V4l2fsInstance :=
  (t.close data.fd, { data with fd := -1, buffers := none })

/-- The `bailout` of an initializer behind `device_common_init`. -/
def initBailout : ℤ × Descriptors × V4l2fsInstance :=
  let (t, data) := deviceCommonCleanup t data
  (-1, t, data)

/-- The size of a frame, at least that of its lines. -/
def V4l2PixFormat.frameSize (pix : V4l2PixFormat) : ℕ :=
  let bytesperline := max pix.bytesperline (pix.width * 2 % 2 ^ 32)
  max pix.sizeimage (bytesperline * pix.height % 2 ^ 32)

/-- `device_common_init`; `parent` is the instance the device is shared with. -/
def deviceCommonInit (parent : Option V4l2fsInstance) : ℤ × Descriptors × V4l2fsInstance :=
  match parent with
  | some parent =>
    (1, t, { data with
      fd := parent.fd
      width := parent.width
      height := parent.height
      frameCount := parent.frameCount
      buffers := parent.buffers
      frameSize := parent.frameSize })
  | none =>
    if calls.openDevice = false then (-1, t, { data with fd := -1 })
    else
      let (fd, t) := t.openFd
      let data := { data with fd := fd }
      -- its own `bailout` closes the descriptor before the cleanup does
      let bailout := initBailout (t.close data.fd) data
      match calls.queryCap with
      | none => bailout
      | some cap =>
        if cap.videoCapture = false then bailout
        else
          match calls.sFmt with
          | none => bailout
          | some pix => (0, t, { data with frameSize := pix.frameSize })

/-- An initializer with `device_common_init` before it, which for a shared device is all. -/
def afterCommonInit (parent : Option V4l2fsInstance)
    (rest : V4l2Capability → Descriptors → V4l2fsInstance → ℤ × Descriptors × V4l2fsInstance) :
    ℤ × Descriptors × V4l2fsInstance :=
  let (ret, t, data) := deviceCommonInit calls t data parent
  if ret < 0 then (ret, t, data)
  else if 0 < ret then (0, t, data)
  else rest (calls.queryCap.getD {}) t data

/-- `device_read_init`. -/
def deviceReadInit (parent : Option V4l2fsInstance) : ℤ × Descriptors × V4l2fsInstance :=
  afterCommonInit calls t data parent fun cap t data =>
    if cap.readwrite = false then initBailout t data
    else
      match allocateFrames calls 1 data.frameSize with
      | none => initBailout t data
      | some frames => (0, t, { data with buffers := some frames })

/-- The loop of `device_mmap_init` over the buffers left: whether it comes to its end. -/
def mmapLoop : ℕ → V4l2fsInstance → Bool × V4l2fsInstance
  | 0, data => (true, data)
  | n + 1, data =>
    match calls.queryBuf data.frameCount with
    | none => (false, data)
    | some length =>
      match calls.mmap data.frameCount with
      | none => (false, data)
      | some start =>
        mmapLoop n { data with
          buffers := data.buffers.map (·.set data.frameCount ⟨start, length⟩)
          frameCount := data.frameCount + 1 }

/-- `device_mmap_init`. -/
def deviceMmapInit (parent : Option V4l2fsInstance) : ℤ × Descriptors × V4l2fsInstance :=
  afterCommonInit calls t data parent fun cap t data =>
    if cap.streaming = false then initBailout t data
    else
      match calls.reqBufs with
      | none => initBailout t data
      | some count =>
        if count < 2 then initBailout t data
        else if calls.allocBuffers = false then initBailout t data
        else
          let data := { data with buffers := some (List.replicate count {}), frameCount := 0 }
          match mmapLoop calls count data with
          | (true, data) => (0, t, data)
          | (false, data) => initBailout t data

/-- `device_userptr_init`. -/
def deviceUserptrInit (parent : Option V4l2fsInstance) : ℤ × Descriptors × V4l2fsInstance :=
  afterCommonInit calls t data parent fun cap t data =>
    if cap.streaming = false then initBailout t data
    else
      match calls.reqBufs with
      | none => initBailout t data
      | some count =>
        match allocateFrames calls count data.frameSize with
        | none => initBailout t data
        | some frames => (0, t, { data with buffers := some frames })

/-- The `init` of a grabber. -/
def Grabber.init (grb : Grabber) (parent : Option V4l2fsInstance) :
    ℤ × Descriptors × V4l2fsInstance :=
  match grb with
  | .read => deviceReadInit calls t data parent
  | .mmap => deviceMmapInit calls t data parent
  | .userptr => deviceUserptrInit calls t data parent

/-- `device_set_input`. -/
def deviceSetInput : ℤ := if calls.sInput then 0 else -1

/-- `device_get_input`. -/
def deviceGetInput : ℤ :=
  match calls.gInput with
  | none => -1
  | some index => if calls.enumInput then index else -1

end Init

/-- `struct v4l2_buffer`. -/
structure V4l2Buffer where
  index : ℕ
  userptr : ℕ := 0
  length : ℕ := 0
  deriving DecidableEq, Repr

section Streaming

/-- The loop of `start_mmap` and `start_userptr` over the buffers left: whether it comes to its end,
and what is queued. -/
def startLoop (qbuf : ℕ → Bool) (buffer : ℕ → V4l2Buffer) :
    ℕ → ℕ → List V4l2Buffer → Bool × List V4l2Buffer
  | 0, _, queued => (true, queued)
  | n + 1, i, queued =>
    if qbuf i then startLoop qbuf buffer n (i + 1) (queued ++ [buffer i]) else (false, queued)

/-- `start_mmap` and `start_userptr`, by what they queue for a frame. -/
def startStreaming (qbuf : ℕ → Bool) (streamOn : Bool) (data : V4l2fsInstance)
    (buffer : ℕ → V4l2Buffer) (queued : List V4l2Buffer) : ℤ × List V4l2Buffer :=
  match startLoop qbuf buffer data.frameCount 0 queued with
  | (false, queued) => (-1, queued)
  | (true, queued) => if streamOn then (0, queued) else (-1, queued)

/-- `start_mmap`. -/
def startMmap (qbuf : ℕ → Bool) (streamOn : Bool) (data : V4l2fsInstance)
    (queued : List V4l2Buffer) : ℤ × List V4l2Buffer :=
  startStreaming qbuf streamOn data (fun i => { index := i }) queued

/-- `start_userptr`. -/
def startUserptr (qbuf : ℕ → Bool) (streamOn : Bool) (data : V4l2fsInstance)
    (queued : List V4l2Buffer) : ℤ × List V4l2Buffer :=
  startStreaming qbuf streamOn data
    (fun i =>
      let frame := ((data.buffers.getD [])[i]?).getD {}
      { index := i, userptr := frame.start, length := frame.length }) queued

/-- The `start` of a grabber. -/
def Grabber.start (grb : Grabber) (qbuf : ℕ → Bool) (streamOn : Bool) (data : V4l2fsInstance)
    (queued : List V4l2Buffer) : ℤ × List V4l2Buffer :=
  match grb with
  | .read => (0, queued)
  | .mmap => startMmap qbuf streamOn data queued
  | .userptr => startUserptr qbuf streamOn data queued

/-- `read_frame_read`, given whether `read` gets a frame. -/
def readFrameRead (read : Bool) (queued : List V4l2Buffer) : ℤ × List V4l2Buffer :=
  (if read then 0 else -1, queued)

/-- `read_frame_mmap` and `read_frame_userptr`, given the buffer that `VIDIOC_DQBUF` takes off the
queue and whether it can be queued again.  The second also looks for the frame the buffer points
to, and makes nothing of it. -/
def readFrameStreaming (data : V4l2fsInstance) (dqbuf : Option V4l2Buffer) (qbuf : Bool)
    (queued : List V4l2Buffer) : ℤ × List V4l2Buffer :=
  match dqbuf with
  | none => (-1, queued)
  | some buf =>
    let queued := queued.erase buf
    if buf.index < data.frameCount then (-1, queued)
    else if qbuf then (0, queued ++ [buf])
    else (-1, queued)

/-- `read_frame_mmap`. -/
def readFrameMmap (data : V4l2fsInstance) (dqbuf : Option V4l2Buffer) (qbuf : Bool)
    (queued : List V4l2Buffer) : ℤ × List V4l2Buffer :=
  readFrameStreaming data dqbuf qbuf queued

/-- `read_frame_userptr`. -/
def readFrameUserptr (data : V4l2fsInstance) (dqbuf : Option V4l2Buffer) (qbuf : Bool)
    (queued : List V4l2Buffer) : ℤ × List V4l2Buffer :=
  readFrameStreaming data dqbuf qbuf queued

/-- The `read_frame` of a grabber. -/
def Grabber.readFrame (grb : Grabber) (read : Bool) (data : V4l2fsInstance)
    (dqbuf : Option V4l2Buffer) (qbuf : Bool) (queued : List V4l2Buffer) : ℤ × List V4l2Buffer :=
  match grb with
  | .read => readFrameRead read queued
  | .mmap => readFrameMmap data dqbuf qbuf queued
  | .userptr => readFrameUserptr data dqbuf qbuf queued

end Streaming

end AuraHttpd
