import AuraHttpd.JsonHelpers

/-!
# Camera mountpoints

`v4l2_mount` of `fs_v4l2.c`, over what the grabber of a camera answers.  A camera with the device
of an earlier one shares it and is not initialized again.
-/

namespace AuraHttpd

open CString

/-- The entries of `grabbers`. -/
inductive Grabber where
  | read | mmap | userptr
  deriving DecidableEq, Repr

def grabbers : List (Bytes × Grabber) :=
  [(lit "read", .read), (lit "mmap", .mmap), (lit "userptr", .userptr)]

/-- `v4l2fs_get_grabber_by_name`. -/
def v4l2fsGetGrabberByName (name : Bytes) : Option Grabber :=
  (grabbers.find? (·.1 = name)).map Prod.snd

/-- What the camera of a device answers: whether it initializes, takes its input and tells it. -/
structure CameraLibs where
  init : Bool := true
  setInput : Bool := true
  getInput : Bool := true

/-- `struct v4l2fs_grabber_instance`, as `v4l2_mount` leaves it. -/
structure GrabberInstance where
  device : Bytes
  input : ℤ
  width : ℤ
  height : ℤ
  grb : Grabber
  parent : Option ℕ

/-- No earlier camera is shared exactly if none has the device. -/
theorem parent_eq_none_iff {devices : List Bytes} {device : Bytes} {n : ℕ}
    (hn : devices.length = n) :
    ((List.range n).reverse.find? fun j => devices[j]? = some device) = none
      ↔ ∀ j : ℕ, devices[j]? ≠ some device := by
  simp only [List.find?_eq_none, List.mem_reverse, List.mem_range, decide_eq_true_eq]
  refine ⟨fun h j hj => h j ?_ hj, fun h j _ => h j⟩
  exact hn ▸ (List.getElem?_eq_some_iff.1 hj).1

variable (J : JsonLib)

/-- A number of a camera, which is stored into an `int`. -/
def cameraNumber (pos : Json) (k : Bytes) : ℤ := wrapS 32 (jsonArrayFindNumber J pos k).toInt

/-- The loop of `v4l2_mount` over the cameras behind the `instances`; `devices` are the objects left
with what their cameras answer.  The comparison with earlier devices needs a device, the
initialization of a camera without an earlier one fails without. -/
def v4l2MountLoop (instances : List GrabberInstance) :
    List (Json × CameraLibs) → Except MountFault (Option (List GrabberInstance))
  | [] => .ok (some instances)
  | (pos, libs) :: devices =>
    if pos.type ≠ .object then .ok none
    else
      match (jsonArrayFindString J pos (lit "iomethod")).bind v4l2fsGetGrabberByName with
      | none => .ok none
      | some grb =>
        match jsonArrayFindString J pos (lit "device") with
        | none => if instances = [] then .ok none else .error .nullString
        | some device =>
          let parent := (List.range instances.length).reverse.find? fun j =>
            (instances.map (·.device))[j]? = some device
          let shared := parent.bind (instances[·]?)
          if (parent = none ∧ libs.init = false) ∨ libs.setInput = false
              ∨ libs.getInput = false then
            .ok none
          else
            v4l2MountLoop (instances ++ [{
              device := device
              input := cameraNumber J pos (lit "input")
              width := (shared.map (·.width)).getD (cameraNumber J pos (lit "width"))
              height := (shared.map (·.height)).getD (cameraNumber J pos (lit "height"))
              grb := grb
              parent := parent }]) devices

/-- `v4l2_mount`; `cameras` is what the cameras answer, by their place. -/
def v4l2Mount (props : Json) (cameras : ℕ → CameraLibs) :
    Except MountFault (Option (List GrabberInstance)) :=
  match jsonArrayFind props (lit "devices") with
  | some (.array devices) => v4l2MountLoop J [] (devices.zipIdx.map fun d => (d.1, cameras d.2))
  | _ => .ok none

end AuraHttpd
