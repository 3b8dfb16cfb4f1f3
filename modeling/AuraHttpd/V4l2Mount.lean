import AuraHttpd.V4l2Read

/-!
# Mounting cameras, with their descriptors

`v4l2_mount` of `fs_v4l2.c` again, with the initializers of `v4l2_read.c` in place of what a camera
answers, and the descriptors they open and close.
-/

namespace AuraHttpd

open CString

/-- How `v4l2_mount` ends the process: a device that is not there is compared, or a `deinit` is
called, which no grabber has. -/
inductive CameraFault where
  | nullDevice
  | nullDeinit
  deriving DecidableEq, Repr

/-- `struct v4l2fs_data`.  Nothing sets `num_instances`. -/
structure V4l2fsData where
  instances : List V4l2fsInstance
  numInstances : ℕ := 0

/-- What `v4l2_mount` returns, and leaves of the descriptors and the instances. -/
structure V4l2MountResult where
  ret : ℤ
  table : Descriptors
  instances : List V4l2fsInstance

/-- `cleanup_devices`. -/
def cleanupDevices (data : V4l2fsData) : Except CameraFault Unit :=
  if (data.instances.take data.numInstances).any (·.initialized) then .error .nullDeinit
  else .ok ()

namespace Cameras

variable (J : JsonLib)

/-- The `epic_fail` of `v4l2_mount`. -/
def epicFail (table : Descriptors) (instances : List V4l2fsInstance) :
    Except CameraFault V4l2MountResult :=
  (cleanupDevices { instances := instances }).map fun _ => ⟨-1, table, []⟩

/-- The last of the instances with a device. -/
def parentOf (instances : List V4l2fsInstance) (device : Bytes) : Option ℕ :=
  (List.range instances.length).reverse.find? fun j =>
    (instances.map (·.device))[j]? = some device

/-- An instance as its section describes it. -/
def sectionInstance (pos : Json) (device : Bytes) (grb : Grabber) (parent : Option ℕ) :
    V4l2fsInstance where
  device := device
  input := cameraNumber J pos (lit "input")
  width := cameraNumber J pos (lit "width")
  height := cameraNumber J pos (lit "height")
  grb := grb
  parent := parent

/-- The loop of `v4l2_mount` over the cameras behind the `instances`; `devices` are the objects left
with what is called for their cameras.  Nothing can be opened without a device. -/
def v4l2MountLoop (table : Descriptors) (instances : List V4l2fsInstance) :
    List (Json × CameraCalls) → Except CameraFault V4l2MountResult
  | [] => .ok ⟨0, table, instances⟩
  | (pos, calls) :: devices =>
    if pos.type ≠ .object then epicFail table instances
    else
      match (jsonArrayFindString J pos (lit "iomethod")).bind v4l2fsGetGrabberByName with
      | none => epicFail table instances
      | some grb =>
        match jsonArrayFindString J pos (lit "device") with
        | none => if instances = [] then epicFail table instances else .error .nullDevice
        | some device =>
          let parent := parentOf instances device
          let inst := sectionInstance J pos device grb parent
          let (ret, table, inst) := grb.init calls table inst (parent.bind (instances[·]?))
          if ret ≠ 0 then epicFail table instances
          else if deviceSetInput calls ≠ 0 then epicFail table instances
          else if deviceGetInput calls < 0 then epicFail table instances
          else
            v4l2MountLoop table (instances ++ [{ inst with initialized := true }]) devices

/-- `v4l2_mount` in a process with the descriptors `fds` open; `alloc` tells whether there is memory
for the instances, and `calls` what is called for the cameras, by their place. -/
def v4l2Mount (props : Json) (alloc : Bool) (calls : ℕ → CameraCalls) (fds : List ℕ) :
    Except CameraFault V4l2MountResult :=
  match jsonArrayFind props (lit "devices") with
  | some (.array devices) =>
    if alloc then
      v4l2MountLoop J { fds := fds } [] (devices.zipIdx.map fun d => (d.1, calls d.2))
    else .ok ⟨-1, { fds := fds }, []⟩
  | _ => .ok ⟨-1, { fds := fds }, []⟩

end Cameras

end AuraHttpd
