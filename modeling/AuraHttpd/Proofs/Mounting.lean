import AuraHttpd.Config
import AuraHttpd.Lib.Script

/-!
# Loading the mountpoints

A mount that fails changes nothing unless memory runs out behind the registration of a path, so
what is mounted in the end is what was mounted by those sections alone (`failed_mount_nothing`).
What ends the process depends on the section and on its cameras, not on what was mounted before
(`SectionOk`).
-/

namespace AuraHttpd.Config

open CString

variable {J : JsonLib} {s s' : Site} {mpoint : Mpoint} {props opts : Json} {libs : SectionLibs}

section Failed

/-- What the mount functions come to: the data and the routes. -/
inductive FsMounts (J : JsonLib) (s : Site) (mpoint : Mpoint) (props : Json) (libs : SectionLibs) :
    FsType → Option Fsdata → Routes → Prop where
  | control : FsMounts J s mpoint props libs .control (some .control) (cfsMount mpoint s.routes)
  | static {fsd : StaticfsData} (h : staticMount J props = .ok fsd) :
      FsMounts J s mpoint props libs .static (some (.static fsd)) s.routes
  | node {transport options : Bytes}
      (htransport : jsonArrayFindString J props (lit "transport") = some transport)
      (hoptions : jsonArrayFindString J props (lit "options") = some options)
      (hopens : libs.opens = true) : FsMounts J s mpoint props libs .node (some (.node {}))
        (AuraHttpd.nodeMount mpoint s.routes).table.routes
  | noNode : FsMounts J s mpoint props libs .node none s.routes
  | upload {modname : Bytes} {mod : ModType} {mod' : UploadMod} {routes : Routes}
      (hmode : jsonArrayFindString J props (lit "mode") = some modname)
      (hsel : uploadfsModuleSelect modname = some mod)
      (hinit : mod.init J s mpoint props libs = .ok (some (mod', routes)))
      (hmem : libs.iovec = true) : FsMounts J s mpoint props libs .upload (some (.upload mod'))
        (ahttpdAddPath mpoint routes (lit "/post") .upload (.mpoint mpoint.id))
  | noUpload {routes : Routes} (h : libs.iovec = true → routes = s.routes) :
      FsMounts J s mpoint props libs .upload none routes
  | v4l2 {instances : List GrabberInstance}
      (h : v4l2Mount J props libs.cameras = .ok (some instances)) :
      FsMounts J s mpoint props libs .v4l2 (some (.v4l2 instances)) s.routes
  | noV4l2 : FsMounts J s mpoint props libs .v4l2 none s.routes

theorem fsMounts_of_upMount {fsdata : Option Fsdata} {routes : Routes}
    (h : upMount J s mpoint props libs = .ok (fsdata, routes)) :
    FsMounts J s mpoint props libs .upload fsdata routes := by
  unfold upMount at h
  rcases hmode : jsonArrayFindString J props (lit "mode") with _ | modname <;> rw [hmode] at h
  · cases h
  dsimp only at h
  rcases hsel : uploadfsModuleSelect modname with _ | mod <;> rw [hsel] at h
  · cases h
    exact .noUpload fun _ => rfl
  obtain ⟨r, hinit, h⟩ := Except.bind_eq_ok.1 h
  rcases r with _ | ⟨mod', routes'⟩
  · cases h
    exact .noUpload fun _ => rfl
  dsimp only at h
  split_ifs at h with hmem
  · cases h
    exact .upload hmode hsel hinit hmem
  · cases h
    exact .noUpload fun h => absurd h hmem

theorem fsMounts_of_nodeMount {fsdata : Option Fsdata} {routes : Routes}
    (h : nodeMount J s mpoint props libs = (fsdata, routes)) :
    FsMounts J s mpoint props libs .node fsdata routes := by
  unfold nodeMount at h
  split at h
  · split_ifs at h with hopens <;> cases h
    · exact .node ‹_› ‹_› hopens
    · exact .noNode
  · cases h
    exact .noNode

theorem fsMounts_of_mount {fs : FsType} {fsdata : Option Fsdata} {routes : Routes}
    (h : fs.mount J s mpoint props libs = .ok (fsdata, routes)) :
    FsMounts J s mpoint props libs fs fsdata routes := by
  cases fs with
  | control =>
    cases h
    exact .control
  | static =>
    simp only [FsType.mount] at h
    rcases hst : staticMount J props with e | fsd <;> rw [hst] at h <;> cases h
    exact .static hst
  | node => exact fsMounts_of_nodeMount (Except.ok.inj h)
  | upload => exact fsMounts_of_upMount h
  | v4l2 =>
    simp only [FsType.mount] at h
    rcases hv : v4l2Mount J props libs.cameras with e | instances <;> rw [hv] at h
    · cases h
    · rcases instances with _ | instances <;> cases h
      · exact .noV4l2
      · exact .v4l2 hv

/-- A mount function that fails has registered nothing. -/
theorem mount_failed {fs : FsType} {routes : Routes}
    (h : fs.mount J s mpoint props libs = .ok (none, routes)) (hmem : libs.iovec = true) :
    routes = s.routes := by
  cases fsMounts_of_mount h with
  | noNode | noV4l2 => rfl
  | noUpload h => exact h hmem

/-- What `ahttpd_mount` returns. -/
inductive Mounts (J : JsonLib) (s : Site) (opts : Json) (libs : SectionLibs) :
    ℤ → Site → Prop where
  | failed {s' : Site} (hm : s'.mountpoints = s.mountpoints) (h : libs.iovec = true → s' = s) :
      Mounts J s opts libs (-1) s'
  | mounted {mp tp : Bytes} {fs : FsType} {fsdata : Fsdata} {routes : Routes}
      (hmp : jsonArrayFindString J opts (lit "mountpoint") = some mp)
      (htp : jsonArrayFindString J opts (lit "type") = some tp)
      (hfs : ahttpdFilesystemLookup tp = some fs)
      (hmount : fs.mount J s ⟨s.next, mp⟩ opts libs = .ok (some fsdata, routes)) :
      Mounts J s opts libs 0 {
        mountpoints := s.mountpoints ++ [⟨⟨s.next, mp⟩, opts, fsdata⟩]
        routes := routes
        next := s.next + 1 }

theorem mounts_of_ahttpdMount {ret : ℤ} (h : ahttpdMount J s opts libs = .ok (ret, s')) :
    Mounts J s opts libs ret s' := by
  unfold ahttpdMount at h
  rcases hmp : jsonArrayFindString J opts (lit "mountpoint") with _ | mp <;> rw [hmp] at h
  · cases h
  rcases htp : jsonArrayFindString J opts (lit "type") with _ | tp <;> rw [htp] at h
  · cases h
  dsimp only at h
  rcases hfs : ahttpdFilesystemLookup tp with _ | fs <;> rw [hfs] at h
  · cases h
    exact .failed rfl fun _ => rfl
  obtain ⟨⟨fsdata, routes⟩, hmount, h⟩ := Except.bind_eq_ok.1 h
  rcases fsdata with _ | fsdata
  · cases h
    refine .failed rfl fun hmem => ?_
    rw [mount_failed hmount hmem]
  · cases h
    exact .mounted hmp htp hfs hmount

theorem ahttpdMount_of_mount {mp tp : Bytes} {fs : FsType} {fsdata : Fsdata} {routes : Routes}
    (hmp : jsonArrayFindString J opts (lit "mountpoint") = some mp)
    (htp : jsonArrayFindString J opts (lit "type") = some tp)
    (hfs : ahttpdFilesystemLookup tp = some fs)
    (hmount : fs.mount J s ⟨s.next, mp⟩ opts libs = .ok (some fsdata, routes)) :
    ahttpdMount J s opts libs = .ok (0, {
      mountpoints := s.mountpoints ++ [⟨⟨s.next, mp⟩, opts, fsdata⟩]
      routes := routes
      next := s.next + 1 }) := by
  simp only [ahttpdMount, hmp, htp, hfs, hmount, Except.ok_bind]

/-- The sections `ahttpd_mount` returned zero for. -/
def mountedSections (J : JsonLib) : Site → List (Json × SectionLibs) → List (Json × SectionLibs)
  | _, [] => []
  | s, p :: fstab =>
    match ahttpdMount J s p.1 p.2 with
    | .error _ => []
    | .ok (ret, s') => (if ret = 0 then [p] else []) ++ mountedSections J s' fstab

/-- What is loaded is what those sections alone load, in their order. -/
theorem loadMountpoints_mounted : ∀ {fstab : List (Json × SectionLibs)} {s s' : Site},
    (∀ p ∈ fstab, p.2.iovec = true) → loadMountpoints J s fstab = .ok s' →
      loadMountpoints J s (mountedSections J s fstab) = .ok s'
        ∧ s'.mountpoints.map Mount.props
          = s.mountpoints.map Mount.props ++ (mountedSections J s fstab).map Prod.fst
  | [], s, s', _, h => by
    cases h
    exact ⟨rfl, by simp [mountedSections]⟩
  | (opts, libs) :: fstab, s, s', hmem, h => by
    obtain ⟨⟨ret, s₁⟩, hmount, h⟩ := Except.bind_eq_ok.1 h
    obtain ⟨hload, hprops⟩ :=
      loadMountpoints_mounted (fun p hp => hmem p (List.mem_cons_of_mem _ hp)) h
    have hret := mounts_of_ahttpdMount hmount
    simp only [mountedSections, hmount]
    cases hret with
    | failed _ hs =>
      obtain rfl := hs (hmem _ List.mem_cons_self)
      exact ⟨hload, hprops⟩
    | mounted hmp htp hfs hm =>
      refine ⟨?_, ?_⟩
      · simp only [if_true, List.singleton_append, loadMountpoints, hmount]
        exact hload
      · rw [hprops]
        simp

end Failed

section Aborts

/-- The names of the filesystems and modules. -/
def FsType.name : FsType → Bytes
  | .control => lit "control"
  | .static => lit "static"
  | .node => lit "node"
  | .upload => lit "upload"
  | .v4l2 => lit "v4l2"

def ModType.name : ModType → Bytes
  | .debug => lit "debug"
  | .file => lit "file"
  | .buffer => lit "buffer"

theorem name_of_lookup {tp : Bytes} {fs : FsType} (h : ahttpdFilesystemLookup tp = some fs) :
    tp = fs.name := by
  obtain ⟨⟨name, fs'⟩, hfind, rfl⟩ := Option.map_eq_some_iff.1 h
  have hname := List.find?_some hfind
  have hmem := List.mem_of_find?_eq_some hfind
  obtain rfl : name = tp := by simpa using hname
  simp only [fslist, List.mem_cons, Prod.mk.injEq, List.not_mem_nil, or_false] at hmem
  rcases hmem with ⟨rfl, rfl⟩ | ⟨rfl, rfl⟩ | ⟨rfl, rfl⟩ | ⟨rfl, rfl⟩ | ⟨rfl, rfl⟩ <;> rfl

@[simp] theorem lookup_name (fs : FsType) : ahttpdFilesystemLookup fs.name = some fs := by
  cases fs <;> decide

theorem name_of_select {name : Bytes} {mod : ModType} (h : uploadfsModuleSelect name = some mod) :
    name = mod.name := by
  obtain ⟨⟨name', mod'⟩, hfind, rfl⟩ := Option.map_eq_some_iff.1 h
  have hname := List.find?_some hfind
  have hmem := List.mem_of_find?_eq_some hfind
  obtain rfl : name' = name := by simpa using hname
  simp only [modRegistry, List.mem_cons, Prod.mk.injEq, List.not_mem_nil, or_false] at hmem
  rcases hmem with ⟨rfl, rfl⟩ | ⟨rfl, rfl⟩ | ⟨rfl, rfl⟩ <;> rfl

@[simp] theorem select_name (mod : ModType) : uploadfsModuleSelect mod.name = some mod := by
  cases mod <;> decide

theorem name_inj {fs fs' : FsType} : fs.name = fs'.name ↔ fs = fs' := by
  refine ⟨fun h => ?_, fun h => h ▸ rfl⟩
  have := congrArg ahttpdFilesystemLookup h
  simpa using this

/-- A camera of a known kind without a device. -/
def LacksDevice (J : JsonLib) (pos : Json) : Prop :=
  pos.type = .object
    ∧ (jsonArrayFindString J pos (lit "iomethod")).bind v4l2fsGetGrabberByName ≠ none
    ∧ jsonArrayFindString J pos (lit "device") = none

/-- The camera at the place `i` starts, by itself or as one of a device that was started. -/
def CameraStarts (J : JsonLib) (devices : List (Json × CameraLibs)) (i : ℕ) : Prop :=
  ∃ pos libs device, devices[i]? = some (pos, libs) ∧ pos.type = .object
    ∧ (jsonArrayFindString J pos (lit "iomethod")).bind v4l2fsGetGrabberByName ≠ none
    ∧ jsonArrayFindString J pos (lit "device") = some device
    ∧ (libs.init = true ∨ ∃ j < i, ∃ d, devices[j]? = some d
        ∧ jsonArrayFindString J d.1 (lit "device") = some device)
    ∧ libs.setInput = true ∧ libs.getInput = true

/-- A camera without a device is the first one, or one before it does not start. -/
def CamerasOk (J : JsonLib) (devices : List (Json × CameraLibs)) : Prop :=
  ∀ i d, 1 ≤ i → devices[i]? = some d → LacksDevice J d.1 → ∃ j < i, ¬ CameraStarts J devices j

/-- The cameras of a section with what they answer. -/
def sectionCameras (devices : List Json) (cameras : ℕ → CameraLibs) : List (Json × CameraLibs) :=
  devices.zipIdx.map fun d => (d.1, cameras d.2)

/-- What a section needs not to end the process: a mountpoint and a type, a directory that is not
empty if it is a static one, a mode if it is for uploads, a directory that is not empty (or none)
if it is for uploads to files, and a device for every camera that is come to behind another. -/
structure SectionOk (J : JsonLib) (opts : Json) (libs : SectionLibs) : Prop where
  mountpoint : jsonArrayFindString J opts (lit "mountpoint") ≠ none
  type : jsonArrayFindString J opts (lit "type") ≠ none
  dir : jsonArrayFindString J opts (lit "type") = some (lit "static") →
    ∃ dir, jsonArrayFindString J opts (lit "dir") = some dir ∧ dir ≠ []
  mode : jsonArrayFindString J opts (lit "type") = some (lit "upload") →
    jsonArrayFindString J opts (lit "mode") ≠ none
  directory : jsonArrayFindString J opts (lit "type") = some (lit "upload") →
    jsonArrayFindString J opts (lit "mode") = some (lit "file") →
    jsonArrayFindString J opts (lit "directory") ≠ some []
  cameras : jsonArrayFindString J opts (lit "type") = some (lit "v4l2") →
    ∀ devices, jsonArrayFind opts (lit "devices") = some (.array devices) →
      CamerasOk J (sectionCameras devices libs.cameras)

/-- The call returns. -/
def Returns {α : Type} (x : Except MountFault α) : Prop := ∃ a, x = .ok a

theorem returns_ok {α : Type} (a : α) : Returns (.ok a) := ⟨a, rfl⟩

theorem not_returns {α : Type} (f : MountFault) : ¬ Returns (.error f : Except MountFault α) := by
  rintro ⟨_, h⟩
  cases h

theorem returns_map {α β : Type} {x : Except MountFault α} {f : α → β} :
    Returns (x.map f) ↔ Returns x := by
  rcases x with e | a
  · exact iff_of_false (not_returns e) (not_returns e)
  · exact iff_of_true (returns_ok (f a)) (returns_ok a)

theorem returns_bind {α β : Type} {x : Except MountFault α} {f : α → Except MountFault β}
    (hf : ∀ a, Returns (f a)) : Returns (x >>= f) ↔ Returns x := by
  rcases x with e | a
  · exact iff_of_false (not_returns e) (not_returns e)
  · exact iff_of_true (hf a) (returns_ok a)

theorem returns_killTrailingSlash {dir : Bytes} : Returns (killTrailingSlash dir) ↔ dir ≠ [] := by
  cases dir with
  | nil => exact iff_of_false (not_returns _) fun h => h rfl
  | cons c dir => exact iff_of_true (returns_ok _) (List.cons_ne_nil _ _)

theorem returns_staticMount : Returns (staticMount J props)
    ↔ ∃ dir, jsonArrayFindString J props (lit "dir") = some dir ∧ dir ≠ [] := by
  unfold staticMount
  rcases jsonArrayFindString J props (lit "dir") with _ | dir
  · exact iff_of_false (not_returns _) (by simp)
  · rw [returns_bind fun _ => returns_ok _, returns_killTrailingSlash]
    simp

theorem returns_fileInit {inits : Bool} : Returns (fileInit J props inits)
    ↔ jsonArrayFindString J props (lit "directory") ≠ some [] := by
  unfold fileInit
  rcases jsonArrayFindString J props (lit "directory") with _ | directory
  · exact iff_of_true (returns_ok _) (by simp)
  · have hinits : ∀ directory : Bytes, Returns (if inits then Except.ok (some
        { directory := directory
          originalFilename := jsonArrayFindBoolean J props (lit "original_filename") :
            FilemodData }) else .ok none) := fun _ => by
      split_ifs <;> exact returns_ok _
    rw [returns_bind hinits, returns_killTrailingSlash]
    simp

theorem returns_upMount : Returns (upMount J s mpoint props libs)
    ↔ jsonArrayFindString J props (lit "mode") ≠ none
      ∧ (jsonArrayFindString J props (lit "mode") = some (lit "file") →
        jsonArrayFindString J props (lit "directory") ≠ some []) := by
  unfold upMount
  rcases jsonArrayFindString J props (lit "mode") with _ | modname
  · exact iff_of_false (not_returns _) fun h => h.1 rfl
  dsimp only
  rcases hsel : uploadfsModuleSelect modname with _ | mod
  · refine iff_of_true (returns_ok _) ⟨by simp, fun h => ?_⟩
    rw [Option.some.inj h, show lit "file" = ModType.file.name from rfl, select_name] at hsel
    cases hsel
  obtain rfl := name_of_select hsel
  dsimp only
  rw [returns_bind fun r => ?rest]
  case rest =>
    rcases r with _ | ⟨mod, routes⟩
    · exact returns_ok _
    · dsimp only
      split_ifs <;> exact returns_ok _
  cases mod with
  | debug => exact iff_of_true (returns_ok _) ⟨by simp, fun h => absurd h (by decide)⟩
  | buffer => exact iff_of_true (returns_ok _) ⟨by simp, fun h => absurd h (by decide)⟩
  | file =>
    rw [ModType.init, returns_bind fun _ => returns_ok _, returns_fileInit]
    exact ⟨fun h => ⟨by simp, fun _ => h⟩, fun h => h.2 rfl⟩

section Cameras

variable {devices : List (Json × CameraLibs)}

/-- The instances made so far are those of the cameras before, which have all started. -/
structure Started (J : JsonLib) (devices : List (Json × CameraLibs))
    (instances : List GrabberInstance) : Prop where
  device : ∀ (j : ℕ) d, (instances.map (·.device))[j]? = some d ↔ j < instances.length
    ∧ ∃ p, devices[j]? = some p ∧ jsonArrayFindString J p.1 (lit "device") = some d
  starts : ∀ j < instances.length, CameraStarts J devices j

/-- No camera from the place `n` on is one without a device that is come to. -/
def CamerasOkFrom (J : JsonLib) (devices : List (Json × CameraLibs)) (n : ℕ) : Prop :=
  ∀ i d, 1 ≤ i → n ≤ i → devices[i]? = some d → LacksDevice J d.1 →
    ∃ j < i, ¬ CameraStarts J devices j

/-- Where the camera at `n` does not start and has its device, nothing behind it is come to. -/
theorem camerasOkFrom_of_stop {n : ℕ} {pos : Json} {libs : CameraLibs}
    (hn : devices[n]? = some (pos, libs)) (hstop : ¬ CameraStarts J devices n)
    (hdev : ¬ (1 ≤ n ∧ LacksDevice J pos)) : CamerasOkFrom J devices n := by
  intro i d hi hle hd hlacks
  rcases hle.eq_or_lt with rfl | hlt
  · obtain rfl := Option.some.inj (hn.symm.trans hd)
    exact absurd ⟨hi, hlacks⟩ hdev
  · exact ⟨n, hlt, hstop⟩

theorem camerasOkFrom_succ {n : ℕ} {pos : Json} {libs : CameraLibs}
    (hn : devices[n]? = some (pos, libs)) (hdev : ¬ LacksDevice J pos) :
    CamerasOkFrom J devices (n + 1) ↔ CamerasOkFrom J devices n := by
  refine ⟨fun h i d hi hle hd hlacks => ?_, fun h i d hi hle => h i d hi (by omega)⟩
  rcases hle.eq_or_lt with rfl | hlt
  · obtain rfl := Option.some.inj (hn.symm.trans hd)
    exact absurd hlacks hdev
  · exact h i d hi hlt hd hlacks

theorem Started.push {instances : List GrabberInstance} {pos : Json} {libs : CameraLibs}
    {inst : GrabberInstance} (h : Started J devices instances)
    (hn : devices[instances.length]? = some (pos, libs))
    (hdevice : jsonArrayFindString J pos (lit "device") = some inst.device)
    (hstarts : CameraStarts J devices instances.length) :
    Started J devices (instances ++ [inst]) := by
  constructor
  · intro j d
    rw [List.map_append, List.length_append]
    rcases Nat.lt_or_ge j instances.length with hlt | hge
    · rw [List.getElem?_append_left (by rwa [List.length_map]), h.device j d]
      simp only [hlt, true_and, List.length_singleton, iff_and_self]
      omega
    · rw [List.getElem?_append_right (by rwa [List.length_map]), List.length_map]
      rcases hge.eq_or_lt with rfl | hgt
      · simp [hn, hdevice]
      · have hnone : ([inst].map (·.device))[j - instances.length]? = none :=
          List.getElem?_eq_none (by simp; omega)
        simp only [hnone, reduceCtorEq, List.length_singleton, false_iff, not_and]
        omega
  · intro j hj
    rw [List.length_append, List.length_singleton] at hj
    rcases Nat.lt_succ_iff_lt_or_eq.1 hj with hlt | rfl
    · exact h.starts j hlt
    · exact hstarts

/-- Whether the next camera starts, by the instances made. -/
theorem Started.cameraStarts_iff {instances : List GrabberInstance} {pos : Json} {libs : CameraLibs}
    (h : Started J devices instances) (hn : devices[instances.length]? = some (pos, libs)) :
    CameraStarts J devices instances.length ↔ pos.type = .object
      ∧ (jsonArrayFindString J pos (lit "iomethod")).bind v4l2fsGetGrabberByName ≠ none
      ∧ ∃ device, jsonArrayFindString J pos (lit "device") = some device
        ∧ (libs.init = true ∨ ∃ j : ℕ, (instances.map (·.device))[j]? = some device)
        ∧ libs.setInput = true ∧ libs.getInput = true := by
  have hshared (device : Bytes) : (∃ j : ℕ, (instances.map (·.device))[j]? = some device)
      ↔ ∃ j < instances.length, ∃ d, devices[j]? = some d
        ∧ jsonArrayFindString J d.1 (lit "device") = some device :=
    exists_congr fun j => h.device j device
  constructor
  · rintro ⟨pos', libs', device, hn', htype, hgrb, hdevice, hinit, hset, hget⟩
    cases hn.symm.trans hn'
    exact ⟨htype, hgrb, device, hdevice, hinit.imp_right (hshared device).2, hset, hget⟩
  · rintro ⟨htype, hgrb, device, hdevice, hinit, hset, hget⟩
    exact ⟨pos, libs, device, hn, htype, hgrb, hdevice, hinit.imp_right (hshared device).1, hset,
      hget⟩

/-- What the loop does with the next camera. -/
inductive CameraStep (J : JsonLib) (devices : List (Json × CameraLibs))
    (instances : List GrabberInstance) (pos : Json) (libs : CameraLibs)
    (rest : List (Json × CameraLibs)) : Prop where
  | stops (hloop : v4l2MountLoop J instances ((pos, libs) :: rest) = .ok none)
      (hstop : ¬ CameraStarts J devices instances.length)
      (hdev : ¬ (1 ≤ instances.length ∧ LacksDevice J pos))
  | ends (hloop : v4l2MountLoop J instances ((pos, libs) :: rest) = .error .nullString)
      (hsecond : 1 ≤ instances.length) (hlacks : LacksDevice J pos)
  | starts {inst : GrabberInstance}
      (hloop : v4l2MountLoop J instances ((pos, libs) :: rest)
        = v4l2MountLoop J (instances ++ [inst]) rest)
      (hdevice : jsonArrayFindString J pos (lit "device") = some inst.device)
      (hstart : CameraStarts J devices instances.length)

theorem Started.cameraStep {instances : List GrabberInstance} {pos : Json} {libs : CameraLibs}
    (h : Started J devices instances) (hn : devices[instances.length]? = some (pos, libs))
    (rest : List (Json × CameraLibs)) : CameraStep J devices instances pos libs rest := by
  have hstarts := (h.cameraStarts_iff hn).1
  by_cases htype : pos.type = .object
  swap
  · refine .stops ?_ (fun hs => htype (hstarts hs).1) fun hl => htype hl.2.1
    rw [v4l2MountLoop, if_pos htype]
  rcases hgrb : (jsonArrayFindString J pos (lit "iomethod")).bind v4l2fsGetGrabberByName
    with _ | grb
  · refine .stops ?_ (fun hs => (hstarts hs).2.1 hgrb) fun hl => hl.2.2.1 hgrb
    rw [v4l2MountLoop, if_neg (not_not.2 htype), hgrb]
  rcases hdevice : jsonArrayFindString J pos (lit "device") with _ | device
  · have hno : ¬ CameraStarts J devices instances.length := fun hs => by
      obtain ⟨-, -, device, hd, -⟩ := hstarts hs
      cases hdevice.symm.trans hd
    by_cases hnil : instances = []
    · refine .stops ?_ hno fun hl => by simp [hnil] at hl
      simp only [v4l2MountLoop, if_neg (not_not.2 htype), hgrb, hdevice, if_pos hnil]
    · refine .ends ?_ (List.length_pos_iff.2 hnil) ⟨htype, by simp [hgrb], hdevice⟩
      simp only [v4l2MountLoop, if_neg (not_not.2 htype), hgrb, hdevice, if_neg hnil]
  by_cases hfail : ((List.range instances.length).reverse.find? fun j =>
      (instances.map (·.device))[j]? = some device) = none ∧ libs.init = false
    ∨ libs.setInput = false ∨ libs.getInput = false
  · refine .stops ?_ (fun hs => ?_) fun hl => by cases hl.2.2.2.symm.trans hdevice
    · simp only [v4l2MountLoop, if_neg (not_not.2 htype), hgrb, hdevice, if_pos hfail]
    obtain ⟨-, -, device', hd, hinit, hset, hget⟩ := hstarts hs
    obtain rfl := Option.some.inj (hdevice.symm.trans hd)
    rw [parent_eq_none_iff (List.length_map _)] at hfail
    rcases hfail with ⟨hparent, hf⟩ | hf | hf
    · rcases hinit with hinit | ⟨j, hj⟩
      · simp [hf] at hinit
      · exact hparent j hj
    · simp [hf] at hset
    · simp [hf] at hget
  · obtain ⟨inst, hinst, hloop⟩ : ∃ inst : GrabberInstance, inst.device = device
        ∧ v4l2MountLoop J instances ((pos, libs) :: rest)
          = v4l2MountLoop J (instances ++ [inst]) rest := by
      simp only [v4l2MountLoop, if_neg (not_not.2 htype), hgrb, hdevice, if_neg hfail]
      refine ⟨_, ?_, rfl⟩
      rfl
    refine .starts hloop (hinst ▸ hdevice) ?_
    rw [parent_eq_none_iff (List.length_map _)] at hfail
    push Not at hfail
    refine (h.cameraStarts_iff hn).2 ⟨htype, by simp [hgrb], device, hdevice, ?_,
      by simpa using hfail.2.1, by simpa using hfail.2.2⟩
    by_cases hinit : libs.init = true
    · exact .inl hinit
    · exact .inr (not_forall_not.1 fun hall => hinit (by simpa using hfail.1 hall))

theorem returns_v4l2MountLoop : ∀ (rest : List (Json × CameraLibs))
    {instances : List GrabberInstance}, devices.drop instances.length = rest →
      Started J devices instances →
      (Returns (v4l2MountLoop J instances rest) ↔ CamerasOkFrom J devices instances.length)
  | [], instances, hrest, _ => by
    refine iff_of_true (returns_ok _) fun i d _ hle hd _ => ?_
    have hlen := (List.getElem?_eq_some_iff.1 hd).1
    have := List.drop_eq_nil_iff.1 hrest
    omega
  | (pos, libs) :: rest, instances, hrest, h => by
    have hn : devices[instances.length]? = some (pos, libs) := by
      have hdrop : (devices.drop instances.length)[0]? = devices[instances.length + 0]? :=
        List.getElem?_drop
      rw [hrest] at hdrop
      simpa using hdrop.symm
    cases h.cameraStep hn rest with
    | stops hloop hstop hdev =>
      rw [hloop]
      exact iff_of_true (returns_ok _) (camerasOkFrom_of_stop hn hstop hdev)
    | ends hloop hsecond hlacks =>
      rw [hloop]
      refine iff_of_false (not_returns _) fun hok => ?_
      obtain ⟨j, hj, hnot⟩ := hok _ _ hsecond le_rfl hn hlacks
      exact hnot (h.starts j hj)
    | starts hloop hdevice hstart =>
      have hlacks : ¬ LacksDevice J pos := fun hl => by cases hl.2.2.symm.trans hdevice
      rw [hloop, returns_v4l2MountLoop rest ?_ (h.push hn hdevice hstart), List.length_append,
        List.length_singleton, camerasOkFrom_succ hn hlacks]
      rw [List.length_append, List.length_singleton, ← List.drop_drop, hrest]
      rfl

end Cameras

theorem returns_v4l2Mount {cameras : ℕ → CameraLibs} : Returns (v4l2Mount J props cameras)
    ↔ ∀ devices, jsonArrayFind props (lit "devices") = some (.array devices) →
      CamerasOk J (sectionCameras devices cameras) := by
  unfold v4l2Mount
  split
  · rename_i devices hfind
    have hstarted : Started J (sectionCameras devices cameras) [] :=
      ⟨fun j d => by simp, fun j hj => by simp at hj⟩
    rw [show devices.zipIdx.map (fun d => (d.1, cameras d.2)) = sectionCameras devices cameras
      from rfl, returns_v4l2MountLoop (sectionCameras devices cameras) rfl hstarted]
    constructor
    · intro h devices' hd
      obtain ⟨rfl⟩ : devices = devices' := by simpa using hfind.symm.trans hd
      exact fun i d hi => h i d hi (Nat.zero_le _)
    · exact fun h i d hi _ => h devices hfind i d hi
  · rename_i hnone
    exact iff_of_true (returns_ok _) fun devices hd => absurd hd (hnone devices)

/-- What a mount function needs of its section. -/
theorem returns_mount (fs : FsType) : Returns (fs.mount J s mpoint opts libs)
    ↔ (fs = .static → ∃ dir, jsonArrayFindString J opts (lit "dir") = some dir ∧ dir ≠ [])
      ∧ (fs = .upload → jsonArrayFindString J opts (lit "mode") ≠ none
        ∧ (jsonArrayFindString J opts (lit "mode") = some (lit "file") →
          jsonArrayFindString J opts (lit "directory") ≠ some []))
      ∧ (fs = .v4l2 → ∀ devices, jsonArrayFind opts (lit "devices") = some (.array devices) →
        CamerasOk J (sectionCameras devices libs.cameras)) := by
  cases fs with
  | control => exact iff_of_true (returns_ok _) ⟨nofun, nofun, nofun⟩
  | node => exact iff_of_true (returns_ok _) ⟨nofun, nofun, nofun⟩
  | static =>
    rw [FsType.mount, returns_map, returns_staticMount]
    exact ⟨fun h => ⟨fun _ => h, nofun, nofun⟩, fun h => h.1 rfl⟩
  | upload =>
    rw [FsType.mount, returns_upMount]
    exact ⟨fun h => ⟨nofun, fun _ => h, nofun⟩, fun h => h.2.1 rfl⟩
  | v4l2 =>
    rw [FsType.mount, returns_map, returns_v4l2Mount]
    exact ⟨fun h => ⟨nofun, nofun, fun _ => h⟩, fun h => h.2.2 rfl⟩

/-- A section is mounted or refused exactly where it is in order, whatever was mounted before. -/
theorem returns_ahttpdMount : Returns (ahttpdMount J s opts libs) ↔ SectionOk J opts libs := by
  unfold ahttpdMount
  rcases hmp : jsonArrayFindString J opts (lit "mountpoint") with _ | mp
  · exact iff_of_false (not_returns _) fun h => h.mountpoint hmp
  rcases htp : jsonArrayFindString J opts (lit "type") with _ | tp
  · exact iff_of_false (not_returns _) fun h => h.type htp
  dsimp only
  rcases hfs : ahttpdFilesystemLookup tp with _ | fs
  · have hother : ∀ fs : FsType, jsonArrayFindString J opts (lit "type") ≠ some fs.name := by
      intro fs h
      obtain rfl := Option.some.inj (htp.symm.trans h)
      simp at hfs
    refine iff_of_true (returns_ok _) ⟨by simp [hmp], by simp [htp], ?_, ?_, ?_, ?_⟩
    · exact fun h => absurd h (hother .static)
    · exact fun h => absurd h (hother .upload)
    · exact fun h => absurd h (hother .upload)
    · exact fun h => absurd h (hother .v4l2)
  obtain rfl := name_of_lookup hfs
  have hname (fs' : FsType) :
      jsonArrayFindString J opts (lit "type") = some fs'.name ↔ fs = fs' := by
    rw [htp, Option.some.injEq, name_inj]
  rw [returns_bind fun r => by rcases r with ⟨_ | fsdata, routes⟩ <;> exact returns_ok _,
    returns_mount]
  constructor
  · rintro ⟨hdir, hup, hcam⟩
    exact {
      mountpoint := by simp [hmp]
      type := by simp [htp]
      dir := fun h => hdir ((hname .static).1 h)
      mode := fun h => (hup ((hname .upload).1 h)).1
      directory := fun h => (hup ((hname .upload).1 h)).2
      cameras := fun h => hcam ((hname .v4l2).1 h) }
  · intro h
    refine ⟨fun hfs => h.dir ((hname .static).2 hfs), fun hfs => ⟨h.mode ((hname .upload).2 hfs),
      h.directory ((hname .upload).2 hfs)⟩, fun hfs => h.cameras ((hname .v4l2).2 hfs)⟩

end Aborts

section Alone

/-- The section would mount if it were the only one. -/
def mountsAlone (J : JsonLib) (p : Json × SectionLibs) : Bool :=
  match ahttpdMount J {} p.1 p.2 with
  | .ok (0, _) => true
  | _ => false

theorem bufferInit_alone : bufferInit J {} mpoint props libs = none := by
  unfold bufferInit
  split_ifs
  · rfl
  · rcases jsonArrayFindString J props (lit "owner") with _ | owner <;> rfl

theorem init_alone (s : Site) (mpoint : Mpoint) {mod : ModType} {mod' : UploadMod}
    {routes : Routes} {mpoint₀ : Mpoint}
    (h : mod.init J {} mpoint₀ opts libs = .ok (some (mod', routes))) :
    ∃ mod'' routes', mod.init J s mpoint opts libs = .ok (some (mod'', routes')) := by
  cases mod with
  | debug => exact ⟨_, _, rfl⟩
  | file =>
    simp only [ModType.init] at h ⊢
    obtain ⟨fdata, hf, h⟩ := Except.bind_eq_ok.1 h
    rcases fdata with _ | fdata
    · cases h
    · rw [hf]
      exact ⟨_, _, rfl⟩
  | buffer =>
    rw [ModType.init, bufferInit_alone] at h
    cases h

/-- What is mounted before takes no mount away: a path that is taken is no failure. -/
theorem mount_alone {fs : FsType} {mpoint₀ : Mpoint} {fsdata : Fsdata} {routes : Routes}
    (h : fs.mount J {} mpoint₀ opts libs = .ok (some fsdata, routes)) :
    ∃ fsdata' routes', fs.mount J s mpoint opts libs = .ok (some fsdata', routes') := by
  cases fsMounts_of_mount h with
  | control => exact ⟨_, _, rfl⟩
  | static hst =>
    rw [FsType.mount, hst]
    exact ⟨_, _, rfl⟩
  | node htransport hoptions hopens =>
    simp only [FsType.mount, nodeMount, htransport, hoptions, hopens, if_true]
    exact ⟨_, _, rfl⟩
  | upload hmode hsel hinit hmem =>
    obtain ⟨mod'', routes'', hmod⟩ := init_alone s mpoint hinit
    simp only [FsType.mount, upMount, hmode, hsel, hmod, Except.ok_bind, hmem, if_true]
    exact ⟨_, _, rfl⟩
  | v4l2 hv =>
    rw [FsType.mount, hv]
    exact ⟨_, _, rfl⟩

theorem ahttpdMount_alone {p : Json × SectionLibs} (h : mountsAlone J p = true) :
    ∃ s', ahttpdMount J s p.1 p.2 = .ok (0, s') := by
  unfold mountsAlone at h
  split at h
  swap
  · cases h
  rename_i s₀ h₀
  have hret := mounts_of_ahttpdMount h₀
  generalize hr : (0 : ℤ) = ret at hret
  cases hret with
  | failed => cases hr
  | mounted hmp htp hfs hmount =>
    obtain ⟨fsdata', routes', hm⟩ := mount_alone (s := s) hmount
    exact ⟨_, ahttpdMount_of_mount hmp htp hfs hm⟩

/-- `load_mountpoints` comes to the end of the array, with every section mounted that would be by
itself. -/
def LoadsAll (J : JsonLib) (s : Site) (fstab : List (Json × SectionLibs)) : Prop :=
  ∃ s', loadMountpoints J s fstab = .ok s'
    ∧ (fstab.filter (mountsAlone J)).Sublist (mountedSections J s fstab)

theorem mountsAlone_mounted : ∀ {fstab : List (Json × SectionLibs)} {s s' : Site},
    loadMountpoints J s fstab = .ok s' →
      (fstab.filter (mountsAlone J)).Sublist (mountedSections J s fstab)
  | [], _, _, _ => List.Sublist.slnil
  | (opts, libs) :: fstab, s, s', h => by
    obtain ⟨⟨ret, s₁⟩, hmount, h⟩ := Except.bind_eq_ok.1 h
    have ih := mountsAlone_mounted h
    simp only [mountedSections, hmount]
    by_cases halone : mountsAlone J (opts, libs) = true
    · obtain ⟨s₂, h₂⟩ := ahttpdMount_alone (s := s) halone
      obtain ⟨rfl, rfl⟩ := Prod.mk.inj (Except.ok.inj (hmount.symm.trans h₂))
      rw [List.filter_cons_of_pos halone, if_pos rfl]
      exact ih.cons_cons _
    · rw [List.filter_cons_of_neg halone]
      exact ih.trans (List.sublist_append_right _ _)

theorem returns_loadMountpoints : ∀ {fstab : List (Json × SectionLibs)} {s : Site},
    Returns (loadMountpoints J s fstab) ↔ ∀ p ∈ fstab, SectionOk J p.1 p.2
  | [], s => iff_of_true (returns_ok _) (by simp)
  | (opts, libs) :: fstab, s => by
    rw [List.forall_mem_cons, loadMountpoints]
    rcases hmount : ahttpdMount J s opts libs with e | ⟨ret, s₁⟩
    · refine iff_of_false (not_returns _) fun h => ?_
      obtain ⟨r, hr⟩ := returns_ahttpdMount (s := s).2 h.1
      cases hmount.symm.trans hr
    · have hok : SectionOk J opts libs := returns_ahttpdMount.1 ⟨_, hmount⟩
      rw [Except.ok_bind, returns_loadMountpoints]
      exact ⟨fun h => ⟨hok, h⟩, fun h => h.2⟩

/-- A failed mount leaves the server as it was, and sections that end nothing leave the server with
exactly those that mounted, in the order of the array. -/
theorem failed_mount_nothing (J : JsonLib) (s : Site) :
    (∀ opts libs s', libs.iovec = true → ahttpdMount J s opts libs = .ok (-1, s') →
        s'.mountpoints = s.mountpoints ∧ s'.routes = s.routes)
      ∧ ∀ fstab, (∀ p ∈ fstab, p.2.iovec = true) → (∀ p ∈ fstab, SectionOk J p.1 p.2) →
        ∃ s', loadMountpoints J s fstab = .ok s'
          ∧ loadMountpoints J s (mountedSections J s fstab) = .ok s'
          ∧ s'.mountpoints.map Mount.props
            = s.mountpoints.map Mount.props ++ (mountedSections J s fstab).map Prod.fst := by
  constructor
  · intro opts libs s' hmem h
    have hret := mounts_of_ahttpdMount h
    generalize hr : (-1 : ℤ) = ret at hret
    cases hret with
    | failed _ hs =>
      rw [hs hmem]
      exact ⟨rfl, rfl⟩
    | mounted => cases hr
  · intro fstab hmem hok
    obtain ⟨s', hload⟩ := returns_loadMountpoints.2 hok
    exact ⟨s', hload, loadMountpoints_mounted hmem hload⟩

/-- The sections of a node that is not there and of the control filesystem. -/
def absentNode : Json := .object [(lit "mountpoint", .string (lit "/node")),
  (lit "type", .string (lit "node")), (lit "transport", .string (lit "usb")),
  (lit "options", .string (lit "1d50:6032"))]

def controlSection : Json := .object [(lit "mountpoint", .string (lit "/control")),
  (lit "type", .string (lit "control"))]

/-- Sections of the control filesystem and of nodes end nothing. -/
theorem sectionOk_of_type {opts : Json} {libs : SectionLibs} (fs : FsType)
    (hmp : jsonArrayFindString J opts (lit "mountpoint") ≠ none)
    (htype : jsonArrayFindString J opts (lit "type") = some fs.name)
    (hfs : fs = .control ∨ fs = .node) : SectionOk J opts libs := by
  have hother : ∀ fs' : FsType, jsonArrayFindString J opts (lit "type") = some fs'.name →
      fs' = .control ∨ fs' = .node := by
    intro fs' h
    rwa [← name_inj.1 (Option.some.inj (htype.symm.trans h))]
  refine ⟨hmp, by simp [htype], ?_, ?_, ?_, ?_⟩
  · exact fun h => absurd (hother .static h) (by decide)
  · exact fun h => absurd (hother .upload h) (by decide)
  · exact fun h => absurd (hother .upload h) (by decide)
  · exact fun h => absurd (hother .v4l2 h) (by decide)

theorem failed_absentNode :
    (∃ s₁, ahttpdMount .plain {} absentNode { opens := false } = .ok (-1, s₁)
        ∧ s₁.mountpoints = ({} : Site).mountpoints ∧ s₁.routes = ({} : Site).routes)
      ∧ ∃ s', loadMountpoints .plain {}
          [(absentNode, { opens := false }), (controlSection, {})] = .ok s'
        ∧ s'.mountpoints.map Mount.mpoint = [⟨0, lit "/control"⟩]
        ∧ loadMountpoints .plain {} (mountedSections .plain {}
          [(absentNode, { opens := false }), (controlSection, {})]) = .ok s' := by
  refine ⟨⟨{}, rfl, (failed_mount_nothing .plain {}).1 absentNode { opens := false } {} rfl rfl⟩,
    ?_⟩
  have hok : ∀ p ∈ [(absentNode, ({ opens := false } : SectionLibs)), (controlSection, {})],
      SectionOk .plain p.1 p.2 := by
    simp only [List.forall_mem_cons, List.not_mem_nil, false_imp_iff, implies_true, and_true]
    exact ⟨sectionOk_of_type .node (by decide) rfl (.inr rfl),
      sectionOk_of_type .control (by decide) rfl (.inl rfl)⟩
  obtain ⟨s', hload, hmounted, -⟩ := (failed_mount_nothing .plain {}).2 _ (by simp) hok
  refine ⟨s', hload, ?_, hmounted⟩
  obtain rfl := Except.ok.inj hload
  rfl

/-- `load_mountpoints` comes to its end with all mounted that would be
by themselves, exactly where every section is in order. -/
theorem load_reaches_end_iff (J : JsonLib) (s : Site) (fstab : List (Json × SectionLibs)) :
    LoadsAll J s fstab ↔ ∀ p ∈ fstab, SectionOk J p.1 p.2 := by
  rw [← returns_loadMountpoints (s := s)]
  exact ⟨fun ⟨s', h, _⟩ => ⟨s', h⟩, fun ⟨s', h⟩ => ⟨s', h, mountsAlone_mounted h⟩⟩

/-- The control filesystem behind a section that only has a mountpoint. -/
theorem typeless_section_ends : ¬ ∀ (J : JsonLib) (s : Site) (fstab : List (Json × SectionLibs)),
    LoadsAll J s fstab := by
  intro h
  obtain ⟨s', hload, -⟩ := h .plain {}
    [(.object [(lit "mountpoint", .string (lit "/x"))], {}), (controlSection, {})]
  cases hload

end Alone

end AuraHttpd.Config
