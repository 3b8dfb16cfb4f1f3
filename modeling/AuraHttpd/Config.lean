import AuraHttpd.FsStatic
import AuraHttpd.FsV4l2
import AuraHttpd.Server
import AuraHttpd.UploadModules

/-!
# Mounting the sections of a configuration

`load_mountpoints` of `server.c` and `ahttpd_mount` of `vfs.c` on the objects of a configuration,
with all the parameters the mount functions look for.  A mountpoint keeps its section and the data
its filesystem made of it.  What ends the process is a `MountFault`.
-/

namespace AuraHttpd.Config

open CString

/-- The registered upload modules, with their `mod_data`. -/
inductive UploadMod where
  | debug
  | file (fdata : FilemodData)
  | buffer (bdata : BufmodRoutes)

/-- The filesystems, with their `fsdata`. -/
inductive Fsdata where
  | control
  | static (fsd : StaticfsData)
  | node (nd : NodefsRoutes)
  | upload (mod : UploadMod)
  | v4l2 (instances : List GrabberInstance)

/-- `struct ahttpd_mountpoint`. -/
structure Mount where
  mpoint : Mpoint
  props : Json
  fsdata : Fsdata

/-- `struct ahttpd_server`, of which mounting changes the mountpoints and the routes. -/
structure Site where
  mountpoints : List Mount := []
  routes : Routes := .empty
  next : MpId := 0

/-- What the mount functions are told from outside. -/
structure SectionLibs extends MountLibs where
  cameras : ℕ → CameraLibs := fun _ => {}

/-- The filesystems of `fslist` and the modules of `mod_registry`, by name. -/
inductive FsType where
  | control | static | node | upload | v4l2
  deriving DecidableEq, Repr

inductive ModType where
  | debug | file | buffer
  deriving DecidableEq, Repr

def fslist : List (Bytes × FsType) :=
  [(lit "control", .control), (lit "static", .static), (lit "node", .node),
    (lit "upload", .upload), (lit "v4l2", .v4l2)]

def modRegistry : List (Bytes × ModType) :=
  [(lit "debug", .debug), (lit "file", .file), (lit "buffer", .buffer)]

/-- `ahttpd_filesystem_lookup`. -/
def ahttpdFilesystemLookup (name : Bytes) : Option FsType :=
  (fslist.find? (·.1 = name)).map Prod.snd

/-- `uploadfs_module_select`. -/
def uploadfsModuleSelect (name : Bytes) : Option ModType :=
  (modRegistry.find? (·.1 = name)).map Prod.snd

/-- `ahttpd_mountpoint_lookup`. -/
def ahttpdMountpointLookup (s : Site) (mountpoint : Bytes) : Option Mount :=
  s.mountpoints.find? (·.mpoint.mountpoint = mountpoint)

variable (J : JsonLib) (s : Site) (mpoint : Mpoint) (props : Json) (libs : SectionLibs)

/-- `buffer_init`: the routes, or nothing where it fails. -/
def bufferInit : Option Routes :=
  if libs.inits = false then none
  else do
    let owner ← jsonArrayFindString J props (lit "owner")
    let mp ← ahttpdMountpointLookup s owner
    match mp.fsdata with
    | .node _ =>
      some (ahttpdAddPath mpoint s.routes (lit "/") .rqListBuffers (.fsdata mpoint.id))
    | _ => none

/-- The `init` of a module. -/
def ModType.init : ModType → Except MountFault (Option (UploadMod × Routes))
  | .debug => .ok (some (.debug, s.routes))
  | .file => do
    let fdata ← fileInit J props libs.inits
    .ok (fdata.map fun fdata => (.file fdata, s.routes))
  | .buffer => .ok ((bufferInit J s mpoint props libs).map fun routes => (.buffer {}, routes))

/-- `up_mount`: what is mounted, if it succeeds, and the routes. -/
def upMount : Except MountFault (Option Fsdata × Routes) :=
  match jsonArrayFindString J props (lit "mode") with
  | none => .error .nullString
  | some modname =>
    match uploadfsModuleSelect modname with
    | none => .ok (none, s.routes)
    | some mod => do
      match ← mod.init J s mpoint props libs with
      | none => .ok (none, s.routes)
      | some (mod, routes) =>
        if libs.iovec then
          .ok (some (.upload mod),
            ahttpdAddPath mpoint routes (lit "/post") .upload (.mpoint mpoint.id))
        else .ok (none, routes)

/-- `node_mount`. -/
def nodeMount : Option Fsdata × Routes :=
  match jsonArrayFindString J props (lit "transport"),
      jsonArrayFindString J props (lit "options") with
  | some _, some _ =>
    if libs.opens then
      (some (.node {}), (AuraHttpd.nodeMount mpoint s.routes).table.routes)
    else (none, s.routes)
  | _, _ => (none, s.routes)

/-- The `mount` of a filesystem. -/
def FsType.mount : FsType → Except MountFault (Option Fsdata × Routes)
  | .control => .ok (some .control, cfsMount mpoint s.routes)
  | .static => (staticMount J props).map fun fsd => (some (.static fsd), s.routes)
  | .node => .ok (nodeMount J s mpoint props libs)
  | .upload => upMount J s mpoint props libs
  | .v4l2 => (v4l2Mount J props libs.cameras).map fun instances =>
      (instances.map .v4l2, s.routes)

/-- `ahttpd_mount`: what it returns, and the server. -/
def ahttpdMount (opts : Json) (libs : SectionLibs) : Except MountFault (ℤ × Site) :=
  match jsonArrayFindString J opts (lit "mountpoint"), jsonArrayFindString J opts (lit "type") with
  | some mp, some tp =>
    match ahttpdFilesystemLookup tp with
    | none => .ok (-1, s)
    | some fs => do
      match ← fs.mount J s ⟨s.next, mp⟩ opts libs with
      | (none, routes) => .ok (-1, { s with routes := routes })
      | (some fsdata, routes) =>
        .ok (0, {
          mountpoints := s.mountpoints ++ [⟨⟨s.next, mp⟩, opts, fsdata⟩]
          routes := routes
          next := s.next + 1 })
  | _, _ => .error .bug

/-- `load_mountpoints`, on the sections of the array with what each is told from outside. -/
def loadMountpoints : Site → List (Json × SectionLibs) → Except MountFault Site
  | s, [] => .ok s
  | s, (opts, libs) :: fstab => do
    let (_, s) ← ahttpdMount J s opts libs
    loadMountpoints s fstab

/-- What `generic_route` does with a request. -/
inductive Routing where
  | route (pos : Mount) (fsd : StaticfsData)
  | sendError (code : ℕ) (reason : Bytes)

/-- The loop of `generic_route` over the mountpoints; of the filesystems only the static one has a
`route`. -/
def genericRouteLoop (uri : Bytes) : List Mount → Routing
  | [] => .sendError 404 (lit "Not Found")
  | pos :: h =>
    if strncmp uri pos.mpoint.mountpoint pos.mpoint.mountpoint.length = .eq then
      match pos.fsdata with
      | .static fsd => .route pos fsd
      | _ => genericRouteLoop uri h
    else genericRouteLoop uri h

/-- `generic_route`. -/
def genericRoute (s : Site) (uri : Bytes) : Routing := genericRouteLoop uri s.mountpoints

end AuraHttpd.Config
