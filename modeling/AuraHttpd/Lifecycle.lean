import AuraHttpd.Config

/-!
# The life of a server

`server.c`, and what `main` does with a server: it makes it of a configuration, gives up the
configuration, lets the event loop run, and destroys the server.  A section of the array of
mountpoints is known by its place there; `refs` counts json-c's references to it, one of the array's
and one of the mountpoint made of it.
-/

namespace AuraHttpd.Config

open CString

/-- What a `char *` of the server points at: a text of the program, or one that `strdup` made. -/
inductive CharPtr where
  | literal (s : Bytes)
  | strdup (s : Bytes)
  deriving DecidableEq, Repr

/-- How the process ends before its time. -/
inductive ServerFault where
  | mount (f : MountFault)
  | noObject
  | noBind
  | unmount
  | released
  | invalidFree
  deriving DecidableEq, Repr

/-- `struct ahttpd_server`.  The callback of `/` is kept beside those of the mountpoints, with the
text it was registered with. -/
structure HttpServer where
  host : CharPtr := .literal (lit "127.0.0.1")
  index : Option Bytes := none
  port : ℤ := 32001
  maxBodySize : ℤ := 8 * 1024 * 1024
  maxHeadersSize : ℤ := 1 * 1024 * 1024
  site : Site := {}
  redirect : Option Bytes := none
  refs : ℕ → ℕ
  /-- The section that the `props` of a mountpoint are. -/
  place : MpId → ℕ := fun _ => 0

section Create

/-- `json_object_get_int`: an `int64_t` that does not fit is the nearest `int`. -/
def jsonObjectGetInt (v : Int64) : ℤ := max (-2 ^ 31) (min v.toInt (2 ^ 31 - 1))

/-- `json_object_get` of a section. -/
def HttpServer.get (s : HttpServer) (i : ℕ) : HttpServer :=
  { s with refs := Function.update s.refs i (s.refs i + 1) }

/-- `json_object_put` of a section. -/
def HttpServer.put (s : HttpServer) (i : ℕ) : Except ServerFault HttpServer :=
  if s.refs i = 0 then .error .released
  else .ok { s with refs := Function.update s.refs i (s.refs i - 1) }

variable (J : JsonLib) (libs : ℕ → SectionLibs)

/-- `ahttpd_mount` of the section at a place of the array. -/
def HttpServer.mount (s : HttpServer) (i : ℕ) (opts : Json) : Except MountFault HttpServer := do
  let (ret, site) ← ahttpdMount J s.site opts (libs i)
  if ret = 0 then
    .ok { s.get i with site := site, place := Function.update s.place s.site.next i }
  else .ok { s with site := site }

/-- The loop of `load_mountpoints`, from a place of the array on. -/
def HttpServer.loadMountpoints : HttpServer → ℕ → List Json → Except MountFault HttpServer
  | s, _, [] => .ok s
  | s, i, j :: fstab => do
    let s ← s.mount J libs i j
    loadMountpoints s (i + 1) fstab

/-- The body of the loop of `parse_config`. -/
def parseParameter (s : HttpServer) (key : Bytes) : Json → Except MountFault HttpServer
  | .string text =>
    let tmp := cstr text
    if key = lit "host" then .ok { s with host := .strdup tmp }
    else if key = lit "index" then .ok { s with index := some tmp }
    else .ok s
  | .int v =>
    if key = lit "port" then .ok { s with port := jsonObjectGetInt v }
    else if key = lit "max_body_size" then .ok { s with maxBodySize := jsonObjectGetInt v }
    else if key = lit "max_headers_size" then .ok { s with maxHeadersSize := jsonObjectGetInt v }
    else .ok s
  | .array fstab => if key = lit "mountpoints" then s.loadMountpoints J libs 0 fstab else .ok s
  | _ => .ok s

/-- `parse_config`, on the keys and values of the configuration. -/
def parseConfig : HttpServer → List (Bytes × Json) → Except MountFault HttpServer
  | s, [] => .ok s
  | s, (key, val) :: conf => do
    let s ← parseParameter J libs s key val
    parseConfig s conf

/-- The sections an array holds. -/
def arraySections : Json → List Json
  | .array fstab => fstab
  | _ => []

/-- The sections of a configuration. -/
def sections (config : Json) : List Json := arraySections (config.get (lit "mountpoints"))

/-- A server with its defaults, in front of a configuration that holds its sections. -/
def newServer (config : Json) : HttpServer where
  refs i := if i < (sections config).length then 1 else 0

/-- `ahttpd_server_create`; `binds` is whether the host and the port can be bound to. -/
def ahttpdServerCreate (binds : CharPtr → ℤ → Bool) (config : Json) :
    Except ServerFault HttpServer :=
  match config with
  | .object conf => do
    let s ← (parseConfig J libs (newServer config) conf).mapError .mount
    let s := if s.site.routes.find (lit "/") = none then { s with redirect := s.index } else s
    if binds s.host s.port then .ok s else .error .noBind
  | _ => .error .noObject

/-- `json_object_put` of the configuration, which gives up the array's references. -/
def configPut (config : Json) (s : HttpServer) : HttpServer :=
  let n := (sections config).length
  { s with refs := fun i => if i < n then s.refs i - 1 else s.refs i }

/-- The server when the event loop starts. -/
def started (binds : CharPtr → ℤ → Bool) (config : Json) : Except ServerFault HttpServer :=
  (ahttpdServerCreate J libs binds config).map (configPut config)

end Create

section Loop

variable (L : NodeLibs) (mpoint : Mpoint)

/-- What happens at a mountpoint, refused where its filesystem does not know it. -/
def Fsdata.step (routes : Routes) (e : MountEvent) : Fsdata → Option (Fsdata × Routes)
  | .node nd => do
    match ← mountStep L mpoint routes (.node nd) e with
    | (.node nd, routes) => some (.node nd, routes)
    | _ => none
  | .upload (.buffer bdata) => do
    match ← mountStep L mpoint routes (.upload (.buffer bdata)) e with
    | (.upload (.buffer bdata), routes) => some (.upload (.buffer bdata), routes)
    | _ => none
  | _ => none

/-- One event at a mountpoint of the server. -/
def lifeStep (s : HttpServer) (e : MpId × MountEvent) : Option HttpServer := do
  let m ← s.site.mountpoints.find? (·.mpoint.id = e.1)
  let (fsdata, routes) ← m.fsdata.step L m.mpoint s.site.routes e.2
  some { s with site := { s.site with
    routes := routes
    mountpoints := s.site.mountpoints.map fun m' =>
      if m'.mpoint.id = e.1 then { m' with fsdata := fsdata } else m' } }

/-- What a request that comes in is answered by. -/
inductive Dispatch where
  | callback (h : Handler)
  | redirect (location : Bytes)
  | generic (r : Routing)

/-- What libevent does with a request: the callback of its path, or `generic_route`. -/
def HttpServer.dispatch (s : HttpServer) (path uri : Bytes) : Dispatch :=
  match s.site.routes.find path with
  | some h => .callback h
  | none =>
    match s.redirect with
    | some location =>
      if path = lit "/" then .redirect location else .generic (genericRoute s.site uri)
    | none => .generic (genericRoute s.site uri)

/-- What `fstab` lists. -/
def HttpServer.fstab (s : HttpServer) : Reply :=
  .json (.object [(lit "fstab", .array (s.site.mountpoints.map Mount.props))])

end Loop

section Destroy

variable (L : NodeLibs)

/-- The `unmount` of a filesystem. -/
def Fsdata.unmount (mpoint : Mpoint) (routes : Routes) : Fsdata → Option Routes
  | .control => some (cfsUnmount mpoint routes)
  | .static _ => some routes
  | .node nd => nodeUnmount L mpoint nd routes
  | .upload .debug => some (upUnmount mpoint .debug routes)
  | .upload (.file _) => some (upUnmount mpoint .file routes)
  | .upload (.buffer bdata) => some (upUnmount mpoint (.buffer bdata) routes)
  | .v4l2 _ => some (ahttpdDelPath mpoint routes (lit "/frame"))

/-- `ahttpd_unmount`. -/
def ahttpdUnmount (s : HttpServer) (pos : Mount) : Except ServerFault HttpServer :=
  match pos.fsdata.unmount L pos.mpoint s.site.routes with
  | none => .error .unmount
  | some routes => do
    let s ← s.put (s.place pos.mpoint.id)
    .ok { s with site := { s.site with
      routes := routes
      mountpoints := s.site.mountpoints.filter (·.mpoint.id ≠ pos.mpoint.id) } }

/-- The loop of `ahttpd_server_destroy`, over the mountpoints that were there when it started. -/
def unmountAll : HttpServer → List Mount → Except ServerFault HttpServer
  | s, [] => .ok s
  | s, pos :: tmp => do
    let s ← ahttpdUnmount L s pos
    unmountAll s tmp

/-- `ahttpd_server_destroy`: what is left when the server itself is freed. -/
def ahttpdServerDestroy (s : HttpServer) : Except ServerFault HttpServer := do
  let s ← unmountAll L s s.site.mountpoints
  match s.host with
  | .literal _ => .error .invalidFree
  | .strdup _ => .ok s

end Destroy

end AuraHttpd.Config
