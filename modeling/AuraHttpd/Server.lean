import AuraHttpd.FsNode
import AuraHttpd.UploadBuffer

/-!
# The server and its mountpoints

`vfs.c` over the mount and unmount functions of the filesystems and of the upload modules, which
share the server's route table.  Of a mountpoint's data there is what its routes follow: the export
table and the calls of a node, and the buffers stored at an upload mountpoint.  Whoever ends the
process or uses a record that was freed ends the run.
-/

namespace AuraHttpd

open CString

/-- What the routes of a node follow of `struct nodefs_data`: aura's export table, the number of
the next call, and the calls of the two lists with their paths. -/
structure NodefsRoutes where
  tbl : Option ExportTable := none
  callid : ℤ := 0
  next : RecId := 0
  pendingCallList : List (RecId × Bytes) := []
  gcCallList : List (RecId × Bytes) := []

/-- What the routes of an upload mountpoint follow of `struct bufmod_data`: the stored buffers, each
with its identifier. -/
structure BufmodRoutes where
  buffers : List (RecId × ℤ) := []
  currentId : ℤ := 0
  next : RecId := 0

/-- The registered upload modules, with their `mod_data`. -/
inductive UploadMod where
  | debug
  | file
  | buffer (bdata : BufmodRoutes)

/-- The filesystems, with their `fsdata`. -/
inductive Fsdata where
  | control
  | static
  | node (nd : NodefsRoutes)
  | upload (mod : UploadMod)

structure Mount where
  mpoint : Mpoint
  fsdata : Fsdata

/-- The mountpoints of a server in the order they were mounted, and its routes. -/
structure Server where
  mountpoints : List Mount := []
  routes : Routes := .empty
  next : MpId := 0

/-- The options of a mountpoint that decide whether it is mounted and as what. -/
structure MountOpts where
  mountpoint : Option Bytes := none
  type : Option Bytes := none
  dir : Option Bytes := none
  transport : Option Bytes := none
  options : Option Bytes := none
  mode : Option Bytes := none
  owner : Option Bytes := none

/-- What the mount functions are told from outside: whether `aura_open` finds its node, whether the
rest of a module's `init` succeeds, and whether there is memory for the extents. -/
structure MountLibs where
  opens : Bool := true
  inits : Bool := true
  iovec : Bool := true

variable (L : NodeLibs) (mpoint : Mpoint)

section Control

/-- `cfs_mount` of the control filesystem. -/
def cfsMount (routes : Routes) : Routes :=
  let routes := ahttpdAddPath mpoint routes (lit "/version") .version (.mpoint mpoint.id)
  let routes := ahttpdAddPath mpoint routes (lit "/fstab") .fstab (.mpoint mpoint.id)
  ahttpdAddPath mpoint routes (lit "/terminate") .terminate (.mpoint mpoint.id)

/-- `cfs_unmount`. -/
def cfsUnmount (routes : Routes) : Routes :=
  let routes := ahttpdDelPath mpoint routes (lit "/version")
  ahttpdDelPath mpoint routes (lit "/fstab")

end Control

section Node

/-- `ahttpd_call_create` from behind the marshalling on; `started` is whether aura starts the
call. -/
def NodefsRoutes.callCreate (nd : NodefsRoutes) (routes : Routes) (started : Bool) :
    NodefsRoutes × Routes :=
  let path := pendingPath mpoint.mountpoint nd.callid
  let nd := { nd with callid := wrapS 32 (nd.callid + 1) }
  if started then
    ({ nd with next := nd.next + 1, pendingCallList := nd.pendingCallList ++ [(nd.next, path)] },
      routes.set path ⟨.resourceReadout, .call mpoint.id nd.next⟩)
  else (nd, routes)

/-- The record of a call on one of the lists. -/
def NodefsRoutes.lookup (nd : NodefsRoutes) (r : RecId) : Option (RecId × Bytes) :=
  (nd.pendingCallList ++ nd.gcCallList).find? (·.1 = r)

/-- `list_del`. -/
def NodefsRoutes.listDel (nd : NodefsRoutes) (res : RecId × Bytes) : NodefsRoutes :=
  { nd with
    pendingCallList := nd.pendingCallList.erase res
    gcCallList := nd.gcCallList.erase res }

/-- What `resource_readout` does to a completed call. -/
def NodefsRoutes.callReadout (nd : NodefsRoutes) (r : RecId) : Option NodefsRoutes :=
  (nd.lookup r).map fun res =>
    let nd := nd.listDel res
    { nd with gcCallList := nd.gcCallList ++ [res] }

/-- `ahttpd_call_delete`. -/
def NodefsRoutes.callDelete (nd : NodefsRoutes) (routes : Routes) (r : RecId) :
    Option (NodefsRoutes × Routes) :=
  (nd.lookup r).map fun res => (nd.listDel res, routes.del res.2)

/-- `ahttpd_callresource_cleanup`. -/
def callresourceCleanup (nd : NodefsRoutes) (routes : Routes) : Routes :=
  let routes := nd.pendingCallList.foldl (fun routes res => routes.del res.2) routes
  nd.gcCallList.foldl (fun routes res => routes.del res.2) routes

/-- `etbl_changed_cb` and the routes it leaves. -/
def etblChanged (routes : Routes) (old new : Option ExportTable) : Option Routes :=
  (etblChangedCb L mpoint { tbl := old, routes := routes } old new).map (·.routes)

/-- `node_unmount`; `aura_close` tells of a last change, to no table. -/
def nodeUnmount (nd : NodefsRoutes) (routes : Routes) : Option Routes :=
  let routes := callresourceCleanup nd routes
  let routes := ahttpdDelPath mpoint routes (lit "/exports")
  let routes := ahttpdDelPath mpoint routes (lit "/events")
  let routes := ahttpdDelPath mpoint routes (lit "/status")
  etblChanged L mpoint routes nd.tbl none

end Node

section Upload

/-- `uploadfs_module_select`. -/
def uploadfsModuleSelect (name : Bytes) : Option UploadMod :=
  if name = lit "debug" then some .debug
  else if name = lit "buffer" then some (.buffer {})
  else if name = lit "file" then some .file
  else none

/-- `ahttpd_mountpoint_lookup`. -/
def ahttpdMountpointLookup (s : Server) (mountpoint : Bytes) : Option Mount :=
  s.mountpoints.find? (·.mpoint.mountpoint = mountpoint)

/-- `buffer_init`: the routes, or nothing where it fails. -/
def bufferInit (s : Server) (opts : MountOpts) : Option Routes := do
  let owner ← opts.owner
  let mp ← ahttpdMountpointLookup s owner
  match mp.fsdata with
  | .node _ => some (ahttpdAddPath mpoint s.routes (lit "/") .rqListBuffers (.fsdata mpoint.id))
  | _ => none

/-- The `init` of a module. -/
def UploadMod.init (s : Server) (opts : MountOpts) (libs : MountLibs) : UploadMod → Option Routes
  | .debug => some s.routes
  | .file => if libs.inits then some s.routes else none
  | .buffer _ => if libs.inits then bufferInit mpoint s opts else none

/-- `buffer_deinit`, which frees its data and removes no path. -/
def bufferDeinit (_ : BufmodRoutes) (routes : Routes) : Routes := routes

/-- The `deinit` of a module. -/
def UploadMod.deinit (routes : Routes) : UploadMod → Routes
  | .debug | .file => routes
  | .buffer bdata => bufferDeinit bdata routes

/-- `up_mount`: what is mounted, if it succeeds, and the routes.  Without a mode the null pointer is
compared. -/
def upMount (s : Server) (opts : MountOpts) (libs : MountLibs) : Option (Option Fsdata × Routes) :=
  opts.mode.map fun modname =>
    match uploadfsModuleSelect modname with
    | none => (none, s.routes)
    | some mod =>
      match mod.init mpoint s opts libs with
      | none => (none, s.routes)
      | some routes =>
        if libs.iovec then
          (some (.upload mod),
            ahttpdAddPath mpoint routes (lit "/post") .upload (.mpoint mpoint.id))
        else (none, routes)

/-- `up_unmount`. -/
def upUnmount (mod : UploadMod) (routes : Routes) : Routes :=
  ahttpdDelPath mpoint (mod.deinit routes) (lit "/post")

/-- `buf_avail_register`, with the buffer entering the list of the stored ones. -/
def BufmodRoutes.register (bdata : BufmodRoutes) (routes : Routes) (id : ℤ) :
    BufmodRoutes × Routes :=
  let buf := CbArg.buffer mpoint.id bdata.next
  let routes := ahttpdAddPath mpoint routes (lit "/download/" ++ fmtLu id) .rqDownloadBuffer buf
  let routes := ahttpdAddPath mpoint routes (lit "/drop/" ++ fmtLu id) .rqDropBuffer buf
  ({ bdata with next := bdata.next + 1, buffers := bdata.buffers ++ [(bdata.next, id)] }, routes)

/-- `buffer_handle_data` from behind the check of the size on; `stored` is whether there is memory
for the buffer. -/
def BufmodRoutes.handleData (bdata : BufmodRoutes) (routes : Routes) (stored : Bool) :
    BufmodRoutes × Routes :=
  let id := bdata.currentId
  let bdata := { bdata with currentId := wrapS 64 (bdata.currentId + 1) }
  if stored then bdata.register mpoint routes id else (bdata, routes)

/-- `rq_drop_buffer`: `buf_avail_deregister` and the buffer leaving the list. -/
def BufmodRoutes.drop (bdata : BufmodRoutes) (routes : Routes) (r : RecId) :
    Option (BufmodRoutes × Routes) :=
  (bdata.buffers.find? (·.1 = r)).map fun buf =>
    let routes := ahttpdDelPath mpoint routes (lit "/download/" ++ fmtLu buf.2)
    let routes := ahttpdDelPath mpoint routes (lit "/drop/" ++ fmtLu buf.2)
    ({ bdata with buffers := bdata.buffers.erase buf }, routes)

end Upload

section Vfs

/-- The mount function of a filesystem, as `up_mount`; nothing where there is no such
filesystem. -/
def fsMount (s : Server) (opts : MountOpts) (libs : MountLibs) (type : Bytes) :
    Option (Option Fsdata × Routes) :=
  if type = lit "control" then some (some .control, cfsMount mpoint s.routes)
  else if type = lit "static" then
    -- the last character of the directory is looked at
    match opts.dir with
    | some (_ :: _) => some (some .static, s.routes)
    | _ => none
  else if type = lit "node" then
    match opts.transport, opts.options with
    | some _, some _ =>
      if libs.opens then
        let nd := nodeMount mpoint s.routes
        some (some (.node {}), nd.table.routes)
      else some (none, s.routes)
    | _, _ => some (none, s.routes)
  else if type = lit "upload" then upMount mpoint s opts libs
  else some (none, s.routes)

/-- `ahttpd_mount`. -/
def ahttpdMount (s : Server) (opts : MountOpts) (libs : MountLibs) : Option Server := do
  let mp ← opts.mountpoint
  let tp ← opts.type
  let (fsdata, routes) ← fsMount ⟨s.next, mp⟩ s opts libs tp
  some { s with
    mountpoints := s.mountpoints ++ (fsdata.map (Mount.mk ⟨s.next, mp⟩)).toList
    routes := routes
    next := s.next + 1 }

/-- The unmount function of a filesystem. -/
def fsUnmount (routes : Routes) : Fsdata → Option Routes
  | .control => some (cfsUnmount mpoint routes)
  | .static => some routes
  | .node nd => nodeUnmount L mpoint nd routes
  | .upload mod => some (upUnmount mpoint mod routes)

/-- `ahttpd_unmount`. -/
def ahttpdUnmount (s : Server) (mp : Mount) : Option Server :=
  (fsUnmount L mp.mpoint s.routes mp.fsdata).map fun routes =>
    { s with routes := routes
             mountpoints := s.mountpoints.filter (·.mpoint.id ≠ mp.mpoint.id) }

end Vfs

/-- What happens at a mountpoint and concerns its routes. -/
inductive MountEvent where
  | etblChanged (new : Option ExportTable)
  | callCreate (started : Bool)
  | callReadout (r : RecId)
  | callDelete (r : RecId)
  | handleData (stored : Bool)
  | drop (r : RecId)

/-- One such event, refused where the filesystem does not know it. -/
def mountStep (routes : Routes) : Fsdata → MountEvent → Option (Fsdata × Routes)
  | .node nd, .etblChanged new =>
    (etblChanged L mpoint routes nd.tbl new).map fun routes =>
      (.node { nd with tbl := new }, routes)
  | .node nd, .callCreate started =>
    let (nd, routes) := nd.callCreate mpoint routes started
    some (.node nd, routes)
  | .node nd, .callReadout r => (nd.callReadout r).map fun nd => (.node nd, routes)
  | .node nd, .callDelete r =>
    (nd.callDelete routes r).map fun (nd, routes) => (.node nd, routes)
  | .upload (.buffer bdata), .handleData stored =>
    let (bdata, routes) := bdata.handleData mpoint routes stored
    some (.upload (.buffer bdata), routes)
  | .upload (.buffer bdata), .drop r =>
    (bdata.drop mpoint routes r).map fun (bdata, routes) => (.upload (.buffer bdata), routes)
  | _, _ => none

inductive ServerEvent where
  | mount (opts : MountOpts) (libs : MountLibs)
  | at (mp : MpId) (e : MountEvent)
  | unmount (mp : MpId)

/-- One event of the server. -/
def serverStep (s : Server) : ServerEvent → Option Server
  | .mount opts libs => ahttpdMount s opts libs
  | .at mp e => do
    let m ← s.mountpoints.find? (·.mpoint.id = mp)
    let (fsdata, routes) ← mountStep L m.mpoint s.routes m.fsdata e
    some { s with
      routes := routes
      mountpoints := s.mountpoints.map fun m' =>
        if m'.mpoint.id = mp then { m' with fsdata := fsdata } else m' }
  | .unmount mp => do
    let m ← s.mountpoints.find? (·.mpoint.id = mp)
    ahttpdUnmount L s m

end AuraHttpd
