import AuraHttpd.Lib.Run
import AuraHttpd.Proofs.Mounting

/-!
# Loading as a run of the server

The mountpoints with their sections and their data refine those of `Server`, which keep only what
routes follow: where no cameras are mounted, every section that mounts is a mount there
(`ahttpdMount_server`), and loading an array is a run (`load_simulates`).
-/

namespace AuraHttpd.Config

open CString StepSystem

variable {J : JsonLib} {s s' : Site} {mpoint : Mpoint} {opts : Json} {libs : SectionLibs}

/-- What of a mountpoint's data its routes follow; there are no routes of cameras. -/
def Fsdata.routesData : Fsdata → Option AuraHttpd.Fsdata
  | .control => some .control
  | .static _ => some .static
  | .node nd => some (.node nd)
  | .upload .debug => some (.upload .debug)
  | .upload (.file _) => some (.upload .file)
  | .upload (.buffer bdata) => some (.upload (.buffer bdata))
  | .v4l2 _ => none

def Mount.routesMount (m : Mount) : Option AuraHttpd.Mount :=
  m.fsdata.routesData.map (AuraHttpd.Mount.mk m.mpoint)

/-- The mountpoints and routes without the sections. -/
def Site.server (s : Site) : Server where
  mountpoints := s.mountpoints.filterMap Mount.routesMount
  routes := s.routes
  next := s.next

/-- No cameras are mounted. -/
def Site.NoCameras (s : Site) : Prop := ∀ m ∈ s.mountpoints, m.fsdata.routesData ≠ none

/-- The options of a section that decide whether it is mounted. -/
def mountOpts (J : JsonLib) (opts : Json) : MountOpts where
  mountpoint := jsonArrayFindString J opts (lit "mountpoint")
  type := jsonArrayFindString J opts (lit "type")
  dir := jsonArrayFindString J opts (lit "dir")
  transport := jsonArrayFindString J opts (lit "transport")
  options := jsonArrayFindString J opts (lit "options")
  mode := jsonArrayFindString J opts (lit "mode")
  owner := jsonArrayFindString J opts (lit "owner")

theorem find_server (h : s.NoCameras) (p : Mpoint → Bool) :
    s.server.mountpoints.find? (p ·.mpoint)
      = (s.mountpoints.find? (p ·.mpoint)).bind Mount.routesMount := by
  unfold Site.NoCameras at h
  simp only [Site.server]
  generalize s.mountpoints = mountpoints at h
  induction mountpoints with
  | nil => rfl
  | cons m ms ih =>
    obtain ⟨fsdata, hm⟩ := Option.ne_none_iff_exists'.1 (h m List.mem_cons_self)
    have hroutes : m.routesMount = some ⟨m.mpoint, fsdata⟩ := by
      rw [Mount.routesMount, hm, Option.map_some]
    rw [List.filterMap_cons_some hroutes]
    by_cases hp : p m.mpoint = true
    · rw [List.find?_cons_of_pos (by simpa using hp), List.find?_cons_of_pos (by simpa using hp),
        Option.bind_some, hroutes]
    · rw [List.find?_cons_of_neg (by simpa using hp), List.find?_cons_of_neg (by simpa using hp),
        ih fun m' hm' => h m' (List.mem_cons_of_mem _ hm')]

theorem lookup_server (h : s.NoCameras) (path : Bytes) :
    AuraHttpd.ahttpdMountpointLookup s.server path
      = (ahttpdMountpointLookup s path).bind Mount.routesMount :=
  find_server h fun mpoint => mpoint.mountpoint = path

theorem bufferInit_server (h : s.NoCameras) (hinits : libs.inits = true) :
    AuraHttpd.bufferInit mpoint s.server (mountOpts J opts) = bufferInit J s mpoint opts libs := by
  unfold AuraHttpd.bufferInit bufferInit
  simp only [hinits, Bool.true_eq_false, if_false, mountOpts, Option.bind_eq_bind]
  rcases jsonArrayFindString J opts (lit "owner") with _ | owner
  · rfl
  simp only [Option.bind_some, lookup_server h]
  rcases ahttpdMountpointLookup s owner with _ | m
  · rfl
  simp only [Option.bind_some, Mount.routesMount]
  rcases hm : m.fsdata with _ | _ | _ | mod | _
  · rfl
  · rfl
  · rfl
  · rcases mod with _ | _ | _ <;> rfl
  · rfl

/-- A module without its data. -/
def ModType.routesMod : ModType → AuraHttpd.UploadMod
  | .debug => .debug
  | .file => .file
  | .buffer => .buffer {}

theorem select_server (name : Bytes) : AuraHttpd.uploadfsModuleSelect name
    = (uploadfsModuleSelect name).map ModType.routesMod := by
  rcases hsel : uploadfsModuleSelect name with _ | mod
  · have hother : ∀ mod : ModType, name ≠ mod.name := by
      rintro mod rfl
      simp at hsel
    have hdebug : name ≠ lit "debug" := hother .debug
    have hbuffer : name ≠ lit "buffer" := hother .buffer
    have hfile : name ≠ lit "file" := hother .file
    rw [AuraHttpd.uploadfsModuleSelect, if_neg hdebug, if_neg hbuffer, if_neg hfile,
      Option.map_none]
  · obtain rfl := name_of_select hsel
    cases mod <;> rfl

/-- The `init` of a module, with an outcome for what it looks for in the section besides. -/
theorem init_server (h : s.NoCameras) {mod : ModType} {r : Option (UploadMod × Routes)}
    (hinit : mod.init J s mpoint opts libs = .ok r) : ∃ inits,
      mod.routesMod.init mpoint s.server (mountOpts J opts) ⟨libs.opens, inits, libs.iovec⟩
        = r.map Prod.snd
      ∧ ∀ mod' routes, r = some (mod', routes) →
        (Fsdata.upload mod').routesData = some (.upload mod.routesMod) := by
  cases mod with
  | debug =>
    obtain rfl := Except.ok.inj hinit
    refine ⟨true, rfl, ?_⟩
    rintro mod' routes h
    cases h
    rfl
  | file =>
    obtain ⟨fdata, -, hinit⟩ := Except.bind_eq_ok.1 hinit
    obtain rfl := Except.ok.inj hinit
    refine ⟨fdata.isSome, ?_, ?_⟩
    · rcases fdata with _ | fdata <;> rfl
    · rintro mod' routes h
      obtain ⟨_, -, h⟩ := Option.map_eq_some_iff.1 h
      cases h
      rfl
  | buffer =>
    obtain rfl := Except.ok.inj hinit
    refine ⟨libs.inits, ?_, ?_⟩
    · cases hinits : libs.inits with
      | true =>
        simp only [ModType.routesMod, AuraHttpd.UploadMod.init, if_true, bufferInit_server h hinits,
          Option.map_map, Function.comp_def, Option.map_id']
      | false =>
        simp only [ModType.routesMod, AuraHttpd.UploadMod.init, bufferInit, hinits]
        rfl
    · rintro mod' routes h
      obtain ⟨_, -, h⟩ := Option.map_eq_some_iff.1 h
      cases h
      rfl

theorem upMount_server (h : s.NoCameras) {fsdata : Option Fsdata} {routes : Routes}
    (hup : upMount J s mpoint opts libs = .ok (fsdata, routes)) : ∃ sl,
      AuraHttpd.upMount mpoint s.server (mountOpts J opts) sl
        = some (fsdata.bind Fsdata.routesData, routes) := by
  unfold upMount at hup
  unfold AuraHttpd.upMount
  rcases hmode : jsonArrayFindString J opts (lit "mode") with _ | modname <;> rw [hmode] at hup
  · cases hup
  have hopts : (mountOpts J opts).mode = some modname := hmode
  simp only [hopts, Option.map_some, select_server]
  dsimp only at hup
  rcases hsel : uploadfsModuleSelect modname with _ | mod <;> rw [hsel] at hup
  · cases hup
    exact ⟨{}, rfl⟩
  obtain ⟨r, hinit, hup⟩ := Except.bind_eq_ok.1 hup
  obtain ⟨inits, hserver, hdata⟩ := init_server h hinit
  refine ⟨⟨libs.opens, inits, libs.iovec⟩, ?_⟩
  simp only [Option.map_some, hserver]
  rcases r with _ | ⟨mod', routes'⟩
  · cases hup
    rfl
  have hm := hdata mod' routes' rfl
  dsimp only [Option.map_some] at hup ⊢
  split_ifs at hup ⊢ with hiovec
  · cases hup
    rw [Option.bind_some, hm]
  · cases hup
    rfl

theorem routesData_of_mount {fs : FsType} (hfs : fs ≠ .v4l2) {fsdata : Fsdata} {routes : Routes}
    (hmount : fs.mount J s mpoint opts libs = .ok (some fsdata, routes)) :
    fsdata.routesData ≠ none := by
  cases fsMounts_of_mount hmount with
  | control | static | node => exact Option.some_ne_none _
  | @upload _ _ mod' =>
    rcases mod' with _ | _ | _ <;> exact Option.some_ne_none _
  | v4l2 => exact absurd rfl hfs

/-- The mount function of a filesystem without cameras. -/
theorem mount_server (h : s.NoCameras) {fs : FsType} (hfs : fs ≠ .v4l2) {fsdata : Option Fsdata}
    {routes : Routes} (hmount : fs.mount J s mpoint opts libs = .ok (fsdata, routes)) : ∃ sl,
      fsMount mpoint s.server (mountOpts J opts) sl fs.name
        = some (fsdata.bind Fsdata.routesData, routes) := by
  unfold fsMount
  cases fs with
  | control =>
    cases hmount
    exact ⟨{}, rfl⟩
  | static =>
    simp only [FsType.mount] at hmount
    rcases hst : staticMount J opts with e | fsd <;> rw [hst] at hmount
    · cases hmount
    obtain ⟨dir, hdir, hne⟩ := returns_staticMount.1 ⟨fsd, hst⟩
    obtain ⟨c, dir, rfl⟩ := List.exists_cons_of_ne_nil hne
    have hopts : (mountOpts J opts).dir = some (c :: dir) := hdir
    have hcontrol : FsType.static.name ≠ lit "control" := by decide
    have hstatic : FsType.static.name = lit "static" := rfl
    simp only [if_neg hcontrol, if_pos hstatic, hopts]
    cases hmount
    exact ⟨{}, rfl⟩
  | node =>
    have hcontrol : FsType.node.name ≠ lit "control" := by decide
    have hstatic : FsType.node.name ≠ lit "static" := by decide
    have hnode : FsType.node.name = lit "node" := rfl
    simp only [if_neg hcontrol, if_neg hstatic, if_pos hnode]
    cases fsMounts_of_mount hmount with
    | @node transport options htransport hoptions _ =>
      have htransport : (mountOpts J opts).transport = some transport := htransport
      have hoptions : (mountOpts J opts).options = some options := hoptions
      refine ⟨{}, ?_⟩
      simp only [htransport, hoptions, if_true]
      rfl
    | noNode =>
      refine ⟨{ opens := false }, ?_⟩
      rcases (mountOpts J opts).transport with _ | transport
      · rfl
      · rcases (mountOpts J opts).options with _ | options <;> rfl
  | upload =>
    have hcontrol : FsType.upload.name ≠ lit "control" := by decide
    have hstatic : FsType.upload.name ≠ lit "static" := by decide
    have hnode : FsType.upload.name ≠ lit "node" := by decide
    have hupload : FsType.upload.name = lit "upload" := rfl
    simp only [if_neg hcontrol, if_neg hstatic, if_neg hnode, if_pos hupload]
    exact upMount_server h hmount
  | v4l2 => exact absurd rfl hfs

/-- A section without cameras that mounts does so in the server too. -/
theorem ahttpdMount_server (h : s.NoCameras)
    (htype : jsonArrayFindString J opts (lit "type") ≠ some FsType.v4l2.name)
    (hmount : ahttpdMount J s opts libs = .ok (0, s')) :
    s'.NoCameras ∧ ∃ sl, AuraHttpd.ahttpdMount s.server (mountOpts J opts) sl = some s'.server := by
  have hret := mounts_of_ahttpdMount hmount
  generalize hr : (0 : ℤ) = ret at hret
  cases hret with
  | failed => cases hr
  | @mounted mp tp fs fsdata routes hmp htp hfs hfsmount =>
    obtain rfl := name_of_lookup hfs
    have hv4l2 : fs ≠ .v4l2 := by
      rintro rfl
      exact htype htp
    obtain ⟨sl, hserver⟩ := mount_server h hv4l2 hfsmount
    obtain ⟨data, hdata⟩ := Option.ne_none_iff_exists'.1 (routesData_of_mount hv4l2 hfsmount)
    refine ⟨?_, sl, ?_⟩
    · intro m hm
      rcases List.mem_append.1 hm with hm | hm
      · exact h m hm
      · obtain rfl := List.mem_singleton.1 hm
        rw [hdata]
        exact Option.some_ne_none _
    · have hmountpoint : (mountOpts J opts).mountpoint = some mp := hmp
      have htype : (mountOpts J opts).type = some fs.name := htp
      have hnext : s.server.next = s.next := rfl
      simp only [AuraHttpd.ahttpdMount, hmountpoint, htype, hnext, hserver, hdata,
        Option.bind_eq_bind, Option.bind_some, Option.map_some, Option.toList_some]
      simp only [Site.server, List.filterMap_append, List.filterMap_cons, List.filterMap_nil,
        Mount.routesMount, hdata, Option.map_some]

/-- Loading is a run of the server that mounts the sections that mount. -/
theorem load_simulates (L : NodeLibs) : ∀ {fstab : List (Json × SectionLibs)} {s s' : Site},
    s.NoCameras → (∀ p ∈ fstab, p.2.iovec = true) →
      (∀ p ∈ fstab, jsonArrayFindString J p.1 (lit "type") ≠ some FsType.v4l2.name) →
      loadMountpoints J s fstab = .ok s' →
      s'.NoCameras ∧ ∃ es, es.length = (mountedSections J s fstab).length
        ∧ (∀ e ∈ es, ∃ opts libs, e = .mount opts libs)
        ∧ run (serverStep L) s.server es = some s'.server
  | [], _, _, hs, _, _, h => by
    cases h
    exact ⟨hs, [], rfl, by simp, rfl⟩
  | (opts, libs) :: fstab, s, s', hs, hmem, htype, h => by
    obtain ⟨⟨ret, s₁⟩, hmount, hload⟩ := Except.bind_eq_ok.1 h
    obtain ⟨hlibs, hmem⟩ := List.forall_mem_cons.1 hmem
    obtain ⟨hopts, htype⟩ := List.forall_mem_cons.1 htype
    simp only [mountedSections, hmount]
    by_cases hret : ret = 0
    · subst hret
      obtain ⟨hs₁, sl, hserver⟩ := ahttpdMount_server hs hopts hmount
      obtain ⟨hs', es, hlen, hes, hrun⟩ := load_simulates L hs₁ hmem htype hload
      refine ⟨hs', .mount (mountOpts J opts) sl :: es, by simp [hlen],
        List.forall_mem_cons.2 ⟨⟨_, _, rfl⟩, hes⟩, ?_⟩
      rw [run, serverStep, hserver, Option.bind_some, hrun]
    · obtain rfl : s₁ = s := by
        cases mounts_of_ahttpdMount hmount with
        | failed _ hsame => exact hsame hlibs
        | mounted => exact absurd rfl hret
      simp only [if_neg hret, List.nil_append]
      exact load_simulates L hs hmem htype hload

end AuraHttpd.Config
