import AuraHttpd.Server
import AuraHttpd.Proofs.NodeTable

/-!
# Unmounting removes a mountpoint's own routes

What a filesystem does to the routes is told by the paths it has registered (`Mount.paths`): a
mount function and an event at the mountpoint put up paths of its own and take some of them down,
and a route that belongs to the mountpoint is at one of its paths (`Routed`).  As long as no two
mountpoints register the same path, an unmount function that takes down all of them removes the
mountpoint's routes and no others.  Those of the control filesystem and of the upload module
`buffer` forget some (`leftPaths`), and these routes stay.
-/

namespace AuraHttpd

open CString StepSystem RouteTable

variable (mpoint : Mpoint)

/-- The routes of the objects of an export table. -/
def objectRoutes (os : List AuraObject) : List (Bytes × Handler) :=
  os.flatMap fun o => [false, true].map fun a =>
    (mpoint.mountpoint ++ callPath a o.name, ⟨issueCallCb a, .mpoint mpoint.id⟩)

def objectPaths (os : List AuraObject) : List Bytes :=
  os.flatMap fun o => [false, true].map fun a => mpoint.mountpoint ++ callPath a o.name

/-- The routes of a stored buffer. -/
def bufferRoutes (buf : RecId × ℤ) : List (Bytes × Handler) :=
  [(mpoint.mountpoint ++ (lit "/download/" ++ fmtLu buf.2),
      ⟨.rqDownloadBuffer, .buffer mpoint.id buf.1⟩),
    (mpoint.mountpoint ++ (lit "/drop/" ++ fmtLu buf.2), ⟨.rqDropBuffer, .buffer mpoint.id buf.1⟩)]

def bufferPaths (buf : RecId × ℤ) : List Bytes :=
  [mpoint.mountpoint ++ (lit "/download/" ++ fmtLu buf.2),
    mpoint.mountpoint ++ (lit "/drop/" ++ fmtLu buf.2)]

/-- The paths below a mountpoint. -/
def below (paths : List Bytes) : List Bytes := paths.map (mpoint.mountpoint ++ ·)

/-- The paths a mounted filesystem has registered and not removed. -/
def Fsdata.paths : Fsdata → List Bytes
  | .control => below mpoint [lit "/version", lit "/fstab", lit "/terminate"]
  | .static => []
  | .node nd =>
    below mpoint [lit "/exports", lit "/events", lit "/status"]
      ++ objectPaths mpoint (tableObjects nd.tbl)
      ++ (nd.pendingCallList ++ nd.gcCallList).map Prod.snd
  | .upload (.buffer bdata) =>
    below mpoint [lit "/", lit "/post"] ++ bdata.buffers.flatMap (bufferPaths mpoint)
  | .upload _ => below mpoint [lit "/post"]

/-- Paths that are registered when a filesystem is mounted and that its unmount function leaves. -/
def Fsdata.leftPaths : Fsdata → List Bytes
  | .control => below mpoint [lit "/terminate"]
  | .upload (.buffer _) => below mpoint [lit "/"]
  | _ => []

/-- The filesystems that leave none of their paths. -/
def Fsdata.Thorough (fsdata : Fsdata) : Prop :=
  fsdata ≠ .control ∧ ∀ bdata, fsdata ≠ .upload (.buffer bdata)

def Mount.paths (m : Mount) : List Bytes := m.fsdata.paths m.mpoint

variable {mpoint} {L : NodeLibs}

theorem foldl_callpathAdd : ∀ (os : List AuraObject) (routes : Routes),
    os.foldl (callpathAdd mpoint) routes = routes.setAll (objectRoutes mpoint os)
  | [], _ => rfl
  | o :: os, routes => by
    rw [List.foldl_cons, foldl_callpathAdd os]
    exact (setAll_append routes (objectRoutes mpoint [o]) (objectRoutes mpoint os)).symm

theorem foldl_callpathDelete : ∀ (os : List AuraObject) (routes : Routes),
    os.foldl (callpathDelete mpoint) routes = routes.delAll (objectPaths mpoint os)
  | [], _ => rfl
  | o :: os, routes => by
    rw [List.foldl_cons, foldl_callpathDelete os]
    exact (delAll_append routes (objectPaths mpoint [o]) (objectPaths mpoint os)).symm

theorem mem_objectRoutes {os : List AuraObject} {e : Bytes × Handler}
    (h : e ∈ objectRoutes mpoint os) :
    e.1 ∈ objectPaths mpoint os ∧ e.2.arg.owner = mpoint.id := by
  simp only [objectRoutes, objectPaths, List.mem_flatMap, List.mem_map] at h ⊢
  obtain ⟨o, ho, a, ha, rfl⟩ := h
  exact ⟨⟨o, ho, a, ha, rfl⟩, rfl⟩

theorem etblChanged_eq {routes routes' : Routes} {old new : Option ExportTable}
    (h : etblChanged L mpoint routes old new = some routes') :
    routes' = (routes.delAll (objectPaths mpoint (tableObjects old))).setAll
      (objectRoutes mpoint (tableObjects new)) := by
  obtain ⟨t, ht, rfl⟩ := Option.map_eq_some_iff.1 h
  obtain ⟨-, -, hroutes, -⟩ := etblChangedCb_cases ht
  rw [hroutes, foldl_callpathAdd, foldl_callpathDelete]

theorem etblChanged_none (routes : Routes) (old : Option ExportTable) :
    etblChanged L mpoint routes old none
      = some (routes.delAll (objectPaths mpoint (tableObjects old))) := by
  have h : ∃ t, etblChangedCb L mpoint { tbl := old, routes := routes } old none = some t :=
    ⟨_, rfl⟩
  obtain ⟨t, ht⟩ := h
  have hmap : etblChanged L mpoint routes old none = some t.routes := by
    rw [etblChanged, ht]
    rfl
  rw [hmap, etblChanged_eq hmap]
  rfl

/-- What an event at a mountpoint does to the routes: it takes down and puts up paths of the
mountpoint. -/
structure RouteChange (mpoint : Mpoint) (fsdata fsdata' : Fsdata) (dels : List Bytes)
    (adds : List (Bytes × Handler)) : Prop where
  dels_own : ∀ p ∈ dels, p ∈ fsdata.paths mpoint
  adds_own : ∀ e ∈ adds, e.1 ∈ fsdata'.paths mpoint ∧ e.2.arg.owner = mpoint.id
  paths : ∀ p ∈ fsdata.paths mpoint, p ∈ fsdata'.paths mpoint ∨ p ∈ dels
  left : fsdata'.leftPaths mpoint = fsdata.leftPaths mpoint
  left_kept : ∀ p ∈ fsdata.leftPaths mpoint, p ∉ dels

theorem mem_erase_or_eq {α : Type*} [BEq α] [LawfulBEq α] {l : List α} {a : α} (b : α)
    (h : a ∈ l) : a ∈ l.erase b ∨ a = b := by
  by_cases hab : a = b
  · exact .inr hab
  · exact .inl ((List.mem_erase_of_ne hab).2 h)

theorem node_paths_iff {nd : NodefsRoutes} {p : Bytes} :
    p ∈ (Fsdata.node nd).paths mpoint ↔
      p ∈ below mpoint [lit "/exports", lit "/events", lit "/status"]
        ∨ p ∈ objectPaths mpoint (tableObjects nd.tbl)
        ∨ ∃ res ∈ nd.pendingCallList ++ nd.gcCallList, res.2 = p := by
  simp only [Fsdata.paths, List.mem_append, List.mem_map, or_assoc]

theorem buffer_paths_iff {bdata : BufmodRoutes} {p : Bytes} :
    p ∈ (Fsdata.upload (.buffer bdata)).paths mpoint ↔
      p ∈ below mpoint [lit "/", lit "/post"]
        ∨ ∃ buf ∈ bdata.buffers, p ∈ bufferPaths mpoint buf := by
  simp only [Fsdata.paths, List.mem_append, List.mem_flatMap]

section Changes

variable {routes routes' : Routes} {nd nd' : NodefsRoutes} {bdata bdata' : BufmodRoutes}
  {dels : List Bytes} {adds : List (Bytes × Handler)}

theorem etblChanged_change {new : Option ExportTable} :
    RouteChange mpoint (.node nd) (.node { nd with tbl := new })
      (objectPaths mpoint (tableObjects nd.tbl)) (objectRoutes mpoint (tableObjects new)) := by
  refine ⟨fun p hp => node_paths_iff.2 (.inr (.inl hp)), fun e he => ?_, fun p hp => ?_, rfl,
    by simp [Fsdata.leftPaths]⟩
  · obtain ⟨hpath, howner⟩ := mem_objectRoutes he
    exact ⟨node_paths_iff.2 (.inr (.inl hpath)), howner⟩
  · rcases node_paths_iff.1 hp with hp | hp | hp
    · exact .inl (node_paths_iff.2 (.inl hp))
    · exact .inr hp
    · exact .inl (node_paths_iff.2 (.inr (.inr hp)))

/-- A change of the calls alone. -/
theorem RouteChange.calls (htbl : nd'.tbl = nd.tbl)
    (hdels : ∀ p ∈ dels, ∃ res ∈ nd.pendingCallList ++ nd.gcCallList, res.2 = p)
    (hadds : ∀ e ∈ adds, (∃ res ∈ nd'.pendingCallList ++ nd'.gcCallList, res.2 = e.1)
      ∧ e.2.arg.owner = mpoint.id)
    (hkept : ∀ res ∈ nd.pendingCallList ++ nd.gcCallList,
      res ∈ nd'.pendingCallList ++ nd'.gcCallList ∨ res.2 ∈ dels) :
    RouteChange mpoint (.node nd) (.node nd') dels adds := by
  refine ⟨fun p hp => node_paths_iff.2 (.inr (.inr (hdels p hp))), fun e he => ?_, fun p hp => ?_,
    rfl, by simp [Fsdata.leftPaths]⟩
  · obtain ⟨hpath, howner⟩ := hadds e he
    exact ⟨node_paths_iff.2 (.inr (.inr hpath)), howner⟩
  · rcases node_paths_iff.1 hp with hp | hp | ⟨res, hres, rfl⟩
    · exact .inl (node_paths_iff.2 (.inl hp))
    · exact .inl (node_paths_iff.2 (.inr (.inl (htbl ▸ hp))))
    · exact (hkept res hres).imp_left fun h => node_paths_iff.2 (.inr (.inr ⟨res, h, rfl⟩))

theorem callCreate_change {started : Bool}
    (h : nd.callCreate mpoint routes started = (nd', routes')) :
    ∃ dels adds, routes' = (routes.delAll dels).setAll adds
      ∧ RouteChange mpoint (.node nd) (.node nd') dels adds := by
  cases started
  · cases h
    exact ⟨[], [], rfl, .calls rfl (by simp) (by simp) fun res hres => .inl hres⟩
  · cases h
    refine ⟨[], [(pendingPath mpoint.mountpoint nd.callid,
      ⟨.resourceReadout, .call mpoint.id nd.next⟩)], rfl, .calls rfl (by simp) ?_ ?_⟩
    · intro e he
      obtain rfl := List.mem_singleton.1 he
      exact ⟨⟨(nd.next, _), by simp, rfl⟩, rfl⟩
    · intro res hres
      simp only [List.mem_append] at hres ⊢
      tauto

theorem lookup_mem {r : RecId} {res : RecId × Bytes} (h : nd.lookup r = some res) :
    res ∈ nd.pendingCallList ++ nd.gcCallList := List.mem_of_find?_eq_some h

theorem mem_listDel (res : RecId × Bytes) {x : RecId × Bytes}
    (h : x ∈ nd.pendingCallList ++ nd.gcCallList) :
    x ∈ (nd.listDel res).pendingCallList ++ (nd.listDel res).gcCallList ∨ x = res := by
  simp only [NodefsRoutes.listDel, List.mem_append] at h ⊢
  rcases h with h | h
  · exact (mem_erase_or_eq res h).imp_left .inl
  · exact (mem_erase_or_eq res h).imp_left .inr

theorem callReadout_change {r : RecId} (h : nd.callReadout r = some nd') :
    RouteChange mpoint (.node nd) (.node nd') [] [] := by
  obtain ⟨res, hres, rfl⟩ := Option.map_eq_some_iff.1 h
  refine .calls rfl (by simp) (by simp) fun x hx => .inl ?_
  rcases mem_listDel res hx with hx | rfl
  · simp only [List.mem_append] at hx ⊢
    tauto
  · simp

theorem callDelete_change {r : RecId} (h : nd.callDelete routes r = some (nd', routes')) :
    ∃ dels, routes' = routes.delAll dels ∧ RouteChange mpoint (.node nd) (.node nd') dels [] := by
  obtain ⟨res, hres, h⟩ := Option.map_eq_some_iff.1 h
  cases h
  refine ⟨[res.2], rfl, .calls rfl ?_ (by simp) fun x hx => ?_⟩
  · intro p hp
    exact ⟨res, lookup_mem hres, (List.mem_singleton.1 hp).symm⟩
  · exact (mem_listDel res hx).imp_right fun h => by simp [h]

/-- A change of the stored buffers. -/
theorem RouteChange.buffers
    (hdels : ∀ p ∈ dels, ∃ buf ∈ bdata.buffers, p ∈ bufferPaths mpoint buf)
    (hadds : ∀ e ∈ adds, (∃ buf ∈ bdata'.buffers, e.1 ∈ bufferPaths mpoint buf)
      ∧ e.2.arg.owner = mpoint.id)
    (hkept : ∀ buf ∈ bdata.buffers, buf ∈ bdata'.buffers ∨ ∀ p ∈ bufferPaths mpoint buf, p ∈ dels) :
    RouteChange mpoint (.upload (.buffer bdata)) (.upload (.buffer bdata')) dels adds := by
  refine ⟨fun p hp => buffer_paths_iff.2 (.inr (hdels p hp)), fun e he => ?_, fun p hp => ?_, rfl,
    fun p hp hp' => ?_⟩
  · obtain ⟨hpath, howner⟩ := hadds e he
    exact ⟨buffer_paths_iff.2 (.inr hpath), howner⟩
  · rcases buffer_paths_iff.1 hp with hp | ⟨buf, hbuf, hp⟩
    · exact .inl (buffer_paths_iff.2 (.inl hp))
    · rcases hkept buf hbuf with h | h
      · exact .inl (buffer_paths_iff.2 (.inr ⟨buf, h, hp⟩))
      · exact .inr (h p hp)
  · -- the path of the listing is none of a buffer's
    obtain ⟨buf, -, hbuf⟩ := hdels p hp'
    obtain rfl := List.mem_singleton.1 hp
    simp [bufferPaths, lit] at hbuf

theorem handleData_change {stored : Bool}
    (h : bdata.handleData mpoint routes stored = (bdata', routes')) :
    ∃ adds, routes' = routes.setAll adds
      ∧ RouteChange mpoint (.upload (.buffer bdata)) (.upload (.buffer bdata')) [] adds := by
  cases stored
  · cases h
    exact ⟨[], rfl, .buffers (by simp) (by simp) fun buf hbuf => .inl hbuf⟩
  · cases h
    refine ⟨bufferRoutes mpoint (bdata.next, bdata.currentId), rfl,
      .buffers (by simp) ?_ fun buf hbuf => .inl (List.mem_append_left _ hbuf)⟩
    intro e he
    simp only [bufferRoutes, List.mem_cons, List.not_mem_nil, or_false] at he
    refine ⟨⟨(bdata.next, bdata.currentId), by simp, ?_⟩, ?_⟩
    · rcases he with rfl | rfl <;> simp [bufferPaths]
    · rcases he with rfl | rfl <;> rfl

theorem drop_change {r : RecId} (h : bdata.drop mpoint routes r = some (bdata', routes')) :
    ∃ dels, routes' = routes.delAll dels
      ∧ RouteChange mpoint (.upload (.buffer bdata)) (.upload (.buffer bdata')) dels [] := by
  obtain ⟨buf, hbuf, h⟩ := Option.map_eq_some_iff.1 h
  cases h
  refine ⟨bufferPaths mpoint buf, rfl, .buffers ?_ (by simp) fun buf' hbuf' => ?_⟩
  · exact fun p hp => ⟨buf, List.mem_of_find?_eq_some hbuf, hp⟩
  · refine (mem_erase_or_eq buf hbuf').imp_right ?_
    rintro rfl p hp
    exact hp

end Changes

theorem mountStep_change {routes routes' : Routes} {fsdata fsdata' : Fsdata} {e : MountEvent}
    (h : mountStep L mpoint routes fsdata e = some (fsdata', routes')) :
    ∃ dels adds, routes' = (routes.delAll dels).setAll adds
      ∧ RouteChange mpoint fsdata fsdata' dels adds := by
  unfold mountStep at h
  split at h
  · obtain ⟨routes₁, h₁, h⟩ := Option.map_eq_some_iff.1 h
    cases h
    exact ⟨_, _, etblChanged_eq h₁, etblChanged_change⟩
  · cases h
    exact callCreate_change rfl
  · obtain ⟨nd', h₁, h⟩ := Option.map_eq_some_iff.1 h
    cases h
    exact ⟨[], [], rfl, callReadout_change h₁⟩
  · obtain ⟨⟨nd', routes₁⟩, h₁, h⟩ := Option.map_eq_some_iff.1 h
    cases h
    obtain ⟨dels, hroutes, hc⟩ := callDelete_change h₁
    exact ⟨dels, [], hroutes, hc⟩
  · cases h
    obtain ⟨adds, hroutes, hc⟩ := handleData_change rfl
    exact ⟨[], adds, hroutes, hc⟩
  · obtain ⟨⟨bdata', routes₁⟩, h₁, h⟩ := Option.map_eq_some_iff.1 h
    cases h
    obtain ⟨dels, hroutes, hc⟩ := drop_change h₁
    exact ⟨dels, [], hroutes, hc⟩
  · cases h

/-- What a mount function does to the routes: it puts up paths that are the filesystem's own once
it is mounted, among them those it will leave. -/
structure RouteMount (mpoint : Mpoint) (fsdata : Option Fsdata) (adds : List (Bytes × Handler)) :
    Prop where
  owner : ∀ e ∈ adds, e.2.arg.owner = mpoint.id
  own : ∀ d, fsdata = some d → ∀ e ∈ adds, e.1 ∈ d.paths mpoint
  left : ∀ d, fsdata = some d → ∀ p ∈ d.leftPaths mpoint, p ∈ adds.map Prod.fst

theorem RouteMount.nil {fsdata : Option Fsdata}
    (h : ∀ d, fsdata = some d → d.leftPaths mpoint = []) : RouteMount mpoint fsdata [] :=
  ⟨by simp, by simp, fun d hd p hp => by simp [h d hd] at hp⟩

theorem bufferInit_eq {s : Server} {opts : MountOpts} {routes : Routes}
    (h : bufferInit mpoint s opts = some routes) :
    routes = ahttpdAddPath mpoint s.routes (lit "/") .rqListBuffers (.fsdata mpoint.id) := by
  simp only [bufferInit, Option.bind_eq_bind, Option.bind_eq_some_iff] at h
  obtain ⟨owner, -, mp, -, h⟩ := h
  split at h
  · exact (Option.some.inj h).symm
  · cases h

/-- The routes the `init` of a module puts up. -/
def UploadMod.initRoutes (mpoint : Mpoint) : UploadMod → List (Bytes × Handler)
  | .buffer _ => [(mpoint.mountpoint ++ lit "/", ⟨.rqListBuffers, .fsdata mpoint.id⟩)]
  | _ => []

theorem init_eq {s : Server} {opts : MountOpts} {libs : MountLibs} {mod : UploadMod}
    {routes : Routes} (h : mod.init mpoint s opts libs = some routes) :
    routes = s.routes.setAll (mod.initRoutes mpoint) := by
  unfold UploadMod.init at h
  split at h
  · exact (Option.some.inj h).symm
  · split_ifs at h
    exact (Option.some.inj h).symm
  · split_ifs at h
    exact bufferInit_eq h

theorem upMount_change {s : Server} {opts : MountOpts} {libs : MountLibs} {fsdata : Option Fsdata}
    {routes : Routes} (h : upMount mpoint s opts libs = some (fsdata, routes)) :
    ∃ adds, routes = s.routes.setAll adds ∧ RouteMount mpoint fsdata adds := by
  obtain ⟨modname, -, h⟩ := Option.map_eq_some_iff.1 h
  have hinit : ∀ mod : UploadMod, ∀ e ∈ mod.initRoutes mpoint,
      e.1 ∈ (Fsdata.upload mod).paths mpoint ∧ e.2.arg.owner = mpoint.id := by
    rintro (_ | _ | bdata) e he
    · cases he
    · cases he
    · obtain rfl := List.mem_singleton.1 he
      exact ⟨buffer_paths_iff.2 (.inl (by simp [below])), rfl⟩
  split at h
  · cases h
    exact ⟨[], rfl, .nil (by simp)⟩
  rename_i mod hmod
  split at h
  · cases h
    exact ⟨[], rfl, .nil (by simp)⟩
  rename_i routes₁ h₁
  split_ifs at h
  · cases h
    refine ⟨mod.initRoutes mpoint ++ [(mpoint.mountpoint ++ lit "/post",
      ⟨.upload, .mpoint mpoint.id⟩)], ?_, fun e he => ?_, ?_, ?_⟩
    · rw [init_eq h₁, setAll_append]
      rfl
    · rcases List.mem_append.1 he with he | he
      · exact (hinit mod e he).2
      · obtain rfl := List.mem_singleton.1 he
        rfl
    · rintro _ ⟨⟩ e he
      rcases List.mem_append.1 he with he | he
      · exact (hinit mod e he).1
      · obtain rfl := List.mem_singleton.1 he
        rcases mod with _ | _ | bdata <;> simp [Fsdata.paths, below]
    · rintro _ ⟨⟩ p hp
      rcases mod with _ | _ | bdata
      · cases hp
      · cases hp
      · simpa [Fsdata.leftPaths, below, UploadMod.initRoutes] using Or.inl hp
  · cases h
    exact ⟨mod.initRoutes mpoint, init_eq h₁, fun e he => (hinit mod e he).2, by simp, by simp⟩

theorem fsMount_change {s : Server} {opts : MountOpts} {libs : MountLibs} {type : Bytes}
    {fsdata : Option Fsdata} {routes : Routes}
    (h : fsMount mpoint s opts libs type = some (fsdata, routes)) :
    ∃ adds, routes = s.routes.setAll adds ∧ RouteMount mpoint fsdata adds := by
  unfold fsMount at h
  by_cases hcontrol : type = lit "control"
  · rw [if_pos hcontrol] at h
    cases h
    refine ⟨[(mpoint.mountpoint ++ lit "/version", ⟨.version, .mpoint mpoint.id⟩),
      (mpoint.mountpoint ++ lit "/fstab", ⟨.fstab, .mpoint mpoint.id⟩),
      (mpoint.mountpoint ++ lit "/terminate", ⟨.terminate, .mpoint mpoint.id⟩)], rfl, ?_, ?_, ?_⟩
    · simp [CbArg.owner]
    · rintro _ ⟨⟩
      simp [Fsdata.paths, below]
    · rintro _ ⟨⟩
      simp [Fsdata.leftPaths, below]
  rw [if_neg hcontrol] at h
  by_cases hstatic : type = lit "static"
  · rw [if_pos hstatic] at h
    split at h
    · cases h
      exact ⟨[], rfl, .nil (by rintro _ ⟨⟩; rfl)⟩
    · cases h
  rw [if_neg hstatic] at h
  by_cases hnode : type = lit "node"
  · rw [if_pos hnode] at h
    split at h
    · split at h
      · cases h
        refine ⟨[(mpoint.mountpoint ++ lit "/exports", ⟨.exports, .fsdata mpoint.id⟩),
          (mpoint.mountpoint ++ lit "/events", ⟨.events, .fsdata mpoint.id⟩),
          (mpoint.mountpoint ++ lit "/status", ⟨.status, .fsdata mpoint.id⟩)], rfl, ?_, ?_, ?_⟩
        · simp [CbArg.owner]
        · rintro _ ⟨⟩
          simp [Fsdata.paths, below]
        · rintro _ ⟨⟩
          simp [Fsdata.leftPaths]
      · cases h
        exact ⟨[], rfl, .nil (by simp)⟩
    · cases h
      exact ⟨[], rfl, .nil (by simp)⟩
  rw [if_neg hnode] at h
  by_cases hupload : type = lit "upload"
  · rw [if_pos hupload] at h
    exact upMount_change h
  · rw [if_neg hupload] at h
    cases h
    exact ⟨[], rfl, .nil (by simp)⟩

theorem cleanup_eq (nd : NodefsRoutes) (routes : Routes) :
    callresourceCleanup nd routes
      = routes.delAll ((nd.pendingCallList ++ nd.gcCallList).map Prod.snd) := by
  rw [List.map_append, delAll_append]
  simp only [callresourceCleanup, delAll, List.foldl_map]

/-- An unmount function takes down paths of the filesystem: all but those it leaves. -/
theorem fsUnmount_dels (routes : Routes) (fsdata : Fsdata) :
    ∃ dels, fsUnmount L mpoint routes fsdata = some (routes.delAll dels)
      ∧ (∀ p ∈ dels, p ∈ fsdata.paths mpoint)
      ∧ (fsdata.Thorough → ∀ p ∈ fsdata.paths mpoint, p ∈ dels)
      ∧ ∀ p ∈ fsdata.leftPaths mpoint, p ∉ dels := by
  rcases fsdata with _ | _ | nd | mod
  · refine ⟨below mpoint [lit "/version", lit "/fstab"], rfl, ?_, fun ht => absurd rfl ht.1, ?_⟩
    · simp [Fsdata.paths, below]
    · simp [Fsdata.leftPaths, below, lit]
  · exact ⟨[], rfl, by simp, by simp [Fsdata.paths], by simp [Fsdata.leftPaths]⟩
  · refine ⟨(nd.pendingCallList ++ nd.gcCallList).map Prod.snd
      ++ (below mpoint [lit "/exports", lit "/events", lit "/status"]
        ++ objectPaths mpoint (tableObjects nd.tbl)), ?_, ?_, ?_, by simp [Fsdata.leftPaths]⟩
    · rw [delAll_append, ← cleanup_eq, delAll_append]
      exact etblChanged_none (L := L) _ _
    · intro p hp
      rw [List.mem_append, List.mem_append, List.mem_map] at hp
      rcases hp with hp | hp | hp
      · exact node_paths_iff.2 (.inr (.inr hp))
      · exact node_paths_iff.2 (.inl hp)
      · exact node_paths_iff.2 (.inr (.inl hp))
    · intro _ p hp
      rw [List.mem_append, List.mem_append, List.mem_map]
      rcases node_paths_iff.1 hp with hp | hp | hp
      · exact .inr (.inl hp)
      · exact .inr (.inr hp)
      · exact .inl hp
  · refine ⟨below mpoint [lit "/post"], ?_, ?_, ?_, ?_⟩
    · rcases mod with _ | _ | bdata <;> rfl
    · rcases mod with _ | _ | bdata <;> simp [Fsdata.paths, below]
    · rcases mod with _ | _ | bdata
      · exact fun _ p hp => hp
      · exact fun _ p hp => hp
      · exact fun ht => absurd rfl (ht.2 bdata)
    · rcases mod with _ | _ | bdata <;> simp [Fsdata.leftPaths, below, lit]

/-- A path that a mounted filesystem has registered is no other mountpoint's: no other mounted one
has registered it, and a route there is its own. -/
def NoSharedPath (s : Server) : Prop :=
  ∀ m ∈ s.mountpoints, ∀ p ∈ m.paths,
    (∀ m' ∈ s.mountpoints, p ∈ m'.paths → m'.mpoint.id = m.mpoint.id)
      ∧ ∀ h, s.routes.find p = some h → h.arg.owner = m.mpoint.id

/-- The same, with each path compared. -/
theorem noSharedPath_iff (s : Server) : (∀ m ∈ s.mountpoints, ∀ p ∈ m.paths,
    (∀ m' ∈ s.mountpoints, ∀ q ∈ m'.paths, q = p → m'.mpoint.id = m.mpoint.id)
      ∧ ∀ h ∈ s.routes.find p, h.arg.owner = m.mpoint.id) ↔ NoSharedPath s := by
  have hmem : ∀ (m m' : Mount) (p : Bytes), (∀ q ∈ m'.paths, q = p → m'.mpoint.id = m.mpoint.id)
      ↔ (p ∈ m'.paths → m'.mpoint.id = m.mpoint.id) := fun m m' p =>
    ⟨fun h hp => h p hp rfl, fun h q hq he => h (he ▸ hq)⟩
  simp only [hmem, NoSharedPath, Option.mem_def]

instance (s : Server) : Decidable (NoSharedPath s) :=
  decidable_of_iff (∀ m ∈ s.mountpoints, ∀ p ∈ m.paths,
    (∀ m' ∈ s.mountpoints, ∀ q ∈ m'.paths, q = p → m'.mpoint.id = m.mpoint.id)
      ∧ ∀ h ∈ s.routes.find p, h.arg.owner = m.mpoint.id) (noSharedPath_iff s)

/-- Unmounting removes the routes of the mountpoint and leaves the others as they are. -/
def UnmountsOwn (L : NodeLibs) (s : Server) (m : Mount) : Prop :=
  ∃ s', ahttpdUnmount L s m = some s'
    ∧ ∀ p h, s'.routes.find p = some h
      ↔ s.routes.find p = some h ∧ h.arg.owner ≠ m.mpoint.id

/-- The routes of a mounted filesystem are at its paths, and those its unmount function leaves are
there. -/
structure Routed (s : Server) : Prop where
  ids : (s.mountpoints.map (·.mpoint.id)).Nodup
  ids_lt : ∀ m ∈ s.mountpoints, m.mpoint.id < s.next
  owners_lt : ∀ p h, s.routes.find p = some h → h.arg.owner < s.next
  own : ∀ p h, s.routes.find p = some h → ∀ m ∈ s.mountpoints, h.arg.owner = m.mpoint.id →
    p ∈ m.paths
  left : ∀ m ∈ s.mountpoints, ∀ p ∈ m.fsdata.leftPaths m.mpoint, ∃ h,
    s.routes.find p = some h ∧ h.arg.owner = m.mpoint.id

theorem Routed.init : Routed {} := by
  constructor <;> simp [find, empty]

theorem leftPaths_subset (fsdata : Fsdata) : ∀ p ∈ fsdata.leftPaths mpoint,
    p ∈ fsdata.paths mpoint := by
  rcases fsdata with _ | _ | nd | _ | _ | bdata <;> simp [Fsdata.leftPaths, Fsdata.paths, below]

theorem Routed.inj {s : Server} (h : Routed s) {m m' : Mount} (hm : m ∈ s.mountpoints)
    (hm' : m' ∈ s.mountpoints) (he : m.mpoint.id = m'.mpoint.id) : m = m' :=
  List.inj_on_of_nodup_map h.ids hm hm' he

theorem Routed.mount {s s' : Server} {opts : MountOpts} {libs : MountLibs} (h : Routed s)
    (hd : NoSharedPath s') (hs : ahttpdMount s opts libs = some s') : Routed s' := by
  simp only [ahttpdMount, Option.bind_eq_bind, Option.bind_eq_some_iff] at hs
  obtain ⟨mp, -, tp, -, ⟨fsdata, routes⟩, hmount, hs⟩ := hs
  obtain ⟨adds, hroutes, hadds⟩ := fsMount_change hmount
  cases hs
  have hnew : ∀ m ∈ s.mountpoints ++ (fsdata.map (Mount.mk ⟨s.next, mp⟩)).toList,
      m ∈ s.mountpoints ∨ ∃ d, fsdata = some d ∧ m = ⟨⟨s.next, mp⟩, d⟩ := by
    intro m hm
    rcases fsdata with _ | d
    · exact .inl (by simpa using hm)
    · exact (List.mem_append.1 hm).imp_right fun hm => ⟨d, rfl, List.mem_singleton.1 hm⟩
  have hfind : ∀ p h', routes.find p = some h' → s.routes.find p = some h' ∨ (p, h') ∈ adds := by
    intro p h' hp
    rw [hroutes] at hp
    exact find_setAll_cases hp
  refine ⟨?_, fun m hm => ?_, fun p h' hp => ?_, fun p h' hp m hm he => ?_, fun m hm p hp => ?_⟩
  · rcases fsdata with _ | d
    · simpa using h.ids
    · rw [List.map_append, List.nodup_append]
      refine ⟨h.ids, by simp, ?_⟩
      rintro a ha b hb rfl
      obtain ⟨m, hm, rfl⟩ := List.mem_map.1 ha
      have hb : m.mpoint.id = s.next := by simpa using hb
      exact (h.ids_lt m hm).ne hb
  · rcases hnew m hm with hm | ⟨d, -, rfl⟩
    · exact (h.ids_lt m hm).trans (Nat.lt_succ_self _)
    · exact Nat.lt_succ_self _
  · rcases hfind p h' hp with hp | hp
    · exact (h.owners_lt p h' hp).trans (Nat.lt_succ_self _)
    · exact (hadds.owner _ hp).symm ▸ Nat.lt_succ_self _
  · rcases hfind p h' hp with hp | hp
    · rcases hnew m hm with hm | ⟨d, -, rfl⟩
      · exact h.own p h' hp m hm he
      · exact absurd (he ▸ h.owners_lt p h' hp) (Nat.lt_irrefl _)
    · rcases hnew m hm with hm | ⟨d, hfd, rfl⟩
      · exact absurd (he.symm.trans (hadds.owner _ hp)) (h.ids_lt m hm).ne
      · exact hadds.own d hfd _ hp
  · have hself : ∃ h', routes.find p = some h' := by
      rw [hroutes]
      rcases hnew m hm with hm | ⟨d, hfd, rfl⟩
      · obtain ⟨h', hp', -⟩ := h.left m hm p hp
        exact ⟨h', find_setAll_of_some adds hp'⟩
      · exact find_setAll_self _ (hadds.left d hfd p hp)
    obtain ⟨h', hp'⟩ := hself
    exact ⟨h', hp', (hd m hm p (leftPaths_subset m.fsdata p hp)).2 h' hp'⟩

theorem Routed.at {s s' : Server} {mp : MpId} {e : MountEvent} (h : Routed s)
    (hd : NoSharedPath s) (hs : serverStep L s (.at mp e) = some s') : Routed s' := by
  simp only [serverStep, Option.bind_eq_bind, Option.bind_eq_some_iff] at hs
  obtain ⟨m, hfind, ⟨fsdata, routes⟩, hstep, hs⟩ := hs
  have hm : m ∈ s.mountpoints := List.mem_of_find?_eq_some hfind
  obtain rfl : m.mpoint.id = mp := by simpa using List.find?_some hfind
  obtain ⟨dels, adds, hroutes, hc⟩ := mountStep_change hstep
  cases hs
  have hmem : ∀ m₁ ∈ s.mountpoints.map fun m' =>
      if m'.mpoint.id = m.mpoint.id then { m' with fsdata := fsdata } else m',
      m₁ ∈ s.mountpoints ∧ m₁.mpoint.id ≠ m.mpoint.id ∨ m₁ = { m with fsdata := fsdata } := by
    intro m₁ hm₁
    obtain ⟨m', hm', rfl⟩ := List.mem_map.1 hm₁
    by_cases he : m'.mpoint.id = m.mpoint.id
    · obtain rfl := h.inj hm' hm he
      exact .inr (if_pos rfl)
    · rw [if_neg he]
      exact .inl ⟨hm', he⟩
  have hold : ∀ p h', routes.find p = some h' →
      p ∉ dels ∧ s.routes.find p = some h' ∨ (p, h') ∈ adds := by
    intro p h' hp
    rw [hroutes] at hp
    refine (find_setAll_cases hp).imp_left fun hp => ?_
    rw [find_delAll] at hp
    split_ifs at hp with hdel
    exact ⟨hdel, hp⟩
  have hkeep : ∀ p h', p ∉ dels → s.routes.find p = some h' → routes.find p = some h' := by
    intro p h' hdel hp
    rw [hroutes]
    exact find_setAll_of_some _ (by rw [find_delAll, if_neg hdel, hp])
  refine ⟨?_, fun m₁ hm₁ => ?_, fun p h' hp => ?_, fun p h' hp m₁ hm₁ he => ?_,
    fun m₁ hm₁ p hp => ?_⟩
  · rw [List.map_map]
    convert h.ids using 2
    funext m'
    show (if _ then _ else m' : Mount).mpoint.id = _
    split_ifs <;> rfl
  · rcases hmem m₁ hm₁ with ⟨hm₁, -⟩ | rfl
    · exact h.ids_lt m₁ hm₁
    · exact h.ids_lt m hm
  · rcases hold p h' hp with ⟨-, hp⟩ | hp
    · exact h.owners_lt p h' hp
    · exact ((hc.adds_own _ hp).2).symm ▸ h.ids_lt m hm
  · rcases hold p h' hp with ⟨hdel, hp⟩ | hp
    · rcases hmem m₁ hm₁ with ⟨hm₁, -⟩ | rfl
      · exact h.own p h' hp m₁ hm₁ he
      · exact (hc.paths p (h.own p h' hp m hm he)).resolve_right hdel
    · rcases hmem m₁ hm₁ with ⟨hm₁, hne⟩ | rfl
      · exact absurd (he.symm.trans (hc.adds_own _ hp).2) hne
      · exact (hc.adds_own _ hp).1
  · rcases hmem m₁ hm₁ with ⟨hm₁, hne⟩ | rfl
    · obtain ⟨h', hp', ho⟩ := h.left m₁ hm₁ p hp
      refine ⟨h', hkeep p h' (fun hdel => ?_) hp', ho⟩
      exact hne (ho.symm.trans ((hd m hm p (hc.dels_own p hdel)).2 h' hp'))
    · have hp : p ∈ m.fsdata.leftPaths m.mpoint := hc.left ▸ hp
      obtain ⟨h', hp', ho⟩ := h.left m hm p hp
      exact ⟨h', hkeep p h' (hc.left_kept p hp) hp', ho⟩

/-- What `ahttpd_unmount` leaves: the mountpoint is gone, and so are those of its paths that the
filesystem takes down. -/
theorem ahttpdUnmount_dels (s : Server) (m : Mount) :
    ∃ dels, ahttpdUnmount L s m = some
        { s with routes := s.routes.delAll dels
                 mountpoints := s.mountpoints.filter (·.mpoint.id ≠ m.mpoint.id) }
      ∧ (∀ p ∈ dels, p ∈ m.paths) ∧ (m.fsdata.Thorough → ∀ p ∈ m.paths, p ∈ dels)
      ∧ ∀ p ∈ m.fsdata.leftPaths m.mpoint, p ∉ dels := by
  obtain ⟨dels, hdels, h⟩ := @fsUnmount_dels m.mpoint L s.routes m.fsdata
  exact ⟨dels, by rw [ahttpdUnmount, hdels]; rfl, h⟩

theorem Routed.unmount {s s' : Server} {mp : MpId} (h : Routed s) (hd : NoSharedPath s)
    (hs : serverStep L s (.unmount mp) = some s') : Routed s' := by
  simp only [serverStep, Option.bind_eq_bind, Option.bind_eq_some_iff] at hs
  obtain ⟨m, hfind, hs⟩ := hs
  have hm : m ∈ s.mountpoints := List.mem_of_find?_eq_some hfind
  obtain ⟨dels, hunmount, hown, -, -⟩ := ahttpdUnmount_dels (L := L) s m
  rw [hunmount] at hs
  cases hs
  have hmem : ∀ m₁ ∈ s.mountpoints.filter (·.mpoint.id ≠ m.mpoint.id),
      m₁ ∈ s.mountpoints ∧ m₁.mpoint.id ≠ m.mpoint.id := by
    intro m₁ hm₁
    simpa using hm₁
  have hfind' : ∀ p h', (s.routes.delAll dels).find p = some h' → s.routes.find p = some h' := by
    intro p h' hp
    rw [find_delAll] at hp
    split_ifs at hp
    exact hp
  refine ⟨h.ids.sublist (List.filter_sublist.map _), fun m₁ hm₁ => h.ids_lt m₁ (hmem m₁ hm₁).1,
    fun p h' hp => h.owners_lt p h' (hfind' p h' hp),
    fun p h' hp m₁ hm₁ he => h.own p h' (hfind' p h' hp) m₁ (hmem m₁ hm₁).1 he,
    fun m₁ hm₁ p hp => ?_⟩
  obtain ⟨hm₁, hne⟩ := hmem m₁ hm₁
  obtain ⟨h', hp', ho⟩ := h.left m₁ hm₁ p hp
  have hdel : p ∉ dels := fun hdel =>
    hne (ho.symm.trans ((hd m hm p (hown p hdel)).2 h' hp'))
  exact ⟨h', by rw [find_delAll, if_neg hdel, hp'], ho⟩

theorem Routed.step {s s' : Server} {e : ServerEvent} (h : Routed s) (hd : NoSharedPath s)
    (hd' : NoSharedPath s') (hs : serverStep L s e = some s') : Routed s' := by
  cases e with
  | mount opts libs => exact h.mount hd' hs
  | «at» mp e => exact h.at hd hs
  | unmount mp => exact h.unmount hd hs

theorem unmountsOwn_iff {s : Server} {m : Mount} (h : Routed s) (hd : NoSharedPath s)
    (hm : m ∈ s.mountpoints) : UnmountsOwn L s m ↔ m.fsdata.Thorough := by
  obtain ⟨dels, hunmount, hown, hall, hleft⟩ := ahttpdUnmount_dels (L := L) s m
  constructor
  · rintro ⟨s', hs', hiff⟩
    obtain rfl := Option.some.inj (hunmount.symm.trans hs')
    by_contra ht
    have hne : ∃ p, p ∈ m.fsdata.leftPaths m.mpoint := by
      rcases hf : m.fsdata with _ | _ | nd | _ | _ | bdata
      · exact ⟨_, List.mem_singleton_self _⟩
      · exact absurd ⟨by simp [hf], by simp [hf]⟩ ht
      · exact absurd ⟨by simp [hf], by simp [hf]⟩ ht
      · exact absurd ⟨by simp [hf], by simp [hf]⟩ ht
      · exact absurd ⟨by simp [hf], by simp [hf]⟩ ht
      · exact ⟨_, List.mem_singleton_self _⟩
    obtain ⟨p, hp⟩ := hne
    obtain ⟨h', hp', ho⟩ := h.left m hm p hp
    have hstill : (s.routes.delAll dels).find p = some h' := by
      rw [find_delAll, if_neg (hleft p hp), hp']
    exact ((hiff p h').1 hstill).2 ho
  · intro ht
    refine ⟨_, hunmount, fun p h' => ?_⟩
    show (s.routes.delAll dels).find p = some h' ↔ _
    rw [find_delAll]
    constructor
    · intro hp
      split_ifs at hp with hdel
      exact ⟨hp, fun ho => hdel (hall ht p (h.own p h' hp m hm ho))⟩
    · rintro ⟨hp, hne⟩
      rw [if_neg, hp]
      exact fun hdel => hne ((hd m hm p (hown p hdel)).2 h' hp)

theorem routed_of_run (L : NodeLibs) (es : List ServerEvent) (s : Server)
    (hd : ∀ es₁ s₁, es₁ <+: es → run (serverStep L) {} es₁ = some s₁ → NoSharedPath s₁)
    (h : run (serverStep L) {} es = some s) : Routed s := by
  have halong : Along (serverStep L)
      (fun s e => NoSharedPath s ∧ ∀ s', serverStep L s e = some s' → NoSharedPath s') {} es := by
    refine along_of_prefix fun es₁ e t hpre ht => ⟨hd es₁ t ?_ ht, fun s' hs' => ?_⟩
    · exact (List.prefix_append _ _).trans hpre
    · refine hd (es₁ ++ [e]) s' hpre ?_
      rw [run_append, ht]
      simp [run, hs']
  exact run_inv (I := Routed) (fun s e s' hI hC hs => hI.step hC.1 (hC.2 s' hs) hs) es .init
    halong h

/-- In a run in which no two mountpoints register the same path, unmounting a mountpoint removes
its own routes and no others exactly when it is neither a control filesystem nor an upload
mountpoint in the mode `buffer`. -/
theorem unmount_own_iff (L : NodeLibs) (es : List ServerEvent) (s : Server) (m : Mount)
    (hd : ∀ es₁ s₁, es₁ <+: es → run (serverStep L) {} es₁ = some s₁ → NoSharedPath s₁)
    (h : run (serverStep L) {} es = some s) (hm : m ∈ s.mountpoints) :
    UnmountsOwn L s m ↔ m.fsdata ≠ .control ∧ ∀ bdata, m.fsdata ≠ .upload (.buffer bdata) :=
  unmountsOwn_iff (routed_of_run L es s hd h) (hd es s (List.prefix_refl _) h) hm

/-- A control filesystem, a node with a call under way, and an upload mountpoint that stored a
buffer. -/
def threeMountsRun : List ServerEvent :=
  [.mount { type := some (lit "control"), mountpoint := some (lit "/control") } {},
    .mount { type := some (lit "node"), mountpoint := some (lit "/online"),
             transport := some (lit "usb"), options := some (lit "1d50:6032") } {},
    .at 1 (.etblChanged (some pingTable)), .at 1 (.callCreate true),
    .mount { type := some (lit "upload"), mountpoint := some (lit "/upload"),
             mode := some (lit "buffer"), owner := some (lit "/online") } {},
    .at 2 (.handleData true)]

theorem threeMountsRun_noSharedPath (es₁ : List ServerEvent) (s₁ : Server)
    (hpre : es₁ <+: threeMountsRun) (h : run (serverStep .plain) {} es₁ = some s₁) :
    NoSharedPath s₁ := by
  have hmem : es₁ ∈ threeMountsRun.inits := (List.mem_inits _ _).2 hpre
  simp only [threeMountsRun, List.inits, List.map_cons, List.map_nil, List.mem_cons,
    List.not_mem_nil, or_false] at hmem
  rcases hmem with rfl | rfl | rfl | rfl | rfl | rfl | rfl <;>
    · cases h
      decide +kernel

theorem unmount_own_threeMountsRun :
    ∃ s m, run (serverStep .plain) {} threeMountsRun = some s ∧ m ∈ s.mountpoints
      ∧ m.mpoint.mountpoint = lit "/online" ∧ UnmountsOwn .plain s m := by
  refine ⟨_, _, rfl, List.mem_cons_of_mem _ List.mem_cons_self, rfl, ?_⟩
  exact (unmount_own_iff .plain threeMountsRun _ _ threeMountsRun_noSharedPath rfl
    (List.mem_cons_of_mem _ List.mem_cons_self)).2 ⟨by simp, by simp⟩

theorem threeMountsRun_leaves_terminate :
    ¬ ∀ (L : NodeLibs) (es : List ServerEvent) (s : Server) (m : Mount),
      (∀ es₁ s₁, es₁ <+: es → run (serverStep L) {} es₁ = some s₁ → NoSharedPath s₁) →
      run (serverStep L) {} es = some s → m ∈ s.mountpoints → UnmountsOwn L s m := by
  intro h
  obtain ⟨s', hs', hiff⟩ := h .plain threeMountsRun _ _ threeMountsRun_noSharedPath rfl
    List.mem_cons_self
  cases hs'
  have hstill := hiff (lit "/control/terminate") ⟨.terminate, .mpoint 0⟩
  exact (hstill.1 (by decide +kernel)).2 rfl

end AuraHttpd
