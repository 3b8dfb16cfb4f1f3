import AuraHttpd.Proofs.Unmount

/-!
# Mountpoints do not disturb each other

All paths of a mountpoint are below it, so where no mountpoint stands below another one
(`Separate`) what happens at one concerns no other: its data and its routes are what its own events
make of them (`mountpoint_isolated`).  An event of its own finds the same routes below the
mountpoint and leaves the same ones (`Alike`); an event of another mountpoint changes none of them.
-/

namespace AuraHttpd

open CString StepSystem RouteTable

variable {L : NodeLibs} {mpoint : Mpoint}

/-- The path stands below the mountpoint. -/
def IsBelow (mountpoint p : Bytes) : Prop := mountpoint ++ [47] <+: p

/-- Neither of the mountpoints is, or stands below, the other. -/
def Separate (a b : Bytes) : Prop := ¬ IsBelow a (b ++ [47]) ∧ ¬ IsBelow b (a ++ [47])

instance (a b : Bytes) : Decidable (Separate a b) := by
  unfold Separate IsBelow
  infer_instance

/-- Below the mountpoint both tables have the same routes. -/
def Alike (mountpoint : Bytes) (routes routes' : Routes) : Prop :=
  ∀ p, IsBelow mountpoint p → routes.find p = routes'.find p

theorem Separate.not_below {a b p : Bytes} (h : Separate a b) (ha : IsBelow a p) :
    ¬ IsBelow b p := fun hb => by
  rcases List.prefix_or_prefix_of_prefix ha hb with hpre | hpre
  · exact h.1 hpre
  · exact h.2 hpre

theorem isBelow_append (m p : Bytes) : IsBelow m (m ++ 47 :: p) :=
  ⟨p, by simp⟩

section Tables

variable {m : Bytes} {routes routes' : Routes}

theorem Alike.change (h : Alike m routes routes') (dels : List Bytes)
    (adds : List (Bytes × Handler)) :
    Alike m ((routes.delAll dels).setAll adds) ((routes'.delAll dels).setAll adds) := by
  intro p hp
  rw [find_setAll, find_setAll, find_delAll, find_delAll, h p hp]

/-- Paths that are not below the mountpoint are no matter to it. -/
theorem Alike.change_left (h : Alike m routes routes') {dels : List Bytes}
    {adds : List (Bytes × Handler)} (hdels : ∀ p ∈ dels, ¬ IsBelow m p)
    (hadds : ∀ e ∈ adds, ¬ IsBelow m e.1) : Alike m ((routes.delAll dels).setAll adds) routes' := by
  intro p hp
  have hno : adds.find? (·.1 = p) = none :=
    List.find?_eq_none.2 fun e he hep => hadds e he (by simpa [show e.1 = p by simpa using hep])
  rw [find_setAll, find_delAll, if_neg fun hpd => hdels p hpd hp, hno, h p hp]
  simp

end Tables

section Changes

/-- Whether a new table is taken does not depend on the routes. -/
theorem etblChanged_uniform (L : NodeLibs) (mpoint : Mpoint) (old new : Option ExportTable) :
    (∀ routes, etblChanged L mpoint routes old new = none)
      ∨ ∀ routes, etblChanged L mpoint routes old new
        = some ((routes.delAll (objectPaths mpoint (tableObjects old))).setAll
          (objectRoutes mpoint (tableObjects new))) := by
  rcases new with _ | tbl
  · exact .inr fun routes => etblChanged_none routes old
  rcases hentries : tbl.objects.mapM (objectToJson L) with _ | entries
  · refine .inl fun routes => ?_
    simp [etblChanged, etblChangedCb, etableCreateCallpaths, hentries]
  · refine .inr fun routes => ?_
    have hsome : ∃ routes', etblChanged L mpoint routes old (some tbl) = some routes' := by
      simp [etblChanged, etblChangedCb, etableCreateCallpaths, hentries]
    obtain ⟨routes', h⟩ := hsome
    rw [h, etblChanged_eq h]

/-- An event at a mountpoint does the same to every table of routes. -/
theorem mountStep_uniform (L : NodeLibs) (mpoint : Mpoint) (fsdata : Fsdata) (e : MountEvent) :
    ∃ o : Option (Fsdata × List Bytes × List (Bytes × Handler)), ∀ routes,
      mountStep L mpoint routes fsdata e
        = o.map fun x => (x.1, (routes.delAll x.2.1).setAll x.2.2) := by
  have hnone : (∀ routes, mountStep L mpoint routes fsdata e = none) →
      ∃ o : Option (Fsdata × List Bytes × List (Bytes × Handler)), ∀ routes,
        mountStep L mpoint routes fsdata e
          = o.map fun x => (x.1, (routes.delAll x.2.1).setAll x.2.2) := fun h => ⟨none, h⟩
  rcases fsdata with _ | _ | nd | _ | _ | bdata
  · exact hnone fun _ => by cases e <;> rfl
  · exact hnone fun _ => by cases e <;> rfl
  · cases e with
    | etblChanged new =>
      rcases etblChanged_uniform L mpoint nd.tbl new with h | h
      · exact hnone fun routes => by simp [mountStep, h]
      · exact ⟨some (.node { nd with tbl := new }, objectPaths mpoint (tableObjects nd.tbl),
          objectRoutes mpoint (tableObjects new)), fun routes => by simp [mountStep, h]⟩
    | callCreate started =>
      cases started
      · exact ⟨some (_, [], []), fun routes => rfl⟩
      · exact ⟨some (_, [], [(_, _)]), fun routes => rfl⟩
    | callReadout r =>
      rcases h : nd.callReadout r with _ | nd'
      · exact hnone fun routes => by simp [mountStep, h]
      · exact ⟨some (.node nd', [], []), fun routes => by simp [mountStep, h, delAll, setAll]⟩
    | callDelete r =>
      rcases h : nd.lookup r with _ | res
      · exact hnone fun routes => by simp [mountStep, NodefsRoutes.callDelete, h]
      · exact ⟨some (.node (nd.listDel res), [res.2], []), fun routes => by
          simp [mountStep, NodefsRoutes.callDelete, h, delAll, setAll]⟩
    | _ => exact hnone fun _ => rfl
  · exact hnone fun _ => by cases e <;> rfl
  · exact hnone fun _ => by cases e <;> rfl
  · cases e with
    | handleData stored =>
      cases stored
      · exact ⟨some (_, [], []), fun routes => rfl⟩
      · exact ⟨some (_, [], bufferRoutes mpoint (bdata.next, bdata.currentId)), fun routes => rfl⟩
    | drop r =>
      rcases h : bdata.buffers.find? (·.1 = r) with _ | buf
      · exact hnone fun routes => by simp [mountStep, BufmodRoutes.drop, h]
      · exact ⟨some (.upload (.buffer { bdata with buffers := bdata.buffers.erase buf }),
          bufferPaths mpoint buf, []), fun routes => by
            simp [mountStep, BufmodRoutes.drop, h, delAll, setAll, bufferPaths, ahttpdDelPath]⟩
    | _ => exact hnone fun _ => rfl

theorem fsUnmount_uniform (L : NodeLibs) (mpoint : Mpoint) (fsdata : Fsdata) :
    ∃ dels, ∀ routes, fsUnmount L mpoint routes fsdata = some (routes.delAll dels) := by
  rcases fsdata with _ | _ | nd | mod
  · exact ⟨below mpoint [lit "/version", lit "/fstab"], fun _ => rfl⟩
  · exact ⟨[], fun _ => rfl⟩
  · refine ⟨(nd.pendingCallList ++ nd.gcCallList).map Prod.snd
      ++ (below mpoint [lit "/exports", lit "/events", lit "/status"]
        ++ objectPaths mpoint (tableObjects nd.tbl)), fun routes => ?_⟩
    rw [delAll_append, ← cleanup_eq, delAll_append]
    exact etblChanged_none (L := L) _ _
  · exact ⟨below mpoint [lit "/post"], fun _ => by rcases mod with _ | _ | bdata <;> rfl⟩

/-- The paths of a filesystem are below its mountpoint, as long as those of its calls are. -/
def PathsBelow (m : Mount) : Prop := ∀ p ∈ m.paths, IsBelow m.mpoint.mountpoint p

theorem objectPaths_below {os : List AuraObject} {p : Bytes} (h : p ∈ objectPaths mpoint os) :
    IsBelow mpoint.mountpoint p := by
  simp only [objectPaths, List.mem_flatMap, List.mem_map] at h
  obtain ⟨o, -, a, -, rfl⟩ := h
  cases a
  · exact ⟨lit "call/" ++ o.name, by simp [callPath, callBase, lit]⟩
  · exact ⟨lit "acall/" ++ o.name, by simp [callPath, callBase, lit]⟩

theorem bufferPaths_below {buf : RecId × ℤ} {p : Bytes} (h : p ∈ bufferPaths mpoint buf) :
    IsBelow mpoint.mountpoint p := by
  simp only [bufferPaths, List.mem_cons, List.not_mem_nil, or_false] at h
  rcases h with rfl | rfl
  · exact ⟨lit "download/" ++ fmtLu buf.2, by simp [lit]⟩
  · exact ⟨lit "drop/" ++ fmtLu buf.2, by simp [lit]⟩

theorem pathsBelow_node {nd : NodefsRoutes} : PathsBelow ⟨mpoint, .node nd⟩ ↔
    ∀ res ∈ nd.pendingCallList ++ nd.gcCallList, IsBelow mpoint.mountpoint res.2 := by
  refine ⟨fun h res hres => h _ (node_paths_iff.2 (.inr (.inr ⟨res, hres, rfl⟩))), fun h p hp => ?_⟩
  rcases node_paths_iff.1 hp with hp | hp | ⟨res, hres, rfl⟩
  · simp only [below, List.map_cons, List.map_nil, List.mem_cons, List.not_mem_nil, or_false] at hp
    rcases hp with rfl | rfl | rfl <;> exact isBelow_append _ _
  · exact objectPaths_below hp
  · exact h res hres

theorem pathsBelow_other {fsdata : Fsdata} (h : ∀ nd, fsdata ≠ .node nd) :
    PathsBelow ⟨mpoint, fsdata⟩ := by
  intro p hp
  rcases fsdata with _ | _ | nd | _ | _ | bdata
  · simp only [Mount.paths, Fsdata.paths, below, List.map_cons, List.map_nil, List.mem_cons,
      List.not_mem_nil, or_false] at hp
    rcases hp with rfl | rfl | rfl <;> exact isBelow_append _ _
  · cases hp
  · exact absurd rfl (h nd)
  · obtain rfl := List.mem_singleton.1 hp
    exact isBelow_append _ _
  · obtain rfl := List.mem_singleton.1 hp
    exact isBelow_append _ _
  · rcases buffer_paths_iff.1 hp with hp | ⟨buf, -, hp⟩
    · simp only [below, List.map_cons, List.map_nil, List.mem_cons, List.not_mem_nil,
        or_false] at hp
      rcases hp with rfl | rfl <;> exact isBelow_append _ _
    · exact bufferPaths_below hp

theorem PathsBelow.step {routes routes' : Routes} {fsdata fsdata' : Fsdata} {e : MountEvent}
    (h : PathsBelow ⟨mpoint, fsdata⟩)
    (hs : mountStep L mpoint routes fsdata e = some (fsdata', routes')) :
    PathsBelow ⟨mpoint, fsdata'⟩ := by
  unfold mountStep at hs
  split at hs
  · obtain ⟨routes₁, -, hs⟩ := Option.map_eq_some_iff.1 hs
    cases hs
    exact pathsBelow_node.2 fun res hres => pathsBelow_node.1 h res hres
  · rename_i nd started
    cases hs
    refine pathsBelow_node.2 fun res hres => ?_
    cases started
    · exact pathsBelow_node.1 h res hres
    · have hres : res ∈ nd.pendingCallList ++ [(nd.next, pendingPath mpoint.mountpoint nd.callid)]
          ++ nd.gcCallList := hres
      simp only [List.mem_append, List.mem_singleton] at hres
      rcases hres with (hres | rfl) | hres
      · exact pathsBelow_node.1 h res (List.mem_append_left _ hres)
      · exact ⟨lit "pending/" ++ fmtD nd.callid, by simp [pendingPath, lit]⟩
      · exact pathsBelow_node.1 h res (List.mem_append_right _ hres)
  · rename_i nd r
    obtain ⟨nd', hnd, hs⟩ := Option.map_eq_some_iff.1 hs
    cases hs
    obtain ⟨res, hres, rfl⟩ := Option.map_eq_some_iff.1 hnd
    refine pathsBelow_node.2 fun x hx => pathsBelow_node.1 h x ?_
    simp only [List.mem_append, List.mem_singleton] at hx
    rcases hx with hx | hx | rfl
    · exact List.mem_append_left _ (List.mem_of_mem_erase hx)
    · exact List.mem_append_right _ (List.mem_of_mem_erase hx)
    · exact lookup_mem hres
  · rename_i nd r
    obtain ⟨⟨nd', routes₁⟩, hnd, hs⟩ := Option.map_eq_some_iff.1 hs
    cases hs
    obtain ⟨res, hres, hnd⟩ := Option.map_eq_some_iff.1 hnd
    cases hnd
    refine pathsBelow_node.2 fun x hx => pathsBelow_node.1 h x ?_
    rcases List.mem_append.1 hx with hx | hx
    · exact List.mem_append_left _ (List.mem_of_mem_erase hx)
    · exact List.mem_append_right _ (List.mem_of_mem_erase hx)
  · cases hs
    exact pathsBelow_other (by simp)
  · obtain ⟨⟨bdata', routes₁⟩, -, hs⟩ := Option.map_eq_some_iff.1 hs
    cases hs
    exact pathsBelow_other (by simp)
  · cases hs

/-- What a mount function mounts, and what it does to the routes. -/
theorem fsMount_cases {s : Server} {opts : MountOpts} {libs : MountLibs} {type : Bytes}
    {fsdata : Option Fsdata} {routes : Routes}
    (h : fsMount mpoint s opts libs type = some (fsdata, routes)) :
    fsdata = some .control ∨ fsdata = some .static ∨ fsdata = some (.node {})
      ∨ (fsdata = none ∧ routes = s.routes)
      ∨ upMount mpoint s opts libs = some (fsdata, routes) := by
  unfold fsMount at h
  by_cases hcontrol : type = lit "control"
  · rw [if_pos hcontrol] at h
    cases h
    exact .inl rfl
  rw [if_neg hcontrol] at h
  by_cases hstatic : type = lit "static"
  · rw [if_pos hstatic] at h
    split at h
    · cases h
      exact .inr (.inl rfl)
    · cases h
  rw [if_neg hstatic] at h
  by_cases hnode : type = lit "node"
  · rw [if_pos hnode] at h
    split at h
    · split at h
      · cases h
        exact .inr (.inr (.inl rfl))
      · cases h
        exact .inr (.inr (.inr (.inl ⟨rfl, rfl⟩)))
    · cases h
      exact .inr (.inr (.inr (.inl ⟨rfl, rfl⟩)))
  rw [if_neg hnode] at h
  by_cases hupload : type = lit "upload"
  · rw [if_pos hupload] at h
    exact .inr (.inr (.inr (.inr h)))
  · rw [if_neg hupload] at h
    cases h
    exact .inr (.inr (.inr (.inl ⟨rfl, rfl⟩)))

theorem upMount_cases {s : Server} {opts : MountOpts} {libs : MountLibs} {fsdata : Option Fsdata}
    {routes : Routes} (h : upMount mpoint s opts libs = some (fsdata, routes)) :
    (∃ mod, fsdata = some (.upload mod))
      ∨ fsdata = none ∧ ∃ adds, routes = s.routes.setAll adds
        ∧ ∀ e ∈ adds, IsBelow mpoint.mountpoint e.1 := by
  obtain ⟨modname, -, h⟩ := Option.map_eq_some_iff.1 h
  split at h
  · cases h
    exact .inr ⟨rfl, [], rfl, by simp⟩
  rename_i mod hmod
  split at h
  · cases h
    exact .inr ⟨rfl, [], rfl, by simp⟩
  rename_i routes₁ h₁
  split_ifs at h
  · cases h
    exact .inl ⟨mod, rfl⟩
  cases h
  refine .inr ⟨rfl, mod.initRoutes mpoint, init_eq h₁, fun e he => ?_⟩
  rcases mod with _ | _ | bdata
  · cases he
  · cases he
  · obtain rfl := List.mem_singleton.1 he
    exact isBelow_append _ _

/-- What a mount function puts up is below the mountpoint, also where it fails. -/
theorem fsMount_adds {s : Server} {opts : MountOpts} {libs : MountLibs} {type : Bytes}
    {fsdata : Option Fsdata} {routes : Routes}
    (h : fsMount mpoint s opts libs type = some (fsdata, routes)) :
    (∃ adds, routes = s.routes.setAll adds ∧ ∀ e ∈ adds, IsBelow mpoint.mountpoint e.1)
      ∧ ∀ d, fsdata = some d → PathsBelow ⟨mpoint, d⟩ := by
  have hbelow : ∀ d, fsdata = some d → PathsBelow ⟨mpoint, d⟩ := by
    rintro d rfl
    rcases fsMount_cases h with hd | hd | hd | ⟨hd, -⟩ | hup
    · exact pathsBelow_other fun nd he => by rw [he] at hd; cases hd
    · exact pathsBelow_other fun nd he => by rw [he] at hd; cases hd
    · obtain rfl := Option.some.inj hd
      exact pathsBelow_node.2 (by simp)
    · cases hd
    · rcases upMount_cases hup with ⟨mod, hd⟩ | ⟨hd, -⟩
      · exact pathsBelow_other fun nd he => by rw [he] at hd; cases hd
      · cases hd
  refine ⟨?_, hbelow⟩
  rcases fsdata with _ | d
  · rcases fsMount_cases h with hd | hd | hd | ⟨-, rfl⟩ | hup
    · cases hd
    · cases hd
    · cases hd
    · exact ⟨[], rfl, by simp⟩
    · rcases upMount_cases hup with ⟨mod, hd⟩ | ⟨-, hadds⟩
      · cases hd
      · exact hadds
  · obtain ⟨adds, hroutes, hadds⟩ := fsMount_change h
    exact ⟨adds, hroutes, fun e he => hbelow d rfl _ (hadds.own d rfl e he)⟩

end Changes

/-- The mountpoints have numbers of their own, and their paths are below them. -/
structure WellMounted (s : Server) : Prop where
  ids : (s.mountpoints.map (·.mpoint.id)).Nodup
  ids_lt : ∀ m ∈ s.mountpoints, m.mpoint.id < s.next
  below : ∀ m ∈ s.mountpoints, PathsBelow m

section Server

variable {s s' t : Server}

/-- The mountpoints after one of them has gone on with other data. -/
def setData (mp : MpId) (fsdata : Fsdata) (m : Mount) : Mount :=
  if m.mpoint.id = mp then { m with fsdata := fsdata } else m

@[simp] theorem setData_mpoint (mp : MpId) (fsdata : Fsdata) (m : Mount) :
    (setData mp fsdata m).mpoint = m.mpoint := by
  unfold setData
  split_ifs <;> rfl

/-- What an event does to the server. -/
inductive ServerTrans (L : NodeLibs) (s : Server) : ServerEvent → Server → Prop where
  | mount {opts : MountOpts} {libs : MountLibs} {mp : Bytes} {type : Bytes}
      {fsdata : Option Fsdata} {routes : Routes} (hmp : opts.mountpoint = some mp)
      (h : fsMount ⟨s.next, mp⟩ s opts libs type = some (fsdata, routes)) :
    ServerTrans L s (.mount opts libs)
      { s with
        mountpoints := s.mountpoints ++ (fsdata.map (Mount.mk ⟨s.next, mp⟩)).toList
        routes := routes
        next := s.next + 1 }
  | at {mp : MpId} {e : MountEvent} {m : Mount} {fsdata : Fsdata} {routes : Routes}
      (hm : s.mountpoints.find? (·.mpoint.id = mp) = some m)
      (h : mountStep L m.mpoint s.routes m.fsdata e = some (fsdata, routes)) :
    ServerTrans L s (.at mp e)
      { s with routes := routes, mountpoints := s.mountpoints.map (setData mp fsdata) }
  | unmount {mp : MpId} {m : Mount} {routes : Routes}
      (hm : s.mountpoints.find? (·.mpoint.id = mp) = some m)
      (h : fsUnmount L m.mpoint s.routes m.fsdata = some routes) :
    ServerTrans L s (.unmount mp)
      { s with routes := routes, mountpoints := s.mountpoints.filter (·.mpoint.id ≠ m.mpoint.id) }

theorem serverTrans_of_step {e : ServerEvent} (h : serverStep L s e = some s') :
    ServerTrans L s e s' := by
  cases e with
  | mount opts libs =>
    simp only [serverStep, ahttpdMount, Option.bind_eq_bind, Option.bind_eq_some_iff] at h
    obtain ⟨mp, hmp, tp, -, ⟨fsdata, routes⟩, hmount, h⟩ := h
    cases h
    exact .mount hmp hmount
  | «at» mp e =>
    simp only [serverStep, Option.bind_eq_bind, Option.bind_eq_some_iff] at h
    obtain ⟨m, hm, ⟨fsdata, routes⟩, hstep, h⟩ := h
    cases h
    exact .at hm hstep
  | unmount mp =>
    simp only [serverStep, Option.bind_eq_bind, Option.bind_eq_some_iff] at h
    obtain ⟨m, hm, h⟩ := h
    obtain ⟨routes, hun, rfl⟩ := Option.map_eq_some_iff.1 h
    exact .unmount hm hun

theorem WellMounted.init : WellMounted {} := by
  constructor <;> simp

theorem WellMounted.step {e : ServerEvent} (h : WellMounted s) (ht : ServerTrans L s e s') :
    WellMounted s' := by
  cases ht with
  | @mount opts libs mp type fsdata routes hmp hmount =>
    rcases fsdata with _ | d
    · refine ⟨by simpa using h.ids, fun m hm => ?_, fun m hm => h.below m (by simpa using hm)⟩
      exact (h.ids_lt m (by simpa using hm)).trans (Nat.lt_succ_self _)
    · have hmem : ∀ m ∈ s.mountpoints ++ [(⟨⟨s.next, mp⟩, d⟩ : Mount)],
          m ∈ s.mountpoints ∨ m = ⟨⟨s.next, mp⟩, d⟩ := by simp
      refine ⟨?_, fun m hm => ?_, fun m hm => ?_⟩
      · rw [List.map_append, List.nodup_append]
        refine ⟨h.ids, by simp, ?_⟩
        rintro i hi j hj rfl
        obtain ⟨m, hm, rfl⟩ := List.mem_map.1 hi
        have hlt := h.ids_lt m hm
        simp only [Option.map_some, Option.toList_some, List.map_cons, List.map_nil,
          List.mem_singleton] at hj
        exact absurd hj hlt.ne
      · rcases hmem m hm with hm | rfl
        · exact (h.ids_lt m hm).trans (Nat.lt_succ_self _)
        · exact Nat.lt_succ_self _
      · rcases hmem m hm with hm | rfl
        · exact h.below m hm
        · exact (fsMount_adds hmount).2 d rfl
  | @«at» mp e m fsdata routes hm hstep =>
    have hmem := List.mem_of_find?_eq_some hm
    refine ⟨by simpa [Function.comp_def] using h.ids, fun x hx => ?_, fun x hx => ?_⟩
    · obtain ⟨y, hy, rfl⟩ := List.mem_map.1 hx
      simpa using h.ids_lt y hy
    · obtain ⟨y, hy, rfl⟩ := List.mem_map.1 hx
      unfold setData
      split_ifs with hid
      · have hmid : m.mpoint.id = mp := by simpa using List.find?_some hm
        obtain rfl : y = m := List.inj_on_of_nodup_map h.ids hy hmem (hid.trans hmid.symm)
        exact PathsBelow.step (h.below y hy) hstep
      · exact h.below y hy
  | unmount hm hun =>
    exact ⟨h.ids.sublist (List.filter_sublist.map _),
      fun x hx => h.ids_lt x (List.mem_of_mem_filter hx),
      fun x hx => h.below x (List.mem_of_mem_filter hx)⟩

variable {m : Mpoint}

/-- The event happens at the mountpoint. -/
def ServerEvent.isAt (id : MpId) : ServerEvent → Bool
  | .mount _ _ => false
  | .at mp _ | .unmount mp => mp = id

/-- Whatever is mounted is apart from the mountpoint. -/
def MountsApart (m : Mpoint) : ServerEvent → Prop
  | .mount opts _ => ∀ mp, opts.mountpoint = some mp → Separate mp m.mountpoint
  | _ => True

/-- `t` is what `s` is for the mountpoint `m` alone, with every other one apart from it. -/
structure Isolated (m : Mpoint) (s t : Server) : Prop where
  well : WellMounted s
  lt : m.id < s.next
  own : ∀ x ∈ s.mountpoints, x.mpoint.id = m.id → x.mpoint = m
  apart : ∀ x ∈ s.mountpoints, x.mpoint.id ≠ m.id → Separate x.mpoint.mountpoint m.mountpoint
  mountpoints : t.mountpoints = s.mountpoints.filter (·.mpoint.id = m.id)
  routes : Alike m.mountpoint s.routes t.routes

theorem Isolated.find (h : Isolated m s t) :
    t.mountpoints.find? (·.mpoint.id = m.id) = s.mountpoints.find? (·.mpoint.id = m.id) := by
  rw [h.mountpoints, List.find?_filter]
  simp

/-- An event of the mountpoint is the same for it alone. -/
theorem Isolated.own_step {e : ServerEvent} (h : Isolated m s t) (he : e.isAt m.id = true)
    (hs : serverStep L s e = some s') :
    ∃ t', serverStep L t e = some t' ∧ Isolated m s' t' := by
  have ht := serverTrans_of_step hs
  have hwell := h.well.step ht
  cases ht with
  | mount hmp hmount => cases he
  | @«at» mp e x fsdata routes hx hstep =>
    obtain rfl : mp = m.id := by simpa [ServerEvent.isAt] using he
    have hmem := List.mem_of_find?_eq_some hx
    have hxm : x.mpoint = m := h.own x hmem (by simpa using List.find?_some hx)
    obtain ⟨o, ho⟩ := mountStep_uniform L x.mpoint x.fsdata e
    rw [ho] at hstep
    obtain ⟨⟨d, dels, adds⟩, rfl, hd⟩ := Option.map_eq_some_iff.1 hstep
    cases hd
    refine ⟨{ t with
      routes := (t.routes.delAll dels).setAll adds
      mountpoints := t.mountpoints.map (setData m.id d) }, ?_, ?_⟩
    · simp only [serverStep, h.find, hx, Option.bind_eq_bind, Option.bind_some, ho, Option.map_some]
      rfl
    · refine ⟨hwell, h.lt, fun y hy hid => ?_, fun y hy hid => ?_, ?_, h.routes.change dels adds⟩
      · obtain ⟨z, hz, rfl⟩ := List.mem_map.1 hy
        rw [setData_mpoint] at hid ⊢
        exact h.own z hz hid
      · obtain ⟨z, hz, rfl⟩ := List.mem_map.1 hy
        rw [setData_mpoint] at hid ⊢
        exact h.apart z hz hid
      · simp only [h.mountpoints, List.filter_map, Function.comp_def, setData_mpoint]
  | @unmount mp x routes hx hun =>
    obtain rfl : mp = m.id := by simpa [ServerEvent.isAt] using he
    have hmem := List.mem_of_find?_eq_some hx
    have hxid : x.mpoint.id = m.id := by simpa using List.find?_some hx
    obtain ⟨dels, hdels⟩ := fsUnmount_uniform L x.mpoint x.fsdata
    rw [hdels] at hun
    cases hun
    refine ⟨{ t with
      routes := t.routes.delAll dels
      mountpoints := t.mountpoints.filter (·.mpoint.id ≠ x.mpoint.id) }, ?_, ?_⟩
    · simp only [serverStep, h.find, hx, Option.bind_eq_bind, Option.bind_some, ahttpdUnmount,
        hdels, Option.map_some]
    · refine ⟨hwell, h.lt, fun y hy => h.own y (List.mem_of_mem_filter hy),
        fun y hy => h.apart y (List.mem_of_mem_filter hy), ?_, h.routes.change dels []⟩
      simp only [h.mountpoints, List.filter_filter, Bool.and_comm]

/-- An event elsewhere is none for the mountpoint. -/
theorem Isolated.other_step {e : ServerEvent} (h : Isolated m s t) (he : e.isAt m.id = false)
    (hC : MountsApart m e) (hs : serverStep L s e = some s') : Isolated m s' t := by
  have ht := serverTrans_of_step hs
  have hwell := h.well.step ht
  cases ht with
  | @mount opts libs mp type fsdata routes hmp hmount =>
    obtain ⟨⟨adds, rfl, hadds⟩, -⟩ := fsMount_adds hmount
    have hsep : Separate mp m.mountpoint := hC mp hmp
    have hnil : ∀ p ∈ ([] : List Bytes), ¬ IsBelow m.mountpoint p := by simp
    have hroutes : Alike m.mountpoint (s.routes.setAll adds) t.routes :=
      h.routes.change_left hnil fun e he => hsep.not_below (hadds e he)
    have hmem : ∀ x ∈ s.mountpoints ++ (fsdata.map (Mount.mk ⟨s.next, mp⟩)).toList,
        x ∈ s.mountpoints ∨ x.mpoint = ⟨s.next, mp⟩ := by
      intro x hx
      rcases fsdata with _ | d
      · exact .inl (by simpa using hx)
      · rcases List.mem_append.1 hx with hx | hx
        · exact .inl hx
        · exact .inr (by rw [List.mem_singleton.1 hx])
    refine ⟨hwell, h.lt.trans (Nat.lt_succ_self _), fun x hx hid => ?_, fun x hx hid => ?_, ?_,
      hroutes⟩
    · rcases hmem x hx with hx | hx
      · exact h.own x hx hid
      · rw [hx] at hid
        exact absurd hid h.lt.ne'
    · rcases hmem x hx with hx | hx
      · exact h.apart x hx hid
      · rw [hx]
        exact hsep
    · rcases fsdata with _ | d
      · simpa using h.mountpoints
      · simpa [List.filter_append, h.lt.ne'] using h.mountpoints
  | @«at» mp e x fsdata routes hx hstep =>
    have hmp : mp ≠ m.id := by simpa [ServerEvent.isAt] using he
    have hmem := List.mem_of_find?_eq_some hx
    have hxid : x.mpoint.id = mp := by simpa using List.find?_some hx
    obtain ⟨dels, adds, rfl, hchange⟩ := mountStep_change hstep
    have hsep := h.apart x hmem (by rw [hxid]; exact hmp)
    have hbelow := PathsBelow.step (h.well.below x hmem) hstep
    refine ⟨hwell, h.lt, fun y hy hid => ?_, fun y hy hid => ?_, ?_, ?_⟩
    · obtain ⟨z, hz, rfl⟩ := List.mem_map.1 hy
      rw [setData_mpoint] at hid ⊢
      exact h.own z hz hid
    · obtain ⟨z, hz, rfl⟩ := List.mem_map.1 hy
      rw [setData_mpoint] at hid ⊢
      exact h.apart z hz hid
    · have hsame : ∀ y ∈ s.mountpoints.filter (·.mpoint.id = m.id), setData mp fsdata y = id y := by
        intro y hy
        have hid : y.mpoint.id = m.id := by simpa using (List.mem_filter.1 hy).2
        exact if_neg fun he => hmp (he.symm.trans hid)
      rw [h.mountpoints, List.filter_map]
      simp only [Function.comp_def, setData_mpoint]
      rw [List.map_congr_left hsame, List.map_id]
    · refine h.routes.change_left (fun p hp => hsep.not_below ?_) fun e he => hsep.not_below ?_
      · exact h.well.below x hmem p (hchange.dels_own p hp)
      · exact hbelow _ (hchange.adds_own e he).1
  | @unmount mp x routes hx hun =>
    have hmp : mp ≠ m.id := by simpa [ServerEvent.isAt] using he
    have hmem := List.mem_of_find?_eq_some hx
    have hxid : x.mpoint.id = mp := by simpa using List.find?_some hx
    obtain ⟨dels, hdels, hown, -⟩ : ∃ dels, fsUnmount L x.mpoint s.routes x.fsdata
        = some (s.routes.delAll dels) ∧ (∀ p ∈ dels, p ∈ x.fsdata.paths x.mpoint) ∧ _ :=
      fsUnmount_dels s.routes x.fsdata
    rw [hdels] at hun
    cases hun
    have hsep := h.apart x hmem (by rw [hxid]; exact hmp)
    refine ⟨hwell, h.lt, fun y hy => h.own y (List.mem_of_mem_filter hy),
      fun y hy => h.apart y (List.mem_of_mem_filter hy), ?_, ?_⟩
    · rw [h.mountpoints, List.filter_filter]
      refine List.filter_congr fun y _ => ?_
      by_cases hid : y.mpoint.id = m.id
      · simp [hid, hxid, Ne.symm hmp]
      · simp [hid]
    · have hnil : ∀ e ∈ ([] : List (Bytes × Handler)), ¬ IsBelow m.mountpoint e.1 := by simp
      refine h.routes.change_left (fun p hp => hsep.not_below ?_) hnil
      exact h.well.below x hmem p (hown p hp)

end Server

theorem filter_eq_singleton {α : Type*} {l : List α} {a : α} {p : α → Bool} (ha : a ∈ l)
    (hp : p a = true) (hn : (l.filter p).Nodup) (h : ∀ x ∈ l, p x = true → x = a) :
    l.filter p = [a] := by
  have hrep := List.eq_replicate_of_mem fun x hx => h x (List.mem_of_mem_filter hx)
    (List.mem_filter.1 hx).2
  have hpos := List.length_pos_of_mem (List.mem_filter.2 ⟨ha, hp⟩)
  have hle : (l.filter p).length ≤ 1 := by
    rw [hrep] at hn
    exact List.nodup_replicate.1 hn
  rw [hrep, show (l.filter p).length = 1 by omega]
  rfl

/-- The other two mountpoints go on, another one is mounted, and the node's table changes. -/
def busyRun : List ServerEvent :=
  [.at 2 (.drop 0), .at 1 (.etblChanged none), .unmount 0,
    .mount { type := some (lit "control"), mountpoint := some (lit "/control") } {},
    .at 1 (.callCreate true), .unmount 2]

/-- Whether the node of `threeMountsRun` is apart from the others, and from what is mounted
later. -/
def nodeApart : Option (Bool × Bool) :=
  (run (serverStep .plain) {} threeMountsRun).bind fun s => s.mountpoints[1]?.bind fun m =>
    (run (serverStep .plain) s busyRun).map fun _ =>
      (decide (∀ x ∈ s.mountpoints, x.mpoint.id ≠ m.mpoint.id →
          Separate x.mpoint.mountpoint m.mpoint.mountpoint),
        decide (Separate (lit "/control") m.mpoint.mountpoint))

end AuraHttpd
