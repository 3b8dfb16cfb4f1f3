import AuraHttpd.Proofs.Isolation
import AuraHttpd.Proofs.Lifecycle
import AuraHttpd.Proofs.LoadRuns

/-!
# What requests come to while a server lives

The mountpoints register paths below themselves only, so where none of them is empty the root is
redirected to the index all the time (`root_redirected`).  And what happens to the routes during the
life of a server is a run of the server of `Server` (`life_simulates`).
-/

namespace AuraHttpd.Config

open CString StepSystem

variable {J : JsonLib} {libs : ℕ → SectionLibs}

section Root

variable {s : Site} {mpoint : Mpoint} {props : Json} {lib : SectionLibs}

theorem upMount_below {fsdata : Option Fsdata} {routes : Routes}
    (h : upMount J s mpoint props lib = .ok (fsdata, routes)) :
    ∃ adds, routes = s.routes.setAll adds ∧ ∀ e ∈ adds, IsBelow mpoint.mountpoint e.1 := by
  unfold upMount at h
  split at h
  · cases h
  split at h
  · cases h
    exact ⟨[], rfl, by simp⟩
  rename_i mod _
  obtain ⟨r, hinit, h⟩ := Except.bind_eq_ok.1 h
  have hadds : ∀ mod' routes', r = some (mod', routes') →
      ∃ adds, routes' = s.routes.setAll adds ∧ ∀ e ∈ adds, IsBelow mpoint.mountpoint e.1 := by
    rintro mod' routes' rfl
    cases mod with
    | debug =>
      cases hinit
      exact ⟨[], rfl, by simp⟩
    | file =>
      obtain ⟨fdata, -, hinit⟩ := Except.bind_eq_ok.1 hinit
      obtain ⟨_, -, h⟩ := Option.map_eq_some_iff.1 (Except.ok.inj hinit)
      cases h
      exact ⟨[], rfl, by simp⟩
    | buffer =>
      obtain ⟨routes₁, hbuf, h⟩ := Option.map_eq_some_iff.1 (Except.ok.inj hinit)
      cases h
      unfold bufferInit at hbuf
      split_ifs at hbuf
      simp only [Option.bind_eq_bind, Option.bind_eq_some_iff] at hbuf
      obtain ⟨owner, -, m, -, hbuf⟩ := hbuf
      split at hbuf
      · cases hbuf
        refine ⟨[(mpoint.mountpoint ++ lit "/", ⟨.rqListBuffers, .fsdata mpoint.id⟩)], rfl, ?_⟩
        intro e he
        obtain rfl := List.mem_singleton.1 he
        exact isBelow_append _ _
      · cases hbuf
  rcases r with _ | ⟨mod', routes'⟩
  · cases h
    exact ⟨[], rfl, by simp⟩
  obtain ⟨adds, rfl, hbelow⟩ := hadds mod' routes' rfl
  dsimp only at h
  split_ifs at h
  · cases h
    refine ⟨adds ++ [(mpoint.mountpoint ++ lit "/post", ⟨.upload, .mpoint mpoint.id⟩)],
      by rw [RouteTable.setAll_append]; rfl, fun e he => ?_⟩
    rcases List.mem_append.1 he with he | he
    · exact hbelow e he
    · obtain rfl := List.mem_singleton.1 he
      exact isBelow_append _ _
  · cases h
    exact ⟨adds, rfl, hbelow⟩

/-- What is registered below the mountpoint, and stays there. -/
def DataBelow (m : Mount) : Prop :=
  ∀ d, m.fsdata.routesData = some d → PathsBelow ⟨m.mpoint, d⟩

/-- A mount function registers paths below its mountpoint only. -/
theorem mount_below {fs : FsType} {fsdata : Option Fsdata} {routes : Routes}
    (h : fs.mount J s mpoint props lib = .ok (fsdata, routes)) :
    (∃ adds, routes = s.routes.setAll adds ∧ ∀ e ∈ adds, IsBelow mpoint.mountpoint e.1)
      ∧ ∀ d, fsdata = some d → DataBelow ⟨mpoint, props, d⟩ := by
  have hserver : ∀ (opts : MountOpts) (type : Bytes) (d : AuraHttpd.Fsdata),
      fsMount mpoint { routes := s.routes } opts {} type = some (some d, routes) →
        ∃ adds, routes = s.routes.setAll adds ∧ ∀ e ∈ adds, IsBelow mpoint.mountpoint e.1 :=
    fun opts type d h => (fsMount_adds h).1
  refine ⟨?_, ?_⟩
  · cases fs with
    | control =>
      cases h
      exact hserver {} (lit "control") .control rfl
    | static =>
      cases fsMounts_of_mount h
      exact ⟨[], rfl, by simp⟩
    | node =>
      cases fsMounts_of_mount h with
      | node =>
        exact hserver { transport := some [], options := some [] } (lit "node") (.node {}) rfl
      | noNode => exact ⟨[], rfl, by simp⟩
    | upload => exact upMount_below h
    | v4l2 =>
      cases fsMounts_of_mount h <;> exact ⟨[], rfl, by simp⟩
  · rintro d rfl d' hd'
    cases fsMounts_of_mount h with
    | control | static =>
      obtain rfl := Option.some.inj hd'
      exact pathsBelow_other (by simp)
    | node =>
      obtain rfl := Option.some.inj hd'
      exact pathsBelow_node.2 (by simp)
    | @upload _ _ mod' =>
      rcases mod' with _ | _ | _ <;> obtain rfl := Option.some.inj hd' <;>
        exact pathsBelow_other (by simp)
    | v4l2 => cases hd'

/-- No path of the table is the root, no mountpoint is empty, and all data is below them. -/
structure RootFree (s : Site) : Prop where
  find : s.routes.find (lit "/") = none
  nonempty : ∀ m ∈ s.mountpoints, m.mpoint.mountpoint ≠ []
  below : ∀ m ∈ s.mountpoints, DataBelow m

theorem root_notBelow {m : Bytes} (hm : m ≠ []) : ¬ IsBelow m (lit "/") := by
  rintro ⟨t, ht⟩
  have hlen := congrArg List.length ht
  have hpos := List.length_pos_of_ne_nil hm
  have hroot : (lit "/").length = 1 := rfl
  simp only [List.length_append, List.length_singleton, hroot] at hlen
  omega

theorem find_root_change {routes : Routes} {m : Bytes} (dels : List Bytes)
    {adds : List (Bytes × Handler)} (hm : m ≠ []) (hadds : ∀ e ∈ adds, IsBelow m e.1)
    (h : routes.find (lit "/") = none) :
    ((routes.delAll dels).setAll adds).find (lit "/") = none := by
  have hno : adds.find? (·.1 = lit "/") = none := List.find?_eq_none.2 fun e he hroot =>
    root_notBelow hm (by simpa [show e.1 = lit "/" by simpa using hroot] using hadds e he)
  rw [RouteTable.find_setAll, RouteTable.find_delAll, hno, h]
  simp

/-- What `ahttpd_mount` registers, also where it fails, and what it mounts. -/
theorem ahttpdMount_below {s' : Site} {opts : Json} {ret : ℤ}
    (h : ahttpdMount J s opts lib = .ok (ret, s')) :
    ∃ mp, jsonArrayFindString J opts (lit "mountpoint") = some mp
      ∧ (∃ adds, s'.routes = s.routes.setAll adds ∧ ∀ e ∈ adds, IsBelow mp e.1)
      ∧ ∀ m ∈ s'.mountpoints, m ∈ s.mountpoints ∨ m.mpoint.mountpoint = mp ∧ DataBelow m := by
  unfold ahttpdMount at h
  split at h
  · rename_i mp tp hmp htp
    refine ⟨mp, hmp, ?_⟩
    split at h
    · cases h
      exact ⟨⟨[], rfl, by simp⟩, fun m hm => .inl hm⟩
    · obtain ⟨⟨fsdata, routes⟩, hmount, h⟩ := Except.bind_eq_ok.1 h
      obtain ⟨hadds, hdata⟩ := mount_below hmount
      rcases fsdata with _ | fsdata <;> cases h
      · exact ⟨hadds, fun m hm => .inl hm⟩
      · refine ⟨hadds, fun m hm => ?_⟩
        rcases List.mem_append.1 hm with hm | hm
        · exact .inl hm
        · obtain rfl := List.mem_singleton.1 hm
          exact .inr ⟨rfl, hdata fsdata rfl⟩
  · cases h

theorem RootFree.mount {s s' : HttpServer} {i : ℕ} {opts : Json} (h : RootFree s.site)
    (hopts : jsonArrayFindString J opts (lit "mountpoint") ≠ some [])
    (hmount : s.mount J libs i opts = .ok s') : RootFree s'.site := by
  obtain ⟨⟨ret, site⟩, hsite, hmount⟩ := Except.bind_eq_ok.1 hmount
  obtain ⟨mp, hmp, ⟨adds, hroutes, hadds⟩, hmounts⟩ := ahttpdMount_below hsite
  have hne : mp ≠ [] := fun he => hopts (by rw [hmp, he])
  have hfree : RootFree site := by
    refine ⟨?_, fun m hm => ?_, fun m hm => ?_⟩
    · rw [hroutes]
      exact find_root_change [] hne hadds h.find
    · rcases hmounts m hm with hm | ⟨hm, -⟩
      · exact h.nonempty m hm
      · rw [hm]
        exact hne
    · rcases hmounts m hm with hm | ⟨-, hm⟩
      · exact h.below m hm
      · exact hm
  dsimp only at hmount
  split_ifs at hmount <;> cases hmount <;> exact hfree

theorem RootFree.load : ∀ {fstab : List Json} {s s' : HttpServer} {i : ℕ}, RootFree s.site →
    (∀ opts ∈ fstab, jsonArrayFindString J opts (lit "mountpoint") ≠ some []) →
      s.loadMountpoints J libs i fstab = .ok s' → RootFree s'.site
  | [], _, _, _, h, _, hload => by
    cases hload
    exact h
  | opts :: fstab, s, s', i, h, hopts, hload => by
    obtain ⟨s₁, hmount, hload⟩ := Except.bind_eq_ok.1 hload
    obtain ⟨ho, hopts⟩ := List.forall_mem_cons.1 hopts
    exact (h.mount ho hmount).load hopts hload

/-- Cameras have no routes, and nothing happens to them that changes any. -/
theorem routesData_of_step {L : NodeLibs} {fsdata fsdata' : Fsdata} {routes routes' : Routes}
    {e : MountEvent} (h : fsdata.step L mpoint routes e = some (fsdata', routes')) :
    ∃ d d', fsdata.routesData = some d ∧ fsdata'.routesData = some d'
      ∧ mountStep L mpoint routes d e = some (d', routes') := by
  rcases fsdata with _ | _ | nd | (_ | _ | b) | _
  case node =>
    obtain ⟨⟨d', routes₁⟩, hstep, h⟩ := Option.bind_eq_some_iff.1 h
    rcases d' with _ | _ | nd' | _ <;> cases h
    exact ⟨_, _, rfl, rfl, hstep⟩
  case upload.buffer =>
    obtain ⟨⟨d', routes₁⟩, hstep, h⟩ := Option.bind_eq_some_iff.1 h
    rcases d' with _ | _ | _ | (_ | _ | b') <;> cases h
    exact ⟨_, _, rfl, rfl, hstep⟩
  all_goals cases h

/-- An event at a mountpoint leaves the root alone. -/
theorem RootFree.step {L : NodeLibs} {s s' : HttpServer} {e : MpId × MountEvent}
    {fstab : List Json} {n : ℕ} {held : ℕ → ℕ} (hold : HoldsSections fstab n held s)
    (h : RootFree s.site) (hstep : lifeStep L s e = some s') : RootFree s'.site := by
  simp only [lifeStep, Option.bind_eq_bind, Option.bind_eq_some_iff] at hstep
  obtain ⟨m, hm, ⟨fsdata, routes⟩, hfs, hstep⟩ := hstep
  cases hstep
  have hmem := List.mem_of_find?_eq_some hm
  have hid : m.mpoint.id = e.1 := by simpa using List.find?_some hm
  obtain ⟨d, d', hd, hd', hmount⟩ := routesData_of_step hfs
  obtain ⟨dels, adds, hroutes, hchange⟩ := mountStep_change hmount
  have hbelow : PathsBelow ⟨m.mpoint, d'⟩ := (h.below m hmem d hd).step hmount
  refine ⟨?_, fun x hx => ?_, fun x hx => ?_⟩
  · dsimp only at hroutes ⊢
    rw [hroutes]
    exact find_root_change dels (h.nonempty m hmem) (fun e he => hbelow _ (hchange.adds_own e he).1)
      h.find
  · obtain ⟨y, hy, rfl⟩ := List.mem_map.1 hx
    split_ifs
    · exact h.nonempty y hy
    · exact h.nonempty y hy
  · obtain ⟨y, hy, rfl⟩ := List.mem_map.1 hx
    split_ifs with hyid
    · intro d₁ hd₁
      obtain rfl : d' = d₁ := Option.some.inj (hd'.symm.trans hd₁)
      obtain rfl := hold.eq_of_id hy hmem (hyid.trans hid.symm)
      exact hbelow
    · exact h.below y hy

/-- In every life of a server whose mountpoints are not empty, until it is destroyed, a request for
the root is redirected to the index the configuration names. -/
theorem root_redirected (J : JsonLib) (libs : ℕ → SectionLibs) (L : NodeLibs)
    (binds : CharPtr → ℤ → Bool) (conf : List (Bytes × Json)) (hkeys : (conf.map Prod.fst).Nodup)
    (hmp : ∀ opts ∈ sections (.object conf),
      jsonArrayFindString J opts (lit "mountpoint") ≠ some [])
    (index : Bytes) (hindex : (Json.object conf).get (lit "index") = .string index)
    (s₀ s : HttpServer) (h : started J libs binds (.object conf) = .ok s₀)
    (es : List (MpId × MountEvent)) (hrun : run (lifeStep L) s₀ es = some s) (uri : Bytes) :
    s.dispatch (lit "/") uri = .redirect (cstr index) := by
  have hold := (started_holds hkeys h).1
  have hfree₀ : RootFree s₀.site ∧ s₀.redirect = some (cstr index) := by
    obtain ⟨s₁, hc, rfl⟩ := of_started h
    obtain ⟨s₂, hload, rfl⟩ := create_ok hkeys hc
    have hempty : RootFree (newServer (.object conf)).site := ⟨rfl, by simp [newServer],
      by simp [newServer]⟩
    have hfree := hempty.load hmp hload
    refine ⟨⟨hfree.find, hfree.nonempty, hfree.below⟩, ?_⟩
    simp [configPut, HttpServer.configured, hfree.find, textOf, hindex]
  have hrun := run_inv (I := fun t => HoldsSections (sections (.object conf)) _ (fun _ => 0) t
    ∧ RootFree t.site ∧ t.redirect = some (cstr index)) (by
      intro t e t' h _ hstep
      exact ⟨h.1.step hstep, h.2.1.step h.1 hstep, (step_holders hstep).2.2.2.2.2.trans h.2.2⟩)
    es ⟨hold, hfree₀⟩ (along_true es s₀) hrun
  simp only [HttpServer.dispatch, hrun.2.1.find, hrun.2.2, if_true]

/-- It is also behind a life in which the node's table and the stored buffers have changed. -/
theorem root_redirected_busyLife : ∃ s₀ s,
    started .plain (fun _ => {}) (fun _ _ => true) (.object busyConf) = .ok s₀
      ∧ run (lifeStep .plain) s₀ busyLife = some s
      ∧ s.dispatch (lit "/") (lit "/") = .redirect (lit "/www/") := by
  obtain ⟨s₀, s, -, h, hrun, -⟩ := busyLife_runs
  have hmp : ∀ opts ∈ sections (.object busyConf),
      jsonArrayFindString .plain opts (lit "mountpoint") ≠ some [] := by
    intro opts hopts
    change opts ∈ [_, onlineSection, bufSection] at hopts
    simp only [List.mem_cons, List.not_mem_nil, or_false] at hopts
    rcases hopts with rfl | rfl | rfl <;> decide
  exact ⟨s₀, s, h, hrun, root_redirected .plain _ .plain _ busyConf (by decide) hmp (lit "/www/")
    rfl s₀ s h busyLife hrun (lit "/")⟩

end Root

section Runs

variable {L : NodeLibs} {s s' : HttpServer}

/-- What happens at a mountpoint happens there in the server of `Server` too. -/
theorem lifeStep_server (h : s.site.NoCameras) {e : MpId × MountEvent}
    (hstep : lifeStep L s e = some s') :
    serverStep L s.site.server (.at e.1 e.2) = some s'.site.server ∧ s'.site.NoCameras := by
  simp only [lifeStep, Option.bind_eq_bind, Option.bind_eq_some_iff] at hstep
  obtain ⟨m, hm, ⟨fsdata, routes⟩, hfs, hstep⟩ := hstep
  cases hstep
  obtain ⟨d, d', hd, hd', hmount⟩ := routesData_of_step hfs
  refine ⟨?_, fun x hx => ?_⟩
  · have hfind : s.site.server.mountpoints.find? (·.mpoint.id = e.1) = some ⟨m.mpoint, d⟩ := by
      rw [find_server h fun mp => mp.id = e.1, hm, Option.bind_some, Mount.routesMount, hd]
      rfl
    have hroutes : s.site.server.routes = s.site.routes := rfl
    have hmap : ∀ x ∈ s.site.mountpoints,
        Mount.routesMount (if x.mpoint.id = e.1 then { x with fsdata := fsdata } else x)
          = (Mount.routesMount x).map fun x' =>
            if x'.mpoint.id = e.1 then { x' with fsdata := d' } else x' := by
      intro x hx
      obtain ⟨dx, hdx⟩ := Option.ne_none_iff_exists'.1 (h x hx)
      split_ifs with hid <;> simp [Mount.routesMount, hdx, hd', hid]
    simp only [serverStep, hfind, Option.bind_eq_bind, Option.bind_some, hroutes, hmount]
    simp only [Site.server, List.filterMap_map, List.map_filterMap, Function.comp_def]
    rw [List.filterMap_congr hmap]
  · obtain ⟨y, hy, rfl⟩ := List.mem_map.1 hx
    split_ifs
    · rw [hd']
      exact Option.some_ne_none _
    · exact h y hy

theorem filter_server (mp : MpId) : ∀ mountpoints : List Mount,
    (mountpoints.filter (·.mpoint.id ≠ mp)).filterMap Mount.routesMount
      = (mountpoints.filterMap Mount.routesMount).filter (·.mpoint.id ≠ mp)
  | [] => rfl
  | m :: ms => by
    have ih := filter_server mp ms
    rcases hd : m.fsdata.routesData with _ | d
    · have hm : m.routesMount = none := by rw [Mount.routesMount, hd, Option.map_none]
      rw [List.filterMap_cons_none hm, ← ih]
      by_cases hid : m.mpoint.id = mp <;> simp [hid, hm]
    · have hm : m.routesMount = some ⟨m.mpoint, d⟩ := by rw [Mount.routesMount, hd, Option.map_some]
      rw [List.filterMap_cons_some hm]
      by_cases hid : m.mpoint.id = mp
      · rw [List.filter_cons_of_neg (by simpa using hid),
          List.filter_cons_of_neg (by simpa using hid), ih]
      · rw [List.filter_cons_of_pos (by simpa using hid),
          List.filter_cons_of_pos (by simpa using hid), List.filterMap_cons_some hm, ih]

theorem unmount_server (h : s.site.NoCameras) {pos : Mount} (hpos : pos ∈ s.site.mountpoints)
    (hids : ∀ x ∈ s.site.mountpoints, x.mpoint.id = pos.mpoint.id → x = pos)
    (hun : ahttpdUnmount L s pos = .ok s') :
    serverStep L s.site.server (.unmount pos.mpoint.id) = some s'.site.server
      ∧ s'.site.NoCameras := by
  unfold ahttpdUnmount at hun
  split at hun
  · cases hun
  rename_i routes hroutes
  obtain ⟨s₁, hput, hun⟩ := Except.bind_eq_ok.1 hun
  cases hun
  have hsite : s₁.site = s.site := by
    unfold HttpServer.put at hput
    split_ifs at hput
    cases hput
    rfl
  obtain ⟨d, hd⟩ := Option.ne_none_iff_exists'.1 (h pos hpos)
  have hfind : s.site.server.mountpoints.find? (·.mpoint.id = pos.mpoint.id)
      = some ⟨pos.mpoint, d⟩ := by
    obtain ⟨x, hx⟩ : ∃ x, s.site.mountpoints.find? (·.mpoint.id = pos.mpoint.id) = some x := by
      refine Option.isSome_iff_exists.1 (List.find?_isSome.2 ⟨pos, hpos, ?_⟩)
      simp
    obtain rfl := hids x (List.mem_of_find?_eq_some hx) (by simpa using List.find?_some hx)
    rw [find_server h fun mp => mp.id = x.mpoint.id, hx, Option.bind_some, Mount.routesMount, hd]
    rfl
  have hfs : fsUnmount L pos.mpoint s.site.routes d = some routes := by
    rw [← hroutes]
    rcases hf : pos.fsdata with _ | _ | nd | (_ | _ | b) | _ <;> rw [hf] at hd <;> cases hd <;> rfl
  refine ⟨?_, fun x hx => ?_⟩
  · have hr : s.site.server.routes = s.site.routes := rfl
    simp only [serverStep, hfind, Option.bind_eq_bind, Option.bind_some, AuraHttpd.ahttpdUnmount,
      hr, hfs, Option.map_some]
    simp only [hsite, Site.server, filter_server]
  · rw [hsite] at hx
    exact h x (List.mem_of_mem_filter hx)

theorem unmountAll_server : ∀ {tmp : List Mount} {s s' : HttpServer} {fstab : List Json} {n : ℕ},
    HoldsSections fstab n (fun _ => 0) s → s.site.NoCameras → s.site.mountpoints = tmp →
      unmountAll L s tmp = .ok s' →
      run (serverStep L) s.site.server (tmp.map fun m => .unmount m.mpoint.id) = some s'.site.server
  | [], s, s', _, _, _, _, _, h => by
    cases h
    rfl
  | pos :: tmp, s, s', _, _, hold, hno, hm, h => by
    obtain ⟨s₁, hun, h⟩ := Except.bind_eq_ok.1 h
    obtain ⟨s₂, hun₂, hold₁, hm₁, -⟩ := hold.unmount L hm
    obtain rfl : s₂ = s₁ := Except.ok.inj (hun₂.symm.trans hun)
    have hpos : pos ∈ s.site.mountpoints := by rw [hm]; exact List.mem_cons_self
    obtain ⟨hstep, hno₁⟩ := unmount_server hno hpos (fun x hx => hold.eq_of_id hx hpos) hun
    rw [List.map_cons, run, hstep, Option.bind_some]
    exact unmountAll_server hold₁ hno₁ hm₁ h

theorem mem_withLibs {p : Json × SectionLibs} : ∀ {fstab : List Json} {i : ℕ},
    p ∈ withLibs libs i fstab → p.1 ∈ fstab ∧ ∃ k, p.2 = libs k
  | [], _, h => by cases h
  | j :: fstab, i, h => by
    rcases List.mem_cons.1 h with rfl | h
    · exact ⟨List.mem_cons_self, i, rfl⟩
    · exact ⟨List.mem_cons_of_mem _ (mem_withLibs h).1, (mem_withLibs h).2⟩

theorem run_server {es : List (MpId × MountEvent)} (h : s.site.NoCameras)
    (hrun : run (lifeStep L) s es = some s') :
    run (serverStep L) s.site.server (es.map fun e => .at e.1 e.2) = some s'.site.server
      ∧ s'.site.NoCameras := by
  induction es generalizing s with
  | nil =>
    cases hrun
    exact ⟨rfl, h⟩
  | cons e es ih =>
    obtain ⟨s₁, hstep, hrun⟩ := run_cons hrun
    obtain ⟨hserver, h₁⟩ := lifeStep_server h hstep
    rw [List.map_cons, run, hserver, Option.bind_some]
    exact ih h₁ hrun

/-- The life of a server without cameras is a run of the server of `Server`, as far as memory
suffices: mounts, one for each section that mounts, then what happens at the mountpoints, and then
each of them is unmounted. -/
theorem life_simulates (J : JsonLib) (libs : ℕ → SectionLibs) (L : NodeLibs)
    (binds : CharPtr → ℤ → Bool) (conf : List (Bytes × Json)) (hkeys : (conf.map Prod.fst).Nodup)
    (hmem : ∀ i, (libs i).iovec = true)
    (htype : ∀ opts ∈ sections (.object conf),
      jsonArrayFindString J opts (lit "type") ≠ some FsType.v4l2.name)
    (s₀ s : HttpServer) (h : started J libs binds (.object conf) = .ok s₀)
    (es : List (MpId × MountEvent)) (hrun : run (lifeStep L) s₀ es = some s) :
    ∃ ms : List ServerEvent, (∀ e ∈ ms, ∃ opts libs, e = .mount opts libs)
      ∧ ms.length = s₀.site.mountpoints.length
      ∧ run (serverStep L) {} (ms ++ es.map fun e => .at e.1 e.2) = some s.site.server
      ∧ ∀ s', unmountAll L s s.site.mountpoints = .ok s' →
        run (serverStep L) s.site.server (s.site.mountpoints.map fun m => .unmount m.mpoint.id)
          = some s'.site.server := by
  have hold := (started_holds hkeys h).1
  obtain ⟨s₁, hc, rfl⟩ := of_started h
  obtain ⟨s₂, hload, rfl⟩ := create_ok hkeys hc
  have hsite := load_site hload
  have hmem' : ∀ p ∈ withLibs libs 0 (sections (.object conf)), p.2.iovec = true := by
    intro p hp
    obtain ⟨-, k, hk⟩ := mem_withLibs hp
    rw [hk]
    exact hmem k
  have htype' : ∀ p ∈ withLibs libs 0 (sections (.object conf)),
      jsonArrayFindString J p.1 (lit "type") ≠ some FsType.v4l2.name :=
    fun p hp => htype p.1 (mem_withLibs hp).1
  have hempty : (newServer (.object conf)).site.NoCameras := by
    simp [Site.NoCameras, newServer]
  obtain ⟨hno, ms, hlen, hms, hmount⟩ := load_simulates L hempty hmem' htype' hsite
  have hlen' := congrArg List.length (loadMountpoints_mounted hmem' hsite).2
  have hno₀ : (configPut (.object conf) (s₂.configured (.object conf))).site.NoCameras := hno
  obtain ⟨hserver, hno'⟩ := run_server hno₀ hrun
  refine ⟨ms, hms, ?_, ?_, fun s' hun => unmountAll_server (run_holds L hold hrun).1 hno' rfl hun⟩
  · show ms.length = s₂.site.mountpoints.length
    simpa [hlen, newServer] using hlen'.symm
  · rw [run_append]
    exact (congrArg (Option.bind · _) hmount).trans hserver

/-- Two mounts, what happened, and two unmounts. -/
theorem life_simulates_busyLife : ∃ s₀ s s' ms,
    started .plain (fun _ => {}) (fun _ _ => true) (.object busyConf) = .ok s₀
      ∧ run (lifeStep .plain) s₀ busyLife = some s
      ∧ unmountAll .plain s s.site.mountpoints = .ok s' ∧ ms.length = 2
      ∧ run (serverStep .plain) {} (ms ++ busyLife.map fun e => .at e.1 e.2)
        = some s.site.server
      ∧ run (serverStep .plain) s.site.server [.unmount 0, .unmount 1]
        = some s'.site.server := by
  obtain ⟨s₀, s, s', h, hrun, hall, htwo, -, hids⟩ := busyLife_runs
  have htype : ∀ opts ∈ sections (.object busyConf),
      jsonArrayFindString .plain opts (lit "type") ≠ some FsType.v4l2.name := by
    intro opts hopts
    change opts ∈ [_, onlineSection, bufSection] at hopts
    simp only [List.mem_cons, List.not_mem_nil, or_false] at hopts
    rcases hopts with rfl | rfl | rfl <;> decide
  obtain ⟨ms, -, hlen, hms, hun⟩ := life_simulates .plain _ .plain _ busyConf (by decide)
    (fun _ => rfl) htype s₀ s h busyLife hrun
  have hun := hun s' hall
  have hunmounts : s.site.mountpoints.map (fun m => ServerEvent.unmount m.mpoint.id)
      = [.unmount 0, .unmount 1] := by
    have := congrArg (List.map ServerEvent.unmount) hids
    rwa [List.map_map] at this
  exact ⟨s₀, s, s', ms, h, hrun, hall, hlen.trans htwo, hms, hunmounts ▸ hun⟩

end Runs

end AuraHttpd.Config
