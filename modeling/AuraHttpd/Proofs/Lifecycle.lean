import AuraHttpd.Lifecycle
import AuraHttpd.Lib.Run
import AuraHttpd.Proofs.Mounting
import AuraHttpd.Proofs.Unmount

/-!
# A server from its configuration to its end

The order of a configuration's keys does not matter: the mountpoints are loaded as if they stood
alone (`create_eq`).  The server holds the sections it mounted, in the order of the array
(`HoldsSections`), whatever happens at the mountpoints, until `ahttpd_server_destroy` releases each
of them (`sections_released`).
-/

namespace AuraHttpd.Config

open CString StepSystem

variable {J : JsonLib} {libs : ℕ → SectionLibs}

section Parameters

/-- A server with the parameters of another one, and what `/` is redirected to there. -/
def HttpServer.withParams (s p : HttpServer) : HttpServer :=
  { s with
    host := p.host
    index := p.index
    port := p.port
    maxBodySize := p.maxBodySize
    maxHeadersSize := p.maxHeadersSize
    redirect := p.redirect }

/-- What a value that is no array does to the parameters. -/
def HttpServer.setParam (s : HttpServer) (e : Bytes × Json) : HttpServer :=
  match e.2 with
  | .string text =>
    if e.1 = lit "host" then { s with host := .strdup (cstr text) }
    else if e.1 = lit "index" then { s with index := some (cstr text) }
    else s
  | .int v =>
    if e.1 = lit "port" then { s with port := jsonObjectGetInt v }
    else if e.1 = lit "max_body_size" then { s with maxBodySize := jsonObjectGetInt v }
    else if e.1 = lit "max_headers_size" then { s with maxHeadersSize := jsonObjectGetInt v }
    else s
  | _ => s

theorem mount_withParams (s p : HttpServer) (i : ℕ) (opts : Json) :
    (s.withParams p).mount J libs i opts = (s.mount J libs i opts).map (·.withParams p) := by
  unfold HttpServer.mount
  show (ahttpdMount J s.site opts (libs i) >>= _) = _
  rcases ahttpdMount J s.site opts (libs i) with f | ⟨ret, site⟩
  · rfl
  · simp only [Except.ok_bind]
    split_ifs <;> rfl

theorem loadMountpoints_withParams : ∀ (fstab : List Json) (s p : HttpServer) (i : ℕ),
    (s.withParams p).loadMountpoints J libs i fstab
      = (s.loadMountpoints J libs i fstab).map (·.withParams p)
  | [], _, _, _ => rfl
  | j :: fstab, s, p, i => by
    unfold HttpServer.loadMountpoints
    rw [mount_withParams]
    rcases s.mount J libs i j with f | s₁
    · rfl
    · exact loadMountpoints_withParams fstab s₁ p (i + 1)

theorem setParam_withParams (s p : HttpServer) (e : Bytes × Json) :
    (s.withParams p).setParam e = s.withParams (p.setParam e) := by
  unfold HttpServer.setParam
  split
  · split_ifs <;> rfl
  · split_ifs <;> rfl
  · rfl

theorem foldl_withParams (s : HttpServer) : ∀ (conf : List (Bytes × Json)) (p : HttpServer),
    conf.foldl HttpServer.setParam (s.withParams p)
      = s.withParams (conf.foldl HttpServer.setParam p)
  | [], _ => rfl
  | e :: conf, p => by
    rw [List.foldl_cons, List.foldl_cons, setParam_withParams, foldl_withParams s conf]

/-- Loading leaves the parameters as they are. -/
theorem withParams_of_load {fstab : List Json} {s s' : HttpServer} {i : ℕ}
    (h : s.loadMountpoints J libs i fstab = .ok s') : s'.withParams s = s' := by
  have hsame : (s.withParams s).loadMountpoints J libs i fstab = _ :=
    loadMountpoints_withParams fstab s s i
  have hself : s.withParams s = s := rfl
  rw [hself, h] at hsame
  exact (Except.ok.inj hsame).symm

theorem parseParameter_setParam {s : HttpServer} {key : Bytes} {val : Json}
    (h : key = lit "mountpoints" → val.type ≠ .array) :
    parseParameter J libs s key val = .ok (s.setParam (key, val)) := by
  cases val with
  | array fstab =>
    have hkey : key ≠ lit "mountpoints" := fun hk => h hk rfl
    simp [parseParameter, HttpServer.setParam, hkey]
  | string text =>
    unfold parseParameter HttpServer.setParam
    dsimp only
    split_ifs <;> rfl
  | int v =>
    unfold parseParameter HttpServer.setParam
    dsimp only
    split_ifs <;> rfl
  | _ => rfl

theorem get_cons (e : Bytes × Json) (conf : List (Bytes × Json)) (key : Bytes) :
    (Json.object (e :: conf)).get key = if e.1 = key then e.2 else (Json.object conf).get key := by
  by_cases he : e.1 = key <;> simp [Json.get, he]

theorem sections_cons (e : Bytes × Json) (conf : List (Bytes × Json)) :
    sections (.object (e :: conf))
      = if e.1 = lit "mountpoints" then arraySections e.2 else sections (.object conf) := by
  unfold sections
  rw [get_cons]
  split_ifs <;> rfl

theorem get_of_notMem {key : Bytes} : ∀ {conf : List (Bytes × Json)},
    key ∉ conf.map Prod.fst → (Json.object conf).get key = .null
  | [], _ => rfl
  | e :: conf, h => by
    simp only [List.map_cons, List.mem_cons, not_or] at h
    rw [get_cons, if_neg (Ne.symm h.1), get_of_notMem h.2]

theorem sections_of_notMem {conf : List (Bytes × Json)}
    (h : lit "mountpoints" ∉ conf.map Prod.fst) : sections (.object conf) = [] := by
  rw [sections, get_of_notMem h]
  rfl

/-- Wherever the array of mountpoints stands among the parameters, it is loaded as if it stood
alone. -/
theorem parseConfig_eq : ∀ {conf : List (Bytes × Json)} (s : HttpServer),
    (conf.map Prod.fst).Nodup → parseConfig J libs s conf
      = (s.loadMountpoints J libs 0 (sections (.object conf))).map
        (·.withParams (conf.foldl HttpServer.setParam s))
  | [], _, _ => rfl
  | (key, val) :: conf, s, hkeys => by
    obtain ⟨hnot, hkeys⟩ := List.nodup_cons.1 hkeys
    have ih : ∀ s, parseConfig J libs s conf = _ := fun s => parseConfig_eq s hkeys
    rw [parseConfig, sections_cons, List.foldl_cons]
    by_cases harray : key = lit "mountpoints" ∧ val.type = .array
    · obtain ⟨rfl, htype⟩ := harray
      obtain ⟨fstab, rfl⟩ : ∃ fstab, val = .array fstab := by
        cases val <;> first | exact ⟨_, rfl⟩ | cases htype
      have hload : parseParameter J libs s (lit "mountpoints") (.array fstab)
          = s.loadMountpoints J libs 0 fstab := by
        simp [parseParameter]
      rw [if_pos rfl, hload]
      show _ = (s.loadMountpoints J libs 0 fstab).map _
      rcases hs : s.loadMountpoints J libs 0 fstab with f | s₁
      · rfl
      · have hrest : conf.foldl HttpServer.setParam s₁
            = s₁.withParams (conf.foldl HttpServer.setParam s) := by
          rw [← foldl_withParams, withParams_of_load hs]
        rw [Except.ok_bind, ih, sections_of_notMem hnot, hrest]
        rfl
    · have hset : parseParameter J libs s key val = .ok (s.setParam (key, val)) :=
        parseParameter_setParam fun hk ht => harray ⟨hk, ht⟩
      have hself : s.setParam (key, val) = s.withParams (s.setParam (key, val)) := by
        unfold HttpServer.setParam
        split
        · split_ifs <;> rfl
        · split_ifs <;> rfl
        · rfl
      have hsections : (if key = lit "mountpoints" then arraySections val
          else sections (.object conf)) = sections (.object conf) := by
        split_ifs with hk
        · rw [sections_of_notMem (hk ▸ hnot)]
          cases val <;> first | rfl | exact absurd ⟨hk, rfl⟩ harray
        · rfl
      rw [hset, Except.ok_bind, ih, hsections]
      generalize conf.foldl HttpServer.setParam (s.setParam (key, val)) = p
      rw [hself, loadMountpoints_withParams]
      rcases s.loadMountpoints J libs 0 (sections (.object conf)) with f | s₁ <;> rfl

/-- A field that one key sets is what the value of that key makes of it. -/
theorem foldl_setParam {α : Type} (f : HttpServer → α) (key : Bytes) (upd : Json → α → α)
    (hnull : ∀ a, upd .null a = a)
    (hset : ∀ s e, f (s.setParam e) = if e.1 = key then upd e.2 (f s) else f s) :
    ∀ {conf : List (Bytes × Json)} (s : HttpServer), (conf.map Prod.fst).Nodup →
      f (conf.foldl HttpServer.setParam s) = upd ((Json.object conf).get key) (f s)
  | [], s, _ => (hnull _).symm
  | e :: conf, s, hkeys => by
    obtain ⟨hnot, hkeys⟩ := List.nodup_cons.1 hkeys
    rw [List.foldl_cons, foldl_setParam f key upd hnull hset _ hkeys, hset, get_cons]
    split_ifs with he
    · rw [get_of_notMem (he ▸ hnot), hnull]
    · rfl

/-- The text and the number of a parameter, the default where it is none. -/
def textOf (config : Json) (key : Bytes) : Option Bytes :=
  match config.get key with
  | .string text => some (cstr text)
  | _ => none

def intOf (config : Json) (key : Bytes) (default : ℤ) : ℤ :=
  match config.get key with
  | .int v => jsonObjectGetInt v
  | _ => default

/-- Where the server listens. -/
def hostOf (config : Json) : CharPtr :=
  ((textOf config (lit "host")).map .strdup).getD (.literal (lit "127.0.0.1"))

theorem setParam_fields (s : HttpServer) (key : Bytes) (val : Json) :
    (s.setParam (key, val)).host = (if key = lit "host" then
        (match val with | .string text => .strdup (cstr text) | _ => s.host) else s.host)
      ∧ (s.setParam (key, val)).index = (if key = lit "index" then
        (match val with | .string text => some (cstr text) | _ => s.index) else s.index)
      ∧ (s.setParam (key, val)).port = (if key = lit "port" then
        (match val with | .int v => jsonObjectGetInt v | _ => s.port) else s.port)
      ∧ (s.setParam (key, val)).maxBodySize = (if key = lit "max_body_size" then
        (match val with | .int v => jsonObjectGetInt v | _ => s.maxBodySize) else s.maxBodySize)
      ∧ (s.setParam (key, val)).maxHeadersSize = (if key = lit "max_headers_size" then
        (match val with | .int v => jsonObjectGetInt v | _ => s.maxHeadersSize)
        else s.maxHeadersSize)
      ∧ (s.setParam (key, val)).redirect = s.redirect := by
  have h₁ : lit "index" ≠ lit "host" := by decide
  have h₂ : lit "max_body_size" ≠ lit "port" := by decide
  have h₃ : lit "max_headers_size" ≠ lit "port" := by decide
  have h₄ : lit "max_headers_size" ≠ lit "max_body_size" := by decide
  unfold HttpServer.setParam
  cases val with
  | string text =>
    by_cases hhost : key = lit "host"
    · simp [hhost, Ne.symm h₁]
    · by_cases hindex : key = lit "index" <;> simp [hhost, hindex, h₁]
  | int v =>
    by_cases hport : key = lit "port"
    · simp [hport, Ne.symm h₂, Ne.symm h₃]
    by_cases hbody : key = lit "max_body_size"
    · simp [hbody, h₂, Ne.symm h₄]
    · by_cases hheaders : key = lit "max_headers_size" <;> simp [hport, hbody, hheaders, h₃, h₄]
  | _ => simp

/-- What the keys of a configuration make of the parameters. -/
theorem foldl_fields {conf : List (Bytes × Json)} (hkeys : (conf.map Prod.fst).Nodup)
    (config : Json) : let s := conf.foldl HttpServer.setParam (newServer config)
    s.host = hostOf (.object conf)
      ∧ s.index = textOf (.object conf) (lit "index")
      ∧ s.port = intOf (.object conf) (lit "port") 32001
      ∧ s.maxBodySize = intOf (.object conf) (lit "max_body_size") (8 * 1024 * 1024)
      ∧ s.maxHeadersSize = intOf (.object conf) (lit "max_headers_size") (1 * 1024 * 1024)
      ∧ s.redirect = none := by
  refine ⟨?_, ?_, ?_, ?_, ?_, ?_⟩
  · rw [foldl_setParam (·.host) (lit "host")
      (fun j a => match j with | .string text => .strdup (cstr text) | _ => a) (fun _ => rfl)
      (fun s e => (setParam_fields s e.1 e.2).1) _ hkeys]
    unfold hostOf textOf
    cases (Json.object conf).get (lit "host") <;> rfl
  · rw [foldl_setParam (·.index) (lit "index")
      (fun j a => match j with | .string text => some (cstr text) | _ => a) (fun _ => rfl)
      (fun s e => (setParam_fields s e.1 e.2).2.1) _ hkeys]
    unfold textOf
    cases (Json.object conf).get (lit "index") <;> rfl
  · exact foldl_setParam (·.port) (lit "port")
      (fun j a => match j with | .int v => jsonObjectGetInt v | _ => a) (fun _ => rfl)
      (fun s e => (setParam_fields s e.1 e.2).2.2.1) _ hkeys
  · exact foldl_setParam (·.maxBodySize) (lit "max_body_size")
      (fun j a => match j with | .int v => jsonObjectGetInt v | _ => a) (fun _ => rfl)
      (fun s e => (setParam_fields s e.1 e.2).2.2.2.1) _ hkeys
  · exact foldl_setParam (·.maxHeadersSize) (lit "max_headers_size")
      (fun j a => match j with | .int v => jsonObjectGetInt v | _ => a) (fun _ => rfl)
      (fun s e => (setParam_fields s e.1 e.2).2.2.2.2.1) _ hkeys
  · exact foldl_setParam (·.redirect) [] (fun _ a => a) (fun _ => rfl)
      (fun s e => by rw [(setParam_fields s e.1 e.2).2.2.2.2.2, ite_self]) _ hkeys

/-- What the keys of a configuration make of a server whose mountpoints are loaded. -/
def HttpServer.configured (s : HttpServer) (config : Json) : HttpServer :=
  { s with
    host := hostOf config
    index := textOf config (lit "index")
    port := intOf config (lit "port") 32001
    maxBodySize := intOf config (lit "max_body_size") (8 * 1024 * 1024)
    maxHeadersSize := intOf config (lit "max_headers_size") (1 * 1024 * 1024)
    redirect := if s.site.routes.find (lit "/") = none then textOf config (lit "index") else none }

/-- The parameters are what the keys of the configuration say, in whatever order they stand: host
and index if they are texts, the port and the sizes if they are integers, each with its default, and
the sections of the array of mountpoints in their order. -/
theorem create_eq (binds : CharPtr → ℤ → Bool) {conf : List (Bytes × Json)}
    (hkeys : (conf.map Prod.fst).Nodup) :
    ahttpdServerCreate J libs binds (.object conf) = (do
      let s ← ((newServer (.object conf)).loadMountpoints J libs 0
        (sections (.object conf))).mapError .mount
      if binds (hostOf (.object conf)) (intOf (.object conf) (lit "port") 32001)
        then .ok (s.configured (.object conf)) else .error .noBind :
          Except ServerFault HttpServer) := by
  obtain ⟨hhost, hindex, hport, hbody, hheaders, hredirect⟩ := foldl_fields hkeys (.object conf)
  unfold ahttpdServerCreate
  dsimp only
  rw [parseConfig_eq _ hkeys]
  rcases (newServer (.object conf)).loadMountpoints J libs 0 (sections (.object conf)) with f | s
  · rfl
  · simp only [Except.map, Except.mapError, Except.ok_bind, HttpServer.withParams, hhost, hindex,
      hport, hbody, hheaders, hredirect, HttpServer.configured]
    by_cases hroot : s.site.routes.find (lit "/") = none
    · simp only [if_pos hroot]
    · simp only [if_neg hroot]

theorem create_ok {binds : CharPtr → ℤ → Bool} {conf : List (Bytes × Json)}
    (hkeys : (conf.map Prod.fst).Nodup) {s : HttpServer}
    (h : ahttpdServerCreate J libs binds (.object conf) = .ok s) : ∃ s₁,
      (newServer (.object conf)).loadMountpoints J libs 0 (sections (.object conf)) = .ok s₁
      ∧ s = s₁.configured (.object conf) := by
  rw [create_eq binds hkeys] at h
  obtain ⟨s₁, hload, h⟩ := Except.bind_eq_ok.1 h
  split_ifs at h
  refine ⟨s₁, ?_, (Except.ok.inj h).symm⟩
  rcases hl : (newServer (.object conf)).loadMountpoints J libs 0 (sections (.object conf)) with
    f | s₂ <;> rw [hl] at hload <;> cases hload
  rfl

/-- The keys a server knows. -/
def configKeys : List Bytes :=
  [lit "host", lit "index", lit "port", lit "max_body_size", lit "max_headers_size",
    lit "mountpoints"]

/-- Two configurations that agree on the keys a server knows make the same server, or fail alike,
whatever else they hold and in whatever order their keys stand: in particular the parameters in
front of the mountpoints and those behind them are the same to the mountpoints. -/
theorem created_from_keys (J : JsonLib) (libs : ℕ → SectionLibs) (binds : CharPtr → ℤ → Bool)
    (conf conf' : List (Bytes × Json)) (hkeys : (conf.map Prod.fst).Nodup)
    (hkeys' : (conf'.map Prod.fst).Nodup)
    (h : ∀ key ∈ configKeys, (Json.object conf).get key = (Json.object conf').get key) :
    ahttpdServerCreate J libs binds (.object conf)
      = ahttpdServerCreate J libs binds (.object conf') := by
  have hhost := h (lit "host") (by simp [configKeys])
  have hindex := h (lit "index") (by simp [configKeys])
  have hport := h (lit "port") (by simp [configKeys])
  have hbody := h (lit "max_body_size") (by simp [configKeys])
  have hheaders := h (lit "max_headers_size") (by simp [configKeys])
  have hmounts := h (lit "mountpoints") (by simp [configKeys])
  rw [create_eq binds hkeys, create_eq binds hkeys']
  unfold HttpServer.configured newServer sections hostOf textOf intOf
  rw [hhost, hindex, hport, hbody, hheaders, hmounts]

/-- A configuration without a host, one of whose two sections has no filesystem. -/
def hostlessConf : List (Bytes × Json) :=
  [(lit "mountpoints", .array [
      .object [(lit "mountpoint", .string (lit "/x")), (lit "type", .string (lit "none"))],
      .object [(lit "mountpoint", .string (lit "/c")), (lit "type", .string (lit "control"))]]),
    (lit "index", .string (lit "/www/")), (lit "port", .int 8080)]

theorem created_from_keys_reverse : ahttpdServerCreate .plain (fun _ => {}) (fun _ _ => true)
      (.object hostlessConf)
    = ahttpdServerCreate .plain (fun _ => {}) (fun _ _ => true) (.object hostlessConf.reverse) := by
  refine created_from_keys _ _ _ _ _ (by decide) (by decide) fun key hkey => ?_
  simp only [configKeys, List.mem_cons, List.not_mem_nil, or_false] at hkey
  rcases hkey with rfl | rfl | rfl | rfl | rfl | rfl <;> rfl

end Parameters

section Sections

/-- The mountpoints with the sections they hold. -/
def HttpServer.holders (s : HttpServer) : List (MpId × Json) :=
  s.site.mountpoints.map fun m => (m.mpoint.id, m.props)

/-- The places of the sections that are held. -/
def HttpServer.places (s : HttpServer) : List ℕ := s.holders.map fun m => s.place m.1

/-- Each mountpoint holds a section of its own, in the order of the array up to `n`, and nobody but
`held` and the mountpoints refers to the sections. -/
structure HoldsSections (fstab : List Json) (n : ℕ) (held : ℕ → ℕ) (s : HttpServer) : Prop where
  ids : (s.holders.map Prod.fst).Pairwise (· < ·)
  ids_lt : ∀ m ∈ s.holders, m.1 < s.site.next
  places : s.places.Pairwise (· < ·)
  places_lt : ∀ i ∈ s.places, i < n
  props : ∀ m ∈ s.holders, fstab[s.place m.1]? = some m.2
  refs : ∀ i, s.refs i = held i + if i ∈ s.places then 1 else 0

variable {s s' : HttpServer} {fstab : List Json} {n : ℕ} {held : ℕ → ℕ}

theorem HoldsSections.mono {m : ℕ} (h : HoldsSections fstab n held s) (hnm : n ≤ m) :
    HoldsSections fstab m held s :=
  { h with places_lt := fun i hi => (h.places_lt i hi).trans_le hnm }

theorem HoldsSections.eq_of_id (h : HoldsSections fstab n held s) {x y : Mount}
    (hx : x ∈ s.site.mountpoints) (hy : y ∈ s.site.mountpoints) (hid : x.mpoint.id = y.mpoint.id) :
    x = y := by
  have hnodup : (s.site.mountpoints.map (·.mpoint.id)).Nodup := by
    have := h.ids.imp fun hab => (ne_of_lt hab : _ ≠ _)
    rwa [HttpServer.holders, List.map_map] at this
  exact List.inj_on_of_nodup_map hnodup hx hy hid

/-- The routes, the parameters and the data of the filesystems are no matter. -/
theorem HoldsSections.congr (h : HoldsSections fstab n held s) (hholders : s'.holders = s.holders)
    (hnext : s'.site.next = s.site.next) (hplace : s'.place = s.place) (hrefs : s'.refs = s.refs) :
    HoldsSections fstab n held s' := by
  have hplaces : s'.places = s.places := by
    rw [HttpServer.places, hholders, hplace, HttpServer.places]
  constructor
  · rw [hholders]
    exact h.ids
  · rw [hholders, hnext]
    exact h.ids_lt
  · rw [hplaces]
    exact h.places
  · rw [hplaces]
    exact h.places_lt
  · rw [hholders, hplace]
    exact h.props
  · rw [hplaces, hrefs]
    exact h.refs

theorem next_of_failed {s s' : Site} {opts : Json} {lib : SectionLibs} {ret : ℤ} (hret : ret ≠ 0)
    (h : ahttpdMount J s opts lib = .ok (ret, s')) : s'.next = s.next := by
  unfold ahttpdMount at h
  split at h
  · split at h
    · cases h
      rfl
    · obtain ⟨⟨fsdata, routes⟩, -, h⟩ := Except.bind_eq_ok.1 h
      rcases fsdata with _ | fsdata <;> cases h
      · rfl
      · exact absurd rfl hret
  · cases h

theorem pairwise_concat {l : List ℕ} {a : ℕ} (h : l.Pairwise (· < ·)) (ha : ∀ x ∈ l, x < a) :
    (l ++ [a]).Pairwise (· < ·) := by
  rw [List.pairwise_append]
  exact ⟨h, List.pairwise_singleton _ _, fun x hx y hy => List.mem_singleton.1 hy ▸ ha x hx⟩

/-- A section that mounts is held by its mountpoint, any other is not. -/
theorem HoldsSections.mount (h : HoldsSections fstab n held s) {opts : Json}
    (hopts : fstab[n]? = some opts) (hmount : s.mount J libs n opts = .ok s') :
    HoldsSections fstab (n + 1) held s' := by
  obtain ⟨⟨ret, site⟩, hsite, hmount⟩ := Except.bind_eq_ok.1 hmount
  dsimp only at hmount
  split_ifs at hmount with hret
  · subst hret
    cases hmount
    have hmounts := mounts_of_ahttpdMount hsite
    generalize hr : (0 : ℤ) = ret at hmounts
    cases hmounts with
    | failed => cases hr
    | @mounted mp tp fs fsdata routes hmp htp hfs hfsmount =>
      set site : Site := { mountpoints := s.site.mountpoints ++ [⟨⟨s.site.next, mp⟩, opts, fsdata⟩],
                           routes := routes, next := s.site.next + 1 } with hsite'
      set t : HttpServer := { s.get n with
        site := site, place := Function.update s.place s.site.next n } with ht
      have hholders : t.holders = s.holders ++ [(s.site.next, opts)] := by
        simp [ht, hsite', HttpServer.holders]
      have hold : ∀ m ∈ s.holders, t.place m.1 = s.place m.1 := fun m hm =>
        Function.update_of_ne (h.ids_lt m hm).ne _ _
      have hnew : t.place s.site.next = n := Function.update_self _ _ _
      have hplaces : t.places = s.places ++ [n] := by
        rw [HttpServer.places, hholders, List.map_append, List.map_singleton, hnew,
          List.map_congr_left hold, HttpServer.places]
      constructor
      · rw [hholders, List.map_append]
        exact pairwise_concat h.ids (by simpa using h.ids_lt)
      · intro m hm
        rw [hholders, List.mem_append, List.mem_singleton] at hm
        rcases hm with hm | rfl
        · exact (h.ids_lt m hm).trans (Nat.lt_succ_self _)
        · exact Nat.lt_succ_self _
      · rw [hplaces]
        exact pairwise_concat h.places h.places_lt
      · intro i hi
        rw [hplaces, List.mem_append, List.mem_singleton] at hi
        rcases hi with hi | rfl
        · exact (h.places_lt i hi).trans (Nat.lt_succ_self _)
        · exact Nat.lt_succ_self _
      · intro m hm
        rw [hholders, List.mem_append, List.mem_singleton] at hm
        rcases hm with hm | rfl
        · rw [hold m hm]
          exact h.props m hm
        · rw [hnew]
          exact hopts
      · intro i
        have hn : n ∉ s.places := fun hn => Nat.lt_irrefl n (h.places_lt n hn)
        have hrefs : t.refs = Function.update s.refs n (s.refs n + 1) := rfl
        rw [hplaces, hrefs]
        by_cases hi : i = n
        · subst hi
          simp [h.refs, hn]
        · simp [h.refs, hi]
  · cases hmount
    have hm : site.mountpoints = s.site.mountpoints := by
      cases mounts_of_ahttpdMount hsite with
      | failed hm => exact hm
      | mounted => exact absurd rfl hret
    have hholders : { s with site := site }.holders = s.holders := by
      rw [HttpServer.holders, hm, HttpServer.holders]
    exact (h.congr hholders (next_of_failed hret hsite) rfl rfl).mono (Nat.le_succ n)

theorem HoldsSections.load : ∀ {rest : List Json} {n : ℕ} {s s' : HttpServer},
    HoldsSections fstab n held s → fstab.drop n = rest →
      s.loadMountpoints J libs n rest = .ok s' → HoldsSections fstab (n + rest.length) held s'
  | [], n, s, s', h, _, hload => by
    cases hload
    exact h
  | opts :: rest, n, s, s', h, hdrop, hload => by
    obtain ⟨s₁, hmount, hload⟩ := Except.bind_eq_ok.1 hload
    have hopts : fstab[n]? = some opts := by
      rw [← List.head?_drop, hdrop]
      rfl
    have hrest : fstab.drop (n + 1) = rest := by
      rw [← List.tail_drop, hdrop]
      rfl
    have := (h.mount hopts hmount).load hrest hload
    rw [List.length_cons]
    rwa [Nat.add_right_comm, Nat.add_assoc] at this

theorem newServer_holds (config : Json) : HoldsSections (sections config) 0
    (fun i => if i < (sections config).length then 1 else 0) (newServer config) where
  ids := List.Pairwise.nil
  ids_lt := by simp [HttpServer.holders, newServer]
  places := List.Pairwise.nil
  places_lt := by simp [HttpServer.places, HttpServer.holders, newServer]
  props := by simp [HttpServer.holders, newServer]
  refs := by simp [HttpServer.places, HttpServer.holders, newServer]

theorem of_started {binds : CharPtr → ℤ → Bool} {config : Json}
    (h : started J libs binds config = .ok s) :
    ∃ s₁, ahttpdServerCreate J libs binds config = .ok s₁ ∧ s = configPut config s₁ := by
  unfold started at h
  rcases hc : ahttpdServerCreate J libs binds config with f | s₁ <;> rw [hc] at h
  · cases h
  · exact ⟨s₁, rfl, (Except.ok.inj h).symm⟩

/-- What the server holds when the event loop starts, and where it listens. -/
theorem started_holds {binds : CharPtr → ℤ → Bool} {conf : List (Bytes × Json)}
    (hkeys : (conf.map Prod.fst).Nodup)
    (h : started J libs binds (.object conf) = .ok s) :
    HoldsSections (sections (.object conf)) (sections (.object conf)).length (fun _ => 0) s
      ∧ s.host = hostOf (.object conf) := by
  obtain ⟨s₀, hc, rfl⟩ := of_started h
  obtain ⟨s₁, hload, rfl⟩ := create_ok hkeys hc
  have hold := (newServer_holds (.object conf)).load rfl hload
  rw [Nat.zero_add] at hold
  refine ⟨?_, rfl⟩
  set fstab := sections (.object conf)
  have hplaces : ∀ i ∈ s₁.places, i < fstab.length := hold.places_lt
  constructor
  · exact hold.ids
  · exact hold.ids_lt
  · exact hold.places
  · exact hold.places_lt
  · exact hold.props
  · intro i
    have hrefs := hold.refs i
    show (if i < fstab.length then s₁.refs i - 1 else s₁.refs i)
      = 0 + if i ∈ s₁.places then 1 else 0
    rw [hrefs]
    split_ifs <;> omega

theorem step_holders {L : NodeLibs} {e : MpId × MountEvent} (h : lifeStep L s e = some s') :
    s'.holders = s.holders ∧ s'.site.next = s.site.next ∧ s'.place = s.place ∧ s'.refs = s.refs
      ∧ s'.host = s.host ∧ s'.redirect = s.redirect := by
  simp only [lifeStep, Option.bind_eq_bind, Option.bind_eq_some_iff] at h
  obtain ⟨m, -, ⟨fsdata, routes⟩, -, h⟩ := h
  cases h
  refine ⟨?_, rfl, rfl, rfl, rfl, rfl⟩
  unfold HttpServer.holders
  rw [List.map_map]
  refine List.map_congr_left fun m' _ => ?_
  simp only [Function.comp_apply]
  split_ifs <;> rfl

theorem HoldsSections.step {L : NodeLibs} {e : MpId × MountEvent}
    (hold : HoldsSections fstab n held s) (h : lifeStep L s e = some s') :
    HoldsSections fstab n held s' := by
  obtain ⟨hholders, hnext, hplace, hrefs, -⟩ := step_holders h
  exact hold.congr hholders hnext hplace hrefs

/-- What happens at the mountpoints moves no section. -/
theorem run_holds (L : NodeLibs) {es : List (MpId × MountEvent)} (h : HoldsSections fstab n held s)
    (hrun : run (lifeStep L) s es = some s') :
    HoldsSections fstab n held s' ∧ s'.holders = s.holders ∧ s'.host = s.host := by
  refine run_inv (I := fun t => HoldsSections fstab n held t ∧ t.holders = s.holders
    ∧ t.host = s.host) ?_ es ⟨h, rfl, rfl⟩ (along_true es s) hrun
  rintro t e t' ⟨ht, hholders, hhost⟩ - hstep
  obtain ⟨hholders', -, -, -, hhost', -⟩ := step_holders hstep
  exact ⟨ht.step hstep, hholders'.trans hholders, hhost'.trans hhost⟩

theorem unmounts (L : NodeLibs) (mpoint : Mpoint) (routes : Routes) (fsdata : Fsdata) :
    ∃ routes', fsdata.unmount L mpoint routes = some routes' := by
  rcases fsdata with _ | _ | nd | (_ | _ | _) | _
  · exact ⟨_, rfl⟩
  · exact ⟨_, rfl⟩
  · exact ⟨_, etblChanged_none (L := L) _ _⟩
  all_goals exact ⟨_, rfl⟩

/-- Taking a mountpoint down gives up its section. -/
theorem HoldsSections.unmount (L : NodeLibs) {pos : Mount} {tmp : List Mount}
    (h : HoldsSections fstab n (fun _ => 0) s) (hm : s.site.mountpoints = pos :: tmp) :
    ∃ s', ahttpdUnmount L s pos = .ok s' ∧ HoldsSections fstab n (fun _ => 0) s'
      ∧ s'.site.mountpoints = tmp ∧ s'.host = s.host := by
  obtain ⟨routes, hroutes⟩ := unmounts L pos.mpoint s.site.routes pos.fsdata
  have hholders : s.holders = (pos.mpoint.id, pos.props)
      :: tmp.map fun m => (m.mpoint.id, m.props) := by
    rw [HttpServer.holders, hm]
    rfl
  have hplaces : s.places = s.place pos.mpoint.id
      :: (tmp.map fun m => (m.mpoint.id, m.props)).map fun m => s.place m.1 := by
    rw [HttpServer.places, hholders]
    rfl
  have hids := h.ids
  have hpl := h.places
  have hrefs := h.refs
  rw [hholders, List.map_cons, List.pairwise_cons] at hids
  rw [hplaces, List.pairwise_cons] at hpl
  simp only [hplaces, List.mem_cons] at hrefs
  have hone : s.refs (s.place pos.mpoint.id) = 1 := by simp [hrefs]
  have hkeep : s.site.mountpoints.filter (·.mpoint.id ≠ pos.mpoint.id) = tmp := by
    rw [hm, List.filter_cons_of_neg (by simp), List.filter_eq_self]
    intro m hmem
    have := hids.1 m.mpoint.id (by simpa using ⟨m, hmem, rfl⟩)
    simpa using this.ne'
  set s₁ : HttpServer := { s with
    refs := Function.update s.refs (s.place pos.mpoint.id) 0
    site := { s.site with routes := routes, mountpoints := tmp } } with hs₁
  have hholders₁ : s₁.holders = tmp.map fun m => (m.mpoint.id, m.props) := rfl
  have hplaces₁ : s₁.places
      = (tmp.map fun m => (m.mpoint.id, m.props)).map fun m => s.place m.1 := rfl
  refine ⟨s₁, ?_, ?_, rfl, rfl⟩
  · unfold ahttpdUnmount
    simp only [hroutes, HttpServer.put, hone, Nat.one_ne_zero, if_false, Except.ok_bind, hkeep]
    rfl
  · constructor
    · rw [hholders₁]
      exact hids.2
    · exact fun m hmem => h.ids_lt m (by rw [hholders]; exact List.mem_cons_of_mem _ hmem)
    · rw [hplaces₁]
      exact hpl.2
    · exact fun i hi => h.places_lt i (by rw [hplaces]; exact List.mem_cons_of_mem _ hi)
    · exact fun m hmem => h.props m (by rw [hholders]; exact List.mem_cons_of_mem _ hmem)
    · intro i
      have hi := hrefs i
      rw [hplaces₁]
      by_cases hpos : i = s.place pos.mpoint.id
      · have hnot : i ∉ (tmp.map fun m => (m.mpoint.id, m.props)).map fun m => s.place m.1 :=
          fun hmem => Nat.lt_irrefl i (hpos ▸ hpl.1 i hmem)
        rw [if_neg hnot, hs₁, hpos]
        exact Function.update_self _ _ _
      · rw [hs₁]
        simp only [Function.update_of_ne hpos]
        simpa [hpos] using hi

theorem HoldsSections.unmountAll (L : NodeLibs) : ∀ {tmp : List Mount} {s : HttpServer},
    HoldsSections fstab n (fun _ => 0) s → s.site.mountpoints = tmp →
      ∃ s', unmountAll L s tmp = .ok s' ∧ HoldsSections fstab n (fun _ => 0) s'
        ∧ s'.site.mountpoints = [] ∧ s'.host = s.host
  | [], s, h, hm => ⟨s, rfl, h, hm, rfl⟩
  | pos :: tmp, s, h, hm => by
    obtain ⟨s₁, hun, h₁, hm₁, hhost₁⟩ := h.unmount L hm
    obtain ⟨s', hall, h', hm', hhost'⟩ := h₁.unmountAll L hm₁
    refine ⟨s', ?_, h', hm', hhost'.trans hhost₁⟩
    rw [Config.unmountAll, hun, Except.ok_bind, hall]

/-- The sections with what is told of each from outside. -/
def withLibs (libs : ℕ → SectionLibs) : ℕ → List Json → List (Json × SectionLibs)
  | _, [] => []
  | i, j :: fstab => (j, libs i) :: withLibs libs (i + 1) fstab

theorem load_site : ∀ {fstab : List Json} {s s' : HttpServer} {i : ℕ},
    s.loadMountpoints J libs i fstab = .ok s' →
      loadMountpoints J s.site (withLibs libs i fstab) = .ok s'.site
  | [], _, _, _, h => by
    cases h
    rfl
  | j :: fstab, s, s', i, h => by
    obtain ⟨s₁, hmount, h⟩ := Except.bind_eq_ok.1 h
    obtain ⟨⟨ret, site⟩, hsite, hmount⟩ := Except.bind_eq_ok.1 hmount
    have hs₁ : s₁.site = site := by
      dsimp only at hmount
      split_ifs at hmount <;> cases hmount <;> rfl
    have := load_site h
    rw [withLibs, loadMountpoints, hsite, Except.ok_bind, ← hs₁]
    exact this

/-- Wherever loading comes to, what is mounted is what `ahttpd_mount` returned zero for. -/
theorem props_load : ∀ {fstab : List (Json × SectionLibs)} {s s' : Site},
    loadMountpoints J s fstab = .ok s' → s'.mountpoints.map Mount.props
      = s.mountpoints.map Mount.props ++ (mountedSections J s fstab).map Prod.fst
  | [], s, s', h => by
    cases h
    simp [mountedSections]
  | (opts, lib) :: fstab, s, s', h => by
    obtain ⟨⟨ret, s₁⟩, hmount, h⟩ := Except.bind_eq_ok.1 h
    rw [props_load h]
    simp only [mountedSections, hmount]
    cases mounts_of_ahttpdMount hmount with
    | failed hm => simp [hm]
    | mounted => simp

theorem hostlessConf_starts : ∃ s₀,
    started .plain (fun _ => {}) (fun _ _ => true) (.object hostlessConf) = .ok s₀ := by
  have hok : (started .plain (fun _ => {}) (fun _ _ => true) (.object hostlessConf)).isOk = true :=
    by decide +kernel
  rcases h : started .plain (fun _ => {}) (fun _ _ => true) (.object hostlessConf) with f | s₀
  · rw [h] at hok
    cases hok
  · exact ⟨s₀, rfl⟩

/-- The section of a node and that of the buffers stored there. -/
def onlineSection : Json :=
  .object [(lit "mountpoint", .string (lit "/online")), (lit "type", .string (lit "node")),
    (lit "transport", .string (lit "usb")), (lit "options", .string (lit "1d50:6032"))]

def bufSection : Json :=
  .object [(lit "mountpoint", .string (lit "/buf")), (lit "type", .string (lit "upload")),
    (lit "mode", .string (lit "buffer")), (lit "owner", .string (lit "/online"))]

/-- A configuration with a host, the first of whose sections has no filesystem. -/
def busyConf : List (Bytes × Json) :=
  [(lit "host", .string (lit "0.0.0.0")),
    (lit "mountpoints", .array [
      .object [(lit "mountpoint", .string (lit "/x")), (lit "type", .string (lit "none"))],
      onlineSection, bufSection]),
    (lit "index", .string (lit "/www/"))]

/-- The node's table comes, is replaced by none and comes again, and calls and buffers come and go;
a call and a buffer are left. -/
def busyLife : List (MpId × MountEvent) :=
  [(0, .etblChanged (some pingTable)), (0, .callCreate true), (1, .handleData true),
    (0, .callReadout 0), (0, .callCreate true), (1, .handleData true), (0, .callDelete 0),
    (1, .drop 0), (0, .etblChanged none), (0, .etblChanged (some pingTable))]

theorem ok_of_toOption {ε α : Type*} {x : Except ε α} {a : α} (h : x.toOption = some a) :
    x = .ok a := by
  rcases x with f | b
  · cases h
  · exact congrArg _ (Option.some.inj h)

theorem busyLife_runs : ∃ s₀ s s',
    started .plain (fun _ => {}) (fun _ _ => true) (.object busyConf) = .ok s₀
      ∧ run (lifeStep .plain) s₀ busyLife = some s
      ∧ unmountAll .plain s s.site.mountpoints = .ok s' ∧ s₀.site.mountpoints.length = 2
      ∧ s.places = [1, 2] ∧ s.site.mountpoints.map (·.mpoint.id) = [0, 1] := by
  have hlife : ((started .plain (fun _ => {}) (fun _ _ => true) (.object busyConf)).toOption.bind
      fun s₀ => (run (lifeStep .plain) s₀ busyLife).bind fun s =>
        (unmountAll .plain s s.site.mountpoints).toOption.map fun _ =>
          (s₀.site.mountpoints.length, s.places, s.site.mountpoints.map (·.mpoint.id)))
      = some (2, [1, 2], [0, 1]) := by
    decide +kernel
  obtain ⟨s₀, h, hlife⟩ := Option.bind_eq_some_iff.1 hlife
  obtain ⟨s, hrun, hlife⟩ := Option.bind_eq_some_iff.1 hlife
  obtain ⟨s', hall, hlife⟩ := Option.map_eq_some_iff.1 hlife
  simp only [Prod.mk.injEq] at hlife
  exact ⟨s₀, s, s', ok_of_toOption h, hrun, ok_of_toOption hall, hlife⟩

end Sections

end AuraHttpd.Config
