import AuraHttpd.Lib.PrefixTable
import AuraHttpd.Proofs.Mounting
import Mathlib.Data.List.MinMax

/-!
# Requests for static mountpoints

A request goes to the static mountpoint that was mounted first of those whose path it begins with
(`section_genericRoute`), byte by byte and with the query.  With paths that are URI paths this is
how a filesystem is looked up exactly where all of them end in a slash and none is mounted behind
one it extends.
-/

namespace AuraHttpd.Config

open CString PrefixTable

variable {J : JsonLib} {s s' : Site} {mpoint : Mpoint} {props opts : Json} {libs : SectionLibs}

section Sections

/-- The path a section is mounted at. -/
def mountPath (J : JsonLib) (opts : Json) : Bytes :=
  (jsonArrayFindString J opts (lit "mountpoint")).getD []

/-- The static sections of an array. -/
def staticSections (J : JsonLib) (fstab : List (Json × SectionLibs)) : List Json :=
  (fstab.map Prod.fst).filter fun opts =>
    jsonArrayFindString J opts (lit "type") = some FsType.static.name

def Mount.isStatic (m : Mount) : Bool :=
  match m.fsdata with
  | .static _ => true
  | _ => false

/-- The static mountpoints. -/
def Site.statics (s : Site) : List Mount := s.mountpoints.filter Mount.isStatic

/-- What a mountpoint has from its section. -/
structure OfSection (J : JsonLib) (m : Mount) : Prop where
  mountpoint : mountPath J m.props = m.mpoint.mountpoint
  static : ∀ fsd, m.fsdata = .static fsd → staticMount J m.props = .ok fsd

theorem not_static {fs : FsType} {fsdata : Fsdata} (hfs : fs ≠ .static)
    (hdata : ∀ fsd, fsdata ≠ .static fsd) : (fs = .static ↔ ∃ fsd, fsdata = .static fsd)
      ∧ ∀ fsd, fsdata = .static fsd → staticMount J opts = .ok fsd :=
  ⟨iff_of_false hfs fun ⟨fsd, h⟩ => hdata fsd h, fun fsd h => absurd h (hdata fsd)⟩

/-- Static sections have static data, made from the section alone, and no others have. -/
theorem static_of_mount {fs : FsType} {fsdata : Fsdata} {routes : Routes}
    (h : fs.mount J s mpoint opts libs = .ok (some fsdata, routes)) :
    (fs = .static ↔ ∃ fsd, fsdata = .static fsd)
      ∧ ∀ fsd, fsdata = .static fsd → staticMount J opts = .ok fsd := by
  cases fsMounts_of_mount h with
  | @static fsd hst =>
    refine ⟨iff_of_true rfl ⟨fsd, rfl⟩, fun fsd' h => ?_⟩
    cases h
    exact hst
  | control | node | upload | v4l2 => exact not_static (by decide) (by simp)

/-- A static section does not fail. -/
theorem static_mounts {ret : ℤ} (h : ahttpdMount J s opts libs = .ok (ret, s'))
    (htype : jsonArrayFindString J opts (lit "type") = some FsType.static.name) : ret = 0 := by
  unfold ahttpdMount at h
  rw [htype] at h
  rcases hmp : jsonArrayFindString J opts (lit "mountpoint") with _ | mp <;> rw [hmp] at h
  · cases h
  dsimp only at h
  rw [lookup_name] at h
  simp only [FsType.mount] at h
  rcases hst : staticMount J opts with e | fsd <;> rw [hst] at h <;> cases h
  rfl

/-- One section adds at most one static mountpoint, its own. -/
theorem statics_ahttpdMount {ret : ℤ} (h : ahttpdMount J s opts libs = .ok (ret, s')) :
    s'.statics.map Mount.props = s.statics.map Mount.props ++ staticSections J [(opts, libs)]
      ∧ ((∀ m ∈ s.mountpoints, OfSection J m) → ∀ m ∈ s'.mountpoints, OfSection J m) := by
  have hstatic := static_mounts h
  cases mounts_of_ahttpdMount h with
  | failed hm _ =>
    have htype : jsonArrayFindString J opts (lit "type") ≠ some FsType.static.name := by
      intro htype
      cases hstatic htype
    simp [Site.statics, hm, staticSections, htype]
  | @mounted mp tp fs fsdata routes hmp htp hfs hmount =>
    obtain rfl := name_of_lookup hfs
    obtain ⟨hiff, hof⟩ := static_of_mount hmount
    refine ⟨?_, fun hs m hm => ?_⟩
    · simp only [Site.statics, List.filter_append, List.map_append]
      congr 1
      have htype : jsonArrayFindString J opts (lit "type") = some FsType.static.name
          ↔ fs = .static := by rw [htp, Option.some.injEq, name_inj]
      by_cases hfs : fs = .static
      · obtain ⟨fsd, rfl⟩ := hiff.1 hfs
        have hyes : Mount.isStatic ⟨⟨s.next, mp⟩, opts, .static fsd⟩ = true := rfl
        simp [staticSections, htype, hfs, hyes]
      · have hdata : ∀ fsd, fsdata ≠ .static fsd := fun fsd h => hfs (hiff.2 ⟨fsd, h⟩)
        have hnot : Mount.isStatic ⟨⟨s.next, mp⟩, opts, fsdata⟩ = false := by
          cases fsdata with
          | static fsd => exact absurd rfl (hdata fsd)
          | _ => rfl
        simp [staticSections, htype, hfs, hnot]
    · rcases List.mem_append.1 hm with hm | hm
      · exact hs m hm
      · obtain rfl := List.mem_singleton.1 hm
        exact ⟨by rw [mountPath, hmp, Option.getD_some], hof⟩

/-- The static mountpoints are those of the static sections, in their order. -/
theorem statics_load : ∀ {fstab : List (Json × SectionLibs)} {s s' : Site},
    loadMountpoints J s fstab = .ok s' →
      s'.statics.map Mount.props = s.statics.map Mount.props ++ staticSections J fstab
        ∧ ((∀ m ∈ s.mountpoints, OfSection J m) → ∀ m ∈ s'.mountpoints, OfSection J m)
  | [], s, s', h => by
    cases h
    exact ⟨by simp [staticSections], id⟩
  | (opts, libs) :: fstab, s, s', h => by
    obtain ⟨⟨ret, s₁⟩, hmount, hload⟩ := Except.bind_eq_ok.1 h
    obtain ⟨hprops, hof⟩ := statics_ahttpdMount hmount
    obtain ⟨hprops', hof'⟩ := statics_load hload
    refine ⟨?_, hof' ∘ hof⟩
    rw [hprops', hprops, List.append_assoc]
    simp only [staticSections, List.map_cons, List.map_nil, ← List.filter_append,
      List.singleton_append]

end Sections

section Routing

/-- The section a request is routed to. -/
def Routing.section : Routing → Option Json
  | .route pos _ => some pos.props
  | .sendError _ _ => none

theorem genericRouteLoop_cons_of_static {uri : Bytes} {m : Mount} {fsd : StaticfsData}
    (h : m.fsdata = .static fsd) (ms : List Mount) : genericRouteLoop uri (m :: ms)
      = if m.mpoint.mountpoint <+: uri then .route m fsd else genericRouteLoop uri ms := by
  simp only [genericRouteLoop, strncmp_eq_iff, h]

theorem genericRouteLoop_cons_of_not {uri : Bytes} {m : Mount} (h : m.isStatic = false)
    (ms : List Mount) : genericRouteLoop uri (m :: ms) = genericRouteLoop uri ms := by
  have hdata : ∀ fsd, m.fsdata ≠ .static fsd := by
    intro fsd hm
    rw [Mount.isStatic, hm] at h
    cases h
  rw [genericRouteLoop]
  split_ifs
  · split
    · exact absurd ‹_› (hdata _)
    · rfl
  · rfl

theorem exists_static {m : Mount} (h : m.isStatic = true) : ∃ fsd, m.fsdata = .static fsd := by
  unfold Mount.isStatic at h
  split at h
  · exact ⟨_, ‹_›⟩
  · cases h

/-- The mountpoint a request is routed to is a static one, and its path a prefix. -/
theorem mem_of_route {uri : Bytes} {m : Mount} {fsd : StaticfsData} : ∀ {ms : List Mount},
    genericRouteLoop uri ms = .route m fsd →
      m ∈ ms ∧ m.fsdata = .static fsd ∧ m.mpoint.mountpoint <+: uri
  | [], h => by cases h
  | pos :: ms, h => by
    by_cases hstatic : pos.isStatic = true
    · obtain ⟨fsd', hpos⟩ := exists_static hstatic
      rw [genericRouteLoop_cons_of_static hpos] at h
      split_ifs at h with hpre
      · cases h
        exact ⟨List.mem_cons_self, hpos, hpre⟩
      · exact (mem_of_route h).imp_left (List.mem_cons_of_mem _)
    · rw [genericRouteLoop_cons_of_not (by simpa using hstatic)] at h
      exact (mem_of_route h).imp_left (List.mem_cons_of_mem _)

/-- The section is the first static one whose path the URI begins with. -/
theorem section_genericRouteLoop {uri : Bytes} : ∀ {ms : List Mount},
    (∀ m ∈ ms, OfSection J m) → (genericRouteLoop uri ms).section
      = lookup (mountPath J) ((ms.filter Mount.isStatic).map Mount.props) uri
  | [], _ => rfl
  | m :: ms, h => by
    obtain ⟨hm, h⟩ := List.forall_mem_cons.1 h
    by_cases hstatic : m.isStatic = true
    · obtain ⟨fsd, hfsd⟩ := exists_static hstatic
      rw [genericRouteLoop_cons_of_static hfsd, List.filter_cons_of_pos hstatic, List.map_cons]
      by_cases hpre : m.mpoint.mountpoint <+: uri
      · rw [if_pos hpre, lookup, List.find?_cons_of_pos (by simpa [hm.mountpoint] using hpre)]
        rfl
      · rw [if_neg hpre, lookup, List.find?_cons_of_neg (by simpa [hm.mountpoint] using hpre)]
        exact section_genericRouteLoop h
    · rw [genericRouteLoop_cons_of_not (by simpa using hstatic), List.filter_cons_of_neg hstatic]
      exact section_genericRouteLoop h

theorem section_eq_none_iff {uri : Bytes} : ∀ {ms : List Mount},
    (genericRouteLoop uri ms).section = none
      ↔ genericRouteLoop uri ms = .sendError 404 (lit "Not Found")
  | [] => iff_of_true rfl rfl
  | m :: ms => by
    by_cases hstatic : m.isStatic = true
    · obtain ⟨fsd, hfsd⟩ := exists_static hstatic
      rw [genericRouteLoop_cons_of_static hfsd]
      split_ifs
      · exact iff_of_false nofun nofun
      · exact section_eq_none_iff
    · rw [genericRouteLoop_cons_of_not (by simpa using hstatic)]
      exact section_eq_none_iff

variable {fstab : List (Json × SectionLibs)}

/-- After loading, a request goes to the first static section whose path it begins with. -/
theorem section_genericRoute (h : loadMountpoints J {} fstab = .ok s) (uri : Bytes) :
    (genericRoute s uri).section = lookup (mountPath J) (staticSections J fstab) uri := by
  obtain ⟨hprops, hof⟩ := statics_load h
  rw [genericRoute, section_genericRouteLoop (hof (by simp))]
  simp only [Site.statics, List.filter_nil, List.map_nil, List.nil_append] at hprops
  rw [hprops]

end Routing

section Filesystem

/-- The path of a request target. -/
def uriPath (uri : Bytes) : Bytes := uri.takeWhile fun c => c ≠ 63 ∧ c ≠ 35

/-- A path as a request target has it. -/
def IsUriPath (path : Bytes) : Prop := path.head? = some 47 ∧ ∀ c ∈ path, c ≠ 63 ∧ c ≠ 35

/-- A prefix of the path that ends where a component does. -/
def ComponentPrefix (p path : Bytes) : Prop :=
  ∃ rest, path = p ++ rest ∧ (rest = [] ∨ rest.head? = some 47 ∨ p.getLast? = some 47)

/-- The path is routed as a filesystem is looked up: to the section with the longest path that ends
where a component does. -/
def LikeFilesystem (J : JsonLib) (sections : List Json) (path : Bytes) : Option Json → Prop
  | none => ∀ sec ∈ sections, ¬ ComponentPrefix (mountPath J sec) path
  | some sec => sec ∈ sections ∧ ComponentPrefix (mountPath J sec) path
      ∧ ∀ sec' ∈ sections, ComponentPrefix (mountPath J sec') path →
        (mountPath J sec').length ≤ (mountPath J sec).length

/-- Every path ends in a slash, and none is mounted behind one it extends. -/
def DirectoryPaths (J : JsonLib) (sections : List Json) : Prop :=
  (∀ sec ∈ sections, (mountPath J sec).getLast? = some 47) ∧ NestedFirst (mountPath J) sections

theorem ComponentPrefix.isPrefix {p path : Bytes} (h : ComponentPrefix p path) : p <+: path := by
  obtain ⟨rest, rfl, -⟩ := h
  exact List.prefix_append p rest

theorem componentPrefix_self (p : Bytes) : ComponentPrefix p p := ⟨[], by simp, .inl rfl⟩

theorem uriPath_of_forall {path : Bytes} (h : ∀ c ∈ path, c ≠ 63 ∧ c ≠ 35) :
    uriPath path = path := by
  rw [uriPath, List.takeWhile_eq_self_iff]
  simpa using h

/-- Of a path that ends in a slash the query makes no difference. -/
theorem componentPrefix_uriPath {p : Bytes} (hp : ∀ c ∈ p, c ≠ 63 ∧ c ≠ 35)
    (hslash : p.getLast? = some 47) (uri : Bytes) :
    ComponentPrefix p (uriPath uri) ↔ p <+: uri := by
  constructor
  · intro h
    have hcut : uriPath uri <+: uri := List.takeWhile_prefix _
    exact h.isPrefix.trans hcut
  · rintro ⟨rest, rfl⟩
    refine ⟨uriPath rest, ?_, .inr (.inr hslash)⟩
    rw [uriPath, List.takeWhile_append_of_pos (by simpa using hp), uriPath]

variable {sections : List Json}

theorem likeFilesystem_of_directoryPaths (hpath : ∀ sec ∈ sections, IsUriPath (mountPath J sec))
    (h : DirectoryPaths J sections) (uri : Bytes) :
    LikeFilesystem J sections (uriPath uri) (lookup (mountPath J) sections uri) := by
  have hiff : ∀ sec ∈ sections,
      (ComponentPrefix (mountPath J sec) (uriPath uri) ↔ mountPath J sec <+: uri) :=
    fun sec hsec => componentPrefix_uriPath (hpath sec hsec).2 (h.1 sec hsec) uri
  rcases hlookup : lookup (mountPath J) sections uri with _ | sec
  · exact fun sec hsec => (hiff sec hsec).not.2 (lookup_eq_none_iff.1 hlookup sec hsec)
  · obtain ⟨hsec, hpre, hlong⟩ := longest_of_lookup h.2 hlookup
    exact ⟨hsec, (hiff sec hsec).2 hpre,
      fun sec' hsec' hc => hlong sec' hsec' ((hiff sec' hsec').1 hc)⟩

/-- Of the paths without a slash at the end one is longest. -/
theorem exists_longest_bare (h : ¬ ∀ sec ∈ sections, (mountPath J sec).getLast? = some 47) :
    ∃ sec ∈ sections, (mountPath J sec).getLast? ≠ some 47
      ∧ ∀ sec' ∈ sections, (mountPath J sec').getLast? ≠ some 47 →
        (mountPath J sec').length ≤ (mountPath J sec).length := by
  classical
  let bare := sections.filter fun sec => (mountPath J sec).getLast? ≠ some 47
  have hmem : ∀ sec, sec ∈ bare ↔ sec ∈ sections ∧ (mountPath J sec).getLast? ≠ some 47 := by
    simp [bare]
  have hbare : bare ≠ [] := by
    push Not at h
    obtain ⟨sec, hsec, hslash⟩ := h
    exact List.ne_nil_of_mem ((hmem sec).2 ⟨hsec, hslash⟩)
  obtain ⟨sec, hsec⟩ := Option.ne_none_iff_exists'.1
    (mt (List.argmax_eq_none (f := fun sec => (mountPath J sec).length)).1 hbare)
  obtain ⟨hsections, hslash⟩ := (hmem sec).1 (List.argmax_mem hsec)
  refine ⟨sec, hsections, hslash, fun sec' hsec' hslash' => ?_⟩
  exact List.le_of_mem_argmax (f := fun sec => (mountPath J sec).length)
    ((hmem sec').2 ⟨hsec', hslash'⟩) hsec

/-- A path without a slash at its end takes the requests for its extensions, of which the longest
is no path. -/
theorem slash_of_likeFilesystem (hpath : ∀ sec ∈ sections, IsUriPath (mountPath J sec))
    (h : ∀ uri, uri.head? = some 47 →
      LikeFilesystem J sections (uriPath uri) (lookup (mountPath J) sections uri)) :
    ∀ sec ∈ sections, (mountPath J sec).getLast? = some 47 := by
  by_contra hno
  obtain ⟨sec, hsec, hbare, hmax⟩ := exists_longest_bare hno
  have hp := hpath sec hsec
  have hx : ∀ c ∈ mountPath J sec ++ [120], c ≠ 63 ∧ c ≠ 35 := by
    intro c hc
    rcases List.mem_append.1 hc with hc | hc
    · exact hp.2 c hc
    · obtain rfl := List.mem_singleton.1 hc
      decide
  -- no path is the extension by one letter, so both requests are routed alike
  have hsame : lookup (mountPath J) sections (mountPath J sec ++ [120])
      = lookup (mountPath J) sections (mountPath J sec) := by
    refine lookup_congr fun b hb => ⟨fun hpre => ?_, fun hpre => ?_⟩
    · rcases List.prefix_concat_iff.1 hpre with heq | hpre
      · have hle := hmax b hb (by simp [heq])
        rw [heq, List.length_append, List.length_singleton] at hle
        omega
      · exact hpre
    · exact hpre.trans (List.prefix_append _ _)
  have hown := h (mountPath J sec) hp.1
  have hext := h (mountPath J sec ++ [120]) (by rw [List.head?_append, hp.1]; rfl)
  rw [uriPath_of_forall hp.2] at hown
  rw [uriPath_of_forall hx, hsame] at hext
  generalize lookup (mountPath J) sections (mountPath J sec) = found at hown hext
  rcases found with _ | a
  · exact hown sec hsec (componentPrefix_self _)
  have hpre := hown.2.1.isPrefix
  have heq := hpre.eq_of_length
    (le_antisymm hpre.length_le (hown.2.2 sec hsec (componentPrefix_self _)))
  obtain ⟨rest, hrest, hlimit⟩ := hext.2.1
  rw [heq, List.append_cancel_left_eq] at hrest
  subst hrest
  rw [heq] at hlimit
  rcases hlimit with hlimit | hlimit | hlimit
  · cases hlimit
  · exact absurd hlimit (by decide)
  · exact hbare hlimit

theorem nestedFirst_of_likeFilesystem (hpath : ∀ sec ∈ sections, IsUriPath (mountPath J sec))
    (hdistinct : (sections.map (mountPath J)).Nodup)
    (h : ∀ uri, uri.head? = some 47 →
      LikeFilesystem J sections (uriPath uri) (lookup (mountPath J) sections uri)) :
    NestedFirst (mountPath J) sections := by
  refine nestedFirst_of_longest hdistinct fun sec hsec a ha => ?_
  have hroute := h (mountPath J sec) (hpath sec hsec).1
  rw [uriPath_of_forall (hpath sec hsec).2, ha] at hroute
  obtain ⟨hmem, hpre, hlong⟩ := hroute
  refine ⟨hmem, hpre.isPrefix, fun b hb hbpre => ?_⟩
  exact hbpre.length_le.trans (hlong sec hsec (componentPrefix_self _))

/-- Requests for URI paths are routed as a filesystem is looked up exactly with paths of
directories, the longer ones first. -/
theorem likeFilesystem_iff (hpath : ∀ sec ∈ sections, IsUriPath (mountPath J sec))
    (hdistinct : (sections.map (mountPath J)).Nodup) :
    (∀ uri, uri.head? = some 47 →
        LikeFilesystem J sections (uriPath uri) (lookup (mountPath J) sections uri))
      ↔ DirectoryPaths J sections :=
  ⟨fun h => ⟨slash_of_likeFilesystem hpath h, nestedFirst_of_likeFilesystem hpath hdistinct h⟩,
    fun h uri _ => likeFilesystem_of_directoryPaths hpath h uri⟩

/-- Of every array of sections that loads, with distinct static paths: a request goes to the static
section mounted first of those whose path it begins with, and to none is answered 404; only the
order of sections of which one's path extends the other's matters; and where the paths are URI
paths, requests are routed as a filesystem is looked up exactly if all are paths of directories, the
longer ones first. -/
theorem routed_to_first_mounted (J : JsonLib) (fstab : List (Json × SectionLibs)) (s : Site)
    (hload : loadMountpoints J {} fstab = .ok s)
    (hdistinct : ((staticSections J fstab).map (mountPath J)).Nodup) :
    (∀ uri, (genericRoute s uri).section
        = (staticSections J fstab).find? fun sec => mountPath J sec <+: uri)
      ∧ (∀ uri, genericRoute s uri = .sendError 404 (lit "Not Found")
        ↔ ∀ sec ∈ staticSections J fstab, ¬ mountPath J sec <+: uri)
      ∧ (∀ fstab' s', loadMountpoints J {} fstab' = .ok s' →
        (staticSections J fstab).Perm (staticSections J fstab') →
        (∀ a b, mountPath J a <+: mountPath J b →
          ([a, b].Sublist (staticSections J fstab) ↔ [a, b].Sublist (staticSections J fstab'))) →
        ∀ uri, (genericRoute s uri).section = (genericRoute s' uri).section)
      ∧ ((∀ sec ∈ staticSections J fstab, IsUriPath (mountPath J sec)) →
        ((∀ uri, uri.head? = some 47 →
            LikeFilesystem J (staticSections J fstab) (uriPath uri) (genericRoute s uri).section)
          ↔ DirectoryPaths J (staticSections J fstab))) := by
  refine ⟨section_genericRoute hload, fun uri => ?_, fun fstab' s' hload' hperm hsame uri => ?_,
    fun hpath => ?_⟩
  · rw [← lookup_eq_none_iff, ← section_genericRoute hload]
    exact section_eq_none_iff.symm
  · rw [section_genericRoute hload, section_genericRoute hload']
    exact lookup_perm hperm hdistinct hsame uri
  · rw [← likeFilesystem_iff hpath hdistinct]
    simp only [section_genericRoute hload]

/-- A static section of the configuration. -/
def wwwSection (mountpoint : Bytes) : Json := .object [(lit "type", .string (lit "static")),
  (lit "mountpoint", .string mountpoint), (lit "dir", .string (lit "../www"))]

/-- Two static mountpoints of the configuration, of which no path extends the other. -/
theorem routed_to_static_html : ∃ s,
    loadMountpoints .plain {} [(wwwSection (lit "/static/"), {}),
      (wwwSection (lit "/static-html/"), {})] = .ok s
      ∧ (genericRoute s (lit "/static-html/?a=/static/")).section
        = some (wwwSection (lit "/static-html/")) := by
  obtain ⟨s, hload⟩ : ∃ s, loadMountpoints .plain {} [(wwwSection (lit "/static/"), {}),
    (wwwSection (lit "/static-html/"), {})] = .ok s := ⟨_, rfl⟩
  refine ⟨s, hload, ?_⟩
  rw [(routed_to_first_mounted .plain _ s hload (by decide)).1]
  rfl

/-- The shorter path is mounted first. -/
theorem shorter_path_first : ¬ ∀ (J : JsonLib) (fstab : List (Json × SectionLibs)) (s : Site),
    loadMountpoints J {} fstab = .ok s →
    ((staticSections J fstab).map (mountPath J)).Nodup → ∀ uri, uri.head? = some 47 →
      LikeFilesystem J (staticSections J fstab) (uriPath uri) (genericRoute s uri).section := by
  intro h
  obtain ⟨-, -, hlong⟩ := h .plain [(wwwSection (lit "/static/"), {}),
    (wwwSection (lit "/static/img/"), {})] _ rfl (by decide) (lit "/static/img/a.png") rfl
  have hle := hlong (wwwSection (lit "/static/img/")) (.tail _ (.head _))
    ⟨lit "a.png", rfl, .inr (.inr rfl)⟩
  exact absurd hle (by decide)

end Filesystem

end AuraHttpd.Config
