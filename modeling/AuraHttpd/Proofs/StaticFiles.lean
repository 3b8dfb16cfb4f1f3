import AuraHttpd.Lib.LexicalPath
import AuraHttpd.Proofs.StaticRoutes

/-!
# Requests a static mountpoint serves

What the router does for a request is one of seven things (`Serves`), by what the system calls tell
it.  A path it uses lies inside the directory where what stands behind the mountpoint in the URI
does not climb out of it (`inside_htdocs_iff`), and an answer is missing where a file or a listing
cannot be opened.
-/

namespace AuraHttpd

open CString LexicalPath

section Router

variable {libs : StaticLibs} {fsd : StaticfsData} {mpoint : Mpoint} {uri : Bytes}

/-- What `serve_file` sends of a file. -/
def fileReply (libs : StaticLibs) (path : Bytes) : Option Reply := do
  let sz ← libs.fopen path
  let file ← libs.openRdonly path
  some (.data (file sz))

theorem serveFile_eq (r : StaticRequest) (path mimetype : Bytes) :
    serveFile libs r path mimetype = match fileReply libs path with
      | none => (-1, r)
      | some reply => (0, (r.addHeader (lit "Content-Type") mimetype).reply reply) := by
  unfold serveFile fileReply
  rcases libs.fopen path with _ | sz
  · rfl
  · rcases libs.openRdonly path with _ | file <;> rfl

/-- What is sent in place of a directory. -/
def dirReply (libs : StaticLibs) (fsd : StaticfsData) (path uri : Bytes) : Option Reply :=
  (fsd.dirindexfunc.dirindexfunc libs { uri := uri } path uri).replies.head?

theorem dirindexfunc_eq (r : StaticRequest) (path rdir : Bytes) :
    fsd.dirindexfunc.dirindexfunc libs r path rdir
      = { r with replies := r.replies ++ (dirReply libs fsd path rdir).toList } := by
  unfold dirReply
  rcases fsd.dirindexfunc
  · rfl
  · simp only [DirIndex.dirindexfunc, indexJson]
    rcases libs.opendir path with _ | ents <;> simp [StaticRequest.reply]
  · simp only [DirIndex.dirindexfunc, indexHtml]
    rcases libs.opendir path with _ | ents <;> simp [StaticRequest.reply]

/-- The type of an index. -/
def indexType : Bytes := lit "text/html; charset=UTF-8"

/-- What the router uses and sends for a path that goes on from `htdocs` by the rest of the URI. -/
inductive Serves (libs : StaticLibs) (fsd : StaticfsData) (uri path : Bytes) :
    List PathUse → List Reply → Prop where
  | noPath (hpath : libs.path = false) :
      Serves libs fsd uri path []
        [.error 500 (lit "Internal server fuckup. That's all I know")]
  | missing (hpath : libs.path = true) (hstat : libs.stat path = none) :
      Serves libs fsd uri path [.stat path]
        [.error 404 (lit "We searched hard but never found love")]
  | file {mode : ℕ} (hpath : libs.path = true) (hstat : libs.stat path = some mode)
      (hmode : sIsdir mode = false) :
      Serves libs fsd uri path
        [.stat path, .serveFile path (ahttpdMimeGuess ahttpdMimeInit path)]
        (fileReply libs path).toList
  | directory {mode : ℕ} (hpath : libs.path = true) (hstat : libs.stat path = some mode)
      (hmode : sIsdir mode = true) (hindex : fsd.index = none) :
      Serves libs fsd uri path [.stat path, .dirindexfunc path uri]
        (dirReply libs fsd path uri).toList
  | noIpath {mode : ℕ} {index : Bytes} (hpath : libs.path = true)
      (hstat : libs.stat path = some mode) (hmode : sIsdir mode = true)
      (hindex : fsd.index = some index) (hipath : libs.ipath = false) :
      Serves libs fsd uri path [.stat path]
        [.error 500 (lit "Internal server fuckup. That's all I know")]
  | index {mode : ℕ} {index : Bytes} {reply : Reply} (hpath : libs.path = true)
      (hstat : libs.stat path = some mode) (hmode : sIsdir mode = true)
      (hindex : fsd.index = some index) (hipath : libs.ipath = true)
      (hfile : fileReply libs (path ++ 47 :: index) = some reply) :
      Serves libs fsd uri path [.stat path, .serveFile (path ++ 47 :: index) indexType] [reply]
  | noIndex {mode : ℕ} {index : Bytes} (hpath : libs.path = true)
      (hstat : libs.stat path = some mode) (hmode : sIsdir mode = true)
      (hindex : fsd.index = some index) (hipath : libs.ipath = true)
      (hfile : fileReply libs (path ++ 47 :: index) = none) :
      Serves libs fsd uri path
        [.stat path, .serveFile (path ++ 47 :: index) indexType, .dirindexfunc path uri]
        (dirReply libs fsd path uri).toList

/-- The path the router makes of a URI. -/
def routerPath (fsd : StaticfsData) (mpoint : Mpoint) (uri : Bytes) : Bytes :=
  fsd.htdocs ++ 47 :: uri.drop mpoint.mountpoint.length

theorem router_serves (libs : StaticLibs) (fsd : StaticfsData) (mpoint : Mpoint) (uri : Bytes) :
    Serves libs fsd uri (routerPath fsd mpoint uri) (router libs fsd mpoint { uri := uri }).uses
      (router libs fsd mpoint { uri := uri }).replies := by
  have hpath : fsd.htdocs ++ 47 :: uri.drop mpoint.mountpoint.length
      = routerPath fsd mpoint uri := rfl
  unfold router
  dsimp only
  rw [hpath]
  generalize routerPath fsd mpoint uri = path
  cases hpath : libs.path with
  | false => exact .noPath hpath
  | true =>
    simp only [Bool.true_eq_false, if_false]
    rcases hstat : libs.stat path with _ | mode
    · exact .missing hpath hstat
    dsimp only
    cases hmode : sIsdir mode with
    | false =>
      simp only [Bool.false_eq_true, if_false, serveFile_eq]
      have hserves : Serves libs fsd uri path _ _ := .file hpath hstat hmode
      rcases hfile : fileReply libs path with _ | reply <;> rw [hfile] at hserves
      · exact hserves
      · exact hserves
    | true =>
      simp only [if_true]
      rcases hindex : fsd.index with _ | index
      · simp only [routerDirindex, dirindexfunc_eq]
        exact .directory hpath hstat hmode hindex
      dsimp only
      cases hipath : libs.ipath with
      | false => exact .noIpath hpath hstat hmode hindex hipath
      | true =>
        simp only [Bool.true_eq_false, if_false, serveFile_eq]
        rcases hfile : fileReply libs (path ++ 47 :: index) with _ | reply
        · simp only [routerDirindex, dirindexfunc_eq]
          exact .noIndex hpath hstat hmode hindex hipath hfile
        · exact .index hpath hstat hmode hindex hipath hfile

end Router

section Answers

variable {libs : StaticLibs} {fsd : StaticfsData} {mpoint : Mpoint} {uri path : Bytes}

/-- A file that can be opened, by its name and again by a descriptor. -/
def Readable (libs : StaticLibs) (path : Bytes) : Prop :=
  (libs.fopen path).isSome ∧ (libs.openRdonly path).isSome

/-- The path of the request cannot be stored or does not exist, or is a file that can be opened, or
is a directory: with an index that cannot be stored or can be opened, or without listings, or that
can be opened for its listing. -/
def Answerable (libs : StaticLibs) (fsd : StaticfsData) (path : Bytes) : Prop :=
  libs.path = false ∨ libs.stat path = none
    ∨ (∃ mode, libs.stat path = some mode ∧ sIsdir mode = false ∧ Readable libs path)
    ∨ ∃ mode, libs.stat path = some mode ∧ sIsdir mode = true
      ∧ ((∃ index, fsd.index = some index
          ∧ (libs.ipath = false ∨ Readable libs (path ++ 47 :: index)))
        ∨ fsd.dirindexfunc = .indexNone ∨ (libs.opendir path).isSome)

theorem fileReply_isSome : (fileReply libs path).isSome ↔ Readable libs path := by
  unfold fileReply Readable
  rcases libs.fopen path with _ | sz <;> rcases libs.openRdonly path with _ | file <;> simp

theorem dirReply_isSome : (dirReply libs fsd path uri).isSome
    ↔ fsd.dirindexfunc = .indexNone ∨ (libs.opendir path).isSome := by
  unfold dirReply
  cases fsd.dirindexfunc with
  | indexNone => exact iff_of_true rfl (.inl rfl)
  | indexJson =>
    simp only [DirIndex.dirindexfunc, indexJson]
    rcases libs.opendir path with _ | ents <;> simp [StaticRequest.reply]
  | indexHtml =>
    simp only [DirIndex.dirindexfunc, indexHtml]
    rcases libs.opendir path with _ | ents <;> simp [StaticRequest.reply]

theorem length_toList_eq_one {α : Type} {o : Option α} : o.toList.length = 1 ↔ o.isSome := by
  rcases o with _ | a <;> simp

theorem Serves.length_le {uses : List PathUse} {replies : List Reply}
    (h : Serves libs fsd uri path uses replies) : replies.length ≤ 1 := by
  cases h with
  | file | directory | noIndex => exact Option.length_toList_le
  | noPath | missing | noIpath | index => exact le_rfl

theorem Serves.length_eq_one_iff {uses : List PathUse} {replies : List Reply}
    (h : Serves libs fsd uri path uses replies) :
    replies.length = 1 ↔ Answerable libs fsd path := by
  unfold Answerable
  cases h with
  | noPath hpath => exact iff_of_true rfl (.inl hpath)
  | missing _ hstat => exact iff_of_true rfl (.inr (.inl hstat))
  | file hpath hstat hmode =>
    rw [length_toList_eq_one, fileReply_isSome]
    simp [hpath, hstat, hmode]
  | directory hpath hstat hmode hindex =>
    rw [length_toList_eq_one, dirReply_isSome]
    simp [hpath, hstat, hmode, hindex]
  | noIpath hpath hstat hmode hindex hipath =>
    refine iff_of_true rfl (.inr (.inr (.inr ⟨_, hstat, hmode, .inl ⟨_, hindex, .inl hipath⟩⟩)))
  | index hpath hstat hmode hindex hipath hfile =>
    have hread := fileReply_isSome.1 (Option.isSome_of_eq_some hfile)
    exact iff_of_true rfl (.inr (.inr (.inr ⟨_, hstat, hmode, .inl ⟨_, hindex, .inr hread⟩⟩)))
  | noIndex hpath hstat hmode hindex hipath hfile =>
    have hread : ¬ Readable libs _ := fileReply_isSome.not.1 (Option.not_isSome_iff_eq_none.2 hfile)
    rw [length_toList_eq_one, dirReply_isSome]
    simp [hpath, hstat, hmode, hindex, hipath, hread]

/-- For every file system and every URI: the router sends one reply, neither more nor less, exactly
where what it opens can be opened. -/
theorem static_answered_once_iff (libs : StaticLibs) (fsd : StaticfsData) (mpoint : Mpoint)
    (uri : Bytes) : (router libs fsd mpoint { uri := uri }).replies.length = 1
      ↔ Answerable libs fsd (routerPath fsd mpoint uri) :=
  (router_serves libs fsd mpoint uri).length_eq_one_iff

/-- There is never a second reply. -/
theorem static_answered_at_most_once (libs : StaticLibs) (fsd : StaticfsData) (mpoint : Mpoint)
    (uri : Bytes) : (router libs fsd mpoint { uri := uri }).replies.length ≤ 1 :=
  (router_serves libs fsd mpoint uri).length_le

/-- A regular file that exists and cannot be read. -/
def unreadableFile : StaticLibs where
  stat _ := some 0o100000
  fopen _ := none
  openRdonly _ := none
  opendir _ := none

theorem unreadable_unanswered : ¬ ∀ (libs : StaticLibs) (fsd : StaticfsData) (mpoint : Mpoint)
    (uri : Bytes), (router libs fsd mpoint { uri := uri }).replies.length = 1 := by
  intro h
  have := h unreadableFile { htdocs := lit "/srv/www" } ⟨0, lit "/static/"⟩
    (lit "/static/secret.txt")
  exact absurd this (by decide)

end Answers

section Confinement

variable {libs : StaticLibs} {fsd : StaticfsData} {mpoint : Mpoint} {uri path dir rest : Bytes}

/-- The directory without its trailing slash. -/
theorem htdocs_of_staticMount {J : JsonLib} {props : Json} (h : staticMount J props = .ok fsd)
    (hdir : jsonArrayFindString J props (lit "dir") = some dir) :
    dir ≠ [] ∧ (fsd.htdocs = dir ∨ dir = fsd.htdocs ++ [47]) := by
  unfold staticMount at h
  rw [hdir] at h
  obtain ⟨htdocs, hkill, h⟩ := Except.bind_eq_ok.1 h
  obtain rfl := Except.ok.inj h
  rcases dir with _ | ⟨c, dir⟩
  · cases hkill
  refine ⟨List.cons_ne_nil _ _, ?_⟩
  obtain rfl := Except.ok.inj hkill
  dsimp only
  split_ifs with hlast
  · exact .inr (List.dropLast_append_getLast? 47 hlast).symm
  · exact .inl rfl

/-- A path below `htdocs` lies inside the directory where what stands behind the slash stays. -/
theorem inside_htdocs_iff (hne : dir ≠ []) (h : fsd.htdocs = dir ∨ dir = fsd.htdocs ++ [47]) :
    InsideDir 47 46 dir (fsd.htdocs ++ 47 :: rest) ↔ StaysInside 47 46 dir rest := by
  rcases h with rfl | rfl
  · exact insideDir_append hne
  · exact insideDir_append_sep

/-- What holds of the path, and of that of an index where it is looked for, holds of all the paths
the router uses. -/
theorem Serves.forall_path {uses : List PathUse} {replies : List Reply} {P : Bytes → Prop}
    (h : Serves libs fsd uri path uses replies) : (∀ use ∈ uses, P use.path)
      ↔ libs.path = false ∨ (P path ∧ ∀ mode index, libs.stat path = some mode →
        sIsdir mode = true → fsd.index = some index → libs.ipath = true →
          P (path ++ 47 :: index)) := by
  cases h with
  | noPath hpath => simp [hpath]
  | missing hpath hstat => simp [PathUse.path, hpath, hstat]
  | file hpath hstat hmode =>
    simp only [List.forall_mem_cons, PathUse.path, hpath, Bool.true_eq_false, false_or]
    refine ⟨fun h => ⟨h.1, fun mode index hstat' hmode' => ?_⟩, fun h => ⟨h.1, h.1, nofun⟩⟩
    cases hstat.symm.trans hstat'
    cases hmode.symm.trans hmode'
  | directory hpath hstat hmode hindex => simp [PathUse.path, hpath, hindex]
  | noIpath hpath hstat hmode hindex hipath => simp [PathUse.path, hpath, hipath]
  | index hpath hstat hmode hindex hipath =>
    simp [PathUse.path, hpath, hstat, hmode, hindex, hipath]
  | noIndex hpath hstat hmode hindex hipath =>
    simp only [List.forall_mem_cons, PathUse.path, hpath, hstat, hindex, hipath,
      Bool.true_eq_false, false_or, Option.some.injEq]
    refine ⟨fun h => ⟨h.1, ?_⟩, fun h => ⟨h.1, h.2 _ _ rfl hmode rfl trivial, h.1, nofun⟩⟩
    rintro _ _ rfl - rfl -
    exact h.2.1

/-- All the paths the router uses lie inside the directory. -/
def Confined (dir : Bytes) (r : StaticRequest) : Prop :=
  ∀ use ∈ r.uses, InsideDir 47 46 dir use.path

/-- The rest of the URI stays inside the directory, also followed by the index where it leads to a
directory. -/
def RestStays (libs : StaticLibs) (fsd : StaticfsData) (dir path rest : Bytes) : Prop :=
  libs.path = false ∨ (StaysInside 47 46 dir rest
    ∧ ∀ mode index, libs.stat path = some mode → sIsdir mode = true → fsd.index = some index →
      libs.ipath = true → StaysInside 47 46 dir (rest ++ 47 :: index))

theorem confined_iff (hne : dir ≠ []) (h : fsd.htdocs = dir ∨ dir = fsd.htdocs ++ [47]) :
    Confined dir (router libs fsd mpoint { uri := uri })
      ↔ RestStays libs fsd dir (routerPath fsd mpoint uri) (uri.drop mpoint.mountpoint.length) := by
  unfold Confined RestStays
  rw [(router_serves libs fsd mpoint uri).forall_path]
  simp only [routerPath, List.append_assoc, List.cons_append, inside_htdocs_iff hne h]

/-- Without `..` in the rest of the URI and in the index nothing outside is used. -/
theorem confined_of_not_mem (hne : dir ≠ []) (h : fsd.htdocs = dir ∨ dir = fsd.htdocs ++ [47])
    (hrest : Step.up ∉ steps 47 46 (uri.drop mpoint.mountpoint.length))
    (hindex : ∀ index, fsd.index = some index → Step.up ∉ steps 47 46 index) :
    Confined dir (router libs fsd mpoint { uri := uri }) := by
  refine (confined_iff hne h).2 (.inr ⟨staysInside_of_not_mem hrest, ?_⟩)
  rintro mode index - - hsome -
  refine staysInside_of_not_mem ?_
  rw [steps_append_sep, List.mem_append]
  exact not_or_intro hrest (hindex index hsome)

end Confinement

namespace Config

/-- Of every array of sections that loads: what the router uses for a request routed to a static
mountpoint lies inside the directory of its section exactly where the rest of the URI stays in
it. -/
theorem static_confined_iff (J : JsonLib) (fstab : List (Json × SectionLibs)) (s : Site)
    (hload : loadMountpoints J {} fstab = .ok s) (uri : Bytes) (m : Mount) (fsd : StaticfsData)
    (hroute : genericRoute s uri = .route m fsd) (dir : Bytes)
    (hdir : jsonArrayFindString J m.props (lit "dir") = some dir) (libs : StaticLibs) :
    Confined dir (router libs fsd m.mpoint { uri := uri })
      ↔ RestStays libs fsd dir (routerPath fsd m.mpoint uri)
        (uri.drop m.mpoint.mountpoint.length) := by
  obtain ⟨hm, hfsd, -⟩ := mem_of_route hroute
  have hof := (statics_load hload).2 (by simp) m hm
  obtain ⟨hne, hhtdocs⟩ := htdocs_of_staticMount (hof.static fsd hfsd) hdir
  exact confined_iff hne hhtdocs

/-- Up and down again into the directory `../www`. -/
theorem confined_up_and_down : ∃ s m fsd,
    loadMountpoints .plain {} [(wwwSection (lit "/static/"), {})] = .ok s
      ∧ genericRoute s (lit "/static/a/../../www/b.html") = .route m fsd
      ∧ Confined (lit "../www")
        (router unreadableFile fsd m.mpoint { uri := lit "/static/a/../../www/b.html" }) := by
  obtain ⟨s, hload⟩ : ∃ s, loadMountpoints .plain {} [(wwwSection (lit "/static/"), {})] = .ok s :=
    ⟨_, rfl⟩
  obtain ⟨m, fsd, hroute, hdir, hrest⟩ : ∃ m fsd,
      genericRoute s (lit "/static/a/../../www/b.html") = .route m fsd
        ∧ jsonArrayFindString .plain m.props (lit "dir") = some (lit "../www")
        ∧ RestStays unreadableFile fsd (lit "../www")
          (routerPath fsd m.mpoint (lit "/static/a/../../www/b.html"))
          ((lit "/static/a/../../www/b.html").drop m.mpoint.mountpoint.length) := by
    cases hload
    refine ⟨_, _, rfl, rfl, .inr ⟨by decide, ?_⟩⟩
    rintro mode index hstat hmode - -
    cases hstat
    cases hmode
  exact ⟨s, m, fsd, hload, hroute,
    (static_confined_iff .plain _ s hload _ m fsd hroute _ hdir _).2 hrest⟩

/-- A parent of the directory is asked for. -/
theorem parent_served : ¬ ∀ (J : JsonLib) (fstab : List (Json × SectionLibs)) (s : Site),
    loadMountpoints J {} fstab = .ok s → ∀ (uri : Bytes) (m : Mount) (fsd : StaticfsData),
    genericRoute s uri = .route m fsd →
    ∀ dir, jsonArrayFindString J m.props (lit "dir") = some dir →
      ∀ libs, Confined dir (router libs fsd m.mpoint { uri := uri }) := by
  intro h
  have hconfined := h .plain [(wwwSection (lit "/static/"), {})] _ rfl
    (lit "/static/../config.json") _ _ rfl (lit "../www") rfl unreadableFile
  have hinside := hconfined (.stat (lit "../www/../config.json")) (by decide)
  exact absurd hinside (by decide)

end Config

end AuraHttpd
