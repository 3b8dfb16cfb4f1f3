import AuraHttpd.Proofs.StaticFiles

/-!
# Queries of static requests

The router takes what stands behind the mountpoint's path in the URI for the name of a file, with
the query.  So a path with a query leads to another place of the same directory
(`routerPath_query`), where the same can never be opened (`not_opensAt_both`); only where the path
of another mountpoint goes on into the query do both requests lead to one file (`query_opens_iff`).
-/

namespace AuraHttpd

open CString

/-- What a request gets open: a file, with the type it is sent under, or a directory to list. -/
inductive Opened where
  | file (path mimetype : Bytes)
  | directory (path : Bytes)
  deriving DecidableEq, Repr

section Router

variable {libs : StaticLibs} {fsd : StaticfsData} {mpoint : Mpoint} {uri path : Bytes} {o : Opened}

/-- What is opened for a use of a path. -/
def PathUse.opened (libs : StaticLibs) (fsd : StaticfsData) : PathUse → Option Opened
  | .stat _ => none
  | .serveFile path mimetype =>
    if (fileReply libs path).isSome then some (.file path mimetype) else none
  | .dirindexfunc path _ =>
    if fsd.dirindexfunc ≠ .indexNone ∧ (libs.opendir path).isSome then some (.directory path)
    else none

/-- What the router opens for a request. -/
def routerOpened (libs : StaticLibs) (fsd : StaticfsData) (mpoint : Mpoint) (uri : Bytes) :
    List Opened :=
  (router libs fsd mpoint { uri := uri }).uses.filterMap (PathUse.opened libs fsd)

/-- What there is to open at a path: a file that can be read, a directory by an index that can be
read, or one without such an index that can be listed. -/
inductive OpensAt (libs : StaticLibs) (fsd : StaticfsData) (path : Bytes) : Opened → Prop where
  | file {mode : ℕ} (hpath : libs.path = true) (hstat : libs.stat path = some mode)
      (hmode : sIsdir mode = false) (hread : Readable libs path) :
      OpensAt libs fsd path (.file path (ahttpdMimeGuess ahttpdMimeInit path))
  | index {mode : ℕ} {index : Bytes} (hpath : libs.path = true)
      (hstat : libs.stat path = some mode) (hmode : sIsdir mode = true)
      (hindex : fsd.index = some index) (hipath : libs.ipath = true)
      (hread : Readable libs (path ++ 47 :: index)) :
      OpensAt libs fsd path (.file (path ++ 47 :: index) indexType)
  | directory {mode : ℕ} (hpath : libs.path = true) (hstat : libs.stat path = some mode)
      (hmode : sIsdir mode = true)
      (hindex : ∀ index, fsd.index = some index →
        libs.ipath = true ∧ ¬ Readable libs (path ++ 47 :: index))
      (hlists : fsd.dirindexfunc ≠ .indexNone) (hopen : (libs.opendir path).isSome) :
      OpensAt libs fsd path (.directory path)

theorem filterMap_serveFile (path mimetype : Bytes) :
    [PathUse.serveFile path mimetype].filterMap (PathUse.opened libs fsd)
      = if (fileReply libs path).isSome then [.file path mimetype] else [] := by
  simp only [List.filterMap_cons, List.filterMap_nil, PathUse.opened]
  split_ifs <;> rfl

theorem filterMap_dirindexfunc (path rdir : Bytes) :
    [PathUse.dirindexfunc path rdir].filterMap (PathUse.opened libs fsd)
      = if fsd.dirindexfunc ≠ .indexNone ∧ (libs.opendir path).isSome then [.directory path]
        else [] := by
  simp only [List.filterMap_cons, List.filterMap_nil, PathUse.opened]
  split_ifs <;> rfl

theorem not_directory {mode mode' : ℕ} {P : Prop} (h : libs.stat path = some mode)
    (hmode : sIsdir mode = true) (h' : libs.stat path = some mode')
    (hmode' : sIsdir mode' = false) : P := by
  obtain rfl := Option.some.inj (h.symm.trans h')
  cases hmode.symm.trans hmode'

/-- A directory without an index that is served is opened exactly to be listed. -/
theorem opens_directory {mode : ℕ} (hpath : libs.path = true) (hstat : libs.stat path = some mode)
    (hmode : sIsdir mode = true)
    (hindex : ∀ index, fsd.index = some index →
      libs.ipath = true ∧ ¬ Readable libs (path ++ 47 :: index)) :
    OpensAt libs fsd path o
      ↔ [PathUse.dirindexfunc path uri].filterMap (PathUse.opened libs fsd) = [o] := by
  rw [filterMap_dirindexfunc]
  constructor
  · intro h
    cases h with
    | file _ hstat' hmode' => exact not_directory hstat hmode hstat' hmode'
    | index _ _ _ hindex' _ hread => exact absurd hread (hindex _ hindex').2
    | directory _ _ _ _ hlists hopen => rw [if_pos ⟨hlists, hopen⟩]
  · intro h
    split_ifs at h with hlists
    · obtain rfl := List.singleton_inj.1 h
      exact .directory hpath hstat hmode hindex hlists.1 hlists.2

/-- At most one thing is opened for a request, what there is to open at its path. -/
theorem Serves.opened_iff {uses : List PathUse} {replies : List Reply}
    (h : Serves libs fsd uri path uses replies) :
    (uses.filterMap (PathUse.opened libs fsd)).length ≤ 1
      ∧ ∀ o, OpensAt libs fsd path o ↔ uses.filterMap (PathUse.opened libs fsd) = [o] := by
  have hstat_cons : ∀ us : List PathUse, (PathUse.stat path :: us).filterMap
      (PathUse.opened libs fsd) = us.filterMap (PathUse.opened libs fsd) := fun us => rfl
  cases h with
  | noPath hpath =>
    refine ⟨Nat.zero_le _, fun o => iff_of_false (fun h => ?_) (by simp)⟩
    cases h <;> simp [hpath] at *
  | missing hpath hstat =>
    refine ⟨Nat.zero_le _, fun o => iff_of_false (fun h => ?_) (by simp [hstat_cons])⟩
    cases h <;> simp [hstat] at *
  | @file mode hpath hstat hmode =>
    rw [hstat_cons, filterMap_serveFile]
    refine ⟨by split_ifs <;> simp, fun o => ⟨fun h => ?_, fun h => ?_⟩⟩
    · cases h with
      | file _ _ _ hread => rw [if_pos (fileReply_isSome.2 hread)]
      | index _ hstat' hmode' | directory _ hstat' hmode' =>
        exact not_directory hstat' hmode' hstat hmode
    · split_ifs at h with hread
      · obtain rfl := List.singleton_inj.1 h
        exact .file hpath hstat hmode (fileReply_isSome.1 hread)
  | directory hpath hstat hmode hindex =>
    rw [hstat_cons]
    refine ⟨?_, fun o => opens_directory hpath hstat hmode (by simp [hindex])⟩
    rw [filterMap_dirindexfunc]
    split_ifs <;> simp
  | noIpath hpath hstat hmode hindex hipath =>
    refine ⟨Nat.zero_le _, fun o => iff_of_false (fun h => ?_) (by simp [hstat_cons])⟩
    cases h with
    | file _ hstat' hmode' => exact not_directory hstat hmode hstat' hmode'
    | index _ _ _ _ hipath' => cases hipath.symm.trans hipath'
    | directory _ _ _ hindex' => cases hipath.symm.trans (hindex' _ hindex).1
  | @index mode index reply hpath hstat hmode hindex hipath hfile =>
    have hsome : (fileReply libs (path ++ 47 :: index)).isSome := Option.isSome_of_eq_some hfile
    rw [hstat_cons, filterMap_serveFile, if_pos hsome]
    refine ⟨le_rfl, fun o => ⟨fun h => ?_, fun h => ?_⟩⟩
    · cases h with
      | file _ hstat' hmode' => exact not_directory hstat hmode hstat' hmode'
      | index _ _ _ hindex' => rw [Option.some.inj (hindex.symm.trans hindex')]
      | directory _ _ _ hindex' =>
        exact absurd (fileReply_isSome.1 hsome) (hindex' _ hindex).2
    · obtain rfl := List.singleton_inj.1 h
      exact .index hpath hstat hmode hindex hipath (fileReply_isSome.1 hsome)
  | @noIndex mode index hpath hstat hmode hindex hipath hfile =>
    have hread : ¬ Readable libs (path ++ 47 :: index) :=
      fileReply_isSome.not.1 (Option.not_isSome_iff_eq_none.2 hfile)
    have hskip : [PathUse.stat path, .serveFile (path ++ 47 :: index) indexType,
        .dirindexfunc path uri].filterMap (PathUse.opened libs fsd)
        = [PathUse.dirindexfunc path uri].filterMap (PathUse.opened libs fsd) := by
      rw [hstat_cons, List.filterMap_cons_none]
      simp [PathUse.opened, hfile]
    rw [hskip]
    refine ⟨?_, fun o => opens_directory hpath hstat hmode fun index' hindex' => ?_⟩
    · rw [filterMap_dirindexfunc]
      split_ifs <;> simp
    · obtain rfl := Option.some.inj (hindex.symm.trans hindex')
      exact ⟨hipath, hread⟩

theorem routerOpened_eq_iff : routerOpened libs fsd mpoint uri = [o]
    ↔ OpensAt libs fsd (routerPath fsd mpoint uri) o :=
  ((router_serves libs fsd mpoint uri).opened_iff.2 o).symm

theorem routerOpened_cases (libs : StaticLibs) (fsd : StaticfsData) (mpoint : Mpoint)
    (uri : Bytes) : (∃ o, routerOpened libs fsd mpoint uri = [o])
      ∨ routerOpened libs fsd mpoint uri = [] := by
  have hle : (routerOpened libs fsd mpoint uri).length ≤ 1 :=
    (router_serves libs fsd mpoint uri).opened_iff.1
  rcases Nat.le_one_iff_eq_zero_or_eq_one.1 hle with hlen | hlen
  · exact .inr (List.length_eq_zero_iff.1 hlen)
  · exact .inl (List.length_eq_one_iff.1 hlen)

theorem routerOpened_eq_nil_iff : routerOpened libs fsd mpoint uri = []
    ↔ ∀ o, ¬ OpensAt libs fsd (routerPath fsd mpoint uri) o := by
  constructor
  · intro hnil o ho
    rw [← routerOpened_eq_iff, hnil] at ho
    cases ho
  · intro hnone
    rcases routerOpened_cases libs fsd mpoint uri with ⟨o, ho⟩ | hnil
    · exact absurd (routerOpened_eq_iff.1 ho) (hnone o)
    · exact hnil

/-- Two requests open the same where there is nothing to open for either, or one thing for both. -/
theorem routerOpened_eq_routerOpened_iff {fsd' : StaticfsData} {mpoint' : Mpoint} {uri' : Bytes} :
    routerOpened libs fsd mpoint uri = routerOpened libs fsd' mpoint' uri'
      ↔ ((∀ o, ¬ OpensAt libs fsd (routerPath fsd mpoint uri) o)
          ∧ ∀ o, ¬ OpensAt libs fsd' (routerPath fsd' mpoint' uri') o)
        ∨ ∃ o, OpensAt libs fsd (routerPath fsd mpoint uri) o
          ∧ OpensAt libs fsd' (routerPath fsd' mpoint' uri') o := by
  constructor
  · intro heq
    rcases routerOpened_cases libs fsd mpoint uri with ⟨o, ho⟩ | hnil
    · exact .inr ⟨o, routerOpened_eq_iff.1 ho, routerOpened_eq_iff.1 (heq ▸ ho)⟩
    · exact .inl ⟨routerOpened_eq_nil_iff.1 hnil, routerOpened_eq_nil_iff.1 (heq ▸ hnil)⟩
  · rintro (⟨h, h'⟩ | ⟨o, h, h'⟩)
    · rw [routerOpened_eq_nil_iff.2 h, routerOpened_eq_nil_iff.2 h']
    · rw [routerOpened_eq_iff.2 h, routerOpened_eq_iff.2 h']

theorem routerPath_query {p : Bytes} (hpre : mpoint.mountpoint <+: p) (q : Bytes) :
    routerPath fsd mpoint (p ++ 63 :: q) = routerPath fsd mpoint p ++ 63 :: q := by
  unfold routerPath
  rw [List.drop_append_of_le_length hpre.length_le, List.append_assoc, List.cons_append]

/-- Nothing is to be opened both at a path and at one that goes on by a query. -/
theorem not_opensAt_both {q : Bytes} (h : OpensAt libs fsd path o)
    (h' : OpensAt libs fsd (path ++ 63 :: q) o) : False := by
  have hlonger : ∀ rest : Bytes, path ≠ path ++ 63 :: q ++ rest := by
    intro rest heq
    have := congrArg List.length heq
    simp at this
  cases h with
  | file =>
    generalize hm : ahttpdMimeGuess ahttpdMimeInit path = mime at h'
    generalize ho : Opened.file path mime = o at h'
    cases h' with
    | file => exact hlonger [] (by simpa using (Opened.file.inj ho).1)
    | index => exact hlonger _ (Opened.file.inj ho).1
    | directory => cases ho
  | @index mode index _ _ _ hindex =>
    generalize ho : Opened.file (path ++ 47 :: index) indexType = o at h'
    cases h' with
    | file =>
      have := List.append_cancel_left (Opened.file.inj ho).1
      simp at this
    | index _ _ _ hindex' =>
      obtain rfl := Option.some.inj (hindex.symm.trans hindex')
      exact hlonger [] (by simpa using List.append_cancel_right (Opened.file.inj ho).1)
    | directory => cases ho
  | directory =>
    generalize ho : Opened.directory path = o at h'
    cases h' with
    | file | index => cases ho
    | directory => exact hlonger [] (by simpa using Opened.directory.inj ho)

end Router

namespace Config

variable {s : Site} {m : Mount} {fsd : StaticfsData} {p q : Bytes} {libs : StaticLibs}

theorem prefix_append_cons {a : Bytes} {c : UInt8} (h : a <+: p ++ c :: q) (hnot : ¬ a <+: p) :
    p ++ [c] <+: a := by
  have hall : p ++ [c] <+: p ++ c :: q := by simp
  rcases List.prefix_or_prefix_of_prefix hall h with hpre | hpre
  · exact hpre
  · rcases List.prefix_concat_iff.1 hpre with rfl | hpre
    · exact List.prefix_rfl
    · exact absurd hpre hnot

/-- A request with a query is routed as that without, or to a mountpoint whose path goes on into
the query. -/
theorem genericRouteLoop_query : ∀ {ms : List Mount}, genericRouteLoop p ms = .route m fsd →
    ∃ m' fsd', genericRouteLoop (p ++ 63 :: q) ms = .route m' fsd'
      ∧ ((m' = m ∧ fsd' = fsd) ∨ p ++ [63] <+: m'.mpoint.mountpoint)
  | [], h => by cases h
  | pos :: ms, h => by
    by_cases hstatic : pos.isStatic = true
    · obtain ⟨fsd', hpos⟩ := exists_static hstatic
      rw [genericRouteLoop_cons_of_static hpos] at h ⊢
      split_ifs at h with hpre
      · obtain ⟨rfl, rfl⟩ := Routing.route.inj h
        exact ⟨_, _, if_pos (hpre.trans (List.prefix_append _ _)), .inl ⟨rfl, rfl⟩⟩
      · by_cases hquery : pos.mpoint.mountpoint <+: p ++ 63 :: q
        · exact ⟨pos, fsd', if_pos hquery, .inr (prefix_append_cons hquery hpre)⟩
        · rw [if_neg hquery]
          exact genericRouteLoop_query h
    · rw [genericRouteLoop_cons_of_not (by simpa using hstatic)] at h ⊢
      exact genericRouteLoop_query h

/-- What is opened for a request. -/
def openedFor (libs : StaticLibs) (s : Site) (uri : Bytes) : List Opened :=
  match genericRoute s uri with
  | .route m fsd => routerOpened libs fsd m.mpoint uri
  | .sendError _ _ => []

/-- There is nothing to open at the path, with or without the query; or the path with the query is
that of another mountpoint, and there is one thing to open at both. -/
def QueryHarmless (libs : StaticLibs) (s : Site) (p q : Bytes) : Prop :=
  ∃ m fsd m' fsd', genericRoute s p = .route m fsd
    ∧ genericRoute s (p ++ 63 :: q) = .route m' fsd'
    ∧ (((∀ o, ¬ OpensAt libs fsd (routerPath fsd m.mpoint p) o)
          ∧ ∀ o, ¬ OpensAt libs fsd' (routerPath fsd' m'.mpoint (p ++ 63 :: q)) o)
      ∨ p ++ [63] <+: m'.mpoint.mountpoint
        ∧ ∃ o, OpensAt libs fsd (routerPath fsd m.mpoint p) o
          ∧ OpensAt libs fsd' (routerPath fsd' m'.mpoint (p ++ 63 :: q)) o)

theorem openedFor_of_route {uri : Bytes} (h : genericRoute s uri = .route m fsd) :
    openedFor libs s uri = routerOpened libs fsd m.mpoint uri := by
  rw [openedFor, h]

/-- For every path routed to a static mountpoint and every query: the same is opened, under the same
type, exactly where there is nothing to open or the query leads to another mountpoint. -/
theorem query_opens_iff (libs : StaticLibs) (s : Site) (p q : Bytes) (m : Mount)
    (fsd : StaticfsData) (hroute : genericRoute s p = .route m fsd) :
    openedFor libs s p = openedFor libs s (p ++ 63 :: q) ↔ QueryHarmless libs s p q := by
  obtain ⟨m', fsd', hroute', hsame⟩ := genericRouteLoop_query (q := q) hroute
  have hroute' : genericRoute s (p ++ 63 :: q) = .route m' fsd' := hroute'
  rw [openedFor_of_route hroute, openedFor_of_route hroute', routerOpened_eq_routerOpened_iff]
  constructor
  · rintro (hnone | ⟨o, ho, ho'⟩)
    · exact ⟨m, fsd, m', fsd', hroute, hroute', .inl hnone⟩
    · refine ⟨m, fsd, m', fsd', hroute, hroute', .inr ⟨?_, o, ho, ho'⟩⟩
      rcases hsame with ⟨rfl, rfl⟩ | hpath
      · rw [routerPath_query (mem_of_route hroute).2.2] at ho'
        exact (not_opensAt_both ho ho').elim
      · exact hpath
  · rintro ⟨m₁, fsd₁, m₂, fsd₂, h₁, h₂, hboth⟩
    cases hroute.symm.trans h₁
    cases hroute'.symm.trans h₂
    exact hboth.imp_right And.right

/-- A directory with one file. -/
def indexHtmlOnly : StaticLibs where
  stat path := if path = lit "../www/index.html" then some 0o100000 else none
  fopen path := if path = lit "../www/index.html" then some 1 else none
  openRdonly path := if path = lit "../www/index.html" then some fun _ => lit "x" else none
  opendir _ := none

/-- A file that is not there, with a query and without. -/
theorem query_opens_missing : ∃ s,
    loadMountpoints .plain {} [(wwwSection (lit "/static/"), {})] = .ok s
      ∧ openedFor indexHtmlOnly s (lit "/static/a.css")
        = openedFor indexHtmlOnly s (lit "/static/a.css" ++ 63 :: lit "v=1") := by
  obtain ⟨s, hload⟩ : ∃ s, loadMountpoints .plain {} [(wwwSection (lit "/static/"), {})] = .ok s :=
    ⟨_, rfl⟩
  obtain ⟨m, fsd, hroute, hroute', hnone, hnone'⟩ : ∃ m fsd,
      genericRoute s (lit "/static/a.css") = .route m fsd
        ∧ genericRoute s (lit "/static/a.css" ++ 63 :: lit "v=1") = .route m fsd
        ∧ indexHtmlOnly.stat (routerPath fsd m.mpoint (lit "/static/a.css")) = none
        ∧ indexHtmlOnly.stat (routerPath fsd m.mpoint (lit "/static/a.css" ++ 63 :: lit "v=1"))
          = none := by
    cases hload
    exact ⟨_, _, rfl, rfl, rfl, rfl⟩
  refine ⟨s, hload, (query_opens_iff indexHtmlOnly s _ _ m fsd hroute).2
    ⟨m, fsd, m, fsd, hroute, hroute', .inl ⟨fun o ho => ?_, fun o ho => ?_⟩⟩⟩
  · cases ho <;> simp_all
  · cases ho <;> simp_all

/-- A file that is there is not found with a query. -/
theorem query_chooses_file : ¬ ∀ (libs : StaticLibs) (s : Site) (p q : Bytes) (m : Mount)
    (fsd : StaticfsData), genericRoute s p = .route m fsd →
    openedFor libs s p = openedFor libs s (p ++ 63 :: q) := by
  intro h
  have := h indexHtmlOnly
    { mountpoints := [⟨⟨0, lit "/static/"⟩, .null, .static { htdocs := lit "../www" }⟩] }
    (lit "/static/index.html") (lit "v=1") _ _ rfl
  exact absurd this (by decide)

end Config

end AuraHttpd
