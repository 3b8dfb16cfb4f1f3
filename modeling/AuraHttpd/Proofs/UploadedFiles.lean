import AuraHttpd.Proofs.OwnRecords
import AuraHttpd.Proofs.Disposition
import AuraHttpd.Proofs.Extents
import AuraHttpd.Proofs.UploadReplies

/-!
# The files of an upload

`file_handle_data` opens a path made of the directory and of a name (`fileOpened`), and it does
nothing else to files (`fileData_spec`).  The name is random, or was taken from a
Content-Disposition and is without slashes and terminators then, so that every path stays in the
directory (`paths_in_directory`).  It is the name of the part where the part has that header; where
it has none, that of an earlier part is still there (`own_name_iff`).
-/

namespace AuraHttpd

open CString Script StepSystem

/-- The path `file_handle_data` opens, if it has a name and its allocations succeed. -/
def fileOpened (fsd : Upfs FilemodData) : Option Bytes :=
  if true ∈ fsd.failures.take 4 then none else (fileName fsd).map (filePath fsd)

/-- A library call of `file_handle_data` fails: without a name one of those before the null pointer
is read, with one also the copy of the name or the opening of the file. -/
def LibFails (fsd : Upfs FilemodData) : Prop :=
  true ∈ fsd.failures.take (if fileName fsd = none then 3 else 5)

/-- The upload was refused, and no file written. -/
structure Refused (fsd fsd' : Upfs FilemodData) : Prop where
  error : fsd'.uploadError = true
  files : fsd'.files = fsd.files
  names : SameNames fsd.modData fsd'.modData

/-- The data was written to the file. -/
structure WrittenTo (fsd : Upfs FilemodData) (path data : Bytes) (fsd' : Upfs FilemodData) :
    Prop where
  error : fsd'.uploadError = fsd.uploadError
  files : fsd'.files = fsd.files ++ [(path, data)]
  names : SameNames fsd.modData fsd'.modData

/-- How a callback for data goes. -/
inductive FileData (fsd : Upfs FilemodData) (vec : List Bytes) (n : ℤ) :
    Except Fault (Upfs FilemodData) → Prop where
  | refused {fsd' : Upfs FilemodData} (hlib : LibFails fsd) (h : Refused fsd fsd') :
      FileData fsd vec n (.ok fsd')
  | noName (hlib : ¬ LibFails fsd) (hname : fileName fsd = none) :
      FileData fsd vec n (.error .nullPointer)
  | overrun {name : Bytes} (hlib : ¬ LibFails fsd) (hname : fileName fsd = some name)
      (hcov : ¬ Covered vec n) : FileData fsd vec n (.error .outOfBounds)
  | written {name : Bytes} {fsd' : Upfs FilemodData} (hlib : ¬ LibFails fsd)
      (hname : fileName fsd = some name) (hcov : Covered vec n)
      (h : WrittenTo fsd (filePath fsd name) (vec.flatten.take n.toNat) fsd') :
      FileData fsd vec n (.ok fsd')

section Data

variable {fsd : Upfs FilemodData} {vec : List Bytes} {n : ℤ}

/-- An error reply writes no file and keeps the names. -/
theorem refused_of_sendError (fsd₁ : Upfs FilemodData) (hfiles : fsd₁.files = fsd.files)
    (hnames : SameNames fsd.modData fsd₁.modData) :
    ∃ fsd', uploadfsUploadSendError (some fileSendResult) fsd₁ none = .ok fsd'
      ∧ Refused fsd fsd' :=
  ⟨_, rfl, rfl, hfiles, hnames.directory, hnames.originalFilename, hnames.filename⟩

theorem refused_of_sendError_self (fsd : Upfs FilemodData) :
    ∃ fsd', uploadfsUploadSendError (some fileSendResult) fsd none = .ok fsd' ∧ Refused fsd fsd' :=
  refused_of_sendError fsd rfl ⟨rfl, rfl, rfl⟩

theorem mem_take_iff {l : List Bool} {k : ℕ} :
    true ∈ l.take k ↔ ∃ i < k, l.getD i false = true := by
  rw [List.mem_iff_getElem?]
  refine exists_congr fun i => ?_
  by_cases hi : i < k
  · rcases hl : l[i]? with _ | b <;> simp [List.getD_eq_getElem?_getD, hi, hl]
  · simp [hi]

theorem dumpIovecToFile_data {fsd₁ : Upfs FilemodData} (hprep : Prepared fsd fsd₁)
    {name : Bytes} (hname : fileName fsd = some name)
    (hlib : LibFails fsd ↔ fsd₁.fails = true) :
    FileData fsd vec n (do
      let (ret, fsd) ← dumpIovecToFile fsd₁ (filePath fsd name) vec n
      if ret ≠ 0 then uploadfsUploadSendError (some fileSendResult) fsd none else .ok fsd) := by
  cases hfails : fsd₁.fails with
  | true =>
    rw [dumpIovecToFile_fails hfails]
    obtain ⟨fsd', h', hr⟩ := refused_of_sendError fsd₁.tick hprep.files hprep.names
    change FileData fsd vec n (uploadfsUploadSendError (some fileSendResult) fsd₁.tick none)
    exact h' ▸ .refused (hlib.2 hfails) hr
  | false =>
    have hnot : ¬ LibFails fsd := fun h => by simp [hlib.1 h] at hfails
    by_cases hcov : Covered vec n
    · rw [dumpIovecToFile_covered hfails _ hcov]
      exact .written hnot hname hcov ⟨hprep.error, by rw [← hprep.files], hprep.names⟩
    · rw [dumpIovecToFile_not_covered hfails _ hcov]
      exact .overrun hnot hname hcov

theorem fileData_spec (fsd : Upfs FilemodData) (vec : List Bytes) (n : ℤ) :
    FileData fsd vec n (fileHandleData fsd vec n) := by
  have hstops := fileHandleData_stops fsd vec n
  generalize fileHandleData fsd vec n = r at hstops ⊢
  cases hstops with
  | fails hi hfails hprep =>
    obtain ⟨fsd', h', hr⟩ := refused_of_sendError _ hprep.files hprep.names
    refine h' ▸ .refused (mem_take_iff.2 ⟨_, ?_, hfails⟩) hr
    split_ifs at hi ⊢ <;> omega
  | noName hpass hname =>
    refine .noName (fun hlib => ?_) hname
    rw [LibFails, if_pos hname, mem_take_iff] at hlib
    obtain ⟨i, hi, hfails⟩ := hlib
    rw [hpass i hi] at hfails
    cases hfails
  | dumps hpass hname hprep hnext =>
    refine dumpIovecToFile_data hprep hname ?_
    rw [LibFails, if_neg (by simp [hname]), mem_take_iff, hnext]
    refine ⟨fun ⟨i, hi, hfails⟩ => ?_, fun h4 => ⟨4, by decide, h4⟩⟩
    rcases Nat.lt_succ_iff_lt_or_eq.1 hi with hlt | rfl
    · rw [hpass i hlt] at hfails
      cases hfails
    · exact hfails

theorem fileHandleData_kept {fsd' : Upfs FilemodData} (h : fileHandleData fsd vec n = .ok fsd') :
    SameNames fsd.modData fsd'.modData := by
  have hdata := fileData_spec fsd vec n
  rw [h] at hdata
  cases hdata with
  | refused _ h => exact h.names
  | written _ _ _ h => exact h.names

/-- What is written goes to the path that is opened. -/
theorem fileHandleData_files {fsd' : Upfs FilemodData} (h : fileHandleData fsd vec n = .ok fsd') :
    fsd'.files = fsd.files
      ∨ ∃ path data, fileOpened fsd = some path ∧ fsd'.files = fsd.files ++ [(path, data)] := by
  have hdata := fileData_spec fsd vec n
  rw [h] at hdata
  cases hdata with
  | refused _ h => exact .inl h.files
  | @written name _ hlib hname _ h =>
    refine .inr ⟨_, _, ?_, h.files⟩
    have hfour : true ∉ fsd.failures.take 4 := fun hmem => hlib <| by
      rw [LibFails, if_neg (by simp [hname])]
      exact (List.take_prefix_take_left (by decide)).subset hmem
    rw [fileOpened, if_neg hfour, hname, Option.map_some]

end Data

section Headers

variable {fsd fsd' : Upfs FilemodData}

/-- The name a Content-Disposition gives a file. -/
def NamedBy (value name : Bytes) : Prop :=
  extractKeyValue (lit "filename") value false = some name ∧ name ≠ []

/-- A name without slashes and terminators. -/
def PlainName (name : Bytes) : Prop := 47 ∉ name ∧ 0 ∉ name

theorem plainName_decodedValue (value : Bytes) : PlainName (decodedValue value) := by
  constructor
  · intro h
    obtain ⟨c, -, hc⟩ := List.mem_map.1 h
    split_ifs at hc with h47
    · cases hc
    · exact h47 hc
  · intro h
    obtain ⟨c, hmem, hc⟩ := List.mem_map.1 h
    split_ifs at hc with h47
    · cases hc
    · subst hc
      simpa using List.mem_takeWhile_imp hmem

theorem plainName_extractKeyValue {key value name : Bytes} {fails : Bool}
    (h : extractKeyValue key value fails = some name) : PlainName name := by
  rw [extractKeyValue_eq] at h
  split_ifs at h
  obtain ⟨text, -, rfl⟩ := Option.map_eq_some_iff.1 h
  exact plainName_decodedValue text

theorem plainName_random (n : ℕ) : PlainName (lit "up." ++ decimal n) := by
  have hdigit : ∀ c ∈ decimal n, c ≠ 47 ∧ c ≠ 0 := by
    intro c hc
    have h := digit_of_mem_decimal hc
    constructor
    · rintro rfl
      revert h
      decide
    · rintro rfl
      revert h
      decide
  constructor
  · rw [List.mem_append, not_or]
    exact ⟨by decide, fun h => (hdigit _ h).1 rfl⟩
  · rw [List.mem_append, not_or]
    exact ⟨by decide, fun h => (hdigit _ h).2 rfl⟩

/-- A header callback of the module. -/
inductive FileHeader (fsd : Upfs FilemodData) (key value : Bytes) (fsd' : Upfs FilemodData) :
    Prop where
  | other (h : fsd' = fsd) (hkey : fsd.modData.originalFilename = true →
      key ≠ lit "Content-Disposition")
  | named {name : Bytes} (hkey : key = lit "Content-Disposition") (hname : NamedBy value name)
      (hfilename : fsd'.modData.filename = some name)
      (hdirectory : fsd'.modData.directory = fsd.modData.directory)
      (horiginal : fsd'.modData.originalFilename = fsd.modData.originalFilename)
      (hfiles : fsd'.files = fsd.files)
  | unnamed (he : fsd'.uploadError = true)
      (hfilename : ∀ name, fsd'.modData.filename = some name → PlainName name)
      (hdirectory : fsd'.modData.directory = fsd.modData.directory)
      (horiginal : fsd'.modData.originalFilename = fsd.modData.originalFilename)

/-- The look for the file name changes nothing of the data and the files. -/
theorem filename_eq (fsd : Upfs FilemodData) (value : Bytes) :
    ∃ fsd₁, uploadfsGetContentDispositionFilename fsd value
        = (extractKeyValue (lit "filename") value fsd.fails, fsd₁)
      ∧ fsd₁.modData = fsd.modData ∧ fsd₁.files = fsd.files := by
  unfold uploadfsGetContentDispositionFilename extractFrom
  split_ifs
  · exact ⟨fsd.tick, rfl, rfl, rfl⟩
  · exact ⟨fsd, rfl, rfl, rfl⟩

theorem namedBy_of_extract {value name : Bytes} {fails : Bool}
    (h : extractKeyValue (lit "filename") value fails = some name) (hne : name ≠ []) :
    NamedBy value name := by
  refine ⟨?_, hne⟩
  rw [extractKeyValue_eq] at h ⊢
  split_ifs at h with hnil
  rw [if_neg (not_or_intro (not_or.1 hnil).1 Bool.false_ne_true)]
  exact h

theorem fileHeader_spec {key value : Bytes}
    (h : fileHandleFormHeader fsd key value = .ok fsd') : FileHeader fsd key value fsd' := by
  unfold fileHandleFormHeader at h
  split_ifs at h with ho hkey
  · exact .other (Except.ok.inj h).symm fun h => by simp [h] at ho
  · obtain ⟨fsd₁, heq, hdata, hfiles⟩ := filename_eq fsd value
    rw [heq] at h
    dsimp only at h
    split_ifs at h with hnone
    · obtain ⟨fsd₂, h₂, hr⟩ := refused_of_sendError_self (fsd₁.setData { fsd₁.modData with
        filename := extractKeyValue (lit "filename") value fsd.fails })
      rw [h₂] at h
      obtain rfl := Except.ok.inj h
      refine .unnamed hr.error (fun name hname => ?_) ?_ ?_
      · rw [hr.names.filename] at hname
        exact plainName_extractKeyValue hname
      · exact hr.names.directory.trans (by rw [← hdata]; rfl)
      · exact hr.names.originalFilename.trans (by rw [← hdata]; rfl)
    · obtain rfl := Except.ok.inj h
      obtain ⟨name, hname⟩ := Option.ne_none_iff_exists'.1 (not_or.1 hnone).1
      have hne : name ≠ [] := fun hn => (not_or.1 hnone).2 (hn ▸ hname)
      refine .named hkey (namedBy_of_extract hname hne) hname ?_ ?_ hfiles
      · rw [← hdata]
        rfl
      · rw [← hdata]
        rfl
  · exact .other (Except.ok.inj h).symm fun _ => hkey

end Headers

section Directory

/-- What all callbacks keep: the directory and the mode, and a name that is in the directory. -/
structure InDirectory (directory : Bytes) (original : Bool) (d : FilemodData) : Prop where
  directory : d.directory = directory
  originalFilename : d.originalFilename = original
  filename : ∀ name, d.filename = some name → PlainName name

variable {directory : Bytes} {original : Bool}

theorem InDirectory.same {d d' : FilemodData} (h : InDirectory directory original d)
    (hs : SameNames d d') : InDirectory directory original d' :=
  ⟨hs.directory.trans h.directory, hs.originalFilename.trans h.originalFilename,
    fun name hname => h.filename name (hs.filename ▸ hname)⟩

/-- The hook forgets the name of the last request. -/
theorem fileHook_names {fsd fsd' : Upfs FilemodData} (h : filemod.callHook fsd = .ok fsd') :
    SameNames { fsd.modData with filename := none } fsd'.modData := by
  change fileHandleRqHeaders fsd = .ok fsd' at h
  unfold fileHandleRqHeaders at h
  dsimp only at h
  split_ifs at h
  · cases h
    exact ⟨rfl, rfl, rfl⟩
  · cases h
    exact ⟨rfl, rfl, rfl⟩

theorem inDirectory_keeps : filemod.Keeps (InDirectory directory original) where
  hook {fsd fsd'} h hh := by
    have hnone : InDirectory directory original { fsd.modData with filename := none } :=
      ⟨h.directory, h.originalFilename, fun _ h => by cases h⟩
    exact hnone.same (fileHook_names hh)
  call {fsd fsd' c} h hcall := by
    cases c with
    | formHeader key value =>
      cases fileHeader_spec hcall with
      | other heq => exact heq ▸ h
      | named hkey hname hfilename hdirectory horiginal =>
        refine ⟨hdirectory.trans h.directory, horiginal.trans h.originalFilename, fun n hn => ?_⟩
        obtain rfl := Option.some.inj (hfilename.symm.trans hn)
        exact plainName_extractKeyValue hname.1
      | unnamed he hfilename hdirectory horiginal =>
        exact ⟨hdirectory.trans h.directory, horiginal.trans h.originalFilename, hfilename⟩
    | data vec n => exact h.same (fileHandleData_kept hcall)
  finalize {fsd fsd' ok} h hf := by
    cases ok <;> cases hf <;> exact h.same ⟨rfl, rfl, rfl⟩

theorem inDirectory_opened {fsd : Upfs FilemodData} (h : InDirectory directory original fsd.modData)
    {path : Bytes} (hpath : fileOpened fsd = some path) :
    ∃ name, path = directory ++ lit "/" ++ name ∧ PlainName name := by
  unfold fileOpened at hpath
  split_ifs at hpath
  obtain ⟨name, hname, rfl⟩ := Option.map_eq_some_iff.1 hpath
  refine ⟨name, by rw [filePath, h.directory], ?_⟩
  unfold fileName at hname
  split_ifs at hname
  · exact h.filename name hname
  · obtain rfl := Option.some.inj hname
    exact plainName_random _

theorem inDirectory_init {J : JsonLib} {props : Json} {inits : Bool} {fdata : FilemodData}
    (h : fileInit J props inits = .ok (some fdata)) :
    ∃ configured, jsonArrayFindString J props (lit "directory") = some configured
      ∧ killTrailingSlash configured = .ok fdata.directory
      ∧ fdata.originalFilename = jsonArrayFindBoolean J props (lit "original_filename")
      ∧ fdata.filename = none := by
  unfold fileInit at h
  rcases hd : jsonArrayFindString J props (lit "directory") with _ | configured <;> rw [hd] at h
  · cases h
  obtain ⟨directory, hkill, h⟩ := Except.bind_eq_ok.1 h
  split_ifs at h
  · obtain rfl := Option.some.inj (Except.ok.inj h)
    exact ⟨configured, rfl, hkill, rfl, rfl⟩
  · cases h

variable {E I : Type} [Evbuffer E I]

theorem inDirectory_run {mp₀ mp : UploadMount FilemodData} {es : List (UploadRequest E)}
    (h₀ : InDirectory directory original mp₀.fsd.modData)
    (h : run filesStep mp₀ es = some mp) : InDirectory directory original mp.fsd.modData := by
  refine run_inv (C := fun _ _ => True)
    (I := fun mp => InDirectory directory original mp.fsd.modData)
    (fun mp request mp' hI _ hs => ?_) es h₀ (along_true es _) h
  rcases hup : upload filemod mp request with f | mp₁ <;> rw [filesStep, hup] at hs
  · cases hs
  · exact Option.some.inj hs ▸ inDirectory_keeps.upload hup hI

/-- The state in which a call is made. -/
theorem inDirectory_makes {mp : UploadMount FilemodData} {request : UploadRequest E}
    (h : InDirectory directory original mp.fsd.modData) {fsd : Upfs FilemodData} {c : Call}
    (hm : request.Makes filemod mp fsd c) : InDirectory directory original fsd.modData := by
  obtain ⟨-, fsd₀, cs, cs', hhook, he₀, -, hr, -⟩ := hm
  have hstart : InDirectory directory original (request.start mp).modData := h
  exact inDirectory_keeps.replay (inDirectory_keeps.hook hstart hhook) he₀ hr

/-- Whatever the requests before and the headers of a part: the path that is opened for its data is
the configured directory, a slash, and a name without slashes, and no other file is written. -/
theorem paths_in_directory (J : JsonLib) (props : Json) (inits : Bool) (fdata : FilemodData)
    (hinit : fileInit J props inits = .ok (some fdata)) (random : List ℕ) (mountpoint : Bytes)
    (es : List (UploadRequest E)) (mp : UploadMount FilemodData)
    (h : run filesStep (filesMount mountpoint { fdata with random := random }) es = some mp)
    (request : UploadRequest E) (fsd : Upfs FilemodData) (vec : List Bytes) (n : ℤ)
    (hm : request.Makes filemod mp fsd (.data vec n)) :
    ∃ configured directory, jsonArrayFindString J props (lit "directory") = some configured
      ∧ killTrailingSlash configured = .ok directory
      ∧ (∀ path, fileOpened fsd = some path →
        ∃ name, path = directory ++ lit "/" ++ name ∧ 47 ∉ name ∧ 0 ∉ name)
      ∧ ∀ fsd', fileHandleData fsd vec n = .ok fsd' → fsd'.files = fsd.files
        ∨ ∃ path data, fileOpened fsd = some path ∧ fsd'.files = fsd.files ++ [(path, data)] := by
  obtain ⟨configured, hfind, hkill, -, hnone⟩ := inDirectory_init hinit
  have h₀ : InDirectory fdata.directory fdata.originalFilename
      (filesMount mountpoint { fdata with random := random }).fsd.modData :=
    ⟨rfl, rfl, fun name hname => by cases hnone.symm.trans hname⟩
  have hfsd := inDirectory_makes (inDirectory_run h₀ h) hm
  exact ⟨configured, fdata.directory, hfind, hkill, fun path hpath => inDirectory_opened hfsd hpath,
    fun fsd' hdata => fileHandleData_files hdata⟩

end Directory

/-- A section for uploads to files, under the names they come with. -/
def filesSection : Json :=
  .object [(lit "directory", .string (lit "/srv/up/")), (lit "original_filename", .bool true)]

/-- Two files, the second without headers. -/
def twoPartRequest : UploadRequest Bytes where
  contentType := some (lit "multipart/form-data; boundary=B")
  body := lit "--B\r\nContent-Disposition: form-data; filename=\"a&#47;b\"\r\n\r\nx\r\n"
    ++ lit "--B\r\n\r\ny\r\n--B--\r\n"

def twoPartFdata : FilemodData where
  directory := lit "/srv/up"
  originalFilename := true

theorem twoPart_init : fileInit .plain filesSection true = .ok (some twoPartFdata) := rfl

def twoPartHeader : Call :=
  .formHeader (lit "Content-Disposition") (lit "form-data; filename=\"a&#47;b\"")

def twoPartMount : UploadMount FilemodData :=
  filesMount (lit "/up") { twoPartFdata with random := [] }

/-- What is left of the body behind the first part. -/
def secondPart : Input Bytes := { evb := lit "--B\r\n\r\ny\r\n--B--\r\n" }

/-- The states of the upload at the data of its two parts. -/
theorem twoPart_run : ∃ fsd₀ fsd fsd₁,
    filemod.callHook (twoPartRequest.start twoPartMount) = .ok fsd₀
      ∧ fsd₀.uploadError = false ∧ filemod.replay fsd₀ [twoPartHeader] = .ok fsd
      ∧ fsd.uploadError = false ∧ fsd.failures = []
      ∧ fileOpened fsd = some (lit "/srv/up/a_b")
      ∧ multipartHandleNextFile filemod (lit "B") fsd₀ (twoPartRequest.input twoPartMount)
        = .ok (1, fsd₁, secondPart)
      ∧ fsd₁.uploadError = false ∧ fsd₁.failures = [] := by
  have hrun : (do
      let fsd₀ ← filemod.callHook (twoPartRequest.start twoPartMount)
      let fsd ← filemod.replay fsd₀ [twoPartHeader]
      let (ret, fsd₁, _) ← multipartHandleNextFile filemod (lit "B") fsd₀
        (twoPartRequest.input twoPartMount)
      pure (fsd₀.uploadError || fsd.uploadError || fsd₁.uploadError, fileOpened fsd,
        fsd.failures ++ fsd₁.failures, ret))
      = Except.ok (false, some (lit "/srv/up/a_b"), [], 1) := by
    decide +kernel
  have hleft : (do
      let fsd₀ ← filemod.callHook (twoPartRequest.start twoPartMount)
      let (_, _, inp₁) ← multipartHandleNextFile filemod (lit "B") fsd₀
        (twoPartRequest.input twoPartMount)
      pure (inp₁.numIovec, inp₁.failures, inp₁.evb)) = Except.ok (4, [], secondPart.evb) := by
    decide +kernel
  obtain ⟨fsd₀, hhook, hrun⟩ := Except.bind_eq_ok.1 hrun
  obtain ⟨fsd, hr, hrun⟩ := Except.bind_eq_ok.1 hrun
  obtain ⟨⟨ret, fsd₁, evb, room, fails⟩, hnext, hrun⟩ := Except.bind_eq_ok.1 hrun
  rw [hhook, Except.ok_bind, hnext, Except.ok_bind] at hleft
  simp only [pure, Except.pure, Except.ok.injEq, Prod.mk.injEq, Bool.or_eq_false_iff,
    List.append_eq_nil_iff] at hrun hleft
  obtain ⟨⟨⟨he₀, he⟩, he₁⟩, hopened, ⟨hf, hf₁⟩, rfl⟩ := hrun
  obtain ⟨rfl, rfl, rfl⟩ := hleft
  exact ⟨fsd₀, fsd, fsd₁, hhook, he₀, hr, he, hf, hopened, hnext, he₁, hf₁⟩

/-- The path of the first part, in whose name a slash was encoded. -/
theorem paths_twoPart : ∃ fsd,
    twoPartRequest.Makes filemod twoPartMount fsd
        (.data [lit "x\r\n--B\r\n\r\ny\r\n--B--\r\n"] 1)
      ∧ fileOpened fsd = some (lit "/srv/up/a_b")
      ∧ ∀ path, fileOpened fsd = some path →
        ∃ name, path = lit "/srv/up" ++ lit "/" ++ name ∧ 47 ∉ name ∧ 0 ∉ name := by
  obtain ⟨fsd₀, fsd, -, hhook, he₀, hr, he, -, hopened, -⟩ := twoPart_run
  have hm : twoPartRequest.Makes filemod twoPartMount fsd
      (.data [lit "x\r\n--B\r\n\r\ny\r\n--B--\r\n"] 1) :=
    ⟨rfl, fsd₀, [twoPartHeader], [.data [lit "y\r\n--B--\r\n"] 1], hhook, he₀, by decide +kernel,
      hr, he⟩
  refine ⟨fsd, hm, hopened, ?_⟩
  obtain ⟨configured, directory, hfind, hkill, hpath, -⟩ := paths_in_directory .plain
    filesSection true twoPartFdata twoPart_init [] (lit "/up") [] twoPartMount rfl twoPartRequest
    fsd _ 1 hm
  obtain rfl : lit "/srv/up/" = configured := Option.some.inj hfind
  obtain rfl : lit "/srv/up" = directory := Except.ok.inj hkill
  exact hpath

section OwnName

variable {E I : Type} [Evbuffer E I]

theorem ComesToPart.keeps {σ : Type} {m : UploadfsModule σ} {P : σ → Prop} (hP : m.Keeps P)
    {boundary : Bytes} {fsd fsd' : Upfs σ} {inp inp' : Input E}
    (hc : ComesToPart m boundary fsd inp fsd' inp') :
    fsd.uploadError = false → P fsd.modData → fsd'.uploadError = false ∧ P fsd'.modData := by
  induction hc with
  | here => exact fun he h => ⟨he, h⟩
  | next hp _ ih =>
    intro he h
    obtain ⟨he₁, -, hr⟩ := nextFile_passed he hp
    exact ih he₁ (hP.replay h he hr)

theorem ComesToPart.comesTo {σ : Type} {m : UploadfsModule σ} {boundary : Bytes}
    {fsd fsd' : Upfs σ} {inp inp' : Input E} (hc : ComesToPart m boundary fsd inp fsd' inp') :
    fsd.uploadError = false → ComesTo boundary inp inp' := by
  induction hc with
  | here => exact fun _ => .here _
  | next hp _ ih =>
    intro he
    obtain ⟨he₁, hout, -⟩ := nextFile_passed he hp
    exact .next hout (ih he₁)

/-- There is room for an extent at every mountpoint. -/
theorem numIovec_pos_run {mp₀ mp : UploadMount FilemodData} {es : List (UploadRequest E)}
    (h₀ : 0 < mp₀.numIovec) (h : run filesStep mp₀ es = some mp) : 0 < mp.numIovec := by
  refine run_inv (C := fun _ _ => True) (I := fun mp => 0 < mp.numIovec)
    (fun mp request mp' hI _ hs => ?_) es h₀ (along_true es _) h
  rcases hup : upload filemod mp request with f | mp₁ <;> rw [filesStep, hup] at hs
  · cases hs
  · exact Option.some.inj hs ▸ hI.trans_le (upload_numIovec hup)

variable [FlatEvbuffer E I]

/-- The upload comes, with `b` left of its body, to the data of the part that spans `span` of it,
behind the header callbacks `cs` of that part. -/
def UploadRequest.DataOfPart {σ : Type} (m : UploadfsModule σ) (mp : UploadMount σ)
    (request : UploadRequest E) (boundary b : Bytes) (span : PartSpan) (cs : List Call)
    (fsd : Upfs σ) (vec : List Bytes) (n : ℤ) : Prop :=
  request.command = .post ∧ requestCheckHeaders request.contentType = some boundary
    ∧ (nextPart boundary b).outcome = .ok (some span) ∧ ∃ fsd₀ fsd₁ inp₁ cs',
      m.callHook (request.start mp) = .ok fsd₀ ∧ fsd₀.uploadError = false
        ∧ ComesToPart m boundary fsd₀ (request.input mp) fsd₁ inp₁ ∧ inp₁.bytes = b
        ∧ (scanNextFile boundary inp₁).calls = cs ++ .data vec n :: cs'
        ∧ m.replay fsd₁ cs = .ok fsd ∧ fsd.uploadError = false

/-- The value of a Content-Disposition. -/
def Call.disposition : Call → Option Bytes
  | .formHeader key value => if key = lit "Content-Disposition" then some value else none
  | .data _ _ => none

/-- The last Content-Disposition of a part. -/
def ownDisposition (cs : List Call) : Option Bytes := (cs.filterMap Call.disposition).getLast?

/-- The data of the first part of `b` is written to the file the part's own Content-Disposition
names; without one, or where a library call fails, the request is refused. -/
structure StoredUnderOwnName (boundary b : Bytes) (cs : List Call) (fsd : Upfs FilemodData)
    (vec : List Bytes) (n : ℤ) : Prop where
  named : ∀ value, .formHeader (lit "Content-Disposition") value ∈ cs → ∃ name, NamedBy value name
  refused : ownDisposition cs = none ∨ LibFails fsd →
    ∃ fsd', fileHandleData fsd vec n = .ok fsd' ∧ Refused fsd fsd'
  written : ∀ value, ownDisposition cs = some value → ¬ LibFails fsd →
    ∃ name data fsd', NamedBy value name ∧ PartData boundary b data
      ∧ fileHandleData fsd vec n = .ok fsd' ∧ WrittenTo fsd (filePath fsd name) data fsd'

/-- The name kept behind some header callbacks is the one the last Content-Disposition gave, or the
one from before. -/
structure HeadersNamed (cs : List Call) (fsd fsd' : Upfs FilemodData) : Prop where
  original : fsd'.modData.originalFilename = true
  all : ∀ value, .formHeader (lit "Content-Disposition") value ∈ cs → ∃ name, NamedBy value name
  last : match ownDisposition cs with
    | some value => ∃ name, NamedBy value name ∧ fsd'.modData.filename = some name
    | none => fsd'.modData.filename = fsd.modData.filename

theorem ownDisposition_concat (cs : List Call) (c : Call) :
    ownDisposition (cs ++ [c]) = c.disposition.or (ownDisposition cs) := by
  unfold ownDisposition
  rw [List.filterMap_append, List.getLast?_append]
  rcases hc : c.disposition with _ | value <;> simp [hc]

theorem headersNamed {fsd : Upfs FilemodData} (he : fsd.uploadError = false)
    (ho : fsd.modData.originalFilename = true) {cs : List Call} :
    ∀ {fsd' : Upfs FilemodData}, filemod.replay fsd cs = .ok fsd' → fsd'.uploadError = false →
      HeadersNamed cs fsd fsd' := by
  induction cs using List.reverseRecOn with
  | nil =>
    intro fsd' hr _
    cases hr
    exact ⟨ho, (fun value h => by cases h), rfl⟩
  | append_singleton cs c ih =>
    intro fsd' hr he'
    obtain ⟨fsd₁, hr₁, he₁, hr⟩ := replay_append_ok he hr he'
    obtain ⟨ho₁, hall, hlast⟩ := ih hr₁ he₁
    have hcall := replay_single hr
    -- a call that is no Content-Disposition leaves the name
    have hother : c.disposition = none → SameNames fsd₁.modData fsd'.modData →
        HeadersNamed (cs ++ [c]) fsd fsd' := by
      intro hc hs
      refine ⟨hs.originalFilename.trans ho₁, fun value hv => ?_, ?_⟩
      · rcases List.mem_append.1 hv with hv | hv
        · exact hall value hv
        · obtain rfl := List.mem_singleton.1 hv
          simp [Call.disposition] at hc
      · rw [ownDisposition_concat, hc, Option.none_or, hs.filename]
        exact hlast
    cases c with
    | data vec n => exact hother rfl (fileHandleData_kept hcall)
    | formHeader key value =>
      cases fileHeader_spec hcall with
      | other heq hkey =>
        subst heq
        exact hother (if_neg (hkey ho₁)) ⟨rfl, rfl, rfl⟩
      | unnamed he₂ => simp [he₂] at he'
      | @named name hkey hname hfilename hdirectory horiginal =>
        refine ⟨horiginal.trans ho₁, fun v hv => ?_, ?_⟩
        · rcases List.mem_append.1 hv with hv | hv
          · exact hall v hv
          · simp only [List.mem_singleton, Call.formHeader.injEq] at hv
            exact ⟨name, hv.2 ▸ hname⟩
        · rw [ownDisposition_concat, Call.disposition, if_pos hkey, Option.some_or]
          exact ⟨name, hname, hfilename⟩

/-- Data is stored under the name of its part, exactly where a library call fails or the part has a
Content-Disposition and its data callback is given its data. -/
theorem HeadersNamed.stored_iff {boundary b : Bytes} {cs : List Call}
    {fsd₁ fsd : Upfs FilemodData} (h : HeadersNamed cs fsd₁ fsd) (vec : List Bytes) (n : ℤ) :
    StoredUnderOwnName boundary b cs fsd vec n
      ↔ LibFails fsd ∨ ownDisposition cs ≠ none ∧ ValidExtent boundary b vec n := by
  obtain ⟨ho, hall, hlast⟩ := h
  have hdata := fileData_spec fsd vec n
  by_cases hlib : LibFails fsd
  · have hrefused : ∃ fsd', fileHandleData fsd vec n = .ok fsd' ∧ Refused fsd fsd' := by
      generalize fileHandleData fsd vec n = r at hdata ⊢
      rcases hdata with ⟨-, hr⟩ | hnot | hnot | hnot
      · exact ⟨_, rfl, hr⟩
      all_goals exact absurd hlib hnot
    exact iff_of_true ⟨hall, fun _ => hrefused, fun _ _ hnot => absurd hlib hnot⟩ (.inl hlib)
  rw [or_iff_right hlib]
  rcases hown : ownDisposition cs with _ | value
  · refine iff_of_false (fun h => ?_) fun h => h.1 rfl
    obtain ⟨fsd', h', hr⟩ := h.refused (.inl hown)
    rw [h'] at hdata
    cases hdata with
    | refused hlib' => exact hlib hlib'
    | written _ _ _ hw =>
      have := congrArg List.length (hw.files.symm.trans hr.files)
      simp at this
  rw [hown] at hlast
  obtain ⟨name, hname, hfilename⟩ := hlast
  have hfile : fileName fsd = some name := by rw [fileName, if_pos ho, hfilename]
  constructor
  · intro h
    obtain ⟨name', data, fsd', -, hpart, h', hw⟩ := h.written value hown hlib
    rw [h'] at hdata
    cases hdata with
    | refused hlib' => exact absurd hlib' hlib
    | written _ _ hcov hw' =>
      have hsame := List.append_cancel_left (hw'.files.symm.trans hw.files)
      obtain ⟨-, rfl⟩ := Prod.mk.inj (List.singleton_inj.1 hsame)
      exact ⟨by simp, hcov, hpart⟩
  · rintro ⟨-, hcov, hpart⟩
    refine ⟨hall, ?_, fun value' hvalue' _ => ?_⟩
    · rintro (hnone | hlib')
      · rw [hown] at hnone
        cases hnone
      · exact absurd hlib' hlib
    obtain rfl : value = value' := Option.some.inj (hown.symm.trans hvalue')
    generalize fileHandleData fsd vec n = r at hdata ⊢
    rcases hdata with hlib' | ⟨-, hnone⟩ | ⟨-, -, hnot⟩ | ⟨-, hname', -, hw⟩
    · exact absurd hlib' hlib
    · rw [hfile] at hnone
      cases hnone
    · exact absurd hcov hnot
    · obtain rfl := Option.some.inj (hfile.symm.trans hname')
      exact ⟨name, _, _, hname, hpart, rfl, hw⟩

/-- With `original_filename`, whatever the requests before: the data of a part is written to the
file the Content-Disposition of that part names, and refused where it has none, exactly where a
library call fails before anything is written or the part has that header and is sound. -/
theorem own_name_iff (J : JsonLib) (props : Json) (inits : Bool) (fdata : FilemodData)
    (hinit : fileInit J props inits = .ok (some fdata))
    (ho : jsonArrayFindBoolean J props (lit "original_filename") = true) (random : List ℕ)
    (mountpoint : Bytes) (es : List (UploadRequest E)) (mp : UploadMount FilemodData)
    (h : run filesStep (filesMount mountpoint { fdata with random := random }) es = some mp)
    (request : UploadRequest E) (boundary b : Bytes) (span : PartSpan) (cs : List Call)
    (fsd : Upfs FilemodData) (vec : List Bytes) (n : ℤ)
    (hpart : request.DataOfPart filemod mp boundary b span cs fsd vec n) :
    StoredUnderOwnName boundary b cs fsd vec n
      ↔ LibFails fsd ∨ ownDisposition cs ≠ none ∧ span.Sound boundary b := by
  obtain ⟨-, -, hspan, fsd₀, fsd₁, inp₁, cs', hhook, he₀, hcomes, rfl, hcalls, hr, he⟩ := hpart
  obtain ⟨configured, -, -, horiginal, hnone⟩ := inDirectory_init hinit
  have h₀ : InDirectory fdata.directory true
      (filesMount mountpoint { fdata with random := random }).fsd.modData :=
    ⟨rfl, horiginal.trans ho, fun name hname => by cases hnone.symm.trans hname⟩
  have hstart : InDirectory fdata.directory true (request.start mp).modData :=
    inDirectory_run h₀ h
  obtain ⟨he₁, h₁⟩ := hcomes.keeps inDirectory_keeps he₀ (inDirectory_keeps.hook hstart hhook)
  have hroom : 0 < (request.input mp).numIovec := numIovec_pos_run (Nat.succ_pos 3) h
  have hdata : .data vec n ∈ (scanNextFile boundary inp₁).calls := by simp [hcalls]
  obtain ⟨span', hspan', rfl, hpre, hcov⟩ :=
    data_call (comesTo_reaches (hcomes.comesTo he₀) hroom).2 hdata
  obtain rfl : span = span' := Option.some.inj (Except.ok.inj (hspan.symm.trans hspan'))
  rw [(headersNamed he₁ h₁.originalFilename hr he).stored_iff vec _,
    validExtent_iff hspan hpre hcov]

end OwnName

theorem twoPart_calls : (scanNextFile (lit "B") (twoPartRequest.input twoPartMount)).calls
    = [twoPartHeader, .data [lit "x\r\n--B\r\n\r\ny\r\n--B--\r\n"] 1] := by
  decide +kernel

theorem twoPart_span : (nextPart (lit "B") twoPartRequest.body).outcome
    = .ok (some ⟨0, 59, 3⟩) := by
  decide +kernel

theorem twoPart_data : PartData (lit "B") twoPartRequest.body (lit "x") := by
  refine ⟨0, lit "x\r\n--B\r\n\r\ny\r\n--B--\r\n", lit "\r\n\r\ny\r\n--B--\r\n",
    by decide +kernel, ?_, by decide +kernel, by decide +kernel⟩
  have hline : readlnCrlf (twoPartRequest.body.drop 5)
      = some (lit "Content-Disposition: form-data; filename=\"a&#47;b\"",
        lit "\r\nx\r\n--B\r\n\r\ny\r\n--B--\r\n") := by
    decide +kernel
  have hblank : readlnCrlf (lit "\r\nx\r\n--B\r\n\r\ny\r\n--B--\r\n")
      = some ([], lit "x\r\n--B\r\n\r\ny\r\n--B--\r\n") := by
    decide +kernel
  exact .line hline (by decide +kernel) (.blank hblank rfl)

/-- The first part is stored under its name. -/
theorem own_name_twoPart : ∃ fsd fsd',
    twoPartRequest.DataOfPart filemod twoPartMount (lit "B") twoPartRequest.body ⟨0, 59, 3⟩
        [twoPartHeader] fsd [lit "x\r\n--B\r\n\r\ny\r\n--B--\r\n"] 1
      ∧ fileHandleData fsd [lit "x\r\n--B\r\n\r\ny\r\n--B--\r\n"] 1 = .ok fsd'
      ∧ WrittenTo fsd (lit "/srv/up/a_b") (lit "x") fsd' := by
  obtain ⟨fsd₀, fsd, -, hhook, he₀, hr, he, hf, hopened, -⟩ := twoPart_run
  have hpart : twoPartRequest.DataOfPart filemod twoPartMount (lit "B") twoPartRequest.body
      ⟨0, 59, 3⟩ [twoPartHeader] fsd [lit "x\r\n--B\r\n\r\ny\r\n--B--\r\n"] 1 :=
    ⟨rfl, by decide +kernel, twoPart_span, fsd₀, fsd₀, _, [], hhook, he₀, .here _ _, rfl,
      twoPart_calls, hr, he⟩
  have hsound : PartSpan.Sound ⟨0, 59, 3⟩ (lit "B") twoPartRequest.body :=
    ⟨lit "x", twoPart_data, by decide, by decide +kernel⟩
  have hstored := (own_name_iff .plain filesSection true twoPartFdata twoPart_init rfl []
    (lit "/up") [] twoPartMount rfl twoPartRequest (lit "B") twoPartRequest.body ⟨0, 59, 3⟩
    [twoPartHeader] fsd _ 1 hpart).2 (.inr ⟨by decide, hsound⟩)
  obtain ⟨name, data, fsd', hname, hdata, h', hw⟩ := hstored.written _ rfl (by simp [LibFails, hf])
  obtain rfl : data = lit "x" := partData_unique twoPart_span hdata twoPart_data
  obtain rfl : lit "a_b" = name := by
    have hextract : extractKeyValue (lit "filename") (lit "form-data; filename=\"a&#47;b\"") false
        = some (lit "a_b") := by
      decide +kernel
    exact Option.some.inj (hextract.symm.trans hname.1)
  have hstart : InDirectory (lit "/srv/up") true (twoPartRequest.start twoPartMount).modData :=
    ⟨rfl, rfl, fun name hname => by cases hname⟩
  have hdir := inDirectory_keeps.replay (inDirectory_keeps.hook hstart hhook) he₀ hr
  rw [filePath, hdir.directory] at hw
  exact ⟨fsd, fsd', hpart, h', hw⟩

/-- The second part is written over the file of the first. -/
theorem second_part_over_first : ¬ ∀ (J : JsonLib) (props : Json) (inits : Bool)
    (fdata : FilemodData), fileInit J props inits = .ok (some fdata) →
    jsonArrayFindBoolean J props (lit "original_filename") = true →
    ∀ (random : List ℕ) (mountpoint : Bytes) (es : List (UploadRequest Bytes))
      (mp : UploadMount FilemodData),
      run filesStep (filesMount mountpoint { fdata with random := random }) es = some mp →
    ∀ (request : UploadRequest Bytes) (boundary b : Bytes) (span : PartSpan) (cs : List Call)
      (fsd : Upfs FilemodData) (vec : List Bytes) (n : ℤ),
      request.DataOfPart filemod mp boundary b span cs fsd vec n →
        StoredUnderOwnName boundary b cs fsd vec n := by
  intro h
  obtain ⟨fsd₀, -, fsd₁, hhook, he₀, -, -, -, -, hnext, he₁, hf₁⟩ := twoPart_run
  have hstored := h .plain filesSection true twoPartFdata twoPart_init rfl []
    (lit "/up") [] _ rfl twoPartRequest (lit "B") secondPart.bytes ⟨0, 7, 3⟩ [] fsd₁
    [lit "y\r\n--B--\r\n"] 1 ⟨rfl, by decide +kernel, by decide +kernel, fsd₀, fsd₁, secondPart, [],
      hhook, he₀, .next hnext (.here _ _), rfl, by decide +kernel, rfl, he₁⟩
  obtain ⟨fsd', h', hrefused⟩ := hstored.refused (.inl rfl)
  have hdata := fileData_spec fsd₁ [lit "y\r\n--B--\r\n"] 1
  rw [h'] at hdata
  cases hdata with
  | refused hlib => simp [LibFails, hf₁] at hlib
  | written _ _ _ hw =>
    have := congrArg List.length (hw.files.symm.trans hrefused.files)
    simp at this

end AuraHttpd
