import AuraHttpd.Proofs.RoundTrip
import AuraHttpd.Proofs.UploadedFiles

/-!
# What is stored of an upload

In mode file a part's headers leave its name, or the name is drawn, and the data callback writes
the part's data to the file of that name and adds the file to the reply.  Over the calls of a
decoded body (`replay_parts`) every part is stored once, in order, and an upload of parts is
answered by the list of exactly the files it has written (`upload_stored`).
-/

namespace AuraHttpd

open CString Script FlatEvbuffer StepSystem

/-- One of the part's headers, and no other one of its kind, gives a file name. -/
def NamedPart (p : FormPart) (name : Bytes) : Prop :=
  ∃ front value back, p.headers = front ++ (lit "Content-Disposition", value) :: back
    ∧ NamedBy (value.dropWhile (· = 32)) name
    ∧ (∀ h ∈ front, h.1 ≠ lit "Content-Disposition")
    ∧ ∀ h ∈ back, h.1 ≠ lit "Content-Disposition"

/-- The names the parts are stored under: their own, or such as are drawn. -/
inductive StoredNames (original : Bool) : List ℕ → List FormPart → List Bytes → Prop where
  | nil {random : List ℕ} : StoredNames original random [] []
  | own {random : List ℕ} {p : FormPart} {ps : List FormPart} {name : Bytes} {names : List Bytes}
      (horiginal : original = true) (hname : NamedPart p name)
      (hps : StoredNames original random.tail ps names) :
    StoredNames original random (p :: ps) (name :: names)
  | drawn {random : List ℕ} {p : FormPart} {ps : List FormPart} {names : List Bytes}
      (horiginal : original = false) (hps : StoredNames original random.tail ps names) :
    StoredNames original random (p :: ps) ((lit "up." ++ decimal (random.headD 0)) :: names)

/-- The entry of a file in the reply. -/
def fileEntry (directory name : Bytes) : Json :=
  .object [(lit "fullpath", .string (directory ++ lit "/" ++ name)),
    (lit "filename", .string name)]

/-- The files of the parts. -/
def partFiles (directory : Bytes) (parts : List FormPart) (names : List Bytes) :
    List (Bytes × Bytes) :=
  parts.zipWith (fun p name => (directory ++ lit "/" ++ name, p.data)) names

/-- An upload that is going on, with what it has stored and is going to reply. -/
structure Storing (directory : Bytes) (original : Bool) (random : List ℕ)
    (files : List (Bytes × Bytes)) (entries : List Json) (fsd : Upfs FilemodData) : Prop where
  error : fsd.uploadError = false
  failures : NoFailures fsd.failures
  directory : fsd.modData.directory = directory
  original : fsd.modData.originalFilename = original
  random : fsd.modData.random = random
  reply : fsd.modData.reply = some (.array entries)
  files : fsd.files = files
  replies : fsd.replies = []

section Calls

variable {directory : Bytes} {original : Bool} {random : List ℕ} {files : List (Bytes × Bytes)}
  {entries : List Json} {fsd : Upfs FilemodData}

theorem Storing.other_header (h : Storing directory original random files entries fsd)
    {hd : Bytes × Bytes} (hother : original = false ∨ hd.1 ≠ lit "Content-Disposition") :
    filemod.call fsd (headerCall hd) = .ok fsd := by
  show fileHandleFormHeader fsd hd.1 _ = .ok fsd
  unfold fileHandleFormHeader
  rw [h.original]
  rcases hother with rfl | hkey
  · rfl
  · rw [if_neg hkey, ite_self]

theorem Storing.disposition (h : Storing directory true random files entries fsd)
    {value name : Bytes} (hname : NamedBy (value.dropWhile (· = 32)) name) :
    ∃ fsd', filemod.call fsd (headerCall (lit "Content-Disposition", value)) = .ok fsd'
      ∧ Storing directory true random files entries fsd' ∧ fsd'.modData.filename = some name := by
  obtain ⟨hvalue, hne⟩ := hname
  have hfails : fsd.fails = false := h.failures.head
  obtain ⟨fsd₁, heq, hkept⟩ : ∃ fsd₁, uploadfsGetContentDispositionFilename fsd
      (value.dropWhile (· = 32)) = (some name, fsd₁)
        ∧ Storing directory true random files entries fsd₁ := by
    unfold uploadfsGetContentDispositionFilename extractFrom
    rw [hfails, hvalue]
    split_ifs
    · exact ⟨fsd.tick, rfl, { h with failures := h.failures.tail }⟩
    · exact ⟨fsd, rfl, h⟩
  refine ⟨fsd₁.setData { fsd₁.modData with filename := some name }, ?_, ⟨hkept.error,
    hkept.failures, hkept.directory, hkept.original, hkept.random, hkept.reply, hkept.files,
    hkept.replies⟩, rfl⟩
  show fileHandleFormHeader fsd _ _ = .ok _
  unfold fileHandleFormHeader
  simp only [h.original, Bool.true_eq_false, if_false, if_true, heq]
  rw [if_neg (by simp [hne])]

/-- The data callback writes the data to the file of the name, and adds it to the reply. -/
theorem Storing.data (h : Storing directory original random files entries fsd) {name data : Bytes}
    {vec : List Bytes} (hname : (if original then fsd.modData.filename
      else some (lit "up." ++ decimal (random.headD 0))) = some name)
    (hvec : vec.flatten.take data.length = data) :
    ∃ fsd', filemod.call fsd (.data vec data.length) = .ok fsd'
      ∧ Storing directory original random.tail (files ++ [(directory ++ lit "/" ++ name, data)])
        (entries ++ [fileEntry directory name]) fsd' := by
  have hcov : Covered vec data.length := by
    have hlen := congrArg List.length hvec
    rw [List.length_take] at hlen
    exact ⟨by omega, by omega⟩
  have hwritten := dumpIovec_covered vec data.length hcov
  rw [Int.toNat_natCast, hvec] at hwritten
  have h₀ := h.failures
  have h₁ := h₀.tail
  have h₂ := h₁.tail
  have h₃ := h₂.tail
  have h₄ := h₃.tail
  refine ⟨{ fsd with
    failures := fsd.failures.tail.tail.tail.tail.tail
    modData := { fsd.modData with
      random := random.tail
      reply := some (.array (entries ++ [fileEntry directory name])) }
    files := files ++ [(directory ++ lit "/" ++ name, data)] }, ?_, ⟨h.error, h₄.tail, h.directory,
      h.original, rfl, rfl, rfl, h.replies⟩⟩
  show fileHandleData fsd vec data.length = .ok _
  unfold fileHandleData dumpIovecToFile
  simp only [Upfs.fails, Upfs.tick, Upfs.setData, h₀.head, h₁.head, h₂.head, h₃.head, h₄.head,
    Bool.false_eq_true, if_false, h.original, h.random, hname, hwritten, Except.ok_bind, ne_eq,
    not_true_eq_false, h.directory, h.files, h.reply]
  simp [Json.arrayAdd, Json.objectAdd, fileEntry, lit]

/-- Headers that give no name pass by. -/
theorem Storing.replay_others (h : Storing directory original random files entries fsd) :
    ∀ {hs : List (Bytes × Bytes)} (cs : List Call),
      (∀ hd ∈ hs, original = false ∨ hd.1 ≠ lit "Content-Disposition") →
        filemod.replay fsd (hs.map headerCall ++ cs) = filemod.replay fsd cs
  | [], _, _ => rfl
  | hd :: hs, cs, hothers => by
    have hcall := h.other_header (hothers hd (by simp))
    have ih : filemod.replay fsd (hs.map headerCall ++ cs) = filemod.replay fsd cs :=
      h.replay_others cs fun x hx => hothers x (List.mem_cons_of_mem hd hx)
    rw [List.map_cons, List.cons_append, replay_call hcall h.error]
    exact ih

/-- The calls for a part store it. -/
theorem Storing.replay_part (h : Storing directory original random files entries fsd)
    {p : FormPart} {name : Bytes} {vec : List Bytes} (hname : original = true ∧ NamedPart p name
      ∨ original = false ∧ name = lit "up." ++ decimal (random.headD 0))
    (hvec : vec.flatten.take p.data.length = p.data) (cs : List Call) :
    ∃ fsd', filemod.replay fsd (p.headers.map headerCall ++ .data vec p.data.length :: cs)
        = filemod.replay fsd' cs
      ∧ Storing directory original random.tail
        (files ++ [(directory ++ lit "/" ++ name, p.data)]) (entries ++ [fileEntry directory name])
        fsd' := by
  obtain ⟨fsd₁, hheaders, h₁, hname₁⟩ : ∃ fsd₁, (∀ cs, filemod.replay fsd
      (p.headers.map headerCall ++ cs) = filemod.replay fsd₁ cs)
        ∧ Storing directory original random files entries fsd₁
        ∧ (if original then fsd₁.modData.filename
          else some (lit "up." ++ decimal (random.headD 0))) = some name := by
    rcases hname with ⟨rfl, front, value, back, hp, hvalue, hfront, hback⟩ | ⟨rfl, rfl⟩
    · obtain ⟨fsd₁, hcall, h₁, hname₁⟩ := h.disposition hvalue
      refine ⟨fsd₁, fun cs => ?_, h₁, hname₁⟩
      rw [hp, List.map_append, List.append_assoc, h.replay_others _ fun x hx => .inr (hfront x hx),
        List.map_cons, List.cons_append, replay_call hcall h₁.error]
      exact h₁.replay_others cs fun x hx => .inr (hback x hx)
    · exact ⟨fsd, fun cs => h.replay_others cs fun _ _ => .inl rfl, h, rfl⟩
  obtain ⟨fsd₂, hcall, h₂⟩ := h₁.data hname₁ hvec
  exact ⟨fsd₂, (hheaders _).trans (replay_call hcall h₂.error cs), h₂⟩

/-- The calls a decoded body leads to store its parts. -/
theorem replay_parts {parts : List FormPart} {calls : List Call} (hdec : Decodes parts calls) :
    ∀ {random : List ℕ} {names : List Bytes} {files : List (Bytes × Bytes)} {entries : List Json}
      {fsd : Upfs FilemodData}, StoredNames original random parts names →
      Storing directory original random files entries fsd →
        ∃ fsd', filemod.replay fsd calls = .ok fsd'
          ∧ Storing directory original (random.drop parts.length)
            (files ++ partFiles directory parts names)
            (entries ++ names.map (fileEntry directory)) fsd' := by
  induction hdec with
  | nil =>
    rintro random names files entries fsd ⟨⟩ h
    exact ⟨fsd, rfl, by simpa [partFiles] using h⟩
  | @cons p ps vec cs hdata hps ih =>
    intro random names files entries fsd hnames h
    obtain ⟨name, names, rfl, hname, hrest⟩ : ∃ name names', names = name :: names'
        ∧ (original = true ∧ NamedPart p name
          ∨ original = false ∧ name = lit "up." ++ decimal (random.headD 0))
        ∧ StoredNames original random.tail ps names' := by
      cases hnames with
      | own horiginal hname hps => exact ⟨_, _, rfl, .inl ⟨horiginal, hname⟩, hps⟩
      | drawn horiginal hps => exact ⟨_, _, rfl, .inr ⟨horiginal, rfl⟩, hps⟩
    obtain ⟨fsd₁, hpart, h₁⟩ := h.replay_part hname hdata cs
    obtain ⟨fsd', hreplay, h'⟩ := ih hrest h₁
    refine ⟨fsd', hpart.trans hreplay, ?_⟩
    have hdrop : random.tail.drop ps.length = random.drop (ps.length + 1) := by
      rw [List.drop_tail]
    simpa [partFiles, hdrop] using h'

end Calls

section Uploads

variable {E I : Type} [Evbuffer E I] [FlatEvbuffer E I]

/-- The request sends the parts, and no library call fails. -/
structure SendsParts (original : Bool) (random : List ℕ) (request : UploadRequest E)
    (parts : List FormPart) (names : List Bytes) : Prop where
  post : request.command = .post
  failures : NoFailures request.failures
  parserFailures : NoFailures request.parserFailures
  ne_nil : parts ≠ []
  body : ∃ boundary tail, requestCheckHeaders request.contentType = some boundary
    ∧ (∀ c ∈ boundary, HeaderByte c) ∧ (∀ p ∈ parts, p.Valid boundary)
    ∧ bytes request.body = encodeBody boundary parts tail
    ∧ (encodeBody boundary parts tail).length < 2 ^ 31
  names : StoredNames original random parts names

/-- The requests that send some parts each, one after another. -/
inductive SendsAll (original : Bool) :
    List ℕ → List (UploadRequest E) → List (List FormPart × List Bytes) → Prop where
  | nil {random : List ℕ} : SendsAll original random [] []
  | cons {random : List ℕ} {request : UploadRequest E} {requests : List (UploadRequest E)}
      {parts : List FormPart} {names : List Bytes} {uploads : List (List FormPart × List Bytes)}
      (h : SendsParts original random request parts names)
      (hrest : SendsAll original (random.drop parts.length) requests uploads) :
    SendsAll original random (request :: requests) ((parts, names) :: uploads)

/-- An upload of parts stores each of them, and replies with the files. -/
theorem upload_stored {mp : UploadMount FilemodData} {request : UploadRequest E}
    {parts : List FormPart} {names : List Bytes}
    (h : SendsParts mp.fsd.modData.originalFilename mp.fsd.modData.random request parts names) :
    ∃ mp', upload filemod mp request = .ok mp'
      ∧ mp'.fsd.files = mp.fsd.files ++ partFiles mp.fsd.modData.directory parts names
      ∧ mp'.fsd.replies = [.json (.array (names.map (fileEntry mp.fsd.modData.directory)))]
      ∧ mp'.fsd.modData.directory = mp.fsd.modData.directory
      ∧ mp'.fsd.modData.originalFilename = mp.fsd.modData.originalFilename
      ∧ mp'.fsd.modData.random = mp.fsd.modData.random.drop parts.length := by
  obtain ⟨hpost, hmem, hmem', hne, ⟨B, tail, hb, hB, hv, hbody, hlen⟩, hnames⟩ := h
  obtain ⟨fsd₀, hhook, h₀⟩ : ∃ fsd₀, filemod.callHook (request.start mp) = .ok fsd₀
      ∧ Storing mp.fsd.modData.directory mp.fsd.modData.originalFilename mp.fsd.modData.random
        mp.fsd.files [] fsd₀ := by
    have hfails : (request.start mp).fails = false := hmem.head
    refine ⟨(request.start mp).tick.setData { mp.fsd.modData with
      filename := none
      reply := some (.array []) }, ?_, ⟨rfl, hmem.tail, rfl, rfl, rfl, rfl, rfl, rfl⟩⟩
    show fileHandleRqHeaders (request.start mp) = .ok _
    unfold fileHandleRqHeaders
    rw [if_neg (by simpa [Upfs.fails, Upfs.setData] using hfails)]
    rfl
  have hfuel : parts.length ≤ Evbuffer.length request.body + 1 := by
    rw [length_eq, hbody, encodeBody, List.length_append]
    have := length_le_flatMap (f := FormPart.encode B) (l := parts) fun p _ => by
      simp [FormPart.encode, crlf_eq]
    omega
  let inp : Input E := ⟨request.body, mp.numIovec, request.parserFailures⟩
  obtain ⟨calls, inp', hdec, hscan⟩ := scanLoop_encode hB parts _ inp hne hfuel hv hmem' hbody hlen
  obtain ⟨fsd', hreplay, h'⟩ := replay_parts hdec hnames h₀
  have hloop : uploadLoop filemod B (Evbuffer.length request.body + 1) fsd₀ inp
      = .ok (0, fsd', inp') := by
    refine uploadLoop_of_play h₀.error ?_
    rw [hscan]
    exact play_of_replay_ok rfl hreplay h'.error
  refine ⟨⟨(((({ fsd' with finalized := fsd'.finalized ++ [true] } : Upfs FilemodData).reply
    (.json (.array (names.map (fileEntry mp.fsd.modData.directory))))).setData
      { fsd'.modData with reply := none })), inp'.numIovec⟩, ?_, h'.files, ?_, h'.directory,
      h'.original, h'.random⟩
  · unfold upload
    rw [if_neg (by simp [hpost])]
    change (filemod.callHook (request.start mp) >>= _) = _
    rw [hhook, Except.ok_bind, if_neg (by simp [h₀.error]), hb]
    simp only
    change (uploadLoop filemod B _ fsd₀ inp >>= _) = _
    rw [hloop, Except.ok_bind]
    simp [callFinalize, filemod, fileSendResult, h'.reply, Upfs.reply, Upfs.setData, Except.ok_bind]
  · simp [Upfs.reply, Upfs.setData, h'.replies]

/-- Uploads to a directory, one after another: each part is stored once, in the order they come in,
with exactly its data and under its own name or the next drawn one, nothing else is written, and
the answer to an upload lists the files it has written, in order. -/
theorem uploads_stored {mp : UploadMount FilemodData} {requests : List (UploadRequest E)}
    {uploads : List (List FormPart × List Bytes)}
    (h : SendsAll mp.fsd.modData.originalFilename mp.fsd.modData.random requests uploads) :
    ∃ mp', run filesStep mp requests = some mp'
      ∧ mp'.fsd.files = mp.fsd.files
        ++ uploads.flatMap (fun u => partFiles mp.fsd.modData.directory u.1 u.2)
      ∧ ∀ u, uploads.getLast? = some u →
        mp'.fsd.replies = [.json (.array (u.2.map (fileEntry mp.fsd.modData.directory)))] := by
  generalize horiginal : mp.fsd.modData.originalFilename = original at h
  generalize hrandom : mp.fsd.modData.random = random at h
  induction h generalizing mp with
  | nil => exact ⟨mp, rfl, by simp, by simp⟩
  | @cons random request requests parts names uploads hsend hrest ih =>
    subst horiginal hrandom
    obtain ⟨mp₁, hup, hfiles₁, hreplies₁, hdir₁, horiginal₁, hrandom₁⟩ := upload_stored hsend
    obtain ⟨mp', hrun, hfiles, hreplies⟩ := ih horiginal₁ hrandom₁
    rw [hdir₁] at hfiles hreplies
    refine ⟨mp', ?_, by rw [hfiles, hfiles₁, List.flatMap_cons, List.append_assoc], ?_⟩
    · rw [run, filesStep, hup]
      exact hrun
    · rcases uploads with _ | ⟨v, vs⟩
      · cases hrest
        obtain rfl := Option.some.inj hrun
        rintro u ⟨⟩
        exact hreplies₁
      · intro u hu
        exact hreplies u (by simpa [List.getLast?_cons_cons] using hu)

end Uploads

/-- Two files under their own names, the second empty. -/
def namedParts : List FormPart :=
  [{ headers := [(lit "Content-Disposition", lit "form-data; filename=\"a&#47;b\"")]
     data := lit "x\r\n--" },
    { headers := [(lit "X", lit "y"), (lit "Content-Disposition", lit " filename=\"c\"")]
      data := [] }]

def namedRequest : UploadRequest Bytes where
  contentType := some (lit "multipart/form-data; boundary=B")
  body := encodeBody (lit "B") namedParts []

theorem namedParts_names (random : List ℕ) :
    StoredNames true random namedParts [lit "a_b", lit "c"] :=
  .own rfl ⟨[], _, [], rfl, ⟨by decide +kernel, by decide⟩, by simp, by simp⟩ <|
    .own rfl ⟨[(lit "X", lit "y")], _, [], rfl, ⟨by decide +kernel, by decide⟩, by simp [lit],
      by simp⟩ .nil

theorem namedRequest_sends (random : List ℕ) :
    SendsParts true random namedRequest namedParts [lit "a_b", lit "c"] where
  post := rfl
  failures := by simp [NoFailures, namedRequest]
  parserFailures := by simp [NoFailures, namedRequest]
  ne_nil := by simp [namedParts]
  body := by
    refine ⟨lit "B", [], by decide +kernel, by decide +kernel, fun p hp => ?_, rfl,
      by decide +kernel⟩
    rcases List.mem_cons.1 hp with rfl | hp
    · exact ⟨by decide +kernel, by decide +kernel, by decide +kernel⟩
    · rw [List.mem_singleton.1 hp]
      exact ⟨by decide +kernel, by decide +kernel, by decide +kernel⟩
  names := namedParts_names random

/-- Both files are written again by a second upload of them, and listed again. -/
theorem uploads_stored_again :
    ∃ mp', run filesStep twoPartMount [namedRequest, namedRequest] = some mp'
      ∧ mp'.fsd.files = [(lit "/srv/up/a_b", lit "x\r\n--"), (lit "/srv/up/c", []),
        (lit "/srv/up/a_b", lit "x\r\n--"), (lit "/srv/up/c", [])]
      ∧ mp'.fsd.replies = [.json (.array [fileEntry (lit "/srv/up") (lit "a_b"),
        fileEntry (lit "/srv/up") (lit "c")])] := by
  have hsends : SendsAll twoPartMount.fsd.modData.originalFilename
      twoPartMount.fsd.modData.random [namedRequest, namedRequest]
      [(namedParts, [lit "a_b", lit "c"]), (namedParts, [lit "a_b", lit "c"])] :=
    .cons (namedRequest_sends _) (.cons (namedRequest_sends _) .nil)
  obtain ⟨mp', hrun, hfiles, hreplies⟩ := uploads_stored hsends
  exact ⟨mp', hrun, hfiles, hreplies _ rfl⟩

end AuraHttpd
