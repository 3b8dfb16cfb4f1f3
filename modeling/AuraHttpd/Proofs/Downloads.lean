import AuraHttpd.Proofs.BufferIds
import AuraHttpd.Proofs.Extents

/-!
# What was uploaded is what is downloaded

The infos an upload is answered with are gathered part by part, each with the identifier its part
was stored under (`Gathers`), and the parts are those of the body, in its order (`PartAt`,
`scanLoop_part`).  Whatever comes in afterwards, the record of an identifier that is not asked to
be dropped stays what it was made, so that a download sends what the transport took from the
part's extents and, behind it, as many bytes as its overhead is.  That is the part's data exactly
where there is no overhead and the part is sound (`download_part_iff`).
-/

namespace AuraHttpd

open CString Script StepSystem

/-- The part the body `b` has behind `k` others: what is left of the body there, and where the
part lies in it. -/
inductive PartAt (boundary : Bytes) : ℕ → Bytes → Bytes → PartSpan → Prop where
  | first {b : Bytes} {span : PartSpan} (h : (nextPart boundary b).outcome = .ok (some span)) :
    PartAt boundary 0 b b span
  | next {k : ℕ} {b b' : Bytes} {span span' : PartSpan}
      (h : (nextPart boundary b).outcome = .ok (some span))
      (hgo : GoesOn boundary (b.drop span.length))
      (hrest : PartAt boundary k (b.drop span.length) b' span') :
    PartAt boundary (k + 1) b b' span'

/-- The part a call hands over. -/
def Call.part : Call → Option Part
  | .formHeader _ _ => none
  | .data vec length => some ⟨vec, length⟩

section Scan

variable {boundary : Bytes}

theorem filterMap_part_headers {cs : List Call} (h : ∀ c ∈ cs, ∃ key value,
    c = .formHeader key value) : cs.filterMap Call.part = [] := by
  rw [List.filterMap_eq_nil_iff]
  intro c hc
  obtain ⟨key, value, rfl⟩ := h c hc
  rfl

theorem PartAt.span {k : ℕ} {b b' : Bytes} {span : PartSpan} (h : PartAt boundary k b b' span) :
    (nextPart boundary b').outcome = .ok (some span) := by
  induction h with
  | first h => exact h
  | next _ _ _ ih => exact ih

variable {E I : Type} [Evbuffer E I] [FlatEvbuffer E I]

/-- The parts the loop of `upload` hands over are those of the body, with extents that begin as
far behind the data's beginning as the part's delimiter stood behind that of the buffer. -/
theorem scanLoop_part {b' : Bytes} {span : PartSpan} {part : Part} :
    ∀ {fuel k : ℕ} {inp : Input E}, 0 < inp.numIovec → PartAt boundary k inp.bytes b' span →
      ((scanLoop boundary fuel inp).calls.filterMap Call.part)[k]? = some part →
      part.length = wrapS 32 (span.next - 2)
        ∧ part.vec.flatten <+: b'.drop (span.data + span.start)
        ∧ min ((span.next : ℤ) - 2).toNat (b'.drop (span.data + span.start)).length
          ≤ part.vec.flatten.length
  | 0, k, inp, _, _, hcall => by simp [scanLoop, fault] at hcall
  | fuel + 1, k, inp, hroom, hat, hcall => by
    have hheaders : (nextPart boundary inp.bytes).calls.filterMap Call.part = [] :=
      filterMap_part_headers (nextPart_calls inp.bytes)
    rw [scanLoop] at hcall
    cases scanNextFile_flat boundary inp (.inl hroom) with
    | @noMemory cs ret inp' hmem hcs hret h =>
      have hnil : cs.filterMap Call.part = [] :=
        List.prefix_nil.1 (hheaders ▸ hcs.filterMap Call.part)
      rw [h, bind_ok] at hcall
      have hne : ret ≠ 1 := by omega
      simp [hne, pure, hnil] at hcall
    | crashed hpart h =>
      rw [h, bind_error] at hcall
      simp [hheaders] at hcall
    | stopped hpart h =>
      rw [h, bind_ok] at hcall
      simp [pure, hheaders] at hcall
    | @taken span₁ vec inp' hpart hpre hcov hbytes hroom' hmem h =>
      rw [h, bind_assoc, bind_ok, List.filterMap_append, List.filterMap_append, hheaders,
        List.nil_append] at hcall
      cases hat with
      | first hspan =>
        obtain rfl : span = span₁ := Option.some.inj (Except.ok.inj (hspan.symm.trans hpart))
        obtain rfl : (⟨vec, wrapS 32 (span.next - 2)⟩ : Part) = part := by
          simpa [Call.part] using hcall
        exact ⟨rfl, hpre, hcov⟩
      | @next k _ _ span₂ _ hspan hgo hrest =>
        obtain rfl : span₂ = span₁ := Option.some.inj (Except.ok.inj (hspan.symm.trans hpart))
        rw [← hbytes] at hrest
        have hdel : delimiterScan boundary (inp.bytes.drop span₂.length) = pure 1 := by
          have hlen := hgo.1
          simp only [delimiterScan, hlen, hgo.2, if_true, if_false]
        rw [hdel] at hcall
        exact scanLoop_part hroom' hrest (by simpa [Call.part] using hcall)

end Scan

section Gathering

variable {mountpoint : Bytes} {T : AuraTransport} {old : List (ℤ × Part)} {cs : List Call}
  {d d' : BufmodData}

/-- An info shows the identifier its part was assigned. -/
def ShowsId (e : ℤ × Part) (info : Json) : Prop := info.get (lit "id") = .int (Int64.ofInt e.1)

/-- The infos gathered for the request are those of the parts handed over in it. -/
def Gathers (old : List (ℤ × Part)) (cs : List Call) (d : BufmodData) : Prop :=
  ∃ i infos new, d.currentInfo = some i ∧ d.infos i = .array infos ∧ d.assigned = old ++ new
    ∧ new.map Prod.snd = cs.filterMap Call.part ∧ List.Forall₂ ShowsId new infos

/-- A header leaves alone what is gathered. -/
theorem Gathers.header (h : Gathers old cs d) {key value : Bytes}
    (hi : d'.currentInfo = d.currentInfo) (hinfos : d'.infos = d.infos)
    (ha : d'.assigned = d.assigned) : Gathers old (cs ++ [.formHeader key value]) d' := by
  obtain ⟨i, infos, new, hcur, harr, hassigned, hnew, hshows⟩ := h
  refine ⟨i, infos, new, hi.trans hcur, by rw [hinfos, harr], ha.trans hassigned, ?_, hshows⟩
  rw [hnew, List.filterMap_append]
  simp [Call.part]

theorem InfoSet.gathered {r : RecordId} (h : InfoSet d r d') : d'.currentInfo = d.currentInfo
    ∧ d'.infos = d.infos ∧ d'.assigned = d.assigned := by
  cases h with
  | refl => exact ⟨rfl, rfl, rfl⟩
  | set hg hb =>
    obtain ⟨st, hst⟩ := use_eq d r
    rw [hst]
    exact ⟨rfl, rfl, rfl⟩

/-- What is stored for a request goes to its array of infos, its identifier in it. -/
theorem storeBuffer_infos {r : RecordId} {b : AvailableBuffer} {part : Part} {i : InfoId}
    (hcur : d.currentInfo = some i) : (storeBuffer mountpoint d r b part).infos i
      = (d.infos i).arrayAdd ((b.info.map
          (·.objectAdd (lit "id") (.int (Int64.ofInt b.id)))).getD .null) := by
  unfold storeBuffer
  rw [hcur]
  simp [bufAvailRegister, BufmodData.setRecord]

/-- Each callback that signals no error gathers the info of what it is given. -/
theorem Gathers.trans {c : Call} (h : Gathers old cs d) (hi : HasInfo d)
    (ht : BufTrans mountpoint T d c false d') : Gathers old (cs ++ [c]) d' := by
  cases ht with
  | headerOpen hr hset =>
    obtain ⟨hcur, hinfos, ha⟩ := hset.gathered
    exact h.header hcur hinfos ha
  | headerNew hr hset =>
    obtain ⟨hcur, hinfos, ha⟩ := hset.gathered
    exact h.header hcur hinfos ha
  | @dataStored vec n r b aura hsize hr hb ha =>
    obtain ⟨i, infos, new, hcur, harr, hassigned, hnew, hshows⟩ := h
    obtain ⟨fs, hfs⟩ := hi r b hr hb
    obtain ⟨fs', hadd, hget⟩ := get_objectAdd fs (lit "id") (.int (Int64.ofInt d.currentId))
    obtain ⟨st, hst⟩ := fillRecord_eq d.countPart r b (some aura)
    rw [hst]
    refine ⟨i, infos ++ [.object fs'], new ++ [(d.currentId, ⟨vec, n⟩)], hcur, ?_, ?_, ?_, ?_⟩
    · rw [storeBuffer_infos]
      · simp only [BufmodData.countPart, BufmodData.setRecord, harr, hfs, Option.map_some,
          Option.getD_some, hadd]
        rfl
      · exact hcur
    · change d.assigned ++ _ = _
      rw [hassigned, List.append_assoc]
    · rw [List.map_append, hnew, List.filterMap_append]
      rfl
    · exact List.rel_append hshows (.cons (hadd ▸ hget) .nil)

theorem rule_true : StoreRule mountpoint T (fun _ => True) (fun _ => True) :=
  ⟨fun _ _ _ _ => trivial, fun _ _ _ _ => trivial⟩

theorem gathers_replay (cs : List Call) : ∀ {fsd₀ fsd₁ : Upfs BufmodData},
    Holds mountpoint (fun _ => True) fsd₀ → HasInfo fsd₀.modData → fsd₀.uploadError = false →
    Gathers old [] fsd₀.modData → (buffermod T).replay fsd₀ cs = .ok fsd₁ →
    fsd₁.uploadError = false → Gathers old cs fsd₁.modData := by
  induction cs using List.reverseRecOn with
  | nil =>
    intro fsd₀ fsd₁ _ _ _ h hr _
    cases hr
    exact h
  | append_singleton cs c ih =>
    intro fsd₀ fsd₁ hh hi he h hr he₁
    obtain ⟨fsd, hcs, he', hc⟩ := replay_append_ok he hr he₁
    have hcall := replay_single hc
    obtain ⟨-, hi'⟩ := rule_true.calls (fun _ _ _ _ _ _ _ => trivial) hh hi he hcs
    exact (ih hh hi he h hcs he').trans (hi' he') (bufTrans_of_call hcall he₁)

variable {E I : Type} [Evbuffer E I]

/-- What ends in an error is not answered with an object. -/
theorem sendError_replies {fsd fsd' : Upfs BufmodData} {j : Json}
    (hs : uploadfsUploadSendError (buffermod T).finalize fsd none = .ok fsd') :
    fsd'.replies ≠ [.json j] := by
  obtain rfl := Except.ok.inj ((bufferSendError_eq fsd).symm.trans hs)
  intro h
  have hlast := congrArg List.getLast? h
  simp [refused] at hlast

/-- The infos an upload is answered with are those of the body's parts, under the identifiers the
parts were assigned. -/
theorem upload_gathers {mp mp' : UploadMount BufmodData} {request : UploadRequest E}
    {infos : List Json} (hmp : mp.fsd.mountpoint = mountpoint)
    (hwf : StoreWf mountpoint mp.fsd.modData) (h : upload (buffermod T) mp request = .ok mp')
    (hreply : mp'.fsd.replies = [.json (.array infos)]) :
    (∃ boundary, requestCheckHeaders request.contentType = some boundary)
      ∧ ∃ new, mp'.fsd.modData.assigned = mp.fsd.modData.assigned ++ new
        ∧ new.map Prod.snd = (request.calls mp.numIovec).filterMap Call.part
        ∧ List.Forall₂ ShowsId new infos := by
  have hwf₀ : StoreWf mountpoint (request.start mp).modData := hwf
  cases upload_run h with
  | notAllowed _ _ hpost =>
    simp only [upload, ne_eq, hpost, not_false_eq_true, if_true] at h
    cases h
    simp [Upfs.reply] at hreply
  | hookFails hh he =>
    rw [bufferHook_eq] at hh
    split_ifs at hh
    · obtain hfsd := Except.ok.inj hh
      have hlast := congrArg List.getLast? (hfsd ▸ hreply)
      simp [refused] at hlast
    · rw [← Except.ok.inj hh] at he
      cases he
  | noBoundary _ _ hs => exact absurd hreply (sendError_replies hs)
  | stopped _ _ _ _ _ hs => exact absurd hreply (sendError_replies hs)
  | @scanned boundary fsd₀ fsd₁ r hh he hb hr he₁ hx hs =>
    obtain ⟨-, hkept, -⟩ := hook_kept (request.start mp) hmp hwf₀ hh
    have hstart : Holds mountpoint (fun _ => True) (request.start mp) := ⟨hmp, hwf₀, trivial⟩
    obtain ⟨hholds, hi⟩ := rule_true.hook hstart hh
    have h₀ : Gathers mp.fsd.modData.assigned [] fsd₀.modData := by
      have hassigned : fsd₀.modData.assigned = mp.fsd.modData.assigned := hkept.same.assigned
      rw [bufferHook_eq] at hh
      split_ifs at hh
      · rw [← Except.ok.inj hh] at he
        cases he
      · refine ⟨(clearStale (request.start mp).mountpoint (request.start mp).modData).nextInfo, [],
          [], ?_, ?_, by rw [hassigned, List.append_nil], rfl, .nil⟩
        · rw [← Except.ok.inj hh]
          rfl
        · rw [← Except.ok.inj hh]
          exact Function.update_self _ _ _
    obtain ⟨i, infos', new, hcur, harr, hassigned, hnew, hshows⟩ :=
      gathers_replay _ hholds hi he h₀ hr he₁
    simp only [endUpload] at hs
    split_ifs at hs
    · exact absurd hreply (sendError_replies hs)
    · rw [← Except.ok.inj ((bufferFinalize_true fsd₁).symm.trans hs)] at hreply ⊢
      have hlast := congrArg List.getLast? hreply
      simp only [finished, hcur, Option.map_some, harr, Option.getD_some,
        List.getLast?_append, List.getLast?_singleton, Option.some_or, Option.some.injEq,
        Reply.json.injEq, Json.array.injEq] at hlast
      exact ⟨⟨boundary, hb⟩, new, hassigned, hnew, hlast ▸ hshows⟩

end Gathering

section Runs

variable {mountpoint : Bytes} {T : AuraTransport} {E I : Type} [Evbuffer E I]

theorem storeStep_post {mp mp' : UploadMount BufmodData} {request : UploadRequest E}
    (hwf : StoreWf mountpoint mp.fsd.modData)
    (h : storeStep T mp (mountpoint ++ lit "/post", request) = some mp') :
    upload (buffermod T) mp request = .ok mp' := by
  rcases hf : mp.fsd.modData.routes.find (mountpoint ++ lit "/post") with _ | k
  · simp [storeStep, hf] at h
  obtain rfl : k = .post := by
    generalize hp : mountpoint ++ lit "/post" = p at hf
    cases hwf.routes p k hf with
    | list => exact absurd hp (path_ne (by simp [lit]))
    | post => rfl
    | download => exact absurd hp (path_ne (by simp [lit]))
    | drop => exact absurd hp (path_ne (by simp [lit]))
  simp only [storeStep, hf] at h
  rcases hu : upload (buffermod T) mp request with f | mp₁ <;> rw [hu] at h
  · cases h
  · rw [Option.some.inj h]

theorem storeStep_numIovec {mp mp' : UploadMount BufmodData} {e : Bytes × UploadRequest E}
    (h : storeStep T mp e = some mp') : mp.numIovec ≤ mp'.numIovec := by
  unfold storeStep at h
  simp only at h
  split at h
  · cases h
  · rcases hu : upload (buffermod T) mp e.2 with f | mp₁ <;> rw [hu] at h
    · cases h
    · rw [← Option.some.inj h]
      exact upload_numIovec hu
  · cases h
    exact le_rfl
  · obtain ⟨fsd, -, rfl⟩ := Option.map_eq_some_iff.1 h
    exact le_rfl
  · cases h
    exact le_rfl

theorem storeRun_numIovec {es : List (Bytes × UploadRequest E)} {mp : UploadMount BufmodData}
    (h : run (storeStep T) (bufferMount mountpoint) es = some mp) : 0 < mp.numIovec :=
  run_inv (C := fun _ _ => True) (I := fun mp : UploadMount BufmodData => 0 < mp.numIovec)
    (fun _ _ _ hI _ hs => hI.trans_le (storeStep_numIovec hs)) es (Nat.succ_pos 3)
    (along_true es _) h

/-- What a request assigned is still there where its identifier was not asked to be dropped
since. -/
theorem record_kept {es₁ es₂ : List (Bytes × UploadRequest E)} {e : Bytes × UploadRequest E}
    {mp₁ mp₂ mp : UploadMount BufmodData}
    (h₁ : run (storeStep T) (bufferMount mountpoint) es₁ = some mp₁)
    (he : storeStep T mp₁ e = some mp₂) (hpath : ∀ i, e.1 ≠ dropPath mountpoint i)
    (h₂ : run (storeStep T) mp₂ es₂ = some mp) (hparts : mp.fsd.modData.parts < 2 ^ 63)
    {new : List (ℤ × Part)}
    (hnew : mp₂.fsd.modData.assigned = mp₁.fsd.modData.assigned ++ new) {x : ℤ × Part}
    (hx : x ∈ new) :
    (Int64.ofInt x.1).toInt = x.1 ∧ (dropPath mountpoint x.1 ∉ es₂.map Prod.fst →
      ∃ r b, r ∈ mp.fsd.modData.buffers ∧ mp.fsd.modData.records r = some b
        ∧ RecordOf T b x.1 x.2
        ∧ mp.fsd.modData.routes.find (downloadPath mountpoint x.1) = some (.download r)) := by
  obtain ⟨hmp₁, hwf₁, hstore₁⟩ := storeOf_mounted es₁ h₁
  have hstart : Holds mountpoint (StoreOf mountpoint T mp₁.fsd.modData.assigned []) mp₁.fsd :=
    ⟨hmp₁, hwf₁, hstore₁.restart⟩
  have hone : run (storeStep T) mp₁ [e] = some mp₂ := by simp [run, he]
  have hall : run (storeStep T) mp₁ (e :: es₂) = some mp := by simp [run, he, h₂]
  obtain ⟨hmp₂, hwf₂, hstore₂⟩ := storeOf_run [e] hstart hone
  obtain ⟨rest, hassigned⟩ := (storeOf_run es₂ ⟨hmp₂, hwf₂, hstore₂.restart⟩ h₂).prop.kept
  rw [hnew] at hassigned
  obtain ⟨s, hrep, hdropped⟩ := (storeOf_run (e :: es₂) hstart hall).prop.store hparts
  have hincreasing : (mp.fsd.modData.assigned.map Prod.fst).Pairwise (· < ·) := by
    have := s.increasing
    rw [hrep.assigned, List.map_map, List.pairwise_map]
    rw [List.pairwise_map] at this
    exact this.imp fun h => Int.ofNat_lt.2 h
  have hmem : x ∈ mp.fsd.modData.assigned := by
    rw [← hassigned]
    exact List.mem_append_left _ (List.mem_append_right _ hx)
  have hnot : x.1 ∉ mp₁.fsd.modData.assigned.map Prod.fst := by
    intro hold
    rw [← hassigned, List.map_append, List.map_append, List.pairwise_append] at hincreasing
    exact lt_irrefl _ ((List.pairwise_append.1 hincreasing.1).2.2 _ hold _
      (List.mem_map_of_mem hx))
  rw [hrep.assigned] at hmem
  obtain ⟨a, ha, rfl⟩ := List.mem_map.1 hmem
  have hlt : a.1 < 2 ^ 63 := (s.below a ha).trans_le (hrep.bound.trans hparts.le)
  refine ⟨Int64.toInt_ofInt_of_le (by simp only; omega) (by simp only; omega), fun hdrop => ?_⟩
  have hkept := s.kept a ha fun hd => by
    rcases (hdropped _ hd).2 with hold | hp
    · exact hnot hold
    · rcases List.mem_cons.1 hp with hp | hp
      · exact hpath _ hp.symm
      · exact hdrop hp
  obtain ⟨b, hb, hof⟩ := hrep.record a hkept
  have hr : a.2.1 ∈ mp.fsd.modData.buffers := hrep.buffers ▸ List.mem_map_of_mem hkept
  exact ⟨_, b, hr, hb, hof, hof.id ▸ hrep.routes _ _ (.download hr hb)⟩

/-- The identifier that is shown by the info behind `k` others in the answer of the upload that led
here. -/
def UploadMount.returnedId (mp : UploadMount BufmodData) (k : ℕ) : Option Int64 :=
  match mp.fsd.replies with
  | [.json (.array infos)] =>
    match (infos.getD k .null).get (lit "id") with
    | .int id => some id
    | _ => none
  | _ => none

theorem returnedId_eq_some {mp : UploadMount BufmodData} {k : ℕ} {id : Int64}
    (h : mp.returnedId k = some id) : ∃ infos, mp.fsd.replies = [.json (.array infos)]
      ∧ ∃ hk : k < infos.length, infos[k].get (lit "id") = .int id := by
  unfold UploadMount.returnedId at h
  split at h
  · rename_i infos hreply
    split at h
    · rename_i hget
      cases h
      rcases Nat.lt_or_ge k infos.length with hk | hk
      · rw [List.getD_eq_getElem?_getD, List.getElem?_eq_getElem hk, Option.getD_some] at hget
        exact ⟨infos, hreply, hk, hget⟩
      · rw [List.getD_eq_getElem?_getD, List.getElem?_eq_none hk, Option.getD_none] at hget
        cases hget
    · cases h
  · cases h

/-- The record of a part whose identifier was returned, and what it was given. -/
theorem returned_record [FlatEvbuffer E I] {es₁ es₂ : List (Bytes × UploadRequest E)}
    {request : UploadRequest E} {mp₁ mp₂ mp : UploadMount BufmodData}
    (h₁ : run (storeStep T) (bufferMount mountpoint) es₁ = some mp₁)
    (hup : storeStep T mp₁ (mountpoint ++ lit "/post", request) = some mp₂)
    (h₂ : run (storeStep T) mp₂ es₂ = some mp) (hparts : mp.fsd.modData.parts < 2 ^ 63)
    {boundary b : Bytes} {span : PartSpan} {k : ℕ} {id : Int64}
    (hb : requestCheckHeaders request.contentType = some boundary)
    (hat : PartAt boundary k (FlatEvbuffer.bytes request.body) b span)
    (hid : mp₂.returnedId k = some id) (hdrop : dropPath mountpoint id.toInt ∉ es₂.map Prod.fst) :
    ∃ r rec part, r ∈ mp.fsd.modData.buffers ∧ mp.fsd.modData.records r = some rec
      ∧ RecordOf T rec id.toInt part
      ∧ mp.fsd.modData.routes.find (downloadPath mountpoint id.toInt) = some (.download r)
      ∧ part.length = wrapS 32 (span.next - 2)
      ∧ part.vec.flatten <+: b.drop (span.data + span.start)
      ∧ min ((span.next : ℤ) - 2).toNat (b.drop (span.data + span.start)).length
        ≤ part.vec.flatten.length := by
  obtain ⟨infos, hreply, hk, hget⟩ := returnedId_eq_some hid
  obtain ⟨hmp₁, hwf₁, -⟩ := storeOf_mounted es₁ h₁
  obtain ⟨-, new, hnew, hparts', hshows⟩ :=
    upload_gathers hmp₁ hwf₁ (storeStep_post hwf₁ hup) hreply
  have hk' : k < new.length := hshows.length_eq ▸ hk
  have hshow := (List.forall₂_iff_get.1 hshows).2 k hk' hk
  have hpart : ((request.calls mp₁.numIovec).filterMap Call.part)[k]? = some new[k].2 := by
    rw [← hparts', List.getElem?_map, List.getElem?_eq_getElem hk', Option.map_some]
  have hcalls : request.calls mp₁.numIovec = (request.scan boundary mp₁.numIovec).calls := by
    rw [UploadRequest.calls, hb]
  rw [hcalls] at hpart
  obtain ⟨hlength, hpre, hcov⟩ := scanLoop_part (storeRun_numIovec h₁) hat hpart
  have hidk : Int64.ofInt new[k].1 = id := Json.int.inj (hshow.symm.trans hget)
  obtain ⟨hint, hkept⟩ := record_kept h₁ hup (fun i => path_ne (by simp [lit])) h₂ hparts hnew
    (List.getElem_mem hk')
  rw [hidk] at hint
  rw [← hint] at hkept
  obtain ⟨r, rec, hr, hrec, hof, hroute⟩ := hkept hdrop
  exact ⟨r, rec, new[k].2, hr, hrec, hof, hroute, hlength, hpre, hcov⟩

/-- The reply to a download is the part's data exactly where there is no overhead and the part is
sound. -/
theorem made_data_iff (hT : T.Yields) (hov : T.overhead < 2 ^ 32) {boundary b : Bytes}
    {span : PartSpan} {part : Part} {made : AuraBuffer}
    (hspan : (nextPart boundary b).outcome = .ok (some span))
    (hlength : part.length = wrapS 32 (span.next - 2))
    (hpre : part.vec.flatten <+: b.drop (span.data + span.start))
    (hcov : min ((span.next : ℤ) - 2).toNat (b.drop (span.data + span.start)).length
      ≤ part.vec.flatten.length)
    (hmade : T.fromEviovec part.vec part.length = .ok made) :
    PartData boundary b (made.data ++ made.extra) ↔ T.overhead = 0 ∧ span.Sound boundary b := by
  obtain ⟨hlen, hdata, hextra⟩ := hT _ _ _ hmade
  have hvalid := validExtent_iff hspan hpre hcov
  rw [← hlength] at hvalid
  have hcovered : Covered part.vec part.length := by
    have hle : made.data.length ≤ part.vec.flatten.length := hdata ▸ List.length_take_le' _ _
    exact ⟨by omega, by omega⟩
  constructor
  · intro hreply
    obtain ⟨-, hnext, -⟩ := (partData_iff hspan).1 hreply
    rw [List.length_append, hextra] at hnext
    have hwrap : wrapS 32 (span.next - 2) = span.next - 2 - T.overhead := by
      rw [← hlength, ← hlen]
      omega
    have hzero : T.overhead = 0 := by
      have hmod := Int.bmod_emod (x := span.next - 2) (m := 2 ^ 32)
      rw [← wrapS, hwrap] at hmod
      push_cast at hmod
      omega
    have hnil : made.extra = [] := List.eq_nil_of_length_eq_zero (hextra.trans hzero)
    rw [hnil, List.append_nil, hdata] at hreply
    exact ⟨hzero, hvalid.1 ⟨hcovered, hreply⟩⟩
  · rintro ⟨hzero, hsound⟩
    have hnil : made.extra = [] := List.eq_nil_of_length_eq_zero (hextra.trans hzero)
    rw [hnil, List.append_nil, hdata]
    exact (hvalid.2 hsound).2

/-- What a download sends is the part's data exactly where there is no overhead and the part is
sound. -/
theorem download_reply [FlatEvbuffer E I] (hT : T.Yields) (hov : T.overhead < 2 ^ 32)
    {es₁ es₂ : List (Bytes × UploadRequest E)} {request : UploadRequest E}
    {mp₁ mp₂ mp : UploadMount BufmodData}
    (h₁ : run (storeStep T) (bufferMount mountpoint) es₁ = some mp₁)
    (hup : storeStep T mp₁ (mountpoint ++ lit "/post", request) = some mp₂)
    (h₂ : run (storeStep T) mp₂ es₂ = some mp) (hparts : mp.fsd.modData.parts < 2 ^ 63)
    {boundary b : Bytes} {span : PartSpan} {k : ℕ} {id : Int64}
    (hb : requestCheckHeaders request.contentType = some boundary)
    (hat : PartAt boundary k (FlatEvbuffer.bytes request.body) b span)
    (hid : mp₂.returnedId k = some id) (hdrop : dropPath mountpoint id.toInt ∉ es₂.map Prod.fst)
    {download : UploadRequest E} (hfail : download.failures.headD false = false) :
    ∃ mp' sent, storeStep T mp (downloadPath mountpoint id.toInt, download) = some mp'
      ∧ mp'.fsd.replies = [.data sent]
      ∧ (PartData boundary b sent ↔ T.overhead = 0 ∧ span.Sound boundary b) := by
  obtain ⟨r, rec, part, hr, hrec, hof, hroute, hlength, hpre, hcov⟩ :=
    returned_record h₁ hup h₂ hparts hb hat hid hdrop
  obtain ⟨aura, made, haura, hmade, hdata, hextra⟩ := hof.buf
  obtain ⟨mp', hs, -, hreply, -⟩ := storeStep_download (T := T)
    (e := (downloadPath mountpoint id.toInt, download)) hroute hr hrec haura hfail
  rw [hdata, hextra] at hreply
  exact ⟨mp', _, hs, hreply, made_data_iff hT hov hat.span hlength hpre hcov hmade⟩

/-- A part that was uploaded, whose identifier was returned and was not asked to be dropped since,
is what a download sends if and only if the transport keeps nothing behind the payload, there is
memory for the reply, and the part is sound. -/
theorem download_part_iff [FlatEvbuffer E I] (T : AuraTransport) (hT : T.Yields)
    (hov : T.overhead < 2 ^ 32) (mountpoint : Bytes) (es₁ es₂ : List (Bytes × UploadRequest E))
    (request : UploadRequest E) (mp₁ mp₂ mp : UploadMount BufmodData)
    (h₁ : run (storeStep T) (bufferMount mountpoint) es₁ = some mp₁)
    (hup : storeStep T mp₁ (mountpoint ++ lit "/post", request) = some mp₂)
    (h₂ : run (storeStep T) mp₂ es₂ = some mp) (hparts : mp.fsd.modData.parts < 2 ^ 63)
    (boundary b : Bytes) (span : PartSpan) (k : ℕ) (id : Int64)
    (hb : requestCheckHeaders request.contentType = some boundary)
    (hat : PartAt boundary k (FlatEvbuffer.bytes request.body) b span)
    (hid : mp₂.returnedId k = some id) (hdrop : dropPath mountpoint id.toInt ∉ es₂.map Prod.fst)
    (download : UploadRequest E) :
    (∃ mp' data, PartData boundary b data
        ∧ storeStep T mp (downloadPath mountpoint id.toInt, download) = some mp'
        ∧ mp'.fsd.replies = [.data data])
      ↔ T.overhead = 0 ∧ download.failures.headD false = false ∧ span.Sound boundary b := by
  rcases hfail : download.failures.headD false with _ | _
  · obtain ⟨mp', sent, hs, hreply, hsent⟩ :=
      download_reply hT hov h₁ hup h₂ hparts hb hat hid hdrop hfail
    constructor
    · rintro ⟨mp'', data, hpart, hs', hreply'⟩
      obtain rfl := Option.some.inj (hs.symm.trans hs')
      obtain rfl := Reply.data.inj (List.cons.inj (hreply.symm.trans hreply')).1
      obtain ⟨hzero, hsound⟩ := hsent.1 hpart
      exact ⟨hzero, rfl, hsound⟩
    · rintro ⟨hzero, -, hsound⟩
      exact ⟨mp', sent, hsent.2 ⟨hzero, hsound⟩, hs, hreply⟩
  · obtain ⟨r, rec, part, -, -, -, hroute, -⟩ :=
      returned_record h₁ hup h₂ hparts hb hat hid hdrop
    have hs : storeStep T mp (downloadPath mountpoint id.toInt, download) = some { mp with
        fsd := (Upfs.setData { mp.fsd with replies := [] } (mp.fsd.modData.use r)).reply
          (.error 500 (lit "Out of resources")) } := by
      simp only [storeStep, hroute, hfail]
      rfl
    simp [hs, Upfs.reply, Upfs.setData]

end Runs

section Pair

theorem AuraTransport.strict_yields (overhead : ℕ) : (strict overhead).Yields := by
  intro vec n aura h
  simp only [strict] at h
  split_ifs at h with hn
  cases h
  refine ⟨?_, rfl, List.length_replicate⟩
  rw [List.length_take]
  omega

def secondPair : Bytes := pairRequest.body.drop 52

/-- What comes in behind it: the first part is dropped, a part is added, and the second is read. -/
def laterRun : List (Bytes × UploadRequest Bytes) :=
  [(lit "/buf/drop/1", byteRequest), (lit "/buf/post", byteRequest),
    (lit "/buf/download/2", byteRequest)]

theorem pair_partAt : PartAt (lit "B") 1 pairRequest.body secondPair ⟨0, 13, 4⟩ := by
  have hfirst : (nextPart (lit "B") pairRequest.body).outcome = .ok (some ⟨0, 49, 3⟩) := by
    decide +kernel
  exact .next hfirst (by decide +kernel) (.first (by decide +kernel))

theorem pair_data : PartData (lit "B") secondPair (lit "yz") := by
  refine ⟨0, lit "yz\r\n--B--\r\n", lit "--\r\n", by decide +kernel, ?_, by decide +kernel,
    by decide +kernel⟩
  have hline : readlnCrlf (secondPair.drop 5) = some (lit "A: b", lit "\r\nyz\r\n--B--\r\n") := by
    decide +kernel
  have hblank : readlnCrlf (lit "\r\nyz\r\n--B--\r\n") = some ([], lit "yz\r\n--B--\r\n") := by
    decide +kernel
  exact .line hline (by decide +kernel) (.blank hblank rfl)

/-- The second part is returned under the identifier two, and others come and go. -/
theorem pair_run {overhead : ℕ} (ho : overhead = 0 ∨ overhead = 3) : ∃ mp₁ mp₂ mp,
    run (storeStep (.strict overhead)) (bufferMount (lit "/buf")) dropRun = some mp₁
      ∧ storeStep (.strict overhead) mp₁ (lit "/buf/post", pairRequest) = some mp₂
      ∧ mp₂.returnedId 1 = some 2 ∧ run (storeStep (.strict overhead)) mp₂ laterRun = some mp
      ∧ mp.fsd.modData.parts < 2 ^ 63 := by
  have hup : (run (storeStep (.strict overhead)) (bufferMount (lit "/buf"))
      (dropRun ++ [(lit "/buf/post", pairRequest)])).map (·.returnedId 1) = some (some 2) := by
    rcases ho with rfl | rfl <;> decide +kernel
  have hall : (run (storeStep (.strict overhead)) (bufferMount (lit "/buf"))
      ((dropRun ++ [(lit "/buf/post", pairRequest)]) ++ laterRun)).map (·.fsd.modData.parts)
        = some 4 := by
    rcases ho with rfl | rfl <;> decide +kernel
  obtain ⟨mp₂, hmp₂, hid⟩ := Option.map_eq_some_iff.1 hup
  obtain ⟨mp, hmp, hparts⟩ := Option.map_eq_some_iff.1 hall
  rw [run_append, hmp₂, Option.bind_some] at hmp
  obtain ⟨mp₁, hmp₁, hstep⟩ := run_concat hmp₂
  exact ⟨mp₁, mp₂, mp, hmp₁, hstep, hid, hmp, by omega⟩

theorem download_part_pair : ∃ mp₁ mp₂ mp mp',
    run (storeStep (.strict 0)) (bufferMount (lit "/buf")) dropRun = some mp₁
      ∧ storeStep (.strict 0) mp₁ (lit "/buf/post", pairRequest) = some mp₂
      ∧ mp₂.returnedId 1 = some 2 ∧ run (storeStep (.strict 0)) mp₂ laterRun = some mp
      ∧ storeStep (.strict 0) mp (downloadPath (lit "/buf") 2, byteRequest) = some mp'
      ∧ mp'.fsd.replies = [.data (lit "yz")] := by
  obtain ⟨mp₁, mp₂, mp, h₁, hup, hid, h₂, hparts⟩ := pair_run (.inl rfl)
  have hsound : PartSpan.Sound ⟨0, 13, 4⟩ (lit "B") secondPair :=
    ⟨lit "yz", pair_data, by decide, by decide +kernel⟩
  obtain ⟨mp', data, hdata, hs, hreply⟩ := (download_part_iff (.strict 0)
    (AuraTransport.strict_yields 0) (by decide) (lit "/buf") dropRun laterRun pairRequest mp₁ mp₂ mp
    h₁ hup h₂ hparts (lit "B") secondPair ⟨0, 13, 4⟩ 1 2 (by decide +kernel) pair_partAt hid
    (by decide +kernel) byteRequest).2 ⟨rfl, rfl, hsound⟩
  obtain rfl : data = lit "yz" := partData_unique pair_partAt.span hdata pair_data
  exact ⟨mp₁, mp₂, mp, mp', h₁, hup, hid, h₂, hs, hreply⟩

/-- Behind a transport with three bytes of overhead, three bytes more are downloaded. -/
theorem overhead_downloaded : ¬ ∀ (T : AuraTransport), T.Yields → T.overhead < 2 ^ 32 →
    ∀ (mountpoint : Bytes) (es₁ es₂ : List (Bytes × UploadRequest Bytes))
      (request : UploadRequest Bytes) (mp₁ mp₂ mp : UploadMount BufmodData),
    run (storeStep T) (bufferMount mountpoint) es₁ = some mp₁ →
    storeStep T mp₁ (mountpoint ++ lit "/post", request) = some mp₂ →
    run (storeStep T) mp₂ es₂ = some mp → mp.fsd.modData.parts < 2 ^ 63 →
    ∀ (boundary b : Bytes) (span : PartSpan) (k : ℕ) (id : Int64),
      requestCheckHeaders request.contentType = some boundary →
      PartAt boundary k request.body b span → mp₂.returnedId k = some id →
      dropPath mountpoint id.toInt ∉ es₂.map Prod.fst →
    ∀ download : UploadRequest Bytes, download.failures = [] → span.Sound boundary b →
      ∃ mp' data, PartData boundary b data
        ∧ storeStep T mp (downloadPath mountpoint id.toInt, download) = some mp'
        ∧ mp'.fsd.replies = [.data data] := by
  intro hall
  obtain ⟨mp₁, mp₂, mp, h₁, hup, hid, h₂, hparts⟩ := pair_run (.inr rfl)
  have hyields := AuraTransport.strict_yields 3
  have hsound : PartSpan.Sound ⟨0, 13, 4⟩ (lit "B") secondPair :=
    ⟨lit "yz", pair_data, by decide, by decide +kernel⟩
  obtain ⟨mp', data, hdata, hs, hreply⟩ := hall (.strict 3) hyields (by decide) (lit "/buf") dropRun
    laterRun pairRequest mp₁ mp₂ mp h₁ hup h₂ hparts (lit "B") secondPair ⟨0, 13, 4⟩ 1 2
    (by decide +kernel) pair_partAt hid (by decide +kernel) byteRequest rfl hsound
  obtain ⟨mp'', sent, hs', hreply', hsent⟩ := download_reply hyields (by decide) h₁ hup h₂ hparts
    (by decide +kernel) pair_partAt hid (by decide +kernel) (rfl : byteRequest.failures.headD _ = _)
  obtain rfl := Option.some.inj (hs.symm.trans hs')
  obtain rfl := Reply.data.inj (List.cons.inj (hreply.symm.trans hreply')).1
  exact absurd (hsent.1 hdata).1 (by decide)

end Pair

end AuraHttpd
