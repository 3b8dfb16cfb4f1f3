import AuraHttpd.Proofs.Preamble
import AuraHttpd.Proofs.RoundTrip

/-!
# What the parser accepts

A body that begins with its delimiter and is scanned to the end, no part's data being shorter than
the CRLF behind it, is scanned like the encoding of parts (`bodyScan_parts`).  Going the other way
every part that can be read is scanned as it was sent (`bodyScan_encode`), so a body that is
accepted has a normal form which no module can tell from it (`accepted_normal_form`).
-/

namespace AuraHttpd

open CString Script

variable {B : Bytes}

/-- The calls for a part, with its data in one extent. -/
def FormPart.calls (p : FormPart) : List Call :=
  p.headers.map headerCall ++ [.data [p.data] p.data.length]

section Headers

theorem line_of_readlnCrlf {b ln rest : Bytes} (h : readlnCrlf b = some (ln, rest)) :
    (10 : UInt8) ∉ ln := by
  unfold readlnCrlf at h
  split_ifs at h
  cases h
  have hline : ∀ c ∈ b.takeWhile (· ≠ 10), c ≠ 10 := fun c hc => by
    simpa using List.mem_takeWhile_imp hc
  intro hm
  split_ifs at hm
  · exact hline 10 (List.mem_of_mem_dropLast hm) rfl
  · exact hline 10 hm rfl

/-- What is read off a header line can be sent as one. -/
theorem header_of_line {ln : Bytes} (hln : (10 : UInt8) ∉ ln)
    (h : (scanHeaderLine (some ln)).outcome = .ok 0) :
    ∃ hd, (scanHeaderLine (some ln)).calls = [headerCall hd] ∧ ReadableHeader hd := by
  have hbytes : ∀ c ∈ cstr ln, c ≠ 10 ∧ c ≠ 0 := by
    intro c hc
    refine ⟨?_, by simpa using List.mem_takeWhile_imp hc⟩
    rintro rfl
    exact hln ((List.takeWhile_prefix _).subset hc)
  unfold scanHeaderLine at h ⊢
  dsimp only at h ⊢
  split_ifs at h ⊢
  · cases h
  rcases hk : strtokR (lit ":") (cstr ln) with ⟨key, tmp⟩
  rw [hk] at h
  rcases hv : strtokR (lit "\r\n") tmp with ⟨value, rest⟩
  simp only [hv] at h ⊢
  rcases key with _ | key
  · cases h
  rcases value with _ | value
  · cases h
  obtain ⟨pre, -, hne, hcolon, hline⟩ := of_strtokR hk
  obtain ⟨pre', -, -, hcrlf, hvalue⟩ := of_strtokR hv
  have hkey : ∀ c ∈ key, c ∈ cstr ln := by
    rcases hline with ⟨hline, -⟩ | ⟨c, -, hline⟩ <;> rw [hline] <;> intro c hc <;> simp [hc]
  have htmp : ∀ c ∈ tmp, c ∈ cstr ln := by
    rcases hline with ⟨-, rfl⟩ | ⟨c, -, hline⟩
    · simp
    · rw [hline]
      intro c hc
      simp [hc]
  have hvalue : ∀ c ∈ value, c ∈ tmp := by
    rcases hvalue with ⟨hvalue, -⟩ | ⟨c, -, hvalue⟩ <;> rw [hvalue] <;> intro c hc <;> simp [hc]
  refine ⟨(key, value), rfl, hne, fun c hc => ?_, fun c hc => ?_⟩
  · refine ⟨(hbytes c (hkey c hc)).1, (hbytes c (hkey c hc)).2, ?_⟩
    rintro rfl
    exact hcolon 58 hc (by simp [lit_colon])
  · refine ⟨?_, hbytes c (htmp c (hvalue c hc))⟩
    rintro rfl
    exact hcrlf 13 hc (by decide)

/-- A line that does not go on to another one makes no call. -/
theorem scanHeaderLine_stops {o : Option Bytes} {cs : List Call} {ret : ℤ}
    (h : scanHeaderLine o = ⟨cs, .ok ret⟩) (hret : ret ≠ 0) : cs = [] := by
  rcases o with _ | ln
  · cases h
    rfl
  unfold scanHeaderLine at h
  dsimp only at h
  split_ifs at h
  · cases h
    rfl
  split at h
  · cases h
    exact absurd rfl hret
  · cases h

/-- The loop over the header lines hands over headers that can be sent. -/
theorem headers_of_scan : ∀ (fuel : ℕ) {b : Bytes} {cs : List Call} {n : ℕ},
    headerScan fuel b = ⟨cs, .ok n⟩ →
      ∃ hs : List (Bytes × Bytes), cs = hs.map headerCall ∧ ∀ h ∈ hs, ReadableHeader h
  | 0, _, _, _, h => by cases h
  | fuel + 1, b, cs, n, h => by
    rw [headerScan] at h
    obtain ⟨xs, ret, ys, hline, hrest, rfl⟩ := bind_eq_ok.1 h
    by_cases hret : ret ≠ 0
    · rw [if_pos hret] at hrest
      cases hrest
      exact ⟨[], by rw [scanHeaderLine_stops hline hret]; rfl, List.forall_mem_nil _⟩
    rw [if_neg hret] at hrest
    obtain rfl := not_not.1 hret
    obtain ⟨zs, n', _, hscan, hpure, rfl⟩ := bind_eq_ok.1 hrest
    cases hpure
    obtain ⟨hs, rfl, hhs⟩ := headers_of_scan fuel hscan
    rcases hread : readlnCrlf b with _ | ⟨ln, rest⟩ <;> rw [hread] at hline
    · cases hline
    obtain ⟨hd, hcalls, hhd⟩ := header_of_line (line_of_readlnCrlf hread)
      (congrArg Script.outcome hline)
    obtain rfl : xs = [headerCall hd] := (congrArg Script.calls hline).symm.trans hcalls
    exact ⟨hd :: hs, by simp, List.forall_mem_cons.2 ⟨hhd, hhs⟩⟩

end Headers

section Parts

/-- The part that is taken off a body which begins with its delimiter. -/
theorem part_of_nextPart {b : Bytes} {cs : List Call} {span : PartSpan}
    (hb : delimiter B <+: b) (h : nextPart B b = ⟨cs, .ok (some span)⟩) (hdata : 2 ≤ span.next) :
    ∃ p : FormPart, p.Readable B ∧ cs = p.headers.map headerCall
      ∧ p.data = (b.drop span.data).take (span.next - 2) ∧ p.data.length = span.next - 2 := by
  obtain ⟨hs, hcs, hhs⟩ : ∃ hs : List (Bytes × Bytes), cs = hs.map headerCall
      ∧ ∀ h ∈ hs, ReadableHeader h := by
    unfold nextPart at h
    rw [ListSearch.search_of_prefix hb] at h
    obtain ⟨xs, n, ys, hscan, hrest, rfl⟩ := bind_eq_ok.1 h
    obtain ⟨hs, rfl, hhs⟩ := headers_of_scan _ hscan
    refine ⟨hs, ?_, hhs⟩
    split at hrest
    · cases hrest
    · cases hrest
      exact List.append_nil _
  have hnext := (nextPart_some (congrArg Script.outcome h)).2.1
  refine ⟨⟨hs, (b.drop span.data).take (span.next - 2)⟩, ⟨hhs, ?_⟩, hcs, rfl, ?_⟩
  · exact ListSearch.not_infix_of_search hnext delimiter_ne_nil (Nat.sub_le _ _)
  · have hend := (ListSearch.search_some_le hnext).resolve_right delimiter_ne_nil
    rw [List.length_take]
    omega

/-- A body that is scanned to its end, and no part's data of which is too short for the CRLF
behind it, is that of parts. -/
theorem bodyScan_parts : ∀ (fuel : ℕ) {b : Bytes} {cs : List Call}, delimiter B <+: b →
    b.length < 2 ^ 31 → bodyScan B fuel [b] = ⟨cs, .ok 0⟩ →
      (∀ vec n, Call.data vec n ∈ cs → 0 ≤ n) →
        ∃ parts : List FormPart, parts ≠ [] ∧ (∀ p ∈ parts, p.Readable B)
          ∧ (∀ p ∈ parts, p.data.length < 2 ^ 31) ∧ cs = parts.flatMap FormPart.calls
  | 0, _, _, _, _, h, _ => by cases h
  | fuel + 1, b, cs, hb, hlen, h, hdata => by
    rw [bodyScan_single] at h
    obtain ⟨xs, part, ys, hpart, hrest, rfl⟩ := bind_eq_ok.1 h
    rcases part with _ | span
    · cases hrest
    obtain ⟨_, _, zs, hemit, hbody, rfl⟩ := bind_eq_ok.1 hrest
    cases hemit
    obtain ⟨hstart, hnext, -, -⟩ := nextPart_some (congrArg Script.outcome hpart)
    have hspan := (span_length_lt (congrArg Script.outcome hpart)).1
    have hnextlt : span.next < b.length := by
      unfold PartSpan.length at hspan
      omega
    have hwrap : wrapS 32 ((span.next : ℤ) - 2) = (span.next : ℤ) - 2 :=
      wrapS_eq (w := 31) (by omega) (by omega)
    have hnonneg : 0 ≤ wrapS 32 ((span.next : ℤ) - 2) :=
      hdata _ _ (List.mem_append_right _ (List.mem_append_left _ (List.mem_singleton_self _)))
    rw [hwrap] at hnonneg
    obtain ⟨p, hp, rfl, hpdata, hplen⟩ := part_of_nextPart hb hpart (by omega)
    have hcall : span.call b span.start = .data [p.data] p.data.length := by
      rw [ListSearch.search_of_prefix hb, Option.some.injEq] at hstart
      have hto : ((span.next : ℤ) - 2).toNat = span.next - 2 := by omega
      rw [PartSpan.call, PartSpan.bytesAt, hwrap, ← hstart, Nat.add_zero, hto, ← hpdata, hplen]
      congr 1
      omega
    have hplt : p.data.length < 2 ^ 31 := by omega
    have hrestStart : delimiter B <+: b.drop span.length := by
      have hpre := ListSearch.prefix_of_search hnext
      rwa [List.drop_drop] at hpre
    unfold restScan at hbody
    split_ifs at hbody with hgo hclosing
    · obtain ⟨ps, -, hps, hpslen, rfl⟩ := bodyScan_parts fuel hrestStart
        (by rw [List.length_drop]; omega) hbody fun vec n hc =>
          hdata vec n (List.mem_append_right _ (List.mem_append_right _ hc))
      refine ⟨p :: ps, by simp, ?_, ?_, ?_⟩
      · exact List.forall_mem_cons.2 ⟨hp, hps⟩
      · exact List.forall_mem_cons.2 ⟨hplt, hpslen⟩
      · simp [FormPart.calls, hcall]
    · cases hbody
      exact ⟨[p], by simp, by simpa using hp, by simpa using hplt, by simp [FormPart.calls, hcall]⟩
    · cases hbody

/-- Parts that can be read are scanned as they were sent. -/
theorem bodyScan_encode (hB : ∀ c ∈ B, HeaderByte c) (tail : Bytes) :
    ∀ (parts : List FormPart) (fuel : ℕ), parts ≠ [] → parts.length ≤ fuel →
      (∀ p ∈ parts, p.Readable B) → (∀ p ∈ parts, p.data.length < 2 ^ 31) →
        bodyScan B fuel [encodeBody B parts tail] = ⟨parts.flatMap FormPart.calls, .ok 0⟩
  | [], _, hne, _, _, _ => absurd rfl hne
  | _ :: _, 0, _, hf, _, _ => absurd hf (by simp)
  | p :: ps, fuel + 1, _, hf, hp, hlen => by
    have hrest := delimiterScan_encodeBody B ps tail
    obtain ⟨more, hmore, -, -⟩ := encodeBody_delimiter B ps tail
    have hstart : ListSearch.search (delimiter B) ([] ++ (p.encode B ++ encodeBody B ps tail))
        = some ([] : Bytes).length := by
      rw [List.nil_append, encode_eq, search_start]
      rfl
    have hscan := bodyScan_part hB (hp p (by simp)) ⟨more, hmore.symm⟩ (hlen p (by simp)) hstart
      fuel
    have hdata : ((p.dataOn (encodeBody B ps tail)).drop ([] : Bytes).length).take p.data.length
        = p.data := List.take_left' rfl
    have hshort : ¬ p.data.length + 2 < ([] : Bytes).length := Nat.not_lt_zero _
    rw [List.nil_append, if_neg hshort, hdata] at hscan
    rw [encodeBody_cons, hscan, restScan_eq, hrest]
    by_cases hps : ps = []
    · subst hps
      simp [FormPart.calls, emit, pure]
    · have ih := bodyScan_encode hB tail ps fuel hps (by simpa using hf)
        (fun q hq => hp q (by simp [hq])) (fun q hq => hlen q (by simp [hq]))
      simp [hps, ih, FormPart.calls, emit, pure]

end Parts

section Uploads

theorem eq_of_seen_header {c : Call} {key value : Bytes} (h : c.seen = .formHeader key value) :
    c = .formHeader key value := by
  cases c with
  | formHeader key' value' => exact h
  | data vec n => cases h

theorem eq_of_seen_data {c : Call} {vec : List Bytes} {n : ℤ}
    (h : c.seen = (Call.data vec n).seen) :
    ∃ vec', c = .data vec' n ∧ vec'.flatten.take n.toNat = vec.flatten.take n.toNat := by
  cases c with
  | formHeader key value => cases h
  | data vec' n' =>
    simp only [Call.seen, Call.data.injEq, List.cons.injEq, and_true] at h
    obtain ⟨hbytes, rfl⟩ := h
    exact ⟨vec', rfl, hbytes⟩

theorem headers_of_seen : ∀ (hs : List (Bytes × Bytes)) {cs : List Call},
    cs.map Call.seen = (hs.map headerCall).map Call.seen → cs = hs.map headerCall
  | [], cs, h => by simpa using h
  | hd :: hs, [], h => by simp at h
  | hd :: hs, c :: cs, h => by
    obtain ⟨hc, hcs⟩ := List.cons.inj h
    have hhead : c = headerCall hd := eq_of_seen_header hc
    rw [headers_of_seen hs hcs, hhead]
    rfl

/-- Calls that show the same as those for parts are decoded into them. -/
theorem decodes_of_seen : ∀ (parts : List FormPart) {cs : List Call},
    cs.map Call.seen = (parts.flatMap FormPart.calls).map Call.seen → Decodes parts cs
  | [], cs, h => by
    obtain rfl : cs = [] := by simpa using h
    exact .nil
  | p :: ps, cs, h => by
    rw [List.flatMap_cons, List.map_append] at h
    obtain ⟨cs₁, cs₂, rfl, hpart, hps⟩ := List.map_eq_append_iff.1 h
    rw [FormPart.calls, List.map_append] at hpart
    obtain ⟨hcs, ds, rfl, hheaders, hds⟩ := List.map_eq_append_iff.1 hpart
    rcases ds with _ | ⟨d, _ | ⟨d', ds⟩⟩
    · simp at hds
    · obtain ⟨vec, rfl, hvec⟩ := eq_of_seen_data (List.cons.inj hds).1
      rw [headers_of_seen p.headers hheaders, List.append_assoc]
      refine .cons ?_ (decodes_of_seen ps hps)
      simpa using hvec
    · simp at hds

variable {E I : Type} [Evbuffer E I]

/-- Requests that are scanned alike make no difference to an upload. -/
theorem upload_congr {σ : Type} {m : UploadfsModule σ} (hm : m.Bytewise) (mp : UploadMount σ)
    (request : UploadRequest E) (body : E)
    (h : ∀ boundary, requestCheckHeaders request.contentType = some boundary →
      SameScan (request.scan boundary mp.numIovec)
        ({ request with body := body }.scan boundary mp.numIovec)) :
    (upload m mp request).map UploadMount.fsd
      = (upload m mp { request with body := body }).map UploadMount.fsd := by
  by_cases hpost : request.command = .post
  · rw [upload_play mp request hpost, upload_play mp { request with body := body } hpost]
    refine congrArg _ (funext fun fsd => ?_)
    unfold uploadPlay
    rcases hb : requestCheckHeaders request.contentType with _ | boundary
    · rfl
    · simp only
      rw [play_end_congr hm (h boundary hb)]
  · simp [upload, hpost, Except.map]

/-- The scan of a request is that of its body's bytes in one piece. -/
theorem scan_flat [FlatEvbuffer E I] (request : UploadRequest E)
    (hmem : NoFailures request.parserFailures) {numIovec : ℕ} (hroom : 0 < numIovec) :
    Alike Call.seen (fun r ret => r.1 = ret) (request.scan B numIovec)
      (bodyScan B ((FlatEvbuffer.bytes request.body).length + 1)
        [FlatEvbuffer.bytes request.body]) := by
  have halike := scanLoop_flat B (Evbuffer.length request.body + 1)
    { evb := request.body, numIovec := numIovec, failures := request.parserFailures } hroom hmem
  rw [← FlatEvbuffer.length_eq]
  exact halike

/-- A body that begins with its delimiter and is accepted, every part's data with the CRLF behind
it, is to the parser and to any module what the encoding of some parts is. -/
theorem accepted_normal_form [FlatEvbuffer E I] (request : UploadRequest E)
    (hb : requestCheckHeaders request.contentType = some B) (hB : ∀ c ∈ B, HeaderByte c)
    (hstart : delimiter B <+: FlatEvbuffer.bytes request.body)
    (hlen : (FlatEvbuffer.bytes request.body).length < 2 ^ 31)
    (hmem : NoFailures request.parserFailures) (numIovec : ℕ) (hroom : 0 < numIovec)
    (calls : List Call) (inp : Input E)
    (h : request.scan B numIovec = ⟨calls, .ok (0, inp)⟩)
    (hdata : ∀ vec n, Call.data vec n ∈ calls → 0 ≤ n) :
    ∃ parts : List FormPart, parts ≠ [] ∧ (∀ p ∈ parts, p.Readable B) ∧ Decodes parts calls
      ∧ ∀ (tail : Bytes) (body : E), FlatEvbuffer.bytes body = encodeBody B parts tail →
        (∀ numIovec, 0 < numIovec → SameScan (request.scan B numIovec)
          ({ request with body := body }.scan B numIovec))
        ∧ ∀ {σ : Type} (m : UploadfsModule σ) (mp : UploadMount σ), m.Bytewise →
          0 < mp.numIovec → (upload m mp request).map UploadMount.fsd
            = (upload m mp { request with body := body }).map UploadMount.fsd := by
  have halike := scan_flat (B := B) request hmem hroom
  rcases hbody : bodyScan B ((FlatEvbuffer.bytes request.body).length + 1)
    [FlatEvbuffer.bytes request.body] with ⟨cs, out⟩
  rw [h, hbody] at halike
  obtain ⟨hcalls, ⟨_, ret, hok, rfl, hret⟩ | ⟨e, herr, -⟩⟩ := halike
  swap
  · cases herr
  cases hok
  obtain rfl : 0 = ret := hret
  have hnonneg : ∀ vec n, Call.data vec n ∈ cs → 0 ≤ n := by
    intro vec n hc
    have hmem := List.mem_map_of_mem (f := Call.seen) hc
    rw [← hcalls] at hmem
    obtain ⟨c, hc, hseen⟩ := List.mem_map.1 hmem
    obtain ⟨vec', rfl, -⟩ := eq_of_seen_data hseen
    exact hdata vec' n hc
  obtain ⟨parts, hne, hparts, hpartlen, rfl⟩ := bodyScan_parts _ hstart hlen hbody hnonneg
  refine ⟨parts, hne, hparts, decodes_of_seen parts hcalls, fun tail body hbytes => ?_⟩
  have hfuel : parts.length ≤ (encodeBody B parts tail).length + 1 := by
    have hle := length_le_flatMap (f := FormPart.encode B) (l := parts) fun p _ => by
      simp [FormPart.encode, crlf_eq]
    rw [encodeBody, List.length_append]
    omega
  have hscan : ∀ n, 0 < n → SameScan (request.scan B n)
      ({ request with body := body }.scan B n) := by
    intro n hn
    have hbody' := scan_flat (B := B) { request with body := body } hmem hn
    dsimp only at hbody'
    rw [hbytes, bodyScan_encode hB tail parts _ hne hfuel hparts hpartlen] at hbody'
    have halike := scan_flat (B := B) request hmem hn
    rw [hbody] at halike
    exact (sameScan_iff halike hbody').2 ⟨rfl, rfl, fun h => by cases h⟩
  refine ⟨hscan, fun m mp hm hmp => upload_congr hm mp request body fun boundary hb' => ?_⟩
  obtain rfl := Option.some.inj (hb.symm.trans hb')
  exact hscan mp.numIovec hmp

/-- A body of lines that end in a mere LF, with nothing between the colon and the value. -/
def lineFeedRequest : UploadRequest Bytes :=
  { contentType := some (lit "multipart/form-data; boundary=B"),
    body := lit "--B\r\nk:v\n\nab\r\n--B--" }

theorem accepted_normal_form_lineFeed : ∃ parts : List FormPart,
    Decodes parts (lineFeedRequest.scan (lit "B") 4).calls
      ∧ SameScan (lineFeedRequest.scan (lit "B") 4)
        ({ lineFeedRequest with body := encodeBody (lit "B") parts [] }.scan (lit "B") 4) := by
  have hcalls : (lineFeedRequest.scan (lit "B") 4).calls
      = [.formHeader (lit "k") (lit "v"), .data [lit "ab\r\n--B--"] 2] := by decide +kernel
  have hret : (lineFeedRequest.scan (lit "B") 4).outcome.map Prod.fst = .ok 0 := by
    decide +kernel
  rcases hscan : lineFeedRequest.scan (lit "B") 4 with ⟨calls, _ | ⟨ret, inp⟩⟩ <;>
    rw [hscan] at hret hcalls
  · cases hret
  obtain rfl : ret = 0 := Except.ok.inj hret
  obtain rfl : calls = _ := hcalls
  obtain ⟨parts, -, -, hdec, hall⟩ := accepted_normal_form lineFeedRequest (by decide +kernel)
    (by decide +kernel) ⟨lit "\r\nk:v\n\nab\r\n--B--", by decide +kernel⟩ (by decide +kernel)
    (by simp [NoFailures, lineFeedRequest]) 4 (by decide) _ inp hscan (by simp)
  refine ⟨parts, hdec, ?_⟩
  rw [← hscan]
  exact (hall [] (encodeBody (lit "B") parts []) rfl).1 4 (by decide)

end Uploads

end AuraHttpd
