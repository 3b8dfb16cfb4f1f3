import AuraHttpd.Proofs.BodyScan
import AuraHttpd.Proofs.UploadReplies

/-!
# Uploads in fragments

The parser on chains does what it does on the pieces in them (`scanLoop_alike`), so two splittings
of a body are told apart by where the pointers to the parts' delimiters lead in them, and by
nothing else (`bodyScan_same`).  In single bytes every such pointer is lost, so only requests
without any part's data are handled alike in all splittings (`fragmentation_iff`).
-/

namespace AuraHttpd

open CString Script

variable {boundary : Bytes}

section Lost

/-- The scan from a part on whose pointer is lost if its data is got to. -/
def lostScan (boundary b : Bytes) : ParserScript ℤ := do
  match ← nextPart boundary b with
  | none => pure (-74)
  | some _ => fault .freedChain

theorem bodyScan_lost {p : List Bytes}
    (h : ∀ span, (nextPart boundary p.flatten).outcome = .ok (some span) →
      Chain.lead p span.start span.data = none) (fuel : ℕ) :
    bodyScan boundary (fuel + 1) p = lostScan boundary p.flatten := by
  unfold bodyScan partScan lostScan
  rw [bind_assoc]
  refine bind_congr_ok fun part hpart => ?_
  rcases part with _ | span
  · rfl
  · simp only
    rw [h span hpart]
    rfl

/-- What `evbuffer_pullup` puts together behind a part is used up before the data of the next. -/
theorem bodyScan_pulled (e : ChainBuffer) (n : ℕ)
    (hnext : delimiter boundary <+: (e.drain n).bytes) (fuel : ℕ) :
    bodyScan boundary fuel ((e.drain n).pulled (closing boundary).length).pieces
      = bodyScan boundary fuel (Chain.left e.pieces n) := by
  have hpieces : (e.drain n).pieces = Chain.left e.pieces n := Chain.map_data_drain e.chains n
  unfold ChainBuffer.pulled
  split_ifs with hfirst
  · rw [hpieces]
  rcases fuel with _ | fuel
  · rfl
  have hstart : ∀ {span}, (nextPart boundary (e.drain n).bytes).outcome = .ok (some span) →
      span.start = 0 ∧ (closing boundary).length ≤ span.data := fun hspan => by
    obtain ⟨hsearch, -, -, hdata⟩ := nextPart_some hspan
    have hstart := ListSearch.search_of_prefix hnext
    rw [hstart, Option.some.injEq] at hsearch
    exact ⟨hsearch.symm, Nat.le_of_add_right_le hdata⟩
  have hgather : ((e.drain n).gather (closing boundary).length).pieces.flatten
      = (e.drain n).bytes := by
    rw [pieces_gather, List.flatten_cons, Chain.flatten_left]
    exact List.take_append_drop _ _
  have hlost : bodyScan boundary (fuel + 1) (e.drain n).pieces
      = lostScan boundary (e.drain n).bytes := by
    refine bodyScan_lost (fun span hspan => ?_) fuel
    obtain ⟨h0, hdata⟩ := hstart hspan
    rcases hp : (e.drain n).pieces with _ | ⟨piece, rest⟩
    · rfl
    · have hne := List.length_pos_of_ne_nil (Chain.ne_nil_of_left (hpieces ▸ hp))
      rw [hp, List.headD_cons] at hfirst
      rw [h0]
      exact Chain.lead_cons_of_le hne (by omega)
  rw [← hpieces, hlost, bodyScan_lost (fun span hspan => ?_), hgather]
  rw [hgather] at hspan
  obtain ⟨h0, hdata⟩ := hstart hspan
  rw [pieces_gather, h0]
  have hlen : 0 < (e.drain n).bytes.length :=
    (List.length_pos_of_ne_nil delimiter_ne_nil).trans_le hnext.length_le
  have hpos : 0 < (closing boundary).length := by
    rw [length_closing]
    omega
  refine Chain.lead_cons_of_le ?_ ?_ <;> rw [List.length_take]
  · exact Nat.lt_min.2 ⟨hpos, hlen⟩
  · exact (Nat.min_le_left _ _).trans hdata

end Lost

section Chains

variable {inp : Input ChainBuffer} {span : PartSpan} {addr off : ℕ}

theorem scanData_lost (hspan : (nextPart boundary inp.evb.bytes).outcome = .ok (some span))
    (hloc : Chain.locate inp.evb.chains span.start = some (addr, off))
    (hlead : Chain.lead inp.evb.pieces span.start span.data = none) :
    scanData boundary ⟨span.start, (addr, off)⟩ (inp.tick.drain span.data)
      = fault .freedChain := by
  obtain ⟨-, hnext, hle, hdata⟩ := nextPart_some hspan
  have hstart : span.start ≤ span.data := by omega
  have hfollow := Chain.follow inp.evb.nodup hstart hloc
  rw [show Chain.lead (inp.evb.chains.map Chain.data) _ _ = none from hlead] at hfollow
  have hbytes : (inp.tick.drain span.data).evb.bytes = inp.evb.bytes.drop span.data :=
    bytes_drain inp.evb span.data
  exact scanData_freed hfollow (hbytes ▸ hnext) hle

/-- The scan of a part in chains is that in the pieces the chains hold. -/
theorem partScan_alike (hmem : NoFailures inp.failures) :
    Alike Call.seen (PartLeft boundary inp) (scanNextFile boundary inp)
      (partScan boundary inp.evb.pieces) := by
  refine scanNextFile_alike hmem.head (fun inp' => ⟨rfl, fun h => by cases h⟩) ?_
  rintro span ⟨addr, off⟩ hspan hloc
  rcases hlead : Chain.lead inp.evb.pieces span.start span.data with _ | i
  · rw [scanData_lost hspan hloc hlead]
    exact .fault _
  · have hstart : span.start ≤ span.data := Nat.le_of_add_left_le (nextPart_some hspan).2.2.2
    have hfollow := Chain.follow inp.evb.nodup hstart hloc
    rw [show Chain.lead (inp.evb.chains.map Chain.data) _ _ = some i from hlead] at hfollow
    obtain ⟨rfl, d, rest, hdrain, hoff⟩ := hfollow
    exact @scanData_found boundary inp.tick _ _ _ _ _ hdrain hoff hmem.tail hspan

/-- The loop of `upload` on chains is that on the pieces the chains hold. -/
theorem scanLoop_alike : ∀ (fuel : ℕ) {inp : Input ChainBuffer}, NoFailures inp.failures →
    Alike Call.seen (fun r ret => r.1 = ret) (scanLoop boundary fuel inp)
      (bodyScan boundary fuel inp.evb.pieces)
  | 0, _, _ => .fault _
  | fuel + 1, inp, hmem => by
    rw [scanLoop, bodyScan]
    refine (partScan_alike hmem).bind ?_
    rintro ⟨ret, inp'⟩ ⟨ret', n⟩ - - ⟨he, hgo⟩
    simp only at he hgo ⊢
    subst he
    split_ifs with hret
    · obtain ⟨hevb, hmem', hnext⟩ := hgo hret
      have ih := scanLoop_alike fuel hmem'
      rwa [hevb, bodyScan_pulled _ _ (by rwa [bytes_drain])] at ih
    · exact .pure rfl

/-- The loop of `upload` on chains in which the first part's pointer is lost, whichever
allocations fail behind the first. -/
theorem scanLoop_lost (hf : inp.fails = false)
    (h : ∀ span, (nextPart boundary inp.evb.bytes).outcome = .ok (some span) →
      Chain.lead inp.evb.pieces span.start span.data = none) (fuel : ℕ) :
    Alike Call.seen (fun r ret => r.1 = ret) (scanLoop boundary (fuel + 1) inp)
      (lostScan boundary inp.evb.bytes) := by
  have hpart : Alike Call.seen (fun r r' => r.1 = -74 ∧ r'.1 = -74) (scanNextFile boundary inp)
      (nextPart boundary inp.evb.bytes >>= fun part =>
        match part with
        | none => pure (-74, 0)
        | some _ => fault .freedChain) := by
    refine scanNextFile_alike hf (fun _ => ⟨rfl, rfl⟩) ?_
    rintro span ⟨addr, off⟩ hspan hloc
    rw [scanData_lost hspan hloc (h span hspan)]
    exact .fault _
  have hlost : lostScan boundary inp.evb.bytes = (nextPart boundary inp.evb.bytes >>= fun part =>
        match part with
        | none => pure ((-74 : ℤ), (0 : ℕ))
        | some _ => fault .freedChain) >>= fun r => pure r.1 := by
    unfold lostScan
    rw [bind_assoc]
    refine congrArg _ (funext fun part => ?_)
    rcases part with _ | span <;> rfl
  rw [hlost, scanLoop]
  refine hpart.bind ?_
  rintro ⟨ret, inp'⟩ ⟨ret', n⟩ - - ⟨rfl, rfl⟩
  exact .pure rfl

end Chains

section Pieces

theorem scanHeaderLine_alive (ln : Option Bytes) :
    (scanHeaderLine ln).outcome ≠ .error .freedChain := by
  rcases ln with _ | ln
  · exact fun h => by cases h
  · simp only [scanHeaderLine]
    split_ifs
    · exact fun h => by cases h
    · split <;> exact fun h => by cases h

theorem headerScan_alive : ∀ (fuel : ℕ) (b : Bytes),
    (headerScan fuel b).outcome ≠ .error .freedChain
  | 0, _ => fun h => by cases h
  | fuel + 1, b => fun h => by
    rw [headerScan, outcome_bind_eq_error] at h
    rcases h with h | ⟨ret, -, h⟩
    · exact scanHeaderLine_alive _ h
    by_cases hret : ret ≠ 0
    · rw [if_pos hret] at h
      cases h
    · rw [if_neg hret, outcome_bind_eq_error] at h
      rcases h with h | ⟨n, -, h⟩
      · exact headerScan_alive fuel _ h
      · cases h

theorem nextPart_alive (b : Bytes) : (nextPart boundary b).outcome ≠ .error .freedChain := by
  intro h
  unfold nextPart at h
  split at h
  · cases h
  rcases outcome_bind_eq_error.1 h with h | ⟨n, -, h⟩
  · exact headerScan_alive _ _ h
  · split at h <;> cases h

theorem delimiterScan_alive (rest : Bytes) :
    (delimiterScan boundary rest).outcome ≠ .error .freedChain := by
  unfold delimiterScan
  split_ifs <;> exact fun h => by cases h

theorem call_seen_iff {span : PartSpan} {b : Bytes} {i j : ℕ} :
    (span.call b i).seen = (span.call b j).seen ↔ span.bytesAt b i = span.bytesAt b j := by
  simp [PartSpan.call, Call.seen, PartSpan.bytesAt, List.take_take]

/-- Two splittings of a body are scanned alike exactly where the pointers to the delimiters lead
to the same data. -/
theorem bodyScan_agree : ∀ (fuel : ℕ) {p q : List Bytes}, p.flatten = q.flatten →
    (Agree Call.seen .freedChain (bodyScan boundary fuel p) (bodyScan boundary fuel q)
      ↔ SameData boundary fuel p q)
  | 0, _, _, _ => ⟨fun _ => trivial, fun _ => ⟨rfl, rfl, fun h => by cases h⟩⟩
  | fuel + 1, p, q, hpq => by
    simp only [bodyScan, partScan, bind_assoc]
    rw [← hpq, agree_bind (nextPart_alive _), SameData]
    rcases (nextPart boundary p.flatten).outcome with e | _ | span
    · exact ⟨fun _ => trivial, fun _ _ h => by cases h⟩
    · refine ⟨fun _ => trivial, ?_⟩
      rintro _ _ ⟨⟩
      exact agree_pure.2 rfl
    simp only [Except.ok.injEq, forall_eq']
    rcases hp : Chain.lead p span.start span.data with _ | i
    · refine ⟨fun h => absurd h not_agree_fault, ?_⟩
      rintro ⟨⟨i, j, hi, -⟩, -⟩
      cases hi
    rcases hq : Chain.lead q span.start span.data with _ | j
    · refine ⟨fun h => absurd h not_agree_fault_right, ?_⟩
      rintro ⟨⟨i, j, -, hj, -⟩, -⟩
      cases hj
    simp only [bind_assoc, agree_emit_bind, call_seen_iff, agree_bind (delimiterScan_alive _),
      pure_bind, goesOn_iff, Option.some.injEq, exists_and_left, exists_eq_left']
    have hleft : (Chain.left p span.length).flatten = (Chain.left q span.length).flatten := by
      rw [Chain.flatten_left, Chain.flatten_left, hpq]
    have ih := bodyScan_agree fuel hleft
    refine and_congr_right fun _ => ⟨fun h hgo => ?_, fun h ret hret => ?_⟩
    · have := h 1 hgo
      rwa [if_pos rfl, if_pos rfl, ih] at this
    · by_cases h1 : ret = 1
      · subst h1
        rw [if_pos rfl, if_pos rfl, ih]
        exact h hret
      · rw [if_neg h1, if_neg h1]
        exact agree_pure.2 rfl

end Pieces

section Upload

variable {request : UploadRequest Bytes} {p q : List Bytes}

theorem pieces_ofPieces (p : List Bytes) : (ChainBuffer.ofPieces p).pieces = p :=
  Chain.map_data_number p 0

theorem length_ofPieces (p : List Bytes) :
    Evbuffer.length (ChainBuffer.ofPieces p) = p.flatten.length := by
  show (ChainBuffer.ofPieces p).pieces.flatten.length = _
  rw [pieces_ofPieces]

/-- Scans that are alike to ones that agree are the same to an upload. -/
theorem sameScan_iff {α : Type} {x y : ParserScript (ℤ × α)} {x' y' : ParserScript ℤ}
    (hx : Alike Call.seen (fun r ret => r.1 = ret) x x')
    (hy : Alike Call.seen (fun r ret => r.1 = ret) y y') :
    SameScan x y ↔ Agree Call.seen .freedChain x' y' := by
  rw [Alike.agree_iff hx hy]
  exact ⟨fun h => ⟨h.calls, h.result, h.alive⟩, fun h => ⟨h.1, h.2.1, h.2.2⟩⟩

/-- An upload goes on alike from scans that are the same to it. -/
theorem play_end_congr {σ α : Type} {m : UploadfsModule σ} (hm : m.Bytewise)
    {x y : ParserScript (ℤ × α)} (h : SameScan x y) (fsd : Upfs σ) :
    (m.play fsd x >>= fun r => endUpload m r.1 r.2)
      = m.play fsd y >>= fun r => endUpload m r.1 r.2 := by
  unfold UploadfsModule.play Script.play
  rw [replay_congr hm fsd h.calls]
  rcases Script.replay m.call Upfs.uploadError fsd y.calls with e | fsd'
  · rfl
  rw [Except.ok_bind, Except.ok_bind]
  cases fsd'.uploadError with
  | true => rfl
  | false =>
    have hr := h.result
    rcases hx : x.outcome with e | a <;> rcases hy : y.outcome with e' | b <;>
      rw [hx, hy] at hr
    · cases hr
      rfl
    · cases hr
    · cases hr
    · have hab : a.1 = b.1 := Except.ok.inj hr
      simp only [Bool.false_eq_true, if_false, Except.map, Except.ok_bind, endUpload, hab]

theorem sameUpload_iff : SameUpload request p q ↔ (request.command = .post →
    ∀ boundary, requestCheckHeaders request.contentType = some boundary → ∀ numIovec,
      SameScan ((request.split p).scan boundary numIovec)
        ((request.split q).scan boundary numIovec)) := by
  refine ⟨SameUpload.scan, fun hscan => ⟨hscan, fun m mp hm => ?_⟩⟩
  by_cases hpost : request.command = .post
  · rw [upload_play mp (request.split p) hpost, upload_play mp (request.split q) hpost]
    refine congrArg _ (funext fun fsd => ?_)
    unfold uploadPlay
    rw [show (request.split p).contentType = request.contentType from rfl,
      show (request.split q).contentType = request.contentType from rfl]
    rcases hb : requestCheckHeaders request.contentType with _ | boundary
    · rfl
    · simp only
      rw [play_end_congr hm (hscan hpost boundary hb mp.numIovec)]
  · simp [upload, hpost, UploadRequest.split, Except.map]

theorem scan_split (request : UploadRequest Bytes) (p : List Bytes) (boundary : Bytes)
    (numIovec : ℕ) :
    (request.split p).scan boundary numIovec = scanLoop boundary (p.flatten.length + 1)
      { evb := .ofPieces p, numIovec := numIovec, failures := request.parserFailures } :=
  congrArg (fun n => scanLoop boundary (n + 1) _) (length_ofPieces p)

/-- With memory for the parser, two splittings are the same to an upload exactly where the
pointers lead to the same data. -/
theorem sameUpload_iff_sameData (hmem : NoFailures request.parserFailures)
    (hp : p.flatten = request.body) (hq : q.flatten = request.body) :
    SameUpload request p q ↔ request.SameData p q := by
  have hscan : ∀ boundary numIovec, SameScan ((request.split p).scan boundary numIovec)
      ((request.split q).scan boundary numIovec)
        ↔ SameData boundary (request.body.length + 1) p q := by
    intro boundary numIovec
    rw [scan_split, scan_split, sameScan_iff (scanLoop_alike _ hmem) (scanLoop_alike _ hmem),
      pieces_ofPieces, pieces_ofPieces, hp, hq, bodyScan_agree _ (hp.trans hq.symm)]
  rw [sameUpload_iff]
  simp only [hscan, forall_const]
  rfl

theorem bytes_ofPieces (p : List Bytes) : (ChainBuffer.ofPieces p).bytes = p.flatten :=
  congrArg List.flatten (pieces_ofPieces p)

/-- Without memory for the delimiter nothing is looked at. -/
theorem scanLoop_fails {inp : Input ChainBuffer} (hf : inp.fails = true) (fuel : ℕ) :
    scanLoop boundary (fuel + 1) inp = pure (-12, inp.tick) := by
  rw [scanLoop, scanNextFile, if_pos hf]
  rfl

/-- A request's scan in pieces in which the first pointer is lost. -/
theorem scan_split_lost (hmem : request.parserFailures.headD false = false)
    (hp : p.flatten = request.body)
    (h : ∀ span, (nextPart boundary request.body).outcome = .ok (some span) →
      Chain.lead p span.start span.data = none) (numIovec : ℕ) :
    Alike Call.seen (fun r ret => r.1 = ret) ((request.split p).scan boundary numIovec)
      (lostScan boundary request.body) := by
  have hbytes : (ChainBuffer.ofPieces p).bytes = request.body := (bytes_ofPieces p).trans hp
  rw [scan_split, ← hbytes]
  refine scanLoop_lost ?_ (fun span hspan => ?_) _
  · exact hmem
  show Chain.lead (ChainBuffer.ofPieces p).pieces _ _ = none
  rw [pieces_ofPieces]
  exact h span (hbytes ▸ hspan)

/-- Where no data is got to the pieces make no difference. -/
theorem sameUpload_of_not_reaches (h : ¬ ReachesData request) (hp : p.flatten = request.body)
    (hq : q.flatten = request.body) : SameUpload request p q := by
  refine sameUpload_iff.2 fun hpost boundary hb numIovec => ?_
  cases hmem : request.parserFailures.headD false with
  | true =>
    have hfails : ∀ evb : ChainBuffer, Input.fails
        { evb := evb, numIovec := numIovec, failures := request.parserFailures } = true :=
      fun _ => hmem
    rw [scan_split, scan_split, scanLoop_fails (hfails _), scanLoop_fails (hfails _)]
    exact ⟨rfl, rfl, fun h => by cases h⟩
  | false =>
    have hnone : ∀ span, (nextPart boundary request.body).outcome ≠ .ok (some span) :=
      fun span hspan => h ⟨hpost, hmem, boundary, span, hb, hspan⟩
    have halike : ∀ r : List Bytes, r.flatten = request.body → Alike Call.seen _ _ _ :=
      fun r hr => scan_split_lost hmem hr (fun span hspan => absurd hspan (hnone span)) numIovec
    rw [sameScan_iff (halike p hp) (halike q hq), lostScan, agree_bind (nextPart_alive _)]
    rintro (_ | span) hspan
    · exact agree_pure.2 rfl
    · exact absurd hspan (hnone span)

/-- In single bytes the first data got to is looked for in a chain that was freed. -/
theorem not_sameUpload_singletons (h : ReachesData request) :
    ¬ SameUpload request (request.body.map fun c => [c]) (request.body.map fun c => [c]) := by
  obtain ⟨hpost, hmem, boundary, span, hb, hspan⟩ := h
  intro hsame
  have hlost : ∀ span, (nextPart boundary request.body).outcome = .ok (some span) →
      Chain.lead (request.body.map fun c => [c]) span.start span.data = none := by
    intro span hspan
    have hdata := (nextPart_some hspan).2.2.2
    rw [length_closing] at hdata
    exact Chain.lead_singletons _ (by omega)
  have halike := scan_split_lost hmem (List.flatMap_singleton' _) hlost 0
  have hagree := (sameScan_iff halike halike).1 (hsame.scan hpost boundary hb 0)
  exact not_agree_fault ((agree_bind (nextPart_alive _)).1 hagree _ hspan)

/-- A request is handled alike in all splittings of its body exactly if the parser gets to no
part's data, and in two given ones, with memory for the parser, exactly if the pointers to the
delimiters lead to the same data. -/
theorem fragmentation_iff (request : UploadRequest Bytes) :
    ((∀ p q, p.flatten = request.body → q.flatten = request.body → SameUpload request p q)
        ↔ ¬ ReachesData request)
      ∧ (NoFailures request.parserFailures → ∀ p q, p.flatten = request.body →
        q.flatten = request.body → (SameUpload request p q ↔ request.SameData p q)) := by
  have hsingle : (request.body.map fun c => [c]).flatten = request.body :=
    List.flatMap_singleton' _
  refine ⟨⟨fun h hreach => ?_, fun h p q hp hq => sameUpload_of_not_reaches h hp hq⟩,
    fun hmem p q hp hq => sameUpload_iff_sameData hmem hp hq⟩
  exact not_sameUpload_singletons hreach (h _ _ hsingle hsingle)

/-- A part in front of the closing delimiter. -/
def onePart : Bytes := lit "--B\r\n\r\nx\r\n--B--"

def onePartRequest : UploadRequest Bytes :=
  { contentType := some (lit "multipart/form-data; boundary=B"), body := onePart }

theorem onePart_nextPart :
    (nextPart (lit "B") onePart).outcome = .ok (some ⟨0, 7, 3⟩) := by decide +kernel

theorem fragmentation_iff_onePart :
    SameUpload onePartRequest [onePart] [onePart.take 8, onePart.drop 8] := by
  have hp : [onePart].flatten = onePart := List.append_nil _
  have hq : [onePart.take 8, onePart.drop 8].flatten = onePart := by decide +kernel
  refine ((fragmentation_iff onePartRequest).2 (by simp [NoFailures, onePartRequest]) _ _ hp
    hq).2 fun _ boundary hb => ?_
  have hboundary : requestCheckHeaders onePartRequest.contentType = some (lit "B") := by
    decide +kernel
  obtain rfl : lit "B" = boundary := Option.some.inj (hboundary.symm.trans hb)
  unfold SameData
  rw [hp, onePart_nextPart]
  exact ⟨⟨0, 0, by decide +kernel, by decide +kernel, rfl⟩,
    fun hgo => absurd (by decide +kernel) hgo.2⟩

/-- In single bytes the chain of the delimiter is freed before the part's data is looked at. -/
theorem onePart_singleBytes_freed :
    ¬ SameUpload onePartRequest [onePart] (onePart.map fun c => [c]) := by
  intro h
  have hr := (h.scan rfl (lit "B") (by decide +kernel) 4).result
  revert hr
  decide +kernel

end Upload

section Modules

/-- What is written depends on the bytes that the length covers. -/
theorem dumpIovec_congr {vec vec' : List Bytes} {n : ℤ}
    (h : vec.flatten.take n.toNat = vec'.flatten.take n.toNat) :
    dumpIovec vec n = dumpIovec vec' n := by
  have hcov : Covered vec n ↔ Covered vec' n := by
    have hlen := congrArg List.length h
    rw [List.length_take, List.length_take] at hlen
    unfold Covered
    omega
  by_cases hc : Covered vec n
  · rw [dumpIovec_covered vec n hc, dumpIovec_covered vec' n (hcov.1 hc), h]
  · rw [dumpIovec_not_covered vec n hc, dumpIovec_not_covered vec' n (mt hcov.2 hc)]

/-- A module whose data callback depends on the bytes that the length covers. -/
theorem bytewise_of_data {σ : Type} {m : UploadfsModule σ}
    (h : ∀ fsd (vec vec' : List Bytes) (n : ℤ),
      vec.flatten.take n.toNat = vec'.flatten.take n.toNat →
        m.callData fsd vec n = m.callData fsd vec' n) : m.Bytewise := by
  intro fsd c d hcd
  cases c with
  | formHeader key value =>
    cases d with
    | formHeader key' value' =>
      cases hcd
      rfl
    | data vec' n' => cases hcd
  | data vec n =>
    cases d with
    | formHeader key' value' => cases hcd
    | data vec' n' =>
      simp only [Call.seen, Call.data.injEq, List.cons.injEq, and_true] at hcd
      obtain ⟨hbytes, rfl⟩ := hcd
      exact h fsd vec vec' n hbytes

theorem debugmod_bytewise : debugmod.Bytewise := bytewise_of_data fun fsd vec vec' n h => by
  simp only [UploadfsModule.callData, debugmod, debugHandleData, dumpIovecToFile,
    dumpIovec_congr h]

theorem filemod_bytewise : filemod.Bytewise := bytewise_of_data fun fsd vec vec' n h => by
  simp only [UploadfsModule.callData, filemod, fileHandleData, dumpIovecToFile,
    dumpIovec_congr h]

end Modules

end AuraHttpd
