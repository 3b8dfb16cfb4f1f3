import AuraHttpd.Proofs.EncodedScan
import AuraHttpd.Proofs.Fragmentation

/-!
# A preamble

A text before the first delimiter is drained with it, and what is left is the body behind its
first delimiter.  But the position of that delimiter is used twice more: the next delimiter must
not be nearer to the data's beginning, and the data is read as many bytes behind its beginning.
So the first part alone tells whether the text is ignored (`preamble_ignored_iff`).
-/

namespace AuraHttpd

open CString Script

variable {B P rest tail : Bytes} {p : FormPart} {ps : List FormPart}

/-- The first delimiter stands behind the preamble. -/
theorem search_preamble (hB : ∀ c ∈ B, HeaderByte c) (hcrlf : crlf <:+ P)
    (hP : ¬ delimiter B <:+: P) {b : Bytes} (hb : delimiter B <+: b) :
    ListSearch.search (delimiter B) (P ++ b) = some P.length := by
  obtain ⟨text, rfl⟩ := hcrlf
  have htext : ¬ delimiter B <:+: text := fun h => hP (h.trans (List.prefix_append _ _).isInfix)
  rw [List.append_assoc, List.length_append]
  exact ListSearch.search_delimited htext delimiter_ne_nil (delimiter_notMem hB) (by decide) hb

/-- The scan of the first part behind a preamble, which may be empty. -/
theorem bodyScan_part (hB : ∀ c ∈ B, HeaderByte c) (hp : p.Readable B)
    (hrest : delimiter B <+: rest) (hlen : p.data.length < 2 ^ 31)
    (hP : ListSearch.search (delimiter B) (P ++ (p.encode B ++ rest)) = some P.length) (fuel : ℕ) :
    bodyScan B (fuel + 1) [P ++ (p.encode B ++ rest)]
      = (⟨p.headers.map headerCall, .ok ⟨⟩⟩ : ParserScript PUnit) >>= fun _ =>
        if p.data.length + 2 < P.length then pure (-74)
        else emit (.data [((p.dataOn rest).drop P.length).take p.data.length] p.data.length)
          >>= fun _ => restScan B fuel rest := by
  rw [bodyScan_single, nextPart_part hB hp hrest hP]
  split_ifs with hnear
  · simp [pure]
  have hdata : ((P ++ (p.encode B ++ rest)).drop (P.length + p.headLength B + P.length))
      = (p.dataOn rest).drop P.length := by
    rw [← List.drop_drop, drop_head]
  have hleft : (P ++ (p.encode B ++ rest)).drop
      (P.length + p.headLength B + (p.data.length + 2)) = rest := by
    rw [← List.drop_drop, drop_head, drop_dataOn]
  rw [bind_ok, bind_ok]
  simp only [PartSpan.call, PartSpan.bytesAt, PartSpan.length, hdata, hleft, next_sub_two,
    wrapS_natCast hlen, Int.toNat_natCast]

theorem bodyScan_preamble (hB : ∀ c ∈ B, HeaderByte c) (hp : p.Valid B)
    (hrest : delimiter B <+: rest) (hlen : p.data.length < 2 ^ 31)
    (hP : ListSearch.search (delimiter B) (P ++ (p.encode B ++ rest)) = some P.length) (fuel : ℕ) :
    bodyScan B (fuel + 1) [P ++ (p.encode B ++ rest)]
      = (⟨p.headers.map headerCall, .ok ⟨⟩⟩ : ParserScript PUnit) >>= fun _ =>
        if p.data.length + 2 < P.length then pure (-74)
        else emit (.data [((p.dataOn rest).drop P.length).take p.data.length] p.data.length)
          >>= fun _ => restScan B fuel rest :=
  bodyScan_part hB hp.readable hrest hlen hP fuel

theorem bodyScan_alive : ∀ (fuel : ℕ) (b : Bytes),
    (bodyScan B fuel [b]).outcome ≠ .error .freedChain
  | 0, _ => fun h => by cases h
  | fuel + 1, b => fun h => by
    rw [bodyScan_single, outcome_bind_eq_error] at h
    rcases h with h | ⟨_ | span, -, h⟩
    · exact nextPart_alive _ h
    · cases h
    · change (restScan B fuel _).outcome = _ at h
      unfold restScan at h
      split_ifs at h
      · exact bodyScan_alive fuel _ h
      · cases h

theorem restScan_alive (fuel : ℕ) (rest : Bytes) :
    (restScan B fuel rest).outcome ≠ .error .freedChain := by
  unfold restScan
  split_ifs
  · exact bodyScan_alive fuel _
  · exact fun h => by cases h
  · exact fun h => by cases h

/-- A text that ends a line and holds no delimiter is ignored before a body exactly where it is no
longer than the data of the body's first part and the CRLF behind it, and that data is also what
stands as many bytes behind its beginning as the text is long. -/
theorem preamble_ignored_iff {E I : Type} [Evbuffer E I] [FlatEvbuffer E I]
    (hB : ∀ c ∈ B, HeaderByte c) (hv : ∀ q ∈ p :: ps, q.Valid B)
    (hlen : (encodeBody B (p :: ps) tail).length ≤ 2 ^ 31 - 1) (hcrlf : crlf <:+ P)
    (hP : ¬ delimiter B <:+: P) {inp inp' : Input E}
    (hb : inp.bytes = P ++ encodeBody B (p :: ps) tail)
    (hb' : inp'.bytes = encodeBody B (p :: ps) tail) (hroom : 0 < inp.numIovec)
    (hroom' : 0 < inp'.numIovec) (hmem : NoFailures inp.failures)
    (hmem' : NoFailures inp'.failures) :
    SameScan (scanLoop B (Evbuffer.length inp.evb + 1) inp)
        (scanLoop B (Evbuffer.length inp'.evb + 1) inp')
      ↔ P.length ≤ p.data.length + 2
        ∧ p.data <+: (p.dataOn (encodeBody B ps tail)).drop P.length := by
  obtain ⟨more, hmore, -, -⟩ := encodeBody_delimiter B ps tail
  have hrest : delimiter B <+: encodeBody B ps tail := ⟨more, hmore.symm⟩
  rw [encodeBody_cons] at hb hb' hlen
  have henc : delimiter B <+: p.encode B ++ encodeBody B ps tail := by
    rw [encode_eq]
    exact List.prefix_append _ _
  have hdata : p.data.length < 2 ^ 31 := by
    rw [encode_eq] at hlen
    simp only [List.length_append, length_dataOn] at hlen
    omega
  have hv' := hv p (by simp)
  have hfirst := search_preamble hB hcrlf hP henc
  have halone : ListSearch.search (delimiter B) ([] ++ (p.encode B ++ encodeBody B ps tail))
      = some ([] : Bytes).length := ListSearch.search_of_prefix henc
  have hscan := bodyScan_preamble hB hv' hrest hdata hfirst inp.bytes.length
  have hscan' := bodyScan_preamble hB hv' hrest hdata halone inp'.bytes.length
  rw [← hb] at hscan
  rw [List.nil_append, ← hb'] at hscan'
  rw [sameScan_iff (scanLoop_flat B _ inp hroom hmem) (scanLoop_flat B _ inp' hroom' hmem'),
    length_evb, length_evb, hscan, hscan', agree_bind (by simp)]
  have hshort : ¬ p.data.length + 2 < ([] : Bytes).length := Nat.not_lt_zero _
  have htake : ((p.dataOn (encodeBody B ps tail)).drop ([] : Bytes).length).take p.data.length
      = p.data := List.take_left' rfl
  have hfuel : (encodeBody B ps tail).length < inp.bytes.length
      ∧ (encodeBody B ps tail).length < inp'.bytes.length := by
    have hpos := length_delimiter_pos B
    rw [hb, hb', encode_eq]
    simp only [List.length_append, length_dataOn]
    omega
  rw [if_neg hshort, htake, restScan_fuel hfuel.1 hfuel.2]
  have hvalue : p.data <+: (p.dataOn (encodeBody B ps tail)).drop P.length
      ↔ (Call.data [((p.dataOn (encodeBody B ps tail)).drop P.length).take p.data.length]
        p.data.length).seen = (Call.data [p.data] p.data.length).seen := by
    simp [Call.seen, List.take_take, List.prefix_iff_eq_take, eq_comm]
  rw [hvalue]
  constructor
  · intro h
    have hagree := h ⟨⟩ rfl
    split_ifs at hagree with hnear
    · exact absurd hagree.calls (by simp [emit, pure])
    · exact ⟨Nat.not_lt.1 hnear, (agree_emit_bind.1 hagree).1⟩
  · rintro ⟨hnear, hseen⟩ ⟨⟩ -
    rw [if_neg (Nat.not_lt.2 hnear), agree_emit_bind]
    exact ⟨hseen, rfl, rfl, restScan_alive _ _⟩

/-- A part without headers. -/
def barePart (data : String) : FormPart := { headers := [], data := lit data }

/-- A body of one part without headers. -/
def barePartBody (data : String) : Bytes := encodeBody (lit "B") [barePart data] []

theorem preamble_ignored_emptyData :
    SameScan (scanLoop (lit "B") (Evbuffer.length (crlf ++ barePartBody "") + 1)
        { evb := crlf ++ barePartBody "" })
      (scanLoop (lit "B") (Evbuffer.length (barePartBody "") + 1) { evb := barePartBody "" }) := by
  have hv : ∀ q ∈ [barePart ""], q.Valid (lit "B") := by
    intro q hq
    rw [List.mem_singleton.1 hq]
    exact ⟨by decide, by decide, by decide +kernel⟩
  have hlen : (encodeBody (lit "B") [barePart ""] []).length ≤ 2 ^ 31 - 1 := by decide +kernel
  have hb : ({ evb := crlf ++ barePartBody "" } : Input Bytes).bytes
      = crlf ++ encodeBody (lit "B") [barePart ""] [] := rfl
  have hb' : ({ evb := barePartBody "" } : Input Bytes).bytes
      = encodeBody (lit "B") [barePart ""] [] := rfl
  exact (preamble_ignored_iff (by decide +kernel) hv hlen (List.suffix_refl _) (by decide +kernel)
    hb hb' (by decide) (by decide) (List.forall_mem_nil _) (List.forall_mem_nil _)).2
      ⟨by decide, List.nil_prefix⟩

/-- An empty line before the body is enough for its first part to be read two bytes further on. -/
theorem emptyLine_shifts_data :
    ¬ SameScan (scanLoop (lit "B") (Evbuffer.length (crlf ++ barePartBody "x") + 1)
        { evb := crlf ++ barePartBody "x" })
      (scanLoop (lit "B") (Evbuffer.length (barePartBody "x") + 1) { evb := barePartBody "x" }) :=
  fun h => absurd h.calls (by decide +kernel)

end AuraHttpd
