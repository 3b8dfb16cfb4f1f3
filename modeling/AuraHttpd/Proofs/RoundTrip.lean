import AuraHttpd.Proofs.EncodedScan

/-!
# Decoding undoes encoding

The scan of an encoded body makes the calls for its parts.  The invariant of the loop is that the
buffer holds the encoding of the parts still to come: the delimiter is then at its start, so that
the data is read where it begins, and behind a part stands the delimiter of what follows it.
-/

namespace AuraHttpd

open CString Script FlatEvbuffer

section Parts

variable {E I : Type} [Evbuffer E I] [FlatEvbuffer E I] {B rest : Bytes} {p : FormPart}

/-- The scan of a part takes its headers and its data off the buffer. -/
theorem scanNextFile_encode {inp : Input E} (hB : ∀ c ∈ B, HeaderByte c) (hp : p.Valid B)
    (hrest : delimiter B <+: rest) (hmem : NoFailures inp.failures)
    (hlen : p.data.length < 2 ^ 31) (hb : inp.bytes = p.encode B ++ rest) :
    ∃ vec inp', scanNextFile B inp
        = (⟨p.headers.map headerCall ++ [.data vec p.data.length], .ok ⟨⟩⟩ : ParserScript PUnit)
          >>= (fun _ => delimiterScan B rest >>= fun ret => pure (ret, inp'))
      ∧ vec.flatten.take p.data.length = p.data ∧ inp'.bytes = rest
      ∧ NoFailures inp'.failures := by
  have hnext := nextPart_encode hB hp.readable hrest
  rw [← hb] at hnext
  have hdata : inp.bytes.drop (p.headLength B) = p.dataOn rest := by
    rw [hb, drop_encode]
  have hleft : inp.bytes.drop (p.headLength B + (p.data.length + 2)) = rest := by
    rw [← List.drop_drop, hdata, drop_dataOn]
  obtain ⟨vec, inp', hpre, hcov, hbytes, -, hmem', hscan⟩ :=
    scanNextFile_taken (.inr (Nat.le_add_left _ _)) hmem (by rw [hnext])
  simp only [next_sub_two, Nat.add_zero, hdata, Int.toNat_natCast] at hpre hcov
  simp only [next_sub_two, wrapS_natCast hlen, PartSpan.length, hnext, hleft] at hscan
  refine ⟨vec, inp', hscan, ?_, hbytes.trans hleft, hmem'⟩
  rw [take_prefix_of_covers hpre hcov]
  exact List.take_left' rfl

/-- The look at the delimiter tells whether a part is left. -/
theorem delimiterScan_encodeBody (B : Bytes) (ps : List FormPart) (tail : Bytes) :
    delimiterScan B (encodeBody B ps tail) = pure (if ps = [] then 0 else 1) := by
  obtain ⟨more, hmore, hlen, hlast⟩ := encodeBody_delimiter B ps tail
  have hlong : (closing B).length ≤ (delimiter B ++ more).length := by
    rw [length_closing, List.length_append]
    omega
  have hclosing : (delimiter B ++ more).take (closing B).length = closing B ↔ ps = [] := by
    rw [closing, take_delimiter]
    exact hlast
  rw [hmore]
  change delimiterScan B (delimiter B ++ more) = _
  simp only [delimiterScan, hlong, if_true, hclosing]

theorem scanLoop_encode {tail : Bytes} (hB : ∀ c ∈ B, HeaderByte c) :
    ∀ (parts : List FormPart) (fuel : ℕ) (inp : Input E), parts ≠ [] → parts.length ≤ fuel →
      (∀ p ∈ parts, p.Valid B) → NoFailures inp.failures →
      inp.bytes = encodeBody B parts tail → (encodeBody B parts tail).length < 2 ^ 31 →
      ∃ calls inp', Decodes parts calls ∧ scanLoop B fuel inp = ⟨calls, .ok (0, inp')⟩
  | [], _, _, hne, _, _, _, _, _ => absurd rfl hne
  | _ :: _, 0, _, _, hf, _, _, _, _ => absurd hf (by simp)
  | p :: ps, fuel + 1, inp, _, hf, hv, hmem, hb, hlen => by
    rw [encodeBody_cons] at hb hlen
    have hdata : p.data.length < 2 ^ 31 := by
      simp only [FormPart.encode, List.length_append] at hlen
      omega
    obtain ⟨more, hmore, -, -⟩ := encodeBody_delimiter B ps tail
    obtain ⟨vec, inp₁, hscan, hvec, hb₁, hmem₁⟩ :=
      scanNextFile_encode hB (hv p (by simp)) ⟨more, hmore.symm⟩ hmem hdata hb
    rw [delimiterScan_encodeBody, pure_bind] at hscan
    rw [scanLoop, hscan]
    by_cases hps : ps = []
    · subst hps
      refine ⟨_, inp₁, .cons hvec .nil, ?_⟩
      simp [pure]
    · obtain ⟨calls, inp', hdec, hrest⟩ := scanLoop_encode hB ps fuel inp₁ hps (by simpa using hf)
        (fun q hq => hv q (by simp [hq])) hmem₁ hb₁
        (by rw [List.length_append] at hlen; omega)
      refine ⟨_, inp', .cons hvec hdec, ?_⟩
      simp [hps, pure, hrest]

end Parts

/-- A body encoded from parts is decoded into them: for any module, the loop of `upload` makes
the calls for the parts, whatever the extents the data comes in, and ends with zero. -/
theorem multipart_round_trip {E I : Type} [Evbuffer E I] [FlatEvbuffer E I] (B : Bytes)
    (parts : List FormPart) (tail : Bytes) (inp : Input E) (hB : ∀ c ∈ B, HeaderByte c)
    (hne : parts ≠ []) (hv : ∀ p ∈ parts, p.Valid B)
    (hlen : (encodeBody B parts tail).length ≤ 2 ^ 31 - 1)
    (hb : bytes inp.evb = encodeBody B parts tail) (hmem : NoFailures inp.failures) :
    ∃ calls, Decodes parts calls ∧
      ∀ {σ : Type} (m : UploadfsModule σ) (fsd fsd' : Upfs σ), fsd.uploadError = false →
        m.replay fsd calls = .ok fsd' → fsd'.uploadError = false →
        ∃ inp', uploadLoop m B (Evbuffer.length inp.evb + 1) fsd inp = .ok (0, fsd', inp') := by
  have hfuel : parts.length ≤ Evbuffer.length inp.evb + 1 := by
    rw [length_eq, hb, encodeBody, List.length_append]
    have := length_le_flatMap (f := FormPart.encode B) (l := parts) fun p _ => by
      simp [FormPart.encode, crlf_eq]
    omega
  obtain ⟨calls, inp', hdec, hscan⟩ := scanLoop_encode hB parts _ inp hne hfuel hv hmem hb
    (by omega)
  refine ⟨calls, hdec, fun m fsd fsd' h hr hf => ⟨inp', ?_⟩⟩
  refine uploadLoop_of_play h ?_
  rw [hscan]
  exact play_of_replay_ok rfl hr hf

/-- A part with two headers and one without any, whose data is empty. -/
def twoParts : List FormPart :=
  [{ headers := [(lit "Content-Disposition", lit "form-data; name=\"f\""), (lit "X", lit "  y ")]
     data := lit "a\r\n--" },
    { headers := [], data := [] }]

theorem multipart_round_trip_twoParts :
    ∃ calls, Decodes twoParts calls ∧
      ∃ inp', uploadLoop ({} : UploadfsModule Unit) (lit "B")
        ((encodeBody (lit "B") twoParts []).length + 1) { modData := () }
        ({ evb := encodeBody (lit "B") twoParts [] } : Input Bytes)
          = .ok (0, { modData := () }, inp') := by
  have hv : ∀ p ∈ twoParts, p.Valid (lit "B") := by
    intro p hp
    rcases List.mem_cons.1 hp with rfl | hp
    · exact ⟨by decide +kernel, by decide +kernel, by decide +kernel⟩
    · rw [List.mem_singleton.1 hp]
      exact ⟨by decide +kernel, by decide +kernel, by decide +kernel⟩
  obtain ⟨calls, hdec, hall⟩ := multipart_round_trip (lit "B") twoParts []
    ({ evb := encodeBody (lit "B") twoParts [] } : Input Bytes) (by decide +kernel)
    (by decide +kernel) hv (by decide +kernel) rfl (by simp [NoFailures])
  exact ⟨calls, hdec, hall {} _ _ rfl (replay_idle rfl calls) rfl⟩

end AuraHttpd
