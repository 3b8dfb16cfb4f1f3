import AuraHttpd.Proofs.FlatScan

/-!
# What a data callback is given

For a part whose data the parser gets to, the length is two less than where the next delimiter is
found, whatever stands there, and the extents begin as far behind the data's beginning as the
part's delimiter stood behind the buffer's.  So they are right exactly where the part is sound
(`validExtent_iff`), and the parts of a body are those the loop comes to (`data_extent_iff`).
-/

namespace AuraHttpd

open CString Script

variable {boundary : Bytes}

section Part

variable {b : Bytes} {span : PartSpan}

/-- The loop over the header lines stops at the blank line there is. -/
theorem drop_of_headers {b rest : Bytes} (h : Headers b rest) :
    ∀ {fuel n : ℕ}, (headerScan fuel b).outcome = .ok n → rest = b.drop n := by
  induction h with
  | @blank b ln rest hr hln =>
    rintro (_ | fuel) n hscan
    · cases hscan
    rw [headerScan, hr, Option.map_some] at hscan
    simp only [scanHeaderLine, hln, if_true] at hscan
    obtain rfl : lineLength b = n := Except.ok.inj hscan
    exact (drop_lineLength hr).1.symm
  | @line b ln b' rest hr hln _ ih =>
    rintro (_ | fuel) n hscan
    · cases hscan
    rw [headerScan, hr, Option.map_some] at hscan
    obtain ⟨ret, hret, hscan⟩ := outcome_bind_eq_ok.1 hscan
    have h0 : ret = 0 := by
      simp only [scanHeaderLine, if_neg hln] at hret
      split at hret
      · exact (Except.ok.inj hret).symm
      · cases hret
    rw [h0, if_neg (fun h => h rfl)] at hscan
    obtain ⟨n', hn', hn⟩ := outcome_bind_eq_ok.1 hscan
    obtain rfl : lineLength b + n' = n := Except.ok.inj hn
    rw [(drop_lineLength hr).1] at hn'
    rw [← List.drop_drop, (drop_lineLength hr).1]
    exact ih hn'

theorem nextPart_headers (h : (nextPart boundary b).outcome = .ok (some span)) :
    ∃ fuel n, (headerScan fuel (b.drop ((delimiter boundary).length + span.start + 2))).outcome
        = .ok n
      ∧ span.data = (delimiter boundary).length + span.start + 2 + n := by
  unfold nextPart at h
  split at h
  · cases h
  obtain ⟨n, hn, h⟩ := outcome_bind_eq_ok.1 h
  split at h
  · cases h
  split_ifs at h
  · cases h
  · cases h
    exact ⟨_, n, hn, rfl⟩

/-- The data of a part that is got to begins where the header lines were read to. -/
theorem partData_iff (h : (nextPart boundary b).outcome = .ok (some span)) {data : Bytes} :
    PartData boundary b data
      ↔ Headers (b.drop ((delimiter boundary).length + span.start + 2)) (b.drop span.data)
        ∧ span.next = data.length + 2
        ∧ ∃ more, b.drop span.data = data ++ (lit "\r\n" ++ (delimiter boundary ++ more)) := by
  obtain ⟨hstart, hnext, -, -⟩ := nextPart_some h
  obtain ⟨fuel, n, hscan, hdata⟩ := nextPart_headers h
  constructor
  · rintro ⟨start, rest, more, hs, hh, hrest, hlen⟩
    obtain rfl : span.start = start := Option.some.inj (hstart.symm.trans hs)
    have hdrop := drop_of_headers hh hscan
    rw [List.drop_drop, ← hdata] at hdrop
    rw [hdrop] at hh hlen
    exact ⟨hh, Option.some.inj (hnext.symm.trans hlen), more, hdrop ▸ hrest⟩
  · rintro ⟨hh, hlen, more, hrest⟩
    exact ⟨span.start, _, more, hstart, hh, hrest, hlen ▸ hnext⟩

theorem partData_unique (h : (nextPart boundary b).outcome = .ok (some span)) {data data' : Bytes}
    (hdata : PartData boundary b data) (hdata' : PartData boundary b data') : data = data' := by
  obtain ⟨-, hlen, more, hdrop⟩ := (partData_iff h).1 hdata
  obtain ⟨-, hlen', more', hdrop'⟩ := (partData_iff h).1 hdata'
  exact (List.append_inj (hdrop.symm.trans hdrop') (by omega)).1

/-- A part's data callback is given its data exactly where the part is sound. -/
theorem validExtent_iff {vec : List Bytes} (h : (nextPart boundary b).outcome = .ok (some span))
    (hpre : vec.flatten <+: b.drop (span.data + span.start))
    (hcov : min ((span.next : ℤ) - 2).toNat (b.drop (span.data + span.start)).length
      ≤ vec.flatten.length) :
    ValidExtent boundary b vec (wrapS 32 (span.next - 2)) ↔ span.Sound boundary b := by
  constructor
  · rintro ⟨⟨h0, hle⟩, hdata⟩
    have hcut := List.take_prefix (wrapS 32 (span.next - 2)).toNat vec.flatten
    refine ⟨_, hdata, ?_, hcut.trans hpre⟩
    have hlt : wrapS 32 (span.next - 2) < 2 ^ 31 := (wrapS_mem 31 _).2
    rw [List.length_take]
    omega
  · rintro ⟨data, hdata, hlt, hread⟩
    have hnext := ((partData_iff h).1 hdata).2.1
    have hlen : (span.next : ℤ) - 2 = data.length := by omega
    rw [hlen, wrapS_natCast hlt]
    rw [hlen, Int.toNat_natCast] at hcov
    have hle := hread.length_le
    have htake : vec.flatten.take data.length = data := by
      rw [take_prefix_of_covers hpre hcov]
      exact (List.prefix_iff_eq_take.1 hread).symm
    refine ⟨⟨Int.natCast_nonneg _, ?_⟩, ?_⟩
    · omega
    · rwa [Int.toNat_natCast, htake]

end Part

section Calls

theorem headerScan_calls : ∀ (fuel : ℕ) (b : Bytes), ∀ c ∈ (headerScan fuel b).calls,
    ∃ key value, c = .formHeader key value
  | 0, _, _, h => by cases h
  | fuel + 1, b, c, h => by
    rw [headerScan] at h
    rcases mem_calls_bind h with h | ⟨ret, h⟩
    · exact scanHeaderLine_calls _ c h
    split_ifs at h
    · cases h
    rcases mem_calls_bind h with h | ⟨n, h⟩
    · exact headerScan_calls fuel _ c h
    · cases h

/-- Before a part's data only its headers are handed over. -/
theorem nextPart_calls (b : Bytes) : ∀ c ∈ (nextPart boundary b).calls,
    ∃ key value, c = .formHeader key value := by
  intro c h
  unfold nextPart at h
  split at h
  · cases h
  rcases mem_calls_bind h with h | ⟨n, h⟩
  · exact headerScan_calls _ _ c h
  split at h <;> cases h

theorem delimiterScan_calls {α : Type} (rest : Bytes) (a : α) :
    (delimiterScan boundary rest >>= fun ret => pure (ret, a)).calls = [] := by
  unfold delimiterScan
  split_ifs <;> rfl

/-- Behind a part's data nothing is handed over before the next part. -/
theorem taken_calls {α : Type} (cs : List Call) (rest : Bytes) (a : α) :
    ((⟨cs, .ok ⟨⟩⟩ : ParserScript PUnit) >>= fun _ =>
      delimiterScan boundary rest >>= fun ret => pure (ret, a)).calls = cs := by
  rw [bind_ok, delimiterScan_calls, List.append_nil]

theorem taken_outcome {α : Type} (cs : List Call) (rest : Bytes) (a : α) (r : ℤ × α) :
    ((⟨cs, .ok ⟨⟩⟩ : ParserScript PUnit) >>= fun _ =>
      delimiterScan boundary rest >>= fun ret => pure (ret, a)).outcome = .ok r
      ↔ (delimiterScan boundary rest).outcome = .ok r.1 ∧ a = r.2 := by
  rw [bind_ok, outcome_bind_eq_ok]
  constructor
  · rintro ⟨ret, hret, h⟩
    cases h
    exact ⟨hret, rfl⟩
  · rintro ⟨hret, rfl⟩
    exact ⟨r.1, hret, rfl⟩

end Calls

section Loop

variable {E I : Type} [Evbuffer E I] [FlatEvbuffer E I] {inp inp' : Input E}

/-- The data call of a part, if there is one. -/
theorem data_call {vec : List Bytes} {length : ℤ} (hroom : 0 < inp.numIovec)
    (h : .data vec length ∈ (scanNextFile boundary inp).calls) :
    ∃ span, (nextPart boundary inp.bytes).outcome = .ok (some span)
      ∧ length = wrapS 32 (span.next - 2)
      ∧ vec.flatten <+: inp.bytes.drop (span.data + span.start)
      ∧ min ((span.next : ℤ) - 2).toNat (inp.bytes.drop (span.data + span.start)).length
        ≤ vec.flatten.length := by
  have hheader : .data vec length ∉ (nextPart boundary inp.bytes).calls := fun h => by
    obtain ⟨key, value, he⟩ := nextPart_calls _ _ h
    cases he
  cases scanNextFile_flat boundary inp (.inl hroom) with
  | noMemory hmem hcs hret hscan =>
    rw [hscan] at h
    exact absurd (hcs.subset h) hheader
  | crashed hpart hscan =>
    rw [hscan] at h
    exact absurd h hheader
  | stopped hpart hscan =>
    rw [hscan] at h
    exact absurd h hheader
  | @taken span vec' inp' hpart hpre hcov hbytes hroom' hmem hscan =>
    rw [hscan, taken_calls] at h
    rcases List.mem_append.1 h with h | h
    · exact absurd h hheader
    · obtain ⟨rfl, rfl⟩ := Call.data.inj (List.mem_singleton.1 h)
      exact ⟨span, hpart, rfl, hpre, hcov⟩

/-- The data call there is where memory does not run out. -/
theorem exists_data_call {span : PartSpan} (hroom : 0 < inp.numIovec)
    (hmem : NoFailures inp.failures)
    (hpart : (nextPart boundary inp.bytes).outcome = .ok (some span)) :
    ∃ vec, .data vec (wrapS 32 (span.next - 2)) ∈ (scanNextFile boundary inp).calls := by
  obtain ⟨vec, inp', -, -, -, -, -, hscan⟩ := scanNextFile_taken (.inl hroom) hmem hpart
  exact ⟨vec, by rw [hscan, taken_calls]; simp⟩

theorem comesTo_reaches (h : ComesTo boundary inp inp') :
    0 < inp.numIovec → Reaches boundary inp.bytes inp'.bytes ∧ 0 < inp'.numIovec := by
  induction h with
  | here inp => exact fun hroom => ⟨.here _, hroom⟩
  | @next inp inp₁ inp' h _ ih =>
    intro hroom
    cases scanNextFile_flat boundary inp (.inl hroom) with
    | noMemory _ _ hret hscan =>
      rw [hscan] at h
      cases h
      exact absurd hret (by decide)
    | crashed _ hscan =>
      rw [hscan] at h
      cases h
    | stopped _ hscan =>
      rw [hscan] at h
      cases h
    | @taken span vec inp₂ hpart _ _ hbytes hroom' _ hscan =>
      rw [hscan, taken_outcome] at h
      obtain ⟨hdel, rfl⟩ := h
      obtain ⟨hreach, hroom''⟩ := ih hroom'
      rw [hbytes] at hreach
      exact ⟨.next hpart (goesOn_iff.2 hdel) hreach, hroom''⟩

theorem comesTo_of_reaches {b b' : Bytes} (h : Reaches boundary b b') : ∀ {inp : Input E},
    inp.bytes = b → 0 < inp.numIovec → NoFailures inp.failures →
    ∃ inp', ComesTo boundary inp inp' ∧ inp'.bytes = b' ∧ 0 < inp'.numIovec
      ∧ NoFailures inp'.failures := by
  induction h with
  | here b => exact fun {inp} hb hroom hmem => ⟨inp, .here inp, hb, hroom, hmem⟩
  | @next b b' span hpart hgo _ ih =>
    rintro inp rfl hroom hmem
    obtain ⟨vec, inp₁, -, -, hbytes, hroom', hmem', hscan⟩ :=
      scanNextFile_taken (.inl hroom) hmem hpart
    obtain ⟨inp', hcomes, hrest⟩ := ih hbytes hroom' hmem'
    refine ⟨inp', .next ?_ hcomes, hrest⟩
    rw [hscan, taken_outcome]
    exact ⟨goesOn_iff.1 hgo, rfl⟩

/-- Each data callback the loop of `upload` makes over a body is given its part's data, and a
length its extents cover, exactly where every part the parser gets to the data of is sound. -/
theorem data_extent_iff (boundary : Bytes) (body : E) :
    (∀ inp : Input E, inp.evb = body → 0 < inp.numIovec → ∀ inp', ComesTo boundary inp inp' →
        ∀ vec length, .data vec length ∈ (scanNextFile boundary inp').calls →
          ValidExtent boundary inp'.bytes vec length)
      ↔ ∀ b, Reaches boundary (FlatEvbuffer.bytes body) b → ∀ span : PartSpan,
        (nextPart boundary b).outcome = .ok (some span) → span.Sound boundary b := by
  constructor
  · intro h b hreach span hpart
    obtain ⟨inp', hcomes, rfl, hroom, hmem⟩ :=
      comesTo_of_reaches hreach (show ({ evb := body } : Input E).bytes = _ from rfl)
        (Nat.zero_lt_succ _) (List.forall_mem_nil _)
    obtain ⟨vec, hcall⟩ := exists_data_call hroom hmem hpart
    have hvalid := h _ rfl (Nat.zero_lt_succ _) inp' hcomes vec _ hcall
    obtain ⟨span', hpart', -, hpre, hcov⟩ := data_call hroom hcall
    obtain rfl : span = span' := by
      rw [hpart] at hpart'
      exact Option.some.inj (Except.ok.inj hpart')
    exact (validExtent_iff hpart hpre hcov).1 hvalid
  · rintro h inp rfl hroom inp' hcomes vec length hcall
    obtain ⟨hreach, hroom'⟩ := comesTo_reaches hcomes hroom
    obtain ⟨span, hpart, rfl, hpre, hcov⟩ := data_call hroom' hcall
    exact (validExtent_iff hpart hpre hcov).2 (h _ hreach span hpart)

/-- A part that ends directly behind its headers: the length is less than zero. -/
theorem emptyPart_length_negative :
    ¬ ∀ inp : Input Bytes, inp.evb = lit "--B\r\n\r\n--B--\r\n" → 0 < inp.numIovec →
      ∀ inp', ComesTo (lit "B") inp inp' →
        ∀ vec length, .data vec length ∈ (scanNextFile (lit "B") inp').calls →
          ValidExtent (lit "B") inp'.bytes vec length := by
  intro h
  have hneg := h { evb := lit "--B\r\n\r\n--B--\r\n" } rfl (by decide) _ (.here _)
    [lit "--B--\r\n"] (-2) (by decide +kernel)
  exact absurd hneg.1.1 (by decide)

end Loop

end AuraHttpd
