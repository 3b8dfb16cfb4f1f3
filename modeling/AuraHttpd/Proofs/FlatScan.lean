import AuraHttpd.BodyParts
import AuraHttpd.Proofs.BodyScan

/-!
# Bodies as bytes

A buffer of which only the bytes are told, its pointers being offsets in them, is scanned like a
body in one piece (`scanLoop_flat`).
-/

namespace AuraHttpd

open CString Script

variable {E I : Type} [Evbuffer E I] [FlatEvbuffer E I] {boundary : Bytes}

/-- The input with its first `n` bytes taken off. -/
structure Input.Behind (inp : Input E) (n : ℕ) (inp' : Input E) : Prop where
  bytes : inp'.bytes = inp.bytes.drop n
  numIovec : inp'.numIovec = inp.numIovec
  failures : inp'.failures = inp.failures

section Buffer

variable {inp : Input E}

theorem length_evb (inp : Input E) : Evbuffer.length inp.evb = inp.bytes.length :=
  FlatEvbuffer.length_eq inp.evb

theorem behind_drain (inp : Input E) (n : ℕ) : inp.Behind n (inp.drain n) :=
  ⟨FlatEvbuffer.bytes_drain inp.evb n, rfl, rfl⟩

theorem Input.Behind.trans {inp₁ inp₂ : Input E} {m n : ℕ} (h : inp.Behind m inp₁)
    (h' : inp₁.Behind n inp₂) : inp.Behind (m + n) inp₂ :=
  ⟨by rw [h'.bytes, h.bytes, List.drop_drop], h'.numIovec.trans h.numIovec,
    h'.failures.trans h.failures⟩

theorem flat_search_none {pat : Bytes} (h : ListSearch.search pat inp.bytes = none) :
    Evbuffer.search inp.evb pat = none := by
  have heq := FlatEvbuffer.search_eq inp.evb pat
  rw [show ListSearch.search pat (FlatEvbuffer.bytes inp.evb) = none from h,
    Option.map_eq_none_iff] at heq
  exact heq

theorem flat_search_some {pat : Bytes} {pos : ℕ} (h : ListSearch.search pat inp.bytes = some pos) :
    ∃ p, Evbuffer.search inp.evb pat = some p ∧ p.pos = pos := by
  have heq := FlatEvbuffer.search_eq inp.evb pat
  rw [show ListSearch.search pat (FlatEvbuffer.bytes inp.evb) = some pos from h,
    Option.map_eq_some_iff] at heq
  exact heq

theorem search_of_flat {pat : Bytes} {p : EvbufferPtr I}
    (h : Evbuffer.search inp.evb pat = some p) :
    ListSearch.search pat inp.bytes = some p.pos := by
  have heq := FlatEvbuffer.search_eq inp.evb pat
  rw [h] at heq
  exact heq.symm

theorem suffix_of_readlnCrlf {b ln rest : Bytes} (h : readlnCrlf b = some (ln, rest)) :
    rest <:+ b ∧ rest.length < b.length := by
  unfold readlnCrlf at h
  split_ifs at h with hmem
  cases h
  have hsuf : (b.dropWhile (· ≠ 10)) <:+ b := List.dropWhile_suffix _
  refine ⟨(List.drop_suffix _ _).trans hsuf, ?_⟩
  have hne : b.dropWhile (· ≠ 10) ≠ [] := by
    rw [ne_eq, List.dropWhile_eq_nil_iff]
    exact fun hall => by simpa using hall 10 hmem
  have hpos := List.length_pos_of_ne_nil hne
  have hle := hsuf.length_le
  rw [List.length_drop]
  omega

theorem drop_lineLength {b ln rest : Bytes} (h : readlnCrlf b = some (ln, rest)) :
    b.drop (lineLength b) = rest ∧ 0 < lineLength b ∧ lineLength b ≤ b.length := by
  obtain ⟨hsuf, hlt⟩ := suffix_of_readlnCrlf h
  have hlen : lineLength b = b.length - rest.length := by
    simp only [lineLength, h, Option.map_some, Option.getD_some]
  obtain ⟨line, rfl⟩ := hsuf
  rw [List.length_append] at hlen hlt
  have : lineLength (line ++ rest) = line.length := by omega
  rw [this, List.length_append]
  exact ⟨List.drop_left, by omega, by omega⟩

theorem lineLength_of_none {b : Bytes} (h : readlnCrlf b = none) : lineLength b = 0 := by
  simp [lineLength, h]

theorem flat_readln (inp : Input E) : inp.readln.1 = (readlnCrlf inp.bytes).map Prod.fst
    ∧ inp.Behind (lineLength inp.bytes) inp.readln.2 := by
  have heq := FlatEvbuffer.readln_eq inp.evb
  rw [show FlatEvbuffer.bytes inp.evb = inp.bytes from rfl] at heq
  unfold Input.readln
  rcases hr : Evbuffer.readln inp.evb with _ | ⟨ln, evb⟩ <;> rw [hr] at heq
  · rw [← heq]
    refine ⟨rfl, ?_, rfl, rfl⟩
    rw [lineLength_of_none heq.symm, List.drop_zero]
  · rw [← heq]
    exact ⟨rfl, (drop_lineLength heq.symm).1.symm, rfl, rfl⟩

theorem pullup_bytes {e e' : E} {n : ℕ} {tmp : Bytes} (h : Evbuffer.pullup e n = some (tmp, e')) :
    FlatEvbuffer.bytes e' = FlatEvbuffer.bytes e := by
  have heq := FlatEvbuffer.pullup_eq e n
  rw [h, Option.map_some] at heq
  split_ifs at heq
  exact (Prod.mk.inj (Option.some.inj heq)).2

/-- `evbuffer_peek_realloc` through a pointer that leads to a byte of the buffer, where there is
room for an extent or a length is asked for. -/
theorem flat_peekRealloc (len : ℤ) {start : EvbufferPtr I} (hpos : start.pos < inp.bytes.length)
    (hroom : 0 ≤ len ∨ 0 < inp.numIovec) :
    ∃ (count : ℤ) (vec : List Bytes) (inp' : Input E),
      evbufferPeekRealloc len start 2 inp = .ok (count, vec, inp')
        ∧ inp'.evb = inp.evb ∧ (0 < inp.numIovec ∨ 0 < count → 0 < inp'.numIovec)
        ∧ (0 < count → vec.flatten <+: inp.bytes.drop start.pos
          ∧ min len.toNat (inp.bytes.length - start.pos) ≤ vec.flatten.length)
        ∧ (NoFailures inp.failures → 0 < count ∧ NoFailures inp'.failures) := by
  by_cases hlen : 0 ≤ len
  · obtain ⟨exts, hne, hpre, hcov, hpeek⟩ := FlatEvbuffer.peek_eq inp.evb len start hpos hlen
    have hexts : 0 < exts.length := List.length_pos_of_ne_nil hne
    have hcount : (0 : ℤ) < exts.length := by exact_mod_cast hexts
    have hrealloc := evbufferPeekRealloc_of_stores hpeek 0
    by_cases hle : exts.length ≤ inp.numIovec
    · refine ⟨exts.length, exts, inp, ?_, rfl, fun _ => hexts.trans_le hle,
        fun _ => ⟨hpre, hcov⟩, fun hmem => ⟨hcount, hmem⟩⟩
      rw [hrealloc, if_pos hle]
    rw [if_neg hle] at hrealloc
    by_cases hfails : inp.fails = true
    · refine ⟨-12, [], inp.tick, ?_, rfl, fun h => ?_, fun h => ?_, fun hmem => ?_⟩
      · rw [hrealloc, if_pos hfails]
      · exact h.resolve_right (by decide)
      · omega
      · exact absurd (hmem.head.symm.trans hfails) (by decide)
    · refine ⟨exts.length, exts, { inp.tick with numIovec := exts.length }, ?_, rfl,
        fun _ => hexts, fun _ => ⟨hpre, hcov⟩, fun hmem => ⟨hcount, hmem.tail⟩⟩
      rw [hrealloc, if_neg hfails]
  · have hroom := hroom.resolve_left hlen
    obtain ⟨exts, hne, hle, hpre, hpeek⟩ :=
      FlatEvbuffer.peek_neg inp.evb len start inp.numIovec hpos (Int.not_le.1 hlen) hroom
    have hcount : (0 : ℤ) < exts.length := by exact_mod_cast List.length_pos_of_ne_nil hne
    refine ⟨exts.length, exts, inp, ?_, rfl, fun _ => hroom, fun _ => ⟨hpre, ?_⟩,
      fun hmem => ⟨hcount, hmem⟩⟩
    · simp [evbufferPeekRealloc, hpeek, Nat.not_lt.2 hle]
    · rw [Int.toNat_of_nonpos (by omega), Nat.zero_min]
      exact Nat.zero_le _

end Buffer

section Part

/-- What is taken off a buffer line by line is what is taken off its bytes. -/
theorem scanHeaders_flat : ∀ (fuel : ℕ) (inp : Input E),
    Alike id (fun inp' n => inp.Behind n inp') (scanHeaders fuel inp) (headerScan fuel inp.bytes)
  | 0, _ => .fault _
  | fuel + 1, inp => by
    obtain ⟨hln, hbehind⟩ := flat_readln inp
    rw [scanHeaders, headerScan, hln]
    refine Alike.bind (Alike.refl (R := Eq) (fun _ => rfl) _) fun ret ret' _ _ he => ?_
    subst he
    by_cases hret : ret ≠ 0
    · rw [if_pos hret, if_pos hret]
      exact .pure hbehind
    · rw [if_neg hret, if_neg hret, ← hbehind.bytes]
      exact (scanHeaders_flat fuel inp.readln.2).map_right fun _ _ h => hbehind.trans h

/-- The look at what stands behind a part. -/
theorem scanDelimiter_flat (boundary : Bytes) (inp : Input E) : ∃ inp' : Input E, inp.Behind 0 inp'
    ∧ scanDelimiter boundary inp
      = delimiterScan boundary inp.bytes >>= fun ret => pure (ret, inp') := by
  have heq := FlatEvbuffer.pullup_eq inp.evb (closing boundary).length
  rw [show FlatEvbuffer.bytes inp.evb = inp.bytes from rfl] at heq
  unfold scanDelimiter delimiterScan
  rw [show lit "--" ++ boundary ++ lit "--" = closing boundary from rfl]
  simp only
  by_cases hlen : (closing boundary).length ≤ inp.bytes.length
  · rw [if_pos hlen, Option.map_eq_some_iff] at heq
    obtain ⟨⟨tmp, evb⟩, hp, he⟩ := heq
    obtain ⟨htmp, hevb⟩ := Prod.mk.inj he
    simp only at htmp hevb
    refine ⟨{ inp with evb := evb }, ⟨hevb, rfl, rfl⟩, ?_⟩
    rw [hp, if_pos hlen, htmp]
    simp only [List.take_take, Nat.min_self]
    rfl
  · rw [if_neg hlen, Option.map_eq_none_iff] at heq
    exact ⟨inp, ⟨rfl, rfl, rfl⟩, by rw [heq, if_neg hlen]; rfl⟩

/-- How `multipart_handle_next_file` goes on a buffer, told by its bytes. -/
inductive PartScanned (boundary : Bytes) (inp : Input E) : Prop where
  | noMemory {cs : List Call} {ret : ℤ} {inp' : Input E} (hmem : ¬ NoFailures inp.failures)
      (hcs : cs <+: (nextPart boundary inp.bytes).calls) (hret : ret < 0)
      (h : scanNextFile boundary inp = ⟨cs, .ok (ret, inp')⟩)
  | crashed {e : Fault} (hpart : (nextPart boundary inp.bytes).outcome = .error e)
      (h : scanNextFile boundary inp = ⟨(nextPart boundary inp.bytes).calls, .error e⟩)
  | stopped {inp' : Input E} (hpart : (nextPart boundary inp.bytes).outcome = .ok none)
      (h : scanNextFile boundary inp = ⟨(nextPart boundary inp.bytes).calls, .ok (-74, inp')⟩)
  | taken {span : PartSpan} {vec : List Bytes} {inp' : Input E}
      (hpart : (nextPart boundary inp.bytes).outcome = .ok (some span))
      (hpre : vec.flatten <+: inp.bytes.drop (span.data + span.start))
      (hcov : min ((span.next : ℤ) - 2).toNat (inp.bytes.drop (span.data + span.start)).length
        ≤ vec.flatten.length)
      (hbytes : inp'.bytes = inp.bytes.drop span.length) (hroom : 0 < inp'.numIovec)
      (hmem : NoFailures inp.failures → NoFailures inp'.failures)
      (h : scanNextFile boundary inp
        = ⟨(nextPart boundary inp.bytes).calls ++ [.data vec (wrapS 32 (span.next - 2))],
            .ok ⟨⟩⟩ >>= fun _ : PUnit => delimiterScan boundary (inp.bytes.drop span.length)
              >>= fun ret => pure (ret, inp'))

/-- The data of a part that is got to. -/
theorem scanData_flat {inp inp₂ : Input E} (span : PartSpan) {start : EvbufferPtr I}
    (hroom : 2 ≤ span.next ∨ 0 < inp.numIovec) (hpos : start.pos = span.start)
    (hbehind : inp.Behind span.data inp₂)
    (hnext : ListSearch.search (delimiter boundary) inp₂.bytes = some span.next)
    (hle : span.start ≤ span.next) :
    (¬ NoFailures inp.failures ∧ ∃ inp', scanData boundary start inp₂ = pure (-74, inp'))
      ∨ ∃ vec inp', vec.flatten <+: inp.bytes.drop (span.data + span.start)
        ∧ min ((span.next : ℤ) - 2).toNat (inp.bytes.drop (span.data + span.start)).length
          ≤ vec.flatten.length
        ∧ inp'.bytes = inp.bytes.drop span.length ∧ 0 < inp'.numIovec
        ∧ (NoFailures inp.failures → NoFailures inp'.failures)
        ∧ scanData boundary start inp₂ = emit (.data vec (wrapS 32 (span.next - 2))) >>= fun _ =>
          delimiterScan boundary (inp.bytes.drop span.length) >>= fun ret => pure (ret, inp') := by
  obtain ⟨next, hsearch, hnpos⟩ := flat_search_some hnext
  have hlt : start.pos < inp₂.bytes.length := by
    have hend := (ListSearch.search_some_le hnext).resolve_right delimiter_ne_nil
    have := length_delimiter_pos boundary
    omega
  have hroom₂ : (0 : ℤ) ≤ next.pos - 2 ∨ 0 < inp₂.numIovec := by
    rw [hbehind.numIovec, hnpos]
    exact hroom.imp_left fun h => by omega
  obtain ⟨count, vec, inp₃, hpeek, hevb, hroom₃, hvec, hmem⟩ :=
    flat_peekRealloc (next.pos - 2) hlt hroom₂
  have hscan : scanData boundary start inp₂ = if count ≤ 0 then pure (-74, inp₃) else
      emit (.data vec (wrapS 32 (next.pos - 2))) >>= fun _ =>
        scanDelimiter boundary (inp₃.drain next.pos) := by
    unfold scanData
    rw [show lit "--" ++ boundary = delimiter boundary from rfl, hsearch]
    simp only
    rw [if_neg (by omega), hpeek]
  rw [hscan]
  by_cases hcount : count ≤ 0
  · left
    refine ⟨fun h => ?_, inp₃, if_pos hcount⟩
    rw [← hbehind.failures] at h
    have := (hmem h).1
    omega
  · right
    rw [if_neg hcount]
    have hdrain := behind_drain inp₃ next.pos
    obtain ⟨inp', hbehind', hdel⟩ := scanDelimiter_flat boundary
      (inp₃.drain next.pos)
    have hbytes₃ : inp₃.bytes = inp.bytes.drop span.data := by
      rw [Input.bytes, hevb]
      exact hbehind.bytes
    have hrest : (inp₃.drain next.pos).bytes = inp.bytes.drop span.length := by
      rw [hdrain.bytes, hbytes₃, List.drop_drop, hnpos]
      rfl
    obtain ⟨hpre, hcov⟩ := hvec (Int.not_le.1 hcount)
    rw [hbehind.bytes, List.drop_drop, hpos] at hpre
    rw [hbehind.bytes, ← List.length_drop, List.drop_drop, hpos, hnpos] at hcov
    refine ⟨vec, inp', hpre, hcov, ?_, ?_, fun h => ?_, by rw [hdel, hrest, hnpos]⟩
    · rw [hbehind'.bytes, List.drop_zero, hrest]
    · rw [hbehind'.numIovec, hdrain.numIovec]
      exact hroom₃ (.inr (Int.not_le.1 hcount))
    · rw [hbehind'.failures, hdrain.failures]
      exact (hmem (hbehind.failures ▸ h)).2

theorem scanData_stops_flat {inp : Input E} {start : EvbufferPtr I}
    (h : ∀ next, ListSearch.search (delimiter boundary) inp.bytes = some next →
      next < start.pos) : scanData boundary start inp = pure (-74, inp) := by
  unfold scanData
  rw [show lit "--" ++ boundary = delimiter boundary from rfl]
  rcases hnext : ListSearch.search (delimiter boundary) inp.bytes with _ | next
  · rw [flat_search_none hnext]
  · obtain ⟨p, hsearch, hpos⟩ := flat_search_some hnext
    rw [hsearch]
    exact if_pos (hpos ▸ h next hnext)

/-- The part scanned once its headers are taken off. -/
theorem partScanned_of_headers {inp inp₂ : Input E} {cs : List Call} {start : EvbufferPtr I}
    {data : ℕ} (hbehind : inp.tick.Behind data inp₂)
    (hpart : nextPart boundary inp.bytes
      = ⟨cs, .ok ((ListSearch.search (delimiter boundary) inp₂.bytes).bind fun next =>
          if next < start.pos then none else some ⟨start.pos, data, next⟩)⟩)
    (hscan : scanNextFile boundary inp
      = (⟨cs, .ok inp₂⟩ : ParserScript (Input E)) >>= scanData boundary start)
    (hroom : 0 < inp.numIovec
      ∨ ∀ span, (nextPart boundary inp.bytes).outcome = .ok (some span) → 2 ≤ span.next) :
    PartScanned boundary inp := by
  by_cases hstop : ∀ next, ListSearch.search (delimiter boundary) inp₂.bytes = some next →
      next < start.pos
  · have hnone : nextPart boundary inp.bytes = ⟨cs, .ok none⟩ := by
      rw [hpart]
      rcases hnext : ListSearch.search (delimiter boundary) inp₂.bytes with _ | next
      · rfl
      · rw [Option.bind_some, if_pos (hstop next hnext)]
    have hstopped : scanNextFile boundary inp
        = ⟨(nextPart boundary inp.bytes).calls, .ok (-74, inp₂)⟩ := by
      rw [hscan, bind_ok, scanData_stops_flat hstop, hnone]
      simp [pure]
    exact .stopped (by rw [hnone]) hstopped
  · push Not at hstop
    obtain ⟨next, hnext, hle⟩ := hstop
    rw [hnext, Option.bind_some, if_neg (Nat.not_lt.2 hle)] at hpart
    have hroom₂ : 2 ≤ next ∨ 0 < inp.tick.numIovec :=
      hroom.symm.imp_left fun h => h _ (by rw [hpart])
    rcases scanData_flat ⟨start.pos, data, next⟩ hroom₂ rfl hbehind hnext hle with
      ⟨hmem, inp', hdata⟩ | ⟨vec, inp', hpre, hcov, hb, hr, hm, hdata⟩
    · have hscan' : scanNextFile boundary inp = ⟨cs, .ok (-74, inp')⟩ := by
        rw [hscan, bind_ok, hdata]
        simp [pure]
      exact .noMemory (fun h => hmem h.tail) (by rw [hpart]) (by decide) hscan'
    · refine .taken (by rw [hpart]) hpre hcov hb hr (fun h => hm h.tail) ?_
      rw [hpart, ← bind_emit cs PUnit.unit, hscan, bind_ok, hdata]
      rfl

theorem scanNextFile_flat (boundary : Bytes) (inp : Input E)
    (hroom : 0 < inp.numIovec
      ∨ ∀ span, (nextPart boundary inp.bytes).outcome = .ok (some span) → 2 ≤ span.next) :
    PartScanned boundary inp := by
  by_cases hfails : inp.fails = true
  · have hscan : scanNextFile boundary inp = ⟨[], .ok (-12, inp.tick)⟩ := if_pos hfails
    exact .noMemory (fun h => absurd (h.head.symm.trans hfails) (by decide)) List.nil_prefix
      (by decide) hscan
  have htick : inp.tick.bytes = inp.bytes := rfl
  have hnextPart := nextPart.eq_def boundary inp.bytes
  have hscan : scanNextFile boundary inp = _ := if_neg hfails
  rw [show lit "--" ++ boundary = delimiter boundary from rfl] at hscan
  rcases hs : ListSearch.search (delimiter boundary) inp.bytes with _ | start
  · rw [hs] at hnextPart
    rw [flat_search_none (htick ▸ hs)] at hscan
    have hstopped : scanNextFile boundary inp
        = ⟨(nextPart boundary inp.bytes).calls, .ok (-74, inp.tick)⟩ := by
      rw [hscan, hnextPart]
      rfl
    exact .stopped (by rw [hnextPart]; rfl) hstopped
  obtain ⟨p, hsearch, rfl⟩ :=
    flat_search_some (htick ▸ hs : ListSearch.search _ inp.tick.bytes = _)
  rw [hs] at hnextPart
  rw [hsearch] at hscan
  simp only at hnextPart hscan
  have hbehind := behind_drain inp.tick ((delimiter boundary).length + p.pos + 2)
  generalize inp.tick.drain ((delimiter boundary).length + p.pos + 2) = inp₁ at hbehind hscan
  have hbytes : inp₁.bytes = inp.bytes.drop ((delimiter boundary).length + p.pos + 2) :=
    hbehind.bytes
  rw [← hbytes] at hnextPart
  rw [length_evb] at hscan
  have hhdrs := scanHeaders_flat (inp₁.bytes.length + 1) inp₁
  rcases hx : scanHeaders (inp₁.bytes.length + 1) inp₁ with ⟨cs, out⟩
  rcases hy : headerScan (inp₁.bytes.length + 1) inp₁.bytes with ⟨ds, out'⟩
  rw [hx, hy] at hhdrs
  rw [hx] at hscan
  rw [hy] at hnextPart
  obtain ⟨hcs, ⟨inp₂, n, rfl, rfl, hn⟩ | ⟨e, rfl, rfl⟩⟩ := hhdrs <;>
    obtain rfl : cs = ds := by simpa using hcs
  · have hbehind₂ := hbehind.trans hn
    have hbytes₂ : inp₂.bytes = inp.bytes.drop ((delimiter boundary).length + p.pos + 2 + n) :=
      hbehind₂.bytes
    rw [bind_ok, ← hbytes₂] at hnextPart
    refine partScanned_of_headers hbehind₂ ?_ hscan hroom
    rw [hnextPart]
    rcases ListSearch.search (delimiter boundary) inp₂.bytes with _ | next
    · simp [pure]
    · simp [pure]
  · rw [bind_error] at hscan hnextPart
    exact .crashed (by rw [hnextPart]) (by rw [hscan, hnextPart])

/-- The data of a part that is there is handed over, if no allocation fails. -/
theorem scanNextFile_taken {inp : Input E} {span : PartSpan}
    (hroom : 0 < inp.numIovec ∨ 2 ≤ span.next) (hmem : NoFailures inp.failures)
    (hpart : (nextPart boundary inp.bytes).outcome = .ok (some span)) :
    ∃ (vec : List Bytes) (inp' : Input E), vec.flatten <+: inp.bytes.drop (span.data + span.start)
      ∧ min ((span.next : ℤ) - 2).toNat (inp.bytes.drop (span.data + span.start)).length
        ≤ vec.flatten.length
      ∧ inp'.bytes = inp.bytes.drop span.length ∧ 0 < inp'.numIovec ∧ NoFailures inp'.failures
      ∧ scanNextFile boundary inp
        = ⟨(nextPart boundary inp.bytes).calls ++ [.data vec (wrapS 32 (span.next - 2))],
            .ok ⟨⟩⟩ >>= fun _ : PUnit => delimiterScan boundary (inp.bytes.drop span.length)
              >>= fun ret => pure (ret, inp') := by
  have hroom' : 0 < inp.numIovec
      ∨ ∀ span, (nextPart boundary inp.bytes).outcome = .ok (some span) → 2 ≤ span.next := by
    refine hroom.imp_right fun hnext span' hpart' => ?_
    rw [hpart] at hpart'
    obtain rfl := Option.some.inj (Except.ok.inj hpart')
    exact hnext
  cases scanNextFile_flat boundary inp hroom' with
  | noMemory hno => exact absurd hmem hno
  | crashed hpart' =>
    rw [hpart] at hpart'
    cases hpart'
  | stopped hpart' =>
    rw [hpart] at hpart'
    cases hpart'
  | @taken span' vec inp' hpart' hpre hcov hbytes hroom' hmem' hscan =>
    rw [hpart] at hpart'
    cases hpart'
    exact ⟨vec, inp', hpre, hcov, hbytes, hroom', hmem' hmem, hscan⟩

end Part

section Loop

/-- A part's end lies in the body. -/
theorem span_length_lt {b : Bytes} {span : PartSpan}
    (h : (nextPart boundary b).outcome = .ok (some span)) :
    span.length < b.length ∧ span.data + span.start < b.length := by
  obtain ⟨-, hnext, hle, -⟩ := nextPart_some h
  have hend := (ListSearch.search_some_le hnext).resolve_right delimiter_ne_nil
  have := length_delimiter_pos boundary
  rw [List.length_drop] at hend
  unfold PartSpan.length
  omega

/-- In one piece a part's delimiter leads as far behind its data's start as it stood behind the
body's. -/
theorem partScan_single (b : Bytes) : partScan boundary [b]
    = nextPart boundary b >>= fun part =>
      match part with
      | none => pure (-74, 0)
      | some span => emit (span.call b span.start) >>= fun _ =>
        delimiterScan boundary (b.drop span.length) >>= fun ret => pure (ret, span.length) := by
  have hb : [b].flatten = b := by simp
  unfold partScan
  rw [hb]
  refine bind_congr_ok fun part hpart => ?_
  rcases part with _ | span
  · rfl
  obtain ⟨-, hlt⟩ := span_length_lt hpart
  have hlead : Chain.lead [b] span.start span.data = some span.start := by
    rw [Chain.lead, if_pos (by omega), if_pos (by omega)]
  simp only [hlead]

theorem partScan_taken {b : Bytes} {span : PartSpan} {cs : List Call}
    (h : nextPart boundary b = ⟨cs, .ok (some span)⟩) : partScan boundary [b]
      = ⟨cs ++ [span.call b span.start], .ok ⟨⟩⟩ >>= fun _ : PUnit =>
        delimiterScan boundary (b.drop span.length) >>= fun ret => pure (ret, span.length) := by
  rw [partScan_single, h, ← bind_emit cs (some span)]
  rfl

/-- What the scan of a part leaves, where another part is to follow. -/
def FlatLeft (inp : Input E) (r : ℤ × Input E) (r' : ℤ × ℕ) : Prop :=
  r.1 = r'.1 ∧ (r.1 = 1 → r.2.bytes = inp.bytes.drop r'.2 ∧ r'.2 < inp.bytes.length
    ∧ 0 < r.2.numIovec ∧ NoFailures r.2.failures)

theorem seen_of_taken {b : Bytes} {span : PartSpan} {vec : List Bytes}
    (hpre : vec.flatten <+: b.drop (span.data + span.start))
    (hcov : min ((span.next : ℤ) - 2).toNat (b.drop (span.data + span.start)).length
      ≤ vec.flatten.length) :
    (Call.data vec (wrapS 32 (span.next - 2))).seen = (span.call b span.start).seen := by
  have htake := take_prefix_of_covers hpre hcov
  have hwrap : (wrapS 32 (span.next - 2)).toNat ≤ ((span.next : ℤ) - 2).toNat :=
    toNat_wrapS_le (by omega)
  have hseen := congrArg (List.take (wrapS 32 (span.next - 2)).toNat) htake
  rw [List.take_take, List.take_take, Nat.min_eq_left hwrap] at hseen
  show Call.data _ _ = Call.data _ _
  rw [hseen]
  simp [PartSpan.bytesAt, List.take_take]

theorem partScan_flat (inp : Input E) (hroom : 0 < inp.numIovec) (hmem : NoFailures inp.failures) :
    Alike Call.seen (FlatLeft inp) (scanNextFile boundary inp) (partScan boundary [inp.bytes]) := by
  rcases hx : nextPart boundary inp.bytes with ⟨cs, out⟩
  cases scanNextFile_flat boundary inp (.inl hroom) with
  | noMemory h => exact absurd hmem h
  | crashed hpart h =>
    rw [hx] at hpart h
    obtain rfl : out = _ := hpart
    rw [h, partScan_single, hx]
    exact ⟨rfl, .inr ⟨_, rfl, rfl⟩⟩
  | stopped hpart h =>
    rw [hx] at hpart h
    obtain rfl : out = _ := hpart
    rw [h, partScan_single, hx]
    refine ⟨by simp [pure], .inl ⟨_, _, rfl, rfl, rfl, fun h => ?_⟩⟩
    cases h
  | @taken span vec inp' hpart hpre hcov hbytes hroom' hmem' h =>
    have hlt := (span_length_lt hpart).1
    have hseen := seen_of_taken hpre hcov
    rw [hx] at hpart h
    rw [h]
    obtain rfl : out = _ := hpart
    rw [partScan_taken hx]
    refine Alike.bind (R := fun _ _ => True) ⟨by simp [hseen], .inl ⟨_, _, rfl, rfl, trivial⟩⟩
      fun _ _ _ _ _ => ?_
    refine Alike.bind (Alike.refl (R := Eq) (fun _ => rfl) _) fun ret ret' _ _ he => ?_
    subst he
    exact .pure ⟨rfl, fun _ => ⟨hbytes, hlt, hroom', hmem' hmem⟩⟩

section Outcome

variable {b : Bytes} {span : PartSpan} (fuel : ℕ)

theorem left_single {n : ℕ} (h : n < b.length) : Chain.left [b] n = [b.drop n] := by
  rw [Chain.left, if_neg (Nat.not_le.2 h)]

/-- What the loop does behind a part's data. -/
def restScan (boundary : Bytes) (fuel : ℕ) (rest : Bytes) : ParserScript ℤ :=
  if GoesOn boundary rest then bodyScan boundary fuel [rest]
  else if (closing boundary).length ≤ rest.length then pure 0
  else fault .nullPointer

theorem restScan_eq (rest : Bytes) : restScan boundary fuel rest
    = delimiterScan boundary rest >>= fun ret =>
      if ret = 1 then bodyScan boundary fuel [rest] else pure ret := by
  unfold restScan GoesOn delimiterScan
  by_cases hlen : (closing boundary).length ≤ rest.length
  · by_cases hc : rest.take (closing boundary).length = closing boundary
    · simp [hlen, hc]
    · simp [hlen, hc]
  · simp [hlen, fault]

theorem bodyScan_single (b : Bytes) : bodyScan boundary (fuel + 1) [b]
    = nextPart boundary b >>= fun part =>
      match part with
      | none => pure (-74)
      | some span => emit (span.call b span.start) >>= fun _ =>
        restScan boundary fuel (b.drop span.length) := by
  rw [bodyScan, partScan_single, bind_assoc]
  refine bind_congr_ok fun part hpart => ?_
  rcases part with _ | span
  · rfl
  simp only [bind_assoc, pure_bind, left_single (span_length_lt hpart).1]
  exact congrArg _ (funext fun _ => (restScan_eq fuel _).symm)

theorem bodyScan_crashed {e : Fault} (h : (nextPart boundary b).outcome = .error e) :
    (bodyScan boundary (fuel + 1) [b]).outcome = .error e := by
  rw [bodyScan_single]
  exact outcome_bind_eq_error.2 (.inl h)

theorem bodyScan_stopped (h : (nextPart boundary b).outcome = .ok none) :
    (bodyScan boundary (fuel + 1) [b]).outcome = .ok (-74) := by
  rw [bodyScan_single]
  exact outcome_bind_eq_ok.2 ⟨none, h, rfl⟩

/-- Behind a part's data the loop ends in a null pointer, with zero, or goes on. -/
theorem bodyScan_taken (h : (nextPart boundary b).outcome = .ok (some span)) :
    (bodyScan boundary (fuel + 1) [b]).outcome
      = (restScan boundary fuel (b.drop span.length)).outcome := by
  rcases hx : nextPart boundary b with ⟨cs, out⟩
  rw [hx] at h
  obtain rfl : out = _ := h
  rw [bodyScan_single, hx]
  rfl

end Outcome

/-- The loop of `upload` on a buffer is that on its bytes in one piece. -/
theorem scanLoop_flat (boundary : Bytes) : ∀ (fuel : ℕ) (inp : Input E), 0 < inp.numIovec →
    NoFailures inp.failures → Alike Call.seen (fun r ret => r.1 = ret) (scanLoop boundary fuel inp)
      (bodyScan boundary fuel [inp.bytes])
  | 0, _, _, _ => .fault _
  | fuel + 1, inp, hroom, hmem => by
    rw [scanLoop, bodyScan]
    refine (partScan_flat inp hroom hmem).bind ?_
    rintro ⟨ret, inp'⟩ ⟨ret', n⟩ - - ⟨he, hgo⟩
    simp only at he hgo ⊢
    subst he
    split_ifs with hret
    · obtain ⟨hbytes, hlt, hroom', hmem'⟩ := hgo hret
      rw [left_single hlt, ← hbytes]
      exact scanLoop_flat boundary fuel inp' hroom' hmem'
    · exact .pure rfl

/-- Where an allocation fails the loop ends with an error, or it does what it does without. -/
theorem scanLoop_outcome (boundary : Bytes) : ∀ (fuel : ℕ) (inp : Input E), 0 < inp.numIovec →
    (∃ ret inp', (scanLoop boundary fuel inp).outcome = .ok (ret, inp') ∧ ret < 0)
      ∨ (scanLoop boundary fuel inp).outcome.map Prod.fst
        = (bodyScan boundary fuel [inp.bytes]).outcome
  | 0, _, _ => .inr rfl
  | fuel + 1, inp, hroom => by
    rw [scanLoop]
    cases scanNextFile_flat boundary inp (.inl hroom) with
    | @noMemory cs ret inp' hmem hcs hret h =>
      have hne : ret ≠ 1 := by omega
      exact .inl ⟨ret, inp', by rw [h, bind_ok]; simp [hne, pure], hret⟩
    | crashed hpart h => exact .inr (by rw [bodyScan_crashed fuel hpart, h]; rfl)
    | @stopped inp' hpart h => exact .inl ⟨-74, inp', by rw [h]; rfl, by decide⟩
    | @taken span vec inp' hpart hpre hcov hbytes hroom' hmem h =>
      rw [bodyScan_taken fuel hpart, h, ← hbytes]
      unfold restScan GoesOn delimiterScan
      by_cases hlen : (closing boundary).length ≤ inp'.bytes.length
      · by_cases hc : inp'.bytes.take (closing boundary).length = closing boundary
        · exact .inr (by simp [hlen, hc, pure, Except.map])
        · simpa [hlen, hc, pure] using scanLoop_outcome boundary fuel inp' hroom'
      · exact .inr (by simp [hlen, fault, Except.map])

end Loop

end AuraHttpd
