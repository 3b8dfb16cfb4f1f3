import AuraHttpd.Proofs.FlatScan

/-!
# The header lines of encoded parts

Reading the header lines of an encoded part makes their calls and goes on with what follows them
(`headerScan_headers`).  That is a blank line, or an unterminated one where the body was cut, and
tells where the part's data is looked for (`nextPart_lines`).
-/

namespace AuraHttpd

open CString Script

variable {B P rest : Bytes} {p : FormPart}

theorem length_crlf : crlf.length = 2 := by decide

/-- The bytes from a part's data on. -/
def FormPart.dataOn (p : FormPart) (rest : Bytes) : Bytes := p.data ++ (crlf ++ rest)

theorem encode_eq (B : Bytes) (p : FormPart) (rest : Bytes) : p.encode B ++ rest
    = delimiter B ++ (crlf ++ (p.headers.flatMap encodeHeader ++ (crlf ++ p.dataOn rest))) := by
  simp [FormPart.encode, FormPart.dataOn, delimiter]

/-- How many bytes there are before a part's data. -/
def FormPart.headLength (B : Bytes) (p : FormPart) : ℕ :=
  (delimiter B).length + 2 + ((p.headers.flatMap encodeHeader).length + 2)

theorem drop_line (line rest : Bytes) :
    (line ++ (crlf ++ rest)).drop (line.length + 2) = rest := by
  rw [← List.append_assoc]
  exact List.drop_left' (by rw [List.length_append, length_crlf])

theorem drop_dataOn (p : FormPart) (rest : Bytes) :
    (p.dataOn rest).drop (p.data.length + 2) = rest := drop_line p.data rest

theorem length_dataOn (p : FormPart) (rest : Bytes) :
    (p.dataOn rest).length = p.data.length + 2 + rest.length := by
  rw [FormPart.dataOn, List.length_append, List.length_append, length_crlf, Nat.add_assoc]

/-- The length of the data, told by where the next delimiter is. -/
theorem next_sub_two (n : ℕ) : ((n + 2 : ℕ) : ℤ) - 2 = n := by
  omega

theorem search_data (hB : ∀ c ∈ B, HeaderByte c) (hp : p.Readable B)
    (hrest : delimiter B <+: rest) :
    ListSearch.search (delimiter B) (p.dataOn rest) = some (p.data.length + 2) :=
  ListSearch.search_delimited hp.data delimiter_ne_nil (delimiter_notMem hB) (by decide) hrest

section Headers

theorem lineLength_line {line rest : Bytes} (h : (10 : UInt8) ∉ line) :
    lineLength (line ++ (crlf ++ rest)) = line.length + 2 := by
  rw [lineLength, readlnCrlf_line h]
  simp only [Option.map_some, Option.getD_some, List.length_append, length_crlf]
  omega

theorem headerScan_line {line rest : Bytes} (h : (10 : UInt8) ∉ line) (fuel : ℕ) :
    headerScan (fuel + 1) (line ++ (crlf ++ rest)) = scanHeaderLine (some line) >>= fun ret =>
      if ret ≠ 0 then pure (line.length + 2)
      else headerScan fuel rest >>= fun n => pure (line.length + 2 + n) := by
  rw [headerScan, readlnCrlf_line h, lineLength_line h, drop_line]
  rfl

/-- The header lines of a part are handed over one after another. -/
theorem headerScan_headers (hp : p.Readable B) (rest : Bytes) (fuel : ℕ) :
    ∀ hs : List (Bytes × Bytes), hs ⊆ p.headers →
      headerScan (hs.length + fuel) (hs.flatMap encodeHeader ++ rest)
        = (⟨hs.map headerCall, .ok ⟨⟩⟩ : ParserScript PUnit) >>= fun _ =>
          headerScan fuel rest >>= fun n => pure ((hs.flatMap encodeHeader).length + n)
  | [], _ => by
    rcases hx : headerScan fuel rest with ⟨cs, _ | n⟩ <;> simp [hx, pure]
  | h :: hs, hsub => by
    have hh := hp.header h (hsub (by simp))
    have hfuel : (h :: hs).length + fuel = hs.length + fuel + 1 := by
      rw [List.length_cons]
      omega
    have ih := headerScan_headers hp rest fuel hs fun x hx => hsub (by simp [hx])
    rw [hfuel, List.flatMap_cons, List.append_assoc, encodeHeader_append,
      headerScan_line (lf_notMem_headerText hh), scanHeaderLine_header hh, bind_ok, ih]
    have hlen : (encodeHeader h).length = (headerText h).length + 2 := by
      simp [encodeHeader, headerText, crlf_eq]
      omega
    rcases headerScan fuel rest with ⟨cs, _ | n⟩
    · simp
    · simp [pure, hlen, Nat.add_assoc]

/-- The blank line behind the headers. -/
theorem headerScan_blank (rest : Bytes) (fuel : ℕ) :
    headerScan (fuel + 1) (crlf ++ rest) = pure 2 := by
  have hline := List.nil_append (crlf ++ rest)
  rw [← hline, headerScan_line List.not_mem_nil]
  rfl

/-- A line that does not end stops the loop where it begins. -/
theorem headerScan_unterminated {l : Bytes} (h : (10 : UInt8) ∉ l) (fuel : ℕ) :
    headerScan (fuel + 1) l = pure 0 := by
  have hr : readlnCrlf l = none := if_neg h
  rw [headerScan, hr, lineLength_of_none hr]
  rfl

/-- The part found where the loop over the header lines stops behind those of `hs`, `n` bytes into
what follows them. -/
theorem nextPart_lines (hp : p.Readable B) {b t : Bytes} {start n : ℕ} {hs : List (Bytes × Bytes)}
    (hstart : ListSearch.search (delimiter B) b = some start) (hsub : hs ⊆ p.headers)
    (hb : b.drop ((delimiter B).length + start + 2) = hs.flatMap encodeHeader ++ t)
    (ht : ∀ fuel, headerScan (fuel + 1) t = pure n) :
    nextPart B b = ⟨hs.map headerCall, .ok ((ListSearch.search (delimiter B) (t.drop n)).bind
      fun next => if next < start then none else
        some ⟨start, (delimiter B).length + start + 2 + ((hs.flatMap encodeHeader).length + n),
          next⟩)⟩ := by
  have hlen := length_le_flatMap (f := encodeHeader) (l := hs) fun h _ => by
    simp [encodeHeader, crlf_eq]
  obtain ⟨k, hk⟩ : ∃ k, (b.drop ((delimiter B).length + start + 2)).length + 1
      = hs.length + (k + 1) := by
    rw [hb, List.length_append]
    exact ⟨(hs.flatMap encodeHeader).length + t.length - hs.length, by omega⟩
  have hscan : headerScan ((b.drop ((delimiter B).length + start + 2)).length + 1)
      (b.drop ((delimiter B).length + start + 2))
      = ⟨hs.map headerCall, .ok ((hs.flatMap encodeHeader).length + n)⟩ := by
    rw [hk, hb, headerScan_headers hp t (k + 1) hs hsub, ht]
    simp [pure]
  have hdrop : b.drop ((delimiter B).length + start + 2 + ((hs.flatMap encodeHeader).length + n))
      = t.drop n := by
    rw [← List.drop_drop, hb, ← List.drop_drop, List.drop_left' rfl]
  unfold nextPart
  rw [hstart]
  simp only [hscan, bind_ok, hdrop]
  rcases ListSearch.search (delimiter B) (t.drop n) with _ | next
  · simp [pure]
  · simp [pure]

theorem drop_head (B P rest : Bytes) (p : FormPart) :
    (P ++ (p.encode B ++ rest)).drop (P.length + p.headLength B) = p.dataOn rest := by
  rw [List.drop_length_add_append, encode_eq]
  simp only [← List.append_assoc]
  refine List.drop_left' ?_
  simp only [List.length_append, length_crlf, FormPart.headLength]
  omega

/-- The first part of a body, with the bytes of `P` before it. -/
theorem nextPart_part (hB : ∀ c ∈ B, HeaderByte c) (hp : p.Readable B)
    (hrest : delimiter B <+: rest)
    (hP : ListSearch.search (delimiter B) (P ++ (p.encode B ++ rest)) = some P.length) :
    nextPart B (P ++ (p.encode B ++ rest)) = ⟨p.headers.map headerCall,
      .ok (if p.data.length + 2 < P.length then none
        else some ⟨P.length, P.length + p.headLength B, p.data.length + 2⟩)⟩ := by
  have hb : (P ++ (p.encode B ++ rest)).drop ((delimiter B).length + P.length + 2)
      = p.headers.flatMap encodeHeader ++ (crlf ++ p.dataOn rest) := by
    rw [show (delimiter B).length + P.length + 2 = P.length + ((delimiter B).length + 2) by omega,
      List.drop_length_add_append, encode_eq, ← List.append_assoc]
    exact List.drop_left' (by rw [List.length_append, length_crlf])
  rw [nextPart_lines hp hP (List.Subset.refl _) hb (headerScan_blank _),
    List.drop_left' length_crlf, search_data hB hp hrest]
  have hhead : (delimiter B).length + P.length + 2 + ((p.headers.flatMap encodeHeader).length + 2)
      = P.length + p.headLength B := by
    unfold FormPart.headLength
    omega
  rw [Option.bind_some, hhead]

theorem drop_encode (B rest : Bytes) (p : FormPart) :
    (p.encode B ++ rest).drop (p.headLength B) = p.dataOn rest := by
  have h := drop_head B [] rest p
  rwa [List.nil_append, List.length_nil, Nat.zero_add] at h

theorem search_start (B more : Bytes) :
    ListSearch.search (delimiter B) (delimiter B ++ more) = some 0 :=
  ListSearch.search_of_prefix (List.prefix_append _ _)

theorem nextPart_encode (hB : ∀ c ∈ B, HeaderByte c) (hp : p.Readable B)
    (hrest : delimiter B <+: rest) : nextPart B (p.encode B ++ rest)
      = ⟨p.headers.map headerCall, .ok (some ⟨0, p.headLength B, p.data.length + 2⟩)⟩ := by
  have hstart : ListSearch.search (delimiter B) ([] ++ (p.encode B ++ rest))
      = some ([] : Bytes).length := by
    rw [List.nil_append, encode_eq, search_start]
    rfl
  have hpart := nextPart_part hB hp hrest hstart
  rw [List.nil_append, List.length_nil, if_neg (Nat.not_lt_zero _), Nat.zero_add] at hpart
  exact hpart

end Headers

section Fuel

/-- With enough fuel the loop does not depend on it. -/
theorem bodyScan_fuel : ∀ {fuel fuel' : ℕ} {b : Bytes}, b.length < fuel → b.length < fuel' →
    bodyScan B fuel [b] = bodyScan B fuel' [b]
  | 0, _, _, h, _ => absurd h (Nat.not_lt_zero _)
  | _ + 1, 0, _, _, h => absurd h (Nat.not_lt_zero _)
  | fuel + 1, fuel' + 1, b, h, h' => by
    rw [bodyScan_single, bodyScan_single]
    refine bind_congr_ok fun part hpart => ?_
    rcases part with _ | span
    · rfl
    obtain ⟨-, -, -, hdata⟩ := nextPart_some hpart
    obtain ⟨hlt, -⟩ := span_length_lt hpart
    have hpos : 0 < span.length := by
      rw [length_closing] at hdata
      unfold PartSpan.length
      omega
    have hrest : (b.drop span.length).length < b.length := by
      rw [List.length_drop]
      omega
    have hscan : bodyScan B fuel [b.drop span.length] = bodyScan B fuel' [b.drop span.length] :=
      bodyScan_fuel (by omega) (by omega)
    simp only [restScan, hscan]

theorem restScan_fuel {fuel fuel' : ℕ} {rest : Bytes} (h : rest.length < fuel)
    (h' : rest.length < fuel') : restScan B fuel rest = restScan B fuel' rest := by
  unfold restScan
  rw [bodyScan_fuel h h']

end Fuel

end AuraHttpd
