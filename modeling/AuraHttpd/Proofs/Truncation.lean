import AuraHttpd.Proofs.EncodedScan

/-!
# Bodies cut short

A cut inside a part's data, or inside a delimiter, leaves no delimiter to be found.  Directly
behind a delimiter, or a byte behind it, the look at what follows finds too little.  In the lines
of a part's headers the parser takes what is left for the part's data, and goes from one delimiter
in it to the next.  All of these are told by the unterminated line the cut leaves
(`truncation_iff`).
-/

namespace AuraHttpd

open CString Script

variable {B tail : Bytes} {p : FormPart}

section Lines

theorem lastLine_of_notMem {l : Bytes} (h : (10 : UInt8) ∉ l) : lastLine l = l :=
  List.rtakeWhile_eq_self_iff.2 fun _ hc => decide_eq_true fun he => h (he ▸ hc)

theorem infix_lastLine (l : Bytes) : lastLine l <:+: l :=
  List.IsSuffix.isInfix (List.rtakeWhile_suffix _ l)

theorem lastLine_lf (pre l : Bytes) : lastLine (pre ++ 10 :: l) = lastLine l := by
  unfold lastLine List.rtakeWhile
  rw [List.reverse_append, List.reverse_cons, List.append_assoc, List.takeWhile_append]
  split_ifs with h
  · rw [List.cons_append, List.nil_append, List.takeWhile_cons_of_neg (by simp), List.append_nil]
    have hall := List.takeWhile_eq_self_iff.1 (List.Sublist.eq_of_length
      (List.takeWhile_sublist _) h)
    rw [List.takeWhile_eq_self_iff.2 hall]
  · rfl

theorem lastLine_line (pre l : Bytes) : lastLine (pre ++ (crlf ++ l)) = lastLine l := by
  have heq : pre ++ (crlf ++ l) = (pre ++ [13]) ++ 10 :: l := by simp [crlf_eq]
  rw [heq, lastLine_lf]

theorem lastLine_headers (l : Bytes) : ∀ hs : List (Bytes × Bytes),
    lastLine (hs.flatMap encodeHeader ++ l) = lastLine l
  | [] => rfl
  | h :: hs => by
    rw [List.flatMap_cons, List.append_assoc, encodeHeader_append, lastLine_line,
      lastLine_headers l hs]

/-- A text that is cut is cut in its first part or behind it. -/
theorem prefix_append_cases {l a b : Bytes} (h : l <+: a ++ b) :
    l <+: a ∨ ∃ l', l = a ++ l' ∧ l' <+: b := by
  rcases List.prefix_or_prefix_of_prefix h (List.prefix_append a b) with h' | ⟨l', rfl⟩
  · exact .inl h'
  · exact .inr ⟨l', rfl, (List.prefix_append_right_inj _).1 h⟩

theorem prefix_line_cases {l line after : Bytes} (hline : (10 : UInt8) ∉ line)
    (h : l <+: line ++ (crlf ++ after)) :
    (10 : UInt8) ∉ l ∨ ∃ l', l = line ++ (crlf ++ l') ∧ l' <+: after := by
  have heq : ∀ r : Bytes, line ++ (crlf ++ r) = (line ++ [13]) ++ ([10] ++ r) := fun r => by
    simp [crlf_eq]
  have hnot : (10 : UInt8) ∉ line ++ [13] := by simp [hline]
  rw [heq] at h
  rcases prefix_append_cases h with h₁ | ⟨l', rfl, h₁⟩
  · exact .inl fun hm => hnot (h₁.subset hm)
  rcases prefix_append_cases h₁ with h₂ | ⟨l'', rfl, h₂⟩
  · rcases List.prefix_concat_iff.1 (show l' <+: [] ++ [10] from h₂) with rfl | h₃
    · exact .inr ⟨[], (heq []).symm, List.nil_prefix⟩
    · rw [List.prefix_nil.1 h₃, List.append_nil]
      exact .inl hnot
  · exact .inr ⟨l'', (heq l'').symm, h₂⟩

/-- Where the header lines of a part are cut: in an unterminated line, or behind all of them. -/
theorem prefix_headers_cases (hp : p.Valid B) {after : Bytes} : ∀ {hs : List (Bytes × Bytes)}
    {l : Bytes}, hs ⊆ p.headers → l <+: hs.flatMap encodeHeader ++ (crlf ++ after) →
      (∃ hs' l', hs' ⊆ p.headers ∧ l = hs'.flatMap encodeHeader ++ l' ∧ (10 : UInt8) ∉ l')
        ∨ ∃ l', l = hs.flatMap encodeHeader ++ (crlf ++ l') ∧ l' <+: after
  | [], l, _, h => by
    rcases prefix_line_cases List.not_mem_nil (List.nil_append _ ▸ h) with h | h
    · exact .inl ⟨[], l, List.nil_subset _, rfl, h⟩
    · exact .inr h
  | x :: hs, l, hsub, h => by
    have hx : x ∈ p.headers := hsub (by simp)
    rw [List.flatMap_cons, List.append_assoc, encodeHeader_append] at h
    have hline := lf_notMem_headerText (hp.readable.header x hx)
    rcases prefix_line_cases hline h with h₁ | ⟨l', rfl, h₁⟩
    · exact .inl ⟨[], l, List.nil_subset _, rfl, h₁⟩
    rcases prefix_headers_cases hp (List.cons_subset.1 hsub).2 h₁ with
      ⟨hs', l'', hsub', rfl, hl⟩ | ⟨l'', rfl, h₂⟩
    · refine .inl ⟨x :: hs', l'', List.cons_subset.2 ⟨hx, hsub'⟩, ?_, hl⟩
      rw [List.flatMap_cons, List.append_assoc, encodeHeader_append]
    · refine .inr ⟨l'', ?_, h₂⟩
      rw [List.flatMap_cons, List.append_assoc, encodeHeader_append]

end Lines

section Settled

variable {l : Bytes}

theorem settled_some {k : ℕ} (h : ListSearch.search (delimiter B) l = some k) :
    Settled B l ↔ GoesOn B (l.drop k)
      ∧ Settled B ((l.drop k).drop ((delimiter B).length + 2)) := by
  constructor
  · rintro (h' | ⟨h', hgo, hrest⟩)
    · cases h.symm.trans h'
    · cases h.symm.trans h'
      exact ⟨hgo, hrest⟩
  · exact fun h' => .next h h'.1 h'.2

theorem settled_of_not_infix (h : ¬ delimiter B <:+: l) : Settled B l :=
  .done (ListSearch.search_eq_none_iff.2 h)

/-- Behind a delimiter the cut came too early. -/
theorem not_settled_delimiter (h : delimiter B <+: l) (hlen : l.length < (delimiter B).length + 2) :
    ¬ Settled B l := by
  have hzero := ListSearch.search_of_prefix h
  rw [settled_some hzero, List.drop_zero]
  rintro ⟨⟨hle, -⟩, -⟩
  rw [length_closing] at hle
  omega

end Settled

section Scan

/-- The scan ends with an error of the parser. -/
def EndsInError (o : Except Fault ℤ) : Prop := ∃ ret, o = .ok ret ∧ ret < 0

theorem endsInError_stopped {b : Bytes} (h : (nextPart B b).outcome = .ok none) (fuel : ℕ) :
    EndsInError (bodyScan B (fuel + 1) [b]).outcome := ⟨-74, bodyScan_stopped fuel h, by decide⟩

theorem restScan_goesOn {rest : Bytes} (h : GoesOn B rest) (fuel : ℕ) :
    restScan B fuel rest = bodyScan B fuel [rest] := if_pos h

theorem restScan_not_goesOn {rest : Bytes} (h : ¬ GoesOn B rest) (fuel : ℕ) :
    ¬ EndsInError (restScan B fuel rest).outcome := by
  unfold restScan
  rw [if_neg h]
  rintro ⟨ret, hret, hneg⟩
  split_ifs at hret
  · cases hret
    exact absurd hneg (by decide)
  · cases hret

theorem bare_valid (B : Bytes) : ({ headers := [], data := [] } : FormPart).Valid B :=
  ⟨by simp, by simp, by simp [lit]⟩

/-- In an unterminated line the scan goes from one delimiter to the next. -/
theorem unterminated_iff : ∀ (fuel : ℕ) {p : FormPart} {b l : Bytes} {hs : List (Bytes × Bytes)},
    p.Valid B → b.length < fuel → ListSearch.search (delimiter B) b = some 0 → hs ⊆ p.headers →
      b.drop ((delimiter B).length + 2) = hs.flatMap encodeHeader ++ l → (10 : UInt8) ∉ l →
      (EndsInError (bodyScan B fuel [b]).outcome ↔ Settled B l)
  | 0, _, _, _, _, _, hf, _, _, _, _ => absurd hf (Nat.not_lt_zero _)
  | fuel + 1, p, b, l, hs, hp, hf, hstart, hsub, hb, hl => by
    have hpart := nextPart_lines hp.readable hstart hsub hb (headerScan_unterminated hl)
    simp only [List.drop_zero, Nat.add_zero] at hpart
    rcases hs' : ListSearch.search (delimiter B) l with _ | k
    · rw [hs'] at hpart
      exact ⟨fun _ => .done hs', fun _ => endsInError_stopped (by rw [hpart]; rfl) fuel⟩
    rw [hs', Option.bind_some, if_neg (Nat.not_lt_zero _)] at hpart
    have hrest : b.drop ((delimiter B).length + 2 + (hs.flatMap encodeHeader).length + k)
        = l.drop k := by
      rw [← List.drop_drop, ← List.drop_drop, hb, List.drop_left' rfl]
    rw [bodyScan_taken fuel (by rw [hpart]), settled_some hs']
    simp only [PartSpan.length, hrest]
    by_cases hgo : GoesOn B (l.drop k)
    · have hfuel : (l.drop k).length < fuel := by
        rw [← hrest, List.length_drop]
        have := hgo.1
        rw [← hrest, List.length_drop, length_closing] at this
        omega
      have hzero := ListSearch.search_of_prefix <| ListSearch.prefix_of_search hs'
      rw [restScan_goesOn hgo, unterminated_iff fuel (bare_valid B) hfuel
        hzero (List.nil_subset _) (List.nil_append _).symm
        fun h => hl ((List.drop_sublist _ _).subset ((List.drop_sublist _ _).subset h))]
      exact ⟨fun h => ⟨hgo, h⟩, And.right⟩
    · exact ⟨fun h => absurd h (restScan_not_goesOn hgo fuel), fun h => absurd h.1 hgo⟩

/-- A cut before the end of the first delimiter's line. -/
theorem cut_delimiter {b : Bytes} (hlen : b.length ≤ (delimiter B).length + 2) (fuel : ℕ) :
    EndsInError (bodyScan B (fuel + 1) [b]).outcome
      ∧ Settled B (lastLine (b.drop ((delimiter B).length + 2))) := by
  have hnil : b.drop ((delimiter B).length + 2) = [] := List.drop_eq_nil_of_le hlen
  have hnone : ListSearch.search (delimiter B) [] = none := by
    rw [ListSearch.search_eq_none_iff, List.infix_nil]
    exact delimiter_ne_nil
  refine ⟨?_, ?_⟩
  · rcases hs : ListSearch.search (delimiter B) b with _ | start
    · refine endsInError_stopped ?_ fuel
      unfold nextPart
      rw [hs]
      rfl
    · have hb : b.drop ((delimiter B).length + start + 2)
          = List.flatMap encodeHeader [] ++ [] := List.drop_eq_nil_of_le (by omega)
      have hpart := nextPart_lines (bare_valid B).readable hs (List.nil_subset _) hb
        (headerScan_unterminated List.not_mem_nil)
      rw [List.drop_zero, hnone] at hpart
      exact endsInError_stopped (by rw [hpart]; rfl) fuel
  · rw [hnil]
    exact .done hnone

/-- The data of a part is cut before the delimiter behind it is complete, or behind that. -/
theorem prefix_data_cases (hB : ∀ c ∈ B, HeaderByte c) (hp : p.Valid B) {l more : Bytes}
    (h : l <+: p.dataOn (delimiter B ++ more)) :
    ¬ delimiter B <:+: l ∨ ∃ l', l = p.dataOn (delimiter B ++ l') ∧ l' <+: more := by
  have heq : ∀ r : Bytes, p.dataOn (delimiter B ++ r) = (p.data ++ (crlf ++ delimiter B)) ++ r :=
    fun r => by simp [FormPart.dataOn]
  rw [heq] at h
  rcases prefix_append_cases h with ⟨_ | ⟨c, cut⟩, hcut⟩ | ⟨l', rfl, h'⟩
  · rw [List.append_nil] at hcut
    exact .inr ⟨[], by rw [heq, List.append_nil, hcut], List.nil_prefix⟩
  · left
    intro hfound
    -- Without its last byte the delimiter is not found.
    have hl : l <+: p.data ++ (crlf ++ (delimiter B).dropLast) := by
      have hlast : p.data ++ (crlf ++ (delimiter B).dropLast)
          <+: p.data ++ (crlf ++ delimiter B) := by
        rw [List.prefix_append_right_inj, List.prefix_append_right_inj]
        exact List.dropLast_prefix _
      refine List.prefix_of_prefix_length_le ⟨c :: cut, hcut⟩ hlast ?_
      have := congrArg List.length hcut
      simp only [List.length_append, List.length_cons, List.length_dropLast] at this ⊢
      omega
    have hdata : ¬ delimiter B <:+: p.data := hp.data
    have hnone : ListSearch.search (delimiter B) (p.data ++ (crlf ++ (delimiter B).dropLast))
        = none := by
      rw [ListSearch.search_past hdata delimiter_ne_nil (delimiter_notMem hB) (by decide),
        Option.map_eq_none_iff, ListSearch.search_eq_none_iff]
      intro h
      have hle := h.length_le
      have hpos := length_delimiter_pos B
      rw [List.length_dropLast] at hle
      omega
    exact ListSearch.search_eq_none_iff.1 hnone (hfound.trans hl.isInfix)
  · exact .inr ⟨l', (heq l').symm, h'⟩

/-- What stands behind a delimiter is cut in its first two bytes or behind them. -/
theorem prefix_two_cases {a b : UInt8} (ha : a ≠ 10) {y z : Bytes} (h : y <+: a :: b :: z) :
    ((10 : UInt8) ∉ y ∧ y.length < 2) ∨ ∃ y', y = a :: b :: y' := by
  rcases y with _ | ⟨c, _ | ⟨d, y⟩⟩
  · exact .inl ⟨List.not_mem_nil, Nat.zero_lt_two⟩
  · obtain ⟨rfl, -⟩ := List.cons_prefix_cons.1 h
    exact .inl ⟨by simpa using ha.symm, Nat.one_lt_two⟩
  · obtain ⟨rfl, h'⟩ := List.cons_prefix_cons.1 h
    obtain ⟨rfl, -⟩ := List.cons_prefix_cons.1 h'
    exact .inr ⟨y, rfl⟩

theorem length_encodeBody_nil (B : Bytes) :
    (encodeBody B [] []).length = (delimiter B).length + 2 := by
  have hend : encodeBody B [] [] = closing B := by simp [encodeBody, closing, delimiter]
  rw [hend, length_closing]

/-- The two bytes behind a delimiter of a body. -/
theorem encodeBody_behind (B : Bytes) (ps : List FormPart) (tail : Bytes) :
    ∃ a b more, encodeBody B ps tail = delimiter B ++ a :: b :: more ∧ a ≠ 10
      ∧ (ps = [] ∨ [a, b] = crlf) := by
  rcases ps with _ | ⟨p, ps⟩
  · exact ⟨45, 45, tail, by simp [encodeBody, delimiter, lit], by decide, .inl rfl⟩
  · refine ⟨13, 10, p.headers.flatMap encodeHeader ++ (crlf ++ p.dataOn (encodeBody B ps tail)),
      ?_, by decide, .inr crlf_eq.symm⟩
    rw [encodeBody_cons, encode_eq]
    rfl

/-- A cut in the two bytes behind a part's delimiter. -/
theorem cut_behind (hB : ∀ c ∈ B, HeaderByte c) {y : Bytes} (hy : (10 : UInt8) ∉ y)
    (hlen : y.length < 2) (fuel : ℕ) : EndsInError (restScan B fuel (delimiter B ++ y)).outcome
      ↔ Settled B (lastLine (delimiter B ++ y)) := by
  have hnot : (10 : UInt8) ∉ delimiter B ++ y := fun h => (List.mem_append.1 h).elim
    (delimiter_notMem hB 10 (by decide)) hy
  have hshort : (delimiter B ++ y).length < (delimiter B).length + 2 := by
    rw [List.length_append]
    omega
  have hgo : ¬ GoesOn B (delimiter B ++ y) := fun h => by
    have := h.1
    rw [length_closing] at this
    omega
  rw [lastLine_of_notMem hnot]
  exact ⟨fun h => absurd h (restScan_not_goesOn hgo fuel),
    fun h => absurd h (not_settled_delimiter (List.prefix_append _ _) hshort)⟩

/-- Where a part is cut that another delimiter stands behind: in its first delimiter's line, in an
unterminated line of its headers, before the end of the delimiter behind its data, or behind it. -/
theorem prefix_encode_cases (hB : ∀ c ∈ B, HeaderByte c) (hp : p.Valid B) {b more : Bytes}
    (h : b <+: p.encode B ++ (delimiter B ++ more)) :
    b.length ≤ (delimiter B).length + 2
      ∨ (∃ hs l, hs ⊆ p.headers ∧ (10 : UInt8) ∉ l
          ∧ b = delimiter B ++ (crlf ++ (hs.flatMap encodeHeader ++ l)))
      ∨ (∃ t, ¬ delimiter B <:+: t
          ∧ b = delimiter B ++ (crlf ++ (p.headers.flatMap encodeHeader ++ (crlf ++ t))))
      ∨ ∃ y, b = p.encode B ++ (delimiter B ++ y) ∧ y <+: more := by
  rw [encode_eq, ← List.append_assoc] at h
  rcases prefix_append_cases h with h₁ | ⟨s, rfl, h₁⟩
  · have hle := h₁.length_le
    rw [List.length_append, length_crlf] at hle
    exact .inl hle
  rw [List.append_assoc]
  rcases prefix_headers_cases hp (List.Subset.refl _) h₁ with ⟨hs, l, hsub, rfl, hl⟩ | ⟨t, rfl, ht⟩
  · exact .inr (.inl ⟨hs, l, hsub, hl, rfl⟩)
  rcases prefix_data_cases hB hp ht with hno | ⟨y, rfl, hy⟩
  · exact .inr (.inr (.inl ⟨t, hno, rfl⟩))
  · exact .inr (.inr (.inr ⟨y, (encode_eq B p _).symm, hy⟩))

/-- A cut in an unterminated line of the headers. -/
theorem cut_headers (hp : p.Valid B) {hs : List (Bytes × Bytes)} (hsub : hs ⊆ p.headers)
    {l b : Bytes} (hl : (10 : UInt8) ∉ l)
    (hb : b = delimiter B ++ (crlf ++ (hs.flatMap encodeHeader ++ l))) {fuel : ℕ}
    (hf : b.length < fuel) : EndsInError (bodyScan B fuel [b]).outcome
      ↔ Settled B (lastLine (b.drop ((delimiter B).length + 2))) := by
  have hdrop : b.drop ((delimiter B).length + 2) = hs.flatMap encodeHeader ++ l := by
    rw [hb, drop_line]
  have hstart : ListSearch.search (delimiter B) b = some 0 := by
    rw [hb, search_start]
  rw [hdrop, lastLine_headers, lastLine_of_notMem hl]
  exact unterminated_iff fuel hp hf hstart hsub hdrop hl

/-- A cut behind the headers, where no delimiter is found. -/
theorem cut_data (hp : p.Valid B) {t b : Bytes} (ht : ¬ delimiter B <:+: t)
    (hb : b = delimiter B ++ (crlf ++ (p.headers.flatMap encodeHeader ++ (crlf ++ t))))
    (fuel : ℕ) : EndsInError (bodyScan B (fuel + 1) [b]).outcome
      ∧ Settled B (lastLine (b.drop ((delimiter B).length + 2))) := by
  have hdrop : b.drop ((delimiter B).length + 2)
      = p.headers.flatMap encodeHeader ++ (crlf ++ t) := by
    rw [hb, drop_line]
  have hstart : ListSearch.search (delimiter B) b = some 0 := by
    rw [hb, search_start]
  have hpart := nextPart_lines hp.readable hstart (List.Subset.refl _) hdrop (headerScan_blank t)
  rw [List.drop_left' length_crlf, ListSearch.search_eq_none_iff.2 ht] at hpart
  rw [hdrop, lastLine_line]
  exact ⟨endsInError_stopped (by rw [hpart]; rfl) fuel,
    settled_of_not_infix fun h => ht (h.trans (infix_lastLine t))⟩

/-- A part that is left whole does not matter. -/
theorem cut_part (hB : ∀ c ∈ B, HeaderByte c) (hp : p.Valid B) {rest : Bytes}
    (hrest : delimiter B <+: rest) (fuel : ℕ) :
    (EndsInError (bodyScan B (fuel + 1) [p.encode B ++ rest]).outcome
        ↔ EndsInError (restScan B fuel rest).outcome)
      ∧ lastLine ((p.encode B ++ rest).drop ((delimiter B).length + 2)) = lastLine rest := by
  refine ⟨?_, ?_⟩
  · rw [bodyScan_taken fuel (by rw [nextPart_encode hB hp.readable hrest])]
    simp only [PartSpan.length]
    rw [← List.drop_drop, drop_encode, drop_dataOn]
  · rw [encode_eq, drop_line, lastLine_line, FormPart.dataOn, lastLine_line]

/-- The unterminated line of a cut body tells how the scan of the body ends. -/
theorem cut_iff (hB : ∀ c ∈ B, HeaderByte c) : ∀ (parts : List FormPart) (fuel : ℕ) {b : Bytes},
    (∀ p ∈ parts, p.Valid B) → b <+: encodeBody B parts tail →
      b.length < (encodeBody B parts []).length → b.length < fuel →
      (EndsInError (bodyScan B fuel [b]).outcome
        ↔ Settled B (lastLine (b.drop ((delimiter B).length + 2))))
  | _, 0, _, _, _, _, hf => absurd hf (Nat.not_lt_zero _)
  | [], fuel + 1, b, _, _, hlen, _ => by
    rw [length_encodeBody_nil] at hlen
    have h := cut_delimiter (Nat.le_of_lt hlen) fuel
    exact ⟨fun _ => h.2, fun _ => h.1⟩
  | p :: ps, fuel + 1, b, hv, hb, hlen, hf => by
    have hp := hv p (by simp)
    obtain ⟨c, d, more, hmore, hc, hlast⟩ := encodeBody_behind B ps tail
    rw [encodeBody_cons, hmore] at hb
    rcases prefix_encode_cases hB hp hb with
      hshort | ⟨hs, l, hsub, hl, rfl⟩ | ⟨t, ht, rfl⟩ | ⟨y, rfl, hy⟩
    · have h := cut_delimiter hshort fuel
      exact ⟨fun _ => h.2, fun _ => h.1⟩
    · exact cut_headers hp hsub hl rfl hf
    · have h := cut_data hp ht rfl fuel
      exact ⟨fun _ => h.2, fun _ => h.1⟩
    obtain ⟨hscan, hline⟩ := cut_part hB hp (List.prefix_append (delimiter B) y) fuel
    rw [hscan, hline]
    rcases prefix_two_cases hc hy with ⟨hlf, hshort⟩ | ⟨y, rfl⟩
    · exact cut_behind hB hlf hshort fuel
    have hlen' : (delimiter B ++ c :: d :: y).length < (encodeBody B ps []).length
        ∧ (delimiter B ++ c :: d :: y).length < fuel := by
      have hpos : 0 < (p.encode B).length := by simp [FormPart.encode, crlf_eq]
      rw [encodeBody_cons] at hlen
      simp only [List.length_append] at hlen hf ⊢
      omega
    rcases hlast with rfl | hcrlf
    · -- Behind the last delimiter nothing is left to cut.
      have := hlen'.1
      rw [length_encodeBody_nil, List.length_append, List.length_cons, List.length_cons] at this
      omega
    have hy' : c :: d :: y = crlf ++ y := by
      rw [← hcrlf]
      rfl
    have hgo : GoesOn B (delimiter B ++ c :: d :: y) := by
      refine ⟨by simp [length_closing], fun h => ?_⟩
      rw [closing, take_delimiter, hy', List.take_left' length_crlf] at h
      exact absurd h (by decide)
    have ih := cut_iff hB ps fuel (fun q hq => hv q (by simp [hq]))
      (hmore ▸ (List.prefix_append_right_inj _).2 hy) hlen'.1 hlen'.2
    rw [restScan_goesOn hgo, ih, hy', lastLine_line, drop_line]

end Scan

section Loop

variable {E I : Type} [Evbuffer E I] [FlatEvbuffer E I]

theorem replay_returns {σ : Type} {m : UploadfsModule σ} (hm : m.Returns) :
    ∀ (cs : List Call) (fsd : Upfs σ), ∃ fsd', m.replay fsd cs = .ok fsd'
  | [], fsd => ⟨fsd, rfl⟩
  | c :: cs, fsd => by
    obtain ⟨fsd₁, h₁⟩ := hm fsd c
    obtain ⟨fsd', h⟩ := replay_returns hm cs fsd₁
    cases hf : fsd₁.uploadError with
    | true => exact ⟨fsd₁, by simp [UploadfsModule.replay, replay_cons, h₁, Except.bind, hf]⟩
    | false => exact ⟨fsd', (replay_call h₁ hf cs).trans h⟩

/-- A module without callbacks is handed the scan as it is. -/
theorem play_idle {σ α : Type} {fsd : Upfs σ} (h : fsd.uploadError = false)
    (x : ParserScript α) :
    ({} : UploadfsModule σ).play fsd x = x.outcome.map fun a => (fsd, some a) := by
  have hreplay := replay_idle h x.calls
  unfold UploadfsModule.replay at hreplay
  unfold UploadfsModule.play play
  rw [hreplay, Except.ok_bind, h]
  rfl

/-- Also where an allocation fails. -/
theorem scanLoop_endsInError {inp : Input E} {fuel : ℕ} (hroom : 0 < inp.numIovec)
    (h : EndsInError (bodyScan B fuel [inp.bytes]).outcome) :
    ∃ ret inp', (scanLoop B fuel inp).outcome = .ok (ret, inp') ∧ ret < 0 := by
  rcases scanLoop_outcome B fuel inp hroom with hscan | hscan
  · exact hscan
  obtain ⟨ret, hret, hneg⟩ := h
  rw [hret] at hscan
  rcases hx : (scanLoop B fuel inp).outcome with e | ⟨ret', inp'⟩ <;> rw [hx] at hscan
  · cases hscan
  · obtain rfl : ret' = ret := Except.ok.inj hscan
    exact ⟨ret', inp', rfl, hneg⟩

omit [FlatEvbuffer E I] in
/-- Whichever call a module that returns signals an error in. -/
theorem uploadLoop_endsInError {σ : Type} {m : UploadfsModule σ} (hm : m.Returns) {fsd : Upfs σ}
    (hf : fsd.uploadError = false) {inp : Input E} {fuel : ℕ}
    (h : ∃ ret inp', (scanLoop B fuel inp).outcome = .ok (ret, inp') ∧ ret < 0) :
    ∃ ret fsd' inp', uploadLoop m B fuel fsd inp = .ok (ret, fsd', inp') ∧ ret < 0 := by
  obtain ⟨ret, inp', hscan, hneg⟩ := h
  obtain ⟨fsd', hreplay⟩ := replay_returns hm (scanLoop B fuel inp).calls fsd
  cases hf' : fsd'.uploadError with
  | false =>
    exact ⟨ret, fsd', inp', uploadLoop_of_play hf (play_of_replay_ok hscan hreplay hf'), hneg⟩
  | true =>
    have hplay := uploadLoop_play (m := m) B fuel inp hf
    unfold UploadfsModule.replay at hreplay
    unfold UploadfsModule.play play at hplay
    rw [hreplay, Except.ok_bind, hf'] at hplay
    rcases hl : uploadLoop m B fuel fsd inp with e | ⟨r, fsd₁, inp₁⟩ <;> rw [hl] at hplay
    · cases hplay
    · obtain rfl : fsd₁ = fsd' := congrArg Prod.fst (Except.ok.inj hplay)
      exact ⟨r, fsd₁, inp₁, rfl, by rw [uploadLoop_error B fuel hf hl hf']; decide⟩

/-- The loop fails cleanly on a buffer where the scan of its bytes ends with an error. -/
theorem failsCleanly_iff (body : E) : FailsCleanly B body
    ↔ EndsInError (bodyScan B ((FlatEvbuffer.bytes body).length + 1)
      [FlatEvbuffer.bytes body]).outcome := by
  unfold FailsCleanly
  rw [FlatEvbuffer.length_eq]
  constructor
  · intro h
    have hreturns : ({} : UploadfsModule Unit).Returns := fun fsd c => ⟨fsd, by cases c <;> rfl⟩
    have hf : ({ modData := () } : Upfs Unit).uploadError = false := rfl
    obtain ⟨ret, fsd', inp', hl, hneg⟩ := h Unit {} hreturns _ hf { evb := body } rfl
      (Nat.zero_lt_succ _)
    have hplay := uploadLoop_play (m := {}) B ((FlatEvbuffer.bytes body).length + 1)
      { evb := body } hf
    have halike := scanLoop_flat B ((FlatEvbuffer.bytes body).length + 1)
      { evb := body } (Nat.zero_lt_succ _) (List.forall_mem_nil _)
    rw [hl, play_idle hf] at hplay
    obtain ⟨-, ⟨r, ret', hscan, hbody, rfl⟩ | ⟨e, hscan, -⟩⟩ := halike <;> rw [hscan] at hplay
    · simp only [Except.map, unlessError, Except.ok.injEq, Prod.mk.injEq] at hplay
      obtain ⟨-, hplay⟩ := hplay
      split_ifs at hplay
      rw [← Option.some.inj hplay] at hbody
      exact ⟨ret, hbody, hneg⟩
    · cases hplay
  · rintro h σ m hm fsd hf inp rfl hroom
    exact uploadLoop_endsInError hm hf (scanLoop_endsInError hroom h)

/-- A body that is cut before its end fails cleanly exactly where the unterminated line behind the
first delimiter's is settled. -/
theorem truncation_iff {parts : List FormPart} {n : ℕ} {body : E} (hB : ∀ c ∈ B, HeaderByte c)
    (hv : ∀ p ∈ parts, p.Valid B) (hn : n < (encodeBody B parts []).length)
    (hb : FlatEvbuffer.bytes body = (encodeBody B parts tail).take n) :
    FailsCleanly B body
      ↔ Settled B (lastLine ((FlatEvbuffer.bytes body).drop ((delimiter B).length + 2))) := by
  rw [failsCleanly_iff]
  refine cut_iff hB parts _ hv (hb ▸ List.take_prefix n _) ?_ (Nat.lt_succ_self _)
  · rw [hb, List.length_take]
    omega

/-- A cut in the middle of the data. -/
theorem truncation_iff_data : FailsCleanly (lit "B") (lit "--B\r\nk: v\r\n\r\nab") := by
  have hv : ∀ p ∈ [({ headers := [(lit "k", lit "v")], data := lit "abc" } : FormPart)],
      p.Valid (lit "B") := by
    intro p hp
    rw [List.mem_singleton.1 hp]
    exact ⟨by decide +kernel, by decide +kernel, by decide +kernel⟩
  have hb : FlatEvbuffer.bytes (lit "--B\r\nk: v\r\n\r\nab") = (encodeBody (lit "B")
      [({ headers := [(lit "k", lit "v")], data := lit "abc" } : FormPart)] []).take 15 := by
    decide +kernel
  refine (truncation_iff (by decide +kernel) hv (by decide +kernel) hb).2 (.done ?_)
  decide +kernel

/-- A cut behind the closing delimiter, before its two dashes. -/
theorem cut_delimiter_crashes : ¬ ∀ (parts : List FormPart) (n : ℕ),
    (∀ p ∈ parts, p.Valid (lit "B")) → n < (encodeBody (lit "B") parts []).length →
      FailsCleanly (lit "B") ((encodeBody (lit "B") parts []).take n) := by
  intro h
  have hcut := h [{ headers := [], data := lit "x" }] 13 (by
    intro p hp
    rw [List.mem_singleton.1 hp]
    exact ⟨by decide, by decide, by decide +kernel⟩) (by decide +kernel)
  have hcrash : EndsInError (bodyScan (lit "B") 14 [lit "--B\r\n\r\nx\r\n--B"]).outcome := by
    exact (failsCleanly_iff _).1 hcut
  obtain ⟨ret, hret, -⟩ := hcrash
  have hnull : (bodyScan (lit "B") 14 [lit "--B\r\n\r\nx\r\n--B"]).outcome
      = .error .nullPointer := by decide +kernel
  rw [hnull] at hret
  cases hret

end Loop

end AuraHttpd
