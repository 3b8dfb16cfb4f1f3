import AuraHttpd.Proofs.Entities
import AuraHttpd.Lib.Utf8

/-!
# The encoding of a decoded text

What a numeric reference stands for is the encoding of its code point, but for the surrogates, which
have none (`utf8_putcUtf8_iff`).  No reference has an ampersand or a byte that is not ASCII, so the
decoder changes a UTF-8 text at whole characters, and leaves it one in UTF-8 where it has no
reference to a surrogate (`decoded_utf8_iff`).
-/

namespace AuraHttpd

open CString

section CodePoints

/-- What is or-ed to a byte's marker is added to it. -/
theorem marker_or {i a b : ℕ} (hb : b < 2 ^ i) : (a <<< i) ||| b = a * 2 ^ i + b := by
  rw [Nat.shiftLeft_eq, Nat.mul_comm, Nat.two_pow_add_eq_or_of_lt hb]

theorem marker_rest (n : ℕ) : (2 <<< 6) ||| (n &&& 0x3F) = 128 + n % 64 := by
  have hand : n &&& 0x3F = n % 64 := Nat.and_two_pow_sub_one_eq_mod n 6
  rw [hand]
  exact marker_or (i := 6) (a := 2) (Nat.mod_lt n (by decide))

theorem putcUtf8_char (c : Char) : putcUtf8 c.val.toNat = String.utf8EncodeChar c := by
  have hc := lt_of_char c
  unfold putcUtf8 String.utf8EncodeChar
  dsimp only
  simp only [marker_rest, Nat.shiftRight_eq_div_pow]
  split_ifs
  · rfl
  · rw [marker_or (by omega)]
    simp only [Nat.toUInt8, List.cons.injEq, and_true]
    constructor <;> congr 1 <;> omega
  · rw [marker_or (by omega)]
    simp only [Nat.toUInt8, List.cons.injEq, and_true]
    refine ⟨?_, ?_, ?_⟩ <;> congr 1 <;> omega
  · rw [marker_or (by omega)]
    simp only [Nat.toUInt8, List.cons.injEq, and_true]
    refine ⟨?_, ?_, ?_, ?_⟩ <;> congr 1 <;> omega
  · omega

theorem putcUtf8_surrogate {cp : ℕ} (hlo : 0xD800 ≤ cp) (hhi : cp < 0xE000) :
    ∃ b rest, putcUtf8 cp = 237 :: b :: rest ∧ 160 ≤ b.toNat := by
  unfold putcUtf8
  rw [if_neg (by omega), if_neg (by omega), if_pos (by omega), marker_or (by
    rw [Nat.shiftRight_eq_div_pow]
    omega), marker_rest, marker_rest]
  simp only [Nat.shiftRight_eq_div_pow]
  have hlead : 14 * 2 ^ 4 + cp / 2 ^ 12 = 237 := by omega
  refine ⟨_, _, by rw [hlead]; rfl, ?_⟩
  simp only [Nat.toUInt8, UInt8.toNat_ofNat']
  omega

theorem not_utf8_putcUtf8 {cp : ℕ} (hlo : 0xD800 ≤ cp) (hhi : cp < 0xE000) (t : Bytes) :
    ¬ Utf8 (putcUtf8 cp ++ t) := by
  obtain ⟨b, rest, hput, hb⟩ := putcUtf8_surrogate hlo hhi
  rw [hput]
  exact not_utf8_of_surrogate hb (rest ++ t)

theorem utf8_putcUtf8 {cp : ℕ} (hcp : cp ≤ unicodeMax) (h : cp < 0xD800 ∨ 0xE000 ≤ cp) :
    Utf8 (putcUtf8 cp) := by
  have hvalid : cp.isValidChar := by
    unfold unicodeMax at hcp
    unfold Nat.isValidChar
    omega
  have hval : (Char.ofNatAux cp hvalid).val.toNat = cp := rfl
  rw [← hval, putcUtf8_char]
  exact utf8_char _

theorem namedEntities_utf8 : ∀ e ∈ namedEntities.toList,
    utf8Of (e.2.toByteArray.utf8DecodeChar? 0).toList = e.2 := by
  decide +kernel

/-- What a reference stands for is UTF-8, unless that is a surrogate. -/
theorem Reference.utf8_or {r out : Bytes} (h : Reference r out) :
    Utf8 out ∨ ∃ cp, 0xD800 ≤ cp ∧ cp < 0xE000 ∧ out = putcUtf8 cp := by
  have hput : ∀ cp, cp ≤ unicodeMax →
      Utf8 (putcUtf8 cp) ∨ ∃ cp', 0xD800 ≤ cp' ∧ cp' < 0xE000 ∧ putcUtf8 cp = putcUtf8 cp' := by
    intro cp hcp
    by_cases hs : 0xD800 ≤ cp ∧ cp < 0xE000
    · exact .inr ⟨cp, hs.1, hs.2, rfl⟩
    · exact .inl (utf8_putcUtf8 hcp (by omega))
  cases h with
  | named he => exact .inl ⟨_, (namedEntities_utf8 _ (Array.mem_toList_iff.2 he)).symm⟩
  | decimal h hcp => exact hput _ hcp
  | hex hx h hcp => exact hput _ hcp

theorem namedEntities_ascii : ∀ e ∈ namedEntities.toList, ∀ b ∈ e.1, b.toNat < 128 ∧ b ≠ 38 := by
  have hall : ∀ e ∈ namedEntities.toList, e.1.all fun b => b.toNat < 128 ∧ b ≠ 38 := by
    decide +kernel
  intro e he b hb
  simpa using List.all_eq_true.1 (hall e he) b hb

theorem Numeral.ascii {base cp : ℕ} {s : Bytes} (hbase : base ≤ 16) (h : Numeral base s cp)
    {b : UInt8} (hb : b ∈ s) : b.toNat < 128 ∧ b ≠ 38 := by
  have hsmall : b.toNat < 128 := by
    rcases h.bytes hb with hs | rfl | rfl | hd | ⟨-, rfl | rfl | rfl⟩
    · simp only [isSpace, decide_eq_true_eq, UInt8.le_iff_toNat_le] at hs
      have : (13 : UInt8).toNat = 13 := rfl
      rcases hs with rfl | ⟨-, hs⟩
      · decide
      · omega
    · decide
    · decide
    · by_contra hge
      have : digitVal b = 36 := by
        have : (57 : UInt8).toNat = 57 := rfl
        have : (90 : UInt8).toNat = 90 := rfl
        have : (122 : UInt8).toNat = 122 := rfl
        simp only [digitVal, UInt8.le_iff_toNat_le]
        rw [if_neg (by omega), if_neg (by omega), if_neg (by omega)]
      omega
    all_goals decide
  refine ⟨hsmall, ?_⟩
  rintro rfl
  have hbytes := h.bytes hb
  simp [isSpace, digitVal] at hbytes
  omega

/-- A reference is of ASCII bytes other than the ampersand. -/
theorem Reference.ascii {r out : Bytes} (h : Reference r out) :
    ∀ b ∈ r, b.toNat < 128 ∧ b ≠ 38 := by
  cases h with
  | named he => exact namedEntities_ascii _ (Array.mem_toList_iff.2 he)
  | decimal h hcp =>
    intro b hb
    simp only [List.mem_cons, List.mem_append, List.not_mem_nil, or_false] at hb
    rcases hb with rfl | hb | rfl
    · decide
    · exact h.ascii (by decide) hb
    · decide
  | hex hx h hcp =>
    intro b hb
    simp only [List.mem_cons, List.mem_append, List.not_mem_nil, or_false] at hb
    rcases hb with rfl | rfl | hb | rfl
    · decide
    · rcases hx with rfl | rfl <;> decide
    · exact h.ascii (by decide) hb
    · decide

end CodePoints

section Texts

/-- No reference in the text is one to a surrogate. -/
def NoSurrogate (text : Bytes) : Prop :=
  ∀ front r rest cp, text = front ++ 38 :: (r ++ rest) → Reference r (putcUtf8 cp) →
    cp < 0xD800 ∨ 0xE000 ≤ cp

theorem noSurrogate_append {front t : Bytes} (hfront : 38 ∉ front) :
    NoSurrogate (front ++ t) ↔ NoSurrogate t := by
  constructor
  · rintro h front' r rest cp rfl
    exact h (front ++ front') r rest cp (by simp)
  · intro h front' r rest cp htext
    rcases List.append_eq_append_iff.1 htext with ⟨front'', rfl, ht⟩ | ⟨back, rfl, hback⟩
    · exact h front'' r rest cp ht
    · rcases back with _ | ⟨b, back⟩
      · exact h [] r rest cp (by simpa using hback.symm)
      · obtain rfl := (List.cons.inj hback).1
        simp at hfront

theorem noSurrogate_ampersand {t : Bytes} : NoSurrogate (38 :: t) ↔
    (∀ r cp, Reference r (putcUtf8 cp) → r <+: t → cp < 0xD800 ∨ 0xE000 ≤ cp) ∧ NoSurrogate t := by
  constructor
  · intro h
    refine ⟨?_, ?_⟩
    · rintro r cp hr ⟨rest, rfl⟩
      exact h [] r rest cp rfl hr
    · rintro front r rest cp rfl
      exact h (38 :: front) r rest cp rfl
  · rintro ⟨hfirst, h⟩ front r rest cp htext hr
    rcases front with _ | ⟨b, front⟩
    · exact hfirst r cp hr ⟨rest, (List.cons.inj htext).2.symm⟩
    · exact h front r rest cp (List.cons.inj htext).2 hr

theorem ampersand_notMem_char {c : Char} (hc : c.val.toNat ≠ 38) :
    38 ∉ String.utf8EncodeChar c := by
  intro hmem
  rcases utf8EncodeChar_ascii c with ⟨hlt, henc⟩ | ⟨-, hhigh⟩
  · rw [henc, List.mem_singleton] at hmem
    have := congrArg UInt8.toNat hmem
    rw [UInt8.toNat_ofNat'] at this
    have : (38 : UInt8).toNat = 38 := rfl
    omega
  · exact absurd (hhigh 38 hmem) (by decide)

theorem utf8_decoded_of_length : ∀ (n : ℕ) {text : Bytes}, text.length ≤ n → Utf8 text →
    (Utf8 (decodeHtmlEntitiesUtf8 text) ↔ NoSurrogate text) := by
  intro n
  induction n with
  | zero =>
    intro text hlen _
    obtain rfl : text = [] := List.eq_nil_of_length_eq_zero (by omega)
    refine iff_of_true utf8_nil fun front r rest cp htext => ?_
    simp at htext
  | succ n ih =>
    intro text hlen h
    rcases h.cases with rfl | ⟨c, t, rfl, ht⟩
    · exact ih (by simp) utf8_nil
    rw [List.length_append, String.length_utf8EncodeChar] at hlen
    have hpos := c.utf8Size_pos
    by_cases hc : c.val.toNat = 38
    swap
    · -- a character is kept
      have hnot := ampersand_notMem_char hc
      rw [((decodesTo_decoded t).front hnot).decoded_eq, utf8_append_iff (utf8_char c),
        noSurrogate_append hnot]
      exact ih (by omega) ht
    have henc : String.utf8EncodeChar c ++ t = 38 :: t := by
      rcases utf8EncodeChar_ascii c with ⟨-, henc⟩ | ⟨hge, -⟩
      · rw [henc, hc]
        rfl
      · omega
    rw [henc, noSurrogate_ampersand]
    by_cases href : ∃ r o, Reference r o ∧ r <+: t
    · obtain ⟨r, o, hr, rest, rfl⟩ := href
      have hascii := hr.ascii
      have hrest := (utf8_append_iff (utf8_of_ascii fun b hb => (hascii b hb).1)).1 ht
      rw [(DecodesTo.reference hr (decodesTo_decoded rest)).decoded_eq,
        noSurrogate_append fun hb => (hascii 38 hb).2 rfl]
      rw [List.length_append] at hlen
      rcases hr.utf8_or with ho | ⟨cp, hlo, hhi, rfl⟩
      · rw [utf8_append_iff ho, ih (by omega) hrest]
        refine ⟨fun h => ⟨?_, h⟩, fun h => h.2⟩
        rintro r' cp hr' ⟨rest', hsame⟩
        have hparse := parseEntity_of_reference hr' rest'
        rw [hsame, parseEntity_of_reference hr] at hparse
        obtain rfl := (Prod.mk.inj (Option.some.inj hparse)).1
        by_contra hs
        rw [← List.append_nil (putcUtf8 cp)] at ho
        exact not_utf8_putcUtf8 (by omega) (by omega) [] ho
      · refine iff_of_false (not_utf8_putcUtf8 hlo hhi _) fun h => ?_
        have := h.1 r cp hr (List.prefix_append r rest)
        omega
    · have hno : ∀ r o, Reference r o → ¬ r <+: t := fun r o hr hpre => href ⟨r, o, hr, hpre⟩
      have hamp : Utf8 [38] := utf8_of_ascii (by simp)
      rw [(DecodesTo.ampersand hno (decodesTo_decoded t)).decoded_eq, ← List.singleton_append,
        utf8_append_iff hamp, ih (by omega) ht]
      exact ⟨fun h => ⟨fun r cp hr hpre => absurd hpre (hno r _ hr), h⟩, fun h => h.2⟩

/-- The decoder leaves a text in UTF-8 one, if and only if the text has no reference to a
surrogate. -/
theorem decoded_utf8_iff {text : Bytes} (h : Utf8 text) :
    Utf8 (decodeHtmlEntitiesUtf8 text) ↔ NoSurrogate text :=
  utf8_decoded_of_length text.length le_rfl h

/-- A reference to a surrogate is decoded all the same. -/
theorem decoded_utf8_iff_surrogate : ¬ Utf8 (decodeHtmlEntitiesUtf8 (lit "&#xD800;")) := by
  rw [decoded_utf8_iff (utf8_of_ascii (by simp [lit]))]
  intro h
  have hnum : Numeral 16 (lit "D800") 0xD800 := (strtoul_iff _ [] (.inr rfl)).1 (by decide +kernel)
  have := h [] (lit "#xD800;") [] 0xD800 (by decide) (.hex (.inl rfl) hnum (by decide))
  omega

end Texts

end AuraHttpd
