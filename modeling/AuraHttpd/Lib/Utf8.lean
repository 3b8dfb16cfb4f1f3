import AuraHttpd.Lib.CString
import Mathlib.Data.List.Basic

/-!
# UTF-8 texts as bytes

A text is UTF-8 if it is the encoding of some characters (`Utf8`).  As no encoding of a character
starts another one, a text behind a UTF-8 text is UTF-8 if both together are (`utf8_append_iff`).
The encoding of a character that is not ASCII has no ASCII byte (`utf8EncodeChar_ascii`), and no
UTF-8 text starts as the encoding of a surrogate would (`not_utf8_of_surrogate`).
-/

namespace CString

/-- The encoding of some characters. -/
def utf8Of (cs : List Char) : Bytes := cs.flatMap String.utf8EncodeChar

/-- A text in UTF-8. -/
def Utf8 (b : Bytes) : Prop := ∃ cs, b = utf8Of cs

@[simp] theorem utf8Of_nil : utf8Of [] = [] := rfl

@[simp] theorem utf8Of_cons (c : Char) (cs : List Char) :
    utf8Of (c :: cs) = String.utf8EncodeChar c ++ utf8Of cs := rfl

theorem utf8Of_append (cs cs' : List Char) : utf8Of (cs ++ cs') = utf8Of cs ++ utf8Of cs' :=
  List.flatMap_append

theorem utf8_nil : Utf8 [] := ⟨[], rfl⟩

theorem utf8_char (c : Char) : Utf8 (String.utf8EncodeChar c) := ⟨[c], by simp⟩

theorem Utf8.append {a b : Bytes} (ha : Utf8 a) (hb : Utf8 b) : Utf8 (a ++ b) := by
  obtain ⟨cs, rfl⟩ := ha
  obtain ⟨cs', rfl⟩ := hb
  exact ⟨cs ++ cs', (utf8Of_append cs cs').symm⟩

theorem lt_of_char (c : Char) :
    c.val.toNat < 0xD800 ∨ 0xDFFF < c.val.toNat ∧ c.val.toNat < 0x110000 := c.valid

/-- The encoding of a character is the character if that is ASCII, and has no ASCII byte
otherwise. -/
theorem utf8EncodeChar_ascii (c : Char) :
    c.val.toNat < 128 ∧ String.utf8EncodeChar c = [UInt8.ofNat c.val.toNat]
      ∨ 128 ≤ c.val.toNat ∧ ∀ b ∈ String.utf8EncodeChar c, 128 ≤ b.toNat := by
  have hc := lt_of_char c
  unfold String.utf8EncodeChar
  dsimp only
  split_ifs
  · exact .inl ⟨by omega, rfl⟩
  all_goals
    refine .inr ⟨by omega, fun b hb => ?_⟩
    simp only [List.mem_cons, List.not_mem_nil, or_false] at hb
    rcases hb with rfl | rfl | rfl | rfl <;> simp [UInt8.toNat_ofNat'] <;> omega

/-- What follows an encoded character does not matter for which one it is. -/
theorem utf8EncodeChar_append_inj {c c' : Char} {x y : Bytes}
    (h : String.utf8EncodeChar c ++ x = String.utf8EncodeChar c' ++ y) : c = c' ∧ x = y := by
  have hdec := congrArg (fun b => (List.toByteArray b).utf8DecodeChar? 0) h
  simp only [List.toByteArray_append, ByteArray.utf8DecodeChar?_utf8EncodeChar_append,
    Option.some.injEq] at hdec
  subst hdec
  exact ⟨rfl, List.append_cancel_left h⟩

theorem utf8_append_iff {a b : Bytes} (ha : Utf8 a) : Utf8 (a ++ b) ↔ Utf8 b := by
  refine ⟨?_, ha.append⟩
  obtain ⟨cs, rfl⟩ := ha
  rintro ⟨cs', h⟩
  induction cs generalizing cs' with
  | nil => exact ⟨cs', h⟩
  | cons c cs ih =>
    rcases cs' with _ | ⟨c', cs'⟩
    · simp at h
    · rw [utf8Of_cons, utf8Of_cons, List.append_assoc] at h
      exact ih cs' (utf8EncodeChar_append_inj h).2

theorem utf8EncodeChar_ofUInt8 {b : UInt8} (hb : b.toNat < 128) :
    String.utf8EncodeChar (Char.ofUInt8 b) = [b] := by
  have hval : (Char.ofUInt8 b).val.toNat = b.toNat := UInt8.toNat_toUInt32 b
  rcases utf8EncodeChar_ascii (Char.ofUInt8 b) with ⟨-, h⟩ | ⟨h, -⟩
  · rw [h, hval, UInt8.ofNat_toNat]
  · omega

theorem utf8_of_ascii : ∀ {r : Bytes}, (∀ b ∈ r, b.toNat < 128) → Utf8 r
  | [], _ => utf8_nil
  | b :: r, h => by
    have hr := utf8_of_ascii fun b' hb' => h b' (List.mem_cons_of_mem b hb')
    have := (utf8_char (Char.ofUInt8 b)).append hr
    rwa [utf8EncodeChar_ofUInt8 (h b List.mem_cons_self)] at this

/-- A character is cut off in front of a text. -/
theorem Utf8.cases {b : Bytes} (h : Utf8 b) :
    b = [] ∨ ∃ c rest, b = String.utf8EncodeChar c ++ rest ∧ Utf8 rest := by
  obtain ⟨_ | ⟨c, cs⟩, rfl⟩ := h
  · exact .inl rfl
  · exact .inr ⟨c, _, rfl, cs, rfl⟩

theorem not_utf8_of_surrogate {b : UInt8} (hb : 160 ≤ b.toNat) (rest : Bytes) :
    ¬ Utf8 (237 :: b :: rest) := by
  rintro ⟨_ | ⟨c, cs⟩, h⟩
  · cases h
  have hc := lt_of_char c
  rw [utf8Of_cons] at h
  unfold String.utf8EncodeChar at h
  dsimp only at h
  split_ifs at h
  all_goals
    simp only [List.cons_append, List.nil_append, List.cons.injEq] at h
    have h₀ := congrArg UInt8.toNat h.1
    simp only [UInt8.toNat_ofNat'] at h₀
    have : UInt8.toNat 237 = 237 := rfl
  · omega
  · omega
  · have h₁ := congrArg UInt8.toNat h.2.1
    simp only [UInt8.toNat_ofNat'] at h₁
    omega
  · omega

end CString
