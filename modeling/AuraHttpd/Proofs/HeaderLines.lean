import AuraHttpd.BodyParts
import AuraHttpd.Proofs.Multipart
import AuraHttpd.UploadModules

/-!
# Header lines

`strtok_r` finds the key and the value of a header line exactly where the line has both
(`keyValue_iff`), and whatever else the line is, the value is looked at (`header_line_safe_iff`).
-/

namespace AuraHttpd

open CString Script

/-- A line has a key and a value where both calls of `strtok_r` find a token. -/
theorem keyValue_iff {ln : Bytes} (hln : ∀ c ∈ ln, HeaderByte c) :
    KeyValue ln ↔ ∃ key tmp value rest, strtokR (lit ":") ln = (some key, tmp)
      ∧ strtokR (lit "\r\n") tmp = (some value, rest) := by
  constructor
  · rintro ⟨colons, key, value, rfl, hcolons, hkey, hcolon, hvalue⟩
    obtain ⟨h, h'⟩ := strtokR_keyValue hcolons hkey hcolon hvalue fun c hc => hln c (by simp [hc])
    exact ⟨key, value, value, [], h, h'⟩
  · rintro ⟨key, tmp, value, rest, h, h'⟩
    obtain ⟨colons, hcolons, hkey, hcolon, ⟨rfl, rfl⟩ | ⟨c, hc, rfl⟩⟩ := of_strtokR h
    · cases h'
    · rw [lit_colon] at hcolons hcolon hc
      obtain rfl := List.mem_singleton.1 hc
      refine ⟨colons, key, tmp, rfl, by simpa using hcolons, hkey, fun h => ?_, ?_⟩
      · exact hcolon 58 h (List.mem_singleton_self 58)
      · rintro rfl
        cases h'

/-- A header line is handled without a null pointer exactly where it is a key and a value. -/
theorem header_line_safe_iff {σ : Type} (m : UploadfsModule σ) (fsd : Upfs σ) {ln : Bytes}
    (hne : ln ≠ []) (hln : ∀ c ∈ ln, HeaderByte c)
    (hm : ∀ key value, m.callFormHeader fsd key value ≠ .error .nullPointer) :
    handleFileHeaderLine m fsd (some ln) ≠ .error .nullPointer ↔ KeyValue ln := by
  rw [keyValue_iff hln]
  simp only [handleFileHeaderLine]
  rw [cstr_eq_self fun c hc => (hln c hc).2.2, if_neg hne]
  rcases hk : strtokR (lit ":") ln with ⟨_ | key, tmp⟩ <;>
    rcases hv : strtokR (lit "\r\n") tmp with ⟨_ | value, rest⟩
  · simp
  · simp
  · refine ⟨fun h => absurd rfl h, ?_⟩
    rintro ⟨_, _, value, _, h, h'⟩
    cases h
    rw [hv] at h'
    cases h'
  · refine ⟨fun _ => ⟨key, tmp, value, rest, rfl, hv⟩, fun _ h => ?_⟩
    rcases hc : m.callFormHeader fsd key (value.dropWhile (· = 32)) with e | fsd' <;>
      simp only [hc] at h
    · cases h
      exact hm _ _ hc
    · cases h

theorem header_line_safe_contentType :
    handleFileHeaderLine debugmod { modData := () } (some (lit "Content-Type: text/plain"))
      ≠ .error .nullPointer :=
  (header_line_safe_iff debugmod { modData := () } (by decide) (by decide +kernel)
    fun _ _ h => by cases h).2 ⟨[], lit "Content-Type", lit " text/plain", by decide +kernel,
      by decide +kernel, by decide +kernel, by decide +kernel, by decide +kernel⟩

/-- A line without a colon has no value. -/
theorem header_line_without_colon :
    ¬ ∀ ln : Bytes, ln ≠ [] → (∀ c ∈ ln, HeaderByte c) →
      handleFileHeaderLine debugmod { modData := () } (some ln) ≠ .error .nullPointer := fun h =>
  h (lit "abc") (by decide) (by decide +kernel) rfl

end AuraHttpd
