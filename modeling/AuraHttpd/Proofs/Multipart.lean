import AuraHttpd.Multipart
import AuraHttpd.Proofs.UploadScan

/-!
# The lines and delimiters of an encoded body

What `evbuffer_readln` and `strtok_r` make of the header lines a client sends, and what stands
behind a delimiter.  No byte of a delimiter is one of the CRLF before it.
-/

namespace AuraHttpd

open CString Script

theorem crlf_eq : crlf = [13, 10] := by decide

theorem readlnCrlf_line {line rest : Bytes} (h : (10 : UInt8) ∉ line) :
    readlnCrlf (line ++ (crlf ++ rest)) = some (line, rest) := by
  have hb : line ++ (crlf ++ rest) = (line ++ [13]) ++ 10 :: rest := by
    simp [crlf_eq]
  have hlf : (10 : UInt8) ∉ line ++ [13] := by simpa using h
  rw [hb, readlnCrlf, if_pos (by simp)]
  simp only [ListSearch.takeWhile_ne_append_cons hlf, ListSearch.dropWhile_ne_append_cons hlf]
  simp

theorem lit_colon : lit ":" = [58] := by decide

/-- The two calls of `strtok_r` on a line that is a key and a value. -/
theorem strtokR_keyValue {colons key value : Bytes} (hcolons : ∀ c ∈ colons, c = 58)
    (hkey : key ≠ []) (hcolon : 58 ∉ key) (hvalue : value ≠ [])
    (hline : ∀ c ∈ value, HeaderByte c) :
    strtokR (lit ":") (colons ++ (key ++ 58 :: value)) = (some key, value)
      ∧ strtokR (lit "\r\n") value = (some value, []) := by
  constructor
  · rw [lit_colon, strtokR_skip (by simpa using hcolons)]
    refine strtokR_of_not_mem hkey (fun a ha => ?_) (List.mem_singleton_self 58)
    rw [List.mem_singleton]
    rintro rfl
    exact hcolon ha
  · rw [show lit "\r\n" = [13, 10] from crlf_eq]
    refine strtokR_all hvalue fun a ha => ?_
    simpa using ⟨(hline a ha).1, (hline a ha).2.1⟩

/-- The text of a header line. -/
def headerText (h : Bytes × Bytes) : Bytes := h.1 ++ lit ": " ++ h.2

theorem FormPart.Valid.readable {B : Bytes} {p : FormPart} (hp : p.Valid B) : p.Readable B where
  header h hh := by
    obtain ⟨hne, hk⟩ := hp.key h hh
    exact ⟨hne, fun c hc => ⟨(hk c hc).1.2.1, (hk c hc).1.2.2, (hk c hc).2⟩, (hp.value h hh).2⟩
  data := hp.data

theorem scanHeaderLine_header {h : Bytes × Bytes} (hh : ReadableHeader h) :
    scanHeaderLine (some (headerText h)) = ⟨[headerCall h], .ok 0⟩ := by
  obtain ⟨hkne, hk, hv⟩ := hh
  have hcstr : cstr (headerText h) = headerText h := by
    refine cstr_eq_self fun c hc => ?_
    simp only [headerText, List.mem_append] at hc
    rcases hc with (hc | hc) | hc
    · exact (hk c hc).2.1
    · revert c
      decide +kernel
    · exact (hv c hc).2.2
  have htext : headerText h = h.1 ++ 58 :: (32 :: h.2) := by
    have hsep : lit ": " = [58, 32] := by decide
    simp [headerText, hsep]
  have hline : ∀ c ∈ (32 : UInt8) :: h.2, HeaderByte c := by
    rintro c (_ | ⟨_, hc⟩)
    · decide
    · exact (hv c hc)
  obtain ⟨hkey, hvalue⟩ := strtokR_keyValue (List.forall_mem_nil _) hkne
    (fun h58 => (hk 58 h58).2.2 rfl) (List.cons_ne_nil 32 h.2) hline
  rw [List.nil_append, ← htext] at hkey
  have hne : headerText h ≠ [] := by
    rw [htext]
    simp
  simp only [scanHeaderLine, hcstr, if_neg hne, hkey, hvalue]
  simp [headerCall, emit, pure]

/-- Every allocation succeeds. -/
def NoFailures (failures : List Bool) : Prop := ∀ f ∈ failures, f = false

theorem NoFailures.head {failures : List Bool} (h : NoFailures failures) :
    failures.headD false = false := by
  cases failures with
  | nil => rfl
  | cons f fs => exact h f (by simp)

theorem NoFailures.tail {failures : List Bool} (h : NoFailures failures) :
    NoFailures failures.tail := fun f hf => h f (List.mem_of_mem_tail hf)

theorem encodeHeader_append (h : Bytes × Bytes) (rest : Bytes) :
    encodeHeader h ++ rest = headerText h ++ (crlf ++ rest) := by
  simp [encodeHeader, headerText]

theorem lf_notMem_headerText {h : Bytes × Bytes} (hh : ReadableHeader h) :
    (10 : UInt8) ∉ headerText h := by
  intro hm
  simp only [headerText, List.mem_append] at hm
  rcases hm with (hm | hm) | hm
  · exact (hh.key 10 hm).1 rfl
  · exact absurd hm (by decide)
  · exact (hh.value 10 hm).2.1 rfl

theorem take_delimiter {D more : Bytes} :
    (D ++ more).take (D ++ lit "--").length = D ++ lit "--" ↔ more.take 2 = lit "--" := by
  have hlit : (lit "--").length = 2 := by decide
  rw [List.length_append, hlit, List.take_length_add_append, List.append_cancel_left_eq]

theorem delimiter_notMem {B : Bytes} (hB : ∀ c ∈ B, HeaderByte c) :
    ∀ c ∈ crlf, c ∉ lit "--" ++ B := by
  intro c hc hm
  rcases List.mem_append.1 hm with hm | hm
  · have hdash : ∀ c ∈ crlf, c ∉ lit "--" := by decide +kernel
    exact hdash c hc hm
  · rw [crlf_eq] at hc
    have := hB c hm
    simp only [List.mem_cons, List.not_mem_nil, or_false] at hc
    rcases hc with rfl | rfl
    · exact this.1 rfl
    · exact this.2.1 rfl

theorem length_le_flatMap {α : Type} {f : α → Bytes} :
    ∀ {l : List α}, (∀ a ∈ l, f a ≠ []) → l.length ≤ (l.flatMap f).length
  | [], _ => Nat.le_refl _
  | a :: l, h => by
    have ha := List.length_pos_iff.2 (h a (by simp))
    have hl := length_le_flatMap fun b hb => h b (List.mem_cons_of_mem a hb)
    rw [List.flatMap_cons, List.length_append, List.length_cons]
    omega

theorem encodeBody_cons (B : Bytes) (p : FormPart) (ps : List FormPart) (tail : Bytes) :
    encodeBody B (p :: ps) tail = p.encode B ++ encodeBody B ps tail := by
  simp [encodeBody]

/-- Behind the delimiter a body starts with stands a CRLF, or `--` when no part is left. -/
theorem encodeBody_delimiter (B : Bytes) (ps : List FormPart) (tail : Bytes) :
    ∃ more, encodeBody B ps tail = lit "--" ++ B ++ more ∧ 2 ≤ more.length
      ∧ (more.take 2 = lit "--" ↔ ps = []) := by
  cases ps with
  | nil => exact ⟨lit "--" ++ tail, by simp [encodeBody], by simp [lit], by simp [lit]⟩
  | cons p ps =>
    refine ⟨crlf ++ (p.headers.flatMap encodeHeader ++ crlf ++ p.data ++ crlf
      ++ encodeBody B ps tail), ?_, by simp [crlf_eq], ?_⟩
    · rw [encodeBody_cons]
      simp [FormPart.encode]
    · simp [crlf_eq, lit]

end AuraHttpd
