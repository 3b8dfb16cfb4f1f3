import AuraHttpd.Lib.CString

/-!
# Percent-encoded text

An escape is a percent sign with two hexadecimal digits behind it; decoding puts one byte for the
three and leaves everything else.  So the decoded text is as long as the encoded one exactly where
that has no escape, and is the same text then.
-/

namespace CString

def isXDigit (c : UInt8) : Bool := digitVal c < 16

/-- The first three bytes are an escape. -/
def IsEscape (c a b : UInt8) : Prop := c = 37 ∧ isXDigit a ∧ isXDigit b

instance (c a b : UInt8) : Decidable (IsEscape c a b) := inferInstanceAs (Decidable (_ ∧ _ ∧ _))

def percentDecode : Bytes → Bytes
  | c :: a :: b :: rest =>
    if IsEscape c a b then (16 * digitVal a + digitVal b).toUInt8 :: percentDecode rest
    else c :: percentDecode (a :: b :: rest)
  | s => s

/-- An escape stands somewhere in the text. -/
def HasEscape (s : Bytes) : Prop := ∃ a b, IsEscape 37 a b ∧ [37, a, b] <:+: s

theorem percentDecode_length_le (s : Bytes) : (percentDecode s).length ≤ s.length := by
  fun_induction percentDecode s with
  | case1 c a b rest h ih =>
    simp only [List.length_cons]
    omega
  | case2 c a b rest h ih =>
    simp only [List.length_cons] at ih ⊢
    omega
  | case3 s h => exact le_rfl

/-- No escape reaches over a byte that is not a hexadecimal digit. -/
theorem percentDecode_append {c : UInt8} (hc : isXDigit c = false) (t : Bytes) : ∀ s : Bytes,
    percentDecode (s ++ c :: t) = percentDecode s ++ percentDecode (c :: t)
  | [] => rfl
  | [a] => by
    rcases t with _ | ⟨b, t⟩
    · rfl
    · have hesc : ¬ IsEscape a c b := fun h => by simp [h.2.1] at hc
      simp [percentDecode, hesc]
  | [a, b] => by
    have hesc : ¬ IsEscape a b c := fun h => by simp [h.2.2] at hc
    have hrest := percentDecode_append hc t [b]
    simp only [List.cons_append, List.nil_append] at hrest ⊢
    rw [percentDecode, if_neg hesc, hrest]
    rfl
  | a :: b :: d :: s => by
    simp only [List.cons_append, percentDecode]
    split_ifs with hesc
    · rw [percentDecode_append hc t s, List.cons_append]
    · have hrest := percentDecode_append hc t (b :: d :: s)
      simp only [List.cons_append] at hrest
      rw [hrest, List.cons_append]

theorem hasEscape_cons {c a b : UInt8} {rest : Bytes} :
    HasEscape (c :: a :: b :: rest) ↔ IsEscape c a b ∨ HasEscape (a :: b :: rest) := by
  simp only [HasEscape, List.infix_cons_iff (a := c), List.cons_prefix_cons]
  constructor
  · rintro ⟨x, y, hxy, ⟨rfl, rfl, rfl, -⟩ | h⟩
    · exact .inl hxy
    · exact .inr ⟨x, y, hxy, h⟩
  · rintro (h | ⟨x, y, hxy, h⟩)
    · obtain rfl := h.1
      exact ⟨a, b, h, .inl ⟨rfl, rfl, rfl, List.nil_prefix⟩⟩
    · exact ⟨x, y, hxy, .inr h⟩

/-- A text without escapes is what it decodes to. -/
theorem percentDecode_eq_self {s : Bytes} (h : ¬ HasEscape s) : percentDecode s = s := by
  fun_induction percentDecode s with
  | case1 c a b rest hesc ih => exact absurd (hasEscape_cons.2 (.inl hesc)) h
  | case2 c a b rest hesc ih => rw [ih fun h' => h (hasEscape_cons.2 (.inr h'))]
  | case3 s _ => rfl

/-- Every escape shortens the text. -/
theorem percentDecode_length_lt {s : Bytes} (h : HasEscape s) :
    (percentDecode s).length < s.length := by
  fun_induction percentDecode s with
  | case1 c a b rest hesc ih =>
    have := percentDecode_length_le rest
    simp only [List.length_cons]
    omega
  | case2 c a b rest hesc ih =>
    have := ih ((hasEscape_cons.1 h).resolve_left hesc)
    simp only [List.length_cons] at this ⊢
    omega
  | case3 s hs =>
    obtain ⟨a, b, -, hinfix⟩ := h
    have hlen := hinfix.length_le
    rcases s with _ | ⟨c, _ | ⟨d, _ | ⟨e, rest⟩⟩⟩
    · simp at hlen
    · simp at hlen
    · simp at hlen
    · exact (hs c d e rest rfl).elim

theorem hasEscape_iff {s : Bytes} : HasEscape s ↔ (percentDecode s).length < s.length := by
  refine ⟨percentDecode_length_lt, fun h => by_contra fun hesc => ?_⟩
  rw [percentDecode_eq_self hesc] at h
  exact lt_irrefl _ h

instance : DecidablePred HasEscape := fun _ => decidable_of_iff _ hasEscape_iff.symm

end CString
