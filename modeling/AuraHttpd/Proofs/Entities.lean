import AuraHttpd.Entity
import AuraHttpd.Proofs.ValueBlock

/-!
# What the decoder of HTML entities decodes

A reference is what stands between an ampersand and the next semicolon if it is the name of an
entity or a number of a code point (`Reference`).  The decoder puts what it stands for in the place
of every reference, from left to right, and leaves everything else, also ampersands that start none
(`decoded_iff`).
-/

namespace AuraHttpd

open CString

/-- The names come one before the other. -/
theorem namedEntities_chain : namedEntities.toList.IsChain fun x y => before x.1 y.1 := by
  decide +kernel

/-- Of two names in the table none starts the other. -/
theorem namedEntities_apart {e e' : Bytes × Bytes} (he : e ∈ namedEntities)
    (he' : e' ∈ namedEntities) (hne : e ≠ e') : ¬ e.1 <+: e'.1 := by
  have htrans : IsTrans (Bytes × Bytes) fun x y => before x.1 y.1 := ⟨fun _ _ _ => before_trans⟩
  have hpair : namedEntities.toList.Pairwise fun x y => ¬ x.1 <+: y.1 ∧ ¬ y.1 <+: x.1 :=
    (List.isChain_iff_pairwise.1 namedEntities_chain).imp not_prefix_of_before
  have hsymm : Std.Symm fun x y : Bytes × Bytes => ¬ x.1 <+: y.1 ∧ ¬ y.1 <+: x.1 :=
    ⟨fun _ _ h => h.symm⟩
  exact (hpair.forall (Array.mem_toList_iff.2 he) (Array.mem_toList_iff.2 he') hne).1

/-- The name looked up is the one the text starts with. -/
theorem getNamedEntity_iff {name entity : Bytes} : getNamedEntity name = some entity ↔
    ∃ e ∈ namedEntities, e.1 <+: name ∧ e.2 = entity := by
  have hasc := ascending_of_before name namedEntities_chain
  constructor
  · intro h
    obtain ⟨e, he, rfl⟩ := Option.map_eq_some_iff.1 h
    obtain ⟨hmem, heq⟩ := mem_of_bsearchLoop he
    exact ⟨e, hmem, strncmp_eq_iff.1 heq, rfl⟩
  · rintro ⟨e, hmem, hpre, rfl⟩
    have hsome := (bsearch_isSome_iff hasc).2 ⟨e, hmem, strncmp_eq_iff.2 hpre⟩
    obtain ⟨e', he'⟩ := Option.isSome_iff_exists.1 hsome
    obtain ⟨hmem', heq'⟩ := mem_of_bsearchLoop he'
    have hpre' := strncmp_eq_iff.1 heq'
    have hsame : e' = e := by
      by_contra hne
      rcases List.prefix_or_prefix_of_prefix hpre hpre' with h | h
      · exact namedEntities_apart hmem hmem' (Ne.symm hne) h
      · exact namedEntities_apart hmem' hmem hne h
    rw [getNamedEntity, he', Option.map_some, hsame]

section Numerals

/-- The number of some digits. -/
def digitsValue (base : ℕ) (digits : Bytes) : ℕ :=
  digits.foldl (fun a c => a * base + digitVal c) 0

/-- A text that `strtoul` takes whole, and the number it returns.  Behind spaces there may be a sign
and in base 16 a mark, and there is a digit; the number of a text that is negative is taken modulo
`2^64`.  The empty text is one of zero. -/
inductive Numeral (base : ℕ) : Bytes → ℕ → Prop where
  | empty : Numeral base [] 0
  | number {spaces sign mark digits : Bytes} (hspaces : ∀ c ∈ spaces, isSpace c)
      (hsign : sign = [] ∨ sign = [43] ∨ sign = [45])
      (hmark : mark = [] ∨ base = 16 ∧ (mark = [48, 120] ∨ mark = [48, 88]))
      (hne : digits ≠ []) (hdigits : ∀ c ∈ digits, digitVal c < base)
      (hrange : digitsValue base digits < 2 ^ 64) :
    Numeral base (spaces ++ (sign ++ (mark ++ digits)))
      (if sign = [45] then (2 ^ 64 - digitsValue base digits) % 2 ^ 64
        else digitsValue base digits)

theorem dropWhile_append_stop {p : UInt8 → Bool} {c : UInt8} (hc : p c = false) (t : Bytes) :
    ∀ s : Bytes, (s ++ c :: t).dropWhile p = s.dropWhile p ++ c :: t
  | [] => by simp [hc]
  | a :: s => by
    simp only [List.cons_append, List.dropWhile_cons]
    split_ifs
    · exact dropWhile_append_stop hc t s
    · rfl

theorem takeWhile_append_stop {p : UInt8 → Bool} {c : UInt8} (hc : p c = false) (t : Bytes) :
    ∀ s : Bytes, (s ++ c :: t).takeWhile p = s.takeWhile p
  | [] => by simp [hc]
  | a :: s => by
    simp only [List.cons_append, List.takeWhile_cons]
    split_ifs
    · rw [takeWhile_append_stop hc t s]
    · rfl

/-- `strtoul` from behind the sign and the mark on, with the text it returns where there is no
digit. -/
def strtoulDigits (base : ℕ) (s s₃ : Bytes) (neg : Prop) [Decidable neg] : ℕ × Bool × Bytes :=
  let digits := s₃.takeWhile (digitVal · < base)
  if digits = [] then (0, false, s)
  else if 2 ^ 64 ≤ digitsValue base digits then (2 ^ 64 - 1, true, s₃.drop digits.length)
  else (if neg then (2 ^ 64 - digitsValue base digits) % 2 ^ 64 else digitsValue base digits, false,
    s₃.drop digits.length)

theorem strtoul_eq {base : ℕ} {s s₂ s₃ : Bytes} {neg : Prop} [Decidable neg]
    (h₂ : (if (s.dropWhile isSpace).head? = some 45 ∨ (s.dropWhile isSpace).head? = some 43
      then (s.dropWhile isSpace).drop 1 else s.dropWhile isSpace) = s₂)
    (h₃ : (if base = 16 ∧ s₂.head? = some 48 ∧ (s₂[1]? = some 120 ∨ s₂[1]? = some 88)
        ∧ ((s₂[2]?.map digitVal).getD 36 < 16)
      then s₂.drop 2 else s₂) = s₃)
    (hneg : (s.dropWhile isSpace).head? = some 45 ↔ neg) :
    strtoul base s = strtoulDigits base s s₃ neg := by
  subst h₂ h₃
  simp only [strtoulDigits, ← hneg]
  rfl

variable {base cp : ℕ} {s rest : Bytes}

/-- The digits that stand in front of the semicolon. -/
theorem digits_of_strtoul {v : Bytes} (hbase : base ≤ 16)
    (hdrop : (v ++ 59 :: rest).drop ((v ++ 59 :: rest).takeWhile (digitVal · < base)).length
      = 59 :: rest) :
    (v ++ 59 :: rest).takeWhile (digitVal · < base) = v ∧ ∀ c ∈ v, digitVal c < base := by
  have hstop : decide (digitVal 59 < base) = false := by
    simp [digitVal]
    omega
  rw [takeWhile_append_stop hstop] at hdrop ⊢
  have hlen := congrArg List.length hdrop
  have hle := (List.takeWhile_prefix (digitVal · < base) (l := v)).length_le
  simp only [List.length_drop, List.length_append, List.length_cons] at hlen
  have hall := (List.takeWhile_prefix (digitVal · < base) (l := v)).eq_of_length (by omega)
  refine ⟨hall, fun c hc => ?_⟩
  rw [← hall] at hc
  simpa using List.mem_takeWhile_imp hc

theorem sign_split (u rest : Bytes) : ∃ sign v, u = sign ++ v
    ∧ (sign = [] ∨ sign = [43] ∨ sign = [45])
    ∧ (if (u ++ 59 :: rest).head? = some 45 ∨ (u ++ 59 :: rest).head? = some 43
      then (u ++ 59 :: rest).drop 1 else u ++ 59 :: rest) = v ++ 59 :: rest
    ∧ ((u ++ 59 :: rest).head? = some 45 ↔ sign = [45]) := by
  rcases u with _ | ⟨a, u⟩
  · exact ⟨[], [], rfl, .inl rfl, by simp, by simp⟩
  by_cases h45 : a = 45
  · exact ⟨[45], u, by rw [h45]; rfl, .inr (.inr rfl), by simp [h45], by simp [h45]⟩
  by_cases h43 : a = 43
  · exact ⟨[43], u, by rw [h43]; rfl, .inr (.inl rfl), by simp [h43], by simp [h43]⟩
  · exact ⟨[], a :: u, rfl, .inl rfl, by simp [h45, h43], by simp [h45]⟩

theorem mark_split (base : ℕ) (v rest : Bytes) : ∃ mark w, v = mark ++ w
    ∧ (mark = [] ∨ base = 16 ∧ (mark = [48, 120] ∨ mark = [48, 88]))
    ∧ (if base = 16 ∧ (v ++ 59 :: rest).head? = some 48
        ∧ ((v ++ 59 :: rest)[1]? = some 120 ∨ (v ++ 59 :: rest)[1]? = some 88)
        ∧ (((v ++ 59 :: rest)[2]?.map digitVal).getD 36 < 16)
      then (v ++ 59 :: rest).drop 2 else v ++ 59 :: rest) = w ++ 59 :: rest := by
  split_ifs with h
  · obtain ⟨hbase, h0, h1, -⟩ := h
    rcases v with _ | ⟨a, _ | ⟨b, w⟩⟩
    · simp at h0
    · simp at h1
    · obtain rfl : a = 48 := by simpa using h0
      have hb : b = 120 ∨ b = 88 := by simpa using h1
      refine ⟨[48, b], w, rfl, .inr ⟨hbase, ?_⟩, rfl⟩
      rcases hb with rfl | rfl
      · exact .inl rfl
      · exact .inr rfl
  · exact ⟨[], v, rfl, .inl rfl, rfl⟩

theorem not_space_of_digit {c : UInt8} (h : digitVal c < 16) : isSpace c = false := by
  rcases hc : isSpace c with _ | _
  · rfl
  · simp only [isSpace, decide_eq_true_eq, UInt8.le_iff_toNat_le] at hc
    have hno : ¬ (48 ≤ c ∧ c ≤ 57) ∧ ¬ (65 ≤ c ∧ c ≤ 90) ∧ ¬ (97 ≤ c ∧ c ≤ 122) := by
      simp only [UInt8.le_iff_toNat_le]
      rcases hc with rfl | ⟨-, hc⟩
      · decide
      · have : (13 : UInt8).toNat = 13 := rfl
        have : (48 : UInt8).toNat = 48 := rfl
        have : (65 : UInt8).toNat = 65 := rfl
        have : (97 : UInt8).toNat = 97 := rfl
        omega
    simp [digitVal, hno] at h

theorem ne_of_digit {c d : UInt8} (h : digitVal c < 16) (hd : 16 ≤ digitVal d) : c ≠ d := by
  rintro rfl
  omega

theorem strtoul_of_numeral (hbase : base = 10 ∨ base = 16) (h : Numeral base s cp) :
    strtoul base (s ++ 59 :: rest) = (cp, false, 59 :: rest) := by
  have hstop : decide (digitVal 59 < base) = false := by
    rcases hbase with rfl | rfl <;> decide
  cases h with
  | empty =>
    rcases hbase with rfl | rfl <;> simp [strtoul, isSpace, digitVal]
  | @number spaces sign mark digits hspaces hsign hmark hne hdigits hrange =>
    have hle : base ≤ 16 := by omega
    obtain ⟨d, ds, rfl⟩ := List.exists_cons_of_ne_nil hne
    have hd := hdigits d List.mem_cons_self
    have hns := not_space_of_digit (hd.trans_le hle)
    have h45 : d ≠ 45 := ne_of_digit (hd.trans_le hle) (by decide)
    have h43 : d ≠ 43 := ne_of_digit (hd.trans_le hle) (by decide)
    have hdrop : ((spaces ++ (sign ++ (mark ++ d :: ds))) ++ 59 :: rest).dropWhile isSpace
        = sign ++ (mark ++ (d :: ds ++ 59 :: rest)) := by
      rw [List.append_assoc, List.dropWhile_append_of_pos hspaces]
      rcases hsign with rfl | rfl | rfl <;> rcases hmark with rfl | ⟨-, rfl | rfl⟩
      · rw [List.nil_append, List.nil_append, List.cons_append,
          List.dropWhile_cons_of_neg (by simp [hns])]
        rfl
      all_goals rfl
    have hx : (d :: ds ++ 59 :: rest)[1]? ≠ some 120 ∧ (d :: ds ++ 59 :: rest)[1]? ≠ some 88 := by
      rcases ds with _ | ⟨e, ds⟩
      · simp
      · have he := (hdigits e (by simp)).trans_le hle
        have h120 : e ≠ 120 := ne_of_digit he (by decide)
        have h88 : e ≠ 88 := ne_of_digit he (by decide)
        simp [h120, h88]
    have htake : (d :: ds ++ 59 :: rest).takeWhile (digitVal · < base) = d :: ds := by
      rw [takeWhile_append_stop hstop, List.takeWhile_eq_self_iff]
      simpa using hdigits
    have hs₂ : (if (sign ++ (mark ++ (d :: ds ++ 59 :: rest))).head? = some 45
          ∨ (sign ++ (mark ++ (d :: ds ++ 59 :: rest))).head? = some 43
        then (sign ++ (mark ++ (d :: ds ++ 59 :: rest))).drop 1
        else sign ++ (mark ++ (d :: ds ++ 59 :: rest))) = mark ++ (d :: ds ++ 59 :: rest) := by
      rcases hsign with rfl | rfl | rfl <;> rcases hmark with rfl | ⟨-, rfl | rfl⟩ <;>
        simp [h45, h43]
    have hneg : (sign ++ (mark ++ (d :: ds ++ 59 :: rest))).head? = some 45 ↔ sign = [45] := by
      rcases hsign with rfl | rfl | rfl <;> rcases hmark with rfl | ⟨-, rfl | rfl⟩ <;>
        simp [h45]
    have hs₃ : (if base = 16 ∧ (mark ++ (d :: ds ++ 59 :: rest)).head? = some 48
          ∧ ((mark ++ (d :: ds ++ 59 :: rest))[1]? = some 120
            ∨ (mark ++ (d :: ds ++ 59 :: rest))[1]? = some 88)
          ∧ (((mark ++ (d :: ds ++ 59 :: rest))[2]?.map digitVal).getD 36 < 16)
        then (mark ++ (d :: ds ++ 59 :: rest)).drop 2
        else mark ++ (d :: ds ++ 59 :: rest)) = d :: ds ++ 59 :: rest := by
      rcases hmark with rfl | ⟨rfl, rfl | rfl⟩
      · rw [List.nil_append, if_neg fun h => h.2.2.1.elim hx.1 hx.2]
      all_goals simp [hd]
    rw [← hdrop] at hs₂ hneg
    rw [strtoul_eq hs₂ hs₃ hneg, strtoulDigits, htake, if_neg hne, if_neg (not_le.2 hrange),
      List.drop_left]

/-- What `strtoul` reads up to a semicolon. -/
theorem strtoul_iff (s rest : Bytes) (hbase : base = 10 ∨ base = 16) :
    strtoul base (s ++ 59 :: rest) = (cp, false, 59 :: rest) ↔ Numeral base s cp := by
  have hle : base ≤ 16 := by omega
  refine ⟨fun h => ?_, strtoul_of_numeral hbase⟩
  have hspace := dropWhile_append_stop (p := isSpace) (c := 59) (by decide) rest s
  obtain ⟨sign, v, hu, hsign, hs₂, hneg⟩ := sign_split (s.dropWhile isSpace) rest
  obtain ⟨mark, w, hv, hmark, hs₃⟩ := mark_split base v rest
  rw [← hspace] at hs₂ hneg
  rw [strtoul_eq hs₂ hs₃ hneg] at h
  unfold strtoulDigits at h
  dsimp only at h
  by_cases hnil : (w ++ 59 :: rest).takeWhile (digitVal · < base) = []
  · -- nothing was read
    rw [if_pos hnil] at h
    obtain ⟨hcp, h⟩ := Prod.mk.inj h
    obtain rfl : s = [] := List.append_left_eq_self.1 (Prod.mk.inj h).2
    exact hcp ▸ .empty
  rw [if_neg hnil] at h
  by_cases hrange : 2 ^ 64 ≤ digitsValue base ((w ++ 59 :: rest).takeWhile (digitVal · < base))
  · rw [if_pos hrange] at h
    exact absurd (Prod.mk.inj (Prod.mk.inj h).2).1 (by simp)
  rw [if_neg hrange] at h
  obtain ⟨hcp, h⟩ := Prod.mk.inj h
  obtain ⟨hw, hdigits⟩ := digits_of_strtoul hle (Prod.mk.inj h).2
  rw [hw] at hnil hrange hcp
  have hspaces : ∀ c ∈ s.takeWhile isSpace, isSpace c := fun c hc => List.mem_takeWhile_imp hc
  have hnum := Numeral.number hspaces hsign hmark hnil hdigits (not_le.1 hrange)
  rw [← hv, ← hu, List.takeWhile_append_dropWhile, hcp] at hnum
  exact hnum

/-- The bytes a numeral is made of. -/
theorem Numeral.bytes (h : Numeral base s cp) {c : UInt8} (hc : c ∈ s) :
    isSpace c ∨ c = 43 ∨ c = 45 ∨ digitVal c < base ∨ base = 16 ∧ (c = 48 ∨ c = 120 ∨ c = 88) := by
  cases h with
  | empty => simp at hc
  | number hspaces hsign hmark hne hdigits hrange =>
    simp only [List.mem_append] at hc
    rcases hc with hc | hc | hc | hc
    · exact .inl (hspaces c hc)
    · rcases hsign with rfl | rfl | rfl <;> simp at hc <;> simp [hc]
    · rcases hmark with rfl | ⟨rfl, rfl | rfl⟩
      · simp at hc
      all_goals
        simp only [List.mem_cons, List.not_mem_nil, or_false] at hc
        tauto
    · simp [hdigits c hc]

theorem Numeral.semicolon_notMem (hbase : base ≤ 16) (h : Numeral base s cp) : 59 ∉ s := by
  intro hc
  have hbytes := h.bytes hc
  simp [isSpace, digitVal] at hbytes
  omega

theorem Numeral.head?_ne (h : Numeral 10 s cp) {x : UInt8} (hx : x = 120 ∨ x = 88) :
    s.head? ≠ some x := by
  intro hc
  have hbytes := h.bytes (List.mem_of_mem_head? hc)
  rcases hx with rfl | rfl <;> simp [isSpace, digitVal] at hbytes

end Numerals

section References

/-- What stands between an ampersand and the text to go on with, if it is a reference, and what it
stands for. -/
inductive Reference : Bytes → Bytes → Prop where
  | named {e : Bytes × Bytes} (he : e ∈ namedEntities) : Reference e.1 e.2
  | decimal {s : Bytes} {cp : ℕ} (h : Numeral 10 s cp) (hcp : cp ≤ unicodeMax) :
    Reference (35 :: (s ++ [59])) (putcUtf8 cp)
  | hex {x : UInt8} {s : Bytes} {cp : ℕ} (hx : x = 120 ∨ x = 88) (h : Numeral 16 s cp)
      (hcp : cp ≤ unicodeMax) :
    Reference (35 :: x :: (s ++ [59])) (putcUtf8 cp)

theorem strchr_append_cons {front : Bytes} {c : UInt8} (rest : Bytes) (h : c ∉ front) :
    strchr (front ++ c :: rest) c = some (c :: rest) := by
  rw [strchr, if_pos (by simp), ListSearch.dropWhile_ne_append_cons h]

theorem namedEntities_noHash : ∀ e ∈ namedEntities.toList, e.1.head? ≠ some 35 ∧ e.1 ≠ [] := by
  decide +kernel

/-- A reference ends at its only semicolon. -/
theorem Reference.semicolon {r out : Bytes} (h : Reference r out) :
    ∃ front, r = front ++ [59] ∧ 59 ∉ front := by
  cases h with
  | @named e he =>
    obtain ⟨hlast, hnot, -⟩ := namedEntities_shrink e (Array.mem_toList_iff.2 he)
    exact ⟨e.1.dropLast, (List.dropLast_append_getLast? 59 hlast).symm, hnot⟩
  | @decimal s cp h hcp =>
    have := h.semicolon_notMem (by decide)
    exact ⟨35 :: s, rfl, by simpa using this⟩
  | @hex x s cp hx h hcp =>
    have := h.semicolon_notMem (by decide)
    refine ⟨35 :: x :: s, rfl, ?_⟩
    rcases hx with rfl | rfl <;> simpa using this

theorem parseEntity_of_reference {r out : Bytes} (h : Reference r out) (rest : Bytes) :
    parseEntity (38 :: (r ++ rest)) = some (out, rest) := by
  obtain ⟨front, hr, hnot⟩ := h.semicolon
  have hfin : strchr (38 :: (r ++ rest)) 59 = some (59 :: rest) := by
    have hnot' : 59 ∉ 38 :: front := by simpa using hnot
    simpa [hr] using strchr_append_cons rest hnot'
  unfold parseEntity
  rw [hfin, Option.bind_eq_bind, Option.bind_some]
  cases h with
  | @named e he =>
    obtain ⟨hhash, hne⟩ := namedEntities_noHash e (Array.mem_toList_iff.2 he)
    have hno : ¬ (38 :: (e.1 ++ rest))[1]? = some 35 := by
      obtain ⟨a, n, hname⟩ := List.exists_cons_of_ne_nil hne
      simpa [hname] using hhash
    have hlook : getNamedEntity (e.1 ++ rest) = some e.2 :=
      getNamedEntity_iff.2 ⟨e, he, List.prefix_append _ _, rfl⟩
    rw [if_neg hno, List.drop_one, List.tail_cons, hlook]
    rfl
  | @decimal s cp h hcp =>
    have hhex : ¬ ((38 :: (35 :: (s ++ [59]) ++ rest))[2]? = some 120
        ∨ (38 :: (35 :: (s ++ [59]) ++ rest))[2]? = some 88) := by
      have h120 := h.head?_ne (.inl rfl)
      have h88 := h.head?_ne (.inr rfl)
      rcases s with _ | ⟨c, s⟩
      · simp
      · simp at h120 h88
        simp [h120, h88]
    have hread : strtoul 10 ((38 :: (35 :: (s ++ [59]) ++ rest)).drop 2)
        = (cp, false, 59 :: rest) := by
      simpa using (strtoul_iff s rest (.inl rfl)).2 h
    rw [if_pos (by simp)]
    simp only [if_neg hhex, hread]
    simp [hcp]
  | @hex x s cp hx h hcp =>
    have hhex : (38 :: (35 :: x :: (s ++ [59]) ++ rest))[2]? = some 120
        ∨ (38 :: (35 :: x :: (s ++ [59]) ++ rest))[2]? = some 88 := by
      simpa using hx
    have hread : strtoul 16 ((38 :: (35 :: x :: (s ++ [59]) ++ rest)).drop 3)
        = (cp, false, 59 :: rest) := by
      simpa using (strtoul_iff s rest (.inr rfl)).2 h
    rw [if_pos (by simp)]
    simp only [if_pos hhex, hread]
    simp [hcp]

theorem reference_of_parseEntity {t out rest : Bytes}
    (h : parseEntity (38 :: t) = some (out, rest)) : ∃ r, Reference r out ∧ t = r ++ rest := by
  unfold parseEntity at h
  obtain ⟨fin, hfin, h⟩ := Option.bind_eq_some_iff.1 h
  obtain ⟨front, tail, hfront, rfl, htext⟩ := strchr_eq_some hfin
  rcases front with _ | ⟨c, front⟩
  · cases htext
  obtain ⟨rfl, rfl⟩ : 38 = c ∧ t = front ++ 59 :: tail := by simpa using htext
  have hfront : 59 ∉ front := List.not_mem_of_not_mem_cons hfront
  by_cases hnum : (38 :: (front ++ 59 :: tail))[1]? = some 35
  · rw [if_pos hnum] at h
    obtain ⟨front, rfl⟩ : ∃ f, front = 35 :: f := by
      rcases front with _ | ⟨d, front⟩
      · simp at hnum
      · exact ⟨front, by simpa using hnum⟩
    by_cases hhex : (38 :: (35 :: front ++ 59 :: tail))[2]? = some 120
        ∨ (38 :: (35 :: front ++ 59 :: tail))[2]? = some 88
    · obtain ⟨x, s, rfl, hx⟩ : ∃ x s, front = x :: s ∧ (x = 120 ∨ x = 88) := by
        rcases front with _ | ⟨x, s⟩
        · simp at hhex
        · exact ⟨x, s, rfl, by simpa using hhex⟩
      simp only [if_pos hhex] at h
      split_ifs at h with hbad
      simp only [not_or, Bool.not_eq_true, not_not, not_lt] at hbad
      obtain ⟨rfl, rfl⟩ := Prod.mk.inj (Option.some.inj h)
      have hnumeral := (strtoul_iff s tail (.inr rfl)).1
        (Prod.ext rfl (Prod.ext hbad.1 hbad.2.1))
      exact ⟨_, .hex hx hnumeral hbad.2.2, by simp⟩
    · simp only [if_neg hhex] at h
      split_ifs at h with hbad
      simp only [not_or, Bool.not_eq_true, not_not, not_lt] at hbad
      obtain ⟨rfl, rfl⟩ := Prod.mk.inj (Option.some.inj h)
      have hnumeral := (strtoul_iff front tail (.inl rfl)).1
        (Prod.ext rfl (Prod.ext hbad.1 hbad.2.1))
      exact ⟨_, .decimal hnumeral hbad.2.2, by simp⟩
  · rw [if_neg hnum] at h
    obtain ⟨entity, hentity, h⟩ := Option.bind_eq_some_iff.1 h
    obtain ⟨rfl, rfl⟩ := Prod.mk.inj (Option.some.inj h)
    obtain ⟨e, he, hpre, rfl⟩ := getNamedEntity_iff.1 hentity
    obtain ⟨rest, hrest⟩ := hpre
    obtain ⟨name, hname, hnot⟩ := (Reference.named he).semicolon
    have hsame : name = front := by
      refine (ListSearch.concat_prefix_iff tail hnot hfront).1 ?_
      exact ⟨rest, by rw [← hname, hrest]; rfl⟩
    exact ⟨e.1, .named he, by simp [hname, hsame]⟩

/-- The parser takes the reference behind the ampersand. -/
theorem parseEntity_iff {t out rest : Bytes} : parseEntity (38 :: t) = some (out, rest) ↔
    ∃ r, Reference r out ∧ t = r ++ rest := by
  refine ⟨reference_of_parseEntity, ?_⟩
  rintro ⟨r, hr, rfl⟩
  exact parseEntity_of_reference hr rest

/-- The text with what it stands for in the place of every reference. -/
inductive DecodesTo : Bytes → Bytes → Prop where
  | nil : DecodesTo [] []
  | char {c : UInt8} {t u : Bytes} (hc : c ≠ 38) (h : DecodesTo t u) : DecodesTo (c :: t) (c :: u)
  | reference {r o t u : Bytes} (hr : Reference r o) (h : DecodesTo t u) :
    DecodesTo (38 :: (r ++ t)) (o ++ u)
  | ampersand {t u : Bytes} (hno : ∀ r o, Reference r o → ¬ r <+: t) (h : DecodesTo t u) :
    DecodesTo (38 :: t) (38 :: u)

theorem DecodesTo.front {t u : Bytes} (h : DecodesTo t u) :
    ∀ {front : Bytes}, 38 ∉ front → DecodesTo (front ++ t) (front ++ u)
  | [], _ => h
  | c :: front, hc => by
    simp only [List.mem_cons, not_or] at hc
    exact .char (Ne.symm hc.1) (h.front hc.2)

theorem DecodesTo.refl_of_notMem {t : Bytes} (h : 38 ∉ t) : DecodesTo t t := by
  simpa using DecodesTo.nil.front h

theorem decodes_decodeLoop : ∀ {fuel : ℕ} {text : Bytes}, text.length ≤ fuel →
    DecodesTo text (decodeLoop fuel text)
  | 0, text, h => by
    obtain rfl : text = [] := List.eq_nil_of_length_eq_zero (by omega)
    exact .nil
  | fuel + 1, text, h => by
    unfold decodeLoop
    rcases hamp : strchr text 38 with _ | current
    · refine .refl_of_notMem fun hmem => ?_
      simp [strchr, hmem] at hamp
    obtain ⟨front, tail, hfront, rfl, rfl⟩ := strchr_eq_some hamp
    rw [ListSearch.takeWhile_ne_append_cons hfront]
    refine DecodesTo.front ?_ hfront
    simp only [List.length_append, List.length_cons] at h
    rcases hparse : parseEntity (38 :: tail) with _ | ⟨out, rest⟩
    · refine .ampersand (fun r o hr hpre => ?_) (decodes_decodeLoop (by omega))
      obtain ⟨rest, rfl⟩ := hpre
      rw [parseEntity_of_reference hr] at hparse
      cases hparse
    · obtain ⟨r, hr, rfl⟩ := reference_of_parseEntity hparse
      rw [List.length_append] at h
      exact .reference hr (decodes_decodeLoop (by omega))

/-- A text has one decoding. -/
theorem DecodesTo.unique {t u u' : Bytes} (h : DecodesTo t u) (h' : DecodesTo t u') : u = u' := by
  induction h generalizing u' with
  | nil => cases h'; rfl
  | char hc h ih =>
    cases h' with
    | char _ h' => rw [ih h']
    | reference => exact absurd rfl hc
    | ampersand => exact absurd rfl hc
  | @reference r o t u hr h ih =>
    have hparse := parseEntity_of_reference hr t
    generalize htext : (38 :: (r ++ t) : Bytes) = text at h'
    cases h' with
    | nil => cases htext
    | char hc _ => exact absurd (List.cons.inj htext).1.symm hc
    | reference hr' h' =>
      rw [htext, parseEntity_of_reference hr'] at hparse
      obtain ⟨rfl, rfl⟩ := Prod.mk.inj (Option.some.inj hparse)
      rw [ih h']
    | ampersand hno _ => exact absurd ⟨t, (List.cons.inj htext).2⟩ (hno r o hr)
  | @ampersand t u hno h ih =>
    generalize htext : (38 :: t : Bytes) = text at h'
    cases h' with
    | nil => cases htext
    | char hc _ => exact absurd (List.cons.inj htext).1.symm hc
    | reference hr' _ => exact absurd ⟨_, (List.cons.inj htext).2.symm⟩ (hno _ _ hr')
    | ampersand _ h' =>
      obtain rfl := (List.cons.inj htext).2
      rw [ih h']

theorem decodesTo_decoded (text : Bytes) : DecodesTo text (decodeHtmlEntitiesUtf8 text) :=
  decodes_decodeLoop le_rfl

theorem DecodesTo.decoded_eq {text out : Bytes} (h : DecodesTo text out) :
    decodeHtmlEntitiesUtf8 text = out :=
  (decodesTo_decoded text).unique h

/-- The decoder puts what it stands for in the place of every reference, and changes nothing
else. -/
theorem decoded_iff (text out : Bytes) :
    decodeHtmlEntitiesUtf8 text = out ↔ DecodesTo text out := by
  constructor
  · rintro rfl
    exact decodesTo_decoded text
  · exact DecodesTo.decoded_eq

end References

end AuraHttpd
