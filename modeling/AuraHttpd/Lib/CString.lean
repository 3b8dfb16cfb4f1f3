import AuraHttpd.Lib.Search
import Mathlib.Data.List.Nodup
import Mathlib.Data.List.TakeWhile
import Mathlib.Tactic.Ring
import Mathlib.Tactic.NormNum

/-!
# Bytes and C strings

A C string is the list of its bytes without the terminator; `cstr` reads one out of a block of
bytes.  The functions keep the names of the C library: `strtokR` is one call of `strtok_r`,
returning the token and what the save pointer is left at, `strtoul` returns the value, whether it
was out of range, and the unread rest.  `fmtD` and `fmtLu` print as `%d` and `%lu` do, and are
injective.
-/

namespace CString

abbrev Bytes := List UInt8

/-- The bytes of an ASCII literal. -/
def lit (s : String) : Bytes := s.toList.map fun c => c.toNat.toUInt8

/-- The string at the start of a block of bytes, up to the terminator. -/
def cstr (b : Bytes) : Bytes := b.takeWhile (· ≠ 0)

/-- One call of `strtok_r`: the token, if any, and the text behind it and its delimiter. -/
def strtokR (delim s : Bytes) : Option Bytes × Bytes :=
  match s.dropWhile (· ∈ delim) with
  | [] => (none, [])
  | c :: s' => (some ((c :: s').takeWhile (· ∉ delim)), ((c :: s').dropWhile (· ∉ delim)).drop 1)

/-- The text from the first occurrence of `needle` on. -/
def strstr (hay needle : Bytes) : Option Bytes :=
  (ListSearch.search needle hay).map (hay.drop ·)

/-- The text from the first `c` on. -/
def strchr (s : Bytes) (c : UInt8) : Option Bytes :=
  if c ∈ s then some (s.dropWhile (· ≠ c)) else none

/-- The text from the last `c` on. -/
def strrchr (s : Bytes) (c : UInt8) : Option Bytes :=
  if c ∈ s then some (c :: (s.reverse.takeWhile (· ≠ c)).reverse) else none

/-- Compares at most `n` bytes of two strings. -/
def strncmp : Bytes → Bytes → ℕ → Ordering
  | _, _, 0 => .eq
  | [], [], _ => .eq
  | [], _ :: _, _ => .lt
  | _ :: _, [], _ => .gt
  | a :: s, b :: t, n + 1 => if a < b then .lt else if b < a then .gt else strncmp s t n

/-- `bsearch` between two places of an array, `cmp` telling how the key compares to an entry. -/
def bsearchLoop {α : Type*} (cmp : α → Ordering) (a : Array α) : ℕ → ℕ → ℕ → Option α
  | 0, _, _ => none
  | fuel + 1, l, u =>
    if l < u then do
      let x ← a[(l + u) / 2]?
      match cmp x with
      | .lt => bsearchLoop cmp a fuel l ((l + u) / 2)
      | .gt => bsearchLoop cmp a fuel ((l + u) / 2 + 1) u
      | .eq => some x
    else none

def bsearch {α : Type*} (cmp : α → Ordering) (a : Array α) : Option α :=
  bsearchLoop cmp a (a.size + 1) 0 a.size

/-- The value of a letter as a digit in the bases up to 36. -/
def digitVal (c : UInt8) : ℕ :=
  if 48 ≤ c ∧ c ≤ 57 then c.toNat - 48
  else if 65 ≤ c ∧ c ≤ 90 then c.toNat - 55
  else if 97 ≤ c ∧ c ≤ 122 then c.toNat - 87
  else 36

def isSpace (c : UInt8) : Bool := c = 32 ∨ 9 ≤ c ∧ c ≤ 13

/-- `strtoul` in base 10 or 16: spaces, a sign and in base 16 a `0x` are skipped, a negative
number is taken modulo `2^64`, a number past `2^64` is out of range.  Without a digit nothing is
read and the value is zero. -/
def strtoul (base : ℕ) (s : Bytes) : ℕ × Bool × Bytes :=
  let s₁ := s.dropWhile isSpace
  let neg := s₁.head? = some 45
  let s₂ := if s₁.head? = some 45 ∨ s₁.head? = some 43 then s₁.drop 1 else s₁
  let hexed := base = 16 ∧ s₂.head? = some 48 ∧ (s₂[1]? = some 120 ∨ s₂[1]? = some 88) ∧
    ((s₂[2]?.map digitVal).getD 36 < 16)
  let s₃ := if hexed then s₂.drop 2 else s₂
  let digits := s₃.takeWhile (digitVal · < base)
  if digits = [] then (0, false, s)
  else
    let v := digits.foldl (fun a c => a * base + digitVal c) 0
    if 2 ^ 64 ≤ v then (2 ^ 64 - 1, true, s₃.drop digits.length)
    else (if neg then (2 ^ 64 - v) % 2 ^ 64 else v, false, s₃.drop digits.length)

/-- A number in decimal. -/
def decimal (n : ℕ) : Bytes := (Nat.toDigits 10 n).map fun c => c.toNat.toUInt8

/-- `%d` and `%ld`. -/
def fmtD (z : ℤ) : Bytes := if z < 0 then 45 :: decimal (-z).toNat else decimal z.toNat

/-- `%lu`, on the bits of a `long`. -/
def fmtLu (z : ℤ) : Bytes := decimal (z % 2 ^ 64).toNat

/-- A value stored into a signed integer of `2 ^ w` values. -/
def wrapS (w : ℕ) (z : ℤ) : ℤ := Int.bmod z (2 ^ w)

/-- A value stored into an unsigned integer of `2 ^ w` values. -/
def wrapU (w : ℕ) (z : ℤ) : ℤ := z % 2 ^ w

theorem strrchr_append_cons (t : Bytes) {k : Bytes} {c : UInt8} (hk : c ∉ k) :
    strrchr (t ++ c :: k) c = some (c :: k) := by
  rw [strrchr, if_pos (by simp), List.reverse_append, List.reverse_cons, List.append_assoc,
    List.singleton_append, ListSearch.takeWhile_ne_append_cons (by simpa using hk),
    List.reverse_reverse]

/-- The last occurrence begins the one ending that starts with the byte and has no other. -/
theorem strrchr_eq_some_iff {s e : Bytes} {c : UInt8} :
    strrchr s c = some e ↔ e <:+ s ∧ ∃ k, c ∉ k ∧ e = c :: k := by
  constructor
  · intro h
    have hc : c ∈ s := by
      by_contra hc
      simp [strrchr, hc] at h
    obtain ⟨back, front, hs, hback⟩ := List.eq_append_cons_of_mem (List.mem_reverse.2 hc)
    have hs' : s = front.reverse ++ c :: back.reverse := by
      rw [← s.reverse_reverse, hs]
      simp
    have hk : c ∉ back.reverse := by simpa using hback
    rw [hs', strrchr_append_cons _ hk] at h
    exact ⟨Option.some.inj h ▸ hs' ▸ List.suffix_append _ _, _, hk, (Option.some.inj h).symm⟩
  · rintro ⟨⟨t, rfl⟩, k, hk, rfl⟩
    exact strrchr_append_cons t hk

/-- A string compares equal over the whole of another where it begins with it. -/
theorem strncmp_eq_iff : ∀ {s t : Bytes}, strncmp s t t.length = .eq ↔ t <+: s
  | s, [] => by simp [strncmp]
  | [], b :: t => by simp [strncmp]
  | a :: s, b :: t => by
    rw [List.cons_prefix_cons, ← strncmp_eq_iff (s := s) (t := t), List.length_cons, strncmp]
    by_cases hlt : a < b
    · simp [hlt, (UInt8.ne_of_lt hlt).symm]
    by_cases hgt : b < a
    · simp [hlt, hgt, UInt8.ne_of_lt hgt]
    · obtain rfl : a = b := UInt8.le_antisymm (UInt8.not_lt.1 hgt) (UInt8.not_lt.1 hlt)
      simp

theorem wrapS_mem (w : ℕ) (z : ℤ) : -2 ^ w ≤ wrapS (w + 1) z ∧ wrapS (w + 1) z < 2 ^ w := by
  have hpos : (0 : ℤ) < 2 ^ w := by positivity
  have hle := Int.le_bmod (x := z) (m := 2 ^ (w + 1)) (by positivity)
  have hlt := Int.bmod_lt (x := z) (m := 2 ^ (w + 1)) (by positivity)
  push_cast [pow_succ] at hle hlt
  unfold wrapS
  rw [pow_succ]
  omega

/-- A value that fits stays as it is. -/
theorem wrapS_eq {w : ℕ} {z : ℤ} (hlo : -2 ^ w ≤ z) (hhi : z < 2 ^ w) : wrapS (w + 1) z = z := by
  refine Int.bmod_eq_of_le ?_ ?_ <;> push_cast [pow_succ] <;> omega

theorem wrapS_natCast {n : ℕ} (h : n < 2 ^ 31) : wrapS 32 (n : ℤ) = n :=
  wrapS_eq (w := 31) (by omega) (by omega)

theorem digit_toNat {n : ℕ} {c : Char} (h : c ∈ Nat.toDigits 10 n) :
    48 ≤ c.toNat ∧ c.toNat ≤ 57 := by
  have := Nat.isDigit_of_mem_toDigits (by decide) (by decide) h
  simp only [Char.isDigit, Bool.and_eq_true, decide_eq_true_eq] at this
  exact ⟨UInt32.le_iff_toNat_le.1 this.1, UInt32.le_iff_toNat_le.1 this.2⟩

theorem toUInt8_inj_of_lt {a b : ℕ} (ha : a < 256) (hb : b < 256) (h : a.toUInt8 = b.toUInt8) :
    a = b := by
  have := congrArg UInt8.toNat h
  simp only [Nat.toUInt8, UInt8.toNat_ofNat'] at this
  omega

theorem map_eq_of_inj_on {α β : Type*} {f : α → β} :
    ∀ {l m : List α}, (∀ a ∈ l, ∀ b ∈ m, f a = f b → a = b) → l.map f = m.map f → l = m
  | [], [], _, _ => rfl
  | [], b :: m, _, h => by simp at h
  | a :: l, [], _, h => by simp at h
  | a :: l, b :: m, hf, h => by
    simp only [List.map_cons, List.cons.injEq] at h
    rw [hf a (by simp) b (by simp) h.1,
      map_eq_of_inj_on (fun x hx y hy => hf x (by simp [hx]) y (by simp [hy])) h.2]

theorem decimal_inj {m n : ℕ} (h : decimal m = decimal n) : m = n := by
  have hdigits : Nat.toDigits 10 m = Nat.toDigits 10 n := by
    refine map_eq_of_inj_on (fun a ha b hb hab => ?_) h
    have ha := digit_toNat ha
    have hb := digit_toNat hb
    exact Char.toNat_inj.1 (toUInt8_inj_of_lt (by omega) (by omega) hab)
  have := congrArg (Nat.ofDigitChars 10 · 0) hdigits
  simpa only [Nat.ofDigitChars_ten_toDigits] using this

theorem toNat_of_digit {n : ℕ} {c : Char} (h : c ∈ Nat.toDigits 10 n) :
    c.toNat.toUInt8.toNat = c.toNat := by
  have := digit_toNat h
  rw [Nat.toUInt8, UInt8.toNat_ofNat']
  omega

theorem digit_of_mem_decimal {n : ℕ} {c : UInt8} (h : c ∈ decimal n) : 48 ≤ c ∧ c ≤ 57 := by
  obtain ⟨d, hd, rfl⟩ := List.mem_map.1 h
  have := digit_toNat hd
  rw [UInt8.le_iff_toNat_le, UInt8.le_iff_toNat_le, toNat_of_digit hd]
  exact this

theorem fmtD_bytes {z : ℤ} {c : UInt8} (h : c ∈ fmtD z) : c = 45 ∨ 48 ≤ c ∧ c ≤ 57 := by
  unfold fmtD at h
  split_ifs at h
  · rcases List.mem_cons.1 h with h | h
    · exact .inl h
    · exact .inr (digit_of_mem_decimal h)
  · exact .inr (digit_of_mem_decimal h)

theorem decimal_ne_nil (n : ℕ) : decimal n ≠ [] := by
  simp [decimal, Nat.toDigits_ne_nil]

theorem digitVal_of_digit {n : ℕ} {c : Char} (h : c ∈ Nat.toDigits 10 n) :
    digitVal c.toNat.toUInt8 = c.toNat - 48 := by
  rw [digitVal, if_pos (digit_of_mem_decimal (List.mem_map_of_mem h)), toNat_of_digit h]

/-- Reading the digits of a number one by one gives the number. -/
theorem foldl_decimal (n : ℕ) :
    (decimal n).foldl (fun a c => a * 10 + digitVal c) 0 = n := by
  have hfold : ∀ (l : List Char) (a : ℕ), (∀ c ∈ l, c ∈ Nat.toDigits 10 n) →
      (l.map fun c => c.toNat.toUInt8).foldl (fun a c => a * 10 + digitVal c) a
        = Nat.ofDigitChars 10 l a := by
    intro l
    induction l with
    | nil => intro a _; rfl
    | cons c l ih =>
      intro a hl
      rw [List.map_cons, List.foldl_cons, Nat.ofDigitChars_cons,
        digitVal_of_digit (hl c List.mem_cons_self), Nat.mul_comm,
        ih _ fun d hd => hl d (List.mem_cons_of_mem _ hd)]
      rfl
  rw [decimal, hfold _ 0 fun c hc => hc, Nat.ofDigitChars_ten_toDigits]

theorem minus_notMem_decimal (n : ℕ) : (45 : UInt8) ∉ decimal n := by
  intro h
  have := digit_of_mem_decimal h
  revert this
  decide

theorem fmtD_inj {a b : ℤ} (h : fmtD a = fmtD b) : a = b := by
  unfold fmtD at h
  split_ifs at h with ha hb hb
  · have := decimal_inj (List.cons.inj h).2
    omega
  · exact absurd (h ▸ List.mem_cons_self) (minus_notMem_decimal b.toNat)
  · exact absurd (h ▸ List.mem_cons_self) (minus_notMem_decimal a.toNat)
  · have := decimal_inj h
    omega

theorem fmtLu_inj {a b : ℤ} (ha : 0 ≤ a ∧ a < 2 ^ 64) (hb : 0 ≤ b ∧ b < 2 ^ 64)
    (h : fmtLu a = fmtLu b) : a = b := by
  have := decimal_inj h
  omega

theorem cstr_eq_self {b : Bytes} (h : ∀ c ∈ b, c ≠ 0) : cstr b = b := by
  rw [cstr, List.takeWhile_eq_self_iff]
  intro c hc
  simpa using h c hc

/-- The first token of a text is what stands before the first delimiter. -/
theorem strtokR_of_not_mem {delim tok rest : Bytes} {c : UInt8} (hne : tok ≠ [])
    (htok : ∀ a ∈ tok, a ∉ delim) (hc : c ∈ delim) :
    strtokR delim (tok ++ c :: rest) = (some tok, rest) := by
  obtain ⟨a, tok', rfl⟩ := List.exists_cons_of_ne_nil hne
  have hpos : ∀ b ∈ a :: tok', (decide (b ∉ delim)) = true := fun b hb => by simpa using htok b hb
  have hhead : (a :: tok' ++ c :: rest).dropWhile (· ∈ delim) = a :: (tok' ++ c :: rest) := by
    rw [List.cons_append, List.dropWhile_cons_of_neg (by simpa using htok a (by simp))]
  rw [strtokR, hhead]
  simp only [← List.cons_append]
  rw [List.takeWhile_append_of_pos hpos, List.dropWhile_append_of_pos hpos]
  simp [hc]

theorem strtokR_all {delim tok : Bytes} (hne : tok ≠ []) (htok : ∀ a ∈ tok, a ∉ delim) :
    strtokR delim tok = (some tok, []) := by
  obtain ⟨a, tok', rfl⟩ := List.exists_cons_of_ne_nil hne
  have hpos : ∀ b ∈ a :: tok', (decide (b ∉ delim)) = true := fun b hb => by simpa using htok b hb
  have hhead : (a :: tok').dropWhile (· ∈ delim) = a :: tok' := by
    rw [List.dropWhile_cons_of_neg (by simpa using htok a (by simp))]
  have htake := List.takeWhile_eq_self_iff.2 hpos
  have hdrop := List.dropWhile_eq_nil_iff.2 hpos
  rw [strtokR, hhead]
  simp only [htake, hdrop]
  rfl

/-- Delimiters before a token are skipped. -/
theorem strtokR_skip {delim pre : Bytes} (h : ∀ a ∈ pre, a ∈ delim) (s : Bytes) :
    strtokR delim (pre ++ s) = strtokR delim s := by
  unfold strtokR
  rw [List.dropWhile_append_of_pos (by simpa using h)]

/-- A token stands behind delimiters only, and ends the text or is ended by a delimiter. -/
theorem of_strtokR {delim s tok rest : Bytes} (h : strtokR delim s = (some tok, rest)) :
    ∃ pre, (∀ a ∈ pre, a ∈ delim) ∧ tok ≠ [] ∧ (∀ a ∈ tok, a ∉ delim)
      ∧ (s = pre ++ tok ∧ rest = [] ∨ ∃ c ∈ delim, s = pre ++ (tok ++ c :: rest)) := by
  have hs := List.takeWhile_append_dropWhile (p := (· ∈ delim)) (l := s)
  have hpre : ∀ a ∈ s.takeWhile (· ∈ delim), a ∈ delim := fun a ha => by
    simpa using List.mem_takeWhile_imp ha
  unfold strtokR at h
  rcases ht : s.dropWhile (· ∈ delim) with _ | ⟨c, t⟩ <;> rw [ht] at h
  · cases h
  rw [ht] at hs
  have hc : c ∉ delim := by
    have := List.head?_dropWhile_not (· ∈ delim) s
    rw [ht] at this
    simpa using this
  simp only [Prod.mk.injEq, Option.some.injEq] at h
  obtain ⟨rfl, rfl⟩ := h
  refine ⟨_, hpre, ?_, fun a ha => by simpa using List.mem_takeWhile_imp ha, ?_⟩
  · rw [List.takeWhile_cons_of_pos (by simpa using hc)]
    exact List.cons_ne_nil _ _
  have htok := List.takeWhile_append_dropWhile (p := (· ∉ delim)) (l := c :: t)
  rcases hd : (c :: t).dropWhile (· ∉ delim) with _ | ⟨d, rest⟩
  · rw [hd, List.append_nil] at htok
    exact .inl ⟨by rw [htok, hs], rfl⟩
  · have hdm : d ∈ delim := by
      have := List.head?_dropWhile_not (· ∉ delim) (c :: t)
      rw [hd] at this
      simpa using this
    rw [hd] at htok
    exact .inr ⟨d, hdm, by rw [List.drop_one, List.tail_cons, htok, hs]⟩

end CString
