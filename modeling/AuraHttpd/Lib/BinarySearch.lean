import AuraHttpd.Lib.CString
import Mathlib.Data.List.Chain

/-!
# Binary search

`bsearch` finds an entry wherever there is one, in an array whose entries come in the order the
comparison tells (`Ascending`): those the key is greater than, then those it is equal to, then those
it is less than.  A table of strings is in that order for the comparison of a text with the length
of each entry, if every entry is less than the next one at a byte both of them have (`Before`).
-/

namespace CString

section Search

variable {α : Type*} {cmp : α → Ordering} {a : Array α}

/-- Behind an entry the key is less than, or in front of one it is greater than, it stays so. -/
def Ascending (cmp : α → Ordering) (l : List α) : Prop :=
  l.Pairwise fun x y => (cmp x = .lt → cmp y = .lt) ∧ (cmp y = .gt → cmp x = .gt)

theorem Ascending.get (h : Ascending cmp a.toList) {i j : ℕ} {x y : α} (hij : i < j)
    (hx : a[i]? = some x) (hy : a[j]? = some y) :
    (cmp x = .lt → cmp y = .lt) ∧ (cmp y = .gt → cmp x = .gt) := by
  obtain ⟨hi, rfl⟩ := Array.getElem?_eq_some_iff.1 hx
  obtain ⟨hj, rfl⟩ := Array.getElem?_eq_some_iff.1 hy
  exact List.pairwise_iff_getElem.1 h i j (by simpa using hi) (by simpa using hj) hij

theorem mem_of_bsearchLoop {x : α} :
    ∀ {fuel l u : ℕ}, bsearchLoop cmp a fuel l u = some x → x ∈ a ∧ cmp x = .eq
  | 0, l, u, h => by cases h
  | fuel + 1, l, u, h => by
    unfold bsearchLoop at h
    split_ifs at h
    obtain ⟨y, hy, h⟩ := Option.bind_eq_some_iff.1 h
    split at h
    · exact mem_of_bsearchLoop h
    · exact mem_of_bsearchLoop h
    · rename_i heq
      obtain rfl := Option.some.inj h
      exact ⟨Array.mem_of_getElem? hy, heq⟩

/-- An entry between the two places is not lost. -/
theorem bsearchLoop_isSome (h : Ascending cmp a.toList) {x : α} (hx : cmp x = .eq) :
    ∀ {fuel l u i : ℕ}, a[i]? = some x → l ≤ i → i < u → u ≤ a.size → u - l < fuel →
      (bsearchLoop cmp a fuel l u).isSome
  | 0, _, _, _, _, _, _, _, hfuel => absurd hfuel (Nat.not_lt_zero _)
  | fuel + 1, l, u, i, hi, hl, hu, hsize, hfuel => by
    have hmid : (l + u) / 2 < a.size := by omega
    unfold bsearchLoop
    rw [if_pos (by omega), Array.getElem?_eq_getElem hmid]
    rcases hm : cmp a[(l + u) / 2] with _ | _ | _
    · -- the entry is not behind one the key is less than
      have hlt : i < (l + u) / 2 := by
        by_contra hge
        rcases (Nat.not_lt.1 hge).eq_or_lt with heq | hlt
        · obtain ⟨hi', hget⟩ := Array.getElem?_eq_some_iff.1 hi
          subst heq
          rw [hget, hx] at hm
          cases hm
        · have := (h.get hlt (Array.getElem?_eq_getElem hmid) hi).1 hm
          rw [hx] at this
          cases this
      simp only [Option.bind_eq_bind, Option.bind_some, hm]
      exact bsearchLoop_isSome h hx hi hl hlt (by omega) (by omega)
    · simp [hm]
    · have hlt : (l + u) / 2 < i := by
        by_contra hge
        rcases (Nat.not_lt.1 hge).eq_or_lt with heq | hlt
        · obtain ⟨hi', hget⟩ := Array.getElem?_eq_some_iff.1 hi
          subst heq
          rw [hget, hx] at hm
          cases hm
        · have := (h.get hlt hi (Array.getElem?_eq_getElem hmid)).2 hm
          rw [hx] at this
          cases this
      simp only [Option.bind_eq_bind, Option.bind_some, hm]
      exact bsearchLoop_isSome h hx hi hlt hu hsize (by omega)

/-- `bsearch` finds something exactly where the key is equal to an entry. -/
theorem bsearch_isSome_iff (h : Ascending cmp a.toList) :
    (bsearch cmp a).isSome ↔ ∃ x ∈ a, cmp x = .eq := by
  constructor
  · intro hs
    obtain ⟨x, hx⟩ := Option.isSome_iff_exists.1 hs
    exact ⟨x, mem_of_bsearchLoop hx⟩
  · rintro ⟨x, hmem, hx⟩
    obtain ⟨i, hi, rfl⟩ := Array.mem_iff_getElem.1 hmem
    exact bsearchLoop_isSome h hx (Array.getElem?_eq_getElem hi) (Nat.zero_le i) hi le_rfl
      (by omega)

end Search

section Strings

/-- The first string is less than the second at a byte both of them have. -/
def before : Bytes → Bytes → Bool
  | a :: s, b :: t => a < b || (a = b && before s t)
  | _, _ => false

theorem before_trans : ∀ {s t u : Bytes}, before s t → before t u → before s u
  | [], _, _, h, _ => by cases h
  | _ :: _, [], _, h, _ => by cases h
  | _ :: _, _ :: _, [], _, h => by cases h
  | a :: s, b :: t, c :: u, h, h' => by
    simp only [before, Bool.or_eq_true, Bool.and_eq_true, decide_eq_true_eq] at h h' ⊢
    rcases h with h | ⟨rfl, h⟩
    · rcases h' with h' | ⟨rfl, h'⟩
      · exact .inl (UInt8.lt_trans h h')
      · exact .inl h
    · rcases h' with h' | ⟨rfl, h'⟩
      · exact .inl h'
      · exact .inr ⟨rfl, before_trans h h'⟩

/-- A string is not less than one that it starts, nor than itself. -/
theorem not_prefix_of_before : ∀ {s t : Bytes}, before s t → ¬ s <+: t ∧ ¬ t <+: s
  | [], _, h => by cases h
  | _ :: _, [], h => by cases h
  | a :: s, b :: t, h => by
    simp only [before, Bool.or_eq_true, Bool.and_eq_true, decide_eq_true_eq] at h
    simp only [List.cons_prefix_cons, not_and]
    rcases h with h | ⟨rfl, h⟩
    · constructor <;>
      · rintro rfl
        exact absurd h (UInt8.lt_irrefl _)
    · exact ⟨fun _ => (not_prefix_of_before h).1, fun _ => (not_prefix_of_before h).2⟩

theorem strncmp_before : ∀ {s t t' : Bytes}, before t t' →
    (strncmp s t t.length = .lt → strncmp s t' t'.length = .lt)
      ∧ (strncmp s t' t'.length = .gt → strncmp s t t.length = .gt)
  | _, [], _, h => by cases h
  | _, _ :: _, [], h => by cases h
  | [], b :: t, c :: t', h => by simp [strncmp]
  | a :: s, b :: t, c :: t', h => by
    simp only [before, Bool.or_eq_true, Bool.and_eq_true, decide_eq_true_eq] at h
    simp only [strncmp, List.length_cons]
    rcases h with h | ⟨rfl, h⟩
    · rw [UInt8.lt_iff_toNat_lt] at h
      constructor
      · intro hlt
        have hac : a < c := by
          rw [UInt8.lt_iff_toNat_lt]
          split_ifs at hlt with hab hba <;> rw [UInt8.lt_iff_toNat_lt] at hab
          · omega
          · rw [UInt8.lt_iff_toNat_lt] at hba
            omega
        rw [if_pos hac]
      · intro hgt
        have hba : ¬ a < b ∧ b < a := by
          simp only [UInt8.lt_iff_toNat_lt] at hgt ⊢
          split_ifs at hgt <;> omega
        rw [if_neg hba.1, if_pos hba.2]
    · split_ifs
      · exact ⟨id, id⟩
      · exact ⟨id, id⟩
      · exact strncmp_before h

/-- A table whose keys come one before the other is in the order `strncmp` needs. -/
theorem ascending_of_before {α : Type*} {key : α → Bytes} {l : List α} (s : Bytes)
    (h : l.IsChain fun x y => before (key x) (key y)) :
    Ascending (fun x => strncmp s (key x) (key x).length) l := by
  have htrans : IsTrans α fun x y => before (key x) (key y) := ⟨fun _ _ _ => before_trans⟩
  exact (List.isChain_iff_pairwise.1 h).imp fun h => strncmp_before h

end Strings

end CString
