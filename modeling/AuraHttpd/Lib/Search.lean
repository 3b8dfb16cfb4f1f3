import Mathlib.Data.List.Infix
import Mathlib.Data.List.TakeWhile
import Mathlib.Tactic.Common

/-!
# The first occurrence of a pattern

`search pat l` is the position of the first occurrence of `pat` in `l`.  Data in which the
pattern does not occur, closed by separators the pattern does not contain, hides no occurrence:
the search over it and a following pattern finds that pattern (`search_delimited`).
-/

namespace ListSearch

variable {α : Type*} [DecidableEq α]

/-- The position of the first occurrence of `pat`. -/
def search (pat : List α) : List α → Option ℕ
  | [] => if pat = [] then some 0 else none
  | x :: xs => if pat <+: x :: xs then some 0 else (search pat xs).map (· + 1)

theorem search_of_prefix {pat l : List α} (h : pat <+: l) : search pat l = some 0 := by
  cases l with
  | nil => simp [search, List.prefix_nil.1 h]
  | cons x xs => simp [search, h]

theorem search_cons_of_not_prefix {pat xs : List α} {x : α} (h : ¬ pat <+: x :: xs) :
    search pat (x :: xs) = (search pat xs).map (· + 1) := by
  simp [search, h]

theorem prefix_of_search {pat : List α} :
    ∀ {l : List α} {n : ℕ}, search pat l = some n → pat <+: l.drop n
  | [], n, h => by
    simp only [search] at h
    split_ifs at h with hp
    simp [hp]
  | x :: xs, n, h => by
    simp only [search] at h
    split_ifs at h with hp
    · obtain rfl : 0 = n := by simpa using h
      exact hp
    · obtain ⟨m, hm, rfl⟩ := Option.map_eq_some_iff.1 h
      simpa using prefix_of_search hm

theorem search_some_le {pat l : List α} {n : ℕ} (h : search pat l = some n) :
    n + pat.length ≤ l.length ∨ pat = [] := by
  rcases pat with _ | ⟨a, pat⟩
  · exact .inr rfl
  · have := (prefix_of_search h).length_le
    simp only [List.length_drop, List.length_cons] at this ⊢
    omega

theorem search_eq_none_iff {pat : List α} :
    ∀ {l : List α}, search pat l = none ↔ ¬ pat <:+: l
  | [] => by simp [search]
  | x :: xs => by
    by_cases hx : pat <+: x :: xs
    · have hfound := search_of_prefix hx
      simp [hfound, hx.isInfix]
    · have hnext := search_cons_of_not_prefix hx
      rw [hnext, Option.map_eq_none_iff, search_eq_none_iff, List.infix_cons_iff]
      simp [hx]

/-- What is found in a text is found there first also where the text goes on. -/
theorem search_append_of_some {pat : List α} (rest : List α) :
    ∀ {l : List α} {n : ℕ}, search pat l = some n → search pat (l ++ rest) = some n
  | [], n, h => by
    simp only [search] at h
    split_ifs at h with hp
    have hzero : search pat ([] ++ rest) = some 0 := search_of_prefix (by simp [hp])
    rw [hzero, ← h]
  | x :: xs, n, h => by
    by_cases hx : pat <+: x :: xs
    · have hfound := search_of_prefix hx
      have hlonger := search_of_prefix (hx.trans (List.prefix_append _ rest))
      rw [hlonger, ← h, hfound]
    · have hnext := search_cons_of_not_prefix hx
      rw [hnext] at h
      obtain ⟨m, hm, rfl⟩ := Option.map_eq_some_iff.1 h
      have hx' : ¬ pat <+: x :: (xs ++ rest) := by
        intro hpre
        refine hx (List.prefix_of_prefix_length_le hpre (List.prefix_append (x :: xs) rest) ?_)
        rcases search_some_le hm with hle | rfl
        · rw [List.length_cons]
          omega
        · exact Nat.zero_le _
      rw [List.cons_append, search_cons_of_not_prefix hx', search_append_of_some rest hm,
        Option.map_some]

/-- Where the pattern starts nowhere in `pre`, the search goes on behind it. -/
theorem search_append {pat rest : List α} :
    ∀ {pre : List α}, (∀ n < pre.length, ¬ pat <+: (pre ++ rest).drop n) →
      search pat (pre ++ rest) = (search pat rest).map (· + pre.length)
  | [], _ => by simp
  | x :: pre, h => by
    have hx : ¬ pat <+: x :: (pre ++ rest) := by simpa using h 0 (by simp)
    have hpre : ∀ n < pre.length, ¬ pat <+: (pre ++ rest).drop n := fun n hn => by
      simpa using h (n + 1) (by simpa using hn)
    rw [List.cons_append, search_cons_of_not_prefix hx, search_append hpre, Option.map_map]
    rfl

/-- Nothing stands before the first occurrence. -/
theorem not_infix_of_search {pat l : List α} {n m : ℕ} (h : search pat l = some n) (hne : pat ≠ [])
    (hm : m ≤ n) : ¬ pat <:+: l.take m := by
  intro hin
  obtain ⟨k, hk⟩ := Option.ne_none_iff_exists'.1 fun hnone => search_eq_none_iff.1 hnone hin
  have hle := (search_some_le hk).resolve_right hne
  have hfound := search_append_of_some (l.drop m) hk
  rw [List.take_append_drop, h, Option.some.injEq] at hfound
  have hpos := List.length_pos_of_ne_nil hne
  rw [List.length_take] at hle
  omega

omit [DecidableEq α] in
/-- A pattern none of whose letters is the separator `c` starts nowhere before `c` unless it
occurs there in full. -/
theorem not_prefix_of_sep {pat data : List α} (tail : List α) {c : α}
    (hdata : ¬ pat <:+: data) (hc : c ∉ pat) {n : ℕ} (hn : n ≤ data.length) :
    ¬ pat <+: (data ++ c :: tail).drop n := by
  intro h
  rw [List.drop_append_of_le_length hn] at h
  rcases Nat.lt_or_ge (data.drop n).length pat.length with hlt | hle
  · have hmem : c ∈ pat := by
      have hpre : data.drop n ++ [c] <+: pat := by
        refine List.prefix_of_prefix_length_le ⟨tail, by simp⟩ h ?_
        rw [List.length_append, List.length_singleton]
        exact hlt
      exact hpre.subset (by simp)
    exact hc hmem
  · have hpre : pat <+: data.drop n :=
      List.prefix_of_prefix_length_le h (List.prefix_append _ _) hle
    exact hdata (hpre.isInfix.trans (List.drop_suffix n data).isInfix)

/-- Nothing is found before or in a separator, none of whose letters the pattern has. -/
theorem search_past {pat data sep rest : List α} (hdata : ¬ pat <:+: data)
    (hne : pat ≠ []) (hsep : ∀ c ∈ sep, c ∉ pat) (hs : sep ≠ []) :
    search pat (data ++ (sep ++ rest))
      = (search pat rest).map (· + (data.length + sep.length)) := by
  have hstart : ∀ n < (data ++ sep).length, ¬ pat <+: (data ++ sep ++ rest).drop n := by
    intro n hn
    rcases Nat.lt_or_ge n data.length with hlt | hge
    · obtain ⟨c, sep', rfl⟩ := List.exists_cons_of_ne_nil hs
      have := not_prefix_of_sep (sep' ++ rest) hdata (hsep c (by simp)) hlt.le
      simpa using this
    · obtain ⟨a, pat', rfl⟩ := List.exists_cons_of_ne_nil hne
      rw [List.length_append] at hn
      have hlt : n - data.length < sep.length := by omega
      rw [List.append_assoc, List.drop_append, List.drop_eq_nil_of_le hge, List.nil_append,
        List.drop_append_of_le_length hlt.le, List.drop_eq_getElem_cons hlt, List.cons_append]
      intro h
      have ha : a = sep[n - data.length] := by simpa using (List.cons_prefix_cons.1 h).1
      exact hsep _ (List.getElem_mem hlt) (ha ▸ List.mem_cons_self)
  rw [← List.append_assoc, search_append hstart, List.length_append]

theorem search_delimited {pat data sep rest : List α} (hdata : ¬ pat <:+: data)
    (hne : pat ≠ []) (hsep : ∀ c ∈ sep, c ∉ pat) (hs : sep ≠ []) (hrest : pat <+: rest) :
    search pat (data ++ (sep ++ rest)) = some (data.length + sep.length) := by
  rw [search_past hdata hne hsep hs, search_of_prefix hrest]
  simp

omit [DecidableEq α] in
/-- What ends with a letter it has nowhere else is the text up to that letter. -/
theorem concat_prefix_iff {c : α} :
    ∀ {body data : List α} (rest : List α), c ∉ body → c ∉ data →
      (body ++ [c] <+: data ++ c :: rest ↔ body = data)
  | [], [], rest, _, _ => by simp
  | [], x :: data, rest, _, hd => by
    have hx : c ≠ x := fun h => hd (h ▸ List.mem_cons_self)
    simp [List.cons_prefix_cons, hx]
  | x :: body, [], rest, hb, _ => by
    have hx : x ≠ c := fun h => hb (h ▸ List.mem_cons_self)
    simp [List.cons_prefix_cons, hx]
  | x :: body, y :: data, rest, hb, hd => by
    have ih := concat_prefix_iff rest (List.not_mem_of_not_mem_cons hb)
      (List.not_mem_of_not_mem_cons hd)
    simp [List.cons_prefix_cons, ih]

/-- A pattern that ends with a letter it has nowhere else is found at the first such letter with
the pattern's body before it. -/
theorem search_concat {body : List α} (rest : List α) {c : α} (hb : c ∉ body) :
    ∀ {data : List α}, c ∉ data → search (body ++ [c]) (data ++ c :: rest)
      = if body <:+ data then some (data.length - body.length)
        else (search (body ++ [c]) rest).map (· + (data.length + 1))
  | [], _ => by
    have hstart := concat_prefix_iff rest hb (List.not_mem_nil (a := c))
    simp only [List.nil_append] at hstart
    simp [search, hstart]
  | x :: data, hd => by
    have hstart := concat_prefix_iff rest hb hd
    have ih := search_concat rest hb (List.not_mem_of_not_mem_cons hd)
    simp only [List.cons_append] at hstart
    rw [List.cons_append, search]
    simp only [hstart, ih, List.suffix_cons_iff]
    by_cases heq : body = x :: data
    · simp [heq]
    · by_cases hs : body <:+ data
      · have := hs.length_le
        simp only [heq, hs, if_true, if_false, or_true, Option.map_some, List.length_cons]
        congr 1
        omega
      · simp [heq, hs, Option.map_map, Function.comp_def, Nat.add_assoc]

theorem search_concat_none (body : List α) {data : List α} {c : α} (hd : c ∉ data) :
    search (body ++ [c]) data = none :=
  search_eq_none_iff.2 fun h => hd (h.subset (by simp))

/-- What stands before the first occurrence of an element. -/
theorem takeWhile_ne_append_cons {x : α} {l : List α} (hx : x ∉ l) (rest : List α) :
    (l ++ x :: rest).takeWhile (· ≠ x) = l := by
  have hne : ∀ a ∈ l, decide (a ≠ x) = true := fun a ha =>
    decide_eq_true fun heq => hx (heq ▸ ha)
  rw [List.takeWhile_append_of_pos hne, List.takeWhile_cons_of_neg (by simp), List.append_nil]

theorem dropWhile_ne_append_cons {x : α} {l : List α} (hx : x ∉ l) (rest : List α) :
    (l ++ x :: rest).dropWhile (· ≠ x) = x :: rest := by
  have hne : ∀ a ∈ l, decide (a ≠ x) = true := fun a ha =>
    decide_eq_true fun heq => hx (heq ▸ ha)
  rw [List.dropWhile_append_of_pos hne, List.dropWhile_cons_of_neg (by simp)]

end ListSearch
