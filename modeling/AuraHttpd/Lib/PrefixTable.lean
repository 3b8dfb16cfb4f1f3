import Mathlib.Data.List.Infix
import Mathlib.Data.List.Nodup
import Mathlib.Data.List.Perm.Basic

/-!
# Ordered tables of prefixes

A text is looked up in a list of entries by the first one whose key it begins with.  That is the
longest such key for every text exactly where no entry stands before one whose key extends its own
(`longest_of_lookup`, `nestedFirst_of_longest`); and only the order of entries of which one extends
the other matters (`lookup_perm`).
-/

namespace PrefixTable

variable {α β : Type*} [DecidableEq β] (key : α → List β)

/-- The first entry whose key the text begins with. -/
def lookup (xs : List α) (text : List β) : Option α := xs.find? (key · <+: text)

/-- No entry stands before one whose key begins with its own. -/
def NestedFirst (xs : List α) : Prop := xs.Pairwise fun a b => ¬ key a <+: key b

/-- The entry is one with the longest key the text begins with. -/
def Longest (xs : List α) (text : List β) (a : α) : Prop :=
  a ∈ xs ∧ key a <+: text ∧ ∀ b ∈ xs, key b <+: text → (key b).length ≤ (key a).length

variable {key} {xs ys : List α} {text : List β} {a b : α}

/-- Of two entries of a table without duplicates one stands before the other. -/
theorem pair_antisymm : ∀ {xs : List α}, xs.Nodup → [a, b].Sublist xs → [b, a].Sublist xs → a = b
  | [], _, hab, _ => by cases hab
  | c :: xs, hn, hab, hba => by
    obtain ⟨hc, hn⟩ := List.nodup_cons.1 hn
    cases hab with
    | cons _ hab =>
      cases hba with
      | cons _ hba => exact pair_antisymm hn hab hba
      | cons_cons _ hba => exact absurd (hab.subset (by simp)) hc
    | cons_cons _ hab =>
      cases hba with
      | cons _ hba => exact absurd (hba.subset (by simp)) hc
      | cons_cons _ hba => rfl

theorem lookup_eq_none_iff : lookup key xs text = none ↔ ∀ a ∈ xs, ¬ key a <+: text := by
  simp [lookup, List.find?_eq_none]

theorem mem_of_lookup (h : lookup key xs text = some a) : a ∈ xs ∧ key a <+: text :=
  ⟨List.mem_of_find?_eq_some h, by simpa using List.find?_some h⟩

theorem lookup_congr {text' : List β} (h : ∀ a ∈ xs, key a <+: text ↔ key a <+: text') :
    lookup key xs text = lookup key xs text' := by
  induction xs with
  | nil => rfl
  | cons a xs ih =>
    obtain ⟨ha, h⟩ := List.forall_mem_cons.1 h
    simp only [lookup, List.find?_cons, ha] at ih ⊢
    rw [ih h]

/-- Whatever the text also begins with stands behind. -/
theorem before_of_lookup (h : lookup key xs text = some a) (hb : b ∈ xs) (hkey : key b <+: text) :
    b = a ∨ [a, b].Sublist xs := by
  obtain ⟨-, front, back, rfl, hfront⟩ := List.find?_eq_some_iff_append.1 h
  rcases List.mem_append.1 hb with hb | hb
  · exact absurd hkey (by simpa using hfront b hb)
  rcases List.mem_cons.1 hb with rfl | hb
  · exact .inl rfl
  · refine .inr (List.Sublist.trans ?_ (List.sublist_append_right _ _))
    exact (List.singleton_sublist.2 hb).cons_cons a

theorem longest_of_lookup (hn : NestedFirst key xs) (h : lookup key xs text = some a) :
    Longest key xs text a := by
  obtain ⟨ha, hkey⟩ := mem_of_lookup h
  refine ⟨ha, hkey, fun b hb hbkey => ?_⟩
  rcases before_of_lookup h hb hbkey with rfl | hsub
  · exact le_rfl
  by_contra hlt
  refine List.pairwise_pair.1 (hn.sublist hsub) ?_
  exact List.prefix_of_prefix_length_le hkey hbkey (Nat.le_of_not_le hlt)

/-- Where each key is looked up to a longest one, every entry stands before those whose key its own
extends. -/
theorem nestedFirst_of_longest (hnodup : (xs.map key).Nodup)
    (h : ∀ c ∈ xs, ∀ a, lookup key xs (key c) = some a → Longest key xs (key c) a) :
    NestedFirst key xs := by
  refine List.pairwise_iff_forall_sublist.2 fun {a b} hab hkey => ?_
  have hb : b ∈ xs := hab.subset (by simp)
  rcases hfind : lookup key xs (key b) with _ | c
  · exact lookup_eq_none_iff.1 hfind b hb (List.prefix_refl _)
  obtain ⟨hc, hckey, hlong⟩ := h b hb c hfind
  have hcb : c = b := List.inj_on_of_nodup_map hnodup hc hb
    (hckey.eq_of_length (le_antisymm hckey.length_le (hlong b hb (List.prefix_refl _))))
  subst hcb
  have hxs : xs.Nodup := hnodup.of_map
  have hac : a ≠ c := by
    have := hxs.sublist hab
    simpa using this
  rcases before_of_lookup hfind (hab.subset (by simp)) hkey with rfl | hca
  · exact hac rfl
  · exact hac (pair_antisymm hxs hab hca)

/-- Two orders of a table look every text up alike if they agree on the entries that extend one
another. -/
theorem lookup_perm (hperm : xs.Perm ys) (hnodup : (xs.map key).Nodup)
    (hsame : ∀ a b, key a <+: key b → ([a, b].Sublist xs ↔ [a, b].Sublist ys)) (text : List β) :
    lookup key xs text = lookup key ys text := by
  rcases hx : lookup key xs text with _ | a <;> rcases hy : lookup key ys text with _ | b
  · rfl
  · obtain ⟨hb, hkey⟩ := mem_of_lookup hy
    exact absurd hkey (lookup_eq_none_iff.1 hx b (hperm.mem_iff.2 hb))
  · obtain ⟨ha, hkey⟩ := mem_of_lookup hx
    exact absurd hkey (lookup_eq_none_iff.1 hy a (hperm.mem_iff.1 ha))
  obtain ⟨ha, hakey⟩ := mem_of_lookup hx
  obtain ⟨hb, hbkey⟩ := mem_of_lookup hy
  rcases before_of_lookup hx (hperm.mem_iff.2 hb) hbkey with rfl | hab
  · rfl
  rcases before_of_lookup hy (hperm.mem_iff.1 ha) hakey with rfl | hba
  · rfl
  have hxs : xs.Nodup := hnodup.of_map
  rcases List.prefix_or_prefix_of_prefix hakey hbkey with hpre | hpre
  · rw [pair_antisymm (hperm.nodup_iff.1 hxs) ((hsame a b hpre).1 hab) hba]
  · rw [pair_antisymm hxs hab ((hsame b a hpre).2 hba)]

end PrefixTable
