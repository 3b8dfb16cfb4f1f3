import Mathlib.Data.List.Nodup
import Mathlib.Tactic.Common

/-!
# A store that hands out identifiers

Items enter at the end, each under the next identifier of a counter that never goes back.  A
store carries the log of what was assigned: identifiers only grow along it (`increasing`), what is
stored is what is left of it, and what is no longer stored was dropped by its identifier (`kept`).
-/

/-- Stored items with their identifiers, and the logs of what was assigned and dropped. -/
structure IdStore (α : Type*) where
  entries : List (ℕ × α)
  assigned : List (ℕ × α)
  dropped : List ℕ
  next : ℕ
  increasing : (assigned.map Prod.fst).Pairwise (· < ·)
  below : ∀ e ∈ assigned, e.1 < next
  sublist : entries.Sublist assigned
  kept : ∀ e ∈ assigned, e.1 ∉ dropped → e ∈ entries

namespace IdStore

variable {α : Type*}

def empty : IdStore α where
  entries := []
  assigned := []
  dropped := []
  next := 0
  increasing := .nil
  below := by simp
  sublist := .slnil
  kept := by simp

/-- An identifier is given to nothing. -/
def skip (s : IdStore α) : IdStore α where
  entries := s.entries
  assigned := s.assigned
  dropped := s.dropped
  next := s.next + 1
  increasing := s.increasing
  below e he := Nat.lt_succ_of_lt (s.below e he)
  sublist := s.sublist
  kept := s.kept

/-- An item enters under the next identifier. -/
def put (s : IdStore α) (a : α) : IdStore α where
  entries := s.entries ++ [(s.next, a)]
  assigned := s.assigned ++ [(s.next, a)]
  dropped := s.dropped
  next := s.next + 1
  increasing := by
    rw [List.map_append, List.pairwise_append]
    refine ⟨s.increasing, List.pairwise_singleton _ _, ?_⟩
    intro i hi j hj
    obtain ⟨e, he, rfl⟩ := List.mem_map.1 hi
    obtain rfl : j = s.next := by simpa using hj
    exact s.below e he
  below e he := by
    rcases List.mem_append.1 he with he | he
    · exact Nat.lt_succ_of_lt (s.below e he)
    · obtain rfl := List.mem_singleton.1 he
      exact Nat.lt_succ_self _
  sublist := s.sublist.append (.refl _)
  kept e he hd := by
    rcases List.mem_append.1 he with he | he
    · exact List.mem_append_left _ (s.kept e he hd)
    · exact List.mem_append_right _ he

/-- The item with an identifier leaves. -/
def drop (s : IdStore α) (i : ℕ) : IdStore α where
  entries := s.entries.filter (·.1 ≠ i)
  assigned := s.assigned
  dropped := s.dropped ++ [i]
  next := s.next
  increasing := s.increasing
  below := s.below
  sublist := List.filter_sublist.trans s.sublist
  kept e he hd := by
    rw [List.mem_append, not_or, List.mem_singleton] at hd
    exact List.mem_filter.2 ⟨s.kept e he hd.1, by simpa using hd.2⟩

theorem entries_increasing (s : IdStore α) : (s.entries.map Prod.fst).Pairwise (· < ·) :=
  s.increasing.sublist (s.sublist.map _)

theorem entries_below (s : IdStore α) {e : ℕ × α} (he : e ∈ s.entries) : e.1 < s.next :=
  s.below e (s.sublist.subset he)

/-- An identifier is that of at most one item. -/
theorem eq_of_id_eq (s : IdStore α) {e f : ℕ × α} (he : e ∈ s.entries) (hf : f ∈ s.entries)
    (h : e.1 = f.1) : e = f :=
  List.inj_on_of_nodup_map (s.entries_increasing.imp Nat.ne_of_lt) he hf h

end IdStore
