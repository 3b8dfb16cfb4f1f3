import Mathlib.Data.List.Nodup
import Mathlib.Data.List.TakeWhile
import Mathlib.Tactic.Common

/-!
# Sequences in chains

A sequence that lies in several pieces of memory, each at an address of its own.  Taking elements
off the front frees the pieces that are used up and advances the first one that is left.  A place
that was noted as a piece and an offset in it (`locate`) is therefore lost with its piece, and
else moves on by what was taken off the piece.  On the pieces alone `lead` tells which of the two
happens, and how far behind the front the place is then (`follow`).
-/

structure Chain (α : Type*) where
  addr : ℕ
  data : List α

namespace Chain

variable {α : Type*}

def content (cs : List (Chain α)) : List α := (cs.map data).flatten

/-- The chain that holds the `n`th element, and the offset there. -/
def locate : List (Chain α) → ℕ → Option (ℕ × ℕ)
  | [], _ => none
  | c :: cs, n => if n < c.data.length then some (c.addr, n) else locate cs (n - c.data.length)

/-- `n` elements are taken off the front. -/
def drain : List (Chain α) → ℕ → List (Chain α)
  | [], _ => []
  | c :: cs, n =>
    if c.data.length ≤ n then drain cs (n - c.data.length) else ⟨c.addr, c.data.drop n⟩ :: cs

/-- The chains from the one at an address on. -/
def seek (cs : List (Chain α)) (addr : ℕ) : List (Chain α) := cs.dropWhile (·.addr ≠ addr)

/-- Pieces at the addresses from `k` on. -/
def number : ℕ → List (List α) → List (Chain α)
  | _, [] => []
  | k, piece :: pieces => ⟨k, piece⟩ :: number (k + 1) pieces

/-- What is left of pieces without their first `n` elements. -/
def left : List (List α) → ℕ → List (List α)
  | [], _ => []
  | piece :: pieces, n =>
    if piece.length ≤ n then left pieces (n - piece.length) else piece.drop n :: pieces

/-- Where a place noted `n` elements behind the front is found once `m` elements were taken off:
as far behind the new front as it was behind the beginning of its piece, provided the piece goes
on that far. -/
def lead : List (List α) → ℕ → ℕ → Option ℕ
  | [], _, _ => none
  | piece :: pieces, n, m =>
    if n < piece.length then
      if m < piece.length ∧ m + n ≤ piece.length then some n else none
    else lead pieces (n - piece.length) (m - piece.length)

@[simp] theorem content_nil : content ([] : List (Chain α)) = [] := rfl

@[simp] theorem content_cons (c : Chain α) (cs : List (Chain α)) :
    content (c :: cs) = c.data ++ content cs := rfl

theorem map_data_number : ∀ (pieces : List (List α)) (k : ℕ),
    (number k pieces).map data = pieces
  | [], _ => rfl
  | piece :: pieces, k => by rw [number, List.map_cons, map_data_number pieces]

theorem map_addr_number : ∀ (pieces : List (List α)) (k : ℕ),
    (number k pieces).map addr = List.range' k pieces.length
  | [], _ => rfl
  | piece :: pieces, k => by
    rw [number, List.map_cons, map_addr_number pieces, List.length_cons, List.range'_succ]

theorem map_data_drain : ∀ (cs : List (Chain α)) (n : ℕ),
    (drain cs n).map data = left (cs.map data) n
  | [], _ => rfl
  | c :: cs, n => by
    rw [List.map_cons, left, drain]
    split_ifs
    · exact map_data_drain cs _
    · rfl

theorem map_addr_drain : ∀ (cs : List (Chain α)) (n : ℕ),
    (drain cs n).map addr <:+ cs.map addr
  | [], _ => List.suffix_refl _
  | c :: cs, n => by
    rw [drain]
    split_ifs
    · exact (map_addr_drain cs _).trans (List.suffix_cons _ _)
    · exact List.suffix_refl _

section Left

theorem flatten_left : ∀ (pieces : List (List α)) (n : ℕ),
    (left pieces n).flatten = pieces.flatten.drop n
  | [], n => by simp [left]
  | piece :: pieces, n => by
    rw [left, List.flatten_cons]
    split_ifs with h
    · rw [flatten_left pieces, List.drop_append, List.drop_eq_nil_of_le h, List.nil_append]
    · rw [List.flatten_cons, List.drop_append_of_le_length (by omega)]

theorem ne_nil_of_left : ∀ {pieces rest : List (List α)} {n : ℕ} {piece : List α},
    left pieces n = piece :: rest → piece ≠ []
  | [], _, _, _, h => by cases h
  | p :: pieces, rest, n, piece, h => by
    rw [left] at h
    split_ifs at h with hn
    · exact ne_nil_of_left h
    · obtain ⟨rfl, -⟩ := List.cons.inj h
      rw [ne_eq, List.drop_eq_nil_iff]
      exact hn

end Left

theorem content_drain (cs : List (Chain α)) (n : ℕ) :
    content (drain cs n) = (content cs).drop n := by
  rw [content, map_data_drain, flatten_left, content]

theorem drain_drain : ∀ (cs : List (Chain α)) (m n : ℕ),
    drain (drain cs m) n = drain cs (m + n)
  | [], _, _ => rfl
  | c :: cs, m, n => by
    by_cases h : c.data.length ≤ m
    · have hle : c.data.length ≤ m + n := Nat.le_add_right_of_le h
      have hsub : m - c.data.length + n = m + n - c.data.length := by omega
      rw [drain, if_pos h, drain_drain cs, drain, if_pos hle, hsub]
    · rw [drain, if_neg h, drain, drain, List.length_drop, List.drop_drop]
      by_cases h' : c.data.length ≤ m + n
      · have hsub : n - (c.data.length - m) = m + n - c.data.length := by omega
        rw [if_pos (by omega), if_pos h', hsub]
      · rw [if_neg (by omega), if_neg h']

theorem locate_eq_none : ∀ {cs : List (Chain α)} {n : ℕ},
    locate cs n = none ↔ (content cs).length ≤ n
  | [], n => by simp [locate]
  | c :: cs, n => by
    simp only [locate, content_cons, List.length_append]
    split_ifs with h
    · simp only [false_iff]
      omega
    · rw [locate_eq_none]
      omega

theorem seek_eq_nil {cs : List (Chain α)} {addr : ℕ} (h : addr ∉ cs.map Chain.addr) :
    seek cs addr = [] := by
  rw [seek, List.dropWhile_eq_nil_iff]
  intro c hc
  have hne : c.addr ≠ addr := fun he => h (he ▸ List.mem_map_of_mem hc)
  simpa using hne

theorem seek_head (c : Chain α) (cs : List (Chain α)) : seek (c :: cs) c.addr = c :: cs := by
  simp [seek]

/-- A noted place, once more elements than those before it were taken off. -/
theorem follow : ∀ {cs : List (Chain α)} {n m addr off : ℕ}, (cs.map Chain.addr).Nodup → n ≤ m →
    locate cs n = some (addr, off) →
    match lead (cs.map data) n m with
    | some i => i = off ∧ ∃ d rest, drain cs m = ⟨addr, d⟩ :: rest ∧ off ≤ d.length
    | none => ∀ c rest, seek (drain cs m) addr = c :: rest → c.data.length < off
  | [], _, _, _, _, _, _, hloc => by cases hloc
  | c :: cs, n, m, addr, off, hnd, hnm, hloc => by
    rw [List.map_cons, List.nodup_cons] at hnd
    rw [locate] at hloc
    rw [List.map_cons, lead]
    by_cases hn : n < c.data.length
    · rw [if_pos hn] at hloc ⊢
      cases hloc
      by_cases hm : m < c.data.length
      · rw [drain, if_neg (Nat.not_le.2 hm)]
        by_cases hoff : m + n ≤ c.data.length
        · rw [if_pos ⟨hm, hoff⟩]
          refine ⟨rfl, _, _, rfl, ?_⟩
          rw [List.length_drop]
          omega
        · rw [if_neg fun h => hoff h.2]
          intro c' rest hseek
          rw [seek_head ⟨c.addr, c.data.drop m⟩] at hseek
          obtain ⟨rfl, -⟩ := List.cons.inj hseek
          show (c.data.drop m).length < n
          rw [List.length_drop]
          omega
      · rw [if_neg fun h => hm h.1, drain, if_pos (Nat.not_lt.1 hm)]
        intro c' rest hseek
        have hgone : c.addr ∉ (drain cs (m - c.data.length)).map Chain.addr :=
          fun hmem => hnd.1 ((map_addr_drain cs _).subset hmem)
        rw [seek_eq_nil hgone] at hseek
        cases hseek
    · rw [if_neg hn] at hloc ⊢
      rw [drain, if_pos (Nat.le_trans (Nat.not_lt.1 hn) hnm)]
      exact follow hnd.2 (Nat.sub_le_sub_right hnm _) hloc

/-- Nothing that begins in the first piece is found where that piece was used up. -/
theorem lead_cons_of_le {piece : List α} {pieces : List (List α)} {n m : ℕ}
    (hn : n < piece.length) (hm : piece.length ≤ m) : lead (piece :: pieces) n m = none := by
  rw [lead, if_pos hn, if_neg fun h => Nat.not_lt.2 hm h.1]

/-- In pieces of one element a place is lost with the first element that is taken off behind
it. -/
theorem lead_singletons : ∀ (l : List α) {n m : ℕ}, n < m →
    lead (l.map fun x => [x]) n m = none
  | [], _, _, _ => rfl
  | x :: l, n, m, h => by
    have hm : ¬ m < 1 := by omega
    rw [List.map_cons, lead, List.length_singleton]
    split_ifs with hn
    · exact absurd ‹_ ∧ _›.1 hm
    · rfl
    · exact lead_singletons l (by omega)

end Chain
