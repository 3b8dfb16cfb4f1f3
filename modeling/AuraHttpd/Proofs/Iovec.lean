import AuraHttpd.UploadScan
import AuraHttpd.ChainBuffer

/-!
# The vector of extents

`evbuffer_peek` stores as many extents as there is room for and says how many there are, so one
reallocation is always enough (`evbufferPeekRealloc_of_stores`), and what is stored then holds the
bytes asked for (`peekRealloc_dump`).  The room lasts as long as the mountpoint and never shrinks
(`upload_numIovec`).
-/

namespace AuraHttpd

open CString

variable {E I : Type} [Evbuffer E I]

/-- `evbuffer_peek` finds the extents: it returns their number whatever room there is, and stores
as many of them as there is room for. -/
def Stores (evb : E) (length : ℤ) (start : EvbufferPtr I) (exts : List Bytes) : Prop :=
  ∀ n, Evbuffer.peek evb length start n = some (exts.length, exts.take n)

section Peek

variable {inp : Input E} {start : EvbufferPtr I} {length : ℤ} {exts : List Bytes}

theorem evbufferPeekRealloc_of_room (hpeek : Stores inp.evb length start exts)
    (hroom : exts.length ≤ inp.numIovec) (fuel : ℕ) :
    evbufferPeekRealloc length start (fuel + 1) inp = .ok (exts.length, exts, inp) := by
  rw [evbufferPeekRealloc, hpeek inp.numIovec]
  simp only
  rw [if_neg (Nat.not_lt.2 hroom), List.take_of_length_le hroom]

/-- The second call has the room the first one asked for. -/
theorem evbufferPeekRealloc_of_stores (hpeek : Stores inp.evb length start exts) (fuel : ℕ) :
    evbufferPeekRealloc length start (fuel + 2) inp =
      if exts.length ≤ inp.numIovec then .ok (exts.length, exts, inp)
      else if inp.fails then .ok (-12, [], inp.tick)
      else .ok (exts.length, exts, { inp.tick with numIovec := exts.length }) := by
  split
  · rename_i hroom
    exact evbufferPeekRealloc_of_room hpeek hroom (fuel + 1)
  · rename_i hroom
    rw [evbufferPeekRealloc, hpeek inp.numIovec]
    simp only
    rw [if_pos (Nat.lt_of_not_le hroom)]
    split
    · rfl
    · have hpeek' : Stores { inp.tick with numIovec := exts.length }.evb length start exts := hpeek
      exact evbufferPeekRealloc_of_room hpeek' le_rfl fuel

end Peek

section Room

variable {σ : Type} {m : UploadfsModule σ} {boundary : Bytes}

/-- The room for extents never shrinks. -/
theorem evbufferPeekRealloc_numIovec {length : ℤ} {start : EvbufferPtr I} : ∀ (fuel : ℕ)
    {inp inp' : Input E} {count : ℤ} {vec : List Bytes},
    evbufferPeekRealloc length start fuel inp = .ok (count, vec, inp') →
      inp.numIovec ≤ inp'.numIovec
  | 0, _, _, _, _, h => by cases h
  | fuel + 1, inp, inp', count, vec, h => by
    rw [evbufferPeekRealloc] at h
    split at h
    · cases h
    · split_ifs at h with hroom
      · cases h
        exact le_rfl
      · have hle := evbufferPeekRealloc_numIovec fuel h
        simp only at hle
        omega
      · cases h
        exact le_rfl

theorem headerLoop_numIovec : ∀ (fuel : ℕ) {fsd fsd' : Upfs σ} {inp inp' : Input E},
    headerLoop m fuel fsd inp = .ok (fsd', inp') → inp'.numIovec = inp.numIovec
  | 0, _, _, _, _, h => by cases h
  | fuel + 1, fsd, fsd', inp, inp', h => by
    have hreadln : inp.readln.2.numIovec = inp.numIovec := by
      unfold Input.readln
      split <;> rfl
    rw [headerLoop] at h
    obtain ⟨⟨ret, fsd₁⟩, -, h⟩ := Except.bind_eq_ok.1 h
    simp only at h
    split_ifs at h
    · cases h
      exact hreadln
    · exact (headerLoop_numIovec fuel h).trans hreadln

theorem handlePartData_numIovec {start : EvbufferPtr I} {fsd fsd' : Upfs σ} {inp inp' : Input E}
    {ret : ℤ} (h : handlePartData m boundary start fsd inp = .ok (ret, fsd', inp')) :
    inp.numIovec ≤ inp'.numIovec := by
  unfold handlePartData at h
  split_ifs at h
  · cases h
    exact le_rfl
  split at h
  · cases h
    exact le_rfl
  split_ifs at h
  · cases h
    exact le_rfl
  obtain ⟨⟨count, vec, inp₁⟩, hpeek, h⟩ := Except.bind_eq_ok.1 h
  have hle := evbufferPeekRealloc_numIovec 2 hpeek
  simp only at h
  split_ifs at h
  · cases h
    exact hle
  obtain ⟨fsd₁, -, h⟩ := Except.bind_eq_ok.1 h
  split_ifs at h
  · cases h
    exact hle
  split at h
  · cases h
  · cases h
    exact hle

theorem nextFile_numIovec {fsd fsd' : Upfs σ} {inp inp' : Input E} {ret : ℤ}
    (h : multipartHandleNextFile m boundary fsd inp = .ok (ret, fsd', inp')) :
    inp.numIovec ≤ inp'.numIovec := by
  unfold multipartHandleNextFile at h
  split_ifs at h
  · cases h
    exact le_rfl
  simp only at h
  split at h
  · cases h
    exact le_rfl
  obtain ⟨⟨fsd₁, inp₁⟩, hheaders, h⟩ := Except.bind_eq_ok.1 h
  exact (headerLoop_numIovec _ hheaders).symm.le.trans (handlePartData_numIovec h)

theorem uploadLoop_numIovec : ∀ (fuel : ℕ) {fsd fsd' : Upfs σ} {inp inp' : Input E} {ret : ℤ},
    uploadLoop m boundary fuel fsd inp = .ok (ret, fsd', inp') → inp.numIovec ≤ inp'.numIovec
  | 0, _, _, _, _, _, h => by cases h
  | fuel + 1, fsd, fsd', inp, inp', ret, h => by
    obtain ⟨⟨ret₁, fsd₁, inp₁⟩, hnext, h⟩ := Except.bind_eq_ok.1 h
    have hle := nextFile_numIovec hnext
    simp only at h
    split_ifs at h
    · exact hle.trans (uploadLoop_numIovec fuel h)
    · cases h
      exact hle

theorem upload_numIovec {mp mp' : UploadMount σ} {request : UploadRequest E}
    (h : upload m mp request = .ok mp') : mp.numIovec ≤ mp'.numIovec := by
  unfold upload at h
  split_ifs at h
  · cases h
    exact le_rfl
  obtain ⟨fsd, -, h⟩ := Except.bind_eq_ok.1 h
  split_ifs at h
  · cases h
    exact le_rfl
  split at h
  · obtain ⟨fsd', -, h⟩ := Except.bind_eq_ok.1 h
    cases h
    exact le_rfl
  · obtain ⟨⟨ret, fsd₁, inp⟩, hloop, h⟩ := Except.bind_eq_ok.1 h
    have hle := uploadLoop_numIovec _ hloop
    simp only at h
    split_ifs at h <;>
    · obtain ⟨fsd', -, h⟩ := Except.bind_eq_ok.1 h
      cases h
      exact hle

end Room

section Dump

theorem dumpIovec_covered : ∀ (vec : List Bytes) (n : ℤ), Covered vec n →
    dumpIovec vec n = .ok (vec.flatten.take n.toNat)
  | [], n, ⟨h0, hn⟩ => by
    obtain rfl : n = 0 := by
      simp only [List.flatten_nil, List.length_nil] at hn
      omega
    rfl
  | ext :: vec, n, ⟨h0, hn⟩ => by
    rw [List.flatten_cons, List.length_append] at hn
    by_cases hz : n = 0
    · subst hz
      simp [dumpIovec]
    have hcov : Covered vec (n - (min n.toNat ext.length : ℕ)) := ⟨by omega, by omega⟩
    simp only [dumpIovec, hz, if_false, not_lt.2 h0, dumpIovec_covered vec _ hcov]
    simp only [Except.ok_bind, List.flatten_cons, List.take_append, Except.ok.injEq]
    congr 1
    · rcases le_total n.toNat ext.length with hle | hle
      · rw [min_eq_left hle]
      · rw [min_eq_right hle, List.take_length, List.take_of_length_le hle]
    · congr 1
      omega

theorem dumpIovec_not_covered : ∀ (vec : List Bytes) (n : ℤ), ¬ Covered vec n →
    dumpIovec vec n = .error .outOfBounds
  | [], n, hn => by
    have hz : n ≠ 0 := fun hz => hn (hz ▸ ⟨le_rfl, by simp⟩)
    simp [dumpIovec, hz]
  | ext :: vec, n, hn => by
    have hz : n ≠ 0 := fun hz => hn (hz ▸ ⟨le_rfl, Int.natCast_nonneg _⟩)
    by_cases hneg : n < 0
    · simp [dumpIovec, hz, hneg]
    have hcov : ¬ Covered vec (n - (min n.toNat ext.length : ℕ)) := by
      rintro ⟨h0, hle⟩
      refine hn ⟨by omega, ?_⟩
      rw [List.flatten_cons, List.length_append]
      omega
    simp only [dumpIovec, hz, if_false, hneg, dumpIovec_not_covered vec _ hcov,
      Except.error_bind]

theorem Covered.append {vec : List Bytes} {n : ℤ} (h : Covered vec n) (stale : List Bytes) :
    Covered (vec ++ stale) n := by
  refine ⟨h.1, h.2.trans ?_⟩
  rw [List.flatten_append, List.length_append]
  omega

end Dump

/-- Peeking recurses at most once (the fuel left over does not matter), leaves room for what it
counts and stores all of it; the bytes asked for are written out of that, whatever the slots
behind it hold and also where there are none. -/
theorem peekRealloc_dump {inp : Input E} {start : EvbufferPtr I} {length : ℤ} {exts : List Bytes}
    (hpeek : Stores inp.evb length start exts)
    (hrealloc : inp.numIovec < exts.length → inp.fails = false)
    (h0 : 0 ≤ length) (hn : length ≤ exts.flatten.length) :
    ∃ inp' : Input E, inp'.evb = inp.evb ∧ exts.length ≤ inp'.numIovec
      ∧ (∀ fuel, evbufferPeekRealloc length start (fuel + 2) inp
          = .ok (exts.length, exts, inp'))
      ∧ ∀ stale, dumpIovec (exts ++ stale) length = .ok (exts.flatten.take length.toNat) := by
  have hdump : ∀ stale, dumpIovec (exts ++ stale) length
      = .ok (exts.flatten.take length.toNat) := by
    intro stale
    have hcov : Covered exts length := ⟨h0, hn⟩
    rw [dumpIovec_covered _ _ (hcov.append stale), List.flatten_append,
      List.take_append_of_le_length (by omega)]
  by_cases hroom : exts.length ≤ inp.numIovec
  · refine ⟨inp, rfl, hroom, fun fuel => ?_, hdump⟩
    rw [evbufferPeekRealloc_of_stores hpeek, if_pos hroom]
  · refine ⟨{ inp.tick with numIovec := exts.length }, rfl, le_rfl, fun fuel => ?_, hdump⟩
    rw [evbufferPeekRealloc_of_stores hpeek, if_neg hroom, hrealloc (Nat.lt_of_not_le hroom)]
    rfl

/-- Three chains of which the second is empty, with room for one extent. -/
def threeChains : Input ChainBuffer :=
  { evb := .ofPieces [lit "xab", [], lit "cd"], numIovec := 1 }

theorem stores_threeChains :
    Stores threeChains.evb 3 ⟨1, (0, 1)⟩ [lit "ab", [], lit "cd"] := by
  rintro (_ | n) <;> rfl

theorem peekRealloc_dump_threeChains :
    ∃ inp' : Input ChainBuffer, inp'.evb = threeChains.evb ∧ 3 ≤ inp'.numIovec
      ∧ (∀ fuel, evbufferPeekRealloc 3 ⟨1, (0, 1)⟩ (fuel + 2) threeChains
          = .ok (3, [lit "ab", [], lit "cd"], inp'))
      ∧ ∀ stale, dumpIovec ([lit "ab", [], lit "cd"] ++ stale) 3 = .ok (lit "abc") :=
  peekRealloc_dump stores_threeChains (fun _ => rfl) (by decide) (by decide)

end AuraHttpd
