import AuraHttpd.Lib.Script
import AuraHttpd.ValueBlock
import AuraHttpd.Lib.BinarySearch

/-!
# Nothing is written outside of the value's block

An entity is never shorter than what it stands for (`parseEntity_shrinks`), so between the bytes
the decoder has written and those it has still to read there is a gap, which may only grow
(`Decoder.Reads`).  So every access hits the block, and what is left in it is what the decoder makes
of the text as a function (`decodeInPlace_spec`, `extract_in_block`).
-/

namespace AuraHttpd

open CString ListSearch

section Entities

/-- Every name ends in its only semicolon and is at least as long as what it stands for. -/
theorem namedEntities_shrink : ∀ e ∈ namedEntities.toList,
    e.1.getLast? = some 59 ∧ 59 ∉ e.1.dropLast ∧ e.2.length ≤ e.1.length := by
  decide +kernel

theorem getNamedEntity_some {name entity : Bytes} (h : getNamedEntity name = some entity) :
    ∃ n rest, 59 ∉ n ∧ name = n ++ 59 :: rest ∧ entity.length ≤ n.length + 1 := by
  obtain ⟨e, he, rfl⟩ := Option.map_eq_some_iff.1 h
  obtain ⟨hmem, heq⟩ := mem_of_bsearchLoop he
  obtain ⟨hlast, hnot, hlen⟩ := namedEntities_shrink e (Array.mem_toList_iff.2 hmem)
  obtain ⟨rest, rfl⟩ := strncmp_eq_iff.1 heq
  have hname : e.1.dropLast ++ [59] = e.1 := List.dropLast_append_getLast? 59 hlast
  refine ⟨e.1.dropLast, rest, hnot, ?_, ?_⟩
  · conv_lhs => rw [← hname]
    simp
  · rw [← hname, List.length_append] at hlen
    simpa using hlen

theorem length_putcUtf8_le (cp : ℕ) : (putcUtf8 cp).length ≤ 4 := by
  unfold putcUtf8
  split_ifs <;> simp

theorem strchr_eq_some {s t : Bytes} {c : UInt8} (h : strchr s c = some t) :
    ∃ front rest, c ∉ front ∧ t = c :: rest ∧ s = front ++ c :: rest := by
  unfold strchr at h
  split_ifs at h with hc
  obtain ⟨front, rest, rfl, hfront⟩ := List.eq_append_cons_of_mem hc
  rw [ListSearch.dropWhile_ne_append_cons hfront] at h
  exact ⟨front, rest, hfront, (Option.some.inj h).symm, rfl⟩

theorem strtoul_semicolon (rest : Bytes) : strtoul 10 (59 :: rest) = (0, false, 59 :: rest) := by
  simp [strtoul, isSpace, digitVal]

/-- What an entity stands for is no longer than the entity, which ends at its semicolon. -/
theorem parseEntity_shrinks {text out rest : Bytes}
    (h : parseEntity (38 :: text) = some (out, rest)) :
    ∃ entity, text = entity ++ rest ∧ out.length ≤ entity.length + 1 := by
  unfold parseEntity at h
  obtain ⟨fin, hfin, h⟩ := Option.bind_eq_some_iff.1 h
  obtain ⟨front, tail, hfront, rfl, htext⟩ := strchr_eq_some hfin
  rcases front with _ | ⟨c, front⟩
  · cases htext
  obtain ⟨rfl, hcut⟩ : 38 = c ∧ text = front ++ 59 :: tail := by simpa using htext
  have hfront : 59 ∉ front := List.not_mem_of_not_mem_cons hfront
  have hsplit : text = front ++ [59] ++ tail := by simpa using hcut
  by_cases hnum : (38 :: text)[1]? = some 35
  · rw [if_pos hnum] at h
    obtain ⟨front, rfl⟩ : ∃ f, front = 35 :: f := by
      rcases front with _ | ⟨d, front⟩
      · simp [htext] at hnum
      · exact ⟨front, by simpa [htext] using hnum⟩
    rcases front with _ | ⟨d, front⟩
    · -- there is no digit, so the terminator is written
      have hnil : strtoul 10 ((38 :: text).drop 2) = (0, false, 59 :: tail) := by
        rw [htext]
        exact strtoul_semicolon tail
      have hhex : ¬ ((38 :: text)[2]? = some 120 ∨ (38 :: text)[2]? = some 88) := by
        simp [htext]
      simp only [if_neg hhex, hnil] at h
      rw [if_neg (by simp)] at h
      obtain ⟨rfl, rfl⟩ := Prod.mk.inj (Option.some.inj h)
      exact ⟨_, hsplit, by decide⟩
    · dsimp only at h
      generalize strtoul (if (38 :: text)[2]? = some 120 ∨ (38 :: text)[2]? = some 88 then 16
        else 10) ((38 :: text).drop (if (38 :: text)[2]? = some 120 ∨ (38 :: text)[2]? = some 88
        then 3 else 2)) = r at h
      split_ifs at h
      obtain ⟨rfl, rfl⟩ := Prod.mk.inj (Option.some.inj h)
      exact ⟨_, hsplit, (length_putcUtf8_le _).trans (by simp)⟩
  · rw [if_neg hnum] at h
    obtain ⟨entity, hentity, h⟩ := Option.bind_eq_some_iff.1 h
    obtain ⟨rfl, rfl⟩ := Prod.mk.inj (Option.some.inj h)
    obtain ⟨n, rest, hn, hname, hlen⟩ := getNamedEntity_some hentity
    have hsame : n = front := by
      refine (concat_prefix_iff tail hn hfront).1 ?_
      rw [← hcut]
      have hname : text = n ++ 59 :: rest := hname
      exact ⟨rest, by simp [hname]⟩
    subst hsame
    exact ⟨_, hsplit, hlen.trans (by simp)⟩

end Entities

section Decoding

variable {d : Decoder} {size : ℕ} {out front rest text junk : Bytes}

/-- The block of `size` bytes holds what is written, a gap, and the text still to read; the write
position has never passed the read position. -/
def Decoder.Reads (d : Decoder) (size : ℕ) (out text junk : Bytes) : Prop :=
  ∃ gap, d.dest = out ++ (gap ++ (text ++ 0 :: junk)) ∧ d.dest.length = size
    ∧ d.toPos = out.length ∧ d.fromPos = out.length + gap.length
    ∧ ∀ p ∈ d.positions, p.1 ≤ p.2

theorem Decoder.advance_reads {dest : Bytes} {written consumed : ℕ} (gap : Bytes)
    (hpos : ∀ p ∈ d.positions, p.1 ≤ p.2) (hdest : dest = out ++ (gap ++ (text ++ 0 :: junk)))
    (hsize : dest.length = size) (hto : d.toPos + written = out.length)
    (hfrom : d.fromPos + consumed = out.length + gap.length) :
    (d.advance dest written consumed).Reads size out text junk := by
  refine ⟨gap, hdest, hsize, hto, hfrom, fun p hp => ?_⟩
  rcases List.mem_append.1 hp with hp | hp
  · exact hpos p hp
  · rw [List.mem_singleton.1 hp, hto, hfrom]
    exact Nat.le_add_right _ _

theorem Decoder.strAt_reads (h : d.Reads size out text junk) (h0 : 0 ∉ text) :
    strAt d.dest d.fromPos = .ok text := by
  obtain ⟨gap, hdest, -, -, hfrom, -⟩ := h
  rw [strAt, hdest, hfrom, ← List.length_append, ← List.append_assoc]
  exact Block.read_append h0

theorem Decoder.memmove_reads (h : d.Reads size out (front ++ rest) junk) :
    ∃ d', d.memmove front.length = .ok d' ∧ d'.Reads size (out ++ front) rest junk := by
  obtain ⟨gap, hdest, hsize, hto, hfrom, hpos⟩ := h
  rw [List.append_assoc] at hdest
  refine ⟨_, by rw [memmove, hdest, hto, hfrom, Block.move_append, Except.ok_bind], ?_⟩
  refine advance_reads ((gap ++ front).drop front.length) hpos rfl ?_ ?_ ?_
  · simp only [hdest, List.length_append, List.length_drop] at hsize ⊢
    omega
  · rw [hto, List.length_append]
  · simp only [hfrom, List.length_append, List.length_drop]
    omega

theorem Decoder.parseEntity_none (h : d.Reads size out text junk) (h0 : 0 ∉ text)
    (hparse : AuraHttpd.parseEntity text = none) : d.parseEntity = .ok none := by
  rw [parseEntity, strAt_reads h h0, Except.ok_bind, hparse]

/-- What an entity stands for fits into the gap and the entity's own place. -/
theorem Decoder.parseEntity_some {entity : Bytes} (h : d.Reads size out (38 :: text) junk)
    (h0 : 0 ∉ 38 :: text) (hparse : AuraHttpd.parseEntity (38 :: text) = some (entity, rest)) :
    ∃ d', d.parseEntity = .ok (some d') ∧ d'.Reads size (out ++ entity) rest junk := by
  have hstr := strAt_reads h h0
  obtain ⟨gap, hdest, hsize, hto, hfrom, hpos⟩ := h
  obtain ⟨source, rfl, hle⟩ := parseEntity_shrinks hparse
  have hfit : entity.length ≤ (gap ++ 38 :: source).length := by
    simp only [List.length_append, List.length_cons]
    omega
  have hcut : d.dest = out ++ (gap ++ 38 :: source ++ (rest ++ 0 :: junk)) := by
    simpa using hdest
  have hstore : Block.store Fault.outOfBounds d.dest d.toPos entity
      = .ok (out ++ entity
        ++ ((gap ++ 38 :: source).drop entity.length ++ (rest ++ 0 :: junk))) := by
    rw [hcut, hto, Block.store_append hfit]
  refine ⟨_, by rw [parseEntity, hstr, Except.ok_bind, hparse]; simp only [hstore,
    Except.ok_bind]; rfl, ?_⟩
  refine advance_reads ((gap ++ 38 :: source).drop entity.length) hpos rfl ?_ ?_ ?_
  · simp only [hcut, List.length_append, List.length_drop] at hsize hfit ⊢
    omega
  · rw [hto, List.length_append]
  · simp only [hfrom, List.length_append, List.length_drop, List.length_cons] at hfit ⊢
    omega

theorem Decoder.copyByte_reads {c : UInt8} (h : d.Reads size out (c :: text) junk) :
    ∃ d', d.copyByte = .ok d' ∧ d'.Reads size (out ++ [c]) text junk := by
  obtain ⟨gap, hdest, hsize, hto, hfrom, hpos⟩ := h
  have hget : Block.get Fault.outOfBounds d.dest d.fromPos = .ok c := by
    rw [hdest, hfrom, ← List.length_append, ← List.append_assoc]
    exact Block.get_append
  obtain ⟨x, gap', hgap⟩ := List.exists_cons_of_ne_nil (l := gap ++ [c]) (by simp)
  have hcut : d.dest = out ++ x :: (gap' ++ (text ++ 0 :: junk)) := by
    rw [hdest, ← List.cons_append, ← hgap]
    simp
  refine ⟨_, by rw [copyByte, hget, Except.ok_bind, hcut, hto, Block.put_append,
    Except.ok_bind], ?_⟩
  have hlen := congrArg List.length hgap
  refine advance_reads gap' hpos (by simp) ?_ ?_ ?_
  · rw [hcut] at hsize
    simpa using hsize
  · rw [hto, List.length_append, List.length_singleton]
  · simp only [hfrom, List.length_append, List.length_cons, List.length_nil] at hlen ⊢
    omega

/-- The loop leaves what stands behind the last ampersand, which it need not look at. -/
theorem Decoder.loop_reads : ∀ {fuel n : ℕ} {d : Decoder} {out text : Bytes},
    d.Reads size out text junk → 0 ∉ text → text.length ≤ n → n < fuel →
    ∃ d' out' last, d.loop fuel = .ok d' ∧ d'.Reads size out' last junk ∧ 0 ∉ last
      ∧ out' ++ last = out ++ decodeLoop n text
  | 0, _, _, _, _, _, _, _, hfuel => absurd hfuel (Nat.not_lt_zero _)
  | fuel + 1, n, d, out, text, h, h0, hn, hfuel => by
    rw [loop, strAt_reads h h0, Except.ok_bind]
    rcases hamp : strchr text 38 with _ | current
    · refine ⟨d, out, text, rfl, h, h0, ?_⟩
      cases n with
      | zero => rfl
      | succ n => rw [decodeLoop, hamp]
    obtain ⟨front, tail, hfront, rfl, rfl⟩ := strchr_eq_some hamp
    obtain ⟨n, rfl⟩ : ∃ k, n = k + 1 := by
      refine Nat.exists_eq_succ_of_ne_zero ?_
      rintro rfl
      simp at hn
    have hread : (front ++ 38 :: tail).length - (38 :: tail).length = front.length := by
      rw [List.length_append, Nat.add_sub_cancel]
    have h0' : (0 : UInt8) ∉ 38 :: tail := fun h => h0 (List.mem_append_right _ h)
    have hlen : tail.length ≤ n := by
      simp only [List.length_append, List.length_cons] at hn
      omega
    obtain ⟨d₁, hmove, h₁⟩ := memmove_reads h
    rw [decodeLoop, hamp, ListSearch.takeWhile_ne_append_cons hfront]
    simp only [hread, hmove, Except.ok_bind]
    rcases hparse : AuraHttpd.parseEntity (38 :: tail) with _ | ⟨entity, rest⟩
    · obtain ⟨d₂, hcopy, h₂⟩ := copyByte_reads h₁
      obtain ⟨d', out', last, hloop, hreads, hlast, hout⟩ := loop_reads (n := n) h₂
        (List.not_mem_of_not_mem_cons h0') hlen (Nat.lt_of_succ_lt_succ hfuel)
      rw [parseEntity_none h₁ h0' hparse]
      simp only [Except.ok_bind, hcopy]
      exact ⟨d', out', last, hloop, hreads, hlast, by simpa using hout⟩
    · obtain ⟨d₂, hentity, h₂⟩ := parseEntity_some h₁ h0' hparse
      obtain ⟨source, rfl, -⟩ := parseEntity_shrinks hparse
      obtain ⟨d', out', last, hloop, hreads, hlast, hout⟩ := loop_reads (n := n) h₂
        (fun h => h0' (by simp [h])) (by rw [List.length_append] at hlen; omega)
        (Nat.lt_of_succ_lt_succ hfuel)
      rw [hentity]
      simp only [Except.ok_bind]
      exact ⟨d', out', last, hloop, hreads, hlast, by simpa using hout⟩

/-- Decoding in place stays within the block, its write position behind its read position, and
leaves the decoded text. -/
theorem decodeInPlace_spec (h0 : 0 ∉ text) (junk : Bytes) :
    ∃ d junk', decodeInPlace (text ++ 0 :: junk) = .ok d
      ∧ d.dest = decodeHtmlEntitiesUtf8 text ++ 0 :: junk'
      ∧ d.dest.length = (text ++ 0 :: junk).length ∧ ∀ p ∈ d.positions, p.1 ≤ p.2 := by
  have hstart : Decoder.Reads { dest := text ++ 0 :: junk } (text ++ 0 :: junk).length [] text
      junk := ⟨[], rfl, rfl, rfl, rfl, by simp⟩
  have hfuel : text.length < (text ++ 0 :: junk).length + 1 := by
    rw [List.length_append]
    omega
  obtain ⟨d₁, out, last, hloop, h₁, hlast, hout⟩ := Decoder.loop_reads hstart h0 le_rfl hfuel
  have hstr := Decoder.strAt_reads h₁ hlast
  rw [← List.append_nil last] at h₁
  obtain ⟨d₂, hmove, gap, hdest, hsize, hto, -, hpos⟩ := Decoder.memmove_reads h₁
  obtain ⟨x, junk', hcut⟩ := List.exists_cons_of_ne_nil (l := gap ++ ([] ++ 0 :: junk)) (by simp)
  rw [hcut] at hdest
  refine ⟨{ d₂ with dest := out ++ last ++ 0 :: junk' }, junk', ?_, ?_, ?_, hpos⟩
  · rw [decodeInPlace, hloop, Except.ok_bind, hstr, Except.ok_bind, hmove, Except.ok_bind, hdest,
      hto, Block.put_append]
    rfl
  · rw [hout]
    rfl
  · rw [← hsize, hdest]
    simp

end Decoding

section Copying

variable {text junk : Bytes}

/-- The loop over a string of which the first letters are done. -/
theorem sanitizeLoop_spec : ∀ {fuel : ℕ} {done rest : Bytes}, 0 ∉ done → 0 ∉ rest →
    rest.length < fuel → sanitizeLoop fuel done.length (done ++ (rest ++ 0 :: junk))
      = .ok (done ++ (sanitizeString rest ++ 0 :: junk))
  | 0, _, _, _, _, hfuel => absurd hfuel (Nat.not_lt_zero _)
  | fuel + 1, done, rest, hdone, hrest, hfuel => by
    have hstr : strAt (done ++ (rest ++ 0 :: junk)) 0 = .ok (done ++ rest) := by
      have h0 : (0 : UInt8) ∉ done ++ rest := by
        rw [List.mem_append]
        exact not_or_intro hdone hrest
      have hread : strAt ([] ++ (done ++ rest ++ 0 :: junk)) 0 = .ok (done ++ rest) :=
        Block.read_append h0
      rwa [List.nil_append, List.append_assoc] at hread
    rw [sanitizeLoop, hstr, Except.ok_bind, List.length_append]
    rcases rest with _ | ⟨c, rest⟩
    · rw [if_neg (by simp)]
      rfl
    have hnext : ∀ c' : UInt8, c' ≠ 0 →
        sanitizeLoop fuel (done.length + 1) (done ++ c' :: (rest ++ 0 :: junk))
          = .ok (done ++ c' :: (sanitizeString rest ++ 0 :: junk)) := by
      intro c' hc'
      have hdone' : (0 : UInt8) ∉ done ++ [c'] := by
        rw [List.mem_append, List.mem_singleton]
        exact not_or_intro hdone hc'.symm
      have hloop := sanitizeLoop_spec hdone' (List.not_mem_of_not_mem_cons hrest)
        (Nat.lt_of_succ_lt_succ hfuel)
      simpa using hloop
    rw [if_pos (by rw [List.length_cons]; omega), List.cons_append, Block.get_append,
      Except.ok_bind]
    by_cases hc : c = 47
    · subst hc
      rw [if_pos rfl, Block.put_append, Except.ok_bind]
      exact hnext 95 (by decide)
    · have hc0 : c ≠ 0 := fun h => hrest (h ▸ List.mem_cons_self)
      have hkeep : sanitizeString (c :: rest) = c :: sanitizeString rest := by
        simp [sanitizeString, hc]
      rw [if_neg hc, Except.ok_bind, hkeep]
      exact hnext c hc0

theorem sanitizeInPlace_spec (h0 : 0 ∉ text) (junk : Bytes) :
    sanitizeInPlace (text ++ 0 :: junk) = .ok (sanitizeString text ++ 0 :: junk) :=
  @sanitizeLoop_spec junk _ [] text (by simp) h0 (by rw [List.length_append]; omega)

theorem copyLoop_spec : ∀ {pos done free : Bytes},
    (pos.takeWhile (· ≠ 34)).length ≤ free.length →
    copyLoop pos done.length (done ++ free)
      = .ok ((done ++ pos.takeWhile (· ≠ 34)).length,
        done ++ pos.takeWhile (· ≠ 34) ++ free.drop (pos.takeWhile (· ≠ 34)).length)
  | [], done, free, _ => by simp [copyLoop]
  | c :: pos, done, free, hfree => by
    rw [copyLoop]
    by_cases hc : c = 34
    · rw [if_pos hc, List.takeWhile_cons_of_neg (by simpa using hc)]
      simp
    rw [List.takeWhile_cons_of_pos (by simpa using hc)] at hfree ⊢
    rcases free with _ | ⟨x, free⟩
    · simp at hfree
    have hloop := @copyLoop_spec pos (done ++ [c]) free (Nat.le_of_succ_le_succ hfree)
    rw [if_neg hc, Block.put_append, Except.ok_bind]
    simpa using hloop

end Copying

section Extracting

/-- Of a text with a terminator the block begins with the part before that. -/
theorem cstr_split (text junk : Bytes) :
    ∃ junk', text ++ 0 :: junk = cstr text ++ 0 :: junk' := by
  have hsplit := List.takeWhile_append_dropWhile (p := (· ≠ 0)) (l := text)
  rcases hrest : text.dropWhile (· ≠ 0) with _ | ⟨c, rest⟩ <;> rw [hrest] at hsplit
  · exact ⟨junk, by rw [cstr, ← List.append_nil (text.takeWhile _), hsplit]⟩
  · have hc := List.head?_dropWhile_not (· ≠ 0) text
    rw [hrest] at hc
    obtain rfl : c = 0 := by simpa using hc
    refine ⟨rest ++ 0 :: junk, ?_⟩
    conv_lhs => rw [← hsplit]
    simp [cstr]

theorem zero_notMem_cstr (text : Bytes) : 0 ∉ cstr text := by
  intro h
  simpa using List.mem_takeWhile_imp h

theorem cstr_append_zero {text : Bytes} (h0 : 0 ∉ text) (junk : Bytes) :
    cstr (text ++ 0 :: junk) = text :=
  ListSearch.takeWhile_ne_append_cons h0 junk

theorem zero_notMem_sanitizeString {text : Bytes} (h0 : 0 ∉ text) : 0 ∉ sanitizeString text := by
  intro h
  obtain ⟨c, hc, heq⟩ := List.mem_map.1 h
  split_ifs at heq
  · cases heq
  · exact h0 (heq ▸ hc)

variable {key s pos ret value : Bytes}

theorem length_value_lt (h : strstr s (key ++ lit "=\"") = some pos) :
    ((pos.drop (key ++ lit "=\"").length).takeWhile (· ≠ 34)).length < s.length := by
  obtain ⟨n, hn, rfl⟩ := Option.map_eq_some_iff.1 h
  have hle := (search_some_le hn).resolve_right (by simp [lit])
  have htake := (List.takeWhile_sublist (· ≠ 34)
    (l := (s.drop n).drop (key ++ lit "=\"").length)).length_le
  have hkey : 0 < (key ++ lit "=\"").length := by simp [lit]
  simp only [List.length_drop] at htake
  omega

theorem zero_notMem_value (h0 : 0 ∉ s) (h : strstr s (key ++ lit "=\"") = some pos) :
    0 ∉ (pos.drop (key ++ lit "=\"").length).takeWhile (· ≠ 34) := by
  obtain ⟨n, -, rfl⟩ := Option.map_eq_some_iff.1 h
  intro hmem
  have hdrop := List.takeWhile_subset _ hmem
  exact h0 (List.mem_of_mem_drop (List.mem_of_mem_drop hdrop))

/-- What is copied, with its terminator, leaves the block as long as it is. -/
theorem copy_terminated (hvalue : (pos.takeWhile (· ≠ 34)).length < ret.length) :
    ∃ junk, (copyLoop pos 0 ret >>= fun r => Block.put Fault.outOfBounds r.2 r.1 0)
        = .ok (pos.takeWhile (· ≠ 34) ++ 0 :: junk)
      ∧ (pos.takeWhile (· ≠ 34) ++ 0 :: junk).length = ret.length := by
  have hcopy := @copyLoop_spec pos [] ret hvalue.le
  obtain ⟨x, junk, hjunk⟩ := List.exists_cons_of_ne_nil
    (l := ret.drop (pos.takeWhile (· ≠ 34)).length) (by simpa using hvalue)
  have hlen := congrArg List.length hjunk
  rw [List.nil_append, List.nil_append, hjunk] at hcopy
  refine ⟨junk, ?_, ?_⟩
  · have hstart : copyLoop pos 0 ret = _ := hcopy
    rw [hstart, Except.ok_bind, Block.put_append]
  · simp only [List.length_append, List.length_cons, List.length_drop] at hlen ⊢
    omega

theorem decode_sanitize (h0 : 0 ∉ value) (junk : Bytes) :
    ∃ d ret, decodeInPlace (value ++ 0 :: junk) = .ok d ∧ sanitizeInPlace d.dest = .ok ret
      ∧ cstr ret = sanitizeString (cstr (decodeHtmlEntitiesUtf8 value))
      ∧ ret.length = (value ++ 0 :: junk).length ∧ ∀ p ∈ d.positions, p.1 ≤ p.2 := by
  obtain ⟨d, junk', hd, hdest, hlen, hpos⟩ := decodeInPlace_spec h0 junk
  obtain ⟨junk'', hsplit⟩ := cstr_split (decodeHtmlEntitiesUtf8 value) junk'
  rw [hsplit] at hdest
  refine ⟨d, sanitizeString (cstr (decodeHtmlEntitiesUtf8 value)) ++ 0 :: junk'', hd, ?_, ?_, ?_,
    hpos⟩
  · rw [hdest, sanitizeInPlace_spec (zero_notMem_cstr _)]
  · exact cstr_append_zero (zero_notMem_sanitizeString (zero_notMem_cstr _)) _
  · rw [← hlen, hdest]
    simp [sanitizeString]

end Extracting

/-- For every header and any key: whatever `malloc` gives, every access hits the block, whose length
is that of the header, and in the end it holds the value; while it is decoded, as any text is, the
write position never passes the read position. -/
theorem extract_in_block (key cdsString ret : Bytes) (h0 : 0 ∉ cdsString)
    (hret : ret.length = cdsString.length) :
    ((extractKeyValue key cdsString false = none ∧ extractInBlock key cdsString ret = .ok none)
      ∨ ∃ ret' positions, extractInBlock key cdsString ret = .ok (some (ret', positions))
        ∧ ret'.length = cdsString.length
        ∧ extractKeyValue key cdsString false = some (cstr ret')
        ∧ ∀ p ∈ positions, p.1 ≤ p.2)
      ∧ ∀ text junk : Bytes, 0 ∉ text → ∃ d, decodeInPlace (text ++ 0 :: junk) = .ok d
        ∧ ∀ p ∈ d.positions, p.1 ≤ p.2 := by
  refine ⟨?_, fun text junk htext => ?_⟩
  · unfold extractInBlock extractKeyValue
    by_cases hnil : cdsString = []
    · exact .inl ⟨by simp [hnil], by rw [if_pos hnil]⟩
    rcases hpos : strstr cdsString (key ++ lit "=\"") with _ | pos
    · exact .inl ⟨by simp [hnil, hpos], by rw [if_neg hnil]; simp only [hpos]⟩
    obtain ⟨junk, hcopy, hlen⟩ := copy_terminated (hret ▸ length_value_lt hpos)
    obtain ⟨d, ret', hd, hret', hcstr, hlen', hpositions⟩ :=
      decode_sanitize (zero_notMem_value h0 hpos) junk
    refine .inr ⟨ret', d.positions, ?_, by rw [hlen', hlen, hret], ?_, hpositions⟩
    · obtain ⟨r, hloop, hput⟩ := Except.bind_eq_ok.1 hcopy
      rw [if_neg hnil]
      simp only [hpos, hloop, Except.ok_bind, hput, hd, hret']
    · rw [if_neg hnil, hcstr]
      simp only [hpos, Option.bind_eq_bind, Option.bind_some]
      rfl
  · obtain ⟨d, -, hd, -, -, hpositions⟩ := decodeInPlace_spec htext junk
    exact ⟨d, hd, hpositions⟩

/-- A header whose value fills the block but for the key, its quotes and the terminator. -/
theorem extract_in_block_slash : ∃ ret' positions,
    extractInBlock (lit "name") (lit "name=\"a/&lt;\"") (List.replicate 13 7)
        = .ok (some (ret', positions))
      ∧ ret'.length = 13 ∧ cstr ret' = lit "a_<" ∧ ∀ p ∈ positions, p.1 ≤ p.2 := by
  rcases (extract_in_block (lit "name") (lit "name=\"a/&lt;\"") (List.replicate 13 7)
    (by decide +kernel) (by decide +kernel)).1
    with ⟨hnone, -⟩ | ⟨ret', positions, h, hlen, hval, hpos⟩
  · exact absurd hnone (by decide +kernel)
  · refine ⟨ret', positions, h, hlen, ?_, hpos⟩
    exact Option.some.inj (hval.symm.trans (by decide +kernel))

end AuraHttpd
