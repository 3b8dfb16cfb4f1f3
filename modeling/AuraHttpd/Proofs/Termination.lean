import AuraHttpd.Proofs.FlatScan

/-!
# The parser ends

Whatever fails and whatever the module does, a line that is read and a part behind which another
may follow are taken off the input buffer.  So the length of the buffer bounds the turns of both
loops (`headerLoop_ends`, `uploadLoop_ends`).
-/

namespace AuraHttpd

open CString

variable {E I : Type} [Evbuffer E I] [FlatEvbuffer E I] {boundary : Bytes} {σ : Type}
  {m : UploadfsModule σ}

section Length

variable {inp inp' : Input E}

/-- The buffer has become no longer. -/
structure NoLonger (inp inp' : Input E) : Prop where
  length : inp'.bytes.length ≤ inp.bytes.length
  room : 0 < inp.numIovec → 0 < inp'.numIovec

theorem NoLonger.refl (inp : Input E) : NoLonger inp inp := ⟨Nat.le_refl _, id⟩

theorem NoLonger.trans {inp₁ inp₂ : Input E} (h : NoLonger inp inp₁) (h' : NoLonger inp₁ inp₂) :
    NoLonger inp inp₂ := ⟨h'.length.trans h.length, fun hroom => h'.room (h.room hroom)⟩

theorem Input.Behind.noLonger {n : ℕ} (h : inp.Behind n inp') : NoLonger inp inp' :=
  ⟨by rw [h.bytes, List.length_drop]; exact Nat.sub_le _ _, fun hroom => h.numIovec ▸ hroom⟩

end Length

/-- The loops end, and their result has `P`, unless the process ends in them. -/
abbrev Ends {α : Type} (P : α → Prop) (x : Except Fault α) : Prop := x.Sat P (· ≠ .noFuel)

theorem ends_iff {α : Type} {x : Except Fault α} :
    Ends (fun _ => True) x ↔ x ≠ .error .noFuel := by
  rcases x with e | a
  · exact ⟨fun h he => h (Except.error.inj he), fun h he => h (congrArg _ he)⟩
  · exact ⟨fun _ h => (by cases h), fun _ => trivial⟩

theorem Ends.ne_noFuel {α : Type} {P : α → Prop} {x : Except Fault α} (h : Ends P x) :
    x ≠ .error .noFuel := ends_iff.1 (h.mono fun _ _ => trivial)

section Loops

variable (hm : ∀ fsd c, Ends (fun _ => True) (m.call fsd c))
include hm

theorem headerLine_ends (fsd : Upfs σ) (ln : Option Bytes) :
    Ends (fun r => ln = none → r.1 ≠ 0) (handleFileHeaderLine m fsd ln) := by
  rcases ln with _ | ln
  · exact fun _ => Int.negSucc_ne_zero 0
  simp only [handleFileHeaderLine]
  split_ifs
  · exact fun h => by cases h
  split
  · exact Except.Sat.bind (hm fsd (.formHeader _ _)) fun _ _ h => by cases h
  · exact fun h => by cases h

/-- A line that is read is taken off the buffer, so the loop over the header lines ends. -/
theorem headerLoop_ends : ∀ (fuel : ℕ) (fsd : Upfs σ) (inp : Input E), inp.bytes.length < fuel →
    Ends (fun r => NoLonger inp r.2) (headerLoop m fuel fsd inp)
  | 0, _, _, h => absurd h (Nat.not_lt_zero _)
  | fuel + 1, fsd, inp, h => by
    obtain ⟨hln, hbehind⟩ := flat_readln inp
    refine Except.Sat.bind (headerLine_ends hm fsd inp.readln.1) ?_
    rintro ⟨ret, fsd₁⟩ hnone
    simp only
    split_ifs with hret
    · exact hbehind.noLonger
    have hshort : inp.readln.2.bytes.length < inp.bytes.length := by
      rcases hr : readlnCrlf inp.bytes with _ | ⟨ln, rest⟩ <;> rw [hr] at hln
      · exact absurd (hnone hln) hret
      · rw [hbehind.bytes, (drop_lineLength hr).1]
        exact (suffix_of_readlnCrlf hr).2
    have ih := headerLoop_ends fuel fsd₁ inp.readln.2 (by omega)
    exact ih.mono fun _ h => hbehind.noLonger.trans h

/-- The data of a part is looked at where it is in the buffer. -/
theorem handlePartData_ends (fsd : Upfs σ) {inp : Input E} (hroom : 0 < inp.numIovec)
    (start : EvbufferPtr I) :
    Ends (fun r => NoLonger inp r.2.2) (handlePartData m boundary start fsd inp) := by
  unfold handlePartData
  split_ifs
  · exact .refl inp
  rcases hs : Evbuffer.search inp.evb (lit "--" ++ boundary) with _ | next
  · exact .refl inp
  simp only
  split_ifs with hnext
  · exact .refl inp
  have hpos : start.pos < inp.bytes.length := by
    have hle := (ListSearch.search_some_le (search_of_flat hs)).resolve_right delimiter_ne_nil
    have hpos := length_delimiter_pos boundary
    change next.pos + (delimiter boundary).length ≤ _ at hle
    omega
  obtain ⟨count, vec, inp₁, hpeek, hevb, hroom₁, -, -⟩ :=
    flat_peekRealloc (next.pos - 2) hpos (.inr hroom)
  rw [hpeek, Except.ok_bind]
  have hsame : NoLonger inp inp₁ :=
    ⟨by rw [Input.bytes, hevb]; exact Nat.le_refl _, fun h => hroom₁ (.inl h)⟩
  simp only
  split_ifs
  · exact hsame
  refine Except.Sat.bind (hm fsd (.data vec (wrapS 32 (next.pos - 2)))) fun fsd₁ _ => ?_
  split_ifs
  · exact hsame
  have hdrained := hsame.trans (behind_drain inp₁ next.pos).noLonger
  rcases hp : Evbuffer.pullup (inp₁.drain next.pos).evb
      (lit "--" ++ boundary ++ lit "--").length with _ | ⟨tmp, evb⟩
  · exact fun h => by cases h
  · refine ⟨?_, hdrained.room⟩
    have hlen := hdrained.length
    rwa [Input.bytes, ← pullup_bytes hp] at hlen

/-- A part behind which another may follow has taken its delimiter off the buffer. -/
theorem nextFile_ends (boundary : Bytes) (fsd : Upfs σ) {inp : Input E} (hroom : 0 < inp.numIovec) :
    Ends (fun r => NoLonger inp r.2.2 ∧ (r.1 = 1 → r.2.2.bytes.length < inp.bytes.length))
      (multipartHandleNextFile m boundary fsd inp) := by
  simp only [multipartHandleNextFile]
  split_ifs
  · exact ⟨⟨Nat.le_refl _, id⟩, fun h => by cases h⟩
  rcases hs : Evbuffer.search inp.tick.evb (lit "--" ++ boundary) with _ | start
  · exact ⟨⟨Nat.le_refl _, id⟩, fun h => by cases h⟩
  simp only
  have hbehind := behind_drain inp.tick ((lit "--" ++ boundary).length + start.pos + 2)
  generalize inp.tick.drain ((lit "--" ++ boundary).length + start.pos + 2) = inp₁ at hbehind ⊢
  have hshort : inp₁.bytes.length < inp.bytes.length := by
    have hle := (ListSearch.search_some_le (search_of_flat hs)).resolve_right delimiter_ne_nil
    have hpos := length_delimiter_pos boundary
    have htick : inp.tick.bytes = inp.bytes := rfl
    change start.pos + (delimiter boundary).length ≤ _ at hle
    rw [htick] at hle
    rw [hbehind.bytes, htick, List.length_drop]
    omega
  have hroom₁ : 0 < inp₁.numIovec := hbehind.noLonger.room hroom
  have hlonger : ∀ inp', NoLonger inp₁ inp' → NoLonger inp inp' := fun inp' h =>
    ⟨h.length.trans hshort.le, fun _ => h.room hroom₁⟩
  have hfuel : inp₁.bytes.length < Evbuffer.length inp₁.evb + 1 := by
    rw [length_evb]
    exact Nat.lt_succ_self _
  refine Except.Sat.bind (headerLoop_ends hm _ fsd inp₁ hfuel) ?_
  rintro ⟨fsd₁, inp₂⟩ h
  exact (handlePartData_ends hm fsd₁ (h.room hroom₁) start).mono fun r hr =>
    ⟨hlonger _ (h.trans hr), fun _ => (h.trans hr).length.trans_lt hshort⟩

theorem uploadLoop_ends : ∀ (fuel : ℕ) (fsd : Upfs σ) {inp : Input E}, 0 < inp.numIovec →
    inp.bytes.length < fuel → Ends (fun _ => True) (uploadLoop m boundary fuel fsd inp)
  | 0, _, _, _, h => absurd h (Nat.not_lt_zero _)
  | fuel + 1, fsd, inp, hroom, h => by
    refine Except.Sat.bind (nextFile_ends hm boundary fsd hroom) ?_
    rintro ⟨ret, fsd₁, inp₁⟩ ⟨hlonger, hshort⟩
    simp only
    split_ifs with hret
    · exact uploadLoop_ends fuel fsd₁ (hlonger.room hroom)
        (Nat.lt_of_lt_of_le (hshort hret) (Nat.le_of_lt_succ h))
    · trivial

end Loops

/-- Whatever a module's callbacks do, the parser's loops end: a part behind which it goes on has
shortened the buffer. -/
theorem upload_terminates (m : UploadfsModule σ) (boundary : Bytes) (fsd : Upfs σ) (inp : Input E)
    (hm : ∀ fsd c, m.call fsd c ≠ .error .noFuel) (hroom : 0 < inp.numIovec) :
    (∀ fsd' inp', multipartHandleNextFile m boundary fsd inp = .ok (1, fsd', inp') →
        inp'.bytes.length < inp.bytes.length)
      ∧ headerLoop m (inp.bytes.length + 1) fsd inp ≠ .error .noFuel
      ∧ multipartHandleNextFile m boundary fsd inp ≠ .error .noFuel
      ∧ uploadLoop m boundary (Evbuffer.length inp.evb + 1) fsd inp ≠ .error .noFuel := by
  have hcall : ∀ fsd c, Ends (fun _ => True) (m.call fsd c) := fun fsd c => ends_iff.2 (hm fsd c)
  have hnext := nextFile_ends hcall boundary fsd hroom
  refine ⟨fun fsd' inp' h => ?_, ?_, hnext.ne_noFuel, ?_⟩
  · rw [h] at hnext
    exact hnext.2 rfl
  · exact (headerLoop_ends hcall _ fsd inp (Nat.lt_succ_self _)).ne_noFuel
  · rw [length_evb]
    exact (uploadLoop_ends hcall _ fsd hroom (Nat.lt_succ_self _)).ne_noFuel

/-- An empty boundary, and a body of nothing but delimiters. -/
theorem upload_terminates_dashes :
    uploadLoop ({} : UploadfsModule Unit) [] 9 { modData := () }
      ({ evb := lit "--------" } : Input Bytes) ≠ .error .noFuel := by
  have hm : ∀ (fsd : Upfs Unit) (c : Call),
      ({} : UploadfsModule Unit).call fsd c ≠ .error .noFuel := by
    rintro fsd (⟨key, value⟩ | ⟨vec, length⟩) h <;> cases h
  exact (upload_terminates {} [] { modData := () } ({ evb := lit "--------" } : Input Bytes) hm
    (by decide)).2.2.2

end AuraHttpd
