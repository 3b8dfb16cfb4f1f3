import AuraHttpd.Proofs.Format

/-!
# Arguments and results of calls

What marshalling does to the values of a call.  An argument array is accepted as soon as every
integer field finds an integer (`putFields_isSome`); that there are more elements than fields,
that an integer is out of range or that a `BIN` argument is no string goes unnoticed.  A string is
written with its quotes and the position moves by what was written, so the fields behind it are in
their places only if its text filled the field.  The other way a block is not passed over, and a
`uint64_t` goes through an `int64_t`.
-/

namespace AuraHttpd

open CString

section Accepting

variable (C : UrpcCodes) (W : AuraWire)

theorem putField_isSome {f : Field} {j : Json} :
    (putField W f j).isSome ↔ ∀ t, f = .int t → ∃ v, j = .int v := by
  unfold putField
  split <;> simp_all

theorem arrayGetIdx_int {items : List Json} {i : ℕ} {v : Int64} :
    (Json.array items).arrayGetIdx i = .int v ↔ items[i]? = some (.int v) := by
  rw [Json.arrayGetIdx, List.getD_eq_getElem?_getD]
  rcases items[i]? with _ | j <;> simp

theorem putFields_isSome (items : List Json) : ∀ (fs : List Field) (i : ℕ),
    (putFields W (.array items) fs i).isSome
      ↔ ∀ (k : ℕ) t, fs[k]? = some (.int t) → ∃ v, items[i + k]? = some (.int v)
  | [], i => by simp [putFields]
  | f :: fs, i => by
    have hcons : (putFields W (.array items) (f :: fs) i).isSome
        ↔ (putField W f ((Json.array items).arrayGetIdx i)).isSome
          ∧ (putFields W (.array items) fs (i + 1)).isSome := by
      simp only [putFields, Option.bind_eq_bind]
      rcases putField W f ((Json.array items).arrayGetIdx i) with _ | b <;>
        rcases putFields W (.array items) fs (i + 1) with _ | rest <;> simp
    rw [hcons, putField_isSome, putFields_isSome items fs (i + 1)]
    simp only [arrayGetIdx_int]
    constructor
    · rintro ⟨hf, hfs⟩ k t hk
      rcases k with _ | k
      · exact hf t (by simpa using hk)
      · obtain ⟨v, hv⟩ := hfs k t (by simpa using hk)
        exact ⟨v, by rw [← hv]; congr 1; omega⟩
    · intro h
      refine ⟨fun t ht => h 0 t (by simp [ht]), fun k t hk => ?_⟩
      obtain ⟨v, hv⟩ := h (k + 1) t (by simpa using hk)
      exact ⟨v, by rw [← hv]; congr 1; omega⟩

theorem Field.Matches.int {t : IntType} : ∀ {j : Json}, (Field.int t).Matches j →
    ∃ v, j = .int v ∧ t.lo ≤ v.toInt ∧ v.toInt < t.hi
  | .int v, h => ⟨v, rfl, h⟩

theorem Field.Matches.bin {n : ℕ} {hn} : ∀ {j : Json}, (Field.bin n hn).Matches j →
    ∃ s, j = .string s
  | .string s, _ => ⟨s, rfl⟩

theorem forall₂_matches_iff {fs : List Field} {items : List Json} :
    List.Forall₂ Field.Matches fs items ↔ IntsGiven fs items ∧ NothingLost fs items := by
  rw [List.forall₂_iff_get]
  constructor
  · rintro ⟨hlen, hall⟩
    have hat : ∀ (k : ℕ) f, fs[k]? = some f → ∃ j, items[k]? = some j ∧ f.Matches j := by
      intro k f hk
      obtain ⟨hlt, rfl⟩ := List.getElem?_eq_some_iff.1 hk
      exact ⟨items[k], List.getElem?_eq_getElem (by omega), hall k hlt (by omega)⟩
    refine ⟨fun k t hk => ?_, hlen.symm, fun k t v hk hv => ?_, fun k n hn hk => ?_⟩
    · obtain ⟨j, hj, hm⟩ := hat k _ hk
      obtain ⟨v, rfl, -⟩ := hm.int
      exact ⟨v, hj⟩
    · obtain ⟨j, hj, hm⟩ := hat k _ hk
      obtain rfl : j = .int v := by simpa [hj] using hv
      exact hm
    · obtain ⟨j, hj, hm⟩ := hat k _ hk
      obtain ⟨s, rfl⟩ := hm.bin
      exact ⟨s, hj⟩
  · rintro ⟨hints, hlen, hrange, hbin⟩
    refine ⟨hlen.symm, fun k hk hk' => ?_⟩
    have hf : fs[k]? = some fs[k] := List.getElem?_eq_getElem hk
    have hj : items[k]? = some items[k] := List.getElem?_eq_getElem hk'
    simp only [List.get_eq_getElem]
    rcases hfk : fs[k] with t | ⟨n, hn⟩ <;> rw [hfk] at hf
    · obtain ⟨v, hv⟩ := hints k t hf
      obtain hv' : items[k] = .int v := by simpa [hj] using hv
      rw [hv']
      exact hrange k t v hf hv
    · obtain ⟨s, hs⟩ := hbin k n hn hf
      obtain hs' : items[k] = .string s := by simpa [hj] using hs
      rw [hs']
      trivial

/-- Marshalling tells arguments that fit the format from others exactly where an array whose
integers are all given also has no element too many or too few, no integer out of range and a
string for every `BIN` field. -/
theorem arguments_checked_iff (fs : List Field) (json : Json) (out extra : Bytes)
    (hout : out.length = fieldsSize fs) :
    ∃ ret buf, ahttpdBufferFromJson C W ⟨out, extra, 0⟩ json (some (formatText C fs))
        = some (ret, buf)
      ∧ (((ret = 0 ↔ Accepted fs json) ∧ (¬ Accepted fs json → ret = -1))
        ↔ ∀ items, json = .array items → IntsGiven fs items → NothingLost fs items) := by
  by_cases harr : json.type = .array
  · obtain ⟨items, rfl⟩ : ∃ items, json = .array items := by
      cases json <;> simp_all [Json.type]
    have hacc : Accepted fs (.array items) ↔ IntsGiven fs items ∧ NothingLost fs items := by
      rw [← forall₂_matches_iff]
      simp [Accepted]
    have hints : (putFields W (.array items) fs 0).isSome ↔ IntsGiven fs items := by
      rw [putFields_isSome]
      simp [IntsGiven]
    have hloop := fromJsonLoop_fields C (W := W) (.array items) extra fs 0 [] out hout.ge
    simp only [ahttpdBufferFromJson, harr, ne_eq, not_true_eq_false, if_false, hacc]
    rcases hput : putFields W (.array items) fs 0 with _ | bs <;> rw [hput] at hloop hints
    · obtain ⟨buf, hbuf⟩ := hloop
      refine ⟨-1, buf, hbuf, ?_⟩
      simp_all
    · refine ⟨0, _, hloop, ?_⟩
      simp_all
  · refine ⟨-1, ⟨out, extra, 0⟩, by simp [ahttpdBufferFromJson, harr], ?_⟩
    have hacc : ¬ Accepted fs json := by
      rintro ⟨items, rfl, -⟩
      exact harr rfl
    have hnot : ∀ items, json ≠ .array items := by
      rintro items rfl
      exact harr rfl
    simp [hacc, hnot]

theorem arguments_checked_iff_inRange : ∃ ret buf,
    ahttpdBufferFromJson .digits .littleEndian ⟨[0, 0, 0], [], 0⟩
        (.array [.int 7, .string (lit "ab")])
        (some (formatText .digits [.int .u8, .bin 2 (by decide)])) = some (ret, buf)
      ∧ (((ret = 0 ↔ Accepted [.int .u8, .bin 2 (by decide)] (.array [.int 7, .string (lit "ab")]))
          ∧ (¬ Accepted [.int .u8, .bin 2 (by decide)] (.array [.int 7, .string (lit "ab")]) →
            ret = -1))
        ↔ ∀ items, Json.array [.int 7, .string (lit "ab")] = .array items →
          IntsGiven [.int .u8, .bin 2 (by decide)] items →
            NothingLost [.int .u8, .bin 2 (by decide)] items) :=
  arguments_checked_iff .digits .littleEndian [.int .u8, .bin 2 (by decide)]
    (.array [.int 7, .string (lit "ab")]) [0, 0, 0] [] (by decide)

/-- 300 is taken for a `uint8_t`, as 44. -/
theorem byte_cut :
    ahttpdBufferFromJson .digits .littleEndian ⟨[0], [], 0⟩ (.array [.int 300])
        (some (formatText .digits [.int .u8])) = some (0, ⟨[44], [], 1⟩)
      ∧ ¬ Accepted [.int .u8] (.array [.int 300]) := by
  constructor
  · have h := fromJsonLoop_fields .digits (W := .littleEndian) (.array [.int 300]) [] [.int .u8] 0
      [] [0] (by decide)
    exact h
  · rintro ⟨items, hitems, hall⟩
    cases hitems
    cases hall with
    | cons h _ => revert h; unfold Field.Matches; decide

end Accepting

section Placing

variable {W : AuraWire}

@[simp] theorem fieldAt_zero (f g : Field) (fs : List Field) (data : Bytes) :
    fieldAt (f :: fs) 0 g data = data.take g.size := by
  simp [fieldAt, fieldsSize]

@[simp] theorem fieldAt_succ (f g : Field) (fs : List Field) (k : ℕ) (data : Bytes) :
    fieldAt (f :: fs) (k + 1) g data = fieldAt fs k g (data.drop f.size) := by
  simp [fieldAt, List.drop_drop]

theorem length_escapeByte_pos (c : UInt8) : 1 ≤ (Json.escapeByte c).length := by
  unfold Json.escapeByte
  split_ifs <;> simp [lit]

theorem length_stringText (s : Bytes) : s.length + 2 ≤ (Json.stringText s).length := by
  have hesc : s.length ≤ (s.flatMap Json.escapeByte).length := by
    induction s with
    | nil => simp
    | cons c s ih =>
      have := length_escapeByte_pos c
      simp only [List.length_cons, List.flatMap_cons, List.length_append]
      omega
  have hquote : (lit "\"").length = 1 := by simp [lit]
  simp only [Json.stringText, List.length_append, hquote]
  omega

/-- A block is filled by an argument that is quoted alike. -/
theorem putField_bin {n : ℕ} {hn} {s b : Bytes} (h : putField W (.bin n hn) (.string s) = some b)
    (hs : n ≤ s.length) : b = (Json.stringText s).take n ∧ b.length = n := by
  obtain rfl : (Json.stringText s).take n = b := by simpa [putField] using h
  have := length_stringText s
  refine ⟨rfl, ?_⟩
  rw [List.length_take]
  omega

theorem putField_int {t : IntType} {j : Json} {b : Bytes} (h : putField W (.int t) j = some b) :
    ∃ v, j = .int v ∧ b = W.put t (t.store v.toInt) := by
  unfold putField at h
  split at h <;> simp_all

theorem stored_of_quotedAlike {items : List Json} : ∀ {fs : List Field} {i : ℕ} {bs : Bytes},
    putFields W (.array items) fs i = some bs →
    (∀ (k : ℕ) n hn, fs[k]? = some (.bin n hn) → ∃ s,
      (Json.array items).arrayGetIdx (i + k) = .string s
        ∧ n ≤ s.length ∧ (Json.stringText s).take n = s.take n) →
    bs.length = fieldsSize fs ∧ ∀ mid : Bytes, mid.length = fieldsSize fs →
      ∀ (k : ℕ) f, fs[k]? = some f → f.Stored W ((Json.array items).arrayGetIdx (i + k))
        (fieldAt fs k f mid) (fieldAt fs k f bs)
  | [], i, bs, hput, _ => by
    obtain rfl : [] = bs := by simpa [putFields] using hput
    simp [fieldsSize]
  | f :: fs, i, bs, hput, hq => by
    obtain ⟨b, rest, hb, hrest, rfl⟩ := putFields_cons hput
    obtain ⟨hlen, hstored⟩ := stored_of_quotedAlike hrest fun k n hn hk => by
      simpa [Nat.add_assoc, Nat.add_comm 1] using hq (k + 1) n hn (by simpa using hk)
    have hfirst : b.length = f.size ∧ ∀ old : Bytes, old.length = f.size →
        f.Stored W ((Json.array items).arrayGetIdx i) old b := by
      rcases f with t | ⟨n, hn⟩
      · obtain ⟨v, hv, rfl⟩ := putField_int hb
        exact ⟨W.length_put _ _, fun old _ => by rw [hv]; rfl⟩
      · obtain ⟨s, hs, hns, htext⟩ := hq 0 n hn rfl
        rw [Nat.add_zero] at hs
        rw [hs] at hb ⊢
        obtain ⟨rfl, hbn⟩ := putField_bin hb hns
        refine ⟨hbn, fun old hold => ?_⟩
        have : old.drop s.length = [] := List.drop_eq_nil_of_le (by rw [hold]; exact hns)
        simp only [Field.Stored, htext, this, List.append_nil]
    refine ⟨by rw [List.length_append, fieldsSize_cons, hlen, hfirst.1], fun mid hmid k g hk => ?_⟩
    rw [fieldsSize_cons] at hmid
    rcases k with _ | k
    · obtain rfl : f = g := by simpa using hk
      rw [fieldAt_zero, fieldAt_zero, List.take_left' hfirst.1]
      exact hfirst.2 _ (by rw [List.length_take]; omega)
    · rw [fieldAt_succ, fieldAt_succ, List.drop_left' hfirst.1]
      have := hstored (mid.drop f.size) (by rw [List.length_drop]; omega) k g (by simpa using hk)
      simpa [Nat.add_assoc, Nat.add_comm 1] using this

/-- Whatever the buffer held, the byte behind a string that does not fill its block is the text's,
where nothing was to be stored. -/
theorem fills_of_stored {n total : ℕ} {hn} {s rest : Bytes} (htotal : n ≤ total)
    (h : ∀ mid : Bytes, mid.length = total → (Field.bin n hn).Stored W (.string s) (mid.take n)
      (((Json.stringText s).take n ++ (rest ++ mid.drop
        ((Json.stringText s).take n ++ rest).length)).take n)) : n ≤ s.length := by
  by_contra hlt
  have hlong := length_stringText s
  have hs : s.length < (Json.stringText s).length := by omega
  have h' := h (List.replicate total ((Json.stringText s)[s.length] + 1)) (by simp)
  simp only [Field.Stored] at h'
  have hat := congrArg (·[s.length]?) h'
  simp only [List.getElem?_take, if_pos (show s.length < n by omega)] at hat
  rw [List.getElem?_append_left (by rw [List.length_take]; omega),
    List.getElem?_append_right (by rw [List.length_take]; omega), List.getElem?_take,
    if_pos (by omega), List.getElem?_eq_getElem hs, List.length_take, List.getElem?_drop,
    List.getElem?_take, if_pos (by omega), List.getElem?_replicate, if_pos (by omega)] at hat
  simp at hat

/-- What is stored in a field whatever the buffer held is a string that fills the field and begins
like its quoted text. -/
theorem string_of_stored {n total : ℕ} {hn} {j : Json} {b rest : Bytes} (htotal : n ≤ total)
    (hb : putField W (.bin n hn) j = some b)
    (h : ∀ mid : Bytes, mid.length = total → (Field.bin n hn).Stored W j (mid.take n)
      ((b ++ (rest ++ mid.drop (b ++ rest).length)).take n)) :
    b.length = n ∧ ∃ s, j = .string s ∧ n ≤ s.length
      ∧ (Json.stringText s).take n = s.take n := by
  have hzero := h (List.replicate total 0) (by simp)
  rcases j with _ | _ | _ | _ | s | _ | _
  case string =>
    have htext : (Json.stringText s).take n = b := by simpa [putField] using hb
    rw [← htext] at h
    have hns : n ≤ s.length := fills_of_stored htotal h
    obtain ⟨-, hlen⟩ := putField_bin hb hns
    have hdrop : ((List.replicate total (0 : UInt8)).take n).drop s.length = [] :=
      List.drop_eq_nil_of_le (by rw [List.length_take]; omega)
    refine ⟨hlen, s, rfl, hns, ?_⟩
    rw [List.take_left' hlen] at hzero
    rw [htext, hzero, hdrop, List.append_nil]
  all_goals exact hzero.elim

theorem quotedAlike_of_stored {items : List Json} : ∀ {fs : List Field} {i : ℕ} {bs : Bytes},
    putFields W (.array items) fs i = some bs →
    (∀ mid : Bytes, mid.length = fieldsSize fs → ∀ (k : ℕ) f, fs[k]? = some f →
      f.Stored W ((Json.array items).arrayGetIdx (i + k)) (fieldAt fs k f mid)
        (fieldAt fs k f (bs ++ mid.drop bs.length))) →
    ∀ (k : ℕ) n hn, fs[k]? = some (.bin n hn) → ∃ s,
      (Json.array items).arrayGetIdx (i + k) = .string s
        ∧ n ≤ s.length ∧ (Json.stringText s).take n = s.take n
  | [], i, bs, _, _, k, n, hn, hk => by simp at hk
  | f :: fs, i, bs, hput, hst, k, n, hn, hk => by
    obtain ⟨b, rest, hb, hrest, rfl⟩ := putFields_cons hput
    simp only [fieldsSize_cons] at hst
    have hfirst : b.length = f.size ∧ ∀ n hn, f = .bin n hn → ∃ s,
        (Json.array items).arrayGetIdx i = .string s
          ∧ n ≤ s.length ∧ (Json.stringText s).take n = s.take n := by
      rcases f with t | ⟨m, hm⟩
      · obtain ⟨v, -, rfl⟩ := putField_int hb
        exact ⟨W.length_put _ _, fun _ _ h => by cases h⟩
      · obtain ⟨hlen, hs⟩ := string_of_stored (Nat.le_add_right m (fieldsSize fs)) hb
          fun mid hmid => by simpa [Field.size] using hst mid hmid 0 (.bin m hm) rfl
        refine ⟨hlen, ?_⟩
        rintro n hn ⟨⟩
        exact hs
    rcases k with _ | k
    · exact hfirst.2 n hn (by simpa using hk)
    · have ih := quotedAlike_of_stored hrest (fun mid hmid k' g hk' => by
        have := hst (List.replicate f.size 0 ++ mid) (by simp [hmid]) (k' + 1) g
          (by simpa using hk')
        rw [fieldAt_succ, fieldAt_succ, List.drop_left' (by simp), List.append_assoc,
          List.drop_left' hfirst.1, List.length_append, hfirst.1, ← List.drop_drop,
          List.drop_left' (by simp)] at this
        simpa [Nat.add_assoc, Nat.add_comm 1] using this) k n hn (by simpa using hk)
      simpa [Nat.add_assoc, Nat.add_comm 1] using ih

theorem get_inj {t : IntType} {a b : Bytes} (ha : a.length = t.size) (hb : b.length = t.size)
    (h : W.get t a = W.get t b) : a = b := by
  rw [← W.put_get t a ha, ← W.put_get t b hb, h]

theorem ofInt_inj_of_range {t : IntType} {a b : ℤ} (ha : t.lo ≤ a ∧ a < t.hi)
    (hb : t.lo ≤ b ∧ b < t.hi) (h : Int64.ofInt a = Int64.ofInt b) : a = b := by
  rw [← IntType.store_ofInt ha.1 ha.2, h, IntType.store_ofInt hb.1 hb.2]

/-- A buffer whose bytes tell the place of an integer behind a block from the place it is read
at. -/
theorem exists_read_apart {fs : List Field} {k n : ℕ} {t : IntType} {hn}
    (hk : fs[k]? = some (.int t)) (hbin : Field.bin n hn ∈ fs.take k) :
    ∃ data : Bytes, data.length = fieldsSize fs
      ∧ W.get t ((data.drop (readSize (fs.take k))).take t.size)
        ≠ W.get t (fieldAt fs k (.int t) data) := by
  have hlt := readSize_lt hbin
  have hsize : fieldsSize (fs.take k) + t.size ≤ fieldsSize fs := sum_take_add_le Field.size hk
  have hpos : 0 < t.size := by cases t <;> decide
  refine ⟨List.replicate (readSize (fs.take k)) 0 ++ 1 ::
    List.replicate (fieldsSize fs - readSize (fs.take k) - 1) 0, ?_, fun h => ?_⟩
  · simp only [List.length_append, List.length_replicate, List.length_cons]
    omega
  · have heq := get_inj (by simp; omega) (by simp [fieldAt, Field.size]; omega) h
    have hat := congrArg (·[0]?) heq
    obtain ⟨d, hd⟩ : ∃ d, fieldsSize (fs.take k) = readSize (fs.take k) + (d + 1) :=
      ⟨fieldsSize (fs.take k) - readSize (fs.take k) - 1, by omega⟩
    simp only [fieldAt, Field.size, hd, List.getElem?_take, if_pos hpos, List.getElem?_drop,
      Nat.add_zero] at hat
    rw [List.getElem?_append_right (by simp), List.getElem?_append_right (by simp)] at hat
    simp only [List.length_replicate, Nat.sub_self, List.getElem?_cons_zero,
      Nat.add_sub_cancel_left, List.getElem?_cons_succ, List.getElem?_replicate] at hat
    split_ifs at hat
    simp at hat

theorem arrayGetIdx_string {items : List Json} {i : ℕ} {s : Bytes} :
    (Json.array items).arrayGetIdx i = .string s ↔ items[i]? = some (.string s) := by
  rw [Json.arrayGetIdx, List.getD_eq_getElem?_getD]
  rcases items[i]? with _ | j <;> simp

/-- The arguments of a call are stored at their fields, whatever the buffer held, exactly where
they are quoted alike. -/
theorem arguments_stored_iff (C : UrpcCodes) {fs : List Field} {items : List Json}
    (hok : ∃ out extra buf, out.length = fieldsSize fs
      ∧ ahttpdBufferFromJson C W ⟨out, extra, 0⟩ (.array items) (some (formatText C fs))
        = some (0, buf)) :
    (∀ out extra buf, out.length = fieldsSize fs →
        ahttpdBufferFromJson C W ⟨out, extra, 0⟩ (.array items) (some (formatText C fs))
          = some (0, buf) →
        ∀ (k : ℕ) f, fs[k]? = some f → f.Stored W (items.getD k .null) (fieldAt fs k f out)
          (fieldAt fs k f buf.data))
      ↔ QuotedAlike fs items := by
  obtain ⟨out₀, extra₀, buf₀, hout₀, h₀⟩ := hok
  have hloop := fun (out extra : Bytes) (hout : out.length = fieldsSize fs) =>
    fromJsonLoop_fields C (W := W) (.array items) extra fs 0 [] out hout.ge
  have hfrom : ∀ out extra, ahttpdBufferFromJson C W ⟨out, extra, 0⟩ (.array items)
      (some (formatText C fs)) = fromJsonLoop C W (.array items) (formatText C fs) 0
        ⟨out, extra, 0⟩ := fun out extra => by simp [ahttpdBufferFromJson, Json.type]
  have hquoted : QuotedAlike fs items ↔ ∀ (k : ℕ) n hn, fs[k]? = some (.bin n hn) → ∃ s,
      (Json.array items).arrayGetIdx (0 + k) = .string s
        ∧ n ≤ s.length ∧ (Json.stringText s).take n = s.take n := by
    simp only [Nat.zero_add, arrayGetIdx_string]
    rfl
  simp only [hfrom] at h₀ ⊢
  rcases hput : putFields W (.array items) fs 0 with _ | bs <;> simp only [hput] at hloop
  · obtain ⟨buf, hbuf⟩ := hloop out₀ extra₀ hout₀
    exact absurd (h₀.symm.trans hbuf) (by simp)
  rw [hquoted]
  constructor
  · intro hst
    refine quotedAlike_of_stored hput fun mid hmid k f hk => ?_
    rw [Nat.zero_add]
    exact hst mid [] _ hmid (hloop mid [] hmid) k f hk
  · intro hq out extra buf hout hbuf k f hk
    obtain ⟨hlen, hst⟩ := stored_of_quotedAlike hput hq
    have hdrop : out.drop bs.length = [] := List.drop_eq_nil_of_le (by omega)
    have hbuf' := hbuf.symm.trans (hloop out extra hout)
    simp only [hdrop, List.append_nil, List.nil_append, Option.some.injEq, Prod.mk.injEq,
      true_and] at hbuf'
    have := hst out hout k f hk
    rw [Nat.zero_add] at this
    rw [hbuf']
    exact this

/-- The integers of a result are read at their fields exactly where no block comes before an
integer. -/
theorem results_read_iff (C : UrpcCodes) (W : AuraWire) (fs : List Field) :
    (∀ data extra, data.length = fieldsSize fs →
        ∃ js buf, ahttpdBufferToJson C W ⟨data, extra, 0⟩ (some (formatText C fs))
            = some (.array js, buf)
          ∧ ∀ (k : ℕ) t, fs[k]? = some (.int t) →
            js[k]? = some (.int (Int64.ofInt (W.get t (fieldAt fs k (.int t) data)))))
      ↔ IntsFirst fs := by
  have hread : ∀ data extra, data.length = fieldsSize fs →
      ahttpdBufferToJson C W ⟨data, extra, 0⟩ (some (formatText C fs))
        = some (.array (readFields W fs data), ⟨data, extra, readSize fs⟩) := by
    intro data extra hdata
    have := readSize_le fs
    have h := toJsonLoop_fields C W fs ⟨data, extra, 0⟩ (by simpa using by omega)
    simp [ahttpdBufferToJson, h]
  constructor
  · intro h k t hk n hn hbin
    obtain ⟨data, hdata, hne⟩ := exists_read_apart (W := W) hk hbin
    obtain ⟨js, buf, hjs, hall⟩ := h data [] hdata
    obtain ⟨rfl, -⟩ : readFields W fs data = js ∧ _ := by
      simpa using (hread data [] hdata).symm.trans hjs
    have hk' := (readFields_int W fs k t data hk).symm.trans (hall k t hk)
    have hlen : fieldsSize (fs.take k) + t.size ≤ fieldsSize fs := sum_take_add_le Field.size hk
    have hle := readSize_le (fs.take k)
    refine hne (ofInt_inj_of_range (W.get_range t _ ?_) (W.get_range t _ ?_) (by simpa using hk'))
    · rw [List.length_take, List.length_drop]
      omega
    · rw [fieldAt, List.length_take, List.length_drop, Field.size]
      omega
  · intro h data extra hdata
    refine ⟨_, _, hread data extra hdata, fun k t hk => ?_⟩
    rw [readFields_int W fs k t data hk, readSize_eq (h k t hk)]
    rfl

/-- The arguments of a call lie where the format declares their fields, strings as their own
bytes, exactly where every `BIN` argument is a string that fills its field and begins like its
quoted text; results are read where the format declares them exactly where no `BIN` field lies
before an integer. -/
theorem fields_placed_iff (C : UrpcCodes) (W : AuraWire) (fs : List Field) :
    (∀ items : List Json,
      (∃ out extra buf, out.length = fieldsSize fs
        ∧ ahttpdBufferFromJson C W ⟨out, extra, 0⟩ (.array items) (some (formatText C fs))
          = some (0, buf)) →
      ((∀ out extra buf, out.length = fieldsSize fs →
          ahttpdBufferFromJson C W ⟨out, extra, 0⟩ (.array items) (some (formatText C fs))
            = some (0, buf) →
          ∀ (k : ℕ) f, fs[k]? = some f → f.Stored W (items.getD k .null) (fieldAt fs k f out)
            (fieldAt fs k f buf.data))
        ↔ QuotedAlike fs items))
      ∧ ((∀ data extra, data.length = fieldsSize fs →
          ∃ js buf, ahttpdBufferToJson C W ⟨data, extra, 0⟩ (some (formatText C fs))
              = some (.array js, buf)
            ∧ ∀ (k : ℕ) t, fs[k]? = some (.int t) →
              js[k]? = some (.int (Int64.ofInt (W.get t (fieldAt fs k (.int t) data)))))
        ↔ IntsFirst fs) :=
  ⟨fun _ hok => arguments_stored_iff C hok, results_read_iff C W fs⟩

/-- A single quotation mark in a block of one byte is quoted alike. -/
theorem fields_placed_iff_quote :
    (∀ out extra buf, out.length = fieldsSize [.bin 1 (by decide), .int .u8] →
        ahttpdBufferFromJson .digits .littleEndian ⟨out, extra, 0⟩
          (.array [.string (lit "\""), .int 7])
          (some (formatText .digits [.bin 1 (by decide), .int .u8])) = some (0, buf) →
        ∀ (k : ℕ) f, [Field.bin 1 (by decide), .int .u8][k]? = some f →
          f.Stored .littleEndian ([Json.string (lit "\""), .int 7].getD k .null)
            (fieldAt [.bin 1 (by decide), .int .u8] k f out)
            (fieldAt [.bin 1 (by decide), .int .u8] k f buf.data))
      ↔ QuotedAlike [.bin 1 (by decide), .int .u8] [.string (lit "\""), .int 7] :=
  (fields_placed_iff .digits .littleEndian [.bin 1 (by decide), .int .u8]).1
    [.string (lit "\""), .int 7]
    ⟨[0, 0], [], ⟨[34, 7], [], 2⟩, by decide, fromJsonLoop_fields .digits (W := .littleEndian)
      (.array [.string (lit "\""), .int 7]) [] [.bin 1 (by decide), .int .u8] 0 [] [0, 0]
      (by decide)⟩

/-- Five bytes for `"a"` get its quoted text, and the number behind them lands two bytes early. -/
theorem string_shifts_fields :
    ahttpdBufferFromJson .digits .littleEndian ⟨List.replicate 6 0, [], 0⟩
        (.array [.string (lit "a"), .int 7])
        (some (formatText .digits [.bin 5 (by decide), .int .u8]))
        = some (0, ⟨[34, 97, 34, 7, 0, 0], [], 4⟩)
      ∧ ¬ (Field.bin 5 (by decide)).Stored .littleEndian (.string (lit "a")) (List.replicate 5 0)
        (fieldAt [.bin 5 (by decide), .int .u8] 0 (.bin 5 (by decide)) [34, 97, 34, 7, 0, 0])
      ∧ ¬ (Field.int .u8).Stored .littleEndian (.int 7) [0]
        (fieldAt [.bin 5 (by decide), .int .u8] 1 (.int .u8) [34, 97, 34, 7, 0, 0]) := by
  refine ⟨?_, ?_, ?_⟩
  · exact fromJsonLoop_fields .digits (W := .littleEndian) (.array [.string (lit "a"), .int 7]) []
      [.bin 5 (by decide), .int .u8] 0 [] (List.replicate 6 0) (by decide)
  · unfold Field.Stored
    decide
  · unfold Field.Stored
    decide

end Placing

section Values
variable (C : UrpcCodes) (W : AuraWire)

theorem decodeFields_get : ∀ {ts : List IntType} {k : ℕ} {t : IntType} (bs : Bytes),
    ts[k]? = some t → (decodeFields W ts bs)[k]?
      = some (W.get t ((bs.drop (formatSize (ts.take k))).take t.size))
  | [], k, t, bs, h => by simp at h
  | t' :: ts, 0, t, bs, h => by
    obtain rfl : t' = t := by simpa using h
    simp [decodeFields, formatSize]
  | t' :: ts, k + 1, t, bs, h => by
    rw [decodeFields, List.getElem?_cons_succ, decodeFields_get _ (by simpa using h),
      List.take_succ_cons, formatSize_cons, List.drop_drop]

/-- A value goes through an `int64_t` unharmed unless it is a `uint64_t` past its range. -/
theorem toInt_ofInt_iff {t : IntType} {z : ℤ} (h : t.lo ≤ z ∧ z < t.hi) :
    (Int64.ofInt z).toInt = z ↔ (t = .u64 → z < 2 ^ 63) := by
  rw [Int64.toInt_ofInt]
  cases t <;> simp only [IntType.lo, IntType.hi, IntType.signed, IntType.size, Int.bmod,
    Int64.size] at * <;> grind

/-- The elements are the values of the fields exactly where no `uint64_t` field is past the range
of an `int64_t`. -/
theorem decoded_values_iff (ts : List IntType) (bytes extra : Bytes)
    (hbytes : bytes.length = formatSize ts) :
    ∃ js buf, ahttpdBufferToJson C W ⟨bytes, extra, 0⟩ (some (ts.map C.int))
        = some (.array js, buf)
      ∧ ((js.length = ts.length ∧ ∀ (k : ℕ) t, ts[k]? = some t → ∃ v : Int64,
            js[k]? = some (.int v)
              ∧ v.toInt = W.get t ((bytes.drop (formatSize (ts.take k))).take t.size))
        ↔ ∀ k : ℕ, ts[k]? = some .u64 →
          W.get .u64 ((bytes.drop (formatSize (ts.take k))).take 8) < 2 ^ 63) := by
  have hto := toJsonLoop_ints C W ts ⟨bytes, extra, 0⟩ (by simpa using hbytes.ge)
  have hr : InRange ts (decodeFields W ts bytes) := decodeFields_inRange W ts hbytes.ge
  refine ⟨_, _, by simp only [ahttpdBufferToJson, hto, Option.map_some]; rfl, ?_⟩
  simp only [List.drop_zero, List.length_map, hr.length_eq.symm, true_and, List.getElem?_map]
  have hat : ∀ (k : ℕ) t, ts[k]? = some t →
      ((∃ v : Int64, Option.map (fun z => Json.int (Int64.ofInt z)) (decodeFields W ts bytes)[k]?
          = some (.int v)
          ∧ v.toInt = W.get t ((bytes.drop (formatSize (ts.take k))).take t.size))
        ↔ (t = .u64 → W.get t ((bytes.drop (formatSize (ts.take k))).take t.size) < 2 ^ 63)) := by
    intro k t hk
    have hsize : formatSize (ts.take k) + t.size ≤ formatSize ts := sum_take_add_le _ hk
    have hrange := W.get_range t ((bytes.drop (formatSize (ts.take k))).take t.size)
      (by rw [List.length_take, List.length_drop]; omega)
    rw [decodeFields_get W bytes hk, Option.map_some, ← toInt_ofInt_iff hrange]
    simp
  constructor
  · intro h k hk
    exact (hat k .u64 hk).1 (h k .u64 hk) rfl
  · intro h k t hk
    refine (hat k t hk).2 ?_
    rintro rfl
    exact h k hk

theorem decoded_values_iff_byte : ∃ js buf,
    ahttpdBufferToJson .digits .littleEndian ⟨[200], [], 0⟩
        (some ([IntType.u8].map UrpcCodes.digits.int)) = some (.array js, buf)
      ∧ ((js.length = [IntType.u8].length ∧ ∀ (k : ℕ) t, [IntType.u8][k]? = some t →
          ∃ v : Int64, js[k]? = some (.int v) ∧ v.toInt = AuraWire.littleEndian.get t
            ((([200] : Bytes).drop (formatSize ([IntType.u8].take k))).take t.size))
        ↔ ∀ k : ℕ, [IntType.u8][k]? = some .u64 → AuraWire.littleEndian.get .u64
          ((([200] : Bytes).drop (formatSize ([IntType.u8].take k))).take 8) < 2 ^ 63) :=
  decoded_values_iff .digits .littleEndian [.u8] [200] [] (by decide)

/-- The greatest `uint64_t` reads as `-1`. -/
theorem max_reads_negative :
    ahttpdBufferToJson .digits .littleEndian ⟨List.replicate 8 255, [], 0⟩
        (some ([IntType.u64].map UrpcCodes.digits.int))
        = some (.array [.int (-1)], ⟨List.replicate 8 255, [], 8⟩)
      ∧ AuraWire.littleEndian.get .u64 (List.replicate 8 255) = 2 ^ 64 - 1 := by
  constructor
  · have h := toJsonLoop_ints .digits .littleEndian [.u64] ⟨List.replicate 8 255, [], 0⟩ (by decide)
    simp only [ahttpdBufferToJson, h, Option.map_some]
    rfl
  · decide

end Values

end AuraHttpd
