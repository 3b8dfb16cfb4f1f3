import AuraHttpd.Format
import AuraHttpd.Proofs.Serdes

/-!
# Marshalling mixed formats

Over a format of integers and `BIN` blocks both loops take one field after another.  The one that
writes puts `putField` for each (`fromJsonLoop_fields`): a string argument as its quoted text, cut
to the block's size, another argument of a block not at all.  So the position is right behind a
block only if the text filled it.  The one that reads passes over blocks without moving
(`toJsonLoop_fields`).
-/

namespace AuraHttpd

open CString

theorem UrpcCodes.case_bin (C : UrpcCodes) : C.case C.bin = some .bin := by
  have hdisj := (List.nodup_append.1 C.nodup).2.2
  have hfind : IntType.all.find? (C.int · = C.bin) = none := by
    rw [List.find?_eq_none]
    intro t ht h
    exact hdisj _ (List.mem_map_of_mem ht) C.bin (by simp) (by simpa using h)
  simp [case, hfind]

section Digits

theorem takeWhile_digits (n : ℕ) (rest : Bytes) :
    (decimal n ++ 46 :: rest).takeWhile (digitVal · < 10) = decimal n := by
  rw [List.takeWhile_append_of_pos]
  · simp [digitVal]
  · intro c hc
    have h := digit_of_mem_decimal hc
    have hle := UInt8.le_iff_toNat_le.1 h.2
    simp only [digitVal, if_pos h, decide_eq_true_eq]
    simp at hle
    omega

theorem atoi_decimal (n : ℕ) (rest : Bytes) : atoi (decimal n ++ 46 :: rest) = n := by
  obtain ⟨c, ds, hds⟩ := List.exists_cons_of_ne_nil (decimal_ne_nil n)
  have hc : 48 ≤ c ∧ c ≤ 57 := digit_of_mem_decimal (n := n) (by simp [hds])
  have hspace : isSpace c = false := by
    simp only [isSpace]
    simp only [UInt8.le_iff_toNat_le, ← UInt8.toNat_inj] at *
    simp at *
    omega
  have hdrop : (decimal n ++ 46 :: rest).dropWhile isSpace = decimal n ++ 46 :: rest := by
    rw [hds, List.cons_append, List.dropWhile_cons_of_neg (by simp [hspace])]
  have hhead : (decimal n ++ 46 :: rest).head? = some c := by simp [hds]
  have hminus : c ≠ 45 := by rintro rfl; revert hc; decide
  have hplus : c ≠ 43 := by rintro rfl; revert hc; decide
  unfold atoi
  simp only [hdrop, hhead, Option.some.injEq, hminus, hplus, or_self, if_false, takeWhile_digits]
  rw [foldl_decimal]

theorem skipDot_decimal (n : ℕ) (rest : Bytes) : skipDot (decimal n ++ 46 :: rest) = rest := by
  unfold skipDot
  rw [List.dropWhile_append_of_pos]
  · simp
  · intro c hc
    have h := digit_of_mem_decimal hc
    simp only [decide_eq_true_eq]
    rintro rfl
    revert h
    decide

end Digits

/-- What lies before an entry and the entry fit in the whole. -/
theorem sum_take_add_le {α : Type*} (g : α → ℕ) {l : List α} {k : ℕ} {a : α}
    (h : l[k]? = some a) : ((l.take k).map g).sum + g a ≤ (l.map g).sum := by
  obtain ⟨hk, rfl⟩ := List.getElem?_eq_some_iff.1 h
  have hsplit : l.take k ++ l[k] :: l.drop (k + 1) = l := by
    rw [← List.drop_eq_getElem_cons hk, List.take_append_drop]
  have hsum := congrArg (fun l => (l.map g).sum) hsplit
  simp only [List.map_append, List.sum_append, List.map_cons, List.sum_cons] at hsum
  omega

@[simp] theorem fieldsSize_cons (f : Field) (fs : List Field) :
    fieldsSize (f :: fs) = f.size + fieldsSize fs := by
  simp [fieldsSize]

theorem formatText_int (C : UrpcCodes) (t : IntType) (fs : List Field) :
    formatText C (.int t :: fs) = C.int t :: formatText C fs := by
  simp [formatText, Field.text]

theorem formatText_bin (C : UrpcCodes) (n : ℕ) (hn) (fs : List Field) :
    formatText C (.bin n hn :: fs) = C.bin :: (decimal n ++ 46 :: formatText C fs) := by
  simp [formatText, Field.text]

section Reading

variable (C : UrpcCodes) (W : AuraWire)

/-- The elements the reading loop makes of the bytes from its position on. -/
def readFields : List Field → Bytes → List Json
  | [], _ => []
  | .int t :: fs, bs =>
    .int (Int64.ofInt (W.get t (bs.take t.size))) :: readFields fs (bs.drop t.size)
  | .bin _ _ :: fs, bs => .string (lit "buffer") :: readFields fs bs

/-- How far the reading loop moves. -/
def readSize : List Field → ℕ
  | [] => 0
  | .int t :: fs => t.size + readSize fs
  | .bin _ _ :: fs => readSize fs

theorem readSize_le : ∀ fs : List Field, readSize fs ≤ fieldsSize fs
  | [] => le_rfl
  | .int t :: fs => by
    have := readSize_le fs
    simp only [readSize, fieldsSize_cons, Field.size]
    omega
  | .bin n _ :: fs => by
    have := readSize_le fs
    simp only [readSize, fieldsSize_cons]
    omega

theorem toJsonLoop_fields : ∀ (fs : List Field) (buf : AuraBuffer),
    buf.pos + readSize fs ≤ buf.data.length →
      toJsonLoop C W (formatText C fs) buf
        = some (readFields W fs (buf.data.drop buf.pos),
          { buf with pos := buf.pos + readSize fs })
  | [], buf, _ => by simp [formatText, toJsonLoop, readFields, readSize]
  | .int t :: fs, buf, h => by
    rw [readSize] at h
    have ih := toJsonLoop_fields fs { buf with pos := buf.pos + t.size } (by simpa using by omega)
    have hget : buf.getBytes t.size
        = some ((buf.data.drop buf.pos).take t.size, { buf with pos := buf.pos + t.size }) :=
      if_pos (by omega)
    rw [formatText_int]
    simp only [toJsonLoop, C.case_int, hget, ih, readFields, readSize, List.drop_drop,
      Option.bind_eq_bind, Option.bind_some, Nat.add_assoc]
  | .bin n hn :: fs, buf, h => by
    have ih := toJsonLoop_fields fs buf h
    rw [formatText_bin]
    simp only [toJsonLoop, C.case_bin, skipDot_decimal, ih, readFields, readSize,
      Option.bind_eq_bind, Option.bind_some]

/-- The `k`-th element, for an integer, is read behind the integers before it. -/
theorem readFields_int : ∀ (fs : List Field) (k : ℕ) (t : IntType) (bs : Bytes),
    fs[k]? = some (.int t) → (readFields W fs bs)[k]?
      = some (.int (Int64.ofInt (W.get t ((bs.drop (readSize (fs.take k))).take t.size))))
  | [], k, t, bs, h => by simp at h
  | .int t' :: fs, 0, t, bs, h => by
    obtain rfl : t' = t := by simpa using h
    simp [readFields, readSize]
  | .bin n hn :: fs, 0, t, bs, h => by simp at h
  | .int t' :: fs, k + 1, t, bs, h => by
    rw [readFields, List.getElem?_cons_succ, readFields_int fs k t _ (by simpa using h),
      List.take_succ_cons, readSize, List.drop_drop]
  | .bin n hn :: fs, k + 1, t, bs, h => by
    rw [readFields, List.getElem?_cons_succ, readFields_int fs k t _ (by simpa using h),
      List.take_succ_cons, readSize]

theorem readSize_eq : ∀ {fs : List Field}, (∀ n hn, Field.bin n hn ∉ fs) →
    readSize fs = fieldsSize fs
  | [], _ => rfl
  | .int t :: fs, h => by
    rw [readSize, fieldsSize_cons, readSize_eq fun n hn hm => h n hn (List.mem_cons_of_mem _ hm)]
    rfl
  | .bin n hn :: fs, h => absurd List.mem_cons_self (h n hn)

theorem readSize_lt : ∀ {fs : List Field} {n : ℕ} {hn}, Field.bin n hn ∈ fs →
    readSize fs < fieldsSize fs
  | [], n, hn, h => by simp at h
  | .int t :: fs, n, hn, h => by
    have := readSize_lt ((List.mem_cons.1 h).resolve_left (by simp))
    simp only [readSize, fieldsSize_cons, Field.size]
    omega
  | .bin n' hn' :: fs, n, hn, h => by
    have := readSize_le fs
    simp only [readSize, fieldsSize_cons, Field.size]
    omega

end Reading

section Writing

variable (C : UrpcCodes) (W : AuraWire)

/-- What the writing loop puts for one argument, unless it refuses it. -/
def putField : Field → Json → Option Bytes
  | .int t, .int v => some (W.put t (t.store v.toInt))
  | .int _, _ => none
  | .bin n _, .string s => some ((Json.stringText s).take n)
  | .bin _ _, _ => some []

/-- What the writing loop puts for the arguments from the `i`-th on. -/
def putFields (json : Json) : List Field → ℕ → Option Bytes
  | [], _ => some []
  | f :: fs, i => do
    let bs ← putField W f (json.arrayGetIdx i)
    let rest ← putFields json fs (i + 1)
    some (bs ++ rest)

variable {W}

theorem length_putField_le {f : Field} {j : Json} {bs : Bytes} (h : putField W f j = some bs) :
    bs.length ≤ f.size := by
  unfold putField at h
  split at h <;> simp only [Option.some.injEq, reduceCtorEq] at h <;> subst h
  · exact (W.length_put _ _).le
  · simp [Field.size]
  · simp

theorem putFields_cons {json : Json} {f : Field} {fs : List Field} {i : ℕ} {bs : Bytes}
    (h : putFields W json (f :: fs) i = some bs) : ∃ b rest,
      putField W f (json.arrayGetIdx i) = some b ∧ putFields W json fs (i + 1) = some rest
        ∧ bs = b ++ rest := by
  simp only [putFields, Option.bind_eq_bind, Option.bind_eq_some_iff] at h
  obtain ⟨b, hb, rest, hrest, h⟩ := h
  exact ⟨b, rest, hb, hrest, (Option.some.inj h).symm⟩

theorem putBytes_prefix (done extra : Bytes) {mid bs : Bytes} (h : bs.length ≤ mid.length) :
    (AuraBuffer.mk (done ++ mid) extra done.length).putBytes bs
      = some ⟨(done ++ bs) ++ mid.drop bs.length, extra, (done ++ bs).length⟩ := by
  have := putBytes_append done (mid.take bs.length) (mid.drop bs.length) extra bs
    (by rw [List.length_take]; omega)
  rwa [List.take_append_drop] at this

/-- One turn of the writing loop. -/
theorem fromJsonLoop_field {json : Json} {f : Field} {fs : List Field} {i : ℕ}
    {done mid extra : Bytes} (hmid : f.size ≤ mid.length) :
    fromJsonLoop C W json (formatText C (f :: fs)) i ⟨done ++ mid, extra, done.length⟩
      = match putField W f (json.arrayGetIdx i) with
        | some bs => fromJsonLoop C W json (formatText C fs) (i + 1)
            ⟨(done ++ bs) ++ mid.drop bs.length, extra, (done ++ bs).length⟩
        | none => some (-1, ⟨done ++ mid, extra, done.length⟩) := by
  rcases hput : putField W f (json.arrayGetIdx i) with _ | bs
  · unfold putField at hput
    split at hput <;> simp only [reduceCtorEq] at hput
    rename_i t hj
    have htype : (json.arrayGetIdx i).type ≠ .int := by
      rcases hv : json.arrayGetIdx i <;> simp_all [Json.type]
    rw [formatText_int]
    simp [fromJsonLoop, C.case_int, htype]
  · have hlen := (length_putField_le hput).trans hmid
    have hbytes := putBytes_prefix done extra hlen
    unfold putField at hput
    split at hput <;> simp only [Option.some.injEq, reduceCtorEq] at hput
    · rename_i t v hv
      subst hput
      rw [formatText_int]
      simp [fromJsonLoop, C.case_int, hv, Json.type, Json.getInt64, hbytes]
    · rename_i n hn s hs
      have hmin : min ((Json.stringText s).length : ℤ) (n : ℤ)
          = (min (Json.stringText s).length n : ℕ) := by omega
      have htake : (Json.stringText s).take (min (Json.stringText s).length n) = bs := by
        rw [← hput, List.take_eq_take_iff]
        omega
      rw [formatText_bin]
      simp only [fromJsonLoop, C.case_bin, hs, atoi_decimal, skipDot_decimal, hmin,
        Int.toNat_natCast, htake, Nat.cast_nonneg, if_true, hbytes, Option.bind_eq_bind,
        Option.bind_some]
    · rename_i n hn j hj
      subst hput
      rw [formatText_bin]
      simp only [fromJsonLoop, C.case_bin, skipDot_decimal, List.append_nil, List.length_nil,
        List.drop_zero]

/-- The writing loop puts its arguments one right behind another. -/
theorem fromJsonLoop_fields (json : Json) (extra : Bytes) : ∀ (fs : List Field) (i : ℕ)
    (done mid : Bytes), fieldsSize fs ≤ mid.length →
      match putFields W json fs i with
      | some bs =>
        fromJsonLoop C W json (formatText C fs) i ⟨done ++ mid, extra, done.length⟩
          = some (0, ⟨done ++ (bs ++ mid.drop bs.length), extra, (done ++ bs).length⟩)
      | none => ∃ buf,
        fromJsonLoop C W json (formatText C fs) i ⟨done ++ mid, extra, done.length⟩
          = some (-1, buf)
  | [], i, done, mid, _ => by simp [putFields, formatText, fromJsonLoop]
  | f :: fs, i, done, mid, hmid => by
    rw [fieldsSize_cons] at hmid
    rw [fromJsonLoop_field C (by omega)]
    rcases hput : putField W f (json.arrayGetIdx i) with _ | bs
    · simp [putFields, hput]
    · have hlen := length_putField_le hput
      have ih := fromJsonLoop_fields json extra fs (i + 1) (done ++ bs) (mid.drop bs.length)
        (by rw [List.length_drop]; omega)
      rcases hrest : putFields W json fs (i + 1) with _ | rest <;> rw [hrest] at ih
      · simpa [putFields, hput, hrest] using ih
      · simpa [putFields, hput, hrest, List.drop_drop, Nat.add_assoc] using ih

end Writing

end AuraHttpd
