import AuraHttpd.Serdes
import Mathlib.Data.List.Forall2
import Mathlib.Tactic.Ring

/-!
# Marshalling integers

Over a format of integer codes the two loops are `decodeFields` and `encodeFields`
(`toJsonLoop_ints`, `fromJsonLoop_ints`), which undo each other.  A value survives the
conversions on its way through the `int64_t` of a JSON integer: where the one to `int64_t` wraps,
for `uint64_t` values from `2^63` on, the one back wraps the other way (`store_ofInt`).
-/

namespace AuraHttpd

open CString

namespace IntType

variable {t : IntType} {z : ℤ}

theorem store_of_range (hlo : t.lo ≤ z) (hhi : z < t.hi) : t.store z = z := by
  cases t <;> simp only [lo, hi, store, signed, size, wrapS, wrapU, Int.bmod] at * <;> grind

theorem store_ofInt (hlo : t.lo ≤ z) (hhi : z < t.hi) : t.store (Int64.ofInt z).toInt = z := by
  rw [Int64.toInt_ofInt]
  cases t <;> simp only [lo, hi, store, signed, size, wrapS, wrapU, Int.bmod, Int64.size] at * <;>
    grind

end IntType

theorem IntType.mem_all (t : IntType) : t ∈ all := by
  cases t <;> simp [all]

theorem UrpcCodes.case_int (C : UrpcCodes) (t : IntType) : C.case (C.int t) = some (.int t) := by
  have hinj := List.inj_on_of_nodup_map C.nodup.of_append_left
  have hfind : IntType.all.find? (C.int · = C.int t) = some t := by
    rcases hf : IntType.all.find? (C.int · = C.int t) with _ | s
    · have := List.find?_eq_none.1 hf t t.mem_all
      simp at this
    · have hs : C.int s = C.int t := by simpa using List.find?_some hf
      rw [hinj s.mem_all t.mem_all hs]
  simp [case, hfind]

/-- The bytes the fields of a format take. -/
def formatSize (ts : List IntType) : ℕ := (ts.map (·.size)).sum

@[simp] theorem formatSize_cons (t : IntType) (ts : List IntType) :
    formatSize (t :: ts) = t.size + formatSize ts := by
  simp [formatSize]

/-- The value of each is in the range of its type. -/
def InRange (ts : List IntType) (zs : List ℤ) : Prop :=
  List.Forall₂ (fun t z => t.lo ≤ z ∧ z < t.hi) ts zs

section Fields

variable (W : AuraWire)

/-- The values of consecutive fields. -/
def decodeFields : List IntType → Bytes → List ℤ
  | [], _ => []
  | t :: ts, bs => W.get t (bs.take t.size) :: decodeFields ts (bs.drop t.size)

/-- The bytes of consecutive fields. -/
def encodeFields : List IntType → List ℤ → Bytes
  | t :: ts, z :: zs => W.put t z ++ encodeFields ts zs
  | _, _ => []

theorem decodeFields_inRange : ∀ (ts : List IntType) {bs : Bytes}, formatSize ts ≤ bs.length →
    InRange ts (decodeFields W ts bs)
  | [], _, _ => .nil
  | t :: ts, bs, h => by
    rw [formatSize_cons] at h
    refine .cons (W.get_range t _ (by rw [List.length_take]; omega)) ?_
    exact decodeFields_inRange ts (by rw [List.length_drop]; omega)

theorem length_encodeFields : ∀ (ts : List IntType) {zs : List ℤ}, zs.length = ts.length →
    (encodeFields W ts zs).length = formatSize ts
  | [], _, _ => by simp [encodeFields, formatSize]
  | t :: ts, [], h => by simp at h
  | t :: ts, z :: zs, h => by
    rw [encodeFields, List.length_append, W.length_put, formatSize_cons,
      length_encodeFields ts (by simpa using h)]

theorem encodeFields_decodeFields : ∀ (ts : List IntType) {bs : Bytes},
    bs.length = formatSize ts → encodeFields W ts (decodeFields W ts bs) = bs
  | [], bs, h => by
    simp only [formatSize, List.map_nil, List.sum_nil, List.length_eq_zero_iff] at h
    simp [encodeFields, h]
  | t :: ts, bs, h => by
    rw [formatSize_cons] at h
    rw [decodeFields, encodeFields, W.put_get t _ (by rw [List.length_take]; omega),
      encodeFields_decodeFields ts (by rw [List.length_drop]; omega), List.take_append_drop]

theorem decodeFields_encodeFields : ∀ {ts : List IntType} {zs : List ℤ} (rest : Bytes),
    InRange ts zs → decodeFields W ts (encodeFields W ts zs ++ rest) = zs
  | [], _, rest, h => by
    cases h
    rfl
  | t :: ts, _, rest, h => by
    cases h with
    | cons hz hzs =>
      rw [encodeFields, decodeFields, List.append_assoc, List.take_left' (W.length_put t _),
        List.drop_left' (W.length_put t _), W.get_put t _ hz.1 hz.2,
        decodeFields_encodeFields rest hzs]

end Fields

section Loops

variable (C : UrpcCodes) (W : AuraWire)

theorem toJsonLoop_ints : ∀ (ts : List IntType) (buf : AuraBuffer),
    buf.pos + formatSize ts ≤ buf.data.length →
      toJsonLoop C W (ts.map C.int) buf
        = some ((decodeFields W ts (buf.data.drop buf.pos)).map (.int <| Int64.ofInt ·),
          { buf with pos := buf.pos + formatSize ts })
  | [], buf, _ => by simp [toJsonLoop, decodeFields, formatSize]
  | t :: ts, buf, h => by
    rw [formatSize_cons] at h
    have ih := toJsonLoop_ints ts { buf with pos := buf.pos + t.size } (by simpa using by omega)
    have hget : buf.getBytes t.size
        = some ((buf.data.drop buf.pos).take t.size, { buf with pos := buf.pos + t.size }) :=
      if_pos (by omega)
    simp only [List.map_cons, toJsonLoop, C.case_int, hget, ih, decodeFields, formatSize_cons,
      List.drop_drop, Option.bind_eq_bind, Option.bind_some]
    simp only [Nat.add_assoc]

theorem putBytes_append (done mid rest extra bs : Bytes) (h : bs.length = mid.length) :
    (AuraBuffer.mk (done ++ (mid ++ rest)) extra done.length).putBytes bs
      = some ⟨(done ++ bs) ++ rest, extra, (done ++ bs).length⟩ := by
  have hdrop : (done ++ (mid ++ rest)).drop (done.length + mid.length) = rest := by
    rw [← List.append_assoc, List.drop_left' (by rw [List.length_append])]
  rw [AuraBuffer.putBytes, if_pos (by simp only [List.length_append]; omega), h, hdrop,
    List.take_left, List.length_append, h]

/-- The arguments from the `i`-th on, each an integer, are stored one after another. -/
theorem fromJsonLoop_ints (items : List Json) (rest extra : Bytes) :
    ∀ (ts : List IntType) (vs : List Int64) (i : ℕ) (done mid : Bytes),
      items.drop i = vs.map Json.int → vs.length = ts.length → mid.length = formatSize ts →
        fromJsonLoop C W (.array items) (ts.map C.int) i ⟨done ++ (mid ++ rest), extra, done.length⟩
          = some (0,
            ⟨done ++ (encodeFields W ts (List.zipWith (fun t v => t.store v.toInt) ts vs) ++ rest),
              extra, done.length + formatSize ts⟩)
  | [], vs, i, done, mid, _, _, h => by
    obtain rfl : mid = [] := by simpa [formatSize] using h
    simp [fromJsonLoop, encodeFields, formatSize]
  | t :: ts, [], i, done, mid, _, hlen, _ => by simp at hlen
  | t :: ts, v :: vs, i, done, mid, hitems, hlen, h => by
    rw [formatSize_cons] at h
    have hi : (Json.array items).arrayGetIdx i = .int v := by
      have := congrArg (·[0]?) hitems
      simp only [List.getElem?_drop, List.map_cons, List.getElem?_cons_zero, Nat.add_zero] at this
      simp [Json.arrayGetIdx, this]
    have hnext : items.drop (i + 1) = vs.map Json.int := by
      rw [← List.tail_drop, hitems, List.map_cons, List.tail_cons]
    have hput := putBytes_append done (mid.take t.size) (mid.drop t.size ++ rest) extra
      (W.put t (t.store v.toInt)) (by rw [W.length_put, List.length_take]; omega)
    rw [← List.append_assoc (mid.take t.size), List.take_append_drop] at hput
    have ih := fromJsonLoop_ints items rest extra ts vs (i + 1)
      (done ++ W.put t (t.store v.toInt)) (mid.drop t.size) hnext (by simpa using hlen)
      (by rw [List.length_drop]; omega)
    simp only [List.length_append, W.length_put, List.append_assoc, Nat.add_assoc] at ih
    simp only [List.map_cons, fromJsonLoop, C.case_int, hi, Json.type, Json.getInt64, if_true, hput,
      Option.bind_eq_bind, Option.bind_some, List.zipWith_cons_cons, encodeFields,
      formatSize_cons, List.length_append, W.length_put, List.append_assoc]
    exact ih

end Loops

/-- What the conversion of a JSON integer to each field's type stores, where every value fits. -/
theorem zipWith_store {ts : List IntType} {vs : List Int64}
    (h : InRange ts (vs.map (·.toInt))) :
    List.zipWith (fun t v => t.store v.toInt) ts vs = vs.map (·.toInt) := by
  induction ts generalizing vs with
  | nil => cases vs <;> simp_all [InRange]
  | cons t ts ih =>
    cases vs with
    | nil => simp
    | cons v vs =>
      simp only [InRange, List.map_cons, List.forall₂_cons] at h
      rw [List.zipWith_cons_cons, List.map_cons, IntType.store_of_range h.1.1 h.1.2, ih h.2]

theorem zipWith_store_ofInt {ts : List IntType} {zs : List ℤ} (h : InRange ts zs) :
    List.zipWith (fun t (v : Int64) => t.store v.toInt) ts (zs.map Int64.ofInt) = zs := by
  induction h with
  | nil => rfl
  | cons hz _ ih => rw [List.map_cons, List.zipWith_cons_cons, IntType.store_ofInt hz.1 hz.2, ih]

/-- Over a format of integer codes, JSON made from a buffer writes the same bytes back, and a
buffer filled from integers in range of their types reads back as the same array. -/
theorem integer_round_trip (C : UrpcCodes) (W : AuraWire) (ts : List IntType) :
    (∀ bytes extra out outExtra : Bytes, bytes.length = formatSize ts →
        out.length = formatSize ts →
        ∃ json buf, ahttpdBufferToJson C W ⟨bytes, extra, 0⟩ (some (ts.map C.int))
            = some (json, buf)
          ∧ ahttpdBufferFromJson C W ⟨out, outExtra, 0⟩ json (some (ts.map C.int))
            = some (0, ⟨bytes, outExtra, formatSize ts⟩))
      ∧ ∀ (vs : List Int64) (out outExtra : Bytes), InRange ts (vs.map (·.toInt)) →
        out.length = formatSize ts →
        ∃ buf buf', ahttpdBufferFromJson C W ⟨out, outExtra, 0⟩ (.array (vs.map .int))
            (some (ts.map C.int)) = some (0, buf)
          ∧ ahttpdBufferToJson C W buf.rewind (some (ts.map C.int))
            = some (.array (vs.map .int), buf') := by
  constructor
  · intro bytes extra out outExtra hb ho
    have hr : InRange ts (decodeFields W ts bytes) := decodeFields_inRange W ts hb.ge
    have hto := toJsonLoop_ints C W ts ⟨bytes, extra, 0⟩ (by simpa using hb.ge)
    have hfrom := fromJsonLoop_ints C W
      ((decodeFields W ts bytes).map (.int <| Int64.ofInt ·)) [] outExtra ts
      ((decodeFields W ts bytes).map Int64.ofInt) 0 [] out (by simp)
      (by rw [List.length_map]; exact hr.length_eq.symm) ho
    rw [zipWith_store_ofInt hr, encodeFields_decodeFields W ts hb] at hfrom
    refine ⟨_, _, by simp only [ahttpdBufferToJson, hto, Option.map_some]; rfl, ?_⟩
    simpa [ahttpdBufferFromJson, Json.type] using hfrom
  · intro vs out outExtra hr ho
    have hlen : vs.length = ts.length := by simpa using hr.length_eq.symm
    have hfrom := fromJsonLoop_ints C W (vs.map .int) [] outExtra ts vs 0 [] out (by simp) hlen ho
    rw [zipWith_store hr] at hfrom
    have hto := toJsonLoop_ints C W ts
      ⟨encodeFields W ts (vs.map (·.toInt)), outExtra, 0⟩
      (by simpa using (length_encodeFields W ts (by simpa using hlen)).ge)
    have hdec := decodeFields_encodeFields W [] hr
    simp only [List.append_nil, List.drop_zero] at hdec hto
    refine ⟨⟨encodeFields W ts (vs.map (·.toInt)), outExtra, formatSize ts⟩,
      ⟨encodeFields W ts (vs.map (·.toInt)), outExtra, 0 + formatSize ts⟩, ?_, ?_⟩
    · simpa [ahttpdBufferFromJson, Json.type] using hfrom
    · simp only [ahttpdBufferToJson, AuraBuffer.rewind, hto, hdec, Option.map_some, List.map_map]
      simp [Function.comp_def]

section LittleEndian

/-- The `n` low bytes of a number, lowest first. -/
def leBytes : ℕ → ℕ → Bytes
  | 0, _ => []
  | n + 1, v => v.toUInt8 :: leBytes n (v / 256)

def leNat : Bytes → ℕ
  | [] => 0
  | b :: bs => b.toNat + 256 * leNat bs

theorem length_leBytes : ∀ n v, (leBytes n v).length = n
  | 0, _ => rfl
  | n + 1, v => by rw [leBytes, List.length_cons, length_leBytes n]

theorem leNat_lt : ∀ bs : Bytes, leNat bs < 256 ^ bs.length
  | [] => by simp [leNat]
  | b :: bs => by
    have := leNat_lt bs
    have := b.toNat_lt
    rw [leNat, List.length_cons, pow_succ]
    omega

theorem leNat_leBytes : ∀ {n v : ℕ}, v < 256 ^ n → leNat (leBytes n v) = v
  | 0, v, h => by simp [leBytes, leNat] at *; omega
  | n + 1, v, h => by
    rw [pow_succ] at h
    rw [leBytes, leNat, leNat_leBytes (by omega), Nat.toUInt8, UInt8.toNat_ofNat']
    omega

theorem leBytes_leNat : ∀ bs : Bytes, leBytes bs.length (leNat bs) = bs
  | [] => rfl
  | b :: bs => by
    have hb : (b.toNat + 256 * leNat bs).toUInt8 = b := by
      apply UInt8.toNat.inj
      have := b.toNat_lt
      rw [Nat.toUInt8, UInt8.toNat_ofNat']
      omega
    have hbs : (b.toNat + 256 * leNat bs) / 256 = leNat bs := by
      have := b.toNat_lt
      omega
    rw [List.length_cons, leNat, leBytes, hb, hbs, leBytes_leNat bs]

theorem IntType.store_range (t : IntType) (z : ℤ) : t.lo ≤ t.store z ∧ t.store z < t.hi := by
  cases t <;> simp only [lo, hi, store, signed, size, wrapS, wrapU, Int.bmod] <;> grind

/-- A field as a little-endian machine stores it. -/
def AuraWire.littleEndian : AuraWire where
  put t z := leBytes t.size (z % 2 ^ (8 * t.size)).toNat
  get t bs := t.store (leNat bs)
  length_put t z := length_leBytes _ _
  get_range t bs _ := t.store_range _
  get_put t z hlo hhi := by
    have h256 : (256 : ℕ) ^ t.size = 2 ^ (8 * t.size) := pow_mul 2 8 t.size |>.symm
    rw [leNat_leBytes (by rw [h256]; cases t <;> simp only [IntType.size] <;> omega)]
    have := IntType.store_of_range hlo hhi
    cases t <;>
      simp only [IntType.lo, IntType.hi, IntType.store, IntType.signed, IntType.size, wrapS, wrapU,
        Int.bmod] at * <;> grind
  put_get t bs h := by
    have hlt := leNat_lt bs
    have hbs := leBytes_leNat bs
    rw [h] at hlt hbs
    have : (t.store (leNat bs) % 2 ^ (8 * t.size)).toNat = leNat bs := by
      cases t <;>
        simp only [IntType.store, IntType.signed, IntType.size, wrapS, wrapU, Int.bmod] at * <;>
        grind
    rw [this, hbs]

/-- Format letters as a node writes them. -/
def UrpcCodes.digits : UrpcCodes where
  int
    | .u8 => 49 | .u16 => 50 | .u32 => 51 | .u64 => 52
    | .s8 => 55 | .s16 => 54 | .s32 => 57 | .s64 => 56
  bin := 115
  buf := 98
  nodup := by decide

/-- The greatest `uint64_t`, whose JSON integer is `-1`, comes back as the same eight bytes. -/
theorem integer_round_trip_max : ∃ json buf,
    ahttpdBufferToJson .digits .littleEndian ⟨List.replicate 8 255, [], 0⟩ (some (lit "4"))
        = some (json, buf)
      ∧ ahttpdBufferFromJson .digits .littleEndian ⟨List.replicate 8 0, [], 0⟩ json
          (some (lit "4"))
        = some (0, ⟨List.replicate 8 255, [], 8⟩) :=
  (integer_round_trip .digits .littleEndian [.u64]).1 (List.replicate 8 255) []
    (List.replicate 8 0) [] (by decide) (by decide)

end LittleEndian

end AuraHttpd
