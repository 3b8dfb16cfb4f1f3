import AuraHttpd.Json
import AuraHttpd.Aura

/-!
# Marshalling between JSON and aura buffers

`serdes-json.c`.  Both loops walk the format letter by letter and move the buffer's position with
each field.  A result of `none` is an abort through `BUG`, here or in libaura.
-/

namespace AuraHttpd

open CString

variable (C : UrpcCodes) (W : AuraWire)

/-- `while (*fmt && (*fmt++ != '.'));` -/
def skipDot (fmt : Bytes) : Bytes := (fmt.dropWhile (· ≠ 46)).drop 1

theorem length_skipDot_le (fmt : Bytes) : (skipDot fmt).length ≤ fmt.length := by
  have := (List.dropWhile_suffix (p := fun c : UInt8 => decide (c ≠ 46)) (l := fmt)).length_le
  simp only [skipDot, List.length_drop]
  omega

/-- `atoi`. -/
def atoi (s : Bytes) : ℤ :=
  let s₁ := s.dropWhile isSpace
  let s₂ := if s₁.head? = some 45 ∨ s₁.head? = some 43 then s₁.drop 1 else s₁
  let v := (s₂.takeWhile (digitVal · < 10)).foldl (fun a c => a * 10 + digitVal c) 0
  if s₁.head? = some 45 then -v else v

/-- The loop of `ahttpd_format_to_json`. -/
def formatToJsonLoop (fmt : Bytes) : Option (List Json) :=
  match fmt with
  | [] => some []
  | c :: fmt =>
    match C.case c with
    | some (.int t) => (formatToJsonLoop fmt).map (.string t.cname :: ·)
    | some .buf => (formatToJsonLoop fmt).map (.string (lit "buffer") :: ·)
    | some .bin =>
      let len := atoi fmt
      if len = 0 then none
      else (formatToJsonLoop (skipDot fmt)).map
        ((Json.object []).objectAdd (lit "binary") (.int (Int64.ofInt len)) :: ·)
    | none => none
termination_by fmt.length
decreasing_by
  all_goals
    have := length_skipDot_le fmt
    simp only [List.length_cons]
    omega

/-- `ahttpd_format_to_json`. -/
def ahttpdFormatToJson (fmt : Option Bytes) : Option Json :=
  match fmt with
  | none => some (.array [])
  | some fmt => (formatToJsonLoop C fmt).map .array

/-- The loop of `ahttpd_buffer_to_json`. -/
def toJsonLoop (fmt : Bytes) (buf : AuraBuffer) : Option (List Json × AuraBuffer) :=
  match fmt with
  | [] => some ([], buf)
  | c :: fmt =>
    match C.case c with
    | some (.int t) => do
      let (bs, buf) ← buf.getBytes t.size
      let (js, buf) ← toJsonLoop fmt buf
      some (.int (Int64.ofInt (W.get t bs)) :: js, buf)
    | some .buf => do
      let (js, buf) ← toJsonLoop fmt buf
      some (.string (lit "buffer") :: js, buf)
    | some .bin => do
      let (js, buf) ← toJsonLoop (skipDot fmt) buf
      some (.string (lit "buffer") :: js, buf)
    | none => none
termination_by fmt.length
decreasing_by
  all_goals
    have := length_skipDot_le fmt
    simp only [List.length_cons]
    omega

/-- `ahttpd_buffer_to_json`, with the buffer as it leaves it. -/
def ahttpdBufferToJson (buf : AuraBuffer) (fmt : Option Bytes) : Option (Json × AuraBuffer) :=
  match fmt with
  | none => some (.array [], buf)
  | some fmt => (toJsonLoop C W fmt buf).map fun r => (.array r.1, r.2)

/-- The loop of `ahttpd_buffer_from_json` from the `i`-th argument on.  The length of a text fits an
`int`, as json-c prints into buffers that count in one. -/
def fromJsonLoop (json : Json) (fmt : Bytes) (i : ℕ) (buf : AuraBuffer) :
    Option (ℤ × AuraBuffer) :=
  match fmt with
  | [] => some (0, buf)
  | c :: fmt =>
    match C.case c with
    | some (.int t) =>
      let tmp := json.arrayGetIdx i
      if tmp.type = .int then do
        let buf ← buf.putBytes (W.put t (t.store tmp.getInt64.toInt))
        fromJsonLoop json fmt (i + 1) buf
      else some (-1, buf)
    | some .buf => none
    | some .bin =>
      match json.arrayGetIdx i with
      | .string s => do
        let str := Json.stringText s
        let tocopy := min (str.length : ℤ) (atoi fmt)
        let buf ← if 0 ≤ tocopy then buf.putBytes (str.take tocopy.toNat) else none
        fromJsonLoop json (skipDot fmt) (i + 1) buf
      | _ => fromJsonLoop json (skipDot fmt) (i + 1) buf
    | none => fromJsonLoop json fmt i buf
termination_by fmt.length
decreasing_by
  all_goals
    have := length_skipDot_le fmt
    simp only [List.length_cons]
    omega

/-- `ahttpd_buffer_from_json`, with the buffer as it leaves it. -/
def ahttpdBufferFromJson (buf : AuraBuffer) (json : Json) (fmt : Option Bytes) :
    Option (ℤ × AuraBuffer) :=
  if json.type ≠ .array then some (-1, buf)
  else match fmt with
    | none => some (0, buf)
    | some fmt => fromJsonLoop C W json fmt 0 buf

end AuraHttpd
