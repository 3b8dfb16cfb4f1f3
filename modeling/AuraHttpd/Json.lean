import AuraHttpd.Lib.CString

/-!
# JSON values

The values of json-c.  An integer object holds an `int64_t`; a double is only ever carried
around, so it is kept as its text.  Adding a key an object already has replaces its value.
-/

namespace AuraHttpd

open CString

inductive Json where
  | null
  | bool (b : Bool)
  | int (v : Int64)
  | double (text : Bytes)
  | string (s : Bytes)
  | array (items : List Json)
  | object (fields : List (Bytes × Json))

/-- `enum json_type`. -/
inductive JsonType where
  | null | boolean | int | double | string | array | object
  deriving DecidableEq, Repr

namespace Json

/-- `json_object_get_type`; a null pointer is of type null. -/
def type : Json → JsonType
  | null => .null
  | bool _ => .boolean
  | int _ => .int
  | double _ => .double
  | string _ => .string
  | array _ => .array
  | object _ => .object

/-- `json_object_array_get_idx`, null past the end. -/
def arrayGetIdx : Json → ℕ → Json
  | array items, i => items.getD i .null
  | _, _ => .null

/-- `json_object_array_add`. -/
def arrayAdd : Json → Json → Json
  | array items, j => array (items ++ [j])
  | o, _ => o

/-- `json_object_object_add`. -/
def objectAdd : Json → Bytes → Json → Json
  | object fields, k, j =>
    if fields.any (·.1 = k) then object (fields.map fun f => if f.1 = k then (k, j) else f)
    else object (fields ++ [(k, j)])
  | o, _, _ => o

/-- `json_object_object_get`, null for a key that is not there. -/
def get : Json → Bytes → Json
  | object fields, k => ((fields.find? (·.1 = k)).map (·.2)).getD .null
  | _, _ => .null

/-- `json_object_get_int64` of an integer object. -/
def getInt64 : Json → Int64
  | int v => v
  | _ => 0

/-- The hexadecimal digit of a number below sixteen. -/
def hexDigit (n : ℕ) : UInt8 := if n < 10 then (48 + n).toUInt8 else (87 + n).toUInt8

/-- How json-c writes one byte of a string. -/
def escapeByte (c : UInt8) : Bytes :=
  if c = 8 then lit "\\b" else if c = 10 then lit "\\n" else if c = 13 then lit "\\r"
  else if c = 9 then lit "\\t" else if c = 12 then lit "\\f" else if c = 34 then lit "\\\""
  else if c = 92 then lit "\\\\" else if c = 47 then lit "\\/"
  else if c < 32 then lit "\\u00" ++ [hexDigit (c.toNat / 16), hexDigit (c.toNat % 16)]
  else [c]

/-- `json_object_to_json_string` of a string object: the text between quotes, escaped. -/
def stringText (s : Bytes) : Bytes := lit "\"" ++ s.flatMap escapeByte ++ lit "\""

end Json

end AuraHttpd
