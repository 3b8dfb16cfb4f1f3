import AuraHttpd.Serdes

/-!
# Formats as lists of fields

What a well-formed format without `URPC_BUF` declares: fields that lie one behind another, an
integer or a block of bytes each.  `Stored` and `Matches` say what a field is to hold after an
argument was marshalled into it, and which arguments it takes.
-/

namespace AuraHttpd

open CString

/-- A token of a format; `BIN` is written `s<n>.` with a positive `int`. -/
inductive Field where
  | int (t : IntType)
  | bin (n : ℕ) (hn : 0 < n ∧ n < 2 ^ 31)
  deriving DecidableEq, Repr

namespace Field

def text (C : UrpcCodes) : Field → Bytes
  | int t => [C.int t]
  | bin n _ => C.bin :: decimal n ++ [46]

/-- The bytes a field takes. -/
def size : Field → ℕ
  | int t => t.size
  | bin n _ => n

/-- The arguments a field takes: an integer in the range of its type, or a string. -/
def Matches : Field → Json → Prop
  | int t, .int v => t.lo ≤ v.toInt ∧ v.toInt < t.hi
  | bin _ _, .string _ => True
  | _, _ => False

/-- The argument was stored in a field that held `old` and now holds `new`: an integer as its
bytes, a string as its own bytes, as many as there is room for. -/
def Stored (W : AuraWire) : Field → Json → Bytes → Bytes → Prop
  | int t, .int v, _, new => new = W.put t (t.store v.toInt)
  | bin n _, .string s, old, new => new = s.take n ++ old.drop s.length
  | _, _, _, _ => False

end Field

/-- The text of a format. -/
def formatText (C : UrpcCodes) (fs : List Field) : Bytes := fs.flatMap (Field.text C)

/-- The bytes the fields take together. -/
def fieldsSize (fs : List Field) : ℕ := (fs.map Field.size).sum

/-- The bytes at the place the format declares for its `k`-th field, `f`. -/
def fieldAt (fs : List Field) (k : ℕ) (f : Field) (data : Bytes) : Bytes :=
  (data.drop (fieldsSize (fs.take k))).take f.size

/-- An array with exactly one element per field, each one the field takes. -/
def Accepted (fs : List Field) (json : Json) : Prop :=
  ∃ items, json = .array items ∧ List.Forall₂ Field.Matches fs items

/-- Every integer field has an integer among the arguments. -/
def IntsGiven (fs : List Field) (items : List Json) : Prop :=
  ∀ (k : ℕ) t, fs[k]? = some (Field.int t) → ∃ v, items[k]? = some (Json.int v)

/-- No argument but those of the fields, each integer in the range of its type and every argument
of a `BIN` field a string. -/
def NothingLost (fs : List Field) (items : List Json) : Prop :=
  items.length = fs.length
    ∧ (∀ (k : ℕ) t v, fs[k]? = some (Field.int t) → items[k]? = some (Json.int v) →
        t.lo ≤ v.toInt ∧ v.toInt < t.hi)
    ∧ ∀ (k : ℕ) n hn, fs[k]? = some (Field.bin n hn) → ∃ s, items[k]? = some (Json.string s)

/-- Each argument of a `BIN` field is a string that fills the field and begins with the same bytes
as its own quoted text. -/
def QuotedAlike (fs : List Field) (items : List Json) : Prop :=
  ∀ (k : ℕ) n hn, fs[k]? = some (Field.bin n hn) → ∃ s, items[k]? = some (Json.string s)
    ∧ n ≤ s.length ∧ (Json.stringText s).take n = s.take n

/-- No `BIN` field lies before an integer field. -/
def IntsFirst (fs : List Field) : Prop :=
  ∀ (k : ℕ) t, fs[k]? = some (Field.int t) → ∀ n hn, Field.bin n hn ∉ fs.take k

end AuraHttpd
