import AuraHttpd.Lib.CString

/-!
# What libaura provides

`AuraBuffer` is an `aura_buffer`: its payload, the bytes a read of `size` bytes from the start of
the payload meets behind it, and the position.  `AuraWire` is how integers lie in a payload:
fixed-width reads and writes that undo each other.  `UrpcCodes` are the letters of a format
string; a `switch` has a case for each of them and one for zero, so they are distinct.
-/

namespace AuraHttpd

open CString

/-- The eight integer types of a format, with the union member each is moved through. -/
inductive IntType where
  | u8 | u16 | u32 | u64 | s8 | s16 | s32 | s64
  deriving DecidableEq, Repr

namespace IntType

def all : List IntType := [u8, s8, u16, s16, u32, s32, u64, s64]

def size : IntType → ℕ
  | u8 | s8 => 1
  | u16 | s16 => 2
  | u32 | s32 => 4
  | u64 | s64 => 8

/-- The name of the type in C. -/
def cname : IntType → Bytes
  | u8 => lit "uint8_t" | u16 => lit "uint16_t" | u32 => lit "uint32_t" | u64 => lit "uint64_t"
  | s8 => lit "int8_t" | s16 => lit "int16_t" | s32 => lit "int32_t" | s64 => lit "int64_t"

def signed : IntType → Bool
  | u8 | u16 | u32 | u64 => false
  | s8 | s16 | s32 | s64 => true

/-- The least value of the type. -/
def lo (t : IntType) : ℤ := if t.signed then -2 ^ (8 * t.size - 1) else 0

/-- One more than the greatest value of the type. -/
def hi (t : IntType) : ℤ := if t.signed then 2 ^ (8 * t.size - 1) else 2 ^ (8 * t.size)

/-- What assigning an `int64_t` to a member of the type stores. -/
def store (t : IntType) (z : ℤ) : ℤ :=
  if t.signed then wrapS (8 * t.size) z else wrapU (8 * t.size) z

end IntType

/-- `aura_buffer_put_X` and `aura_buffer_get_X` on the bytes of one field. -/
structure AuraWire where
  put : IntType → ℤ → Bytes
  get : IntType → Bytes → ℤ
  length_put : ∀ t z, (put t z).length = t.size
  get_range : ∀ t bs, bs.length = t.size → t.lo ≤ get t bs ∧ get t bs < t.hi
  get_put : ∀ t z, t.lo ≤ z → z < t.hi → get t (put t z) = z
  put_get : ∀ t bs, bs.length = t.size → put t (get t bs) = bs

structure AuraBuffer where
  data : Bytes
  extra : Bytes := []
  pos : ℕ := 0
  deriving DecidableEq, Repr

namespace AuraBuffer

/-- The `size` member: the payload and the transport's overhead. -/
def size (b : AuraBuffer) : ℕ := b.data.length + b.extra.length

/-- `aura_buffer_payload_length`. -/
def payloadLength (b : AuraBuffer) : ℕ := b.data.length

/-- `aura_buffer_rewind`. -/
def rewind (b : AuraBuffer) : AuraBuffer := { b with pos := 0 }

/-- What is met from the position on. -/
def atPos (b : AuraBuffer) : Bytes := (b.data ++ b.extra).drop b.pos

/-- `aura_buffer_put_X` and `aura_buffer_put_bin`: the bytes overwrite the payload from the
position on. Past its end libaura aborts. -/
def putBytes (b : AuraBuffer) (bs : Bytes) : Option AuraBuffer :=
  if b.pos + bs.length ≤ b.data.length then
    some { b with
      data := b.data.take b.pos ++ bs ++ b.data.drop (b.pos + bs.length)
      pos := b.pos + bs.length }
  else none

/-- `aura_buffer_get_X`: the next field. Past the end libaura aborts. -/
def getBytes (b : AuraBuffer) (n : ℕ) : Option (Bytes × AuraBuffer) :=
  if b.pos + n ≤ b.data.length then
    some ((b.data.drop b.pos).take n, { b with pos := b.pos + n })
  else none

end AuraBuffer

/-- The letters of a format string, `URPC_U8` and so on. -/
structure UrpcCodes where
  int : IntType → UInt8
  bin : UInt8
  buf : UInt8
  nodup : (IntType.all.map int ++ [bin, buf, 0]).Nodup

/-- What a letter of a format stands for. -/
inductive Urpc where
  | int (t : IntType)
  | bin
  | buf
  deriving DecidableEq, Repr

/-- The case of the `switch` a letter goes to, if it has one. -/
def UrpcCodes.case (C : UrpcCodes) (c : UInt8) : Option Urpc :=
  match IntType.all.find? (C.int · = c) with
  | some t => some (.int t)
  | none => if c = C.bin then some .bin else if c = C.buf then some .buf else none

/-- A method or an event of a node, as its export table describes it. -/
structure AuraObject where
  id : ℤ
  name : Bytes
  argFmt : Option Bytes
  retFmt : Option Bytes
  arglen : ℕ
  deriving DecidableEq, Repr

/-- What aura hands a node's `etable_changed` callback; the names of a table are distinct. -/
structure ExportTable where
  objects : List AuraObject
  nodup : (objects.map AuraObject.name).Nodup

namespace ExportTable

def names (t : ExportTable) : List Bytes := t.objects.map AuraObject.name

/-- `aura_etable_find`. -/
def find (t : ExportTable) (name : Bytes) : Option AuraObject :=
  t.objects.find? (·.name = name)

end ExportTable

end AuraHttpd
