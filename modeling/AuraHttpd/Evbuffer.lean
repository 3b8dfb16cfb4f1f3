import AuraHttpd.Lib.CString

/-!
# What libevent's buffers provide

The operations of an `evbuffer` the upload parser uses, over any representation `E` of a buffer
and `I` of the internals of an `evbuffer_ptr`.  `FlatEvbuffer` is their documented behaviour on the
bytes of the buffer, a pointer being an offset in them; into which extents the bytes are split is
left open.
-/

namespace AuraHttpd

open CString

structure EvbufferPtr (I : Type) where
  pos : ℕ
  internal : I

class Evbuffer (E : Type) (I : outParam Type) where
  /-- `evbuffer_get_length`. -/
  length : E → ℕ
  /-- `evbuffer_search` from the start of the buffer. -/
  search : E → Bytes → Option (EvbufferPtr I)
  /-- `evbuffer_drain`. -/
  drain : E → ℕ → E
  /-- `evbuffer_readln` with `EVBUFFER_EOL_CRLF`. -/
  readln : E → Option (Bytes × E)
  /-- `evbuffer_peek`, given the length, a start pointer and the room for extents: how many
  extents are needed, and those that are stored.  Nothing where the pointer leads nowhere. -/
  peek : E → ℤ → EvbufferPtr I → ℕ → Option (ℕ × List Bytes)
  /-- `evbuffer_pullup`, null if there are not as many bytes. -/
  pullup : E → ℕ → Option (Bytes × E)

/-- The first line of a text, ended by LF or CRLF, and the rest. -/
def readlnCrlf (b : Bytes) : Option (Bytes × Bytes) :=
  if 10 ∈ b then
    let line := b.takeWhile (· ≠ 10)
    some (if line.getLast? = some 13 then line.dropLast else line, (b.dropWhile (· ≠ 10)).drop 1)
  else none

/-- The documented behaviour on the bytes of a buffer. -/
class FlatEvbuffer (E : Type) (I : outParam Type) [Evbuffer E I] where
  bytes : E → Bytes
  length_eq (e : E) : Evbuffer.length e = (bytes e).length
  search_eq (e : E) (pat : Bytes) :
    (Evbuffer.search e pat).map EvbufferPtr.pos = ListSearch.search pat (bytes e)
  bytes_drain (e : E) (n : ℕ) : bytes (Evbuffer.drain e n) = (bytes e).drop n
  readln_eq (e : E) :
    (Evbuffer.readln e).map (fun r => (r.1, bytes r.2)) = readlnCrlf (bytes e)
  /-- With a start pointer at least one extent is returned. -/
  peek_eq (e : E) (len : ℤ) (p : EvbufferPtr I) : p.pos < (bytes e).length → 0 ≤ len →
    ∃ exts : List Bytes, exts ≠ [] ∧ exts.flatten <+: (bytes e).drop (p.pos)
      ∧ min len.toNat ((bytes e).length - p.pos) ≤ exts.flatten.length
      ∧ ∀ n, Evbuffer.peek e len p n = some (exts.length, exts.take n)
  /-- A negative length asks for as many extents as there is room for. -/
  peek_neg (e : E) (len : ℤ) (p : EvbufferPtr I) (n : ℕ) : p.pos < (bytes e).length → len < 0 →
    0 < n → ∃ exts : List Bytes, exts ≠ [] ∧ exts.length ≤ n
      ∧ exts.flatten <+: (bytes e).drop (p.pos)
      ∧ Evbuffer.peek e len p n = some (exts.length, exts)
  pullup_eq (e : E) (n : ℕ) : (Evbuffer.pullup e n).map (fun r => (r.1, bytes r.2))
    = if n ≤ (bytes e).length then some ((bytes e).take n, bytes e) else none

/-- A buffer that lies in one piece. -/
instance : Evbuffer Bytes Unit where
  length := List.length
  search e pat := (ListSearch.search pat e).map fun n => ⟨n, ()⟩
  drain e n := e.drop n
  readln := readlnCrlf
  peek e _ p n := some (1, [e.drop p.pos].take n)
  pullup e n := if n ≤ e.length then some (e.take n, e) else none

instance : FlatEvbuffer Bytes Unit where
  bytes := id
  length_eq _ := rfl
  search_eq e pat := by simp [Evbuffer.search, Option.map_map, Function.comp_def]
  bytes_drain _ _ := rfl
  readln_eq e := by simp [Evbuffer.readln]
  peek_eq e len p _ _ := by
    refine ⟨[e.drop p.pos], by simp, by simp, ?_, fun n => rfl⟩
    simp
  peek_neg e len p n _ _ hn := by
    refine ⟨[e.drop p.pos], by simp, by simpa using Nat.succ_le_of_lt hn, by simp, ?_⟩
    obtain ⟨n, rfl⟩ := Nat.exists_eq_succ_of_ne_zero hn.ne'
    simp [Evbuffer.peek]
  pullup_eq e n := by
    simp only [Evbuffer.pullup, id]
    split_ifs <;> simp

end AuraHttpd
