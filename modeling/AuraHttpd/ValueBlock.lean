import AuraHttpd.Lib.Block
import AuraHttpd.Upload

/-!
# `extract_key_value` in its block

What `extract_key_value` and `decode_html_entities_utf8` do to the block the value is copied into,
access by access: the copy loop, the terminator, the decoding in place and `sanitize_string`.  The
block has as many bytes as the header, and any access outside of it is the fault `outOfBounds`.
-/

namespace AuraHttpd

open CString

/-- The string that begins at a place of the block. -/
def strAt (b : Bytes) (i : ℕ) : Except Fault Bytes := Block.read .outOfBounds 0 b i

/-- `decode_html_entities_utf8` at work: where in the block `to` and `from` lead, and where they
have led. -/
structure Decoder where
  dest : Bytes
  toPos : ℕ := 0
  fromPos : ℕ := 0
  positions : List (ℕ × ℕ) := []

namespace Decoder

/-- The two pointers are moved on. -/
def advance (d : Decoder) (dest : Bytes) (written consumed : ℕ) : Decoder where
  dest := dest
  toPos := d.toPos + written
  fromPos := d.fromPos + consumed
  positions := d.positions ++ [(d.toPos + written, d.fromPos + consumed)]

/-- The `memmove` of what stands before an ampersand or the end. -/
def memmove (d : Decoder) (n : ℕ) : Except Fault Decoder := do
  let dest ← Block.move .outOfBounds d.dest d.toPos d.fromPos n
  .ok (d.advance dest n n)

/-- `parse_entity`, which reads the entity before it writes. -/
def parseEntity (d : Decoder) : Except Fault (Option Decoder) := do
  let current ← strAt d.dest d.fromPos
  match AuraHttpd.parseEntity current with
  | none => .ok none
  | some (entity, rest) => do
    let dest ← Block.store .outOfBounds d.dest d.toPos entity
    .ok (some (d.advance dest entity.length (current.length - rest.length)))

/-- `*to++ = *from++`. -/
def copyByte (d : Decoder) : Except Fault Decoder := do
  let c ← Block.get .outOfBounds d.dest d.fromPos
  let dest ← Block.put .outOfBounds d.dest d.toPos c
  .ok (d.advance dest 1 1)

/-- The loop of `decode_html_entities_utf8`. -/
def loop : ℕ → Decoder → Except Fault Decoder
  | 0, _ => .error .noFuel
  | fuel + 1, d => do
    let text ← strAt d.dest d.fromPos
    match strchr text 38 with
    | none => .ok d
    | some current => do
      let d ← d.memmove (text.length - current.length)
      match ← d.parseEntity with
      | some d => loop fuel d
      | none => do
        let d ← d.copyByte
        loop fuel d

end Decoder

/-- `decode_html_entities_utf8` in place. -/
def decodeInPlace (dest : Bytes) : Except Fault Decoder := do
  let d ← Decoder.loop (dest.length + 1) { dest := dest }
  let remaining ← strAt d.dest d.fromPos
  let d ← d.memmove remaining.length
  let dest ← Block.put .outOfBounds d.dest d.toPos 0
  .ok { d with dest := dest }

/-- The loop of `sanitize_string`. -/
def sanitizeLoop : ℕ → ℕ → Bytes → Except Fault Bytes
  | 0, _, _ => .error .noFuel
  | fuel + 1, i, ret => do
    let s ← strAt ret 0
    if i < s.length then do
      let c ← Block.get .outOfBounds ret i
      let ret ← if c = 47 then Block.put .outOfBounds ret i 95 else .ok ret
      sanitizeLoop fuel (i + 1) ret
    else .ok ret

/-- `sanitize_string` in place. -/
def sanitizeInPlace (ret : Bytes) : Except Fault Bytes := sanitizeLoop (ret.length + 1) 0 ret

/-- The copy loop of `extract_key_value`, on what `pos` leads to. -/
def copyLoop : Bytes → ℕ → Bytes → Except Fault (ℕ × Bytes)
  | [], i, ret => .ok (i, ret)
  | c :: pos, i, ret =>
    if c = 34 then .ok (i, ret)
    else do
      let ret ← Block.put .outOfBounds ret i c
      copyLoop pos (i + 1) ret

/-- `extract_key_value`, `malloc` giving the block `ret`: the block it returns, and the positions of
the decoder. -/
def extractInBlock (key cdsString ret : Bytes) : Except Fault (Option (Bytes × List (ℕ × ℕ))) :=
  if cdsString = [] then .ok none
  else
    let tmp := key ++ lit "=\""
    match strstr cdsString tmp with
    | none => .ok none
    | some pos => do
      let (i, ret) ← copyLoop (pos.drop tmp.length) 0 ret
      let ret ← Block.put .outOfBounds ret i 0
      let d ← decodeInPlace ret
      let ret ← sanitizeInPlace d.dest
      .ok (some (ret, d.positions))

end AuraHttpd
