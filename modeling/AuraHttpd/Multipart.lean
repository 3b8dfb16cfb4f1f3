import AuraHttpd.UploadScan

/-!
# Multipart bodies

The bodies a client sends: parts with their headers and data, each behind a delimiter line, and
the closing delimiter with whatever follows it.  `Decodes` is what is to be made of them.
-/

namespace AuraHttpd

open CString

def crlf : Bytes := lit "\r\n"

structure FormPart where
  headers : List (Bytes × Bytes)
  data : Bytes
  deriving DecidableEq, Repr

/-- A byte that may stand in a header. -/
def HeaderByte (c : UInt8) : Prop := c ≠ 13 ∧ c ≠ 10 ∧ c ≠ 0

instance : DecidablePred HeaderByte := fun c =>
  inferInstanceAs (Decidable (c ≠ 13 ∧ c ≠ 10 ∧ c ≠ 0))

/-- A part that can be sent behind the boundary `B`. -/
structure FormPart.Valid (B : Bytes) (p : FormPart) : Prop where
  key : ∀ h ∈ p.headers, h.1 ≠ [] ∧ ∀ c ∈ h.1, HeaderByte c ∧ c ≠ 58
  value : ∀ h ∈ p.headers, h.2 ≠ [] ∧ ∀ c ∈ h.2, HeaderByte c
  data : ¬ lit "--" ++ B <:+: p.data

/-- A header that is read as it was sent.  A key may have a CR in it, and a value may be empty. -/
structure ReadableHeader (h : Bytes × Bytes) : Prop where
  key_ne : h.1 ≠ []
  key : ∀ c ∈ h.1, c ≠ 10 ∧ c ≠ 0 ∧ c ≠ 58
  value : ∀ c ∈ h.2, HeaderByte c

/-- A part that is read as it was sent. -/
structure FormPart.Readable (B : Bytes) (p : FormPart) : Prop where
  header : ∀ h ∈ p.headers, ReadableHeader h
  data : ¬ lit "--" ++ B <:+: p.data

def encodeHeader (h : Bytes × Bytes) : Bytes := h.1 ++ lit ": " ++ h.2 ++ crlf

def FormPart.encode (B : Bytes) (p : FormPart) : Bytes :=
  lit "--" ++ B ++ crlf ++ p.headers.flatMap encodeHeader ++ crlf ++ p.data ++ crlf

/-- The body of the parts, with `tail` behind the closing delimiter. -/
def encodeBody (B : Bytes) (parts : List FormPart) (tail : Bytes) : Bytes :=
  parts.flatMap (FormPart.encode B) ++ (lit "--" ++ B ++ lit "--" ++ tail)

/-- The call for a header, which leaves the spaces before the value out. -/
def headerCall (h : Bytes × Bytes) : Call := .formHeader h.1 (h.2.dropWhile (· = 32))

/-- The calls are those for the parts: for each its headers in order and then, once, its data, as
the first bytes of the extents given. -/
inductive Decodes : List FormPart → List Call → Prop where
  | nil : Decodes [] []
  | cons {p : FormPart} {ps : List FormPart} {vec : List Bytes} {cs : List Call}
      (hdata : vec.flatten.take p.data.length = p.data) (hps : Decodes ps cs) :
    Decodes (p :: ps) (p.headers.map headerCall ++ .data vec p.data.length :: cs)

end AuraHttpd
