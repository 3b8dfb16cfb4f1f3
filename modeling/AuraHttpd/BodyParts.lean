import AuraHttpd.BodyScan
import Mathlib.Data.List.DropRight

/-!
# The parts of a body

What the bytes of a body say by themselves: where the headers of a part end, which bytes are its
data, and what is left of the body when the parser comes to a part.  `ValidExtent` is what a data
callback relies on, `PartSpan.Sound` is when it gets that.
-/

namespace AuraHttpd

open CString Script

section Input

variable {E I : Type} [Evbuffer E I] [FlatEvbuffer E I]

/-- The bytes of an input buffer. -/
def Input.bytes (inp : Input E) : Bytes := FlatEvbuffer.bytes inp.evb

/-- The inputs the loop of `upload` takes one part after another from. -/
inductive ComesTo (boundary : Bytes) : Input E → Input E → Prop where
  | here (inp : Input E) : ComesTo boundary inp inp
  | next {inp inp₁ inp' : Input E} (h : (scanNextFile boundary inp).outcome = .ok (1, inp₁))
      (hrest : ComesTo boundary inp₁ inp') : ComesTo boundary inp inp'

end Input

/-- The line is a key and a value, and a colon between them; colons before the key are skipped. -/
def KeyValue (ln : Bytes) : Prop :=
  ∃ colons key value, ln = colons ++ (key ++ 58 :: value) ∧ (∀ c ∈ colons, c = 58) ∧ key ≠ []
    ∧ 58 ∉ key ∧ value ≠ []

/-- The lines of `b` are headers up to a blank one, behind which `rest` stands. -/
inductive Headers : Bytes → Bytes → Prop where
  | blank {b ln rest : Bytes} (h : readlnCrlf b = some (ln, rest)) (hln : cstr ln = []) :
    Headers b rest
  | line {b ln b' rest : Bytes} (h : readlnCrlf b = some (ln, b')) (hln : cstr ln ≠ [])
      (hrest : Headers b' rest) : Headers b rest

/-- `data` stands between the blank line behind the headers of the first part of `b` and the CRLF
before the next delimiter. -/
def PartData (boundary b data : Bytes) : Prop :=
  ∃ start rest more, ListSearch.search (delimiter boundary) b = some start
    ∧ Headers (b.drop ((delimiter boundary).length + start + 2)) rest
    ∧ rest = data ++ (lit "\r\n" ++ (delimiter boundary ++ more))
    ∧ ListSearch.search (delimiter boundary) rest = some (data.length + 2)

/-- The length a data callback is given is covered by its extents, and they begin with the data of
the part. -/
def ValidExtent (boundary b : Bytes) (vec : List Bytes) (length : ℤ) : Prop :=
  Covered vec length ∧ PartData boundary b (vec.flatten.take length.toNat)

/-- The part's data ends where it should, its length is one of an `int`, and it is also read as
far behind its beginning as the part's delimiter stood behind that of the buffer. -/
def PartSpan.Sound (span : PartSpan) (boundary b : Bytes) : Prop :=
  ∃ data, PartData boundary b data ∧ data.length < 2 ^ 31
    ∧ data <+: b.drop (span.data + span.start)

/-- What is left of a body when the parser comes to one of its parts. -/
inductive Reaches (boundary : Bytes) : Bytes → Bytes → Prop where
  | here (b : Bytes) : Reaches boundary b b
  | next {b b' : Bytes} {span : PartSpan} (h : (nextPart boundary b).outcome = .ok (some span))
      (hgo : GoesOn boundary (b.drop span.length))
      (hrest : Reaches boundary (b.drop span.length) b') : Reaches boundary b b'

/-- What stands behind the last line break. -/
def lastLine (b : Bytes) : Bytes := b.rtakeWhile (· ≠ 10)

/-- In a line without an end every delimiter has two more bytes behind it that do not close the
body; delimiters are looked for from the left, behind the two bytes of the one before. -/
inductive Settled (boundary : Bytes) : Bytes → Prop where
  | done {l : Bytes} (h : ListSearch.search (delimiter boundary) l = none) : Settled boundary l
  | next {l : Bytes} {k : ℕ} (h : ListSearch.search (delimiter boundary) l = some k)
      (hgo : GoesOn boundary (l.drop k))
      (hrest : Settled boundary ((l.drop k).drop ((delimiter boundary).length + 2))) :
      Settled boundary l

/-- A module whose callbacks return. -/
def UploadfsModule.Returns {σ : Type} (m : UploadfsModule σ) : Prop :=
  ∀ fsd c, ∃ fsd', m.call fsd c = .ok fsd'

/-- The loop of `upload` over a body ends with an error and nothing worse. -/
def FailsCleanly {E I : Type} [Evbuffer E I] (boundary : Bytes) (body : E) : Prop :=
  ∀ (σ : Type) (m : UploadfsModule σ), m.Returns → ∀ fsd : Upfs σ, fsd.uploadError = false →
    ∀ inp : Input E, inp.evb = body → 0 < inp.numIovec → ∃ ret fsd' inp',
      uploadLoop m boundary (Evbuffer.length body + 1) fsd inp = .ok (ret, fsd', inp') ∧ ret < 0

end AuraHttpd
