import AuraHttpd.UploadScan
import AuraHttpd.ChainBuffer

/-!
# The parser on the pieces of a body

The parser finds a part's delimiter, drains it with the headers behind it, and only then looks
through the pointer to the delimiter for the part's data.  All else it does depends on the body's
bytes alone, so `bodyScan` runs over the pieces a body arrived in and asks them only where that
pointer leads (`Chain.lead`).  `SameData` compares the answers for two splittings.
-/

namespace AuraHttpd

open CString Script

/-- A call as far as its module looks at it: of the extents, the bytes the length covers. -/
def Call.seen : Call → Call
  | .formHeader key value => .formHeader key value
  | .data vec length => .data [vec.flatten.take length.toNat] length

/-- How many bytes `evbuffer_readln` reads. -/
def lineLength (b : Bytes) : ℕ := b.length - ((readlnCrlf b).map (·.2.length)).getD b.length

/-- The loop over a part's header lines: how many bytes it reads. -/
def headerScan : ℕ → Bytes → ParserScript ℕ
  | 0, _ => fault .noFuel
  | fuel + 1, b => do
    let ret ← scanHeaderLine ((readlnCrlf b).map Prod.fst)
    if ret ≠ 0 then pure (lineLength b)
    else do
      let n ← headerScan fuel (b.drop (lineLength b))
      pure (lineLength b + n)

def delimiter (boundary : Bytes) : Bytes := lit "--" ++ boundary

def closing (boundary : Bytes) : Bytes := delimiter boundary ++ lit "--"

/-- Where the parser gets to a part's data in what is left of a body: the positions of the
delimiter, of what follows the headers, and, from there, of the next delimiter. -/
structure PartSpan where
  start : ℕ
  data : ℕ
  next : ℕ
  deriving DecidableEq, Repr

/-- The part that is taken from what is left of a body, unless the parser stops before its data. -/
def nextPart (boundary b : Bytes) : ParserScript (Option PartSpan) :=
  match ListSearch.search (delimiter boundary) b with
  | none => pure none
  | some start => do
    let headers := (delimiter boundary).length + start + 2
    let n ← headerScan ((b.drop headers).length + 1) (b.drop headers)
    match ListSearch.search (delimiter boundary) (b.drop (headers + n)) with
    | none => pure none
    | some next => pure (if next < start then none else some ⟨start, headers + n, next⟩)

namespace PartSpan

/-- How many bytes the parser drains for the part. -/
def length (span : PartSpan) : ℕ := span.data + span.next

/-- The bytes given as the part's data where they are read from `lead` bytes behind the beginning
of the data. -/
def bytesAt (span : PartSpan) (b : Bytes) (lead : ℕ) : Bytes :=
  (b.drop (span.data + lead)).take (wrapS 32 (span.next - 2)).toNat

/-- The data call for the part. -/
def call (span : PartSpan) (b : Bytes) (lead : ℕ) : Call :=
  .data [span.bytesAt b lead] (wrapS 32 (span.next - 2))

end PartSpan

/-- The look at what stands behind a part: whether another part is looked for. -/
def delimiterScan (boundary rest : Bytes) : ParserScript ℤ :=
  if (closing boundary).length ≤ rest.length then
    pure (if rest.take (closing boundary).length = closing boundary then 0 else 1)
  else fault .nullPointer

/-- `multipart_handle_next_file` on a body in pieces: its result and how many bytes it drains. -/
def partScan (boundary : Bytes) (pieces : List Bytes) : ParserScript (ℤ × ℕ) := do
  match ← nextPart boundary pieces.flatten with
  | none => pure (-74, 0)
  | some span =>
    match Chain.lead pieces span.start span.data with
    | none => fault .freedChain
    | some lead => do
      emit (span.call pieces.flatten lead)
      let ret ← delimiterScan boundary (pieces.flatten.drop span.length)
      pure (ret, span.length)

/-- The loop of `upload` on a body in pieces. -/
def bodyScan (boundary : Bytes) : ℕ → List Bytes → ParserScript ℤ
  | 0, _ => fault .noFuel
  | fuel + 1, pieces => do
    let (ret, n) ← partScan boundary pieces
    if ret = 1 then bodyScan boundary fuel (Chain.left pieces n) else pure ret

/-- Another part is looked for where `rest` is left. -/
def GoesOn (boundary rest : Bytes) : Prop :=
  (closing boundary).length ≤ rest.length ∧ rest.take (closing boundary).length ≠ closing boundary

instance (boundary rest : Bytes) : Decidable (GoesOn boundary rest) :=
  inferInstanceAs (Decidable (_ ∧ _))

/-- For every part whose data the parser gets to, the pointer to its delimiter leads in both
splittings of the body into a chain that is still there, and to bytes that are alike. -/
def SameData (boundary : Bytes) : ℕ → List Bytes → List Bytes → Prop
  | 0, _, _ => True
  | fuel + 1, p, q =>
    match (nextPart boundary p.flatten).outcome with
    | .ok (some span) =>
      (∃ i j, Chain.lead p span.start span.data = some i
          ∧ Chain.lead q span.start span.data = some j
          ∧ span.bytesAt p.flatten i = span.bytesAt p.flatten j)
        ∧ (GoesOn boundary (p.flatten.drop span.length) →
          SameData boundary fuel (Chain.left p span.length) (Chain.left q span.length))
    | _ => True

/-- That of an upload request. -/
def UploadRequest.SameData (request : UploadRequest Bytes) (p q : List Bytes) : Prop :=
  request.command = .post → ∀ boundary, requestCheckHeaders request.contentType = some boundary →
    AuraHttpd.SameData boundary (request.body.length + 1) p q

/-- Two scans that make the same calls with the same bytes and end with the same result, and not
in a chain that was freed. -/
structure SameScan {α : Type} (x y : ParserScript (ℤ × α)) : Prop where
  calls : x.calls.map Call.seen = y.calls.map Call.seen
  result : x.outcome.map Prod.fst = y.outcome.map Prod.fst
  alive : x.outcome ≠ .error .freedChain

/-- A module whose callbacks look at no more than the bytes they are given. -/
def UploadfsModule.Bytewise {σ : Type} (m : UploadfsModule σ) : Prop :=
  ∀ fsd c d, Call.seen c = Call.seen d → m.call fsd c = m.call fsd d

/-- The same comes of a request whichever of two ways its body is split. -/
structure SameUpload (request : UploadRequest Bytes) (p q : List Bytes) : Prop where
  scan : request.command = .post → ∀ boundary,
    requestCheckHeaders request.contentType = some boundary → ∀ numIovec,
      SameScan ((request.split p).scan boundary numIovec)
        ((request.split q).scan boundary numIovec)
  upload : ∀ {σ : Type} (m : UploadfsModule σ) (mp : UploadMount σ), m.Bytewise →
    (upload m mp (request.split p)).map UploadMount.fsd
      = (upload m mp (request.split q)).map UploadMount.fsd

/-- The parser gets to the data of a part. -/
def ReachesData (request : UploadRequest Bytes) : Prop :=
  request.command = .post ∧ request.parserFailures.headD false = false ∧
    ∃ boundary span, requestCheckHeaders request.contentType = some boundary
      ∧ (nextPart boundary request.body).outcome = .ok (some span)

end AuraHttpd
