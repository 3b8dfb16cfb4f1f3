import AuraHttpd.Upload
import AuraHttpd.Lib.Script

/-!
# The parser by itself

What the multipart parser does on an input buffer as a module sees it: the header and data calls
it makes, and how it ends, when no callback signals an error.  `uploadPlay` is `upload` told
through it, a module handling the calls of the scan up to one that sets `upload_error`.
-/

namespace AuraHttpd

open CString Script

/-- A callback of a module, with its arguments. -/
inductive Call where
  | formHeader (key value : Bytes)
  | data (vec : List Bytes) (length : ℤ)
  deriving DecidableEq, Repr

/-- The extents hold as many bytes as the length says. -/
def Covered (vec : List Bytes) (length : ℤ) : Prop := 0 ≤ length ∧ length ≤ vec.flatten.length

instance (vec : List Bytes) (length : ℤ) : Decidable (Covered vec length) :=
  inferInstanceAs (Decidable (_ ∧ _))

variable {σ : Type}

def UploadfsModule.call (m : UploadfsModule σ) (fsd : Upfs σ) : Call → Except Fault (Upfs σ)
  | .formHeader key value => m.callFormHeader fsd key value
  | .data vec length => m.callData fsd vec length

/-- A callback as a step. -/
def UploadfsModule.step (m : UploadfsModule σ) (fsd : Upfs σ) (c : Call) : Option (Upfs σ) :=
  (m.call fsd c).toOption

abbrev ParserScript := Script Call Fault

def scanHeaderLine : Option Bytes → ParserScript ℤ
  | none => pure (-1)
  | some ln =>
    if cstr ln = [] then pure 1
    else
      match (strtokR (lit ":") (cstr ln)).1,
          (strtokR (lit "\r\n") (strtokR (lit ":") (cstr ln)).2).1 with
      | some key, some value => do
        emit (.formHeader key (value.dropWhile (· = 32)))
        pure 0
      | _, _ => fault .nullPointer

variable {E I : Type} [Evbuffer E I]

def scanHeaders : ℕ → Input E → ParserScript (Input E)
  | 0, _ => fault .noFuel
  | fuel + 1, inp => do
    let ret ← scanHeaderLine inp.readln.1
    if ret ≠ 0 then pure inp.readln.2 else scanHeaders fuel inp.readln.2

/-- The look at the delimiter behind a part's data. -/
def scanDelimiter (boundary : Bytes) (inp : Input E) : ParserScript (ℤ × Input E) :=
  let boundarySearch := lit "--" ++ boundary ++ lit "--"
  match Evbuffer.pullup inp.evb boundarySearch.length with
  | none => fault .nullPointer
  | some (tmp, evb) =>
    pure (if tmp.take boundarySearch.length = boundarySearch then 0 else 1, { inp with evb := evb })

/-- The data of a part, from the blank line behind its headers on. -/
def scanData (boundary : Bytes) (start : EvbufferPtr I) (inp : Input E) :
    ParserScript (ℤ × Input E) :=
  match Evbuffer.search inp.evb (lit "--" ++ boundary) with
  | none => pure (-74, inp)
  | some next =>
    if next.pos < start.pos then pure (-74, inp)
    else
      match evbufferPeekRealloc (next.pos - 2) start 2 inp with
      | .error f => fault f
      | .ok (count, vec, inp) =>
        if count ≤ 0 then pure (-74, inp)
        else do
          emit (.data vec (wrapS 32 (next.pos - 2)))
          scanDelimiter boundary (inp.drain next.pos)

def scanNextFile (boundary : Bytes) (inp : Input E) : ParserScript (ℤ × Input E) :=
  if inp.fails then pure (-12, inp.tick)
  else
    match Evbuffer.search inp.tick.evb (lit "--" ++ boundary) with
    | none => pure (-74, inp.tick)
    | some start => do
      let inp := inp.tick.drain ((lit "--" ++ boundary).length + start.pos + 2)
      let inp ← scanHeaders (Evbuffer.length inp.evb + 1) inp
      scanData boundary start inp

def scanLoop (boundary : Bytes) : ℕ → Input E → ParserScript (ℤ × Input E)
  | 0, _ => fault .noFuel
  | fuel + 1, inp => do
    let (ret, inp) ← scanNextFile boundary inp
    if ret = 1 then scanLoop boundary fuel inp else pure (ret, inp)

/-- The scan of a request's body. -/
def UploadRequest.scan (request : UploadRequest E) (boundary : Bytes) (numIovec : ℕ) :
    ParserScript (ℤ × Input E) :=
  scanLoop boundary (Evbuffer.length request.body + 1)
    { evb := request.body, numIovec := numIovec, failures := request.parserFailures }

/-- The calls a request's body leads to. -/
def UploadRequest.calls (request : UploadRequest E) (numIovec : ℕ) : List Call :=
  match requestCheckHeaders request.contentType with
  | none => []
  | some boundary => (request.scan boundary numIovec).calls

variable (m : UploadfsModule σ)

/-- The calls of a script are made to the module. -/
def UploadfsModule.play {α : Type} (fsd : Upfs σ) (x : ParserScript α) :
    Except Fault (Upfs σ × Option α) :=
  Script.play m.call Upfs.uploadError fsd x

/-- The calls are made to the module, up to one that signals an error. -/
def UploadfsModule.replay (fsd : Upfs σ) (cs : List Call) : Except Fault (Upfs σ) :=
  Script.replay m.call Upfs.uploadError fsd cs

/-- How `upload` ends a request whose body was scanned. -/
def endUpload {α : Type} (fsd : Upfs σ) : Option (ℤ × α) → Except Fault (Upfs σ)
  | some (ret, _) =>
    if ret < 0 then uploadfsUploadSendError m.finalize fsd none
    else callFinalize m.finalize fsd true
  | none => uploadfsUploadSendError m.finalize fsd none

/-- The state in which a request's hook is called. -/
def UploadRequest.start (request : UploadRequest E) (mp : UploadMount σ) : Upfs σ :=
  { mp.fsd with
    failures := request.failures, replies := [], finalized := [], uploadError := false }

/-- The upload makes the call `c`, in the state `fsd`: neither the hook nor a call before has
signalled an error. -/
def UploadRequest.Makes (request : UploadRequest E) (mp : UploadMount σ) (fsd : Upfs σ)
    (c : Call) : Prop :=
  request.command = .post ∧ ∃ fsd₀ cs cs', m.callHook (request.start mp) = .ok fsd₀
    ∧ fsd₀.uploadError = false ∧ request.calls mp.numIovec = cs ++ c :: cs'
    ∧ m.replay fsd₀ cs = .ok fsd ∧ fsd.uploadError = false

/-- `upload` of a POST request whose hook signalled no error. -/
def uploadPlay (fsd : Upfs σ) (numIovec : ℕ) (request : UploadRequest E) :
    Except Fault (Upfs σ) :=
  match requestCheckHeaders request.contentType with
  | none => uploadfsUploadSendError m.finalize fsd none
  | some boundary => do
    let (fsd, r) ← m.play fsd (request.scan boundary numIovec)
    endUpload m fsd r

end AuraHttpd
