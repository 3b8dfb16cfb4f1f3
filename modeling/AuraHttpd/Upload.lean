import AuraHttpd.Evbuffer
import AuraHttpd.Evhttp
import AuraHttpd.Entity

/-!
# Uploads

`fs_upload.c`: the multipart parser and `upload`, over any module, that is any set of callbacks
with their own data.  What ends the process, a null pointer or an access out of bounds, is a
`Fault`.  Which library calls fail is read off a list, one entry a call: the module's callbacks
take theirs from `Upfs.failures`, the parser from `Input.failures`.

The loops of the parser take fuel by the length of the input buffer; that it is enough is proved
for buffers that behave as documented.
-/

namespace AuraHttpd

open CString

inductive Fault where
  | nullPointer
  | outOfBounds
  | freedChain
  | noFuel
  deriving DecidableEq, Repr

/-- `struct upfs_data`, with the answers to its request, the calls of `finalize` for it, and the
files written.  `num_iovec` is with the parser's `Input`. -/
structure Upfs (σ : Type) where
  modData : σ
  mountpoint : Bytes := []
  uploadError : Bool := false
  failures : List Bool := []
  replies : List Reply := []
  finalized : List Bool := []
  files : List (Bytes × Bytes) := []

/-- `struct uploadfs_module`. -/
structure UploadfsModule (σ : Type) where
  inboundRequestHook : Option (Upfs σ → Except Fault (Upfs σ)) := none
  handleFormHeader : Option (Upfs σ → Bytes → Bytes → Except Fault (Upfs σ)) := none
  handleData : Option (Upfs σ → List Bytes → ℤ → Except Fault (Upfs σ)) := none
  finalize : Option (Upfs σ → Bool → Except Fault (Upfs σ)) := none

variable {σ : Type}

namespace Upfs

/-- Whether the next library call fails. -/
def fails (fsd : Upfs σ) : Bool := fsd.failures.headD false

/-- A library call that can fail has been made. -/
def tick (fsd : Upfs σ) : Upfs σ := { fsd with failures := fsd.failures.tail }

def reply (fsd : Upfs σ) (r : Reply) : Upfs σ := { fsd with replies := fsd.replies ++ [r] }

def setData (fsd : Upfs σ) (d : σ) : Upfs σ := { fsd with modData := d }

end Upfs

namespace UploadfsModule

variable (m : UploadfsModule σ)

/-- The call of a module's hook, if it has one. -/
def callHook (fsd : Upfs σ) : Except Fault (Upfs σ) :=
  match m.inboundRequestHook with
  | none => .ok fsd
  | some f => f fsd

/-- The call of a module's `handle_form_header`, if it has one. -/
def callFormHeader (fsd : Upfs σ) (key value : Bytes) : Except Fault (Upfs σ) :=
  match m.handleFormHeader with
  | none => .ok fsd
  | some f => f fsd key value

/-- The call of a module's `handle_data`, if it has one. -/
def callData (fsd : Upfs σ) (vec : List Bytes) (length : ℤ) : Except Fault (Upfs σ) :=
  match m.handleData with
  | none => .ok fsd
  | some f => f fsd vec length

end UploadfsModule

/-- The call of a module's `finalize`, if it has one. -/
def callFinalize (finalize : Option (Upfs σ → Bool → Except Fault (Upfs σ))) (fsd : Upfs σ)
    (ok : Bool) : Except Fault (Upfs σ) :=
  match finalize with
  | none => .ok fsd
  | some f => f { fsd with finalized := fsd.finalized ++ [ok] } ok

/-- `uploadfs_upload_send_error`. -/
def uploadfsUploadSendError (finalize : Option (Upfs σ → Bool → Except Fault (Upfs σ)))
    (fsd : Upfs σ) (reply : Option Json) : Except Fault (Upfs σ) :=
  let fsd := { fsd with uploadError := true }
  let fsd := fsd.reply <| match reply with
    | some j => .json j
    | none => .error 406 (lit "Not acceptable")
  callFinalize finalize fsd false

/-- `sanitize_string`. -/
def sanitizeString (s : Bytes) : Bytes := s.map fun c => if c = 47 then 95 else c

/-- `extract_key_value`; `fails` is whether the copy cannot be allocated. -/
def extractKeyValue (key : Bytes) (cdsString : Bytes) (fails : Bool) : Option Bytes := do
  if cdsString = [] then none
  let tmp := key ++ lit "=\""
  let pos ← strstr cdsString tmp
  if fails then none
  let ret := (pos.drop tmp.length).takeWhile (· ≠ 34)
  some (sanitizeString (cstr (decodeHtmlEntitiesUtf8 ret)))

/-- Whether `extract_key_value` gets as far as its allocation. -/
def extractAllocates (key : Bytes) (cdsString : Bytes) : Bool :=
  cdsString ≠ [] ∧ (strstr cdsString (key ++ lit "=\"")).isSome

/-- `extract_key_value` as a callback makes it. -/
def extractFrom (fsd : Upfs σ) (key : Bytes) (cdsString : Bytes) : Option Bytes × Upfs σ :=
  (extractKeyValue key cdsString fsd.fails,
    if extractAllocates key cdsString then fsd.tick else fsd)

/-- `uploadfs_get_content_disposition_name`. -/
def uploadfsGetContentDispositionName (fsd : Upfs σ) (cdsString : Bytes) :
    Option Bytes × Upfs σ := extractFrom fsd (lit "name") cdsString

/-- `uploadfs_get_content_disposition_filename`. -/
def uploadfsGetContentDispositionFilename (fsd : Upfs σ) (cdsString : Bytes) :
    Option Bytes × Upfs σ := extractFrom fsd (lit "filename") cdsString

/-- `request_check_headers`, on the value of the Content-Type header. -/
def requestCheckHeaders (contentType : Option Bytes) : Option Bytes := do
  let vl ← contentType
  let _ ← strstr vl (lit "multipart/form-data")
  let boundary ← strstr vl (lit "boundary=")
  some (boundary.drop (lit "boundary=").length)

/-- `dump_iovec`: the bytes written. -/
def dumpIovec : List Bytes → ℤ → Except Fault Bytes
  | [], length => if length = 0 then .ok [] else .error .outOfBounds
  | ext :: vec, length =>
    if length = 0 then .ok []
    else if length < 0 then .error .outOfBounds
    else do
      let towrite := min length.toNat ext.length
      let rest ← dumpIovec vec (length - towrite)
      .ok (ext.take towrite ++ rest)

/-- `dump_iovec_to_file`. -/
def dumpIovecToFile (fsd : Upfs σ) (path : Bytes) (vec : List Bytes) (length : ℤ) :
    Except Fault (ℤ × Upfs σ) :=
  if fsd.fails then .ok (-5, fsd.tick)
  else do
    let written ← dumpIovec vec length
    .ok (0, { fsd.tick with files := fsd.files ++ [(path, written)] })

/-- What the parser works on: the request's input buffer, the room in `fsd->iovec`, and which of
its allocations fail. -/
structure Input (E : Type) where
  evb : E
  numIovec : ℕ := 4
  failures : List Bool := []

variable {E I : Type} [Evbuffer E I]

namespace Input

def fails (inp : Input E) : Bool := inp.failures.headD false

def tick (inp : Input E) : Input E := { inp with failures := inp.failures.tail }

/-- `evbuffer_drain`. -/
def drain (inp : Input E) (n : ℕ) : Input E := { inp with evb := Evbuffer.drain inp.evb n }

/-- `evbuffer_readln`. -/
def readln (inp : Input E) : Option Bytes × Input E :=
  match Evbuffer.readln inp.evb with
  | some (ln, evb) => (some ln, { inp with evb := evb })
  | none => (none, inp)

end Input

/-- `evbuffer_peek_realloc`: the count and the extents. -/
def evbufferPeekRealloc (len : ℤ) (startAt : EvbufferPtr I) :
    ℕ → Input E → Except Fault (ℤ × List Bytes × Input E)
  | 0, _ => .error .noFuel
  | fuel + 1, inp =>
    match Evbuffer.peek inp.evb len startAt inp.numIovec with
    | none => .error .freedChain
    | some (ret, vec) =>
      if ret > inp.numIovec then
        if inp.fails then .ok (-12, [], inp.tick)
        else evbufferPeekRealloc len startAt fuel { inp.tick with numIovec := ret }
      else .ok (ret, vec, inp)

variable (m : UploadfsModule σ)

/-- `handle_file_header_line`. -/
def handleFileHeaderLine (fsd : Upfs σ) : Option Bytes → Except Fault (ℤ × Upfs σ)
  | none => .ok (-1, fsd)
  | some ln =>
    if cstr ln = [] then .ok (1, fsd)
    else
      let (key, tmp) := strtokR (lit ":") (cstr ln)
      let (value, _) := strtokR (lit "\r\n") tmp
      match key, value with
      | some key, some value => do
        let value := value.dropWhile (· = 32)
        let fsd ← m.callFormHeader fsd key value
        .ok (if fsd.uploadError then 1 else 0, fsd)
      | _, _ => .error .nullPointer

/-- The loop of `multipart_handle_next_file` over the header lines of a part. -/
def headerLoop : ℕ → Upfs σ → Input E → Except Fault (Upfs σ × Input E)
  | 0, _, _ => .error .noFuel
  | fuel + 1, fsd, inp => do
    let (ln, inp) := inp.readln
    let (ret, fsd) ← handleFileHeaderLine m fsd ln
    if ret ≠ 0 then .ok (fsd, inp) else headerLoop fuel fsd inp

/-- `multipart_handle_next_file` from behind the header loop on. -/
def handlePartData (boundary : Bytes) (start : EvbufferPtr I) (fsd : Upfs σ) (inp : Input E) :
    Except Fault (ℤ × Upfs σ × Input E) :=
  if fsd.uploadError then .ok (-74, fsd, inp)
  else
    match Evbuffer.search inp.evb (lit "--" ++ boundary) with
    | none => .ok (-74, fsd, inp)
    | some next =>
      if next.pos < start.pos then .ok (-74, fsd, inp)
      else do
        let length : ℤ := next.pos - 2
        let (count, vec, inp) ← evbufferPeekRealloc length start 2 inp
        if count ≤ 0 then .ok (-74, fsd, inp)
        else
          let fsd ← m.callData fsd vec (wrapS 32 length)
          if fsd.uploadError then .ok (-74, fsd, inp)
          else
            let inp := inp.drain next.pos
            let boundarySearch := lit "--" ++ boundary ++ lit "--"
            match Evbuffer.pullup inp.evb boundarySearch.length with
            | none => .error .nullPointer
            | some (tmp, evb) =>
              .ok (if tmp.take boundarySearch.length = boundarySearch then 0 else 1, fsd,
                { inp with evb := evb })

/-- `multipart_handle_next_file`. -/
def multipartHandleNextFile (boundary : Bytes) (fsd : Upfs σ) (inp : Input E) :
    Except Fault (ℤ × Upfs σ × Input E) :=
  if inp.fails then .ok (-12, fsd, inp.tick)
  else
    let inp := inp.tick
    let boundarySearch := lit "--" ++ boundary
    match Evbuffer.search inp.evb boundarySearch with
    | none => .ok (-74, fsd, inp)
    | some start => do
      let inp := inp.drain (boundarySearch.length + start.pos + 2)
      let (fsd, inp) ← headerLoop m (Evbuffer.length inp.evb + 1) fsd inp
      handlePartData m boundary start fsd inp

/-- The do/while loop of `upload`. -/
def uploadLoop (boundary : Bytes) :
    ℕ → Upfs σ → Input E → Except Fault (ℤ × Upfs σ × Input E)
  | 0, _, _ => .error .noFuel
  | fuel + 1, fsd, inp => do
    let (ret, fsd, inp) ← multipartHandleNextFile m boundary fsd inp
    if ret = 1 then uploadLoop boundary fuel fsd inp else .ok (ret, fsd, inp)

/-- A request to the path of the uploads, with the library calls that fail while it is
handled. -/
structure UploadRequest (E : Type) where
  command : EvhttpCmd := .post
  contentType : Option Bytes
  body : E
  failures : List Bool := []
  parserFailures : List Bool := []

/-- A mounted upload: its `upfs_data` and the room in `fsd->iovec`. -/
structure UploadMount (σ : Type) where
  fsd : Upfs σ
  numIovec : ℕ := 4

/-- `upload`. -/
def upload (mp : UploadMount σ) (request : UploadRequest E) : Except Fault (UploadMount σ) := do
  let fsd := { mp.fsd with failures := request.failures, replies := [], finalized := [] }
  if request.command ≠ .post then
    .ok { mp with fsd := fsd.reply (.error 405 (lit "Method not allowed. Check ur docs")) }
  else
    let fsd := { fsd with uploadError := false }
    let fsd ← m.callHook fsd
    if fsd.uploadError then .ok { mp with fsd := fsd }
    else
      match requestCheckHeaders request.contentType with
      | none => do
        let fsd ← uploadfsUploadSendError m.finalize fsd none
        .ok { mp with fsd := fsd }
      | some boundary => do
        let inp := {
          evb := request.body
          numIovec := mp.numIovec
          failures := request.parserFailures }
        let (ret, fsd, inp) ← uploadLoop m boundary (Evbuffer.length request.body + 1) fsd inp
        let fsd ←
          if ret < 0 then uploadfsUploadSendError m.finalize fsd none
          else callFinalize m.finalize fsd true
        .ok { fsd := fsd, numIovec := inp.numIovec }

end AuraHttpd
