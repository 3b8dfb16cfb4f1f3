import AuraHttpd.JsonHelpers
import AuraHttpd.Upload

/-!
# The upload modules that write files

`fs_upload_mod_debug.c` writes every part to one file and answers each `finalize`, whichever way
the upload went.  `fs_upload_mod_file.c` writes each part to a file of its own, under a random
name or the one the client gave.
-/

namespace AuraHttpd

open CString

/-- `debug_send_result`. -/
def debugSendResult (fsd : Upfs Unit) (_ok : Bool) : Except Fault (Upfs Unit) :=
  .ok (fsd.reply (.accepted (lit "/")))

/-- `debug_handle_data`. -/
def debugHandleData (fsd : Upfs Unit) (vec : List Bytes) (length : ℤ) :
    Except Fault (Upfs Unit) := do
  let (ret, fsd) ← dumpIovecToFile fsd (lit "/tmp/data.bin") vec length
  if ret ≠ 0 then uploadfsUploadSendError (some debugSendResult) fsd none else .ok fsd

/-- The module `debug`; its header callbacks only print. -/
def debugmod : UploadfsModule Unit where
  inboundRequestHook := some .ok
  handleFormHeader := some fun fsd _ _ => .ok fsd
  handleData := some debugHandleData
  finalize := some debugSendResult

/-- `struct filemod_data`, with what `random` returns next. -/
structure FilemodData where
  originalFilename : Bool
  directory : Bytes
  filename : Option Bytes := none
  reply : Option Json := none
  random : List ℕ := []

/-- `file_init`; `inits` is whether there is memory and the directory can be written to. -/
def fileInit (J : JsonLib) (props : Json) (inits : Bool) :
    Except MountFault (Option FilemodData) :=
  match jsonArrayFindString J props (lit "directory") with
  | none => .ok none
  | some directory => do
    let directory ← killTrailingSlash directory
    if inits then
      .ok (some {
        directory := directory
        originalFilename := jsonArrayFindBoolean J props (lit "original_filename") })
    else .ok none

/-- `file_send_result`; the reply is given to `ahttpd_reply_with_json` also where it is null. -/
def fileSendResult (fsd : Upfs FilemodData) (ok : Bool) : Except Fault (Upfs FilemodData) :=
  let fsd := if ok then fsd.reply (.json (fsd.modData.reply.getD .null)) else fsd
  .ok (fsd.setData { fsd.modData with reply := none })

/-- `file_handle_rq_headers`. -/
def fileHandleRqHeaders (fsd : Upfs FilemodData) : Except Fault (Upfs FilemodData) :=
  let fsd := fsd.setData { fsd.modData with filename := none }
  if fsd.fails then
    uploadfsUploadSendError (some fileSendResult)
      (fsd.tick.setData { fsd.modData with reply := none }) none
  else .ok (fsd.tick.setData { fsd.modData with reply := some (.array []) })

/-- `file_handle_form_header`. -/
def fileHandleFormHeader (fsd : Upfs FilemodData) (key value : Bytes) :
    Except Fault (Upfs FilemodData) :=
  if fsd.modData.originalFilename = false then .ok fsd
  else if key = lit "Content-Disposition" then
    let (filename, fsd) := uploadfsGetContentDispositionFilename fsd value
    let fsd := fsd.setData { fsd.modData with filename := filename }
    if filename = none ∨ filename = some [] then
      uploadfsUploadSendError (some fileSendResult) fsd none
    else .ok fsd
  else .ok fsd

/-- `file_handle_data`.  Of a missing filename `asprintf` makes `(null)`, and then
`json_object_new_string` reads the null pointer. -/
def fileHandleData (fsd : Upfs FilemodData) (vec : List Bytes) (length : ℤ) :
    Except Fault (Upfs FilemodData) := do
  let error := fun fsd => uploadfsUploadSendError (some fileSendResult) fsd none
  if fsd.fails then error fsd.tick
  else
    let fsd := fsd.tick
    let randname := lit "up." ++ decimal (fsd.modData.random.headD 0)
    let fsd := fsd.setData { fsd.modData with random := fsd.modData.random.tail }
    let filename := if fsd.modData.originalFilename then fsd.modData.filename else some randname
    if fsd.fails then error fsd.tick
    else
      let fsd := fsd.tick
      let filepath := fsd.modData.directory ++ lit "/" ++ filename.getD (lit "(null)")
      if fsd.fails then error fsd.tick
      else
        let fsd := fsd.tick
        match filename with
        | none => .error .nullPointer
        | some filename =>
          if fsd.fails then error fsd.tick
          else
            let fsd := fsd.tick
            let fl := ((Json.object []).objectAdd (lit "fullpath") (.string filepath)).objectAdd
              (lit "filename") (.string filename)
            let fsd := fsd.setData
              { fsd.modData with reply := fsd.modData.reply.map fun r => r.arrayAdd fl }
            let (ret, fsd) ← dumpIovecToFile fsd filepath vec length
            if ret ≠ 0 then error fsd else .ok fsd

/-- The module `file`. -/
def filemod : UploadfsModule FilemodData where
  inboundRequestHook := some fileHandleRqHeaders
  handleFormHeader := some fileHandleFormHeader
  handleData := some fileHandleData
  finalize := some fileSendResult

/-- A mountpoint after `file_init` and `up_mount`. -/
def filesMount (mountpoint : Bytes) (fdata : FilemodData) : UploadMount FilemodData where
  fsd := { modData := fdata, mountpoint := mountpoint }

/-- A request for the path of the uploads as a step, which is refused where the process ends. -/
def filesStep {E I : Type} [Evbuffer E I] (mp : UploadMount FilemodData)
    (request : UploadRequest E) : Option (UploadMount FilemodData) :=
  (upload filemod mp request).toOption

end AuraHttpd
