import AuraHttpd.Upload
import AuraHttpd.Aura
import AuraHttpd.Lib.Run

/-!
# Uploads into aura buffers

`fs_upload_mod_buffer.c`, with the routes it registers.  Records and the arrays `current_info`
points to live in heaps.  What the code frees stays readable in the model: `freed` logs each
`free` of a record, `stale` each use of a record that was freed before, and `released` each
`json_object_put` of an array; a run goes on past it with the old contents.  `assigned` logs each
buffer put into the store, by its identifier and its part, and `parts` counts the data callbacks.
-/

namespace AuraHttpd

open CString

abbrev RecordId := ℕ
abbrev InfoId := ℕ

/-- `aura_buffer_from_eviovec` of a node's transport, for the case that it has memory: the payload
is the first `n` bytes of the extents, and `size` is larger by the transport's overhead.  Of a
length that is not covered by the extents nothing is known. -/
structure AuraTransport where
  overhead : ℕ
  fromEviovec : List Bytes → ℤ → Except Fault AuraBuffer
  from_covered : ∀ vec n, 0 ≤ n → n ≤ vec.flatten.length → ∃ b, fromEviovec vec n = .ok b
    ∧ b.data = vec.flatten.take n.toNat ∧ b.extra.length = overhead

/-- A transport whose buffers are followed by `overhead` zero bytes. -/
def AuraTransport.zeroed (overhead : ℕ) : AuraTransport where
  overhead := overhead
  fromEviovec vec n :=
    .ok { data := vec.flatten.take n.toNat, extra := List.replicate overhead 0 }
  from_covered _ _ _ _ := ⟨_, rfl, rfl, List.length_replicate⟩

/-- A transport that takes no other length than one the extents cover. -/
def AuraTransport.strict (overhead : ℕ) : AuraTransport where
  overhead := overhead
  fromEviovec vec n :=
    if 0 ≤ n ∧ n ≤ vec.flatten.length then
      .ok { data := vec.flatten.take n.toNat, extra := List.replicate overhead 0 }
    else .error .outOfBounds
  from_covered _ _ h0 hn := ⟨_, if_pos ⟨h0, hn⟩, rfl, List.length_replicate⟩

/-- The payload of a buffer that is made is the first `n` bytes of the extents, and its `size` is
larger by the overhead. -/
def AuraTransport.Yields (T : AuraTransport) : Prop :=
  ∀ vec n aura, T.fromEviovec vec n = .ok aura → (aura.data.length : ℤ) = n
    ∧ aura.data = vec.flatten.take n.toNat ∧ aura.extra.length = T.overhead

/-- `struct available_buffer`; `linked` is whether `qentry` is not an empty list. -/
structure AvailableBuffer where
  buf : Option AuraBuffer := none
  info : Option Json := none
  registered : Bool := false
  linked : Bool := false
  id : ℤ := 0

/-- What a path of the mountpoint leads to. -/
inductive BufferRoute where
  | post
  | list
  | download (r : RecordId)
  | drop (r : RecordId)
  deriving DecidableEq, Repr

/-- A part: the extents and the length its data callback was given. -/
structure Part where
  vec : List Bytes
  length : ℤ
  deriving DecidableEq, Repr

/-- The bytes of a part. -/
def Part.bytes (p : Part) : Bytes := p.vec.flatten.take p.length.toNat

/-- `struct bufmod_data`, with the heaps, the routes and the logs. -/
structure BufmodData where
  maxSize : ℕ := 8 * 1024 * 1024
  currentSize : ℕ := 0
  currentBuf : Option RecordId := none
  currentInfo : Option InfoId := none
  buffers : List RecordId := []
  currentId : ℤ := 0
  records : RecordId → Option AvailableBuffer := fun _ => none
  next : RecordId := 0
  infos : InfoId → Json := fun _ => .null
  nextInfo : InfoId := 0
  routes : RouteTable BufferRoute := .empty
  freed : List RecordId := []
  stale : List RecordId := []
  released : List InfoId := []
  assigned : List (ℤ × Part) := []
  parts : ℕ := 0

namespace BufmodData

/-- A record is looked into. -/
def use (d : BufmodData) (r : RecordId) : BufmodData :=
  if r ∈ d.freed then { d with stale := d.stale ++ [r] } else d

def setRecord (d : BufmodData) (r : RecordId) (b : AvailableBuffer) : BufmodData :=
  { d with records := Function.update d.records r (some b) }

/-- `calloc` of a record, which becomes the current one. -/
def newRecord (d : BufmodData) : BufmodData :=
  { d with
    records := Function.update d.records d.next (some {})
    next := d.next + 1
    currentBuf := some d.next }

/-- `json_object_new_array` for the infos of a request. -/
def newInfo (d : BufmodData) : BufmodData :=
  { d with
    infos := Function.update d.infos d.nextInfo (.array [])
    nextInfo := d.nextInfo + 1
    currentInfo := some d.nextInfo }

/-- A data callback is counted. -/
def countPart (d : BufmodData) : BufmodData := { d with parts := d.parts + 1 }

/-- The record of a part is given its aura buffer, if there is one, and the next identifier. -/
def fillRecord (d : BufmodData) (r : RecordId) (b : AvailableBuffer) (aura : Option AuraBuffer) :
    BufmodData :=
  { d.use r with currentId := wrapS 64 (d.currentId + 1) }.setRecord r
    { b with buf := aura, id := d.currentId }

/-- `free`. -/
def free (d : BufmodData) (r : RecordId) : BufmodData := { d with freed := d.freed ++ [r] }

end BufmodData

variable (mountpoint : Bytes)

def downloadPath (id : ℤ) : Bytes := mountpoint ++ (lit "/download/" ++ fmtLu id)

def dropPath (id : ℤ) : Bytes := mountpoint ++ (lit "/drop/" ++ fmtLu id)

/-- `buf_avail_register`. -/
def bufAvailRegister (d : BufmodData) (r : RecordId) (b : AvailableBuffer) : BufmodData :=
  let d := { d with routes := d.routes.set (downloadPath mountpoint b.id) (.download r) }
  let d := { d with routes := d.routes.set (dropPath mountpoint b.id) (.drop r) }
  d.setRecord r { b with registered := true }

/-- `buf_avail_deregister`. -/
def bufAvailDeregister (d : BufmodData) (r : RecordId) (b : AvailableBuffer) : BufmodData :=
  let d := { d with routes := d.routes.del (downloadPath mountpoint b.id) }
  let d := { d with routes := d.routes.del (dropPath mountpoint b.id) }
  d.setRecord r { b with registered := false }

/-- `buf_avail_drop`. -/
def bufAvailDrop (d : BufmodData) : Option RecordId → BufmodData
  | none => d
  | some r =>
    match d.records r with
    | none => d
    | some b =>
      let d := d.use r
      let d := if b.registered then bufAvailDeregister mountpoint d r b else d
      let d := if b.linked then { d with buffers := d.buffers.erase r } else d
      d.free r

/-- `buffer_send_result`. -/
def bufferSendResult (fsd : Upfs BufmodData) (ok : Bool) : Except Fault (Upfs BufmodData) :=
  let d := fsd.modData
  if ok then
    let fsd := fsd.reply (.json ((d.currentInfo.map d.infos).getD .null))
    .ok (fsd.setData { d with released := d.released ++ d.currentInfo.toList })
  else
    match d.currentBuf with
    | none => .ok fsd
    | some r => .ok (fsd.setData ((d.use r).free r))

/-- `buffer_handle_rq_headers`. -/
def bufferHandleRqHeaders (fsd : Upfs BufmodData) : Except Fault (Upfs BufmodData) :=
  let d := fsd.modData
  let d := { d with released := d.released ++ d.currentInfo.toList, currentInfo := none }
  let d := { bufAvailDrop fsd.mountpoint d d.currentBuf with currentBuf := none }
  if fsd.fails then uploadfsUploadSendError (some bufferSendResult) (fsd.tick.setData d) none
  else .ok (fsd.tick.setData d.newInfo)

/-- The label `err_mem` of the callbacks. -/
def errMem (fsd : Upfs BufmodData) (buf : Option RecordId) : Except Fault (Upfs BufmodData) :=
  uploadfsUploadSendError (some bufferSendResult)
    (fsd.setData (bufAvailDrop fsd.mountpoint fsd.modData buf)) none

/-- The string object made of a text, null if there is none or no memory for it. -/
def newString (fsd : Upfs BufmodData) : Option Bytes → Json × Upfs BufmodData
  | none => (.null, fsd)
  | some s => (if fsd.fails then .null else .string s, fsd.tick)

/-- The part of `buffer_handle_form_header` for the Content-Disposition header. -/
def addDisposition (fsd : Upfs BufmodData) (r : RecordId) (value : Bytes) : Upfs BufmodData :=
  let (fn, fsd) := uploadfsGetContentDispositionFilename fsd value
  let (filename, fsd) := newString fsd fn
  let (fn, fsd) := uploadfsGetContentDispositionName fsd value
  let (name, fsd) := newString fsd fn
  match fsd.modData.records r with
  | none => fsd
  | some b =>
    fsd.setData ((fsd.modData.use r).setRecord r { b with
      info := b.info.map fun i =>
        (i.objectAdd (lit "filename") filename).objectAdd (lit "name") name })

/-- `buffer_handle_form_header`. -/
def bufferHandleFormHeader (fsd : Upfs BufmodData) (key value : Bytes) :
    Except Fault (Upfs BufmodData) :=
  let disposition := fun (fsd : Upfs BufmodData) (r : RecordId) =>
    if key = lit "Content-Disposition" then addDisposition fsd r value else fsd
  match fsd.modData.currentBuf with
  | some r => .ok (disposition fsd r)
  | none =>
    if fsd.fails then errMem fsd.tick none
    else
      let fsd := fsd.tick
      let r := fsd.modData.next
      let fsd := fsd.setData fsd.modData.newRecord
      if fsd.fails then errMem fsd.tick (some r)
      else
        .ok (disposition (fsd.tick.setData (fsd.modData.setRecord r { info := some (.object []) }))
          r)

/-- The sum `buffer_handle_data` compares, in the arithmetic of `size_t`. -/
def sizeWith (d : BufmodData) (length : ℤ) : ℕ := (wrapU 64 (d.currentSize + length)).toNat

variable (T : AuraTransport)

/-- A record whose aura buffer and `id` are set enters the store. -/
def storeBuffer (d : BufmodData) (r : RecordId) (b : AvailableBuffer) (part : Part) :
    BufmodData :=
  let b := { b with info := b.info.map (·.objectAdd (lit "id") (.int (Int64.ofInt b.id)))
                    linked := true }
  let d := { d with
    buffers := d.buffers ++ [r]
    infos := match d.currentInfo with
      | some i => Function.update d.infos i ((d.infos i).arrayAdd (b.info.getD .null))
      | none => d.infos
    assigned := d.assigned ++ [(b.id, part)] }
  let d := bufAvailRegister mountpoint d r b
  { d with currentSize := sizeWith d part.length, currentBuf := none }

/-- `aura_buffer_from_eviovec`, null without memory. -/
def auraFrom (fsd : Upfs BufmodData) (vec : List Bytes) (length : ℤ) :
    Except Fault (Option AuraBuffer) :=
  if fsd.fails then .ok none else (T.fromEviovec vec length).map some

/-- `buffer_handle_data` from behind the check of the size on. -/
def storeData (fsd : Upfs BufmodData) (vec : List Bytes) (length : ℤ) :
    Except Fault (Upfs BufmodData) := do
  let buf := fsd.modData.currentBuf
  let aura ← auraFrom T fsd vec length
  let fsd := fsd.tick
  match buf, buf.bind fsd.modData.records with
  | some r, some b =>
    let id := fsd.modData.currentId
    let fsd := fsd.setData (fsd.modData.fillRecord r b aura)
    match aura with
    | none => errMem fsd buf
    | some aura =>
      if fsd.fails then errMem fsd.tick buf
      else
        .ok (fsd.tick.setData (storeBuffer fsd.mountpoint fsd.modData r
          { b with buf := some aura, id := id } ⟨vec, length⟩))
  | _, _ => .error .nullPointer

/-- `buffer_handle_data`. -/
def bufferHandleData (fsd : Upfs BufmodData) (vec : List Bytes) (length : ℤ) :
    Except Fault (Upfs BufmodData) :=
  let fsd := fsd.setData fsd.modData.countPart
  if sizeWith fsd.modData length > fsd.modData.maxSize then errMem fsd fsd.modData.currentBuf
  else storeData T fsd vec length

/-- The module `buffer`. -/
def buffermod : UploadfsModule BufmodData where
  inboundRequestHook := some bufferHandleRqHeaders
  handleFormHeader := some bufferHandleFormHeader
  handleData := some (bufferHandleData T)
  finalize := some bufferSendResult

/-- `rq_list_buffers`; `fails` is whether there is no memory for the array. -/
def rqListBuffers (fsd : Upfs BufmodData) (fails : Bool) : Upfs BufmodData :=
  if fails then fsd.reply (.error 500 (lit "Failed to create json"))
  else
    let d := fsd.modData
    let info := fun r => ((d.records r).bind AvailableBuffer.info).getD .null
    (fsd.setData (d.buffers.foldl BufmodData.use d)).reply (.json (.array (d.buffers.map info)))

/-- `rq_download_buffer`; `fails` is whether `evbuffer_new` fails.  As many bytes are sent as the
buffer's `size` says, from the start of the payload on. -/
def rqDownloadBuffer (fsd : Upfs BufmodData) (r : RecordId) (fails : Bool) :
    Except Fault (Upfs BufmodData) :=
  let d := fsd.modData.use r
  if fails then .ok ((fsd.setData d).reply (.error 500 (lit "Out of resources")))
  else
    match d.records r with
    | some { buf := some buf, info, registered, linked, id } =>
      let buf := buf.rewind
      let data := buf.atPos
      let read := { buf with pos := buf.pos + buf.payloadLength }
      let d := d.setRecord r { buf := some read, info, registered, linked, id }
      .ok ((fsd.setData d).reply (.data (data.take buf.size)))
    | _ => .error .nullPointer

/-- `rq_drop_buffer`. -/
def rqDropBuffer (fsd : Upfs BufmodData) (r : RecordId) : Upfs BufmodData :=
  let d := bufAvailDrop fsd.mountpoint (fsd.modData.use r) (some r)
  (fsd.setData d).reply (.accepted fsd.mountpoint)

/-- A mountpoint after `buffer_init` and `up_mount`. -/
def bufferMount : UploadMount BufmodData where
  fsd :=
    { mountpoint := mountpoint
      modData :=
        { routes := (RouteTable.empty.set (mountpoint ++ lit "/") .list).set
            (mountpoint ++ lit "/post") .post } }

variable {E I : Type} [Evbuffer E I]

/-- A request for one of the mountpoint's paths, which the route table leads to its handler.  It
is refused where no route is registered and where the process ends. -/
def storeStep (mp : UploadMount BufmodData) (e : Bytes × UploadRequest E) :
    Option (UploadMount BufmodData) :=
  let fsd := { mp.fsd with replies := [] }
  match mp.fsd.modData.routes.find e.1 with
  | none => none
  | some .post => (upload (buffermod T) mp e.2).toOption
  | some .list => some { mp with fsd := rqListBuffers fsd (e.2.failures.headD false) }
  | some (.download r) =>
    (rqDownloadBuffer fsd r (e.2.failures.headD false)).toOption.map fun fsd =>
      { mp with fsd := fsd }
  | some (.drop r) => some { mp with fsd := rqDropBuffer fsd r }

end AuraHttpd
