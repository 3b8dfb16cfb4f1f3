import AuraHttpd.FsNode

/-!
# What a call holds

`issue_call` and `ahttpd_call_create` once more, with the buffers of aura, the records of calls and
the JSON objects they have and have not released.  A buffer that aura takes over is not counted any
more.
-/

namespace AuraHttpd

open CString

/-- How many there are of what is allocated for calls. -/
structure Held where
  auraBuffers : ℕ := 0
  callRecords : ℕ := 0
  jsonObjects : ℕ := 0
  deriving DecidableEq, Repr

variable (L : NodeLibs) (mpoint : Mpoint)

/-- `ahttpd_call_create`: the record is made first, then the buffer; `bailout` frees the record. -/
def ahttpdCallCreateHeld (C : UrpcCodes) (W : AuraWire) (mountpoint : Bytes) (s : Nodefs)
    (held : Held) (q : Request) (o : AuraObject) (args : Json) (isAsync started : Bool) :
    Option (Nodefs × Held) := do
  let held := { held with callRecords := held.callRecords + 1 }
  let buf : AuraBuffer := { data := List.replicate o.arglen 0 }
  let held := { held with auraBuffers := held.auraBuffers + 1 }
  let bailout := { held with callRecords := held.callRecords - 1 }
  let (ret, _) ← ahttpdBufferFromJson C W buf args o.argFmt
  if ret ≠ 0 then some (s.send q (.error 400 (lit "Problem marshalling data")), bailout)
  else
    let res : PendingCall :=
      { callid := s.callid, o := o, path := pendingPath mountpoint s.callid
        isAsync := isAsync, request := q }
    let s := { s with callid := wrapS 32 (s.callid + 1) }
    if started = false then some (s.send q (.error 500 (lit "Failed to start aura call")), bailout)
    else
      let s := s.addCall res
      some (if isAsync then s.send q (.accepted res.path) else s,
        { held with auraBuffers := held.auraBuffers - 1 })

/-- `issue_call`: the arguments are put behind `ahttpd_call_create` only. -/
def issueCallHeld (s : Nodefs) (held : Held) (tbl : Option ExportTable) (q : Request)
    (request : CallRequest) (name : Bytes) (isAsync started : Bool) : Option (Nodefs × Held) :=
  if request.command ≠ .get ∧ request.command ≠ .put then
    some (s.send q (.error 405 (lit "Method not allowed. Check ur docs")), held)
  else
    match extractJsonFromRequest L request with
    | none => some (s.send q (.error 400 (lit "Failed to extract request data")), held)
    | some args => do
      let held := { held with jsonObjects := held.jsonObjects + 1 }
      let tbl ← tbl
      match tbl.find name with
      | none => some (s.send q (.error 400 (lit "Failed to locate find method in etable")), held)
      | some o => do
        let (s, held) ←
          ahttpdCallCreateHeld L.codes L.wire mpoint.mountpoint s held q o args isAsync started
        some (s, { held with jsonObjects := held.jsonObjects - 1 })

end AuraHttpd
