import AuraHttpd.Serdes
import AuraHttpd.Vfs
import AuraHttpd.Lib.Run

/-!
# Pending calls of a node mountpoint

`call_resource.c`, with the parts of libevent and aura that hold on to a call's record: the route
of its path, the close callback of a connection (one per connection, a later one replaces it) and
the argument of the completion callback.

Records live in a heap indexed by `RecId`.  What the code frees stays readable in the model:
`deleted` logs each run of `ahttpd_call_delete`, and `stale` each route handler, close callback
or completion callback that was run on a record deleted before; a run goes on past it with the
old contents.  An abort through `BUG` ends the run.
-/

namespace AuraHttpd

open CString

abbrev Conn := ℕ

/-- A request, by its number, and the connection it came in on. -/
structure Request where
  id : ℕ
  conn : Conn
  deriving DecidableEq, Repr

/-- The two texts `resource_status` points to. -/
inductive ResourceStatus where
  | pending | dead
  deriving DecidableEq, Repr

def ResourceStatus.text : ResourceStatus → Bytes
  | pending => lit "pending"
  | dead => lit "dead"

/-- `struct ahttpd_pending_call`. -/
structure PendingCall where
  callid : ℤ
  o : AuraObject
  path : Bytes
  isAsync : Bool
  request : Request
  retbuf : Option Json := none
  resourceStatus : ResourceStatus := .pending

/-- The close callbacks the server sets on connections, with their argument. -/
inductive CloseCb where
  | connCloseCb (res : RecId)
  | terminateRqCloseCb
  deriving DecidableEq, Repr

/-- What a request was answered with; an answer out of a call's record names the record. -/
inductive Answer where
  | result (res : RecId) (retbuf : Json)
  | status (res : RecId) (s : ResourceStatus)
  | accepted (location : Bytes)
  | error (code : ℕ) (reason : Bytes)

namespace Answer

def reply : Answer → Reply
  | result _ j => .json j
  | status _ s => .json (.object [(lit "status", .string s.text)])
  | accepted l => .accepted l
  | error c m => .error c m

/-- The record a readout or a completion answered from. -/
def about : Answer → Option RecId
  | result r _ | status r _ => some r
  | accepted _ | error _ _ => none

end Answer

/-- A node mountpoint (`struct nodefs_data`) with the heap of its records, the route table, the
connections, and aura's calls in flight. -/
structure Nodefs where
  pendingCallList : List RecId := []
  gcCallList : List RecId := []
  callid : ℤ := 0
  records : RecId → Option PendingCall := fun _ => none
  next : RecId := 0
  routes : RouteTable RecId := .empty
  closecb : Conn → Option CloseCb := fun _ => none
  conns : List Conn := []
  accepted : ℕ := 0
  inflight : List RecId := []
  mounted : Bool := true
  requests : ℕ := 0
  sent : List (Request × Answer) := []
  deleted : List RecId := []
  stale : List RecId := []

variable (C : UrpcCodes) (W : AuraWire) (mountpoint : Bytes)

namespace Nodefs

/-- A callback starts on a record. -/
def enter (s : Nodefs) (r : RecId) : Nodefs :=
  if r ∈ s.deleted then { s with stale := s.stale ++ [r] } else s

def send (s : Nodefs) (q : Request) (a : Answer) : Nodefs := { s with sent := s.sent ++ [(q, a)] }

/-- `evhttp_connection_set_closecb`. -/
def setClosecb (s : Nodefs) (c : Conn) (cb : CloseCb) : Nodefs :=
  { s with closecb := Function.update s.closecb c (some cb) }

def setRecord (s : Nodefs) (r : RecId) (res : PendingCall) : Nodefs :=
  { s with records := Function.update s.records r (some res) }

/-- A started call takes a place in the heap, and its record is put where others find it. -/
def addCall (s : Nodefs) (res : PendingCall) : Nodefs :=
  { s with
    records := Function.update s.records s.next (some res)
    next := s.next + 1
    inflight := s.inflight ++ [s.next]
    routes := s.routes.set res.path s.next
    pendingCallList := s.pendingCallList ++ [s.next] }

/-- `list_del` followed by `list_add_tail` to the garbage list. -/
def moveToGc (s : Nodefs) (r : RecId) : Nodefs :=
  { s with
    pendingCallList := s.pendingCallList.erase r
    gcCallList := s.gcCallList.erase r ++ [r] }

/-- The next request on a connection. -/
def request (s : Nodefs) (c : Conn) : Request := ⟨s.requests, c⟩

def nextRequest (s : Nodefs) : Nodefs := { s with requests := s.requests + 1 }

end Nodefs

/-- `ahttpd_call_delete`. -/
def ahttpdCallDelete (s : Nodefs) (r : RecId) : Nodefs :=
  match s.records r with
  | none => s
  | some res =>
    { s with
      pendingCallList := s.pendingCallList.erase r
      gcCallList := s.gcCallList.erase r
      routes := s.routes.del res.path
      deleted := s.deleted ++ [r] }

/-- `conn_close_cb`. -/
def connCloseCb (s : Nodefs) (r : RecId) : Nodefs := ahttpdCallDelete (s.enter r) r

/-- `resource_readout`. -/
def resourceReadout (s : Nodefs) (q : Request) (r : RecId) : Option Nodefs := do
  let res ← s.records r
  let s := s.enter r
  match res.retbuf with
  | some retbuf =>
    let s := (s.send q (.result r retbuf)).moveToGc r
    let s := s.setRecord r { res with resourceStatus := .dead }
    some (s.setClosecb q.conn (.connCloseCb r))
  | none => some (s.send q (.status r res.resourceStatus))

/-- `call_result_to_json`, which is handed the result code and does not look at it. -/
def callResultToJson (_result : ℤ) (o : AuraObject) (retbuf : Option AuraBuffer) : Option Json :=
  let ret := (Json.object []).objectAdd (lit "status") (.string (lit "completed"))
  match retbuf with
  | none => some ret
  | some retbuf =>
    (ahttpdBufferToJson C W retbuf o.retFmt).map fun r => ret.objectAdd (lit "data") r.1

/-- `call_completed_cb`.  The connection of a request is null once it was closed, and then the
code aborts. -/
def callCompletedCb (s : Nodefs) (r : RecId) (result : ℤ) (retbuf : Option AuraBuffer) :
    Option Nodefs := do
  let res ← s.records r
  let s := s.enter r
  let j ← callResultToJson C W result res.o retbuf
  let s := s.setRecord r { res with retbuf := some j }
  if res.isAsync then some s
  else if res.request.conn ∈ s.conns then
    some ((s.send res.request (.result r j)).setClosecb res.request.conn (.connCloseCb r))
  else none

/-- `ahttpd_callresource_cleanup`. -/
def ahttpdCallresourceCleanup (s : Nodefs) : Nodefs :=
  let s := s.pendingCallList.foldl ahttpdCallDelete s
  s.gcCallList.foldl ahttpdCallDelete s

/-- The path of a call's temporary resource. -/
def pendingPath (callid : ℤ) : Bytes := mountpoint ++ lit "/pending/" ++ fmtD callid

/-- `ahttpd_call_create`; `started` is whether `aura_core_start_call` returned zero.  A record
that is freed again before anything points to it takes no place in the heap. -/
def ahttpdCallCreate (s : Nodefs) (q : Request) (o : AuraObject) (args : Json) (isAsync : Bool)
    (started : Bool) : Option Nodefs := do
  let buf : AuraBuffer := { data := List.replicate o.arglen 0 }
  let (ret, _) ← ahttpdBufferFromJson C W buf args o.argFmt
  if ret ≠ 0 then some (s.send q (.error 400 (lit "Problem marshalling data")))
  else
    let res : PendingCall :=
      { callid := s.callid, o := o, path := pendingPath mountpoint s.callid
        isAsync := isAsync, request := q }
    let s := { s with callid := wrapS 32 (s.callid + 1) }
    if started = false then some (s.send q (.error 500 (lit "Failed to start aura call")))
    else
      let s := s.addCall res
      some (if isAsync then s.send q (.accepted res.path) else s)

/-- What can happen to a node mountpoint and the connections of its server. -/
inductive CallEvent where
  | accept
  | create (c : Conn) (o : AuraObject) (args : Json) (isAsync started : Bool)
  | complete (r : RecId) (result : ℤ) (retbuf : Option AuraBuffer)
  | readout (c : Conn) (path : Bytes)
  | terminate (c : Conn)
  | close (c : Conn)
  | unmount

/-- One event.  It is refused (`none`) where it cannot happen, a request on a connection that is
not open, a completion of a call that is not in flight, anything but closing connections after
the unmount, and where the code aborts. -/
def callStep (s : Nodefs) : CallEvent → Option Nodefs
  | .accept =>
    if s.mounted then
      some { s with conns := s.conns ++ [s.accepted], accepted := s.accepted + 1 }
    else none
  | .create c o args isAsync started =>
    if s.mounted ∧ c ∈ s.conns then
      ahttpdCallCreate C W mountpoint s.nextRequest (s.request c) o args isAsync started
    else none
  | .complete r result retbuf =>
    if s.mounted ∧ r ∈ s.inflight then
      callCompletedCb C W { s with inflight := s.inflight.erase r } r result retbuf
    else none
  | .readout c path =>
    if s.mounted ∧ c ∈ s.conns then do
      let r ← s.routes.find path
      resourceReadout s.nextRequest (s.request c) r
    else none
  | .terminate c =>
    if s.mounted ∧ c ∈ s.conns then
      some ((s.nextRequest.setClosecb c .terminateRqCloseCb).send (s.request c)
        (.error 503 (lit "Shutting down")))
    else none
  | .close c =>
    if c ∈ s.conns then
      let s' := { s with conns := s.conns.erase c }
      match s.closecb c with
      | some (.connCloseCb r) => some (connCloseCb s' r)
      | _ => some s'
    else none
  | .unmount =>
    if s.mounted then some (ahttpdCallresourceCleanup { s with mounted := false }) else none

end AuraHttpd
