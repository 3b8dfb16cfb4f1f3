import AuraHttpd.CallResource
import AuraHttpd.Vfs

/-!
# Node mountpoints

`fs_node.c`.  A node publishes the objects of its export table: a listing of them, and two paths
for each that issue calls.  Aura tells of a new table through `etbl_changed_cb`, with the old one;
the JSON of the listing is made and released there.  `NodeFs` puts this beside the pending calls of
`Nodefs` and the events aura has queued.  As there, what is released stays readable in the model
and `stale` logs what was served of it; an abort through `BUG` ends the run.
-/

namespace AuraHttpd

open CString

/-- What the model takes from libaura, libevent and json-c. -/
structure NodeLibs where
  codes : UrpcCodes
  wire : AuraWire
  objectIsEvent : AuraObject → Bool
  objectIsMethod : AuraObject → Bool
  /-- `evhttp_uridecode`, null where memory runs out. -/
  uridecode : Bytes → Option Bytes
  /-- `json_tokener_parse_verbose`, nothing where it reports an error. -/
  jsonParse : Bytes → Option Json

/-- How many events `aura_enable_sync_events` has aura keep. -/
def syncEvents : ℕ := 100

variable (L : NodeLibs) (mpoint : Mpoint)

/-- `object_to_json`. -/
def objectToJson (o : AuraObject) : Option Json := do
  let ret := (Json.object []).objectAdd (lit "name") (.string o.name)
  let ret := ret.objectAdd (lit "id") (.int (Int64.ofInt o.id))
  let ret := ret.objectAdd (lit "type")
    (.string (if L.objectIsEvent o then lit "event" else lit "method"))
  let ret ←
    if L.objectIsMethod o then
      (ahttpdFormatToJson L.codes o.argFmt).map (ret.objectAdd (lit "afmt"))
    else some ret
  (ahttpdFormatToJson L.codes o.retFmt).map (ret.objectAdd (lit "rfmt"))

section Calls

/-- What the paths of sync and of async calls begin with, behind the mountpoint. -/
def callBase (isAsync : Bool) : Bytes := if isAsync then lit "/acall/" else lit "/call/"

/-- A request for a call: the command, the query and the body. -/
structure CallRequest where
  command : EvhttpCmd
  query : Option Bytes := none
  body : Bytes := []

/-- `extract_json_from_request`; null also where the text is that of a null. -/
def extractJsonFromRequest (request : CallRequest) : Option Json := do
  let jsonargs ← match request.command with
    | .get => request.query.bind L.uridecode
    | .put => some request.body
    | _ => none
  match L.jsonParse (cstr jsonargs) with
  | none | some .null => none
  | some j => some j

/-- `get_call_methodname`, which points behind the mountpoint and the base path.  Past the end of
the path there is nothing to point to. -/
def getCallMethodname (path basepath : Bytes) : Option Bytes :=
  if (mpoint.mountpoint ++ basepath).length ≤ path.length then
    some (path.drop (mpoint.mountpoint ++ basepath).length)
  else none

/-- `issue_call`; `started` is whether aura starts the call. -/
def issueCall (s : Nodefs) (tbl : Option ExportTable) (q : Request) (request : CallRequest)
    (name : Bytes) (isAsync started : Bool) : Option Nodefs :=
  if request.command ≠ .get ∧ request.command ≠ .put then
    some (s.send q (.error 405 (lit "Method not allowed. Check ur docs")))
  else
    match extractJsonFromRequest L request with
    | none => some (s.send q (.error 400 (lit "Failed to extract request data")))
    | some args => do
      let tbl ← tbl
      match tbl.find name with
      | none => some (s.send q (.error 400 (lit "Failed to locate find method in etable")))
      | some o => ahttpdCallCreate L.codes L.wire mpoint.mountpoint s q o args isAsync started

end Calls

section Paths

/-- The path that issues a call of an object. -/
def callPath (isAsync : Bool) (name : Bytes) : Bytes := callBase isAsync ++ name

/-- The callback of such a path. -/
def issueCallCb (isAsync : Bool) : Callback :=
  if isAsync then .issueCallAsyncCb else .issueCallSyncCb

/-- `callpath_add`. -/
def callpathAdd (routes : Routes) (o : AuraObject) : Routes :=
  let routes :=
    ahttpdAddPath mpoint routes (callPath false o.name) (issueCallCb false) (.mpoint mpoint.id)
  ahttpdAddPath mpoint routes (callPath true o.name) (issueCallCb true) (.mpoint mpoint.id)

/-- `callpath_delete`. -/
def callpathDelete (routes : Routes) (o : AuraObject) : Routes :=
  let routes := ahttpdDelPath mpoint routes (callPath false o.name)
  ahttpdDelPath mpoint routes (callPath true o.name)

/-- The part of a node's state that follows its export table: `node->tbl`, `nd->etable` as an index
into the arrays made so far, and the registered paths. -/
structure NodeTable where
  tbl : Option ExportTable := none
  etable : Option ℕ := none
  arrays : List (List Json) := []
  released : List ℕ := []
  stale : List ℕ := []
  routes : Routes

/-- `etable_delete_callpaths`. -/
def etableDeleteCallpaths (t : NodeTable) (old : Option ExportTable) : NodeTable :=
  let t := match t.etable with
    | some e => { t with released := t.released ++ [e] }
    | none => t
  match old with
  | none => t
  | some old => { t with routes := old.objects.foldl (callpathDelete mpoint) t.routes }

/-- `etable_create_callpaths`. -/
def etableCreateCallpaths (t : NodeTable) (new : Option ExportTable) : Option NodeTable :=
  match new with
  | none => some t
  | some new => do
    let entries ← new.objects.mapM (objectToJson L)
    some { t with
      etable := some t.arrays.length
      arrays := t.arrays ++ [entries]
      routes := new.objects.foldl (callpathAdd mpoint) t.routes }

/-- `etbl_changed_cb`. -/
def etblChangedCb (t : NodeTable) (old new : Option ExportTable) : Option NodeTable :=
  etableCreateCallpaths L mpoint (etableDeleteCallpaths mpoint t old) new

/-- What `exports` serialises. -/
def exports (t : NodeTable) : Json × NodeTable :=
  match t.etable with
  | none => (.null, t)
  | some e => (.array (t.arrays.getD e []),
      if e ∈ t.released then { t with stale := t.stale ++ [e] } else t)

end Paths

section Events

/-- The entry of `events` for one event. -/
def eventToJson (evt : AuraObject × AuraBuffer) : Option Json := do
  let (jd, _) ← ahttpdBufferToJson L.codes L.wire evt.2 evt.1.retFmt
  let ret := (Json.object []).objectAdd (lit "id") (.int (Int64.ofInt evt.1.id))
  let ret := ret.objectAdd (lit "name") (.string evt.1.name)
  some (ret.objectAdd (lit "data") jd)

/-- The loop of `events` from the index `i` on: the list and what is left in the queue. -/
def eventsLoop (i : ℕ) (list : List Json) :
    List (AuraObject × AuraBuffer) → Option (List Json × List (AuraObject × AuraBuffer))
  | [] => some (list, [])
  | evt :: queue =>
    if i < (evt :: queue).length then do
      let jo ← eventToJson L evt
      eventsLoop (i + 1) (list ++ [jo]) queue
    else some (list, evt :: queue)

end Events

/-- A mounted node: its pending calls, what follows its export table, the events aura has queued,
and the JSON sent for requests of its fixed paths. -/
structure NodeFs where
  calls : Nodefs := {}
  table : NodeTable
  queue : List (AuraObject × AuraBuffer) := []
  replies : List (Request × Json) := []

/-- `node_mount`, of a node that opens. -/
def nodeMount (routes : Routes) : NodeFs where
  table :=
    let routes := ahttpdAddPath mpoint routes (lit "/exports") .exports (.fsdata mpoint.id)
    let routes := ahttpdAddPath mpoint routes (lit "/events") .events (.fsdata mpoint.id)
    { routes := ahttpdAddPath mpoint routes (lit "/status") .status (.fsdata mpoint.id) }

/-- What can happen to a mounted node. -/
inductive NodeEvent where
  | etblChanged (new : Option ExportTable)
  | exports (c : Conn)
  | arrive (o : AuraObject) (buf : AuraBuffer)
  | events (c : Conn)
  | issueCall (c : Conn) (request : CallRequest) (path : Bytes) (isAsync started : Bool)
  | call (e : CallEvent)

/-- One event.  A notification brings as its old table the one told before; calls are created by
`issue_call` only; aura queues no event past its limit. -/
def nodeStep (s : NodeFs) : NodeEvent → Option NodeFs
  | .etblChanged new =>
    if s.calls.mounted then do
      let table ← etblChangedCb L mpoint s.table s.table.tbl new
      some { s with table := { table with tbl := new } }
    else none
  | .exports c =>
    if s.calls.mounted ∧ c ∈ s.calls.conns then
      let (reply, table) := exports s.table
      some { s with
        calls := s.calls.nextRequest
        table := table
        replies := s.replies ++ [(s.calls.request c, reply)] }
    else none
  | .arrive o buf =>
    if s.queue.length < syncEvents then some { s with queue := s.queue ++ [(o, buf)] } else none
  | .events c =>
    if s.calls.mounted ∧ c ∈ s.calls.conns then do
      let (list, queue) ← eventsLoop L 0 [] s.queue
      some { s with
        calls := s.calls.nextRequest
        queue := queue
        replies := s.replies ++ [(s.calls.request c, .array list)] }
    else none
  | .issueCall c request path isAsync started =>
    if s.calls.mounted ∧ c ∈ s.calls.conns then do
      let name ← getCallMethodname mpoint path (callBase isAsync)
      let calls ← issueCall L mpoint s.calls.nextRequest s.table.tbl (s.calls.request c) request
        name isAsync started
      some { s with calls := calls }
    else none
  | .call (.create ..) => none
  | .call e => do
    let calls ← callStep L.codes L.wire mpoint.mountpoint s.calls e
    some { s with calls := calls }

end AuraHttpd
