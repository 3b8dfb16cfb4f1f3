import AuraHttpd.FsNode
import AuraHttpd.Lib.Percent

/-!
# Clients of a node

`www/aura.js` at work on a server without static mountpoints: `auraCall`, and `auraCallAsync` with
the polling of `doPollForResult`, any number of them at a time, beside whatever else happens to the
node.  The server handles a request when it is sent; the answer is under way until the client
receives it, and the timer between two polls runs as long as it takes.  A member that an answer does
not have is undefined, which is null here.
-/

namespace AuraHttpd

open CString

/-- What a handler is called with: the status and the data of an answer, or what went wrong. -/
inductive Outcome where
  | success (data : Json)
  | error (err : Bytes)

/-- A call of the handler of a client; `arg` is undefined where it is not handed on. -/
structure Handled where
  client : ℕ
  outcome : Outcome
  arg : Option Json

/-- What a client waits for: the answer to its call, the timer of the next poll, or the answer to a
poll. -/
inductive Phase where
  | calling
  | waiting (loc : Bytes)
  | polling (loc : Bytes) (q : Request)
  | finished
  deriving DecidableEq

/-- An `auraCallAsync` or an `auraCall`, and the request it has sent; `handler` is whether the
handler is a function. -/
structure Client where
  isAsync : Bool
  method : Bytes
  arg : Json
  handler : Bool
  request : Request
  phase : Phase := .calling

/-- A node, the requests that came to no callback, the clients, and the calls of their handlers. -/
structure Web where
  node : NodeFs
  notFound : List Request := []
  clients : List Client := []
  handled : List Handled := []

/-- What comes of an answer: what the client waits for next, and how its handler is called. -/
abbrev Answered := Phase × Option (Outcome × Option Json)

/-- The callbacks of `auraCall`.  No member of a null can be read. -/
def auraCallAnswered (arg : Json) : Reply → Answered
  | .error _ reason => (.finished, some (.error reason, some arg))
  | .json .null => (.finished, none)
  | .json data => (.finished, some (.success (data.get (lit "data")), some arg))
  | .accepted _ | .data _ => (.finished, some (.success .null, some arg))

/-- The callbacks of `auraCallAsync`; `doPollForResult` is not handed `arg`. -/
def auraCallAsyncAnswered (arg : Json) : Reply → Answered
  | .error _ reason => (.finished, some (.error reason, some arg))
  | .accepted loc => (.waiting loc, none)
  | .json _ | .data _ => (.finished, some (.error (lit "Expected 202, got 200"), some arg))

/-- The callback of `doPollForResult`, which has none for errors. -/
def pollAnswered (loc : Bytes) : Reply → Answered
  | .error _ _ | .json .null => (.finished, none)
  | .json data =>
    match data.get (lit "status") with
    | .string s =>
      if s = lit "pending" then (.waiting loc, none)
      else (.finished, some (.success (data.get (lit "data")), none))
    | _ => (.finished, some (.success (data.get (lit "data")), none))
  | .accepted _ | .data _ => (.finished, some (.success .null, none))

namespace Web

/-- The first answer to a request. -/
def answer (w : Web) (q : Request) : Option Reply :=
  match w.node.calls.sent.find? (·.1 = q) with
  | some a => some a.2.reply
  | none => if q ∈ w.notFound then some (.error 404 (lit "Not Found")) else none

/-- The client `k` goes on with `phase`. -/
def setPhase (w : Web) (k : ℕ) (cl : Client) (phase : Phase) : Web :=
  { w with clients := w.clients.set k { cl with phase := phase } }

/-- What comes of an answer comes to the client `k`. -/
def take (w : Web) (k : ℕ) (cl : Client) (a : Answered) : Web :=
  let w := w.setPhase k cl a.1
  match a.2 with
  | some (outcome, arg) =>
    if cl.handler then { w with handled := w.handled ++ [⟨k, outcome, arg⟩] } else w
  | none => w

/-- A request comes to no callback. -/
def miss (w : Web) (c : Conn) : Option Web :=
  if c ∈ w.node.calls.conns then
    some { w with
      node := { w.node with calls := w.node.calls.nextRequest }
      notFound := w.notFound ++ [w.node.calls.request c] }
  else none

end Web

variable (L : NodeLibs) (mpoint : Mpoint)

/-- What the path of a request is compared with. -/
def decodedPath (path : Bytes) : Bytes := cstr (percentDecode path)

/-- The request of `auraCall` or `auraCallAsync`, with the arguments in its body.  It is refused
where it comes to a callback that is not for calls of the node. -/
def Web.call (w : Web) (c : Conn) (isAsync : Bool) (method args : Bytes) (arg : Json)
    (handler started : Bool) : Option Web :=
  let path := mpoint.mountpoint ++ (callBase isAsync ++ method)
  let client : Client := { isAsync, method, arg, handler, request := w.node.calls.request c }
  let w' := { w with clients := w.clients ++ [client] }
  match w.node.table.routes.find (decodedPath path) with
  | none => if w.node.calls.routes.find (decodedPath path) = none then w'.miss c else none
  | some h =>
    if h = ⟨issueCallCb isAsync, .mpoint mpoint.id⟩ then do
      let node ← nodeStep L mpoint w.node (.issueCall c ⟨.put, none, args⟩ path isAsync started)
      some { w' with node := node }
    else none

/-- The request of `doPollForResult`. -/
def Web.poll (w : Web) (k : ℕ) (c : Conn) : Option Web := do
  let cl ← w.clients[k]?
  match cl.phase with
  | .waiting loc =>
    let w' := w.setPhase k cl (.polling loc (w.node.calls.request c))
    match w.node.calls.routes.find (decodedPath loc) with
    | none => w'.miss c
    | some _ => do
      let node ← nodeStep L mpoint w.node (.call (.readout c (decodedPath loc)))
      some { w' with node := node }
  | _ => none

/-- An answer arrives at the client that waits for it. -/
def Web.receive (w : Web) (k : ℕ) : Option Web := do
  let cl ← w.clients[k]?
  match cl.phase with
  | .calling => do
    let reply ← w.answer cl.request
    some (w.take k cl (if cl.isAsync then auraCallAsyncAnswered cl.arg reply
      else auraCallAnswered cl.arg reply))
  | .polling loc q => do
    let reply ← w.answer q
    some (w.take k cl (pollAnswered loc reply))
  | _ => none

/-- The connection breaks before the answer has arrived; there is no text then. -/
def Web.lost (w : Web) (k : ℕ) : Option Web := do
  let cl ← w.clients[k]?
  match cl.phase with
  | .calling => some (w.take k cl (.finished, some (.error [], some cl.arg)))
  | .polling _ _ => some (w.take k cl (.finished, none))
  | _ => none

inductive WebEvent where
  | node (e : NodeEvent)
  | call (c : Conn) (isAsync : Bool) (method args : Bytes) (arg : Json) (handler started : Bool)
  | poll (k : ℕ) (c : Conn)
  | receive (k : ℕ)
  | lost (k : ℕ)

/-- One event at the node or at a client. -/
def webStep (w : Web) : WebEvent → Option Web
  | .node e => (nodeStep L mpoint w.node e).map fun node => { w with node := node }
  | .call c isAsync method args arg handler started =>
    w.call L mpoint c isAsync method args arg handler started
  | .poll k c => w.poll L mpoint k c
  | .receive k => w.receive k
  | .lost k => w.lost k

/-- A node that has just been mounted, without clients. -/
def Web.start (routes : Routes) : Web := { node := nodeMount mpoint routes }

end AuraHttpd
