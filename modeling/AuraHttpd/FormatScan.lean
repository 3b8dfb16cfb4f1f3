import AuraHttpd.Format
import AuraHttpd.Lib.Script

/-!
# The scanners of a format

A format is a list of tokens, the fields and `URPC_BUF`.  Which elements the writing loop looks at
and what it puts depends on the arguments alone, not on the buffer: `marshal` is that loop by
itself, with a mark for each turn, and a buffer only plays its puts.
-/

namespace AuraHttpd

open CString Script

inductive Token where
  | field (f : Field)
  | buf
  deriving DecidableEq, Repr

namespace Token

def text (C : UrpcCodes) : Token → Bytes
  | field f => f.text C
  | buf => [C.buf]

/-- How `ahttpd_format_to_json` names a token. -/
def described : Token → Json
  | field (.int t) => .string t.cname
  | field (.bin n _) => .object [(lit "binary", .int (Int64.ofInt n))]
  | buf => .string (lit "buffer")

/-- The bytes `ahttpd_buffer_to_json` fetches for a token. -/
def fetched : Token → ℕ
  | field (.int t) => t.size
  | field (.bin _ _) | buf => 0

/-- What `ahttpd_buffer_to_json` may make of a token. -/
def Shown : Token → Json → Prop
  | field (.int _), j => ∃ v, j = .int v
  | field (.bin _ _), j | buf, j => j = .string (lit "buffer")

end Token

/-- The text of a format. -/
def tokensText (C : UrpcCodes) (ts : List Token) : Bytes := ts.flatMap (Token.text C)

/-- The bytes `ahttpd_buffer_to_json` fetches. -/
def tokensFetched (ts : List Token) : ℕ := (ts.map Token.fetched).sum

/-- What the writing loop does: a turn starts with what is left of the format, an element of the
array is looked at, bytes are put. -/
inductive MarshalAct where
  | turn (fmt : Bytes)
  | look (i : ℕ)
  | put (bs : Bytes)
  deriving DecidableEq, Repr

namespace MarshalAct

/-- The bytes an act puts. -/
def written : MarshalAct → ℕ
  | put bs => bs.length
  | turn _ | look _ => 0

def isTurn : MarshalAct → Bool
  | turn _ => true
  | look _ | put _ => false

def isPut : MarshalAct → Bool
  | put _ => true
  | turn _ | look _ => false

end MarshalAct

/-- One turn for each token, which looks at the next element. -/
def oneTurnEach (C : UrpcCodes) : List Token → ℕ → List MarshalAct
  | [], _ => []
  | t :: ts, i => .turn (tokensText C (t :: ts)) :: .look i :: oneTurnEach C ts (i + 1)

/-- The bytes put by the acts. -/
def bytesPut (acts : List MarshalAct) : ℕ := (acts.map MarshalAct.written).sum

/-- The tokens whose turn has come. -/
def turnsOf (acts : List MarshalAct) : ℕ := acts.countP MarshalAct.isTurn

/-- No more bytes are put than the fields hold whose turn has come, wherever the acts are cut
off. -/
def Within (fs : List Field) (acts : List MarshalAct) : Prop :=
  ∀ as, as <+: acts → bytesPut as ≤ fieldsSize (fs.take (turnsOf as))

/-- An abort, of the loop itself or of libaura in a put. -/
inductive Abort where
  | bug
  | libaura
  deriving DecidableEq, Repr

variable (C : UrpcCodes) (W : AuraWire)

/-- The loop of `ahttpd_buffer_from_json` by itself. -/
def marshal (json : Json) (fmt : Bytes) (i : ℕ) : Script MarshalAct Abort ℤ :=
  match fmt with
  | [] => pure 0
  | c :: fmt => do
    emit (.turn (c :: fmt))
    match C.case c with
    | some (.int t) => do
      emit (.look i)
      let tmp := json.arrayGetIdx i
      if tmp.type = .int then do
        emit (.put (W.put t (t.store tmp.getInt64.toInt)))
        marshal json fmt (i + 1)
      else pure (-1)
    | some .buf => fault .bug
    | some .bin => do
      emit (.look i)
      match json.arrayGetIdx i with
      | .string s => do
        let str := Json.stringText s
        let tocopy := min (str.length : ℤ) (atoi fmt)
        if 0 ≤ tocopy then do
          emit (.put (str.take tocopy.toNat))
          marshal json (skipDot fmt) (i + 1)
        else fault .libaura
      | _ => marshal json (skipDot fmt) (i + 1)
    | none => marshal json fmt i
termination_by fmt.length
decreasing_by
  all_goals
    have := length_skipDot_le fmt
    simp only [List.length_cons]
    omega

/-- An act on the buffer. -/
def AuraBuffer.act (buf : AuraBuffer) : MarshalAct → Except Abort AuraBuffer
  | .put bs => match buf.putBytes bs with
    | some buf => .ok buf
    | none => .error .libaura
  | .turn _ | .look _ => .ok buf

/-- The acts are done to the buffer. -/
def AuraBuffer.acts (buf : AuraBuffer) (as : List MarshalAct) : Except Abort AuraBuffer :=
  Script.replay AuraBuffer.act (fun _ => false) buf as

/-- What comes of a script whose acts are done to the buffer: its result and the buffer as it is
left. -/
def AuraBuffer.after {α : Type} (buf : AuraBuffer) (x : Script MarshalAct Abort α) :
    Option (α × AuraBuffer) :=
  (Script.play AuraBuffer.act (fun _ => false) buf x).toOption.bind fun r => r.2.map (·, r.1)

/-- `ahttpd_buffer_from_json` by itself. -/
def marshalArgs (json : Json) (fmt : Option Bytes) : Script MarshalAct Abort ℤ :=
  if json.type ≠ .array then pure (-1)
  else match fmt with
    | none => pure 0
    | some fmt => marshal C W json fmt 0

end AuraHttpd
