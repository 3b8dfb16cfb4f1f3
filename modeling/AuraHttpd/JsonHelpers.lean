import AuraHttpd.Json

/-!
# Parameters of a configuration section

`json-helpers.c`.  A section is an object; a value that is null is a null pointer, and so not
there.  The text, truth and number of a value that is not of that type are json-c's.
-/

namespace AuraHttpd

open CString

/-- What of json-c the parameters go through. -/
structure JsonLib where
  /-- `json_object_to_json_string`. -/
  toJsonString : Json → Bytes
  /-- `json_object_get_boolean`. -/
  getBoolean : Json → Bool
  /-- `json_object_get_int64`. -/
  getInt64 : Json → Int64

/-- json-c on texts and truth values. -/
def JsonLib.plain : JsonLib where
  toJsonString
    | .bool true => lit "true"
    | .bool false => lit "false"
    | _ => lit "null"
  getBoolean
    | .bool b => b
    | _ => false
  getInt64 := Json.getInt64

/-- How a mount ends the process. -/
inductive MountFault where
  | bug
  | nullString
  | beforeStart
  deriving DecidableEq, Repr

/-- `json_array_find`. -/
def jsonArrayFind (o : Json) (k : Bytes) : Option Json :=
  match o.get k with
  | .null => none
  | j => some j

variable (J : JsonLib)

/-- `json_object_get_string`. -/
def jsonObjectGetString : Json → Bytes
  | .string s => cstr s
  | j => J.toJsonString j

/-- `json_array_find_string`. -/
def jsonArrayFindString (o : Json) (k : Bytes) : Option Bytes :=
  (jsonArrayFind o k).map (jsonObjectGetString J)

/-- `json_array_find_number`. -/
def jsonArrayFindNumber (o : Json) (k : Bytes) : Int64 :=
  ((jsonArrayFind o k).map J.getInt64).getD (-1)

/-- `json_array_find_boolean`. -/
def jsonArrayFindBoolean (o : Json) (k : Bytes) : Bool :=
  ((jsonArrayFind o k).map J.getBoolean).getD false

/-- `kill_trailing_slash`, and what `cfs_mount` does to its directory: the last character is looked
at. -/
def killTrailingSlash : Bytes → Except MountFault Bytes
  | [] => .error .beforeStart
  | s => .ok (if s.getLast? = some 47 then s.dropLast else s)

end AuraHttpd
