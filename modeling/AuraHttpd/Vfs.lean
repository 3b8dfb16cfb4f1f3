import AuraHttpd.Evhttp

/-!
# Mountpoints and their paths

`ahttpd_add_path` and `ahttpd_del_path` of `utils.c`.  A registered path holds a callback and its
argument; the arguments are mountpoints, their data, and records that belong to one.
-/

namespace AuraHttpd

open CString

abbrev MpId := ℕ

/-- The place of a record in the heap. -/
abbrev RecId := ℕ

/-- The callbacks registered for paths. -/
inductive Callback where
  | version | fstab | terminate
  | issueCallSyncCb | issueCallAsyncCb | exports | events | status | resourceReadout
  | upload | rqListBuffers | rqDownloadBuffer | rqDropBuffer
  deriving DecidableEq, Repr

/-- The argument of a callback: a mountpoint, its `fsdata`, a pending call or a stored buffer. -/
inductive CbArg where
  | mpoint (mp : MpId)
  | fsdata (mp : MpId)
  | call (mp : MpId) (res : RecId)
  | buffer (mp : MpId) (buf : RecId)
  deriving DecidableEq, Repr

/-- The mountpoint an argument is, is the data of, or belongs to. -/
def CbArg.owner : CbArg → MpId
  | mpoint mp | fsdata mp | call mp _ | buffer mp _ => mp

structure Handler where
  cb : Callback
  arg : CbArg
  deriving DecidableEq, Repr

abbrev Routes := RouteTable Handler

/-- What of `struct ahttpd_mountpoint` paths are made from. -/
structure Mpoint where
  id : MpId
  mountpoint : Bytes
  deriving DecidableEq, Repr

variable (mpoint : Mpoint)

/-- `ahttpd_add_path`. -/
def ahttpdAddPath (routes : Routes) (path : Bytes) (cb : Callback) (arg : CbArg) : Routes :=
  routes.set (mpoint.mountpoint ++ path) ⟨cb, arg⟩

/-- `ahttpd_del_path`. -/
def ahttpdDelPath (routes : Routes) (path : Bytes) : Routes :=
  routes.del (mpoint.mountpoint ++ path)

end AuraHttpd
