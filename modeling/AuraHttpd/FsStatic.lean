import AuraHttpd.JsonHelpers
import AuraHttpd.Mime
import AuraHttpd.Vfs

/-!
# Static mountpoints

`fs_static.c`.  Of a request there is its URI, what was done with a path for it, the headers of its
answer and the answers sent.  What the system calls tell may differ from one call to the next, and
no path is given to one of them twice.
-/

namespace AuraHttpd

open CString

/-- The functions that list a directory. -/
inductive DirIndex where
  | indexNone | indexJson | indexHtml
  deriving DecidableEq, Repr

/-- `struct staticfs_data`. -/
structure StaticfsData where
  htdocs : Bytes
  index : Option Bytes := none
  dirindexfunc : DirIndex := .indexNone
  deriving DecidableEq, Repr

def dirindextypes : List (Bytes × DirIndex) :=
  [(lit "none", .indexNone), (lit "json", .indexJson), (lit "html", .indexHtml)]

/-- `cfs_mount` of the static filesystem. -/
def staticMount (J : JsonLib) (props : Json) : Except MountFault StaticfsData :=
  match jsonArrayFindString J props (lit "dir") with
  | none => .error .nullString
  | some dir => do
    let htdocs ← killTrailingSlash dir
    let dirindex := jsonArrayFindString J props (lit "dirlist")
    .ok {
      htdocs := htdocs
      index := jsonArrayFindString J props (lit "index")
      dirindexfunc := (dirindex.bind fun name =>
        (dirindextypes.find? (·.1 = name)).map Prod.snd).getD .indexNone }

/-- `struct dirent`. -/
structure Dirent where
  dName : Bytes
  dType : ℕ
  deriving DecidableEq, Repr

/-- What the router is told from outside. -/
structure StaticLibs where
  /-- Whether there is memory for the path, and for that of the index. -/
  path : Bool := true
  ipath : Bool := true
  /-- `stat`: the `st_mode`. -/
  stat : Bytes → Option ℕ
  /-- `fopen`: what `ftell` tells at the end of the file. -/
  fopen : Bytes → Option ℤ
  /-- `open`: what `evbuffer_add_file` takes from the file, by the size it is given. -/
  openRdonly : Bytes → Option (ℤ → Bytes)
  /-- `opendir`: what `readdir` comes to. -/
  opendir : Bytes → Option (List Dirent)
  /-- `aura_get_version`. -/
  version : Bytes := []

/-- What the router does with a path. -/
inductive PathUse where
  | stat (path : Bytes)
  | serveFile (path mimetype : Bytes)
  | dirindexfunc (path rdir : Bytes)
  deriving DecidableEq, Repr

def PathUse.path : PathUse → Bytes
  | stat path | serveFile path _ | dirindexfunc path _ => path

structure StaticRequest where
  uri : Bytes
  uses : List PathUse := []
  headers : List (Bytes × Bytes) := []
  replies : List Reply := []

namespace StaticRequest

def use (r : StaticRequest) (u : PathUse) : StaticRequest := { r with uses := r.uses ++ [u] }

def addHeader (r : StaticRequest) (key value : Bytes) : StaticRequest :=
  { r with headers := r.headers ++ [(key, value)] }

def reply (r : StaticRequest) (reply : Reply) : StaticRequest :=
  { r with replies := r.replies ++ [reply] }

/-- `evhttp_send_error`. -/
def sendError (r : StaticRequest) (code : ℕ) (reason : Bytes) : StaticRequest :=
  r.reply (.error code reason)

end StaticRequest

variable (libs : StaticLibs)

/-- `index_none`. -/
def indexNone (request : StaticRequest) : StaticRequest := request.sendError 403 (lit "GTFO")

/-- An entry of `index_json`; the type is tested for the bits of `DT_DIR`. -/
def direntJson (ent : Dirent) : Json := .object [(lit "is_dir", .bool (ent.dType &&& 4 ≠ 0))]

/-- `index_json`. -/
def indexJson (request : StaticRequest) (dpath : Bytes) : StaticRequest :=
  match libs.opendir dpath with
  | none => request
  | some ents =>
    request.reply (.json
      (ents.foldl (fun root ent => root.objectAdd ent.dName (direntJson ent)) (.object [])))

/-- An entry of `index_html`, which hides dotfiles. -/
def direntHtml (ent : Dirent) : Bytes :=
  if strncmp ent.dName (lit ".") 1 = .eq then []
  else lit "&middot; <a href=\"" ++ ent.dName ++ lit "\">" ++ ent.dName ++ lit "</a><br>"

/-- `index_html`. -/
def indexHtml (request : StaticRequest) (dpath rdir : Bytes) : StaticRequest :=
  match libs.opendir dpath with
  | none => request
  | some ents =>
    request.reply (.data (lit "<h3>Directory listing for " ++ rdir ++ lit "</h3><hr>"
      ++ ents.flatMap direntHtml ++ lit "<hr>Powered by aura-httpd " ++ libs.version))

/-- The `dirindexfunc` of a mountpoint. -/
def DirIndex.dirindexfunc (request : StaticRequest) (dpath rdir : Bytes) :
    DirIndex → StaticRequest
  | .indexNone => AuraHttpd.indexNone request
  | .indexJson => AuraHttpd.indexJson libs request dpath
  | .indexHtml => AuraHttpd.indexHtml libs request dpath rdir

/-- `serve_file`: what it returns, and the request. -/
def serveFile (request : StaticRequest) (dpath mimetype : Bytes) : ℤ × StaticRequest :=
  match libs.fopen dpath with
  | none => (-1, request)
  | some sz =>
    match libs.openRdonly dpath with
    | none => (-1, request)
    | some file =>
      (0, (request.addHeader (lit "Content-Type") mimetype).reply (.data (file sz)))

/-- `S_ISDIR`. -/
def sIsdir (mode : ℕ) : Bool := mode &&& 0o170000 = 0o040000

/-- The call of `dirindexfunc` at the end of the branch for directories. -/
def routerDirindex (fsd : StaticfsData) (path : Bytes) (r : StaticRequest) : StaticRequest :=
  fsd.dirindexfunc.dirindexfunc libs (r.use (.dirindexfunc path r.uri)) path r.uri

/-- `router`. -/
def router (fsd : StaticfsData) (mpoint : Mpoint) (r : StaticRequest) : StaticRequest :=
  let uri := r.uri.drop mpoint.mountpoint.length
  if libs.path = false then
    r.sendError 500 (lit "Internal server fuckup. That's all I know")
  else
    let path := fsd.htdocs ++ 47 :: uri
    let r := r.use (.stat path)
    match libs.stat path with
    | none => r.sendError 404 (lit "We searched hard but never found love")
    | some mode =>
      if sIsdir mode then
        match fsd.index with
        | none => routerDirindex libs fsd path r
        | some index =>
          if libs.ipath = false then
            r.sendError 500 (lit "Internal server fuckup. That's all I know")
          else
            let ipath := path ++ 47 :: index
            let mimetype := lit "text/html; charset=UTF-8"
            match serveFile libs (r.use (.serveFile ipath mimetype)) ipath mimetype with
            | (0, r) => r
            | (_, r) => routerDirindex libs fsd path r
      else
        let mimetype := ahttpdMimeGuess ahttpdMimeInit path
        (serveFile libs (r.use (.serveFile path mimetype)) path mimetype).2

end AuraHttpd
