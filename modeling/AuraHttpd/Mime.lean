import AuraHttpd.Lib.CString

/-!
# MIME types

`mime.c`.  The hash table of the C library is the list of its entries, in which entering a key that
is there changes nothing.
-/

namespace AuraHttpd

open CString

def mimedb : List (Bytes × Bytes) :=
  [ (lit ".pdf", lit "application/pdf"),
    (lit ".sig", lit "application/pgp-signature"),
    (lit ".spl", lit "application/futuresplash"),
    (lit ".class", lit "application/octet-stream"),
    (lit ".ps", lit "application/postscript"),
    (lit ".torrent", lit "application/x-bittorrent"),
    (lit ".dvi", lit "application/x-dvi"),
    (lit ".gz", lit "application/x-gzip"),
    (lit ".pac", lit "application/x-ns-proxy-autoconfig"),
    (lit ".swf", lit "application/x-shockwave-flash"),
    (lit ".tar.gz", lit "application/x-tgz"),
    (lit ".tgz", lit "application/x-tgz"),
    (lit ".tar", lit "application/x-tar"),
    (lit ".zip", lit "application/zip"),
    (lit ".mp3", lit "audio/mpeg"),
    (lit ".m3u", lit "audio/x-mpegurl"),
    (lit ".wma", lit "audio/x-ms-wma"),
    (lit ".wax", lit "audio/x-ms-wax"),
    (lit ".ogg", lit "application/ogg"),
    (lit ".wav", lit "audio/x-wav"),
    (lit ".gif", lit "image/gif"),
    (lit ".jpg", lit "image/jpeg"),
    (lit ".jpeg", lit "image/jpeg"),
    (lit ".png", lit "image/png"),
    (lit ".xbm", lit "image/x-xbitmap"),
    (lit ".xpm", lit "image/x-xpixmap"),
    (lit ".xwd", lit "image/x-xwindowdump"),
    (lit ".css", lit "text/css"),
    (lit ".html", lit "text/html"),
    (lit ".htm", lit "text/html"),
    (lit ".js", lit "text/javascript"),
    (lit ".asc", lit "text/plain"),
    (lit ".c", lit "text/plain"),
    (lit ".cpp", lit "text/plain"),
    (lit ".log", lit "text/plain"),
    (lit ".conf", lit "text/plain"),
    (lit ".text", lit "text/plain"),
    (lit ".txt", lit "text/plain"),
    (lit ".spec", lit "text/plain"),
    (lit ".dtd", lit "text/xml"),
    (lit ".xml", lit "text/xml"),
    (lit ".mpeg", lit "video/mpeg"),
    (lit ".mpg", lit "video/mpeg"),
    (lit ".mov", lit "video/quicktime"),
    (lit ".qt", lit "video/quicktime"),
    (lit ".avi", lit "video/x-msvideo"),
    (lit ".asf", lit "video/x-ms-asf"),
    (lit ".asx", lit "video/x-ms-asf"),
    (lit ".wmv", lit "video/x-ms-wmv"),
    (lit ".bz2", lit "application/x-bzip"),
    (lit ".tbz", lit "application/x-bzip-compressed-tar"),
    (lit ".tar.bz2", lit "application/x-bzip-compressed-tar"),
    (lit ".odt", lit "application/vnd.oasis.opendocument.text"),
    (lit ".ods", lit "application/vnd.oasis.opendocument.spreadsheet"),
    (lit ".odp", lit "application/vnd.oasis.opendocument.presentation"),
    (lit ".odg", lit "application/vnd.oasis.opendocument.graphics"),
    (lit ".odc", lit "application/vnd.oasis.opendocument.chart"),
    (lit ".odf", lit "application/vnd.oasis.opendocument.formula"),
    (lit ".odi", lit "application/vnd.oasis.opendocument.image"),
    (lit ".odm", lit "application/vnd.oasis.opendocument.text-master"),
    (lit ".ott", lit "application/vnd.oasis.opendocument.text-template"),
    (lit ".ots", lit "application/vnd.oasis.opendocument.spreadsheet-template"),
    (lit ".otp", lit "application/vnd.oasis.opendocument.presentation-template"),
    (lit ".otg", lit "application/vnd.oasis.opendocument.graphics-template"),
    (lit ".otc", lit "application/vnd.oasis.opendocument.chart-template"),
    (lit ".otf", lit "application/vnd.oasis.opendocument.formula-template"),
    (lit ".oti", lit "application/vnd.oasis.opendocument.image-template"),
    (lit ".oth", lit "application/vnd.oasis.opendocument.text-web") ]

/-- `hsearch_r` entering an entry. -/
def hsearchEnter (hs : List (Bytes × Bytes)) (item : Bytes × Bytes) : List (Bytes × Bytes) :=
  if hs.any (·.1 = item.1) then hs else hs ++ [item]

/-- `hsearch_r` looking for a key. -/
def hsearchFind (hs : List (Bytes × Bytes)) (key : Bytes) : Option Bytes :=
  (hs.find? (·.1 = key)).map Prod.snd

/-- `ahttpd_mime_init`. -/
def ahttpdMimeInit : List (Bytes × Bytes) := mimedb.foldl hsearchEnter []

/-- `file_get_extension`. -/
def fileGetExtension (filename : Bytes) : Option Bytes := strrchr filename 46

/-- `ahttpd_mime_guess`. -/
def ahttpdMimeGuess (hs : List (Bytes × Bytes)) (filename : Bytes) : Bytes :=
  ((fileGetExtension filename).bind (hsearchFind hs)).getD (lit "application/octet-stream")

end AuraHttpd
