import WebServer.V3.Net.HttpData

/-
  Answering a request in version 3.0 (`MimeType` and
  `HttpData::analysisRequest`).

  Key definitions include:
    * `FileSystem`
    * `getMime`
    * `favicon`
    * `Conn.analysisRequest`
-/

------------------------------------------------------------
-- Files And Types
------------------------------------------------------------

namespace WebServer

namespace V3

open StdString

/-
  What `stat`, `open` and `mmap` answer for a path. A mapping
  has the length asked for.
-/
structure FileSystem where
  stat : Bytes → Option Nat
  openRdonly : Bytes → Bool
  mmap : Bytes → Nat → Option Bytes
  mmap_length :
    ∀ path size bytes,
      mmap path size = some bytes → bytes.length = size

/- No file can be read. -/
def noFiles : FileSystem where
  stat := fun _ => none
  openRdonly := fun _ => false
  mmap := fun _ _ => none
  mmap_length := by
    intro _ _ _ h
    cases h

/- `c_str()`, up to the first NUL. -/
def cStr
    (s : Bytes) : Bytes :=
  s.takeWhile (· != 0)

/- The table of `MimeType::init`. -/
def mimeTable : List (Bytes × Bytes) :=
  [ (utf8 ".html", utf8 "text/html"),
    (utf8 ".avi", utf8 "video/x-msvideo"),
    (utf8 ".bmp", utf8 "image/bmp"),
    (utf8 ".c", utf8 "text/plain"),
    (utf8 ".doc", utf8 "application/msword"),
    (utf8 ".gif", utf8 "image/gif"),
    (utf8 ".gz", utf8 "application/x-gzip"),
    (utf8 ".htm", utf8 "text/html"),
    (utf8 ".ico", utf8 "image/x-icon"),
    (utf8 ".jpg", utf8 "image/jpeg"),
    (utf8 ".png", utf8 "image/png"),
    (utf8 ".txt", utf8 "text/plain"),
    (utf8 ".mp3", utf8 "audio/mp3"),
    (utf8 "default", utf8 "text/html") ]

/- `MimeType::getMime(suffix)`. -/
def getMime
    (suffix : Bytes) : Bytes :=
  match mimeTable.lookup suffix with
  | some mime => mime
  | none => utf8 "text/html"

/- `favicon`. -/
def favicon : Bytes :=
  [
    137, 80, 78, 71, 13, 10, 26, 10, 0, 0, 0, 13,
    73, 72, 68, 82, 0, 0, 0, 16, 0, 0, 0, 16,
    8, 6, 0, 0, 0, 31, 243, 255, 97, 0, 0, 0,
    25, 116, 69, 88, 116, 83, 111, 102, 116, 119, 97, 114,
    101, 0, 65, 100, 111, 98, 101, 32, 73, 109, 97, 103,
    101, 82, 101, 97, 100, 121, 113, 201, 101, 60, 0, 0,
    1, 205, 73, 68, 65, 84, 120, 218, 148, 147, 57, 72,
    3, 65, 20, 134, 255, 93, 98, 167, 4, 82, 196, 109,
    34, 30, 160, 70, 36, 8, 22, 22, 118, 10, 54, 186,
    74, 154, 128, 8, 65, 180, 113, 133, 88, 137, 71, 176,
    73, 169, 81, 36, 205, 166, 8, 164, 72, 99, 145, 66,
    11, 175, 86, 193, 70, 180, 21, 207, 34, 88, 152, 11,
    84, 72, 138, 100, 147, 141, 251, 70, 103, 201, 26, 20,
    125, 240, 102, 118, 102, 223, 124, 239, 231, 103, 70, 168,
    213, 106, 72, 36, 18, 42, 0, 5, 191, 71, 212, 239,
    247, 47, 54, 236, 18, 32, 30, 143, 215, 170, 213, 234,
    175, 73, 53, 70, 170, 84, 95, 159, 34, 65, 42, 149,
    10, 131, 229, 114, 57, 100, 179, 89, 150, 153, 76, 6,
    233, 116, 154, 37, 133, 44, 203, 84, 167, 196, 98, 49,
    181, 94, 0, 3, 104, 154, 198, 22, 130, 32, 88, 82,
    20, 69, 54, 83, 148, 203, 101, 120, 189, 94, 170, 85,
    84, 35, 76, 192, 224, 226, 193, 143, 0, 158, 188, 9,
    65, 124, 62, 31, 131, 68, 34, 17, 213, 84, 64, 63,
    56, 128, 119, 229, 51, 7, 184, 92, 46, 72, 146, 4,
    135, 195, 129, 64, 32, 64, 103, 152, 233, 54, 26, 166,
    103, 21, 4, 227, 215, 200, 189, 21, 225, 105, 183, 67,
    171, 234, 120, 47, 106, 88, 146, 187, 24, 32, 159, 207,
    51, 195, 184, 233, 78, 167, 211, 108, 74, 0, 105, 54,
    124, 142, 225, 254, 86, 132, 231, 60, 159, 114, 43, 58,
    66, 123, 55, 102, 119, 174, 142, 14, 243, 189, 82, 169,
    100, 2, 66, 175, 133, 50, 102, 70, 186, 12, 217, 159,
    29, 154, 108, 34, 230, 199, 58, 44, 128, 239, 193, 21,
    144, 7, 147, 162, 40, 160, 83, 106, 177, 184, 223, 41,
    53, 67, 14, 63, 88, 252, 152, 218, 121, 106, 80, 64,
    0, 135, 174, 27, 23, 66, 180, 58, 63, 190, 121, 199,
    10, 38, 182, 238, 217, 154, 96, 20, 147, 219, 143, 13,
    10, 46, 233, 35, 149, 41, 88, 0, 39, 235, 110, 86,
    112, 188, 214, 203, 214, 71, 171, 61, 108, 125, 184, 210,
    221, 160, 96, 131, 186, 239, 95, 164, 234, 204, 2, 78,
    174, 94, 112, 26, 236, 179, 64, 57, 172, 254, 242, 145,
    137, 103, 145, 133, 33, 168, 135, 183, 88, 126, 126, 133,
    187, 205, 78, 78, 98, 116, 64, 250, 147, 137, 236, 30,
    236, 134, 2, 72, 38, 147, 208, 117, 29, 127, 9, 50,
    149, 191, 31, 219, 215, 99, 138, 26, 247, 92, 193, 255,
    34, 74, 195, 135, 0, 3, 0, 75, 187, 248, 214, 42,
    118, 152, 73, 0, 0, 0, 0, 73, 69, 78, 68, 174,
    66, 96, 130 ]

/- `DEFAULT_EXPIRED_TIME`, in milliseconds. -/
def defaultExpiredTime : Nat := 2000

/- `DEFAULT_KEEP_ALIVE_TIME`, in milliseconds. -/
def defaultKeepAliveTime : Nat := 5 * 60 * 1000

end V3

end WebServer

------------------------------------------------------------
-- Analysis
------------------------------------------------------------

namespace WebServer

namespace V3

open StdString

/- The lines that answer a `Connection` header. -/
def keepAliveHeader : Bytes :=
  utf8 "Connection: Keep-Alive\r\n" ++
    utf8 "Keep-Alive: timeout=" ++
    utf8 (toString defaultKeepAliveTime) ++ utf8 "\r\n"

namespace HttpData

/- The `Connection` header asks to keep the connection. -/
def asksKeepAlive
    (d : HttpData) : Bool :=
  d.headers (utf8 "Connection") == some (utf8 "Keep-Alive") ||
    d.headers (utf8 "Connection") == some (utf8 "keep-alive")

/- The status line and the keep-alive lines. -/
def statusHeader
    (d : HttpData) : Bytes :=
  utf8 "HTTP/1.1 200 OK\r\n" ++
    if d.asksKeepAlive then keepAliveHeader else []

/- `int dot_pos = fileName_.find('.')`. -/
def dotPos
    (d : HttpData) : Int :=
  match findChar d.fileName (UInt8.ofNat 46) 0 with
  | some pos => toInt32 pos
  | none => toInt32 (2 ^ 64 - 1)

/- The type of the file, from the first dot of its name. -/
def fileType
    (d : HttpData) : Except Fault Bytes :=
  if d.dotPos < 0 then
    .ok (getMime (utf8 "default"))
  else do
    let suffix ←
      substr d.fileName d.dotPos.toNat d.fileName.length
    .ok (getMime suffix)

end HttpData

/- The lines between the status lines and the empty line. -/
def contentHeader
    (contentType : Bytes)
    (size : Nat) : Bytes :=
  utf8 "Content-Type: " ++ contentType ++ utf8 "\r\n" ++
    utf8 "Content-Length: " ++ utf8 (toString size) ++
    utf8 "\r\n" ++
    utf8 "Server: LinYa's Web Server\r\n" ++
    utf8 "\r\n"

/- The answer to the name `hello`. -/
def helloResponse : Bytes :=
  utf8 "HTTP/1.1 200 OK\r\nContent-type: text/plain\r\n" ++
    utf8 "\r\nHello World"

namespace Conn

/- `outBuffer_ += bytes`. -/
def appendOut
    (c : Conn)
    (bytes : Bytes) : Conn :=
  { c with
    http :=
      { c.http with outBuffer := c.http.outBuffer ++ bytes } }

/- `outBuffer_ = bytes`. -/
def setOut
    (c : Conn)
    (bytes : Bytes) : Conn :=
  { c with http := { c.http with outBuffer := bytes } }

/- The answer to `GET` and `HEAD` for a file. -/
def serveFile
    (c : Conn)
    (fs : FileSystem)
    (header fileType : Bytes) : AnalysisState × Conn :=
  let path := cStr c.http.fileName
  match fs.stat path with
  | none => (.error, c.handleError 404 (utf8 "Not Found!"))
  | some size =>
      let c :=
        c.appendOut (header ++ contentHeader fileType size)
      if c.http.method = .head then
        (.success, c)
      else if fs.openRdonly path then
        match fs.mmap path size with
        | none =>
            (.error,
              (c.setOut []).handleError 404
                (utf8 "Not Found!"))
        | some bytes => (.success, c.appendOut bytes)
      else
        (.error,
          (c.setOut []).handleError 404 (utf8 "Not Found!"))

/- `analysisRequest()`. -/
def analysisRequest
    (c : Conn)
    (fs : FileSystem) :
    Except Fault (AnalysisState × Conn) := do
  let c :=
    { c with
      trace :=
        c.trace ++
          [.analysisRequest c.http.method c.http.fileName
            c.http.httpVersion c.http.headers] }
  if c.http.method = .post then
    .ok (.error, c)
  else
    let header := c.http.statusHeader
    let c :=
      if c.http.asksKeepAlive then
        { c with http := { c.http with keepAlive := true } }
      else
        c
    let fileType ← c.http.fileType
    if c.http.fileName = utf8 "hello" then
      .ok (.success, c.setOut helloResponse)
    else if c.http.fileName = utf8 "favicon.ico" then
      .ok
        (.success,
          c.appendOut
            (header ++
              contentHeader (utf8 "image/png")
                favicon.length ++
              favicon))
    else
      .ok (c.serveFile fs header fileType)

end Conn

end V3

end WebServer
