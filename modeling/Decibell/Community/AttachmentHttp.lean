import Decibell.Lib.Decimal
import Decibell.Lib.Run

/-!
# The attachment endpoints over HTTP

A connection of the attachment server answers requests one after the other. It reads the head of a
request into a buffer, in which bytes behind the head may come along; an endpoint then reads as much
of a body as it means to, from that buffer first and then from the socket.
-/

namespace Decibell.Community

open Lib

/-- Bytes of a connection. -/
abbrev HttpBytes := List UInt8

/-- A text of the head: a character for each byte. -/
def latin1 (bytes : HttpBytes) : List Char := bytes.map fun b => Char.ofNat b.toNat

def lower (s : List Char) : String := String.ofList (s.map Char.toLower)

/-! ## The head of a request -/

structure HttpRequest where
  method : String := ""
  version : String := ""
  path : List Char := []
  query : List (String × String) := []
  /-- By lowercase names; a name's last value stands first. -/
  headers : List (String × String) := []
  contentLength : Int := 0
  authorizationToken : String := ""

namespace HttpRequest

def header (req : HttpRequest) (key : String) : String := (req.headers.lookup key).getD ""

/-- The connection is used again: in HTTP/1.1 unless denied, in 1.0 if asked. -/
def asksKeepAlive (req : HttpRequest) : Bool :=
  let conn := lower (req.header "connection").toList
  if req.version = "HTTP/1.0" then conn = "keep-alive" else conn ≠ "close"

/-- Cuts a text at a character. -/
def cutAt (c : Char) (s : List Char) : Option (List Char × List Char) :=
  if c ∈ s then some (s.takeWhile (· ≠ c), (s.dropWhile (· ≠ c)).tail) else none

/-- The lines that end with CRLF; `line` is the first's start, backwards. -/
def crlfLines : List Char → List Char → List (List Char)
  | line, '\r' :: '\n' :: rest => line.reverse :: crlfLines [] rest
  | line, c :: rest => crlfLines (c :: line) rest
  | _, [] => []

/-- The pieces between separators. -/
def pieces (c : Char) : List Char → List Char → List (List Char)
  | piece, [] => [piece.reverse]
  | piece, d :: rest =>
    if d = c then piece.reverse :: pieces c [] rest else pieces c (d :: piece) rest

def readPair (query : List (String × String)) (pair : List Char) : List (String × String) :=
  match cutAt '=' pair with
  | some (name, value) => query ++ [(String.ofList name, String.ofList value)]
  | none => if pair = [] then query else query ++ [(String.ofList pair, "")]

def trimValue (value : List Char) : String :=
  let front := value.dropWhile (· ∈ [' ', '\t'])
  String.ofList (front.reverse.dropWhile (· ∈ [' ', '\t', '\r'])).reverse

/-- A header line. One without a colon is passed over. -/
def readHeader (headers : List (String × String)) (line : List Char) : List (String × String) :=
  match cutAt ':' line with
  | some (name, value) => (lower name, trimValue value) :: headers
  | none => headers

def bearerToken (value : String) : String :=
  if 7 < value.length && lower (value.toList.take 7) = "bearer " then
    String.ofList (value.toList.drop 7)
  else ""

/-- The request line and headers up to the blank line, into the request's fields, which else stay.
    -/
def parseHead (req : HttpRequest) (head : List Char) : Option HttpRequest := do
  let line :: lines := crlfLines [] head | none
  let (method, rest) ← cutAt ' ' line
  let (rawPath, version) ← cutAt ' ' rest
  let (path, query) := match cutAt '?' rawPath with
    | some (path, qs) => (path, (pieces '&' [] qs).foldl readPair req.query)
    | none => (rawPath, req.query)
  let headers := (lines.takeWhile (· ≠ [])).foldl readHeader req.headers
  return {
    method := String.ofList method
    version := String.ofList version
    path
    query
    headers
    contentLength := match headers.lookup "content-length" with
      | some value => (stoll value).getD 0
      | none => req.contentLength
    authorizationToken := match headers.lookup "authorization" with
      | some value => if bearerToken value = "" then req.authorizationToken else bearerToken value
      | none => req.authorizationToken }

end HttpRequest

/-- `/attachments/<id>` and what follows the id. -/
def parseAttachmentPath (path : List Char) : Option (Int × String) :=
  let start := "/attachments/".toList
  if start.isPrefixOf path then
    let rest := path.drop start.length
    let digits := rest.takeWhile Char.isDigit
    if digits = [] then none
    else
      (stoll (String.ofList digits)).map fun id =>
        (id, String.ofList (rest.dropWhile Char.isDigit))
  else none

/-! ## What a request finds -/

structure AttachmentRow where
  uploadStatus : String
  uploaderUid : Int
  expectedSize : Int
  storagePath : String
  channelId : String
  purgedAt : Int
  thumbnailSizeBytes : Int
  thumbnailSizesMask : Nat

/-- The fields of the body of an init request. -/
structure InitBody where
  channelId : String
  filename : String
  size : Int
  encrypted : Bool
  kind : Int

inductive HttpAction
  | sendMessage | attachFiles | viewChannel

/-- What may fail on the way. -/
inductive HttpOp
  | createDirectories | insertPending | updateStoragePath | createPartial
  | stat | openFile | seek | write | flush
  | rename | completeAttachment | abortPending
  | readFile
  | createThumbnail | writeThumbnail | renameThumbnail | setThumbnailSize

/-- What the database, files and libraries answer. -/
structure Env where
  /-- The account of a token. -/
  verifyJwt : String → Option Int
  getAttachment : Int → Option AttachmentRow
  isMember : Int → Bool
  allowed : HttpAction → Int → String → Bool
  maxAttachmentBytes : Int
  /-- The body of an init request as JSON, its name clamped. -/
  parseInit : HttpBytes → Option InitBody
  allowInit : Int → Bool
  /-- The type of a channel. -/
  getChannel : String → Option Int
  /-- The space left on the volume of the store. -/
  freeSpace : Option Int
  minFreeBytes : Int
  fileExists : String → Bool
  /-- `none`: it could not be told. -/
  fileSize : String → Option Int
  succeeds : HttpOp → Bool

/-! ## The checks of the endpoints

A status is an error: the first check that fails. -/

/-- Refuses with a status unless a condition holds. -/
def require (status : Nat) (p : Bool) : Except Nat Unit := if p then .ok () else .error status

def found (status : Nat) {α : Type} (o : Option α) : Except Nat α :=
  match o with
  | some a => .ok a
  | none => .error status

/-- Requests that carry an attachment's own uploader through. -/
def uploadChecks (e : Env) (uid id : Int) (status : String) : Except Nat AttachmentRow := do
  let att ← found 404 (e.getAttachment id)
  require 409 (att.uploadStatus = status)
  require 403 (att.uploaderUid = uid)
  require 403 (e.isMember uid)
  return att

/-- `do_init_with_body`. -/
def initVerdict (e : Env) (uid : Int) (body : HttpBytes) : Except Nat Unit := do
  let j ← found 400 (e.parseInit body)
  require 400 (!j.encrypted || 0 ≤ j.kind && j.kind ≤ 3)
  require 400 (j.channelId ≠ "" && j.filename ≠ "" && 0 < j.size)
  require 413 (e.maxAttachmentBytes ≤ 0 || j.size ≤ e.maxAttachmentBytes)
  require 403 (e.isMember uid)
  require 429 (e.allowInit uid)
  require 404 ((e.getChannel j.channelId).any (· ≠ 2))
  require 403 (e.allowed .sendMessage uid j.channelId && e.allowed .attachFiles uid j.channelId)
  require 507 (e.freeSpace.all fun available => e.minFreeBytes ≤ available - j.size)
  require 500 (e.succeeds .createDirectories)
  require 500 (e.succeeds .insertPending)
  require 500 (e.succeeds .updateStoragePath)
  require 500 (e.succeeds .createPartial)

/-- The checks of a patch before its body is read. -/
def patchVerdict (e : Env) (uid : Int) (req : HttpRequest) (id : Int) : Except Nat Unit := do
  let att ← uploadChecks e uid id "uploading"
  let offset ← found 400 (stoll (req.header "upload-offset"))
  require 400 (0 ≤ offset)
  let partialPath := att.storagePath ++ ".partial"
  let curSize ← if e.fileExists partialPath then found 500 (e.fileSize partialPath)
    else found 500 (if e.succeeds .stat then some 0 else none)
  require 409 (offset = curSize)
  require 411 (0 ≤ req.contentLength)
  require 413 (att.expectedSize ≤ 0 || req.contentLength ≤ att.expectedSize - offset)
  require 413 (e.maxAttachmentBytes ≤ 0 || req.contentLength ≤ e.maxAttachmentBytes - offset)
  require 500 (e.succeeds .openFile)
  require 500 (e.succeeds .seek)

def headVerdict (e : Env) (uid id : Int) : Except Nat Unit := do
  let att ← found 404 (e.getAttachment id)
  require 403 (att.uploadStatus ≠ "uploading" || att.uploaderUid = uid)
  require 403 (att.uploadStatus ≠ "ready" || e.isMember uid)
  require 403 (att.uploadStatus ≠ "ready" || att.channelId = "" ||
    e.allowed .viewChannel uid att.channelId)

def completeVerdict (e : Env) (uid id : Int) : Except Nat Unit := do
  let att ← uploadChecks e uid id "uploading"
  let partialPath := att.storagePath ++ ".partial"
  require 409 (e.fileExists partialPath)
  let actual ← found 500 (e.fileSize partialPath)
  require 409 (att.expectedSize ≤ 0 || actual = att.expectedSize)
  require 500 (e.succeeds .rename)
  require 500 (e.succeeds .completeAttachment)

/-- The sizes of thumbnails, and their bits. -/
def thumbSizes : List (Int × Nat) := [(320, 1), (640, 2), (1280, 4)]

/-- The size a request asks for: 0 if it asks for none. -/
def requestedSize (req : HttpRequest) : Except Nat Int :=
  match req.query.lookup "size" with
  | none => .ok 0
  | some text =>
    let requested := (stoll text).getD 0
    if requested ∈ thumbSizes.map (·.1) then .ok requested else .error 400

/-- The smallest size from the requested on, else the largest. -/
def chosenSize (mask : Nat) (requested : Int) : Option Int :=
  let have' := (thumbSizes.filter fun s => mask &&& s.2 ≠ 0).map (·.1)
  if requested = 0 then have'.getLast?
  else (have'.find? (requested ≤ ·)).or have'.getLast?

def thumbPath (storagePath : String) (size : Option Int) : String :=
  match size with
  | some px => storagePath ++ ".thumb-" ++ toString px ++ "px.jpg"
  | none => storagePath ++ ".thumb.jpg"

/-- The range of a `Range` header: the first and the last byte. -/
def readRange (header : String) (total : Int) : Except Nat (Int × Int) :=
  if "bytes=".toList.isPrefixOf header.toList then do
    let (first, last) ← found 416 (HttpRequest.cutAt '-' (header.toList.drop 6))
    let start ← if first = [] then .ok 0 else found 416 (stoll (String.ofList first))
    let stop ← if last = [] then .ok (total - 1) else found 416 (stoll (String.ofList last))
    require 416 (0 ≤ start && start < total && start ≤ stop && stop < total)
    return (start, stop)
  else .ok (0, total - 1)

/-- A file to be sent, and the response's status. -/
def getVerdict (e : Env) (uid : Int) (req : HttpRequest) (id : Int) : Except Nat Nat := do
  let att ← found 404 (e.getAttachment id)
  require 404 (att.uploadStatus = "ready")
  require 410 (att.purgedAt = 0)
  require 403 (e.isMember uid)
  require 403 (att.channelId = "" || e.allowed .viewChannel uid att.channelId)
  if req.query.lookup "variant" = some "thumb" then
    require 404 (0 < att.thumbnailSizeBytes)
    let requested ← requestedSize req
    let path := thumbPath att.storagePath (chosenSize att.thumbnailSizesMask requested)
    let path := if e.fileExists path then path else thumbPath att.storagePath none
    require 404 (e.fileExists path)
    require 500 (e.fileSize path).isSome
    require 500 (e.succeeds .openFile)
    return 200
  else
    require 410 (e.fileExists att.storagePath)
    let total ← found 500 (e.fileSize att.storagePath)
    let range ← readRange (req.header "range") total
    require 500 (e.succeeds .openFile)
    require 500 (range.1 ≤ 0 || e.succeeds .seek)
    return if "bytes=".toList.isPrefixOf (req.header "range").toList then 206 else 200

def maxThumbBytes : Int := 512 * 1024

/-- The checks of a thumbnail before its body is read. -/
def thumbnailVerdict (e : Env) (uid : Int) (req : HttpRequest) (id : Int) : Except Nat Unit := do
  let _ ← uploadChecks e uid id "ready"
  require 413 (0 < req.contentLength && req.contentLength ≤ maxThumbBytes)
  let _ ← requestedSize req

/-- `finish_thumbnail`. -/
def finishThumbnailVerdict (e : Env) : Except Nat Unit := do
  require 500 (e.succeeds .createThumbnail)
  require 500 (e.succeeds .writeThumbnail)
  require 500 (e.succeeds .renameThumbnail)
  require 500 (e.succeeds .setThumbnailSize)

def deleteVerdict (e : Env) (uid id : Int) : Except Nat Unit := do
  let _ ← uploadChecks e uid id "uploading"
  require 500 (e.succeeds .abortPending)

/-! ## The connection -/

/-- A response: its status, and what it says of the connection. -/
structure HttpResponse where
  status : Nat
  keepAlive : Bool
deriving DecidableEq

/-- What a connection reads. -/
inductive HttpPhase
  /-- A head, up to a blank line. -/
  | head
  | init (body : HttpBytes) (rest : Nat)
  /-- A piece of the body of a patch. -/
  | patch (remain : Nat)
  /-- A piece of a thumbnail. -/
  | thumbnail (remain : Nat)
  | closed
deriving DecidableEq

structure HttpConn where
  /-- What was read from the socket and not taken yet. -/
  headBuf : HttpBytes := []
  /-- What the peer sends from here on. -/
  wire : HttpBytes
  phase : HttpPhase := .head
  req : HttpRequest := {}
  uid : Int := 0
  keepAlive : Bool := false
  forceClose : Bool := false
  /-- The heads taken for requests, with what was read of their bodies, latest first. -/
  handled : List (HttpBytes × HttpBytes) := []
  responses : List HttpResponse := []

/-- The capacity of the buffer. -/
def headBufSize : Nat := 16 * 1024

def patchBufSize : Nat := 256 * 1024

/-- Where the first CRLFCRLF ends. -/
def headEnd : HttpBytes → Option Nat
  | 13 :: 10 :: 13 :: 10 :: _ => some 4
  | _ :: rest => (headEnd rest).map (· + 1)
  | [] => none

namespace HttpConn

variable (s : HttpConn)

/-- Bytes of the body of the current request. -/
def consume (bytes : HttpBytes) : HttpConn :=
  { s with handled := match s.handled with
      | [] => []
      | (head, body) :: before => (head, body ++ bytes) :: before }

/-- The bytes of a body that came along with the head. -/
def takeBuffered (n : Nat) : HttpConn :=
  { s.consume (s.headBuf.take n) with headBuf := s.headBuf.drop n }

/-- Bytes of a body from the socket. -/
def takeWire (n : Nat) : HttpConn := { s.consume (s.wire.take n) with wire := s.wire.drop n }

def willKeepAlive : Bool := s.keepAlive && !s.forceClose

/-- The next request, with nothing left of this one, or the end. -/
def finishRequest : HttpConn :=
  if s.willKeepAlive then { s with phase := .head, req := {}, uid := 0 }
  else { s with phase := .closed }

def sendResponse (status : Nat) : HttpConn :=
  finishRequest { s with responses := ⟨status, s.willKeepAlive⟩ :: s.responses }

/-- Errors may be sent before a request body was consumed. -/
def sendError (status : Nat) : HttpConn := sendResponse { s with forceClose := true } status

/-- An error, or what comes after the checks. -/
def orError {α : Type} (verdict : Except Nat α) (next : α → HttpConn) : HttpConn :=
  match verdict with
  | .ok a => next a
  | .error status => s.sendError status

def doInitWithBody (e : Env) (body : HttpBytes) : HttpConn :=
  s.orError (initVerdict e s.uid body) fun _ => s.sendResponse 201

def handleInit (e : Env) : HttpConn :=
  if s.req.contentLength ≤ 0 ∨ 64 * 1024 < s.req.contentLength then s.sendError 400
  else
    let size := s.req.contentLength.toNat
    let already := s.headBuf.take size
    let s := s.takeBuffered size
    if already.length = size then s.doInitWithBody e already
    else { s with phase := .init already (size - already.length) }

def finishPatch (e : Env) : HttpConn :=
  if e.succeeds .flush then s.sendResponse 204 else s.sendError 500

/-- Bytes of a patch are written to the file. -/
def writePatch (e : Env) (remain : Nat) : HttpConn :=
  if !e.succeeds .write then s.sendError 500
  else if remain = 0 then s.finishPatch e
  else { s with phase := .patch remain }

def handlePatch (e : Env) (id : Int) : HttpConn :=
  s.orError (patchVerdict e s.uid s.req id) fun _ =>
    let remain := s.req.contentLength.toNat
    if s.headBuf = [] then
      if remain = 0 then s.finishPatch e else { s with phase := .patch remain }
    else (s.takeBuffered remain).writePatch e (remain - s.headBuf.length)

def handleHeadStatus (e : Env) (id : Int) : HttpConn :=
  s.orError (headVerdict e s.uid id) fun _ => s.sendResponse 200

def handleComplete (e : Env) (id : Int) : HttpConn :=
  s.orError (completeVerdict e s.uid id) fun _ => s.sendResponse 200

/-- A file that gets shorter on the way ends the connection. -/
def handleGet (e : Env) (id : Int) : HttpConn :=
  s.orError (getVerdict e s.uid s.req id) fun status =>
    if e.succeeds .readFile then s.sendResponse status
    else { s with phase := .closed, responses := ⟨status, s.willKeepAlive⟩ :: s.responses }

def finishThumbnail (e : Env) : HttpConn :=
  s.orError (finishThumbnailVerdict e) fun _ => s.sendResponse 204

def handleThumbnailUpload (e : Env) (id : Int) : HttpConn :=
  s.orError (thumbnailVerdict e s.uid s.req id) fun _ =>
    let size := s.req.contentLength.toNat
    let remain := size - s.headBuf.length
    let s := s.takeBuffered size
    if remain = 0 then s.finishThumbnail e else { s with phase := .thumbnail remain }

def handleDelete (e : Env) (id : Int) : HttpConn :=
  s.orError (deleteVerdict e s.uid id) fun _ => s.sendResponse 204

/-- The endpoint of a request. -/
def route (e : Env) : HttpConn :=
  if s.req.method = "POST" ∧ s.req.path = "/attachments/init".toList then s.handleInit e
  else
    match parseAttachmentPath s.req.path with
    | none => s.sendError 404
    | some (id, tail) =>
      if s.req.method = "PATCH" ∧ tail = "" then s.handlePatch e id
      else if s.req.method = "HEAD" ∧ tail = "" then s.handleHeadStatus e id
      else if s.req.method = "GET" ∧ tail = "" then s.handleGet e id
      else if s.req.method = "DELETE" ∧ tail = "" then s.handleDelete e id
      else if s.req.method = "POST" ∧ tail = "/complete" then s.handleComplete e id
      else if s.req.method = "POST" ∧ tail = "/thumbnail" then s.handleThumbnailUpload e id
      else s.sendError 404

def onHeadReady (e : Env) : HttpConn :=
  let s :=
    { s with
      keepAlive := s.req.asksKeepAlive
      -- Bodies on these are never read.
      forceClose := s.req.method ∈ ["GET", "HEAD", "DELETE"] && 0 < s.req.contentLength }
  if s.req.authorizationToken = "" then s.sendError 401
  else
    match e.verifyJwt s.req.authorizationToken with
    | none => s.sendError 401
    | some uid => route { s with uid } e

/-- A head of `n` bytes is in the buffer. -/
def onHead (e : Env) (n : Nat) : HttpConn :=
  let head := s.headBuf.take n
  if headBufSize < n then s.sendError 431
  else
    let s := { s with headBuf := s.headBuf.drop n, handled := (head, []) :: s.handled }
    match s.req.parseHead (latin1 head) with
    | none => s.sendError 400
    | some req => onHeadReady { s with req } e

/-- What happens to a connection. -/
inductive Label
  /-- Up to the capacity of the buffer, `n` bytes more of a head. -/
  | recv (n : Nat)
  /-- A whole head has been read. -/
  | gotHead (e : Env)
  /-- The bytes of a body that were asked for have been read. -/
  | gotBody (e : Env)
  /-- The peer is gone or silent, or the buffer is full. -/
  | fail

/-- A step of the connection, if it is one. -/
def step : Label → Option HttpConn
  | .recv n =>
    if s.phase = .head ∧ headEnd s.headBuf = none ∧ 0 < n ∧ n ≤ s.wire.length ∧
        s.headBuf.length + n ≤ headBufSize then
      some { s with headBuf := s.headBuf ++ s.wire.take n, wire := s.wire.drop n }
    else none
  | .gotHead e =>
    if s.phase = .head then (headEnd s.headBuf).map (s.onHead e) else none
  | .gotBody e =>
    match s.phase with
    | .init body rest =>
      if rest ≤ s.wire.length then
        some ((s.takeWire rest).doInitWithBody e (body ++ s.wire.take rest))
      else none
    | .patch remain =>
      let want := min remain patchBufSize
      if want ≤ s.wire.length then some ((s.takeWire want).writePatch e (remain - want)) else none
    | .thumbnail remain =>
      let want := min remain (64 * 1024)
      if want ≤ s.wire.length then
        let s := s.takeWire want
        some (if remain - want = 0 then s.finishThumbnail e
          else { s with phase := .thumbnail (remain - want) })
      else none
    | _ => none
  | .fail => if s.phase = .closed then none else some { s with phase := .closed }

end HttpConn

end Decibell.Community
