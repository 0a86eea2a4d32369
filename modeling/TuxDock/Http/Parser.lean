import TuxDock.Text.Bytes

/-!
# The HTTP response parser

The functions of `http_response_parser.cpp`: `parseHttpResponse`, which splits a raw response
into status, headers and payload and checks how the payload is framed, and
`httpResponseComplete`, which tells the read loop of the client when to stop reading.  The two
look at the headers on their own: one line by line, the other by searching the header block.

Two things can go wrong inside `decodeChunked` apart from an error it reports, and both are
results here (`Fault`): a `substr` past the end of the payload throws, and the loop can revisit
an offset because the offsets are computed modulo `2^64`.
-/

namespace TuxDock

namespace Http

open Text

/-- The end of a line. -/
def crlf : Bytes := lit "\r\n"

/-- What ends a call other than by returning. -/
inductive Fault where
  /-- `std::out_of_range`, thrown by `substr`. -/
  | outOfRange
  /-- The loop does not end. -/
  | endless
  deriving Repr, DecidableEq

/-! ### Chunked bodies -/

/-- The result of `decodeChunked`, with its two output parameters. -/
structure Decoded where
  ok : Bool
  body : Bytes
  error : Bytes
  deriving Repr, DecidableEq

/-- One iteration of the loop of `decodeChunked` either ends the call or moves on. -/
inductive DecodeStep where
  | stop (result : Except Fault Decoded)
  | next (offset : ℕ) (body : Bytes)

/-- The text of a size line before an optional `;`. -/
def sizeValue (line : Bytes) : Bytes := (trim line).takeWhile (· != 59)

/-- An iteration of the loop of `decodeChunked` at `offset`, with the test of the loop. -/
def decodeStep (input : Bytes) (offset : ℕ) (body : Bytes) : DecodeStep :=
  let failed (error : String) := DecodeStep.stop (.ok ⟨false, body, lit error⟩)
  if offset < input.length then
    match find input crlf offset with
    | none => failed "Truncated chunk size."
    | some lineEnd =>
      match stoull 16 (sizeValue (substr input offset (lineEnd - offset))) with
      | none => failed "Invalid chunk size."
      | some chunkSize =>
        let offset := lineEnd + 2
        if chunkSize = 0 then .stop (.ok ⟨true, body, []⟩)
        -- the end of the chunk is a `std::size_t`: a large size wraps and passes this test
        else if input.length < (offset + chunkSize + 2) % 2 ^ 64 then
          failed "Truncated chunk data."
        else
          let dataEnd := (offset + chunkSize) % 2 ^ 64
          if input.length < dataEnd then .stop (.error .outOfRange)
          else if substr input dataEnd 2 ≠ crlf then failed "Truncated chunk data."
          else .next ((offset + chunkSize + 2) % 2 ^ 64) (body ++ substr input offset chunkSize)
  else failed "Missing terminating chunk."

/-- At most `fuel` iterations of the loop. -/
def decodeLoop (input : Bytes) : ℕ → ℕ → Bytes → Except Fault Decoded
  | 0, _, _ => .error .endless
  | fuel + 1, offset, body =>
    match decodeStep input offset body with
    | .stop result => result
    | .next offset body => decodeLoop input fuel offset body

/-- `decodeChunked`.  An iteration that moves on starts at an offset inside the input, so after
`input.length + 1` of them an offset has come back (`decodeLoop_endless`).  The body may grow on the
way round without bound; `append` would throw in the end, and the loop not go on for ever. -/
def decodeChunked (input : Bytes) : Except Fault Decoded :=
  decodeLoop input (input.length + 1) 0 []

/-! ### Status line and headers -/

/-- `ParsedHttpResponse`. -/
structure ParsedHttpResponse where
  statusCode : ℤ := 0
  body : Bytes := []
  error : Bytes := []
  deriving Repr, DecidableEq

/-- `ok`. -/
def ParsedHttpResponse.ok (r : ParsedHttpResponse) : Bool :=
  ((200 ≤ r.statusCode && r.statusCode < 300) || r.statusCode == 304) && r.error.isEmpty

/-- `status_line >> version >> status_code`, with `status_code` zero before. -/
def readStatusCode (statusLine : Bytes) : ℤ :=
  match readWord statusLine with
  | none => 0
  | some (_, rest) => readInt rest

/-- A status that goes without a body. -/
def bodyless (statusCode : ℤ) : Bool :=
  (100 ≤ statusCode && statusCode < 200) || statusCode == 204 || statusCode == 304

/-- What the header loop of `parseHttpResponse` remembers; `npos` stands for no Content-Length. -/
structure Framing where
  contentLength : ℕ := npos
  chunked : Bool := false
  deriving Repr, DecidableEq

/-- One header line, from `lineStart` to `lineEnd`; `none` if its length is no number. -/
def scanLine (raw : Bytes) (lineStart lineEnd : ℕ) (f : Framing) : Option Framing :=
  match find raw (lit ":") lineStart with
  | none => some f
  | some separator =>
    if separator < lineEnd then
      let name := lower (trim (substr raw lineStart (separator - lineStart)))
      let value := lower (trim (substr raw (separator + 1) (lineEnd - separator - 1)))
      if name = lit "content-length" then
        (stoull 10 value).map fun n => { f with contentLength := n }
      else if name = lit "transfer-encoding" ∧ (find value (lit "chunked") 0).isSome then
        some { f with chunked := true }
      else some f
    else some f

/-- The header loop; a line takes at least two bytes, so `headerEnd` iterations are enough. -/
def scanHeaders (raw : Bytes) (headerEnd : ℕ) : ℕ → ℕ → Framing → Option Framing
  | 0, _, f => some f
  | fuel + 1, lineStart, f =>
    if lineStart < headerEnd then
      match find raw crlf lineStart with
      | none => some f
      | some lineEnd =>
        if headerEnd < lineEnd then some f
        else
          match scanLine raw lineStart lineEnd f with
          | none => none
          | some f => scanHeaders raw headerEnd fuel (lineEnd + 2) f
    else some f

/-- The end of `parseHttpResponse`: a status outside `2xx` other than 304 is an error. -/
def finish (statusCode : ℤ) (body : Bytes) : ParsedHttpResponse :=
  if statusCode < 200 ∨ 300 ≤ statusCode then
    if statusCode = 304 then { statusCode, body }
    else { statusCode, body,
           error := if body = [] then lit "Docker Engine request failed." else body }
  else { statusCode, body }

/-- The payload of a response, selected by its framing. -/
def selectBody (statusCode : ℤ) (f : Framing) (payload : Bytes) :
    Except Fault ParsedHttpResponse :=
  if bodyless statusCode then .ok (finish statusCode [])
  -- a chunked coding goes before a length
  else if f.chunked then
    match decodeChunked payload with
    | .error fault => .error fault
    | .ok d =>
      if d.ok then .ok (finish statusCode d.body)
      else .ok { statusCode, body := d.body, error := d.error }
  else if f.contentLength ≠ npos then
    if payload.length < f.contentLength then
      .ok { statusCode, error := lit "Truncated HTTP response body." }
    else .ok (finish statusCode (substr payload 0 f.contentLength))
  else .ok (finish statusCode payload)

/-- `parseHttpResponse`. -/
def parseHttpResponse (raw : Bytes) : Except Fault ParsedHttpResponse :=
  match find raw (crlf ++ crlf) 0 with
  | none => .ok { error := lit "Invalid response from Docker Engine: missing headers." }
  | some headerEnd =>
    -- found, at the latest at the end of the head
    let statusEnd := (find raw crlf 0).getD npos
    let statusCode := readStatusCode (substr raw 0 statusEnd)
    if statusCode = 0 then .ok { error := lit "Invalid HTTP status from Docker Engine." }
    else
      match scanHeaders raw headerEnd headerEnd (statusEnd + 2) {} with
      | none => .ok { statusCode, error := lit "Invalid Content-Length." }
      | some f => selectBody statusCode f (raw.drop (headerEnd + 4))

/-! ### Completeness of a growing buffer -/

/-- The search of `httpResponseComplete` for a chunked payload in the header block. -/
def announcesChunked (headers : Bytes) : Bool :=
  match find headers (lit "Transfer-Encoding:") 0 with
  | none => false
  | some transfer => (find (lower (headers.drop transfer)) (lit "chunked") 0).isSome

/-- The search of `httpResponseComplete` for a length in the header block. -/
def announcedLength (headers : Bytes) : Option ℕ :=
  match find (lower headers) (lit "content-length:") 0 with
  | none => none
  | some length =>
    let lineEnd := (find headers crlf length).getD npos
    match find headers (lit ":") length with
    | none => none
    | some valueStart =>
      stoull 10 (trim (substr headers (valueStart + 1) (sub64 (sub64 lineEnd valueStart) 1)))

/-- What ends a chunked payload for `httpResponseComplete`. -/
def lastChunkMark : Bytes := lit "\r\n0\r\n"

/-- `httpResponseComplete`.  With no header line at all, the length of the header block is
computed as `2^64 - 2`, so that `headers` reaches to the end of the buffer. -/
def httpResponseComplete (raw method : Bytes) : Bool :=
  match find raw (crlf ++ crlf) 0, find raw crlf 0 with
  | some headerEnd, some statusEnd =>
    if headerEnd < statusEnd then false
    else if method = lit "HEAD" ∨ bodyless (readStatusCode (substr raw 0 statusEnd)) then true
    else
      let headers := substr raw (statusEnd + 2) (sub64 (sub64 headerEnd statusEnd) 2)
      if announcesChunked headers then
        headerEnd + 7 ≤ raw.length && (find raw lastChunkMark (headerEnd + 4)).isSome
      else
        match announcedLength headers with
        | none => false
        | some expected => (headerEnd + 4 + expected) % 2 ^ 64 ≤ raw.length
  | _, _ => false

/-- The early stop and the decoder on the response of the source's own test. -/
example :
    let raw := lit "HTTP/1.1 200 OK\r\nTransfer-Encoding: chunked\r\n\r\n5\r\nhello\r\n0\r\n\r\n"
    httpResponseComplete raw [] = true ∧
      parseHttpResponse raw = .ok ⟨200, lit "hello", []⟩ := by decide +kernel

end Http

end TuxDock
