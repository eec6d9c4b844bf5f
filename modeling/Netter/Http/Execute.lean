import Netter.Http.Syntax

/-!
# `http_parser_execute`

The loop over the bytes of a buffer, for requests. A mark points into the buffer, and a data callback gets
the bytes from the mark on; here a mark is these bytes. The callbacks do not change what the parser
does, so it is enough to know which ones are made. The marks of header names and values are left
out, because nothing is done with those.
-/

namespace Netter.Http

/-- The flags of a message, without `F_SKIPBODY`, which `OnHeadersComplete` never asks for. -/
structure Flags where
  chunked : Bool
  keepAlive : Bool
  close : Bool
  trailing : Bool
  upgrade : Bool
  deriving DecidableEq

def Flags.none : Flags := ⟨false, false, false, false, false⟩

/-- `ULLONG_MAX`. -/
def ullongMax : UInt64 := 0xFFFFFFFFFFFFFFFF

/-- `HTTP_MAX_HEADER_SIZE`. -/
def httpMaxHeaderSize : UInt32 := 80 * 1024

/-- `http_parser`. -/
structure HttpParser where
  flags : Flags
  state : ParserState
  headerState : HeaderState
  index : UInt8
  nread : UInt32
  contentLength : UInt64
  httpMajor : UInt16
  httpMinor : UInt16
  method : HttpMethod
  errno : HttpErrno
  upgrade : Bool
  deriving DecidableEq

/-- `http_parser_init` with `HTTP_REQUEST`. -/
def HttpParser.init : HttpParser := ⟨.none, .startReq, .general, 0, 0, 0, 0, 0, .delete, .ok, false⟩

/-- A call of one of the callbacks that are set, with what it looks at. -/
inductive Callback where
  | url (bytes : List UInt8)
  | headersComplete (nread : UInt32) (contentLength : UInt64)
  | body (bytes : List UInt8)
  | messageComplete
  deriving DecidableEq

/-- The parser and the marks, in a call of `http_parser_execute`. -/
structure Exec where
  parser : HttpParser
  urlMark : Option (List UInt8)
  bodyMark : Option (List UInt8)

/-- How the `switch` is left: at the end of the loop's body with the callbacks made, when `p` has been moved
on by `skipped`, or out of `http_parser_execute`. -/
inductive Outcome where
  | next (e : Exec) (calls : List Callback) (skipped : Nat)
  | leave (parser : HttpParser) (calls : List Callback)

/-- With callbacks made before. -/
def Outcome.after (calls : List Callback) : Outcome → Outcome
  | .next e more skipped => .next e (calls ++ more) skipped
  | .leave parser more => .leave parser (calls ++ more)

/-- `http_should_keep_alive`. -/
def HttpParser.shouldKeepAlive (p : HttpParser) : Bool :=
  if 0 < p.httpMajor ∧ 0 < p.httpMinor then !p.flags.close else p.flags.keepAlive

/-- `NEW_MESSAGE`. -/
def HttpParser.newMessage (p : HttpParser) : ParserState := if p.shouldKeepAlive then .startReq else .dead

/-- A character of a word that is being matched, at the next index. -/
def HttpParser.matching (p : HttpParser) (word : List UInt8) (found : HeaderState) (c : UInt8) : HttpParser :=
  let index := p.index + 1
  if word.length < index.toNat ∨ c ≠ word.getD index.toNat 0 then { p with index, headerState := .general }
  else if index.toNat = word.length - 1 then { p with index, headerState := found }
  else { p with index }

namespace Exec

variable (e : Exec)

/-- `break` with the parser as it is now. -/
def next (parser : HttpParser) : Outcome := .next { e with parser } [] 0

/-- `break` in a state. -/
def goTo (state : ParserState) : Outcome := e.next { e.parser with state }

/-- `SET_ERRNO` and `goto error`. -/
def fail (errno : HttpErrno) : Outcome := .leave { e.parser with errno } []

/-- `CALLBACK_NOTIFY(message_complete)` after the state has been set with `NEW_MESSAGE`. -/
def complete : Outcome := .next { e with parser := { e.parser with state := e.parser.newMessage } } [.messageComplete] 0

/-- `CALLBACK_DATA(url)`. -/
def callUrl : Outcome :=
  match e.urlMark with
  | some bytes => .next { e with urlMark := none } [.url bytes] 0
  | none => .next e [] 0

/-- `CALLBACK_DATA(body)`. -/
def callBody : Outcome :=
  match e.bodyMark with
  | some bytes => .next { e with bodyMark := none } [.body bytes] 0
  | none => .next e [] 0

/-! ## The request line -/

/-- `s_dead`. -/
def dead (ch : UInt8) : Outcome := if ch = CR ∨ ch = LF then e.next e.parser else e.fail .closedConnection

/-- The method that a letter begins with in `s_start_req`. -/
def firstMethod (ch : UInt8) : Option HttpMethod :=
  if ch = 'C'.toUInt8 then some .connect
  else if ch = 'D'.toUInt8 then some .delete
  else if ch = 'G'.toUInt8 then some .get
  else if ch = 'H'.toUInt8 then some .head
  else if ch = 'L'.toUInt8 then some .lock
  else if ch = 'M'.toUInt8 then some .mkcol
  else if ch = 'N'.toUInt8 then some .notify
  else if ch = 'O'.toUInt8 then some .options
  else if ch = 'P'.toUInt8 then some .post
  else if ch = 'R'.toUInt8 then some .report
  else if ch = 'S'.toUInt8 then some .subscribe
  else if ch = 'T'.toUInt8 then some .trace
  else if ch = 'U'.toUInt8 then some .unlock
  else none

/-- `s_start_req`. -/
def startReq (ch : UInt8) : Outcome :=
  if ch = CR ∨ ch = LF then e.next e.parser
  else
    let e := { e with parser := { e.parser with flags := .none, contentLength := ullongMax } }
    if !isAlpha ch then e.fail .invalidMethod
    else
      match firstMethod ch with
      | none => { e with parser := { e.parser with method := .delete, index := 1 } }.fail .invalidMethod
      | some method => e.next { e.parser with method, index := 1, state := .reqMethod }

/-- The method that `s_req_method` changes to where the character is not the expected one. -/
def otherMethod (method : HttpMethod) (index : UInt8) (ch : UInt8) : Option HttpMethod :=
  if method = .connect then
    if index = 1 ∧ ch = 'H'.toUInt8 then some .checkout
    else if index = 2 ∧ ch = 'P'.toUInt8 then some .copy
    else none
  else if method = .mkcol then
    if index = 1 ∧ ch = 'O'.toUInt8 then some .move
    else if index = 1 ∧ ch = 'E'.toUInt8 then some .merge
    else if index = 1 ∧ ch = '-'.toUInt8 then some .msearch
    else if index = 2 ∧ ch = 'A'.toUInt8 then some .mkactivity
    else none
  else if method = .subscribe then if index = 1 ∧ ch = 'E'.toUInt8 then some .search else none
  else if index = 1 ∧ method = .post then
    if ch = 'R'.toUInt8 then some .propfind
    else if ch = 'U'.toUInt8 then some .put
    else if ch = 'A'.toUInt8 then some .patch
    else none
  else if index = 2 then
    if method = .put then if ch = 'R'.toUInt8 then some .purge else none
    else if method = .unlock then if ch = 'S'.toUInt8 then some .unsubscribe else none
    else none
  else if index = 4 ∧ method = .propfind ∧ ch = 'P'.toUInt8 then some .proppatch
  else none

/-- `s_req_method`. -/
def reqMethod (ch : UInt8) : Outcome :=
  let p := e.parser
  if ch = 0 then e.fail .invalidMethod
  else
    let matcher := p.method.string.getD p.index.toNat 0
    if ch = ' '.toUInt8 ∧ matcher = 0 then e.next { p with state := .reqSpacesBeforeUrl, index := p.index + 1 }
    else if ch = matcher then e.next { p with index := p.index + 1 }
    else
      match otherMethod p.method p.index ch with
      | some method => e.next { p with method, index := p.index + 1 }
      | none => e.fail .invalidMethod

/-- A character of the URL, by `parse_url_char`. -/
def urlChar (s : ParserState) (ch : UInt8) : Outcome :=
  let state := parseUrlChar s ch
  let e := { e with parser := { e.parser with state } }
  if state = .dead then e.fail .invalidUrl else e.next e.parser

/-- `s_req_spaces_before_url`. -/
def reqSpacesBeforeUrl (ch : UInt8) : Outcome :=
  if ch = ' '.toUInt8 then e.next e.parser
  else
    let s : ParserState := if e.parser.method = HttpMethod.connect then .reqServerStart else .reqSpacesBeforeUrl
    { e with urlMark := some (e.urlMark.getD []) }.urlChar s ch

/-- `s_req_schema` to `s_req_server_start`. -/
def reqSchema (ch : UInt8) : Outcome :=
  if ch = ' '.toUInt8 ∨ ch = CR ∨ ch = LF then e.fail .invalidUrl else e.urlChar e.parser.state ch

/-- `s_req_server` to `s_req_fragment`. -/
def reqUrl (ch : UInt8) : Outcome :=
  if ch = ' '.toUInt8 then { e with parser := { e.parser with state := .reqHttpStart } }.callUrl
  else if ch = CR ∨ ch = LF then
    let state := if ch = CR then .reqLineAlmostDone else .headerFieldStart
    { e with parser := { e.parser with httpMajor := 0, httpMinor := 9, state } }.callUrl
  else e.urlChar e.parser.state ch

/-- `s_req_http_start`. -/
def reqHttpStart (ch : UInt8) : Outcome :=
  if ch = 'H'.toUInt8 then e.goTo .reqHttpH
  else if ch = ' '.toUInt8 then e.next e.parser
  else e.fail .invalidConstant

/-- `STRICT_CHECK` for a character, and on to a state. -/
def strict (expected : UInt8) (state : ParserState) (ch : UInt8) : Outcome :=
  if ch ≠ expected then e.fail .strict else e.goTo state

/-- `s_req_first_http_major`. -/
def reqFirstHttpMajor (ch : UInt8) : Outcome :=
  if ch < '1'.toUInt8 ∨ '9'.toUInt8 < ch then e.fail .invalidVersion
  else e.next { e.parser with httpMajor := (ch - '0'.toUInt8).toUInt16, state := .reqHttpMajor }

/-- `s_req_http_major`. -/
def reqHttpMajor (ch : UInt8) : Outcome :=
  if ch = '.'.toUInt8 then e.goTo .reqFirstHttpMinor
  else if !isNum ch then e.fail .invalidVersion
  else
    let httpMajor := e.parser.httpMajor * 10 + (ch - '0'.toUInt8).toUInt16
    let e := { e with parser := { e.parser with httpMajor } }
    if 999 < httpMajor then e.fail .invalidVersion else e.next e.parser

/-- `s_req_first_http_minor`. -/
def reqFirstHttpMinor (ch : UInt8) : Outcome :=
  if !isNum ch then e.fail .invalidVersion
  else e.next { e.parser with httpMinor := (ch - '0'.toUInt8).toUInt16, state := .reqHttpMinor }

/-- `s_req_http_minor`. -/
def reqHttpMinor (ch : UInt8) : Outcome :=
  if ch = CR then e.goTo .reqLineAlmostDone
  else if ch = LF then e.goTo .headerFieldStart
  else if !isNum ch then e.fail .invalidVersion
  else
    let httpMinor := e.parser.httpMinor * 10 + (ch - '0'.toUInt8).toUInt16
    let e := { e with parser := { e.parser with httpMinor } }
    if 999 < httpMinor then e.fail .invalidVersion else e.next e.parser

/-- `s_req_line_almost_done`. -/
def reqLineAlmostDone (ch : UInt8) : Outcome :=
  if ch ≠ LF then e.fail .lfExpected else e.goTo .headerFieldStart

/-! ## Headers -/

/-- `s_headers_done`. -/
def headersDone (ch : UInt8) : Outcome :=
  if ch ≠ LF then e.fail .strict
  else
    let p := { e.parser with nread := 0 }
    if p.upgrade then .leave { p with state := p.newMessage } [.messageComplete]
    else if p.flags.chunked then e.next { p with state := .chunkSizeStart }
    else if p.contentLength = 0 then { e with parser := p }.complete
    else if p.contentLength ≠ ullongMax then e.next { p with state := .bodyIdentity }
    else { e with parser := p }.complete

/-- `s_headers_almost_done`. -/
def headersAlmostDone (ch : UInt8) : Outcome :=
  if ch ≠ LF then e.fail .strict
  else if e.parser.flags.trailing then e.complete
  else
    let p := { e.parser with
      state := .headersDone
      upgrade := e.parser.flags.upgrade || e.parser.method == HttpMethod.connect }
    ({ e with parser := p }.headersDone ch).after [.headersComplete p.nread p.contentLength]

/-- What `s_header_field_start` begins to match. -/
def firstHeaderState (c : UInt8) : HeaderState :=
  if c = 'c'.toUInt8 then .c
  else if c = 'p'.toUInt8 then .matchingProxyConnection
  else if c = 't'.toUInt8 then .matchingTransferEncoding
  else if c = 'u'.toUInt8 then .matchingUpgrade
  else .general

/-- `s_header_field_start`. -/
def headerFieldStart (ch : UInt8) : Outcome :=
  if ch = CR then e.goTo .headersAlmostDone
  else if ch = LF then { e with parser := { e.parser with state := .headersAlmostDone } }.headersAlmostDone ch
  else if token ch = 0 then e.fail .invalidHeaderToken
  else e.next { e.parser with index := 0, state := .headerField, headerState := firstHeaderState (token ch) }

/-- A character of a header's name. -/
def headerFieldToken (p : HttpParser) (c : UInt8) : HttpParser :=
  match p.headerState with
  | .general => p
  | .c => { p with index := p.index + 1, headerState := if c = 'o'.toUInt8 then .co else .general }
  | .co => { p with index := p.index + 1, headerState := if c = 'n'.toUInt8 then .con else .general }
  | .con =>
    { p with
      index := p.index + 1
      headerState :=
        if c = 'n'.toUInt8 then .matchingConnection
        else if c = 't'.toUInt8 then .matchingContentLength
        else .general }
  | .matchingConnection => p.matching (bytesOf "connection") .connection c
  | .matchingProxyConnection => p.matching (bytesOf "proxy-connection") .connection c
  | .matchingContentLength => p.matching (bytesOf "content-length") .contentLength c
  | .matchingTransferEncoding => p.matching (bytesOf "transfer-encoding") .transferEncoding c
  | .matchingUpgrade => p.matching (bytesOf "upgrade") .upgrade c
  -- a token is not a space
  | .connection | .contentLength | .transferEncoding | .upgrade => { p with headerState := .general }
  -- the source asserts that it does not come here
  | _ => p

/-- `s_header_field`. -/
def headerField (ch : UInt8) : Outcome :=
  if token ch ≠ 0 then e.next (headerFieldToken e.parser (token ch))
  else if ch = ':'.toUInt8 then e.goTo .headerValueStart
  else if ch = CR then e.goTo .headerAlmostDone
  else if ch = LF then e.goTo .headerFieldStart
  else e.fail .invalidHeaderToken

/-- `s_header_value_start`; 9 is a tab. -/
def headerValueStart (ch : UInt8) : Outcome :=
  if ch = ' '.toUInt8 ∨ ch = 9 then e.next e.parser
  else
    let p := { e.parser with state := .headerValue, index := 0 }
    if ch = CR then e.next { p with headerState := .general, state := .headerAlmostDone }
    else if ch = LF then e.next { p with state := .headerFieldStart }
    else
      match p.headerState with
      | .upgrade => e.next { p with flags := { p.flags with upgrade := true }, headerState := .general }
      | .transferEncoding =>
        e.next { p with
          headerState := if lower ch = 'c'.toUInt8 then .matchingTransferEncodingChunked else .general }
      | .contentLength =>
        if !isNum ch then { e with parser := p }.fail .invalidContentLength
        else e.next { p with contentLength := (ch - '0'.toUInt8).toUInt64 }
      | .connection =>
        e.next { p with
          headerState :=
            if lower ch = 'k'.toUInt8 then .matchingConnectionKeepAlive
            else if lower ch = 'c'.toUInt8 then .matchingConnectionClose
            else .general }
      | _ => e.next { p with headerState := .general }

/-- `s_header_almost_done`. -/
def headerAlmostDone (ch : UInt8) : Outcome :=
  if ch ≠ LF then e.fail .strict
  else
    let p := { e.parser with state := .headerValueLws }
    match p.headerState with
    | .connectionKeepAlive => e.next { p with flags := { p.flags with keepAlive := true } }
    | .connectionClose => e.next { p with flags := { p.flags with close := true } }
    | .transferEncodingChunked => e.next { p with flags := { p.flags with chunked := true } }
    | _ => e.next p

/-- One more digit of a number in `content_length`, or an overflow. -/
def addDigit (base digit t : UInt64) : Option UInt64 :=
  let u := t * base + digit
  if u < t ∨ u = ullongMax then none else some u

/-- `s_header_value`. -/
def headerValue (ch : UInt8) : Outcome :=
  let p := e.parser
  if ch = CR then e.goTo .headerAlmostDone
  else if ch = LF then { e with parser := { p with state := .headerAlmostDone } }.headerAlmostDone ch
  else
    match p.headerState with
    | .general => e.next p
    | .contentLength =>
      if ch = ' '.toUInt8 then e.next p
      else if !isNum ch then e.fail .invalidContentLength
      else
        match addDigit 10 (ch - '0'.toUInt8).toUInt64 p.contentLength with
        | some contentLength => e.next { p with contentLength }
        | none => e.fail .invalidContentLength
    | .matchingTransferEncodingChunked =>
      e.next (p.matching (bytesOf "chunked") .transferEncodingChunked (lower ch))
    | .matchingConnectionKeepAlive =>
      e.next (p.matching (bytesOf "keep-alive") .connectionKeepAlive (lower ch))
    | .matchingConnectionClose =>
      e.next (p.matching (bytesOf "close") .connectionClose (lower ch))
    | .transferEncodingChunked | .connectionKeepAlive | .connectionClose =>
      if ch ≠ ' '.toUInt8 then e.next { p with headerState := .general } else e.next p
    -- the source asserts that it does not come here
    | .connection | .transferEncoding => e.next p
    | _ => e.next { p with headerState := .general }

/-- `s_header_value_lws`; 9 is a tab. -/
def headerValueLws (ch : UInt8) : Outcome :=
  if ch = ' '.toUInt8 ∨ ch = 9 then e.goTo .headerValueStart
  else { e with parser := { e.parser with state := .headerFieldStart } }.headerFieldStart ch

/-! ## Bodies -/

/-- `s_message_done`, when `p` has been moved on by `skipped`. -/
def messageDone (skipped : Nat) : Outcome :=
  .next { e with parser := { e.parser with state := e.parser.newMessage } } [.messageComplete] skipped

/-- `to_read` in a body: as much as is there of what is missing. -/
def toRead (rest : List UInt8) : Nat := min e.parser.contentLength.toNat (rest.length + 1)

/-- The parser when `to_read` bytes have been read. -/
def bodyRead (rest : List UInt8) : HttpParser :=
  { e.parser with contentLength := e.parser.contentLength - UInt64.ofNat (e.toRead rest) }

/-- `s_body_identity`. -/
def bodyIdentity (ch : UInt8) (rest : List UInt8) : Outcome :=
  let mark := e.bodyMark.getD []
  let skipped := e.toRead rest - 1
  let p := e.bodyRead rest
  if p.contentLength = 0 then
    ({ e with parser := { p with state := .messageDone }, bodyMark := none }.messageDone skipped).after
      [.body (mark ++ ch :: rest.take skipped)]
  else .next { e with parser := p, bodyMark := some mark } [] skipped

/-- `s_chunk_size_start`. -/
def chunkSizeStart (ch : UInt8) : Outcome :=
  match unhex ch with
  | none => e.fail .invalidChunkSize
  | some contentLength => e.next { e.parser with contentLength, state := .chunkSize }

/-- `s_chunk_size`. -/
def chunkSize (ch : UInt8) : Outcome :=
  if ch = CR then e.goTo .chunkSizeAlmostDone
  else
    match unhex ch with
    | none =>
      if ch = ';'.toUInt8 ∨ ch = ' '.toUInt8 then e.goTo .chunkParameters else e.fail .invalidChunkSize
    | some digit =>
      match addDigit 16 digit e.parser.contentLength with
      | some contentLength => e.next { e.parser with contentLength }
      | none => e.fail .invalidContentLength

/-- `s_chunk_parameters`. -/
def chunkParameters (ch : UInt8) : Outcome :=
  if ch = CR then e.goTo .chunkSizeAlmostDone else e.next e.parser

/-- `s_chunk_size_almost_done`. -/
def chunkSizeAlmostDone (ch : UInt8) : Outcome :=
  if ch ≠ LF then e.fail .strict
  else
    let p := { e.parser with nread := 0 }
    if p.contentLength = 0 then e.next { p with flags := { p.flags with trailing := true }, state := .headerFieldStart }
    else e.next { p with state := .chunkData }

/-- `s_chunk_data`. -/
def chunkData (rest : List UInt8) : Outcome :=
  let p := e.bodyRead rest
  let state := if p.contentLength = 0 then .chunkDataAlmostDone else p.state
  .next { e with parser := { p with state }, bodyMark := some (e.bodyMark.getD []) } [] (e.toRead rest - 1)

/-- `s_chunk_data_almost_done`. -/
def chunkDataAlmostDone (ch : UInt8) : Outcome :=
  if ch ≠ CR then e.fail .strict
  else { e with parser := { e.parser with state := .chunkDataDone } }.callBody

/-- `s_chunk_data_done`. -/
def chunkDataDone (ch : UInt8) : Outcome :=
  if ch ≠ LF then e.fail .strict else e.next { e.parser with nread := 0, state := .chunkSizeStart }

/-! ## The loop -/

/-- The `switch` on the state; `rest` is what follows in the buffer. -/
def switch (ch : UInt8) (rest : List UInt8) : Outcome :=
  match e.parser.state with
  | .dead => e.dead ch
  | .startReq => e.startReq ch
  | .reqMethod => e.reqMethod ch
  | .reqSpacesBeforeUrl => e.reqSpacesBeforeUrl ch
  | .reqSchema | .reqSchemaSlash | .reqSchemaSlashSlash | .reqServerStart => e.reqSchema ch
  | .reqServer | .reqServerWithAt | .reqPath | .reqQueryStringStart | .reqQueryString | .reqFragmentStart
  | .reqFragment => e.reqUrl ch
  | .reqHttpStart => e.reqHttpStart ch
  | .reqHttpH => e.strict 'T'.toUInt8 .reqHttpHT ch
  | .reqHttpHT => e.strict 'T'.toUInt8 .reqHttpHTT ch
  | .reqHttpHTT => e.strict 'P'.toUInt8 .reqHttpHTTP ch
  | .reqHttpHTTP => e.strict '/'.toUInt8 .reqFirstHttpMajor ch
  | .reqFirstHttpMajor => e.reqFirstHttpMajor ch
  | .reqHttpMajor => e.reqHttpMajor ch
  | .reqFirstHttpMinor => e.reqFirstHttpMinor ch
  | .reqHttpMinor => e.reqHttpMinor ch
  | .reqLineAlmostDone => e.reqLineAlmostDone ch
  | .headerFieldStart => e.headerFieldStart ch
  | .headerField => e.headerField ch
  | .headerValueStart => e.headerValueStart ch
  | .headerValue => e.headerValue ch
  | .headerValueLws => e.headerValueLws ch
  | .headerAlmostDone => e.headerAlmostDone ch
  | .chunkSizeStart => e.chunkSizeStart ch
  | .chunkSize => e.chunkSize ch
  | .chunkParameters => e.chunkParameters ch
  | .chunkSizeAlmostDone => e.chunkSizeAlmostDone ch
  | .headersAlmostDone => e.headersAlmostDone ch
  | .headersDone => e.headersDone ch
  | .chunkData => e.chunkData rest
  | .chunkDataAlmostDone => e.chunkDataAlmostDone ch
  | .chunkDataDone => e.chunkDataDone ch
  | .bodyIdentity => e.bodyIdentity ch rest
  | .messageDone => e.messageDone 0

/-- The body of the loop. -/
def byte (ch : UInt8) (rest : List UInt8) : Outcome :=
  if e.parser.state.parsingHeader then
    let e := { e with parser := { e.parser with nread := e.parser.nread + 1 } }
    if httpMaxHeaderSize < e.parser.nread then e.fail .headerOverflow else e.switch ch rest
  else e.switch ch rest

/-- `p` is moved on by these bytes. -/
def advance (bytes : List UInt8) : Exec :=
  { e with urlMark := e.urlMark.map (· ++ bytes), bodyMark := e.bodyMark.map (· ++ bytes) }

/-- The callbacks for the marks that are left over at the end of the buffer. -/
def leftover : List Callback :=
  (e.urlMark.map Callback.url).toList ++ (e.bodyMark.map Callback.body).toList

/-- The loop over the rest of the buffer, when the next bytes are to be skipped. -/
def loop (e : Exec) (skipped : Nat) : List UInt8 → HttpParser × List Callback
  | [] => (e.parser, e.leftover)
  | ch :: rest =>
    match skipped with
    | skipped + 1 => e.loop skipped rest
    | 0 =>
      match e.byte ch rest with
      | .next e calls skipped =>
        let (p, more) := (e.advance (ch :: rest.take skipped)).loop skipped rest
        (p, calls ++ more)
      | .leave p calls => (p, calls)

end Exec

/-- The states in which `url_mark` is set to the front of the buffer. -/
def ParserState.inUrl : ParserState → Bool
  | .reqSchema | .reqSchemaSlash | .reqSchemaSlashSlash | .reqServerStart | .reqServer | .reqServerWithAt | .reqPath
  | .reqQueryStringStart | .reqQueryString | .reqFragmentStart | .reqFragment => true
  | _ => false

/-- `http_parser_execute`: the parser after it, and the callbacks it makes. -/
def HttpParser.execute (p : HttpParser) (data : List UInt8) : HttpParser × List Callback :=
  if p.errno ≠ .ok then (p, [])
  else if data = [] then
    match p.state with
    | .dead | .startReq => (p, [])
    | _ => ({ p with errno := .invalidEofState }, [])
  else Exec.loop ⟨p, if p.state.inUrl then some [] else none, none⟩ 0 data

/-- A URL is called back in parts when the buffer ends in it. -/
example : (HttpParser.init.execute (bytesOf "GET /a")).2 = [.url (bytesOf "/a")] := by decide

end Netter.Http
