import Mathlib.Data.List.Basic

/-!
# What `http_parser` reads

Characters, methods and the states of the bundled parser, as far as it reads requests, and the part
of it that goes through a URL. It is compiled with its default, `HTTP_PARSER_STRICT`.
-/

namespace Netter.Http

def CR : UInt8 := 13

def LF : UInt8 := 10

/-- The bytes of a text. -/
def bytesOf (text : String) : List UInt8 := text.toList.map Char.toUInt8

/-- `enum state` without the states for responses, in the order of the source. -/
inductive ParserState where
  | dead
  | startReq
  | reqMethod
  | reqSpacesBeforeUrl
  | reqSchema
  | reqSchemaSlash
  | reqSchemaSlashSlash
  | reqServerStart
  | reqServer
  | reqServerWithAt
  | reqPath
  | reqQueryStringStart
  | reqQueryString
  | reqFragmentStart
  | reqFragment
  | reqHttpStart
  | reqHttpH
  | reqHttpHT
  | reqHttpHTT
  | reqHttpHTTP
  | reqFirstHttpMajor
  | reqHttpMajor
  | reqFirstHttpMinor
  | reqHttpMinor
  | reqLineAlmostDone
  | headerFieldStart
  | headerField
  | headerValueStart
  | headerValue
  | headerValueLws
  | headerAlmostDone
  | chunkSizeStart
  | chunkSize
  | chunkParameters
  | chunkSizeAlmostDone
  | headersAlmostDone
  | headersDone
  | chunkData
  | chunkDataAlmostDone
  | chunkDataDone
  | bodyIdentity
  | messageDone
  deriving DecidableEq

/-- `PARSING_HEADER`. -/
def ParserState.parsingHeader : ParserState → Bool
  | .chunkData | .chunkDataAlmostDone | .chunkDataDone | .bodyIdentity | .messageDone => false
  | _ => true

/-- `enum header_states`. -/
inductive HeaderState where
  | general
  | c
  | co
  | con
  | matchingConnection
  | matchingProxyConnection
  | matchingContentLength
  | matchingTransferEncoding
  | matchingUpgrade
  | connection
  | contentLength
  | transferEncoding
  | upgrade
  | matchingTransferEncodingChunked
  | matchingConnectionKeepAlive
  | matchingConnectionClose
  | transferEncodingChunked
  | connectionKeepAlive
  | connectionClose
  deriving DecidableEq

/-- `enum http_method`. -/
inductive HttpMethod where
  | delete
  | get
  | head
  | post
  | put
  | connect
  | options
  | trace
  | copy
  | lock
  | mkcol
  | move
  | propfind
  | proppatch
  | search
  | unlock
  | report
  | mkactivity
  | checkout
  | merge
  | msearch
  | notify
  | subscribe
  | unsubscribe
  | patch
  | purge
  deriving DecidableEq

/-- `method_strings`. -/
def HttpMethod.string : HttpMethod → List UInt8
  | .delete => bytesOf "DELETE"
  | .get => bytesOf "GET"
  | .head => bytesOf "HEAD"
  | .post => bytesOf "POST"
  | .put => bytesOf "PUT"
  | .connect => bytesOf "CONNECT"
  | .options => bytesOf "OPTIONS"
  | .trace => bytesOf "TRACE"
  | .copy => bytesOf "COPY"
  | .lock => bytesOf "LOCK"
  | .mkcol => bytesOf "MKCOL"
  | .move => bytesOf "MOVE"
  | .propfind => bytesOf "PROPFIND"
  | .proppatch => bytesOf "PROPPATCH"
  | .search => bytesOf "SEARCH"
  | .unlock => bytesOf "UNLOCK"
  | .report => bytesOf "REPORT"
  | .mkactivity => bytesOf "MKACTIVITY"
  | .checkout => bytesOf "CHECKOUT"
  | .merge => bytesOf "MERGE"
  | .msearch => bytesOf "M-SEARCH"
  | .notify => bytesOf "NOTIFY"
  | .subscribe => bytesOf "SUBSCRIBE"
  | .unsubscribe => bytesOf "UNSUBSCRIBE"
  | .patch => bytesOf "PATCH"
  | .purge => bytesOf "PURGE"

/-- `HPE_OK` and the errors of a request, without those of callbacks, which return 0 here. -/
inductive HttpErrno where
  | ok
  | invalidEofState
  | headerOverflow
  | closedConnection
  | invalidVersion
  | invalidMethod
  | invalidUrl
  | lfExpected
  | invalidHeaderToken
  | invalidContentLength
  | invalidChunkSize
  | invalidConstant
  | strict
  deriving DecidableEq

/-! ## Characters -/

/-- `LOWER`. -/
def lower (ch : UInt8) : UInt8 := ch ||| 0x20

/-- `IS_ALPHA`. -/
def isAlpha (ch : UInt8) : Bool := 'a'.toUInt8 ≤ lower ch && lower ch ≤ 'z'.toUInt8

/-- `IS_NUM`. -/
def isNum (ch : UInt8) : Bool := '0'.toUInt8 ≤ ch && ch ≤ '9'.toUInt8

/-- `IS_MARK`; 39 is the apostrophe. -/
def isMark (ch : UInt8) : Bool :=
  (bytesOf "-_.!~*()").contains ch || ch == 39

/-- `IS_USERINFO_CHAR`. -/
def isUserinfoChar (ch : UInt8) : Bool :=
  isAlpha ch || isNum ch || isMark ch || (bytesOf "%;:&=+$,").contains ch

/-- The table `normal_url_char`: the visible characters but `#` and `?`. -/
def isUrlChar (ch : UInt8) : Bool := 33 ≤ ch && ch ≤ 126 && ch != '#'.toUInt8 && ch != '?'.toUInt8

/-- The table `tokens`: the character in lower case, or 0 for one that is not allowed in a token. -/
def token (ch : UInt8) : UInt8 :=
  if 'A'.toUInt8 ≤ ch ∧ ch ≤ 'Z'.toUInt8 then lower ch
  else if isAlpha ch || isNum ch || ch == 39 ||
      (bytesOf "!#$%&*+-.^_|~").contains ch || ch == 96 then ch
  else 0

/-- The table `unhex`, or `none` for -1. Its upper half has no initializers, so it is 0. -/
def unhex (ch : UInt8) : Option UInt64 :=
  if isNum ch then some (ch - '0'.toUInt8).toUInt64
  else if 'a'.toUInt8 ≤ lower ch ∧ lower ch ≤ 'f'.toUInt8 then some (lower ch - 'a'.toUInt8 + 10).toUInt64
  else if 128 ≤ ch then some 0
  else none

/-! ## URLs -/

/-- `s_req_server_start` and `s_req_server` in `parse_url_char`. -/
def parseServerChar (ch : UInt8) : ParserState :=
  if ch = '/'.toUInt8 then .reqPath
  else if ch = '?'.toUInt8 then .reqQueryStringStart
  else if ch = '@'.toUInt8 then .reqServerWithAt
  else if isUserinfoChar ch || ch == '['.toUInt8 || ch == ']'.toUInt8 then .reqServer
  else .dead

/-- `parse_url_char`. -/
def parseUrlChar (s : ParserState) (ch : UInt8) : ParserState :=
  -- blanks; 9 and 12 are tab and form feed
  if ch = ' '.toUInt8 ∨ ch = CR ∨ ch = LF ∨ ch = 9 ∨ ch = 12 then .dead
  else
    match s with
    | .reqSpacesBeforeUrl =>
      if ch = '/'.toUInt8 ∨ ch = '*'.toUInt8 then .reqPath else if isAlpha ch then .reqSchema else .dead
    | .reqSchema => if isAlpha ch then s else if ch = ':'.toUInt8 then .reqSchemaSlash else .dead
    | .reqSchemaSlash => if ch = '/'.toUInt8 then .reqSchemaSlashSlash else .dead
    | .reqSchemaSlashSlash => if ch = '/'.toUInt8 then .reqServerStart else .dead
    | .reqServerWithAt => if ch = '@'.toUInt8 then .dead else parseServerChar ch
    | .reqServerStart | .reqServer => parseServerChar ch
    | .reqPath =>
      if isUrlChar ch then s
      else if ch = '?'.toUInt8 then .reqQueryStringStart
      else if ch = '#'.toUInt8 then .reqFragmentStart
      else .dead
    | .reqQueryStringStart | .reqQueryString =>
      if isUrlChar ch || ch == '?'.toUInt8 then .reqQueryString
      else if ch = '#'.toUInt8 then .reqFragmentStart
      else .dead
    | .reqFragmentStart =>
      if isUrlChar ch || ch == '?'.toUInt8 then .reqFragment else if ch = '#'.toUInt8 then s else .dead
    | .reqFragment => if isUrlChar ch || ch == '?'.toUInt8 || ch == '#'.toUInt8 then s else .dead
    | _ => .dead

end Netter.Http
