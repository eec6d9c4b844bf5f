import Netter.Http.Execute

/-!
# `HttpConn`

The wrapper around the parser, the table of handlers, and what `HttpConn::OnRead` does with all that a
connection has received. One wrapper serves all connections of a loop; each call of `ParseHttpContent`
parses the whole buffer from its first byte.
-/

namespace Netter.Http

/-- `HttpParserWrapper`, without the parser, which is initialized in each call. -/
structure HttpParserWrapper where
  readAll : Bool
  totalLength : UInt32
  url : List UInt8
  bodyContent : List UInt8
  deriving DecidableEq

/-- What a `char*` to these bytes is read as. -/
def cString (bytes : List UInt8) : List UInt8 := bytes.takeWhile (· ≠ 0)

namespace HttpParserWrapper

/-- `OnUrl`, `OnHeadersComplete`, `OnBody` and `OnMessageComplete`. -/
def call (w : HttpParserWrapper) : Callback → HttpParserWrapper
  | .url bytes => { w with url := w.url ++ bytes }
  | .headersComplete nread contentLength => { w with totalLength := nread + contentLength.toUInt32 }
  | .body bytes => { w with bodyContent := w.bodyContent ++ bytes }
  | .messageComplete => { w with readAll := true }

/-- `ParseHttpContent`. -/
def parseHttpContent (w : HttpParserWrapper) (buf : List UInt8) : HttpParserWrapper :=
  (HttpParser.init.execute buf).2.foldl call
    { w with readAll := false, totalLength := 0, url := [], bodyContent := [] }

/-- `GetUrl`. -/
def getUrl (w : HttpParserWrapper) : List UInt8 := cString w.url

/-- `GetBodyContent`. -/
def getBodyContent (w : HttpParserWrapper) : List UInt8 := cString w.bodyContent

end HttpParserWrapper

/-- `http_handler_t`: a function, by its address. -/
abbrev HttpHandler := Nat

/-- `HttpHandlerMap_t`, with a pair for each URL that a handler has been added for. -/
abbrev HttpHandlerMap := List (List UInt8 × HttpHandler)

/-- `GetHandler`. -/
def HttpHandlerMap.getHandler (handlers : HttpHandlerMap) (url : List UInt8) : Option HttpHandler := handlers.lookup url

/-- `handler_url` in `OnRead`: the URL up to the first question mark. -/
def handlerUrl (url : List UInt8) : List UInt8 := url.takeWhile (· ≠ '?'.toUInt8)

/-- What `OnRead` does with a request that has been read: a handler is called with the wrapper, or the
reply is 404 and the connection is closed. -/
inductive Served where
  | handler (handler : HttpHandler) (w : HttpParserWrapper)
  | notFound
  deriving DecidableEq

namespace HttpConn

/-- `OnRead` after `_RecvData`, with all that has been received. -/
def onRead (handlers : HttpHandlerMap) (w : HttpParserWrapper) (buf : List UInt8) : Option Served :=
  let w := w.parseHttpContent buf
  if w.readAll then
    match handlers.getHandler (handlerUrl w.getUrl) with
    | some handler => some (.handler handler w)
    | none => some .notFound
  else none

end HttpConn

/-! ## The wrapper after its callbacks -/

variable {calls more : List Callback} {buf : List UInt8} {w : HttpParserWrapper}

/-- The bytes that are called back for a URL. -/
def urlOf (calls : List Callback) : List UInt8 :=
  calls.flatMap fun
    | .url bytes => bytes
    | _ => []

/-- The bytes that are called back for a body. -/
def bodyOf (calls : List Callback) : List UInt8 :=
  calls.flatMap fun
    | .body bytes => bytes
    | _ => []

theorem urlOf_append : urlOf (calls ++ more) = urlOf calls ++ urlOf more := List.flatMap_append

theorem foldl_call (w : HttpParserWrapper) (calls : List Callback) :
    (calls.foldl HttpParserWrapper.call w).url = w.url ++ urlOf calls ∧
      (calls.foldl HttpParserWrapper.call w).bodyContent = w.bodyContent ++ bodyOf calls ∧
      ((calls.foldl HttpParserWrapper.call w).readAll = true ↔ w.readAll = true ∨ .messageComplete ∈ calls) := by
  induction calls generalizing w with
  | nil => simp [urlOf, bodyOf]
  | cons call calls ih =>
    obtain ⟨url, body, readAll⟩ := ih (w.call call)
    rw [List.foldl_cons, url, body, readAll]
    cases call <;> simp [HttpParserWrapper.call, urlOf, bodyOf]

@[simp] theorem parse_url (w : HttpParserWrapper) (buf : List UInt8) :
    (w.parseHttpContent buf).url = urlOf (HttpParser.init.execute buf).2 :=
  (foldl_call _ _).1

@[simp] theorem parse_bodyContent (w : HttpParserWrapper) (buf : List UInt8) :
    (w.parseHttpContent buf).bodyContent = bodyOf (HttpParser.init.execute buf).2 :=
  (foldl_call _ _).2.1

theorem parse_readAll (w : HttpParserWrapper) (buf : List UInt8) :
    (w.parseHttpContent buf).readAll = true ↔ .messageComplete ∈ (HttpParser.init.execute buf).2 := by
  refine (foldl_call _ _).2.2.trans ?_
  simp

/-- A request is served exactly if it has been read. -/
theorem isSome_onRead (handlers : HttpHandlerMap) (w : HttpParserWrapper) (buf : List UInt8) :
    (HttpConn.onRead handlers w buf).isSome = true ↔ .messageComplete ∈ (HttpParser.init.execute buf).2 := by
  rw [← parse_readAll w]
  simp only [HttpConn.onRead]
  split
  next read => split <;> simp [read]
  next unread => simp [unread]

end Netter.Http
