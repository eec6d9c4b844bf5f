import Mathlib.Data.List.TakeWhile
import Netter.Http.Request
import Netter.Http.Conn

/-!
# What a handler sees

The wrapper puts together what is called back for the whole buffer, and it is asked only when the parser has
returned. So a handler sees its request alone if and only if nothing behind it reads as the beginning
of another one; otherwise its URL goes on with the URL of that.
-/

namespace Netter.Http

variable {calls more : List Callback} {request behind buf : List UInt8} {w : HttpParserWrapper}

/-! ## What is seen of a buffer -/

/-- The URL is the same as a C string. -/
theorem getUrl_parse (w : HttpParserWrapper) (buf : List UInt8) :
    (w.parseHttpContent buf).getUrl = urlOf (HttpParser.init.execute buf).2 := by
  have clean := HttpParser.ready_init.execute_clean buf
  rw [HttpParserWrapper.getUrl, parse_url, cString, List.takeWhile_eq_self_iff]
  intro byte member
  obtain ⟨call, called, inside⟩ := List.mem_flatMap.mp member
  have free := clean call called
  cases call with
  | url bytes =>
    have other : byte ≠ 0 := by
      rintro rfl
      exact free.2 inside
    simpa using other
  | headersComplete nread contentLength => cases inside
  | body bytes => cases inside
  | messageComplete => cases inside

/-! ## Requests and what is behind them -/

/-- The parser has been left, or it calls back no URL for the bytes behind the request. -/
def NothingBehind (request behind : List UInt8) : Prop :=
  (HttpParser.init.execute request).1.upgrade = true ∨
    ∀ bytes, .url bytes ∉ ((HttpParser.init.execute request).1.execute behind).2

/-- A handler that is called sees the request as if it were alone in the buffer. -/
def AsAlone (request behind : List UInt8) : Prop :=
  ∀ handlers w handler seen, HttpConn.onRead handlers w (request ++ behind) = some (.handler handler seen) →
    handlers.getHandler (handlerUrl (w.parseHttpContent request).getUrl) = some handler ∧
      seen.getUrl = (w.parseHttpContent request).getUrl ∧
      seen.getBodyContent = (w.parseHttpContent request).getBodyContent

theorem onRead_handler {handlers : HttpHandlerMap} {handler : HttpHandler} {seen : HttpParserWrapper}
    (called : HttpConn.onRead handlers w buf = some (.handler handler seen)) :
    seen = w.parseHttpContent buf ∧ handlers.getHandler (handlerUrl seen.getUrl) = some handler := by
  simp only [HttpConn.onRead] at called
  split at called
  · split at called
    next found =>
      cases called
      exact ⟨rfl, found⟩
    next => cases called
  · cases called

/-- The same is called back. -/
theorem AsAlone.of_same (same : (HttpParser.init.execute (request ++ behind)).2 = (HttpParser.init.execute request).2) :
    AsAlone request behind := by
  intro handlers w handler seen called
  obtain ⟨rfl, found⟩ := onRead_handler called
  have url : (w.parseHttpContent (request ++ behind)).getUrl = (w.parseHttpContent request).getUrl := by
    rw [getUrl_parse, getUrl_parse, same]
  refine ⟨url ▸ found, url, ?_⟩
  simp only [HttpParserWrapper.getBodyContent, parse_bodyContent, same]

/-- A URL behind the request is put behind its own. -/
theorem not_asAlone {bytes : List UInt8} (done : .messageComplete ∈ (HttpParser.init.execute request).2)
    (joined : (HttpParser.init.execute (request ++ behind)).2 = (HttpParser.init.execute request).2 ++ more)
    (url : .url bytes ∈ more) (filled : bytes ≠ []) : ¬ AsAlone request behind := by
  intro alone
  have w : HttpParserWrapper := ⟨false, 0, [], []⟩
  have read : (w.parseHttpContent (request ++ behind)).readAll = true := by
    rw [parse_readAll, joined]
    exact List.mem_append_left _ done
  have called : HttpConn.onRead [(handlerUrl (w.parseHttpContent (request ++ behind)).getUrl, 0)] w (request ++ behind) =
      some (.handler 0 (w.parseHttpContent (request ++ behind))) := by
    simp [HttpConn.onRead, read, HttpHandlerMap.getHandler]
  obtain ⟨-, same, -⟩ := alone _ w 0 _ called
  rw [getUrl_parse, getUrl_parse, joined, urlOf_append] at same
  have none : urlOf more = [] := List.append_right_eq_self.mp same
  exact filled (List.flatMap_eq_nil_iff.mp none _ url)

/-- **A handler sees one request** and not a mixture if and only if the parser calls back no URL for what is
behind the request. -/
theorem asAlone_iff (complete : Complete request) : AsAlone request behind ↔ NothingBehind request behind := by
  rcases complete.execute_append behind with ⟨upgrade, same⟩ | ⟨going, ready, joined⟩
  · exact ⟨fun _ => .inl upgrade, fun _ => .of_same same⟩
  · constructor
    · intro alone
      refine .inr fun bytes url => ?_
      exact not_asAlone complete.done joined url (ready.execute_clean behind _ url).1 alone
    · intro nothing
      have noUrl := nothing.resolve_left (by simp [going])
      rw [ready.execute_nil noUrl, List.append_nil] at joined
      exact .of_same joined

/-- A request and blank lines behind it. -/
theorem asAlone_blank : AsAlone (bytesOf "GET /a HTTP/1.1\r\n\r\n") (bytesOf "\r\n") ↔
    NothingBehind (bytesOf "GET /a HTTP/1.1\r\n\r\n") (bytesOf "\r\n") :=
  asAlone_iff (Complete.of_take (by decide +kernel) (by decide +kernel))

/-- Two requests in one buffer: the handler of `/a/b` is called. -/
theorem not_asAlone_pipelined : Complete (bytesOf "GET /a HTTP/1.1\r\n\r\n") ∧
    ¬ AsAlone (bytesOf "GET /a HTTP/1.1\r\n\r\n") (bytesOf "GET /b HTTP/1.1\r\n\r\n") := by
  refine ⟨Complete.of_take (by decide +kernel) (by decide +kernel), fun alone => ?_⟩
  have seen := alone [(bytesOf "/a/b", 1)] ⟨false, 0, [], []⟩ 1 ⟨true, 18, bytesOf "/a/b", []⟩ (by decide +kernel)
  exact absurd seen.2.1 (by decide +kernel)

end Netter.Http
