import Mathlib.Logic.Function.Basic
import Netter.Conn.Room
import Netter.Http.Conn

/-!
# Connections that share a wrapper

All HTTP connections of a loop use one `HttpParserWrapper`. `ParseHttpContent` sets every field of it and
parses all that is in the buffer of its connection, so what a connection gets to see depends on the bytes
it has received and on nothing else. `http_parser_execute` is a parameter here.
-/

namespace Netter.Http

open Lib BaseConn

/-- A function of the parser and its input, with the callbacks it makes. -/
abbrev HttpParserExecute := HttpParser → List UInt8 → HttpParser × List Callback

/-- `http_parser_init` on a parser that has been used: `memset`, then the fields. -/
def HttpParser.reinit (_ : HttpParser) : HttpParser := .init

/-- `ParseHttpContent` with `m_http_parser`. -/
def parseWith (execute : HttpParserExecute) (p : HttpParser) (w : HttpParserWrapper) (buf : List UInt8) :
    HttpParser × HttpParserWrapper :=
  let (p, calls) := execute p.reinit buf
  (p, calls.foldl HttpParserWrapper.call { w with readAll := false, totalLength := 0, url := [], bodyContent := [] })

/-- The rest of `HttpConn::OnRead`. -/
def serve (handlers : HttpHandlerMap) (w : HttpParserWrapper) : Option Served :=
  if w.readAll then
    match handlers.getHandler (handlerUrl w.getUrl) with
    | some handler => some (.handler handler w)
    | none => some .notFound
  else none

theorem onRead_eq_serve (handlers : HttpHandlerMap) (p : HttpParser) (w : HttpParserWrapper) (buf : List UInt8) :
    HttpConn.onRead handlers w buf = serve handlers (parseWith HttpParser.execute p w buf).2 := rfl

/-- An `OnRead`: the connection, all that it has received so far, and what has been done for it. -/
structure Observation where
  handle : NetHandle
  received : List UInt8
  served : Option Served

/-- The HTTP connections of a loop. -/
structure Shared where
  inBuf : NetHandle → SimpleBuffer
  registered : NetHandle → Bool
  parser : HttpParser
  wrapper : HttpParserWrapper
  /-- The bytes that `recv` has given to a connection. -/
  received : NetHandle → List UInt8
  observed : List Observation

/-- The constructor of the wrapper leaves its fields as they are. -/
def Shared.init (parser : HttpParser) (wrapper : HttpParserWrapper) : Shared :=
  ⟨fun _ => .init, fun _ => true, parser, wrapper, fun _ => [], []⟩

inductive SharedStep where
  /-- `OnRead` with the chunks that `recv` gives. A handler may call setters of the wrapper, and it may close
  the connection. -/
  | onRead (h : NetHandle) (chunks : List Chunk) (sets : HttpParserWrapper → HttpParserWrapper) (closes : Bool)
  | close (h : NetHandle)

/-- The step, or `none` if it leaves an allocation. -/
def SharedStep.exec (execute : HttpParserExecute) (handlers : HttpHandlerMap) (s : Shared) : SharedStep → Option Shared
  | .onRead h chunks sets closes =>
    if s.registered h then do
      let (_, after) ← receive chunks (s.inBuf h)
      let inBuf ← terminate after
      let buf ← load inBuf.buffer.cells 0 inBuf.writeOffset.toNat
      let (parser, wrapper) := parseWith execute s.parser s.wrapper buf
      let served := serve handlers wrapper
      let received := s.received h ++ chunkBytes chunks
      some {
        inBuf := Function.update s.inBuf h inBuf
        registered := match served with
          | some (.handler _ _) => Function.update s.registered h !closes
          | some .notFound => Function.update s.registered h false
          | none => s.registered
        parser
        wrapper := match served with
          | some (.handler _ _) => sets wrapper
          | _ => wrapper
        received := Function.update s.received h received
        observed := s.observed ++ [⟨h, received, served⟩] }
    else some s
  | .close h => some { s with registered := Function.update s.registered h false }

variable {execute : HttpParserExecute} {handlers : HttpHandlerMap} {s t : Shared} {b after ended : SimpleBuffer}
  {chunks : List Chunk}

/-- What a connection that has received these bytes gets to see in its `OnRead`. -/
def servedFor (execute : HttpParserExecute) (handlers : HttpHandlerMap) (received : List UInt8) : Option Served :=
  serve handlers (parseWith execute .init ⟨false, 0, [], []⟩ received).2

/-- Nothing in the parser or in the wrapper outlives `ParseHttpContent`. -/
theorem parseWith_fresh (p q : HttpParser) (w v : HttpParserWrapper) (buf : List UInt8) :
    parseWith execute p w buf = parseWith execute q v buf := rfl

/-- What is in the buffer of each connection is what it has received, and all that has been done is a function
of that. -/
structure Shared.Inv (execute : HttpParserExecute) (handlers : HttpHandlerMap) (s : Shared) : Prop where
  wf : ∀ h, (s.inBuf h).WF
  start : ∀ h, (s.inBuf h).readOffset = 0
  content : ∀ h, (s.inBuf h).content = s.received h
  function : ∀ o ∈ s.observed, o.served = servedFor execute handlers o.received

theorem Shared.Inv.init (parser : HttpParser) (wrapper : HttpParserWrapper) :
    (Shared.init parser wrapper).Inv execute handlers :=
  ⟨fun _ => SimpleBuffer.wf_init, fun _ => rfl, fun _ => rfl, nofun⟩

/-- The bytes that the parser is given. -/
theorem load_content (wf : b.WF) (start : b.readOffset = 0) : load b.buffer.cells 0 b.writeOffset.toNat = some b.content := by
  rw [load_zero (by rw [b.buffer.size]; exact wf.write_le), SimpleBuffer.content, start]
  rfl

/-- A NUL that is inside the allocation. -/
theorem room_of_terminate (ended : terminate b = some after) : b.writeOffset.toNat < b.allocSize.toNat := by
  simp only [terminate, SimpleBuffer.fill, Option.bind_eq_bind, Option.bind_eq_some_iff] at ended
  obtain ⟨cells, stored, -⟩ := ended
  exact (Block.of_store stored).1

/-- What `OnRead` does to the connection, for all buffers that it stays inside. -/
structure OnRead (s : Shared) (h : NetHandle) (chunks : List Chunk) (inBuf : SimpleBuffer) : Prop where
  wf : inBuf.WF
  start : inBuf.readOffset = 0
  content : inBuf.content = s.received h ++ chunkBytes chunks

theorem Shared.Inv.onRead (inv : s.Inv execute handlers) {h : NetHandle} {calls : List SimpleBuffer}
    (received : receive chunks (s.inBuf h) = some (calls, after)) (stored : terminate after = some ended) :
    OnRead s h chunks ended := by
  have room := room_of_terminate stored
  obtain ⟨wf, content, read⟩ := receive_of_some (inv.wf h) received (Nat.le_of_lt room)
  obtain ⟨ended', stored', wf', content', read', -⟩ := terminate_spec wf room
  rw [stored] at stored'
  cases stored'
  exact ⟨wf', by rw [read', read, inv.start], by rw [content', content, inv.content]⟩

theorem Shared.Inv.exec (inv : s.Inv execute handlers) {step : SharedStep} (stepped : step.exec execute handlers s = some t) :
    t.Inv execute handlers := by
  cases step with
  | close h =>
    cases stepped
    exact ⟨inv.wf, inv.start, inv.content, inv.function⟩
  | onRead h chunks sets closes =>
    simp only [SharedStep.exec] at stepped
    split at stepped
    next =>
      simp only [Option.bind_eq_bind, Option.bind_eq_some_iff] at stepped
      obtain ⟨⟨calls, after⟩, received, ended, stored, buf, loaded, same⟩ := stepped
      cases same
      obtain ⟨wf, start, content⟩ := inv.onRead received stored
      rw [load_content wf start, content] at loaded
      cases loaded
      refine ⟨fun k => ?_, fun k => ?_, fun k => ?_, fun o member => ?_⟩
      · rcases eq_or_ne k h with rfl | other
        · simpa using wf
        · simpa [other] using inv.wf k
      · rcases eq_or_ne k h with rfl | other
        · simpa using start
        · simpa [other] using inv.start k
      · rcases eq_or_ne k h with rfl | other
        · simpa using content
        · simpa [other] using inv.content k
      · rcases List.mem_append.mp member with before | now
        · exact inv.function o before
        · rw [List.mem_singleton.mp now]
          exact congrArg (fun parsed => serve handlers parsed.2) (parseWith_fresh ..)
    next =>
      cases stepped
      exact inv

/-- The buffer stays small enough in the next `OnRead`. -/
def SharedStep.Small (s : Shared) : SharedStep → Prop
  | .onRead h chunks _ _ => StaysSmall (s.inBuf h) (chunkBytes chunks).length
  | .close _ => True

/-- Steps that keep the buffers small leave no allocation. -/
theorem Shared.Inv.defined (inv : s.Inv execute handlers) {step : SharedStep} (small : step.Small s) :
    ∃ t, step.exec execute handlers s = some t ∧ t.Inv execute handlers := by
  suffices defined : ∃ t, step.exec execute handlers s = some t by
    obtain ⟨t, stepped⟩ := defined
    exact ⟨t, stepped, inv.exec stepped⟩
  cases step with
  | close h => exact ⟨_, rfl⟩
  | onRead h chunks sets closes =>
    obtain ⟨calls, after, received, -, all⟩ := receive_spec (inv.wf h) small
    obtain ⟨ended, stored, -⟩ := terminate_spec all.wf all.spare
    obtain ⟨wf, start, -⟩ := inv.onRead received stored
    simp only [SharedStep.exec, received, stored, load_content wf start, Option.bind_eq_bind, Option.bind_some]
    split <;> exact ⟨_, rfl⟩

/-- **Connections that share a wrapper do not influence each other**: two connections that have received the same
bytes get to see the same in their `OnRead`, in any two runs; and as long as no buffer gets too large
for its allocation, every run comes to its end. -/
theorem shared_wrapper (execute : HttpParserExecute) (handlers : HttpHandlerMap) :
    (∀ parser wrapper parser' wrapper' steps steps' t t',
      runPartial (SharedStep.exec execute handlers) (.init parser wrapper) steps = some t →
      runPartial (SharedStep.exec execute handlers) (.init parser' wrapper') steps' = some t' →
      ∀ o ∈ t.observed, ∀ o' ∈ t'.observed, o.received = o'.received → o.served = o'.served) ∧
    ∀ parser wrapper steps,
      AlongPartial (SharedStep.exec execute handlers) (fun s step => step.Small s) (.init parser wrapper) steps →
      ∃ t, runPartial (SharedStep.exec execute handlers) (.init parser wrapper) steps = some t := by
  constructor
  · intro parser wrapper parser' wrapper' steps steps' t t' ran ran' o member o' member' same
    have keep (s : Shared) (step : SharedStep) (t : Shared) (inv : s.Inv execute handlers)
        (stepped : step.exec execute handlers s = some t) : t.Inv execute handlers := inv.exec stepped
    have inv := runPartial_inv keep (Shared.Inv.init parser wrapper) ran
    have inv' := runPartial_inv keep (Shared.Inv.init parser' wrapper') ran'
    rw [inv.function o member, inv'.function o' member', same]
  · intro parser wrapper steps small
    obtain ⟨t, ran, -⟩ := runPartial_along (I := Shared.Inv execute handlers)
      (fun s step inv small => inv.defined small) (.init parser wrapper) small
    exact ⟨t, ran⟩

end Netter.Http
