import Netter.Http.Execute

/-!
# The heads that are accepted

The grammar that the parser goes by, which is wider than the one of the protocol: line breaks before a request, any number of
blanks, lines that end in a line feed alone, header lines without a colon and those that go on in the next line. It is given
here apart from the parser.
-/

namespace Netter.Http

/-- A visible character. -/
def isVisible (ch : UInt8) : Bool := 33 ≤ ch && ch ≤ 126

def isBlank (ch : UInt8) : Bool := ch == ' '.toUInt8 || ch == 9

/-- A character inside of a line. -/
def inLine (ch : UInt8) : Bool := ch != CR && ch != LF

/-- The end of a line. -/
def Eol (text : List UInt8) : Prop := text = [CR, LF] ∨ text = [LF]

/-- What comes before the URL: line breaks, the method and at least one space. -/
inductive BeforeUrl (method : HttpMethod) : List UInt8 → Prop where
  | mk (breaks spaces : List UInt8) (empty : ∀ ch ∈ breaks, inLine ch = false) (blank : ∀ ch ∈ spaces, ch = ' '.toUInt8) :
    BeforeUrl method (breaks ++ (method.string ++ (' '.toUInt8 :: spaces)))

/-- A URL: a path, a schema and a server with what follows, or with `CONNECT` a server. -/
inductive UrlForm (method : HttpMethod) : List UInt8 → Prop where
  | path (first : UInt8) (rest : List UInt8) (other : method ≠ .connect) (is : first = '/'.toUInt8 ∨ first = '*'.toUInt8) :
    UrlForm method (first :: rest)
  | server (schema rest : List UInt8) (other : method ≠ .connect) (filled : schema ≠ []) (letters : ∀ ch ∈ schema, isAlpha ch = true)
      (some : rest ≠ []) : UrlForm method (schema ++ (bytesOf "://" ++ rest))
  | connect (first : UInt8) (rest : List UInt8) (is : method = .connect) : UrlForm method (first :: rest)

structure Url (method : HttpMethod) (url : List UInt8) : Prop where
  form : UrlForm method url
  visible : ∀ ch ∈ url, isVisible ch = true

/-- Digits, at least one. -/
structure Digits (text : List UInt8) : Prop where
  filled : text ≠ []
  digits : ∀ ch ∈ text, isNum ch = true

/-- What comes between the URL and the end of the line; nothing in a request of HTTP/0.9. -/
inductive Version : List UInt8 → Prop where
  | simple : Version []
  | numbered (spaces major minor : List UInt8) (some : spaces ≠ []) (blank : ∀ ch ∈ spaces, ch = ' '.toUInt8)
      (first : Digits major) (second : Digits minor) :
    Version (spaces ++ (bytesOf "HTTP/" ++ (major ++ (bytesOf "." ++ minor))))

/-- The name of a header. -/
structure Name (text : List UInt8) : Prop where
  filled : text ≠ []
  tokens : ∀ ch ∈ text, token ch ≠ 0

/-- A header line that has come to its value, or a line in which a value goes on. -/
inductive Valued : List UInt8 → Prop where
  | named (name value : List UInt8) (is : Name name) (inside : ∀ ch ∈ value, inLine ch = true) :
    Valued (name ++ (':'.toUInt8 :: value))
  | folded (blank : UInt8) (value : List UInt8) (is : isBlank blank = true) (inside : ∀ ch ∈ value, inLine ch = true) :
    Valued (blank :: value)

/-- A header line without its end. -/
def Field (text : List UInt8) : Prop := Name text ∨ Valued text

/-- All lines from the URL on: the rest of the request line, and headers. -/
inductive FieldLines : List UInt8 → Prop where
  | request {version last : List UInt8} (is : Version version) (ends : Eol last) : FieldLines (version ++ last)
  | field {lines line last : List UInt8} (before : FieldLines lines) (is : Field line) (ends : Eol last) :
    FieldLines (lines ++ (line ++ last))

/-- The head of a request, with the empty line at its end. -/
inductive Head (method : HttpMethod) (url : List UInt8) : List UInt8 → Prop where
  | mk {before lines last : List UInt8} (starts : BeforeUrl method before) (is : Url method url) (all : FieldLines lines)
      (ends : Eol last) : Head method url (before ++ (url ++ (lines ++ last)))

end Netter.Http
