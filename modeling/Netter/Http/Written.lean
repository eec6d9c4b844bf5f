import Mathlib.Data.Nat.Digits.Defs
import Netter.Http.Execute

/-!
# Requests as they are written

What a client may send: a request line for a path, header lines, and no body, one with its length before it or one in
chunks. The grammar leaves open how numbers and names are spelled, and so do these types; a field of a type
says what the grammar asks for.
-/

namespace Netter.Http

def crlf : List UInt8 := [CR, LF]

/-- What a check finds of each byte of a text. -/
theorem forall_of_all {P : UInt8 → Prop} [DecidablePred P] {text : List UInt8}
    (all : text.all (fun ch => decide (P ch)) = true) : ∀ ch ∈ text, P ch := by
  simpa using all

/-! ## Numbers -/

/-- A digit of either case. -/
def isXdigit (ch : UInt8) : Bool := isNum ch || ('a'.toUInt8 ≤ lower ch && lower ch ≤ 'f'.toUInt8)

/-- What a digit stands for. -/
def digit (ch : UInt8) : Nat := if isNum ch then (ch - '0'.toUInt8).toNat else (lower ch - 'a'.toUInt8 + 10).toNat

/-- The number that a text stands for. -/
def valueOf (base : Nat) (text : List UInt8) : Nat := Nat.ofDigits base (text.reverse.map digit)

/-- A spelling of a number, maybe with zeros in front. -/
structure Numeral (base : Nat) (text : List UInt8) (n : Nat) : Prop where
  filled : text ≠ []
  digits : ∀ ch ∈ text, isXdigit ch = true ∧ digit ch < base
  counts : valueOf base text = n

/-! ## Headers -/

/-- The names of the headers that say how a body is framed, or that there is none of this protocol. -/
def framingNames : List (List UInt8) := [bytesOf "content-length", bytesOf "transfer-encoding", bytesOf "upgrade"]

/-- A header that does not frame the body. -/
structure Header where
  name : List UInt8
  value : List UInt8
  filled : name ≠ []
  tokens : ∀ ch ∈ name, token ch ≠ 0
  plain : name.map token ∉ framingNames
  inLine : ∀ ch ∈ value, ch ≠ CR ∧ ch ≠ LF

def Header.encode (header : Header) : List UInt8 := header.name ++ (bytesOf ":" ++ (header.value ++ crlf))

/-- A header that frames the body, but for its value: its name in either case and the blanks around the value; 9 is a tab. -/
structure FramingHeader (word : List UInt8) where
  name : List UInt8
  before : List UInt8
  after : List UInt8
  spells : name.map token = word
  blank : ∀ ch ∈ before, ch = ' '.toUInt8 ∨ ch = 9
  spaces : ∀ ch ∈ after, ch = ' '.toUInt8

def FramingHeader.encode {word : List UInt8} (header : FramingHeader word) (value : List UInt8) : List UInt8 :=
  header.name ++ (bytesOf ":" ++ (header.before ++ (value ++ (header.after ++ crlf))))

/-! ## Bodies -/

/-- The line before a chunk, with what may follow the size. -/
structure SizeLine (n : Nat) where
  size : List UInt8
  extension : List UInt8
  numeral : Numeral 16 size n
  starts : ∀ ch ∈ extension.head?, ch = ';'.toUInt8 ∨ ch = ' '.toUInt8
  inLine : ∀ ch ∈ extension, ch ≠ CR
  small : size.length + (extension.length + 2) ≤ httpMaxHeaderSize.toNat

def SizeLine.encode {n : Nat} (line : SizeLine n) : List UInt8 := line.size ++ (line.extension ++ crlf)

/-- A chunk of a body. -/
structure Piece where
  bytes : List UInt8
  filled : bytes ≠ []
  fits : bytes.length < ullongMax.toNat
  line : SizeLine bytes.length

def Piece.encode (piece : Piece) : List UInt8 := piece.line.encode ++ (piece.bytes ++ crlf)

/-- A body, with what the headers say of it. -/
inductive Body where
  | none
  | counted (header : FramingHeader (bytesOf "content-length")) (length bytes : List UInt8)
      (numeral : Numeral 10 length bytes.length) (fits : bytes.length < ullongMax.toNat)
  | chunked (header : FramingHeader (bytesOf "transfer-encoding")) (coding : List UInt8)
      (spells : coding.map lower = bytesOf "chunked") (pieces : List Piece) (last : SizeLine 0) (trailer : List Header)
      (small : (trailer.flatMap Header.encode).length + 2 ≤ httpMaxHeaderSize.toNat)

namespace Body

/-- The header that frames it. -/
def header : Body → List UInt8
  | .none => []
  | .counted header length _ _ _ => header.encode length
  | .chunked header coding _ _ _ _ _ => header.encode coding

/-- `content_length` behind that header. -/
def length : Body → UInt64
  | .counted _ _ bytes _ _ => UInt64.ofNat bytes.length
  | _ => ullongMax

def encode : Body → List UInt8
  | .none => []
  | .counted _ _ bytes _ _ => bytes
  | .chunked _ _ _ pieces last trailer _ =>
    pieces.flatMap Piece.encode ++ (last.encode ++ (trailer.flatMap Header.encode ++ crlf))

/-- What is sent. -/
def content : Body → List UInt8
  | .none => []
  | .counted _ _ bytes _ _ => bytes
  | .chunked _ _ _ pieces _ _ _ => pieces.flatMap Piece.bytes

end Body

/-! ## Requests -/

/-- A request; `path` is what the URL begins with, a slash or a star. -/
structure Request where
  method : HttpMethod
  path : UInt8
  target : List UInt8
  major : UInt8
  minor : UInt8
  headers : List Header
  body : Body
  more : List Header
  notConnect : method ≠ .connect
  absolute : path = '/'.toUInt8 ∨ path = '*'.toUInt8
  visible : ∀ ch ∈ target, 33 ≤ ch ∧ ch ≤ 126
  version : isNum major = true ∧ isNum minor = true ∧ major ≠ '0'.toUInt8

namespace Request

variable (request : Request)

def url : List UInt8 := request.path :: request.target

/-- The request line. -/
def line : List UInt8 :=
  request.method.string ++ (bytesOf " " ++ (request.url ++
    (bytesOf " HTTP/" ++ ([request.major] ++ (bytesOf "." ++ ([request.minor] ++ crlf))))))

/-- All before the body. -/
def head : List UInt8 :=
  request.line ++ (request.headers.flatMap Header.encode ++
    (request.body.header ++ (request.more.flatMap Header.encode ++ crlf)))

def encode : List UInt8 := request.head ++ request.body.encode

end Request

end Netter.Http
