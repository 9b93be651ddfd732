import Embassy.PyBytes

/-!
# HTTP/1.1 responses

What a server may send in answer to a `GET`: a status line, header fields, and a body in one of the three
framings. `raw` is what goes over the wire, `body` what the server has to say.
-/

namespace Embassy

namespace Http

def ascii (s : String) : List UInt8 := s.toList.map fun c => UInt8.ofNat c.toNat

def cr : UInt8 := 0x0D

def lf : UInt8 := 0x0A

def sp : UInt8 := 0x20

def colon : UInt8 := 0x3A

def crlf : List UInt8 := [cr, lf]

/-- Bytes that do not end a line. -/
def OneLine (bs : List UInt8) : Prop := cr ∉ bs ∧ lf ∉ bs

instance (bs : List UInt8) : Decidable (OneLine bs) := inferInstanceAs (Decidable (cr ∉ bs ∧ lf ∉ bs))

def isDigit (b : UInt8) : Bool := 0x30 ≤ b.toNat ∧ b.toNat ≤ 0x39

def isAlpha (b : UInt8) : Bool := 0x41 ≤ b.toNat ∧ b.toNat ≤ 0x5A ∨ 0x61 ≤ b.toNat ∧ b.toNat ≤ 0x7A

/-- The bytes of a token. -/
def isTchar (b : UInt8) : Bool :=
  isDigit b || isAlpha b ||
    b.toNat ∈ [0x21, 0x23, 0x24, 0x25, 0x26, 0x27, 0x2A, 0x2B, 0x2D, 0x2E, 0x5E, 0x5F, 0x60, 0x7C, 0x7E]

def lower (bs : List UInt8) : List UInt8 := bs.map fun b => if 0x41 ≤ b.toNat ∧ b.toNat ≤ 0x5A then b + 0x20 else b

/-- Optional white space is taken off. -/
def trim (bs : List UInt8) : List UInt8 :=
  let blank (b : UInt8) : Bool := b.toNat = 0x20 ∨ b.toNat = 0x09
  (bs.dropWhile blank).rdropWhile blank

def number? (digit? : UInt8 → Option ℕ) (base : ℕ) (bs : List UInt8) : Option ℕ :=
  if bs = [] then none else (bs.mapM digit?).map fun ds => ds.foldl (fun n d => base * n + d) 0

def hexDigit? (b : UInt8) : Option ℕ :=
  if isDigit b then some (b.toNat - 0x30)
  else if 0x41 ≤ b.toNat ∧ b.toNat ≤ 0x46 then some (b.toNat - 0x41 + 10)
  else if 0x61 ≤ b.toNat ∧ b.toNat ≤ 0x66 then some (b.toNat - 0x61 + 10)
  else none

/-- Three digits. -/
structure StatusCode where
  hundreds : Fin 10
  tens : Fin 10
  ones : Fin 10
  deriving DecidableEq, Repr

namespace StatusCode

def digitByte (d : Fin 10) : UInt8 := UInt8.ofNat (0x30 + d)

def bytes (c : StatusCode) : List UInt8 := [digitByte c.hundreds, digitByte c.tens, digitByte c.ones]

def value (c : StatusCode) : ℤ := 100 * c.hundreds + 10 * c.tens + c.ones

/-- Responses with these statuses end with their head. -/
def Bodiless (c : StatusCode) : Prop := c.hundreds = 1 ∨ c.value = 204 ∨ c.value = 304

instance (c : StatusCode) : Decidable c.Bodiless :=
  inferInstanceAs (Decidable (c.hundreds = 1 ∨ c.value = 204 ∨ c.value = 304))

end StatusCode

structure Field where
  name : List UInt8
  value : List UInt8
  token : name ≠ [] ∧ ∀ b ∈ name, isTchar b = true
  oneLine : OneLine value

namespace Field

def line (f : Field) : List UInt8 := f.name ++ colon :: f.value

/-- Names are compared without case. -/
def Is (f : Field) (name : String) : Prop := lower f.name = ascii name

instance (f : Field) (name : String) : Decidable (f.Is name) :=
  inferInstanceAs (Decidable (lower f.name = ascii name))

end Field

/-- A chunk of the chunked transfer coding. -/
structure Chunk where
  size : List UInt8
  extension : List UInt8
  data : List UInt8
  sized : number? hexDigit? 16 size = some data.length
  nonempty : data ≠ []
  oneLine : OneLine extension
  apart : ∀ b ∈ extension.head?, hexDigit? b = none

def Chunk.bytes (c : Chunk) : List UInt8 := c.size ++ c.extension ++ crlf ++ c.data ++ crlf

/-- The last chunk, which has no data, and the trailer after it. -/
structure LastChunk where
  size : List UInt8
  extension : List UInt8
  trailer : List Field
  sized : number? hexDigit? 16 size = some 0
  oneLine : OneLine extension
  apart : ∀ b ∈ extension.head?, hexDigit? b = none

def LastChunk.bytes (c : LastChunk) : List UInt8 :=
  c.size ++ c.extension ++ crlf ++ c.trailer.flatMap (fun f => f.line ++ crlf) ++ crlf

/-- How the end of the body is told; the field says so. -/
inductive Framing
  | contentLength (field : Field) (body : List UInt8) (named : field.Is "content-length")
      (states : number? PyBytes.digit? 10 (trim field.value) = some body.length)
  | chunked (field : Field) (chunks : List Chunk) (last : LastChunk) (named : field.Is "transfer-encoding")
      (states : lower (trim field.value) = ascii "chunked")
  | closeDelimited (body : List UInt8)

namespace Framing

def fields : Framing → List Field
  | contentLength field .. | chunked field .. => [field]
  | closeDelimited _ => []

/-- The bytes after the head. -/
def payload : Framing → List UInt8
  | contentLength _ body .. | closeDelimited body => body
  | chunked _ chunks last .. => chunks.flatMap Chunk.bytes ++ last.bytes

def body : Framing → List UInt8
  | contentLength _ body .. | closeDelimited body => body
  | chunked _ chunks .. => chunks.flatMap Chunk.data

def isChunked : Framing → Bool
  | chunked .. => true
  | _ => false

end Framing

structure Response where
  status : StatusCode
  /-- The reason phrase; some servers leave out the space before it, too. -/
  reason : Option (List UInt8)
  before : List Field
  framing : Framing
  after : List Field
  oneLine : ∀ text ∈ reason, OneLine text
  bodiless : status.Bodiless → framing = .closeDelimited []
  /-- No other field frames the body, if there is one. -/
  unframed : ¬ status.Bodiless → ∀ f ∈ before ++ after, ¬ f.Is "content-length" ∧ ¬ f.Is "transfer-encoding"

namespace Response
variable (r : Response)

def statusLine : List UInt8 := ascii "HTTP/1.1" ++ sp :: (r.status.bytes ++ (r.reason.elim [] (sp :: ·)))

def fields : List Field := r.before ++ r.framing.fields ++ r.after

/-- Without the line end of its last line. -/
def head : List UInt8 := r.statusLine ++ r.fields.flatMap fun f => crlf ++ f.line

def raw : List UInt8 := r.head ++ (crlf ++ crlf) ++ r.framing.payload

def body : List UInt8 := r.framing.body

end Response

end Http

end Embassy
