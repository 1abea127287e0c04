import LightShow.CodecError

namespace LightShow.Envelope

/-- The first word of an envelope. A file that begins with it is unwrapped when it is loaded. -/
def signature : List Char := "LSTF-TEXT".toList

def version : List Char := ['1']

/-- The line in front of the payload. -/
def headerLine : List Char := signature ++ ' ' :: version

/-- The length of a full line of payload. -/
def lineWidth : Nat := 76

/-- The white space of ASCII: the space, and the codes from tab to carriage return. -/
def isBlank (c : Char) : Bool :=
  c = ' ' || (9 ≤ c.toNat && c.toNat ≤ 13)

/-- A line without the white space at its ends. -/
def trim (line : List Char) : List Char :=
  ((line.dropWhile isBlank).reverse.dropWhile isBlank).reverse

def words (line : List Char) : List (List Char) :=
  (line.splitOnP isBlank).filter (· ≠ [])

/-- The characters of a text that is all ASCII. -/
def ofAscii? (data : Bytes) : Option (List Char) :=
  if data.all (· < 0x80) then some (data.map fun b => Char.ofNat b.toNat) else none

def toAscii (text : List Char) : Bytes :=
  text.map fun c => UInt8.ofNat c.toNat

/-- The lines of a text that are not blank, without the white space at their ends. -/
def lines (text : List Char) : List (List Char) :=
  ((text.splitOn '\n').map trim).filter (· ≠ [])

/-- Checks the header line: two words, of which the second is the version. -/
def checkHeader (line : List Char) : Except CodecError Unit :=
  match words line with
  | [first, second] =>
    if first ≠ signature then .error (.envelope .headerMissing)
    else if second ≠ version then .error (.unsupportedTextVersion (String.ofList second))
    else .ok ()
  | _ => .error (.envelope .headerMissing)

/-- What remains of the lines behind the header when comments are left out. -/
def payload (lines : List (List Char)) : List Char :=
  (lines.filter fun line => line.head? ≠ some '#').flatten

/-- The container inside an envelope: the header, then base64 broken into lines at will, with blank
lines and lines that begin with `#` ignored. -/
def decode (data : Bytes) : Except CodecError Bytes := do
  let some text := ofAscii? data | throw (.envelope .notAscii)
  match lines text with
  | [] => throw (.envelope .empty)
  | header :: rest =>
    checkHeader header
    let payload := payload rest
    if payload = [] then throw (.envelope .payloadMissing)
    (Base64.decode payload).mapError .base64

/-- Breaks a text into lines of `width` characters, the last of which may be shorter. -/
def wrap (width : Nat) (text : List Char) : List (List Char) :=
  if width = 0 ∨ text = [] then []
  else text.take width :: wrap width (text.drop width)
termination_by text.length
decreasing_by
  rename_i h
  have hpos : text.length ≠ 0 := fun hnil => h (.inr (List.length_eq_zero_iff.1 hnil))
  have hwidth : width ≠ 0 := fun hzero => h (.inl hzero)
  simp only [List.length_drop]
  omega

def encode (data : Bytes) : List Char :=
  (headerLine :: wrap lineWidth (Base64.encode data)).flatMap (· ++ ['\n'])

/-- True if a file is to be unwrapped before it is parsed. -/
def isWrapped (data : Bytes) : Bool :=
  (toAscii signature).isPrefixOf data

/-- The container that a file holds, be it wrapped or not. -/
def normalise (data : Bytes) : Except CodecError Bytes :=
  if isWrapped data then decode data else .ok data

end LightShow.Envelope
