import SceneText.Json.Datum
import SceneText.Text.Numeral
import SceneText.Text.Units

/-!
# Operand text

An operand is written as text. An integer field is its tag, a colon and a decimal numeral; a byte
string is the tag `bytes`, a colon and hexadecimal pairs; everything else, colons included, is plain
text. Reading accepts every spelling of a numeral and of hexadecimal text; writing has one.
-/

namespace SceneText

inductive Operand
  | int (w : Width) (value : Int)
  | bytes (data : List UInt8)
  | text (s : String)
  deriving DecidableEq, Repr

namespace Operand

def tag : Operand → String
  | .int w _ => w.name
  | .bytes _ => "bytes"
  | .text _ => "str"

def datum : Operand → Datum
  | .int _ v => .plain (.int v)
  | .bytes data => .bytes data
  | .text s => .plain (.str s)

def write : Operand → String
  | .int w v => w.name ++ ":" ++ toString v
  | .bytes data => "bytes:" ++ Hex.spaced data
  | .text s => s

def read (s : String) : Except Fault Operand :=
  match Text.splitFirst ':' s.toList with
  | none => .ok (.text s)
  | some (before, after) =>
    let body := String.ofList after
    match Width.ofName? (String.ofList before) with
    | some w =>
      match Numeral.read after with
      | .ok v => if w.fits v then .ok (.int w v) else .error (.refused (.badNumeral w body))
      | .error _ => .error (.refused (.badNumeral w body))
    | none =>
      if before = "bytes".toList then
        match Hex.read after with
        | .ok data => .ok (.bytes data)
        | .error _ => .error (.refused (.badByteText body))
      else .ok (.text s)

def ofJson : Json → Except Fault Operand
  | .str s => read s
  | v => .error (.refused (.operandNotText v.kind))

def ofDatum : Datum → Except Fault Operand
  | .plain v => ofJson v
  | .bytes _ => .error (.refused (.operandNotText "bytes"))

/-- Writes a value under a tag. A whole number must fit the field that the tag names; a text and a
byte string have one tag each. -/
def writeAs (tag : String) (d : Datum) : Except Fault String :=
  let mismatch : Except Fault String := .error (.refused (.tagMismatch tag d.kind))
  match d with
  | .plain (.str s) => if tag = "str" then .ok s else mismatch
  | .bytes data => if tag = "bytes" then .ok ("bytes:" ++ Hex.spaced data) else mismatch
  | .plain v =>
    match v.toInt?, Width.ofName? tag with
    | some n, some w =>
      if w.fits n then .ok (w.name ++ ":" ++ v.shown)
      else .error (.refused (.outOfRange w v.shown))
    | _, _ => mismatch

end Operand

inductive TextCode
  | terminated (page : CodePage)
  | utf8
  | utf16

namespace TextCode

def encode (code : TextCode) (s : String) : Except Fault (List UInt8) :=
  match code with
  | .terminated page =>
    match page.encode s.toList with
    | .ok bytes => .ok (bytes ++ [0])
    | .error defect => .error (.unencodable page.name defect)
  | .utf8 => .ok (Utf8.encode s.toList)
  | .utf16 => .ok ((Units.ofText s.toList).flatMap (lowBytes 2) ++ [0, 0])

def script : TextCode := .terminated CodePage.cp932

end TextCode

namespace Operand

def store (code : TextCode) (order : ByteOrder) : Operand → Except Fault (List UInt8)
  | .int w v => .ok (w.encode order v)
  | .bytes data => .ok data
  | .text s => code.encode s

def storeJson (code : TextCode) (order : ByteOrder) (v : Json) : Except Fault (List UInt8) :=
  match ofJson v with
  | .ok operand => operand.store code order
  | .error fault => .error fault

/-- The stored bytes of operand text where the byte order may be at fault, which only an integer
field shows. -/
def storeIn (code : TextCode) (order : Except Fault ByteOrder) (d : Datum) :
    Except Fault (List UInt8) := do
  match ← ofDatum d with
  | .int w n => return w.encode (← order) n
  | operand => operand.store code .little

end Operand
end SceneText
