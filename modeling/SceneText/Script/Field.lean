import SceneText.Bytes.Image
import SceneText.Charset.Encoding
import SceneText.Script.Operand

/-!
# Reading fields from an image

A field reader takes an image and a signed offset and yields a value and the offset behind it. An
integer field needs its bytes in front of the end of the image; near a negative offset the slice may
come out short, which is a fault of its own. A byte slice takes what is there. A text ends at the
first zero byte.
-/

namespace SceneText.Field

/-- An integer field. The unsigned byte is looked up by position, the others are cut out. -/
def readInt (w : Width) (image : Image) (offset : Int) : Except Fault (Int × Int) :=
  if offset + w.size > image.size then .error (.refused (.shortField w))
  else match w with
    | .u8 =>
      match image.byteAt? offset with
      | some b => .ok (b.toNat, offset + 1)
      | none => .error (.outOfRange .bytes)
    | w =>
      let bytes := image.slice offset (offset + w.size)
      if bytes.length = w.size then .ok (w.decode bytes, offset + w.size)
      else .error (.shortWord w.size)

def readBytes (image : Image) (offset length : Int) : List UInt8 × Int :=
  (image.slice offset (offset + length), offset + length)

def readTerminated (image : Image) (offset : Int) : Except Fault (List UInt8 × Int) :=
  match image.zero? offset with
  | none => .error (.refused (.unterminated offset))
  | some stop => .ok (image.slice offset stop, stop + 1)

def readText (page : CodePage) (image : Image) (offset : Int) : Except Fault (String × Int) :=
  match readTerminated image offset with
  | .error fault => .error fault
  | .ok (bytes, next) =>
    match page.decode bytes with
    | .ok cs => .ok (String.ofList cs, next)
    | .error defect => .error (.undecodable page.name defect)

/-- A text in an encoding given by name; the name matters only if the text has an end and is not
empty. -/
def readTextIn (encoding : String) (image : Image) (offset : Int) : Except Fault (String × Int) :=
  match readTerminated image offset with
  | .error fault => .error fault
  | .ok ([], next) => .ok ("", next)
  | .ok (bytes, next) =>
    match Encoding.ofName? encoding with
    | none => .error (.unknownEncoding encoding)
    | some e =>
      match e.decode bytes with
      | .ok text => .ok (text, next)
      | .error fault => .error fault

def intOperand (w : Width) (image : Image) (offset : Int) : Except Fault (String × Int) := do
  let (v, next) ← readInt w image offset
  return (← Operand.writeAs w.name (.plain (.int v)), next)

def bytesOperand (image : Image) (offset length : Int) : Except Fault (String × Int) := do
  let (data, next) := readBytes image offset length
  return (← Operand.writeAs "bytes" (.bytes data), next)

end SceneText.Field
