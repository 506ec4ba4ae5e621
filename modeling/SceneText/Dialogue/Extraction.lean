import SceneText.Dialogue.Speaker
import SceneText.Script.Opcodes

/-!
# Taking the dialogue out of a listing

A sentence is made of the texts between two sentence ends, and is spoken by the speaker set last. A
choice has its texts after four leading operands and may only stand between sentences. Text that
is plain ASCII, or holds a private, half-width or control character, is not dialogue and stops the
extraction.
-/

namespace SceneText.Dialogue

def isForeign (c : Char) : Bool :=
  let n := c.toNat
  (0xe000 ≤ n && n ≤ 0xf8ff) || (0xf0000 ≤ n && n ≤ 0xfffff) || (0x100000 ≤ n && n ≤ 0x10ffff) ||
    (0xff61 ≤ n && n ≤ 0xff9f) || n < 32 || n = 127 || (128 ≤ n && n ≤ 159)

def isInvalid (text : List Char) : Bool :=
  Text.isAscii text || text.any isForeign

/-- Whether what is handed over is invalid. A byte string is looked at only as far as it is
ASCII. -/
def isInvalidDatum : Datum → Except Fault Bool
  | .plain v => (v.asText "isascii").map fun s => isInvalid s.toList
  | .bytes data =>
    if data.all fun b => b < 128 then .ok true else .error (.misuse (.notCharacter "int"))

inductive Role
  | speaker
  | text
  | sentenceEnd
  | lineBreak
  | choice
  deriving DecidableEq, Repr

namespace Role

def signature : Role → String
  | .speaker => "10 FF 00 05"
  | .text => "00"
  | .sentenceEnd => "15"
  | .lineBreak => "14"
  | .choice => Opcodes.choice

def all : List Role := [.speaker, .text, .sentenceEnd, .lineBreak, .choice]

def ofSignature? (v : Json) : Option Role :=
  all.find? fun r => v.isText r.signature

end Role

def choiceTexts : Nat := 4

inductive Line
  | sentence (message : String) (speaker : Option String)
  | option (message : String)
  deriving DecidableEq, Repr

namespace Line

def message : Line → String
  | .sentence m _ => m
  | .option m => m

def toJson : Line → Json
  | .sentence m none => .obj [("message", .str m)]
  | .sentence m (some name) => .obj [("message", .str m), ("name", .str name)]
  | .option m => .obj [("message", .str m), ("is_select", .bool true)]

end Line

structure Scan where
  speaker : Option String := none
  open? : Option String := none
  lines : List Line := []
  deriving DecidableEq, Repr

def checked (v : Json) : Except Fault String :=
  match v with
  | .str s => if isInvalid s.toList then .error (.refused (.illegalText s)) else .ok s
  | v => .error (.misuse (.noOperation v.kind "isascii"))

def checkedAll : List Json → Except Fault (List String)
  | [] => .ok []
  | v :: rest => do
    let s ← checked v
    let more ← checkedAll rest
    return s :: more

def speakerOf (operand : Operand) : Option String :=
  Speaker.name? operand.datum

def Scan.step (scan : Scan) (op : Json) : Except Fault Scan := do
  match Role.ofSignature? (← op.field "op") with
  | some .speaker =>
    let operand ← Operand.ofJson (← (← op.field "value").item 0)
    return { scan with speaker := speakerOf operand }
  | some .text =>
    let text ← checked (← (← op.field "value").item 0)
    return { scan with open? := some (scan.open?.getD "" ++ text) }
  | some .sentenceEnd =>
    match scan.open? with
    | none => return scan
    | some message =>
      return { scan with open? := none, lines := scan.lines ++ [.sentence message scan.speaker] }
  | some .choice =>
    match scan.open? with
    | some _ => .error .violated
    | none =>
      let texts ← checkedAll (← (← op.field "value").itemsFrom choiceTexts)
      return { scan with lines := scan.lines ++ texts.map .option }
  | _ => return scan

def scanAll (scan : Scan) : List Json → Except Fault Scan
  | [] => .ok scan
  | op :: rest => do scanAll (← scan.step op) rest

def extract (listing : Json) : Except Fault (List Line) := do
  let scan ← scanAll {} (← listing.elements)
  match scan.open? with
  | none => return scan.lines
  | some _ => .error .violated

end SceneText.Dialogue
