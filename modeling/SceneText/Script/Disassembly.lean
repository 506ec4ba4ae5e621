import SceneText.Script.Signature

/-!
# Disassembly

A script is cut into instructions from its start. At each offset the longest signature that stands
there decides which fields are read; the instruction is recorded with its operands, and reading goes
on behind them. It halts at the end of the image, at a byte that begins no signature, at a field
that cannot be read (its instruction is not recorded) or at a stop field (its instruction is).
-/

namespace SceneText

/-- A located instruction. Operands are texts; a field repeated twice over gives lists of texts. -/
structure Instruction where
  signature : List UInt8
  offset : Int
  index : Nat
  operands : List Json
  deriving Repr

namespace Instruction

def opcode (i : Instruction) : String := Hex.spaced i.signature

def toJson (i : Instruction) : Json :=
  .obj [("op", .str i.opcode), ("offset", .int i.offset), ("index", .int i.index),
    ("value", .arr i.operands)]

end Instruction

inductive FieldHalt
  | stopped
  | failed (fault : Fault)

namespace FieldSpec

def countOf (operand : Json) : Except Fault Int :=
  match operand with
  | .str s =>
    match Text.splitFirst ':' s.toList with
    | some (_, digits) =>
      match Numeral.read digits with
      | .ok n => .ok n
      | .error .malformed => .error (.notNumeral (String.ofList digits))
      | .error (.tooLong n) => .error (.numeralTooLong n)
    | none => .error (.refused (.badCount s))
  | v => .error (.refused (.badCount v.shown))

def repeatRead (read : Int → Except FieldHalt (Json × Int)) :
    Nat → Int → Except FieldHalt (List Json × Int)
  | 0, offset => .ok ([], offset)
  | n + 1, offset =>
    match read offset with
    | .error halt => .error halt
    | .ok (x, offset) =>
      match repeatRead read n offset with
      | .error halt => .error halt
      | .ok (rest, offset) => .ok (x :: rest, offset)

def textResult (r : Except Fault (String × Int)) : Except FieldHalt (Json × Int) :=
  match r with
  | .ok (s, offset) => .ok (.str s, offset)
  | .error fault => .error (.failed fault)

def listResult (r : Except FieldHalt (List Json × Int)) : Except FieldHalt (Json × Int) :=
  match r with
  | .ok (items, offset) => .ok (.arr items, offset)
  | .error halt => .error halt

def statedCount : FieldArgument → Except Fault Nat
  | .whole n => .ok n.toNat
  | .other kind => .error (.misuse (.notCount kind))

def readCount (operands : List Json) : FieldArgument → Except Fault Nat
  | .whole index => do return (← countOf (← Json.item (.arr operands) index)).toNat
  | .other kind => .error (.misuse (.listIndex kind))

def readSlice (image : Image) (offset : Int) : List FieldArgument → Except Fault (String × Int)
  | [] => .error (.misuse (.argumentMissing FieldSpec.slice.readerName "length"))
  | [.whole length] => Field.bytesOperand image offset length
  | [.other "float"] => .error (.misuse (.notBound "float"))
  | [.other kind] => .error (.misuse (.notAddable "int" kind))
  | arguments => .error (FieldSpec.slice.tooMany arguments.length)

def readWith (page : CodePage) (image : Image) (operands : List Json) :
    FieldSpec → List FieldArgument → Int → Except FieldHalt (Json × Int)
  | .key kind, _, _ => .error (.failed (.misuse (.notReader kind)))
  | .slice, arguments, offset => textResult (readSlice image offset arguments)
  | .given arguments spec, [], offset => spec.readWith page image operands arguments offset
  | .int w, [], offset => textResult (Field.intOperand w image offset)
  | .text, [], offset => textResult (Field.readText page image offset)
  | .stop, [], _ => .error .stopped
  | .repeated count spec, [], offset =>
    match statedCount count with
    | .error fault => .error (.failed fault)
    | .ok n => listResult (repeatRead (spec.readWith page image operands []) n offset)
  | .repeatedBy index spec, [], offset =>
    match readCount operands index with
    | .error fault => .error (.failed fault)
    | .ok n => listResult (repeatRead (spec.readWith page image operands []) n offset)
  | spec, arguments, _ => .error (.failed (spec.tooMany arguments.length))

def read (page : CodePage) (image : Image) (operands : List Json) (spec : FieldSpec)
    (offset : Int) : Except FieldHalt (Json × Int) :=
  spec.readWith page image operands [] offset

def spread : Json → List Json
  | .arr items => items
  | v => [v]

end FieldSpec

structure FieldsRead where
  operands : List Json
  offset : Int
  halt : Option FieldHalt

def readFields (page : CodePage) (image : Image) (operands : List Json) (offset : Int) :
    List FieldSpec → FieldsRead
  | [] => ⟨operands, offset, none⟩
  | spec :: rest =>
    match spec.read page image operands offset with
    | .ok (v, offset) => readFields page image (operands ++ FieldSpec.spread v) offset rest
    | .error halt => ⟨operands, offset, some halt⟩

inductive Halt
  | atEnd
  | unknown (byte : UInt8)
  | failed (byte : UInt8) (fault : Fault)
  | stopped
  /-- In front of the image, where no signature fits and there is no byte to report. -/
  | outside
  | endless

structure Disassembly where
  instructions : List Instruction
  offset : Int
  halt : Halt

namespace Disassembly

/-- The first entry whose signature stands at an offset. A key that is no signature is a fault when
its turn comes. -/
def firstMatch (image : Image) (offset : Int) :
    FlatTable → Except Fault (Option (List UInt8 × List FieldSpec))
  | [] => .ok none
  | (.default, _) :: _ => .error (.misuse .notSignature)
  | (.bytes signature, specs) :: rest =>
    if image.startsAt signature (if offset < 0 then Image.clip image.size offset else offset.toNat)
    then .ok (some (signature, specs))
    else firstMatch image offset rest

/-- Disassembles from an offset behind the instructions of `done`, last one first. -/
def runFrom (page : CodePage) (table : FlatTable) (image : Image) :
    Nat → List Instruction → Int → Disassembly
  | 0, done, offset => ⟨done.reverse, offset, .endless⟩
  | fuel + 1, done, offset =>
    if image.size ≤ offset then ⟨done.reverse, offset, .atEnd⟩
    else
      let halted (halt : UInt8 → Halt) : Disassembly :=
        ⟨done.reverse, offset, ((image.byteAt? offset).map halt).getD .outside⟩
      match firstMatch image offset table with
      | .error fault => halted fun byte => .failed byte fault
      | .ok none => halted .unknown
      | .ok (some (signature, specs)) =>
        let read := readFields page image [] (offset + signature.length) specs
        let here : Instruction := ⟨signature, offset, done.length, read.operands⟩
        match read.halt with
        | none => runFrom page table image fuel (here :: done) read.offset
        | some .stopped => ⟨(here :: done).reverse, read.offset, .stopped⟩
        | some (.failed fault) => halted fun byte => .failed byte fault

/-- Every instruction moves on by a byte at least, unless a slice of negative length moves back. -/
def fuelFor (table : FlatTable) (image : Image) : Nat :=
  let reach := (table.flatMap fun e => e.2.map FieldSpec.reach).foldl (· + ·) 0
  (image.size + 1) * (reach + 1)

def run (page : CodePage) (table : FlatTable) (image : Image) : Disassembly :=
  runFrom page (SignatureTable.byLength table) image (fuelFor table image) [] 0

/-- The line that reports an early end, if there is one to report. Offsets in it are moved by
`base`. -/
def report (file : String) (base : Int) (d : Disassembly) : Except Fault (Option String) :=
  let place (byte : UInt8) : String :=
    s!"Opcode {Hex.numeral byte.toNat} 在 {Hex.numeral (d.offset + base)}"
  match d.halt with
  | .unknown byte => .ok <| some s!"{file}: 未知 {place byte}"
  | .failed byte fault => .ok <| some s!"{file}: 处理 {place byte} 发生错误 {fault.message}"
  | .outside => .error (.outOfRange .bytes)
  | .atEnd | .stopped | .endless => .ok none

/-- The line about a value that is no byte string and in which no signature can be looked for. It
tells the first item, which has to be a number. -/
def reportValue (table : FlatTable) (file : String) (base : Int) (v : Json) :
    Except Fault (Option String) := do
  if (← v.size) = 0 then return none
  else match v, (← v.item 0).toInt? with
    | .arr _, some n =>
      let place := s!"Opcode {Hex.numeral n} 在 {Hex.numeral base}"
      if table.isEmpty then return some s!"{file}: 未知 {place}"
      else
        let fault := Fault.misuse (.noOperation "list" "startswith")
        return some s!"{file}: 处理 {place} 发生错误 {fault.message}"
    | _, _ => .error (.misuse (.notCount v.kind))

/-- What is handed over, disassembled, and the line about it. The base has to be a number only if
there is a line. -/
def ofDatum (page : CodePage) (table : FlatTable) (file : String) (base : Json) (d : Datum) :
    Except Fault (Disassembly × Option String) := do
  let shift := base.toInt?.getD 0
  let (result, line) ← match d with
    | .bytes data => do
      let result := run page table data.toArray
      pure (result, ← result.report file shift)
    | .plain v => do pure (⟨[], 0, .atEnd⟩, ← reportValue table file shift v)
  if base.toInt?.isNone && line.isSome then .error (.misuse (.notCount base.kind))
  else return (result, line)

end Disassembly
end SceneText
