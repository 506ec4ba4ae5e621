import SceneText.Script.Field

/-!
# Reading fields from values

A field can be asked for of any value at any offset. A byte string is read as an image. A list or a
text has items in the place of bytes: an unsigned byte is the item at its offset and a slice is made
of items, while the other fields need bytes. A real number is no offset, but it can be found to be
too far on before that matters.
-/

namespace SceneText.Reading

def endsBeyond (size length : Nat) (offset : Json) : Except Fault Bool :=
  match offset, offset.toInt? with
  | _, some n => .ok (decide ((length : Int) < n + size))
  | .real x, none => .ok (x.value.compareInt ((length : Int) - size) == some .gt)
  | v, none => .error (.misuse (.notAddable v.kind "int"))

def readInt (w : Width) (source : Datum) (offset : Json) : Except Fault (Datum × Int) := do
  if ← endsBeyond w.size (← source.size) offset then .error (.refused (.shortField w))
  else match source, w, offset.toInt? with
    | .bytes data, w, some n =>
      let (value, next) ← Field.readInt w data.toArray n
      return (.plain (.int value), next)
    | .plain v, .u8, n =>
      let item ← v.select offset
      return (.plain item, n.getD 0 + 1)
    | _, _, _ => .error (.misuse (.notBound offset.kind))

def readBytes (source : Datum) (offset length : Json) : Except Fault (Datum × Int) :=
  match offset.toInt?, length.toInt?, source with
  | some n, some k, .bytes data =>
    let (part, next) := Field.readBytes data.toArray n k
    .ok (.bytes part, next)
  | some n, some k, .plain v =>
    (v.slice (some n) (some (n + k))).map fun part => (.plain part, n + k)
  | _, _, _ => .error (.misuse (.notBound offset.kind))

/-- A text in an encoding given by name. Without an offset the text is looked for from the start,
and there is no offset to tell if it has no end. -/
def readText (source : Datum) (offset encoding : Json) : Except Fault (Datum × Int) := do
  match source with
  | .plain (.str _) => .error (.misuse (.memberNotText "int"))
  | .plain v => .error (.misuse (.noOperation v.kind "find"))
  | .bytes data =>
    let image : Image := data.toArray
    let start ← match offset, offset.toInt? with
      | _, some n => Except.ok n
      | .null, none =>
        if (image.zero? 0).isSome then .ok 0 else .error (.misuse (.notCount offset.kind))
      | _, none => .error (.misuse (.notBound offset.kind))
    let _ ← Field.readTerminated image start
    match encoding with
    | .str name =>
      if name.toList.contains '\x00' then .error .zeroInName
      else
        let (text, next) ← Field.readTextIn name image start
        return (.plain (.str text), next)
    | v => .error (.misuse (.notTextArgument "decode" "'encoding'" v.kind))

def asOperand (tag : String) (field : Datum × Int) : Except Fault (Datum × Int) := do
  return (.plain (.str (← Operand.writeAs tag field.1)), field.2)

end SceneText.Reading
