import SceneText.Json.Access

/-!
# Values and byte strings

What is handed to a tool is a value of a document or a byte string. Where it is measured or walked
over, a byte string is a list of numbers. It shares some operations with texts, but they ask for
byte strings again.
-/

namespace SceneText

inductive Datum
  | plain (v : Json)
  | bytes (data : List UInt8)

namespace Datum

def kind : Datum → String
  | .plain v => v.kind
  | .bytes _ => "bytes"

def shown : Datum → String
  | .plain v => v.shown
  | .bytes data => Text.quotedBytes data

def size : Datum → Except Fault Nat
  | .plain v => v.size
  | .bytes data => .ok data.length

def truthy : Datum → Bool
  | .plain v => v.truthy
  | .bytes data => !data.isEmpty

def sequence : Datum → Json
  | .plain v => v
  | .bytes data => .arr (data.map fun b => .int b.toNat)

def searched : Datum → Except Fault Json
  | .plain v => .ok v
  | .bytes _ => .error (.misuse (.notByteString "str"))

/-- The operations on texts that byte strings have too, but with byte strings as arguments. -/
def sharedOperations : List String := ["replace", "translate"]

def asText (operation : String) : Datum → Except Fault String
  | .plain v => v.asText operation
  | .bytes _ =>
    if sharedOperations.contains operation then .error (.misuse (.notByteString "str"))
    else .error (.misuse (.noOperation "bytes" operation))

/-- A number as a pair of upper-case digits; a greater one takes more digits, and a sign takes the
place of one. -/
def pairText (v : Json) : Except Fault String :=
  match v.toInt?, v with
  | some (.ofNat n), _ => .ok (Hex.padded 2 n)
  | some (.negSucc n), _ => .ok ("-" ++ Hex.padded 1 (n + 1))
  | none, .str _ | none, .real _ => .error (.misuse (.noDigits v.kind))
  | none, v => .error (.misuse (.noFormat v.kind))

def spaced : Datum → Except Fault String
  | .plain v => do return " ".intercalate (← (← v.elements).mapM pairText)
  | .bytes data => .ok (Hex.spaced data)

end Datum
end SceneText
