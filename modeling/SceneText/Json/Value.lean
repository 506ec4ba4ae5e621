import SceneText.Json.Real
import SceneText.Text.Quoted

/-!
# Documents

A document is null, a truth value, a whole or real number, a text, a list or a record. A record
keeps its fields in the order in which their keys first came; setting a key that is there changes
its value and not its place.
-/

namespace SceneText

inductive Json
  | null
  | bool (value : Bool)
  | int (value : Int)
  | real (value : Json.Real)
  | str (text : String)
  | arr (items : List Json)
  | obj (fields : List (String × Json))
  deriving Repr, Inhabited, BEq

/-- The fields of an object in their order. -/
abbrev Fields := List (String × Json)

namespace Json

def setField (key : String) (value : Json) : Fields → Fields
  | [] => [(key, value)]
  | (k, v) :: rest => if k = key then (k, value) :: rest else (k, v) :: setField key value rest

def dropField (key : String) (fields : Fields) : Fields :=
  fields.filter fun f => f.1 ≠ key

def kind : Json → String
  | .null => "NoneType"
  | .bool _ => "bool"
  | .int _ => "int"
  | .real _ => "float"
  | .str _ => "str"
  | .arr _ => "list"
  | .obj _ => "dict"

def truthy : Json → Bool
  | .null => false
  | .bool b => b
  | .int v => v ≠ 0
  | .real x => match x.value with
    | .finite _ m _ => m ≠ 0
    | _ => true
  | .str s => !s.isEmpty
  | .arr items => !items.isEmpty
  | .obj fields => !fields.isEmpty

mutual

/-- The literal of a document in messages: quoted texts, capitalised truth values, `None`. -/
def literalChars : Json → List Char
  | .null => "None".toList
  | .bool true => "True".toList
  | .bool false => "False".toList
  | .int v => (toString v).toList
  | .real x => x.literal
  | .str s => Text.quotedChars s.toList
  | .arr [] => "[]".toList
  | .arr (x :: rest) => '[' :: (literalChars x ++ literalItems rest)
  | .obj [] => ['{', '}']
  | .obj ((k, v) :: rest) =>
    '{' :: (Text.quotedChars k.toList ++ ": ".toList ++ literalChars v ++ literalFields rest)
termination_by structural v => v

def literalItems : List Json → List Char
  | [] => [']']
  | x :: rest => ", ".toList ++ literalChars x ++ literalItems rest
termination_by structural items => items

def literalFields : List (String × Json) → List Char
  | [] => ['}']
  | (k, v) :: rest =>
    ", ".toList ++ Text.quotedChars k.toList ++ ": ".toList ++ literalChars v ++ literalFields rest
termination_by structural fields => fields

end

def literal (v : Json) : String :=
  String.ofList (literalChars v)

def shown : Json → String
  | .str s => s
  | v => v.literal

/-- Whether two documents are the same value. Truth values count as zero and one, and whole and
real numbers are compared by value. -/
def sameNumber : Json → Json → Bool
  | .bool a, .bool b => a = b
  | .bool a, .int v => (if a then 1 else 0) = v
  | .int v, .bool a => (if a then 1 else 0) = v
  | .int a, .int b => a = b
  | .int a, .real x => x.value.compareInt a = some .eq
  | .real x, .int a => x.value.compareInt a = some .eq
  | .bool a, .real x => x.value.compareInt (if a then 1 else 0) = some .eq
  | .real x, .bool a => x.value.compareInt (if a then 1 else 0) = some .eq
  | .real x, .real y =>
    match x.value, y.value with
    | .nan, _ => false
    | .finite _ 0 _, .finite _ 0 _ => true
    | a, b => a = b
  | _, _ => false

def sameKey : Json → Json → Bool
  | .null, .null => true
  | .str a, .str b => a = b
  | a, b => sameNumber a b

mutual

def equal : Json → Json → Bool
  | .arr items, .arr others => equalItems items others
  | .obj fields, .obj others => fields.length = others.length && equalFields fields others
  | a, b => sameKey a b
termination_by structural v => v

def equalItems : List Json → List Json → Bool
  | [], [] => true
  | x :: rest, y :: others => equal x y && equalItems rest others
  | _, _ => false
termination_by structural items => items

def equalFields : List (String × Json) → List (String × Json) → Bool
  | [], _ => true
  | (key, v) :: rest, others =>
    (match others.lookup key with
      | some w => equal v w
      | none => false) && equalFields rest others
termination_by structural fields => fields

end

end Json
end SceneText
