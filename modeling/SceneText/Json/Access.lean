import SceneText.Fault
import SceneText.Text.Search

/-!
# Loose access to documents

Tools take what a document holds at a place without asking first what is there. Each way of access
is a total function that says what it yields for every kind of value and with which fault it ends
on the others. A text is a sequence of its characters, and walking a record walks its keys.
-/

namespace SceneText.Json

def toInt? : Json → Option Int
  | .int v => some v
  | .bool b => some (if b then 1 else 0)
  | _ => none

def place? (size : Nat) (i : Int) : Option Nat :=
  if 0 ≤ i then (if i < size then some i.toNat else none)
  else if 0 ≤ i + size then some (i + size).toNat
  else none

def charTexts (s : String) : List Json :=
  s.toList.map fun c => .str (String.singleton c)

def elements : Json → Except Fault (List Json)
  | .arr items => .ok items
  | .str s => .ok (charTexts s)
  | .obj fields => .ok (fields.map fun f => .str f.1)
  | v => .error (.misuse (.notIterable v.kind))

def size : Json → Except Fault Nat
  | .arr items => .ok items.length
  | .str s => .ok s.length
  | .obj fields => .ok fields.length
  | v => .error (.misuse (.noLength v.kind))

def has (v : Json) (word : String) : Except Fault Bool :=
  match v with
  | .obj fields => .ok (fields.any fun f => f.1 = word)
  | .arr items => .ok (items.any fun x => x.sameKey (.str word))
  | .str s => .ok (Text.contains s word)
  | v => .error (.misuse (.noMembership v.kind))

def field (v : Json) (key : String) : Except Fault Json :=
  match v with
  | .obj fields =>
    match fields.lookup key with
    | some x => .ok x
    | none => .error (.missingKey (.str key))
  | .arr _ => .error (.misuse (.listIndex "str"))
  | .str _ => .error (.misuse (.textIndex "str"))
  | v => .error (.misuse (.notIndexable v.kind))

def item (v : Json) (i : Int) : Except Fault Json :=
  match v with
  | .arr items =>
    match (place? items.length i).bind (items[·]?) with
    | some x => .ok x
    | none => .error (.outOfRange .list)
  | .str s =>
    match (place? s.length i).bind (s.toList[·]?) with
    | some c => .ok (.str (String.singleton c))
    | none => .error (.outOfRange .text)
  | .obj _ => .error (.missingKey (.int i))
  | v => .error (.misuse (.notIndexable v.kind))

/-- What a value holds under a key: a field of a record, or an item of a list or a text. -/
def select (v key : Json) : Except Fault Json :=
  match v, key, key.toInt? with
  | .obj _, .str k, _ => v.field k
  | .obj _, .arr _, _ | .obj _, .obj _, _ => .error (.misuse (.notKey key.kind))
  | .obj _, key, _ => .error (.missingKey key)
  | v, _, some i => v.item i
  | .arr _, key, none => .error (.misuse (.listIndex key.kind))
  | .str _, key, none => .error (.misuse (.textIndex key.kind))
  | v, _, none => .error (.misuse (.notIndexable v.kind))

/-- The place of an end in a list: negative ends count from the back, ends outside are moved in. -/
def clip (size : Nat) (substitute : Nat) : Option Int → Nat
  | none => substitute
  | some n => if 0 ≤ n then min n.toNat size else (n + size).toNat

def range {α : Type} (items : List α) (low high : Option Int) : List α :=
  let start := clip items.length 0 low
  (items.take (clip items.length items.length high)).drop start

def slice (v : Json) (low high : Option Int) : Except Fault Json :=
  match v with
  | .arr items => .ok (.arr (range items low high))
  | .str s => .ok (.str (String.ofList (range s.toList low high)))
  | .obj _ => .error (.misuse (.notKey "slice"))
  | v => .error (.misuse (.notIndexable v.kind))

def itemsFrom (v : Json) (n : Nat) : Except Fault (List Json) :=
  match v with
  | .arr items => .ok (items.drop n)
  | .str s => .ok ((charTexts s).drop n)
  | .obj _ => .error (.misuse (.notKey "slice"))
  | v => .error (.misuse (.notIndexable v.kind))

def get (v : Json) (key : String) (substitute : Json) : Except Fault Json :=
  match v with
  | .obj fields => .ok ((fields.lookup key).getD substitute)
  | v => .error (.misuse (.noOperation v.kind "get"))

def put (v : Json) (key : String) (x : Json) : Except Fault Json :=
  match v with
  | .obj fields => .ok (.obj (setField key x fields))
  | .arr _ => .error (.misuse (.listIndex "str"))
  | v => .error (.misuse (.noAssignment v.kind))

/-- The list with the item at a signed index set. A record takes the index as a new key. -/
def putItem (v : Json) (i : Int) (x : Json) : Except Fault Json :=
  match v with
  | .arr items =>
    match place? items.length i with
    | some n => .ok (.arr (items.set n x))
    | none => .error (.outOfRange .listSlot)
  | .obj fields => .ok (.obj (fields ++ [(toString i, x)]))
  | v => .error (.misuse (.noAssignment v.kind))

def assign (v key x : Json) : Except Fault Json :=
  match v, key, key.toInt? with
  | .obj _, .str k, _ => v.put k x
  | v, _, some i => v.putItem i x
  | v, _, none => .error (.misuse (.noAssignment v.kind))

def remove (v : Json) (key : String) : Except Fault Json :=
  match v with
  | .obj fields =>
    if fields.any fun f => f.1 = key then .ok (.obj (dropField key fields))
    else .error (.missingKey (.str key))
  | .arr _ => .error (.misuse (.listIndex "str"))
  | v => .error (.misuse (.noDeletion v.kind))

def copy (v : Json) : Except Fault Json :=
  match v with
  | .obj _ | .arr _ => .ok v
  | v => .error (.misuse (.noOperation v.kind "copy"))

def asText (operation : String) : Json → Except Fault String
  | .str s => .ok s
  | v => .error (.misuse (.noOperation v.kind operation))

def joinable (i : Nat) : List Json → Except Fault (List String)
  | [] => .ok []
  | .str s :: rest => do return s :: (← joinable (i + 1) rest)
  | v :: _ => .error (.misuse (.notJoinable i v.kind))

def isTrue : Json → Bool
  | .bool true => true
  | _ => false

def isText (v : Json) (text : String) : Bool :=
  match v with
  | .str s => s = text
  | _ => false

def keyName : Json → String
  | .null => "null"
  | .bool true => "true"
  | .bool false => "false"
  | v => v.shown

def addPair (i : Nat) (pair : Json) (fields : Fields) : Except Fault Fields :=
  match pair.elements with
  | .error _ => .error (.misuse (.notPair i))
  | .ok [.arr _, _] => .error (.misuse (.notKey "list"))
  | .ok [.obj _, _] => .error (.misuse (.notKey "dict"))
  | .ok [key, value] => .ok (setField key.keyName value fields)
  | .ok parts => .error (.misuse (.pairSize i parts.length))

def addPairs (i : Nat) (pairs : List Json) (fields : Fields) : Except Fault Fields :=
  match pairs with
  | [] => .ok fields
  | pair :: rest =>
    match addPair i pair fields with
    | .ok fields => addPairs (i + 1) rest fields
    | .error fault => .error fault

def toRecord (v : Json) : Except Fault Json :=
  match v with
  | .obj _ => .ok v
  | v =>
    match v.elements with
    | .error fault => .error fault
    | .ok pairs => (addPairs 0 pairs []).map .obj

def asKey : Json → Except Fault Json
  | .arr _ => .error (.misuse (.notKey "list"))
  | .obj _ => .error (.misuse (.notKey "dict"))
  | v => .ok v

end SceneText.Json
