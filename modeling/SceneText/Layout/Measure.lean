import SceneText.Json.Datum

/-!
# Measures of text

A character takes one cell if it is ASCII and two cells otherwise. On a line, the vertical bar is a
mark that takes no room.
-/

namespace SceneText.Layout

def cells (c : Char) : Nat :=
  if c.toNat < 128 then 1 else 2

def span : List Char → Nat
  | [] => 0
  | c :: rest => cells c + span rest

def columns (c : Char) : Nat :=
  if c = '|' then 0 else if c.toNat ≤ 127 then 1 else 2

def lineWidth : List Char → Nat
  | [] => 0
  | c :: rest => columns c + lineWidth rest

/-- The characters met in a walk over a value, each of which has to be a text of length one. -/
def charOf : Json → Except Fault Char
  | .str s =>
    match s.toList with
    | [c] => .ok c
    | cs => .error (.misuse (.longCharacter cs.length))
  | v => .error (.misuse (.notCharacter v.kind))

def charsOf (v : Json) : Except Fault (List Char) :=
  match v with
  | .str s => .ok s.toList
  | v => do (← v.elements).mapM charOf

def codeOf : Datum → Except Fault Char
  | .plain v => charOf v
  | .bytes [b] => .ok (Char.ofNat b.toNat)
  | .bytes data => .error (.misuse (.longCharacter data.length))

/-- The room that one character takes on a line. A byte is never a mark. -/
def columnsOf (d : Datum) : Except Fault Nat :=
  match d with
  | .plain v => (charOf v).map columns
  | .bytes _ => (codeOf d).map cells

inductive Measure
  | chars
  | cells
  deriving DecidableEq, Repr

namespace Measure

def ofName (name : String) : Measure :=
  if name = "pseudo" then .cells else .chars

def length : Measure → List Char → Nat
  | .chars, text => text.length
  | .cells, text => span text

/-- The length of a value: of whatever has a length, or the cells of its characters. -/
def lengthOf (measure : Measure) (value : Json) : Except Fault Nat :=
  match measure with
  | .chars => value.size
  | .cells => do return span (← charsOf value)

end Measure
end SceneText.Layout
