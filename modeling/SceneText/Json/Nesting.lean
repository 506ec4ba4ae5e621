import SceneText.Json.Value

/-!
# Nesting

How deep the lists and records of a document stand in one another. Documents are read up to a depth;
in a text that goes beyond it, the bracket that opens the first level too many is to blame.
-/

namespace SceneText.Json

mutual

def depth : Json → Nat
  | .arr items => depthItems items + 1
  | .obj fields => depthFields fields + 1
  | _ => 0
termination_by structural v => v

def depthItems : List Json → Nat
  | [] => 0
  | x :: rest => Nat.max (depth x) (depthItems rest)
termination_by structural items => items

def depthFields : List (String × Json) → Nat
  | [] => 0
  | (_, v) :: rest => Nat.max (depth v) (depthFields rest)
termination_by structural fields => fields

end

def maxDepth : Nat := 985

inductive Bracket
  | square | curly
  deriving DecidableEq, Repr

def Bracket.content : Bracket → String
  | .square => "array"
  | .curly => "object"

/-- Whether a character stands between quotes, and there behind a backslash. -/
inductive Place
  | outside | quoted | escaped
  deriving DecidableEq, Repr

/-- Position and kind of the first bracket that opens a level too many. Brackets between quotes do
not count. -/
def beyondFrom : Place → Nat → Nat → List Char → Option (Nat × Bracket)
  | _, _, _, [] => none
  | .escaped, level, pos, _ :: rest => beyondFrom .quoted level (pos + 1) rest
  | .quoted, level, pos, c :: rest =>
    let next := if c = '\\' then .escaped else if c = '"' then .outside else .quoted
    beyondFrom next level (pos + 1) rest
  | .outside, level, pos, c :: rest =>
    if c = '"' then beyondFrom .quoted level (pos + 1) rest
    else if c = '[' || c = '{' then
      if level < maxDepth then beyondFrom .outside (level + 1) (pos + 1) rest
      else some (pos, if c = '[' then .square else .curly)
    else if c = ']' || c = '}' then beyondFrom .outside (level - 1) (pos + 1) rest
    else beyondFrom .outside level (pos + 1) rest

def beyond? (text : List Char) : Option (Nat × Bracket) :=
  beyondFrom .outside 0 0 text

end SceneText.Json
