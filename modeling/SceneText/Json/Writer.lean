import SceneText.Json.Value

/-!
# Writing documents

Two layouts of one format. The indented one puts every item and field on a line of its own, two
blanks deeper than what holds it; the compact one has no blanks at all. Texts escape the quote, the
backslash and the controls below the blank, five of them by a letter.
-/

namespace SceneText.Json

def escapedChar (c : Char) : List Char :=
  if c = '"' then ['\\', '"']
  else if c = '\\' then ['\\', '\\']
  else if c = '\n' then ['\\', 'n']
  else if c = '\r' then ['\\', 'r']
  else if c = '\t' then ['\\', 't']
  else if c.toNat = 8 then ['\\', 'b']
  else if c.toNat = 12 then ['\\', 'f']
  else if c.toNat < 32 then '\\' :: 'u' :: (Hex.paddedLower 4 c.toNat).toList
  else [c]

def writeText (s : String) : List Char :=
  '"' :: (s.toList.flatMap escapedChar ++ ['"'])

def newline (depth : Nat) : List Char :=
  '\n' :: List.replicate (2 * depth) ' '

def writeScalar : Json → List Char
  | .null => "null".toList
  | .bool true => "true".toList
  | .bool false => "false".toList
  | .int v => (toString v).toList
  | .real x => writeReal x.value
  | .str s => writeText s
  | .arr _ | .obj _ => []

mutual

def indentedChars (depth : Nat) : Json → List Char
  | .arr [] => ['[', ']']
  | .arr (x :: rest) =>
    '[' :: (newline (depth + 1) ++ indentedChars (depth + 1) x ++ indentedItems depth rest)
  | .obj [] => ['{', '}']
  | .obj ((k, v) :: rest) =>
    '{' :: (newline (depth + 1) ++ writeText k ++ [':', ' '] ++ indentedChars (depth + 1) v ++
      indentedFields depth rest)
  | .null => writeScalar .null
  | .bool b => writeScalar (.bool b)
  | .int v => writeScalar (.int v)
  | .real x => writeScalar (.real x)
  | .str s => writeScalar (.str s)
termination_by structural v => v

def indentedItems (depth : Nat) : List Json → List Char
  | [] => newline depth ++ [']']
  | x :: rest =>
    ',' :: (newline (depth + 1) ++ indentedChars (depth + 1) x ++ indentedItems depth rest)
termination_by structural items => items

def indentedFields (depth : Nat) : List (String × Json) → List Char
  | [] => newline depth ++ ['}']
  | (k, v) :: rest =>
    ',' :: (newline (depth + 1) ++ writeText k ++ [':', ' '] ++ indentedChars (depth + 1) v ++
      indentedFields depth rest)
termination_by structural fields => fields

end

def indented (v : Json) : String :=
  String.ofList (indentedChars 0 v)

mutual

def compactChars : Json → List Char
  | .arr [] => ['[', ']']
  | .arr (x :: rest) => '[' :: (compactChars x ++ compactItems rest)
  | .obj [] => ['{', '}']
  | .obj ((k, v) :: rest) => '{' :: (writeText k ++ ':' :: (compactChars v ++ compactFields rest))
  | .null => writeScalar .null
  | .bool b => writeScalar (.bool b)
  | .int v => writeScalar (.int v)
  | .real x => writeScalar (.real x)
  | .str s => writeScalar (.str s)
termination_by structural v => v

def compactItems : List Json → List Char
  | [] => [']']
  | x :: rest => ',' :: (compactChars x ++ compactItems rest)
termination_by structural items => items

def compactFields : List (String × Json) → List Char
  | [] => ['}']
  | (k, v) :: rest => ',' :: (writeText k ++ ':' :: (compactChars v ++ compactFields rest))
termination_by structural fields => fields

end

def compact (v : Json) : String :=
  String.ofList (compactChars v)

end SceneText.Json
