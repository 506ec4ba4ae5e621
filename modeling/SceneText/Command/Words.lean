/-!
# Words of a command

A command is cut into words at blanks. Quotes keep blanks together and may be empty; a backslash
takes the next character as it is, inside double quotes only a double quote or a backslash.
-/

namespace SceneText.Words

inductive State
  | between
  | word
  | single
  | double
  | escaped
  | doubleEscaped
  deriving DecidableEq, Repr

def isBlank (c : Char) : Bool :=
  c = ' ' || c = '\t' || c = '\r' || c = '\n'

/-- Reads on with an open word; `none` if a quote or a backslash is left open. -/
def cut (state : State) (open_ : List Char) : List Char → Option (List String)
  | [] =>
    match state with
    | .between => some []
    | .word => some [String.ofList open_]
    | _ => none
  | c :: rest =>
    match state with
    | .between =>
      if isBlank c then cut .between [] rest
      else if c = '\'' then cut .single [] rest
      else if c = '"' then cut .double [] rest
      else if c = '\\' then cut .escaped [] rest
      else cut .word [c] rest
    | .word =>
      if isBlank c then (cut .between [] rest).map (String.ofList open_ :: ·)
      else if c = '\'' then cut .single open_ rest
      else if c = '"' then cut .double open_ rest
      else if c = '\\' then cut .escaped open_ rest
      else cut .word (open_ ++ [c]) rest
    | .single => if c = '\'' then cut .word open_ rest else cut .single (open_ ++ [c]) rest
    | .double =>
      if c = '"' then cut .word open_ rest
      else if c = '\\' then cut .doubleEscaped open_ rest
      else cut .double (open_ ++ [c]) rest
    | .escaped => cut .word (open_ ++ [c]) rest
    | .doubleEscaped =>
      if c = '"' || c = '\\' then cut .double (open_ ++ [c]) rest
      else cut .double (open_ ++ ['\\', c]) rest

def split (command : String) : Option (List String) :=
  cut .between [] command.toList

end SceneText.Words
