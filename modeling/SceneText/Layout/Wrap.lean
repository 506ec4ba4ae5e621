import SceneText.Layout.Limit
import SceneText.Layout.Measure

/-!
# Line wrapping

Wrapping first removes the line ends a text has, then fills lines greedily. A line is ended when the
next character would make it too wide; a character that is too wide by itself is a line of its own.
-/

namespace SceneText.Layout

def lineEnd : List Char := ['\r', '\n']

def unwrap (text : List Char) : List Char :=
  Text.replaceAll ['\n'] [] (Text.replaceAll lineEnd [] text)

def fill (limit : Limit) (line : List Char) (width : Nat) : List Char → List (List Char)
  | [] => if line.isEmpty then [] else [line]
  | c :: rest =>
    if limit.isExceededBy (width + columns c) then
      if line.isEmpty then [c] :: fill limit [] 0 rest
      else line :: fill limit [c] (columns c) rest
    else fill limit (line ++ [c]) (width + columns c) rest

def wrap (text : List Char) (limit : Limit) : List Char :=
  Text.join lineEnd (fill limit [] 0 (unwrap text))

def windowWidth : Int := 54

inductive WrapMode
  | wrap
  | unwrap
  deriving DecidableEq, Repr

namespace WrapMode

def name : WrapMode → String
  | .wrap => "auto_wrap"
  | .unwrap => "remove_wrap"

def ofName? (name : String) : Option WrapMode :=
  [WrapMode.wrap, .unwrap].find? fun m => m.name = name

/-- Wraps or unwraps a value, which has to be a text. The limit is looked at only if there is
something to fit. -/
def apply (mode : WrapMode) (limit value : Json) : Except Fault String := do
  let text := Layout.unwrap (← value.asText "replace").toList
  match mode, text with
  | .unwrap, text => return String.ofList text
  | .wrap, [] => return ""
  | .wrap, text => return String.ofList (Layout.wrap text (← Limit.ofJson ">" limit))

end WrapMode

def optionalField (entry : Json) (key : String) : Except Fault (Option Json) := do
  if ← entry.has key then return some (← entry.field key) else return none

/-- Wraps the message of an entry that asks for it; a message with a slash is left alone. -/
def wrapEntry (mode : Option WrapMode) (limit : Json) (entry : Json) : Except Fault Json := do
  let entry ← entry.copy
  let wanted ← optionalField entry "should_wrap"
  let message ← optionalField entry "message"
  match message, mode with
  | some (.str text), some mode =>
    if (wanted.getD .null).isTrue && !Text.contains text "/" then
      entry.put "message" (.str (← mode.apply limit (.str text)))
    else return entry
  | _, _ => return entry

def wrapEntries (mode : Option WrapMode) (limit : Json) (entries : Json) :
    Except Fault (List Json) := do
  (← entries.elements).mapM (wrapEntry mode limit)

end SceneText.Layout
