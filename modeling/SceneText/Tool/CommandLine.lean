import SceneText.Command.Arguments
import SceneText.Session

/-!
# Command lines of tools

What all tools share: reading their arguments in a session and telling kinds of faults apart.
-/

namespace SceneText

namespace Fault

def isMissingFile : Fault → Bool
  | .file .missing _ _ => true
  | .refused (.inputMissing _) => true
  | _ => false

def isBadDocument : Fault → Bool
  | .document (.numeralTooLong _) _ _ _ | .document .loneSurrogate _ _ _ => false
  | .document _ _ _ _ => true
  | _ => false

end Fault

namespace Run

def usage : String := "<usage>"

def arguments (result : Except Arguments.Early Arguments.Values) : Run Arguments.Values :=
  match result with
  | .ok values => pure values
  | .error .help => do
    emit usage
    exit 0
  | .error .mistake => do
    emitError usage
    exit 2

def pathOf (value : Arguments.Value) : Run String :=
  match value with
  | some path => pure path
  | none => fail (.misuse (.notPath "list"))

end Run
end SceneText
