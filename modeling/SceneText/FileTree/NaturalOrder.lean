import SceneText.Session
import SceneText.Text.Lowercase
import SceneText.Text.Numeral

/-!
# Natural order of files

Files are listed in the order of their relative paths, in which runs of digits count by value and
the text between them regardless of case. A path is cut into text and digits by turns, starting and
ending with text, so that keys never meet a number with a text.
-/

namespace SceneText

namespace NaturalOrder

/-- Cuts a text at its runs of decimal digits: text, digits, text, and so on. `inDigits` says which
of them is open. -/
def cut (inDigits : Bool) (open_ : List Char) : List Char → List (List Char)
  | [] => if inDigits then [open_, []] else [open_]
  | c :: rest =>
    if Text.isDecimal c = inDigits then cut inDigits (open_ ++ [c]) rest
    else open_ :: cut (!inDigits) [c] rest

def pieces (text : List Char) : List (List Char) :=
  cut false [] text

inductive Piece
  | text (folded : List Char)
  | number (value : Int)
  deriving DecidableEq, Repr

/-- The key of a piece. A piece of nothing but digits is read as a number, which fails for digits
without a place value. -/
def pieceKey (piece : List Char) : Except Fault Piece :=
  if !piece.isEmpty && piece.all Text.isDigit then
    match Numeral.read piece with
    | .ok n => .ok (.number n)
    | .error .malformed => .error (.notNumeral (String.ofList piece))
    | .error (.tooLong n) => .error (.numeralTooLong n)
  else .ok (.text (Text.lowerChars piece))

def keyOf (path : String) : Except Fault (List Piece) :=
  (pieces path.toList).mapM pieceKey

def compareText : List Char → List Char → Ordering
  | [], [] => .eq
  | [], _ :: _ => .lt
  | _ :: _, [] => .gt
  | a :: as, b :: bs =>
    if a.toNat < b.toNat then .lt else if b.toNat < a.toNat then .gt else compareText as bs

def Piece.compare? : Piece → Piece → Option Ordering
  | .text a, .text b => some (compareText a b)
  | .number a, .number b => some (if a < b then .lt else if b < a then .gt else .eq)
  | _, _ => none

/-- The order of keys by their first difference; the shorter of two equal heads comes first. -/
def compare? : List Piece → List Piece → Option Ordering
  | [], [] => some .eq
  | [], _ :: _ => some .lt
  | _ :: _, [] => some .gt
  | a :: as, b :: bs =>
    match a.compare? b with
    | some .eq => compare? as bs
    | other => other

def atMost (a b : List Piece) : Bool :=
  compare? a b ≠ some .gt

def sortKeyed (keyed : List (List Piece × String)) : List String :=
  (keyed.mergeSort fun a b => atMost a.1 b.1).map Prod.snd

end NaturalOrder

namespace Run

def suffixMatches (suffix : Option String) (name : String) : Bool :=
  match suffix with
  | none => true
  | some s => Text.endsWith (Text.lowerChars name.toList) (Text.lowerChars s.toList)

def keyed (path file : String) : Run (List NaturalOrder.Piece × String) := do
  return (← lift (NaturalOrder.keyOf (← relative file path)), file)

def sortListed (path : String) (listed : List String) : Run (List String) := do
  return NaturalOrder.sortKeyed (← listed.mapM (keyed path))

def collectFiles (path : String) (suffix : Option String) : Run (List String) := do
  if !(← isDirectory path) then
    say s!"错误: {path} 不是文件夹路径"
    exit 1
  else
    let found := (← walk path).flatMap fun visit =>
      (visit.files.filter (suffixMatches suffix)).map (Path.join visit.path)
    sortListed path found

/-- All files below a directory with a suffix that may be any value. It takes a file to find that a
suffix is no text. -/
def collectFilesBy (path : String) (suffix : Json) : Run (List String) := do
  match suffix with
  | .null => collectFiles path none
  | .str s => collectFiles path (some s)
  | v =>
    let files ← collectFiles path none
    if files.isEmpty then return files else fail (.misuse (.noOperation v.kind "lower"))

end Run
end SceneText
