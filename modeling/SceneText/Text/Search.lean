/-!
# Searching and replacing in text

Occurrences are taken from the left and do not overlap. Replacing the empty text puts the
replacement before every character and at the end.
-/

namespace SceneText.Text

def occurs (needle : List Char) : List Char → Bool
  | [] => needle.isEmpty
  | c :: rest => needle.isPrefixOf (c :: rest) || occurs needle rest

def endsWith (text tail : List Char) : Bool :=
  tail.reverse.isPrefixOf text.reverse

/-- Replaces occurrences, after passing over `skip` characters of one already replaced. -/
def replaceFrom (needle replacement : List Char) : Nat → List Char → List Char
  | _, [] => []
  | skip + 1, _ :: rest => replaceFrom needle replacement skip rest
  | 0, c :: rest =>
    if needle.isPrefixOf (c :: rest) then
      replacement ++ replaceFrom needle replacement (needle.length - 1) rest
    else c :: replaceFrom needle replacement 0 rest

def replaceAll (needle replacement text : List Char) : List Char :=
  if needle.isEmpty then replacement ++ text.flatMap fun c => c :: replacement
  else replaceFrom needle replacement 0 text

/-- Counts occurrences, after passing over `skip` characters of one already counted. -/
def countFrom (needle : List Char) : Nat → List Char → Nat
  | _, [] => 0
  | skip + 1, _ :: rest => countFrom needle skip rest
  | 0, c :: rest =>
    if needle.isPrefixOf (c :: rest) then countFrom needle (needle.length - 1) rest + 1
    else countFrom needle 0 rest

def count (needle text : List Char) : Nat :=
  countFrom needle 0 text

def splitFirst (mark : Char) : List Char → Option (List Char × List Char)
  | [] => none
  | c :: rest =>
    if c = mark then some ([], rest)
    else (splitFirst mark rest).map fun (before, after) => (c :: before, after)

def splitAll (mark : Char) : List Char → List (List Char)
  | [] => [[]]
  | c :: rest =>
    if c = mark then [] :: splitAll mark rest
    else match splitAll mark rest with
      | [] => [[c]]
      | part :: parts => (c :: part) :: parts

def join (separator : List Char) : List (List Char) → List Char
  | [] => []
  | [part] => part
  | part :: parts => part ++ separator ++ join separator parts

def replace (text needle replacement : String) : String :=
  String.ofList (replaceAll needle.toList replacement.toList text.toList)

def contains (text needle : String) : Bool :=
  occurs needle.toList text.toList

def hasPrefix (text start : String) : Bool :=
  start.toList.isPrefixOf text.toList

def hasSuffix (text tail : String) : Bool :=
  endsWith text.toList tail.toList

end SceneText.Text
