import SceneText.Text.Search

/-!
# Path text

Paths are texts with slashes. Some operations work on the text as it is; others go through a clean
form without empty parts and single dots.
-/

namespace SceneText.Path

def join (a b : String) : String :=
  if Text.hasPrefix b "/" then b
  else if a.isEmpty || Text.hasSuffix a "/" then a ++ b
  else a ++ "/" ++ b

def splitLast (path : List Char) : List Char × List Char :=
  let tail := (path.reverse.takeWhile (· ≠ '/')).reverse
  (path.take (path.length - tail.length), tail)

def dropTrailingSlashes (path : List Char) : List Char :=
  (path.reverse.dropWhile (· = '/')).reverse

/-- The directory part: everything before the last slash, without slashes at its end unless it is
nothing but slashes. -/
def directory (path : String) : String :=
  let head := (splitLast path.toList).1
  if head.all (· = '/') then String.ofList head else String.ofList (dropTrailingSlashes head)

def base (path : String) : String :=
  String.ofList (splitLast path.toList).2

def isAbsolute (path : String) : Bool :=
  Text.hasPrefix path "/"

def parts (path : String) : List String :=
  (Text.splitAll '/' path.toList).map String.ofList

def pushPart (done : List String) (part : String) : List String :=
  if part.isEmpty || part = "." then done
  else if part = ".." then done.dropLast
  else done ++ [part]

/-- Takes parts of a relative path, where a double dot that nothing stands before remains. -/
def pushRelative (done : List String) (part : String) : List String :=
  if part = ".." && (done.isEmpty || done.getLast? = some "..") then done ++ [part]
  else pushPart done part

def collapsed (path : String) : String :=
  if isAbsolute path then "/" ++ "/".intercalate ((parts path).foldl pushPart [])
  else "/".intercalate ((parts path).foldl pushRelative [])

def absoluteParts (workDir : List String) (path : String) : List String :=
  (parts path).foldl pushPart (if isAbsolute path then [] else workDir)

def commonLength : List String → List String → Nat
  | a :: as, b :: bs => if a = b then commonLength as bs + 1 else 0
  | _, _ => 0

def between (start target : List String) : String :=
  let n := commonLength start target
  let steps := List.replicate (start.length - n) ".." ++ target.drop n
  if steps.isEmpty then "." else "/".intercalate steps

/-- A path in clean form. The root is empty, one slash, or two slashes. -/
structure Clean where
  root : String
  parts : List String
  deriving DecidableEq, Repr

namespace Clean

def rootOf (path : String) : String :=
  match path.toList.takeWhile (· = '/') with
  | [] => ""
  | ['/', '/'] => "//"
  | _ => "/"

def ofText (path : String) : Clean :=
  ⟨rootOf path, (Path.parts path).filter fun p => !p.isEmpty && p ≠ "."⟩

def toText (p : Clean) : String :=
  if p.root.isEmpty && p.parts.isEmpty then "." else p.root ++ "/".intercalate p.parts

def append (p : Clean) (path : String) : Clean :=
  let q := ofText path
  if q.root.isEmpty then ⟨p.root, p.parts ++ q.parts⟩ else q

def name (p : Clean) : String :=
  p.parts.getLast?.getD ""

def parent (p : Clean) : Clean :=
  ⟨p.root, p.parts.dropLast⟩

def suffixPlace? (name : List Char) : Option Nat :=
  let tail := (name.reverse.takeWhile (· ≠ '.')).length
  let place := name.length - tail - 1
  if tail = name.length || tail = 0 || place = 0 then none else some place

def stem (p : Clean) : String :=
  match suffixPlace? p.name.toList with
  | some i => String.ofList (p.name.toList.take i)
  | none => p.name

def suffix (p : Clean) : String :=
  match suffixPlace? p.name.toList with
  | some i => String.ofList (p.name.toList.drop i)
  | none => ""

def withName (p : Clean) (name : String) : Clean :=
  ⟨p.root, p.parts.dropLast ++ [name]⟩

end Clean
end SceneText.Path
