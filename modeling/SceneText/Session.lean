import SceneText.FileTree.Glob
import SceneText.Json.Access
import SceneText.Json.Writer
import SceneText.Text.Lines

/-!
# Sessions

A tool runs in a session: a file tree with a working directory, two output channels, variables, and
a shell to give commands to. A run either yields a value or stops; what it did to the session before
it stopped remains done.
-/

namespace SceneText

structure Reply where
  code : Int := 0
  out : String := ""
  err : String := ""
  files : List (String × List UInt8) := []
  timedOut : Bool := false
  deriving Repr

structure CommandRecord where
  text : String
  directory : Option String := none
  flags : Option String := none
  exit : Option Int := none
  raised : Option Fault := none

structure Session where
  tree : FileTree
  workDir : Location
  out : String := ""
  err : String := ""
  environment : List (String × String) := []
  tickets : Nat := 0
  replies : List Reply := []
  commands : List CommandRecord := []

abbrev Run (α : Type) := ExceptT Stop (StateM Session) α

namespace Run

def fail {α : Type} (fault : Fault) : Run α :=
  throw (.fault fault)

def refuse {α : Type} (reason : Refusal) : Run α :=
  fail (.refused reason)

def exit {α : Type} (code : Int) : Run α :=
  throw (.exit code)

def lift {α : Type} (x : Except Fault α) : Run α :=
  match x with
  | .ok v => pure v
  | .error fault => fail fault

/-- Runs and reports a fault as a value. Giving up is not a fault and goes on, and a run that never
ends reports nothing. -/
def attempt {α : Type} (x : Run α) : Run (Except Fault α) :=
  ExceptT.mk do
    match ← x.run with
    | .ok v => pure (.ok (.ok v))
    | .error (.fault .endless) => pure (.error (.fault .endless))
    | .error (.fault fault) => pure (.ok (.error fault))
    | .error (.exit code) => pure (.error (.exit code))

def emit (text : String) : Run Unit :=
  modify fun s => { s with out := s.out ++ text }

def emitError (text : String) : Run Unit :=
  modify fun s => { s with err := s.err ++ text }

def say (line : String) : Run Unit :=
  modify fun s => { s with out := s.out ++ line ++ "\n" }

def complain (line : String) : Run Unit :=
  modify fun s => { s with err := s.err ++ line ++ "\n" }

def sayAll (lines : List String) : Run Unit :=
  lines.forM say

def exitWith {α : Type} (line : String) : Run α := do
  complain line
  exit 1

def fileFault {α : Type} (path : String) (cause : FileCause) : Run α :=
  fail (.file cause path none)

def query {α : Type} (ask : FileTree → Location → α) : Run α := do
  let s ← get
  return ask s.tree s.workDir

/-- A path that can be given to a file operation has no zero byte in it. -/
def checkPath (path : String) : Run Unit :=
  if path.toList.contains '\x00' then fail .zeroInPath else pure ()

def inquire {α : Type} (path : String) (ask : FileTree → Location → Except FileCause α) :
    Run α := do
  checkPath path
  match ← query ask with
  | .ok v => return v
  | .error cause => fileFault path cause

def change (path : String) (act : FileTree → Location → Except FileCause FileTree) : Run Unit := do
  checkPath path
  let s ← get
  match act s.tree s.workDir with
  | .ok tree => set { s with tree := tree }
  | .error cause => fileFault path cause

def present (path : String) : Run Bool :=
  query fun tree dir => tree.present dir path

def isFile (path : String) : Run Bool :=
  query fun tree dir => tree.isFile dir path

def isDirectory (path : String) : Run Bool :=
  query fun tree dir => tree.isDirectory dir path

/-- What is at a path, links followed; a name that no file can have is a fault. -/
def nodeAt? (path : String) : Run (Option Node) := do
  match ← query fun tree dir => tree.stat dir path with
  | .ok (_, node) => return some node
  | .error .nameTooLong => fileFault path .nameTooLong
  | .error _ => return none

def occupied (path : String) : Run Bool := do
  return (← nodeAt? path).isSome

def holdsFile (path : String) : Run Bool := do
  match ← nodeAt? path with
  | some (.file _ _) => return true
  | _ => return false

def holdsDirectory (path : String) : Run Bool := do
  return (← nodeAt? path) = some .directory

def readBytes (path : String) : Run (List UInt8) :=
  inquire path fun tree dir => tree.read dir path

def writeBytes (path : String) (bytes : List UInt8) : Run Unit :=
  change path fun tree dir => tree.write dir path bytes

def appendBytes (path : String) (bytes : List UInt8) : Run Unit :=
  change path fun tree dir => tree.append dir path bytes

def sizeOf (path : String) : Run Nat :=
  inquire path fun tree dir => tree.size dir path

def listNames (path : String) : Run (List String) :=
  inquire path fun tree dir => tree.list dir path

def walk (top : String) : Run (List FileTree.Visit) := do
  checkPath top
  query fun tree dir => tree.walk dir top

def removeFile (path : String) : Run Unit :=
  change path fun tree dir => tree.remove dir path

def rename (source target : String) : Run Unit := do
  checkPath source
  checkPath target
  let s ← get
  match s.tree.rename s.workDir source target with
  | .ok tree => set { s with tree := tree }
  | .error cause => fail (.file cause source (some target))

/-- Text of a file, with every kind of line end read as a line feed. -/
def readChars (path : String) : Run (List Char) := do
  match Utf8.decode (← readBytes path) with
  | .ok chars => return Text.plainNewlines chars
  | .error defect => fail (.notUtf8 defect)

def writeText (path : String) (text : String) : Run Unit :=
  writeBytes path (Utf8.encode text.toList)

/-- What keeps a text from being a document: a defect, or a bracket before it that nests too
deep. -/
def documentFault (text : List Char) (defect : Json.Defect) : Fault :=
  let (line, column) := Json.lineColumn text defect.position
  let fault := Fault.document defect.kind line column defect.position
  match Json.beyond? text with
  | some (pos, bracket) => if pos < defect.position then .nestedTooDeep bracket else fault
  | none => fault

def parseJson (text : List Char) : Except Fault Json :=
  match Json.read text with
  | .ok v =>
    if v.depth ≤ Json.maxDepth then .ok v
    else .error (.nestedTooDeep (((Json.beyond? text).map Prod.snd).getD .square))
  | .error defect => .error (documentFault text defect)

def readJson (path : String) : Run Json := do
  lift (parseJson (← readChars path))

def writeJson (path : String) (v : Json) : Run Unit :=
  writeText path v.indented

def splitForMaking (path : String) : String × String :=
  let tail := Path.base path
  if tail.isEmpty then (Path.directory (Path.directory path), Path.base (Path.directory path))
  else (Path.directory path, tail)

/-- Makes a directory; one that is there already is fine if `existing` allows it. -/
def makeDirectory (existing : Bool) (path : String) : Run Unit := do
  match ← attempt (change path fun tree dir => tree.makeDirectory dir path) with
  | .ok _ => pure ()
  | .error fault => if existing && (← isDirectory path) then pure () else fail fault

def makeDirectoriesWithin (existing : Bool) : Nat → String → Run Unit
  | 0, path => makeDirectory existing path
  | depth + 1, path => do
    let (head, tail) := splitForMaking path
    if !head.isEmpty && !tail.isEmpty && !(← present head) then
      match ← attempt (makeDirectoriesWithin existing depth head) with
      | .ok _ => pure ()
      | .error (.file .alreadyThere _ _) => pure ()
      | .error fault => fail fault
      if tail = "." then return ()
    makeDirectory existing path

def makeDirectories (existing : Bool) (path : String) : Run Unit :=
  makeDirectoriesWithin existing path.length path

/-- Makes a directory given in clean form, and those above it where they are missing. -/
def makeCleanWithin : Nat → Path.Clean → Run Unit
  | 0, path => makeDirectory true path.toText
  | depth + 1, path => do
    match ← attempt (makeDirectory true path.toText) with
    | .ok _ => pure ()
    | .error (.file .missing place target) =>
      if path.parent = path then fail (.file .missing place target)
      else
        makeCleanWithin depth path.parent
        makeDirectory true path.toText
    | .error fault => fail fault

def makeClean (path : Path.Clean) : Run Unit :=
  makeCleanWithin path.parts.length path

/-- Removes a directory with everything in it, but not through a link. A directory named by its
dots alone can be emptied and not removed. -/
def removeTree (path : String) : Run Unit := do
  checkPath path
  let s ← get
  match s.tree.linkStat s.workDir path with
  | .error cause => fileFault path cause
  | .ok (_, .link _) =>
    match s.tree.stat s.workDir path with
    | .ok _ => fail .linkedTree
    | .error cause => fileFault path cause
  | .ok (loc, .directory) =>
    let bare := FileTree.withoutTrailingSlash path
    let emptied := s.tree.eraseBelow loc
    if Path.base bare = "." then
      set { s with tree := emptied }
      fileFault path .invalid
    else if Path.base bare = ".." then
      set { s with tree := emptied }
      match emptied.entrance s.workDir path with
      | .error cause => fileFault path cause
      | .ok _ => fileFault path .notEmpty
    else set { s with tree := s.tree.eraseAll loc }
  | .ok _ => fileFault path .notDirectory

def workPath : Run Path.Clean := do
  return ⟨"/", (← get).workDir⟩

/-- The place of a path from the root, without dots and without looking at the tree. -/
def absolute (path : String) : Run (List String) :=
  query fun _ dir => Path.absoluteParts dir path

def relative (path start : String) : Run String := do
  if path.isEmpty then fail .emptyPath
  else return Path.between (← absolute start) (← absolute path)

end Run
end SceneText
