import SceneText.FileTree.Basic

/-!
# Operations on file trees

Reading, writing, making and removing, each with the causes that keep it from being carried out.
Writing follows links; renaming and removing act on a link itself.
-/

namespace SceneText.FileTree

def read (tree : FileTree) (workDir : Location) (path : String) : Except FileCause (List UInt8) :=
  match tree.stat workDir path with
  | .error cause => .error cause
  | .ok (_, .file bytes _) => .ok bytes
  | .ok (_, .directory) => .error .isDirectory
  | .ok _ => .ok []

def size (tree : FileTree) (workDir : Location) (path : String) : Except FileCause Nat :=
  match tree.stat workDir path with
  | .error cause => .error cause
  | .ok (_, .file bytes _) => .ok bytes.length
  | .ok (_, .directory) => .ok 4096
  | .ok _ => .ok 0

def withoutTrailingSlash (path : String) : String :=
  match Path.dropTrailingSlashes path.toList with
  | [] => path
  | chars => String.ofList chars

structure Entrance where
  directory : Location
  name : String
  slash : Bool
  deriving DecidableEq, Repr

def entrance (tree : FileTree) (workDir : Location) (path : String) : Except FileCause Entrance :=
  let bare := withoutTrailingSlash path
  let (head, name) := Path.splitLast bare.toList
  let above := if path.isEmpty then "" else if head.isEmpty then "." else String.ofList head
  if isOverlong path then .error .nameTooLong
  else match tree.stat workDir above with
  | .error cause => .error cause
  | .ok (loc, .directory) => .ok ⟨loc, String.ofList name, bare ≠ path⟩
  | .ok _ => .error .notDirectory

/-- The location that opening a path for writing leads to. A file cannot be asked for as a
directory, whatever is there. -/
def writeLocation (tree : FileTree) (workDir : Location) (path : String) :
    Except FileCause Location :=
  match tree.entrance workDir path with
  | .error cause => .error cause
  | .ok place =>
    if place.slash then .error .isDirectory
    else match tree.locate true workDir path with
      | .error cause => .error cause
      | .ok loc =>
        match tree.find? loc with
        | some .directory => .error .isDirectory
        | some (.file _ true) => .error .denied
        | _ => .ok loc

def write (tree : FileTree) (workDir : Location) (path : String) (bytes : List UInt8) :
    Except FileCause FileTree :=
  match tree.writeLocation workDir path with
  | .error cause => .error cause
  | .ok loc =>
    match tree.find? loc with
    | some .device => .ok tree
    | _ => .ok (tree.insert loc (.file bytes false))

/-- Makes a file as write-protected as another one is. -/
def protectLike (tree : FileTree) (workDir : Location) (source target : String) : FileTree :=
  match tree.stat workDir source, tree.stat workDir target with
  | .ok (_, .file _ readOnly), .ok (loc, .file bytes _) => tree.insert loc (.file bytes readOnly)
  | _, _ => tree

def append (tree : FileTree) (workDir : Location) (path : String) (bytes : List UInt8) :
    Except FileCause FileTree :=
  match tree.writeLocation workDir path with
  | .error cause => .error cause
  | .ok loc =>
    match tree.find? loc with
    | some .device => .ok tree
    | some (.file old _) => .ok (tree.insert loc (.file (old ++ bytes) false))
    | _ => .ok (tree.insert loc (.file bytes false))

def makeDirectory (tree : FileTree) (workDir : Location) (path : String) :
    Except FileCause FileTree :=
  if isOverlong path then .error .nameTooLong
  else match tree.locate false workDir (withoutTrailingSlash path) with
  | .error cause => .error cause
  | .ok loc =>
    match tree.find? loc with
    | some _ => .error .alreadyThere
    | none => .ok (tree.insert loc .directory)

def list (tree : FileTree) (workDir : Location) (path : String) : Except FileCause (List String) :=
  match tree.stat workDir path with
  | .error cause => .error cause
  | .ok (loc, .directory) => .ok (tree.names loc)
  | .ok _ => .error .notDirectory

def isDotName (name : String) : Bool :=
  name.isEmpty || name = "." || name = ".."

def remove (tree : FileTree) (workDir : Location) (path : String) : Except FileCause FileTree := do
  let place ← tree.entrance workDir path
  if isDotName place.name then throw .isDirectory
  if place.name.utf8ByteSize > 255 then throw .nameTooLong
  let loc := place.directory ++ [place.name]
  match tree.find? loc with
  | none => throw .missing
  | some .directory => throw .isDirectory
  | some _ => if place.slash then throw .notDirectory else return tree.erase loc

/-- Whether a node may take the place of another: a directory only that of an empty directory, and
any other node only that of a node that is no directory. -/
def replacement (tree : FileTree) (node : Node) (there : Location) : Except FileCause FileTree :=
  match node, tree.find? there with
  | _, none => .ok tree
  | .directory, some .directory =>
    if (tree.names there).isEmpty then .ok (tree.erase there) else .error .notEmpty
  | .directory, some _ => .error .notDirectory
  | _, some .directory => .error .isDirectory
  | _, some _ => .ok (tree.erase there)

/-- Gives a node another path. A directory cannot move into itself. -/
def rename (tree : FileTree) (workDir : Location) (source target : String) :
    Except FileCause FileTree := do
  let s ← tree.entrance workDir source
  let t ← tree.entrance workDir target
  if isDotName s.name || isDotName t.name then throw .busy
  if s.name.utf8ByteSize > 255 then throw .nameTooLong
  let here := s.directory ++ [s.name]
  let there := t.directory ++ [t.name]
  match tree.find? here with
  | none => throw .missing
  | some node =>
    if t.name.utf8ByteSize > 255 then throw .nameTooLong
    if node ≠ .directory && (s.slash || t.slash) then throw .notDirectory
    if here = there then return tree
    if here.isPrefixOf there then throw .invalid
    if there.isPrefixOf here then throw .notEmpty
    return (← tree.replacement node there).move here there

structure Visit where
  path : String
  directories : List String
  files : List String
  deriving DecidableEq, Repr

/-- Walks a directory and the directories below it, links left aside; what is no directory gives
nothing. -/
def walkWithin (tree : FileTree) (workDir : Location) : Nat → String → List Visit
  | 0, _ => []
  | depth + 1, top =>
    match tree.list workDir top with
    | .error _ => []
    | .ok names =>
      let dirs := names.filter fun n => tree.isDirectory workDir (Path.join top n)
      let files := names.filter fun n => !tree.isDirectory workDir (Path.join top n)
      let below := dirs.filter fun n => !tree.isLink workDir (Path.join top n)
      ⟨top, dirs, files⟩ :: below.flatMap fun n => walkWithin tree workDir depth (Path.join top n)

/-- A walk never goes deeper than the tree has entries. -/
def walk (tree : FileTree) (workDir : Location) (top : String) : List Visit :=
  tree.walkWithin workDir (tree.entries.length + 2) top

end SceneText.FileTree
