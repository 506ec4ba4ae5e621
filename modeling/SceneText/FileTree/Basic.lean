import SceneText.FileTree.Path
import SceneText.Fault

/-!
# File trees

A file tree assigns a node to locations, which are names from the root down. The root is always a
directory. A path is followed name by name: links are replaced by their targets, a bounded number of
times, and a name is looked up only in a directory.
-/

namespace SceneText

abbrev Location := List String

inductive Node
  | file (bytes : List UInt8) (readOnly : Bool)
  | directory
  | link (target : String)
  | device
  deriving DecidableEq, Repr

structure FileTree where
  entries : List (Location × Node)
  deriving DecidableEq, Repr

namespace FileTree

def find? (tree : FileTree) (loc : Location) : Option Node :=
  if loc.isEmpty then some .directory else tree.entries.lookup loc

def insertEntry (loc : Location) (node : Node) : List (Location × Node) → List (Location × Node)
  | [] => [(loc, node)]
  | (l, n) :: rest => if l = loc then (l, node) :: rest else (l, n) :: insertEntry loc node rest

def insert (tree : FileTree) (loc : Location) (node : Node) : FileTree :=
  ⟨insertEntry loc node tree.entries⟩

def erase (tree : FileTree) (loc : Location) : FileTree :=
  ⟨tree.entries.filter fun e => e.1 ≠ loc⟩

def eraseAll (tree : FileTree) (loc : Location) : FileTree :=
  ⟨tree.entries.filter fun e => !loc.isPrefixOf e.1⟩

def eraseBelow (tree : FileTree) (loc : Location) : FileTree :=
  ⟨tree.entries.filter fun e => e.1 = loc || !loc.isPrefixOf e.1⟩

def move (tree : FileTree) (source target : Location) : FileTree :=
  ⟨tree.entries.map fun (l, n) =>
    if source.isPrefixOf l then (target ++ l.drop source.length, n) else (l, n)⟩

def names (tree : FileTree) (loc : Location) : List String :=
  (tree.entries.filterMap fun (l, _) =>
    if l.length = loc.length + 1 && loc.isPrefixOf l then l.getLast? else none).mergeSort
    fun a b => !(b < a)

def linkLimit : Nat := 40

/-- Where following names got to: a location, or a link on the way. -/
inductive Progress
  | arrived (loc : Location)
  | link (base : Location) (target : String) (rest : List String)

/-- Follows names up to the next link. The last name may be new; whether a link in the last place
counts is up to `lastToo`. -/
def advance (tree : FileTree) (lastToo : Bool) : Location → List String → Except FileCause Progress
  | here, [] => .ok (.arrived here)
  | here, name :: rest =>
    match tree.find? here with
    | none => .error .missing
    | some .directory =>
      if name.isEmpty || name = "." then advance tree lastToo here rest
      else if name = ".." then advance tree lastToo here.dropLast rest
      else if name.utf8ByteSize > 255 then .error .nameTooLong
      else match tree.find? (here ++ [name]) with
        | some (.link target) =>
          if rest.isEmpty && !lastToo then .ok (.arrived (here ++ [name]))
          else .ok (.link here target rest)
        | some _ => advance tree lastToo (here ++ [name]) rest
        | none => if rest.isEmpty then .ok (.arrived (here ++ [name])) else .error .missing
    | some _ => .error .notDirectory

def namesOf (path : String) : List String :=
  let names := (Path.parts path).filter fun p => !p.isEmpty
  if Text.hasSuffix path "/" then names ++ ["."] else names

def followFrom (tree : FileTree) (lastToo : Bool) :
    Nat → Location → List String → Except FileCause Location
  | 0, _, _ => .error .tooManyLinks
  | budget + 1, here, names =>
    match tree.advance lastToo here names with
    | .error cause => .error cause
    | .ok (.arrived loc) => .ok loc
    | .ok (.link base target rest) =>
      if target.isEmpty then .error .missing
      else
        followFrom tree lastToo budget (if Path.isAbsolute target then [] else base)
          (namesOf target ++ rest)

def pathLimit : Nat := 4096

def isOverlong (path : String) : Bool :=
  pathLimit ≤ path.utf8ByteSize

/-- The location of a path as seen from a working directory. The empty path leads nowhere. -/
def locate (tree : FileTree) (lastToo : Bool) (workDir : Location) (path : String) :
    Except FileCause Location :=
  if path.isEmpty then .error .missing
  else if isOverlong path then .error .nameTooLong
  else
    tree.followFrom lastToo (linkLimit + 1) (if Path.isAbsolute path then [] else workDir)
      (namesOf path)

def stat (tree : FileTree) (workDir : Location) (path : String) :
    Except FileCause (Location × Node) :=
  match tree.locate true workDir path with
  | .error cause => .error cause
  | .ok loc =>
    match tree.find? loc with
    | some node => .ok (loc, node)
    | none => .error .missing

def linkStat (tree : FileTree) (workDir : Location) (path : String) :
    Except FileCause (Location × Node) :=
  match tree.locate false workDir path with
  | .error cause => .error cause
  | .ok loc =>
    match tree.find? loc with
    | some node => .ok (loc, node)
    | none => .error .missing

/-- Follows names and all links among them without asking whether anything is there: a name that is
not there stands for itself. Links that lead back to themselves use up the steps. -/
def resolveFrom (tree : FileTree) : Nat → Location → List String → Option Location
  | _, here, [] => some here
  | 0, _, _ :: _ => none
  | steps + 1, here, name :: rest =>
    if name.isEmpty || name = "." then resolveFrom tree steps here rest
    else if name = ".." then resolveFrom tree steps here.dropLast rest
    else match tree.find? (here ++ [name]) with
      | some (.link target) =>
        resolveFrom tree steps (if Path.isAbsolute target then [] else here)
          (Path.parts target ++ rest)
      | _ => resolveFrom tree steps (here ++ [name]) rest

/-- The place that a path stands for once its links are followed; none if they go round in a
circle. -/
def resolve? (tree : FileTree) (workDir : Location) (path : String) : Option Location :=
  tree.resolveFrom 65536 (if Path.isAbsolute path then [] else workDir) (Path.parts path)

def present (tree : FileTree) (workDir : Location) (path : String) : Bool :=
  (tree.stat workDir path).toOption.isSome

def isFile (tree : FileTree) (workDir : Location) (path : String) : Bool :=
  match tree.stat workDir path with
  | .ok (_, .file _ _) => true
  | _ => false

def isDirectory (tree : FileTree) (workDir : Location) (path : String) : Bool :=
  match tree.stat workDir path with
  | .ok (_, .directory) => true
  | _ => false

def isLink (tree : FileTree) (workDir : Location) (path : String) : Bool :=
  match tree.linkStat workDir path with
  | .ok (_, .link _) => true
  | _ => false

end FileTree
end SceneText
