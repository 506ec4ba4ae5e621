import SceneText.FileTree.Changes
import SceneText.Pipeline.Commands
import SceneText.Tool.ByteOrderMark
import SceneText.Tool.Duplicates
import SceneText.Tool.Lengths
import SceneText.Tool.MergeSplit
import SceneText.Tool.Missing
import SceneText.Tool.PrivateCharacters
import SceneText.Tool.Renaming
import SceneText.Tool.ShortMessages
import SceneText.Tool.Trial

/-!
# Command line

The first word names a tool and the other words are the tool's own. The working directory and what
is below it become the file tree of a session; the tool runs there, and what it changed is carried
out on the files. A link counts as one to the place that it leads to in the end. The pipeline's
commands for tools run in the same session, other commands are not found.
-/

namespace SceneText.CommandLine

def emptyShell : Shell where
  run _ := pure (some { code := 127 })

def tools : List (String × (List String → Run Unit)) :=
  [("project", Pipeline.main (Shell.within Pipeline.toolNamed emptyShell)),
   ("archive", ArchiveTool.main),
   ("listing", ListingTool.main),
   ("dialogue", DialogueTool.main),
   ("review", ReviewTool.main),
   ("prepare", PreparationTool.main),
   ("widen", fun _ => FullWidthTool.main),
   ("wrap", WrapTool.main),
   ("truncate", fun _ => TruncationTool.main),
   ("substitute", SubstitutionTool.main),
   ("pad", PaddingTool.main),
   ("lengths", LengthsTool.main),
   ("short", ShortMessagesTool.main),
   ("combine", MergeSplitTool.main),
   ("rename", fun _ => RenamingTool.main),
   ("duplicates", DuplicatesTool.main),
   ("missing", fun _ => MissingTool.main),
   ("private", fun _ => PrivateCharactersTool.main),
   ("unmark", ByteOrderMarkTool.main),
   ("trial-kana", TrialTool.main .kana),
   ("trial-uniform", TrialTool.main .uniform),
   ("trial-tagged", TrialTool.main .tagged),
   ("trial-clipped", TrialTool.main .clipped)]

def runIn (session : Session) (tool : Run Unit) : Outcome × FileTree :=
  match (Run.isolated tool).run.run session with
  | (.ok outcome, after) => (outcome, after.tree)
  | (.error _, after) => ({ code := 1 }, after.tree)

def faultLine (outcome : Outcome) : String :=
  match outcome.fault with
  | some fault => fault.message ++ "\n"
  | none => ""

/-- Every directory on a path takes at least two of its bytes. -/
def depthLimit : Nat := FileTree.pathLimit / 2

/-- A file that cannot be opened for more to be written is protected. -/
def isProtected (entry : IO.FS.DirEntry) : IO Bool := do
  match ← (IO.FS.Handle.mk entry.path .append).toBaseIO with
  | .ok _ => return false
  | .error _ => return true

def readEntry : Nat → Location → IO.FS.DirEntry → IO (List (Location × Node))
  | 0, _, entry => throw (IO.userError s!"too deep: {entry.path}")
  | depth + 1, above, entry => do
    let here := above ++ [entry.fileName]
    match (← entry.path.symlinkMetadata).type with
    | .dir =>
      let below ← (← entry.path.readDir).toList.mapM (readEntry depth here)
      return (here, .directory) :: below.flatten
    | .file =>
      return [(here, .file (← IO.FS.readBinFile entry.path).toList (← isProtected entry))]
    | .symlink =>
      let target ← if ← entry.path.pathExists then IO.FS.realPath entry.path else pure ""
      return [(here, .link target.toString)]
    | .other => return [(here, .device)]

def readTree : IO (Location × FileTree) := do
  let dir ← IO.currentDir
  let here := (Path.parts dir.toString).filter fun part => !part.isEmpty
  let above := (List.range here.length).map fun n => (here.take (n + 1), Node.directory)
  let below ← (← dir.readDir).toList.mapM (readEntry depthLimit here)
  return (here, ⟨above ++ below.flatten⟩)

def pathOf (loc : Location) : String :=
  "/" ++ "/".intercalate loc

def carryOut : FileTree.Change → IO Unit
  | .removeFile loc => IO.FS.removeFile (pathOf loc)
  | .removeDirectory loc => IO.FS.removeDirAll (pathOf loc)
  | .makeDirectory loc => IO.FS.createDirAll (pathOf loc)
  | .makeLink loc _ => throw (IO.userError s!"links cannot be made: {pathOf loc}")
  | .writeFile loc bytes readOnly => do
    IO.FS.writeBinFile (pathOf loc) (ByteArray.mk bytes.toArray)
    if readOnly then
      let right : IO.AccessRight := { read := true }
      IO.setAccessRights (pathOf loc) { user := right, group := right, other := right }

def readVariables : IO (List (String × String)) := do
  let found ← [Pipeline.projectVariable, flagsVariable].mapM fun name => do
    return (← IO.getEnv name).map fun value => (name, value)
  return found.filterMap id

def perform (tool : Run Unit) : IO UInt32 := do
  let (here, tree) ← readTree
  let session : Session := { tree := tree, workDir := here, environment := ← readVariables }
  let (outcome, after) := runIn session tool
  (tree.changes after).forM carryOut
  IO.print outcome.out
  IO.eprint (outcome.err ++ faultLine outcome)
  return UInt32.ofNat (outcome.code % 256).toNat

def overview : String :=
  "tools: " ++ ", ".intercalate (tools.map Prod.fst)

end SceneText.CommandLine

def main (words : List String) : IO UInt32 := do
  match words with
  | name :: rest =>
    match SceneText.CommandLine.tools.lookup name with
    | some tool => SceneText.CommandLine.perform (tool rest)
    | none =>
      IO.eprintln SceneText.CommandLine.overview
      return 2
  | [] =>
    IO.eprintln SceneText.CommandLine.overview
    return 2
